import RemoteCopy.WindowMap
import RemoteCopy.Representation
import RemoteCopy.Sizes

/-!
# What the two programs make of their windows

Every step of either program handles its window within the calls that `WindowOp.Allowed` describes,
as long as the other side follows the protocol: the child as long as only what was sent is
acknowledged, the receiver as long as nothing beyond its window comes in. So either window behaves
like the map of the PDUs that the program has added and not removed
(`Server.behavesAsMap_of_traced`, `Rcopy.behavesAsMap_of_traced`), although it is a ring whose slots
are used again and again.
-/

namespace RemoteCopy

namespace WindowOp

variable {w w' w'' : WindowArray} {n : Nat} {es es' : List (Edit Int Bytes)}

/-- Some allowed calls make `w'` of `w`, and are these edits to the map. -/
def Makes (n : Nat) (w : WindowArray) (es : List (Edit Int Bytes)) (w' : WindowArray) : Prop :=
  ∀ log, (system n).Leads (w, log) (w', log ++ es)

theorem Makes.refl : Makes n w [] w := by
  intro log
  rw [List.append_nil]
  exact .refl _

theorem Makes.trans (h : Makes n w es w') (h' : Makes n w' es' w'') :
    Makes n w (es ++ es') w'' := by
  intro log
  rw [← List.append_assoc]
  exact (h log).trans (h' (log ++ es))

theorem Makes.call {op : WindowOp} (hallowed : Allowed w op) (hrun : op.run w = .ok w') :
    Makes n w op.edits w' := by
  intro log
  exact .single ⟨⟨hallowed, hrun⟩, rfl⟩

/-! ## The calls in a row -/

theorem makes_updateHighest (n : Nat) (w : WindowArray) (value : Int) :
    Makes n w [] (w.updateHighest value) := by
  have hallowed : Allowed w (.updateHighest value) := trivial
  exact .call hallowed rfl

theorem makes_addPDU {buf : Bytes} {len : Nat} {x : Int} (hlen : len ≤ buf.length)
    (hfits : len ≤ maxPduLen) (hlow : w.lower ≤ x) (hhigh : x < w.upper)
    (h : w.addPDU buf len x = .ok w') : Makes n w [.insert x (buf.take len)] w' := by
  have htake : (buf.take len).length = len := by rw [List.length_take, Nat.min_eq_left hlen]
  have hallowed : Allowed w (.add (buf.take len) (buf.drop len) x) :=
    ⟨(Nat.le_of_eq htake).trans hfits, hlow, hhigh⟩
  have hrun : (add (buf.take len) (buf.drop len) x).run w = .ok w' := by
    rw [run, List.take_append_drop, htake]
    exact h
  exact .call hallowed hrun

theorem makes_incrementCurrent (hcurrent : 0 ≤ w.current) (hmax : w.current + 1 < 2147483648) :
    Makes n w [] { w with current := w.current + 1 } := by
  have hallowed : Allowed w incrementCurrent := hmax
  exact .call hallowed (incrementCurrent_run hcurrent hmax)

/-- `advance`, where nothing is stored at `lower`. -/
theorem makes_advance (hempty : w.checkPDUValid w.lower = .ok false)
    (h : Rcopy.advance w = .ok w') : Makes n w [] w' := by
  obtain ⟨w₁, hlower, h⟩ := C.bind_eq_ok.mp h
  obtain ⟨w₂, hupper, hcurrent⟩ := C.bind_eq_ok.mp h
  have hedge := (WindowArray.of_incrementUpper hupper).2
  rw [(WindowArray.of_incrementLower hlower).1] at hedge
  have hslide : slide.run w = .ok w₂ := by
    rw [run, hlower]
    exact hupper
  have hallowed : Allowed w slide := ⟨hempty, hedge⟩
  have hallowed' : Allowed w₂ incrementCurrent := (WindowArray.of_incrementCurrent hcurrent).2
  exact (Makes.call hallowed hslide).trans (.call hallowed' hcurrent)

/-- The number at `lower` is removed, and the window moves past it. -/
theorem makes_released {i : Nat} (hindex : w.index w.lower = .ok i) (hlow : 0 ≤ w.lower)
    (hlt : w.lower < w.upper) (hedge : w.upper + 1 < 2147483648) :
    Makes n w [.erase w.lower]
      { w.store i none with lower := w.lower + 1, upper := w.upper + 1 } := by
  have hremove : (remove w.lower).run w = .ok (w.store i none) := by
    rw [run, WindowArray.removePDU, hindex]
    rfl
  have hempty : (w.store i none).checkPDUValid (w.store i none).lower = .ok false := by
    have hindex' : (w.store i none).index w.lower = .ok i := hindex
    rw [WindowArray.store_lower, WindowArray.checkPDUValid, hindex', C.ok_bind,
      WindowArray.slot_store_none]
    rfl
  have hallowed : Allowed w (remove w.lower) := ⟨Int.le_refl _, hlt⟩
  have hallowed' : Allowed (w.store i none) slide := ⟨hempty, hedge⟩
  exact (Makes.call hallowed hremove).trans
    (.call hallowed' (slide_run (w := w.store i none) hlow (Int.le_of_lt hlt) hedge))

/-- `cleaning_up_with_RR`, whatever number it is given. -/
theorem makes_cleaningUpLoop {rr : Int} {fuel : Nat} (hlow : 0 ≤ w.lower) (hlt : w.lower < w.upper)
    (h : cleaningUpLoop rr fuel w = .ok w') :
    Makes n w ((cleaningUpRemoves rr fuel w).map fun c => .erase c.number) w' := by
  refine cleaningUpRemoves_rel (R := fun cs w w' => 0 ≤ w.lower → w.lower < w.upper →
    Makes n w (cs.map fun c => .erase c.number) w') ?_ ?_ fuel w w' h hlow hlt
  · intro w _ _
    exact .refl
  · intro cs w w' i hindex hedge hrest hlow hlt
    have hlow' : 0 ≤ w.lower + 1 := by omega
    have hlt' : w.lower + 1 < w.upper + 1 := by omega
    exact (makes_released hindex hlow hlt hedge).trans (hrest hlow' hlt')

/-- `flushAdvance`, where `lower` is `current`. -/
theorem makes_flushAdvance (hlower : w.lower = w.current) (hlow : 0 ≤ w.lower)
    (hlt : w.lower < w.upper) (h : Rcopy.flushAdvance w = .ok w') :
    Makes n w [.erase w.current] w' := by
  obtain ⟨w₁, hremove, h⟩ := C.bind_eq_ok.mp h
  obtain ⟨w₂, hcurrent, h⟩ := C.bind_eq_ok.mp h
  obtain ⟨w₃, hupper, hlower'⟩ := C.bind_eq_ok.mp h
  obtain ⟨i, hindex, rfl⟩ := WindowArray.of_removePDU hremove
  obtain ⟨rfl, hmax⟩ := WindowArray.of_incrementCurrent hcurrent
  obtain ⟨rfl, hedge⟩ := WindowArray.of_incrementUpper hupper
  obtain ⟨rfl, -⟩ := WindowArray.of_incrementLower hlower'
  rw [← hlower] at hindex ⊢
  -- The order of the three moves plays no part.
  have hreleased := makes_released (n := n) hindex hlow hlt hedge
  exact hreleased.trans (makes_incrementCurrent (hlower ▸ hlow) hmax)

/-! ## Programs that stay within the calls -/

/-- A window that is fresh at first, and that every step handles within the calls, behaves like the
map of what the run has added and not removed. -/
theorem behavesAsMap_of_makes {σ ι : Type*} {S : System σ ι} (window : σ → WindowArray)
    (edits : σ → ι → List (Edit Int Bytes)) (hn : 0 < n) (hmax : n < 2147483648)
    (hinit : ∀ s, S.init s → makeWindow n = some (window s))
    (hstep : ∀ s l s', S.Reachable s → S.step s l s' → Makes n (window s) (edits s l) (window s'))
    {x : σ × List (σ × ι)} (h : S.traced.Reachable x) :
    BehavesAsMap (window x.1) (x.2.flatMap fun t => edits t.1 t.2) := by
  have hcalls : (system n).Reachable (window x.1, x.2.flatMap fun t => edits t.1 t.2) := by
    refine System.Reachable.image
      (f := fun x : σ × List (σ × ι) => (window x.1, x.2.flatMap fun t => edits t.1 t.2)) ?_ ?_ h
    · rintro x ⟨hx, hlog⟩
      refine ⟨hinit x.1 hx, ?_⟩
      rw [hlog]
      rfl
    · rintro x l x' hr ⟨hnext, hlog⟩
      rw [hlog, List.flatMap_append, List.flatMap_singleton]
      exact hstep x.1 l x'.1 hr.of_traced hnext _
  obtain ⟨lo, p, hstores⟩ := stores_of_reachable hn hmax hcalls
  exact hstores.behavesAsMap

end WindowOp

/-! ## The child -/

namespace Server

variable {o : ByteOrder} {s s' s₀ : Server} {i : ServerInput} {ds : List Datagram}
  {n L K : Nat} {blocks : List Bytes} {m : Nat → Option Packet}

/-- What the calls of a step are to the map. -/
def edits (o : ByteOrder) (s : Server) (i : ServerInput) : List (Edit Int Bytes) :=
  List.zipWith (fun c pdu => .insert c.number pdu) (s.adds i) (s.pdus o i) ++
    (s.removes o i).map fun c => .erase c.number

/-- Adding at `current`, which is in the window. -/
theorem Holds.makes_addPDU (h : s.Holds o n blocks L K m) (hopen : s.window.checkWindowOpen = true)
    {buf : Bytes} {w : WindowArray} (hfits : buf.length ≤ maxPduLen)
    (hadd : s.window.addPDU buf buf.length (toInt32 (toUInt32 s.window.current)) = .ok w) :
    WindowOp.Makes n s.window [.insert (toInt32 (toUInt32 s.window.current)) buf] w := by
  have hlower := h.shows.lower
  have hupper := h.shows.upper
  have hrange := h.shows.range
  have hcurrent := h.current
  have hle := h.lower_le
  have hlt := h.checkWindowOpen.mp hopen
  have hnumber : toInt32 (toUInt32 s.window.current) = s.window.current :=
    toInt32_toUInt32 (by omega) (by omega)
  have hmakes := WindowOp.makes_addPDU (n := n) (Nat.le_refl _) hfits (by omega) (by omega) hadd
  rw [List.take_length] at hmakes
  exact hmakes

/-- **A step of the child stays within the calls**, whatever is acknowledged in it. -/
theorem Holds.makes_of_step (h : s.Holds o n blocks L K m)
    (hstep : s.step o i = some (.ok (s', ds))) :
    WindowOp.Makes n s.window (s.edits o i) s'.window := by
  have hlower := h.shows.lower
  have hupper := h.shows.upper
  have hcurrent := h.current
  have hpos := h.shows.pos
  have hmoves := moves_of_step hstep
  generalize s'.window = w' at hmoves ⊢
  cases hmoves with
  | still hadds hremoves =>
      rw [edits, hadds, hremoves]
      exact .refl
  | @sent junk payload buf rest w hpoint hopen hsize hfile hadds hsend =>
      have hempty : m K = none := h.beforeEof (by rw [hpoint]; rfl)
      have hlen := length_le_of_sendDataPacket h.shows h.current h.lower_le
        (h.checkWindowOpen.mp hopen) hempty hsend
      rw [edits, hadds, pdus_of_sent hpoint hopen hsize hfile hsend]
      obtain ⟨hbuf, hmax, w₁, hadd, rfl⟩ := of_sendDataPacket hsend
      have hsame : w₁.current = s.window.current := (WindowArray.edges_of_addPDU hadd).2.2.1
      have hfits : buf.length ≤ maxPduLen := by
        rw [hbuf, length_encodePDU, maxPduLen, pduHeaderLen]
        omega
      have hmoved := WindowOp.makes_incrementCurrent (n := n) (w := w₁) (by omega) (by omega)
      rw [hsame] at hmoved
      exact (h.makes_addPDU hopen hfits hadd).trans hmoved
  | @sentEof readFails junk buf w hpoint hadds hsend =>
      obtain ⟨-, hopen, -⟩ := h.poised.endOfFile hpoint
      rw [edits, hadds, pdus_of_sentEof hpoint hsend]
      obtain ⟨hbuf, hadd⟩ := of_sendEof hsend
      have hfits : buf.length ≤ maxPduLen := by
        rw [hbuf, length_encodePDU, List.length_singleton]
        decide
      exact h.makes_addPDU hopen hfits hadd
  | released hadds hremoves hclean =>
      rw [edits, hadds, hremoves]
      exact WindowOp.makes_cleaningUpLoop (by omega) (by omega) hclean

/-- **The child's window is the map of what the child has added and not removed**, as long as only
what was sent is acknowledged. -/
theorem behavesAsMap_of_traced {bufferSize : Int} {client : Addr} (hn : 0 < n)
    (hmax : n < 2147483648) (hstart : start n bufferSize blocks client = .ok s₀)
    {x : Server × List (Server × ServerInput × List Datagram)}
    (h : (honestSystem o s₀).traced.Reachable x) :
    WindowOp.BehavesAsMap x.1.window (x.2.flatMap fun t => t.1.edits o t.2.1) := by
  refine WindowOp.behavesAsMap_of_makes window (fun s l => s.edits o l.1) hn hmax ?_ ?_ h
  · rintro s rfl
    exact (of_start hstart).1
  · rintro s l s' hr ⟨-, hstep⟩
    obtain ⟨L, K, m, hholds⟩ := holds_of_reachable hn hmax hstart hr
    exact hholds.makes_of_step hstep

end Server

/-! ## The receiver -/

namespace Rcopy

variable {o : ByteOrder} {r r' r₀ : Rcopy} {i : RcopyInput} {ds : List Datagram} {n : Nat}
  {a : Receiver}

/-- What the calls of a step are to the map. -/
def edits (o : ByteOrder) (r : Rcopy) (i : RcopyInput) : List (Edit Int Bytes) :=
  List.zipWith (fun c pdu => .insert c.number pdu) (r.adds o i) (r.pdus o i) ++
    (r.removes i).map fun c => .erase c.number

/-- At a poll nothing is stored at `lower`. -/
theorem Refines.lower_empty (h : r.Refines n a) (horderly : a.Orderly)
    (hpoll : r.point = .inOrder ∨ r.point = .buffering) :
    r.window.checkPDUValid r.window.lower = .ok false := by
  have hnone := horderly.current (h.point ▸ hpoll)
  have hpos := h.shows.pos
  rw [h.shows.lower, h.valid_eq (Nat.le_refl _) (by omega), hnone]
  rfl

/-- **A step of the receiver stays within the calls**, if nothing beyond the window comes in. -/
theorem Refines.makes_of_step (h : r.Refines n a) (horderly : a.Orderly) (hadmits : Admits o n r i)
    (hstep : r.step o i = some (.ok (r', ds))) :
    WindowOp.Makes n r.window (r.edits o i) r'.window := by
  have hlower := h.shows.lower
  have hupper := h.shows.upper
  have hrange := h.shows.range
  have hcurrent := h.current
  have hpos := h.shows.pos
  have hmoves := moves_of_step hstep
  generalize r'.window = w' at hmoves ⊢
  cases hmoves with
  | still hadds hremoves _ =>
      rw [edits, hadds, hremoves]
      exact .refl
  | @advanced i highest w hpoll hadds hremoves _ hadvance =>
      have hempty := h.lower_empty horderly hpoll
      rw [edits, hadds, hremoves]
      exact (WindowOp.makes_updateHighest n r.window highest).trans
        (WindowOp.makes_advance hempty hadvance)
  | @kept src stale datagram write junk pdu before after w hpdu hpoll hnumber hadds hremoves _
      hadd =>
      obtain ⟨-, hhigh⟩ := hadmits pdu hpdu
      have hlen := le_length_recvfrom (pduHeaderLen + r.bufferSize) stale datagram
      have hfits : (recvfrom (pduHeaderLen + r.bufferSize) stale datagram).2 ≤ maxPduLen := by
        have hsize := r.bufferSize.2.2
        have hle : (recvfrom (pduHeaderLen + r.bufferSize) stale datagram).2
            ≤ pduHeaderLen + r.bufferSize := Nat.min_le_right ..
        simp only [pduHeaderLen, maxPduLen] at hle ⊢
        omega
      rw [UInt32.lt_iff_toNat_lt, toNat_toUInt32 (by omega) (by omega)] at hnumber
      have hx : toInt32 pdu.sequenceNumber = pdu.sequenceNumber.toNat :=
        toInt32_of_lt (by omega)
      rw [edits, pdus, hadds, hremoves]
      have hlow : (r.window.updateHighest before).lower ≤ toInt32 pdu.sequenceNumber := by
        show r.window.lower ≤ _
        omega
      have hhigh' : toInt32 pdu.sequenceNumber < (r.window.updateHighest before).upper := by
        show _ < r.window.upper
        omega
      have hadded := WindowOp.makes_addPDU (n := n) hlen hfits hlow hhigh' hadd
      exact ((WindowOp.makes_updateHighest n r.window before).trans hadded).trans
        (WindowOp.makes_updateHighest n w after)
  | flushed _ hadds hremoves _ hadvance =>
      rw [edits, hadds, hremoves]
      exact WindowOp.makes_flushAdvance (by omega) (by omega) (by omega) hadvance

/-- **The receiver's window is the map of what the receiver has added and not removed**, as long as
the peer stays below the upper edge of the window. -/
theorem behavesAsMap_of_traced {bufferSize : BufferSize} {seq : UInt32} {addr : Addr} (hn : 0 < n)
    (hmax : n < 2147483648) (hstart : start n bufferSize seq addr = .ok r₀)
    {x : Rcopy × List (Rcopy × RcopyInput × List Datagram)}
    (h : ((system o r₀).restrict fun r l => Admits o n r l.1).traced.Reachable x) :
    WindowOp.BehavesAsMap x.1.window (x.2.flatMap fun t => t.1.edits o t.2.1) := by
  refine WindowOp.behavesAsMap_of_makes window (fun r l => r.edits o l.1) hn hmax ?_ ?_ h
  · rintro r rfl
    exact (of_start hstart).1
  · rintro r l r' hr ⟨hadmits, hstep⟩
    obtain ⟨taken, htaken⟩ := hr.exists_logged
      fun l : RcopyInput × List Datagram => (l.1.pdu o (pduHeaderLen + r₀.bufferSize)).toList
    rcases refines_of_reachable hn hmax hstart htaken with
      ⟨why, hdone⟩ | ⟨a, hrefines, horderly, -, -⟩
    · exact absurd hdone (step_done hstep why)
    · exact hrefines.makes_of_step horderly hadmits hstep

end Rcopy

end RemoteCopy

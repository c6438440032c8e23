import RemoteCopy.Reassembly
import Mathlib.Order.Bounds.Basic

/-!
# The order of arrival does not matter

The receiver fed a list of data datagrams, one poll and one complete flush at a time. Whatever
their order and however often each is repeated, the file it ends with is determined by the set of
sequence numbers received: `current` is the least number not among them, and the file is
everything before it.
-/

namespace RemoteCopy

namespace Receiver

variable {block : Nat → Option Bytes} {a : Receiver} {s : Nat} {packet : Packet}

/-- Sequence number `k` has been received: its block is written, or in the window. -/
def Has (a : Receiver) (k : Nat) : Prop := k < a.current ∨ a.stored k ≠ none

theorem keep_has (a : Receiver) (s k : Nat) (packet : Packet) :
    a.keep s packet k ≠ none ↔ a.stored k ≠ none ∨ k = s := by
  by_cases hks : k = s
  · rw [hks]
    exact ⟨fun _ => .inr rfl, fun _ => a.keep_self s packet⟩
  · rw [a.keep_of_ne packet hks]
    exact ⟨.inl, fun h => h.resolve_right hks⟩

/-- A PDU that is not the EOF is received, whatever its number. -/
theorem accept_has (s : Nat) (hpoint : a.point = .inOrder ∨ a.point = .buffering) {x : Option Bytes}
    (hp : packet.Matches x) (hx : x ≠ none) (k : Nat) :
    (a.accept s packet).1.Has k ↔ a.Has k ∨ k = s := by
  have heof : packet.flag ≠ eofFlag := mt hp.flag_eq_eofFlag.mp hx
  have hpayload := hp.payload_ne_nil hx
  have hreceived := received hpoint s packet
  generalize a.accept s packet = y at hreceived ⊢
  cases hreceived with
  | old hs =>
      refine ⟨.inl, fun hk => hk.elim id fun hks => .inl ?_⟩
      rw [hks]
      exact hs
  | eof _ _ hflag => exact absurd hflag heof
  | empty _ _ _ hempty => exact absurd hempty hpayload
  | written _ hs _ _ =>
      simp only [Has]
      rw [or_right_comm]
      exact or_congr_left (by omega)
  | opened _ _ =>
      simp only [Has, keep_has]
      exact or_assoc.symm
  | kept _ _ =>
      simp only [Has, keep_has]
      exact or_assoc.symm
  | dropped _ _ hflag => exact absurd hflag heof
  | filled _ hs _ =>
      simp only [Has]
      rw [or_right_comm]
      exact or_congr_left (by omega)

/-- Flushing receives nothing and loses nothing. -/
theorem Assembles.flush_has (h : a.Assembles block) (hblock : ∀ k, block k ≠ none) (k : Nat) :
    a.flush.1.Has k ↔ a.Has k := by
  unfold Receiver.flush
  cases hstored : a.stored a.current with
  | none => rfl
  | some packet =>
      obtain ⟨-, -, hp⟩ := h.stored _ _ hstored
      simp only [if_neg (mt hp.flag_eq_eofFlag.mp (hblock _)), Has]
      by_cases hk : k = a.current
      · rw [hk]
        exact ⟨fun _ => .inr (by rw [hstored]; exact Option.some_ne_none packet),
          fun _ => .inl (Nat.lt_succ_self _)⟩
      · rw [Function.update_of_ne hk]
        exact or_congr_left (by omega)

/-- At its polls, what the receiver waits for is the least number it does not have. -/
theorem Assembles.isLeast_current (h : a.Assembles block)
    (hpoint : a.point = .inOrder ∨ a.point = .buffering) :
    IsLeast {k | ¬ a.Has k} a.current := by
  refine ⟨fun hhas => ?_, fun k hk => ?_⟩
  · rcases hhas with hlt | hne
    · exact Nat.lt_irrefl _ hlt
    · exact hne (h.current_none hpoint)
  · exact Nat.le_of_not_lt fun hlt => hk (.inl hlt)

/-- The receiver has not stopped. -/
def Running (a : Receiver) : Prop := ∀ why, a.point ≠ .done why

theorem Running.poll (h : a.Running) (hflush : a.point ≠ .flush) :
    a.point = .inOrder ∨ a.point = .buffering := by
  cases hpoint : a.point with
  | inOrder => exact .inl rfl
  | buffering => exact .inr rfl
  | flush => exact absurd hpoint hflush
  | done why => exact absurd hpoint (h why)

/-- Data alone does not stop the receiver. -/
theorem Running.accept (h : a.Running) {x : Option Bytes} (hp : packet.Matches x) (hx : x ≠ none) :
    (a.accept s packet).1.Running := by
  intro why hwhy
  rcases accept_done hwhy with hdone | ⟨-, heof⟩ | ⟨-, hnil⟩
  · exact h why hdone
  · exact hx (hp.flag_eq_eofFlag.mp heof)
  · exact hp.payload_ne_nil hx hnil

theorem Assembles.flush_running (h : a.Assembles block) (hblock : ∀ k, block k ≠ none) :
    a.flush.1.Running := by
  intro why hwhy
  obtain ⟨-, packet, hstored, heof⟩ := flush_done hwhy
  obtain ⟨-, -, hp⟩ := h.stored _ _ hstored
  exact hblock _ (hp.flag_eq_eofFlag.mp heof)

/-- The flush that goes on has moved `current` up by one. -/
theorem flush_next (a : Receiver) (hpoint : a.flush.1.point = .flush) :
    a.flush.1.highest = a.highest ∧ a.flush.1.current = a.current + 1 := by
  unfold flush at hpoint ⊢
  split at hpoint
  · cases hpoint
  · split at hpoint
    · cases hpoint
    · next heof =>
        rw [if_neg heof]
        exact ⟨rfl, rfl⟩

end Receiver

/-! ## Feeding the receiver -/

/-- A datagram on its arrival at the receiver, with what its buffers held before. -/
structure Arrival where
  src : Addr
  stale : Bytes
  datagram : Bytes
  junk : Byte
  deriving DecidableEq

namespace Rcopy

section
variable (o : ByteOrder)

/-- The flush, to its end; `fuel` bounds its iterations. -/
def flushLoop : Nat → Rcopy → C Rcopy
  | 0, r => .ok r
  | fuel + 1, r =>
      match r.step o (.flush .complete 0) with
      | none => .ok r
      | some y => do
          let (r, _) ← y
          flushLoop fuel r

/-- From one poll to the next. A window of `n` slots is flushed in at most `n` iterations. -/
def receive (r : Rcopy) (x : Arrival) : C Rcopy :=
  match r.step o (.poll (.received x.src x.stale x.datagram) .complete x.junk) with
  | none => .ok r
  | some y => do
      let (r, _) ← y
      r.flushLoop o r.window.windowSize.toNat

/-- All datagrams of a list, in its order. -/
def receiveAll (r : Rcopy) : List Arrival → C Rcopy
  | [] => .ok r
  | x :: xs => do
      let r ← r.receive o x
      r.receiveAll xs

end

/-- The datagram is accepted as data with sequence number `k` and payload `content k`. -/
def IsData (o : ByteOrder) (bufferSize : BufferSize) (content : Nat → Bytes) (x : Arrival)
    (k : Nat) : Prop :=
  ∃ s flag, Accepted o x.datagram s flag (content k) ∧ s.toNat = k ∧ IsDataFlag flag ∧
    content k ≠ [] ∧ (content k).length ≤ bufferSize

/-- The sequence numbers of the datagrams in a list. -/
def received (o : ByteOrder) (bufferSize : BufferSize) (content : Nat → Bytes)
    (xs : List Arrival) : Set Nat := {k | ∃ x ∈ xs, IsData o bufferSize content x k}

/-- Each datagram is data of `content`, with a number below the upper edge of the window, and that
edge in the range of `int32_t`, when it is received. -/
def Admissible (o : ByteOrder) (n : Nat) (content : Nat → Bytes) : Rcopy → List Arrival → Prop
  | _, [] => True
  | r, x :: xs =>
      (∃ k : Nat, IsData o r.bufferSize content x k ∧ k < r.window.current + n ∧
        r.window.current + n < 2147483648) ∧
      ∀ r', r.receive o x = .ok r' → Admissible o n content r' xs

/-- The receiver between two polls, or on its way there, with an abstract receiver of `content`. -/
structure Feeds (r : Rcopy) (n : Nat) (content : Nat → Bytes) (a : Receiver) : Prop where
  refines : r.Refines n a
  assembles : a.Assembles fun k => some (content k)
  running : a.Running

section
variable {o : ByteOrder} {r r' : Rcopy} {n : Nat} {content : Nat → Bytes} {a : Receiver}

theorem Feeds.highest_lt (h : r.Feeds n content a) (hpoint : a.point = .flush) :
    a.highest < a.current + n := by
  obtain ⟨packet, hpacket⟩ := Option.ne_none_iff_exists'.mp (h.assembles.ahead (.inr hpoint))
  exact (h.refines.shows.mem_window hpacket).2

/-- The flush writes what it can, and comes to an end. -/
theorem Feeds.flushLoop : ∀ (fuel : Nat) {r : Rcopy} {a : Receiver}, r.Feeds n content a →
    (a.point = .flush → a.highest < a.current + fuel) →
    (∀ r', r.flushLoop o fuel = .ok r' → ∃ a', r'.Feeds n content a' ∧ a'.point ≠ .flush ∧
      (∀ k, a'.Has k ↔ a.Has k) ∧ r'.bufferSize = r.bufferSize) ∧
    ((∀ c, (∀ k < c, a.Has k) → c + n < 2147483648) → ∃ r', r.flushLoop o fuel = .ok r') := by
  -- Every iteration brings `current` closer to `highest`, where the flush ends at the latest.
  intro fuel
  induction fuel with
  | zero =>
      intro r a h hfuel
      have hflush : a.point ≠ .flush := fun hpoint =>
        absurd (hfuel hpoint) (Nat.not_lt.mpr (h.assembles.current_le_highest (.inr hpoint)))
      refine ⟨fun r' hr' => ?_, fun _ => ⟨r, rfl⟩⟩
      cases hr'
      exact ⟨a, h, hflush, fun _ => Iff.rfl, rfl⟩
  | succ fuel ih =>
      intro r a h hfuel
      by_cases hpoint : a.point = .flush
      · have hhas := h.assembles.flush_has fun _ => Option.some_ne_none _
        have hassembles := h.assembles.flush hpoint
        by_cases hrange : a.flush.1.current + n < 2147483648
        · obtain ⟨y, hstep, r₁, ds, rfl, hrefines, -, hsize, -⟩ :=
            h.refines.flush (o := o) hpoint hrange 0
          have hfeeds : r₁.Feeds n content a.flush.1 := ⟨hrefines, hassembles,
            h.assembles.flush_running fun _ => Option.some_ne_none _⟩
          have hnext : r.flushLoop o (fuel + 1) = r₁.flushLoop o fuel := by
            rw [Rcopy.flushLoop, hstep]
            rfl
          obtain ⟨hpart, htotal⟩ := ih hfeeds fun hflush => by
            obtain ⟨hhighest, hcurrent⟩ := a.flush_next hflush
            have := hfuel hpoint
            omega
          rw [hnext]
          refine ⟨fun r' hr' => ?_, fun hleast => htotal fun c hc => hleast c fun k hk =>
            (hhas k).mp (hc k hk)⟩
          obtain ⟨a', hfeeds', hflush, hhas', hsize'⟩ := hpart r' hr'
          exact ⟨a', hfeeds', hflush, fun k => (hhas' k).trans (hhas k), hsize'.trans hsize⟩
        · have hstep := h.refines.flush_overflow (o := o) hpoint hrange 0
          have herror : r.flushLoop o (fuel + 1) = .error .signedOverflow := by
            rw [Rcopy.flushLoop, hstep]
            rfl
          rw [herror]
          refine ⟨fun r' hr' => (by cases hr'), fun hleast => ?_⟩
          exact absurd (hleast _ fun k hk => (hhas k).mp (.inl hk)) hrange
      · have hstop : r.flushLoop o (fuel + 1) = .ok r := by
          rw [Rcopy.flushLoop, step_flush_none (by rw [h.refines.point]; exact hpoint)]
        rw [hstop]
        refine ⟨fun r' hr' => ?_, fun _ => ⟨r, rfl⟩⟩
        cases hr'
        exact ⟨a, h, hpoint, fun _ => Iff.rfl, rfl⟩

/-- One datagram, from poll to poll. -/
theorem Feeds.receive (h : r.Feeds n content a) (hflush : a.point ≠ .flush) {x : Arrival} {k : Nat}
    (hx : IsData o r.bufferSize content x k) (hk : k < a.current + n) :
    (∀ r', r.receive o x = .ok r' → ∃ a', r'.Feeds n content a' ∧ a'.point ≠ .flush ∧
      (∀ j, a'.Has j ↔ a.Has j ∨ j = k) ∧ r'.bufferSize = r.bufferSize) ∧
    ((∀ c, (∀ j < c, a.Has j ∨ j = k) → c + n < 2147483648) →
      ∃ r', r.receive o x = .ok r') := by
  obtain ⟨s, flag, hacc, rfl, hflag, hne, hlen⟩ := hx
  have hpoint := h.running.poll hflush
  obtain ⟨hlength, hbyte, hdrop⟩ := hacc.layout
  have hsize : x.datagram.length ≤ pduHeaderLen + r.bufferSize := by omega
  have hfits : x.datagram.length ≤ maxPduLen := by
    have := r.bufferSize.2.2
    simp only [pduHeaderLen, maxPduLen] at hsize ⊢
    omega
  have hmatch : (Packet.of s.toNat x.datagram hfits).Matches (some (content s.toNat)) :=
    ⟨by rw [Packet.of, hbyte]; exact hflag, hdrop, hne⟩
  have hassembles := h.assembles.accept (s := s.toNat) hmatch
  have hhas := Receiver.accept_has s.toNat hpoint hmatch (Option.some_ne_none _)
  by_cases hrange : (a.accept s.toNat (.of s.toNat x.datagram hfits)).1.current + n < 2147483648
  · obtain ⟨y, hstep, r₁, ds, rfl, hrefines, -, hsize₁, -⟩ := h.refines.accept (o := o) hpoint
      (h.assembles.current_none hpoint) hacc hsize hfits hk hrange x.src x.stale x.junk
    have hfeeds : r₁.Feeds n content (a.accept s.toNat (.of s.toNat x.datagram hfits)).1 :=
      ⟨hrefines, hassembles, h.running.accept hmatch (Option.some_ne_none _)⟩
    have hwindow : r₁.window.windowSize.toNat = n := by
      rw [hrefines.shows.size, Int.toNat_natCast]
    have hnext : r.receive o x = r₁.flushLoop o n := by
      rw [Rcopy.receive, hstep, ← hwindow]
      rfl
    obtain ⟨hpart, htotal⟩ := Feeds.flushLoop (o := o) n hfeeds hfeeds.highest_lt
    rw [hnext]
    refine ⟨fun r' hr' => ?_, fun hleast => htotal fun c hc => hleast c fun j hj =>
      (hhas j).mp (hc j hj)⟩
    obtain ⟨a', hfeeds', hflush', hhas', hsize'⟩ := hpart r' hr'
    exact ⟨a', hfeeds', hflush', fun j => (hhas' j).trans (hhas j), hsize'.trans hsize₁⟩
  · have hstep := h.refines.accept_overflow (o := o) hpoint hacc hsize hfits hrange x.src x.stale
      x.junk
    have herror : r.receive o x = .error .signedOverflow := by
      rw [Rcopy.receive, hstep]
      rfl
    rw [herror]
    refine ⟨fun r' hr' => (by cases hr'), fun hleast => ?_⟩
    exact absurd (hleast _ fun j hj => (hhas j).mp (.inl hj)) hrange

theorem IsData.unique {bufferSize : BufferSize} {x : Arrival} {j k : Nat}
    (hj : IsData o bufferSize content x j) (hk : IsData o bufferSize content x k) : j = k := by
  obtain ⟨s, flag, hacc, rfl, -⟩ := hj
  obtain ⟨s', flag', hacc', rfl, -⟩ := hk
  rw [(hacc.unique hacc').1]

/-- A whole list, from poll to poll. -/
theorem Feeds.receiveAll : ∀ (xs : List Arrival) {r : Rcopy} {a : Receiver},
    r.Feeds n content a → a.point ≠ .flush → Admissible o n content r xs →
    (∀ r', r.receiveAll o xs = .ok r' → ∃ a', r'.Feeds n content a' ∧ a'.point ≠ .flush ∧
      ∀ j, a'.Has j ↔ a.Has j ∨ j ∈ received o r.bufferSize content xs) ∧
    ((∀ c, (∀ j < c, a.Has j ∨ j ∈ received o r.bufferSize content xs) → c + n < 2147483648) →
      ∃ r', r.receiveAll o xs = .ok r') := by
  -- By induction on the list, for every receiver: the invariant at the end of one flush is what
  -- the next datagram needs.
  intro xs
  induction xs with
  | nil =>
      intro r a h hflush _
      refine ⟨fun r' hr' => ?_, fun _ => ⟨r, rfl⟩⟩
      cases hr'
      exact ⟨a, h, hflush, fun j => ⟨.inl, fun hj => hj.elim id fun ⟨_, hx, _⟩ => (by cases hx)⟩⟩
  | cons x xs ih =>
      intro r a h hflush hxs
      obtain ⟨⟨k, hx, hk, -⟩, hrest⟩ := hxs
      have hcurrent := h.refines.current
      obtain ⟨hpart, htotal⟩ := h.receive hflush hx (by omega)
      have hreceived (j : Nat) : j ∈ received o r.bufferSize content (x :: xs) ↔
          j = k ∨ j ∈ received o r.bufferSize content xs := by
        refine ⟨fun ⟨y, hy, hj⟩ => ?_, fun hj => ?_⟩
        · rcases List.mem_cons.mp hy with rfl | hy
          · exact .inl (hj.unique hx)
          · exact .inr ⟨y, hy, hj⟩
        · rcases hj with rfl | ⟨y, hy, hj⟩
          · exact ⟨x, List.mem_cons_self, hx⟩
          · exact ⟨y, List.mem_cons_of_mem _ hy, hj⟩
      refine ⟨fun r' hr' => ?_, fun hleast => ?_⟩
      · obtain ⟨r₁, hr₁, hr'⟩ := C.bind_eq_ok.mp hr'
        obtain ⟨a₁, h₁, hflush₁, hhas₁, hsize₁⟩ := hpart r₁ hr₁
        obtain ⟨a', h', hflush', hhas'⟩ := (ih h₁ hflush₁ (hrest r₁ hr₁)).1 r' hr'
        refine ⟨a', h', hflush', fun j => ?_⟩
        rw [hhas', hhas₁, hreceived, hsize₁, or_assoc]
      · obtain ⟨r₁, hr₁⟩ := htotal fun c hc => hleast c fun j hj =>
          (hc j hj).imp_right fun hjk => (hreceived j).mpr (.inl hjk)
        obtain ⟨a₁, h₁, hflush₁, hhas₁, hsize₁⟩ := hpart r₁ hr₁
        obtain ⟨r', hr'⟩ := (ih h₁ hflush₁ (hrest r₁ hr₁)).2 fun c hc => hleast c fun j hj => by
          have := hc j hj
          rwa [hhas₁, hsize₁, or_assoc, ← hreceived] at this
        exact ⟨r', C.bind_eq_ok.mpr ⟨r₁, hr₁, hr'⟩⟩

/-- **Reassembly does not depend on the order of arrival.** Whenever the receiver gets through a
list of admissible datagrams, it polls again with `current` the least number not received and the
file everything before it; it does get through if that leaves the window in range; and two lists
of the same datagrams, in whatever order, lead to the same file. -/
theorem receiveAll_reassembles {bufferSize : BufferSize} {seq : UInt32} {addr : Addr} (hn : 0 < n)
    (hmax : n < 2147483648) (hstart : start n bufferSize seq addr = .ok r) {xs : List Arrival}
    (hxs : Admissible o n content r xs) :
    (∀ r', r.receiveAll o xs = .ok r' → (r'.point = .inOrder ∨ r'.point = .buffering) ∧
      ∃ c : Nat, r'.window.current = c ∧ IsLeast (received o bufferSize content xs)ᶜ c ∧
        r'.outputFile = (List.range c).map content) ∧
    (∀ c, IsLeast (received o bufferSize content xs)ᶜ c → c + n < 2147483648 →
      ∃ r', r.receiveAll o xs = .ok r') ∧
    ∀ ys, Admissible o n content r ys →
      received o bufferSize content ys = received o bufferSize content xs →
      ∀ r₁ r₂, r.receiveAll o xs = .ok r₁ → r.receiveAll o ys = .ok r₂ →
        r₁.window.current = r₂.window.current ∧ r₁.outputFile = r₂.outputFile := by
  have hrefines := Refines.start hn hmax hstart
  have hsize : r.bufferSize = bufferSize := (of_start hstart).2.2.1
  have hfeeds : r.Feeds n content .fresh :=
    ⟨hrefines, .fresh, fun _ hc => (by cases hc)⟩
  have hfresh (j : Nat) : ¬ Receiver.fresh.Has j := fun hj =>
    hj.elim (Nat.not_lt_zero j) fun hne => hne rfl
  -- What a list that is got through ends with.
  have hpart : ∀ zs, Admissible o n content r zs → ∀ r', r.receiveAll o zs = .ok r' →
      (r'.point = .inOrder ∨ r'.point = .buffering) ∧
      ∃ c : Nat, r'.window.current = c ∧ IsLeast (received o bufferSize content zs)ᶜ c ∧
        r'.outputFile = (List.range c).map content := by
    intro zs hzs r' hr'
    obtain ⟨a', h', hflush', hhas'⟩ := (hfeeds.receiveAll zs (by decide) hzs).1 r' hr'
    have hpoint := h'.running.poll hflush'
    have hset : {k | ¬ a'.Has k} = (received o bufferSize content zs)ᶜ := by
      ext j
      show ¬ a'.Has j ↔ ¬ j ∈ received o bufferSize content zs
      rw [hhas', hsize, or_iff_right (hfresh j)]
    refine ⟨by rwa [h'.refines.point], a'.current, h'.refines.current, ?_, ?_⟩
    · rw [← hset]
      exact h'.assembles.isLeast_current hpoint
    · have hfile := h'.assembles.file
      rw [h'.refines.file]
      have hmap : (List.range a'.current).map (fun k => some (content k))
          = ((List.range a'.current).map content).map some := by
        rw [List.map_map]
        rfl
      rw [hmap] at hfile
      exact List.map_injective_iff.mpr (Option.some_injective Bytes) hfile
  refine ⟨hpart xs hxs, fun c hc hrange => ?_, fun ys hys hsame r₁ r₂ h₁ h₂ => ?_⟩
  · refine (hfeeds.receiveAll xs (by decide) hxs).2 fun c' hc' => ?_
    have hle : c' ≤ c := by
      refine Nat.le_of_not_lt fun hlt => hc.1 ?_
      have := hc' c hlt
      rwa [hsize, or_iff_right (hfresh c)] at this
    omega
  · obtain ⟨-, c₁, hcur₁, hleast₁, hfile₁⟩ := hpart xs hxs r₁ h₁
    obtain ⟨-, c₂, hcur₂, hleast₂, hfile₂⟩ := hpart ys hys r₂ h₂
    rw [hsame] at hleast₂
    have hc : c₁ = c₂ := Nat.le_antisymm (hleast₁.2 hleast₂.1) (hleast₂.2 hleast₁.1)
    rw [hcur₁, hcur₂, hfile₁, hfile₂, hc]
    exact ⟨rfl, rfl⟩

end

/-! ### Two datagrams, the second first -/

/-- A receiver with a window of two PDUs, as it starts. -/
def smallRcopy : Rcopy where
  point := .inOrder
  window := smallWindow
  bufferSize := leastBufferSize
  outputFile := []
  sequenceNumber := 0
  serverAddress := 7

/-- A file of one-byte blocks. -/
def smallContent (k : Nat) : Bytes := [UInt8.ofNat k]

/-- Its blocks as datagrams. -/
def arrival (k : UInt8) : Arrival :=
  ⟨7, [], encodePDU .little k.toUInt32 dataPacketFlag [k], 0⟩

theorem start_smallRcopy : start (2 : Nat) leastBufferSize 0 7 = .ok smallRcopy := rfl

theorem isData_arrival (k : UInt8) :
    IsData .little leastBufferSize smallContent (arrival k) k.toNat := by
  refine ⟨k.toUInt32, dataPacketFlag, ?_, by simp, .inl rfl, by simp [smallContent], by
    simp [smallContent, leastBufferSize]⟩
  rw [smallContent, UInt8.ofNat_toNat]
  exact accepted_encodePDU .little .little _ _ (by simp)

theorem admissible_arrivals :
    Admissible .little 2 smallContent smallRcopy [arrival 1, arrival 0] := by
  refine ⟨⟨1, isData_arrival 1, by decide, by decide⟩, fun r hr => ?_⟩
  have hstate : (match smallRcopy.receive .little (arrival 1) with
      | .ok r => decide (r.window.current = 0 ∧ r.bufferSize = leastBufferSize)
      | .error _ => false) = true := by decide +kernel
  rw [hr] at hstate
  obtain ⟨hcurrent, hsize⟩ := of_decide_eq_true hstate
  refine ⟨⟨0, hsize ▸ isData_arrival 0, ?_, ?_⟩, fun _ _ => trivial⟩
  · rw [hcurrent]
    decide
  · rw [hcurrent]
    decide

theorem receiveAll_arrivals : ∃ r, smallRcopy.receiveAll .little [arrival 1, arrival 0] = .ok r ∧
    ∃ c : Nat, r.window.current = c ∧ r.outputFile = (List.range c).map smallContent := by
  have h := receiveAll_reassembles (o := .little) (by decide) (by decide) start_smallRcopy
    admissible_arrivals
  obtain ⟨r, hr⟩ : ∃ r, smallRcopy.receiveAll .little [arrival 1, arrival 0] = .ok r := by
    cases hr : smallRcopy.receiveAll .little [arrival 1, arrival 0] with
    | ok r => exact ⟨r, rfl⟩
    | error e =>
        have hok : (smallRcopy.receiveAll .little [arrival 1, arrival 0]).toBool = true := by
          decide +kernel
        rw [hr] at hok
        cases hok
  obtain ⟨-, c, hcurrent, -, hfile⟩ := h.1 r hr
  exact ⟨r, hr, c, hcurrent, hfile⟩

end Rcopy

end RemoteCopy

import RemoteCopy.Window
import RemoteCopy.Library.Edits
import RemoteCopy.Library.Transition

/-!
# The window is a finite map

The functions of `window.c` on their own, called in any order with numbers of the window. All
numbers share the slots, and a slot is used again as soon as the window has moved on by its size;
still nothing that is stored, removed or moved interferes with any other number of the window
(`WindowOp.behavesAsMap_of_reachable`). What is stored can be read from the calls: for every number
the first PDU added since the number was last removed.
-/

namespace RemoteCopy

/-- A call that may change a window. The others (`checkPDUValid`, `get_PDU`, `checkWindowOpen`) are
functions of the window in this model, and leave it as it is. -/
inductive WindowOp where
  /-- `add_PDU` of the PDU at the head of a buffer, whatever follows it there. -/
  | add (pdu rest : Bytes) (sequenceNumber : Int)
  | remove (sequenceNumber : Int)
  /-- `incrementLower` and `incrementUpper`. -/
  | slide
  | incrementCurrent
  | updateHighest (value : Int)
  deriving DecidableEq, Repr

namespace WindowOp

def run (w : WindowArray) : WindowOp → C WindowArray
  | add pdu rest sequenceNumber => w.addPDU (pdu ++ rest) pdu.length sequenceNumber
  | remove sequenceNumber => w.removePDU sequenceNumber
  | slide => do
      let w ← w.incrementLower
      w.incrementUpper
  | incrementCurrent => w.incrementCurrent
  | updateHighest value => .ok (w.updateHighest value)

/-- The calls with a number of the window, and the moves past an empty slot that keep the fields in
the range of `int32_t`. -/
def Allowed (w : WindowArray) : WindowOp → Prop
  | add pdu _ sequenceNumber =>
      pdu.length ≤ maxPduLen ∧ w.lower ≤ sequenceNumber ∧ sequenceNumber < w.upper
  | remove sequenceNumber => w.lower ≤ sequenceNumber ∧ sequenceNumber < w.upper
  | slide => w.checkPDUValid w.lower = .ok false ∧ w.upper + 1 < 2147483648
  | incrementCurrent => w.current + 1 < 2147483648
  | updateHighest _ => True

instance (w : WindowArray) : (op : WindowOp) → Decidable (Allowed w op)
  | add _ _ _ => inferInstanceAs (Decidable (_ ∧ _ ∧ _))
  | remove _ => inferInstanceAs (Decidable (_ ∧ _))
  | slide => inferInstanceAs (Decidable (_ ∧ _))
  | incrementCurrent => inferInstanceAs (Decidable (_ < _))
  | updateHighest _ => inferInstanceAs (Decidable True)

/-- What a call is to the map. -/
def edits : WindowOp → List (Edit Int Bytes)
  | add pdu _ sequenceNumber => [.insert sequenceNumber pdu]
  | remove sequenceNumber => [.erase sequenceNumber]
  | _ => []

/-- The windows that these calls make from a fresh one. -/
def calls (n : Nat) : System WindowArray WindowOp where
  init w := makeWindow n = some w
  step w op w' := Allowed w op ∧ op.run w = .ok w'

/-- The same, with a log of what was added and removed. -/
def system (n : Nat) : System (WindowArray × List (Edit Int Bytes)) WindowOp :=
  (calls n).logged edits

/-! ## Observations -/

/-- What a `get_PDU` from a map would return and leave in the buffer. -/
def copied (buf : Bytes) : Option Bytes → C (Int × Bytes)
  | none => .ok (-1, buf)
  | some pdu =>
      if buf.length < pdu.length then .error .bufferOverrun
      else .ok (pdu.length, pdu ++ buf.drop pdu.length)

/-- Seen through its functions, the window is the map `m`, which holds nothing but numbers of the
window. -/
structure Observes (w : WindowArray) (m : Int → Option Bytes) : Prop where
  within : ∀ s, m s ≠ none → w.lower ≤ s ∧ s < w.upper
  valid : ∀ s, w.lower ≤ s → s < w.upper → w.checkPDUValid s = .ok (m s).isSome
  get : ∀ s, w.lower ≤ s → s < w.upper → ∀ buf, w.getPDU buf s = copied buf (m s)

section
variable {w w' : WindowArray} {n lo s : Nat} {p : Nat → Option Packet} {m : Int → Option Bytes}
  {op : WindowOp}

theorem getPDU_copied (hn : w.windowSize = n) (hpos : 0 < n) (buf : Bytes) :
    w.getPDU buf s = copied buf ((w.slot (s % n)).map Packet.pdu) := by
  rw [WindowArray.getPDU, WindowArray.index_eq hn hpos, C.ok_bind]
  cases w.slot (s % n) with
  | none => rfl
  | some packet => rfl

theorem slide_run (hlow : 0 ≤ w.lower) (hle : w.lower ≤ w.upper) (hmax : w.upper + 1 < 2147483648) :
    slide.run w = .ok { w with lower := w.lower + 1, upper := w.upper + 1 } := by
  rw [run, WindowArray.incrementLower, addInt32_ok (by omega) (by omega)]
  simp only [C.ok_bind, C.pure_eq, WindowArray.incrementUpper]
  rw [addInt32_ok (by omega) hmax]
  rfl

theorem incrementCurrent_run (hcurrent : 0 ≤ w.current) (hmax : w.current + 1 < 2147483648) :
    incrementCurrent.run w = .ok { w with current := w.current + 1 } := by
  rw [run, WindowArray.incrementCurrent, addInt32_ok (by omega) hmax]
  rfl

/-! ## What is stored -/

/-- The array shows, under the natural numbers, the PDUs of the map. -/
structure Stores (w : WindowArray) (n lo : Nat) (p : Nat → Option Packet)
    (m : Int → Option Bytes) : Prop where
  shows : w.Shows n lo p
  current : 0 ≤ w.current
  pdu : ∀ s : Nat, m s = (p s).map Packet.pdu
  nonneg : ∀ s, m s ≠ none → 0 ≤ s

theorem Stores.start (hn : 0 < n) (hmax : n < 2147483648) (h : makeWindow n = some w) :
    Stores w n 0 (fun _ => none) fun _ => none := by
  have hcurrent : 0 ≤ w.current := by
    rw [makeWindow, dif_pos (by omega)] at h
    rw [← Option.some.inj h]
  exact ⟨.make hn hmax h, hcurrent, fun _ => rfl, fun _ hs => absurd rfl hs⟩

/-- What is stored is what is observed. -/
theorem Stores.observes (h : Stores w n lo p m) : Observes w m := by
  have hlower := h.shows.lower
  have hupper := h.shows.upper
  refine ⟨?_, ?_, ?_⟩
  · intro x hx
    obtain ⟨s, rfl⟩ := Int.eq_ofNat_of_zero_le (h.nonneg x hx)
    rw [h.pdu, Ne, Option.map_eq_none_iff] at hx
    obtain ⟨packet, hpacket⟩ := Option.ne_none_iff_exists'.mp hx
    have hwindow := h.shows.mem_window hpacket
    omega
  · intro x hlow hhigh
    obtain ⟨s, rfl⟩ := Int.eq_ofNat_of_zero_le (show 0 ≤ x by omega)
    rw [WindowArray.checkPDUValid_eq h.shows.size h.shows.pos,
      h.shows.slot_eq (by omega) (by omega), h.pdu, Option.isSome_map]
  · intro x hlow hhigh buf
    obtain ⟨s, rfl⟩ := Int.eq_ofNat_of_zero_le (show 0 ≤ x by omega)
    rw [getPDU_copied h.shows.size h.shows.pos, h.shows.slot_eq (by omega) (by omega), h.pdu]

/-- Storing under a number of the window. -/
theorem Stores.store (h : Stores w n lo p m) (hs : lo ≤ s) (hs' : s < lo + n)
    (x : Option Packet) : Stores (w.store (s % n) x) n lo (Function.update p s x)
      (Function.update m s (x.map Packet.pdu)) where
  shows := h.shows.store hs hs' x
  current := h.current
  pdu := by
    intro k
    by_cases hk : k = s
    · subst hk
      rw [Function.update_self, Function.update_self]
    · rw [Function.update_of_ne hk, Function.update_of_ne (by omega), h.pdu]
  nonneg := by
    intro k hk
    by_cases hks : k = s
    · omega
    · rw [Function.update_of_ne hks] at hk
      exact h.nonneg k hk

/-! ## One call -/

/-- A number that is stored is not stored again. -/
theorem Stores.again (h : Stores w n lo p m) {pdu rest : Bytes} (hlen : pdu.length ≤ maxPduLen)
    (hs : lo ≤ s) (hs' : s < lo + n) {packet : Packet} (hpacket : p s = some packet) :
    (add pdu rest s).run w = .ok w := by
  rw [run, WindowArray.addPDU_eq h.shows.size h.shows.pos _ hlen, h.shows.slot_eq hs hs', hpacket]
  rfl

theorem Stores.add (h : Stores w n lo p m) {pdu : Bytes} (rest : Bytes)
    (hlen : pdu.length ≤ maxPduLen) (hs : lo ≤ s) (hs' : s < lo + n) :
    ∃ w' p', (add pdu rest s).run w = .ok w' ∧
      Stores w' n lo p' (Edit.apply m (.insert (s : Int) pdu)) := by
  cases hp : p s with
  | some packet =>
      have hm : m s = some packet.pdu := by
        rw [h.pdu, hp]
        rfl
      rw [Edit.apply_insert_of_some hm]
      exact ⟨w, p, h.again hlen hs hs' hp, h⟩
  | none =>
      have hm : m s = none := by
        rw [h.pdu, hp]
        rfl
      obtain ⟨packet, hpdu, hrun⟩ : ∃ packet : Packet, packet.pdu = pdu ∧
          (WindowOp.add pdu rest s).run w = .ok (w.store (s % n) (some packet)) := by
        refine ⟨⟨s, byteAt (pdu ++ rest) 6, (pdu ++ rest).take pdu.length,
          by rw [List.length_take]; omega⟩, List.take_left, ?_⟩
        rw [run, WindowArray.addPDU_eq h.shows.size h.shows.pos _ hlen, h.shows.slot_eq hs hs', hp]
        rfl
      have hstored := h.store hs hs' (some packet)
      rw [Option.map_some, hpdu, ← Edit.apply_insert_of_none hm] at hstored
      exact ⟨_, _, hrun, hstored⟩

theorem Stores.remove (h : Stores w n lo p m) (hs : lo ≤ s) (hs' : s < lo + n) :
    ∃ w' p', (remove s).run w = .ok w' ∧ Stores w' n lo p' (Edit.apply m (.erase (s : Int))) :=
  ⟨_, _, WindowArray.removePDU_eq h.shows.size h.shows.pos, h.store hs hs' none⟩

/-- The number that leaves the window holds nothing. -/
theorem Stores.slide (h : Stores w n lo p m) (hempty : w.checkPDUValid w.lower = .ok false)
    (hmax : w.upper + 1 < 2147483648) :
    ∃ w', slide.run w = .ok w' ∧ Stores w' n (lo + 1) p m := by
  have hlower := h.shows.lower
  have hupper := h.shows.upper
  have hpos := h.shows.pos
  rw [hlower, WindowArray.checkPDUValid_eq h.shows.size hpos,
    h.shows.slot_eq (Nat.le_refl lo) (by omega), Except.ok.injEq, Option.isSome_eq_false_iff,
    Option.isNone_iff_eq_none] at hempty
  exact ⟨_, slide_run (by omega) (by omega) hmax,
    h.shows.slide hempty (by omega) rfl rfl rfl rfl, h.current, h.pdu, h.nonneg⟩

/-- **Every call does to the map what it says.** -/
theorem Stores.step (h : Stores w n lo p m) (hallowed : Allowed w op) :
    ∃ w' lo' p', op.run w = .ok w' ∧ lo ≤ lo' ∧
      Stores w' n lo' p' (op.edits.foldl Edit.apply m) := by
  have hlower := h.shows.lower
  have hupper := h.shows.upper
  have hcurrent := h.current
  cases op with
  | add pdu rest x =>
      obtain ⟨hlen, hlow, hhigh⟩ := hallowed
      obtain ⟨s, rfl⟩ := Int.eq_ofNat_of_zero_le (show 0 ≤ x by omega)
      obtain ⟨w', p', hrun, h'⟩ := h.add (s := s) rest hlen (by omega) (by omega)
      exact ⟨w', lo, p', hrun, Nat.le_refl lo, h'⟩
  | remove x =>
      obtain ⟨hlow, hhigh⟩ := hallowed
      obtain ⟨s, rfl⟩ := Int.eq_ofNat_of_zero_le (show 0 ≤ x by omega)
      obtain ⟨w', p', hrun, h'⟩ := h.remove (s := s) (by omega) (by omega)
      exact ⟨w', lo, p', hrun, Nat.le_refl lo, h'⟩
  | slide =>
      obtain ⟨w', hrun, h'⟩ := h.slide hallowed.1 hallowed.2
      exact ⟨w', lo + 1, p, hrun, Nat.le_succ lo, h'⟩
  | incrementCurrent =>
      exact ⟨_, lo, p, incrementCurrent_run hcurrent hallowed, Nat.le_refl lo,
        h.shows.congr rfl rfl rfl rfl, show 0 ≤ w.current + 1 by omega, h.pdu, h.nonneg⟩
  | updateHighest value =>
      exact ⟨w.updateHighest value, lo, p, rfl, Nat.le_refl lo, h.shows.congr rfl rfl rfl rfl,
        hcurrent, h.pdu, h.nonneg⟩

/-! ## All calls -/

/-- The window behaves like the finite map that the log of calls describes: that is what it shows,
every call returns, and none of them can be seen at a number that it is not about. -/
structure BehavesAsMap (w : WindowArray) (log : List (Edit Int Bytes)) : Prop where
  observes : Observes w (Edit.firstInserted log)
  again : ∀ pdu rest s, Allowed w (add pdu rest s) → w.checkPDUValid s = .ok true →
    (add pdu rest s).run w = .ok w
  returns : ∀ op, Allowed w op → ∃ w', op.run w = .ok w'
  others : ∀ op w', Allowed w op → op.run w = .ok w' → ∀ s, (∀ e ∈ op.edits, e.key ≠ s) →
    w.lower ≤ s → w'.lower ≤ s → s < w.upper →
      w'.checkPDUValid s = w.checkPDUValid s ∧ ∀ buf, w'.getPDU buf s = w.getPDU buf s

/-- What is observed at a number that a call is not about. -/
theorem Stores.others (h : Stores w n lo p m) (hallowed : Allowed w op)
    (hrun : op.run w = .ok w') {x : Int} (hkey : ∀ e ∈ op.edits, e.key ≠ x) (hlow : w.lower ≤ x)
    (hlow' : w'.lower ≤ x) (hhigh : x < w.upper) :
    w'.checkPDUValid x = w.checkPDUValid x ∧ ∀ buf, w'.getPDU buf x = w.getPDU buf x := by
  obtain ⟨w₁, lo', p', hrun', hle, h'⟩ := h.step hallowed
  cases hrun.symm.trans hrun'
  have hupper := h.shows.upper
  have hupper' := h'.shows.upper
  have hhigh' : x < w'.upper := by omega
  have hm : op.edits.foldl Edit.apply m x = m x := Edit.foldl_apply_of_ne hkey
  refine ⟨?_, ?_⟩
  · rw [h'.observes.valid x hlow' hhigh', h.observes.valid x hlow hhigh, hm]
  · intro buf
    rw [h'.observes.get x hlow' hhigh', h.observes.get x hlow hhigh, hm]

theorem stores_of_reachable (hn : 0 < n) (hmax : n < 2147483648)
    {x : WindowArray × List (Edit Int Bytes)} (h : (system n).Reachable x) :
    ∃ lo p, Stores x.1 n lo p (Edit.replay x.2) := by
  refine System.Reachable.invariant (P := fun x => ∃ lo p, Stores x.1 n lo p (Edit.replay x.2))
    ?_ ?_ h
  · rintro x ⟨hmake, hlog⟩
    rw [hlog]
    exact ⟨0, _, .start hn hmax hmake⟩
  · rintro x op x' - ⟨lo, p, hx⟩ ⟨⟨hallowed, hrun⟩, hlog⟩
    obtain ⟨w', lo', p', hrun', -, hx'⟩ := hx.step hallowed
    cases hrun.symm.trans hrun'
    rw [hlog, Edit.replay_append]
    exact ⟨lo', p', hx'⟩

/-- A window that stores what a log leaves behaves like the map that the log describes. -/
theorem Stores.behavesAsMap {log : List (Edit Int Bytes)} (h : Stores w n lo p (Edit.replay log)) :
    BehavesAsMap w log := by
  have hlower := h.shows.lower
  have hupper := h.shows.upper
  refine ⟨Edit.replay_eq log ▸ h.observes, ?_, ?_, ?_⟩
  · rintro pdu rest x ⟨hlen, hlow, hhigh⟩ hvalid
    obtain ⟨s, rfl⟩ := Int.eq_ofNat_of_zero_le (show 0 ≤ x by omega)
    rw [h.observes.valid s hlow hhigh, h.pdu, Option.isSome_map] at hvalid
    obtain ⟨packet, hpacket⟩ := Option.isSome_iff_exists.mp (Except.ok.inj hvalid)
    exact h.again (s := s) hlen (by omega) (by omega) hpacket
  · intro op hallowed
    obtain ⟨w', -, -, hrun, -⟩ := h.step hallowed
    exact ⟨w', hrun⟩
  · intro op w' hallowed hrun x hkey hlow hlow' hhigh
    exact h.others hallowed hrun hkey hlow hlow' hhigh

/-- **The ring buffer refines a finite map.** -/
theorem behavesAsMap_of_reachable (hn : 0 < n) (hmax : n < 2147483648)
    {log : List (Edit Int Bytes)} (h : (system n).Reachable (w, log)) : BehavesAsMap w log := by
  obtain ⟨lo, p, hstores⟩ : ∃ lo p, Stores w n lo p (Edit.replay log) :=
    stores_of_reachable hn hmax h
  exact hstores.behavesAsMap

end

/-- A call with what it is to the map, computed. -/
def next (x : WindowArray × List (Edit Int Bytes)) (op : WindowOp) :
    Option (WindowArray × List (Edit Int Bytes)) :=
  if Allowed x.1 op then
    match op.run x.1 with
    | .ok w => some (w, x.2 ++ op.edits)
    | .error _ => none
  else none

theorem step_of_next {n : Nat} {x x' : WindowArray × List (Edit Int Bytes)} {op : WindowOp}
    (h : next x op = some x') : ∃ l, (system n).step x l x' := by
  unfold next at h
  split at h
  · next hallowed =>
      split at h
      · next w hrun =>
          cases h
          exact ⟨op, ⟨hallowed, hrun⟩, rfl⟩
      · cases h
  · cases h

/-- PDUs 0 and 2 share a slot. The second PDU added as 0 is not stored, and 2 comes after 0 has
left. -/
theorem behavesAsMap_smallWindow : ∃ x : WindowArray × List (Edit Int Bytes),
    (system 2).Reachable x ∧ x.1.lower = 1 ∧ x.1.getPDU [0, 0] 1 = .ok (1, [9, 0]) ∧
      x.1.getPDU [0, 0] 2 = .ok (2, [4, 5]) := by
  have hinit : (system 2).Reachable (smallWindow, []) := .init ⟨rfl, rfl⟩
  obtain ⟨x, hx, hp⟩ := hinit.exists_of_run next (fun _ _ _ => step_of_next)
    [.add [7, 8] [] 0, .add [3] [] 0, .add [9] [6] 1, .remove 0, .slide, .add [4, 5] [] 2]
    (fun x => decide (x.1.lower = 1 ∧ x.1.upper = 3 ∧ x.2 = [.insert 0 [7, 8], .insert 0 [3],
      .insert 1 [9], .erase 0, .insert 2 [4, 5]])) (by decide +kernel)
  obtain ⟨hlower, hupper, hlog⟩ := of_decide_eq_true hp
  have hmap := behavesAsMap_of_reachable (by decide) (by decide) hx
  have hget (s : Int) (hlow : 1 ≤ s) (hhigh : s < 3) :=
    hmap.observes.get s (by omega) (by omega) [0, 0]
  rw [hlog] at hget
  exact ⟨x, hx, hlower, hget 1 (by decide) (by decide), hget 2 (by decide) (by decide)⟩

end WindowOp

end RemoteCopy

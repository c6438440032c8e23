import RemoteCopy.Pdu
import RemoteCopy.Library.RingBuffer
import Mathlib.Tactic.NormNum

/-!
# The window: `window.c`

Both programs keep the PDUs of their window in an array of `window_size` slots and put the PDU of
sequence number `s` into slot `s % window_size`; nothing in `window.c` compares an `s` with the
edges of the window or with the sequence number stored in the slot. What makes this sound where it
is sound is that the array *shows* a finite map from the sequence numbers of the window to PDUs
(`WindowArray.Shows`). Each operation has its specification here in those terms, so that the
proofs about the two state machines never look at an array index.
-/

namespace RemoteCopy

/-- The size of `pdu` in a `packet`. -/
def maxPduLen : Nat := 1407

/-- A stored PDU. `pdu` is the copied part of the C array, so `pduLength` is its length. -/
structure Packet where
  sequenceNumber : Int
  flag : Byte
  pdu : Bytes
  fits : pdu.length ≤ maxPduLen
  deriving DecidableEq

/-- What `add_PDU` makes of the datagram `b` under sequence number `s`. -/
def Packet.of (s : Nat) (b : Bytes) (h : b.length ≤ maxPduLen) : Packet :=
  ⟨s, byteAt b recvFlagLocation, b, h⟩

/-- The payload of a stored PDU. -/
def Packet.payload (packet : Packet) : Bytes := packet.pdu.drop pduHeaderLen

/-- `WindowArray`. The array is allocated once, with `windowSize` slots. -/
structure WindowArray where
  array : List (Option Packet)
  upper : Int
  lower : Int
  current : Int
  windowSize : Int
  highest : Int
  length_array : (array.length : Int) = windowSize
  deriving DecidableEq

/-- `make_window`. A negative size asks `malloc` for more than there can be, and gets `NULL`. -/
def makeWindow (windowSize : Int) : Option WindowArray :=
  if h : 0 ≤ windowSize then
    some {
      array := List.replicate windowSize.toNat none
      lower := 0
      current := 0
      windowSize := windowSize
      upper := 0 + windowSize
      highest := 0
      length_array := by simp [h] }
  else none

/-- A fresh window of two PDUs. -/
def smallWindow : WindowArray where
  array := [none, none]
  upper := 2
  lower := 0
  current := 0
  windowSize := 2
  highest := 0
  length_array := rfl

namespace WindowArray

def updateHighest (w : WindowArray) (value : Int) : WindowArray := { w with highest := value }

def incrementLower (w : WindowArray) : C WindowArray := do
  let lower ← addInt32 w.lower 1
  return { w with lower := lower }

def incrementUpper (w : WindowArray) : C WindowArray := do
  let upper ← addInt32 w.upper 1
  return { w with upper := upper }

def incrementCurrent (w : WindowArray) : C WindowArray := do
  let current ← addInt32 w.current 1
  return { w with current := current }

def checkWindowOpen (w : WindowArray) : Bool := decide (w.current < w.upper)

/-- `sequence_number % window->window_size`, as an index into the array. C's remainder has the
sign of the sequence number; that it is below the array's length needs no check. -/
def index (w : WindowArray) (sequenceNumber : Int) : C Nat :=
  if w.windowSize = 0 then .error .remainderByZero
  else if sequenceNumber.tmod w.windowSize < 0 then .error .indexOutOfBounds
  else .ok (sequenceNumber.tmod w.windowSize).toNat

/-- `window->array[index]`. -/
def slot (w : WindowArray) (index : Nat) : Option Packet := (w.array[index]?).join

/-- `window->array[index] = x`. -/
def store (w : WindowArray) (index : Nat) (x : Option Packet) : WindowArray :=
  { w with
    array := w.array.set index x
    length_array := by rw [List.length_set]; exact w.length_array }

def checkPDUValid (w : WindowArray) (sequenceNumber : Int) : C Bool := do
  let index ← w.index sequenceNumber
  return (w.slot index).isSome

/-- `get_PDU` into a buffer that holds `pdu`: the return value and the buffer afterwards. -/
def getPDU (w : WindowArray) (pdu : Bytes) (sequenceNumber : Int) : C (Int × Bytes) := do
  let index ← w.index sequenceNumber
  match w.slot index with
  | none => return (-1, pdu)   -- PDU does not exist
  | some packet =>
      if pdu.length < packet.pdu.length then .error .bufferOverrun
      else return (packet.pdu.length, packet.pdu ++ pdu.drop packet.pdu.length)

/-- `add_PDU`. The copy into `packet.pdu` is not guarded in the C. -/
def addPDU (w : WindowArray) (pdu : Bytes) (pduLength : Nat) (sequenceNumber : Int) :
    C WindowArray := do
  let index ← w.index sequenceNumber
  match w.slot index with
  | some _ => return w   -- PDU already populated
  | none =>
      if h : pduLength ≤ maxPduLen then
        return w.store index (some {
          sequenceNumber := sequenceNumber
          flag := byteAt pdu 6
          pdu := pdu.take pduLength
          fits := by rw [List.length_take]; omega })
      else .error .bufferOverrun

/-- `remove_PDU`. Removing from an empty slot only prints a message. -/
def removePDU (w : WindowArray) (sequenceNumber : Int) : C WindowArray := do
  let index ← w.index sequenceNumber
  return w.store index none

/-! ## Field by field -/

section
variable (w : WindowArray) (i : Nat) (x : Option Packet)

@[simp] theorem store_lower : (w.store i x).lower = w.lower := rfl
@[simp] theorem store_upper : (w.store i x).upper = w.upper := rfl
@[simp] theorem store_current : (w.store i x).current = w.current := rfl

end

theorem lower_makeWindow {n : Int} {w : WindowArray} (h : makeWindow n = some w) :
    w.lower = 0 := by
  unfold makeWindow at h
  split at h
  · cases h
    rfl
  · cases h

theorem slot_makeWindow {n : Int} {w : WindowArray} (h : makeWindow n = some w) (i : Nat) :
    w.slot i = none := by
  unfold makeWindow at h
  split at h
  · cases h
    show ((List.replicate n.toNat none)[i]?).join = none
    rw [List.getElem?_replicate]
    split <;> rfl
  · cases h

/-! ## Indices

A positive window size makes every non-negative sequence number a valid index. -/

section
variable {w : WindowArray} {n s : Nat}

theorem index_eq (hn : w.windowSize = n) (hpos : 0 < n) : w.index s = .ok (s % n) := by
  have htmod : (s : Int).tmod (n : Int) = ((s % n : Nat) : Int) := (Int.ofNat_tmod s n).symm
  rw [index, hn, htmod, if_neg (by omega), if_neg (by omega), Int.toNat_natCast]

/-- What `add_PDU` does, whatever the slot holds. -/
theorem addPDU_eq (hn : w.windowSize = n) (hpos : 0 < n) (pdu : Bytes) {len : Nat}
    (hlen : len ≤ maxPduLen) :
    w.addPDU pdu len s = .ok (if (w.slot (s % n)).isSome then w
      else w.store (s % n) (some ⟨s, byteAt pdu 6, pdu.take len,
        by rw [List.length_take]; omega⟩)) := by
  rw [addPDU, index_eq hn hpos]
  cases hslot : w.slot (s % n) with
  | some packet => simp [hslot]
  | none => simp [hslot, hlen]

theorem removePDU_eq (hn : w.windowSize = n) (hpos : 0 < n) :
    w.removePDU s = .ok (w.store (s % n) none) := by
  rw [removePDU, index_eq hn hpos]
  rfl

theorem checkPDUValid_eq (hn : w.windowSize = n) (hpos : 0 < n) :
    w.checkPDUValid s = .ok (w.slot (s % n)).isSome := by
  rw [checkPDUValid, index_eq hn hpos]
  rfl

/-- What `get_PDU` has copied of a PDU with a header: its flag and its payload. -/
theorem copied_layout {packet : Packet} (hmin : pduHeaderLen ≤ packet.pdu.length)
    (hflag : packet.flag = byteAt packet.pdu recvFlagLocation) (tail : Bytes) :
    byteAt (packet.pdu ++ tail) recvFlagLocation = packet.flag ∧ (0 : Int) < packet.pdu.length ∧
      ((packet.pdu ++ tail).drop pduHeaderLen).take
        ((packet.pdu.length : Int) - pduHeaderLen).toNat = packet.payload := by
  have hpos : 0 < packet.pdu.length := Nat.lt_of_lt_of_le (by decide) hmin
  have hlen : ((packet.pdu.length : Int) - pduHeaderLen).toNat
      = (packet.pdu.drop pduHeaderLen).length := by
    rw [List.length_drop]
    omega
  refine ⟨?_, by omega, ?_⟩
  · rw [hflag, byteAt_append (Nat.lt_of_lt_of_le (by decide) hmin)]
  · rw [List.drop_append_of_le_length hmin, hlen, List.take_left, Packet.payload]

theorem getPDU_some {x : Int} {i : Nat} (hindex : w.index x = .ok i) {packet : Packet}
    (hslot : w.slot i = some packet) (pdu : Bytes) (hlen : packet.pdu.length ≤ pdu.length) :
    w.getPDU pdu x = .ok (packet.pdu.length, packet.pdu ++ pdu.drop packet.pdu.length) := by
  rw [getPDU, hindex, C.ok_bind, hslot]
  show (if _ then _ else _) = _
  rw [if_neg (by omega)]
  rfl

theorem getPDU_none {x : Int} {i : Nat} (hindex : w.index x = .ok i) (hslot : w.slot i = none)
    (pdu : Bytes) : w.getPDU pdu x = .ok (-1, pdu) := by
  rw [getPDU, hindex, C.ok_bind, hslot]
  rfl

end

/-! ## The calls that return -/

section
variable {w w' : WindowArray}

theorem of_incrementLower (h : w.incrementLower = .ok w') :
    w' = { w with lower := w.lower + 1 } ∧ w.lower + 1 < 2147483648 := by
  obtain ⟨lower, hadd, h⟩ := C.bind_eq_ok.mp h
  cases h
  obtain ⟨rfl, hlt⟩ := of_addInt32 hadd
  exact ⟨rfl, hlt⟩

theorem of_incrementUpper (h : w.incrementUpper = .ok w') :
    w' = { w with upper := w.upper + 1 } ∧ w.upper + 1 < 2147483648 := by
  obtain ⟨upper, hadd, h⟩ := C.bind_eq_ok.mp h
  cases h
  obtain ⟨rfl, hlt⟩ := of_addInt32 hadd
  exact ⟨rfl, hlt⟩

theorem of_incrementCurrent (h : w.incrementCurrent = .ok w') :
    w' = { w with current := w.current + 1 } ∧ w.current + 1 < 2147483648 := by
  obtain ⟨current, hadd, h⟩ := C.bind_eq_ok.mp h
  cases h
  obtain ⟨rfl, hlt⟩ := of_addInt32 hadd
  exact ⟨rfl, hlt⟩

theorem of_removePDU {x : Int} (h : w.removePDU x = .ok w') :
    ∃ i, w.index x = .ok i ∧ w' = w.store i none := by
  obtain ⟨i, hindex, h⟩ := C.bind_eq_ok.mp h
  cases h
  exact ⟨i, hindex, rfl⟩

end

/-! ## What the slots can hold

Without any assumption on the numbers: whatever is in a slot afterwards was there before, or has
just been put there. -/

section
variable {w w' : WindowArray} {x : Int} {j : Nat} {packet : Packet}

theorem slot_of_store {i : Nat} {y : Option Packet} (h : (w.store i y).slot j = some packet) :
    (w.slot j = some packet ∧ j ≠ i) ∨ (j = i ∧ y = some packet) := by
  by_cases hji : j = i
  · subst hji
    by_cases hlen : j < w.array.length
    · rw [slot, store, List.getElem?_set_self hlen] at h
      exact .inr ⟨rfl, h⟩
    · rw [slot, store, List.getElem?_eq_none (by rw [List.length_set]; omega)] at h
      cases h
  · rw [slot, store, List.getElem?_set_ne (Ne.symm hji)] at h
    exact .inl ⟨h, hji⟩

theorem slot_store_ne {i : Nat} (hne : j ≠ i) (y : Option Packet) :
    (w.store i y).slot j = w.slot j := by
  rw [slot, store, List.getElem?_set_ne (Ne.symm hne)]
  rfl

theorem slot_store_none (w : WindowArray) (i : Nat) : (w.store i none).slot i = none := by
  by_contra hne
  obtain ⟨packet, hslot⟩ := Option.ne_none_iff_exists'.mp hne
  rcases slot_of_store hslot with ⟨-, hi⟩ | ⟨-, hnone⟩
  · exact hi rfl
  · cases hnone

/-- An index is one of the array. -/
theorem lt_of_index (h : w.index x = .ok j) : j < w.array.length := by
  have hlen := w.length_array
  unfold index at h
  split at h
  · cases h
  · next hne =>
      split at h
      · cases h
      · cases h
        have hlt := Int.tmod_lt_of_pos x (show 0 < w.windowSize by omega)
        omega

theorem slot_store_self (h : w.index x = .ok j) (y : Option Packet) : (w.store j y).slot j = y := by
  rw [slot, store, List.getElem?_set_self (lt_of_index h)]
  rfl

theorem slot_of_addPDU {pdu : Bytes} {len : Nat} (hadd : w.addPDU pdu len x = .ok w')
    (h : w'.slot j = some packet) :
    w.slot j = some packet ∨ (w.index x = .ok j ∧ w.slot j = none ∧ packet.sequenceNumber = x ∧
      packet.flag = byteAt pdu recvFlagLocation ∧ packet.pdu = pdu.take len) := by
  obtain ⟨i, hindex, hadd⟩ := C.bind_eq_ok.mp hadd
  split at hadd
  · cases hadd
    exact .inl h
  · next hempty =>
      split at hadd
      · cases hadd
        rcases slot_of_store h with ⟨hold, -⟩ | ⟨rfl, hnew⟩
        · exact .inl hold
        · cases hnew
          exact .inr ⟨hindex, hempty, rfl, rfl, rfl⟩
      · cases hadd

/-- Only its bytes. -/
theorem pdu_of_addPDU {pdu : Bytes} {len : Nat} (hadd : w.addPDU pdu len x = .ok w')
    (h : w'.slot j = some packet) : w.slot j = some packet ∨ packet.pdu = pdu.take len := by
  rcases slot_of_addPDU hadd h with hold | ⟨-, -, -, -, hpdu⟩
  · exact .inl hold
  · exact .inr hpdu

/-- Adding changes one slot at most. -/
theorem slot_of_addPDU_ne {pdu : Bytes} {len : Nat} (hadd : w.addPDU pdu len x = .ok w')
    (hne : w.index x ≠ .ok j) : w'.slot j = w.slot j := by
  obtain ⟨i, hindex, hadd⟩ := C.bind_eq_ok.mp hadd
  split at hadd
  · cases hadd
    rfl
  · split at hadd
    · cases hadd
      exact slot_store_ne (fun hj => hne (by rw [hj, hindex])) _
    · cases hadd

/-- Adding to the array leaves the edges alone. -/
theorem edges_of_addPDU {pdu : Bytes} {len : Nat} (hadd : w.addPDU pdu len x = .ok w') :
    w'.lower = w.lower ∧ w'.upper = w.upper ∧ w'.current = w.current ∧
      w'.windowSize = w.windowSize ∧ w'.highest = w.highest := by
  obtain ⟨i, -, hadd⟩ := C.bind_eq_ok.mp hadd
  split at hadd
  · cases hadd
    exact ⟨rfl, rfl, rfl, rfl, rfl⟩
  · split at hadd
    · cases hadd
      exact ⟨rfl, rfl, rfl, rfl, rfl⟩
    · cases hadd

/-- So does removing. -/
theorem slot_of_removePDU_ne (hremove : w.removePDU x = .ok w') (hne : w.index x ≠ .ok j) :
    w'.slot j = w.slot j := by
  obtain ⟨i, hindex, hremove⟩ := C.bind_eq_ok.mp hremove
  cases hremove
  exact slot_store_ne (fun hj => hne (by rw [hj, hindex])) _

theorem slot_of_removePDU (hremove : w.removePDU x = .ok w') (h : w'.slot j = some packet) :
    w.slot j = some packet ∧ w.index x ≠ .ok j := by
  obtain ⟨i, hindex, hremove⟩ := C.bind_eq_ok.mp hremove
  cases hremove
  rcases slot_of_store h with ⟨hold, hne⟩ | ⟨-, hnew⟩
  · refine ⟨hold, fun hj => hne ?_⟩
    cases hindex.symm.trans hj
    rfl
  · cases hnew

end

/-! ## The window as a finite map -/

/-- `w` is a window of `n` slots over `[lo, lo + n)` whose PDUs are those of `m`, with both edges
in the range of `int32_t`. -/
structure Shows (w : WindowArray) (n lo : Nat) (m : Nat → Option Packet) : Prop where
  size : w.windowSize = n
  lower : w.lower = lo
  upper : w.upper = lo + n
  range : lo + n < 2147483648
  ring : RingBuffer.Represents w.array lo m

namespace Shows

variable {w : WindowArray} {n lo s : Nat} {m : Nat → Option Packet}

theorem length_eq (h : w.Shows n lo m) : w.array.length = n := by
  have h1 := w.length_array
  have h2 := h.size
  omega

theorem pos (h : w.Shows n lo m) : 0 < n := h.length_eq ▸ h.ring.pos

theorem slot_eq (h : w.Shows n lo m) (hs : lo ≤ s) (hs' : s < lo + n) :
    w.slot (s % n) = m s := by
  rw [← h.ring.get_eq s hs (by rw [h.length_eq]; exact hs'), RingBuffer.get, h.length_eq]
  rfl

/-- Nothing is in the array that the map does not show. -/
theorem slot_some (h : w.Shows n lo m) {i : Nat} {packet : Packet}
    (hslot : w.slot i = some packet) :
    ∃ s, lo ≤ s ∧ s < lo + n ∧ s % n = i ∧ m s = some packet := by
  have hi : i < w.array.length := by
    by_contra hge
    rw [slot, List.getElem?_eq_none (by omega)] at hslot
    cases hslot
  obtain ⟨s, h1, h2, h3, h4⟩ := h.ring.slot hi
  rw [h.length_eq] at h2 h3
  exact ⟨s, h1, h2, h3, h4.symm.trans hslot⟩

theorem mem_window (h : w.Shows n lo m) {packet : Packet} (hs : m s = some packet) :
    lo ≤ s ∧ s < lo + n := by
  have := h.ring.support s (by rw [hs]; simp)
  rwa [h.length_eq] at this

/-- The fields beside the edges and the array play no part. -/
theorem congr (h : w.Shows n lo m) {w' : WindowArray} (harray : w'.array = w.array)
    (hlower : w'.lower = w.lower) (hupper : w'.upper = w.upper)
    (hsize : w'.windowSize = w.windowSize) : w'.Shows n lo m :=
  ⟨hsize.trans h.size, hlower.trans h.lower, hupper.trans h.upper, h.range, harray ▸ h.ring⟩

/-- Two windows that show the same map differ in `current` and `highest` at most. -/
theorem ext (h : w.Shows n lo m) {w' : WindowArray} (h' : w'.Shows n lo m)
    (hcurrent : w'.current = w.current) (hhighest : w'.highest = w.highest) : w' = w := by
  have harray : w'.array = w.array := h.ring.ext h'.ring (by rw [h.length_eq, h'.length_eq])
  have hupper : w'.upper = w.upper := h'.upper.trans h.upper.symm
  have hlower : w'.lower = w.lower := h'.lower.trans h.lower.symm
  have hsize : w'.windowSize = w.windowSize := h'.size.trans h.size.symm
  cases w
  cases w'
  simp only at harray hupper hlower hcurrent hsize hhighest
  subst harray hupper hlower hcurrent hsize hhighest
  rfl

theorem make {w : WindowArray} (hn : 0 < n) (hmax : n < 2147483648)
    (h : makeWindow n = some w) : w.Shows n 0 fun _ => none := by
  rw [makeWindow, dif_pos (by omega)] at h
  cases h
  exact ⟨rfl, rfl, by simp, by omega, RingBuffer.Represents.empty (by omega) 0⟩

/-- Storing at a sequence number of the window updates the map there and nowhere else. -/
theorem store (h : w.Shows n lo m) (hs : lo ≤ s) (hs' : s < lo + n) (x : Option Packet) :
    (w.store (s % n) x).Shows n lo (Function.update m s x) where
  size := h.size
  lower := h.lower
  upper := h.upper
  range := h.range
  ring := by
    have hput := h.ring.put hs (by rw [h.length_eq]; exact hs') x
    rwa [RingBuffer.put, h.length_eq] at hput

/-- Both edges move up by one, once the lower edge holds nothing. -/
theorem slide (h : w.Shows n lo m) (hlo : m lo = none) (hmax : lo + 1 + n < 2147483648)
    {w' : WindowArray}
    (harray : w'.array = w.array) (hlower : w'.lower = w.lower + 1)
    (hupper : w'.upper = w.upper + 1) (hsize : w'.windowSize = w.windowSize) :
    w'.Shows n (lo + 1) m where
  size := hsize.trans h.size
  lower := by rw [hlower, h.lower]; push_cast; rfl
  upper := by rw [hupper, h.upper]; push_cast; omega
  range := hmax
  ring := harray ▸ h.ring.slide hlo

end Shows

end WindowArray

end RemoteCopy

import RemoteCopy.ControlTraffic

/-!
# How far one datagram reaches

A single accepted datagram, with any 32-bit sequence number, in any state that the receiver can be
in. `rcopy` moves the upper edge of its window along with the lower one and never looks at it: the
SREJs it sends and the slot it writes to are bounded by the number it receives alone. The datagrams
that keep it within its window are exactly those of `Rcopy.InReach`.
-/

namespace RemoteCopy

namespace Rcopy

variable {o : ByteOrder} {n : Nat} {r r' r₀ : Rcopy}

/-! ## Every reachable window -/

/-- What no datagram can change about the window of a receiver: its size, the distance of its edges,
and the range of its numbers. -/
structure InRange (n : Nat) (w : WindowArray) : Prop where
  size : w.windowSize = n
  lower : w.lower = w.current
  upper : w.upper = w.current + n
  current : 0 ≤ w.current
  current_lt : w.current < 2147483648
  highest : 0 ≤ w.highest
  highest_lt : w.highest < 2147483648

theorem InRange.make {w : WindowArray} (h : makeWindow n = some w) : InRange n w := by
  rw [makeWindow, dif_pos (by omega)] at h
  cases h
  exact ⟨rfl, rfl, rfl, Int.le_refl 0, by simp, Int.le_refl 0, by simp⟩

section
variable {w w' : WindowArray}

/-- The window has moved, and `highest` is in range. -/
theorem InRange.advanced (h : InRange n w) (hadvanced : Advanced w w') (hhighest : 0 ≤ w'.highest)
    (hlt : w'.highest < 2147483648) : InRange n w' where
  size := hadvanced.windowSize.trans h.size
  lower := by rw [hadvanced.lower, hadvanced.current, h.lower]
  upper := by
    rw [hadvanced.upper, hadvanced.current, h.upper]
    omega
  current := by
    rw [hadvanced.current]
    have := h.current
    omega
  current_lt := hadvanced.current_lt
  highest := hhighest
  highest_lt := hlt

end

theorem InRange.step (h : InRange n r.window) {i : RcopyInput} (heffect : Effect o r i r') :
    InRange n r'.window := by
  have hcurrent := h.current
  have hcurrent_lt := h.current_lt
  cases heffect with
  | idle hwindow _ _ =>
      rw [hwindow]
      exact h
  | @written pdu _ hnumber _ _ hadvanced _ hpoint =>
      rcases hpoint with ⟨-, -, hhighest⟩ | ⟨-, -, hhighest⟩
      · -- In order, `highest` becomes what `current` was.
        have heq : r'.window.highest = r.window.current := by
          rw [hhighest, hnumber]
          exact toInt32_toUInt32 (by omega) hcurrent_lt
        exact h.advanced hadvanced (by omega) (by omega)
      · exact h.advanced hadvanced (hhighest ▸ h.highest) (hhighest ▸ h.highest_lt)
  | @kept pdu _ _ _ _ hedges _ hhighest _ =>
      obtain ⟨hlower, hupper, hcur, hsize⟩ := hedges
      obtain ⟨-, hle, hlt, -⟩ := hhighest h.current h.current_lt h.highest h.highest_lt
      exact {
        size := hsize.trans h.size
        lower := by rw [hlower, hcur, h.lower]
        upper := by rw [hupper, hcur, h.upper]
        current := hcur ▸ h.current
        current_lt := hcur ▸ h.current_lt
        highest := by omega
        highest_lt := hlt }
  | flushed _ _ _ hadvanced hhighest _ _ =>
      exact h.advanced hadvanced (hhighest ▸ h.highest) (hhighest ▸ h.highest_lt)
  | short _ hwindow _ _ =>
      rw [hwindow]
      exact h

/-- **Whatever arrives**, the edges stay together and the numbers in range. -/
theorem inRange_of_reachable {bufferSize : BufferSize} {seq : UInt32} {addr : Addr}
    (hstart : start n bufferSize seq addr = .ok r₀) (h : (system o r₀).Reachable r) :
    InRange n r.window := by
  refine System.Reachable.invariant (P := fun r => InRange n r.window) ?_ ?_ h
  · rintro r rfl
    exact .make (of_start hstart).1
  · intro r l r' hr hrange hstep
    exact hrange.step (effect_of_step (stocked_of_reachable hstart hr) hstep)

/-! ## Within the window -/

/-- `y`, which is what a receiver with window `w` makes of a PDU with sequence number `s`, stays
within a window of `n` slots: there are fewer than `n` SREJs and they are for numbers of the window,
the counter of their loop does not overflow, and `add_PDU`, which is called for whatever is beyond
`current`, gets a slot of the array. -/
structure StaysWithin (o : ByteOrder) (n : Nat) (w : WindowArray) (s : UInt32)
    (y : C (Rcopy × List Datagram)) : Prop where
  few : ∀ r' ds, y = .ok (r', ds) → (srejNumbers o ds).length < n
  within : ∀ r' ds, y = .ok (r', ds) → ∀ number ∈ srejNumbers o ds,
    w.current ≤ number ∧ number < w.upper
  counter : toUInt32 w.current < s → y ≠ .error .signedOverflow
  slot : toUInt32 w.current < s → ∃ j, w.index (toInt32 s) = .ok j ∧ j < n

/-- The sequence numbers that keep `r` within its window: those up to `current`, those below the
upper edge, and, while buffering, those that open no gap or only a gap within the window. -/
def InReach (n : Nat) (r : Rcopy) (s : UInt32) : Prop :=
  (s.toNat : Int) ≤ r.window.current ∨ (s.toNat < 2147483648 ∧
    (r.point = .inOrder → (s.toNat : Int) < r.window.upper) ∧
    (r.point = .buffering → (s.toNat : Int) ≤ r.window.highest + 1 ∨
      (r.window.current ≤ r.window.highest + 1 ∧ (s.toNat : Int) ≤ r.window.upper ∧
        (s.toNat : Int) ≤ r.window.highest + n)))

/-! ### Up to `current` -/

section
variable {pdu : ReceivedPdu} {write : Write} {junk : Byte} {ds : List Datagram}

theorem srejNumbers_of_sends {dest : Addr} {cs : List Reply} (h : Sends dest cs ds)
    (hfits : ∀ c ∈ cs, c.Fits) : srejNumbers o ds = (Receiver.srejed cs).map Int.ofNat :=
  (h.encoded hfits).srejNumbers_eq o

section
variable {dest : Addr} {seq : UInt32}

/-- An RR is no SREJ. -/
theorem srejNumbers_rr {number : Int} (hnonneg : 0 ≤ number) (hlt : number < 2147483648) :
    srejNumbers o [⟨dest, encodePDU o seq rrFlag (ByteOrder.bytes32 .big (toUInt32 number))⟩]
      = [] := by
  obtain ⟨k, rfl⟩ := Int.eq_ofNat_of_zero_le hnonneg
  have hsends : Sends dest [.rr k]
      [⟨dest, encodePDU o seq rrFlag (ByteOrder.bytes32 .big (toUInt32 k))⟩] :=
    .cons ⟨rfl, o, seq, rfl⟩ .nil
  refine srejNumbers_of_sends hsends fun c hc => ?_
  rw [List.mem_singleton.mp hc]
  show k < 2147483648
  omega

/-- Nor is the one that is sent when the window has moved. -/
theorem srejNumbers_of_advance {w w' : WindowArray} (hcurrent : 0 ≤ w.current)
    (h : advance w = .ok w') :
    srejNumbers o [⟨dest, encodePDU o seq rrFlag (ByteOrder.bytes32 .big (toUInt32 w'.current))⟩]
      = [] := by
  obtain ⟨⟨-, -, hnext, hlt, -⟩, -, -⟩ := of_advance h
  refine srejNumbers_rr ?_ hlt
  rw [hnext]
  exact Int.le_add_one hcurrent

end

theorem srejNumbers_of_sendRR {d : Datagram} {number : Int} (hnonneg : 0 ≤ number)
    (hlt : number < 2147483648) (h : r.sendRR o number = .ok (r', d)) :
    srejNumbers o [d] = [] := by
  rw [sendRR, sendNumber_eq] at h
  cases h
  exact srejNumbers_rr hnonneg hlt

/-- Neither is an EOF ACK. -/
theorem srejNumbers_of_sendEofAck {d : Datagram} (h : r.sendEofAck o junk = .ok d) :
    srejNumbers o [d] = [] := by
  obtain ⟨d', hsend, hsends⟩ := r.sendEofAck_eq (o := o) junk
  cases hsend.symm.trans h
  refine srejNumbers_of_sends hsends fun c hc => ?_
  rw [List.mem_singleton.mp hc]
  trivial

theorem srejNumbers_of_inOrderCurrent (hrange : InRange n r.window)
    (h : r.inOrderCurrent o pdu write junk = .ok (r', ds)) : srejNumbers o ds = [] := by
  unfold inOrderCurrent at h
  split at h
  · split at h
    · split at h
      · cases h
        rfl
      · obtain ⟨w, hadvance, h⟩ := of_moved h
        cases h
        have hcurrent : 0 ≤ (r.window.updateHighest (toInt32 pdu.sequenceNumber)).current :=
          hrange.current
        exact srejNumbers_of_advance hcurrent hadvance
    · cases h
      rfl
  · obtain ⟨d, hsend, h⟩ := C.bind_eq_ok.mp h
    cases h
    exact srejNumbers_of_sendEofAck hsend

theorem srejNumbers_of_bufferingCurrent (hrange : InRange n r.window)
    (h : r.bufferingCurrent o pdu write = .ok (r', ds)) : srejNumbers o ds = [] := by
  -- With or without something to write, the window moves and one RR is sent.
  have hnext (file : List Bytes) (h : (do
      let window ← advance r.window
      let x ← sendRR o { r with outputFile := file, window := window } window.current
      return ({ x.1 with point := .flush }, [x.2]) : C (Rcopy × List Datagram)) = .ok (r', ds)) :
      srejNumbers o ds = [] := by
    obtain ⟨w, hadvance, h⟩ := of_moved h
    cases h
    exact srejNumbers_of_advance hrange.current hadvance
  unfold bufferingCurrent at h
  split at h
  · simp only at h
    split at h
    · split at h
      · cases h
        rfl
      · exact hnext _ h
    · exact hnext _ h
  · cases h
    rfl

/-- At or below `current` nothing is asked for. -/
theorem srejNumbers_of_le (hrange : InRange n r.window) {src : Addr} {stale datagram : Bytes}
    (hpdu : (RcopyInput.poll (.received src stale datagram) write junk).pdu o
      (pduHeaderLen + r.bufferSize) = some pdu)
    (hle : ¬ toUInt32 r.window.current < pdu.sequenceNumber)
    (h : r.step o (.poll (.received src stale datagram) write junk) = some (.ok (r', ds))) :
    srejNumbers o ds = [] := by
  have hprocess : processPDU o (recvfrom (pduHeaderLen + r.bufferSize) stale datagram).1
      (recvfrom (pduHeaderLen + r.bufferSize) stale datagram).2 = some pdu := hpdu
  have hrange' : InRange n ({ r with serverAddress := src } : Rcopy).window := hrange
  rcases point_of_step_poll h with hpoint | hpoint
  · rw [step_inOrder hpoint] at h
    simp only [inOrder, hprocess, Option.some.injEq] at h
    split at h
    · next hge =>
        rw [if_pos (UInt32.le_antisymm (UInt32.not_lt.mp hle) hge)] at h
        exact srejNumbers_of_inOrderCurrent hrange' h
    · obtain ⟨⟨r₁, d⟩, hsend, h⟩ := C.bind_eq_ok.mp h
      cases h
      rw [hrange.lower] at hsend
      exact srejNumbers_of_sendRR hrange.current hrange.current_lt hsend
  · rw [step_buffering hpoint] at h
    simp only [buffering, hprocess, if_neg hle, Option.some.injEq] at h
    split at h
    · exact srejNumbers_of_bufferingCurrent hrange' h
    · obtain ⟨⟨r₁, d⟩, hsend, h⟩ := C.bind_eq_ok.mp h
      cases h
      exact srejNumbers_of_sendRR hrange.current hrange.current_lt hsend

end

/-! ### Beyond `current` -/

/-- The SREJs for the numbers from `i` up to `s` are few, and within the window. -/
theorem range'_within {i s : Nat} {lo hi : Int} :
    (((List.range' i (s - i)).map Int.ofNat).length < n ∧
      ∀ number ∈ (List.range' i (s - i)).map Int.ofNat, lo ≤ number ∧ number < hi) ↔
    s - i < n ∧ (s ≤ i ∨ (lo ≤ i ∧ (s : Int) ≤ hi)) := by
  rw [List.length_map, List.length_range']
  refine and_congr_right fun _ => ⟨fun h => ?_, fun h number hnumber => ?_⟩
  · rcases Nat.lt_or_ge i s with hlt | hge
    · -- The first and the last of them decide.
      have hfirst := h i (List.mem_map.mpr ⟨i, List.mem_range'_1.mpr (by omega), rfl⟩)
      have hlast := h (s - 1 : Nat)
        (List.mem_map.mpr ⟨s - 1, List.mem_range'_1.mpr (by omega), rfl⟩)
      exact .inr ⟨hfirst.1, by omega⟩
    · exact .inl hge
  · obtain ⟨k, hk, rfl⟩ := List.mem_map.mp hnumber
    rw [List.mem_range'_1] at hk
    simp only [Int.ofNat_eq_natCast]
    omega

/-- A handling that returns with the SREJs from `i` up to the number received. -/
theorem staysWithin_of_srejs {s : UInt32} {i : Nat} {r₁ : Rcopy} {dest : Addr}
    {ds : List Datagram} (hn : 0 < n) (hrange : InRange n r.window) (hs : s.toNat < 2147483648)
    (hsends : Sends dest (Receiver.srejs i s.toNat) ds) :
    StaysWithin o n r.window s (.ok (r₁, ds)) ↔ s.toNat - i < n ∧
      (s.toNat ≤ i ∨ (r.window.current ≤ i ∧ (s.toNat : Int) ≤ r.window.upper)) := by
  have hnumbers : srejNumbers o ds = (List.range' i (s.toNat - i)).map Int.ofNat := by
    rw [← Receiver.srejed_srejs]
    refine srejNumbers_of_sends hsends fun c hc => ?_
    obtain ⟨k, rfl, -, hk⟩ := Receiver.mem_srejs hc
    exact Nat.lt_trans hk hs
  rw [← range'_within, ← hnumbers]
  constructor
  · intro h
    exact ⟨h.few r₁ ds rfl, h.within r₁ ds rfl⟩
  · rintro ⟨hfew, hwithin⟩
    constructor
    · rintro r' ds' heq
      cases heq
      exact hfew
    · rintro r' ds' heq
      cases heq
      exact hwithin
    · intro _ hc
      cases hc
    · intro _
      rw [toInt32_of_lt hs]
      exact ⟨s.toNat % n, WindowArray.index_eq hrange.size hn, Nat.mod_lt _ hn⟩

section
variable {pdu : ReceivedPdu} {receiveBuffer : Bytes} {recvLength : Nat}

/-- The slot that `add_PDU` gets for a sequence number, whatever the number. -/
theorem exists_addPDU {w : WindowArray} {number : Int} {j : Nat} (hindex : w.index number = .ok j)
    (receiveBuffer : Bytes) (hlen : recvLength ≤ maxPduLen) :
    ∃ w', w.addPDU receiveBuffer recvLength number = .ok w' := by
  rw [WindowArray.addPDU, hindex, C.ok_bind]
  split
  · exact ⟨w, rfl⟩
  · rw [dif_pos hlen]
    exact ⟨_, rfl⟩

theorem staysWithin_inOrderAhead (hn : 0 < n) (hrange : InRange n r.window)
    (hahead : toUInt32 r.window.current < pdu.sequenceNumber) (hlen : recvLength ≤ maxPduLen) :
    StaysWithin o n r.window pdu.sequenceNumber (r.inOrderAhead o pdu receiveBuffer recvLength) ↔
      pdu.sequenceNumber.toNat < 2147483648 ∧
        (pdu.sequenceNumber.toNat : Int) < r.window.upper := by
  have hcurrent_lt := hrange.current_lt
  have hupper := hrange.upper
  obtain ⟨c, hc⟩ := Int.eq_ofNat_of_zero_le hrange.current
  have hbelow : c < pdu.sequenceNumber.toNat := by
    rw [hc] at hahead
    exact (toUInt32_natCast_lt (by omega)).mp hahead
  rcases Nat.lt_or_ge pdu.sequenceNumber.toNat 2147483648 with hs | hs
  · obtain ⟨w', hadd⟩ := exists_addPDU
      (WindowArray.index_eq (w := r.window.updateHighest pdu.sequenceNumber.toNat) hrange.size hn)
      receiveBuffer hlen
    obtain ⟨ds, seq, hrun, hsends⟩ := inOrderAhead_eq (o := o) pdu hc (by omega) hs hadd
    rw [hrun, staysWithin_of_srejs hn hrange hs hsends]
    omega
  · -- The counter passes every number of an `int32_t` and then overflows.
    have hrun : r.inOrderAhead o pdu receiveBuffer recvLength = .error .signedOverflow := by
      rw [inOrderAhead, srejLoop_overflow hs _ r hrange.current hcurrent_lt (by omega)]
      rfl
    rw [hrun]
    exact ⟨fun h => absurd rfl (h.counter hahead), fun h => absurd h.1 (Nat.not_lt.mpr hs)⟩

theorem staysWithin_bufferingAhead (hn : 0 < n) (hrange : InRange n r.window)
    (hahead : toUInt32 r.window.current < pdu.sequenceNumber) (hlen : recvLength ≤ maxPduLen) :
    StaysWithin o n r.window pdu.sequenceNumber (r.bufferingAhead o pdu receiveBuffer recvLength) ↔
      pdu.sequenceNumber.toNat < 2147483648 ∧
        ((pdu.sequenceNumber.toNat : Int) ≤ r.window.highest + 1 ∨
          (r.window.current ≤ r.window.highest + 1 ∧
            (pdu.sequenceNumber.toNat : Int) ≤ r.window.upper ∧
            (pdu.sequenceNumber.toNat : Int) ≤ r.window.highest + n)) := by
  have hhighest_lt := hrange.highest_lt
  obtain ⟨h, hh⟩ := Int.eq_ofNat_of_zero_le hrange.highest
  rcases Nat.lt_or_ge pdu.sequenceNumber.toNat 2147483648 with hs | hs
  · obtain ⟨w', hadd⟩ := exists_addPDU
      (WindowArray.index_eq (w := r.window) (s := pdu.sequenceNumber.toNat) hrange.size hn)
      receiveBuffer hlen
    obtain ⟨ds, seq, hrun, hsends⟩ := bufferingAhead_eq (o := o) pdu hh (by omega) hs hadd
    rw [hrun, staysWithin_of_srejs hn hrange hs hsends]
    omega
  · -- If `add_PDU` gets a slot at all, the counter overflows.
    refine ⟨fun hwithin => ?_, fun h => absurd h.1 (Nat.not_lt.mpr hs)⟩
    obtain ⟨j, hindex, -⟩ := hwithin.slot hahead
    obtain ⟨w', hadd⟩ := exists_addPDU hindex receiveBuffer hlen
    have hhighest : w'.highest = r.window.highest := (WindowArray.edges_of_addPDU hadd).2.2.2.2
    have hgt : toUInt32 r.window.highest < pdu.sequenceNumber := by
      rw [hh, toUInt32_natCast_lt (by omega)]
      omega
    have hrun : r.bufferingAhead o pdu receiveBuffer recvLength = .error .signedOverflow := by
      simp only [bufferingAhead, hadd, C.ok_bind, hhighest, if_pos hgt]
      by_cases hnext : r.window.highest + 1 < 2147483648
      · have hinc : addInt32 r.window.highest 1 = .ok (r.window.highest + 1) :=
          addInt32_ok (by omega) hnext
        rw [hinc, C.ok_bind, srejLoop_overflow hs _ _ (by omega) hnext (by omega)]
        rfl
      · have hinc : addInt32 r.window.highest 1 = .error .signedOverflow := if_neg (by omega)
        rw [hinc]
        rfl
    exact absurd hrun (hwithin.counter hahead)

end

/-! ### Every number -/

/-- **One datagram stays within the window exactly if its sequence number is in reach**, in every
state that the receiver can be in. -/
theorem staysWithin_iff {bufferSize : BufferSize} {seq : UInt32} {addr : Addr} (hn : 0 < n)
    (hstart : start n bufferSize seq addr = .ok r₀) (h : (system o r₀).Reachable r) {src : Addr}
    {stale datagram : Bytes} {write : Write} {junk : Byte} {pdu : ReceivedPdu}
    (hpdu : (RcopyInput.poll (.received src stale datagram) write junk).pdu o
      (pduHeaderLen + r.bufferSize) = some pdu)
    {y : C (Rcopy × List Datagram)}
    (hstep : r.step o (.poll (.received src stale datagram) write junk) = some y) :
    StaysWithin o n r.window pdu.sequenceNumber y ↔ InReach n r pdu.sequenceNumber := by
  have hrange := inRange_of_reachable hstart h
  have hcurrent_lt := hrange.current_lt
  have hpoint := point_of_step_poll hstep
  obtain ⟨c, hc⟩ := Int.eq_ofNat_of_zero_le hrange.current
  have hbelow : toUInt32 r.window.current < pdu.sequenceNumber ↔ c < pdu.sequenceNumber.toNat := by
    rw [hc, toUInt32_natCast_lt (by omega)]
  by_cases hahead : toUInt32 r.window.current < pdu.sequenceNumber
  · have hlen : (recvfrom (pduHeaderLen + r.bufferSize) stale datagram).2 ≤ maxPduLen := by
      have := r.bufferSize.2.2
      simp only [recvfrom, pduHeaderLen, maxPduLen]
      omega
    have hprocess : processPDU o (recvfrom (pduHeaderLen + r.bufferSize) stale datagram).1
        (recvfrom (pduHeaderLen + r.bufferSize) stale datagram).2 = some pdu := hpdu
    have hrange' : InRange n ({ r with serverAddress := src } : Rcopy).window := hrange
    have hreach : ¬ (pdu.sequenceNumber.toNat : Int) ≤ r.window.current := by
      have := hbelow.mp hahead
      omega
    rw [InReach, or_iff_right hreach]
    rcases hpoint with hpoint | hpoint
    · rw [step_inOrder hpoint] at hstep
      simp only [inOrder, hprocess, if_pos (UInt32.le_of_lt hahead),
        if_neg (UInt32.ne_of_lt hahead).symm, Option.some.injEq] at hstep
      rw [← hstep]
      refine (staysWithin_inOrderAhead hn hrange' hahead hlen).trans (and_congr_right fun _ => ?_)
      constructor
      · intro hlt
        exact ⟨fun _ => hlt, fun hc => by cases hpoint.symm.trans hc⟩
      · intro hlt
        exact hlt.1 hpoint
    · rw [step_buffering hpoint] at hstep
      simp only [buffering, hprocess, if_pos hahead, Option.some.injEq] at hstep
      rw [← hstep]
      refine (staysWithin_bufferingAhead hn hrange' hahead hlen).trans
        (and_congr_right fun _ => ?_)
      constructor
      · intro hgap
        exact ⟨fun hc => (by cases hpoint.symm.trans hc), fun _ => hgap⟩
      · intro hgap
        exact hgap.2 hpoint
  · -- Nothing is asked for, and nothing is put into the window.
    have hreach : (pdu.sequenceNumber.toNat : Int) ≤ r.window.current := by
      have := mt hbelow.mpr hahead
      omega
    refine iff_of_true ?_ (.inl hreach)
    constructor
    · rintro r' ds rfl
      rw [srejNumbers_of_le hrange hpdu hahead hstep]
      exact hn
    · rintro r' ds rfl number hnumber
      rw [srejNumbers_of_le hrange hpdu hahead hstep] at hnumber
      cases hnumber
    · exact fun hc => absurd hc hahead
    · exact fun hc => absurd hc hahead

/-- The second block of a window of two is in reach. -/
theorem staysWithin_iff_arrival : ∃ y,
    smallRcopy.step .little (.poll (.received 7 [] (arrival 1).datagram) .complete 0) = some y ∧
    (StaysWithin .little 2 smallRcopy.window 1 y ↔ InReach 2 smallRcopy 1) := by
  have hpdu : (RcopyInput.poll (.received 7 [] (arrival 1).datagram) .complete 0).pdu .little
      (pduHeaderLen + smallRcopy.bufferSize) = some ⟨1, dataPacketFlag, [1], 1⟩ := by decide +kernel
  exact ⟨_, rfl, staysWithin_iff (by decide) start_smallRcopy (.init rfl) hpdu rfl⟩

/-- The sixth block of a file, as the first datagram: a receiver with a window of two asks for five
blocks. -/
theorem not_staysWithin : ∃ y, start (2 : Nat) leastBufferSize 0 7 = .ok smallRcopy ∧
    (system .little smallRcopy).Reachable smallRcopy ∧
    smallRcopy.step .little (.poll (.received 7 [] (arrival 5).datagram) .complete 0) = some y ∧
    (RcopyInput.poll (.received 7 [] (arrival 5).datagram) .complete 0).pdu .little
      (pduHeaderLen + smallRcopy.bufferSize) = some ⟨5, dataPacketFlag, [5], 1⟩ ∧
    ¬ StaysWithin .little 2 smallRcopy.window 5 y := by
  have hfive : ((smallRcopy.step .little
      (.poll (.received 7 [] (arrival 5).datagram) .complete 0)).bind fun y =>
        y.toOption.map fun x => (srejNumbers .little x.2).length) = some 5 := by decide +kernel
  obtain ⟨y, hstep, hy⟩ := Option.bind_eq_some_iff.mp hfive
  obtain ⟨x, hx, hlength⟩ := Option.map_eq_some_iff.mp hy
  refine ⟨y, rfl, .init rfl, hstep, by decide +kernel, fun h => ?_⟩
  cases y with
  | error e => cases hx
  | ok z =>
      cases hx
      have hfew := h.few x.1 x.2 rfl
      rw [hlength] at hfew
      exact absurd hfew (by decide)

end Rcopy

end RemoteCopy

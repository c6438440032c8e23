import RemoteCopy.Rcopy

/-!
# What one step of the receiver can do

The inversion of `Rcopy.step` on an arbitrary window: whatever sequence numbers and flags the
datagrams carry, a step that returns does one of the things listed by `Rcopy.Effect`. Where the
peer follows the protocol the receiver refines `Receiver` and this is not needed; it is for peers
that do not.
-/

namespace RemoteCopy

/-- The PDU that a poll accepts, if it receives one that passes `processPDU`. -/
def RcopyInput.pdu (o : ByteOrder) (size : Nat) : RcopyInput → Option ReceivedPdu
  | .poll (.received _ stale datagram) _ _ =>
      processPDU o (recvfrom size stale datagram).1 (recvfrom size stale datagram).2
  | _ => none

/-- Whose address the receiver holds after the input. -/
def RcopyInput.server (server : Addr) : RcopyInput → Addr
  | .poll (.received src _ _) _ _ => src
  | _ => server

/-- What the receiver writes in this step, if anything, is written completely. -/
def RcopyInput.CompleteWrite : RcopyInput → Prop
  | .poll _ write _ => write = .complete
  | .flush write _ => write = .complete

instance : DecidablePred RcopyInput.CompleteWrite
  | .poll _ write _ => inferInstanceAs (Decidable (write = .complete))
  | .flush write _ => inferInstanceAs (Decidable (write = .complete))

/-- The stored PDU is what `add_PDU` keeps of the received one. -/
structure Packet.Keeps (packet : Packet) (pdu : ReceivedPdu) : Prop where
  sequenceNumber : packet.sequenceNumber = toInt32 pdu.sequenceNumber
  flag : packet.flag = pdu.recvFlag
  payload : packet.payload = pdu.payload

/-- What `processPDU` reads of a receive buffer, and what `add_PDU` keeps of it. -/
theorem processPDU_layout {o : ByteOrder} {buf : Bytes} {len : Nat} {pdu : ReceivedPdu}
    (hlen : len ≤ buf.length) (h : processPDU o buf len = some pdu) :
    pduHeaderLen ≤ (buf.take len).length ∧ byteAt buf recvFlagLocation = pdu.recvFlag ∧
      byteAt (buf.take len) recvFlagLocation = pdu.recvFlag ∧
      (buf.take len).drop pduHeaderLen = pdu.payload ∧ pdu.payload.length = pdu.payloadLen := by
  unfold processPDU at h
  split at h
  · cases h
  · next hmin =>
      split at h
      · cases h
      · cases h
        refine ⟨by rw [List.length_take]; omega, rfl, ?_, List.drop_take .., ?_⟩
        · simp only [pduHeaderLen] at hmin
          rw [byteAt, byteAt, List.getD_eq_getElem?_getD, List.getD_eq_getElem?_getD,
            List.getElem?_take_of_lt (by simp only [recvFlagLocation]; omega)]
        · simp only [ReceivedPdu.payload, List.length_take, List.length_drop]
          omega

theorem le_length_recvfrom (size : Nat) (stale datagram : Bytes) :
    (recvfrom size stale datagram).2 ≤ (recvfrom size stale datagram).1.length := by
  simp only [recvfrom, List.length_append, List.length_take]
  omega

namespace Rcopy

variable {o : ByteOrder} {r r' : Rcopy}

/-- Everything stored has a header, with the flag that is kept beside it. -/
def Stocked (r : Rcopy) : Prop :=
  ∀ j packet, r.window.slot j = some packet →
    pduHeaderLen ≤ packet.pdu.length ∧ packet.flag = byteAt packet.pdu recvFlagLocation

/-- The slot of `current` holds a PDU. -/
def AtCurrent (r : Rcopy) (packet : Packet) : Prop :=
  ∃ j, r.window.index r.window.current = .ok j ∧ r.window.slot j = some packet

/-- The window after `advance` or `flushAdvance`, but for its array. -/
structure Advanced (w w' : WindowArray) : Prop where
  lower : w'.lower = w.lower + 1
  upper : w'.upper = w.upper + 1
  current : w'.current = w.current + 1
  current_lt : w'.current < 2147483648
  windowSize : w'.windowSize = w.windowSize

/-- What a step that returns has done to the window and the file. -/
inductive Effect (o : ByteOrder) (r : Rcopy) : RcopyInput → Rcopy → Prop
  /-- Nothing; a flush has come to its end, or the receiver has. -/
  | idle {i : RcopyInput} {r' : Rcopy} (hwindow : r'.window = r.window)
      (hfile : r'.outputFile = r.outputFile)
      (hpoint : r'.point = r.point ∨
        (r.point = .flush ∧ r'.point = .buffering ∧ ∀ packet, ¬ r.AtCurrent packet) ∨
        ∃ why, r'.point = .done why) : Effect o r i r'
  /-- A PDU at `current` was written, or had no payload, and the window moved. -/
  | written {i : RcopyInput} {r' : Rcopy} {pdu : ReceivedPdu}
      (hpdu : i.pdu o (pduHeaderLen + r.bufferSize) = some pdu)
      (hnumber : pdu.sequenceNumber = toUInt32 r.window.current) (hflag : pdu.recvFlag ≠ eofFlag)
      (hfile : (pdu.payload ≠ [] ∧ r'.outputFile = r.outputFile ++ [pdu.payload]) ∨
        (pdu.payload = [] ∧ r.point = .buffering ∧ r'.outputFile = r.outputFile))
      (hadvanced : Advanced r.window r'.window) (harray : r'.window.array = r.window.array)
      (hpoint : (r.point = .inOrder ∧ r'.point = .inOrder ∧
          r'.window.highest = toInt32 pdu.sequenceNumber) ∨
        (r.point = .buffering ∧ r'.point = .flush ∧ r'.window.highest = r.window.highest)) :
      Effect o r i r'
  /-- A PDU beyond `current` was kept, unless its slot was taken. -/
  | kept {i : RcopyInput} {r' : Rcopy} {pdu : ReceivedPdu}
      (hpdu : i.pdu o (pduHeaderLen + r.bufferSize) = some pdu)
      (hnumber : toUInt32 r.window.current < pdu.sequenceNumber)
      (hpoll : r.point = .inOrder ∨ r.point = .buffering)
      (hfile : r'.outputFile = r.outputFile)
      (hedges : r'.window.lower = r.window.lower ∧ r'.window.upper = r.window.upper ∧
        r'.window.current = r.window.current ∧ r'.window.windowSize = r.window.windowSize)
      (hslots : ∀ j packet, r'.window.slot j = some packet → r.window.slot j = some packet ∨
        (r.window.index (toInt32 pdu.sequenceNumber) = .ok j ∧ r.window.slot j = none ∧
          packet.Keeps pdu ∧ pduHeaderLen ≤ packet.pdu.length ∧
          packet.flag = byteAt packet.pdu recvFlagLocation))
      (hhighest : 0 ≤ r.window.current → r.window.current < 2147483648 →
        0 ≤ r.window.highest → r.window.highest < 2147483648 →
        pdu.sequenceNumber.toNat < 2147483648 ∧
          (pdu.sequenceNumber.toNat : Int) ≤ r'.window.highest ∧
          r'.window.highest < 2147483648 ∧
          (r.point = .buffering → r.window.highest ≤ r'.window.highest))
      (hpoint : r'.point = .buffering) : Effect o r i r'
  /-- The PDU stored at `current` was flushed. -/
  | flushed {i : RcopyInput} {r' : Rcopy} {packet : Packet} (hstored : r.AtCurrent packet)
      (hflag : packet.flag ≠ eofFlag) (hfile : r'.outputFile = r.outputFile ++ [packet.payload])
      (hadvanced : Advanced r.window r'.window) (hhighest : r'.window.highest = r.window.highest)
      (hslots : ∀ j packet', r'.window.slot j = some packet' →
        r.window.slot j = some packet' ∧ r.window.index r.window.current ≠ .ok j)
      (hpoint : r.point = .flush ∧
        ((r'.point = .inOrder ∧ r'.window.highest < r'.window.current) ∨ r'.point = .flush)) :
      Effect o r i r'
  /-- A write fell short, of a PDU just received or of the one stored at `current`. -/
  | short {i : RcopyInput} {r' : Rcopy} {payload : Bytes} {k : Nat}
      (hsource : (∃ pdu, i.pdu o (pduHeaderLen + r.bufferSize) = some pdu ∧
          pdu.sequenceNumber = toUInt32 r.window.current ∧ pdu.recvFlag ≠ eofFlag ∧
          pdu.payload ≠ [] ∧ payload = pdu.payload) ∨
        ∃ packet, r.AtCurrent packet ∧ r.point = .flush ∧ packet.flag ≠ eofFlag ∧
          payload = packet.payload)
      (hwindow : r'.window = r.window) (hfile : r'.outputFile = r.outputFile ++ [payload.take k])
      (hpoint : r'.point = .done .writeFailed) : Effect o r i r'

/-! ## Sending and moving -/

theorem of_sendNumber {flag : Byte} {number : Int} {d : Datagram}
    (h : r.sendNumber o flag number = .ok (r', d)) :
    ∃ seq, r' = { r with sequenceNumber := seq } := by
  obtain ⟨buf, -, h⟩ := C.bind_eq_ok.mp h
  cases h
  exact ⟨_, rfl⟩

/-- The loop touches only the control sequence number, and sends to the server. -/
theorem of_srejLoop {s : UInt32} : ∀ (fuel : Nat) {i : Int} {r r' : Rcopy} {ds : List Datagram},
    r.srejLoop o s fuel i = .ok (r', ds) →
    (∃ seq, r' = { r with sequenceNumber := seq }) ∧ ∀ d ∈ ds, d.dest = r.serverAddress := by
  intro fuel
  induction fuel with
  | zero =>
      intro i r r' ds h
      cases h
      exact ⟨⟨_, rfl⟩, fun d hd => (by cases hd)⟩
  | succ fuel ih =>
      intro i r r' ds h
      rw [srejLoop] at h
      split at h
      · obtain ⟨x, hsend, h⟩ := C.bind_eq_ok.mp h
        rw [sendSREJ, sendNumber_eq] at hsend
        cases hsend
        obtain ⟨j, -, h⟩ := C.bind_eq_ok.mp h
        obtain ⟨⟨r₂, ds'⟩, hloop, h⟩ := C.bind_eq_ok.mp h
        cases h
        obtain ⟨⟨seq, rfl⟩, hdest⟩ := ih hloop
        refine ⟨⟨seq, rfl⟩, fun d hd => ?_⟩
        rcases List.mem_cons.mp hd with rfl | hd
        · rfl
        · exact hdest d hd
      · cases h
        exact ⟨⟨_, rfl⟩, fun d hd => (by cases hd)⟩

/-- The loop counts with an `int32_t` and cannot pass beyond its range. -/
theorem srejLoop_overflow {s : UInt32} (hs : 2147483648 ≤ s.toNat) : ∀ (fuel : Nat) {i : Int}
    (r : Rcopy), 0 ≤ i → i < 2147483648 → 2147483648 ≤ i + fuel →
    r.srejLoop o s fuel i = .error .signedOverflow := by
  -- Every number the counter can take is below `s`, and the fuel reaches beyond them all.
  intro fuel
  induction fuel with
  | zero =>
      intro i r _ hlt hfuel
      omega
  | succ fuel ih =>
      intro i r hi hlt hfuel
      have hbelow : toUInt32 i < s := by
        rw [UInt32.lt_iff_toNat_lt, toNat_toUInt32 hi (by omega)]
        omega
      rw [srejLoop, if_pos hbelow, sendSREJ, sendNumber_eq, C.ok_bind]
      by_cases hnext : i + 1 < 2147483648
      · have hadd : addInt32 i 1 = .ok (i + 1) := addInt32_ok (by omega) hnext
        simp only [hadd, C.ok_bind, ih _ (show 0 ≤ i + 1 by omega) hnext (by omega), C.error_bind]
      · have hadd : addInt32 i 1 = .error .signedOverflow := if_neg (by omega)
        simp only [hadd, C.error_bind]

theorem number_lt_of_srejLoop {s : UInt32} (fuel : Nat) {i : Int} {r r' : Rcopy}
    {ds : List Datagram} (h : r.srejLoop o s fuel i = .ok (r', ds)) (hi : 0 ≤ i)
    (hlt : i < 2147483648) (hfuel : 2147483648 ≤ i + fuel) : s.toNat < 2147483648 := by
  by_contra hge
  cases (srejLoop_overflow (Nat.le_of_not_lt hge) fuel r hi hlt hfuel).symm.trans h

section
variable {w w' : WindowArray}

theorem of_advance (h : advance w = .ok w') :
    Advanced w w' ∧ w'.array = w.array ∧ w'.highest = w.highest := by
  obtain ⟨w₁, hlower, h⟩ := C.bind_eq_ok.mp h
  obtain ⟨w₂, hupper, hcurrent⟩ := C.bind_eq_ok.mp h
  obtain ⟨rfl, -⟩ := WindowArray.of_incrementLower hlower
  obtain ⟨rfl, -⟩ := WindowArray.of_incrementUpper hupper
  obtain ⟨rfl, hlt⟩ := WindowArray.of_incrementCurrent hcurrent
  exact ⟨⟨rfl, rfl, rfl, hlt, rfl⟩, rfl, rfl⟩

theorem of_flushAdvance (h : flushAdvance w = .ok w') : Advanced w w' ∧ w'.highest = w.highest ∧
    ∀ j packet, w'.slot j = some packet →
      w.slot j = some packet ∧ w.index w.current ≠ .ok j := by
  obtain ⟨w₁, hremove, h⟩ := C.bind_eq_ok.mp h
  obtain ⟨w₂, hcurrent, h⟩ := C.bind_eq_ok.mp h
  obtain ⟨w₃, hupper, hlower⟩ := C.bind_eq_ok.mp h
  obtain ⟨i, -, rfl⟩ := WindowArray.of_removePDU hremove
  obtain ⟨rfl, hlt⟩ := WindowArray.of_incrementCurrent hcurrent
  obtain ⟨rfl, -⟩ := WindowArray.of_incrementUpper hupper
  obtain ⟨rfl, -⟩ := WindowArray.of_incrementLower hlower
  exact ⟨⟨rfl, rfl, rfl, hlt, rfl⟩, rfl,
    fun j packet hj => WindowArray.slot_of_removePDU hremove hj⟩

end

/-- The window moves, and the edge it has reached is acknowledged, whatever comes after that. -/
theorem of_moved {β : Type} {moved : C WindowArray} {f : WindowArray → Rcopy}
    {k : WindowArray → Rcopy × Datagram → C β} {y : β} (h : (do
      let window ← moved
      let x ← sendRR o (f window) window.current
      k window x) = .ok y) :
    ∃ w, moved = .ok w ∧ k w ({ f w with sequenceNumber := (f w).sequenceNumber + 1 },
      ⟨(f w).serverAddress, encodePDU o (f w).sequenceNumber rrFlag
        (ByteOrder.bytes32 .big (toUInt32 w.current))⟩) = .ok y := by
  obtain ⟨w, hmoved, h⟩ := C.bind_eq_ok.mp h
  obtain ⟨x, hsend, h⟩ := C.bind_eq_ok.mp h
  rw [sendRR, sendNumber_eq] at hsend
  cases hsend
  exact ⟨w, hmoved, h⟩

/-! ## State by state -/

section
variable {i : RcopyInput} {pdu : ReceivedPdu} {write : Write} {junk : Byte} {ds : List Datagram}

/-- Where the last datagram came from plays no part. -/
theorem Effect.of_serverAddress (src : Addr)
    (h : Effect o { r with serverAddress := src } i r') : Effect o r i r' := by
  cases h with
  | idle hwindow hfile hpoint => exact .idle hwindow hfile hpoint
  | written hpdu hnumber hflag hfile hadvanced harray hpoint =>
      exact .written hpdu hnumber hflag hfile hadvanced harray hpoint
  | kept hpdu hnumber hpoll hfile hedges hslots hhighest hpoint =>
      exact .kept hpdu hnumber hpoll hfile hedges hslots hhighest hpoint
  | flushed hstored hflag hfile hadvanced hhighest hslots hpoint =>
      exact .flushed hstored hflag hfile hadvanced hhighest hslots hpoint
  | short hsource hwindow hfile hpoint => exact .short hsource hwindow hfile hpoint

/-- There is something to write. -/
theorem payload_ne_nil (hlen : pdu.payload.length = pdu.payloadLen) (h : 0 < pdu.payloadLen) :
    pdu.payload ≠ [] := by
  intro hnil
  rw [← hlen, hnil] at h
  exact absurd h (Nat.lt_irrefl 0)

theorem effect_inOrderCurrent (hpoint : r.point = .inOrder)
    (hpdu : i.pdu o (pduHeaderLen + r.bufferSize) = some pdu)
    (hlen : pdu.payload.length = pdu.payloadLen)
    (hnumber : pdu.sequenceNumber = toUInt32 r.window.current)
    (h : r.inOrderCurrent o pdu write junk = .ok (r', ds)) : Effect o r i r' := by
  unfold inOrderCurrent at h
  split at h
  · next hflag =>
      split at h
      · next hpayload =>
          have hne := payload_ne_nil hlen hpayload
          split at h
          · cases h
            exact .short (.inl ⟨pdu, hpdu, hnumber, hflag, hne, rfl⟩) rfl rfl rfl
          · obtain ⟨w, hadvance, h⟩ := of_moved h
            cases h
            obtain ⟨⟨h1, h2, h3, h4, h5⟩, harray, hhighest⟩ := of_advance hadvance
            exact .written hpdu hnumber hflag (.inl ⟨hne, rfl⟩) ⟨h1, h2, h3, h4, h5⟩ harray
              (.inl ⟨hpoint, rfl, hhighest⟩)
      · cases h
        exact .idle rfl rfl (.inr (.inr ⟨_, rfl⟩))
  · obtain ⟨d, -, h⟩ := C.bind_eq_ok.mp h
    cases h
    exact .idle rfl rfl (.inr (.inr ⟨_, rfl⟩))

/-- What a slot holds after `add_PDU` of a received datagram. -/
theorem slots_of_addPDU {w w' : WindowArray} {buf : Bytes} {len : Nat} (hlen : len ≤ buf.length)
    (hprocess : processPDU o buf len = some pdu)
    (hadd : w.addPDU buf len (toInt32 pdu.sequenceNumber) = .ok w') (j : Nat) (packet : Packet)
    (hj : w'.slot j = some packet) : w.slot j = some packet ∨
      (w.index (toInt32 pdu.sequenceNumber) = .ok j ∧ w.slot j = none ∧
        packet.Keeps pdu ∧ pduHeaderLen ≤ packet.pdu.length ∧
        packet.flag = byteAt packet.pdu recvFlagLocation) := by
  obtain ⟨hmin, hbuf, htake, hpayload, -⟩ := processPDU_layout hlen hprocess
  rcases WindowArray.slot_of_addPDU hadd hj with hold | ⟨hindex, hempty, hnumber, hflag, hpdu⟩
  · exact .inl hold
  · refine .inr ⟨hindex, hempty, ⟨hnumber, hflag.trans hbuf, ?_⟩, ?_, ?_⟩
    · rw [Packet.payload, hpdu, hpayload]
    · rw [hpdu]
      exact hmin
    · rw [hpdu, htake, hflag, hbuf]

/-- The window after a PDU at `current`, in order: it moves if the PDU was data and was written. -/
theorem window_of_inOrderCurrent (h : r.inOrderCurrent o pdu write junk = .ok (r', ds)) :
    (pdu.recvFlag ≠ eofFlag ∧ 0 < pdu.payloadLen ∧ write = .complete ∧
      advance (r.window.updateHighest (toInt32 pdu.sequenceNumber)) = .ok r'.window) ∨
    (¬ (pdu.recvFlag ≠ eofFlag ∧ 0 < pdu.payloadLen ∧ write = .complete) ∧
      r'.window = r.window) := by
  unfold inOrderCurrent at h
  split at h
  · next hflag =>
      split at h
      · next hlen =>
          split at h
          · cases h
            exact .inr ⟨fun hc => (by cases hc.2.2), rfl⟩
          · obtain ⟨w, hadvance, h⟩ := of_moved h
            cases h
            exact .inl ⟨hflag, hlen, rfl, hadvance⟩
      · next hlen =>
          cases h
          exact .inr ⟨fun hc => hlen hc.2.1, rfl⟩
  · next hflag =>
      obtain ⟨d, -, h⟩ := C.bind_eq_ok.mp h
      cases h
      exact .inr ⟨fun hc => hflag hc.1, rfl⟩

/-- The same while buffering, where a PDU without payload counts as written. -/
theorem window_of_bufferingCurrent (h : r.bufferingCurrent o pdu write = .ok (r', ds)) :
    (pdu.recvFlag ≠ eofFlag ∧ (0 < pdu.payloadLen → write = .complete) ∧
      advance r.window = .ok r'.window) ∨
    (¬ (pdu.recvFlag ≠ eofFlag ∧ (0 < pdu.payloadLen → write = .complete)) ∧
      r'.window = r.window) := by
  unfold bufferingCurrent at h
  split at h
  · next hflag =>
      simp only at h
      split at h
      · next hlen =>
          split at h
          · cases h
            exact .inr ⟨fun hc => (by cases hc.2 hlen), rfl⟩
          · obtain ⟨w, hadvance, h⟩ := of_moved h
            cases h
            exact .inl ⟨hflag, fun _ => rfl, hadvance⟩
      · next hlen =>
          obtain ⟨w, hadvance, h⟩ := of_moved h
          cases h
          exact .inl ⟨hflag, fun hc => absurd hc hlen, hadvance⟩
  · next hflag =>
      cases h
      exact .inr ⟨fun hc => hflag hc.1, rfl⟩

/-- The window after a PDU beyond `current`, in order. -/
theorem window_of_inOrderAhead {buf : Bytes} {len : Nat}
    (h : r.inOrderAhead o pdu buf len = .ok (r', ds)) :
    (r.window.updateHighest (toInt32 pdu.sequenceNumber)).addPDU buf len
      (toInt32 pdu.sequenceNumber) = .ok r'.window := by
  obtain ⟨⟨r₁, ds₁⟩, hloop, h⟩ := C.bind_eq_ok.mp h
  obtain ⟨w, hadd, h⟩ := C.bind_eq_ok.mp h
  cases h
  obtain ⟨⟨seq, rfl⟩, -⟩ := of_srejLoop _ hloop
  exact hadd

/-- The same while buffering. -/
theorem window_of_bufferingAhead {buf : Bytes} {len : Nat}
    (h : r.bufferingAhead o pdu buf len = .ok (r', ds)) : ∃ w highest,
    r.window.addPDU buf len (toInt32 pdu.sequenceNumber) = .ok w ∧
      r'.window = w.updateHighest highest := by
  obtain ⟨w, hadd, h⟩ := C.bind_eq_ok.mp h
  simp only at h
  split at h
  · obtain ⟨first, -, h⟩ := C.bind_eq_ok.mp h
    obtain ⟨⟨r₁, ds₁⟩, hloop, h⟩ := C.bind_eq_ok.mp h
    cases h
    obtain ⟨⟨seq, rfl⟩, -⟩ := of_srejLoop _ hloop
    exact ⟨w, _, hadd, rfl⟩
  · cases h
    exact ⟨w, _, hadd, rfl⟩

theorem effect_inOrderAhead {buf : Bytes} {len : Nat} (hpoint : r.point = .inOrder)
    (hpdu : i.pdu o (pduHeaderLen + r.bufferSize) = some pdu) (hlen : len ≤ buf.length)
    (hprocess : processPDU o buf len = some pdu)
    (hnumber : toUInt32 r.window.current < pdu.sequenceNumber)
    (h : r.inOrderAhead o pdu buf len = .ok (r', ds)) : Effect o r i r' := by
  obtain ⟨⟨r₁, ds₁⟩, hloop, h⟩ := C.bind_eq_ok.mp h
  obtain ⟨w, hadd, h⟩ := C.bind_eq_ok.mp h
  cases h
  obtain ⟨⟨seq, rfl⟩, -⟩ := of_srejLoop _ hloop
  obtain ⟨h1, h2, h3, h4, h5⟩ := WindowArray.edges_of_addPDU hadd
  -- The loop counts from `current` to the number received, which is therefore in range.
  refine .kept hpdu hnumber (.inl hpoint) rfl ⟨h1, h2, h3, h4⟩
    (fun j packet hj => slots_of_addPDU hlen hprocess hadd j packet hj)
    (fun hcurrent hlt _ _ => ?_) rfl
  have hs : pdu.sequenceNumber.toNat < 2147483648 := by
    by_contra hge
    exact hge (number_lt_of_srejLoop _ hloop hcurrent hlt (by omega))
  have hhighest : w.highest = pdu.sequenceNumber.toNat := h5.trans (toInt32_of_lt hs)
  exact ⟨hs, Int.le_of_eq hhighest.symm, by simp only [hhighest]; omega,
    fun hc => (by cases hpoint.symm.trans hc)⟩

theorem effect_inOrder {p : Poll} (hpoint : r.point = .inOrder)
    (h : r.inOrder o write junk p = .ok (r', ds)) : Effect o r (.poll p write junk) r' := by
  cases p with
  | timeout =>
      cases h
      exact .idle rfl rfl (.inr (.inr ⟨_, rfl⟩))
  | received src stale datagram =>
      have hlen := le_length_recvfrom (pduHeaderLen + r.bufferSize) stale datagram
      unfold inOrder at h
      simp only at h
      split at h
      · cases h
        exact .idle rfl rfl (.inl hpoint.symm)
      · next pdu hprocess =>
          have hpdu : (RcopyInput.poll (.received src stale datagram) write junk).pdu o
              (pduHeaderLen + r.bufferSize) = some pdu := hprocess
          apply Effect.of_serverAddress src
          split at h
          · next hle =>
              split at h
              · next hnumber =>
                  exact effect_inOrderCurrent hpoint hpdu
                    (processPDU_layout hlen hprocess).2.2.2.2 hnumber h
              · next hne =>
                  have hnumber := UInt32.lt_of_le_of_ne hle (Ne.symm hne)
                  exact effect_inOrderAhead hpoint hpdu hlen hprocess hnumber h
          · obtain ⟨⟨r₁, d⟩, hsend, h⟩ := C.bind_eq_ok.mp h
            cases h
            obtain ⟨seq, rfl⟩ := of_sendNumber hsend
            exact .idle rfl rfl (.inl hpoint.symm)

theorem effect_bufferingCurrent (hpoint : r.point = .buffering)
    (hpdu : i.pdu o (pduHeaderLen + r.bufferSize) = some pdu)
    (hlen : pdu.payload.length = pdu.payloadLen)
    (hnumber : pdu.sequenceNumber = toUInt32 r.window.current)
    (h : r.bufferingCurrent o pdu write = .ok (r', ds)) : Effect o r i r' := by
  unfold bufferingCurrent at h
  split at h
  · next hflag =>
      simp only at h
      split at h
      · next hpayload =>
          have hne := payload_ne_nil hlen hpayload
          split at h
          · cases h
            exact .short (.inl ⟨pdu, hpdu, hnumber, hflag, hne, rfl⟩) rfl rfl rfl
          · obtain ⟨w, hadvance, h⟩ := of_moved h
            cases h
            obtain ⟨hadvanced, harray, hhighest⟩ := of_advance hadvance
            exact .written hpdu hnumber hflag (.inl ⟨hne, rfl⟩) hadvanced harray
              (.inr ⟨hpoint, rfl, hhighest⟩)
      · next hpayload =>
          have hnil : pdu.payload = [] := List.length_eq_zero_iff.mp (by omega)
          obtain ⟨w, hadvance, h⟩ := of_moved h
          cases h
          obtain ⟨hadvanced, harray, hhighest⟩ := of_advance hadvance
          exact .written hpdu hnumber hflag (.inr ⟨hnil, hpoint, rfl⟩) hadvanced harray
            (.inr ⟨hpoint, rfl, hhighest⟩)
  · cases h
    exact .idle rfl rfl (.inl hpoint.symm)

theorem effect_bufferingAhead {buf : Bytes} {len : Nat} (hpoint : r.point = .buffering)
    (hpdu : i.pdu o (pduHeaderLen + r.bufferSize) = some pdu) (hlen : len ≤ buf.length)
    (hprocess : processPDU o buf len = some pdu)
    (hnumber : toUInt32 r.window.current < pdu.sequenceNumber)
    (h : r.bufferingAhead o pdu buf len = .ok (r', ds)) : Effect o r i r' := by
  obtain ⟨w, hadd, h⟩ := C.bind_eq_ok.mp h
  obtain ⟨h1, h2, h3, h4, h5⟩ := WindowArray.edges_of_addPDU hadd
  -- Whether or not the loop runs, it touches only the control sequence number.
  obtain ⟨seq, hs, rfl⟩ : ∃ seq,
      (0 ≤ w.highest → w.highest < 2147483648 → pdu.sequenceNumber.toNat < 2147483648) ∧
      r' = { r with
        point := .buffering, sequenceNumber := seq,
        window := w.updateHighest (toInt32 (if pdu.sequenceNumber < toUInt32 w.highest then
          toUInt32 w.highest else pdu.sequenceNumber)) } := by
    simp only at h
    split at h
    · obtain ⟨first, hfirst, h⟩ := C.bind_eq_ok.mp h
      obtain ⟨⟨r₁, ds₁⟩, hloop, h⟩ := C.bind_eq_ok.mp h
      cases h
      obtain ⟨⟨seq, rfl⟩, -⟩ := of_srejLoop _ hloop
      obtain ⟨rfl, hlt⟩ := of_addInt32 hfirst
      refine ⟨seq, fun hnonneg hmax => ?_, rfl⟩
      by_contra hge
      exact hge (number_lt_of_srejLoop _ hloop (by omega) hlt (by omega))
    · next hle =>
        cases h
        refine ⟨_, fun hnonneg hmax => ?_, rfl⟩
        rw [UInt32.lt_iff_toNat_lt, toNat_toUInt32 hnonneg (by omega)] at hle
        omega
  refine .kept hpdu hnumber (.inr hpoint) rfl ⟨h1, h2, h3, h4⟩
    (fun j packet hj => slots_of_addPDU hlen hprocess hadd j packet hj)
    (fun _ _ hnonneg hmax => ?_) rfl
  -- The new `highest` is the larger of the old one and the number received.
  rw [← h5] at hnonneg hmax ⊢
  have hlt := hs hnonneg hmax
  have hhighest := toNat_toUInt32 hnonneg (show w.highest < 4294967296 by omega)
  simp only [WindowArray.updateHighest]
  split
  · next hbelow =>
      rw [UInt32.lt_iff_toNat_lt, hhighest] at hbelow
      rw [toInt32_of_lt (by omega), hhighest]
      exact ⟨hlt, by omega, by omega, fun _ => by omega⟩
  · next habove =>
      rw [UInt32.lt_iff_toNat_lt, hhighest] at habove
      rw [toInt32_of_lt hlt]
      exact ⟨hlt, Int.le_refl _, by omega, fun _ => by omega⟩

theorem effect_buffering {p : Poll} (hpoint : r.point = .buffering)
    (h : r.buffering o write p = .ok (r', ds)) : Effect o r (.poll p write junk) r' := by
  cases p with
  | timeout =>
      cases h
      exact .idle rfl rfl (.inr (.inr ⟨_, rfl⟩))
  | received src stale datagram =>
      have hlen := le_length_recvfrom (pduHeaderLen + r.bufferSize) stale datagram
      unfold buffering at h
      simp only at h
      split at h
      · cases h
        exact .idle rfl rfl (.inl hpoint.symm)
      · next pdu hprocess =>
          have hpdu : (RcopyInput.poll (.received src stale datagram) write junk).pdu o
              (pduHeaderLen + r.bufferSize) = some pdu := hprocess
          apply Effect.of_serverAddress src
          split at h
          · next hnumber => exact effect_bufferingAhead hpoint hpdu hlen hprocess hnumber h
          · split at h
            · next hnumber =>
                exact effect_bufferingCurrent hpoint hpdu
                  (processPDU_layout hlen hprocess).2.2.2.2 hnumber h
            · obtain ⟨⟨r₁, d⟩, hsend, h⟩ := C.bind_eq_ok.mp h
              cases h
              obtain ⟨seq, rfl⟩ := of_sendNumber hsend
              exact .idle rfl rfl (.inl hpoint.symm)

/-- The PDU at `current` as the flush gets it out of the window. -/
theorem exists_of_getPDU (hstocked : r.Stocked) {size : Nat} {len : Int} {buf : Bytes}
    (hvalid : r.window.checkPDUValid r.window.current = .ok true)
    (h : r.window.getPDU (List.replicate size 0) r.window.current = .ok (len, buf)) :
    ∃ packet, r.AtCurrent packet ∧ byteAt buf recvFlagLocation = packet.flag ∧ 0 < len ∧
      (buf.drop pduHeaderLen).take (len - pduHeaderLen).toNat = packet.payload := by
  obtain ⟨j, hindex, hsome⟩ := C.bind_eq_ok.mp hvalid
  obtain ⟨packet, hslot⟩ := Option.isSome_iff_exists.mp (Except.ok.inj hsome)
  obtain ⟨j', hindex', h⟩ := C.bind_eq_ok.mp h
  cases hindex.symm.trans hindex'
  obtain ⟨hmin, hflag⟩ := hstocked j packet hslot
  rw [hslot] at h
  simp only at h
  split at h
  · cases h
  · cases h
    exact ⟨packet, ⟨j, hindex, hslot⟩, WindowArray.copied_layout hmin hflag _⟩

theorem effect_flush (hstocked : r.Stocked) (hpoint : r.point = .flush)
    (h : r.flush o write junk = .ok (r', ds)) : Effect o r i r' := by
  obtain ⟨valid, hvalid, h⟩ := C.bind_eq_ok.mp h
  cases valid with
  | false =>
      cases h
      refine .idle rfl rfl (.inr (.inl ⟨hpoint, rfl, fun packet ⟨j, hindex, hslot⟩ => ?_⟩))
      obtain ⟨j', hindex', hnone⟩ := C.bind_eq_ok.mp hvalid
      cases hindex.symm.trans hindex'
      rw [hslot] at hnone
      cases hnone
  | true =>
      obtain ⟨⟨len, buf⟩, hget, h⟩ := C.bind_eq_ok.mp h
      obtain ⟨packet, hstored, hflag, hlen, hpayload⟩ := exists_of_getPDU hstocked hvalid hget
      simp only [hflag] at h
      split at h
      · obtain ⟨d, -, h⟩ := C.bind_eq_ok.mp h
        cases h
        exact .idle rfl rfl (.inr (.inr ⟨_, rfl⟩))
      · next heof =>
          unfold flushWrite at h
          simp only [if_pos hlen, hpayload] at h
          split at h
          · cases h
            exact .short (.inr ⟨packet, hstored, hpoint, heof, rfl⟩) rfl rfl rfl
          · obtain ⟨w, hadvance, h⟩ := of_moved h
            obtain ⟨hadvanced, hhighest, hslots⟩ := of_flushAdvance hadvance
            split at h
            · next hlt =>
                cases h
                exact .flushed hstored heof rfl hadvanced hhighest hslots
                  ⟨hpoint, .inl ⟨rfl, hlt⟩⟩
            · cases h
              exact .flushed hstored heof rfl hadvanced hhighest hslots ⟨hpoint, .inr rfl⟩

/-- **What a step of the receiver can do.** -/
theorem effect_of_step (hstocked : r.Stocked) (h : r.step o i = some (.ok (r', ds))) :
    Effect o r i r' := by
  unfold step at h
  split at h
  · next hpoint => exact effect_inOrder hpoint (Option.some.inj h)
  · next hpoint => exact effect_buffering hpoint (Option.some.inj h)
  · next hpoint => exact effect_flush hstocked hpoint (Option.some.inj h)
  · cases h

/-- What a slot holds after a step was there before, or is what the step has kept. -/
theorem Effect.slot_cases (h : Effect o r i r') {j : Nat} {packet : Packet}
    (hj : r'.window.slot j = some packet) : r.window.slot j = some packet ∨
      ∃ pdu, i.pdu o (pduHeaderLen + r.bufferSize) = some pdu ∧
        toUInt32 r.window.current < pdu.sequenceNumber ∧
        r.window.index (toInt32 pdu.sequenceNumber) = .ok j ∧ r.window.slot j = none ∧
        packet.Keeps pdu ∧ pduHeaderLen ≤ packet.pdu.length ∧
        packet.flag = byteAt packet.pdu recvFlagLocation := by
  cases h with
  | idle hwindow _ _ => exact .inl (hwindow ▸ hj)
  | written _ _ _ _ _ harray _ =>
      unfold WindowArray.slot at hj ⊢
      rw [harray] at hj
      exact .inl hj
  | @kept pdu hpdu hnumber _ _ _ hslots _ _ =>
      exact (hslots j packet hj).imp_right fun hnew => ⟨pdu, hpdu, hnumber, hnew⟩
  | flushed _ _ _ _ _ hslots _ => exact .inl (hslots j packet hj).1
  | short _ hwindow _ _ => exact .inl (hwindow ▸ hj)

/-- Whatever arrives, what is stored keeps its header. -/
theorem Stocked.step (hstocked : r.Stocked) (h : r.step o i = some (.ok (r', ds))) :
    r'.Stocked := by
  intro j packet hj
  rcases (effect_of_step hstocked h).slot_cases hj with hold | ⟨pdu, -, -, -, -, -, hmin, hflag⟩
  · exact hstocked j packet hold
  · exact ⟨hmin, hflag⟩

theorem stocked_of_reachable {windowSize : Int} {bufferSize : BufferSize} {seq : UInt32}
    {addr : Addr} {r₀ : Rcopy} (hstart : start windowSize bufferSize seq addr = .ok r₀)
    (h : (system o r₀).Reachable r) : r.Stocked := by
  refine System.Reachable.invariant (P := Stocked) ?_ (fun r l r' _ hr hstep => hr.step hstep) h
  rintro r rfl j packet hj
  rw [WindowArray.slot_makeWindow (of_start hstart).1] at hj
  cases hj

/-! ## Where the datagrams go -/

/-- `addr` is the server's address afterwards, and where everything was sent. -/
def Addressed (addr : Addr) (r' : Rcopy) (ds : List Datagram) : Prop :=
  r'.serverAddress = addr ∧ ∀ d ∈ ds, d.dest = addr

/-- What a state function leaves alone, and where it sends. -/
structure Framed (r r' : Rcopy) (ds : List Datagram) : Prop where
  bufferSize : r'.bufferSize = r.bufferSize
  addressed : Addressed r.serverAddress r' ds

theorem framed_nil (hsize : r'.bufferSize = r.bufferSize)
    (h : r'.serverAddress = r.serverAddress) : Framed r r' [] :=
  ⟨hsize, h, fun _ hd => (by cases hd)⟩

theorem framed_singleton {d : Datagram} (hsize : r'.bufferSize = r.bufferSize)
    (h : r'.serverAddress = r.serverAddress) (hd : d.dest = r.serverAddress) :
    Framed r r' [d] := by
  refine ⟨hsize, h, fun d' hd' => ?_⟩
  rw [List.mem_singleton.mp hd']
  exact hd

theorem framed_sendNumber {flag : Byte} {number : Int} {d : Datagram}
    (h : r.sendNumber o flag number = .ok (r', d)) : Framed r r' [d] := by
  rw [sendNumber_eq] at h
  cases h
  exact framed_singleton rfl rfl rfl

theorem dest_of_sendEofAck {d : Datagram} (h : r.sendEofAck o junk = .ok d) :
    d.dest = r.serverAddress := by
  obtain ⟨buf, -, h⟩ := C.bind_eq_ok.mp h
  cases h
  rfl

theorem framed_inOrderCurrent (h : r.inOrderCurrent o pdu write junk = .ok (r', ds)) :
    Framed r r' ds := by
  unfold inOrderCurrent at h
  split at h
  · split at h
    · split at h
      · cases h
        exact framed_nil rfl rfl
      · obtain ⟨w, hadvance, h⟩ := of_moved h
        cases h
        exact framed_singleton rfl rfl rfl
    · cases h
      exact framed_nil rfl rfl
  · obtain ⟨d, hsend, h⟩ := C.bind_eq_ok.mp h
    cases h
    exact framed_singleton rfl rfl (dest_of_sendEofAck hsend)

theorem framed_inOrderAhead {buf : Bytes} {len : Nat}
    (h : r.inOrderAhead o pdu buf len = .ok (r', ds)) : Framed r r' ds := by
  obtain ⟨⟨r₁, ds₁⟩, hloop, h⟩ := C.bind_eq_ok.mp h
  obtain ⟨w, -, h⟩ := C.bind_eq_ok.mp h
  cases h
  obtain ⟨⟨seq, rfl⟩, hdest⟩ := of_srejLoop _ hloop
  exact ⟨rfl, rfl, hdest⟩

theorem framed_bufferingCurrent (h : r.bufferingCurrent o pdu write = .ok (r', ds)) :
    Framed r r' ds := by
  unfold bufferingCurrent at h
  split at h
  · simp only at h
    split at h
    · split at h
      · cases h
        exact framed_nil rfl rfl
      · obtain ⟨w, hadvance, h⟩ := of_moved h
        cases h
        exact framed_singleton rfl rfl rfl
    · obtain ⟨w, hadvance, h⟩ := of_moved h
      cases h
      exact framed_singleton rfl rfl rfl
  · cases h
    exact framed_nil rfl rfl

theorem framed_bufferingAhead {buf : Bytes} {len : Nat}
    (h : r.bufferingAhead o pdu buf len = .ok (r', ds)) : Framed r r' ds := by
  obtain ⟨w, -, h⟩ := C.bind_eq_ok.mp h
  simp only at h
  split at h
  · obtain ⟨first, -, h⟩ := C.bind_eq_ok.mp h
    obtain ⟨⟨r₁, ds₁⟩, hloop, h⟩ := C.bind_eq_ok.mp h
    cases h
    obtain ⟨⟨seq, rfl⟩, hdest⟩ := of_srejLoop _ hloop
    exact ⟨rfl, rfl, hdest⟩
  · cases h
    exact framed_nil rfl rfl

theorem framed_flush (h : r.flush o write junk = .ok (r', ds)) :
    Framed r r' ds := by
  obtain ⟨valid, -, h⟩ := C.bind_eq_ok.mp h
  cases valid with
  | false =>
      cases h
      exact framed_nil rfl rfl
  | true =>
      obtain ⟨⟨len, buf⟩, -, h⟩ := C.bind_eq_ok.mp h
      simp only at h
      split at h
      · obtain ⟨d, hsend, h⟩ := C.bind_eq_ok.mp h
        cases h
        exact framed_singleton rfl rfl (dest_of_sendEofAck hsend)
      · unfold flushWrite at h
        simp only at h
        split at h
        · split at h
          · cases h
            exact framed_nil rfl rfl
          · obtain ⟨w, hadvance, h⟩ := of_moved h
            split at h <;>
            · cases h
              exact framed_singleton rfl rfl rfl
        · obtain ⟨w, hadvance, h⟩ := of_moved h
          split at h <;>
          · cases h
            exact framed_singleton rfl rfl rfl

/-- A step takes the address of whomever it receives from, and sends there. -/
theorem framed_of_step (h : r.step o i = some (.ok (r', ds))) :
    r'.bufferSize = r.bufferSize ∧ Addressed (i.server r.serverAddress) r' ds := by
  have hframed {src : Addr} (hf : Framed { r with serverAddress := src } r' ds) :
      r'.bufferSize = r.bufferSize ∧ Addressed src r' ds := ⟨hf.bufferSize, hf.addressed⟩
  unfold step at h
  split at h
  · next p write junk hpoint =>
      cases p with
      | timeout =>
          cases h
          exact hframed (framed_nil rfl rfl)
      | received src stale datagram =>
          simp only [inOrder, Option.some.injEq] at h
          split at h
          · cases h
            exact hframed (framed_nil rfl rfl)
          · split at h
            · split at h
              · have hstep := framed_inOrderCurrent h
                exact hframed hstep
              · have hstep := framed_inOrderAhead h
                exact hframed hstep
            · obtain ⟨⟨r₁, d⟩, hsend, h⟩ := C.bind_eq_ok.mp h
              cases h
              have hsent := framed_sendNumber hsend
              exact ⟨hsent.bufferSize, hsent.addressed⟩
  · next p write junk hpoint =>
      cases p with
      | timeout =>
          cases h
          exact hframed (framed_nil rfl rfl)
      | received src stale datagram =>
          simp only [buffering, Option.some.injEq] at h
          split at h
          · cases h
            exact hframed (framed_nil rfl rfl)
          · split at h
            · have hstep := framed_bufferingAhead h
              exact hframed hstep
            · split at h
              · have hstep := framed_bufferingCurrent h
                exact hframed hstep
              · obtain ⟨⟨r₁, d⟩, hsend, h⟩ := C.bind_eq_ok.mp h
                cases h
                have hsent := framed_sendNumber hsend
                exact ⟨hsent.bufferSize, hsent.addressed⟩
  · next write junk hpoint => exact hframed (framed_flush (Option.some.inj h))
  · cases h

/-- **The receiver sends to whomever it last received from.** -/
theorem addressed_of_step (h : r.step o i = some (.ok (r', ds))) :
    Addressed (i.server r.serverAddress) r' ds :=
  (framed_of_step h).2

end

end Rcopy

/-! ## Writes that fall short -/

/-- The same input with a `write` that succeeds. -/
def RcopyInput.completed : RcopyInput → RcopyInput
  | .poll p _ junk => .poll p .complete junk
  | .flush _ junk => .flush .complete junk

namespace Rcopy

variable {o : ByteOrder} {r' : Rcopy} {ds : List Datagram}

/-- `y` is what a `write` that falls short leaves behind: the receiver stops without a word. -/
def FellShort (y : C (Rcopy × List Datagram)) : Prop :=
  ∃ r', y = .ok (r', []) ∧ r'.point = .done .writeFailed

theorem inOrderCurrent_write (r : Rcopy) (pdu : ReceivedPdu) (write : Write) (junk : Byte) :
    r.inOrderCurrent o pdu write junk = r.inOrderCurrent o pdu .complete junk ∨
      FellShort (r.inOrderCurrent o pdu write junk) := by
  cases write with
  | complete => exact .inl rfl
  | short k =>
      unfold inOrderCurrent
      by_cases hflag : pdu.recvFlag ≠ eofFlag
      · by_cases hlen : 0 < pdu.payloadLen
        · rw [if_pos hflag, if_pos hlen]
          exact .inr ⟨_, rfl, rfl⟩
        · rw [if_pos hflag, if_neg hlen, if_pos hflag, if_neg hlen]
          exact .inl rfl
      · rw [if_neg hflag, if_neg hflag]
        exact .inl rfl

theorem bufferingCurrent_write (r : Rcopy) (pdu : ReceivedPdu) (write : Write) :
    r.bufferingCurrent o pdu write = r.bufferingCurrent o pdu .complete ∨
      FellShort (r.bufferingCurrent o pdu write) := by
  cases write with
  | complete => exact .inl rfl
  | short k =>
      unfold bufferingCurrent
      by_cases hflag : pdu.recvFlag ≠ eofFlag
      · by_cases hlen : 0 < pdu.payloadLen
        · rw [if_pos hflag, if_pos hlen]
          exact .inr ⟨_, rfl, rfl⟩
        · rw [if_pos hflag, if_neg hlen, if_pos hflag, if_neg hlen]
          exact .inl rfl
      · rw [if_neg hflag, if_neg hflag]
        exact .inl rfl

theorem flushWrite_write (r : Rcopy) (receiveBuffer : Bytes) (payloadLen : Int) (write : Write) :
    r.flushWrite o receiveBuffer payloadLen write
        = r.flushWrite o receiveBuffer payloadLen .complete ∨
      FellShort (r.flushWrite o receiveBuffer payloadLen write) := by
  cases write with
  | complete => exact .inl rfl
  | short k =>
      unfold flushWrite
      by_cases hlen : 0 < payloadLen
      · rw [if_pos hlen]
        exact .inr ⟨_, rfl, rfl⟩
      · rw [if_neg hlen, if_neg hlen]
        exact .inl rfl

theorem flush_write (r : Rcopy) (write : Write) (junk : Byte) :
    r.flush o write junk = r.flush o .complete junk ∨ FellShort (r.flush o write junk) := by
  unfold flush
  cases hvalid : r.window.checkPDUValid r.window.current with
  | error e => exact .inl rfl
  | ok valid =>
      cases valid with
      | false => exact .inl rfl
      | true =>
          simp only [C.ok_bind, if_true]
          cases hget : r.window.getPDU (List.replicate (pduHeaderLen + r.bufferSize) 0)
              r.window.current with
          | error e => exact .inl rfl
          | ok x =>
              simp only [C.ok_bind]
              by_cases heof : byteAt x.2 recvFlagLocation = eofFlag
              · rw [if_pos heof, if_pos heof]
                exact .inl rfl
              · rw [if_neg heof, if_neg heof]
                exact r.flushWrite_write x.2 x.1 write

theorem inOrder_write (r : Rcopy) (write : Write) (junk : Byte) (p : Poll) :
    r.inOrder o write junk p = r.inOrder o .complete junk p ∨
      FellShort (r.inOrder o write junk p) := by
  cases p with
  | timeout => exact .inl rfl
  | received src stale datagram =>
      simp only [inOrder]
      cases hpdu : processPDU o (recvfrom (pduHeaderLen + r.bufferSize) stale datagram).1
          (recvfrom (pduHeaderLen + r.bufferSize) stale datagram).2 with
      | none => exact .inl rfl
      | some pdu =>
          simp only
          by_cases hle : toUInt32 r.window.current ≤ pdu.sequenceNumber
          · rw [if_pos hle, if_pos hle]
            by_cases heq : pdu.sequenceNumber = toUInt32 r.window.current
            · rw [if_pos heq, if_pos heq]
              exact inOrderCurrent_write _ pdu write junk
            · rw [if_neg heq, if_neg heq]
              exact .inl rfl
          · rw [if_neg hle, if_neg hle]
            exact .inl rfl

theorem buffering_write (r : Rcopy) (write : Write) (p : Poll) :
    r.buffering o write p = r.buffering o .complete p ∨ FellShort (r.buffering o write p) := by
  cases p with
  | timeout => exact .inl rfl
  | received src stale datagram =>
      simp only [buffering]
      cases hpdu : processPDU o (recvfrom (pduHeaderLen + r.bufferSize) stale datagram).1
          (recvfrom (pduHeaderLen + r.bufferSize) stale datagram).2 with
      | none => exact .inl rfl
      | some pdu =>
          simp only
          by_cases hlt : toUInt32 r.window.current < pdu.sequenceNumber
          · rw [if_pos hlt, if_pos hlt]
            exact .inl rfl
          · rw [if_neg hlt, if_neg hlt]
            by_cases heq : pdu.sequenceNumber = toUInt32 r.window.current
            · rw [if_pos heq, if_pos heq]
              exact bufferingCurrent_write _ pdu write
            · rw [if_neg heq, if_neg heq]
              exact .inl rfl

theorem FellShort.out (h : FellShort (.ok (r', ds))) : ds = [] ∧ r'.point = .done .writeFailed := by
  obtain ⟨r₁, heq, hpoint⟩ := h
  cases heq
  exact ⟨rfl, hpoint⟩

/-- **A step goes the same way whatever `write` does**, unless `write` ends it. -/
theorem step_completed {r : Rcopy} {i : RcopyInput} (h : r.step o i = some (.ok (r', ds))) :
    r.step o i.completed = some (.ok (r', ds)) ∨ (ds = [] ∧ r'.point = .done .writeFailed) := by
  have hout {x y : C (Rcopy × List Datagram)} (hx : some x = some (.ok (r', ds)))
      (h : x = y ∨ FellShort x) :
      some y = some (.ok (r', ds)) ∨ (ds = [] ∧ r'.point = .done .writeFailed) := by
    rcases h with rfl | hshort
    · exact .inl hx
    · rw [Option.some.inj hx] at hshort
      exact .inr hshort.out
  unfold step at h
  split at h
  · next p write junk hpoint =>
      rw [RcopyInput.completed, step_inOrder hpoint]
      exact hout h (r.inOrder_write write junk p)
  · next p write junk hpoint =>
      rw [RcopyInput.completed, step_buffering hpoint]
      exact hout h (r.buffering_write write p)
  · next write junk hpoint =>
      rw [RcopyInput.completed, step_flush hpoint]
      exact hout h (r.flush_write write junk)
  · cases h

end Rcopy

end RemoteCopy

import RemoteCopy.Rcopy
import RemoteCopy.Messages

/-!
# The receiver over a finite map

The abstract receiver: `rcopy` with its window replaced by a map from sequence numbers to PDUs, its
datagrams by replies, and with nothing undefined to run into. `Receiver.accept` says what it does
with a PDU and `Receiver.flush` what one iteration of the flush does. The faithful model refines it
(`Refines.accept`, `Refines.flush`) as long as the sequence numbers it receives are below the upper
edge of its window, which `rcopy` itself never checks, and as long as that edge stays in the range
of `int32_t`. What holds along the runs of `rcopy` under these conditions is proved about the
abstract receiver.
-/

namespace RemoteCopy

structure Receiver where
  point : RcopyPoint
  current : Nat
  highest : Nat
  stored : Nat → Option Packet
  file : List Bytes

namespace Receiver

/-- The receiver with an empty window and an empty file. -/
def fresh : Receiver where
  point := .inOrder
  current := 0
  highest := 0
  stored _ := none
  file := []

/-- SREJs for the sequence numbers from `i` up to `s`. -/
def srejs (i s : Nat) : List Reply := (List.range' i (s - i)).map .srej

/-- Store a PDU, unless there is one already. -/
def keep (a : Receiver) (s : Nat) (packet : Packet) : Nat → Option Packet :=
  if (a.stored s).isSome then a.stored else Function.update a.stored s (some packet)

/-- Receive a PDU with sequence number `s` at a poll. -/
def accept (a : Receiver) (s : Nat) (packet : Packet) : Receiver × List Reply :=
  match a.point with
  | .inOrder =>
      if s < a.current then (a, [.rr a.current])
      else if s = a.current then
        if packet.flag = eofFlag then ({ a with point := .done .eofAck }, [.eofAck])
        -- only here: `buffering` takes a PDU without payload for a block
        else if packet.payload = [] then ({ a with point := .done .emptyPayload }, [])
        else
          ({ a with
            file := a.file ++ [packet.payload], highest := s, current := s + 1 }, [.rr (s + 1)])
      else
        ({ a with point := .buffering, highest := s, stored := a.keep s packet },
          srejs a.current s)
  | .buffering =>
      if a.current < s then
        ({ a with highest := max a.highest s, stored := a.keep s packet },
          srejs (a.highest + 1) s)
      else if s = a.current then
        -- dropped: while something is stored beyond `current`, the EOF cannot be due
        if packet.flag = eofFlag then (a, [])
        else
          ({ a with
            point := .flush
            file := if packet.payload = [] then a.file else a.file ++ [packet.payload]
            current := s + 1 }, [.rr (s + 1)])
      else (a, [.rr a.current])
  | _ => (a, [])

/-- One iteration of the flush. -/
def flush (a : Receiver) : Receiver × List Reply :=
  match a.stored a.current with
  | none => ({ a with point := .buffering }, [])
  | some packet =>
      if packet.flag = eofFlag then ({ a with point := .done .eofAck }, [.eofAck])
      else
        ({ a with
          point := if a.highest < a.current + 1 then .inOrder else .flush
          file := a.file ++ [packet.payload]
          stored := Function.update a.stored a.current none
          current := a.current + 1 }, [.rr (a.current + 1)])

/-! ## What a receive can do -/

/-- What a poll of `a` makes of a PDU with sequence number `s`, case by case. -/
inductive Received (a : Receiver) (s : Nat) (packet : Packet) : Receiver × List Reply → Prop
  /-- It was written before. -/
  | old (hs : s < a.current) : Received a s packet (a, [.rr a.current])
  /-- The EOF, in order. -/
  | eof (hpoint : a.point = .inOrder) (hs : s = a.current) (hflag : packet.flag = eofFlag) :
      Received a s packet ({ a with point := .done .eofAck }, [.eofAck])
  /-- Nothing to write, in order. -/
  | empty (hpoint : a.point = .inOrder) (hs : s = a.current) (hflag : packet.flag ≠ eofFlag)
      (hempty : packet.payload = []) :
      Received a s packet ({ a with point := .done .emptyPayload }, [])
  /-- The block that is waited for, in order. -/
  | written (hpoint : a.point = .inOrder) (hs : s = a.current) (hflag : packet.flag ≠ eofFlag)
      (hne : packet.payload ≠ []) :
      Received a s packet ({ a with
        point := .inOrder
        file := a.file ++ [packet.payload]
        highest := s
        current := s + 1 }, [.rr (s + 1)])
  /-- The first PDU of a gap. -/
  | opened (hpoint : a.point = .inOrder) (hs : a.current < s) :
      Received a s packet ({ a with point := .buffering, highest := s, stored := a.keep s packet },
        srejs a.current s)
  /-- Another PDU beyond the gap. -/
  | kept (hpoint : a.point = .buffering) (hs : a.current < s) :
      Received a s packet ({ a with
        point := .buffering
        highest := max a.highest s
        stored := a.keep s packet }, srejs (a.highest + 1) s)
  /-- The EOF where a gap is to be filled. -/
  | dropped (hpoint : a.point = .buffering) (hs : s = a.current) (hflag : packet.flag = eofFlag) :
      Received a s packet (a, [])
  /-- The first block of the gap. -/
  | filled (hpoint : a.point = .buffering) (hs : s = a.current) (hflag : packet.flag ≠ eofFlag) :
      Received a s packet ({ a with
        point := .flush
        file := if packet.payload = [] then a.file else a.file ++ [packet.payload]
        current := s + 1 }, [.rr (s + 1)])

/-- **What a receive can do.** -/
theorem received {a : Receiver} (hpoint : a.point = .inOrder ∨ a.point = .buffering) (s : Nat)
    (packet : Packet) : Received a s packet (a.accept s packet) := by
  rcases hpoint with hpoint | hpoint
  · simp only [accept, hpoint]
    rcases Nat.lt_trichotomy s a.current with hs | hs | hs
    · rw [if_pos hs]
      exact .old hs
    · rw [if_neg (by omega), if_pos hs]
      by_cases hflag : packet.flag = eofFlag
      · rw [if_pos hflag]
        exact .eof hpoint hs hflag
      · rw [if_neg hflag]
        by_cases hempty : packet.payload = []
        · rw [if_pos hempty]
          exact .empty hpoint hs hflag hempty
        · rw [if_neg hempty]
          exact .written hpoint hs hflag hempty
    · rw [if_neg (by omega), if_neg (by omega)]
      exact .opened hpoint hs
  · simp only [accept, hpoint]
    rcases Nat.lt_trichotomy s a.current with hs | hs | hs
    · rw [if_neg (by omega), if_neg (by omega)]
      exact .old hs
    · rw [if_neg (by omega), if_pos hs]
      by_cases hflag : packet.flag = eofFlag
      · rw [if_pos hflag]
        exact .dropped hpoint hs hflag
      · rw [if_neg hflag]
        exact .filled hpoint hs hflag
    · rw [if_pos hs]
      exact .kept hpoint hs

/-- The block that is waited for, in order. -/
theorem accept_written {a : Receiver} {s : Nat} {packet : Packet} (hpoint : a.point = .inOrder)
    (hs : s = a.current) (hflag : packet.flag ≠ eofFlag) (hne : packet.payload ≠ []) :
    a.accept s packet = ({ a with
      file := a.file ++ [packet.payload], highest := s, current := s + 1 }, [.rr (s + 1)]) := by
  simp only [accept, hpoint]
  rw [if_neg (Nat.not_lt.mpr (Nat.le_of_eq hs.symm)), if_pos hs, if_neg hflag, if_neg hne]

/-- Elsewhere it does nothing. -/
theorem received_or_idle (a : Receiver) (s : Nat) (packet : Packet) :
    Received a s packet (a.accept s packet) ∨ a.accept s packet = (a, []) := by
  cases hpoint : a.point with
  | inOrder => exact .inl (received (.inl hpoint) s packet)
  | buffering => exact .inl (received (.inr hpoint) s packet)
  | flush => exact .inr (by simp only [accept, hpoint])
  | done why => exact .inr (by simp only [accept, hpoint])

end Receiver

namespace Rcopy

variable {o : ByteOrder} {r : Rcopy} {n : Nat} {a : Receiver}

/-- `r` is the abstract receiver `a`, with a window of `n` slots. -/
structure Refines (r : Rcopy) (n : Nat) (a : Receiver) : Prop where
  point : r.point = a.point
  shows : r.window.Shows n a.current a.stored
  current : r.window.current = a.current
  highest : r.window.highest = a.highest
  highest_lt : a.highest < 2147483648
  file : r.outputFile = a.file
  packet : ∀ s packet, a.stored s = some packet → packet.sequenceNumber = s ∧
    packet.flag = byteAt packet.pdu recvFlagLocation ∧ pduHeaderLen ≤ packet.pdu.length ∧
    packet.pdu.length ≤ pduHeaderLen + r.bufferSize

theorem Refines.start {w : Nat} {bufferSize : BufferSize} {seq : UInt32} {addr : Addr}
    (hw : 0 < w) (hmax : w < 2147483648) (h : start w bufferSize seq addr = .ok r) :
    r.Refines w .fresh := by
  obtain ⟨hwindow, hpoint, -, hfile, -, -⟩ := of_start h
  have hshows := WindowArray.Shows.make hw hmax hwindow
  have hedges : r.window.current = (0 : Nat) ∧ r.window.highest = (0 : Nat) := by
    rw [makeWindow, dif_pos (by omega)] at hwindow
    rw [← Option.some.inj hwindow]
    exact ⟨rfl, rfl⟩
  exact ⟨hpoint, hshows, hedges.1, hedges.2, by simp [Receiver.fresh], hfile,
    fun _ _ h => by cases h⟩

/-! ## Sending -/

theorem sendRR_eq (r : Rcopy) (k : Nat) : ∃ d seq,
    r.sendRR o k = .ok ({ r with sequenceNumber := seq }, d) ∧
      Sends r.serverAddress [.rr k] [d] :=
  ⟨_, _, r.sendNumber_eq _ rrFlag k, .cons ⟨rfl, _, _, rfl⟩ .nil⟩

theorem sendEofAck_eq (r : Rcopy) (junk : Byte) : ∃ d, r.sendEofAck o junk = .ok d ∧
    Sends r.serverAddress [.eofAck] [d] := by
  refine ⟨_, by simp only [sendEofAck, createPDU_singleton, C.ok_bind, C.pure_eq]; rfl, ?_⟩
  exact .cons ⟨rfl, _, _, _, rfl⟩ .nil

/-- The loop sends one SREJ for each number it passes, and touches nothing but the control
sequence number. -/
theorem srejLoop_eq {s : UInt32} (hs : s.toNat < 2147483648) : ∀ (fuel i : Nat) (r : Rcopy),
    s.toNat ≤ i + fuel → i ≤ 2147483647 → ∃ ds seq,
      r.srejLoop o s fuel i = .ok ({ r with sequenceNumber := seq }, ds) ∧
        Sends r.serverAddress (Receiver.srejs i s.toNat) ds := by
  -- The fuel covers the numbers that are left, so the loop ends on its condition.
  intro fuel
  induction fuel with
  | zero =>
      intro i r hfuel _
      have hnil : Receiver.srejs i s.toNat = [] := by
        rw [Receiver.srejs, Nat.sub_eq_zero_of_le (by omega)]
        rfl
      exact ⟨[], r.sequenceNumber, rfl, hnil ▸ .nil⟩
  | succ fuel ih =>
      intro i r hfuel hi
      rw [srejLoop]
      by_cases hlt : i < s.toNat
      · rw [if_pos ((toUInt32_natCast_lt (by omega)).mpr hlt), sendSREJ, sendNumber_eq]
        obtain ⟨ds, seq, hloop, hsends⟩ :=
          ih (i + 1) { r with sequenceNumber := r.sequenceNumber + 1 } (by omega) (by omega)
        have hcons : Receiver.srejs i s.toNat = .srej i :: Receiver.srejs (i + 1) s.toNat := by
          rw [Receiver.srejs, show s.toNat - i = (s.toNat - (i + 1)) + 1 by omega,
            List.range'_succ]
          rfl
        have hadd : addInt32 (i : Int) 1 = .ok ((i + 1 : Nat) : Int) :=
          addInt32_ok (by omega) (by omega)
        refine ⟨_ :: ds, seq, by simp only [C.ok_bind, hadd, hloop, C.pure_eq]; rfl, ?_⟩
        rw [hcons]
        exact .cons ⟨rfl, _, _, rfl⟩ hsends
      · have hnil : Receiver.srejs i s.toNat = [] := by
          rw [Receiver.srejs, Nat.sub_eq_zero_of_le (by omega)]
          rfl
        rw [if_neg fun h => hlt ((toUInt32_natCast_lt (by omega)).mp h)]
        exact ⟨[], r.sequenceNumber, rfl, hnil ▸ .nil⟩

section
variable (pdu : ReceivedPdu) {receiveBuffer : Bytes} {recvLength : Nat} {w' : WindowArray}

/-- In order, ahead of `current`, wherever the window is: one SREJ for each number from `current`
on. -/
theorem inOrderAhead_eq {c : Nat} (hcurrent : r.window.current = c) (hlt : c < 2147483648)
    (hs : pdu.sequenceNumber.toNat < 2147483648)
    (hadd : (r.window.updateHighest pdu.sequenceNumber.toNat).addPDU receiveBuffer recvLength
      pdu.sequenceNumber.toNat = .ok w') : ∃ ds seq,
    r.inOrderAhead o pdu receiveBuffer recvLength
      = .ok ({ r with point := .buffering, window := w', sequenceNumber := seq }, ds) ∧
    Sends r.serverAddress (Receiver.srejs c pdu.sequenceNumber.toNat) ds := by
  obtain ⟨ds, seq, hloop, hsends⟩ := srejLoop_eq (o := o) hs pdu.sequenceNumber.toNat c r
    (by omega) (by omega)
  refine ⟨ds, seq, ?_, hsends⟩
  simp only [inOrderAhead, hcurrent, hloop, toInt32_of_lt hs, C.ok_bind, hadd, C.pure_eq]

/-- Buffering, ahead of `current`: one SREJ for each number beyond `highest`. -/
theorem bufferingAhead_eq {h : Nat} (hhighest : r.window.highest = h) (hlt : h < 2147483648)
    (hs : pdu.sequenceNumber.toNat < 2147483648)
    (hadd : r.window.addPDU receiveBuffer recvLength pdu.sequenceNumber.toNat = .ok w') :
    ∃ ds seq, r.bufferingAhead o pdu receiveBuffer recvLength
      = .ok ({ r with
          point := .buffering, sequenceNumber := seq,
          window := w'.updateHighest (max h pdu.sequenceNumber.toNat : Nat) }, ds) ∧
    Sends r.serverAddress (Receiver.srejs (h + 1) pdu.sequenceNumber.toNat) ds := by
  have hhighest' : w'.highest = (h : Int) :=
    (WindowArray.edges_of_addPDU hadd).2.2.2.2.trans hhighest
  have hhigh := toInt32_of_lt hs
  -- The `max` of unsigned numbers, as both are in the range of `int32_t`.
  have hmax : toInt32 (if pdu.sequenceNumber < toUInt32 (h : Int) then toUInt32 (h : Int)
      else pdu.sequenceNumber) = ((max h pdu.sequenceNumber.toNat : Nat) : Int) := by
    split
    · next hbelow =>
        rw [UInt32.lt_iff_toNat_lt, toNat_toUInt32_natCast (by omega)] at hbelow
        rw [toInt32_toUInt32 (by omega) (by omega), Nat.max_eq_left (by omega)]
    · next habove =>
        rw [UInt32.lt_iff_toNat_lt, toNat_toUInt32_natCast (by omega)] at habove
        rw [hhigh, Nat.max_eq_right (by omega)]
  by_cases hgt : h < pdu.sequenceNumber.toNat
  · have hinc : addInt32 (h : Int) 1 = .ok ((h + 1 : Nat) : Int) :=
      addInt32_ok (by omega) (by omega)
    obtain ⟨ds, seq, hloop, hsends⟩ := srejLoop_eq (o := o) hs pdu.sequenceNumber.toNat (h + 1)
      { r with window := w' } (by omega) (by omega)
    refine ⟨ds, seq, ?_, hsends⟩
    simp only [bufferingAhead, hhigh, hadd, C.ok_bind, hhighest', hmax, C.pure_eq,
      if_pos ((toUInt32_natCast_lt (by omega)).mpr hgt), hinc, hloop]
  · have hnil : Receiver.srejs (h + 1) pdu.sequenceNumber.toNat = [] := by
      rw [Receiver.srejs, Nat.sub_eq_zero_of_le (by omega)]
      rfl
    refine ⟨[], r.sequenceNumber, ?_, hnil ▸ .nil⟩
    simp only [bufferingAhead, hhigh, hadd, C.ok_bind, hhighest', hmax, C.pure_eq,
      if_neg fun hbelow => hgt ((toUInt32_natCast_lt (by omega)).mp hbelow)]

end

/-! ## Moving and filling the window -/

section
variable {w : WindowArray} {K : Nat} {m : Nat → Option Packet}

/-- The window moves up by one, past a sequence number that is not stored. -/
theorem advance_eq (h : w.Shows n K m) (hcur : w.current = K) (hm : m K = none)
    (hmax : K + 1 + n < 2147483648) : ∃ w', advance w = .ok w' ∧ w'.Shows n (K + 1) m ∧
      w'.current = (K + 1 : Nat) ∧ w'.highest = w.highest := by
  have hlower := h.lower
  have hupper := h.upper
  have h1 : addInt32 w.lower 1 = .ok (w.lower + 1) := addInt32_ok (by omega) (by omega)
  have h2 : addInt32 w.upper 1 = .ok (w.upper + 1) := addInt32_ok (by omega) (by omega)
  have h3 : addInt32 w.current 1 = .ok (w.current + 1) := addInt32_ok (by omega) (by omega)
  refine ⟨{ w with lower := w.lower + 1, upper := w.upper + 1, current := w.current + 1 },
    ?_, h.slide hm hmax rfl rfl rfl rfl, ?_, rfl⟩
  · simp only [advance, WindowArray.incrementLower, WindowArray.incrementUpper,
      WindowArray.incrementCurrent, h1, h2, h3, C.ok_bind, C.pure_eq]
  · show w.current + 1 = _
    omega

/-- The upper edge overflows first. -/
theorem advance_overflow (h : w.Shows n K m) (hmax : ¬ K + 1 + n < 2147483648) :
    advance w = .error .signedOverflow := by
  have hlower := h.lower
  have hupper := h.upper
  have hrange := h.range
  have hpos := h.pos
  have h1 : addInt32 w.lower 1 = .ok (w.lower + 1) := addInt32_ok (by omega) (by omega)
  have h2 : addInt32 w.upper 1 = .error .signedOverflow := if_neg (by omega)
  simp only [advance, WindowArray.incrementLower, WindowArray.incrementUpper, h1, h2, C.ok_bind,
    C.pure_eq, C.error_bind]

/-- The window as `flush` moves it up by one: the PDU it has just written is removed first. -/
theorem flushAdvance_eq (h : w.Shows n K m) (hcur : w.current = K)
    (hmax : K + 1 + n < 2147483648) : ∃ w', flushAdvance w = .ok w' ∧
      w'.Shows n (K + 1) (Function.update m K none) ∧
      w'.current = (K + 1 : Nat) ∧ w'.highest = w.highest := by
  have hlower := h.lower
  have hupper := h.upper
  have hpos := h.pos
  have h1 : addInt32 w.lower 1 = .ok (w.lower + 1) := addInt32_ok (by omega) (by omega)
  have h2 : addInt32 w.upper 1 = .ok (w.upper + 1) := addInt32_ok (by omega) (by omega)
  have h3 : addInt32 w.current 1 = .ok (w.current + 1) := addInt32_ok (by omega) (by omega)
  refine ⟨{ w.store (K % n) none with
      lower := w.lower + 1, upper := w.upper + 1, current := w.current + 1 },
    ?_, (h.store (Nat.le_refl _) (by omega) none).slide (Function.update_self ..) hmax
      rfl rfl rfl rfl, ?_, rfl⟩
  · simp only [flushAdvance, hcur, WindowArray.removePDU_eq h.size hpos, WindowArray.incrementLower,
      WindowArray.incrementUpper, WindowArray.incrementCurrent, WindowArray.store_lower,
      WindowArray.store_upper, WindowArray.store_current, hcur ▸ h3, h1, h2, C.ok_bind, C.pure_eq]
  · show w.current + 1 = _
    omega

theorem flushAdvance_overflow (h : w.Shows n K m) (hcur : w.current = K)
    (hmax : ¬ K + 1 + n < 2147483648) : flushAdvance w = .error .signedOverflow := by
  have hupper := h.upper
  have hrange := h.range
  have hpos := h.pos
  have h2 : addInt32 w.upper 1 = .error .signedOverflow := if_neg (by omega)
  have h3 : addInt32 w.current 1 = .ok (w.current + 1) := addInt32_ok (by omega) (by omega)
  simp only [flushAdvance, hcur, WindowArray.removePDU_eq h.size hpos,
    WindowArray.incrementUpper, WindowArray.incrementCurrent, WindowArray.store_upper,
    WindowArray.store_current, hcur ▸ h3, h2, C.ok_bind, C.pure_eq, C.error_bind]

/-- `add_PDU` on a received datagram `b` keeps the first PDU of each sequence number. -/
theorem addPDU_eq_keep {a : Receiver} (h : w.Shows n K a.stored) {s : Nat} (hs : K ≤ s)
    (hs' : s < K + n) {b : Bytes} (hb : pduHeaderLen ≤ b.length) (hfits : b.length ≤ maxPduLen)
    (tail : Bytes) : ∃ w', w.addPDU (b ++ tail) b.length s = .ok w' ∧
      w'.Shows n K (a.keep s (.of s b hfits)) ∧ w'.current = w.current ∧
      w'.highest = w.highest := by
  have hpacket : (⟨s, byteAt (b ++ tail) 6, (b ++ tail).take b.length,
      by rw [List.length_take]; omega⟩ : Packet) = .of s b hfits := by
    have htake : (b ++ tail).take b.length = b := List.take_left
    simp only [Packet.of, htake, Packet.mk.injEq, true_and, and_true]
    exact byteAt_append (by simp only [pduHeaderLen] at hb; omega) tail
  rw [WindowArray.addPDU_eq h.size h.pos _ hfits, hpacket, h.slot_eq hs hs', Receiver.keep]
  split
  · exact ⟨w, rfl, h, rfl, rfl⟩
  · exact ⟨_, rfl, h.store hs hs' _, rfl, rfl⟩

end

/-! ## Receiving -/

/-- The C returned, in a state that is the abstract receiver's next one, and sent its replies. -/
def Outcome (n : Nat) (bufferSize : BufferSize) (dest : Addr) (y : C (Rcopy × List Datagram))
    (x : Receiver × List Reply) : Prop :=
  ∃ r' ds, y = .ok (r', ds) ∧ r'.Refines n x.1 ∧ Sends dest x.2 ds ∧
    r'.bufferSize = bufferSize ∧ r'.serverAddress = dest

section
variable {s : UInt32} {flag : Byte} {payload b : Bytes}

/-- In order: write the payload and move the window, or acknowledge the EOF. -/
theorem Refines.inOrderCurrent (h : r.Refines n a) (hpoint : a.point = .inOrder)
    (hnone : a.stored a.current = none) (hacc : Accepted o b s flag payload)
    (hfits : b.length ≤ maxPduLen) (hs : s.toNat = a.current)
    (hrange : (a.accept s.toNat (.of s.toNat b hfits)).1.current + n < 2147483648)
    (tail : Bytes) (junk : Byte) :
    Outcome n r.bufferSize r.serverAddress
      (r.inOrderCurrent o ⟨s, flag, payload ++ tail, payload.length⟩ .complete junk)
      (a.accept s.toNat (.of s.toNat b hfits)) := by
  obtain ⟨-, hflag, hpayload⟩ := hacc.layout
  have hflag' : (Packet.of s.toNat b hfits).flag = flag := hflag
  have hpayload' : (Packet.of s.toNat b hfits).payload = payload := hpayload
  have hlt := h.shows.range
  simp only [Receiver.accept, hpoint, hflag', hpayload',
    if_neg (show ¬ s.toNat < a.current by omega), if_pos hs] at hrange ⊢
  rw [Rcopy.inOrderCurrent]
  -- Three exits: the EOF, nothing to write, and a block; only the last moves the window.
  by_cases heof : flag = eofFlag
  · obtain ⟨d, hd, hsends⟩ := r.sendEofAck_eq (o := o) junk
    rw [if_pos heof, if_neg (not_not_intro heof), hd]
    exact ⟨_, _, rfl, ⟨rfl, h.shows, h.current, h.highest, h.highest_lt, h.file, h.packet⟩,
      hsends, rfl, rfl⟩
  · rw [if_neg heof, if_pos heof]
    rw [if_neg heof] at hrange
    by_cases hempty : payload = []
    · rw [if_pos hempty, if_neg (by simp [hempty])]
      exact ⟨_, _, rfl, ⟨rfl, h.shows, h.current, h.highest, h.highest_lt, h.file, h.packet⟩,
        .nil, rfl, rfl⟩
    · rw [if_neg hempty] at hrange ⊢
      have hlen : 0 < payload.length := List.length_pos_iff.mpr hempty
      rw [if_pos hlen]
      have hbytes : ReceivedPdu.payload ⟨s, flag, payload ++ tail, payload.length⟩ = payload :=
        List.take_left
      have hhigh : toInt32 s = (s.toNat : Int) := toInt32_of_lt (by omega)
      obtain ⟨w', hadv, hshows, hcur, hhighest⟩ := advance_eq
        (w := r.window.updateHighest (toInt32 s))
        (h.shows.congr rfl rfl rfl rfl) h.current hnone (by simp only at hrange; omega)
      obtain ⟨d, seq, hsend, hsends⟩ := sendRR_eq (o := o)
        { r.writeFile payload .complete with window := w' } (a.current + 1)
      refine ⟨{ r with
          point := .inOrder, outputFile := r.outputFile ++ [payload], window := w',
          sequenceNumber := seq }, [d], ?_, ?_, ?_, rfl, rfl⟩
      · simp only [hbytes, writeFile, hadv, C.ok_bind, C.pure_eq, hcur] at hsend ⊢
        rw [hsend]
        rfl
      · refine ⟨rfl, ?_, ?_, ?_, by simp only; omega, ?_, h.packet⟩
        · rw [hs]
          exact hshows
        · rw [hs]
          exact hcur
        · rw [hhighest, ← hhigh]
          rfl
        · show _ ++ _ = _
          rw [h.file]
      · rw [hs]
        exact hsends

/-- The PDUs kept after another one was received. -/
theorem Refines.keep_packet (h : r.Refines n a) {t : Nat} (hb : pduHeaderLen ≤ b.length)
    (hsize : b.length ≤ pduHeaderLen + r.bufferSize) (hfits : b.length ≤ maxPduLen) :
    ∀ k packet, a.keep t (.of t b hfits) k = some packet → packet.sequenceNumber = k ∧
      packet.flag = byteAt packet.pdu recvFlagLocation ∧ pduHeaderLen ≤ packet.pdu.length ∧
      packet.pdu.length ≤ pduHeaderLen + r.bufferSize := by
  intro k packet hk
  unfold Receiver.keep at hk
  split at hk
  · exact h.packet k packet hk
  · by_cases hkt : k = t
    · subst hkt
      rw [Function.update_self] at hk
      cases hk
      exact ⟨rfl, rfl, hb, hsize⟩
    · rw [Function.update_of_ne hkt] at hk
      exact h.packet k packet hk

/-- In order, ahead of `current`: ask for what is missing and start buffering. -/
theorem Refines.inOrderAhead (h : r.Refines n a) (hpoint : a.point = .inOrder)
    (hb : pduHeaderLen ≤ b.length) (hsize : b.length ≤ pduHeaderLen + r.bufferSize)
    (hfits : b.length ≤ maxPduLen) (hs : a.current < s.toNat) (hwin : s.toNat < a.current + n)
    (tail tail' : Bytes) :
    Outcome n r.bufferSize r.serverAddress
      (r.inOrderAhead o ⟨s, flag, tail', payload.length⟩ (b ++ tail) b.length)
      (a.accept s.toNat (.of s.toNat b hfits)) := by
  have hlt := h.shows.range
  obtain ⟨w', hadd, hshows, hcur, hhighest⟩ := addPDU_eq_keep (a := a) (s := s.toNat) (b := b)
    (w := r.window.updateHighest s.toNat) (h.shows.congr rfl rfl rfl rfl) (by omega) hwin hb
    hfits tail
  obtain ⟨ds, seq, hrun, hsends⟩ := inOrderAhead_eq (o := o)
    ⟨s, flag, tail', payload.length⟩ h.current (by omega) (by simp only; omega) hadd
  simp only [Receiver.accept, hpoint, if_neg (show ¬ s.toNat < a.current by omega),
    if_neg (show ¬ s.toNat = a.current by omega)]
  exact ⟨_, ds, hrun, ⟨rfl, hshows, hcur.trans h.current, hhighest, by simp only; omega, h.file,
    h.keep_packet hb hsize hfits⟩, hsends, rfl, rfl⟩

/-- Buffering, ahead of `current`: keep the PDU and ask for what is newly missing. -/
theorem Refines.bufferingAhead (h : r.Refines n a) (hpoint : a.point = .buffering)
    (hb : pduHeaderLen ≤ b.length) (hsize : b.length ≤ pduHeaderLen + r.bufferSize)
    (hfits : b.length ≤ maxPduLen) (hs : a.current < s.toNat) (hwin : s.toNat < a.current + n)
    (tail tail' : Bytes) :
    Outcome n r.bufferSize r.serverAddress
      (r.bufferingAhead o ⟨s, flag, tail', payload.length⟩ (b ++ tail) b.length)
      (a.accept s.toNat (.of s.toNat b hfits)) := by
  have hlt := h.shows.range
  have hmax := h.highest_lt
  obtain ⟨w', hadd, hshows, hcur, -⟩ := addPDU_eq_keep (a := a) (s := s.toNat) (b := b)
    h.shows (by omega) hwin hb hfits tail
  obtain ⟨ds, seq, hrun, hsends⟩ := bufferingAhead_eq (o := o)
    ⟨s, flag, tail', payload.length⟩ h.highest hmax (by simp only; omega) hadd
  simp only [Receiver.accept, hpoint, if_pos hs]
  exact ⟨_, ds, hrun, ⟨rfl, hshows.congr rfl rfl rfl rfl, hcur.trans h.current, rfl,
    by simp only; omega, h.file, h.keep_packet hb hsize hfits⟩, hsends, rfl, rfl⟩

/-- Buffering, at `current`: write the payload, move the window and flush. -/
theorem Refines.bufferingCurrent (h : r.Refines n a) (hpoint : a.point = .buffering)
    (hnone : a.stored a.current = none) (hacc : Accepted o b s flag payload)
    (hfits : b.length ≤ maxPduLen) (hs : s.toNat = a.current)
    (hrange : (a.accept s.toNat (.of s.toNat b hfits)).1.current + n < 2147483648)
    (tail : Bytes) :
    Outcome n r.bufferSize r.serverAddress
      (r.bufferingCurrent o ⟨s, flag, payload ++ tail, payload.length⟩ .complete)
      (a.accept s.toNat (.of s.toNat b hfits)) := by
  obtain ⟨-, hflag, hpayload⟩ := hacc.layout
  have hflag' : (Packet.of s.toNat b hfits).flag = flag := hflag
  have hpayload' : (Packet.of s.toNat b hfits).payload = payload := hpayload
  simp only [Receiver.accept, hpoint, hflag', hpayload',
    if_neg (show ¬ a.current < s.toNat by omega), if_pos hs] at hrange ⊢
  rw [Rcopy.bufferingCurrent]
  by_cases heof : flag = eofFlag
  · rw [if_pos heof, if_neg (not_not_intro heof)]
    exact ⟨_, _, rfl, ⟨hpoint.symm, h.shows, h.current, h.highest, h.highest_lt, h.file, h.packet⟩,
      .nil, rfl, rfl⟩
  · rw [if_neg heof, if_pos heof]
    rw [if_neg heof] at hrange
    obtain ⟨w', hadv, hshows, hcur, hhighest⟩ := advance_eq h.shows h.current hnone
      (by simp only at hrange; omega)
    have hbytes : ReceivedPdu.payload ⟨s, flag, payload ++ tail, payload.length⟩ = payload :=
      List.take_left
    -- What `bufferingCurrent` does once the payload, if any, is written.
    have hnext : ∀ file : List Bytes, ∃ d seq,
        (do
          let window ← advance r.window
          let x ← sendRR o { r with outputFile := file, window := window } window.current
          return ({ x.1 with point := .flush }, [x.2]) : C (Rcopy × List Datagram))
          = .ok ({ r with
              point := .flush, outputFile := file, window := w', sequenceNumber := seq }, [d]) ∧
        Sends r.serverAddress [.rr (s.toNat + 1)] [d] := by
      intro file
      obtain ⟨d, seq, hsend, hsends⟩ := sendRR_eq (o := o)
        { r with outputFile := file, window := w' } (a.current + 1)
      exact ⟨d, seq, by simp only [hadv, C.ok_bind, hcur, hsend, C.pure_eq], hs ▸ hsends⟩
    have hrefines : ∀ file seq, file = (if payload = [] then a.file else a.file ++ [payload]) →
        Refines { r with
          point := .flush, outputFile := file, window := w', sequenceNumber := seq } n
          { a with
            point := .flush, current := s.toNat + 1,
            file := if payload = [] then a.file else a.file ++ [payload] } := by
      intro file seq hfile
      exact ⟨rfl, hs ▸ hshows, hs ▸ hcur, hhighest.trans h.highest, h.highest_lt, hfile, h.packet⟩
    by_cases hempty : payload = []
    · obtain ⟨d, seq, hrun, hsends⟩ := hnext r.outputFile
      rw [if_neg (by simp [hempty])]
      exact ⟨_, _, hrun, hrefines _ _ (by rw [if_pos hempty, h.file]), hsends, rfl, rfl⟩
    · obtain ⟨d, seq, hrun, hsends⟩ := hnext (r.outputFile ++ [payload])
      rw [if_pos (List.length_pos_iff.mpr hempty)]
      simp only [hbytes]
      exact ⟨_, _, hrun, hrefines _ _ (by rw [if_neg hempty, h.file]), hsends, rfl, rfl⟩

/-- A datagram with an old sequence number: say what is expected instead. -/
theorem Refines.old (h : r.Refines n a) (number : Int)
    (hnumber : number = a.current) : ∃ d seq,
    r.sendRR o number = .ok ({ r with sequenceNumber := seq }, d) ∧
      Sends r.serverAddress [.rr a.current] [d] ∧
      ({ r with sequenceNumber := seq } : Rcopy).Refines n a := by
  subst hnumber
  obtain ⟨d, seq, hsend, hsends⟩ := sendRR_eq (o := o) r a.current
  exact ⟨d, seq, hsend, hsends, h.point, h.shows, h.current, h.highest, h.highest_lt, h.file,
    h.packet⟩

/-- **Receiving a datagram refines `Receiver.accept`**, at either poll, as long as its sequence
number is below the upper edge of the window. -/
theorem Refines.accept (h : r.Refines n a) (hpoint : a.point = .inOrder ∨ a.point = .buffering)
    (hnone : a.stored a.current = none) (hacc : Accepted o b s flag payload)
    (hsize : b.length ≤ pduHeaderLen + r.bufferSize) (hfits : b.length ≤ maxPduLen)
    (hwin : s.toNat < a.current + n)
    (hrange : (a.accept s.toNat (.of s.toNat b hfits)).1.current + n < 2147483648)
    (src : Addr) (stale : Bytes) (junk : Byte) :
    ∃ y, r.step o (.poll (.received src stale b) .complete junk) = some y ∧
      Outcome n r.bufferSize src y (a.accept s.toNat (.of s.toNat b hfits)) := by
  have hlt := h.shows.range
  have hprocess := hacc.received _ hsize stale
  have hrecv := recvfrom_of_le stale hsize
  have hlayout := hacc.layout.1
  -- The address is the only thing that changes before the datagram is looked at.
  have h' : ({ r with serverAddress := src } : Rcopy).Refines n a :=
    ⟨h.point, h.shows, h.current, h.highest, h.highest_lt, h.file, h.packet⟩
  have hb : pduHeaderLen ≤ b.length := by omega
  rcases hpoint with hpoint | hpoint
  · refine ⟨_, step_inOrder (h.point.trans hpoint) _ _ _, ?_⟩
    simp only [inOrder, hprocess, h.current, h.shows.lower]
    rw [hrecv]
    rcases Nat.lt_trichotomy s.toNat a.current with hs | hs | hs
    · rw [if_neg fun hle => absurd ((toUInt32_natCast_le (by omega)).mp hle) (by omega)]
      obtain ⟨d, seq, hsend, hsends, href⟩ := h'.old (o := o) a.current rfl
      rw [hsend, Receiver.accept, hpoint]
      simp only [if_pos hs]
      exact ⟨_, _, rfl, ⟨hpoint.symm, href.shows, href.current, href.highest, href.highest_lt,
        href.file, href.packet⟩, hsends, rfl, rfl⟩
    · rw [if_pos ((toUInt32_natCast_le (by omega)).mpr (by omega)),
        if_pos ((eq_toUInt32_natCast (by omega)).mpr hs)]
      exact h'.inOrderCurrent hpoint hnone hacc hfits hs hrange _ junk
    · rw [if_pos ((toUInt32_natCast_le (by omega)).mpr (by omega)),
        if_neg fun heq => absurd ((eq_toUInt32_natCast (by omega)).mp heq) (by omega)]
      exact h'.inOrderAhead hpoint hb hsize hfits hs hwin _ _
  · refine ⟨_, step_buffering (h.point.trans hpoint) _ _ _, ?_⟩
    simp only [buffering, hprocess, h.current]
    rw [hrecv]
    rcases Nat.lt_trichotomy s.toNat a.current with hs | hs | hs
    · rw [if_neg fun hlt => absurd ((toUInt32_natCast_lt (by omega)).mp hlt) (by omega),
        if_neg fun heq => absurd ((eq_toUInt32_natCast (by omega)).mp heq) (by omega)]
      obtain ⟨d, seq, hsend, hsends, href⟩ := h'.old (o := o) a.current rfl
      rw [hsend, Receiver.accept, hpoint]
      simp only [if_neg (show ¬ a.current < s.toNat by omega),
        if_neg (show ¬ s.toNat = a.current by omega)]
      exact ⟨_, _, rfl, ⟨hpoint.symm, href.shows, href.current, href.highest, href.highest_lt,
        href.file, href.packet⟩, hsends, rfl, rfl⟩
    · rw [if_neg fun hlt => absurd ((toUInt32_natCast_lt (by omega)).mp hlt) (by omega),
        if_pos ((eq_toUInt32_natCast (by omega)).mpr hs)]
      exact h'.bufferingCurrent hpoint hnone hacc hfits hs hrange _
    · rw [if_pos ((toUInt32_natCast_lt (by omega)).mpr hs)]
      exact h'.bufferingAhead hpoint hb hsize hfits hs hwin _ _

/-- If the upper edge would leave the range of `int32_t`, the receive overflows. -/
theorem Refines.accept_overflow (h : r.Refines n a)
    (hpoint : a.point = .inOrder ∨ a.point = .buffering) (hacc : Accepted o b s flag payload)
    (hsize : b.length ≤ pduHeaderLen + r.bufferSize) (hfits : b.length ≤ maxPduLen)
    (hrange : ¬ (a.accept s.toNat (.of s.toNat b hfits)).1.current + n < 2147483648)
    (src : Addr) (stale : Bytes) (junk : Byte) :
    r.step o (.poll (.received src stale b) .complete junk) = some (.error .signedOverflow) := by
  obtain ⟨-, hflag, hpayload⟩ := hacc.layout
  have hflag' : (Packet.of s.toNat b hfits).flag = flag := hflag
  have hpayload' : (Packet.of s.toNat b hfits).payload = payload := hpayload
  have hlt := h.shows.range
  have hprocess := hacc.received _ hsize stale
  have hcurrent (hs : s.toNat = a.current) : s = toUInt32 (a.current : Int) :=
    (eq_toUInt32_natCast (by omega)).mpr hs
  have hreceived := Receiver.received hpoint s.toNat (.of s.toNat b hfits)
  generalize a.accept s.toNat (.of s.toNat b hfits) = x at hreceived hrange
  cases hreceived with
  -- Only a block at `current` moves the window.
  | old _ | eof _ _ _ | empty _ _ _ _ | opened _ _ | kept _ _ | dropped _ _ _ =>
      exact absurd hlt hrange
  | written hpoint hs heof hempty =>
      rw [hflag'] at heof
      rw [hpayload'] at hempty
      have hadv := advance_overflow (w := r.window.updateHighest (toInt32 s))
        (h.shows.congr rfl rfl rfl rfl) (by simp only at hrange; omega)
      rw [step_inOrder (h.point.trans hpoint)]
      simp only [inOrder, hprocess, h.current]
      rw [if_pos (by rw [hcurrent hs]; exact UInt32.le_refl _), if_pos (hcurrent hs),
        Rcopy.inOrderCurrent, if_pos heof, if_pos (List.length_pos_iff.mpr hempty)]
      simp only [writeFile, hadv, C.error_bind]
  | filled hpoint hs heof =>
      rw [hflag'] at heof
      have hadv := advance_overflow h.shows (by simp only at hrange; omega)
      rw [step_buffering (h.point.trans hpoint)]
      simp only [buffering, hprocess, h.current]
      rw [if_neg (by rw [hcurrent hs]; exact UInt32.lt_irrefl _), if_pos (hcurrent hs),
        Rcopy.bufferingCurrent, if_pos heof]
      simp only [writeFile, hadv, C.error_bind, ite_self]

end

/-! ## The flush -/

section
variable {j : Nat} {packet : Packet}

theorem flush_empty (write : Write) (junk : Byte)
    (hindex : r.window.index r.window.current = .ok j) (hslot : r.window.slot j = none) :
    r.flush o write junk = .ok ({ r with point := .buffering }, []) := by
  simp only [Rcopy.flush, WindowArray.checkPDUValid, hindex, hslot, C.ok_bind, C.pure_eq]
  rfl

/-- What an iteration does with the PDU at `current`, if that has a header and fits the buffer. -/
theorem flush_stored (write : Write) (junk : Byte)
    (hindex : r.window.index r.window.current = .ok j)
    (hslot : r.window.slot j = some packet)
    (hflag : packet.flag = byteAt packet.pdu recvFlagLocation)
    (hmin : pduHeaderLen ≤ packet.pdu.length)
    (hmax : packet.pdu.length ≤ pduHeaderLen + r.bufferSize) : ∃ receiveBuffer payloadLen,
    0 < payloadLen ∧
    (receiveBuffer.drop pduHeaderLen).take (payloadLen - pduHeaderLen).toNat = packet.payload ∧
    r.flush o write junk = if packet.flag = eofFlag then do
        let d ← r.sendEofAck o junk
        return ({ r with point := .done .eofAck }, [d])
      else r.flushWrite o receiveBuffer payloadLen write := by
  have hget := WindowArray.getPDU_some hindex hslot
    (List.replicate (pduHeaderLen + r.bufferSize) 0) (by rw [List.length_replicate]; exact hmax)
  obtain ⟨hbyte, hpos, hpayload⟩ := WindowArray.copied_layout hmin hflag
    ((List.replicate (pduHeaderLen + r.bufferSize) 0).drop packet.pdu.length)
  refine ⟨_, _, hpos, hpayload, ?_⟩
  simp only [Rcopy.flush, WindowArray.checkPDUValid, hindex, hslot, C.ok_bind, C.pure_eq,
    Option.isSome_some, if_true, hget, hbyte]

/-- It is written, and the window moves on. -/
theorem flush_complete (junk : Byte) (hindex : r.window.index r.window.current = .ok j)
    (hslot : r.window.slot j = some packet)
    (hflag : packet.flag = byteAt packet.pdu recvFlagLocation)
    (hmin : pduHeaderLen ≤ packet.pdu.length)
    (hmax : packet.pdu.length ≤ pduHeaderLen + r.bufferSize) (heof : packet.flag ≠ eofFlag) :
    r.flush o .complete junk = (do
      let window ← flushAdvance r.window
      let (r', d) ← sendRR o { r with
        outputFile := r.outputFile ++ [packet.payload], window := window } window.current
      if window.highest < window.current then return ({ r' with point := .inOrder }, [d])
      else return ({ r' with point := .flush }, [d])) := by
  obtain ⟨buf, payloadLen, hpos, hpayload, hflush⟩ :=
    flush_stored (o := o) .complete junk hindex hslot hflag hmin hmax
  rw [hflush, if_neg heof]
  simp only [flushWrite, if_pos hpos, hpayload, writeFile]

end

/-- The slot of `current`. -/
theorem Refines.index_current (h : r.Refines n a) :
    r.window.index r.window.current = .ok (a.current % n) ∧
      r.window.slot (a.current % n) = a.stored a.current := by
  have hpos := h.shows.pos
  rw [h.current]
  exact ⟨WindowArray.index_eq h.shows.size hpos, h.shows.slot_eq (Nat.le_refl _) (by omega)⟩

/-- What one iteration of the flush starts with. -/
theorem Refines.checkPDUValid_eq (h : r.Refines n a) :
    r.window.checkPDUValid a.current = .ok (a.stored a.current).isSome := by
  have hpos := h.shows.pos
  rw [WindowArray.checkPDUValid_eq h.shows.size hpos,
    h.shows.slot_eq (Nat.le_refl _) (by omega)]

/-- The PDU at `current` as `get_PDU` copies it out: its flag and its payload. -/
theorem Refines.getPDU_eq (h : r.Refines n a) {packet : Packet}
    (hstored : a.stored a.current = some packet) : ∃ receiveBuffer,
    r.window.getPDU (List.replicate (pduHeaderLen + r.bufferSize) 0) a.current
      = .ok (packet.pdu.length, receiveBuffer) ∧
    byteAt receiveBuffer recvFlagLocation = packet.flag ∧ (0 : Int) < packet.pdu.length ∧
    (receiveBuffer.drop pduHeaderLen).take ((packet.pdu.length : Int) - pduHeaderLen).toNat
      = packet.payload := by
  have hpos := h.shows.pos
  have hslot := h.shows.slot_eq (s := a.current) (Nat.le_refl _) (by omega)
  obtain ⟨-, hflag, hmin, hmax⟩ := h.packet _ _ hstored
  exact ⟨_, WindowArray.getPDU_some (WindowArray.index_eq h.shows.size hpos)
    (hslot.trans hstored) _ (by simpa using hmax), WindowArray.copied_layout hmin hflag _⟩

/-- The flush of a PDU that is not the EOF. -/
theorem Refines.flush_eq (h : r.Refines n a) {packet : Packet}
    (hstored : a.stored a.current = some packet) (heof : packet.flag ≠ eofFlag) (junk : Byte) :
    r.flush o .complete junk = (do
      let window ← flushAdvance r.window
      let (r', d) ← sendRR o { r with
        outputFile := r.outputFile ++ [packet.payload], window := window } window.current
      if window.highest < window.current then return ({ r' with point := .inOrder }, [d])
      else return ({ r' with point := .flush }, [d])) := by
  obtain ⟨hindex, hslot⟩ := h.index_current
  obtain ⟨-, hflag, hmin, hmax⟩ := h.packet _ _ hstored
  exact flush_complete junk hindex (hslot.trans hstored) hflag hmin hmax heof

/-- **One iteration of the flush refines `Receiver.flush`.** -/
theorem Refines.flush (h : r.Refines n a) (hpoint : a.point = .flush)
    (hrange : a.flush.1.current + n < 2147483648) (junk : Byte) :
    ∃ y, r.step o (.flush .complete junk) = some y ∧
      Outcome n r.bufferSize r.serverAddress y a.flush := by
  refine ⟨_, step_flush (h.point.trans hpoint) _ _, ?_⟩
  obtain ⟨hindex, hslot⟩ := h.index_current
  rw [Receiver.flush] at hrange ⊢
  cases hstored : a.stored a.current with
  | none =>
      refine ⟨{ r with point := .buffering }, [], ?_, ⟨rfl, h.shows, h.current, h.highest,
        h.highest_lt, h.file, h.packet⟩, .nil, rfl, rfl⟩
      exact flush_empty .complete junk hindex (hslot.trans hstored)
  | some packet =>
      simp only [hstored] at hrange ⊢
      by_cases heof : packet.flag = eofFlag
      · rw [if_pos heof]
        obtain ⟨-, hflag, hmin, hmax⟩ := h.packet _ _ hstored
        obtain ⟨buf, payloadLen, -, -, hflush⟩ :=
          flush_stored (o := o) .complete junk hindex (hslot.trans hstored) hflag hmin hmax
        obtain ⟨d, hd, hsends⟩ := r.sendEofAck_eq (o := o) junk
        refine ⟨{ r with point := .done .eofAck }, [d], ?_, ⟨rfl, h.shows, h.current, h.highest,
          h.highest_lt, h.file, h.packet⟩, hsends, rfl, rfl⟩
        rw [hflush, if_pos heof, hd]
        rfl
      · rw [if_neg heof] at hrange ⊢
        simp only at hrange
        obtain ⟨w', hadv, hshows, hcur, hhighest⟩ := flushAdvance_eq h.shows h.current hrange
        obtain ⟨d, seq, hsend, hsends⟩ := sendRR_eq (o := o)
          { r with outputFile := r.outputFile ++ [packet.payload], window := w' } (a.current + 1)
        refine ⟨{ r with
            point := if a.highest < a.current + 1 then .inOrder else .flush
            outputFile := r.outputFile ++ [packet.payload], window := w',
            sequenceNumber := seq }, [d], ?_, ⟨rfl, hshows, hcur, hhighest.trans h.highest,
              h.highest_lt, by rw [h.file], ?_⟩, hsends, rfl, rfl⟩
        · have hhighest' : w'.highest = a.highest := hhighest.trans h.highest
          rw [h.flush_eq hstored heof, hadv, C.ok_bind, hcur, hsend]
          simp only [C.ok_bind, C.pure_eq]
          split
          · next hlt => rw [if_pos (by omega)]
          · next hge => rw [if_neg (by omega)]
        · intro k packet' hk
          simp only at hk
          by_cases hkc : k = a.current
          · subst hkc
            rw [Function.update_self] at hk
            cases hk
          · rw [Function.update_of_ne hkc] at hk
            exact h.packet k packet' hk

theorem Refines.flush_overflow (h : r.Refines n a) (hpoint : a.point = .flush)
    (hrange : ¬ a.flush.1.current + n < 2147483648) (junk : Byte) :
    r.step o (.flush .complete junk) = some (.error .signedOverflow) := by
  have hlt := h.shows.range
  rw [Receiver.flush] at hrange
  split at hrange
  · exact absurd hlt hrange
  · next packet hstored =>
      split at hrange
      · exact absurd hlt hrange
      · next heof =>
          have hadv := flushAdvance_overflow h.shows h.current (by simp only at hrange; omega)
          rw [step_flush (h.point.trans hpoint), h.flush_eq hstored heof, hadv, C.error_bind]

end Rcopy

end RemoteCopy

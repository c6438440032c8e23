import RemoteCopy.Window
import RemoteCopy.Library.Transition

/-!
# The receiver: `rcopy.c`

`processFile` from the moment it enters `IN_ORDER`. As for the server child, the model cuts the
state functions where the outside world comes in: `inOrder` and `buffering` are at their
`pollCall(TEN_SEC)`, and `flush` is at the head of its loop, whose iteration writes one stored
PDU. A step also needs to know what `write` did and, for an EOF ACK, which byte lay on the stack;
both come with the input.
-/

namespace RemoteCopy

/-- The buffer sizes that `checkArgs` lets through. -/
abbrev BufferSize := { n : Nat // 108 ≤ n ∧ n ≤ 1400 }

/-- The least of them. -/
def leastBufferSize : BufferSize := ⟨108, by decide⟩

/-- Which `return DONE` ended the receiver. -/
inductive RcopyExit where
  | timeout
  | writeFailed
  | emptyPayload
  | eofAck
  deriving DecidableEq, Repr

inductive RcopyPoint where
  | inOrder
  | buffering
  | flush
  | done (why : RcopyExit)
  deriving DecidableEq, Repr

theorem RcopyPoint.ne_done {point : RcopyPoint} (h : point = .inOrder ∨ point = .buffering)
    (why : RcopyExit) : point ≠ .done why := by
  rcases h with rfl | rfl
  · exact fun hc => (by cases hc)
  · exact fun hc => (by cases hc)

theorem RcopyPoint.ne_flush {point : RcopyPoint} (h : point = .inOrder ∨ point = .buffering) :
    point ≠ .flush := by
  rcases h with rfl | rfl
  · exact fun hc => (by cases hc)
  · exact fun hc => (by cases hc)

/-- The state of the receiver. `outputFile` has one entry for each `write`, and `sequenceNumber`
(an `int32_t` in the C) is kept as the 32 bits that `createPDU` sends of it: past 2147483647 it
wraps, where the increment in the C is undefined. -/
structure Rcopy where
  point : RcopyPoint
  window : WindowArray
  bufferSize : BufferSize
  outputFile : List Bytes
  sequenceNumber : UInt32
  serverAddress : Addr
  deriving DecidableEq

/-- What a `write` does: all of it, or less than asked for (nothing, when it fails). -/
inductive Write where
  | complete
  | short (bytesWritten : Nat)
  deriving DecidableEq, Repr

/-- What the outside world does next: it answers the poll, or lets the flush go on. -/
inductive RcopyInput where
  | poll (p : Poll) (write : Write) (junk : Byte)
  | flush (write : Write) (junk : Byte)
  deriving DecidableEq, Repr

namespace Rcopy

section
variable (o : ByteOrder)

/-! ## Sending -/

/-- `sendRR` and `sendSREJ`, which differ in the flag alone. `*sequenceNumber` is incremented as 32
bits; whether it is still an `int32_t` then is left to whoever counts the datagrams. -/
def sendNumber (r : Rcopy) (flag : Byte) (number : Int) : C (Rcopy × Datagram) := do
  let payload := o.bytes32 (o.toNetwork (toUInt32 number))
  let buf ← createPDU o (pduHeaderLen + 4) r.sequenceNumber flag payload 4
  return ({ r with sequenceNumber := r.sequenceNumber + 1 }, ⟨r.serverAddress, buf⟩)

def sendRR (r : Rcopy) (rrNumber : Int) : C (Rcopy × Datagram) := r.sendNumber o rrFlag rrNumber

def sendSREJ (r : Rcopy) (srejNumber : Int) : C (Rcopy × Datagram) :=
  r.sendNumber o srejFlag srejNumber

theorem sendNumber_eq (r : Rcopy) (flag : Byte) (number : Int) :
    r.sendNumber o flag number = .ok ({ r with sequenceNumber := r.sequenceNumber + 1 },
      ⟨r.serverAddress,
        encodePDU o r.sequenceNumber flag (ByteOrder.bytes32 .big (toUInt32 number))⟩) := by
  have hpdu := createPDU_ok o (pduHeaderLen + 4) r.sequenceNumber flag
    (ByteOrder.bytes32 .big (toUInt32 number)) (show (4 : Int) = _ by simp) (by simp)
  simp only [sendNumber, ByteOrder.bytes32_toNetwork, hpdu, C.ok_bind, C.pure_eq]

/-- The EOF ACK, sent from `in_order` and from `flush`. Its payload is uninitialised. -/
def sendEofAck (r : Rcopy) (junk : Byte) : C Datagram := do
  let buf ← createPDU o (pduHeaderLen + 1) r.sequenceNumber eofAckFlag [junk] 1
  return ⟨r.serverAddress, buf⟩

/-- The loop `for (; i < recvSeqNumber; i++) sendSREJ(i)`; `i` is compared as an unsigned number
and counted up as a signed one, and `fuel` bounds the iterations. -/
def srejLoop (recvSeqNumber : UInt32) : Nat → Int → Rcopy → C (Rcopy × List Datagram)
  | 0, _, r => .ok (r, [])
  | fuel + 1, i, r =>
      if toUInt32 i < recvSeqNumber then do
        let (r, d) ← r.sendSREJ o i
        let i ← addInt32 i 1
        let (r, ds) ← srejLoop recvSeqNumber fuel i r
        return (r, d :: ds)
      else .ok (r, [])

/-! ## The states -/

/-- Write a payload to the output file. -/
def writeFile (r : Rcopy) (payload : Bytes) : Write → Rcopy
  | .complete => { r with outputFile := r.outputFile ++ [payload] }
  | .short n  => { r with
      outputFile := r.outputFile ++ [payload.take n], point := .done .writeFailed }

/-- `incrementLower`, `incrementUpper` and `incrementCurrent`, in the order of `in_order` and
`buffering`. -/
def advance (w : WindowArray) : C WindowArray := do
  let w ← w.incrementLower
  let w ← w.incrementUpper
  w.incrementCurrent

/-- The same moves in the order of `flush`, which removes the PDU it has written first. -/
def flushAdvance (w : WindowArray) : C WindowArray := do
  let w ← w.removePDU w.current
  let w ← w.incrementCurrent
  let w ← w.incrementUpper
  w.incrementLower

/-- The end of `in_order` for a PDU that carries `current`. -/
def inOrderCurrent (r : Rcopy) (pdu : ReceivedPdu) (write : Write) (junk : Byte) :
    C (Rcopy × List Datagram) :=
  if pdu.recvFlag ≠ eofFlag then
    if 0 < pdu.payloadLen then
      match write with
      | .short n => .ok (r.writeFile pdu.payload (.short n), [])
      | .complete => do
          let r := r.writeFile pdu.payload .complete
          -- set, not raised: `highest` may have been larger before
          let window ← advance (r.window.updateHighest (toInt32 pdu.sequenceNumber))
          let (r, d) ← sendRR o { r with window := window } window.current
          return ({ r with point := .inOrder }, [d])
    -- nothing to write counts as a failure here, but not in `buffering` and `flush`
    else .ok ({ r with point := .done .emptyPayload }, [])
  else do
    let d ← r.sendEofAck o junk
    return ({ r with point := .done .eofAck }, [d])

/-- The end of `in_order` for a PDU beyond `current`, received as the first `recvLength` bytes of
`receiveBuffer`. -/
def inOrderAhead (r : Rcopy) (pdu : ReceivedPdu) (receiveBuffer : Bytes) (recvLength : Nat) :
    C (Rcopy × List Datagram) := do
  let (r, ds) ← r.srejLoop o pdu.sequenceNumber pdu.sequenceNumber.toNat r.window.current
  let window := r.window.updateHighest (toInt32 pdu.sequenceNumber)
  -- not compared with `upper`: whatever the number, it goes into its slot if that is free
  let window ← window.addPDU receiveBuffer recvLength (toInt32 pdu.sequenceNumber)
  return ({ r with point := .buffering, window := window }, ds)

/-- `in_order`. The datagram is received into `serverAddress`, whoever sent it. -/
def inOrder (r : Rcopy) (write : Write) (junk : Byte) : Poll → C (Rcopy × List Datagram)
  | .timeout => .ok ({ r with point := .done .timeout }, [])
  | .received src stale datagram =>
      let r := { r with serverAddress := src }
      let (receiveBuffer, recvLength) := recvfrom (pduHeaderLen + r.bufferSize) stale datagram
      match processPDU o receiveBuffer recvLength with
      | none => .ok ({ r with point := .inOrder }, [])   -- discarded
      | some pdu =>
          -- `uint32_t` against `int`: both are compared as unsigned numbers
          if toUInt32 r.window.current ≤ pdu.sequenceNumber then
            if pdu.sequenceNumber = toUInt32 r.window.current then
              r.inOrderCurrent o pdu write junk
            else r.inOrderAhead o pdu receiveBuffer recvLength
          else do
            let (r, d) ← r.sendRR o r.window.lower
            return ({ r with point := .inOrder }, [d])

/-- `in_order` where `make_window` has returned `NULL`: it polls first, and uses the window for a
datagram that it accepts. The result is how it ends, or `none` if it is entered again. -/
def inOrderWithoutWindow (bufferSize : BufferSize) : Poll → C (Option RcopyExit)
  | .timeout => .ok (some .timeout)
  | .received _ stale datagram =>
      let (receiveBuffer, recvLength) := recvfrom (pduHeaderLen + bufferSize) stale datagram
      match processPDU o receiveBuffer recvLength with
      | none => .ok none   -- discarded
      | some _ => .error .nullWindow

/-- The branch of `buffering` for a PDU that carries `current`. An EOF there is dropped. -/
def bufferingCurrent (r : Rcopy) (pdu : ReceivedPdu) (write : Write) :
    C (Rcopy × List Datagram) :=
  if pdu.recvFlag ≠ eofFlag then
    let next (r : Rcopy) : C (Rcopy × List Datagram) := do
      let window ← advance r.window
      let (r, d) ← sendRR o { r with window := window } window.current
      return ({ r with point := .flush }, [d])
    if 0 < pdu.payloadLen then
      match write with
      | .short n => .ok (r.writeFile pdu.payload (.short n), [])
      | .complete => next (r.writeFile pdu.payload .complete)
    else next r
  else .ok ({ r with point := .buffering }, [])

/-- The branch of `buffering` for a PDU beyond `current`. The `max` of `highest` and the received
number is taken on unsigned numbers. -/
def bufferingAhead (r : Rcopy) (pdu : ReceivedPdu) (receiveBuffer : Bytes) (recvLength : Nat) :
    C (Rcopy × List Datagram) := do
  let window ← r.window.addPDU receiveBuffer recvLength (toInt32 pdu.sequenceNumber)
  let r := { r with window := window }
  let highest := toUInt32 r.window.highest
  let (r, ds) ←
    if highest < pdu.sequenceNumber then do
      -- what is missing below `highest` was asked for when `highest` was received
      let i ← addInt32 r.window.highest 1
      r.srejLoop o pdu.sequenceNumber pdu.sequenceNumber.toNat i
    else pure (r, [])
  let window := r.window.updateHighest
    (toInt32 (if pdu.sequenceNumber < highest then highest else pdu.sequenceNumber))
  return ({ r with point := .buffering, window := window }, ds)

/-- One iteration of the loop of `buffering`. -/
def buffering (r : Rcopy) (write : Write) : Poll → C (Rcopy × List Datagram)
  | .timeout => .ok ({ r with point := .done .timeout }, [])
  | .received src stale datagram =>
      let r := { r with serverAddress := src }
      let (receiveBuffer, recvLength) := recvfrom (pduHeaderLen + r.bufferSize) stale datagram
      match processPDU o receiveBuffer recvLength with
      | none => .ok ({ r with point := .buffering }, [])   -- discarded
      | some pdu =>
          if toUInt32 r.window.current < pdu.sequenceNumber then
            r.bufferingAhead o pdu receiveBuffer recvLength
          else if pdu.sequenceNumber = toUInt32 r.window.current then
            r.bufferingCurrent o pdu write
          else do
            -- `in_order` sends `lower` here, which is the same number
            let (r, d) ← r.sendRR o r.window.current
            return ({ r with point := .buffering }, [d])

/-- The rest of an iteration of `flush`, for a stored PDU that is not the EOF and is in the first
`payloadLen` bytes of `receiveBuffer`. -/
def flushWrite (r : Rcopy) (receiveBuffer : Bytes) (payloadLen : Int) (write : Write) :
    C (Rcopy × List Datagram) :=
  let next (r : Rcopy) : C (Rcopy × List Datagram) := do
    let window ← flushAdvance r.window
    let (r, d) ← sendRR o { r with window := window } window.current
    if window.highest < window.current then return ({ r with point := .inOrder }, [d])
    else return ({ r with point := .flush }, [d])
  -- `payloadLen` is the length of the whole PDU
  if 0 < payloadLen then
    let payload := (receiveBuffer.drop pduHeaderLen).take (payloadLen - pduHeaderLen).toNat
    match write with
    | .short n => .ok (r.writeFile payload (.short n), [])
    | .complete => next (r.writeFile payload .complete)
  else next r

/-- One iteration of the loop of `flush`. -/
def flush (r : Rcopy) (write : Write) (junk : Byte) : C (Rcopy × List Datagram) := do
  let valid ← r.window.checkPDUValid r.window.current
  if valid then
    let receiveBuffer := List.replicate (pduHeaderLen + r.bufferSize) 0
    -- the sequence number stored with the PDU is not looked at
    let (payloadLen, receiveBuffer) ← r.window.getPDU receiveBuffer r.window.current
    if byteAt receiveBuffer recvFlagLocation = eofFlag then
      let d ← r.sendEofAck o junk
      return ({ r with point := .done .eofAck }, [d])
    else r.flushWrite o receiveBuffer payloadLen write
  else return ({ r with point := .buffering }, [])

/-- The step of the receiver; `none` where it is not waiting for this input. -/
def step (r : Rcopy) (i : RcopyInput) : Option (C (Rcopy × List Datagram)) :=
  match r.point, i with
  | .inOrder,   .poll p write junk => some (r.inOrder o write junk p)
  | .buffering, .poll p write _    => some (r.buffering o write p)
  | .flush,     .flush write junk  => some (r.flush o write junk)
  | _, _ => none

section
variable {o} {r : Rcopy}

theorem step_inOrder (h : r.point = .inOrder) (p : Poll) (write : Write) (junk : Byte) :
    r.step o (.poll p write junk) = some (r.inOrder o write junk p) := by
  simp only [step, h]

theorem step_buffering (h : r.point = .buffering) (p : Poll) (write : Write) (junk : Byte) :
    r.step o (.poll p write junk) = some (r.buffering o write p) := by
  simp only [step, h]

theorem step_flush (h : r.point = .flush) (write : Write) (junk : Byte) :
    r.step o (.flush write junk) = some (r.flush o write junk) := by
  simp only [step, h]

theorem step_flush_none (h : r.point ≠ .flush) (write : Write) (junk : Byte) :
    r.step o (.flush write junk) = none := by
  unfold step
  split
  · next hi => cases hi
  · next hi => cases hi
  · next hpoint _ => exact absurd hpoint h
  · rfl

theorem point_of_step_poll {p : Poll} {write : Write} {junk : Byte}
    {y : C (Rcopy × List Datagram)} (h : r.step o (.poll p write junk) = some y) :
    r.point = .inOrder ∨ r.point = .buffering := by
  unfold step at h
  split at h
  · next hpoint _ => exact .inl hpoint
  · next hpoint _ => exact .inr hpoint
  · next hi => cases hi
  · cases h

/-- A receiver that is done takes no step. -/
theorem step_done {i : RcopyInput} {y : C (Rcopy × List Datagram)} (h : r.step o i = some y)
    (why : RcopyExit) : r.point ≠ .done why := by
  intro hpoint
  simp only [step, hpoint] at h
  cases h

/-- Ten seconds without a datagram end the receiver. -/
theorem step_timeout (h : r.point = .inOrder ∨ r.point = .buffering) (write : Write)
    (junk : Byte) :
    r.step o (.poll .timeout write junk) = some (.ok ({ r with point := .done .timeout }, [])) := by
  rcases h with h | h
  · rw [step_inOrder h]
    rfl
  · rw [step_buffering h]
    rfl

/-- A datagram that `processPDU` rejects only leaves its sender's address behind. -/
theorem step_rejected (h : r.point = .inOrder ∨ r.point = .buffering) {src : Addr}
    {stale datagram : Bytes} (hreject : Rejected o (pduHeaderLen + r.bufferSize) stale datagram)
    (write : Write) (junk : Byte) :
    r.step o (.poll (.received src stale datagram) write junk)
      = some (.ok ({ r with serverAddress := src }, [])) := by
  rw [Rejected] at hreject
  rcases h with h | h
  · rw [step_inOrder h]
    simp only [inOrder, hreject, h]
  · rw [step_buffering h]
    simp only [buffering, hreject, h]

end

/-- The receiver as it enters `IN_ORDER` for the first time, with its output file just truncated and
its window made. Where there is none, what is left of `in_order` is `inOrderWithoutWindow`. -/
def start (windowSize : Int) (bufferSize : BufferSize) (sequenceNumber : UInt32)
    (serverAddress : Addr) : C Rcopy :=
  match makeWindow windowSize with
  | none => .error .nullWindow
  | some window => .ok {
      point := .inOrder
      window := window
      bufferSize := bufferSize
      outputFile := []
      sequenceNumber := sequenceNumber
      serverAddress := serverAddress }

theorem of_start {windowSize : Int} {bufferSize : BufferSize} {sequenceNumber : UInt32}
    {serverAddress : Addr} {r : Rcopy}
    (h : start windowSize bufferSize sequenceNumber serverAddress = .ok r) :
    makeWindow windowSize = some r.window ∧ r.point = .inOrder ∧ r.bufferSize = bufferSize ∧
      r.outputFile = [] ∧ r.sequenceNumber = sequenceNumber ∧
      r.serverAddress = serverAddress := by
  unfold start at h
  split at h
  · cases h
  · next window hwindow =>
      cases h
      exact ⟨hwindow, rfl, rfl, rfl, rfl, rfl⟩

/-- The runs of one receiver from `r₀`, labelled by what went in and out. -/
def system (r₀ : Rcopy) : System Rcopy (RcopyInput × List Datagram) where
  init r := r = r₀
  step r l r' := r.step o l.1 = some (.ok (r', l.2))

end

end Rcopy

end RemoteCopy

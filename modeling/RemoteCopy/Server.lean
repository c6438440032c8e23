import RemoteCopy.Window
import RemoteCopy.Library.Transition

/-!
# The server child: `server.c`

`process_client` from the moment it enters `WINDOW_OPEN`. The C code is a loop over a state that
calls one function per state, and these functions loop over polls themselves; the model cuts them
at the points where the outside world comes in. `Server.point` names the point, with the local
`count` of the two timeout loops in it:

* `windowOpen` is the head of the loop of `window_open`, and its step reads and sends a block;
* `windowOpenPoll` is the `pollCall(0)` after the send;
* `windowClosed count` and `endOfFileWait count` are the `pollCall(ONE_SEC)` of `window_closed` and
  `end_of_file`;
* `endOfFile` is the entry of `end_of_file`, which sends the EOF.

A step consumes what the world did (`ServerInput`) and yields the next state with the datagrams
sent. The byte order of the host is a parameter.
-/

namespace RemoteCopy

/-- The payload of RR and SREJ: one sequence number. -/
def rcopyResponsesPacketLength : Nat := 4

/-- Which `return DONE` ended the child. -/
inductive ServerExit where
  | readFailed
  | unexpected   -- "received something else this is wrong"
  | gaveUp       -- ten timeouts in a row
  | eofAck
  deriving DecidableEq, Repr

inductive ServerPoint where
  | windowOpen
  | windowOpenPoll
  | windowClosed (count : Nat)
  | endOfFile
  | endOfFileWait (count : Nat)
  | done (why : ServerExit)
  deriving DecidableEq, Repr

/-- The state of the child. `dataFile` is what is left of the file, one entry for each `read` that
will return something. -/
structure Server where
  point : ServerPoint
  window : WindowArray
  dataFile : List Bytes
  bufferSize : Int
  client : Addr
  deriving DecidableEq

/-- What the outside world does next: it lets the child run on (a `read` may fail, and the one-byte
payload of the EOF is whatever was on the stack), or it answers its poll. -/
inductive ServerInput where
  | run (readFails : Bool) (junk : Byte)
  | poll (p : Poll)
  deriving DecidableEq, Repr

/-! ## Sending -/

section
variable (o : ByteOrder)

/-- `send_data_packet`: the window with the PDU stored, and the PDU sent. -/
def sendDataPacket (w : WindowArray) (payload : Bytes) : C (WindowArray × Bytes) := do
  let sequenceNum := toUInt32 w.current
  let buf ← createPDU o (pduHeaderLen + payload.length) sequenceNum dataPacketFlag payload
    payload.length
  let w ← w.addPDU buf buf.length (toInt32 sequenceNum)
  let w ← w.incrementCurrent
  return (w, buf)

/-- `send_eof`, with an uninitialised byte as its payload. -/
def sendEof (w : WindowArray) (junk : Byte) : C (WindowArray × Bytes) := do
  let sequenceNum := toUInt32 w.current
  let buf ← createPDU o (pduHeaderLen + 1) sequenceNum eofFlag [junk] 1
  let w ← w.addPDU buf buf.length (toInt32 sequenceNum)
  return (w, buf)

/-- `resend_data_packet`: the datagram it sends. The buffers are uninitialised in the C; nothing of
that is sent, because a missing PDU makes the payload length `-1 - PDU_HEADER_LEN`. -/
def resendDataPacket (w : WindowArray) (sequenceNumber : UInt32) (flag : Byte)
    (bufferSize : Int) : C Bytes := do
  -- `bufferSize` is what the request said, and may be too large for this
  let sendBufferLength ← addInt32 pduHeaderLen bufferSize
  if sendBufferLength ≤ 0 then .error .arraySize
  let resendingBuffer := List.replicate sendBufferLength.toNat 0
  let (pduLength, resendingBuffer) ← w.getPDU resendingBuffer (toInt32 sequenceNumber)
  -- neither the length nor the sequence number of what was found is looked at
  let receivedFlag := byteAt resendingBuffer recvFlagLocation
  let receivedFlag := if receivedFlag = dataPacketFlag then flag else receivedFlag
  createPDU o sendBufferLength.toNat sequenceNumber receivedFlag
    (resendingBuffer.drop pduHeaderLen) (pduLength - pduHeaderLen)

end

/-! ## Acknowledgements -/

/-- The loop of `cleaning_up_with_RR`; `fuel` bounds its iterations. -/
def cleaningUpLoop (rrSeqNum : Int) : Nat → WindowArray → C WindowArray
  | 0, w => .ok w
  | fuel + 1, w =>
      -- `rrSeqNum` is what came in: nothing keeps `lower` below `current`
      if w.lower < rrSeqNum then do
        let w ← w.removePDU w.lower
        let w ← w.incrementLower
        let w ← w.incrementUpper
        cleaningUpLoop rrSeqNum fuel w
      else .ok w

/-- `cleaning_up_with_RR`. `lower` moves up by one each time, so the loop runs
`rr_seq_num - lower` times. -/
def cleaningUpWithRR (w : WindowArray) (rrSeqNum : Int) : C WindowArray :=
  cleaningUpLoop rrSeqNum (rrSeqNum - w.lower).toNat w

/-- A received datagram, as the three receiving states of the child tell datagrams apart. -/
inductive Control where
  | rejected
  | rr (rrSeqNum : Int)
  | srej (srejSeqNum : Int)
  | eofAck
  | other
  deriving DecidableEq, Repr

/-- The receive, `processPDU` and tests of the flag with which `window_open`, `window_closed` and
`end_of_file` all begin. The number is the first four bytes behind the header, received or not. -/
def receiveControl (o : ByteOrder) (stale datagram : Bytes) : Control :=
  let (recvBuf, recvLen) :=
    recvfrom (pduHeaderLen + rcopyResponsesPacketLength) stale datagram
  match processPDU o recvBuf recvLen with
  | none => .rejected
  | some pdu =>
      if pdu.recvFlag = rrFlag then
        .rr (toInt32 (o.toNetwork (o.word32 pdu.payloadPointer)))
      else if pdu.recvFlag = srejFlag then
        .srej (toInt32 (o.toNetwork (o.word32 pdu.payloadPointer)))
      else if pdu.recvFlag = eofAckFlag then .eofAck
      else .other

/-! ## The states -/

namespace Server

/-- The head of the loop of `window_closed`, and its exits. -/
def windowClosedLoop (s : Server) (count : Nat) : Server :=
  if s.window.checkWindowOpen = false ∧ count < 10 then { s with point := .windowClosed count }
  else if count = 10 then { s with point := .done .gaveUp }
  else { s with point := .windowOpen }

/-- The head of the loop of `end_of_file`, and its exit. -/
def endOfFileLoop (s : Server) (count : Nat) : Server :=
  if count < 10 then { s with point := .endOfFileWait count }
  else { s with point := .done .gaveUp }

section
variable (o : ByteOrder)

/-- `window_open` up to its poll. -/
def windowOpen (s : Server) (readFails : Bool) : C (Server × List Datagram) :=
  if s.window.checkWindowOpen then
    if s.bufferSize ≤ 0 then .error .arraySize   -- `uint8_t payload[buffer_size]`
    else if readFails then .ok ({ s with point := .done .readFailed }, [])
    else
      match s.dataFile with
      | [] => .ok ({ s with point := .endOfFile }, [])
      | payload :: rest => do
          let (window, buf) ← sendDataPacket o s.window payload
          return ({ s with point := .windowOpenPoll, window := window, dataFile := rest },
            [⟨s.client, buf⟩])
  else .ok (s.windowClosedLoop 0, [])

/-- `resend_data_packet` to the client. -/
def resend (s : Server) (sequenceNumber : Int) (flag : Byte) : C Datagram := do
  let buf ← resendDataPacket o s.window (toUInt32 sequenceNumber) flag s.bufferSize
  return ⟨s.client, buf⟩

/-- `window_open` from its poll on. A datagram is received into `client`, whoever sent it. -/
def windowOpenPoll (s : Server) : Poll → C (Server × List Datagram)
  | .timeout => .ok ({ s with point := .windowOpen }, [])
  | .received src stale datagram =>
      let s := { s with client := src }
      match receiveControl o stale datagram with
      -- returns `WINDOW_OPEN`, so `process_client` enters `window_open` again
      | .rejected => .ok ({ s with point := .windowOpen }, [])
      | .rr rrSeqNum => do
          let window ← cleaningUpWithRR s.window rrSeqNum
          return ({ s with point := .windowOpen, window := window }, [])
      | .srej srejSeqNum => do
          let d ← s.resend o srejSeqNum resentSrejDataPacketFlag
          return ({ s with point := .windowOpen }, [d])
      | .eofAck => .ok ({ s with point := .done .unexpected }, [])
      | .other => .ok ({ s with point := .done .unexpected }, [])

/-- One iteration of the loop of `window_closed`. -/
def windowClosed (s : Server) (count : Nat) : Poll → C (Server × List Datagram)
  | .timeout => do
      let d ← s.resend o s.window.lower resentTimeoutDataPacketFlag
      return (s.windowClosedLoop (count + 1), [d])
  | .received src stale datagram =>
      let s := { s with client := src }
      match receiveControl o stale datagram with
      -- returns `WINDOW_CLOSED`, so `process_client` enters `window_closed` again
      | .rejected => .ok (s.windowClosedLoop 0, [])
      | .rr rrSeqNum => do
          let window ← cleaningUpWithRR s.window rrSeqNum
          return ({ s with point := .windowOpen, window := window }, [])
      | .srej srejSeqNum => do
          let d ← s.resend o srejSeqNum resentSrejDataPacketFlag
          return (s.windowClosedLoop 0, [d])
      | .eofAck => .ok ({ s with point := .done .unexpected }, [])
      | .other => .ok ({ s with point := .done .unexpected }, [])

/-- `end_of_file` up to its loop. -/
def endOfFile (s : Server) (junk : Byte) : C (Server × List Datagram) := do
  let (window, buf) ← sendEof o s.window junk
  return (endOfFileLoop { s with window := window } 0, [⟨s.client, buf⟩])

/-- One iteration of the loop of `end_of_file`. -/
def endOfFileWait (s : Server) (count : Nat) : Poll → C (Server × List Datagram)
  | .timeout => do
      let d ← s.resend o s.window.lower resentTimeoutDataPacketFlag
      return (s.endOfFileLoop (count + 1), [d])
  | .received src stale datagram =>
      let s := { s with client := src }
      match receiveControl o stale datagram with
      -- `continue`s, as after an RR: anything received sets `count` back
      | .rejected => .ok (s.endOfFileLoop 0, [])
      | .rr rrSeqNum => do
          let window ← cleaningUpWithRR s.window rrSeqNum
          return (endOfFileLoop { s with window := window } 0, [])
      | .srej srejSeqNum => do
          let d ← s.resend o srejSeqNum resentSrejDataPacketFlag
          return (s.endOfFileLoop 0, [d])
      | .eofAck => .ok ({ s with point := .done .eofAck }, [])
      | .other => .ok ({ s with point := .done .unexpected }, [])

/-- The step of the child; `none` where it is not waiting for this input. -/
def step (s : Server) (i : ServerInput) : Option (C (Server × List Datagram)) :=
  match s.point, i with
  | .windowOpen,          .run readFails _ => some (s.windowOpen o readFails)
  | .windowOpenPoll,      .poll p          => some (s.windowOpenPoll o p)
  | .windowClosed count,  .poll p          => some (s.windowClosed o count p)
  | .endOfFile,           .run _ junk      => some (s.endOfFile o junk)
  | .endOfFileWait count, .poll p          => some (s.endOfFileWait o count p)
  | _, _ => none

section
variable {o} {s : Server}

theorem step_windowOpen (h : s.point = .windowOpen) (readFails : Bool) (junk : Byte) :
    s.step o (.run readFails junk) = some (s.windowOpen o readFails) := by
  simp only [step, h]

theorem step_windowOpenPoll (h : s.point = .windowOpenPoll) (p : Poll) :
    s.step o (.poll p) = some (s.windowOpenPoll o p) := by
  simp only [step, h]

theorem step_windowClosed {count : Nat} (h : s.point = .windowClosed count) (p : Poll) :
    s.step o (.poll p) = some (s.windowClosed o count p) := by
  simp only [step, h]

theorem step_endOfFile (h : s.point = .endOfFile) (readFails : Bool) (junk : Byte) :
    s.step o (.run readFails junk) = some (s.endOfFile o junk) := by
  simp only [step, h]

theorem step_endOfFileWait {count : Nat} (h : s.point = .endOfFileWait count) (p : Poll) :
    s.step o (.poll p) = some (s.endOfFileWait o count p) := by
  simp only [step, h]

end

/-- The child is at one of its three polls. -/
def Polls (s : Server) : Prop :=
  s.point = .windowOpenPoll ∨ (∃ count, s.point = .windowClosed count) ∨
    ∃ count, s.point = .endOfFileWait count

/-- The state after an input, if the child takes it and nothing undefined happens. -/
def next (s : Server) (i : ServerInput) : Option Server :=
  match s.step o i with
  | some (.ok (s', _)) => some s'
  | _ => none

/-- What the child sends in the step on an input, if it takes the input and nothing undefined
happens. -/
def sends (s : Server) (i : ServerInput) : Option (List Datagram) :=
  match s.step o i with
  | some (.ok (_, ds)) => some ds
  | _ => none

theorem exists_of_sends {o : ByteOrder} {s : Server} {i : ServerInput} {ds : List Datagram}
    (h : s.sends o i = some ds) : ∃ s', s.step o i = some (.ok (s', ds)) := by
  unfold sends at h
  split at h
  · next s' ds' hstep =>
      cases h
      exact ⟨s', hstep⟩
  · cases h

/-- The child as it enters `WINDOW_OPEN` for the first time: the window is made there, and tested
at once. -/
def start (windowSize bufferSize : Int) (dataFile : List Bytes) (client : Addr) : C Server :=
  match makeWindow windowSize with
  | none => .error .nullWindow
  | some window => .ok {
      point := .windowOpen
      window := window
      dataFile := dataFile
      bufferSize := bufferSize
      client := client }

theorem of_start {windowSize bufferSize : Int} {dataFile : List Bytes} {client : Addr} {s : Server}
    (h : start windowSize bufferSize dataFile client = .ok s) :
    makeWindow windowSize = some s.window ∧ s.point = .windowOpen ∧ s.dataFile = dataFile ∧
      s.bufferSize = bufferSize ∧ s.client = client := by
  unfold start at h
  split at h
  · cases h
  · next window hwindow =>
      cases h
      exact ⟨hwindow, rfl, rfl, rfl, rfl⟩

/-- The runs of one child from `s₀`, labelled by what went in and out. -/
def system (s₀ : Server) : System Server (ServerInput × List Datagram) where
  init s := s = s₀
  step s l s' := s.step o l.1 = some (.ok (s', l.2))

theorem system_of_next {s₀ s s' : Server} {i : ServerInput} (h : s.next o i = some s') :
    ∃ l, (system o s₀).step s l s' := by
  unfold next at h
  split at h
  · next hstep =>
      cases h
      exact ⟨(i, _), hstep⟩
  · cases h

end

end Server

end RemoteCopy

import RemoteCopy.Server
import RemoteCopy.Rcopy
import Mathlib.Data.List.TakeWhile

/-!
# The setup phase: the two functions called `filename`

rcopy's `filename` sends the name of the file, with the sizes of window and buffer, up to ten
times, each time from a socket of its own, and takes whatever comes back first for an answer. The
server's is the first thing a child does, forked for a datagram that arrived at the main port: it
reads the request, tries to open the file and answers. The request is read back as it was written
(`Server.filename_request`), and which answers make rcopy go on is in the flags alone
(`RcopySetup.filename_received`).
-/

namespace RemoteCopy

/-! ## Constants -/

def maxFilenameLength : Nat := 100
def sizeOfWindowSizeVar : Nat := 4
def sizeOfBufSizeVar : Nat := 4
def filenameResponsePacketLength : Nat := 1
def fileOk : Byte := 1
def fileNotOk : Byte := 0

/-! ## The server child -/

/-- The files of the server: what those that can be opened yield to `read`s of a size, up to the
`read` that returns nothing. -/
structure Files where
  reads : Bytes → Int → Option (List Bytes)
  reads_fit : ∀ fname bufSize blocks, reads fname bufSize = some blocks →
    ∀ block ∈ blocks, block ≠ [] ∧ (block.length : Int) ≤ bufSize

/-- The bytes of a C string, up to its terminator. -/
def cString (mem : Bytes) : Bytes := mem.takeWhile (· ≠ 0)

namespace Server

/-- What `filename` leaves in its pointer arguments when it returns `WINDOW_OPEN`. -/
structure Opened where
  dataFile : List Bytes
  bufSize : Int
  windowSize : Int
  deriving DecidableEq, Repr

/-- The buffer in which the main process receives a request. -/
def requestBufferLength : Nat :=
  pduHeaderLen + maxFilenameLength + sizeOfBufSizeVar + sizeOfWindowSizeVar

/-- `filename` of the server, on the request in the first `recvLen` bytes of `buf`. It looks at no
flag. Without an `Opened` the child is done. -/
def filename (o : ByteOrder) (files : Files) (client : Addr) (buf : Bytes) (recvLen : Nat) :
    C (Option Opened × List Datagram) :=
  match processPDU o buf recvLen with
  | none => .ok (none, [])
  | some pdu =>
      let windowSize := toInt32 (o.toNetwork (o.word32 pdu.payloadPointer))
      let bufSize := toInt32 (o.toNetwork (o.word32 (pdu.payloadPointer.drop sizeOfWindowSizeVar)))
      let fnameLength : Int := pdu.payloadLen - sizeOfWindowSizeVar - sizeOfBufSizeVar
      if fnameLength < 0 then .error .negativeCopy
      else if maxFilenameLength < fnameLength then .error .bufferOverrun
      else
        let fname :=
          (pdu.payloadPointer.drop (sizeOfWindowSizeVar + sizeOfBufSizeVar)).take fnameLength.toNat
        -- `open` takes the name up to its first zero byte
        match files.reads (cString fname) bufSize with
        | some dataFile => do
            let buffer ← createPDU o (pduHeaderLen + filenameResponsePacketLength)
              pdu.sequenceNumber filenameResponseFlag [fileOk] filenameResponsePacketLength
            return (some ⟨dataFile, bufSize, windowSize⟩, [⟨client, buffer⟩])
        | none => do
            let buffer ← createPDU o (pduHeaderLen + filenameResponsePacketLength)
              pdu.sequenceNumber filenameResponseFlag [fileNotOk] filenameResponsePacketLength
            return (none, [⟨client, buffer⟩])

/-- The answer goes to whoever asked. -/
theorem dest_of_filename {o : ByteOrder} {files : Files} {client : Addr} {buf : Bytes}
    {recvLen : Nat} {opened : Option Opened} {ds : List Datagram}
    (h : filename o files client buf recvLen = .ok (opened, ds)) {d : Datagram} (hd : d ∈ ds) :
    d.dest = client := by
  unfold filename at h
  split at h
  · cases h
    cases hd
  · simp only at h
    split at h
    · cases h
    · split at h
      · cases h
      · split at h
        · obtain ⟨buffer, -, h⟩ := C.bind_eq_ok.mp h
          cases h
          rw [List.mem_singleton.mp hd]
        · obtain ⟨buffer, -, h⟩ := C.bind_eq_ok.mp h
          cases h
          rw [List.mem_singleton.mp hd]

end Server

/-! ## rcopy -/

/-- The states of `processFile` that `filename` decides between. -/
inductive SetupState where
  | filename
  | fileOkay
  | done
  deriving DecidableEq, Repr

/-- rcopy while it is in `filename`, and as it leaves it. -/
structure RcopySetup where
  state : SetupState
  count : Nat
  clientSocket : Addr
  sequenceNumber : UInt32
  serverAddress : Addr
  pduBuffer : Bytes
  deriving DecidableEq, Repr

/-- A datagram, and the socket it was sent from. -/
structure Sent where
  src : Addr
  datagram : Datagram
  deriving DecidableEq, Repr

namespace RcopySetup

/-- `safeSendto` at the head of the loop. -/
def request (r : RcopySetup) : Sent := ⟨r.clientSocket, ⟨r.serverAddress, r.pduBuffer⟩⟩

section
variable (o : ByteOrder)

/-- The PDU that `filename` sends. -/
def createRequest (windowSize : Int) (bufferSize : BufferSize) (fromFile : Bytes)
    (sequenceNumber : UInt32) : C Bytes :=
  let windowSize := o.toNetwork (toUInt32 windowSize)
  let networkBufferSize := o.toNetwork (toUInt32 bufferSize)
  let payload := o.bytes32 windowSize ++ o.bytes32 networkBufferSize ++ fromFile
  createPDU o (pduHeaderLen + bufferSize) sequenceNumber filenameFlag payload
    (sizeOfWindowSizeVar + sizeOfBufSizeVar + fromFile.length : Nat)

/-- `start` and `filename` up to the loop. -/
def start (windowSize : Int) (bufferSize : BufferSize) (fromFile : Bytes)
    (server clientSocket : Addr) : C RcopySetup := do
  let pduBuffer ← createRequest o windowSize bufferSize fromFile 0
  return {
    state := .filename
    count := 0
    clientSocket := clientSocket
    sequenceNumber := 0
    serverAddress := server
    pduBuffer := pduBuffer }

/-- The end of `filename`. -/
def leave (r : RcopySetup) (state : SetupState) : RcopySetup :=
  { r with state := state, sequenceNumber := r.sequenceNumber + 1 }

/-- The end of an iteration that got no answer: the tenth is the last, and any other ends with a
new socket, for which `setupUdpClientToServer` fills in the server's address again. -/
def retry (r : RcopySetup) (server newSocket : Addr) : RcopySetup × List Sent :=
  if r.count + 1 = 10 then (leave { r with count := r.count + 1 } .done, [])
  else
    let r := { r with count := r.count + 1, clientSocket := newSocket, serverAddress := server }
    (r, [r.request])

/-- An iteration of the loop of `filename` from its poll on, up to the send of the next. The
datagram is received into `serverAddress`, whoever sent it, and only its checksum is verified. -/
def filename (r : RcopySetup) (bufferSize : BufferSize) (server newSocket : Addr) :
    Poll → RcopySetup × List Sent
  | .timeout => r.retry server newSocket
  | .received src stale datagram =>
      let r := { r with serverAddress := src }
      let (pduBuffer, recvLength) := recvfrom (pduHeaderLen + bufferSize) stale datagram
      if inCksum o (pduBuffer.take recvLength) = 0 then
        let recvFlag := byteAt pduBuffer recvFlagLocation
        let fileResponse := byteAt pduBuffer pduHeaderLen
        if recvFlag ≠ filenameResponseFlag then
          -- data stands for the answer, but no other flag does, not even the EOF
          if recvFlag = dataPacketFlag ∨ recvFlag = resentTimeoutDataPacketFlag then
            (r.leave .fileOkay, [])
          else (r.leave .done, [])
        else if fileResponse ≠ fileOk then (r.leave .done, [])
        else (r.leave .fileOkay, [])
      else r.retry server newSocket

end

end RcopySetup

/-! ## The request, written and read -/

/-- The payload of the request, in network order. -/
def requestPayload (windowSize : Int) (bufferSize : BufferSize) (fromFile : Bytes) : Bytes :=
  ByteOrder.bytes32 .big (toUInt32 windowSize) ++
    (ByteOrder.bytes32 .big (toUInt32 bufferSize) ++ fromFile)

section
variable {o : ByteOrder} {windowSize : Int} {bufferSize : BufferSize} {fromFile : Bytes}

theorem length_requestPayload : (requestPayload windowSize bufferSize fromFile).length
    = sizeOfWindowSizeVar + sizeOfBufSizeVar + fromFile.length := by
  simp only [requestPayload, List.length_append, ByteOrder.length_bytes32, sizeOfWindowSizeVar,
    sizeOfBufSizeVar]
  omega

/-- The request fits the buffer of the smallest size that `checkArgs` lets through. -/
theorem createRequest_eq (hname : fromFile.length ≤ maxFilenameLength) (s : UInt32) :
    RcopySetup.createRequest o windowSize bufferSize fromFile s
      = .ok (encodePDU o s filenameFlag (requestPayload windowSize bufferSize fromFile)) := by
  have hsize := bufferSize.2.1
  have hlen : (requestPayload windowSize bufferSize fromFile).length ≤ bufferSize := by
    rw [length_requestPayload]
    simp only [sizeOfWindowSizeVar, sizeOfBufSizeVar, maxFilenameLength] at hname ⊢
    omega
  rw [RcopySetup.createRequest, ByteOrder.bytes32_toNetwork, ByteOrder.bytes32_toNetwork,
    List.append_assoc]
  show createPDU o _ s _ (requestPayload windowSize bufferSize fromFile) _ = _
  exact createPDU_ok o _ s _ _ (by rw [length_requestPayload]) (by omega)

section
variable (windowSize bufferSize fromFile) (tail : Bytes)

theorem word32_requestPayload (o : ByteOrder) :
    o.toNetwork (o.word32 (requestPayload windowSize bufferSize fromFile ++ tail))
      = toUInt32 windowSize := by
  rw [ByteOrder.toNetwork_word32, requestPayload, List.append_assoc, ByteOrder.word32_bytes32]

theorem word32_drop_requestPayload (o : ByteOrder) :
    o.toNetwork (o.word32 ((requestPayload windowSize bufferSize fromFile ++ tail).drop
      sizeOfWindowSizeVar)) = toUInt32 bufferSize := by
  have hdrop : (requestPayload windowSize bufferSize fromFile ++ tail).drop sizeOfWindowSizeVar
      = ByteOrder.bytes32 .big (toUInt32 bufferSize) ++ (fromFile ++ tail) := rfl
  rw [ByteOrder.toNetwork_word32, hdrop, ByteOrder.word32_bytes32]

theorem drop_requestPayload : (requestPayload windowSize bufferSize fromFile ++ tail).drop
    (sizeOfWindowSizeVar + sizeOfBufSizeVar) = fromFile ++ tail := rfl

end

theorem cString_eq (hnul : 0 ∉ fromFile) : cString fromFile = fromFile := by
  rw [cString, List.takeWhile_eq_self_iff]
  intro x hx
  exact decide_eq_true fun hzero => hnul (hzero ▸ hx)

/-- **The child reads the request as it was written**, on hosts of any byte order. -/
theorem Server.filename_request (o o' : ByteOrder) (files : Files) (client : Addr) (s : UInt32)
    (stale : Bytes) (hname : fromFile.length ≤ maxFilenameLength) (hnul : 0 ∉ fromFile)
    (hlow : -2147483648 ≤ windowSize) (hhigh : windowSize < 2147483648) {b : Bytes}
    (hb : b = encodePDU o s filenameFlag (requestPayload windowSize bufferSize fromFile)) :
    Server.filename o' files client (recvfrom requestBufferLength stale b).1
        (recvfrom requestBufferLength stale b).2
      = .ok (match files.reads fromFile bufferSize with
        | some dataFile => (some ⟨dataFile, bufferSize, windowSize⟩,
            [⟨client, encodePDU o' s filenameResponseFlag [fileOk]⟩])
        | none => (none, [⟨client, encodePDU o' s filenameResponseFlag [fileNotOk]⟩])) := by
  have hsize := bufferSize.2.2
  have hlen : (requestPayload windowSize bufferSize fromFile).length = _ := length_requestPayload
  simp only [maxFilenameLength, sizeOfWindowSizeVar, sizeOfBufSizeVar] at hname hlen
  have hacc : Accepted o' b s filenameFlag (requestPayload windowSize bufferSize fromFile) :=
    hb ▸ accepted_encodePDU o o' s filenameFlag (by omega)
  have hfit : b.length ≤ requestBufferLength := by
    rw [hacc.layout.1]
    simp only [requestBufferLength, maxFilenameLength, sizeOfWindowSizeVar, sizeOfBufSizeVar]
    omega
  have hcount : ((requestPayload windowSize bufferSize fromFile).length : Int)
      - sizeOfWindowSizeVar - sizeOfBufSizeVar = fromFile.length := by
    simp only [sizeOfWindowSizeVar, sizeOfBufSizeVar]
    omega
  have hresponse (x : Byte) : createPDU o' (pduHeaderLen + filenameResponsePacketLength) s
      filenameResponseFlag [x] filenameResponsePacketLength
      = .ok (encodePDU o' s filenameResponseFlag [x]) := createPDU_singleton o' s _ x
  simp only [Server.filename, hacc.received requestBufferLength hfit stale, word32_requestPayload,
    word32_drop_requestPayload, drop_requestPayload, hcount, hresponse]
  rw [if_neg (by omega), if_neg (by simp only [maxFilenameLength]; omega), Int.toNat_natCast,
    List.take_left, cString_eq hnul, toInt32_toUInt32 (by omega) (by omega),
    toInt32_toUInt32 hlow hhigh]
  cases files.reads fromFile bufferSize with
  | some dataFile => rfl
  | none => rfl

end

/-! ## The answer -/

namespace RcopySetup

/-- What `filename` makes of an intact answer, from its flag and the first byte of its payload. -/
def answered (flag fileResponse : Byte) : SetupState :=
  if flag = filenameResponseFlag then
    if fileResponse = fileOk then .fileOkay else .done
  else if flag = dataPacketFlag ∨ flag = resentTimeoutDataPacketFlag then .fileOkay else .done

/-- A receive whose checksum is right ends `filename`, by the flag and the byte behind the header of
the receive buffer. -/
theorem filename_of_inCksum (r : RcopySetup) {bufferSize : BufferSize}
    (server newSocket src : Addr) {stale datagram : Bytes}
    (hsum : inCksum o ((recvfrom (pduHeaderLen + bufferSize) stale datagram).1.take
      (recvfrom (pduHeaderLen + bufferSize) stale datagram).2) = 0) :
    r.filename o bufferSize server newSocket (.received src stale datagram)
      = (leave { r with serverAddress := src } (answered
          (byteAt (recvfrom (pduHeaderLen + bufferSize) stale datagram).1 recvFlagLocation)
          (byteAt (recvfrom (pduHeaderLen + bufferSize) stale datagram).1 pduHeaderLen)), []) := by
  simp only [filename, hsum, if_true, answered]
  -- The C tests the flag first, and the byte behind the header for `FILENAME_RESPONSE` alone.
  by_cases hanswer :
      byteAt (recvfrom (pduHeaderLen + bufferSize) stale datagram).1 recvFlagLocation
        = filenameResponseFlag
  · rw [if_neg (not_not.mpr hanswer), if_pos hanswer]
    by_cases hok :
        byteAt (recvfrom (pduHeaderLen + bufferSize) stale datagram).1 pduHeaderLen = fileOk
    · rw [if_neg (not_not.mpr hok), if_pos hok]
    · rw [if_pos hok, if_neg hok]
  · rw [if_pos hanswer, if_neg hanswer]
    split <;> rfl

/-- **An answer that arrives intact ends `filename`**, one way or the other. -/
theorem filename_received (o o' : ByteOrder) (r : RcopySetup) {bufferSize : BufferSize} (s : UInt32)
    (flag fileResponse : Byte) {rest : Bytes} (hlen : (fileResponse :: rest).length ≤ bufferSize)
    (server newSocket src : Addr) (stale : Bytes) {b : Bytes}
    (hb : b = encodePDU o' s flag (fileResponse :: rest)) :
    r.filename o bufferSize server newSocket (.received src stale b)
      = (leave { r with serverAddress := src } (answered flag fileResponse), []) := by
  have hsize := bufferSize.2.2
  have hsum : inCksum o b = 0 := by
    rw [hb, encodePDU_order s flag o' o (by omega), inCksum_encodePDU s flag o (by omega)]
  have hfit : b.length ≤ pduHeaderLen + bufferSize := by
    rw [hb, length_encodePDU]
    omega
  obtain ⟨a, b, c, d, x, y, -, henc, -⟩ :=
    encodePDU_layout s flag (p := fileResponse :: rest) o'
  have hflag (tail : Bytes) : byteAt (encodePDU o' s flag (fileResponse :: rest) ++ tail)
      recvFlagLocation = flag := by
    rw [henc]
    rfl
  have hresponse (tail : Bytes) : byteAt (encodePDU o' s flag (fileResponse :: rest) ++ tail)
      pduHeaderLen = fileResponse := by
    rw [henc]
    rfl
  rw [filename_of_inCksum r server newSocket src
    (by rw [recvfrom_of_le stale hfit, List.take_left]; exact hsum), recvfrom_of_le stale hfit, hb]
  simp only [hflag, hresponse]

/-- A poll is followed by a retry, or else it received something and is the last of `filename`; in
both cases the address of whoever sent what was received has replaced the server's. -/
theorem filename_cases (o : ByteOrder) (r : RcopySetup) (bufferSize : BufferSize)
    (server newSocket : Addr) (p : Poll) :
    (∃ src stale datagram state, p = .received src stale datagram ∧ state ≠ .filename ∧
      r.filename o bufferSize server newSocket p
        = (leave { r with serverAddress := src } state, [])) ∨
    ∃ src, r.filename o bufferSize server newSocket p
      = retry { r with serverAddress := src } server newSocket := by
  cases p with
  | timeout => exact .inr ⟨r.serverAddress, rfl⟩
  | received src stale datagram =>
      simp only [filename]
      split
      · split
        · split
          · exact .inl ⟨src, stale, datagram, .fileOkay, rfl, by decide, rfl⟩
          · exact .inl ⟨src, stale, datagram, .done, rfl, by decide, rfl⟩
        · split
          · exact .inl ⟨src, stale, datagram, .done, rfl, by decide, rfl⟩
          · exact .inl ⟨src, stale, datagram, .fileOkay, rfl, by decide, rfl⟩
      · exact .inr ⟨src, rfl⟩

/-- Every iteration asks for the same file, and as long as another follows, it asks the server. -/
theorem filename_keeps (o : ByteOrder) (r : RcopySetup) (bufferSize : BufferSize)
    (server newSocket : Addr) (p : Poll) :
    (r.filename o bufferSize server newSocket p).1.pduBuffer = r.pduBuffer ∧
    ((r.filename o bufferSize server newSocket p).1.state = .filename →
      (r.filename o bufferSize server newSocket p).1.serverAddress = server) ∧
    ∀ x ∈ (r.filename o bufferSize server newSocket p).2, x.datagram = ⟨server, r.pduBuffer⟩ := by
  rcases r.filename_cases o bufferSize server newSocket p with
    ⟨src, -, -, state, -, hstate, heq⟩ | ⟨src, heq⟩
  · rw [heq]
    exact ⟨rfl, fun hwaits => absurd hwaits hstate, fun x hx => (by cases hx)⟩
  · rw [heq, retry]
    split
    · exact ⟨rfl, fun hwaits => (by cases hwaits), fun x hx => (by cases hx)⟩
    · refine ⟨rfl, fun _ => rfl, fun x hx => ?_⟩
      rw [List.mem_singleton.mp hx]
      rfl

/-- After a poll in `filename` rcopy has left it with the socket that it had, or has asked from the
new one. -/
theorem filename_socket (o : ByteOrder) (r : RcopySetup) (bufferSize : BufferSize)
    (server newSocket : Addr) (p : Poll) :
    (∃ state src, state ≠ .filename ∧
      (state = .fileOkay → ∃ stale datagram, p = .received src stale datagram) ∧
      ∃ count, r.filename o bufferSize server newSocket p
        = (leave { r with count := count, serverAddress := src } state, [])) ∨
    (r.count + 1 ≠ 10 ∧ r.filename o bufferSize server newSocket p
      = ({ r with count := r.count + 1, clientSocket := newSocket, serverAddress := server },
        [⟨newSocket, ⟨server, r.pduBuffer⟩⟩])) := by
  rcases r.filename_cases o bufferSize server newSocket p with
    ⟨src, stale, datagram, state, hp, hstate, heq⟩ | ⟨src, heq⟩
  · exact .inl ⟨state, src, hstate, fun _ => ⟨stale, datagram, hp⟩, r.count, heq⟩
  · rw [heq, retry]
    by_cases hcount : r.count + 1 = 10
    · rw [if_pos hcount]
      exact .inl ⟨.done, src, by decide, fun hc => (by cases hc), r.count + 1, rfl⟩
    · rw [if_neg hcount]
      exact .inr ⟨hcount, rfl⟩

end RcopySetup

end RemoteCopy

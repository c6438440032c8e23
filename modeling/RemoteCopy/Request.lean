import RemoteCopy.Setup

/-!
# The setup request

The first datagram: what rcopy's `filename` puts into it and what the server's takes out. The two
were written apart, each with its own offsets and buffers. Whatever `checkArgs` lets through is read
back as it was given (`Server.request_roundTrip`). What other datagrams do to the child is decided
by their flag and length, neither of which `filename` looks at (`Server.decodes_iff`).
-/

namespace RemoteCopy

/-! ## The command line -/

/-- The command line of rcopy, with the strings up to their terminators and the numbers as `atoi`
reads them. -/
structure Args where
  fromFile : Bytes
  toFile : Bytes
  windowSize : Int
  bufferSize : Int
  errorRate : Int
  fromFile_nul : 0 ∉ fromFile
  windowSize_range : -2147483648 ≤ windowSize ∧ windowSize < 2147483648

/-- `checkArgs`, which ends the program where this is `false`. The window size is not looked at. -/
def checkArgs (args : Args) : Bool :=
  if maxFilenameLength < args.fromFile.length then false
  else if maxFilenameLength < args.toFile.length then false
  else if args.errorRate < 0 ∨ 1 ≤ args.errorRate then false
  else if 1400 < args.bufferSize ∨ args.bufferSize < 108 then false
  else true

theorem of_checkArgs {args : Args} (h : checkArgs args = true) :
    args.fromFile.length ≤ maxFilenameLength ∧ 108 ≤ args.bufferSize ∧
      args.bufferSize ≤ 1400 := by
  unfold checkArgs at h
  split at h
  · cases h
  · next hfrom =>
      split at h
      · cases h
      · split at h
        · cases h
        · split at h
          · cases h
          · next hsize => exact ⟨by omega, by omega, by omega⟩

/-- The buffer size of a command line that `checkArgs` accepts. -/
def Args.size (args : Args) (h : checkArgs args = true) : BufferSize :=
  ⟨args.bufferSize.toNat, by
    obtain ⟨-, hlow, hhigh⟩ := of_checkArgs h
    omega⟩

theorem Args.coe_size (args : Args) (h : checkArgs args = true) :
    ((args.size h : Nat) : Int) = args.bufferSize := by
  obtain ⟨-, hlow, -⟩ := of_checkArgs h
  exact Int.toNat_of_nonneg (by omega)

namespace Server

variable {o o' : ByteOrder}

/-! ## Reading a request -/

/-- What `filename` reads: the two sizes, and what it writes to the array `fname`. -/
structure Request where
  windowSize : Int
  bufSize : Int
  fname : Bytes
  deriving DecidableEq, Repr

/-- `fname_length`. -/
def fnameLength (pdu : ReceivedPdu) : Int :=
  pdu.payloadLen - sizeOfWindowSizeVar - sizeOfBufSizeVar

/-- The part of `filename` that reads an accepted request. -/
def readRequest (o : ByteOrder) (pdu : ReceivedPdu) : C Request :=
  let windowSize := toInt32 (o.toNetwork (o.word32 pdu.payloadPointer))
  let bufSize := toInt32 (o.toNetwork (o.word32 (pdu.payloadPointer.drop sizeOfWindowSizeVar)))
  if fnameLength pdu < 0 then .error .negativeCopy
  -- the array has room for the terminator besides
  else if maxFilenameLength < fnameLength pdu then .error .bufferOverrun
  else
    let fname := (pdu.payloadPointer.drop (sizeOfWindowSizeVar + sizeOfBufSizeVar)).take
      (fnameLength pdu).toNat
    .ok ⟨windowSize, bufSize, fname ++ [0]⟩

/-- The part of `filename` that opens the file and answers. -/
def answer (o : ByteOrder) (files : Files) (client : Addr) (sequenceNumber : UInt32)
    (request : Request) : C (Option Opened × List Datagram) :=
  match files.reads (cString request.fname) request.bufSize with
  | some dataFile => do
      let buffer ← createPDU o (pduHeaderLen + filenameResponsePacketLength) sequenceNumber
        filenameResponseFlag [fileOk] filenameResponsePacketLength
      return (some ⟨dataFile, request.bufSize, request.windowSize⟩, [⟨client, buffer⟩])
  | none => do
      let buffer ← createPDU o (pduHeaderLen + filenameResponsePacketLength) sequenceNumber
        filenameResponseFlag [fileNotOk] filenameResponsePacketLength
      return (none, [⟨client, buffer⟩])

/-- `open` sees the same name with the terminator as without. -/
theorem cString_terminated (fname : Bytes) : cString (fname ++ [0]) = cString fname := by
  induction fname with
  | nil => rfl
  | cons x fname ih =>
      rw [cString] at ih ⊢
      rw [cString, List.cons_append, List.takeWhile_cons, List.takeWhile_cons, ih]
      rfl

/-- **The two parts make up `filename`.** -/
theorem filename_eq {files : Files} {client : Addr} {buf : Bytes} {recvLen : Nat}
    {pdu : ReceivedPdu} (h : processPDU o buf recvLen = some pdu) :
    filename o files client buf recvLen
      = readRequest o pdu >>= answer o files client pdu.sequenceNumber := by
  simp only [filename, h, readRequest]
  by_cases hneg : fnameLength pdu < 0
  · rw [if_pos hneg]
    exact if_pos hneg
  · rw [if_neg hneg]
    by_cases hlong : maxFilenameLength < fnameLength pdu
    · rw [if_pos hlong]
      exact (if_neg hneg).trans (if_pos hlong)
    · rw [if_neg hlong, C.ok_bind, answer, cString_terminated]
      exact (if_neg hneg).trans (if_neg hlong)

theorem filename_rejected {files : Files} {client : Addr} {buf : Bytes} {recvLen : Nat}
    (h : processPDU o buf recvLen = none) :
    filename o files client buf recvLen = .ok (none, []) := by
  simp only [filename, h]

/-! ## The round trip -/

section
variable (windowSize : Int) (bufferSize : BufferSize) {fromFile : Bytes}

/-- A request that rcopy makes, as the child reads it from its buffer. -/
theorem readRequest_requestPayload (o : ByteOrder) (seq : UInt32) (flag : Byte) (tail : Bytes)
    (hname : fromFile.length ≤ maxFilenameLength) (hlow : -2147483648 ≤ windowSize)
    (hhigh : windowSize < 2147483648) :
    readRequest o ⟨seq, flag, requestPayload windowSize bufferSize fromFile ++ tail,
      (requestPayload windowSize bufferSize fromFile).length⟩
      = .ok ⟨windowSize, bufferSize, fromFile ++ [0]⟩ := by
  have hsize := bufferSize.2.2
  have hcount : fnameLength ⟨seq, flag, requestPayload windowSize bufferSize fromFile ++ tail,
      (requestPayload windowSize bufferSize fromFile).length⟩ = fromFile.length := by
    simp only [fnameLength, length_requestPayload, sizeOfWindowSizeVar, sizeOfBufSizeVar]
    omega
  rw [readRequest, if_neg (by omega), if_neg (by omega)]
  simp only [hcount, word32_requestPayload, word32_drop_requestPayload, drop_requestPayload,
    Int.toNat_natCast, List.take_left]
  rw [toInt32_toUInt32 hlow hhigh, toInt32_toUInt32 (by omega) (by omega)]

theorem length_request_le (o : ByteOrder) (seq : UInt32) (flag : Byte)
    (hname : fromFile.length ≤ maxFilenameLength) :
    (encodePDU o seq flag (requestPayload windowSize bufferSize fromFile)).length
        ≤ requestBufferLength ∧
      (encodePDU o seq flag (requestPayload windowSize bufferSize fromFile)).length
        ≤ pduHeaderLen + bufferSize := by
  have hsize := bufferSize.2.1
  rw [length_encodePDU, length_requestPayload]
  simp only [requestBufferLength, maxFilenameLength, sizeOfWindowSizeVar,
    sizeOfBufSizeVar] at hname ⊢
  omega

end

/-- **The request is read as it was given.** For every command line that `checkArgs` accepts: the
request fits the buffer it is made in and the one it is received in, and the child accepts it, reads
the same window size, the same buffer size and the same terminated name, and writes no more than the
101 bytes of `fname`; it opens the file of that name and goes on with these sizes. -/
theorem request_roundTrip {args : Args} (h : checkArgs args = true) (o o' : ByteOrder)
    (seq : UInt32) (stale : Bytes) : ∃ b pdu,
    RcopySetup.createRequest o args.windowSize (args.size h) args.fromFile seq = .ok b ∧
      b.length ≤ pduHeaderLen + args.size h ∧ b.length ≤ requestBufferLength ∧
      recvfrom requestBufferLength stale b = (b ++ stale.drop b.length, b.length) ∧
      processPDU o' (b ++ stale.drop b.length) b.length = some pdu ∧
      readRequest o' pdu = .ok ⟨args.windowSize, args.bufferSize, args.fromFile ++ [0]⟩ ∧
      (args.fromFile ++ [0]).length ≤ maxFilenameLength + 1 ∧
      cString (args.fromFile ++ [0]) = args.fromFile ∧
      ∀ (files : Files) (client : Addr),
        filename o' files client (b ++ stale.drop b.length) b.length
          = answer o' files client seq
            ⟨args.windowSize, args.bufferSize, args.fromFile ++ [0]⟩ := by
  obtain ⟨hname, -, -⟩ := of_checkArgs h
  obtain ⟨hfit, hsize⟩ := length_request_le args.windowSize (args.size h) o seq filenameFlag hname
  have hlen := hfit
  rw [length_encodePDU] at hlen
  simp only [requestBufferLength, maxFilenameLength, sizeOfWindowSizeVar,
    sizeOfBufSizeVar] at hlen
  have hacc := accepted_encodePDU o o' seq filenameFlag
    (p := requestPayload args.windowSize (args.size h) args.fromFile) (by omega)
  have hrecv := recvfrom_of_le stale hfit
  have hprocess := hacc.received requestBufferLength hfit stale
  rw [hrecv] at hprocess
  have hread := readRequest_requestPayload args.windowSize (args.size h) o' seq filenameFlag
    (stale.drop (encodePDU o seq filenameFlag (requestPayload args.windowSize (args.size h)
      args.fromFile)).length) hname args.windowSize_range.1 args.windowSize_range.2
  rw [args.coe_size h] at hread
  refine ⟨_, _, createRequest_eq hname seq, hsize, hfit, hrecv, hprocess, hread, ?_, ?_,
    fun files client => ?_⟩
  · rw [List.length_append]
    exact Nat.succ_le_succ hname
  · rw [cString_terminated, cString_eq args.fromFile_nul]
  · rw [filename_eq hprocess, hread, C.ok_bind]

/-- The longest name that `checkArgs` accepts, with the smallest buffer and a negative window
size. -/
def longArgs : Args where
  fromFile := List.replicate 100 97
  toFile := [98]
  windowSize := -1
  bufferSize := 108
  errorRate := 0
  fromFile_nul := by simp
  windowSize_range := by decide

theorem request_roundTrip_longArgs : ∃ b pdu,
    RcopySetup.createRequest .little (-1) leastBufferSize (List.replicate 100 97) 0 = .ok b ∧
      b.length ≤ requestBufferLength ∧
      processPDU .big (b ++ ([] : Bytes).drop b.length) b.length = some pdu ∧
      readRequest .big pdu = .ok ⟨-1, 108, List.replicate 100 97 ++ [0]⟩ := by
  have hargs : checkArgs longArgs = true := by decide
  obtain ⟨b, pdu, hcreate, -, hfit, -, hprocess, hread, -⟩ :=
    request_roundTrip hargs .little .big 0 []
  exact ⟨b, pdu, hcreate, hfit, hprocess, hread⟩

/-! ## Any other datagram -/

/-- No file can be opened. -/
def noFiles : Files where
  reads := fun _ _ => none
  reads_fit := fun _ _ _ h => (by cases h)

/-- The child makes what it should of a datagram at the main port: either nothing at all, or it is a
request with both sizes and a name that fits. -/
structure Decodes (o : ByteOrder) (stale datagram : Bytes) : Prop where
  outcome : (∀ (files : Files) (client : Addr),
      filename o files client (recvfrom requestBufferLength stale datagram).1
        (recvfrom requestBufferLength stale datagram).2 = .ok (none, [])) ∨
    ∃ pdu, processPDU o (recvfrom requestBufferLength stale datagram).1
        (recvfrom requestBufferLength stale datagram).2 = some pdu ∧
      pdu.recvFlag = filenameFlag ∧ sizeOfWindowSizeVar + sizeOfBufSizeVar ≤ pdu.payloadLen ∧
      0 ≤ fnameLength pdu ∧ fnameLength pdu ≤ maxFilenameLength
  copies : ∀ (files : Files) (client : Addr),
    filename o files client (recvfrom requestBufferLength stale datagram).1
      (recvfrom requestBufferLength stale datagram).2 ≠ .error .negativeCopy
  -- the sizes are read of every datagram that is accepted
  received : ∀ pdu, processPDU o (recvfrom requestBufferLength stale datagram).1
      (recvfrom requestBufferLength stale datagram).2 = some pdu →
    sizeOfWindowSizeVar + sizeOfBufSizeVar ≤ pdu.payloadLen

/-- What the child answers is never nothing. -/
theorem answer_ne_silent (files : Files) (client : Addr) (seq : UInt32) (request : Request) :
    answer o files client seq request ≠ .ok (none, []) ∧
      answer o files client seq request ≠ .error .negativeCopy := by
  have hbuf (x : Byte) : createPDU o (pduHeaderLen + filenameResponsePacketLength) seq
      filenameResponseFlag [x] filenameResponsePacketLength
      = .ok (encodePDU o seq filenameResponseFlag [x]) := createPDU_singleton o seq _ x
  unfold answer
  split
  · rw [hbuf]
    exact ⟨fun hc => (by cases hc), fun hc => (by cases hc)⟩
  · rw [hbuf]
    exact ⟨fun hc => (by cases hc), fun hc => (by cases hc)⟩

/-- A payload of a request that the buffer has room for can be read if it holds both sizes, and
else its name has a negative length. -/
theorem readRequest_cases (o : ByteOrder) (pdu : ReceivedPdu)
    (hmax : pdu.payloadLen ≤ requestBufferLength - pduHeaderLen) :
    (sizeOfWindowSizeVar + sizeOfBufSizeVar ≤ pdu.payloadLen ∧ 0 ≤ fnameLength pdu ∧
      fnameLength pdu ≤ maxFilenameLength ∧ ∃ request, readRequest o pdu = .ok request) ∨
    (¬ sizeOfWindowSizeVar + sizeOfBufSizeVar ≤ pdu.payloadLen ∧
      readRequest o pdu = .error .negativeCopy) := by
  have hcount : fnameLength pdu = (pdu.payloadLen : Int) - 4 - 4 := rfl
  simp only [requestBufferLength, maxFilenameLength, sizeOfWindowSizeVar, sizeOfBufSizeVar,
    Nat.add_assoc, Nat.add_sub_cancel_left] at hmax
  by_cases hlen : sizeOfWindowSizeVar + sizeOfBufSizeVar ≤ pdu.payloadLen
  · have hlow : 0 ≤ fnameLength pdu := by
      simp only [sizeOfWindowSizeVar, sizeOfBufSizeVar] at hlen
      omega
    have hhigh : fnameLength pdu ≤ maxFilenameLength := by
      simp only [maxFilenameLength]
      omega
    exact .inl ⟨hlen, hlow, hhigh, _, by rw [readRequest, if_neg (by omega), if_neg (by omega)]⟩
  · refine .inr ⟨hlen, ?_⟩
    simp only [sizeOfWindowSizeVar, sizeOfBufSizeVar] at hlen
    rw [readRequest, if_pos (by omega)]

/-- Where the flag and the length of what was accepted come from. -/
theorem layout_of_received {stale datagram : Bytes} {size : Nat} (hlen : datagram.length ≤ size)
    {pdu : ReceivedPdu} (h : processPDU o (recvfrom size stale datagram).1
      (recvfrom size stale datagram).2 = some pdu) :
    datagram.length = pduHeaderLen + pdu.payloadLen ∧
      byteAt datagram recvFlagLocation = pdu.recvFlag := by
  have hown := h
  rw [recvfrom_of_le stale hlen, processPDU_append] at hown
  obtain ⟨own, hown, -⟩ := Option.map_eq_some_iff.mp hown
  have hacc := exists_accepted hown
  have hpdu := Option.some.inj ((hacc.received size hlen stale).symm.trans h)
  obtain ⟨hlength, hflag, -⟩ := hacc.layout
  rw [← hpdu]
  exact ⟨hlength, hflag⟩

/-- **Which datagrams the child makes what it should of.** They are those that `processPDU` rejects,
and those with the flag of a request and at least the two sizes behind the header. -/
theorem decodes_iff (o : ByteOrder) (stale : Bytes) {datagram : Bytes}
    (hlen : datagram.length ≤ requestBufferLength) :
    Decodes o stale datagram ↔ Rejected o requestBufferLength stale datagram ∨
      (byteAt datagram recvFlagLocation = filenameFlag ∧
        pduHeaderLen + sizeOfWindowSizeVar + sizeOfBufSizeVar ≤ datagram.length) := by
  cases hprocess : processPDU o (recvfrom requestBufferLength stale datagram).1
      (recvfrom requestBufferLength stale datagram).2 with
  | none =>
      refine ⟨fun _ => .inl hprocess, fun _ => ⟨.inl fun files client => ?_,
        fun files client => ?_, fun pdu hpdu => ?_⟩⟩
      · exact filename_rejected hprocess
      · rw [filename_rejected hprocess]
        exact fun hc => (by cases hc)
      · cases hprocess.symm.trans hpdu
  | some pdu =>
      obtain ⟨hlength, hflag⟩ := layout_of_received hlen hprocess
      have hreads := readRequest_cases o pdu (by omega)
      have hnot : ¬ Rejected o requestBufferLength stale datagram := by
        intro hrejected
        cases hprocess.symm.trans hrejected
      rw [hflag, hlength, or_iff_right hnot]
      constructor
      · intro h
        rcases h.outcome with hsilent | ⟨pdu', hpdu', hname, hsizes, -⟩
        · -- A datagram that is accepted is answered, or its name has a negative length.
          have hrun := hsilent noFiles 0
          rw [filename_eq hprocess] at hrun
          rcases hreads with ⟨-, -, -, request, hread⟩ | ⟨-, hread⟩
          · rw [hread, C.ok_bind] at hrun
            exact absurd hrun (answer_ne_silent noFiles 0 pdu.sequenceNumber request).1
          · rw [hread, C.error_bind] at hrun
            cases hrun
        · cases hprocess.symm.trans hpdu'
          exact ⟨hname, by omega⟩
      · rintro ⟨hname, hsizes⟩
        obtain ⟨hlong, hlow, hhigh, request, hread⟩ :=
          hreads.resolve_right fun hshort => hshort.1 (by omega)
        refine ⟨.inr ⟨pdu, hprocess, hname, hlong, hlow, hhigh⟩, fun files client => ?_,
          fun pdu' hpdu' => ?_⟩
        · rw [filename_eq hprocess, hread, C.ok_bind]
          exact (answer_ne_silent files client pdu.sequenceNumber request).2
        · cases hprocess.symm.trans hpdu'
          exact hlong

/-- A request with a name of no bytes is one that the child reads. -/
theorem decodes_request : Decodes .little []
    (encodePDU .little 0 filenameFlag (requestPayload 1 leastBufferSize [])) :=
  (decodes_iff .little [] (by decide)).mpr (.inr (by decide))

/-- An RR of a header alone, with a right checksum, makes the child copy -8 bytes. -/
theorem not_decodes : (encodePDU .little 0 rrFlag []).length ≤ requestBufferLength ∧
    filename .little noFiles 7
      (recvfrom requestBufferLength [] (encodePDU .little 0 rrFlag [])).1
      (recvfrom requestBufferLength [] (encodePDU .little 0 rrFlag [])).2
        = .error .negativeCopy ∧
    ¬ Decodes .little [] (encodePDU .little 0 rrFlag []) := by
  have hrun : filename .little noFiles 7
      (recvfrom requestBufferLength [] (encodePDU .little 0 rrFlag [])).1
      (recvfrom requestBufferLength [] (encodePDU .little 0 rrFlag [])).2
        = .error .negativeCopy := rfl
  exact ⟨by decide, hrun, fun h => h.copies noFiles 7 hrun⟩

end Server

end RemoteCopy

import RemoteCopy.Machine
import RemoteCopy.Library.OnesComplement

/-!
# PDUs: `pdu.c`, `checksum.c` and the flags of `both.h`

A PDU is a 4-byte sequence number in network order, a 2-byte checksum in host order, a flag and
the payload. `createPDU` and `processPDU` both go through `inCksum`, and the round trip
`processPDU_encodePDU` is the one fact about bytes that the rest of the development needs: a
datagram made by `createPDU` on any host is accepted on any host, and decodes to what went in.
-/

namespace RemoteCopy

/-! ## Constants -/

def pduHeaderLen : Nat := 7
def recvFlagLocation : Nat := 6

def rrFlag : Byte := 5
def srejFlag : Byte := 6
def filenameFlag : Byte := 8
def filenameResponseFlag : Byte := 9
def eofFlag : Byte := 10
def dataPacketFlag : Byte := 16
def resentSrejDataPacketFlag : Byte := 17
def resentTimeoutDataPacketFlag : Byte := 18
def eofAckFlag : Byte := 32

/-- The three flags under which the blocks of the file travel. -/
def IsDataFlag (flag : Byte) : Prop :=
  flag = dataPacketFlag ∨ flag = resentSrejDataPacketFlag ∨ flag = resentTimeoutDataPacketFlag

instance (flag : Byte) : Decidable (IsDataFlag flag) :=
  inferInstanceAs (Decidable (_ ∨ _ ∨ _))

/-! ## The checksum -/

/-- `in_cksum`. The `int` accumulator does not overflow on the at most 1407 bytes of a PDU. -/
def inCksum (o : ByteOrder) (mem : Bytes) : Nat :=
  let sum := OnesComplement.wordSum o mem
  let sum := sum / 65536 + sum % 65536   -- add hi 16 to low 16
  let sum := sum + sum / 65536           -- add carry
  65535 - sum % 65536                    -- complement, truncated to 16 bits

theorem inCksum_eq (o : ByteOrder) (mem : Bytes) :
    inCksum o mem = OnesComplement.checksum o mem := rfl

/-! ## Encoding -/

/-- What `createPDU` leaves in its buffer. -/
def encodePDU (o : ByteOrder) (sequenceNumber : UInt32) (flag : Byte) (payload : Bytes) : Bytes :=
  let seqNumberNetwork := o.bytes32 (o.toNetwork sequenceNumber)
  -- the checksum field is zero while the sum is taken
  let checksum := inCksum o (seqNumberNetwork ++ o.bytes16 0 ++ flag :: payload)
  seqNumberNetwork ++ o.bytes16 checksum ++ flag :: payload

/-- `createPDU`, into a buffer of `size` bytes: the PDU, whose length is what the C returns. -/
def createPDU (o : ByteOrder) (size : Nat) (sequenceNumber : UInt32) (flag : Byte)
    (payload : Bytes) (payloadLen : Int) : C Bytes :=
  if payloadLen < 0 then .error .negativeCopy
  else if size < pduHeaderLen + payloadLen.toNat then .error .bufferOverrun
  else .ok (encodePDU o sequenceNumber flag (payload.take payloadLen.toNat))

@[simp] theorem length_encodePDU (o : ByteOrder) (s : UInt32) (f : Byte) (p : Bytes) :
    (encodePDU o s f p).length = pduHeaderLen + p.length := by
  simp only [encodePDU, List.length_append, ByteOrder.length_bytes32, ByteOrder.length_bytes16,
    List.length_cons, pduHeaderLen]
  omega

theorem createPDU_ok (o : ByteOrder) (size : Nat) (s : UInt32) (f : Byte) (p : Bytes)
    {payloadLen : Int} (hlen : payloadLen = p.length) (h : pduHeaderLen + p.length ≤ size) :
    createPDU o size s f p payloadLen = .ok (encodePDU o s f p) := by
  subst hlen
  rw [createPDU, if_neg (by omega), if_neg (by omega), Int.toNat_natCast, List.take_length]

/-- The EOF and its acknowledgement carry one byte. -/
theorem createPDU_singleton (o : ByteOrder) (s : UInt32) (f junk : Byte) :
    createPDU o (pduHeaderLen + 1) s f [junk] 1 = .ok (encodePDU o s f [junk]) :=
  createPDU_ok o (pduHeaderLen + 1) s f [junk] rfl (Nat.le_refl _)

/-! ## Decoding -/

/-- What `processPDU` hands back: `payloadPointer` is the receive buffer from the payload on, of
which `payloadLen` bytes were received. -/
structure ReceivedPdu where
  sequenceNumber : UInt32
  recvFlag : Byte
  payloadPointer : Bytes
  payloadLen : Nat
  deriving DecidableEq, Repr

/-- The received payload. -/
def ReceivedPdu.payload (pdu : ReceivedPdu) : Bytes := pdu.payloadPointer.take pdu.payloadLen

/-- `processPDU`; `none` where the C returns -1. -/
def processPDU (o : ByteOrder) (aPDU : Bytes) (pduLength : Nat) : Option ReceivedPdu :=
  if pduLength < pduHeaderLen then none
  else if inCksum o (aPDU.take pduLength) ≠ 0 then none
  else some {
    sequenceNumber := o.toNetwork (o.word32 aPDU)
    recvFlag := byteAt aPDU recvFlagLocation
    payloadPointer := aPDU.drop pduHeaderLen
    payloadLen := pduLength - pduHeaderLen }

/-! ## The round trip -/

section
variable (s : UInt32) (f : Byte) {p : Bytes}

/-- **`createPDU` writes the same bytes on hosts of either byte order.** -/
theorem encodePDU_order (o o' : ByteOrder) (hp : p.length < 65000) :
    encodePDU o s f p = encodePDU o' s f p := by
  have hbig : ∀ o : ByteOrder, encodePDU o s f p = encodePDU .big s f p := by
    intro o
    have hzero : o.bytes16 0 = ByteOrder.bytes16 .big 0 := by cases o <;> rfl
    have hlen :
        (ByteOrder.bytes32 .big s ++ ByteOrder.bytes16 .big 0 ++ f :: p).length < 65536 := by
      simp only [List.length_append, ByteOrder.length_bytes32, ByteOrder.length_bytes16,
        List.length_cons]
      omega
    -- The words of the other order are these with their bytes swapped, and so is their checksum.
    simp only [encodePDU, inCksum_eq, ByteOrder.bytes32_toNetwork, hzero,
      OnesComplement.bytes16_checksum o hlen]
  rw [hbig o, hbig o']

/-- The bytes of a PDU one by one; `S` is the sum of its words without the checksum. -/
theorem encodePDU_layout (o : ByteOrder) : ∃ a b c d x y,
    s = ByteOrder.pack a b c d ∧ encodePDU o s f p = a :: b :: c :: d :: x :: y :: f :: p ∧
    o.word16 x y = 65535 - OnesComplement.reduce
      (o.word16 a b + o.word16 c d + OnesComplement.wordSum o (f :: p)) := by
  obtain ⟨a, b, c, d, hs⟩ := ByteOrder.eq_pack s
  have hhead : o.bytes32 (o.toNetwork s) = [a, b, c, d] := by
    rw [ByteOrder.bytes32_toNetwork, hs, ByteOrder.bytes32_big_pack]
  obtain ⟨z, z', hz, hzero⟩ := o.word16_bytes16 (x := 0) (by omega)
  have hS : OnesComplement.wordSum o ([a, b, c, d] ++ [z, z'] ++ f :: p)
      = o.word16 a b + o.word16 c d + OnesComplement.wordSum o (f :: p) := by
    show o.word16 a b + (o.word16 c d + (o.word16 z z' + OnesComplement.wordSum o (f :: p))) = _
    omega
  obtain ⟨x, y, hxy, hword⟩ := o.word16_bytes16
    (OnesComplement.checksum_lt o ([a, b, c, d] ++ [z, z'] ++ f :: p))
  refine ⟨a, b, c, d, x, y, hs, ?_, ?_⟩
  · simp only [encodePDU, inCksum_eq, hhead, hz, hxy]
    rfl
  · rw [hword, OnesComplement.checksum, hS]

/-- The words of a PDU, but for the checksum, stay clear of the largest 32-bit numbers. -/
theorem wordSum_bound {o : ByteOrder} {a b c d f : UInt8} {p : Bytes} (hp : p.length < 65000) :
    o.word16 a b + o.word16 c d + OnesComplement.wordSum o (f :: p) < 4294901760 := by
  have h1 := o.word16_lt a b
  have h2 := o.word16_lt c d
  have h3 := OnesComplement.wordSum_le o (f :: p)
  simp only [List.length_cons] at h3
  omega

/-- A datagram made by `createPDU` sums up to all ones. -/
theorem inCksum_encodePDU (o : ByteOrder) (hp : p.length < 65000) :
    inCksum o (encodePDU o s f p) = 0 := by
  obtain ⟨a, b, c, d, x, y, -, henc, hword⟩ := encodePDU_layout s f (p := p) o
  have hbound : o.word16 a b + o.word16 c d + OnesComplement.wordSum o (f :: p) < 4294901760 :=
    wordSum_bound hp
  have hfull := OnesComplement.reduce_add_complement hbound
  have hsum : OnesComplement.wordSum o (a :: b :: c :: d :: x :: y :: f :: p)
      = o.word16 a b + o.word16 c d + OnesComplement.wordSum o (f :: p) + o.word16 x y := by
    show o.word16 a b + (o.word16 c d + (o.word16 x y + OnesComplement.wordSum o (f :: p))) = _
    omega
  -- The checksum completes the sum of the other words.
  rw [inCksum_eq, henc, OnesComplement.checksum, hsum, hword, hfull]

/-- **The codec round trip**, across hosts: `o` encodes, `o'` decodes, and whatever else the
receive buffer holds behind the datagram does not matter. -/
theorem processPDU_encodePDU (o o' : ByteOrder) (hp : p.length < 65000) (tail : Bytes) :
    processPDU o' (encodePDU o s f p ++ tail) (pduHeaderLen + p.length)
      = some ⟨s, f, p ++ tail, p.length⟩ := by
  have htake : (encodePDU o s f p ++ tail).take (pduHeaderLen + p.length) = encodePDU o s f p := by
    rw [← length_encodePDU o s f p, List.take_left]
  have hsum : inCksum o' (encodePDU o s f p) = 0 := by
    rw [encodePDU_order s f o o' hp, inCksum_encodePDU s f o' hp]
  have hseq : o'.toNetwork (o'.word32 (encodePDU o s f p ++ tail)) = s := by
    rw [ByteOrder.toNetwork_word32]
    simp only [encodePDU, List.append_assoc, ByteOrder.bytes32_toNetwork,
      ByteOrder.word32_bytes32]
  obtain ⟨a, b, c, d, x, y, -, henc, -⟩ := encodePDU_layout s f (p := p) o
  rw [processPDU, if_neg (by omega), htake, hsum, if_neg (by simp), hseq, henc,
    Nat.add_sub_cancel_left]
  rfl

end

theorem byteAt_encodePDU (o : ByteOrder) (s : UInt32) (flag : Byte) (payload : Bytes) :
    byteAt (encodePDU o s flag payload) recvFlagLocation = flag := by
  obtain ⟨a, b, c, d, x, y, -, henc, -⟩ := encodePDU_layout s flag (p := payload) o
  rw [henc]
  rfl

theorem drop_encodePDU (o : ByteOrder) (s : UInt32) (flag : Byte) (payload : Bytes) :
    (encodePDU o s flag payload).drop pduHeaderLen = payload := by
  obtain ⟨a, b, c, d, x, y, -, henc, -⟩ := encodePDU_layout s flag (p := payload) o
  rw [henc]
  rfl

/-! ## Received datagrams

What `processPDU` finds in a receive buffer depends on the received bytes alone; only
`payloadPointer` still points at whatever else the buffer holds. -/

theorem byteAt_append {b : Bytes} {i : Nat} (h : i < b.length) (tail : Bytes) :
    byteAt (b ++ tail) i = byteAt b i := by
  simp only [byteAt, List.getD_eq_getElem?_getD, List.getElem?_append_left h]

theorem word32_append (o : ByteOrder) {b : Bytes} (h : 4 ≤ b.length) (tail : Bytes) :
    o.word32 (b ++ tail) = o.word32 b := by
  have hget : ∀ i, i < 4 → (b ++ tail).getD i 0 = b.getD i 0 := fun i hi =>
    byteAt_append (Nat.lt_of_lt_of_le hi h) tail
  cases o <;> simp only [ByteOrder.word32, hget 0 (by omega), hget 1 (by omega),
    hget 2 (by omega), hget 3 (by omega)]

theorem processPDU_append (o : ByteOrder) (b tail : Bytes) :
    processPDU o (b ++ tail) b.length = (processPDU o b b.length).map fun pdu =>
      { pdu with payloadPointer := pdu.payloadPointer ++ tail } := by
  unfold processPDU
  rw [List.take_left, List.take_length]
  split
  · rfl
  · next hlen =>
      simp only [pduHeaderLen] at hlen
      split
      · rfl
      · simp only [Option.map_some, Option.some.injEq, ReceivedPdu.mk.injEq, and_true]
        exact ⟨by rw [word32_append o (by omega)],
          byteAt_append (by simp only [recvFlagLocation]; omega) tail,
          List.drop_append_of_le_length (by simp only [pduHeaderLen]; omega)⟩

/-- `processPDU` rejects what a receive of the datagram leaves in a buffer of `size` bytes. -/
def Rejected (o : ByteOrder) (size : Nat) (stale datagram : Bytes) : Prop :=
  processPDU o (recvfrom size stale datagram).1 (recvfrom size stale datagram).2 = none

instance (o : ByteOrder) (size : Nat) (stale datagram : Bytes) :
    Decidable (Rejected o size stale datagram) :=
  inferInstanceAs (Decidable (_ = none))

/-- A datagram accepted by `processPDU`: its header and its payload. -/
structure Accepted (o : ByteOrder) (datagram : Bytes) (s : UInt32) (flag : Byte)
    (payload : Bytes) : Prop where
  process : processPDU o datagram datagram.length = some ⟨s, flag, payload, payload.length⟩

theorem accepted_encodePDU (o o' : ByteOrder) (s : UInt32) (f : Byte) {p : Bytes}
    (hp : p.length < 65000) : Accepted o' (encodePDU o s f p) s f p where
  process := by
    have h := processPDU_encodePDU s f o o' hp []
    rwa [List.append_nil, List.append_nil, ← length_encodePDU o s f p] at h

section
variable {o : ByteOrder} {datagram : Bytes} {s : UInt32} {flag : Byte} {payload : Bytes}

/-- Every accepted datagram has a header and a payload. -/
theorem exists_accepted {pdu : ReceivedPdu}
    (h : processPDU o datagram datagram.length = some pdu) :
    Accepted o datagram pdu.sequenceNumber pdu.recvFlag pdu.payload := by
  refine ⟨h.trans ?_⟩
  unfold processPDU at h
  split at h
  · cases h
  · split at h
    · cases h
    · cases h
      simp only [ReceivedPdu.payload, List.length_take, List.length_drop, Nat.min_self,
        Option.some.injEq, ReceivedPdu.mk.injEq, true_and, and_true]
      rw [List.take_of_length_le (by simp)]

theorem Accepted.unique (h : Accepted o datagram s flag payload) {s' : UInt32} {flag' : Byte}
    {payload' : Bytes} (h' : Accepted o datagram s' flag' payload') :
    s = s' ∧ flag = flag' ∧ payload = payload' := by
  have := h.process.symm.trans h'.process
  simp only [Option.some.injEq, ReceivedPdu.mk.injEq] at this
  exact ⟨this.1, this.2.1, this.2.2.1⟩

/-- Where the flag and the payload of an accepted datagram are. -/
theorem Accepted.layout (h : Accepted o datagram s flag payload) :
    datagram.length = pduHeaderLen + payload.length ∧
      byteAt datagram recvFlagLocation = flag ∧ datagram.drop pduHeaderLen = payload := by
  have h' := h.process
  unfold processPDU at h'
  split at h'
  · cases h'
  · next hlen =>
      split at h'
      · cases h'
      · simp only [Option.some.injEq, ReceivedPdu.mk.injEq] at h'
        exact ⟨by omega, h'.2.1, h'.2.2.1⟩

/-- An accepted datagram that fits the buffer it is received in, as `processPDU` sees it there. -/
theorem Accepted.received (h : Accepted o datagram s flag payload) (size : Nat)
    (hsize : datagram.length ≤ size) (stale : Bytes) :
    processPDU o (recvfrom size stale datagram).1 (recvfrom size stale datagram).2
      = some ⟨s, flag, payload ++ stale.drop datagram.length, payload.length⟩ := by
  rw [recvfrom_of_le stale hsize, processPDU_append, h.process]
  rfl

end

end RemoteCopy

import RemoteCopy.Pdu

/-!
# What `processPDU` accepts

The round trip of `Pdu.lean` says that an encoded PDU is accepted. Here is the other direction:
`processPDU` accepts **nothing but** encoded PDUs, up to the two zeros of one's-complement
arithmetic, and it detects every corruption that stays inside one aligned 16-bit word. The three
results share one fact, that a buffer is accepted iff its words add up to all ones
(`processPDU_isSome`).
-/

namespace RemoteCopy

open OnesComplement (reduce wordSum wordAt)

/-! ## The out parameters -/

/-- What `processPDU` writes through its pointers on its way to the checksum. -/
def decodePDU (o : ByteOrder) (aPDU : Bytes) (pduLength : Nat) : ReceivedPdu where
  sequenceNumber := o.toNetwork (o.word32 aPDU)
  recvFlag := byteAt aPDU recvFlagLocation
  payloadPointer := aPDU.drop pduHeaderLen
  payloadLen := pduLength - pduHeaderLen

theorem processPDU_eq (o : ByteOrder) (aPDU : Bytes) (pduLength : Nat) :
    processPDU o aPDU pduLength = if pduLength < pduHeaderLen then none
      else if inCksum o (aPDU.take pduLength) ≠ 0 then none
      else some (decodePDU o aPDU pduLength) := rfl

theorem inCksum_eq_zero {o : ByteOrder} {mem : Bytes} :
    inCksum o mem = 0 ↔ reduce (wordSum o mem) = 65535 := by
  have hle := OnesComplement.reduce_le (wordSum o mem)
  rw [inCksum_eq, OnesComplement.checksum]
  omega

/-- **Acceptance is a property of the sum**: long enough, and all ones. -/
theorem processPDU_eq_some {o : ByteOrder} {aPDU : Bytes} {pduLength : Nat} {pdu : ReceivedPdu} :
    processPDU o aPDU pduLength = some pdu ↔ pduHeaderLen ≤ pduLength ∧
      reduce (wordSum o (aPDU.take pduLength)) = 65535 ∧ pdu = decodePDU o aPDU pduLength := by
  rw [processPDU_eq, ← inCksum_eq_zero]
  by_cases hlen : pduLength < pduHeaderLen
  · rw [if_pos hlen]
    exact ⟨fun h => (by cases h), fun h => absurd h.1 (by omega)⟩
  · rw [if_neg hlen]
    by_cases hsum : inCksum o (aPDU.take pduLength) = 0
    · rw [if_neg (not_not_intro hsum), Option.some.injEq]
      exact ⟨fun h => ⟨by omega, hsum, h.symm⟩, fun h => h.2.2.symm⟩
    · rw [if_pos hsum]
      exact ⟨fun h => (by cases h), fun h => absurd h.2.1 hsum⟩

/-! ## The round trip -/

/-- **Codec round trip**: what `createPDU` writes on one host, `processPDU` reads on any, and every
host writes the same bytes. -/
theorem processPDU_createPDU (o o' : ByteOrder) (s : UInt32) (flag : Byte) {payload : Bytes}
    {size : Nat} (hpayload : payload.length ≤ 1400) (hsize : pduHeaderLen + payload.length ≤ size) :
    ∃ pdu, createPDU o size s flag payload payload.length = .ok pdu ∧
      createPDU o' size s flag payload payload.length = .ok pdu ∧
      pdu.length = pduHeaderLen + payload.length ∧
      processPDU o' pdu pdu.length = some ⟨s, flag, payload, payload.length⟩ := by
  refine ⟨encodePDU o s flag payload, createPDU_ok o size s flag payload rfl hsize, ?_,
    length_encodePDU o s flag payload, ?_⟩
  · rw [createPDU_ok o' size s flag payload rfl hsize, encodePDU_order s flag o o' (by omega)]
  · exact (accepted_encodePDU o o' s flag (by omega)).process

/-- An odd payload length with a carry in the sum. -/
theorem processPDU_createPDU_odd :
    ∃ pdu, createPDU .little 1407 4294967295 dataPacketFlag [255, 255, 255] 3 = .ok pdu ∧
      createPDU .big 1407 4294967295 dataPacketFlag [255, 255, 255] 3 = .ok pdu ∧
      pdu.length = 10 ∧
      processPDU .big pdu pdu.length = some ⟨4294967295, dataPacketFlag, [255, 255, 255], 3⟩ :=
  processPDU_createPDU .little .big 4294967295 dataPacketFlag (by decide) (by decide)

/-! ## The encoder's image -/

/-- A PDU taken apart into its bytes, together with the checksum that `createPDU` puts at `x`
and `y`. -/
theorem encodePDU_pack (o : ByteOrder) (a b c d : UInt8) (f : Byte) (p : Bytes) : ∃ x y,
    encodePDU o (ByteOrder.pack a b c d) f p = a :: b :: c :: d :: x :: y :: f :: p ∧
      o.word16 x y = 65535 - reduce (o.word16 a b + o.word16 c d + wordSum o (f :: p)) := by
  obtain ⟨a', b', c', d', x, y, hs, henc, hword⟩ :=
    encodePDU_layout (ByteOrder.pack a b c d) f (p := p) o
  have hbytes : [a, b, c, d] = [a', b', c', d'] := by
    rw [← ByteOrder.bytes32_big_pack, hs, ByteOrder.bytes32_big_pack]
  simp only [List.cons.injEq, and_true] at hbytes
  obtain ⟨rfl, rfl, rfl, rfl⟩ := hbytes
  exact ⟨x, y, henc, hword⟩

/-- `createPDU` on what `processPDU` made of a buffer. -/
def reencodePDU (o o' : ByteOrder) (aPDU : Bytes) (pduLength : Nat) : C Bytes :=
  let pdu := decodePDU o aPDU pduLength
  createPDU o' pduLength pdu.sequenceNumber pdu.recvFlag pdu.payload pdu.payloadLen

/-- `mem` is the PDU `pdu`, except that its checksum may be `FF FF` where that of `pdu` is
`00 00`. -/
def SameUpToZero (mem pdu : Bytes) : Prop :=
  mem = pdu ∨ (byteAt pdu 4 = 0 ∧ byteAt pdu 5 = 0 ∧ mem = (pdu.set 4 255).set 5 255)

/-- A buffer with a header, taken apart: what it decodes to and what that encodes to. -/
theorem exists_reencodePDU (o o' : ByteOrder) {aPDU : Bytes} {len : Nat}
    (hbuf : len ≤ aPDU.length) (hmin : pduHeaderLen ≤ len) (hmax : len ≤ 1407) :
    ∃ a b c d x y f p x' y', aPDU.take len = a :: b :: c :: d :: x :: y :: f :: p ∧
      reencodePDU o o' aPDU len = .ok (a :: b :: c :: d :: x' :: y' :: f :: p) ∧
      o.word16 x' y' = 65535 - reduce (o.word16 a b + o.word16 c d + wordSum o (f :: p)) := by
  have hlength : (aPDU.take len).length = len := List.length_take_of_le hbuf
  have hsplit : aPDU = aPDU.take len ++ aPDU.drop len := (List.take_append_drop len aPDU).symm
  have hmem : ∃ a b c d x y f p, aPDU.take len = a :: b :: c :: d :: x :: y :: f :: p := by
    revert hlength
    rcases aPDU.take len with - | ⟨a, - | ⟨b, - | ⟨c, - | ⟨d, - | ⟨x, - | ⟨y, - | ⟨f, p⟩⟩⟩⟩⟩⟩⟩
    all_goals
      intro hlength
      simp only [List.length_cons, List.length_nil, pduHeaderLen] at hlength hmin
      first
      | omega
      | exact ⟨_, _, _, _, _, _, _, _, rfl⟩
  obtain ⟨a, b, c, d, x, y, f, p, hmem⟩ := hmem
  rw [hmem] at hlength hsplit
  have hp : len - pduHeaderLen = p.length := by
    simp only [List.length_cons, pduHeaderLen] at hlength ⊢
    omega
  have hseq : (decodePDU o aPDU len).sequenceNumber = ByteOrder.pack a b c d := by
    rw [decodePDU, hsplit, ByteOrder.toNetwork_word32]
    rfl
  have hflag : (decodePDU o aPDU len).recvFlag = f := by
    rw [decodePDU, hsplit]
    rfl
  have hpayload : (decodePDU o aPDU len).payload = p := by
    rw [ReceivedPdu.payload, decodePDU, hp, hsplit]
    exact List.take_left
  obtain ⟨x', y', henc, hword⟩ := encodePDU_pack o a b c d f p
  refine ⟨a, b, c, d, x, y, f, p, x', y', hmem, ?_, hword⟩
  rw [reencodePDU, hseq, hflag, hpayload, createPDU_ok o' len _ f p (by simp only [decodePDU, hp])
    (by simp only [pduHeaderLen] at hmin hp ⊢; omega),
    encodePDU_order _ f o' o (by omega), henc]

theorem processPDU_isSome {o : ByteOrder} {aPDU : Bytes} {len : Nat} :
    (processPDU o aPDU len).isSome ↔
      pduHeaderLen ≤ len ∧ reduce (wordSum o (aPDU.take len)) = 65535 := by
  rw [Option.isSome_iff_exists]
  simp only [processPDU_eq_some, exists_and_left, exists_eq, and_true]

/-- With everything else given, the words that complete the sum are the checksum that
`createPDU` computes and its other zero. -/
theorem reduce_wordSum_iff (o : ByteOrder) {a b c d x y x' y' : UInt8} {f : Byte} {p : Bytes}
    (hp : p.length ≤ 1400)
    (hword : o.word16 x' y' = 65535 - reduce (o.word16 a b + o.word16 c d + wordSum o (f :: p))) :
    reduce (wordSum o (a :: b :: c :: d :: x :: y :: f :: p)) = 65535 ↔
      SameUpToZero (a :: b :: c :: d :: x :: y :: f :: p)
        (a :: b :: c :: d :: x' :: y' :: f :: p) := by
  have hbound : o.word16 a b + o.word16 c d + wordSum o (f :: p) < 4294901760 :=
    wordSum_bound (Nat.lt_of_le_of_lt hp (by decide))
  have hsum : wordSum o (a :: b :: c :: d :: x :: y :: f :: p)
      = o.word16 a b + o.word16 c d + wordSum o (f :: p) + o.word16 x y := by
    show o.word16 a b + (o.word16 c d + (o.word16 x y + wordSum o (f :: p))) = _
    omega
  have hw : o.word16 x y ≤ 65535 := Nat.le_of_lt_succ (o.word16_lt x y)
  rw [hsum, OnesComplement.reduce_add_eq_ones hbound hw, ← hword]
  constructor
  · rintro (hsame | ⟨hz, hones⟩)
    · obtain ⟨rfl, rfl⟩ := ByteOrder.word16_inj hsame
      exact .inl rfl
    · obtain ⟨rfl, rfl⟩ := ByteOrder.word16_eq_zero.mp hz
      obtain ⟨rfl, rfl⟩ := ByteOrder.word16_eq_ones.mp hones
      exact .inr ⟨rfl, rfl, rfl⟩
  · rintro (hsame | ⟨hx, hy, hsame⟩)
    · simp only [List.cons.injEq, true_and, and_true] at hsame
      obtain ⟨rfl, rfl⟩ := hsame
      exact .inl rfl
    · simp only [List.set_cons_succ, List.set_cons_zero, List.cons.injEq, true_and,
        and_true] at hsame
      obtain ⟨rfl, rfl⟩ := hsame
      exact .inr ⟨ByteOrder.word16_eq_zero.mpr ⟨hx, hy⟩, ByteOrder.word16_eq_ones.mpr ⟨rfl, rfl⟩⟩

/-- The zero sum is the one multiple of `65535` that is not all ones. -/
theorem processPDU_zeros (o : ByteOrder) {aPDU : Bytes} {len : Nat}
    (hzero : aPDU.take len = List.replicate len 0) : processPDU o aPDU len = none := by
  rw [← Option.not_isSome_iff_eq_none, processPDU_isSome, hzero,
    OnesComplement.wordSum_replicate_zero]
  rintro ⟨-, h⟩
  revert h
  decide

/-- **`processPDU` accepts exactly the encoder's image**, up to the two zeros of the checksum. -/
theorem processPDU_isSome_iff (o o' : ByteOrder) {aPDU : Bytes} {len : Nat}
    (hbuf : len ≤ aPDU.length) (hmax : len ≤ 1407) :
    ((processPDU o aPDU len).isSome ↔ pduHeaderLen ≤ len ∧
      ∃ pdu, reencodePDU o o' aPDU len = .ok pdu ∧ SameUpToZero (aPDU.take len) pdu) ∧
    (aPDU.take len = List.replicate len 0 → processPDU o aPDU len = none) := by
  refine ⟨?_, processPDU_zeros o⟩
  rw [processPDU_isSome]
  refine and_congr_right fun hmin => ?_
  obtain ⟨a, b, c, d, x, y, f, p, x', y', hmem, hre, hword⟩ :=
    exists_reencodePDU o o' hbuf hmin hmax
  have hp : p.length ≤ 1400 := by
    have hlength := List.length_take_of_le hbuf
    simp only [hmem, List.length_cons] at hlength
    omega
  rw [hmem, reduce_wordSum_iff o hp hword, hre]
  constructor
  · intro hsame
    exact ⟨_, rfl, hsame⟩
  · rintro ⟨pdu, hpdu, hsame⟩
    cases hpdu
    exact hsame

/-- A buffer with the other zero in its checksum field, received in front of stale bytes. -/
theorem processPDU_isSome_iff_zero :
    ((processPDU .little [0, 0, 0, 0, 255, 255, 0, 7] 7).isSome ↔ pduHeaderLen ≤ 7 ∧
      ∃ pdu, reencodePDU .little .big [0, 0, 0, 0, 255, 255, 0, 7] 7 = .ok pdu ∧
        SameUpToZero ([0, 0, 0, 0, 255, 255, 0, 7].take 7) pdu) ∧
    (([0, 0, 0, 0, 255, 255, 0, 7] : Bytes).take 7 = List.replicate 7 0 →
      processPDU .little [0, 0, 0, 0, 255, 255, 0, 7] 7 = none) :=
  processPDU_isSome_iff .little .big (by decide) (by decide)

/-! ## Corrupted words -/

/-- `errorFlipBits::run` of the test library, at the byte that `drand48` picked. -/
def errorFlipBits (pBuf : Bytes) (byteToFlip : Nat) : Bytes :=
  pBuf.set byteToFlip (byteAt pBuf byteToFlip ^^^ 0xFF)

/-- The words of a buffer determine it. -/
theorem eq_of_wordAt {mem mem' : Bytes} {k : Nat} (hlen : mem'.length = mem.length)
    (hsame : ∀ i, i / 2 ≠ k → mem'[i]? = mem[i]?) (hword : wordAt mem' k = wordAt mem k) :
    mem' = mem := by
  obtain ⟨hfirst, hsecond⟩ := Prod.mk.inj hword
  apply List.ext_getElem?
  intro i
  by_cases hk : i / 2 = k
  · have hi : mem'.getD i 0 = mem.getD i 0 := by
      rcases (by omega : i = 2 * k ∨ i = 2 * k + 1) with rfl | rfl
      · exact hfirst
      · exact hsecond
    rcases Nat.lt_or_ge i mem.length with hlt | hge
    · rw [List.getElem?_eq_getElem hlt, List.getElem?_eq_getElem (by omega)]
      simpa [List.getD_eq_getElem?_getD, hlt, hlen] using hi
    · rw [List.getElem?_eq_none (by omega), List.getElem?_eq_none hge]
  · exact hsame i hk

/-- An accepted buffer with one word altered is rejected, unless the word went from one zero to
the other. -/
theorem processPDU_of_wordAt_ne {o : ByteOrder} {mem mem' : Bytes} {k : Nat} {pdu : ReceivedPdu}
    (haccepted : processPDU o mem mem.length = some pdu) (hmax : mem.length ≤ 1407)
    (hlen : mem'.length = mem.length) (hne : mem' ≠ mem)
    (hsame : ∀ i, i / 2 ≠ k → mem'[i]? = mem[i]?)
    (hones : ¬ (wordAt mem k = (0, 0) ∧ wordAt mem' k = (255, 255)))
    (hzeros : ¬ (wordAt mem k = (255, 255) ∧ wordAt mem' k = (0, 0))) :
    processPDU o mem' mem'.length = none := by
  obtain ⟨-, hsum, -⟩ := processPDU_eq_some.mp haccepted
  by_contra hsome
  obtain ⟨pdu', haccepted'⟩ := Option.ne_none_iff_exists'.mp hsome
  obtain ⟨-, hsum', -⟩ := processPDU_eq_some.mp haccepted'
  rw [List.take_length] at hsum hsum'
  rcases OnesComplement.wordAt_eq_of_reduce hlen hsame (by omega) hsum hsum' with h | h | h
  · obtain ⟨hfirst, hsecond⟩ := ByteOrder.word16_inj h
    exact hne (eq_of_wordAt hlen hsame (Prod.ext hfirst hsecond))
  · obtain ⟨h0, h0'⟩ := ByteOrder.word16_eq_zero.mp h.1
    obtain ⟨h1, h1'⟩ := ByteOrder.word16_eq_ones.mp h.2
    exact hones ⟨Prod.ext h0 h0', Prod.ext h1 h1'⟩
  · obtain ⟨h1, h1'⟩ := ByteOrder.word16_eq_ones.mp h.1
    obtain ⟨h0, h0'⟩ := ByteOrder.word16_eq_zero.mp h.2
    exact hzeros ⟨Prod.ext h1 h1', Prod.ext h0 h0'⟩

/-- Altering one byte leaves the other byte of its word, so it cannot go from one zero to the
other. -/
theorem processPDU_set {o : ByteOrder} {mem : Bytes} {pdu : ReceivedPdu}
    (haccepted : processPDU o mem mem.length = some pdu) (hmax : mem.length ≤ 1407) {i : Nat}
    (hi : i < mem.length) {x : Byte} (hx : x ≠ byteAt mem i) :
    processPDU o (mem.set i x) mem.length = none := by
  have hother : ∀ j, j ≠ i → (mem.set i x)[j]? = mem[j]? := by
    intro j hj
    exact List.getElem?_set_ne (Ne.symm hj)
  have hbyte : ∀ j, j ≠ i → byteAt (mem.set i x) j = byteAt mem j := by
    intro j hj
    simp only [byteAt, List.getD_eq_getElem?_getD, hother j hj]
  have hself : byteAt (mem.set i x) i = x := by
    simp only [byteAt, List.getD_eq_getElem?_getD, List.getElem?_set_self hi, Option.getD_some]
  have hkept : ∃ j, j ≠ i ∧ (j = 2 * (i / 2) ∨ j = 2 * (i / 2) + 1) := by
    rcases Nat.mod_two_eq_zero_or_one i with h | h
    · exact ⟨2 * (i / 2) + 1, by omega, .inr rfl⟩
    · exact ⟨2 * (i / 2), by omega, .inl rfl⟩
  obtain ⟨j, hji, hj⟩ := hkept
  -- The byte that stays is `0` before and after, or `255` before and after.
  have hzero : ∀ u v : Byte, u ≠ v →
      ¬ (wordAt mem (i / 2) = (u, u) ∧ wordAt (mem.set i x) (i / 2) = (v, v)) := by
    rintro u v huv ⟨hu, hv⟩
    obtain ⟨hu1, hu2⟩ := Prod.mk.inj hu
    obtain ⟨hv1, hv2⟩ := Prod.mk.inj hv
    apply huv
    rcases hj with rfl | rfl
    · exact hu1.symm.trans ((hbyte _ hji).symm.trans hv1)
    · exact hu2.symm.trans ((hbyte _ hji).symm.trans hv2)
  have hnone : processPDU o (mem.set i x) (mem.set i x).length = none :=
    processPDU_of_wordAt_ne haccepted hmax List.length_set (fun h => hx (by rw [← hself, h]))
      (fun j hj => hother j (fun h => hj (by rw [h]))) (hzero 0 255 (by decide))
      (hzero 255 0 (by decide))
  rwa [List.length_set] at hnone

/-- **Corruption confined to one aligned word is always detected**, and so is every corruption of
a single byte. -/
theorem processPDU_corrupted (o o' : ByteOrder) {size : Nat} {s : UInt32} {flag : Byte}
    {payload pdu : Bytes} (hpayload : payload.length ≤ 1400)
    (hpdu : createPDU o size s flag payload payload.length = .ok pdu) :
    (∀ (mem : Bytes) (k : Nat), mem.length = pdu.length → mem ≠ pdu →
      (∀ i, i / 2 ≠ k → mem[i]? = pdu[i]?) →
      ¬ (wordAt pdu k = (0x00, 0x00) ∧ wordAt mem k = (0xFF, 0xFF)) →
      ¬ (wordAt pdu k = (0xFF, 0xFF) ∧ wordAt mem k = (0x00, 0x00)) →
      processPDU o' mem mem.length = none) ∧
    (∀ i x, i < pdu.length → x ≠ byteAt pdu i →
      processPDU o' (pdu.set i x) pdu.length = none) ∧
    (∀ i, i < pdu.length → processPDU o' (errorFlipBits pdu i) pdu.length = none) := by
  have henc : pdu = encodePDU o s flag payload := by
    unfold createPDU at hpdu
    split at hpdu
    · cases hpdu
    · split at hpdu
      · cases hpdu
      · rw [Int.toNat_natCast, List.take_length] at hpdu
        cases hpdu
        rfl
  have haccepted : processPDU o' pdu pdu.length = some ⟨s, flag, payload, payload.length⟩ := by
    rw [henc]
    exact (accepted_encodePDU o o' s flag (by omega)).process
  have hmax : pdu.length ≤ 1407 := by
    rw [henc, length_encodePDU, pduHeaderLen]
    omega
  refine ⟨?_, ?_, ?_⟩
  · intro mem k hlen hne hsame hones hzeros
    exact processPDU_of_wordAt_ne haccepted hmax hlen hne hsame hones hzeros
  · intro i x hi hx
    exact processPDU_set haccepted hmax hi hx
  · intro i hi
    refine processPDU_set haccepted hmax hi fun h => ?_
    have hflip : byteAt pdu i ^^^ 0xFF ^^^ byteAt pdu i = 0 := by rw [h, UInt8.xor_self]
    rw [UInt8.xor_comm (byteAt pdu i), UInt8.xor_assoc, UInt8.xor_self] at hflip
    revert hflip
    decide

/-- An RR with both bytes of its number altered, with its flag flipped, and with a byte of its
checksum flipped. -/
theorem processPDU_corrupted_rr :
    processPDU .big [0, 0, 0, 3, 249, 252, 5, 0, 1, 1, 1] 11 = none ∧
    processPDU .big (errorFlipBits [0, 0, 0, 3, 249, 252, 5, 0, 0, 0, 1] 6) 11 = none ∧
    processPDU .big (errorFlipBits [0, 0, 0, 3, 249, 252, 5, 0, 0, 0, 1] 4) 11 = none := by
  have hrr := @processPDU_corrupted .little .big 1407 3 rrFlag [0, 0, 0, 1]
    [0, 0, 0, 3, 249, 252, 5, 0, 0, 0, 1] (by decide) (by decide)
  refine ⟨hrr.1 _ 4 rfl (by decide) ?_ (by decide) (by decide), hrr.2.2 6 (by decide),
    hrr.2.2 4 (by decide)⟩
  intro i hi
  show ((([0, 0, 0, 3, 249, 252, 5, 0, 0, 0, 1] : Bytes).set 8 1).set 9 1)[i]? = _
  rw [List.getElem?_set_ne (by omega), List.getElem?_set_ne (by omega)]

end RemoteCopy

import Mathlib.Data.List.Basic
import Mathlib.Tactic.Ring

/-!
# Host byte order

How a machine lays 16- and 32-bit words out in memory, and the conversions to and from network
order. Everything here is about bytes alone: the two facts the codecs rest on are that a word read
back from its own bytes is the same word, and that a word converted to network order and then
stored has the *same* bytes on either kind of host (`bytes32_toNetwork`).
-/

/-- The byte order of a host. -/
inductive ByteOrder where
  | little
  | big
  deriving DecidableEq, Repr

namespace ByteOrder

/-- The 16-bit word whose bytes in memory are `a` and then `b`. -/
def word16 : ByteOrder → UInt8 → UInt8 → Nat
  | .little, a, b => a.toNat + 256 * b.toNat
  | .big,    a, b => 256 * a.toNat + b.toNat

/-- The two bytes in memory of a 16-bit word. -/
def bytes16 : ByteOrder → Nat → List UInt8
  | .little, x => [UInt8.ofNat x, UInt8.ofNat (x / 256)]
  | .big,    x => [UInt8.ofNat (x / 256), UInt8.ofNat x]

/-- The 32-bit word with bytes `a`, `b`, `c`, `d`, most significant first. -/
def pack (a b c d : UInt8) : UInt32 :=
  UInt32.ofNat (16777216 * a.toNat + 65536 * b.toNat + 256 * c.toNat + d.toNat)

/-- The four bytes in memory of a 32-bit word. -/
def bytes32 : ByteOrder → UInt32 → List UInt8
  | .little, x => [UInt8.ofNat x.toNat, UInt8.ofNat (x.toNat / 256),
      UInt8.ofNat (x.toNat / 65536), UInt8.ofNat (x.toNat / 16777216)]
  | .big,    x => [UInt8.ofNat (x.toNat / 16777216), UInt8.ofNat (x.toNat / 65536),
      UInt8.ofNat (x.toNat / 256), UInt8.ofNat x.toNat]

/-- The 32-bit word in the first four bytes of a region of memory. -/
def word32 : ByteOrder → List UInt8 → UInt32
  | .little, mem => pack (mem.getD 3 0) (mem.getD 2 0) (mem.getD 1 0) (mem.getD 0 0)
  | .big,    mem => pack (mem.getD 0 0) (mem.getD 1 0) (mem.getD 2 0) (mem.getD 3 0)

/-- `htonl` and `ntohl`: the identity on a big-endian host, a byte swap on a little-endian one. -/
def toNetwork : ByteOrder → UInt32 → UInt32
  | .little, x => word32 .big (bytes32 .little x)
  | .big,    x => x

/-! ## Sixteen bits -/

theorem word16_lt (o : ByteOrder) (a b : UInt8) : o.word16 a b < 65536 := by
  have ha := a.toNat_lt
  have hb := b.toNat_lt
  cases o <;> simp only [word16] <;> omega

@[simp] theorem length_bytes16 (o : ByteOrder) (x : Nat) : (o.bytes16 x).length = 2 := by
  cases o <;> rfl

/-- A stored word, read back. -/
theorem word16_bytes16 (o : ByteOrder) {x : Nat} (hx : x < 65536) :
    ∃ a b, o.bytes16 x = [a, b] ∧ o.word16 a b = x := by
  cases o with
  | little =>
      refine ⟨_, _, rfl, ?_⟩
      simp only [word16, UInt8.toNat_ofNat']
      omega
  | big =>
      refine ⟨_, _, rfl, ?_⟩
      simp only [word16, UInt8.toNat_ofNat']
      omega

/-- Storing is a bijection: the bytes are determined by the word they hold. -/
theorem bytes16_word16 (o : ByteOrder) (a b : UInt8) : o.bytes16 (o.word16 a b) = [a, b] := by
  have ha := a.toNat_lt
  have hb := b.toNat_lt
  cases o with
  | little =>
      have h1 : UInt8.ofNat (a.toNat + 256 * b.toNat) = a :=
        UInt8.toNat_inj.mp (by rw [UInt8.toNat_ofNat']; omega)
      have h2 : UInt8.ofNat ((a.toNat + 256 * b.toNat) / 256) = b :=
        UInt8.toNat_inj.mp (by rw [UInt8.toNat_ofNat']; omega)
      simp only [bytes16, word16, h1, h2]
  | big =>
      have h1 : UInt8.ofNat ((256 * a.toNat + b.toNat) / 256) = a :=
        UInt8.toNat_inj.mp (by rw [UInt8.toNat_ofNat']; omega)
      have h2 : UInt8.ofNat (256 * a.toNat + b.toNat) = b :=
        UInt8.toNat_inj.mp (by rw [UInt8.toNat_ofNat']; omega)
      simp only [bytes16, word16, h1, h2]

theorem word16_inj {o : ByteOrder} {a b a' b' : UInt8} (h : o.word16 a b = o.word16 a' b') :
    a = a' ∧ b = b' := by
  have hbytes : [a, b] = [a', b'] := by rw [← o.bytes16_word16, h, o.bytes16_word16]
  simpa using hbytes

/-- The two words that one's-complement arithmetic takes for zero are the same on every host. -/
theorem word16_eq_zero {o : ByteOrder} {a b : UInt8} : o.word16 a b = 0 ↔ a = 0 ∧ b = 0 := by
  have hzero : o.word16 0 0 = 0 := by cases o <;> rfl
  constructor
  · intro h
    exact word16_inj (h.trans hzero.symm)
  · rintro ⟨rfl, rfl⟩
    exact hzero

theorem word16_eq_ones {o : ByteOrder} {a b : UInt8} :
    o.word16 a b = 65535 ↔ a = 255 ∧ b = 255 := by
  have hones : o.word16 255 255 = 65535 := by cases o <;> rfl
  constructor
  · intro h
    exact word16_inj (h.trans hones.symm)
  · rintro ⟨rfl, rfl⟩
    exact hones

/-- The two layouts of a word and of its byte swap agree. -/
theorem bytes16_swap {u t : Nat} (hu : u < 256) (ht : t < 256) :
    bytes16 .little (256 * u + t) = bytes16 .big (256 * t + u) := by
  have h1 : (256 * u + t) / 256 = u := by omega
  have h2 : (256 * t + u) / 256 = t := by omega
  have h3 : UInt8.ofNat (256 * u + t) = UInt8.ofNat t :=
    UInt8.toNat_inj.mp (by simp only [UInt8.toNat_ofNat']; omega)
  have h4 : UInt8.ofNat (256 * t + u) = UInt8.ofNat u :=
    UInt8.toNat_inj.mp (by simp only [UInt8.toNat_ofNat']; omega)
  simp only [bytes16, h1, h2, h3, h4]

/-! ## Thirty-two bits

Every word is a `pack` of four bytes, and both layouts are read off that form. -/

theorem toNat_pack (a b c d : UInt8) : (pack a b c d).toNat
    = 16777216 * a.toNat + 65536 * b.toNat + 256 * c.toNat + d.toNat := by
  have ha := a.toNat_lt
  have hb := b.toNat_lt
  have hc := c.toNat_lt
  have hd := d.toNat_lt
  rw [pack, UInt32.toNat_ofNat']
  omega

theorem bytes32_big_pack (a b c d : UInt8) : bytes32 .big (pack a b c d) = [a, b, c, d] := by
  have ha := a.toNat_lt
  have hb := b.toNat_lt
  have hc := c.toNat_lt
  have hd := d.toNat_lt
  simp only [bytes32, toNat_pack, List.cons.injEq, and_true]
  refine ⟨?_, ?_, ?_, ?_⟩ <;> apply UInt8.toNat_inj.mp <;> rw [UInt8.toNat_ofNat'] <;> omega

theorem bytes32_little (x : UInt32) : bytes32 .little x = (bytes32 .big x).reverse := rfl

theorem bytes32_little_pack (a b c d : UInt8) :
    bytes32 .little (pack a b c d) = [d, c, b, a] := by
  rw [bytes32_little, bytes32_big_pack]
  rfl

theorem eq_pack (x : UInt32) : ∃ a b c d, x = pack a b c d := by
  have hx := x.toNat_lt
  refine ⟨UInt8.ofNat (x.toNat / 16777216), UInt8.ofNat (x.toNat / 65536),
    UInt8.ofNat (x.toNat / 256), UInt8.ofNat x.toNat, UInt32.toNat_inj.mp ?_⟩
  simp only [toNat_pack, UInt8.toNat_ofNat']
  omega

@[simp] theorem length_bytes32 (o : ByteOrder) (x : UInt32) : (o.bytes32 x).length = 4 := by
  cases o <;> rfl

/-- A stored word, read back, whatever follows it in memory. -/
@[simp] theorem word32_bytes32 (o : ByteOrder) (x : UInt32) (rest : List UInt8) :
    o.word32 (o.bytes32 x ++ rest) = x := by
  obtain ⟨a, b, c, d, rfl⟩ := eq_pack x
  cases o with
  | little =>
      rw [bytes32_little_pack]
      rfl
  | big =>
      rw [bytes32_big_pack]
      rfl

/-- **Network order is host-independent**: converted and stored, a word has its big-endian bytes. -/
theorem bytes32_toNetwork (o : ByteOrder) (x : UInt32) :
    o.bytes32 (o.toNetwork x) = bytes32 .big x := by
  cases o with
  | big => rfl
  | little =>
      obtain ⟨a, b, c, d, rfl⟩ := eq_pack x
      simp only [toNetwork, bytes32_little_pack, word32, List.getD_cons_zero,
        List.getD_cons_succ, bytes32_big_pack]

/-- Reading in host order and converting is the same as reading in network order. -/
theorem toNetwork_word32 (o : ByteOrder) (mem : List UInt8) :
    o.toNetwork (o.word32 mem) = word32 .big mem := by
  cases o with
  | big => rfl
  | little =>
      simp only [toNetwork, word32, bytes32_little_pack, List.getD_cons_zero,
        List.getD_cons_succ]

end ByteOrder

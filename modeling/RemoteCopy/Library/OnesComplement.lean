import RemoteCopy.Library.ByteOrder
import Mathlib.Data.Nat.ModEq

/-!
# One's-complement sums

The arithmetic of the Internet checksum: bytes are added up as 16-bit words and the carries are
folded back in. Two folds of a 32-bit accumulator give the **canonical residue** modulo `65535`:
congruent to the sum, at most `65535`, and zero only for the zero sum (so `65535` is the other
zero). Everything else follows from that one characterisation (`reduce_eq_of_modEq`): a sum
completed with its own complement reduces to `65535`, and the checksum's bytes in memory do not
depend on the byte order of the host that computed it.
-/

namespace OnesComplement

/-- Add the carries out of the low 16 bits back in, once. -/
def carry (s : Nat) : Nat := s / 65536 + s % 65536

/-- Two folds, truncated to 16 bits. -/
def reduce (s : Nat) : Nat := (carry s + carry s / 65536) % 65536

/-- The sum of a region of memory read as 16-bit words; an odd last byte is the first byte of a
word whose second byte is zero. -/
def wordSum (o : ByteOrder) : List UInt8 → Nat
  | a :: b :: rest => o.word16 a b + wordSum o rest
  | [a]            => o.word16 a 0
  | []             => 0

/-- The complement of the folded sum. -/
def checksum (o : ByteOrder) (mem : List UInt8) : Nat := 65535 - reduce (wordSum o mem)

/-! ## The canonical residue -/

theorem reduce_le (s : Nat) : reduce s ≤ 65535 := by
  unfold reduce
  omega

theorem carry_modEq (s : Nat) : carry s % 65535 = s % 65535 := by
  unfold carry
  omega

/-- The second fold only ever has one carry to add back. -/
theorem reduce_eq {s : Nat} (hs : s < 4294967296) :
    reduce s = if carry s < 65536 then carry s else carry s - 65535 := by
  have hc : carry s ≤ 131070 := by
    unfold carry
    omega
  unfold reduce
  split
  · next h => rw [Nat.div_eq_of_lt h, Nat.add_zero, Nat.mod_eq_of_lt h]
  · next h =>
      have hd : carry s / 65536 = 1 := by omega
      rw [hd]
      omega

theorem reduce_modEq {s : Nat} (hs : s < 4294967296) : reduce s ≡ s [MOD 65535] := by
  have hc := carry_modEq s
  show reduce s % 65535 = s % 65535
  rw [reduce_eq hs]
  split <;> omega

theorem reduce_eq_zero {s : Nat} (hs : s < 4294967296) : reduce s = 0 ↔ s = 0 := by
  have hz : carry s = 0 ↔ s = 0 := by
    unfold carry
    omega
  rw [reduce_eq hs]
  split <;> omega

/-- The residue is the only number up to `65535` with its class and its zeroness. -/
theorem reduce_eq_of_modEq {s x : Nat} (hs : s < 4294967296) (hx : x ≤ 65535)
    (hmod : x ≡ s [MOD 65535]) (hzero : x = 0 ↔ s = 0) : reduce s = x := by
  have hle := reduce_le s
  have hr : reduce s % 65535 = x % 65535 := (reduce_modEq hs).trans hmod.symm
  have hz : reduce s = 0 ↔ x = 0 := (reduce_eq_zero hs).trans hzero.symm
  omega

/-- The sums that reduce to all ones: the multiples of `65535`, but not the zero sum. -/
theorem reduce_eq_ones {s : Nat} (hs : s < 4294967296) :
    reduce s = 65535 ↔ s ≠ 0 ∧ s % 65535 = 0 := by
  have hle := reduce_le s
  have hmod : reduce s % 65535 = s % 65535 := reduce_modEq hs
  have hz := reduce_eq_zero hs
  omega

/-- The words that complete a sum are its complement and, where the complement is the one zero,
the other zero. -/
theorem reduce_add_eq_ones {s w : Nat} (hs : s < 4294901760) (hw : w ≤ 65535) :
    reduce (s + w) = 65535 ↔
      w = 65535 - reduce s ∨ (65535 - reduce s = 0 ∧ w = 65535) := by
  have hle := reduce_le s
  have hmod : reduce s % 65535 = s % 65535 := reduce_modEq (by omega)
  have hz : reduce s = 0 ↔ s = 0 := reduce_eq_zero (by omega)
  rw [reduce_eq_ones (by omega)]
  omega

/-- **A sum completed with its own checksum reduces to all ones.** -/
theorem reduce_add_complement {s : Nat} (hs : s < 4294901760) :
    reduce (s + (65535 - reduce s)) = 65535 := by
  have hle := reduce_le s
  exact (reduce_add_eq_ones hs (by omega)).mpr (.inl rfl)

/-! ## Sums of words -/

theorem wordSum_le (o : ByteOrder) : ∀ mem : List UInt8,
    wordSum o mem ≤ 65535 * (mem.length + 1)
  | a :: b :: rest => by
      have hw := o.word16_lt a b
      have ih := wordSum_le o rest
      simp only [wordSum, List.length_cons]
      omega
  | [a] => by
      have hw := o.word16_lt a 0
      simp only [wordSum, List.length_cons, List.length_nil]
      omega
  | [] => by simp [wordSum]

theorem wordSum_replicate_zero (o : ByteOrder) : ∀ n, wordSum o (List.replicate n 0) = 0
  | 0     => rfl
  | 1     => by cases o <;> rfl
  | n + 2 => by
      have ih := wordSum_replicate_zero o n
      have hzero : o.word16 0 0 = 0 := by cases o <;> rfl
      rw [List.replicate_succ, List.replicate_succ, wordSum, hzero, ih]

/-- The two byte orders weigh every word differently by a factor of `256`, modulo `65535`. -/
theorem wordSum_big_modEq : ∀ mem : List UInt8,
    wordSum .big mem ≡ 256 * wordSum .little mem [MOD 65535]
  | a :: b :: rest => by
      have ih : wordSum .big rest % 65535 = 256 * wordSum .little rest % 65535 :=
        wordSum_big_modEq rest
      show (_ + _) % 65535 = 256 * (_ + _) % 65535
      simp only [ByteOrder.word16]
      omega
  | [a] => by
      show (256 * a.toNat + 0) % 65535 = 256 * (a.toNat + 256 * 0) % 65535
      omega
  | [] => rfl

theorem wordSum_big_eq_zero : ∀ mem : List UInt8,
    wordSum .big mem = 0 ↔ wordSum .little mem = 0
  | a :: b :: rest => by
      have ih := wordSum_big_eq_zero rest
      simp only [wordSum, ByteOrder.word16]
      omega
  | [a] => by
      simp only [wordSum, ByteOrder.word16]
      omega
  | [] => by simp [wordSum]

/-! ## One altered word -/

/-- The two bytes of the `k`-th word; behind the end of the region there are zeros. -/
def wordAt (mem : List UInt8) (k : Nat) : UInt8 × UInt8 :=
  (mem.getD (2 * k) 0, mem.getD (2 * k + 1) 0)

theorem wordAt_succ (a b : UInt8) (rest : List UInt8) (k : Nat) :
    wordAt (a :: b :: rest) (k + 1) = wordAt rest k := by
  have h1 : 2 * (k + 1) = 2 * k + 1 + 1 := by omega
  simp only [wordAt, h1, List.getD_cons_succ]

/-- The value of a word in the sum. -/
def wordValue (o : ByteOrder) (w : UInt8 × UInt8) : Nat := o.word16 w.1 w.2

/-- Two regions that differ inside one word at most have sums that differ by that word. -/
theorem wordSum_altered (o : ByteOrder) : ∀ (mem mem' : List UInt8) (k : Nat),
    mem'.length = mem.length → (∀ i, i / 2 ≠ k → mem'[i]? = mem[i]?) →
    wordSum o mem' + wordValue o (wordAt mem k) = wordSum o mem + wordValue o (wordAt mem' k)
  | a :: b :: rest, a' :: b' :: rest', 0, _, hsame => by
      have hrest : rest' = rest := List.ext_getElem? fun i => hsame (i + 2) (by omega)
      subst hrest
      simp only [wordSum, wordValue, wordAt, List.getD_cons_zero, List.getD_cons_succ,
        Nat.mul_zero]
      omega
  | a :: b :: rest, a' :: b' :: rest', k + 1, hlen, hsame => by
      have ha : a' = a := Option.some.inj (hsame 0 (by omega))
      have hb : b' = b := Option.some.inj (hsame 1 (by omega))
      have ih := wordSum_altered o rest rest' k (by simpa using hlen) fun i hi =>
        hsame (i + 2) (by omega)
      rw [wordAt_succ, wordAt_succ]
      simp only [wordSum, ha, hb]
      omega
  | [a], [a'], 0, _, _ => by
      simp only [wordSum, wordValue, wordAt, List.getD_cons_zero, List.getD_cons_succ,
        List.getD_nil, Nat.mul_zero]
      omega
  | [a], [a'], k + 1, _, hsame => by
      have ha : a' = a := Option.some.inj (hsame 0 (by omega))
      rw [ha]
  | [], [], _, _, _ => rfl

/-- **One altered word always shows in the residue**, unless it went from one zero to the
other. -/
theorem wordAt_eq_of_reduce {o : ByteOrder} {mem mem' : List UInt8} {k : Nat}
    (hlen : mem'.length = mem.length) (hsame : ∀ i, i / 2 ≠ k → mem'[i]? = mem[i]?)
    (hmax : mem.length < 65535) (h : reduce (wordSum o mem) = 65535)
    (h' : reduce (wordSum o mem') = 65535) :
    wordValue o (wordAt mem' k) = wordValue o (wordAt mem k) ∨
      (wordValue o (wordAt mem k) = 0 ∧ wordValue o (wordAt mem' k) = 65535) ∨
      (wordValue o (wordAt mem k) = 65535 ∧ wordValue o (wordAt mem' k) = 0) := by
  have hdiff := wordSum_altered o mem mem' k hlen hsame
  have hle := wordSum_le o mem
  have hle' := wordSum_le o mem'
  have h1 := (reduce_eq_ones (by omega)).mp h
  have h2 := (reduce_eq_ones (by omega)).mp h'
  have hw : wordValue o (wordAt mem k) < 65536 := o.word16_lt _ _
  have hw' : wordValue o (wordAt mem' k) < 65536 := o.word16_lt _ _
  omega

/-! ## The checksum in memory -/

theorem checksum_lt (o : ByteOrder) (mem : List UInt8) : checksum o mem < 65536 := by
  unfold checksum
  omega

/-- Swapping the bytes of the little-endian residue gives the big-endian one. -/
theorem reduce_big {mem : List UInt8} (hlen : mem.length < 65536) :
    reduce (wordSum .big mem)
      = 256 * (reduce (wordSum .little mem) % 256) + reduce (wordSum .little mem) / 256 := by
  have hb := wordSum_le .big mem
  have hl := wordSum_le .little mem
  have hle := reduce_le (wordSum .little mem)
  have hmod : reduce (wordSum .little mem) % 65535 = wordSum .little mem % 65535 :=
    reduce_modEq (by omega)
  have hz := reduce_eq_zero (s := wordSum .little mem) (by omega)
  have hswap : wordSum .big mem % 65535 = 256 * wordSum .little mem % 65535 :=
    wordSum_big_modEq mem
  have hzero := wordSum_big_eq_zero mem
  refine reduce_eq_of_modEq (by omega) (by omega) ?_ (by omega)
  show _ % 65535 = _ % 65535
  omega

/-- **The checksum's bytes are the same on hosts of either byte order.** -/
theorem bytes16_checksum (o : ByteOrder) {mem : List UInt8} (hlen : mem.length < 65536) :
    o.bytes16 (checksum o mem) = ByteOrder.bytes16 .big (checksum .big mem) := by
  cases o with
  | big => rfl
  | little =>
      have hswap := reduce_big hlen
      have hle := reduce_le (wordSum .little mem)
      simp only [checksum, hswap]
      generalize reduce (wordSum .little mem) = r at hle
      -- Complementing all 16 bits complements each byte, so it commutes with the swap.
      have hlow : 65535 - r = 256 * (255 - r / 256) + (255 - r % 256) := by omega
      have hbig : 65535 - (256 * (r % 256) + r / 256)
          = 256 * (255 - r % 256) + (255 - r / 256) := by omega
      rw [hlow, hbig]
      exact ByteOrder.bytes16_swap (by omega) (by omega)

end OnesComplement

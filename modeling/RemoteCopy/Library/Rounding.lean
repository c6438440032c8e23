import Mathlib.Algebra.Order.Group.Nat
import Mathlib.Tactic.Ring

/-!
# Rounding to significant bits

The result of a floating-point operation is the exact one, rounded to the nearest number with `p`
significant bits, ties to even. Here for natural numbers: a value with `w` bits behind the point is
one in units of `2 ^ -w`, and rounding does not depend on the unit. What rounding adds is less than
one part in `2 ^ p`, so a fraction below one, scaled by `n`, is still below `n` after it.
-/

namespace Rounding

/-- The numbers with `p` significant bits around `n` lie this far apart. -/
def spacing (p n : Nat) : Nat := 2 ^ (n.log2 + 1 - p)

/-- `n`, to the nearest with `p` significant bits, ties to even. -/
def roundSig (p n : Nat) : Nat :=
  let q := n / spacing p n
  let r := n % spacing p n
  if spacing p n < 2 * r ∨ (2 * r = spacing p n ∧ q % 2 = 1) then (q + 1) * spacing p n
  else q * spacing p n

variable {p n : Nat}

theorem spacing_of_lt (hp : 0 < p) (h : n < 2 ^ p) : spacing p n = 1 := by
  have hlog : n.log2 + 1 - p = 0 := by
    rcases Nat.eq_zero_or_pos n with rfl | hpos
    · rw [Nat.log2_zero]
      omega
    · have := (Nat.log2_lt (by omega)).mpr h
      omega
  rw [spacing, hlog, Nat.pow_zero]

/-- Where the numbers do not lie close, there is little between them in proportion. -/
theorem spacing_mul_le (h : 2 ^ p ≤ n) : spacing p n * 2 ^ p ≤ 2 * n := by
  have hn : n ≠ 0 := by
    have := Nat.two_pow_pos p
    omega
  have hlog : p ≤ n.log2 := (Nat.le_log2 hn).mpr h
  have hle : 2 ^ n.log2 ≤ n := Nat.log2_self_le hn
  calc spacing p n * 2 ^ p = 2 ^ (n.log2 + 1 - p + p) := (Nat.pow_add 2 _ _).symm
    _ = 2 * 2 ^ n.log2 := by
        rw [Nat.sub_add_cancel (by omega), Nat.pow_succ, Nat.mul_comm]
    _ ≤ 2 * n := Nat.mul_le_mul_left 2 hle

/-- A number with few enough bits stays as it is. -/
theorem roundSig_of_lt (hp : 0 < p) (h : n < 2 ^ p) : roundSig p n = n := by
  simp only [roundSig, spacing_of_lt hp h, Nat.div_one, Nat.mod_one, Nat.mul_one]
  rw [if_neg (by omega)]

/-- What is rounded up was at least halfway. -/
theorem two_mul_roundSig_le : 2 * roundSig p n ≤ 2 * n + spacing p n := by
  have hsplit := Nat.div_add_mod n (spacing p n)
  simp only [roundSig]
  split
  · next hup =>
      rw [Nat.add_mul, Nat.one_mul, Nat.mul_comm (n / spacing p n)]
      omega
  · rw [Nat.mul_comm (n / spacing p n)]
    omega

/-- What is rounded down was at most halfway. -/
theorem le_two_mul_roundSig : 2 * n ≤ 2 * roundSig p n + spacing p n := by
  have hsplit := Nat.div_add_mod n (spacing p n)
  have hlt : n % spacing p n < spacing p n := Nat.mod_lt _ (Nat.two_pow_pos _)
  simp only [roundSig]
  split
  · rw [Nat.add_mul, Nat.one_mul, Nat.mul_comm (n / spacing p n)]
    omega
  · next hdown =>
      rw [Nat.mul_comm (n / spacing p n)]
      omega

/-- **Rounding adds at most one part in `2 ^ p`.** -/
theorem roundSig_mul_le (hp : 0 < p) : roundSig p n * 2 ^ p ≤ n * 2 ^ p + n := by
  rcases Nat.lt_or_ge n (2 ^ p) with h | h
  · rw [roundSig_of_lt hp h]
    exact Nat.le_add_right _ _
  · have hround : 2 * (roundSig p n * 2 ^ p) ≤ 2 * (n * 2 ^ p) + spacing p n * 2 ^ p := by
      calc 2 * (roundSig p n * 2 ^ p) = 2 * roundSig p n * 2 ^ p := (Nat.mul_assoc ..).symm
        _ ≤ (2 * n + spacing p n) * 2 ^ p := Nat.mul_le_mul_right _ two_mul_roundSig_le
        _ = 2 * (n * 2 ^ p) + spacing p n * 2 ^ p := by ring
    have hspacing := spacing_mul_le h
    omega

/-- Nothing but zero is rounded to zero. -/
theorem roundSig_eq_zero_iff (hp : 0 < p) : roundSig p n = 0 ↔ n = 0 := by
  constructor
  · intro hzero
    rcases Nat.lt_or_ge n (2 ^ p) with h | h
    · rwa [roundSig_of_lt hp h] at hzero
    · have hdown : 2 * n ≤ 2 * roundSig p n + spacing p n := le_two_mul_roundSig
      have hspacing := spacing_mul_le h
      have htwo : 2 ≤ 2 ^ p := Nat.pow_le_pow_right Nat.two_pos hp
      have hdouble : spacing p n * 2 ≤ spacing p n * 2 ^ p := Nat.mul_le_mul_left _ htwo
      have hpos := Nat.two_pow_pos p
      rw [hzero] at hdown
      have hle : spacing p n ≤ n := by omega
      omega
  · rintro rfl
    exact roundSig_of_lt hp (Nat.two_pow_pos p)

/-- **A fraction below one, scaled by `n`, is below `n` after rounding**, if the fraction has no
more bits than are kept. -/
theorem roundSig_mul_div_lt {w x : Nat} (hp : 0 < p) (hx : x < 2 ^ w) (hw : w ≤ p)
    (hn : 0 < n) : roundSig p (n * x) / 2 ^ w < n := by
  rw [Nat.div_lt_iff_lt_mul (Nat.two_pow_pos w)]
  have hround : roundSig p (n * x) * 2 ^ p ≤ n * x * 2 ^ p + n * x := roundSig_mul_le hp
  have hwp : 2 ^ w ≤ 2 ^ p := Nat.pow_le_pow_right Nat.two_pos hw
  have hlast : n * x < n * 2 ^ p := Nat.mul_lt_mul_of_pos_left (Nat.lt_of_lt_of_le hx hwp) hn
  have hbelow : n * x + n ≤ n * 2 ^ w := by
    calc n * x + n = n * (x + 1) := by ring
      _ ≤ n * 2 ^ w := Nat.mul_le_mul_left n hx
  have hlt : roundSig p (n * x) * 2 ^ p < n * 2 ^ w * 2 ^ p := by
    calc roundSig p (n * x) * 2 ^ p ≤ n * x * 2 ^ p + n * x := hround
      _ < n * x * 2 ^ p + n * 2 ^ p := Nat.add_lt_add_left hlast _
      _ = (n * x + n) * 2 ^ p := by ring
      _ ≤ n * 2 ^ w * 2 ^ p := Nat.mul_le_mul_right _ hbelow
  exact Nat.lt_of_mul_lt_mul_right hlt

end Rounding

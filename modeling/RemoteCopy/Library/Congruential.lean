import Mathlib.Data.BitVec
import Mathlib.Dynamics.PeriodicPts.Lemmas
import Mathlib.Tactic.Ring

/-!
# Linear congruential generators

The words of `w` bits under `x ↦ a * x + c`. Many steps at once are such a map again (`jump`), and
if `a % 4 = 1` and `c` is odd, every word comes up exactly once in `2 ^ w` steps
(`minimalPeriod_affine`). The lower bits of the words are such a generator by themselves
(`setWidth_iterate_affine`).
-/

namespace Congruential

variable {w : Nat}

/-- One step. -/
def affine (a c x : BitVec w) : BitVec w := a * x + c

variable (a c x : BitVec w)

/-- Two steps are one with other constants. -/
theorem iterate_affine_two_mul (n : Nat) :
    (affine a c)^[2 * n] x = (affine (a * a) (a * c + c))^[n] x := by
  rw [Function.iterate_mul]
  congr 1
  funext y
  simp only [Function.iterate_succ, Function.iterate_zero, Function.comp, id, affine]
  ring

/-- `n` steps at once, for `n` of at most `fuel` bits. -/
def jump (a c x : BitVec w) (n : Nat) : Nat → BitVec w
  | 0 => x
  | fuel + 1 => jump (a * a) (a * c + c) (if n % 2 = 1 then affine a c x else x) (n / 2) fuel

theorem jump_eq (n fuel : Nat) (h : n < 2 ^ fuel) : jump a c x n fuel = (affine a c)^[n] x := by
  induction fuel generalizing a c x n with
  | zero =>
      obtain rfl : n = 0 := Nat.lt_one_iff.mp h
      rfl
  | succ fuel ih =>
      have hhalf : n / 2 < 2 ^ fuel := by
        rw [Nat.pow_succ] at h
        omega
      rw [jump, ih _ _ _ _ hhalf, ← iterate_affine_two_mul]
      rcases Nat.mod_two_eq_zero_or_one n with heven | hodd
      · rw [if_neg (by omega)]
        congr 1
        omega
      · rw [if_pos hodd, ← Function.iterate_succ_apply]
        congr 1
        omega

/-! ## The period -/

variable {a c}

/-- In `2 ^ k` steps the words move by an odd multiple of `2 ^ k`, but for the bits far above. -/
theorem iterate_affine_two_pow {t s : BitVec w} (ha : a = 1 + 4 * t) (hc : c = 1 + 2 * s)
    (k : Nat) : ∃ t s : BitVec w, ∀ x, (affine a c)^[2 ^ k] x
      = x + 2 ^ k * (1 + 2 * s) + 2 ^ (k + 2) * t * x := by
  induction k with
  | zero =>
      refine ⟨t, s, fun x => ?_⟩
      rw [pow_zero, Function.iterate_one, affine, ha, hc]
      ring
  | succ k ih =>
      obtain ⟨t, s, h⟩ := ih
      refine ⟨t + 2 ^ (k + 1) * t * t, s + 2 ^ k * t * (1 + 2 * s), fun x => ?_⟩
      rw [pow_succ, Nat.mul_two, Function.iterate_add_apply, h, h]
      ring

theorem toNat_two_pow (k : Nat) : ((2 : BitVec w) ^ k).toNat = 2 ^ k % 2 ^ w := by
  have hcast : (2 : BitVec w) ^ k = BitVec.ofNat w (2 ^ k) := by
    rw [← BitVec.natCast_eq_ofNat, Nat.cast_pow]
    rfl
  rw [hcast, BitVec.toNat_ofNat]

theorem two_pow_eq_zero {k : Nat} (h : w ≤ k) : (2 : BitVec w) ^ k = 0 := by
  apply BitVec.eq_of_toNat_eq
  rw [toNat_two_pow, Nat.mod_eq_zero_of_dvd (Nat.pow_dvd_pow 2 h)]
  rfl

theorem two_pow_ne_zero {k : Nat} (h : k < w) : (2 : BitVec w) ^ k ≠ 0 := by
  intro hzero
  have hnat := congrArg BitVec.toNat hzero
  rw [toNat_two_pow, Nat.mod_eq_of_lt (Nat.pow_lt_pow_right Nat.one_lt_two h)] at hnat
  exact absurd hnat (Nat.two_pow_pos k).ne'

/-- **Every word comes up once in `2 ^ w` steps**, from whatever word they start. -/
theorem minimalPeriod_affine {a c t s : BitVec (w + 1)} (ha : a = 1 + 4 * t) (hc : c = 1 + 2 * s)
    (x : BitVec (w + 1)) : Function.minimalPeriod (affine a c) x = 2 ^ (w + 1) := by
  have : Fact (Nat.Prime 2) := ⟨Nat.prime_two⟩
  apply Function.minimalPeriod_eq_prime_pow
  · -- Halfway round, the highest bit is the other.
    obtain ⟨t, s, h⟩ := iterate_affine_two_pow ha hc w
    intro hperiod
    have hhalf := (h x).symm.trans hperiod
    have hpow : (2 : BitVec (w + 1)) ^ w * (1 + 2 * s) = 2 ^ w := by
      calc (2 : BitVec (w + 1)) ^ w * (1 + 2 * s) = 2 ^ w + 2 ^ (w + 1) * s := by ring
        _ = 2 ^ w := by rw [two_pow_eq_zero (Nat.le_refl _), zero_mul, add_zero]
    rw [hpow, two_pow_eq_zero (Nat.le_succ _), zero_mul, zero_mul, add_zero,
      add_eq_left] at hhalf
    exact two_pow_ne_zero (Nat.lt_succ_self w) hhalf
  · obtain ⟨t, s, h⟩ := iterate_affine_two_pow ha hc (w + 1)
    have hround := h x
    rw [two_pow_eq_zero (Nat.le_refl _), two_pow_eq_zero (by omega), zero_mul, zero_mul, zero_mul,
      add_zero, add_zero] at hround
    exact hround

/-- Within a period no word comes up twice. -/
theorem iterate_affine_inj {a c t s : BitVec (w + 1)} (ha : a = 1 + 4 * t) (hc : c = 1 + 2 * s)
    {x : BitVec (w + 1)} {i j : Nat} (hi : i < 2 ^ (w + 1)) (hj : j < 2 ^ (w + 1)) :
    (affine a c)^[i] x = (affine a c)^[j] x ↔ i = j := by
  rw [← minimalPeriod_affine ha hc x] at hi hj
  exact Function.iterate_eq_iterate_iff_of_lt_minimalPeriod hi hj

/-! ## The lower bits -/

/-- **The lower bits do not depend on the others.** -/
theorem setWidth_iterate_affine {v : Nat} (h : v ≤ w) (a c x : BitVec w) (n : Nat) :
    ((affine a c)^[n] x).setWidth v
      = (affine (a.setWidth v) (c.setWidth v))^[n] (x.setWidth v) := by
  induction n generalizing x with
  | zero => rfl
  | succ n ih =>
      rw [Function.iterate_succ_apply, Function.iterate_succ_apply, ih, affine,
        BitVec.setWidth_add _ _ h, BitVec.setWidth_mul _ _ h]
      rfl

end Congruential

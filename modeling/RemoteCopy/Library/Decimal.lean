import Mathlib.Data.List.Basic

/-!
# Decimal numbers in strings

`strtol` in base ten and `strtok`, on strings of ASCII bytes, and the strings that they undo: the
decimal numeral of a `long` (`strtol_decimal`), and tokens with one delimiter between them
(`strtok_intercalate`).
-/

namespace Decimal

/-- The value of a digit. -/
def digit? (b : UInt8) : Option Nat :=
  if 48 ≤ b.toNat ∧ b.toNat ≤ 57 then some (b.toNat - 48) else none

/-- The value of the digits at the head, behind those of `n`. -/
def readDigits (n : Nat) : List UInt8 → Nat
  | [] => n
  | b :: bs =>
      match digit? b with
      | some d => readDigits (10 * n + d) bs
      | none => n

/-- A `long` of 64 bits, or the nearest to it. -/
def clamp (x : Int) : Int := max (-9223372036854775808) (min x 9223372036854775807)

/-- The digits of a number, if there are any. -/
def readNat : List UInt8 → Option Nat
  | [] => none
  | b :: bs => if (digit? b).isSome then some (readDigits 0 (b :: bs)) else none

/-- Whatever `isspace` says is blank. -/
def isSpace (b : UInt8) : Bool := b = 32 || (9 ≤ b && b ≤ 13)

/-- `strtol`, in base ten: `none` where it converts nothing. What stands behind the number is not
looked at. -/
def strtol (s : List UInt8) : Option Int :=
  match s.dropWhile isSpace with
  | 45 :: bs => (readNat bs).map fun n : Nat => clamp (-n)
  | 43 :: bs => (readNat bs).map fun n : Nat => clamp n
  | bs => (readNat bs).map fun n : Nat => clamp n

/-- The tokens between delimiters, of which several stand for one; `token` has been read. -/
def strtok (delim : UInt8) (token : List UInt8) : List UInt8 → List (List UInt8)
  | [] => if token = [] then [] else [token]
  | b :: bs =>
      if b = delim then
        if token = [] then strtok delim [] bs else token :: strtok delim [] bs
      else
        strtok delim (token ++ [b]) bs

/-! ## Writing -/

/-- The digit of a value below ten. -/
def digit (d : Nat) : UInt8 := UInt8.ofNat (48 + d)

/-- The digits of a number. -/
def digits (n : Nat) : List UInt8 :=
  if n < 10 then [digit n] else digits (n / 10) ++ [digit (n % 10)]
termination_by n

/-- The numeral of an integer. -/
def decimal (x : Int) : List UInt8 :=
  if x < 0 then 45 :: digits x.natAbs else digits x.natAbs

/-! ## Reading what was written -/

theorem digit?_digit {d : Nat} (h : d < 10) : digit? (digit d) = some d := by
  have hnat : (digit d).toNat = 48 + d := by
    rw [digit, UInt8.toNat_ofNat']
    omega
  rw [digit?, hnat, if_pos (by omega)]
  exact congrArg some (Nat.add_sub_cancel_left 48 d)

theorem mem_digits {n : Nat} {b : UInt8} (h : b ∈ digits n) : ∃ d < 10, b = digit d := by
  induction n using digits.induct with
  | case1 n hlt =>
      rw [digits, if_pos hlt, List.mem_singleton] at h
      exact ⟨n, hlt, h⟩
  | case2 n hge ih =>
      rw [digits, if_neg hge, List.mem_append, List.mem_singleton] at h
      rcases h with h | h
      · exact ih h
      · exact ⟨n % 10, Nat.mod_lt _ (by omega), h⟩

theorem digits_ne_nil (n : Nat) : digits n ≠ [] := by
  rw [digits]
  split
  · exact List.cons_ne_nil _ _
  · exact List.append_ne_nil_of_right_ne_nil _ (List.cons_ne_nil _ _)

/-- One more digit. -/
theorem readDigits_append {bs : List UInt8} (hbs : ∀ b ∈ bs, ∃ d < 10, b = digit d) {d : Nat}
    (hd : d < 10) (n : Nat) : readDigits n (bs ++ [digit d]) = 10 * readDigits n bs + d := by
  induction bs generalizing n with
  | nil =>
      show (match digit? (digit d) with | some d => readDigits (10 * n + d) [] | none => n) = _
      rw [digit?_digit hd]
      rfl
  | cons b bs ih =>
      obtain ⟨d', hd', rfl⟩ := hbs b List.mem_cons_self
      rw [List.cons_append]
      simp only [readDigits, digit?_digit hd']
      exact ih (fun b hb => hbs b (List.mem_cons_of_mem _ hb)) _

theorem readDigits_digits (n : Nat) : readDigits 0 (digits n) = n := by
  induction n using digits.induct with
  | case1 n hlt =>
      rw [digits, if_pos hlt]
      simp only [readDigits, digit?_digit hlt]
      omega
  | case2 n hge ih =>
      rw [digits, if_neg hge, readDigits_append (fun b hb => mem_digits hb)
        (Nat.mod_lt _ (by omega)), ih]
      omega

theorem readNat_digits (n : Nat) : readNat (digits n) = some n := by
  cases hdigits : digits n with
  | nil => exact absurd hdigits (digits_ne_nil n)
  | cons b bs =>
      obtain ⟨d, hd, hb⟩ := mem_digits (n := n) (b := b) (by rw [hdigits]; exact List.mem_cons_self)
      rw [readNat, hb, digit?_digit hd, Option.isSome_some, if_pos rfl, ← hb, ← hdigits,
        readDigits_digits]

/-- A digit is neither blank nor a sign. -/
theorem digit_cases {d : Nat} (hd : d < 10) :
    isSpace (digit d) = false ∧ digit d ≠ 45 ∧ digit d ≠ 43 ∧ digit d ≠ 44 := by
  revert d
  decide

/-- **A numeral is read as the number it was written for.** -/
theorem strtol_decimal {x : Int} (h : -9223372036854775808 ≤ x) (h' : x ≤ 9223372036854775807) :
    strtol (decimal x) = some x := by
  have hclamp : clamp x = x := by
    rw [clamp]
    omega
  unfold decimal
  split
  · next hneg =>
      have hspace : (45 :: digits x.natAbs).dropWhile isSpace = 45 :: digits x.natAbs := rfl
      rw [strtol, hspace]
      simp only [readNat_digits, Option.map_some]
      rw [show -(x.natAbs : Int) = x by omega, hclamp]
  · next hpos =>
      cases hdigits : digits x.natAbs with
      | nil => exact absurd hdigits (digits_ne_nil _)
      | cons b bs =>
          obtain ⟨d, hd, rfl⟩ := mem_digits (n := x.natAbs) (b := b)
            (by rw [hdigits]; exact List.mem_cons_self)
          obtain ⟨hspace, hminus, hplus, -⟩ := digit_cases hd
          have hread := readNat_digits x.natAbs
          rw [hdigits] at hread
          have hdrop : (digit d :: bs).dropWhile isSpace = digit d :: bs := by
            rw [List.dropWhile_cons, hspace, if_neg Bool.false_ne_true]
          unfold strtol
          rw [hdrop]
          split
          · next heq => exact absurd (List.cons.inj heq).1 hminus
          · next heq => exact absurd (List.cons.inj heq).1 hplus
          · rw [hread, Option.map_some, show (x.natAbs : Int) = x by omega, hclamp]

/-- No delimiter stands in a numeral that is not one of its characters. -/
theorem comma_notMem_decimal (x : Int) : 44 ∉ decimal x := by
  have hdigits : 44 ∉ digits x.natAbs := by
    intro hmem
    obtain ⟨d, hd, heq⟩ := mem_digits hmem
    exact (digit_cases hd).2.2.2 heq.symm
  unfold decimal
  split
  · rw [List.mem_cons, not_or]
    exact ⟨by decide, hdigits⟩
  · exact hdigits

theorem decimal_ne_nil (x : Int) : decimal x ≠ [] := by
  unfold decimal
  split
  · exact List.cons_ne_nil _ _
  · exact digits_ne_nil _

/-! ## Tokens -/

section
variable {delim : UInt8}

/-- The characters of a token are read one by one. -/
theorem strtok_append {t : List UInt8} (ht : delim ∉ t) (token rest : List UInt8) :
    strtok delim token (t ++ rest) = strtok delim (token ++ t) rest := by
  induction t generalizing token with
  | nil => rw [List.nil_append, List.append_nil]
  | cons b t ih =>
      rw [List.mem_cons, not_or] at ht
      rw [List.cons_append, strtok, if_neg (Ne.symm ht.1), ih ht.2, List.append_assoc]
      rfl

/-- **Tokens with one delimiter between them are found again.** -/
theorem strtok_intercalate {ts : List (List UInt8)} (hts : ∀ t ∈ ts, t ≠ [] ∧ delim ∉ t) :
    strtok delim [] ([delim].intercalate ts) = ts := by
  induction ts with
  | nil => rfl
  | cons t ts ih =>
      obtain ⟨hne, hdelim⟩ := hts t List.mem_cons_self
      cases ts with
      | nil =>
          have hread := strtok_append hdelim [] []
          rw [List.append_nil, List.nil_append] at hread
          rw [List.intercalate_singleton, hread, strtok, if_neg hne]
      | cons t' ts =>
          rw [List.intercalate_cons_cons, List.append_assoc, strtok_append hdelim, List.nil_append,
            List.singleton_append, strtok, if_pos rfl, if_neg hne,
            ih fun t ht => hts t (List.mem_cons_of_mem _ ht)]

end

end Decimal

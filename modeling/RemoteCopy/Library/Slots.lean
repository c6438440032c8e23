import Mathlib.Data.List.Basic

/-!
# The lowest free slot

A table whose slots are taken and given back: what is new always gets the lowest slot that is free.
Who gives back the slot that was the lowest, with everything below it taken, gets it again
(`allocate_set_none`).
-/

namespace List

variable {α : Type*}

/-- The table with `x` in its lowest free slot, and the number of that. -/
def allocate (x : α) : List (Option α) → List (Option α) × Nat
  | [] => ([some x], 0)
  | none :: l => (some x :: l, 0)
  | some y :: l => (some y :: (allocate x l).1, (allocate x l).2 + 1)

/-- All slots below `n` are taken. -/
def TakenBelow (l : List (Option α)) (n : Nat) : Prop := ∀ i < n, ∃ y, l[i]? = some (some y)

variable {x : α} {l : List (Option α)} {n : Nat}

theorem takenBelow_cons {y : α} (h : TakenBelow l n) : TakenBelow (some y :: l) (n + 1) := by
  intro i hi
  cases i with
  | zero => exact ⟨y, rfl⟩
  | succ i => exact h i (Nat.lt_of_succ_lt_succ hi)

/-- What is new is where it should be, and everything below it is taken. -/
theorem allocate_spec (x : α) (l : List (Option α)) :
    TakenBelow (l.allocate x).1 (l.allocate x).2 ∧
      (l.allocate x).1[(l.allocate x).2]? = some (some x) := by
  induction l with
  | nil => exact ⟨fun i hi => absurd hi (Nat.not_lt_zero i), rfl⟩
  | cons y l ih =>
      cases y with
      | none => exact ⟨fun i hi => absurd hi (Nat.not_lt_zero i), rfl⟩
      | some y => exact ⟨takenBelow_cons ih.1, ih.2⟩

/-- The table grows by one slot at most. -/
theorem allocate_le_length (x : α) (l : List (Option α)) : (l.allocate x).2 ≤ l.length := by
  induction l with
  | nil => exact Nat.le_refl 0
  | cons y l ih =>
      cases y with
      | none => exact Nat.zero_le _
      | some y => exact Nat.succ_le_succ ih

/-- Below the lowest free slot nothing changes. -/
theorem allocate_of_takenBelow (hbelow : TakenBelow l n) (hfree : l[n]? = some none) :
    l.allocate x = (l.set n (some x), n) := by
  induction l generalizing n with
  | nil => cases hfree
  | cons y l ih =>
      cases n with
      | zero =>
          cases hfree
          rfl
      | succ n =>
          obtain ⟨z, hz⟩ := hbelow 0 (Nat.zero_lt_succ n)
          obtain rfl : y = some z := Option.some.inj hz
          have hrest : TakenBelow l n := fun i hi => hbelow (i + 1) (Nat.succ_lt_succ hi)
          rw [allocate, ih hrest hfree]
          rfl

/-- **Who gives back the lowest slot gets it again.** -/
theorem allocate_set_none {y : α} (hbelow : TakenBelow l n) (htaken : l[n]? = some (some y)) :
    (l.set n none).allocate x = (l.set n (some x), n) := by
  obtain ⟨hlt, -⟩ := getElem?_eq_some_iff.mp htaken
  have hbelow' : TakenBelow (l.set n none) n := by
    intro i hi
    rw [getElem?_set_ne (Nat.ne_of_gt hi)]
    exact hbelow i hi
  rw [allocate_of_takenBelow hbelow' (getElem?_set_self hlt), set_set]

/-- Something else that is new goes above. -/
theorem TakenBelow.allocate (h : TakenBelow l n) (x : α) : TakenBelow (l.allocate x).1 n := by
  intro i hi
  induction l generalizing n i with
  | nil =>
      obtain ⟨y, hy⟩ := h i hi
      cases hy
  | cons z l ih =>
      obtain ⟨y, hy⟩ := h i hi
      cases z with
      | none =>
          cases i with
          | zero => cases hy
          | succ i => exact ⟨y, hy⟩
      | some z =>
          cases i with
          | zero => exact ⟨z, rfl⟩
          | succ i =>
              cases n with
              | zero => exact absurd hi (Nat.not_lt_zero _)
              | succ n =>
                  refine ih (fun j hj => ?_) i (Nat.lt_of_succ_lt_succ hi)
                  exact h (j + 1) (Nat.succ_lt_succ hj)

/-- What is taken stays as it is. -/
theorem getElem?_allocate {i : Nat} {y : α} (h : l[i]? = some (some y)) (x : α) :
    (l.allocate x).1[i]? = some (some y) := by
  induction l generalizing i with
  | nil => cases h
  | cons z l ih =>
      cases z with
      | none =>
          cases i with
          | zero => cases h
          | succ i => exact h
      | some z =>
          cases i with
          | zero => exact h
          | succ i => exact ih h

end List

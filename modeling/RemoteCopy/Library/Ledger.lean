import Mathlib.Data.List.Basic

/-!
# Ledgers

A log of what was opened and released, and what is held at its end. The log is wrong as soon as
something is released that is not held, or opened that is. A program that keeps its books straight
ends with nothing held (`Ledger.Balanced`): it has released everything that it opened, and nothing
twice.
-/

/-- An entry of the log. -/
inductive Ledger.Use (α : Type*) where
  | opened (x : α)
  | released (x : α)
  deriving DecidableEq

/-- A log of openings and releases. -/
abbrev Ledger (α : Type*) := List (Ledger.Use α)

namespace Ledger

variable {α : Type*} [DecidableEq α] {xs ys : List α} {log log' : Ledger α} {x : α}

/-- What is held after the log if `xs` is held before it, unless the log is wrong. -/
def held (xs : List α) : Ledger α → Option (List α)
  | [] => some xs
  | .opened x :: log => if x ∈ xs then none else held (x :: xs) log
  | .released x :: log => if x ∈ xs then held (xs.erase x) log else none

/-- Everything opened was released, and nothing twice. -/
def Balanced (log : Ledger α) : Prop := held [] log = some []

instance : Decidable log.Balanced := inferInstanceAs (Decidable (_ = _))

/-- A log is read from its start to its end. -/
theorem held_append (log' : Ledger α) : ∀ (log : Ledger α) (xs : List α),
    held xs (log ++ log') = (held xs log).bind fun ys => held ys log' := by
  intro log
  induction log with
  | nil => exact fun xs => rfl
  | cons use log ih =>
      intro xs
      cases use with
      | opened x =>
          rw [List.cons_append, held, held]
          split
          · rfl
          · exact ih _
      | released x =>
          rw [List.cons_append, held, held]
          split
          · exact ih _
          · rfl

theorem held_opened (h : held xs log = some ys) (hx : x ∉ ys) :
    held xs (log ++ [.opened x]) = some (x :: ys) := by
  rw [held_append, h]
  exact if_neg hx

theorem held_released (h : held xs log = some ys) (hx : x ∈ ys) :
    held xs (log ++ [.released x]) = some (ys.erase x) := by
  rw [held_append, h]
  exact if_pos hx

/-- A log that leaves something held is not balanced. -/
theorem not_balanced (h : held [] log = some (x :: xs)) : ¬ log.Balanced := by
  intro hc
  cases h.symm.trans hc

end Ledger

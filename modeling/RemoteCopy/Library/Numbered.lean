import Mathlib.Data.List.Basic

/-!
# Queues of numbered items

A queue that holds the items with the numbers from `k` up to `e`, each once and in order. The
oldest is taken from its head and the newest put behind its end, so what is in it is determined by
its two ends: it is empty where they meet, and they are as far apart as it is long.
-/

/-- The queue holds the items `k`, `k + 1`, … up to `e`, which is not among them. -/
inductive Numbered {α : Type*} (p : Nat → α → Prop) : Nat → Nat → List α → Prop
  | nil (k : Nat) : Numbered p k k []
  | cons {k e : Nat} {x : α} {xs : List α} (hx : p k x) (hxs : Numbered p (k + 1) e xs) :
      Numbered p k e (x :: xs)

namespace Numbered

variable {α : Type*} {p : Nat → α → Prop} {k e : Nat} {x : α} {xs : List α}

/-- The ends are as far apart as the queue is long. -/
theorem length (h : Numbered p k e xs) : k + xs.length = e := by
  induction h with
  | nil k => rfl
  | cons _ _ ih =>
      rw [List.length_cons]
      omega

theorem le (h : Numbered p k e xs) : k ≤ e := by
  have := h.length
  omega

/-- An empty queue is one whose ends meet. -/
theorem eq_nil_iff (h : Numbered p k e xs) : xs = [] ↔ k = e := by
  have := h.length
  rw [← List.length_eq_zero_iff]
  omega

/-- The oldest item, and the queue without it. -/
theorem of_cons (h : Numbered p k e (x :: xs)) : p k x ∧ k < e ∧ Numbered p (k + 1) e xs := by
  cases h with
  | cons hx hxs => exact ⟨hx, hxs.le, hxs⟩

/-- A new item goes behind the others. -/
theorem snoc (h : Numbered p k e xs) (hx : p e x) : Numbered p k (e + 1) (xs ++ [x]) := by
  induction h with
  | nil k => exact .cons hx (.nil _)
  | cons hy _ ih => exact .cons hy (ih hx)

end Numbered

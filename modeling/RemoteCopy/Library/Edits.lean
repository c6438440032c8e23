import Mathlib.Data.List.DropRight
import Mathlib.Logic.Function.Basic

/-!
# Maps that are filled in once

A map in which an insertion at a key that holds something changes nothing. What a log of insertions
and erasures makes of the empty map can be read from the log itself: a key holds the first thing
inserted since it was last erased (`Edit.replay_eq`).
-/

/-- An entry of the log. -/
inductive Edit (κ α : Type*) where
  | insert (k : κ) (x : α)
  | erase (k : κ)
  deriving DecidableEq

namespace Edit

variable {κ α : Type*}

/-- The key that an edit is about. -/
def key : Edit κ α → κ
  | insert k _ => k
  | erase k => k

variable [DecidableEq κ]

/-! ## The map -/

/-- The map after an edit. -/
def apply (m : κ → Option α) : Edit κ α → κ → Option α
  | insert k x => Function.update m k ((m k).or (some x))
  | erase k => Function.update m k none

/-- The map after a log of edits. -/
def replay (edits : List (Edit κ α)) : κ → Option α := edits.foldl apply fun _ => none

/-! ## The log -/

/-- Whether the edit empties the key. -/
def erases (k : κ) : Edit κ α → Bool
  | insert _ _ => false
  | erase k' => decide (k' = k)

/-- What the edit inserts at the key. -/
def inserted (k : κ) : Edit κ α → Option α
  | insert k' x => if k' = k then some x else none
  | erase _ => none

/-- The first thing inserted at `k` since `k` was last erased. -/
def firstInserted (edits : List (Edit κ α)) (k : κ) : Option α :=
  (edits.rtakeWhile fun e => !e.erases k).findSome? (inserted k)

section
variable {m : κ → Option α} {edits : List (Edit κ α)} {e : Edit κ α} {k : κ}

theorem replay_append (edits edits' : List (Edit κ α)) :
    replay (edits ++ edits') = edits'.foldl apply (replay edits) := List.foldl_append

/-- An edit leaves the other keys alone. -/
theorem apply_of_ne (h : e.key ≠ k) : apply m e k = m k := by
  cases e with
  | insert k' x => exact Function.update_of_ne (Ne.symm h) _ _
  | erase k' => exact Function.update_of_ne (Ne.symm h) _ _

/-- So do several. -/
theorem foldl_apply_of_ne (h : ∀ e ∈ edits, e.key ≠ k) :
    edits.foldl apply m k = m k := by
  induction edits generalizing m with
  | nil => rfl
  | cons e edits ih =>
      rw [List.foldl_cons, ih fun e' he' => h e' (List.mem_cons_of_mem e he')]
      exact apply_of_ne (h e List.mem_cons_self)

/-- A second insertion changes nothing. -/
theorem apply_insert_of_some {x : α} (h : m k = some x) (y : α) : apply m (insert k y) = m := by
  rw [apply, h]
  exact Function.update_eq_self_iff.mpr h.symm

theorem apply_insert_of_none (h : m k = none) (x : α) :
    apply m (insert k x) = Function.update m k (some x) := by
  rw [apply, h]
  rfl

/-- What one edit does at one key. -/
theorem apply_eq (m : κ → Option α) (e : Edit κ α) (k : κ) :
    apply m e k = if e.erases k then none else (m k).or (e.inserted k) := by
  cases e with
  | insert k' x =>
      by_cases hk : k' = k
      · subst hk
        rw [apply, Function.update_self, erases, inserted, if_pos rfl]
        rfl
      · rw [apply_of_ne (e := insert k' x) hk, erases, inserted, if_neg hk, Option.or_none]
        rfl
  | erase k' =>
      by_cases hk : k' = k
      · subst hk
        rw [apply, Function.update_self, erases, decide_eq_true rfl, if_pos rfl]
      · rw [apply_of_ne (e := erase k') hk, erases, inserted, decide_eq_false hk, Option.or_none]
        rfl

theorem firstInserted_concat (edits : List (Edit κ α)) (e : Edit κ α) (k : κ) :
    firstInserted (edits ++ [e]) k
      = if e.erases k then none else (firstInserted edits k).or (e.inserted k) := by
  rw [firstInserted, List.rtakeWhile_concat]
  cases herases : e.erases k with
  | true => rfl
  | false =>
      rw [if_pos (show (!false) = true from rfl), List.findSome?_append, List.findSome?_singleton]
      rfl

/-- **The map read from the log**: at every key, the first thing inserted since the key was last
erased. -/
theorem replay_eq (edits : List (Edit κ α)) : replay edits = firstInserted edits := by
  funext k
  induction edits using List.reverseRecOn with
  | nil => rfl
  | append_singleton edits e ih =>
      rw [replay_append, firstInserted_concat, ← ih]
      exact apply_eq (replay edits) e k

end

end Edit

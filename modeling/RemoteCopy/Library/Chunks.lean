import Mathlib.Data.List.Basic

/-!
# Reading in chunks

A list taken off in chunks of `n` items, the last of which may be shorter, up to the empty one that
marks the end. No chunk before is empty or too long (`of_mem_chunks`), and together they are the
list again, also the first of them (`flatten_take_chunks`).
-/

namespace List

variable {α : Type*}

/-- The chunks that at most `fuel` attempts bring. -/
def chunksAux (n : Nat) : Nat → List α → List (List α)
  | 0, _ => []
  | fuel + 1, l => if l.take n = [] then [] else l.take n :: chunksAux n fuel (l.drop n)

/-- Every chunk has an item, so there are enough attempts. -/
def chunks (n : Nat) (l : List α) : List (List α) := chunksAux n l.length l

theorem of_mem_chunksAux {n fuel : Nat} {l c : List α} (h : c ∈ chunksAux n fuel l) :
    c ≠ [] ∧ c.length ≤ n := by
  induction fuel generalizing l with
  | zero => cases h
  | succ fuel ih =>
      rw [chunksAux] at h
      split at h
      · cases h
      · next hne =>
          rcases mem_cons.mp h with rfl | h
          · exact ⟨hne, length_take_le n l⟩
          · exact ih h

theorem of_mem_chunks {n : Nat} {l c : List α} (h : c ∈ l.chunks n) : c ≠ [] ∧ c.length ≤ n :=
  of_mem_chunksAux h

theorem flatten_take_chunksAux {n fuel : Nat} (hn : 0 < n) {l : List α} (hl : l.length ≤ fuel)
    (k : Nat) : ((chunksAux n fuel l).take k).flatten = l.take (k * n) := by
  induction fuel generalizing l k with
  | zero =>
      rw [length_eq_zero_iff.mp (Nat.le_zero.mp hl)]
      simp [chunksAux]
  | succ fuel ih =>
      rw [chunksAux]
      split
      · next hnil =>
          have hempty : l = [] := by
            rw [take_eq_nil_iff] at hnil
            exact hnil.resolve_left (Nat.ne_of_gt hn)
          simp [hempty]
      · cases k with
        | zero => simp
        | succ k =>
            have hrest : (l.drop n).length ≤ fuel := by
              rw [length_drop]
              omega
            rw [take_succ_cons, flatten_cons, ih hrest, ← take_add, Nat.succ_mul, Nat.add_comm]

/-- **The first chunks are the beginning of the list.** -/
theorem flatten_take_chunks {n : Nat} (hn : 0 < n) (l : List α) (k : Nat) :
    ((l.chunks n).take k).flatten = l.take (k * n) :=
  flatten_take_chunksAux hn (Nat.le_refl _) k

theorem flatten_chunks {n : Nat} (hn : 0 < n) (l : List α) : (l.chunks n).flatten = l := by
  have hall := flatten_take_chunks hn l (max (l.chunks n).length l.length)
  have hle : l.length ≤ max (l.chunks n).length l.length * n :=
    Nat.le_trans (Nat.le_max_right _ _) (Nat.le_mul_of_pos_right _ hn)
  rwa [take_of_length_le (Nat.le_max_left _ _), take_of_length_le hle] at hall

end List

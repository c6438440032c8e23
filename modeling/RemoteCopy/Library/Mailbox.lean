import Mathlib.Data.List.Forall2

/-!
# One list for several readers

Items on their way to several readers in one list: what is there for a reader is the part of the
list that a predicate selects, in the order of the list. A reader that takes the first item for it
takes the head of its part (`filter_of_find?`) and leaves the parts of the others as they are
(`filter_eraseP`); removing an item anywhere removes one at most from every part; what several
losses do, single ones do one after the other (`Sublist.of_eraseIdx`). From two lists that
correspond item by item, readers take items that correspond (`Forall₂.of_find?`).
-/

namespace List

variable {α : Type*} {p q : α → Bool} {l : List α} {x : α}

/-- The first item for a reader is the head of its part, however that part is selected. -/
theorem filter_of_find? (h : l.find? p = some x) (hpq : ∀ y ∈ l, p y = q y) :
    l.filter q = x :: (l.eraseP p).filter q := by
  induction l with
  | nil => cases h
  | cons y l ih =>
      have hy := hpq y mem_cons_self
      cases hp : p y with
      | true =>
          rw [find?_cons_of_pos hp] at h
          cases h
          rw [eraseP_cons_of_pos hp, filter_cons_of_pos (hy ▸ hp)]
      | false =>
          have hneg : ¬ p y = true := by rw [hp]; exact Bool.false_ne_true
          rw [find?_cons_of_neg hneg] at h
          rw [eraseP_cons_of_neg hneg, filter_cons_of_neg (hy ▸ hneg),
            filter_cons_of_neg (hy ▸ hneg)]
          exact ih h fun z hz => hpq z (mem_cons_of_mem y hz)

/-- What one reader takes is not missed by another. -/
theorem filter_eraseP (hpq : ∀ y ∈ l, p y = true → q y = false) :
    (l.eraseP p).filter q = l.filter q := by
  induction l with
  | nil => rfl
  | cons y l ih =>
      have hy := hpq y mem_cons_self
      cases hp : p y with
      | true =>
          rw [eraseP_cons_of_pos hp, filter_cons_of_neg (by rw [hy hp]; exact Bool.false_ne_true)]
      | false =>
          rw [eraseP_cons_of_neg (by rw [hp]; exact Bool.false_ne_true), filter_cons, filter_cons,
            ih fun z hz => hpq z (mem_cons_of_mem y hz)]

/-- What is for one reader is not missed by another, wherever it is removed. -/
theorem filter_eraseIdx_of_neg {k : Nat} (hk : l[k]? = some x) (hx : q x = false) :
    (l.eraseIdx k).filter q = l.filter q := by
  induction l generalizing k with
  | nil => cases hk
  | cons y l ih =>
      cases k with
      | zero =>
          rw [getElem?_cons_zero] at hk
          cases hk
          rw [eraseIdx_cons_zero, filter_cons_of_neg (by rw [hx]; exact Bool.false_ne_true)]
      | succ k =>
          rw [getElem?_cons_succ] at hk
          rw [eraseIdx_cons_succ, filter_cons, filter_cons, ih hk]

/-- What is lost is lost by one reader at most, from one place. -/
theorem exists_filter_eraseIdx (q : α → Bool) (l : List α) (k : Nat) :
    ∃ j, (l.eraseIdx k).filter q = (l.filter q).eraseIdx j := by
  induction l generalizing k with
  | nil => exact ⟨0, rfl⟩
  | cons y l ih =>
      cases k with
      | zero =>
          rw [eraseIdx_cons_zero]
          cases hq : q y with
          | true => exact ⟨0, by rw [filter_cons_of_pos hq, eraseIdx_cons_zero]⟩
          | false =>
              refine ⟨(l.filter q).length, ?_⟩
              rw [filter_cons_of_neg (by rw [hq]; exact Bool.false_ne_true),
                eraseIdx_of_length_le (Nat.le_refl _)]
      | succ k =>
          obtain ⟨j, hj⟩ := ih k
          rw [eraseIdx_cons_succ]
          cases hq : q y with
          | true =>
              exact ⟨j + 1, by
                rw [filter_cons_of_pos hq, filter_cons_of_pos hq, eraseIdx_cons_succ, hj]⟩
          | false =>
              have hneg : ¬ q y = true := by rw [hq]; exact Bool.false_ne_true
              exact ⟨j, by rw [filter_cons_of_neg hneg, filter_cons_of_neg hneg, hj]⟩

/-- What holds however one item is lost holds however several are. -/
theorem Sublist.of_eraseIdx {Q : List α → Prop} (hQ : ∀ l k, Q l → Q (l.eraseIdx k))
    {l₁ l₂ : List α} (h : l₁.Sublist l₂) (hl : Q l₂) : Q l₁ := by
  suffices hpre : ∀ pre, Q (pre ++ l₂) → Q (pre ++ l₁) from hpre [] hl
  clear hl
  induction h with
  | slnil => exact fun pre hpre => hpre
  | @cons l₁ l₂ y _ ih =>
      intro pre hpre
      apply ih
      have hlost := hQ _ pre.length hpre
      rwa [eraseIdx_append_of_length_le (Nat.le_refl _), Nat.sub_self, eraseIdx_cons_zero] at hlost
  | @cons_cons l₁ l₂ y _ ih =>
      intro pre hpre
      rw [append_cons]
      apply ih
      rw [← append_cons]
      exact hpre

/-! ## Two lists that correspond -/

section
variable {β : Type*} {R : α → β → Prop} {m : List β} {y : β} {q : β → Bool}

theorem Forall₂.of_find? (h : Forall₂ R l m) (hpq : ∀ x y, R x y → p x = q y)
    (hy : m.find? q = some y) :
    ∃ x, l.find? p = some x ∧ R x y ∧ Forall₂ R (l.eraseP p) (m.eraseP q) := by
  induction h with
  | nil => cases hy
  | @cons x z l m hxz h ih =>
      have hx := hpq x z hxz
      cases hq : q z with
      | true =>
          rw [hq] at hx
          rw [find?_cons_of_pos hq] at hy
          cases hy
          rw [find?_cons_of_pos hx, eraseP_cons_of_pos hx, eraseP_cons_of_pos hq]
          exact ⟨x, rfl, hxz, h⟩
      | false =>
          rw [hq] at hx
          have hxneg : ¬ p x = true := Bool.eq_false_iff.mp hx
          have hzneg : ¬ q z = true := Bool.eq_false_iff.mp hq
          rw [find?_cons_of_neg hzneg] at hy
          obtain ⟨x', hfind, hR, hrest⟩ := ih hy
          rw [find?_cons_of_neg hxneg, eraseP_cons_of_neg hxneg, eraseP_cons_of_neg hzneg]
          exact ⟨x', hfind, hR, hrest.cons hxz⟩

theorem Forall₂.of_getElem? (h : Forall₂ R l m) {k : Nat} (hy : m[k]? = some y) :
    ∃ x, l[k]? = some x ∧ R x y := by
  induction h generalizing k with
  | nil => cases hy
  | @cons x z l m hxz h ih =>
      cases k with
      | zero =>
          cases hy
          exact ⟨x, rfl, hxz⟩
      | succ k => exact ih hy

theorem Forall₂.eraseIdx (h : Forall₂ R l m) (k : Nat) :
    Forall₂ R (l.eraseIdx k) (m.eraseIdx k) := by
  rw [eraseIdx_eq_take_drop_succ, eraseIdx_eq_take_drop_succ]
  exact rel_append (forall₂_take k h) (forall₂_drop (k + 1) h)

end

end List

import Mathlib.Data.List.Basic
import Mathlib.Logic.Function.Basic

/-!
# Ring buffers as finite maps

A ring of `n` slots stores the value at position `s` in slot `s % n`. Seen through a window
`[lo, lo + n)` it is a finite map from positions to values, and `Represents` says which: no two
positions of the window share a slot (`mod_ne_of_window`), so storing at one position is a
`Function.update` of the map (`Represents.put`), and the window may slide past a position that
holds nothing (`Represents.slide`). The slots of the ring are in turn determined by the map
(`Represents.slot`): there is nothing in the ring that the map does not show.
-/

namespace RingBuffer

variable {α : Type*}

/-- What is stored at position `s`. -/
def get (slots : List (Option α)) (s : Nat) : Option α := (slots[s % slots.length]?).join

/-- Store `x` at position `s` (or clear it, for `none`). -/
def put (slots : List (Option α)) (s : Nat) (x : Option α) : List (Option α) :=
  slots.set (s % slots.length) x

/-- Seen through the window that starts at `lo`, the ring is the map `m`. -/
structure Represents (slots : List (Option α)) (lo : Nat) (m : Nat → Option α) : Prop where
  pos : 0 < slots.length
  get_eq : ∀ s, lo ≤ s → s < lo + slots.length → get slots s = m s
  support : ∀ s, m s ≠ none → lo ≤ s ∧ s < lo + slots.length

/-! ## Slots -/

@[simp] theorem length_put (slots : List (Option α)) (s : Nat) (x : Option α) :
    (put slots s x).length = slots.length := List.length_set

/-- Different positions of one window use different slots. -/
theorem mod_ne_of_window {n lo s t : Nat} (hs : lo ≤ s) (hs' : s < lo + n) (ht : lo ≤ t)
    (ht' : t < lo + n) (hne : s ≠ t) : s % n ≠ t % n := by
  intro h
  rcases Nat.lt_or_gt_of_ne hne with hlt | hlt
  · have hd : n ∣ t - s := Nat.dvd_of_mod_eq_zero (Nat.sub_mod_eq_zero_of_mod_eq h.symm)
    exact absurd (Nat.le_of_dvd (by omega) hd) (by omega)
  · have hd : n ∣ s - t := Nat.dvd_of_mod_eq_zero (Nat.sub_mod_eq_zero_of_mod_eq h)
    exact absurd (Nat.le_of_dvd (by omega) hd) (by omega)

/-- Every slot is the slot of some position of the window. -/
theorem exists_window_position {n : Nat} (lo : Nat) {i : Nat} (hi : i < n) :
    ∃ s, lo ≤ s ∧ s < lo + n ∧ s % n = i := by
  have hlo := Nat.mod_lt lo (by omega : 0 < n)
  have hdiv := Nat.div_add_mod lo n
  rcases Nat.lt_or_ge i (lo % n) with h | h
  · refine ⟨n * (lo / n) + n + i, by omega, by omega, ?_⟩
    rw [Nat.add_assoc, Nat.mul_add_mod, Nat.add_mod_left, Nat.mod_eq_of_lt hi]
  · refine ⟨n * (lo / n) + i, by omega, by omega, ?_⟩
    rw [Nat.mul_add_mod, Nat.mod_eq_of_lt hi]

theorem get_put_self {slots : List (Option α)} (hpos : 0 < slots.length) (s : Nat)
    (x : Option α) : get (put slots s x) s = x := by
  simp only [get, length_put]
  rw [put, List.getElem?_set_self (Nat.mod_lt s hpos)]
  rfl

theorem get_put_of_ne {slots : List (Option α)} {s t : Nat} (x : Option α)
    (h : s % slots.length ≠ t % slots.length) : get (put slots s x) t = get slots t := by
  simp only [get, length_put]
  rw [put, List.getElem?_set_ne h]

/-! ## The map -/

section
variable {slots : List (Option α)} {lo : Nat} {m : Nat → Option α}

theorem Represents.empty {n : Nat} (hn : 0 < n) (lo : Nat) :
    Represents (List.replicate n (none : Option α)) lo fun _ => none where
  pos := by simpa using hn
  get_eq s _ _ := by
    have hs := Nat.mod_lt s hn
    simp [get, hs]
  support s h := absurd rfl h

theorem Represents.eq_none (h : Represents slots lo m) {s : Nat}
    (hs : ¬ (lo ≤ s ∧ s < lo + slots.length)) : m s = none := by
  by_contra hne
  exact hs (h.support s hne)

/-- Storing at a position of the window updates the map there and nowhere else. -/
theorem Represents.put (h : Represents slots lo m) {s : Nat} (hs : lo ≤ s)
    (hs' : s < lo + slots.length) (x : Option α) :
    Represents (put slots s x) lo (Function.update m s x) where
  pos := by simpa using h.pos
  get_eq t ht ht' := by
    rw [length_put] at ht'
    by_cases hts : t = s
    · subst hts
      rw [get_put_self h.pos, Function.update_self]
    · rw [get_put_of_ne x (mod_ne_of_window hs hs' ht ht' (Ne.symm hts)),
        Function.update_of_ne hts, h.get_eq t ht ht']
  support t ht := by
    rw [length_put]
    by_cases hts : t = s
    · subst hts
      exact ⟨hs, hs'⟩
    · rw [Function.update_of_ne hts] at ht
      exact h.support t ht

/-- The window slides past a position that holds nothing. -/
theorem Represents.slide (h : Represents slots lo m) (hlo : m lo = none) :
    Represents slots (lo + 1) m where
  pos := h.pos
  get_eq s hs hs' := by
    by_cases hlast : s = lo + slots.length
    · -- The position that enters the window reuses the slot of the one that leaves it.
      have hm : m s = none := h.eq_none (by omega)
      have hslot : get slots s = get slots lo := by
        rw [hlast, get, get, Nat.add_mod_right]
      rw [hm, hslot, h.get_eq lo (Nat.le_refl _) (by have := h.pos; omega), hlo]
    · exact h.get_eq s (by omega) (by omega)
  support s hs := by
    obtain ⟨h1, h2⟩ := h.support s hs
    have hne : s ≠ lo := by
      rintro rfl
      exact hs hlo
    omega

/-- What a slot holds is what the map holds at the window's position for that slot. -/
theorem Represents.slot (h : Represents slots lo m) {i : Nat} (hi : i < slots.length) :
    ∃ s, lo ≤ s ∧ s < lo + slots.length ∧ s % slots.length = i ∧ slots[i]?.join = m s := by
  obtain ⟨s, hs, hs', hmod⟩ := exists_window_position lo hi
  refine ⟨s, hs, hs', hmod, ?_⟩
  rw [← h.get_eq s hs hs', get, hmod]

/-- The ring is determined by the map and by where the window is. -/
theorem Represents.ext (h : Represents slots lo m) {slots' : List (Option α)}
    (h' : Represents slots' lo m) (hlen : slots'.length = slots.length) : slots' = slots := by
  apply List.ext_getElem?
  intro i
  rcases Nat.lt_or_ge i slots.length with hi | hi
  · obtain ⟨s, hs, hs', hmod, hslot⟩ := h.slot hi
    have hslot' : slots'[i]?.join = m s := by
      rw [← h'.get_eq s hs (by rw [hlen]; exact hs'), get, hlen, hmod]
    have hjoin : slots'[i]?.join = slots[i]?.join := hslot'.trans hslot.symm
    rw [List.getElem?_eq_getElem hi, List.getElem?_eq_getElem (by omega)] at hjoin ⊢
    exact congrArg some hjoin
  · rw [List.getElem?_eq_none hi, List.getElem?_eq_none (by omega)]

end

end RingBuffer

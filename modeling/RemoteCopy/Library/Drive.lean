import Mathlib.Data.List.Basic

/-!
# Machines in an environment

A machine whose steps take what the environment brings, put something out and may fail, run against
a list of what is brought. `StopsIn N` says that no environment keeps it going for more than `N`
steps or makes it fail. It is proved step by step (`StopsIn.next`), and refuted by one environment
in which the machine fails (`not_stopsIn`).
-/

namespace Drive

variable {σ ι κ ε : Type*}

/-- The run of the machine from `s`. It ends where the machine takes no further input. -/
def drive (step : σ → ι → Option (Except ε (σ × List κ))) : List ι → σ → Except ε (σ × List κ)
  | [], s => .ok (s, [])
  | i :: is, s =>
      match step s i with
      | none => .ok (s, [])
      | some (.error e) => .error e
      | some (.ok (s', out)) =>
          match drive step is s' with
          | .error e => .error e
          | .ok (s'', out') => .ok (s'', out ++ out')

variable {step : σ → ι → Option (Except ε (σ × List κ))} {s s' : σ} {i : ι} {out : List κ}
  {N M : Nat} {Q Q' : σ → List κ → Prop}

/-- Whatever the environment brings, the machine is at its end after `N` steps, with `Q` for the
state it ends in and what it has put out. -/
def StopsIn (step : σ → ι → Option (Except ε (σ × List κ))) (N : Nat) (Q : σ → List κ → Prop)
    (s : σ) : Prop :=
  ∀ is : List ι, N ≤ is.length → ∃ s' out, drive step is s = .ok (s', out) ∧ Q s' out

theorem drive_cons (h : step s i = some (.ok (s', out))) (is : List ι) :
    drive step (i :: is) s = match drive step is s' with
      | .error e => .error e
      | .ok (s'', out') => .ok (s'', out ++ out') := by
  rw [drive, h]

/-- The machine is at its end. -/
theorem StopsIn.now (h : ∀ i, step s i = none) (hQ : Q s []) : StopsIn step 0 Q s := by
  intro is _
  cases is with
  | nil => exact ⟨s, [], rfl, hQ⟩
  | cons i is => exact ⟨s, [], by rw [drive, h i], hQ⟩

/-- One step more. -/
theorem StopsIn.next (h : ∀ i, ∃ s' out, step s i = some (.ok (s', out)) ∧
    StopsIn step N (fun s'' out' => Q s'' (out ++ out')) s') : StopsIn step (N + 1) Q s := by
  intro is hlen
  cases is with
  | nil => exact absurd hlen (Nat.not_succ_le_zero N)
  | cons i is =>
      obtain ⟨s', out, hstep, hstops⟩ := h i
      obtain ⟨s'', out', hrun, hQ⟩ := hstops is (Nat.le_of_succ_le_succ hlen)
      exact ⟨s'', out ++ out', by rw [drive_cons hstep, hrun], hQ⟩

theorem StopsIn.mono (h : StopsIn step N Q s) (hle : N ≤ M) (hQ : ∀ s' out, Q s' out → Q' s' out) :
    StopsIn step M Q' s := by
  intro is hlen
  obtain ⟨s', out, hrun, hs'⟩ := h is (Nat.le_trans hle hlen)
  exact ⟨s', out, hrun, hQ s' out hs'⟩

/-- A machine that has failed has failed for good. -/
theorem drive_append {e : ε} (more : List ι) : ∀ {is : List ι} {s : σ},
    drive step is s = .error e → drive step (is ++ more) s = .error e := by
  intro is
  induction is with
  | nil => exact fun h => (by cases h)
  | cons i is ih =>
      intro s h
      rw [drive] at h
      rw [List.cons_append, drive]
      split at h
      · cases h
      · exact h
      · next s' out hstep =>
          split at h
          · next e' hrun =>
              cases h
              rw [ih hrun]
          · cases h

/-- A machine that fails in some environment stops in no number of steps. -/
theorem not_stopsIn {e : ε} {is : List ι} (h : drive step is s = .error e) :
    ¬ StopsIn step N Q s := by
  intro hstops
  cases is with
  | nil => cases h
  | cons i is =>
      obtain ⟨s', out, hrun, -⟩ := hstops (i :: is ++ List.replicate N i) (by
        rw [List.length_append, List.length_replicate]
        exact Nat.le_add_left ..)
      cases (drive_append _ h).symm.trans hrun

end Drive

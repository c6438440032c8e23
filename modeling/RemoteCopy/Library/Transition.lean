import Mathlib.Logic.Relation

/-!
# Labelled transition systems

States, labelled steps and the ways of reasoning about them that protocol proofs use: an invariant
that every step preserves holds in every reachable state (`Reachable.invariant`); the runs whose
steps all meet a condition are the runs of a smaller system (`restrict`); a run can be read with
what it has put out or with all its steps (`logged`, `traced`); where every step brings a measure
down, runs are finite (`Reachable.length_le`); where every step of one system is a continuation in
another one, its runs are runs of the other (`Reachable.image`); and where every round brings a
measure down, some continuation reaches the goal (`Leads.of_measure`). What holds in some reachable
state of a system that can be executed is found by running it (`Reachable.exists_of_run`).
-/

/-- A transition system: its initial states, and its steps labelled by `ι`. -/
structure System (σ ι : Type*) where
  init : σ → Prop
  step : σ → ι → σ → Prop

namespace System

variable {σ ι κ : Type*} {S : System σ ι}

/-- The states of the runs of `S`. -/
inductive Reachable (S : System σ ι) : σ → Prop
  | init {s : σ} : S.init s → Reachable S s
  | step {s s' : σ} {i : ι} : Reachable S s → S.step s i s' → Reachable S s'

/-- `s'` can be reached from `s` in finitely many steps, whatever their labels. -/
def Leads (S : System σ ι) : σ → σ → Prop :=
  Relation.ReflTransGen fun s s' => ∃ i, S.step s i s'

/-- The runs of `S` all of whose steps meet `ok`. -/
def restrict (S : System σ ι) (ok : σ → ι → Prop) : System σ ι where
  init := S.init
  step s i s' := ok s i ∧ S.step s i s'

/-- The runs of `S`, with a log of what its steps put out. -/
def logged (S : System σ ι) (out : ι → List κ) : System (σ × List κ) ι where
  init x := S.init x.1 ∧ x.2 = []
  step x i x' := S.step x.1 i x'.1 ∧ x'.2 = x.2 ++ out i

/-- The runs of `S`, with every step they have taken: its label and the state it was taken in. -/
def traced (S : System σ ι) : System (σ × List (σ × ι)) ι where
  init x := S.init x.1 ∧ x.2 = []
  step x i x' := S.step x.1 i x'.1 ∧ x'.2 = x.2 ++ [(x.1, i)]

/-! ## Invariants -/

/-- **The invariant rule**: what holds initially and is preserved by the steps from reachable
states holds in every reachable state. -/
theorem Reachable.invariant {P : σ → Prop} (hinit : ∀ s, S.init s → P s)
    (hstep : ∀ s i s', S.Reachable s → P s → S.step s i s' → P s') :
    ∀ {s}, S.Reachable s → P s := by
  intro s h
  induction h with
  | init h => exact hinit _ h
  | step hr h ih => exact hstep _ _ _ hr ih h

theorem Reachable.of_restrict {ok : σ → ι → Prop} {s : σ} (h : (S.restrict ok).Reachable s) :
    S.Reachable s := by
  induction h with
  | init h => exact .init h
  | step _ h ih => exact .step ih h.2

theorem Reachable.of_traced {x : σ × List (σ × ι)} (h : S.traced.Reachable x) :
    S.Reachable x.1 := by
  induction h with
  | init h => exact .init h.1
  | step _ h ih => exact .step ih h.1

/-- Every run can be logged. -/
theorem Reachable.exists_logged {s : σ} (h : S.Reachable s) (out : ι → List κ) :
    ∃ log, (S.logged out).Reachable (s, log) := by
  induction h with
  | init h => exact ⟨[], .init ⟨h, rfl⟩⟩
  | @step s s' i _ h ih =>
      obtain ⟨log, hlog⟩ := ih
      exact ⟨log ++ out i, hlog.step ⟨h, rfl⟩⟩

/-- Every run has a trace. -/
theorem Reachable.exists_traced {s : σ} (h : S.Reachable s) :
    ∃ trace, S.traced.Reachable (s, trace) := by
  induction h with
  | init h => exact ⟨[], .init ⟨h, rfl⟩⟩
  | @step s s' i _ h ih =>
      obtain ⟨trace, htrace⟩ := ih
      exact ⟨trace ++ [(s, i)], htrace.step ⟨h, rfl⟩⟩

/-- **Runs are finite** where every step brings a measure down, and no longer than the measure
allows. -/
theorem Reachable.length_le (μ : σ → Nat) {B : Nat} (hinit : ∀ s, S.init s → μ s ≤ B)
    (hstep : ∀ s i s', S.Reachable s → S.step s i s' → μ s' < μ s) {x : σ × List (σ × ι)}
    (h : S.traced.Reachable x) : x.2.length + μ x.1 ≤ B := by
  induction h with
  | init h =>
      rw [h.2, List.length_nil, Nat.zero_add]
      exact hinit _ h.1
  | step hr h ih =>
      have hlt := hstep _ _ _ hr.of_traced h.1
      rw [h.2, List.length_append, List.length_singleton]
      omega

/-- A condition that is met wherever another one is, along the runs that meet the latter. -/
theorem Reachable.restrict_of {ok ok' : σ → ι → Prop}
    (hok : ∀ s i s', (S.restrict ok).Reachable s → ok s i → S.step s i s' → ok' s i) {s : σ}
    (h : (S.restrict ok).Reachable s) : (S.restrict ok').Reachable s := by
  induction h with
  | init h => exact .init h
  | step hr h ih => exact .step ih ⟨hok _ _ _ hr h.1 h.2, h.2⟩

/-! ## Finite continuations -/

theorem Leads.refl (s : σ) : S.Leads s s := Relation.ReflTransGen.refl

theorem Leads.trans {s t u : σ} (h₁ : S.Leads s t) (h₂ : S.Leads t u) : S.Leads s u :=
  Relation.ReflTransGen.trans h₁ h₂

theorem Leads.single {s t : σ} {i : ι} (h : S.step s i t) : S.Leads s t :=
  Relation.ReflTransGen.single ⟨i, h⟩

theorem Leads.head {s t u : σ} {i : ι} (h : S.step s i t) (h' : S.Leads t u) : S.Leads s u :=
  (Leads.single h).trans h'

theorem Reachable.leads {s t : σ} (h : S.Reachable s) (h' : S.Leads s t) : S.Reachable t := by
  induction h' with
  | refl => exact h
  | tail _ hstep ih =>
      obtain ⟨i, hi⟩ := hstep
      exact .step ih hi

/-- **The refinement rule**: where every step of `S`, seen through `f`, is a continuation in `T`,
the runs of `S` are runs of `T`. -/
theorem Reachable.image {τ : Type*} {T : System τ κ} {f : σ → τ}
    (hinit : ∀ s, S.init s → T.init (f s))
    (hstep : ∀ s i s', S.Reachable s → S.step s i s' → T.Leads (f s) (f s')) {s : σ}
    (h : S.Reachable s) : T.Reachable (f s) := by
  induction h with
  | init h => exact .init (hinit _ h)
  | step hr h ih => exact ih.leads (hstep _ _ _ hr h)

/-- A continuation by rounds: if every state of `I` leads either to the goal or to a state of `I`
with a smaller measure, every state of `I` leads to the goal. -/
theorem Leads.of_measure {I G : σ → Prop} (μ : σ → Nat)
    (hround : ∀ s, I s → ∃ t, S.Leads s t ∧ (G t ∨ (I t ∧ μ t < μ s))) {s : σ} (h : I s) :
    ∃ t, S.Leads s t ∧ G t := by
  induction hn : μ s using Nat.strongRecOn generalizing s with
  | ind n ih =>
      obtain ⟨t, hlead, hgoal | ⟨ht, hlt⟩⟩ := hround s h
      · exact ⟨t, hlead, hgoal⟩
      · obtain ⟨u, hlead', hgoal⟩ := ih (μ t) (hn ▸ hlt) ht rfl
        exact ⟨u, hlead.trans hlead', hgoal⟩

/-! ## Execution

A system whose steps can be computed, at least for some choices of what is left open, has runs
that can be computed too. -/

/-- The state after a list of choices, if each is possible. -/
def run (next : σ → κ → Option σ) (s : σ) : List κ → Option σ
  | [] => some s
  | k :: ks => (next s k).bind fun s' => run next s' ks

theorem Reachable.run {next : σ → κ → Option σ}
    (hnext : ∀ s k s', next s k = some s' → ∃ i, S.step s i s') {ks : List κ} {s s' : σ}
    (h : S.Reachable s) (hrun : System.run next s ks = some s') : S.Reachable s' := by
  induction ks generalizing s with
  | nil =>
      cases hrun
      exact h
  | cons k ks ih =>
      obtain ⟨t, ht, hrun⟩ := Option.bind_eq_some_iff.mp hrun
      obtain ⟨i, hi⟩ := hnext s k t ht
      exact ih (h.step hi) hrun

/-- A computed run ends in a reachable state, with whatever property the computation finds. -/
theorem Reachable.exists_of_run {s : σ} (h : S.Reachable s) (next : σ → κ → Option σ)
    (hnext : ∀ s k s', next s k = some s' → ∃ i, S.step s i s') (ks : List κ) (p : σ → Bool)
    (hrun : (System.run next s ks).any p = true) :
    ∃ s', S.Reachable s' ∧ p s' = true := by
  cases hs : System.run next s ks with
  | none =>
      rw [hs] at hrun
      cases hrun
  | some s' =>
      rw [hs] at hrun
      exact ⟨s', h.run hnext hs, hrun⟩

end System

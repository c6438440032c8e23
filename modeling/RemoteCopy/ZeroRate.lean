import RemoteCopy.Settings

/-!
# An error rate of zero

An error rate of zero is to mean that there are no errors, but a datagram is disturbed if its random
number is no greater than the rate, and `drand48` does return zero. The lower bits of its state tell
when that can be: they do not depend on the seed and are zero for the first time after 47434 steps.
So the first 47433 datagrams after `sendErr_init` are safe, with any seed (`kept_of_reachable`), and
there is a seed with which the next one is not (`kept_until_disturbed`).
-/

namespace RemoteCopy

/-! ## When `drand48` returns zero -/

/-- The last 16 bits behind any seed. -/
theorem setWidth_srand48 (seed : Int) : (srand48 seed).setWidth 16 = 0x330E := by
  rw [srand48, BitVec.setWidth_append, dif_pos (Nat.le_refl 16), BitVec.setWidth_eq]

/-- They run through a period of their own. -/
theorem setWidth_iterate_drand48 (seed : Int) (n : Nat) :
    (drand48^[n] (srand48 seed)).setWidth 16
      = (Congruential.affine (0xE66D : BitVec 16) 0xB)^[n] 0x330E := by
  rw [← setWidth_srand48 seed]
  exact Congruential.setWidth_iterate_affine (by decide) _ _ _ n

theorem iterate_drand48_ne_zero (seed : Int) {n : Nat} (h : n < 47434) :
    drand48^[n] (srand48 seed) ≠ 0 := by
  intro hzero
  have hlow : (Congruential.affine (0xE66D : BitVec 16) 0xB)^[n] 0x330E = 0 := by
    rw [← setWidth_iterate_drand48 seed, hzero]
    rfl
  have hlast : (Congruential.affine (0xE66D : BitVec 16) 0xB)^[47434] 0x330E = 0 := by
    rw [← Congruential.jump_eq _ _ _ _ 16 (by decide)]
    decide
  have heq := (Congruential.iterate_affine_inj (t := 14747) (s := 5) (by decide) (by decide)
    (i := n) (j := 47434) (by omega) (by decide)).mp (hlow.trans hlast.symm)
  omega

/-- With this seed the number 47434 is zero. -/
theorem iterate_drand48_eq_zero : drand48^[47434] (srand48 4010914029) = 0 := by
  have hjump := Congruential.jump_eq 0x5DEECE66D 0xB (srand48 4010914029) 47434 16 (by decide)
  apply hjump.symm.trans
  decide

namespace SendErr

section
variable {env : Environment} {l l' : SendErr} {log : List SendErrCall}

/-- The generator has been seeded, and used at most once for each datagram since. -/
def Drawn (l : SendErr) (log : List SendErrCall) : Prop :=
  ∃ seed n, n ≤ (sends log).length ∧ l.pktMgr.rand = drand48^[n] (srand48 seed)

theorem Drawn.initial {rate : CFloat} (h : (calls env rate).init l) : Drawn l [] := by
  obtain ⟨time, a, -, rfl⟩ := h
  obtain ⟨seed, chance, hload, -⟩ := load_pktMgr env time
  have hinit := init_pktMgr (load env time) a
  rw [hload] at hinit
  cases hseed : (load env time).setsMgr.seedRand with
  | none => exact ⟨_, 0, Nat.le_refl 0, by rw [hinit, hseed]; rfl⟩
  | some value => exact ⟨seed, 0, Nat.le_refl 0, by rw [hinit, hseed]; rfl⟩

/-- A call that is not a send may seed it again. -/
theorem Drawn.seeded (h : Drawn l log) {log' : List SendErrCall}
    (hsends : (sends log').length = (sends log).length)
    (hrand : l'.pktMgr.rand = l.pktMgr.rand ∨ ∃ seed, l'.pktMgr.rand = srand48 seed) :
    Drawn l' log' := by
  obtain ⟨seed, n, hn, hdrawn⟩ := h
  rcases hrand with heq | ⟨seed, heq⟩
  · exact ⟨seed, n, hsends ▸ hn, heq.trans hdrawn⟩
  · exact ⟨seed, 0, Nat.zero_le _, heq⟩

/-- Early numbers are not zero, so nothing happens by chance. -/
theorem Drawn.fires (h : Drawn l log) (hrate : l.pktMgr.errorRate = .finite 0)
    (hearly : (sends log).length < 47433) : l.pktMgr.fires = false := by
  obtain ⟨seed, n, hn, hdrawn⟩ := h
  have hnumber : drand48 l.pktMgr.rand ≠ 0 := by
    rw [hdrawn, ← Function.iterate_succ_apply' drand48]
    apply iterate_drand48_ne_zero
    omega
  have hreaches : l.pktMgr.errorRate.reaches (drand48 l.pktMgr.rand) = false := by
    rw [hrate, ← Bool.not_eq_true, reaches_zero]
    exact hnumber
  rw [PacketManager.fires, hreaches, Bool.and_false]

/-- So an early send takes one number. -/
theorem Drawn.sent (h : Drawn l log) (hquiet : l.pktMgr.lists = false)
    (hfires : l.pktMgr.fires = false) {buf : Bytes} {x : Rand48} {wire : Option Bytes}
    (hpktMgr : l'.pktMgr = l.pktMgr.after buf x) (hfate : l.pktMgr.Fate buf x wire) :
    wire = some buf ∧ Drawn l' (log ++ [.sendtoErr buf wire]) := by
  obtain ⟨seed, n, hn, hdrawn⟩ := h
  cases hfate with
  | kept =>
      refine ⟨rfl, seed, n + 1, ?_, ?_⟩
      · rw [sends_append, List.length_append]
        exact Nat.succ_le_succ hn
      · rw [hpktMgr, Function.iterate_succ_apply' drand48, ← hdrawn]
        rfl
  | listed hlists => cases hquiet.symm.trans hlists
  | dropped hchance => cases hfires.symm.trans hchance
  | flipped _ hchance => cases hfires.symm.trans hchance

theorem drawn_of_reachable (henv : env.errRate = none) (hlist : env.dropList = [])
    (h : (runs env (.finite 0)).Reachable (l, log)) (hfew : inits log < 2 ^ 22)
    (hearly : (sends log).length ≤ 47433) : Drawn l log := by
  refine System.Reachable.invariant (S := runs env (.finite 0)) (P := fun x =>
    inits x.2 < 2 ^ 22 → (sends x.2).length ≤ 47433 → Drawn x.1 x.2) ?_ ?_ h hfew hearly
  · rintro ⟨l, log⟩ ⟨hinit, rfl⟩ - -
    exact .initial hinit
  · rintro ⟨l, log⟩ c ⟨l', log'⟩ hreach ih ⟨hstep, rfl⟩ hfew hearly
    have hbefore := Nat.lt_of_le_of_lt (inits_le log c) hfew
    have hsends : (sends (log ++ [c])).length = (sends log).length + (sends [c]).length := by
      rw [sends_append, List.length_append]
    have hlate : (sends (log ++ [c])).length ≤ 47433 := hearly
    have hdrawn := ih hbefore (by show (sends log).length ≤ 47433; omega)
    have hsettled := settled_of_reachable hreach hbefore
    cases c with
    | init a =>
        obtain ⟨-, rfl⟩ := hstep
        apply hdrawn.seeded hsends
        rw [init_pktMgr]
        dsimp only
        split
        · exact .inl rfl
        · exact .inr ⟨_, rfl⟩
    | forkMod child =>
        cases hstep
        apply hdrawn.seeded hsends
        cases child with
        | false => exact .inl rfl
        | true =>
            show (l.setsMgr.setUserModeSeedRand l.pktMgr l.nextSeed).rand = _ ∨ ∃ _, _ = _
            rw [setUserModeSeedRand_eq]
            dsimp only
            split
            · exact .inl rfl
            · exact .inr ⟨_, rfl⟩
    | sendtoErr buf wire =>
        obtain ⟨x, hpktMgr, hfate, -⟩ := hsettled.sendtoErr hbefore hstep
        have hrate := hsettled.errorRate
        have hquiet := hsettled.lists
        have hnow : (sends log).length < 47433 := by
          rw [show (sends [.sendtoErr buf wire]).length = 1 from rfl] at hsends
          omega
        rw [henv] at hrate
        rw [hlist, decide_eq_false List.not_mem_nil] at hquiet
        exact (hdrawn.sent hquiet (hdrawn.fires hrate hnow) hpktMgr hfate).2

theorem kept_early (henv : env.errRate = none) (hlist : env.dropList = [])
    (h : (runs env (.finite 0)).Reachable (l, log)) (hfew : inits log < 2 ^ 22) {i : Nat}
    (hi : i < 47433) {buf : Bytes} {wire : Option Bytes}
    (hsent : (sends log)[i]? = some (buf, wire)) : wire = some buf := by
  refine all_sends (p := fun i buf wire => i < 47433 → wire = some buf)
    (fun l log l' buf wire hreach hfew hstep hi => ?_) h hfew hsent hi
  have hsettled := settled_of_reachable hreach hfew
  have hdrawn := drawn_of_reachable henv hlist hreach hfew (by omega)
  obtain ⟨x, hpktMgr, hfate, -⟩ := hsettled.sendtoErr hfew hstep
  have hrate := hsettled.errorRate
  have hquiet := hsettled.lists
  rw [henv] at hrate
  rw [hlist, decide_eq_false List.not_mem_nil] at hquiet
  exact (hdrawn.sent hquiet (hdrawn.fires hrate hi) hpktMgr hfate).1

/-- **With an error rate of zero, the first 47433 datagrams are sent as they are**, whatever the
seed is, if the environment has neither another rate nor a drop list. No seed has a zero among the
numbers before the 47434th, there is one whose 47434th is zero, and a rate of zero is reached by
that. -/
theorem kept_of_reachable (henv : env.errRate = none) (hlist : env.dropList = [])
    (h : (runs env (.finite 0)).Reachable (l, log)) (hfew : inits log < 2 ^ 22) :
    (∀ i < 47433, ∀ buf wire, (sends log)[i]? = some (buf, wire) → wire = some buf) ∧
    (∀ seed, ∀ n < 47434, drand48^[n] (srand48 seed) ≠ 0) ∧
    (∃ seed, drand48^[47434] (srand48 seed) = 0) ∧
    ∀ x, (CFloat.finite 0).reaches x = true ↔ x = 0 :=
  ⟨fun _ hi _ _ hsent => kept_early henv hlist h hfew hi hsent,
    fun seed _ hn => iterate_drand48_ne_zero seed hn, ⟨_, iterate_drand48_eq_zero⟩, reaches_zero⟩

end

/-! ### The datagram after these -/

/-- An empty environment. -/
def noEnvironment : Environment := ⟨none, none, none, none⟩

/-- Initialised as by both programs, with a rate of zero, and the seed in question. -/
def zeroRate : SendErr := (load noEnvironment 0).init ⟨.finite 0, true, true, true, 4010914029, 0⟩

/-- A header. -/
def header : Bytes := [0, 0, 0, 0, 0, 0, 0]

/-- After `n` datagrams, all of them headers. -/
theorem exists_kept {n : Nat} (h : n ≤ 47433) : ∃ l log,
    (runs noEnvironment (.finite 0)).Reachable (l, log) ∧ (sends log).length = n ∧
      (∀ sent ∈ sends log, sent.1 = header) ∧ inits log = 0 ∧
      l.pktMgr.errorCaseChance = zeroRate.pktMgr.errorCaseChance ∧
      l.pktMgr.rand = drand48^[n] (srand48 4010914029) := by
  induction n with
  | zero =>
      refine ⟨zeroRate, [], .init ⟨⟨0, _, rfl, rfl⟩, rfl⟩, rfl, fun _ h => ?_, rfl, rfl, ?_⟩
      · cases h
      · rw [zeroRate, init_pktMgr]
        rfl
  | succ n ih =>
      obtain ⟨l, log, hreach, hsends, hheaders, hinits, hchance, hrand⟩ := ih (Nat.le_of_succ_le h)
      have hfew : inits log < 2 ^ 22 := by
        rw [hinits]
        decide
      have hsettled := settled_of_reachable hreach hfew
      have hdrawn : Drawn l log := ⟨4010914029, n, Nat.le_of_eq hsends.symm, hrand⟩
      obtain ⟨x, wire, hsend, hfate⟩ :=
        PacketManager.sendtoErr_fate (hsettled.configured hfew)
          (show pduHeaderLen ≤ header.length by decide) rfl
      have hquiet : l.pktMgr.lists = false := by
        rw [hsettled.lists]
        rfl
      have hfires := hdrawn.fires hsettled.errorRate (by omega)
      refine ⟨{ l with pktMgr := l.pktMgr.after header x }, log ++ [.sendtoErr header wire],
        hreach.step (i := .sendtoErr header wire) ⟨⟨_, hsend, rfl, rfl⟩, rfl⟩, ?_, ?_, ?_,
        hchance, ?_⟩
      · rw [sends_append, List.length_append, hsends]
        rfl
      · intro sent hsent
        rw [sends_append, List.mem_append] at hsent
        rcases hsent with hsent | hsent
        · exact hheaders sent hsent
        · rw [List.mem_singleton.mp hsent]
      · rw [inits_append, hinits]
        rfl
      · rw [Function.iterate_succ_apply' drand48, ← hrand]
        cases hfate with
        | kept => rfl
        | listed hlists => cases hquiet.symm.trans hlists
        | dropped hdisturbed => cases hfires.symm.trans hdisturbed
        | flipped _ hdisturbed => cases hfires.symm.trans hdisturbed

/-- One datagram later a rate of zero is no longer enough. -/
theorem kept_until_disturbed : ∃ l log, (runs noEnvironment (.finite 0)).Reachable (l, log) ∧
    (∀ i < 47433, (sends log)[i]? = some (header, some header)) ∧
    ∃ wire, (sends log)[47433]? = some (header, wire) ∧ wire ≠ some header := by
  obtain ⟨l, log, hreach, hsends, hheaders, hinits, hchance, hrand⟩ := exists_kept (Nat.le_refl _)
  have hfew : inits log < 2 ^ 22 := by
    rw [hinits]
    decide
  have hsettled := settled_of_reachable hreach hfew
  obtain ⟨x, wire, hsend, hfate⟩ :=
    PacketManager.sendtoErr_fate (hsettled.configured hfew)
      (show pduHeaderLen ≤ header.length by decide) rfl
  refine ⟨{ l with pktMgr := l.pktMgr.after header x }, log ++ [.sendtoErr header wire],
    hreach.step (i := .sendtoErr header wire) ⟨⟨_, hsend, rfl, rfl⟩, rfl⟩, fun i hi => ?_, wire,
    ?_, ?_⟩
  · rw [sends_append, List.getElem?_append_left (by omega)]
    have hget : (sends log)[i]? = some (sends log)[i] := List.getElem?_eq_getElem (by omega)
    have hbuf : (sends log)[i].1 = header := hheaders _ (List.getElem_mem _)
    have hkept : (sends log)[i].2 = some (sends log)[i].1 :=
      (kept_of_reachable rfl rfl hreach hfew).1 i hi _ _ (hget.trans (congrArg some rfl))
    rw [hget, Option.some.injEq, Prod.ext_iff, hkept, hbuf]
    exact ⟨rfl, rfl⟩
  · rw [sends_append, List.getElem?_append_right (by omega), hsends]
    rfl
  · have hzero : drand48 l.pktMgr.rand = 0 := by
      rw [hrand, ← Function.iterate_succ_apply' drand48]
      exact iterate_drand48_eq_zero
    have hfires : l.pktMgr.fires = true := by
      have hreaches : (CFloat.finite 0).reaches 0 = true := (reaches_zero 0).mpr rfl
      rw [PacketManager.fires, hchance, hsettled.errorRate, hzero]
      exact hreaches
    cases hfate with
    | kept _ hquiet => cases hfires.symm.trans hquiet
    | listed => exact (Option.some_ne_none header).symm
    | dropped => exact (Option.some_ne_none header).symm
    | flipped _ _ _ _ hi => exact fun hc => errorFlipBits_ne hi (Option.some.inj hc)

end SendErr

end RemoteCopy

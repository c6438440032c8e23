import RemoteCopy.Reassembly

/-!
# Gaps

What the abstract receiver asks for over a whole run, whatever the payloads are. Here it is alone:
nothing is known of its peer but that it sends no data without payload. `Receiver.Orderly` is its
invariant, and `Receiver.Asked` relates it to everything it has sent so far: acknowledgements never
run ahead of the file, and every gap below `highest` has been asked for exactly once.
-/

namespace RemoteCopy

namespace Receiver

variable {a : Receiver} {s : Nat} {packet : Packet} {cs : List Reply}

/-! ## The receiver alone -/

/-- The receiver has its window and its file in order: one entry of the file for each number below
`current`, and nothing stored but between `current` and `highest`. -/
structure Orderly (a : Receiver) : Prop where
  file : a.file.length = a.current
  stored : ∀ k, a.stored k ≠ none → a.current ≤ k ∧ k ≤ a.highest
  inOrder : a.point = .inOrder → ∀ k, a.stored k = none
  highest : a.point = .inOrder → a.current = 0 ∨ a.highest + 1 = a.current
  current : a.point = .inOrder ∨ a.point = .buffering → a.stored a.current = none
  ahead : a.point = .buffering ∨ a.point = .flush → a.stored a.highest ≠ none

theorem Orderly.fresh : fresh.Orderly where
  file := rfl
  stored := fun _ h => absurd rfl h
  inOrder := fun _ _ => rfl
  highest := fun _ => .inl rfl
  current := fun _ => rfl
  ahead := fun h => h.elim (fun h => (by cases h)) fun h => (by cases h)

theorem Orderly.current_le_highest (h : a.Orderly)
    (hpoint : a.point = .buffering ∨ a.point = .flush) : a.current ≤ a.highest :=
  (h.stored _ (h.ahead hpoint)).1

/-- A PDU beyond `current` extends what is stored. -/
theorem Orderly.keep (h : a.Orderly) (hs : a.current < s) : ∀ k, a.keep s packet k ≠ none →
    a.current ≤ k ∧ k ≤ max a.highest s := by
  intro k hk
  by_cases hks : k = s
  · omega
  · rw [a.keep_of_ne packet hks] at hk
    have := h.stored k hk
    omega

theorem Orderly.done (h : a.Orderly) (why : RcopyExit) :
    Orderly { a with point := .done why } where
  file := h.file
  stored := h.stored
  inOrder := fun hc => (by cases hc)
  highest := fun hc => (by cases hc)
  current := fun hc => hc.elim (fun hc => (by cases hc)) fun hc => (by cases hc)
  ahead := fun hc => hc.elim (fun hc => (by cases hc)) fun hc => (by cases hc)

/-- **Receiving keeps the receiver in order**, whatever the payload, as long as there is one. -/
theorem Orderly.accept (h : a.Orderly) (hpoint : a.point = .inOrder ∨ a.point = .buffering)
    (hp : packet.flag = eofFlag ∨ packet.payload ≠ []) : (a.accept s packet).1.Orderly := by
  have hreceived := received hpoint s packet
  generalize a.accept s packet = x at hreceived ⊢
  cases hreceived with
  | old hs => exact h
  | eof _ hs hflag => exact h.done .eofAck
  | empty _ hs hflag hempty => exact absurd hempty (hp.resolve_left hflag)
  | written hpoint hs hflag hne =>
      have hempty := h.inOrder hpoint
      exact {
        file := by
          show (a.file ++ [packet.payload]).length = s + 1
          rw [List.length_append, h.file, hs]
          rfl
        stored := fun k hk => absurd (hempty k) hk
        inOrder := fun _ => hempty
        highest := fun _ => .inr rfl
        current := fun _ => hempty _
        ahead := fun hc => hc.elim (fun hc => (by cases hc)) fun hc => (by cases hc) }
  | opened hpoint hs =>
      have hempty := h.inOrder hpoint
      exact {
        file := h.file
        stored := by
          intro k hk
          change a.keep s packet k ≠ none at hk
          show a.current ≤ k ∧ k ≤ s
          by_cases hks : k = s
          · omega
          · rw [a.keep_of_ne packet hks] at hk
            exact absurd (hempty k) hk
        inOrder := fun hc => (by cases hc)
        highest := fun hc => (by cases hc)
        current := fun _ => by
          show a.keep s packet a.current = none
          rw [a.keep_of_ne packet (Nat.ne_of_lt hs)]
          exact hempty _
        ahead := fun _ => a.keep_self s packet }
  | kept hpoint hs =>
      exact {
        file := h.file
        stored := h.keep hs
        inOrder := fun hc => (by cases hc)
        highest := fun hc => (by cases hc)
        current := fun _ => by
          show a.keep s packet a.current = none
          rw [a.keep_of_ne packet (Nat.ne_of_lt hs)]
          exact h.current (.inr hpoint)
        ahead := fun _ => keep_max (h.ahead (.inl hpoint)) }
  | dropped hpoint hs hflag => exact h
  | filled hpoint hs hflag =>
      have hnone := h.current (.inr hpoint)
      exact {
        file := by
          show (if _ then _ else _ : List Bytes).length = s + 1
          rw [if_neg (hp.resolve_left hflag), List.length_append, h.file, hs]
          rfl
        stored := by
          intro k hk
          obtain ⟨hlow, hhigh⟩ := h.stored k hk
          -- The block just written was not stored, so `current` may move past it.
          have hne : k ≠ a.current := fun hk' => hk (hk' ▸ hnone)
          show s + 1 ≤ k ∧ k ≤ a.highest
          omega
        inOrder := fun hc => (by cases hc)
        highest := fun hc => (by cases hc)
        current := fun hc => hc.elim (fun hc => (by cases hc)) fun hc => (by cases hc)
        ahead := fun _ => h.ahead (.inl hpoint) }

/-- **So does flushing.** -/
theorem Orderly.flush (h : a.Orderly) (hpoint : a.point = .flush) : a.flush.1.Orderly := by
  have hahead := h.ahead (.inr hpoint)
  unfold Receiver.flush
  cases hstored : a.stored a.current with
  | none =>
      exact {
        file := h.file
        stored := h.stored
        inOrder := fun hc => (by cases hc)
        highest := fun hc => (by cases hc)
        current := fun _ => hstored
        ahead := fun _ => hahead }
  | some packet =>
      by_cases heof : packet.flag = eofFlag
      · simp only [if_pos heof]
        exact h.done .eofAck
      · simp only [if_neg heof]
        have hrest : ∀ k, Function.update a.stored a.current none k ≠ none →
            a.current + 1 ≤ k ∧ k ≤ a.highest := by
          intro k hk
          by_cases hkc : k = a.current
          · rw [hkc, Function.update_self] at hk
            exact absurd rfl hk
          · rw [Function.update_of_ne hkc] at hk
            have := h.stored k hk
            omega
        have hfile : (a.file ++ [packet.payload]).length = a.current + 1 := by
          rw [List.length_append, h.file]
          rfl
        have hle := h.current_le_highest (.inr hpoint)
        by_cases hleave : a.highest < a.current + 1
        · rw [if_pos hleave]
          -- Everything stored is between the new `current` and `highest`: nothing is.
          have hnone : ∀ k, Function.update a.stored a.current none k = none := by
            intro k
            by_contra hk
            have := hrest k hk
            omega
          exact {
            file := hfile
            stored := hrest
            inOrder := fun _ => hnone
            highest := fun _ => .inr (by simp only; omega)
            current := fun _ => hnone _
            ahead := fun hc => hc.elim (fun hc => (by cases hc)) fun hc => (by cases hc) }
        · rw [if_neg hleave]
          exact {
            file := hfile
            stored := hrest
            inOrder := fun hc => (by cases hc)
            highest := fun hc => (by cases hc)
            current := fun hc => hc.elim (fun hc => (by cases hc)) fun hc => (by cases hc)
            ahead := fun _ => by
              show Function.update a.stored a.current none a.highest ≠ none
              rw [Function.update_of_ne (by omega)]
              exact hahead }

/-! ## What has been sent -/

/-- The numbers of the RRs among the replies. -/
def rrs (cs : List Reply) : List Nat :=
  cs.filterMap fun c => match c with
    | .rr n => some n
    | _ => none

/-- The numbers of the SREJs among the replies. -/
def srejed (cs : List Reply) : List Nat :=
  cs.filterMap fun c => match c with
    | .srej n => some n
    | _ => none

theorem mem_srejed {n : Nat} : n ∈ srejed cs ↔ .srej n ∈ cs := by
  rw [srejed, List.mem_filterMap]
  constructor
  · rintro ⟨c, hc, hn⟩
    cases c with
    | rr k => cases hn
    | srej k =>
        cases hn
        exact hc
    | eofAck => cases hn
  · intro h
    exact ⟨_, h, rfl⟩

theorem mem_rrs {n : Nat} : n ∈ rrs cs ↔ .rr n ∈ cs := by
  rw [rrs, List.mem_filterMap]
  constructor
  · rintro ⟨c, hc, hn⟩
    cases c with
    | rr k =>
        cases hn
        exact hc
    | srej k => cases hn
    | eofAck => cases hn
  · intro h
    exact ⟨_, h, rfl⟩

theorem srejed_srejs (i n : Nat) : srejed (srejs i n) = List.range' i (n - i) := by
  rw [srejed, srejs, List.filterMap_map]
  exact List.filterMap_some

theorem rrs_srejs (i n : Nat) : rrs (srejs i n) = [] := by
  rw [rrs, srejs, List.filterMap_map]
  exact List.filterMap_eq_nil_iff.mpr fun _ _ => rfl

/-- The receiver `a` has sent the replies `cs`: acknowledgements up to `current`, and one SREJ for
each number between `current` and `highest` that is not stored. -/
structure Asked (a : Receiver) (cs : List Reply) : Prop where
  rrs_sorted : (rrs cs).Pairwise (· ≤ ·)
  rrs_le : ∀ n ∈ rrs cs, n ≤ a.current
  srejed_sorted : (srejed cs).Pairwise (· < ·)
  srejed_inOrder : a.point = .inOrder → ∀ n ∈ srejed cs, n < a.current
  srejed_ahead : a.point = .buffering ∨ a.point = .flush → ∀ n ∈ srejed cs, n < a.highest
  gaps : a.point = .buffering ∨ a.point = .flush → ∀ k, a.current ≤ k → k ≤ a.highest →
    a.stored k ≠ none ∨ k ∈ srejed cs

theorem Asked.fresh : fresh.Asked [] where
  rrs_sorted := .nil
  rrs_le := fun _ hn => (by cases hn)
  srejed_sorted := .nil
  srejed_inOrder := fun _ _ hn => (by cases hn)
  srejed_ahead := fun _ _ hn => (by cases hn)
  gaps := fun hc => hc.elim (fun hc => (by cases hc)) fun hc => (by cases hc)

section
variable {a' : Receiver}

/-- Nothing is sent, and no gap opens. -/
theorem Asked.silent (h : a.Asked cs) {cs' : List Reply} (hrrs : rrs cs' = [])
    (hsrejed : srejed cs' = []) (hcurrent : a'.current = a.current)
    (hinOrder : a'.point = .inOrder → ∀ n ∈ srejed cs, n < a'.current)
    (hahead : a'.point = .buffering ∨ a'.point = .flush →
      (∀ n ∈ srejed cs, n < a'.highest) ∧ ∀ k, a'.current ≤ k → k ≤ a'.highest →
        a'.stored k ≠ none ∨ k ∈ srejed cs) : a'.Asked (cs ++ cs') := by
  have hrrs' : rrs (cs ++ cs') = rrs cs := by
    rw [rrs, List.filterMap_append, ← rrs, ← rrs, hrrs, List.append_nil]
  have hsrejed' : srejed (cs ++ cs') = srejed cs := by
    rw [srejed, List.filterMap_append, ← srejed, ← srejed, hsrejed, List.append_nil]
  constructor
  · rw [hrrs']
    exact h.rrs_sorted
  · rw [hrrs', hcurrent]
    exact h.rrs_le
  · rw [hsrejed']
    exact h.srejed_sorted
  · rw [hsrejed']
    exact hinOrder
  · intro hpoint
    rw [hsrejed']
    exact (hahead hpoint).1
  · intro hpoint
    rw [hsrejed']
    exact (hahead hpoint).2

/-- An acknowledgement is sent, and no gap opens. -/
theorem Asked.rr (h : a.Asked cs) (hcurrent : a.current ≤ a'.current)
    (hinOrder : a'.point = .inOrder → ∀ n ∈ srejed cs, n < a'.current)
    (hahead : a'.point = .buffering ∨ a'.point = .flush →
      (∀ n ∈ srejed cs, n < a'.highest) ∧ ∀ k, a'.current ≤ k → k ≤ a'.highest →
        a'.stored k ≠ none ∨ k ∈ srejed cs) : a'.Asked (cs ++ [.rr a'.current]) := by
  have hrrs' : rrs (cs ++ [.rr a'.current]) = rrs cs ++ [a'.current] := by
    rw [rrs, List.filterMap_append, ← rrs]
    rfl
  have hsrejed' : srejed (cs ++ [.rr a'.current]) = srejed cs := by
    rw [srejed, List.filterMap_append, ← srejed]
    exact List.append_nil _
  have hle : ∀ n ∈ rrs cs, n ≤ a'.current := fun n hn => Nat.le_trans (h.rrs_le n hn) hcurrent
  constructor
  · rw [hrrs', List.pairwise_append]
    refine ⟨h.rrs_sorted, List.pairwise_singleton .., ?_⟩
    intro n hn k hk
    rw [List.mem_singleton.mp hk]
    exact hle n hn
  · rw [hrrs']
    intro n hn
    rcases List.mem_append.mp hn with hn | hn
    · exact hle n hn
    · exact Nat.le_of_eq (List.mem_singleton.mp hn)
  · rw [hsrejed']
    exact h.srejed_sorted
  · rw [hsrejed']
    exact hinOrder
  · intro hpoint
    rw [hsrejed']
    exact (hahead hpoint).1
  · intro hpoint
    rw [hsrejed']
    exact (hahead hpoint).2

/-- A gap opens from `i` up to `s`, beyond everything asked for so far, and is asked for. -/
theorem Asked.srejs (h : a.Asked cs) {i : Nat} (hcurrent : a'.current = a.current)
    (hpoint : a'.point = .buffering) (hbelow : ∀ n ∈ srejed cs, n < i)
    (hhigh : ∀ n ∈ srejed cs, n < a'.highest) (hhighest : s ≤ a'.highest)
    (hgaps : ∀ k, a'.current ≤ k → k ≤ a'.highest →
      a'.stored k ≠ none ∨ k ∈ srejed cs ∨ (i ≤ k ∧ k < s)) :
    a'.Asked (cs ++ Receiver.srejs i s) := by
  have hrrs' : rrs (cs ++ Receiver.srejs i s) = rrs cs := by
    rw [rrs, List.filterMap_append, ← rrs, ← rrs, rrs_srejs, List.append_nil]
  have hsrejed' : srejed (cs ++ Receiver.srejs i s) = srejed cs ++ List.range' i (s - i) := by
    rw [srejed, List.filterMap_append, ← srejed, ← srejed, srejed_srejs]
  have hmem (k : Nat) : k ∈ srejed cs ++ List.range' i (s - i) ↔
      k ∈ srejed cs ∨ (i ≤ k ∧ k < s) := by
    rw [List.mem_append, List.mem_range'_1]
    exact or_congr_right (by omega)
  constructor
  · rw [hrrs']
    exact h.rrs_sorted
  · rw [hrrs', hcurrent]
    exact h.rrs_le
  · rw [hsrejed', List.pairwise_append]
    refine ⟨h.srejed_sorted, List.pairwise_lt_range', ?_⟩
    intro n hn k hk
    exact Nat.lt_of_lt_of_le (hbelow n hn) (List.mem_range'_1.mp hk).1
  · intro hc
    cases hpoint.symm.trans hc
  · intro _ n hn
    rw [hsrejed', hmem] at hn
    rcases hn with hn | hn
    · exact hhigh n hn
    · omega
  · intro _ k hlow hk
    rw [hsrejed', hmem]
    exact hgaps k hlow hk

end

/-- **Receiving asks for what is missing, once.** -/
theorem Asked.accept (h : a.Asked cs) (hpoint : a.point = .inOrder ∨ a.point = .buffering) :
    (a.accept s packet).1.Asked (cs ++ (a.accept s packet).2) := by
  have hreceived := received hpoint s packet
  generalize a.accept s packet = x at hreceived ⊢
  have hahead (hc : a.point = .buffering ∨ a.point = .flush) := And.intro (h.srejed_ahead hc)
    (h.gaps hc)
  cases hreceived with
  | old hs => exact h.rr (Nat.le_refl _) h.srejed_inOrder hahead
  | eof _ hs hflag =>
      exact h.silent rfl rfl rfl (fun hc => by cases hc) fun hc =>
        hc.elim (fun hc => by cases hc) fun hc => by cases hc
  | empty _ hs hflag hempty =>
      exact h.silent rfl rfl rfl (fun hc => by cases hc) fun hc =>
        hc.elim (fun hc => by cases hc) fun hc => by cases hc
  | written hpoint hs hflag hne =>
      refine h.rr (by simp only; omega) ?_ fun hc =>
        hc.elim (fun hc => by cases hc) fun hc => by cases hc
      intro _ n hn
      have := h.srejed_inOrder hpoint n hn
      simp only
      omega
  | opened hpoint hs =>
      have hbelow := h.srejed_inOrder hpoint
      refine h.srejs rfl rfl hbelow ?_ (Nat.le_refl s) ?_
      · intro n hn
        exact Nat.lt_trans (hbelow n hn) hs
      · intro k hlow hk
        rcases Nat.lt_or_eq_of_le hk with hlt | rfl
        · exact .inr (.inr ⟨hlow, hlt⟩)
        · exact .inl (a.keep_self _ packet)
  | kept hpoint hs =>
      have hbelow := h.srejed_ahead (.inl hpoint)
      refine h.srejs rfl rfl ?_ ?_ (Nat.le_max_right _ _) ?_
      · intro n hn
        exact Nat.lt_succ_of_lt (hbelow n hn)
      · intro n hn
        exact Nat.lt_of_lt_of_le (hbelow n hn) (Nat.le_max_left _ _)
      · intro k hlow hk
        simp only at hlow hk
        rcases Nat.lt_or_ge a.highest k with hgt | hle
        · -- Beyond the old `highest`: the PDU just received, or newly asked for.
          rcases Nat.lt_or_ge k s with hlt | hge
          · exact .inr (.inr ⟨hgt, hlt⟩)
          · have hks : k = s := by omega
            rw [hks]
            exact .inl (a.keep_self s packet)
        · rcases h.gaps (.inl hpoint) k hlow hle with hstored | hasked
          · exact .inl (keep_ne_none hstored)
          · exact .inr (.inl hasked)
  | dropped hpoint hs hflag => exact h.silent rfl rfl rfl h.srejed_inOrder hahead
  | filled hpoint hs hflag =>
      refine h.rr (by simp only; omega) (fun hc => by cases hc) fun _ => ⟨?_, ?_⟩
      · exact h.srejed_ahead (.inl hpoint)
      · intro k hlow hk
        exact h.gaps (.inl hpoint) k (by simp only at hlow; omega) hk

theorem Asked.flush (h : a.Asked cs) (hpoint : a.point = .flush) :
    a.flush.1.Asked (cs ++ a.flush.2) := by
  have hbelow := h.srejed_ahead (.inr hpoint)
  have hgaps := h.gaps (.inr hpoint)
  unfold Receiver.flush
  cases hstored : a.stored a.current with
  | none => exact h.silent rfl rfl rfl (fun hc => by cases hc) fun _ => ⟨hbelow, hgaps⟩
  | some packet =>
      by_cases heof : packet.flag = eofFlag
      · simp only [if_pos heof]
        exact h.silent rfl rfl rfl (fun hc => by cases hc) fun hc =>
          hc.elim (fun hc => by cases hc) fun hc => by cases hc
      · simp only [if_neg heof]
        refine h.rr (Nat.le_succ _) ?_ fun _ => ⟨hbelow, ?_⟩
        · intro hc n hn
          have hn := hbelow n hn
          simp only at hc ⊢
          split at hc
          · omega
          · cases hc
        · intro k hlow hk
          simp only at hlow hk ⊢
          rw [Function.update_of_ne (by omega)]
          exact hgaps k (by omega) hk

/-- What a reply says about the receiver is true when it is sent, on the way from `a` to `a'`. -/
def Truthful (a a' : Receiver) : Reply → Prop
  | .rr n => n = a'.current
  | .srej n => a'.current = a.current ∧ a.current ≤ n ∧ n < a'.highest ∧ a.stored n = none ∧
      a'.stored n = none
  | .eofAck => True

/-- What is asked for is neither written nor stored. -/
theorem Orderly.accept_truthful (h : a.Orderly)
    (hpoint : a.point = .inOrder ∨ a.point = .buffering) :
    ∀ c ∈ (a.accept s packet).2, a.Truthful (a.accept s packet).1 c := by
  have hreceived := received hpoint s packet
  generalize a.accept s packet = x at hreceived ⊢
  intro c hc
  cases hreceived with
  | old hs =>
      rw [List.mem_singleton.mp hc]
      rfl
  | eof _ hs hflag =>
      rw [List.mem_singleton.mp hc]
      trivial
  | empty _ hs hflag hempty => cases hc
  | written hpoint hs hflag hne =>
      rw [List.mem_singleton.mp hc]
      rfl
  | opened hpoint hs =>
      obtain ⟨n, rfl, hlow, hhigh⟩ := mem_srejs hc
      have hnone := h.inOrder hpoint n
      refine ⟨rfl, hlow, hhigh, hnone, ?_⟩
      show a.keep s packet n = none
      rw [a.keep_of_ne packet (Nat.ne_of_lt hhigh)]
      exact hnone
  | kept hpoint hs =>
      obtain ⟨n, rfl, hlow, hhigh⟩ := mem_srejs hc
      have hle := h.current_le_highest (.inl hpoint)
      have hnone : a.stored n = none := by
        by_contra hn
        have := (h.stored n hn).2
        omega
      refine ⟨rfl, by omega, Nat.lt_of_lt_of_le hhigh (Nat.le_max_right _ _), hnone, ?_⟩
      show a.keep s packet n = none
      rw [a.keep_of_ne packet (Nat.ne_of_lt hhigh)]
      exact hnone
  | dropped hpoint hs hflag => cases hc
  | filled hpoint hs hflag =>
      rw [List.mem_singleton.mp hc]
      rfl

theorem flush_truthful (a : Receiver) : ∀ c ∈ a.flush.2, a.Truthful a.flush.1 c := by
  intro c hc
  unfold flush at hc ⊢
  split at hc
  · cases hc
  · split at hc
    · next heof =>
        rw [List.mem_singleton.mp hc]
        trivial
    · next heof =>
        rw [List.mem_singleton.mp hc, if_neg heof]
        rfl

/-- A receiver that polls in order after it has received a PDU is past number 0: what is new to it
was written, and what is old was written before. -/
theorem accept_current_pos (hpoint : a.point = .inOrder ∨ a.point = .buffering)
    (hafter : (a.accept s packet).1.point = .inOrder) : 0 < (a.accept s packet).1.current := by
  have hreceived := received hpoint s packet
  generalize a.accept s packet = x at hreceived hafter ⊢
  cases hreceived with
  | old hs => exact Nat.lt_of_le_of_lt (Nat.zero_le s) hs
  | eof _ _ _ | empty _ _ _ _ | opened _ _ | kept _ _ | filled _ _ _ => cases hafter
  | written _ _ _ _ => exact Nat.succ_pos s
  | dropped hpoint _ _ => cases hpoint.symm.trans hafter

/-- Nor does a flush end in order at number 0. -/
theorem flush_current_pos (hafter : a.flush.1.point = .inOrder) : 0 < a.flush.1.current := by
  unfold flush at hafter ⊢
  split at hafter
  · cases hafter
  · split at hafter
    · cases hafter
    · next heof =>
        rw [if_neg heof]
        exact Nat.succ_pos _

/-- What the receiver does in one go: nothing, or it receives a PDU with something in it, or
flushes one. -/
inductive Next (a : Receiver) : Receiver × List Reply → Prop
  | idle : Next a (a, [])
  | accept (hpoint : a.point = .inOrder ∨ a.point = .buffering) (s : Nat) (packet : Packet)
      (hp : packet.flag = eofFlag ∨ packet.payload ≠ []) : Next a (a.accept s packet)
  | flush (hpoint : a.point = .flush) : Next a a.flush

section
variable {x : Receiver × List Reply}

theorem Orderly.next (h : a.Orderly) (hx : a.Next x) : x.1.Orderly := by
  cases hx with
  | idle => exact h
  | accept hpoint s packet hp => exact h.accept hpoint hp
  | flush hpoint => exact h.flush hpoint

/-- So a receiver that polls in order at number 0 has been there all along. -/
theorem Next.current_pos (hx : a.Next x) (ha : a.point = .inOrder → 0 < a.current)
    (hafter : x.1.point = .inOrder) : 0 < x.1.current := by
  cases hx with
  | idle => exact ha hafter
  | accept hpoint s packet hp => exact accept_current_pos hpoint hafter
  | flush hpoint => exact flush_current_pos hafter

theorem Asked.next (h : a.Asked cs) (hx : a.Next x) : x.1.Asked (cs ++ x.2) := by
  cases hx with
  | idle =>
      rw [List.append_nil]
      exact h
  | accept hpoint s packet hp => exact h.accept hpoint
  | flush hpoint => exact h.flush hpoint

theorem Orderly.next_truthful (h : a.Orderly) (hx : a.Next x) : ∀ c ∈ x.2, a.Truthful x.1 c := by
  cases hx with
  | idle =>
      intro c hc
      cases hc
  | accept hpoint s packet hp => exact h.accept_truthful hpoint
  | flush hpoint => exact a.flush_truthful

end

end Receiver

end RemoteCopy

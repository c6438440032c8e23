import RemoteCopy.Receiver

/-!
# Reassembly

What the abstract receiver does with the PDUs of a file, in whatever order they come. `block` is
the file, by sequence number; it ends where it is `none`, and that is where the EOF belongs.
`Receiver.Assembles` is the invariant: the file so far is the first `current` blocks, and
everything in the window is a PDU of the file.
-/

namespace RemoteCopy

/-- The PDU is the block `x` of a file, or the EOF where the file has no block. -/
def Packet.Matches (packet : Packet) : Option Bytes → Prop
  | some block => IsDataFlag packet.flag ∧ packet.payload = block ∧ block ≠ []
  | none => packet.flag = eofFlag

theorem Packet.Matches.flag_eq_eofFlag {packet : Packet} {x : Option Bytes}
    (h : packet.Matches x) : packet.flag = eofFlag ↔ x = none := by
  cases x with
  | none => exact ⟨fun _ => rfl, fun _ => h⟩
  | some block =>
      refine ⟨fun heof => ?_, fun hx => (by cases hx)⟩
      have hdata := h.1
      rw [heof] at hdata
      exact absurd hdata (by decide)

theorem Packet.Matches.payload_ne_nil {packet : Packet} {x : Option Bytes} (h : packet.Matches x)
    (hx : x ≠ none) : packet.payload ≠ [] := by
  obtain ⟨payload, rfl⟩ := Option.ne_none_iff_exists'.mp hx
  obtain ⟨-, rfl, hne⟩ := h
  exact hne

/-- What is not the EOF is a block. -/
theorem Packet.Matches.eq_some {packet : Packet} {x : Option Bytes} (h : packet.Matches x)
    (hflag : packet.flag ≠ eofFlag) : x = some packet.payload ∧ packet.payload ≠ [] := by
  obtain ⟨payload, rfl⟩ := Option.ne_none_iff_exists'.mp (mt h.flag_eq_eofFlag.mpr hflag)
  obtain ⟨-, rfl, hne⟩ := h
  exact ⟨rfl, hne⟩

namespace Receiver

variable {block : Nat → Option Bytes} {a : Receiver} {s : Nat} {packet : Packet}

/-- The receiver is assembling the file `block`. -/
structure Assembles (a : Receiver) (block : Nat → Option Bytes) : Prop where
  file : a.file.map some = (List.range a.current).map block
  stored : ∀ k packet, a.stored k = some packet →
    a.current ≤ k ∧ k ≤ a.highest ∧ packet.Matches (block k)
  inOrder : a.point = .inOrder → ∀ k, a.stored k = none
  current : ∀ packet, a.stored a.current = some packet →
    a.point = .flush ∨ (a.point = .done .eofAck ∧ packet.flag = eofFlag)
  ahead : a.point = .buffering ∨ a.point = .flush → a.stored a.highest ≠ none
  done : ∀ why, a.point = .done why → why = .timeout ∨ (why = .eofAck ∧ block a.current = none)

theorem Assembles.fresh : fresh.Assembles block where
  file := rfl
  stored := fun _ _ h => (by cases h)
  inOrder := fun _ _ => rfl
  current := fun _ h => (by cases h)
  ahead := fun h => h.elim (fun h => (by cases h)) fun h => (by cases h)
  done := fun _ h => (by cases h)

/-- At its polls the receiver does not have the block it waits for. -/
theorem Assembles.current_none (h : a.Assembles block)
    (hpoint : a.point = .inOrder ∨ a.point = .buffering) : a.stored a.current = none := by
  cases hstored : a.stored a.current with
  | none => rfl
  | some packet =>
      rcases h.current packet hstored with hflush | ⟨hdone, -⟩
      · exact absurd hflush (RcopyPoint.ne_flush hpoint)
      · exact absurd hdone (RcopyPoint.ne_done hpoint _)

theorem Assembles.current_le_highest (h : a.Assembles block)
    (hpoint : a.point = .buffering ∨ a.point = .flush) : a.current ≤ a.highest := by
  obtain ⟨packet, hpacket⟩ := Option.ne_none_iff_exists'.mp (h.ahead hpoint)
  exact (h.stored _ _ hpacket).1

/-! ## The window -/

theorem keep_self (a : Receiver) (s : Nat) (packet : Packet) : a.keep s packet s ≠ none := by
  unfold keep
  split
  · next h => exact Option.isSome_iff_ne_none.mp h
  · rw [Function.update_self]
    exact Option.some_ne_none packet

theorem keep_of_ne (a : Receiver) (packet : Packet) {k s : Nat} (h : k ≠ s) :
    a.keep s packet k = a.stored k := by
  unfold keep
  split
  · rfl
  · exact Function.update_of_ne h ..

/-- What is kept is what was stored, or the new PDU. -/
theorem keep_some {k : Nat} {p : Packet} (h : a.keep s packet k = some p) :
    a.stored k = some p ∨ (k = s ∧ p = packet) := by
  unfold keep at h
  split at h
  · exact .inl h
  · by_cases hks : k = s
    · rw [hks, Function.update_self] at h
      exact .inr ⟨hks, (Option.some.inj h).symm⟩
    · rw [Function.update_of_ne hks] at h
      exact .inl h

theorem keep_ne_none {k : Nat} (h : a.stored k ≠ none) : a.keep s packet k ≠ none := by
  by_cases hks : k = s
  · rw [hks]
    exact a.keep_self s packet
  · rw [a.keep_of_ne packet hks]
    exact h

theorem keep_max (h : a.stored a.highest ≠ none) : a.keep s packet (max a.highest s) ≠ none := by
  rcases Nat.le_total a.highest s with hle | hle
  · rw [Nat.max_eq_right hle]
    exact a.keep_self s packet
  · rw [Nat.max_eq_left hle]
    exact keep_ne_none h

/-- Everything kept belongs to the file. -/
theorem Assembles.keep (h : a.Assembles block) (hp : packet.Matches (block s))
    (hs : a.current ≤ s) : ∀ k p, a.keep s packet k = some p →
      a.current ≤ k ∧ k ≤ max a.highest s ∧ p.Matches (block k) := by
  intro k p hk
  rcases keep_some hk with hold | ⟨rfl, rfl⟩
  · obtain ⟨h1, h2, h3⟩ := h.stored k p hold
    exact ⟨h1, Nat.le_trans h2 (Nat.le_max_left ..), h3⟩
  · exact ⟨hs, Nat.le_max_right _ _, hp⟩

/-- One more block of the file. -/
theorem Assembles.append (h : a.Assembles block) {payload : Bytes}
    (hblock : block a.current = some payload) :
    (a.file ++ [payload]).map some = (List.range (a.current + 1)).map block := by
  rw [List.map_append, h.file, List.range_succ, List.map_append, List.map_singleton,
    List.map_singleton, hblock]

/-! ## Steps -/

/-- **Receiving keeps the file assembled**, whatever the order. -/
theorem Assembles.accept (h : a.Assembles block) (hp : packet.Matches (block s)) :
    (a.accept s packet).1.Assembles block := by
  rcases a.received_or_idle s packet with hreceived | hidle
  swap
  · rw [hidle]
    exact h
  generalize a.accept s packet = x at hreceived ⊢
  cases hreceived with
  | old hs => exact h
  | eof hpoint hs hflag =>
      have hempty := h.inOrder hpoint
      exact {
        file := h.file
        stored := h.stored
        inOrder := fun hc => (by cases hc)
        current := fun p hc => (by cases (hempty a.current).symm.trans hc)
        ahead := fun hc => hc.elim (fun hc => (by cases hc)) fun hc => (by cases hc)
        done := fun why hc => by
          cases hc
          exact .inr ⟨rfl, hs ▸ hp.flag_eq_eofFlag.mp hflag⟩ }
  | empty _ _ hflag hempty => exact absurd hempty (hp.eq_some hflag).2
  | written hpoint hs hflag _ =>
      have hempty := h.inOrder hpoint
      exact {
        file := by
          show _ = (List.range (s + 1)).map block
          rw [hs] at hp ⊢
          exact h.append (hp.eq_some hflag).1
        stored := fun k p hk => (by cases (hempty k).symm.trans hk)
        inOrder := fun _ => hempty
        current := fun p hc => (by cases (hempty _).symm.trans hc)
        ahead := fun hc => hc.elim (fun hc => (by cases hc)) fun hc => (by cases hc)
        done := fun _ hc => (by cases hc) }
  | opened hpoint hs =>
      have hempty := h.inOrder hpoint
      exact {
        file := h.file
        stored := fun k p hk => by
          obtain ⟨h1, -, h3⟩ := h.keep hp (Nat.le_of_lt hs) k p hk
          refine ⟨h1, ?_, h3⟩
          rcases keep_some hk with hold | ⟨rfl, -⟩
          · cases (hempty k).symm.trans hold
          · exact Nat.le_refl k
        inOrder := fun hc => (by cases hc)
        current := fun p hc => by
          rcases keep_some hc with hold | ⟨heq, -⟩
          · cases (hempty a.current).symm.trans hold
          · exact absurd heq (Nat.ne_of_lt hs)
        ahead := fun _ => a.keep_self s packet
        done := fun _ hc => (by cases hc) }
  | kept hpoint hs =>
      exact {
        file := h.file
        stored := h.keep hp (Nat.le_of_lt hs)
        inOrder := fun hc => (by cases hc)
        current := fun p hc => by
          rcases keep_some hc with hold | ⟨heq, -⟩
          · cases (h.current_none (.inr hpoint)).symm.trans hold
          · exact absurd heq (Nat.ne_of_lt hs)
        ahead := fun _ => keep_max (h.ahead (.inl hpoint))
        done := fun _ hc => (by cases hc) }
  | dropped _ _ _ => exact h
  | filled hpoint hs hflag =>
      have hnone := h.current_none (.inr hpoint)
      exact {
        file := by
          show (if _ then _ else _ : List Bytes).map some = (List.range (s + 1)).map block
          rw [hs] at hp ⊢
          rw [if_neg (hp.eq_some hflag).2]
          exact h.append (hp.eq_some hflag).1
        stored := fun k p hk => by
          obtain ⟨h1, h2, h3⟩ := h.stored k p hk
          -- The block just written was not stored, so `current` may move past it.
          refine ⟨?_, h2, h3⟩
          have hk' : k ≠ a.current := by
            rintro rfl
            cases hnone.symm.trans hk
          show s + 1 ≤ k
          omega
        inOrder := fun hc => (by cases hc)
        current := fun _ _ => .inl rfl
        ahead := fun _ => h.ahead (.inl hpoint)
        done := fun _ hc => (by cases hc) }

/-- **So does flushing.** -/
theorem Assembles.flush (h : a.Assembles block) (hpoint : a.point = .flush) :
    a.flush.1.Assembles block := by
  have hahead := h.ahead (.inr hpoint)
  unfold Receiver.flush
  cases hstored : a.stored a.current with
  | none =>
      exact {
        file := h.file
        stored := h.stored
        inOrder := fun hc => (by cases hc)
        current := fun p hc => (by cases hstored.symm.trans hc)
        ahead := fun _ => hahead
        done := fun _ hc => (by cases hc) }
  | some packet =>
      obtain ⟨-, -, hp⟩ := h.stored _ _ hstored
      by_cases heof : packet.flag = eofFlag
      · simp only [if_pos heof]
        exact {
          file := h.file
          stored := h.stored
          inOrder := fun hc => (by cases hc)
          current := fun p hc => by
            cases hstored.symm.trans hc
            exact .inr ⟨rfl, heof⟩
          ahead := fun hc => hc.elim (fun hc => (by cases hc)) fun hc => (by cases hc)
          done := fun why hc => by
            cases hc
            exact .inr ⟨rfl, hp.flag_eq_eofFlag.mp heof⟩ }
      · simp only [if_neg heof]
        obtain ⟨hblock, -⟩ := hp.eq_some heof
        have hrest : ∀ k p, Function.update a.stored a.current none k = some p →
            a.current + 1 ≤ k ∧ k ≤ a.highest ∧ p.Matches (block k) := by
          intro k p hk
          by_cases hkc : k = a.current
          · rw [hkc, Function.update_self] at hk
            cases hk
          · rw [Function.update_of_ne hkc] at hk
            obtain ⟨h1, h2, h3⟩ := h.stored k p hk
            exact ⟨by omega, h2, h3⟩
        by_cases hleave : a.highest < a.current + 1
        · rw [if_pos hleave]
          exact {
            file := h.append hblock
            stored := hrest
            -- Everything stored is between the new `current` and `highest`: nothing is.
            inOrder := fun _ k => by
              by_contra hk
              obtain ⟨p, hp⟩ := Option.ne_none_iff_exists'.mp hk
              have := hrest k p hp
              omega
            current := fun p hc => by
              have := hrest _ p hc
              omega
            ahead := fun hc => hc.elim (fun hc => (by cases hc)) fun hc => (by cases hc)
            done := fun _ hc => (by cases hc) }
        · rw [if_neg hleave]
          exact {
            file := h.append hblock
            stored := hrest
            inOrder := fun hc => (by cases hc)
            current := fun _ _ => .inl rfl
            ahead := fun _ => by
              show Function.update a.stored a.current none a.highest ≠ none
              rw [Function.update_of_ne (by omega)]
              exact hahead
            done := fun _ hc => (by cases hc) }

/-- The receiver gives up. -/
theorem Assembles.timeout (h : a.Assembles block)
    (hpoint : a.point = .inOrder ∨ a.point = .buffering) :
    Assembles { a with point := .done .timeout } block where
  file := h.file
  stored := h.stored
  inOrder := fun hc => (by cases hc)
  current := fun p hc => (by cases (h.current_none hpoint).symm.trans hc)
  ahead := fun hc => hc.elim (fun hc => (by cases hc)) fun hc => (by cases hc)
  done := fun why hc => by
    cases hc
    exact .inl rfl

/-! ## What changes, and what is answered -/

/-- `current` only moves past a PDU that is not the EOF. -/
theorem accept_current (a : Receiver) (s : Nat) (packet : Packet) :
    (a.accept s packet).1.current = a.current ∨
      (s = a.current ∧ packet.flag ≠ eofFlag ∧ (a.accept s packet).1.current = a.current + 1) := by
  rcases a.received_or_idle s packet with hreceived | hidle
  · generalize a.accept s packet = x at hreceived ⊢
    cases hreceived with
    | old _ | eof _ _ _ | empty _ _ _ _ | opened _ _ | kept _ _ | dropped _ _ _ => exact .inl rfl
    | written _ hs hflag _ => exact .inr ⟨hs, hflag, by rw [hs]⟩
    | filled _ hs hflag => exact .inr ⟨hs, hflag, by rw [hs]⟩
  · rw [hidle]
    exact .inl rfl

theorem flush_current (a : Receiver) : a.flush.1.current = a.current ∨
    ∃ packet, a.stored a.current = some packet ∧ packet.flag ≠ eofFlag ∧
      a.flush.1.current = a.current + 1 := by
  unfold flush
  split
  · exact .inl rfl
  · next packet hstored =>
      split
      · exact .inl rfl
      · next heof => exact .inr ⟨packet, hstored, heof, rfl⟩

/-- A block that is already written is only answered. -/
theorem accept_old (hpoint : a.point = .inOrder ∨ a.point = .buffering) (hs : s < a.current) :
    a.accept s packet = (a, [.rr a.current]) := by
  rcases hpoint with hpoint | hpoint
  · simp only [accept, hpoint, if_pos hs]
  · simp only [accept, hpoint]
    rw [if_neg (by omega), if_neg (by omega)]

theorem accept_stored {k : Nat} {p : Packet} (h : (a.accept s packet).1.stored k = some p) :
    a.stored k = some p ∨ (k = s ∧ p = packet) := by
  rcases a.received_or_idle s packet with hreceived | hidle
  · generalize a.accept s packet = x at hreceived h
    cases hreceived with
    | old _ | eof _ _ _ | empty _ _ _ _ | written _ _ _ _ | dropped _ _ _ | filled _ _ _ =>
        exact .inl h
    | opened _ _ => exact keep_some h
    | kept _ _ => exact keep_some h
  · rw [hidle] at h
    exact .inl h

theorem flush_stored {k : Nat} {p : Packet} (h : a.flush.1.stored k = some p) :
    a.stored k = some p := by
  unfold flush at h
  split at h
  · exact h
  · split at h
    · exact h
    · simp only at h
      by_cases hk : k = a.current
      · rw [hk, Function.update_self] at h
        cases h
      · rwa [Function.update_of_ne hk] at h

/-- A PDU ends the receiver if it is the EOF, or has no payload. -/
theorem accept_done {why : RcopyExit} (h : (a.accept s packet).1.point = .done why) :
    a.point = .done why ∨ (why = .eofAck ∧ packet.flag = eofFlag) ∨
      (why = .emptyPayload ∧ packet.payload = []) := by
  rcases a.received_or_idle s packet with hreceived | hidle
  · generalize a.accept s packet = x at hreceived h
    cases hreceived with
    | old _ | dropped _ _ _ => exact .inl h
    | eof _ _ hflag =>
        cases h
        exact .inr (.inl ⟨rfl, hflag⟩)
    | empty _ _ _ hempty =>
        cases h
        exact .inr (.inr ⟨rfl, hempty⟩)
    | written _ _ _ _ | opened _ _ | kept _ _ | filled _ _ _ => cases h
  · rw [hidle] at h
    exact .inl h

/-- A flush ends the receiver if it finds the EOF. -/
theorem flush_done {why : RcopyExit} (h : a.flush.1.point = .done why) :
    why = .eofAck ∧ ∃ packet, a.stored a.current = some packet ∧ packet.flag = eofFlag := by
  unfold flush at h
  split at h
  · cases h
  · next packet hstored =>
      split at h
      · next heof =>
          cases h
          exact ⟨rfl, packet, hstored, heof⟩
      · simp only at h
        split at h <;> cases h

/-- What a reply says about the receiver that sends it, from its state `a` before the step. -/
def Answers (a a' : Receiver) (s : Nat) : Reply → Prop
  | .rr n => n = a'.current
  | .srej n => a.current ≤ n ∧ n < s
  | .eofAck => a'.point = .done .eofAck

theorem Answers.mono {a' : Receiver} {t : Nat} {c : Reply} (h : a.Answers a' s c) (hst : s ≤ t) :
    a.Answers a' t c := by
  cases c with
  | rr n => exact h
  | srej n => exact ⟨h.1, Nat.lt_of_lt_of_le h.2 hst⟩
  | eofAck => exact h

theorem mem_srejs {i n : Nat} {c : Reply} (h : c ∈ srejs i n) :
    ∃ k, c = .srej k ∧ i ≤ k ∧ k < n := by
  obtain ⟨k, hk, rfl⟩ := List.mem_map.mp h
  rw [List.mem_range'_1] at hk
  exact ⟨k, rfl, hk.1, by omega⟩

theorem Assembles.accept_answers (h : a.Assembles block) :
    ∀ c ∈ (a.accept s packet).2, a.Answers (a.accept s packet).1 s c := by
  intro c hc
  rcases a.received_or_idle s packet with hreceived | hidle
  swap
  · rw [hidle] at hc
    cases hc
  generalize a.accept s packet = x at hreceived hc ⊢
  cases hreceived with
  | old _ | eof _ _ _ | written _ _ _ _ | filled _ _ _ =>
      rw [List.mem_singleton.mp hc]
      rfl
  | empty _ _ _ _ | dropped _ _ _ => cases hc
  | opened _ _ =>
      obtain ⟨k, rfl, h1, h2⟩ := mem_srejs hc
      exact ⟨h1, h2⟩
  | kept hpoint _ =>
      obtain ⟨k, rfl, h1, h2⟩ := mem_srejs hc
      have hle := h.current_le_highest (.inl hpoint)
      exact ⟨by omega, h2⟩

theorem flush_answers (a : Receiver) : ∀ c ∈ a.flush.2, a.Answers a.flush.1 0 c := by
  intro c hc
  unfold flush at hc ⊢
  split at hc
  · cases hc
  · next packet hstored =>
      split at hc
      · next heof =>
          rw [List.mem_singleton] at hc
          subst hc
          rw [if_pos heof]
          rfl
      · next heof =>
          rw [List.mem_singleton] at hc
          subst hc
          rw [if_neg heof]
          rfl

/-- No single step acknowledges a number and asks for it again. -/
theorem srejs_before (i n : Nat) : (srejs i n).Pairwise Reply.Before := by
  rw [srejs, List.pairwise_map]
  exact List.pairwise_of_forall fun _ _ => trivial

theorem accept_before (a : Receiver) (s : Nat) (packet : Packet) :
    (a.accept s packet).2.Pairwise Reply.Before := by
  rcases a.received_or_idle s packet with hreceived | hidle
  · generalize a.accept s packet = x at hreceived ⊢
    cases hreceived with
    | old _ | eof _ _ _ | written _ _ _ _ | filled _ _ _ => exact List.pairwise_singleton ..
    | empty _ _ _ _ | dropped _ _ _ => exact .nil
    | opened _ _ => exact srejs_before ..
    | kept _ _ => exact srejs_before ..
  · rw [hidle]
    exact .nil

theorem flush_before (a : Receiver) : a.flush.2.Pairwise Reply.Before := by
  unfold flush
  split
  · exact .nil
  · split
    · exact List.pairwise_singleton ..
    · exact List.pairwise_singleton ..

end Receiver

end RemoteCopy

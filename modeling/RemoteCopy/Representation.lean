import RemoteCopy.ControlTraffic

/-!
# What the receiver's window holds at a poll

`in_order` writes without a look at the ring, and `flush` tells by `current` and `highest` alone
whether anything is left in it. That this is sound is an invariant of the window, one part for each
of the two polls (`Rcopy.Tidy`). It holds along the runs of `Rcopy.intake`, in which the peer stays
below the upper edge of the window; there the receiver refines the abstract one, whose
`Receiver.Orderly` says the same about its map.
-/

namespace RemoteCopy

namespace Rcopy

variable {o : ByteOrder} {r r₀ : Rcopy} {n : Nat} {a : Receiver} {taken : List ReceivedPdu}

/-- The runs from `r₀` in which the peer stays below the upper edge of the window, with every PDU
that was accepted. -/
def intake (o : ByteOrder) (n : Nat) (r₀ : Rcopy) :
    System (Rcopy × List ReceivedPdu) (RcopyInput × List Datagram) :=
  ((system o r₀).restrict fun r l => Admits o n r l.1).logged
    fun l => (l.1.pdu o (pduHeaderLen + r₀.bufferSize)).toList

/-- The window of a receiver at its polls, once it has accepted the PDUs `taken`. -/
structure Tidy (r : Rcopy) (taken : List ReceivedPdu) : Prop where
  empty : r.point = .inOrder → ∀ i, r.window.slot i = none
  highest : r.point = .inOrder → taken ≠ [] → r.window.highest = r.window.current - 1
  between : r.point = .buffering →
    r.window.current < r.window.highest ∧ r.window.highest < r.window.upper
  current : r.point = .buffering → r.window.checkPDUValid r.window.current = .ok false
  ahead : r.point = .buffering → r.window.checkPDUValid r.window.highest = .ok true
  slots : r.point = .buffering → ∀ (i : Nat) (packet : Packet), r.window.slot i = some packet →
    r.window.current < packet.sequenceNumber ∧ packet.sequenceNumber ≤ r.window.highest ∧
      packet.sequenceNumber % r.window.windowSize = i

/-! ## From the map to the ring -/

theorem Tidy.done {why : RcopyExit} (h : r.point = .done why) : r.Tidy taken where
  empty := fun hpoint => absurd (h.symm.trans hpoint) (by simp)
  highest := fun hpoint => absurd (h.symm.trans hpoint) (by simp)
  between := fun hpoint => absurd (h.symm.trans hpoint) (by simp)
  current := fun hpoint => absurd (h.symm.trans hpoint) (by simp)
  ahead := fun hpoint => absurd (h.symm.trans hpoint) (by simp)
  slots := fun hpoint => absurd (h.symm.trans hpoint) (by simp)

/-- What a slot holds is stored under its own number, and that number belongs into the slot. -/
theorem Refines.slot_some (h : r.Refines n a) {i : Nat} {packet : Packet}
    (hslot : r.window.slot i = some packet) :
    ∃ s, a.stored s = some packet ∧ packet.sequenceNumber = (s : Int) ∧ s % n = i := by
  obtain ⟨s, -, -, hmod, hstored⟩ := h.shows.slot_some hslot
  exact ⟨s, hstored, (h.packet s packet hstored).1, hmod⟩

/-- `checkPDUValid` for a number of the window tells whether the map has it. -/
theorem Refines.valid_eq (h : r.Refines n a) {k : Nat} (hlow : a.current ≤ k)
    (hhigh : k < a.current + n) :
    r.window.checkPDUValid k = .ok (a.stored k).isSome := by
  rw [WindowArray.checkPDUValid_eq h.shows.size h.shows.pos, h.shows.slot_eq hlow hhigh]

/-- **What holds of the abstract receiver's map holds of the ring.** -/
theorem Refines.tidy (h : r.Refines n a) (horderly : a.Orderly)
    (hpast : taken ≠ [] → a.point = .inOrder → 0 < a.current) : r.Tidy taken := by
  have hcurrent := h.current
  have hhighest := h.highest
  have hupper := h.shows.upper
  -- Where a gap is open, `highest` is a number of the window that is stored.
  have hstored (hpoint : r.point = .buffering) :
      a.stored a.current = none ∧ a.stored a.highest ≠ none ∧ a.current < a.highest ∧
        a.highest < a.current + n := by
    have hpoint' : a.point = .buffering := h.point.symm.trans hpoint
    have hnone := horderly.current (.inr hpoint')
    have hahead := horderly.ahead (.inl hpoint')
    obtain ⟨packet, hpacket⟩ := Option.ne_none_iff_exists'.mp hahead
    obtain ⟨hlow, hhigh⟩ := h.shows.mem_window hpacket
    have hne : a.current ≠ a.highest := fun heq => hahead (heq ▸ hnone)
    exact ⟨hnone, hahead, by omega, hhigh⟩
  refine ⟨?_, ?_, ?_, ?_, ?_, ?_⟩
  · intro hpoint i
    by_contra hne
    obtain ⟨packet, hslot⟩ := Option.ne_none_iff_exists'.mp hne
    obtain ⟨s, hsome, -, -⟩ := h.slot_some hslot
    rw [horderly.inOrder (h.point.symm.trans hpoint) s] at hsome
    cases hsome
  · intro hpoint htaken
    have hpoint' : a.point = .inOrder := h.point.symm.trans hpoint
    have hpos := hpast htaken hpoint'
    rcases horderly.highest hpoint' with hzero | hsucc
    · omega
    · rw [hhighest, hcurrent]
      omega
  · intro hpoint
    obtain ⟨-, -, hlt, hhigh⟩ := hstored hpoint
    omega
  · intro hpoint
    obtain ⟨hnone, -, hlt, hhigh⟩ := hstored hpoint
    rw [hcurrent, h.valid_eq (Nat.le_refl _) (by omega), hnone]
    rfl
  · intro hpoint
    obtain ⟨-, hahead, hlt, hhigh⟩ := hstored hpoint
    rw [hhighest, h.valid_eq (Nat.le_of_lt hlt) hhigh, Option.isSome_iff_ne_none.mpr hahead]
  · intro hpoint i packet hslot
    obtain ⟨hnone, -, -, -⟩ := hstored hpoint
    obtain ⟨s, hsome, hnumber, hmod⟩ := h.slot_some hslot
    obtain ⟨hlow, hhigh⟩ := horderly.stored s (by rw [hsome]; exact Option.some_ne_none packet)
    have hne : s ≠ a.current := by
      rintro rfl
      rw [hnone] at hsome
      cases hsome
    have hmod' : (s : Int) % n = i := by
      rw [← hmod]
      exact (Int.natCast_mod s n).symm
    rw [hnumber, h.shows.size]
    exact ⟨by omega, by omega, hmod'⟩

/-! ## The run -/

/-- Along an admitted run the receiver refines an orderly one, until it is done. -/
theorem refines_of_reachable {w : Nat} {bufferSize : BufferSize} {seq : UInt32} {addr : Addr}
    (hw : 0 < w) (hmax : w < 2147483648) (hstart : start w bufferSize seq addr = .ok r₀)
    {x : Rcopy × List ReceivedPdu} (h : (intake o w r₀).Reachable x) :
    (∃ why, x.1.point = .done why) ∨ ∃ a, x.1.Refines w a ∧ a.Orderly ∧
      x.1.bufferSize = r₀.bufferSize ∧ (x.2 ≠ [] → a.point = .inOrder → 0 < a.current) := by
  refine System.Reachable.invariant (P := fun x => (∃ why, x.1.point = .done why) ∨ ∃ a,
    x.1.Refines w a ∧ a.Orderly ∧ x.1.bufferSize = r₀.bufferSize ∧
      (x.2 ≠ [] → a.point = .inOrder → 0 < a.current)) ?_ ?_ h
  · rintro x ⟨rfl, hlog⟩
    exact .inr ⟨.fresh, .start hw hmax hstart, .fresh, rfl, fun hne => absurd hlog hne⟩
  · rintro x l x' - hx ⟨⟨hadmits, hstep⟩, hlog⟩
    rcases hx with ⟨why, hdone⟩ | ⟨a, hrefines, horderly, hsize, hpast⟩
    · exact absurd hdone (step_done hstep why)
    · rcases hrefines.next horderly hadmits hstep with
        ⟨-, hwhy⟩ | ⟨y, hnext, hrefines', -, hsize', hpast'⟩
      · exact .inl hwhy
      · refine .inr ⟨y.1, hrefines', horderly.next hnext, hsize'.trans hsize, fun hne => ?_⟩
        by_cases hpdu : l.1.pdu o (pduHeaderLen + x.1.bufferSize) = none
        · -- Nothing was accepted, so what had been accepted before counts.
          have hsame : x'.2 = x.2 := by
            rw [hlog]
            show x.2 ++ (l.1.pdu o (pduHeaderLen + r₀.bufferSize)).toList = x.2
            rw [← hsize, hpdu, Option.toList_none, List.append_nil]
          exact hnext.current_pos (hpast (hsame ▸ hne))
        · exact hpast' hpdu

/-- **The representation of the receiver's window.** Along every run in which the peer stays below
the upper edge of the window and sends no data without payload: whenever the receiver polls in
`IN_ORDER`, its ring is empty and, once a block was received, `highest` is `current - 1`; whenever
it polls in `BUFFERING`, `highest` lies between `current` and `upper`, `current` is missing,
`highest` is there, and whatever else is there lies between the two and in its own slot. -/
theorem tidy_of_reachable {w : Nat} {bufferSize : BufferSize} {seq : UInt32} {addr : Addr}
    (hw : 0 < w) (hmax : w < 2147483648) (hstart : start w bufferSize seq addr = .ok r₀)
    (h : (intake o w r₀).Reachable (r, taken)) : r.Tidy taken := by
  rcases refines_of_reachable hw hmax hstart h with ⟨why, hdone⟩ | ⟨a, hrefines, horderly, -, hpast⟩
  · exact .done hdone
  · exact hrefines.tidy horderly hpast

/-- A step of such a run, computed. -/
def intakeNext (o : ByteOrder) (n : Nat) (r₀ : Rcopy) (x : Rcopy × List ReceivedPdu)
    (i : RcopyInput) : Option (Rcopy × List ReceivedPdu) :=
  if Admits o n x.1 i then
    match x.1.step o i with
    | some (.ok y) => some (y.1, x.2 ++ (i.pdu o (pduHeaderLen + r₀.bufferSize)).toList)
    | _ => none
  else none

theorem step_of_intakeNext {x x' : Rcopy × List ReceivedPdu} {i : RcopyInput}
    (h : intakeNext o n r₀ x i = some x') : ∃ l, (intake o n r₀).step x l x' := by
  unfold intakeNext at h
  split at h
  · next hadmits =>
      split at h
      · next y hstep =>
          cases h
          exact ⟨(i, y.2), ⟨hadmits, hstep⟩, rfl⟩
      · cases h
  · cases h

/-- The second of two blocks comes first: there is a gap, and the window is as it should be. -/
theorem tidy_arrival : ∃ x : Rcopy × List ReceivedPdu, x.1.point = .buffering ∧
    x.2.map ReceivedPdu.sequenceNumber = [1] ∧ x.1.Tidy x.2 := by
  have hinit : (intake .little 2 smallRcopy).Reachable (smallRcopy, []) := .init ⟨rfl, rfl⟩
  obtain ⟨x, hx, hp⟩ := hinit.exists_of_run (intakeNext .little 2 smallRcopy)
    (fun _ _ _ => step_of_intakeNext)
    [.poll (.received 7 [] (arrival 1).datagram) .complete 0]
    (fun x => decide (x.1.point = .buffering ∧ x.2.map ReceivedPdu.sequenceNumber = [1]))
    (by decide +kernel)
  obtain ⟨hpoint, htaken⟩ := of_decide_eq_true hp
  exact ⟨x, hpoint, htaken, tidy_of_reachable (by decide) (by decide) start_smallRcopy hx⟩

end Rcopy

end RemoteCopy

import RemoteCopy.Machine
import RemoteCopy.Library.Transition
import Mathlib.Data.Finset.Erase
import Mathlib.Data.Finset.Insert

/-!
# The poll set

Both programs wait with `pollCall` of pollLib, which watches the sockets of a poll set. Its array
has an entry for every smaller descriptor as well, and those that are not in use name descriptor 0,
of which no event is asked for; errors are reported unasked. What a call returns is said in terms of
the set (`PollSet.Watches`), over any sequence of calls (`PollSet.answer_of_reachable`).
-/

namespace RemoteCopy

/-- `struct pollfd`: which descriptor, and whether `POLLIN` is asked for. -/
structure PollFd where
  fd : Nat
  pollin : Bool
  deriving DecidableEq, Repr

/-- What the system has to report of its descriptors: what can be received, and the errors, which
`poll` reports whether it is asked or not. -/
structure PollEvents where
  readable : Nat → Bool
  exceptional : Nat → Bool

/-- `revents > 0`, after `poll`. -/
def PollFd.revents (ev : PollEvents) (e : PollFd) : Bool :=
  (e.pollin && ev.readable e.fd) || ev.exceptional e.fd

/-- An entry that is not in use. -/
def PollFd.unused : PollFd := ⟨0, false⟩

def pollSetSize : Nat := 10

/-- The globals of pollLib. -/
structure PollSet where
  pollFileDescriptors : List PollFd
  maxFileDescriptor : Nat
  currentPollSetSize : Nat
  size_eq : pollFileDescriptors.length = currentPollSetSize

namespace PollSet

/-- As the program begins. -/
def empty : PollSet := ⟨[], 0, 0, rfl⟩

/-- A new array. What was the highest descriptor stays that. -/
def setupPollSet (s : PollSet) : PollSet :=
  { s with
    pollFileDescriptors := List.replicate pollSetSize .unused
    currentPollSetSize := pollSetSize
    size_eq := List.length_replicate }

/-- The program ends (`none`) where the set would not grow. -/
def growPollSet (s : PollSet) (newSetSize : Nat) : Option PollSet :=
  if h : newSetSize ≤ s.currentPollSetSize then none
  else some { s with
    pollFileDescriptors :=
      s.pollFileDescriptors ++ List.replicate (newSetSize - s.currentPollSetSize) .unused
    currentPollSetSize := newSetSize
    size_eq := by
      rw [List.length_append, List.length_replicate, s.size_eq]
      omega }

/-- `pollFileDescriptors[i] = e`. -/
def write (s : PollSet) (i : Nat) (e : PollFd) : C PollSet :=
  if i < s.currentPollSetSize then
    .ok { s with
      pollFileDescriptors := s.pollFileDescriptors.set i e
      size_eq := by rw [List.length_set, s.size_eq] }
  else .error .indexOutOfBounds

/-- Both sums are taken in `int`. -/
def addToPollSet (s : PollSet) (socketNumber : Nat) : C (Option PollSet) := do
  let grown :=
    if s.currentPollSetSize ≤ socketNumber then
      (addInt32 socketNumber pollSetSize).map fun newSetSize => s.growPollSet newSetSize.toNat
    else .ok (some s)
  match ← grown with
  | some s =>
      let next ← addInt32 socketNumber 1
      let s := { s with
        maxFileDescriptor := if s.maxFileDescriptor ≤ next then next.toNat
          else s.maxFileDescriptor }
      let s ← s.write socketNumber ⟨socketNumber, true⟩
      return some s
  | none => return none

def removeFromPollSet (s : PollSet) (socketNumber : Nat) : C PollSet :=
  s.write socketNumber .unused

/-- `pollCall`, as it returns: the first entry with an event, or none after a timeout. `poll` is
given as many entries as there are descriptors up to the highest. -/
def pollCall (s : PollSet) (ev : PollEvents) : C (Option Nat) :=
  if s.currentPollSetSize < s.maxFileDescriptor then .error .indexOutOfBounds
  else
    let revents := (s.pollFileDescriptors.take s.maxFileDescriptor).map (PollFd.revents ev)
    let pollValue := revents.count true
    .ok (if 0 < pollValue then revents.findIdx? id else none)

/-! ## What is watched -/

/-- The sockets in use, and nothing else, are watched for something to receive. -/
structure Watches (s : PollSet) (sockets : Finset Nat) : Prop where
  entry : ∀ i e, s.pollFileDescriptors[i]? = some e →
    e = if i ∈ sockets then ⟨i, true⟩ else .unused
  lt : ∀ i ∈ sockets, i < s.maxFileDescriptor ∧ i < s.currentPollSetSize

/-- What entry `i` reports: for a socket in use, that something can be received or is wrong; else,
that something is wrong with descriptor 0. -/
def reports (sockets : Finset Nat) (ev : PollEvents) (i : Nat) : Bool :=
  if i ∈ sockets then ev.readable i || ev.exceptional i else ev.exceptional 0

section
variable {s s' : PollSet} {sockets : Finset Nat} {n : Nat}

theorem Watches.empty : PollSet.empty.Watches ∅ where
  entry i e h := by cases h
  lt i hi := by simp at hi

theorem Watches.setup : s.setupPollSet.Watches ∅ where
  entry i e h := by
    have hmem := List.mem_of_getElem? h
    rw [List.eq_of_mem_replicate hmem]
    simp
  lt i hi := by simp at hi

theorem Watches.write (h : s.Watches sockets) {sockets' : Finset Nat} {e : PollFd}
    (hn : n < s.currentPollSetSize) (he : e = if n ∈ sockets' then ⟨n, true⟩ else .unused)
    (hothers : ∀ i, i ≠ n → (i ∈ sockets' ↔ i ∈ sockets))
    (hmem : n ∈ sockets' → n < s.maxFileDescriptor) :
    ∃ s', s.write n e = .ok s' ∧ s'.Watches sockets' ∧
      s'.maxFileDescriptor = s.maxFileDescriptor ∧
      s'.currentPollSetSize = s.currentPollSetSize := by
  refine ⟨_, if_pos hn, ⟨fun i e' hi => ?_, fun i hi => ?_⟩, rfl, rfl⟩
  · by_cases hin : i = n
    · subst hin
      rw [List.getElem?_set_self (by rw [s.size_eq]; exact hn)] at hi
      cases hi
      exact he
    · rw [List.getElem?_set_ne (Ne.symm hin)] at hi
      have hentry := h.entry i e' hi
      simp only [hothers i hin]
      exact hentry
  · by_cases hin : i = n
    · subst hin
      exact ⟨hmem hi, hn⟩
    · exact h.lt i ((hothers i hin).mp hi)

theorem Watches.grow (h : s.Watches sockets) (hn : s.currentPollSetSize < n) :
    ∃ s', s.growPollSet n = some s' ∧ s'.Watches sockets ∧
      s'.maxFileDescriptor = s.maxFileDescriptor ∧ s'.currentPollSetSize = n := by
  refine ⟨_, dif_neg (Nat.not_le.mpr hn), ⟨fun i e hi => ?_, fun i hi => ?_⟩, rfl, rfl⟩
  · rcases Nat.lt_or_ge i s.pollFileDescriptors.length with hlt | hge
    · rw [List.getElem?_append_left hlt] at hi
      exact h.entry i e hi
    · rw [List.getElem?_append_right hge] at hi
      have hmem := List.mem_of_getElem? hi
      have hout : i ∉ sockets := by
        intro hin
        have := (h.lt i hin).2
        rw [s.size_eq] at hge
        omega
      rw [List.eq_of_mem_replicate hmem, if_neg hout]
  · obtain ⟨hmax, hsize⟩ := h.lt i hi
    exact ⟨hmax, Nat.lt_trans hsize hn⟩

/-- The number of a socket for which there is an entry, or can be made one. -/
def Admits (s : PollSet) (n : Nat) : Prop :=
  n < s.currentPollSetSize ∨ n + pollSetSize < 2147483648

theorem Watches.add (h : s.Watches sockets) (hsize : s.currentPollSetSize < 2147483648)
    (hn : s.Admits n) :
    ∃ s', s.addToPollSet n = .ok (some s') ∧ s'.Watches (insert n sockets) ∧
      s'.maxFileDescriptor = max s.maxFileDescriptor (n + 1) ∧
      s'.currentPollSetSize =
        if s.currentPollSetSize ≤ n then n + pollSetSize else s.currentPollSetSize := by
  have hten : pollSetSize = 10 := rfl
  -- room for the new entry
  obtain ⟨t, ht, hwatch, hmax, hgrown, hroom⟩ : ∃ t : PollSet,
      (if s.currentPollSetSize ≤ n then
          (addInt32 n pollSetSize).map fun newSetSize => s.growPollSet newSetSize.toNat
        else .ok (some s)) = .ok (some t) ∧
        t.Watches sockets ∧ t.maxFileDescriptor = s.maxFileDescriptor ∧
        t.currentPollSetSize =
          (if s.currentPollSetSize ≤ n then n + pollSetSize else s.currentPollSetSize) ∧
        n < t.currentPollSetSize := by
    split
    · next hle =>
        have hsum := hn.resolve_left (Nat.not_lt.mpr hle)
        obtain ⟨t, ht, hwatch, hmax, hgrown⟩ := h.grow (n := n + pollSetSize) (by omega)
        refine ⟨t, ?_, hwatch, hmax, hgrown, by omega⟩
        rw [addInt32_ok (by omega) (by omega)]
        exact congrArg Except.ok ht
    · next hlt => exact ⟨s, rfl, h, rfl, rfl, Nat.not_le.mp hlt⟩
  have hnext : addInt32 n 1 = .ok (n + 1 : Nat) := by
    have hlt : n + 1 < 2147483648 := by
      rcases hn with hn | hn <;> omega
    exact addInt32_ok (by omega) (by omega)
  have hhighest : (if (t.maxFileDescriptor : Int) ≤ (n + 1 : Nat) then ((n + 1 : Nat) : Int).toNat
      else t.maxFileDescriptor) = max t.maxFileDescriptor (n + 1) := by
    split <;> omega
  have hraised : Watches { t with maxFileDescriptor := max t.maxFileDescriptor (n + 1) }
      sockets := by
    refine ⟨hwatch.entry, fun i hi => ?_⟩
    obtain ⟨hi, hi'⟩ := hwatch.lt i hi
    exact ⟨Nat.lt_of_lt_of_le hi (Nat.le_max_left _ _), hi'⟩
  have hentry : (⟨n, true⟩ : PollFd) = if n ∈ insert n sockets then ⟨n, true⟩ else .unused := by
    simp
  obtain ⟨s', hs', hwatch', hmax', hsize'⟩ := hraised.write hroom hentry
    (fun i hi => by simp [hi])
    (fun _ => Nat.lt_of_lt_of_le (Nat.lt_succ_self n) (Nat.le_max_right _ _))
  refine ⟨s', ?_, hwatch', by rw [hmax', hmax], by rw [hsize', hgrown]⟩
  simp only [addToPollSet, ht, hnext, hhighest, hs', C.ok_bind, C.pure_eq]

/-- Of any other, a sum is too large. -/
theorem addToPollSet_error (hn : ¬ s.Admits n) : s.addToPollSet n = .error .signedOverflow := by
  obtain ⟨hle, hsum⟩ := not_or.mp hn
  have hoverflow : addInt32 n pollSetSize = .error .signedOverflow :=
    if_neg fun hrange => hsum (by omega)
  rw [addToPollSet, if_pos (Nat.not_lt.mp hle), hoverflow]
  rfl

theorem Watches.remove (h : s.Watches sockets) (hn : n < s.currentPollSetSize) :
    ∃ s', s.removeFromPollSet n = .ok s' ∧ s'.Watches (sockets.erase n) ∧
      s'.maxFileDescriptor = s.maxFileDescriptor ∧
      s'.currentPollSetSize = s.currentPollSetSize :=
  h.write hn (by simp) (fun i hi => by simp [hi]) (fun hin => by simp at hin)

/-! ## What a call returns -/

/-- The search for the first that holds needs no count before it. -/
theorem findIdx?_of_count (l : List Bool) :
    (if 0 < l.count true then l.findIdx? id else none) = l.findIdx? id := by
  split
  · rfl
  · next hzero =>
      refine (List.findIdx?_eq_none_iff.mpr fun x hx => ?_).symm
      cases x with
      | false => rfl
      | true => exact absurd (List.count_pos_iff.mpr hx) hzero

theorem findIdx?_range (p : Nat → Bool) (k : Nat) :
    ((List.range k).map p).findIdx? id = (List.range k).find? p := by
  apply Option.ext
  intro i
  rw [List.findIdx?_eq_some_iff_getElem, List.find?_range_eq_some]
  simp only [List.length_map, List.length_range, List.getElem_map, List.getElem_range, id_eq,
    List.mem_range, Bool.not_eq_true, Bool.not_eq_eq_eq_not, Bool.not_true]
  constructor
  · rintro ⟨hi, hp, hbefore⟩
    exact ⟨hp, hi, hbefore⟩
  · rintro ⟨hp, hi, hbefore⟩
    exact ⟨hi, hp, hbefore⟩

/-- An entry reports what `reports` says. -/
theorem Watches.revents (h : s.Watches sockets) (ev : PollEvents) {i : Nat} {e : PollFd}
    (he : s.pollFileDescriptors[i]? = some e) : e.revents ev = reports sockets ev i := by
  rw [h.entry i e he, reports]
  split
  · next hin => simp [PollFd.revents]
  · next hout => simp [PollFd.revents, PollFd.unused]

/-- **A call returns the lowest descriptor with a report**, up to the highest there ever was, and
looks past the end of the array where that is now smaller. -/
theorem Watches.pollCall (h : s.Watches sockets) (ev : PollEvents) :
    s.pollCall ev = if s.currentPollSetSize < s.maxFileDescriptor then .error .indexOutOfBounds
      else .ok ((List.range s.maxFileDescriptor).find? (reports sockets ev)) := by
  unfold PollSet.pollCall
  split
  · rfl
  · next hle =>
      have hrevents : (s.pollFileDescriptors.take s.maxFileDescriptor).map (PollFd.revents ev)
          = (List.range s.maxFileDescriptor).map (reports sockets ev) := by
        apply List.ext_getElem
        · rw [List.length_map, List.length_take, s.size_eq, List.length_map, List.length_range]
          exact Nat.min_eq_left (Nat.not_lt.mp hle)
        · intro i hi _
          rw [List.getElem_map, List.getElem_map, List.getElem_range, List.getElem_take]
          exact h.revents ev (List.getElem?_eq_getElem _)
      rw [← findIdx?_range, ← findIdx?_of_count, ← hrevents]

end

/-! ## Sequences of calls -/

/-- A call that changes the set. -/
inductive Call where
  | setup
  | add (socketNumber : Nat)
  | remove (socketNumber : Nat)
  deriving DecidableEq, Repr

/-- The calls a program makes, as long as they return. -/
def calls : System PollSet Call where
  init s := s = empty
  step s call s' :=
    match call with
    | .setup => s' = s.setupPollSet
    | .add n => s.addToPollSet n = .ok (some s')
    | .remove n => s.removeFromPollSet n = .ok s'

/-- With a log of the calls. -/
def loggedCalls : System (PollSet × List Call) Call := calls.logged fun call => [call]

def Call.watch (sockets : Finset Nat) : Call → Finset Nat
  | .setup => ∅
  | .add n => insert n sockets
  | .remove n => sockets.erase n

def Call.raise (highest : Nat) : Call → Nat
  | .add n => max highest (n + 1)
  | _ => highest

def Call.grow (room : Nat) : Call → Nat
  | .setup => pollSetSize
  | .add n => if room ≤ n then n + pollSetSize else room
  | .remove _ => room

/-- What was added since the last setup and not removed. -/
def watched (log : List Call) : Finset Nat := log.foldl Call.watch ∅

/-- Above everything that was ever added. -/
def highest (log : List Call) : Nat := log.foldl Call.raise 0

/-- The entries there are. -/
def room (log : List Call) : Nat := log.foldl Call.grow 0

/-- A call, on the set and in the log. -/
theorem Watches.step {s s' : PollSet} {sockets : Finset Nat} {call : Call}
    (h : s.Watches sockets) (hlt : s.currentPollSetSize < 2147483648)
    (hstep : calls.step s call s') :
    s'.Watches (call.watch sockets) ∧ s'.maxFileDescriptor = call.raise s.maxFileDescriptor ∧
      s'.currentPollSetSize = call.grow s.currentPollSetSize ∧
      s'.currentPollSetSize < 2147483648 := by
  cases call with
  | setup =>
      obtain rfl := hstep
      exact ⟨.setup, rfl, rfl, show pollSetSize < 2147483648 by decide⟩
  | add n =>
      have hn : s.Admits n := by
        by_contra hn
        cases (addToPollSet_error hn).symm.trans hstep
      obtain ⟨t, ht, hwatch, hmax, hsize⟩ := h.add hlt hn
      obtain rfl := Option.some.inj (Except.ok.inj (ht.symm.trans hstep))
      refine ⟨hwatch, hmax, hsize, ?_⟩
      rw [hsize]
      split
      · next hle => exact hn.resolve_left (Nat.not_lt.mpr hle)
      · exact hlt
  | remove n =>
      have hn : n < s.currentPollSetSize := by
        by_contra hge
        have hundefined : s.removeFromPollSet n = .error .indexOutOfBounds := if_neg hge
        cases hundefined.symm.trans hstep
      obtain ⟨t, ht, hwatch, hmax, hsize⟩ := h.remove hn
      obtain rfl := Except.ok.inj (ht.symm.trans hstep)
      exact ⟨hwatch, hmax, hsize, hsize ▸ hlt⟩

/-- The set is what its log says. -/
theorem watches_of_reachable {s : PollSet} {log : List Call}
    (h : loggedCalls.Reachable (s, log)) :
    s.Watches (watched log) ∧ s.maxFileDescriptor = highest log ∧
      s.currentPollSetSize = room log ∧ s.currentPollSetSize < 2147483648 := by
  revert h
  apply System.Reachable.invariant (P := fun x : PollSet × List Call =>
    x.1.Watches (watched x.2) ∧ x.1.maxFileDescriptor = highest x.2 ∧
      x.1.currentPollSetSize = room x.2 ∧ x.1.currentPollSetSize < 2147483648)
  · rintro ⟨s, log⟩ ⟨rfl, rfl⟩
    exact ⟨.empty, rfl, rfl, show 0 < 2147483648 by decide⟩
  · rintro ⟨s, log⟩ call ⟨s', log'⟩ _ ⟨hwatch, hmax, hsize, hlt⟩ ⟨hstep, rfl⟩
    obtain ⟨hwatch', hmax', hsize', hlt'⟩ := hwatch.step hlt hstep
    rw [hmax] at hmax'
    rw [hsize] at hsize'
    simp only [watched, highest, room, List.foldl_append, List.foldl_cons, List.foldl_nil]
    exact ⟨hwatch', hmax', hsize', hlt'⟩

/-- **After any sequence of calls** a socket can be added without an end of the program if there is
an entry for its number or the number and ten are no more than an `int` can be, and else the sum is
undefined; and a `pollCall` returns the lowest number with a report: of a socket that was added and
not removed, or of descriptor 0, under any other number up to the highest ever added. It looks past
the end of the array where a setup came after a number too high for the new array. -/
theorem answer_of_reachable {s : PollSet} {log : List Call}
    (h : loggedCalls.Reachable (s, log)) :
    (∀ n, (n < room log ∨ n + pollSetSize < 2147483648 → ∃ s', s.addToPollSet n = .ok (some s')) ∧
      (¬ (n < room log ∨ n + pollSetSize < 2147483648) →
        s.addToPollSet n = .error .signedOverflow)) ∧
      ∀ ev, s.pollCall ev = if room log < highest log then .error .indexOutOfBounds
        else .ok ((List.range (highest log)).find? (reports (watched log) ev)) := by
  obtain ⟨hwatch, hmax, hsize, hlt⟩ := watches_of_reachable h
  refine ⟨fun n => ?_, fun ev => ?_⟩
  · rw [← hsize]
    refine ⟨fun hn => ?_, addToPollSet_error⟩
    obtain ⟨s', hs', -⟩ := hwatch.add hlt hn
    exact ⟨s', hs'⟩
  · rw [hwatch.pollCall ev, hmax, hsize]

/-- A low number after a high one, in a set that was set up again. -/
theorem answer_setup_again : ∃ s, loggedCalls.Reachable
    (s, [.setup, .add 12, .setup, .add 3]) ∧ (∃ s', s.addToPollSet 2147483637 = .ok (some s')) ∧
      s.addToPollSet 2147483638 = .error .signedOverflow ∧
      ∀ ev, s.pollCall ev = .error .indexOutOfBounds := by
  have hlt : pollSetSize < 2147483648 := by decide
  obtain ⟨s, hs, -⟩ := (Watches.setup (s := empty)).add hlt (n := 12) (.inr (by decide))
  obtain ⟨t, ht, -⟩ := (Watches.setup (s := s)).add hlt (n := 3) (.inr (by decide))
  have hinit : loggedCalls.Reachable (empty, []) := .init ⟨rfl, rfl⟩
  have hsetup : loggedCalls.Reachable (empty.setupPollSet, [.setup]) :=
    hinit.step (i := .setup) ⟨rfl, rfl⟩
  have hadd : loggedCalls.Reachable (s, [.setup, .add 12]) :=
    hsetup.step (i := .add 12) ⟨hs, rfl⟩
  have hagain : loggedCalls.Reachable (s.setupPollSet, [.setup, .add 12, .setup]) :=
    hadd.step (i := .setup) ⟨rfl, rfl⟩
  have hreach : loggedCalls.Reachable (t, [.setup, .add 12, .setup, .add 3]) :=
    hagain.step (i := .add 3) ⟨ht, rfl⟩
  obtain ⟨hadds, hpolls⟩ := answer_of_reachable hreach
  refine ⟨t, hreach, (hadds 2147483637).1 (by decide), (hadds 2147483638).2 (by decide),
    fun ev => ?_⟩
  rw [hpolls ev, if_pos (by decide)]

end PollSet

end RemoteCopy

import RemoteCopy.RcopySteps
import RemoteCopy.ArrivalOrder

/-!
# The receiver and an arbitrary peer

What rcopy does with datagrams that pass `processPDU` but need not come from the data phase of an
honest server child. The handlers look at a flag only to tell the EOF from the rest, and at a
sequence number only to compare it with `current`; what `flush` finds in the slot of `current` it
takes for the PDU it is looking for. So two things can go into the file that should not: a PDU that
is no data, and a PDU of another number. The runs here keep a record of the PDUs accepted, and the
conditions say of a step, in the state before it, that neither of the two is about to happen.
-/

namespace RemoteCopy

namespace WindowArray

/-- What is in the slot of a sequence number. -/
def find (w : WindowArray) (sequenceNumber : Int) : Option Packet :=
  (w.index sequenceNumber).toOption.bind w.slot

theorem find_eq_some {w : WindowArray} {x : Int} {packet : Packet} :
    w.find x = some packet ↔ ∃ j, w.index x = .ok j ∧ w.slot j = some packet := by
  unfold find
  cases hindex : w.index x with
  | ok j =>
      refine ⟨fun h => ⟨j, rfl, h⟩, fun ⟨j', hj', hslot⟩ => ?_⟩
      cases hj'
      exact hslot
  | error e => exact ⟨fun h => (by cases h), fun ⟨_, hj, _⟩ => (by cases hj)⟩

end WindowArray

namespace Rcopy

/-! ## Runs with a record of what was accepted -/

section
variable (o : ByteOrder)

/-- The runs of the receiver from `r₀`, with the PDUs that its polls have accepted. -/
def peerSystem (r₀ : Rcopy) : System (Rcopy × List ReceivedPdu) (RcopyInput × List Datagram) where
  init x := x = (r₀, [])
  step x l x' := x.1.step o l.1 = some (.ok (x'.1, l.2)) ∧
    x'.2 = x.2 ++ (l.1.pdu o (pduHeaderLen + x.1.bufferSize)).toList

/-- Those runs whose steps all meet a condition on the receiver and on what comes in. -/
def peerRuns (r₀ : Rcopy) (ok : Rcopy → RcopyInput → Prop) :
    System (Rcopy × List ReceivedPdu) (RcopyInput × List Datagram) :=
  (peerSystem o r₀).restrict fun x l => ok x.1 l.1

/-- The next state, if the condition is met and the receiver gets there. -/
def peerNext (ok : Rcopy → RcopyInput → Prop) [∀ r i, Decidable (ok r i)]
    (x : Rcopy × List ReceivedPdu) (i : RcopyInput) : Option (Rcopy × List ReceivedPdu) :=
  if ok x.1 i then
    match x.1.step o i with
    | some (.ok (r', _)) => some (r', x.2 ++ (i.pdu o (pduHeaderLen + x.1.bufferSize)).toList)
    | _ => none
  else none

end

section
variable {o : ByteOrder} {r₀ : Rcopy} {x x' : Rcopy × List ReceivedPdu}
  {l : RcopyInput × List Datagram}

theorem peerRuns_of_peerNext {ok : Rcopy → RcopyInput → Prop} [∀ r i, Decidable (ok r i)]
    {i : RcopyInput} (h : peerNext o ok x i = some x') : ∃ l, (peerRuns o r₀ ok).step x l x' := by
  unfold peerNext at h
  split at h
  · next hok =>
      split at h
      · next r' ds hstep =>
          cases h
          exact ⟨(i, ds), hok, hstep, rfl⟩
      · cases h
  · cases h

/-! ## Where the file comes from -/

/-- Everything stored was accepted at some time. -/
structure Recorded (x : Rcopy × List ReceivedPdu) : Prop where
  stocked : x.1.Stocked
  slots : ∀ j packet, x.1.window.slot j = some packet → ∃ pdu ∈ x.2, packet.Keeps pdu

/-- The step takes this PDU at `current`: the one it receives, or the one it finds there. -/
def Handles (o : ByteOrder) (r : Rcopy) (i : RcopyInput) (pdu : ReceivedPdu) : Prop :=
  (i.pdu o (pduHeaderLen + r.bufferSize) = some pdu ∧
    pdu.sequenceNumber = toUInt32 r.window.current ∧ (r.point = .inOrder → pdu.payload ≠ [])) ∨
  (r.point = .flush ∧ ∃ packet, r.AtCurrent packet ∧ packet.Keeps pdu)

/-- Neither the file nor the window has changed, but for the slots. -/
structure Unmoved (r r' : Rcopy) : Prop where
  file : r'.outputFile = r.outputFile
  lower : r'.window.lower = r.window.lower
  upper : r'.window.upper = r.window.upper
  current : r'.window.current = r.window.current

/-- What becomes of a payload taken at `current`. -/
inductive Taken (r : Rcopy) (payload : Bytes) (r' : Rcopy) : Prop
  | written (hfile : r'.outputFile = r.outputFile ++ [payload])
      (hadvanced : Advanced r.window r'.window)
  | skipped (hpayload : payload = []) (hpoint : r.point = .buffering)
      (hfile : r'.outputFile = r.outputFile) (hadvanced : Advanced r.window r'.window)
  | short {k : Nat} (hfile : r'.outputFile = r.outputFile ++ [payload.take k])
      (hwindow : r'.window = r.window) (hpoint : r'.point = .done .writeFailed)

theorem Recorded.step (h : Recorded x) (hstep : (peerSystem o r₀).step x l x') : Recorded x' := by
  obtain ⟨hstep, hheard⟩ := hstep
  refine ⟨h.stocked.step hstep, fun j packet hj => ?_⟩
  rcases (effect_of_step h.stocked hstep).slot_cases hj with hold | ⟨pdu, hpdu, -, -, -, hkeeps, -⟩
  · obtain ⟨pdu, hpdu, hkeeps⟩ := h.slots j packet hold
    exact ⟨pdu, hheard ▸ List.mem_append_left _ hpdu, hkeeps⟩
  · exact ⟨pdu, by simp [hheard, hpdu], hkeeps⟩

/-- **Whatever comes in, a step that changes the file or moves the window takes one PDU at
`current`, which was accepted at some time and is not the EOF.** -/
theorem Recorded.handles (h : Recorded x) (hstep : (peerSystem o r₀).step x l x') :
    Unmoved x.1 x'.1 ∨ ∃ pdu ∈ x'.2, Handles o x.1 l.1 pdu ∧ pdu.recvFlag ≠ eofFlag ∧
      Taken x.1 pdu.payload x'.1 := by
  obtain ⟨hstep, hheard⟩ := hstep
  have hpolled {pdu : ReceivedPdu} (hpdu : l.1.pdu o (pduHeaderLen + x.1.bufferSize) = some pdu) :
      pdu ∈ x'.2 := by simp [hheard, hpdu]
  have hstored {packet : Packet} (hpacket : x.1.AtCurrent packet) :
      ∃ pdu ∈ x'.2, packet.Keeps pdu := by
    obtain ⟨j, -, hslot⟩ := hpacket
    obtain ⟨pdu, hpdu, hkeeps⟩ := h.slots j packet hslot
    exact ⟨pdu, hheard ▸ List.mem_append_left _ hpdu, hkeeps⟩
  cases effect_of_step h.stocked hstep with
  | idle hwindow hfile _ => exact .inl ⟨hfile, by rw [hwindow], by rw [hwindow], by rw [hwindow]⟩
  | @written pdu hpdu hnumber hflag hfile hadvanced _ _ =>
      rcases hfile with ⟨hne, hfile⟩ | ⟨hnil, hpoint, hfile⟩
      · exact .inr ⟨pdu, hpolled hpdu, .inl ⟨hpdu, hnumber, fun _ => hne⟩, hflag,
          .written hfile hadvanced⟩
      · have hbuffering (hc : x.1.point = .inOrder) : pdu.payload ≠ [] :=
          by cases hpoint.symm.trans hc
        exact .inr ⟨pdu, hpolled hpdu, .inl ⟨hpdu, hnumber, hbuffering⟩, hflag,
          .skipped hnil hpoint hfile hadvanced⟩
  | kept _ _ _ hfile hedges _ _ _ => exact .inl ⟨hfile, hedges.1, hedges.2.1, hedges.2.2.1⟩
  | flushed hpacket hflag hfile hadvanced _ _ hpoint =>
      obtain ⟨pdu, hpdu, hkeeps⟩ := hstored hpacket
      exact .inr ⟨pdu, hpdu, .inr ⟨hpoint.1, _, hpacket, hkeeps⟩, hkeeps.flag ▸ hflag,
        .written (hkeeps.payload ▸ hfile) hadvanced⟩
  | short hsource hwindow hfile hpoint =>
      rcases hsource with ⟨pdu, hpdu, hnumber, hflag, hne, rfl⟩ |
        ⟨packet, hpacket, hflush, hflag, rfl⟩
      · exact .inr ⟨pdu, hpolled hpdu, .inl ⟨hpdu, hnumber, fun _ => hne⟩, hflag,
          .short hfile hwindow hpoint⟩
      · obtain ⟨pdu, hpdu, hkeeps⟩ := hstored hpacket
        exact .inr ⟨pdu, hpdu, .inr ⟨hflush, packet, hpacket, hkeeps⟩, hkeeps.flag ▸ hflag,
          .short (hkeeps.payload ▸ hfile) hwindow hpoint⟩

theorem recorded_of_start {n : Int} {bufferSize : BufferSize} {seq : UInt32} {addr : Addr}
    (hstart : start n bufferSize seq addr = .ok r₀) : Recorded (r₀, []) := by
  have hempty := WindowArray.slot_makeWindow (of_start hstart).1
  refine ⟨fun j packet hj => ?_, fun j packet hj => ?_⟩
  · cases (hempty j).symm.trans hj
  · cases (hempty j).symm.trans hj

end

/-! ## Flags -/

/-- Nothing but data and the EOF is taken at `current`; a PDU without a payload may be, by
`in_order`, which then stops. -/
def TakesData (o : ByteOrder) (r : Rcopy) (i : RcopyInput) : Prop :=
  (∀ pdu ∈ i.pdu o (pduHeaderLen + r.bufferSize), pdu.sequenceNumber = toUInt32 r.window.current →
    IsDataFlag pdu.recvFlag ∨ pdu.recvFlag = eofFlag ∨ (r.point = .inOrder ∧ pdu.payload = [])) ∧
  (r.point = .flush → ∀ packet ∈ r.window.find r.window.current,
    IsDataFlag packet.flag ∨ packet.flag = eofFlag)

/-- A PDU that is accepted and neither data nor the EOF is old, or finds its slot taken, or stops
`in_order` for want of a payload. -/
def IgnoresForeign (o : ByteOrder) (r : Rcopy) (i : RcopyInput) : Prop :=
  ∀ pdu ∈ i.pdu o (pduHeaderLen + r.bufferSize),
    IsDataFlag pdu.recvFlag ∨ pdu.recvFlag = eofFlag ∨
    pdu.sequenceNumber < toUInt32 r.window.current ∨
    (toUInt32 r.window.current < pdu.sequenceNumber ∧
      (r.window.find (toInt32 pdu.sequenceNumber)).isSome) ∨
    (pdu.sequenceNumber = toUInt32 r.window.current ∧ r.point = .inOrder ∧ pdu.payload = [])

instance (o : ByteOrder) (r : Rcopy) (i : RcopyInput) : Decidable (TakesData o r i) :=
  inferInstanceAs (Decidable (_ ∧ _))

instance (o : ByteOrder) (r : Rcopy) (i : RcopyInput) : Decidable (IgnoresForeign o r i) :=
  inferInstanceAs (Decidable (∀ pdu ∈ i.pdu o _, _))

/-- The file consists of data, up to a last piece that was cut off by a failed `write`. -/
def OnlyData (x : Rcopy × List ReceivedPdu) : Prop :=
  ∀ chunk ∈ x.1.outputFile, ∃ pdu ∈ x.2, IsDataFlag pdu.recvFlag ∧ chunk <+: pdu.payload

section
variable {o : ByteOrder} {r₀ : Rcopy} {x x' : Rcopy × List ReceivedPdu}
  {l : RcopyInput × List Datagram}

/-- Under the condition, what a step takes is data. -/
theorem Recorded.takesData (h : Recorded x) (hstep : (peerSystem o r₀).step x l x')
    (hdata : TakesData o x.1 l.1) : Unmoved x.1 x'.1 ∨ ∃ pdu ∈ x'.2,
      Handles o x.1 l.1 pdu ∧ IsDataFlag pdu.recvFlag ∧ Taken x.1 pdu.payload x'.1 := by
  rcases h.handles hstep with hsame | ⟨pdu, hpdu, hhandles, hflag, htaken⟩
  · exact .inl hsame
  · rcases hhandles with ⟨hpoll, hnumber, hne⟩ | ⟨hpoint, packet, hpacket, hkeeps⟩
    · rcases hdata.1 pdu hpoll hnumber with hisdata | heof | ⟨hpoint, hnil⟩
      · exact .inr ⟨pdu, hpdu, .inl ⟨hpoll, hnumber, hne⟩, hisdata, htaken⟩
      · exact absurd heof hflag
      · exact absurd hnil (hne hpoint)
    · rcases hdata.2 hpoint packet (WindowArray.find_eq_some.mpr hpacket) with hisdata | heof
      · exact .inr ⟨pdu, hpdu, .inr ⟨hpoint, packet, hpacket, hkeeps⟩, hkeeps.flag ▸ hisdata,
          htaken⟩
      · exact absurd (hkeeps.flag ▸ heof) hflag

/-- What was written is data, and stays it. -/
theorem OnlyData.step (h : OnlyData x) (hrecorded : Recorded x)
    (hstep : (peerSystem o r₀).step x l x') (hdata : TakesData o x.1 l.1) : OnlyData x' := by
  have hold : ∀ chunk ∈ x.1.outputFile,
      ∃ pdu ∈ x'.2, IsDataFlag pdu.recvFlag ∧ chunk <+: pdu.payload := by
    intro chunk hchunk
    obtain ⟨pdu, hpdu, hflag, hprefix⟩ := h chunk hchunk
    exact ⟨pdu, hstep.2 ▸ List.mem_append_left _ hpdu, hflag, hprefix⟩
  intro chunk hchunk
  rcases hrecorded.takesData hstep hdata with hsame | ⟨pdu, hpdu, -, hflag, htaken⟩
  · exact hold chunk (hsame.file ▸ hchunk)
  · cases htaken with
    | written hfile _ =>
        rw [hfile, List.mem_append, List.mem_singleton] at hchunk
        rcases hchunk with hchunk | rfl
        · exact hold chunk hchunk
        · exact ⟨pdu, hpdu, hflag, List.prefix_rfl⟩
    | skipped _ _ hfile _ => exact hold chunk (hfile ▸ hchunk)
    | short hfile _ _ =>
        rw [hfile, List.mem_append, List.mem_singleton] at hchunk
        rcases hchunk with hchunk | rfl
        · exact hold chunk hchunk
        · exact ⟨pdu, hpdu, hflag, List.take_prefix _ _⟩

/-- The slots hold nothing but data and the EOF. -/
def HoldsData (r : Rcopy) : Prop :=
  ∀ j packet, r.window.slot j = some packet → IsDataFlag packet.flag ∨ packet.flag = eofFlag

theorem HoldsData.takesData {r : Rcopy} {i : RcopyInput} (h : HoldsData r)
    (hforeign : IgnoresForeign o r i) : TakesData o r i := by
  refine ⟨fun pdu hpdu hnumber => ?_, fun _ packet hpacket => ?_⟩
  · rcases hforeign pdu hpdu with hdata | heof | hlt | ⟨hlt, -⟩ | ⟨-, hempty⟩
    · exact .inl hdata
    · exact .inr (.inl heof)
    · exact absurd (hnumber ▸ hlt) (UInt32.lt_irrefl _)
    · exact absurd (hnumber ▸ hlt) (UInt32.lt_irrefl _)
    · exact .inr (.inr hempty)
  · obtain ⟨j, -, hslot⟩ := WindowArray.find_eq_some.mp hpacket
    exact h j packet hslot

theorem HoldsData.step {r r' : Rcopy} {i : RcopyInput} {ds : List Datagram} (h : HoldsData r)
    (hstocked : r.Stocked) (hforeign : IgnoresForeign o r i)
    (hstep : r.step o i = some (.ok (r', ds))) : HoldsData r' := by
  intro j packet hj
  rcases (effect_of_step hstocked hstep).slot_cases hj with
    hold | ⟨pdu, hpdu, hnumber, hindex, hempty, hkeeps, -⟩
  · exact h j packet hold
  rw [hkeeps.flag]
  rcases hforeign pdu hpdu with hdata | heof | hlt | ⟨-, htaken⟩ | ⟨heq, -⟩
  · exact .inl hdata
  · exact .inr heof
  · exact absurd hlt (UInt32.lt_asymm hnumber)
  · -- Its slot was taken, so it is not what the slot holds now.
    obtain ⟨old, hold⟩ := Option.isSome_iff_exists.mp htaken
    obtain ⟨j', hindex', hslot⟩ := WindowArray.find_eq_some.mp hold
    cases hindex.symm.trans hindex'
    cases hempty.symm.trans hslot
  · exact absurd (heq ▸ hnumber) (UInt32.lt_irrefl _)

theorem recorded_of_reachable {n : Int} {bufferSize : BufferSize} {seq : UInt32} {addr : Addr}
    (hstart : start n bufferSize seq addr = .ok r₀) {x : Rcopy × List ReceivedPdu}
    (h : (peerSystem o r₀).Reachable x) : Recorded x := by
  refine System.Reachable.invariant ?_ (fun x l x' _ hx hstep => hx.step hstep) h
  intro x hx
  cases hx
  exact recorded_of_start hstart

/-- **Only data gets into the file and moves the window, in every run in which nothing but data and
the EOF is taken at `current`.** So it is in particular where whatever else is accepted is either
old, or beyond `current` with its slot taken. -/
theorem onlyData_of_reachable {n : Int} {bufferSize : BufferSize} {seq : UInt32} {addr : Addr}
    (hstart : start n bufferSize seq addr = .ok r₀) :
    (∀ x, (peerRuns o r₀ (TakesData o)).Reachable x → OnlyData x ∧
      ∀ l x', (peerRuns o r₀ (TakesData o)).step x l x' → Unmoved x.1 x'.1 ∨ ∃ pdu ∈ x'.2,
        Handles o x.1 l.1 pdu ∧ IsDataFlag pdu.recvFlag ∧ Taken x.1 pdu.payload x'.1) ∧
    ∀ x, (peerRuns o r₀ (IgnoresForeign o)).Reachable x →
      (peerRuns o r₀ (TakesData o)).Reachable x := by
  have hempty := WindowArray.slot_makeWindow (of_start hstart).1
  have hfile := (of_start hstart).2.2.2.1
  refine ⟨fun x hx => ⟨?_, fun l x' hstep => ?_⟩, fun x hx => ?_⟩
  · refine System.Reachable.invariant (P := OnlyData) ?_ (fun x l x' hr hx hstep => ?_) hx
    · intro x hx chunk hchunk
      cases hx
      rw [hfile] at hchunk
      cases hchunk
    · exact hx.step (recorded_of_reachable hstart hr.of_restrict) hstep.2 hstep.1
  · exact (recorded_of_reachable hstart hx.of_restrict).takesData hstep.2 hstep.1
  · refine System.Reachable.restrict_of (fun x l x' hr hforeign _ => ?_) hx
    refine HoldsData.takesData ?_ hforeign
    refine System.Reachable.invariant (P := fun x => HoldsData x.1) ?_
      (fun x l x' hr hx hstep => ?_) hr
    · intro x hx j packet hj
      cases hx
      cases (hempty j).symm.trans hj
    · exact hx.step (recorded_of_reachable hstart hr.of_restrict).stocked hstep.1 hstep.2.1

end

/-! ### A late answer to the filename -/

/-- A poll that receives this PDU, with a file that takes every `write`. -/
def receives (s : UInt32) (flag : Byte) (payload : Bytes) : RcopyInput :=
  .poll (.received 7 [] (encodePDU .little s flag payload)) .complete 0

/-- An answer to the filename that arrives after the first block is old, and ignored. -/
theorem onlyData_smallRcopy : ∃ x,
    (peerRuns .little smallRcopy (IgnoresForeign .little)).Reachable x ∧
    x.1.outputFile = [[10], [11]] ∧ x.2.map ReceivedPdu.recvFlag
      = [dataPacketFlag, filenameResponseFlag, dataPacketFlag] ∧ OnlyData x := by
  have hinit : (peerRuns .little smallRcopy (IgnoresForeign .little)).Reachable (smallRcopy, []) :=
    .init rfl
  obtain ⟨x, hx, hp⟩ := hinit.exists_of_run (peerNext .little (IgnoresForeign .little))
    (fun _ _ _ => peerRuns_of_peerNext)
    [receives 0 dataPacketFlag [10], receives 0 filenameResponseFlag [1],
      receives 1 dataPacketFlag [11]]
    (fun x => decide (x.1.outputFile = [[10], [11]] ∧ x.2.map ReceivedPdu.recvFlag
      = [dataPacketFlag, filenameResponseFlag, dataPacketFlag]))
    (by decide +kernel)
  obtain ⟨hfile, hflags⟩ := of_decide_eq_true hp
  have hmain := onlyData_of_reachable (o := .little) start_smallRcopy
  exact ⟨x, hx, hfile, hflags, (hmain.1 x (hmain.2 x hx)).1⟩

/-- Before the first block, it becomes the first block. -/
theorem not_onlyData_smallRcopy : start (2 : Nat) leastBufferSize 0 7 = .ok smallRcopy ∧
    ∃ x, (peerSystem .little smallRcopy).Reachable x ∧
      (∀ pdu ∈ x.2, (pdu.sequenceNumber.toNat : Int) < smallRcopy.window.upper) ∧
      ¬ OnlyData x := by
  have hinit : (peerRuns .little smallRcopy fun _ _ => True).Reachable (smallRcopy, []) := .init rfl
  obtain ⟨x, hx, hp⟩ := hinit.exists_of_run (peerNext .little fun _ _ => True)
    (fun _ _ _ => peerRuns_of_peerNext) [receives 0 filenameResponseFlag [1]]
    (fun x => decide (x.1.outputFile = [[1]] ∧ ∀ pdu ∈ x.2,
      (pdu.sequenceNumber.toNat : Int) < smallRcopy.window.upper ∧ ¬ IsDataFlag pdu.recvFlag))
    (by decide +kernel)
  obtain ⟨hfile, hheard⟩ := of_decide_eq_true hp
  refine ⟨rfl, x, hx.of_restrict, fun pdu hpdu => (hheard pdu hpdu).1, fun hdata => ?_⟩
  obtain ⟨pdu, hpdu, hflag, -⟩ := hdata [1] (by rw [hfile]; exact List.mem_singleton_self _)
  exact (hheard pdu hpdu).2 hflag

/-! ## Numbers -/

/-- What is accepted is data or the EOF, with a payload. -/
def DataOrEof (o : ByteOrder) (r : Rcopy) (i : RcopyInput) : Prop :=
  ∀ pdu ∈ i.pdu o (pduHeaderLen + r.bufferSize),
    (IsDataFlag pdu.recvFlag ∨ pdu.recvFlag = eofFlag) ∧ pdu.payload ≠ []

/-- If a flush finds data in the slot of `current`, it is the PDU with that number. -/
def FlushesOwn (r : Rcopy) : Prop :=
  r.point = .flush → ∀ packet ∈ r.window.find r.window.current,
    packet.flag = eofFlag ∨ packet.sequenceNumber = r.window.current

/-- Data beyond `current` is at most a window ahead of it, or finds its slot taken. -/
def WithinWindow (o : ByteOrder) (r : Rcopy) (i : RcopyInput) : Prop :=
  ∀ pdu ∈ i.pdu o (pduHeaderLen + r.bufferSize), pdu.recvFlag = eofFlag ∨
    (pdu.sequenceNumber.toNat : Int) ≤ r.window.current + r.window.windowSize ∨
    (r.window.find (toInt32 pdu.sequenceNumber)).isSome

instance (o : ByteOrder) (r : Rcopy) (i : RcopyInput) : Decidable (DataOrEof o r i) :=
  inferInstanceAs (Decidable (∀ pdu ∈ i.pdu o _, _))

instance (r : Rcopy) : Decidable (FlushesOwn r) :=
  inferInstanceAs (Decidable (_ → ∀ packet ∈ r.window.find _, _))

instance (o : ByteOrder) (r : Rcopy) (i : RcopyInput) : Decidable (WithinWindow o r i) :=
  inferInstanceAs (Decidable (∀ pdu ∈ i.pdu o _, _))

/-- Chunk `k` of the file is the payload of data received under the number `k`; only if the file
could not be written, the last one may be cut off. -/
def ChunksNumbered (x : Rcopy × List ReceivedPdu) : Prop :=
  ∀ k chunk, x.1.outputFile[k]? = some chunk → ∃ pdu ∈ x.2, IsDataFlag pdu.recvFlag ∧
    pdu.sequenceNumber.toNat = k ∧
    (chunk = pdu.payload ∨ (x.1.point = .done .writeFailed ∧ chunk <+: pdu.payload))

/-- The chunks are numbered, and `current` is the number of the next. -/
structure Numbered (x : Rcopy × List ReceivedPdu) : Prop where
  chunks : ChunksNumbered x
  heard : ∀ pdu ∈ x.2, (IsDataFlag pdu.recvFlag ∨ pdu.recvFlag = eofFlag) ∧ pdu.payload ≠ []
  length : x.1.point ≠ .done .writeFailed → (x.1.outputFile.length : Int) = x.1.window.current
  current_lt : x.1.window.current < 2147483648

/-- Where a number may be that is stored, from the point the receiver is at. -/
def Due (r : Rcopy) (s : Int) : Prop :=
  match r.point with
  | .inOrder => False
  | .buffering => r.window.current < s ∧ s ≤ r.window.current + r.window.windowSize
  | .flush => r.window.current ≤ s ∧ s < r.window.current + r.window.windowSize
  | .done _ => True

/-- Every slot that holds data holds it in the place of its number, and that number is due. -/
structure Disciplined (n : Nat) (r : Rcopy) : Prop where
  stocked : r.Stocked
  windowSize : r.window.windowSize = n
  current_nonneg : 0 ≤ r.window.current
  current_lt : r.window.current < 2147483648
  highest_nonneg : 0 ≤ r.window.highest
  highest_lt : r.window.highest < 2147483648
  slots : ∀ j packet, r.window.slot j = some packet → packet.flag ≠ eofFlag →
    ∃ s : Nat, packet.sequenceNumber = s ∧ s % n = j ∧ s ≤ r.window.highest ∧ r.Due s

section
variable {o : ByteOrder} {r₀ : Rcopy} {x x' : Rcopy × List ReceivedPdu}
  {l : RcopyInput × List Datagram}

theorem Numbered.step (h : Numbered x) (hrecorded : Recorded x)
    (hstep : (peerSystem o r₀).step x l x') (haccepted : DataOrEof o x.1 l.1)
    (hown : FlushesOwn x.1) : Numbered x' := by
  have hlength := h.length (step_done hstep.1 .writeFailed)
  have hheard : ∀ pdu ∈ x'.2,
      (IsDataFlag pdu.recvFlag ∨ pdu.recvFlag = eofFlag) ∧ pdu.payload ≠ [] := by
    intro pdu hpdu
    rw [hstep.2, List.mem_append, Option.mem_toList] at hpdu
    exact hpdu.elim (h.heard pdu) (haccepted pdu)
  have hold : ∀ k chunk, x.1.outputFile[k]? = some chunk → ∃ pdu ∈ x'.2,
      IsDataFlag pdu.recvFlag ∧ pdu.sequenceNumber.toNat = k ∧ chunk = pdu.payload := by
    intro k chunk hk
    obtain ⟨pdu, hpdu, hflag, hnumber, hchunk | ⟨hdone, -⟩⟩ := h.chunks k chunk hk
    · exact ⟨pdu, hstep.2 ▸ List.mem_append_left _ hpdu, hflag, hnumber, hchunk⟩
    · exact absurd hdone (step_done hstep.1 _)
  rcases hrecorded.handles hstep with hsame | ⟨pdu, hpdu, hhandles, hflag, htaken⟩
  · refine ⟨fun k chunk hk => ?_, hheard, fun _ => ?_, hsame.current ▸ h.current_lt⟩
    · obtain ⟨pdu, hpdu, hflag, hnumber, hchunk⟩ := hold k chunk (hsame.file ▸ hk)
      exact ⟨pdu, hpdu, hflag, hnumber, .inl hchunk⟩
    · rw [hsame.file, hsame.current, hlength]
  -- The PDU taken carries `current`, which is the number of the next chunk.
  have hdata : IsDataFlag pdu.recvFlag := (hheard pdu hpdu).1.resolve_right hflag
  have hnumber : pdu.sequenceNumber = toUInt32 x.1.window.current := by
    rcases hhandles with ⟨-, hnumber, -⟩ | ⟨hpoint, packet, hpacket, hkeeps⟩
    · exact hnumber
    · rcases hown hpoint packet (WindowArray.find_eq_some.mpr hpacket) with heof | hcurrent
      · exact absurd (hkeeps.flag ▸ heof) hflag
      · rw [← hcurrent, hkeeps.sequenceNumber, toUInt32_toInt32]
  have hnext : pdu.sequenceNumber.toNat = x.1.outputFile.length := by
    have hlt := h.current_lt
    rw [hnumber, toNat_toUInt32 (by omega) (by omega)]
    omega
  have happend {chunk : Bytes} (hfile : x'.1.outputFile = x.1.outputFile ++ [chunk])
      (hchunk : chunk = pdu.payload ∨ (x'.1.point = .done .writeFailed ∧ chunk <+: pdu.payload)) :
      ChunksNumbered x' := by
    intro k chunk' hk
    rw [hfile, List.getElem?_append] at hk
    split at hk
    · obtain ⟨pdu', hpdu', hflag', hnumber', hchunk'⟩ := hold k chunk' hk
      exact ⟨pdu', hpdu', hflag', hnumber', .inl hchunk'⟩
    · next hge =>
        rw [List.getElem?_singleton] at hk
        split at hk
        · next hk' =>
            cases hk
            exact ⟨pdu, hpdu, hdata, by omega, hchunk⟩
        · cases hk
  cases htaken with
  | written hfile hadvanced =>
      refine ⟨happend hfile (.inl rfl), hheard, fun _ => ?_, hadvanced.current_lt⟩
      rw [hfile, hadvanced.current, List.length_append, ← hlength]
      rfl
  | skipped hnil _ _ _ => exact absurd hnil (hheard pdu hpdu).2
  | short hfile hwindow hpoint =>
      exact ⟨happend hfile (.inr ⟨hpoint, List.take_prefix _ _⟩), hheard,
        fun hrunning => absurd hpoint hrunning, hwindow ▸ h.current_lt⟩

/-- No two numbers that are due share a slot, so the flush finds the number it looks for. -/
theorem Disciplined.flushesOwn {n : Nat} {r : Rcopy} (h : Disciplined n r) (hpos : 0 < n) :
    FlushesOwn r := by
  intro hpoint packet hpacket
  obtain ⟨j, hindex, hslot⟩ := WindowArray.find_eq_some.mp hpacket
  by_cases heof : packet.flag = eofFlag
  · exact .inl heof
  obtain ⟨s, hs, hmod, -, hdue⟩ := h.slots j packet hslot heof
  obtain ⟨c, hc⟩ := Int.eq_ofNat_of_zero_le h.current_nonneg
  simp only [Due, hpoint, hc, h.windowSize] at hdue
  rw [hc, WindowArray.index_eq h.windowSize hpos] at hindex
  cases hindex
  right
  rw [hs, hc]
  by_contra hne
  -- `s` and `current` are both in the window, and in the same slot.
  have hlow : c ≤ s := by omega
  exact RingBuffer.mod_ne_of_window hlow (by omega) (Nat.le_refl c) (by omega)
    (fun hsc => hne (congrArg _ hsc)) hmod

theorem window_of_start {n : Nat} {bufferSize : BufferSize} {seq : UInt32} {addr : Addr}
    (hstart : start n bufferSize seq addr = .ok r₀) :
    r₀.window.windowSize = n ∧ r₀.window.current = 0 ∧ r₀.window.highest = 0 := by
  have hwindow := (of_start hstart).1
  rw [makeWindow, dif_pos (by omega)] at hwindow
  rw [← Option.some.inj hwindow]
  exact ⟨rfl, rfl, rfl⟩

theorem Disciplined.start {n : Nat} {bufferSize : BufferSize} {seq : UInt32} {addr : Addr}
    (hstart : start n bufferSize seq addr = .ok r₀) : Disciplined n r₀ := by
  have hempty := WindowArray.slot_makeWindow (of_start hstart).1
  obtain ⟨hsize, hcurrent, hhighest⟩ := window_of_start hstart
  refine ⟨(recorded_of_start hstart).stocked, hsize, by omega, by omega, by omega, by omega,
    fun j packet hj => ?_⟩
  cases (hempty j).symm.trans hj

theorem Numbered.start {n : Nat} {bufferSize : BufferSize} {seq : UInt32} {addr : Addr}
    (hstart : start n bufferSize seq addr = .ok r₀) : Numbered (r₀, []) := by
  have hfile : r₀.outputFile = [] := (of_start hstart).2.2.2.1
  obtain ⟨-, hcurrent, -⟩ := window_of_start hstart
  refine ⟨fun k chunk hk => ?_, fun _ hc => (by cases hc), fun _ => ?_, ?_⟩
  · rw [hfile] at hk
    cases hk
  · rw [hfile, hcurrent]
    rfl
  · rw [hcurrent]
    decide

/-- A step that leaves the window alone, as long as what is stored stays due. -/
theorem Disciplined.of_window {n : Nat} {r r' : Rcopy} (h : Disciplined n r)
    (hstocked : r'.Stocked) (hwindow : r'.window = r.window)
    (hdue : ∀ (s j : Nat) packet, r.window.slot j = some packet → s % n = j → r.Due s → r'.Due s) :
    Disciplined n r' := by
  refine ⟨hstocked, hwindow ▸ h.windowSize, hwindow ▸ h.current_nonneg, hwindow ▸ h.current_lt,
    hwindow ▸ h.highest_nonneg, hwindow ▸ h.highest_lt, fun j packet hj hflag => ?_⟩
  rw [hwindow] at hj ⊢
  obtain ⟨s, hs, hmod, hle, hs'⟩ := h.slots j packet hj hflag
  exact ⟨s, hs, hmod, hle, hdue s j packet hj hmod hs'⟩

/-- A PDU that was kept within the window carries a number that is due in `buffering`. -/
theorem WithinWindow.le {r : Rcopy} {i : RcopyInput} (h : WithinWindow o r i) {pdu : ReceivedPdu}
    (hpdu : i.pdu o (pduHeaderLen + r.bufferSize) = some pdu) (hflag : pdu.recvFlag ≠ eofFlag)
    {j : Nat} (hindex : r.window.index (toInt32 pdu.sequenceNumber) = .ok j)
    (hempty : r.window.slot j = none) :
    (pdu.sequenceNumber.toNat : Int) ≤ r.window.current + r.window.windowSize := by
  rcases h pdu hpdu with heof | hnear | htaken
  · exact absurd heof hflag
  · exact hnear
  · obtain ⟨old, hold⟩ := Option.isSome_iff_exists.mp htaken
    obtain ⟨j', hindex', hslot⟩ := WindowArray.find_eq_some.mp hold
    cases hindex.symm.trans hindex'
    cases hempty.symm.trans hslot

/-- What is kept within the window stays in the place of its number. -/
theorem Disciplined.step {n : Nat} {r r' : Rcopy} {i : RcopyInput} {ds : List Datagram}
    (h : Disciplined n r) (hpos : 0 < n) (hwithin : WithinWindow o r i)
    (hstep : r.step o i = some (.ok (r', ds))) : Disciplined n r' := by
  obtain ⟨c, hc⟩ := Int.eq_ofNat_of_zero_le h.current_nonneg
  have hindex : r.window.index r.window.current = .ok (c % n) :=
    hc ▸ WindowArray.index_eq h.windowSize hpos
  have hstocked := h.stocked.step hstep
  have hsize := h.windowSize
  have hlt := h.current_lt
  have hhigh := h.highest_nonneg
  have hhigh_lt := h.highest_lt
  cases effect_of_step h.stocked hstep with
  | idle hwindow hfile hpoint =>
      refine h.of_window hstocked hwindow fun s j packet hj hmod hdue => ?_
      rcases hpoint with hsame | ⟨hflush, hbuffering, hnone⟩ | ⟨why, hdone⟩
      · simp only [Due, hsame, hwindow] at hdue ⊢
        exact hdue
      · -- The slot of `current` is empty, so `current` itself is not stored.
        simp only [Due, hflush, hbuffering, hwindow] at hdue ⊢
        have hne : s ≠ c := fun hsc => hnone packet ⟨j, by rw [hindex, ← hmod, hsc], hj⟩
        omega
      · simp only [Due, hdone]
  | @written pdu hpdu hnumber hflag hfile hadvanced harray hpoint =>
      have hslot (j : Nat) : r'.window.slot j = r.window.slot j := by
        unfold WindowArray.slot
        rw [harray]
      have hcurrent := hadvanced.current
      have hsize' := hadvanced.windowSize
      rcases hpoint with ⟨hpoint, hpoint', hhighest⟩ | ⟨hpoint, hpoint', hhighest⟩
      · -- In order nothing is stored.
        have hseq : toInt32 pdu.sequenceNumber = c := by
          rw [hnumber, toInt32_toUInt32 (by omega) (by omega), hc]
        refine ⟨hstocked, hsize'.trans hsize, by omega, hadvanced.current_lt, by omega, by omega,
          fun j packet hj hflag => ?_⟩
        obtain ⟨s, -, -, -, hdue⟩ := h.slots j packet (hslot j ▸ hj) hflag
        simp only [Due, hpoint] at hdue
      · refine ⟨hstocked, hsize'.trans hsize, by omega, hadvanced.current_lt, by omega, by omega,
          fun j packet hj hflag => ?_⟩
        obtain ⟨s, hs, hmod, hle, hdue⟩ := h.slots j packet (hslot j ▸ hj) hflag
        refine ⟨s, hs, hmod, by omega, ?_⟩
        simp only [Due, hpoint, hpoint'] at hdue ⊢
        omega
  | @kept pdu hpdu hnumber hpoll hfile hedges hslots hhighest hpoint =>
      obtain ⟨-, -, hcurrent, hsize'⟩ := hedges
      obtain ⟨hseq, hle, hhighest_lt, hmono⟩ := hhighest h.current_nonneg hlt hhigh hhigh_lt
      refine ⟨hstocked, hsize'.trans hsize, by omega, by omega, by omega, hhighest_lt,
        fun j packet hj hflag => ?_⟩
      rcases hslots j packet hj with hold | ⟨hj', hempty, hkeeps, -⟩
      · obtain ⟨s, hs, hmod, hle', hdue⟩ := h.slots j packet hold hflag
        rcases hpoll with hpoll | hpoll
        · simp only [Due, hpoll] at hdue
        · have := hmono hpoll
          refine ⟨s, hs, hmod, by omega, ?_⟩
          simp only [Due, hpoll, hpoint] at hdue ⊢
          omega
      · have hnear := hwithin.le hpdu (hkeeps.flag ▸ hflag) hj' hempty
        rw [toInt32_of_lt hseq] at hj'
        rw [hc, toUInt32_natCast_lt (by omega)] at hnumber
        refine ⟨pdu.sequenceNumber.toNat, hkeeps.sequenceNumber.trans (toInt32_of_lt hseq), ?_, hle,
          ?_⟩
        · exact Except.ok.inj ((WindowArray.index_eq h.windowSize hpos).symm.trans hj')
        · simp only [Due, hpoint]
          omega
  | flushed hpacket hflag hfile hadvanced hhighest hslots hpoint =>
      have hcurrent := hadvanced.current
      have hsize' := hadvanced.windowSize
      refine ⟨hstocked, hsize'.trans hsize, by omega, hadvanced.current_lt, by omega, by omega,
        fun j packet' hj hflag' => ?_⟩
      obtain ⟨hold, hother⟩ := hslots j packet' hj
      obtain ⟨s, hs, hmod, hle, hdue⟩ := h.slots j packet' hold hflag'
      have hne : s ≠ c := fun hsc => hother (by rw [hindex, ← hmod, hsc])
      refine ⟨s, hs, hmod, by omega, ?_⟩
      rcases hpoint with ⟨hpoint, ⟨hpoint', hlast⟩ | hpoint'⟩
      · simp only [Due, hpoint, hpoint'] at hdue ⊢
        omega
      · simp only [Due, hpoint, hpoint'] at hdue ⊢
        omega
  | short hsource hwindow hfile hpoint =>
      refine h.of_window hstocked hwindow fun s j packet hj hmod hdue => ?_
      simp only [Due, hpoint]

/-- **The chunks of the file are numbered in every run in which a flush finds, in the slot of
`current`, only the data with that number.** So it is in particular where no data is kept that is
more than a window ahead of `current`. -/
theorem chunksNumbered_of_reachable {n : Nat} {bufferSize : BufferSize} {seq : UInt32} {addr : Addr}
    (hpos : 0 < n) (hstart : start n bufferSize seq addr = .ok r₀) :
    (∀ x, (peerRuns o r₀ fun r i => DataOrEof o r i ∧ FlushesOwn r).Reachable x →
      ChunksNumbered x) ∧
    ∀ x, (peerRuns o r₀ fun r i => DataOrEof o r i ∧ WithinWindow o r i).Reachable x →
      (peerRuns o r₀ fun r i => DataOrEof o r i ∧ FlushesOwn r).Reachable x := by
  refine ⟨fun x hx => ?_, fun x hx => ?_⟩
  · refine (System.Reachable.invariant (P := Numbered) ?_ (fun x l x' hr hx hstep => ?_) hx).chunks
    · intro x hx
      cases hx
      exact .start hstart
    · exact hx.step (recorded_of_reachable hstart hr.of_restrict) hstep.2 hstep.1.1 hstep.1.2
  · refine System.Reachable.restrict_of (fun x l x' hr hok _ => ⟨hok.1, ?_⟩) hx
    refine Disciplined.flushesOwn ?_ hpos
    refine System.Reachable.invariant (P := fun x => Disciplined n x.1) ?_
      (fun x l x' hr hx hstep => ?_) hr
    · intro x hx
      cases hx
      exact .start hstart
    · exact hx.step hpos hstep.1.2 hstep.2.1

end

/-! ### A block from beyond the window -/

/-- A receiver with a window of two, and blocks 2, 1 and 0 in that order. -/
theorem chunksNumbered_smallRcopy : ∃ x,
    (peerRuns .little smallRcopy fun r i =>
      DataOrEof .little r i ∧ WithinWindow .little r i).Reachable x ∧
    x.1.outputFile = [[10], [11], [12]] ∧ ChunksNumbered x := by
  have hinit : (peerRuns .little smallRcopy fun r i =>
      DataOrEof .little r i ∧ WithinWindow .little r i).Reachable (smallRcopy, []) := .init rfl
  obtain ⟨x, hx, hp⟩ := hinit.exists_of_run
    (peerNext .little fun r i => DataOrEof .little r i ∧ WithinWindow .little r i)
    (fun _ _ _ => peerRuns_of_peerNext)
    [receives 2 dataPacketFlag [12], receives 1 dataPacketFlag [11],
      receives 0 dataPacketFlag [10], .flush .complete 0, .flush .complete 0]
    (fun x => decide (x.1.outputFile = [[10], [11], [12]])) (by decide +kernel)
  have hmain := chunksNumbered_of_reachable (o := .little) (by decide) start_smallRcopy
  exact ⟨x, hx, of_decide_eq_true hp, hmain.1 x (hmain.2 x hx)⟩

/-- Block 3 is kept in the slot of block 1, and flushed in its place. -/
theorem not_chunksNumbered_smallRcopy : start (2 : Nat) leastBufferSize 0 7 = .ok smallRcopy ∧
    ∃ x, (peerRuns .little smallRcopy (DataOrEof .little)).Reachable x ∧
      x.1.outputFile = [[10], [13]] ∧ ¬ ChunksNumbered x := by
  have hinit : (peerRuns .little smallRcopy (DataOrEof .little)).Reachable (smallRcopy, []) :=
    .init rfl
  obtain ⟨x, hx, hp⟩ := hinit.exists_of_run (peerNext .little (DataOrEof .little))
    (fun _ _ _ => peerRuns_of_peerNext)
    [receives 3 dataPacketFlag [13], receives 0 dataPacketFlag [10], .flush .complete 0]
    (fun x => decide (x.1.outputFile = [[10], [13]] ∧
      ∀ pdu ∈ x.2, pdu.sequenceNumber.toNat ≠ 1)) (by decide +kernel)
  obtain ⟨hfile, hheard⟩ := of_decide_eq_true hp
  refine ⟨rfl, x, hx, hfile, fun hchunks => ?_⟩
  obtain ⟨pdu, hpdu, -, hnumber, -⟩ := hchunks 1 [13] (by rw [hfile]; rfl)
  exact hheard pdu hpdu hnumber

end Rcopy

end RemoteCopy

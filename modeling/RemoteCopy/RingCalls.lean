import RemoteCopy.WindowCalls
import RemoteCopy.Transfer

/-!
# Remainders and sums of the window

Every function of `window.c` that takes a sequence number takes its remainder by the window size
first, and uses it as an index. Here is, for each step of either program, the list of all calls that
do. Nothing is missing in it, nor in the list of the upper edges that `incrementUpper` is called
for: no step fails at another remainder (`Server.ringSound_of_step`, `Rcopy.ringSound_of_step`), and
none moves the upper edge otherwise (`Server.upper_of_step`, `Rcopy.upper_of_step`).
-/

namespace RemoteCopy

/-- `x` is an `int32_t`. -/
def InInt32 (x : Int) : Prop := -2147483648 ≤ x ∧ x < 2147483648

instance (x : Int) : Decidable (InInt32 x) := inferInstanceAs (Decidable (_ ∧ _))

namespace WindowCall

/-- The remainder that the call takes has a positive divisor, and is an index of the array. -/
def InRing (c : WindowCall) : Prop :=
  0 < c.window.windowSize ∧ 0 ≤ c.number.tmod c.window.windowSize ∧
    c.number.tmod c.window.windowSize < c.window.windowSize

instance (c : WindowCall) : Decidable c.InRing := inferInstanceAs (Decidable (_ ∧ _ ∧ _))

theorem inRing_of_nonneg {c : WindowCall} (hsize : 0 < c.window.windowSize)
    (hnumber : 0 ≤ c.number) : c.InRing :=
  ⟨hsize, Int.tmod_nonneg _ hnumber, Int.tmod_lt_of_pos _ hsize⟩

/-- It is what `index` computes. -/
theorem inRing_iff {c : WindowCall} : c.InRing ↔ ∃ j, c.window.index c.number = .ok j := by
  have hlen := c.window.length_array
  rw [WindowArray.index]
  constructor
  · rintro ⟨hsize, hindex, -⟩
    rw [if_neg (by omega), if_neg (by omega)]
    exact ⟨_, rfl⟩
  · rintro ⟨j, hj⟩
    split at hj
    · cases hj
    · next hsize =>
        split at hj
        · cases hj
        · next hindex =>
            have hpos : 0 < c.window.windowSize := by omega
            exact ⟨hpos, by omega, Int.tmod_lt_of_pos _ hpos⟩

end WindowCall

namespace Server

/-- The buffers of `resend_data_packet` have a size: the sum is an `int32_t`, and positive. -/
def HasBuffers (bufferSize : Int) : Prop :=
  0 < pduHeaderLen + bufferSize ∧ pduHeaderLen + bufferSize < 2147483648

instance (bufferSize : Int) : Decidable (HasBuffers bufferSize) :=
  inferInstanceAs (Decidable (_ ∧ _))

/-- The calls of `get_PDU` from `resend_data_packet`. -/
def gets (o : ByteOrder) (s : Server) (i : ServerInput) : List WindowCall :=
  let get (number : Int) : List WindowCall :=
    if HasBuffers s.bufferSize then [⟨s.window, toInt32 (toUInt32 number)⟩] else []
  match i with
  | .poll .timeout =>
      match s.point with
      | .windowClosed _ | .endOfFileWait _ => get s.window.lower
      | _ => []
  | .poll (.received _ stale datagram) =>
      match s.point, receiveControl o stale datagram with
      | .windowOpenPoll, .srej number | .windowClosed _, .srej number
      | .endOfFileWait _, .srej number => get number
      | _, _ => []
  | .run _ _ => []

/-- The calls of a step that take a remainder. -/
def remainders (o : ByteOrder) (s : Server) (i : ServerInput) : List WindowCall :=
  s.adds i ++ s.gets o i ++ s.removes o i

end Server

namespace Rcopy

/-- The calls of `checkPDUValid` and `get_PDU` from `flush`. -/
def gets (r : Rcopy) (i : RcopyInput) : List WindowCall :=
  match r.point, i with
  | .flush, .flush _ _ => ⟨r.window, r.window.current⟩ ::
      if r.window.checkPDUValid r.window.current = .ok true then [⟨r.window, r.window.current⟩]
      else []
  | _, _ => []

/-- The calls of a step that take a remainder. -/
def remainders (o : ByteOrder) (r : Rcopy) (i : RcopyInput) : List WindowCall :=
  r.adds o i ++ r.gets i ++ r.removes i

end Rcopy

/-! ## Nothing else takes a remainder -/

/-- `y` did not end at a remainder or with the index that it gave. -/
def RingSound {α : Type} (y : C α) : Prop :=
  y ≠ .error .remainderByZero ∧ y ≠ .error .indexOutOfBounds

section
variable {α β : Type}

theorem RingSound.ok (a : α) : RingSound (.ok a : C α) :=
  ⟨fun hc => (by cases hc), fun hc => (by cases hc)⟩

theorem RingSound.bind {x : C α} {f : α → C β} (hx : RingSound x)
    (hf : ∀ a, x = .ok a → RingSound (f a)) : RingSound (x >>= f) := by
  cases x with
  | ok a => exact hf a rfl
  | error e =>
      refine ⟨fun hc => hx.1 ?_, fun hc => hx.2 ?_⟩
      · cases hc
        rfl
      · cases hc
        rfl

theorem ringSound_createPDU (o : ByteOrder) (size : Nat) (seq : UInt32) (flag : Byte)
    (payload : Bytes) (len : Int) : RingSound (createPDU o size seq flag payload len) := by
  unfold createPDU
  split
  · exact ⟨fun hc => (by cases hc), fun hc => (by cases hc)⟩
  · split
    · exact ⟨fun hc => (by cases hc), fun hc => (by cases hc)⟩
    · exact .ok _

theorem ringSound_addInt32 (a b : Int) : RingSound (addInt32 a b) := by
  unfold addInt32
  split
  · exact .ok _
  · exact ⟨fun hc => (by cases hc), fun hc => (by cases hc)⟩

end

section
variable {w : WindowArray} {x : Int}

theorem ringSound_incrementLower (w : WindowArray) : RingSound w.incrementLower :=
  (ringSound_addInt32 _ _).bind fun _ _ => .ok _

theorem ringSound_incrementUpper (w : WindowArray) : RingSound w.incrementUpper :=
  (ringSound_addInt32 _ _).bind fun _ _ => .ok _

theorem ringSound_incrementCurrent (w : WindowArray) : RingSound w.incrementCurrent :=
  (ringSound_addInt32 _ _).bind fun _ _ => .ok _

theorem ringSound_index (h : (WindowCall.mk w x).InRing) : RingSound (w.index x) := by
  obtain ⟨j, hj⟩ := WindowCall.inRing_iff.mp h
  rw [show w.index x = .ok j from hj]
  exact .ok j

theorem ringSound_checkPDUValid (h : (WindowCall.mk w x).InRing) :
    RingSound (w.checkPDUValid x) :=
  (ringSound_index h).bind fun _ _ => .ok _

theorem ringSound_getPDU (h : (WindowCall.mk w x).InRing) (pdu : Bytes) :
    RingSound (w.getPDU pdu x) := by
  refine (ringSound_index h).bind fun j _ => ?_
  split
  · exact .ok _
  · split
    · exact ⟨fun hc => (by cases hc), fun hc => (by cases hc)⟩
    · exact .ok _

theorem ringSound_addPDU (h : (WindowCall.mk w x).InRing) (pdu : Bytes) (len : Nat) :
    RingSound (w.addPDU pdu len x) := by
  refine (ringSound_index h).bind fun j _ => ?_
  split
  · exact .ok _
  · split
    · exact .ok _
    · exact ⟨fun hc => (by cases hc), fun hc => (by cases hc)⟩

theorem ringSound_removePDU (h : (WindowCall.mk w x).InRing) : RingSound (w.removePDU x) :=
  (ringSound_index h).bind fun _ _ => .ok _

end

/-! ### The child -/

namespace Server

variable {o : ByteOrder} {s : Server} {i : ServerInput}

theorem ringSound_cleaningUpLoop {rr : Int} : ∀ (fuel : Nat) {w : WindowArray},
    (∀ c ∈ cleaningUpRemoves rr fuel w, c.InRing) → RingSound (cleaningUpLoop rr fuel w) := by
  intro fuel
  induction fuel with
  | zero => exact fun _ => .ok _
  | succ fuel ih =>
      intro w h
      rw [cleaningUpLoop]
      rw [cleaningUpRemoves] at h
      split
      · next hlt =>
          rw [if_pos hlt] at h
          refine (ringSound_removePDU (h _ List.mem_cons_self)).bind fun w₁ hremove => ?_
          refine (ringSound_incrementLower w₁).bind fun w₂ hlower => ?_
          refine (ringSound_incrementUpper w₂).bind fun w₃ hupper => ih fun c hc => ?_
          simp only [hremove, hlower, hupper, C.ok_bind] at h
          exact h c (List.mem_cons_of_mem _ hc)
      · exact .ok _

theorem ringSound_resendDataPacket {w : WindowArray} {number bufferSize : Int} {flag : Byte}
    (h : HasBuffers bufferSize → (WindowCall.mk w (toInt32 (toUInt32 number))).InRing) :
    RingSound (resendDataPacket o w (toUInt32 number) flag bufferSize) := by
  refine (ringSound_addInt32 _ _).bind fun len hlen => ?_
  obtain ⟨rfl, hlt⟩ := of_addInt32 hlen
  split
  · exact ⟨fun hc => (by cases hc), fun hc => (by cases hc)⟩
  · next hsize =>
      exact (ringSound_getPDU (h ⟨by omega, hlt⟩) _).bind fun x _ => ringSound_createPDU ..

theorem ringSound_resend {number : Int} {flag : Byte} (h : HasBuffers s.bufferSize →
      (WindowCall.mk s.window (toInt32 (toUInt32 number))).InRing) :
    RingSound (s.resend o number flag) :=
  (ringSound_resendDataPacket h).bind fun _ _ => .ok _

theorem ringSound_windowOpen {readFails : Bool} {junk : Byte} (hpoint : s.point = .windowOpen)
    (h : ∀ c ∈ s.adds (.run readFails junk), c.InRing) : RingSound (s.windowOpen o readFails) := by
  unfold windowOpen
  split
  · next hopen =>
      split
      · exact ⟨fun hc => (by cases hc), fun hc => (by cases hc)⟩
      · next hsize =>
          split
          · exact .ok _
          · next hread =>
              split
              · exact .ok _
              · next payload rest hfile =>
                  rw [Bool.not_eq_true] at hread
                  have hne : s.dataFile ≠ [] := by
                    rw [hfile]
                    exact List.cons_ne_nil _ _
                  simp only [adds, hpoint, if_pos (And.intro hopen (And.intro
                    (Int.not_le.mp hsize) (And.intro hread hne)))] at h
                  refine RingSound.bind ?_ fun _ _ => .ok _
                  refine (ringSound_createPDU ..).bind fun buf _ => ?_
                  refine (ringSound_addPDU (h _ (List.mem_singleton_self _)) _ _).bind fun w _ => ?_
                  exact (ringSound_incrementCurrent w).bind fun _ _ => .ok _
  · exact .ok _

/-- The child gets the PDU at `lower`, or one that an SREJ asks for. -/
theorem of_mem_gets {c : WindowCall} (h : c ∈ s.gets o i) : ∃ number,
    c = ⟨s.window, toInt32 (toUInt32 number)⟩ ∧ (number = s.window.lower ∨
      ∃ src stale datagram, i = .poll (.received src stale datagram) ∧
        receiveControl o stale datagram = .srej number) := by
  have hget {number : Int} (h : c ∈ if HasBuffers s.bufferSize then
      [WindowCall.mk s.window (toInt32 (toUInt32 number))] else []) :
      c = ⟨s.window, toInt32 (toUInt32 number)⟩ := by
    split at h
    · exact List.mem_singleton.mp h
    · cases h
  unfold gets at h
  simp only at h
  split at h
  · split at h
    · exact ⟨_, hget h, .inl rfl⟩
    · exact ⟨_, hget h, .inl rfl⟩
    · cases h
  · split at h
    · next hcontrol => exact ⟨_, hget h, .inr ⟨_, _, _, rfl, hcontrol⟩⟩
    · next hcontrol => exact ⟨_, hget h, .inr ⟨_, _, _, rfl, hcontrol⟩⟩
    · next hcontrol => exact ⟨_, hget h, .inr ⟨_, _, _, rfl, hcontrol⟩⟩
    · cases h
  · cases h

theorem gets_of_srej (hpoll : s.Polls) (src : Addr) {stale datagram : Bytes} {number : Int}
    (hcontrol : receiveControl o stale datagram = .srej number) :
    s.gets o (.poll (.received src stale datagram))
      = if HasBuffers s.bufferSize then
          [⟨s.window, toInt32 (toUInt32 number)⟩] else [] := by
  rcases hpoll with hpoint | ⟨count, hpoint⟩ | ⟨count, hpoint⟩ <;>
    simp only [gets, hpoint, hcontrol]

theorem ringSound_poll {p : Poll} {y : C (Server × List Datagram)}
    (hgets : ∀ c ∈ s.gets o (.poll p), c.InRing) (hremoves : ∀ c ∈ s.removes o (.poll p), c.InRing)
    (hy : s.step o (.poll p) = some y) : RingSound y := by
  have hpoll := polls_of_step hy
  cases p with
  | timeout =>
      rcases hpoll with hpoint | ⟨count, hpoint⟩ | ⟨count, hpoint⟩
      · simp only [step_windowOpenPoll hpoint, windowOpenPoll, Option.some.injEq] at hy
        exact hy ▸ .ok _
      · simp only [step_windowClosed hpoint, windowClosed, Option.some.injEq] at hy
        simp only [gets, hpoint] at hgets
        rw [← hy]
        refine (ringSound_resend fun hsize => hgets _ ?_).bind fun _ _ => .ok _
        rw [if_pos hsize]
        exact List.mem_singleton_self _
      · simp only [step_endOfFileWait hpoint, endOfFileWait, Option.some.injEq] at hy
        simp only [gets, hpoint] at hgets
        rw [← hy]
        refine (ringSound_resend fun hsize => hgets _ ?_).bind fun _ _ => .ok _
        rw [if_pos hsize]
        exact List.mem_singleton_self _
  | received src stale datagram =>
      cases hcontrol : receiveControl o stale datagram with
      | rr rr =>
          obtain ⟨next, -, hstep⟩ := step_rr hpoll src hcontrol
          rw [hstep] at hy
          cases hy
          rw [removes_of_rr hpoll src hcontrol] at hremoves
          exact (ringSound_cleaningUpLoop _ hremoves).bind fun _ _ => .ok _
      | srej number =>
          obtain ⟨s', -, hstep⟩ := step_srej hpoll src hcontrol
          rw [hstep] at hy
          cases hy
          rw [gets_of_srej hpoll src hcontrol] at hgets
          refine (ringSound_resendDataPacket fun hsize => hgets _ ?_).bind fun _ _ => .ok _
          rw [if_pos hsize]
          exact List.mem_singleton_self _
      | rejected =>
          obtain ⟨s', ds, rfl⟩ := step_control_returns (.inl hcontrol) hy
          exact .ok _
      | eofAck =>
          obtain ⟨s', ds, rfl⟩ := step_control_returns (.inr (.inl hcontrol)) hy
          exact .ok _
      | other =>
          obtain ⟨s', ds, rfl⟩ := step_control_returns (.inr (.inr hcontrol)) hy
          exact .ok _

/-- **A step of the child takes no other remainders**: if these are in the ring, none fails. -/
theorem ringSound_of_step {y : C (Server × List Datagram)}
    (h : ∀ c ∈ s.remainders o i, c.InRing) (hy : s.step o i = some y) : RingSound y := by
  have hadds : ∀ c ∈ s.adds i, c.InRing := fun c hc =>
    h c (List.mem_append_left _ (List.mem_append_left _ hc))
  have hgets : ∀ c ∈ s.gets o i, c.InRing := fun c hc =>
    h c (List.mem_append_left _ (List.mem_append_right _ hc))
  have hremoves : ∀ c ∈ s.removes o i, c.InRing := fun c hc => h c (List.mem_append_right _ hc)
  cases i with
  | poll p => exact ringSound_poll hgets hremoves hy
  | run readFails junk =>
      unfold step at hy
      split at hy
      · next hpoint hi =>
          cases hi
          cases hy
          exact ringSound_windowOpen hpoint hadds
      · next hi => cases hi
      · next hi => cases hi
      · next hpoint hi =>
          cases hi
          cases hy
          simp only [adds, hpoint] at hadds
          refine RingSound.bind ?_ fun _ _ => .ok _
          refine (ringSound_createPDU ..).bind fun buf _ => ?_
          exact (ringSound_addPDU (hadds _ (List.mem_singleton_self _)) _ _).bind fun _ _ => .ok _
      · next hi => cases hi
      · cases hy

end Server

/-! ### The receiver -/

namespace Rcopy

variable {o : ByteOrder} {r : Rcopy} {i : RcopyInput} {pdu : ReceivedPdu} {write : Write}
  {junk : Byte}

theorem ringSound_sendNumber (r : Rcopy) (flag : Byte) (number : Int) :
    RingSound (r.sendNumber o flag number) := by
  rw [sendNumber_eq]
  exact .ok _

theorem ringSound_sendEofAck (r : Rcopy) (junk : Byte) : RingSound (r.sendEofAck o junk) :=
  (ringSound_createPDU ..).bind fun _ _ => .ok _

theorem ringSound_srejLoop (number : UInt32) : ∀ (fuel : Nat) (i : Int) (r : Rcopy),
    RingSound (r.srejLoop o number fuel i) := by
  intro fuel
  induction fuel with
  | zero => exact fun i r => .ok _
  | succ fuel ih =>
      intro i r
      rw [srejLoop]
      split
      · refine (ringSound_sendNumber ..).bind fun x _ => ?_
        refine (ringSound_addInt32 i 1).bind fun j _ => ?_
        exact (ih j x.1).bind fun _ _ => .ok _
      · exact .ok _

theorem ringSound_advance (w : WindowArray) : RingSound (advance w) :=
  (ringSound_incrementLower w).bind fun w _ =>
    (ringSound_incrementUpper w).bind fun w _ => ringSound_incrementCurrent w

theorem ringSound_flushAdvance {w : WindowArray} (h : (WindowCall.mk w w.current).InRing) :
    RingSound (flushAdvance w) :=
  (ringSound_removePDU h).bind fun w _ => (ringSound_incrementCurrent w).bind fun w _ =>
    (ringSound_incrementUpper w).bind fun w _ => ringSound_incrementLower w

theorem ringSound_inOrderCurrent : RingSound (r.inOrderCurrent o pdu write junk) := by
  unfold inOrderCurrent
  split
  · split
    · split
      · exact .ok _
      · refine (ringSound_advance _).bind fun w _ => ?_
        exact (ringSound_sendNumber ..).bind fun _ _ => .ok _
    · exact .ok _
  · exact (ringSound_sendEofAck r junk).bind fun _ _ => .ok _

/-- Without a window nothing takes a remainder. -/
theorem ringSound_inOrderWithoutWindow (bufferSize : BufferSize) (p : Poll) :
    RingSound (inOrderWithoutWindow o bufferSize p) := by
  unfold inOrderWithoutWindow
  split
  · exact .ok _
  · simp only
    split
    · exact .ok _
    · exact ⟨fun hc => (by cases hc), fun hc => (by cases hc)⟩

theorem ringSound_bufferingCurrent : RingSound (r.bufferingCurrent o pdu write) := by
  unfold bufferingCurrent
  split
  · simp only
    split
    · split
      · exact .ok _
      · refine (ringSound_advance _).bind fun w _ => ?_
        exact (ringSound_sendNumber ..).bind fun _ _ => .ok _
    · refine (ringSound_advance _).bind fun w _ => ?_
      exact (ringSound_sendNumber ..).bind fun _ _ => .ok _
  · exact .ok _

theorem ringSound_inOrderAhead {buf : Bytes} {len : Nat}
    (h : (WindowCall.mk (r.window.updateHighest (toInt32 pdu.sequenceNumber))
      (toInt32 pdu.sequenceNumber)).InRing) : RingSound (r.inOrderAhead o pdu buf len) := by
  refine (ringSound_srejLoop ..).bind fun ⟨r₁, ds⟩ hloop => ?_
  obtain ⟨⟨seq, rfl⟩, -⟩ := of_srejLoop _ hloop
  exact (ringSound_addPDU h buf len).bind fun _ _ => .ok _

theorem ringSound_bufferingAhead {buf : Bytes} {len : Nat}
    (h : (WindowCall.mk r.window (toInt32 pdu.sequenceNumber)).InRing) :
    RingSound (r.bufferingAhead o pdu buf len) := by
  refine (ringSound_addPDU h buf len).bind fun w _ => ?_
  simp only
  split
  · refine (ringSound_addInt32 ..).bind fun i _ => ?_
    exact (ringSound_srejLoop ..).bind fun _ _ => .ok _
  · exact .ok _

/-- A poll takes one remainder at most, for a PDU beyond `current`. -/
theorem ringSound_poll {p : Poll} {y : C (Rcopy × List Datagram)}
    (h : ∀ c ∈ r.adds o (.poll p write junk), c.InRing)
    (hy : r.step o (.poll p write junk) = some y) : RingSound y := by
  rcases point_of_step_poll hy with hpoint | hpoint
  · rw [step_inOrder hpoint, Option.some.injEq] at hy
    subst hy
    cases p with
    | timeout => exact .ok _
    | received src stale datagram =>
        simp only [adds, hpoint, RcopyInput.pdu] at h
        simp only [inOrder]
        split
        · exact .ok _
        · next pdu hpdu =>
            simp only [hpdu] at h
            split
            · next hle =>
                split
                · exact ringSound_inOrderCurrent
                · next hne =>
                    rw [if_pos (UInt32.lt_of_le_of_ne hle (Ne.symm hne))] at h
                    exact ringSound_inOrderAhead (h _ (List.mem_singleton_self _))
            · exact (ringSound_sendNumber ..).bind fun _ _ => .ok _
  · rw [step_buffering hpoint, Option.some.injEq] at hy
    subst hy
    cases p with
    | timeout => exact .ok _
    | received src stale datagram =>
        simp only [adds, hpoint, RcopyInput.pdu] at h
        simp only [buffering]
        split
        · exact .ok _
        · next pdu hpdu =>
            simp only [hpdu] at h
            split
            · next hlt =>
                rw [if_pos hlt] at h
                exact ringSound_bufferingAhead (h _ (List.mem_singleton_self _))
            · split
              · exact ringSound_bufferingCurrent
              · exact (ringSound_sendNumber ..).bind fun _ _ => .ok _

theorem ringSound_flush (hpoint : r.point = .flush)
    (h : ∀ c ∈ r.gets (.flush write junk), c.InRing) : RingSound (r.flush o write junk) := by
  simp only [gets, hpoint] at h
  have hcall := h _ List.mem_cons_self
  refine (ringSound_checkPDUValid hcall).bind fun valid _ => ?_
  split
  · refine (ringSound_getPDU hcall _).bind fun x _ => ?_
    simp only
    split
    · exact (ringSound_sendEofAck r junk).bind fun _ _ => .ok _
    · unfold flushWrite
      simp only
      split
      · split
        · exact .ok _
        · refine (ringSound_flushAdvance hcall).bind fun w _ => ?_
          refine (ringSound_sendNumber ..).bind fun y _ => ?_
          split <;> exact .ok _
      · refine (ringSound_flushAdvance hcall).bind fun w _ => ?_
        refine (ringSound_sendNumber ..).bind fun y _ => ?_
        split <;> exact .ok _
  · exact .ok _

/-- **A step of the receiver takes no other remainders.** -/
theorem ringSound_of_step {y : C (Rcopy × List Datagram)}
    (h : ∀ c ∈ r.remainders o i, c.InRing) (hy : r.step o i = some y) : RingSound y := by
  cases i with
  | poll p write junk =>
      exact ringSound_poll (fun c hc => h c (List.mem_append_left _ (List.mem_append_left _ hc))) hy
  | flush write junk =>
      by_cases hpoint : r.point = .flush
      · rw [step_flush hpoint, Option.some.injEq] at hy
        subst hy
        exact ringSound_flush hpoint fun c hc =>
          h c (List.mem_append_left _ (List.mem_append_right _ hc))
      · rw [step_flush_none hpoint] at hy
        cases hy

end Rcopy

/-! ## Nothing else moves the upper edge -/

section
variable {o : ByteOrder}

theorem upper_of_cleaningUpLoop {rr : Int} {fuel : Nat} {w w' : WindowArray}
    (h : cleaningUpLoop rr fuel w = .ok w') :
    w'.upper = w.upper + (cleaningUpRemoves rr fuel w).length := by
  refine cleaningUpRemoves_rel (R := fun cs w w' => w'.upper = w.upper + cs.length) ?_ ?_ fuel w w'
    h
  · intro w
    exact (Int.add_zero _).symm
  · intro cs w w' i _ _ hrest
    have hupper : w'.upper = w.upper + 1 + cs.length := hrest
    rw [hupper, List.length_cons, Int.natCast_succ, Int.add_assoc, Int.add_comm 1]

/-- **A step of the child moves the upper edge once for each call.** -/
theorem Server.upper_of_step {s s' : Server} {i : ServerInput} {ds : List Datagram}
    (h : s.step o i = some (.ok (s', ds))) :
    s'.window.upper = s.window.upper + (s.raises o i).length := by
  have hmoves := moves_of_step h
  rw [raises, List.length_map]
  generalize s'.window = w' at hmoves ⊢
  cases hmoves with
  | still _ hremoves =>
      rw [hremoves]
      exact (Int.add_zero _).symm
  | sent _ _ _ _ _ hsend =>
      obtain ⟨-, -, w₁, hadd, rfl⟩ := of_sendDataPacket hsend
      exact (WindowArray.edges_of_addPDU hadd).2.1.trans (Int.add_zero _).symm
  | sentEof _ _ hsend =>
      exact (WindowArray.edges_of_addPDU (of_sendEof hsend).2).2.1.trans (Int.add_zero _).symm
  | released _ hremoves hclean =>
      rw [hremoves]
      exact upper_of_cleaningUpLoop hclean

namespace Rcopy

/-- **A step of the receiver moves the upper edge once for each call.** -/
theorem upper_of_step {r r' : Rcopy} {i : RcopyInput} {ds : List Datagram}
    (h : r.step o i = some (.ok (r', ds))) :
    r'.window.upper = r.window.upper + (r.raises o i).length := by
  have hmoves := moves_of_step h
  generalize r'.window = w' at hmoves ⊢
  cases hmoves with
  | still _ _ hraises =>
      rw [hraises]
      exact (Int.add_zero _).symm
  | advanced _ _ _ hraises hadvance =>
      rw [hraises]
      exact (of_advance hadvance).1.upper
  | kept _ _ _ _ _ hraises hadd =>
      rw [hraises]
      exact (WindowArray.edges_of_addPDU hadd).2.1.trans (Int.add_zero _).symm
  | flushed _ _ _ hraises hadvance =>
      rw [hraises]
      exact (of_flushAdvance hadvance).1.upper

end Rcopy

end

end RemoteCopy

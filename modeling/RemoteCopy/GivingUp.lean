import RemoteCopy.ServerPeer

/-!
# When the server child gives up

`window_closed` and `end_of_file` count their timeouts in a local variable, which some branches set
back to zero, which leaving the function forgets, and which is tested in the loop condition and once
more behind it. What the count stands for is said about the history of the run: a count of `c` means
that the last `c` polls timed out in that same function, with the PDU at the same `lower` sent again
after each (`Server.Waited`). So the child gives up on a client that was silent for ten polls in a
row, and on no other (`Server.gaveUp_of_reachable`).
-/

namespace RemoteCopy

namespace Server

variable {o : ByteOrder} {s s' t : Server} {i : ServerInput} {ds : List Datagram}

/-- A step of the child, with the state it was taken in. -/
abbrev Step := Server × (ServerInput × List Datagram)

/-! ## What a step does to the count -/

/-- What a step that returns does to the count of the two loops. -/
inductive Counts (o : ByteOrder) (s : Server) : ServerInput → Server → List Datagram → Prop
  /-- `window_closed` counts one timeout more. -/
  | closed {count : Nat} {d : Datagram} (hpoint : s.point = .windowClosed count)
      (hresend : s.resend o s.window.lower resentTimeoutDataPacketFlag = .ok d) :
      Counts o s (.poll .timeout) (s.windowClosedLoop (count + 1)) [d]
  /-- So does `end_of_file`. -/
  | atEof {count : Nat} {d : Datagram} (hpoint : s.point = .endOfFileWait count)
      (hresend : s.resend o s.window.lower resentTimeoutDataPacketFlag = .ok d) :
      Counts o s (.poll .timeout) (s.endOfFileLoop (count + 1)) [d]
  /-- A loop is entered, or goes on from zero. -/
  | restarted {i : ServerInput} {ds : List Datagram} {t : Server} {s' : Server}
      (h : s' = t.windowClosedLoop 0 ∨ s' = t.endOfFileLoop 0) : Counts o s i s' ds
  /-- The child is in `window_open`, or about to enter `end_of_file`. -/
  | moved {i : ServerInput} {ds : List Datagram} {s' : Server}
      (h : s'.point = .windowOpen ∨ s'.point = .windowOpenPoll ∨ s'.point = .endOfFile) :
      Counts o s i s' ds
  /-- A `read` of `window_open` failed. -/
  | readFailed {i : ServerInput} {ds : List Datagram} {s' : Server} (hpoint : s.point = .windowOpen)
      (h : s'.point = .done .readFailed) : Counts o s i s' ds
  /-- What was received was neither RR nor SREJ. -/
  | ended {src : Addr} {stale datagram : Bytes} {ds : List Datagram} {s' : Server}
      (hcontrol : receiveControl o stale datagram = .eofAck ∨
        receiveControl o stale datagram = .other)
      (h : s'.point = .done .eofAck ∨ s'.point = .done .unexpected) :
      Counts o s (.poll (.received src stale datagram)) s' ds

theorem counts_windowOpen {readFails : Bool} {junk : Byte} (hpoint : s.point = .windowOpen)
    (h : s.windowOpen o readFails = .ok (s', ds)) : Counts o s (.run readFails junk) s' ds := by
  unfold windowOpen at h
  split at h
  · split at h
    · cases h
    · split at h
      · cases h
        exact .readFailed hpoint rfl
      · split at h
        · cases h
          exact .moved (.inr (.inr rfl))
        · obtain ⟨x, -, h⟩ := C.bind_eq_ok.mp h
          cases h
          exact .moved (.inr (.inl rfl))
  · cases h
    exact .restarted (.inl rfl)

theorem counts_windowOpenPoll {p : Poll} (h : s.windowOpenPoll o p = .ok (s', ds)) :
    Counts o s (.poll p) s' ds := by
  unfold windowOpenPoll at h
  split at h
  · cases h
    exact .moved (.inl rfl)
  · split at h
    · cases h
      exact .moved (.inl rfl)
    · obtain ⟨w, -, h⟩ := C.bind_eq_ok.mp h
      cases h
      exact .moved (.inl rfl)
    · obtain ⟨d, -, h⟩ := C.bind_eq_ok.mp h
      cases h
      exact .moved (.inl rfl)
    · next hcontrol =>
        cases h
        exact .ended (.inl hcontrol) (.inr rfl)
    · next hcontrol =>
        cases h
        exact .ended (.inr hcontrol) (.inr rfl)

theorem counts_windowClosed {count : Nat} {p : Poll} (hpoint : s.point = .windowClosed count)
    (h : s.windowClosed o count p = .ok (s', ds)) : Counts o s (.poll p) s' ds := by
  unfold windowClosed at h
  split at h
  · obtain ⟨d, hresend, h⟩ := C.bind_eq_ok.mp h
    cases h
    exact .closed hpoint hresend
  · split at h
    · cases h
      exact .restarted (.inl rfl)
    · obtain ⟨w, -, h⟩ := C.bind_eq_ok.mp h
      cases h
      exact .moved (.inl rfl)
    · obtain ⟨d, -, h⟩ := C.bind_eq_ok.mp h
      cases h
      exact .restarted (.inl rfl)
    · next hcontrol =>
        cases h
        exact .ended (.inl hcontrol) (.inr rfl)
    · next hcontrol =>
        cases h
        exact .ended (.inr hcontrol) (.inr rfl)

theorem counts_endOfFileWait {count : Nat} {p : Poll} (hpoint : s.point = .endOfFileWait count)
    (h : s.endOfFileWait o count p = .ok (s', ds)) : Counts o s (.poll p) s' ds := by
  unfold endOfFileWait at h
  split at h
  · obtain ⟨d, hresend, h⟩ := C.bind_eq_ok.mp h
    cases h
    exact .atEof hpoint hresend
  · split at h
    · cases h
      exact .restarted (.inr rfl)
    · obtain ⟨w, -, h⟩ := C.bind_eq_ok.mp h
      cases h
      exact .restarted (.inr rfl)
    · obtain ⟨d, -, h⟩ := C.bind_eq_ok.mp h
      cases h
      exact .restarted (.inr rfl)
    · next hcontrol =>
        cases h
        exact .ended (.inl hcontrol) (.inl rfl)
    · next hcontrol =>
        cases h
        exact .ended (.inr hcontrol) (.inr rfl)

/-- **What a step does to the count.** -/
theorem counts_of_step (h : s.step o i = some (.ok (s', ds))) : Counts o s i s' ds := by
  unfold step at h
  split at h
  · next hpoint => exact counts_windowOpen hpoint (Option.some.inj h)
  · exact counts_windowOpenPoll (Option.some.inj h)
  · next hpoint => exact counts_windowClosed hpoint (Option.some.inj h)
  · obtain ⟨x, -, h⟩ := C.bind_eq_ok.mp (Option.some.inj h)
    cases h
    exact .restarted (.inr rfl)
  · next hpoint => exact counts_endOfFileWait hpoint (Option.some.inj h)
  · cases h

/-! ## What the count stands for -/

/-- A poll of one second that timed out, after which the PDU at `lower` was sent again. -/
structure TimedOut (o : ByteOrder) (lower : Int) (x : Step) : Prop where
  timeout : x.2.1 = .poll .timeout
  edge : x.1.window.lower = lower
  resent : ∃ i packet, x.1.window.index lower = .ok i ∧ x.1.window.slot i = some packet ∧
    packet.sequenceNumber = lower ∧ x.2.2 = [⟨x.1.client, encodePDU o (toUInt32 lower)
      (packet.resentFlag resentTimeoutDataPacketFlag) packet.payload⟩]

/-- The last `count` steps were polls of the one loop, from its start on, that timed out. -/
def Waited (o : ByteOrder) (waits : Nat → ServerPoint) (count : Nat) (lower : Int)
    (history : List Step) : Prop :=
  ∃ earlier recent, history = earlier ++ recent ∧
    recent.map (fun x => x.1.point) = (List.range count).map waits ∧
    ∀ x ∈ recent, TimedOut o lower x

section
variable {waits : Nat → ServerPoint} {count : Nat} {lower : Int} {history : List Step}

theorem Waited.zero (waits : Nat → ServerPoint) (lower : Int) (history : List Step) :
    Waited o waits 0 lower history :=
  ⟨history, [], (List.append_nil history).symm, rfl, fun _ hx => (by cases hx)⟩

/-- One timeout more. -/
theorem Waited.succ (h : Waited o waits count lower history) {x : Step}
    (hpoint : x.1.point = waits count) (hx : TimedOut o lower x) :
    Waited o waits (count + 1) lower (history ++ [x]) := by
  obtain ⟨earlier, recent, rfl, hpoints, hrecent⟩ := h
  refine ⟨earlier, recent ++ [x], List.append_assoc .., ?_, fun y hy => ?_⟩
  · rw [List.map_append, hpoints, List.range_succ, List.map_append, List.map_singleton,
      List.map_singleton, hpoint]
  · rcases List.mem_append.mp hy with hy | hy
    · exact hrecent y hy
    · rw [List.mem_singleton.mp hy]
      exact hx

/-- The last of the steps was the last of those polls. -/
theorem Waited.last {x : Step} (h : Waited o waits (count + 1) lower (history ++ [x])) :
    x.1.point = waits count := by
  obtain ⟨earlier, recent, heq, hpoints, -⟩ := h
  have hlast : (recent.map fun x => x.1.point).getLast? = some (waits count) := by
    rw [hpoints, List.range_succ, List.map_append]
    exact List.getLast?_concat
  obtain ⟨y, hy, hpoint⟩ := Option.map_eq_some_iff.mp ((List.getLast?_map ..).symm.trans hlast)
  have hx : (earlier ++ recent).getLast? = some x := by
    rw [← heq]
    exact List.getLast?_concat
  rw [List.getLast?_append, hy] at hx
  cases hx
  exact hpoint

/-- What the counts of `s` stand for. -/
structure Waiting (o : ByteOrder) (s : Server) (history : List Step) : Prop where
  closed : ∀ count, s.point = .windowClosed count →
    Waited o .windowClosed count s.window.lower history
  atEof : ∀ count, s.point = .endOfFileWait count →
    Waited o .endOfFileWait count s.window.lower history
  gaveUp : s.point = .done .gaveUp →
    Waited o .windowClosed 10 s.window.lower history ∨
      Waited o .endOfFileWait 10 s.window.lower history

theorem waiting_of_ne (hclosed : ∀ count, s.point ≠ .windowClosed count)
    (hatEof : ∀ count, s.point ≠ .endOfFileWait count) (hdone : s.point ≠ .done .gaveUp) :
    s.Waiting o history :=
  ⟨fun count hc => absurd hc (hclosed count), fun count hc => absurd hc (hatEof count),
    fun hc => absurd hc hdone⟩

/-- The loop of `window_closed` with a count that is right. -/
theorem waiting_windowClosedLoop (h : Waited o .windowClosed count s.window.lower history) :
    (s.windowClosedLoop count).Waiting o history := by
  unfold windowClosedLoop
  split
  · refine ⟨fun c hc => ?_, fun c hc => (by cases hc), fun hc => (by cases hc)⟩
    cases hc
    exact h
  · split
    · next hcount =>
        subst hcount
        exact ⟨fun c hc => (by cases hc), fun c hc => (by cases hc), fun _ => .inl h⟩
    · exact waiting_of_ne (fun c hc => by cases hc) (fun c hc => by cases hc) fun hc => by cases hc

/-- The loop of `end_of_file` with a count that is right. -/
theorem waiting_endOfFileLoop (hcount : count ≤ 10)
    (h : Waited o .endOfFileWait count s.window.lower history) :
    (s.endOfFileLoop count).Waiting o history := by
  unfold endOfFileLoop
  split
  · refine ⟨fun c hc => (by cases hc), fun c hc => ?_, fun hc => (by cases hc)⟩
    cases hc
    exact h
  · next hge =>
      have hten : count = 10 := by omega
      subst hten
      exact ⟨fun c hc => (by cases hc), fun c hc => (by cases hc), fun _ => .inr h⟩

end

/-! ## The run -/

section
variable {n L K : Nat} {blocks : List Bytes} {m : Nat → Option Packet}

/-- At a timeout the child sends the PDU at `lower` again. -/
theorem Holds.timedOut (h : s.Holds o n blocks L K m)
    (hpoint : (∃ count, s.point = .windowClosed count) ∨ ∃ count, s.point = .endOfFileWait count)
    {d : Datagram} (hresend : s.resend o s.window.lower resentTimeoutDataPacketFlag = .ok d) :
    TimedOut o s.window.lower (s, (.poll .timeout, [d])) := by
  have hlower := h.shows.lower
  have hrange := h.shows.range
  obtain ⟨j, packet, hindex, hslot, hnumber⟩ := h.lowerStored hpoint
  obtain ⟨buf, hbuf, hd⟩ := C.bind_eq_ok.mp hresend
  obtain ⟨j', packet', hindex', hslot', -, -, rfl⟩ := exists_of_resendDataPacket hbuf
  rw [toInt32_toUInt32 (by omega) (by omega)] at hindex'
  cases hindex.symm.trans hindex'
  cases hslot.symm.trans hslot'
  cases hd
  exact ⟨rfl, rfl, j, packet, hindex, hslot, hnumber, rfl⟩

/-- The counts stay right, whatever the step. -/
theorem Waiting.step (h : s.Holds o n blocks L K m) {history : List Step}
    (hwaiting : s.Waiting o history) (hstep : s.step o i = some (.ok (s', ds))) :
    s'.Waiting o (history ++ [(s, (i, ds))]) := by
  have hcounts := counts_of_step hstep
  cases hcounts with
  | @closed count d hpoint hresend =>
      have hsucc := (hwaiting.closed count hpoint).succ hpoint
        (h.timedOut (.inl ⟨count, hpoint⟩) hresend)
      exact waiting_windowClosedLoop hsucc
  | @atEof count d hpoint hresend =>
      have hcount := h.poised.endOfFileWait count hpoint
      have hsucc := (hwaiting.atEof count hpoint).succ hpoint
        (h.timedOut (.inr ⟨count, hpoint⟩) hresend)
      exact waiting_endOfFileLoop hcount hsucc
  | restarted hloop =>
      rcases hloop with rfl | rfl
      · exact waiting_windowClosedLoop (.zero ..)
      · exact waiting_endOfFileLoop (Nat.zero_le 10) (.zero ..)
  | moved hpoint =>
      rcases hpoint with hpoint | hpoint | hpoint <;>
        exact waiting_of_ne (by simp [hpoint]) (by simp [hpoint]) (by simp [hpoint])
  | readFailed _ hdone =>
      exact waiting_of_ne (by simp [hdone]) (by simp [hdone]) (by simp [hdone])
  | ended _ hdone =>
      rcases hdone with hdone | hdone <;>
        exact waiting_of_ne (by simp [hdone]) (by simp [hdone]) (by simp [hdone])

theorem waiting_of_traced {bufferSize : Int} {client : Addr} {s₀ : Server} (hn : 0 < n)
    (hmax : n < 2147483648) (hstart : start n bufferSize blocks client = .ok s₀)
    {x : Server × List Step} (h : (honestSystem o s₀).traced.Reachable x) :
    x.1.Waiting o x.2 := by
  refine System.Reachable.invariant (P := fun x => x.1.Waiting o x.2) ?_ ?_ h
  · rintro x ⟨hinit, -⟩
    have hpoint : x.1.point = .windowOpen := by
      rw [hinit]
      exact (of_start hstart).2.1
    exact waiting_of_ne (by simp [hpoint]) (by simp [hpoint]) (by simp [hpoint])
  · rintro x l x' hr hwaiting ⟨⟨-, hstep⟩, hhistory⟩
    obtain ⟨L, K, m, hs⟩ := holds_of_reachable hn hmax hstart hr.of_traced
    rw [hhistory]
    exact hwaiting.step hs hstep

/-- What the child expects while it waits: nothing, RR, SREJ, or a datagram that is rejected. -/
def Expected (o : ByteOrder) (i : ServerInput) : Prop :=
  ∀ src stale datagram, i = .poll (.received src stale datagram) →
    receiveControl o stale datagram ≠ .eofAck ∧ receiveControl o stale datagram ≠ .other

/-- A loop that ends the child has given up. -/
theorem gaveUp_of_loop {count : Nat} {why : ServerExit}
    (h : s' = t.windowClosedLoop count ∨ s' = t.endOfFileLoop count)
    (hdone : s'.point = .done why) : why = .gaveUp := by
  rcases h with rfl | rfl
  · obtain ⟨point, heq, ⟨-, -, rfl⟩ | rfl | rfl⟩ := t.windowClosedLoop_eq count
    · rw [heq] at hdone
      cases hdone
    · rw [heq] at hdone
      cases hdone
      rfl
    · rw [heq] at hdone
      cases hdone
  · obtain ⟨point, heq, ⟨-, rfl⟩ | rfl⟩ := t.endOfFileLoop_eq count
    · rw [heq] at hdone
      cases hdone
    · rw [heq] at hdone
      cases hdone
      rfl

/-- A step of the two loops that ends the child gives up, unless it was told to end. -/
theorem gaveUp_of_step
    (hpoint : (∃ count, s.point = .windowClosed count) ∨ ∃ count, s.point = .endOfFileWait count)
    (hexpected : Expected o i) (hstep : s.step o i = some (.ok (s', ds))) {why : ServerExit}
    (hdone : s'.point = .done why) : why = .gaveUp := by
  have hcounts := counts_of_step hstep
  cases hcounts with
  | closed _ _ => exact gaveUp_of_loop (.inl rfl) hdone
  | atEof _ _ => exact gaveUp_of_loop (.inr rfl) hdone
  | restarted hloop => exact gaveUp_of_loop hloop hdone
  | moved hmoved =>
      rcases hmoved with hmoved | hmoved | hmoved <;> cases hmoved.symm.trans hdone
  | readFailed hopen _ =>
      rcases hpoint with ⟨count, hpoint⟩ | ⟨count, hpoint⟩ <;> cases hpoint.symm.trans hopen
  | @ended src stale datagram _ _ hcontrol _ =>
      obtain ⟨hack, hother⟩ := hexpected src stale datagram rfl
      rcases hcontrol with hcontrol | hcontrol
      · exact absurd hcontrol hack
      · exact absurd hcontrol hother

/-- **The child gives up on a silent client only.** If a step taken in `window_closed` or
`end_of_file` ends the child, though it received neither an EOF ACK nor anything unexpected, then
the last ten steps, this one included, are polls of that same function, from the entry of its loop
on, all of which timed out; `lower` was the same in all of them, and after each the PDU at `lower`
was sent again. -/
theorem gaveUp_of_reachable {bufferSize : Int} {client : Addr} {s₀ : Server} (hn : 0 < n)
    (hmax : n < 2147483648) (hstart : start n bufferSize blocks client = .ok s₀)
    {earlier : List Step} (h : (honestSystem o s₀).traced.Reachable (s, earlier))
    (hpoint : (∃ count, s.point = .windowClosed count) ∨ ∃ count, s.point = .endOfFileWait count)
    (hacknowledges : AcknowledgesSent o s i) (hexpected : Expected o i)
    (hstep : s.step o i = some (.ok (s', ds))) {why : ServerExit}
    (hdone : s'.point = .done why) :
    ((∃ count, s.point = .windowClosed count) ∧
      Waited o .windowClosed 10 s'.window.lower (earlier ++ [(s, (i, ds))])) ∨
    ((∃ count, s.point = .endOfFileWait count) ∧
      Waited o .endOfFileWait 10 s'.window.lower (earlier ++ [(s, (i, ds))])) := by
  have hstep' : (honestSystem o s₀).traced.step (s, earlier) (i, ds)
      (s', earlier ++ [(s, (i, ds))]) := ⟨⟨hacknowledges, hstep⟩, rfl⟩
  have hwaiting := waiting_of_traced hn hmax hstart (h.step hstep')
  obtain rfl := gaveUp_of_step hpoint hexpected hstep hdone
  rcases hwaiting.gaveUp hdone with hwaited | hwaited
  · exact .inl ⟨⟨9, hwaited.last⟩, hwaited⟩
  · exact .inr ⟨⟨9, hwaited.last⟩, hwaited⟩

end

/-- A step of a child that receives nothing, with its history, computed. -/
def silentNext (o : ByteOrder) (x : Server × List Step) :
    ServerInput → Option (Server × List Step)
  | .poll (.received _ _ _) => none
  | i =>
      match x.1.step o i with
      | some (.ok y) => some (y.1, x.2 ++ [(x.1, (i, y.2))])
      | _ => none

theorem step_of_silentNext {s₀ : Server} {x x' : Server × List Step}
    (h : silentNext o x i = some x') : ∃ l, (honestSystem o s₀).traced.step x l x' := by
  unfold silentNext at h
  split at h
  · cases h
  · next hsilent =>
      split at h
      · next y hstep =>
          cases h
          refine ⟨(i, y.2), ⟨fun src stale datagram rr hi => ?_, hstep⟩, rfl⟩
          exact absurd hi (hsilent src stale datagram)
      · cases h

/-- A window of one PDU that is never acknowledged. -/
theorem gaveUp_smallServer : ∃ s s' ds earlier, s.point = .windowClosed 9 ∧
    s.step .little (.poll .timeout) = some (.ok (s', ds)) ∧ s'.point = .done .gaveUp ∧
    Waited .little .windowClosed 10 s'.window.lower (earlier ++ [(s, (.poll .timeout, ds))]) := by
  have hinit : (honestSystem .little smallServer).traced.Reachable (smallServer, []) :=
    .init ⟨rfl, rfl⟩
  obtain ⟨x, hx, hp⟩ := hinit.exists_of_run (silentNext .little)
    (fun _ _ _ => step_of_silentNext)
    (.run false 0 :: .poll .timeout :: .run false 0 :: List.replicate 9 (.poll .timeout))
    (fun x => decide (x.1.point = .windowClosed 9 ∧
      (x.1.next .little (.poll .timeout)).map Server.point = some (.done .gaveUp)))
    (by decide +kernel)
  obtain ⟨hpoint, hnext⟩ := of_decide_eq_true hp
  unfold next at hnext
  split at hnext
  · next s' ds hstep =>
      have hdone : s'.point = .done .gaveUp := Option.some.inj hnext
      have hreceived {src : Addr} {stale datagram : Bytes} :
          ServerInput.poll .timeout ≠ .poll (.received src stale datagram) := by simp
      rcases gaveUp_of_reachable (by decide) (by decide) start_smallServer hx
        (.inl ⟨9, hpoint⟩) (fun src stale datagram rr hi => absurd hi hreceived)
        (fun src stale datagram hi => absurd hi hreceived) hstep hdone with
        ⟨-, hwaited⟩ | ⟨⟨count, hwait⟩, -⟩
      · exact ⟨x.1, s', ds, x.2, hpoint, hstep, hdone, hwaited⟩
      · cases hpoint.symm.trans hwait
  · cases hnext

end Server

end RemoteCopy

import RemoteCopy.Delivery
import RemoteCopy.WindowCalls

/-!
# What cannot happen

Both programs have branches that their authors take for impossible: exits for what should never be
received, an EOF that is dropped because it cannot be due, and the two complaints of `window.c`.
Between honest peers none of them is taken, over UDP and at any time
(`Transfer.excluded_of_reachable`). Each is excluded by a different part of the joint invariant.
-/

namespace RemoteCopy

/-! ## The child's exits -/

namespace Server

variable {o : ByteOrder} {s s' : Server} {i : ServerInput} {ds : List Datagram}

theorem windowClosedLoop_ne (s : Server) (count : Nat) :
    (s.windowClosedLoop count).point ≠ .done .unexpected := by
  obtain ⟨point, heq, hpoint⟩ := s.windowClosedLoop_eq count
  rw [heq]
  intro hc
  rcases hpoint with ⟨-, -, rfl⟩ | rfl | rfl <;> cases hc

theorem endOfFileLoop_ne (s : Server) (count : Nat) :
    (s.endOfFileLoop count).point ≠ .done .unexpected := by
  obtain ⟨point, heq, hpoint⟩ := s.endOfFileLoop_eq count
  rw [heq]
  intro hc
  rcases hpoint with ⟨-, rfl⟩ | rfl <;> cases hc

/-- Why the exit for something else is taken: for an EOF ACK before the EOF, or for what is none of
the three kinds of datagrams that the receiver sends. -/
def Unexpected (o : ByteOrder) (s : Server) (i : ServerInput) : Prop :=
  ∃ src stale datagram, i = .poll (.received src stale datagram) ∧
    (receiveControl o stale datagram = .other ∨
      (receiveControl o stale datagram = .eofAck ∧ s.point.beforeEof = true))

theorem unexpected_of_windowOpen {readFails : Bool} (h : s.windowOpen o readFails = .ok (s', ds)) :
    s'.point ≠ .done .unexpected := by
  intro hpoint
  unfold windowOpen at h
  split at h
  · split at h
    · cases h
    · split at h
      · cases h
        cases hpoint
      · split at h
        · cases h
          cases hpoint
        · obtain ⟨x, -, h⟩ := C.bind_eq_ok.mp h
          cases h
          cases hpoint
  · cases h
    exact s.windowClosedLoop_ne 0 hpoint

theorem unexpected_of_windowOpenPoll {p : Poll} (hs : s.point = .windowOpenPoll)
    (h : s.windowOpenPoll o p = .ok (s', ds)) (hpoint : s'.point = .done .unexpected) :
    Unexpected o s (.poll p) := by
  unfold windowOpenPoll at h
  split at h
  · cases h
    cases hpoint
  · next src stale datagram =>
      split at h
      · cases h
        cases hpoint
      · obtain ⟨w, -, h⟩ := C.bind_eq_ok.mp h
        cases h
        cases hpoint
      · obtain ⟨d, -, h⟩ := C.bind_eq_ok.mp h
        cases h
        cases hpoint
      · next hcontrol =>
          refine ⟨src, stale, datagram, rfl, .inr ⟨hcontrol, ?_⟩⟩
          rw [hs]
          rfl
      · next hcontrol => exact ⟨src, stale, datagram, rfl, .inl hcontrol⟩

theorem unexpected_of_windowClosed {count : Nat} {p : Poll} (hs : s.point = .windowClosed count)
    (h : s.windowClosed o count p = .ok (s', ds)) (hpoint : s'.point = .done .unexpected) :
    Unexpected o s (.poll p) := by
  unfold windowClosed at h
  split at h
  · obtain ⟨d, -, h⟩ := C.bind_eq_ok.mp h
    cases h
    exact absurd hpoint (windowClosedLoop_ne _ _)
  · next src stale datagram =>
      split at h
      · cases h
        exact absurd hpoint (windowClosedLoop_ne _ _)
      · obtain ⟨w, -, h⟩ := C.bind_eq_ok.mp h
        cases h
        cases hpoint
      · obtain ⟨d, -, h⟩ := C.bind_eq_ok.mp h
        cases h
        exact absurd hpoint (windowClosedLoop_ne _ _)
      · next hcontrol =>
          refine ⟨src, stale, datagram, rfl, .inr ⟨hcontrol, ?_⟩⟩
          rw [hs]
          rfl
      · next hcontrol => exact ⟨src, stale, datagram, rfl, .inl hcontrol⟩

theorem unexpected_of_endOfFileWait {count : Nat} {p : Poll}
    (h : s.endOfFileWait o count p = .ok (s', ds)) (hpoint : s'.point = .done .unexpected) :
    Unexpected o s (.poll p) := by
  unfold endOfFileWait at h
  split at h
  · obtain ⟨d, -, h⟩ := C.bind_eq_ok.mp h
    cases h
    exact absurd hpoint (endOfFileLoop_ne _ _)
  · next src stale datagram =>
      split at h
      · cases h
        exact absurd hpoint (endOfFileLoop_ne _ _)
      · obtain ⟨w, -, h⟩ := C.bind_eq_ok.mp h
        cases h
        exact absurd hpoint (endOfFileLoop_ne _ _)
      · obtain ⟨d, -, h⟩ := C.bind_eq_ok.mp h
        cases h
        exact absurd hpoint (endOfFileLoop_ne _ _)
      · cases h
        cases hpoint
      · next hcontrol => exact ⟨src, stale, datagram, rfl, .inl hcontrol⟩

theorem unexpected_of_step (h : s.step o i = some (.ok (s', ds)))
    (hpoint : s'.point = .done .unexpected) : Unexpected o s i := by
  unfold step at h
  split at h
  · exact absurd hpoint (unexpected_of_windowOpen (Option.some.inj h))
  · next p hs => exact unexpected_of_windowOpenPoll hs (Option.some.inj h) hpoint
  · next count p hs => exact unexpected_of_windowClosed hs (Option.some.inj h) hpoint
  · next readFails junk hs =>
      obtain ⟨x, -, hs'⟩ := C.bind_eq_ok.mp (Option.some.inj h)
      cases hs'
      exact absurd hpoint (endOfFileLoop_ne _ _)
  · exact unexpected_of_endOfFileWait (Option.some.inj h) hpoint
  · cases h

end Server

/-! ## The loop of `cleaning_up_with_RR` -/

/-- While everything up to the number received is stored, every slot that the loop empties holds
something. -/
theorem finds_of_cleaningUpRemoves {rr : Int} {n : Nat} {L : Nat} {m : Nat → Option Packet}
    {w : WindowArray} (h : w.Shows n L m) (hstored : ∀ k, L ≤ k → (k : Int) < rr → m k ≠ none)
    (fuel : Nat) {c : WindowCall} (hc : c ∈ cleaningUpRemoves rr fuel w) :
    ∃ packet, c.Finds (some packet) := by
  refine forall_mem_cleaningUpRemoves (P := fun w c => ∀ (L : Nat) (m : Nat → Option Packet),
    w.Shows n L m → (∀ k, L ≤ k → (k : Int) < rr → m k ≠ none) →
    ∃ packet, c.Finds (some packet)) ?_ ?_ fuel hc L m h hstored
  · intro w hlt L m h hstored
    have hlower := h.lower
    have hpos := h.pos
    obtain ⟨packet, hpacket⟩ :=
      Option.ne_none_iff_exists'.mp (hstored L (Nat.le_refl L) (by omega))
    refine ⟨packet, L % n, ?_, ?_⟩
    · show w.index w.lower = .ok (L % n)
      rw [hlower]
      exact WindowArray.index_eq h.size hpos
    · show w.slot (L % n) = some packet
      rw [h.slot_eq (Nat.le_refl L) (by omega), hpacket]
  · intro w i c hlt hindex hedge hrest L m h hstored
    have hupper := h.upper
    have hpos := h.pos
    rw [h.lower, WindowArray.index_eq h.size hpos] at hindex
    cases hindex
    refine hrest (L + 1) (Function.update m L none) ?_ fun k hlow hk => ?_
    · exact (h.store (Nat.le_refl L) (by omega) none).slide (Function.update_self ..) (by omega)
        rfl rfl rfl rfl
    · rw [Function.update_of_ne (by omega)]
      exact hstored k (by omega) hk

/-! ## Between honest peers -/

namespace Transfer

variable {P : Transfer}

/-- None of the branches that the code takes for impossible is taken in `net`, or in a step from
it. -/
structure Excluded (P : Transfer) (net : Net) : Prop where
  unexpected : net.server.point ≠ .done .unexpected
  emptyPayload : net.rcopy.point ≠ .done .emptyPayload
  eofAtCurrent : net.rcopy.point = .buffering →
    ∀ i, (∃ d ∈ net.toRcopy, P.RcopyReceives d i) →
    ∀ pdu, i.pdu P.rcopyOrder (pduHeaderLen + net.rcopy.bufferSize) = some pdu →
      ¬ (pdu.recvFlag = eofFlag ∧ pdu.sequenceNumber = toUInt32 net.rcopy.window.current)
  serverAdds : ∀ i, ∀ c ∈ net.server.adds i, c.Finds none
  serverRemoves : ∀ i, (i.Silent ∨ ∃ d ∈ net.toServer, P.ServerReceives d i) →
    ∀ c ∈ net.server.removes P.serverOrder i, ∃ packet, c.Finds (some packet)
  rcopyAdds : ∀ i, (i.Silent ∨ ∃ d ∈ net.toRcopy, P.RcopyReceives d i) →
    ∀ c ∈ net.rcopy.adds P.rcopyOrder i, c.Finds none ∨
      ∃ packet, c.Finds (some packet) ∧ packet.sequenceNumber = c.number
  rcopyRemoves : ∀ i, ∀ c ∈ net.rcopy.removes i, ∃ packet, c.Finds (some packet)

section
variable {net net' : Net} {L K : Nat} {m : Nat → Option Packet} {a : Receiver}

/-! ### The child -/

/-- An EOF ACK follows the EOF, and nothing but RRs, SREJs and EOF ACKs is sent to the child. -/
theorem Joint.not_unexpected (h : P.Joint net L K m a) {i : ServerInput}
    (hrecv : i.Silent ∨ ∃ d ∈ net.toServer, P.ServerReceives d i) :
    ¬ Server.Unexpected P.serverOrder net.server i := by
  rintro ⟨src, stale, datagram, hi, hcontrol⟩
  have hne : receiveControl P.serverOrder stale datagram ≠ .rejected := by
    rcases hcontrol with hother | ⟨hack, -⟩
    · rw [hother]
      exact fun hc => by cases hc
    · rw [hack]
      exact fun hc => by cases hc
  obtain ⟨c, hc, hsound⟩ := h.exists_reply hrecv hi hne
  rcases hcontrol with hother | ⟨hack, hbefore⟩
  · rw [hother] at hc
    cases c with
    | rr k => cases hc
    | srej k => cases hc
    | eofAck => cases hc
  · obtain rfl := Reply.eq_eofAck_of_control (hc.trans hack)
    exact h.eofReceived (.inr hsound) (h.server.beforeEof hbefore)

/-- A PDU is only sent while there is room at `current`. -/
theorem Joint.finds_serverAdds (h : P.Joint net L K m a) (i : ServerInput) :
    ∀ c ∈ net.server.adds i, c.Finds none := by
  intro c hc
  have hlower := h.server.lower_le
  have hrange := h.server.shows.range
  have hup := h.server.le_upper
  have hfinds (hbefore : net.server.point.beforeEof = true)
      (hopen : net.server.window.checkWindowOpen = true)
      (hcall : c = ⟨net.server.window, toInt32 (toUInt32 net.server.window.current)⟩) :
      c.Finds none := by
    have hlt := h.server.checkWindowOpen.mp hopen
    refine ⟨K % P.windowSize, ?_, ?_⟩
    · rw [hcall, h.server.current, toInt32_toUInt32 (by omega) (by omega)]
      exact WindowArray.index_eq h.server.shows.size h.server.shows.pos
    · rw [hcall]
      show net.server.window.slot (K % P.windowSize) = none
      rw [h.server.shows.slot_eq hlower hlt]
      exact h.server.beforeEof hbefore
  unfold Server.adds at hc
  split at hc
  · next hpoint =>
      split at hc
      · next hopen => exact hfinds (by rw [hpoint]; rfl) hopen.1 (List.mem_singleton.mp hc)
      · cases hc
  · next hpoint =>
      have hopen := (h.server.poised.endOfFile hpoint).2.1
      exact hfinds (by rw [hpoint]; rfl) hopen (List.mem_singleton.mp hc)
  · cases hc

/-- What is acknowledged was sent, and was not released before. -/
theorem Joint.finds_serverRemoves (h : P.Joint net L K m a) {i : ServerInput}
    (hrecv : i.Silent ∨ ∃ d ∈ net.toServer, P.ServerReceives d i) :
    ∀ c ∈ net.server.removes P.serverOrder i, ∃ packet, c.Finds (some packet) := by
  intro c hc
  have hcurrent := h.current_le
  obtain ⟨src, stale, datagram, rr, hi, hcontrol, hc⟩ := Server.of_mem_removes hc
  obtain ⟨c', hc', hsound⟩ := h.exists_reply hrecv hi (by simp [hcontrol])
  obtain ⟨k, rfl, rfl⟩ := Reply.eq_rr_of_control (hc'.trans hcontrol)
  have hk : k ≤ a.current := hsound
  refine finds_of_cleaningUpRemoves h.server.shows (fun j hlow hj => ?_) _ hc
  obtain ⟨packet, block, -, hpacket, -⟩ := h.server.data j hlow (by omega)
  rw [hpacket]
  exact Option.some_ne_none packet

/-! ### The receiver -/

/-- What the receiver accepts has a number below the upper edge, and is the EOF at the end of the
file and nowhere else. -/
theorem Joint.pdu_of_receives (h : P.Joint net L K m a) {i : RcopyInput}
    (hrecv : i.Silent ∨ ∃ d ∈ net.toRcopy, P.RcopyReceives d i) {pdu : ReceivedPdu}
    (hpdu : i.pdu P.rcopyOrder (pduHeaderLen + net.rcopy.bufferSize) = some pdu) :
    pdu.sequenceNumber.toNat < a.current + P.windowSize ∧
      (pdu.sequenceNumber.toNat < a.current ∨
        (pdu.recvFlag = eofFlag ↔ P.blocks.length ≤ pdu.sequenceNumber.toNat)) := by
  cases i with
  | flush write junk => cases hpdu
  | poll p write junk =>
      cases p with
      | timeout => cases hpdu
      | received src stale datagram =>
          rcases hrecv with hsilent | ⟨d, hd, -, ⟨-, rfl⟩ | hreject⟩
          · exact hsilent.elim
          · obtain ⟨-, hflight⟩ := h.toRcopy d hd
            obtain ⟨s, flag, payload, hfits, hacc, hsize, -, hwin, hmatch⟩ := h.accepted hflight
              fun heof => h.eofSent.mpr ⟨d, hd, heof⟩
            rw [← h.rcopySize] at hsize
            cases (hacc.received _ hsize stale).symm.trans hpdu
            refine ⟨hwin, hmatch.imp_right fun hmatch => ?_⟩
            have hflag : (Packet.of s.toNat d.bytes hfits).flag = flag := hacc.layout.2.1
            rw [← block_eq_none_iff, ← hmatch.2.flag_eq_eofFlag, hflag]
          · rw [← h.rcopySize] at hreject
            cases hreject.symm.trans hpdu

/-- Something is stored beyond `current`, so the file goes on there. -/
theorem Joint.not_eofAtCurrent (h : P.Joint net L K m a) (hpoint : net.rcopy.point = .buffering)
    {i : RcopyInput} (hrecv : ∃ d ∈ net.toRcopy, P.RcopyReceives d i) {pdu : ReceivedPdu}
    (hpdu : i.pdu P.rcopyOrder (pduHeaderLen + net.rcopy.bufferSize) = some pdu) :
    ¬ (pdu.recvFlag = eofFlag ∧ pdu.sequenceNumber = toUInt32 net.rcopy.window.current) := by
  rintro ⟨heof, hnumber⟩
  have hpoint' : a.point = .buffering := h.rcopy.point.symm.trans hpoint
  have hrange := h.rcopy.shows.range
  rw [h.rcopy.current, eq_toUInt32_natCast (by omega)] at hnumber
  obtain ⟨-, hcase⟩ := h.pdu_of_receives (.inr hrecv) hpdu
  have hend := (hcase.resolve_left (by omega)).mp heof
  -- `highest` is stored and `current` is not, so `highest` is a number beyond it, of the file.
  have hahead := h.assembles.ahead (.inl hpoint')
  have hnone := h.assembles.current_none (.inr hpoint')
  obtain ⟨packet, hpacket⟩ := Option.ne_none_iff_exists'.mp hahead
  have hle := h.assembles.current_le_highest (.inl hpoint')
  have hne : a.current ≠ a.highest := fun heq => hahead (heq ▸ hnone)
  have hhigh := (h.stored_le _ _ hpacket).1
  have hlen := h.server.le_length
  omega

/-- No two numbers of the window share a slot. -/
theorem Joint.finds_rcopyAdds (h : P.Joint net L K m a) {i : RcopyInput}
    (hrecv : i.Silent ∨ ∃ d ∈ net.toRcopy, P.RcopyReceives d i) :
    ∀ c ∈ net.rcopy.adds P.rcopyOrder i, c.Finds none ∨
      ∃ packet, c.Finds (some packet) ∧ packet.sequenceNumber = c.number := by
  intro c hc
  have hrange := h.rcopy.shows.range
  have hfinds {pdu : ReceivedPdu} {w : WindowArray}
      (hpdu : i.pdu P.rcopyOrder (pduHeaderLen + net.rcopy.bufferSize) = some pdu)
      (hahead : toUInt32 net.rcopy.window.current < pdu.sequenceNumber)
      (hw : w.Shows P.windowSize a.current a.stored)
      (hcall : c = ⟨w, toInt32 pdu.sequenceNumber⟩) :
      c.Finds none ∨ ∃ packet, c.Finds (some packet) ∧ packet.sequenceNumber = c.number := by
    obtain ⟨hwin, -⟩ := h.pdu_of_receives hrecv hpdu
    rw [h.rcopy.current, toUInt32_natCast_lt (by omega)] at hahead
    have hnumber : toInt32 pdu.sequenceNumber = pdu.sequenceNumber.toNat :=
      toInt32_of_lt (by omega)
    have hfound : c.Finds (a.stored pdu.sequenceNumber.toNat) := by
      refine ⟨pdu.sequenceNumber.toNat % P.windowSize, ?_, ?_⟩
      · rw [hcall, hnumber]
        exact WindowArray.index_eq hw.size hw.pos
      · rw [hcall]
        exact hw.slot_eq (Nat.le_of_lt hahead) hwin
    cases hstored : a.stored pdu.sequenceNumber.toNat with
    | none =>
        rw [hstored] at hfound
        exact .inl hfound
    | some packet =>
        rw [hstored] at hfound
        refine .inr ⟨packet, hfound, ?_⟩
        rw [hcall, hnumber]
        exact (h.rcopy.packet _ _ hstored).1
  unfold Rcopy.adds at hc
  split at hc
  · next hpdu =>
      split at hc
      · next hahead =>
          refine hfinds hpdu hahead ?_ (List.mem_singleton.mp hc)
          exact h.rcopy.shows.congr rfl rfl rfl rfl
      · cases hc
  · next hpdu =>
      split at hc
      · next hahead => exact hfinds hpdu hahead h.rcopy.shows (List.mem_singleton.mp hc)
      · cases hc
  · cases hc

end

/-- The flush only removes what it has found. -/
theorem finds_rcopyRemoves (r : Rcopy) (i : RcopyInput) :
    ∀ c ∈ r.removes i, ∃ packet, c.Finds (some packet) := by
  intro c hc
  obtain ⟨rfl, hvalid, -⟩ := Rcopy.of_mem_removes hc
  obtain ⟨j, hindex, hsome⟩ := C.bind_eq_ok.mp hvalid
  obtain ⟨packet, hslot⟩ := Option.isSome_iff_exists.mp (Except.ok.inj hsome)
  exact ⟨packet, j, hindex, hslot⟩

/-- The child never takes an exit for something else. -/
theorem not_unexpected_of_reachable {net : Net} (h : P.udp.Reachable net) :
    net.server.point ≠ .done .unexpected := by
  refine System.Reachable.invariant (P := fun net => net.server.point ≠ .done .unexpected) ?_ ?_ h
  · intro net hinit
    rw [(Server.of_start hinit.server).2.1]
    exact fun hc => by cases hc
  · intro net e net' hnet hne hstep
    obtain ⟨L, K, m, a, hjoint⟩ := joint_of_reachable hnet
    cases e with
    | server i =>
        obtain ⟨ds, hsteps, hrecv, -⟩ := hstep
        exact fun hpoint =>
          hjoint.not_unexpected hrecv (Server.unexpected_of_step hsteps.1 hpoint)
    | rcopy i =>
        obtain ⟨ds, hsteps, -⟩ := hstep
        rw [hsteps.2.1]
        exact hne
    | loseToRcopy k =>
        cases hstep
        exact hne
    | loseToServer k =>
        cases hstep
        exact hne

/-- **What the code takes for impossible is impossible between honest peers**, in every reachable
state of the data phase over UDP. -/
theorem excluded_of_reachable {net : Net} (h : P.udp.Reachable net) : P.Excluded net := by
  obtain ⟨L, K, m, a, hjoint⟩ := joint_of_reachable h
  constructor
  · exact not_unexpected_of_reachable h
  · rw [hjoint.rcopy.point]
    intro hdone
    rcases hjoint.assembles.done _ hdone with hc | ⟨hc, -⟩
    · cases hc
    · cases hc
  · intro hpoint i hrecv pdu hpdu
    exact hjoint.not_eofAtCurrent hpoint hrecv hpdu
  · exact hjoint.finds_serverAdds
  · intro i hrecv
    exact hjoint.finds_serverRemoves hrecv
  · intro i hrecv
    exact hjoint.finds_rcopyAdds hrecv
  · exact finds_rcopyRemoves net.rcopy

/-- With the EOF in the window and the block still missing. -/
theorem excluded_smallNet : ∃ net, smallTransfer.udp.Reachable net ∧
    net.rcopy.point = .buffering ∧ smallTransfer.Excluded net := by
  have hinit : smallTransfer.udp.Reachable smallNet := .init initial_smallNet
  obtain ⟨net, hnet, hbuffering⟩ := hinit.exists_of_run smallTransfer.udpNext
    (fun _ _ _ => udp_of_udpNext smallTransfer) (eofFirst.take 5)
    (fun net => decide (net.rcopy.point = .buffering)) (by decide +kernel)
  exact ⟨net, hnet, of_decide_eq_true hbuffering, excluded_of_reachable hnet⟩

end Transfer

end RemoteCopy

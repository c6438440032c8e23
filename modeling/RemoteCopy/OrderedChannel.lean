import RemoteCopy.DataPhase

/-!
# The channel that keeps the order

Over a channel that only loses datagrams the runs are runs over UDP as well, and more is true: the
replies that are still queued ask for nothing that an earlier one of them acknowledges
(`Reply.Before`), and for nothing below the child's window. So `resend_data_packet`, which checks
neither, always finds the PDU it is asked for, and the child never runs into anything undefined.
-/

namespace RemoteCopy

namespace Transfer

variable {P : Transfer}

/-- The replies in a queue to the child. -/
structure Queued (P : Transfer) (queue : List Datagram) (L K : Nat) (a : Receiver)
    (cs : List Reply) : Prop where
  sends : Sends P.serverAddr cs queue
  sound : ∀ c ∈ cs, Sound a K c
  before : cs.Pairwise Reply.Before
  lower_le : ∀ n, .srej n ∈ cs → L ≤ n

/-- The invariant: what is queued is part of a log with which the joint invariant holds, and the
queued replies are in order. -/
structure InOrder (P : Transfer) (net : Net) (L K : Nat) (m : Nat → Option Packet)
    (a : Receiver) : Prop where
  joint : ∃ toRcopy toServer,
    P.Joint { net with toRcopy := toRcopy, toServer := toServer } L K m a ∧
      net.toRcopy ⊆ toRcopy ∧ net.toServer ⊆ toServer
  queued : ∃ cs, P.Queued net.toServer L K a cs

section
variable {net net' : Net} {queue queue' ds : List Datagram} {L K L' K' : Nat}
  {m : Nat → Option Packet} {a a' : Receiver} {cs cs' : List Reply}

/-! ## The queue -/

/-- A queue that lost something. -/
theorem Queued.eraseIdx (h : P.Queued queue L K a cs) (k : Nat) :
    P.Queued (queue.eraseIdx k) L K a (cs.eraseIdx k) where
  sends := h.sends.eraseIdx k
  sound := fun c hc => h.sound c (List.mem_of_mem_eraseIdx hc)
  before := h.before.sublist (List.eraseIdx_sublist cs k)
  lower_le := fun n hn => h.lower_le n (List.mem_of_mem_eraseIdx hn)

/-- The child has moved on, but has taken nothing from the queue. -/
theorem Queued.current (h : P.Queued queue L K a cs) (hK : K ≤ K') : P.Queued queue L K' a cs :=
  ⟨h.sends, fun c hc => (h.sound c hc).mono_current hK, h.before, h.lower_le⟩

/-- The receiver has moved on, and its replies are behind the others in the queue. -/
theorem Queued.append (h : P.Queued queue L K a cs) (hproceeds : P.RcopyProceeds K a a' ds)
    (hle : L ≤ a.current) : ∃ cs', P.Queued (queue ++ ds) L K a' (cs ++ cs') := by
  obtain ⟨hrunning, hmono, cs', hsends, hanswers, hbefore⟩ := hproceeds
  refine ⟨cs', h.sends.append hsends, fun c hc => ?_, ?_, fun n hn => ?_⟩
  · rcases List.mem_append.mp hc with hc | hc
    · exact (h.sound c hc).mono hmono hrunning
    · exact sound_of_answers (hanswers c hc)
  · -- An RR in the queue is at most `current`, and the new SREJs are at least that.
    refine List.pairwise_append.mpr ⟨h.before, hbefore, fun c hc c' hc' => ?_⟩
    have hsound := h.sound c hc
    have hanswer := hanswers c' hc'
    cases c with
    | rr k =>
        cases c' with
        | srej n => exact Nat.le_trans hsound hanswer.1
        | rr _ => trivial
        | eofAck => trivial
    | srej _ => trivial
    | eofAck => trivial
  · rcases List.mem_append.mp hn with hn | hn
    · exact h.lower_le n hn
    · exact Nat.le_trans hle (hanswers _ hn).1

/-- The oldest reply. -/
theorem Queued.head {d : Datagram} (h : P.Queued (d :: queue) L K a cs) :
    ∃ c cs', cs = c :: cs' ∧ c.Encodes d.bytes ∧ Sound a K c := by
  obtain ⟨c, cs', ⟨-, hencodes⟩, -, hcs⟩ := List.forall₂_cons_right_iff.mp h.sends
  exact ⟨c, cs', hcs, hencodes, h.sound c (hcs ▸ List.mem_cons_self)⟩

/-- The child has taken the oldest reply from the queue. -/
theorem Queued.tail {c : Reply} (h : P.Queued queue L K a (c :: cs)) {d : Datagram}
    (hqueue : queue = d :: queue') (hL : L' = L ∨ ∃ k, c = .rr k ∧ L' = max L k) :
    P.Queued queue' L' K a cs where
  sends := by
    have hsends := hqueue ▸ h.sends
    cases hsends with
    | cons _ htail => exact htail
  sound := fun c' hc' => h.sound c' (List.mem_cons_of_mem _ hc')
  before := (List.pairwise_cons.mp h.before).2
  lower_le := fun n hn => by
    have hlow := h.lower_le n (List.mem_cons_of_mem _ hn)
    rcases hL with rfl | ⟨k, rfl, rfl⟩
    · exact hlow
    · -- The RR taken was in front of this SREJ.
      exact Nat.max_le.mpr ⟨hlow, (List.pairwise_cons.mp h.before).1 _ hn⟩

/-! ## Steps -/

theorem InOrder.initial (h : P.Initial net) : P.InOrder net 0 0 (fun _ => none) .fresh where
  joint := ⟨net.toRcopy, net.toServer, Joint.initial h, fun _ hd => hd, fun _ hd => hd⟩
  queued := ⟨[], by rw [h.toServer]; exact .nil, fun _ hc => (by cases hc), .nil,
    fun _ hn => (by cases hn)⟩

theorem InOrder.serverStep (h : P.InOrder net L K m a) {i : ServerInput}
    (hstep : P.ServerSteps net i net' ds)
    (htakes : Takes i.Silent (P.ServerReceives · i) net.toServer net'.toServer)
    (hto : net'.toRcopy = net.toRcopy ++ ds) : ∃ L' K' m', P.InOrder net' L' K' m' a ∧
      P.ServerProceeds net.server i L K L' K' ds := by
  obtain ⟨toRcopy, toServer, hjoint, hsub, hsub'⟩ := h.joint
  obtain ⟨cs, hcs⟩ := h.queued
  have hrecv : i.Silent ∨ ∃ d ∈ toServer, P.ServerReceives d i := by
    rcases htakes with ⟨hsilent, -⟩ | ⟨d, hd, hqueue⟩
    · exact .inl hsilent
    · exact .inr ⟨d, hsub' (hqueue ▸ List.mem_cons_self), hd⟩
  -- The same step over UDP, where what the queue gives up stays in the log.
  have hlog : P.ServerSteps { net with toRcopy := toRcopy, toServer := toServer } i
      { net' with toRcopy := toRcopy ++ ds, toServer := toServer } ds := hstep
  obtain ⟨L', K', m', hjoint', hproceeds⟩ := hjoint.serverStep hlog hrecv rfl rfl
  refine ⟨L', K', m', ⟨⟨toRcopy ++ ds, toServer, hjoint', ?_, ?_⟩, ?_⟩, hproceeds⟩
  · rw [hto]
    exact List.append_subset.mpr ⟨List.Subset.trans hsub (List.subset_append_left ..),
      List.subset_append_right ..⟩
  · rcases htakes with ⟨-, heq⟩ | ⟨d, -, hqueue⟩
    · rw [heq]
      exact hsub'
    · rw [hqueue] at hsub'
      exact (List.cons_subset.mp hsub').2
  · have hcs' := hcs.current hproceeds.current_le
    rcases htakes with ⟨hsilent, heq⟩ | ⟨d, hd, hqueue⟩
    · rw [heq]
      rcases hproceeds.lower with rfl | ⟨src, stale, datagram, k, rfl, -⟩
      · exact ⟨cs, hcs'⟩
      · exact hsilent.elim
    · rw [hqueue] at hcs
      obtain ⟨c, cs, rfl, hencodes, hsound⟩ := hcs.head
      refine ⟨cs, hcs'.tail hqueue (hproceeds.lower.imp_right ?_)⟩
      rintro ⟨src, stale, datagram, k, rfl, hcontrol, rfl⟩
      refine ⟨k, ?_, rfl⟩
      -- The child has read an RR, so the reply it took is that RR.
      have hc := (hjoint.control_of_receives hencodes hsound hd).resolve_left (by simp [hcontrol])
      obtain ⟨j, rfl, hj⟩ := Reply.eq_rr_of_control (hc.symm.trans hcontrol)
      rw [Int.ofNat_inj.mp hj]

theorem InOrder.rcopyStep (h : P.InOrder net L K m a) {i : RcopyInput}
    (hstep : P.RcopySteps net i net' ds)
    (htakes : Takes i.Silent (P.RcopyReceives · i) net.toRcopy net'.toRcopy)
    (hfrom : net'.toServer = net.toServer ++ ds) : ∃ a', P.InOrder net' L K m a' := by
  obtain ⟨toRcopy, toServer, hjoint, hsub, hsub'⟩ := h.joint
  obtain ⟨cs, hcs⟩ := h.queued
  have hrecv : i.Silent ∨ ∃ d ∈ toRcopy, P.RcopyReceives d i := by
    rcases htakes with ⟨hsilent, -⟩ | ⟨d, hd, hqueue⟩
    · exact .inl hsilent
    · exact .inr ⟨d, hsub (hqueue ▸ List.mem_cons_self), hd⟩
  have hlog : P.RcopySteps { net with toRcopy := toRcopy, toServer := toServer } i
      { net' with toRcopy := toRcopy, toServer := toServer ++ ds } ds := hstep
  obtain ⟨a', hjoint', hproceeds⟩ := hjoint.rcopyStep hlog hrecv rfl rfl
  obtain ⟨cs', hcs'⟩ := hcs.append hproceeds hjoint.lower_le
  refine ⟨a', ⟨toRcopy, toServer ++ ds, hjoint', ?_, ?_⟩, cs ++ cs', by rw [hfrom]; exact hcs'⟩
  · rcases htakes with ⟨-, heq⟩ | ⟨d, -, hqueue⟩
    · rw [heq]
      exact hsub
    · rw [hqueue] at hsub
      exact (List.cons_subset.mp hsub).2
  · rw [hfrom]
    exact List.append_subset.mpr ⟨List.Subset.trans hsub' (List.subset_append_left ..),
      List.subset_append_right ..⟩

/-- **The invariant holds throughout.** -/
theorem inOrder_of_reachable (h : P.fifo.Reachable net) : ∃ L K m a, P.InOrder net L K m a := by
  refine System.Reachable.invariant (P := fun net => ∃ L K m a, P.InOrder net L K m a) ?_ ?_ h
  · intro net hinit
    exact ⟨0, 0, _, _, InOrder.initial hinit⟩
  · rintro net e net' - ⟨L, K, m, a, h⟩ hstep
    cases e with
    | server i =>
        obtain ⟨ds, hsteps, hto, htakes⟩ := hstep
        obtain ⟨L', K', m', h', -⟩ := h.serverStep hsteps htakes hto
        exact ⟨L', K', m', a, h'⟩
    | rcopy i =>
        obtain ⟨ds, hsteps, hfrom, htakes⟩ := hstep
        obtain ⟨a', h'⟩ := h.rcopyStep hsteps htakes hfrom
        exact ⟨L, K, m, a', h'⟩
    | loseToRcopy k =>
        cases hstep
        obtain ⟨toRcopy, toServer, hjoint, hsub, hsub'⟩ := h.joint
        exact ⟨L, K, m, a, ⟨toRcopy, toServer, hjoint,
          fun d hd => hsub (List.mem_of_mem_eraseIdx hd), hsub'⟩, h.queued⟩
    | loseToServer k =>
        cases hstep
        obtain ⟨toRcopy, toServer, hjoint, hsub, hsub'⟩ := h.joint
        obtain ⟨cs, hcs⟩ := h.queued
        exact ⟨L, K, m, a, ⟨toRcopy, toServer, hjoint, hsub,
          fun d hd => hsub' (List.mem_of_mem_eraseIdx hd)⟩, _, hcs.eraseIdx k⟩

/-! ## Resends -/

/-- The number the child is asked for is in its window, and stored there. -/
theorem InOrder.resent_mem (h : P.InOrder net L K m a) {i : ServerInput}
    (htakes : Takes i.Silent (P.ServerReceives · i) net.toServer queue) {number : Int} {flag : Byte}
    (hcause : Server.ResendCause P.serverOrder net.server i number flag) :
    ∃ (x : Nat) (packet : Packet), number = x ∧ L ≤ x ∧ m x = some packet ∧
      packet.sequenceNumber = x := by
  obtain ⟨toRcopy, toServer, hjoint, -⟩ := h.joint
  obtain ⟨cs, hcs⟩ := h.queued
  have hserver : net.server.Holds P.serverOrder P.windowSize P.blocks L K m := hjoint.server
  cases hcause with
  | timeout hpoint =>
      obtain ⟨packet, hpacket, hnumber⟩ := hserver.lower_isSome hpoint
      exact ⟨L, packet, hserver.shows.lower, Nat.le_refl L, hpacket, hnumber⟩
  | srej hcontrol =>
      rcases htakes with ⟨hsilent, -⟩ | ⟨d, hd, hqueue⟩
      · exact hsilent.elim
      rw [hqueue] at hcs
      obtain ⟨c, cs, rfl, hencodes, hsound⟩ := hcs.head
      have hc := (hjoint.control_of_receives hencodes hsound hd).resolve_left (by simp [hcontrol])
      obtain ⟨k, rfl, rfl⟩ := Reply.eq_srej_of_control (hc.symm.trans hcontrol)
      have hlow := hcs.lower_le k List.mem_cons_self
      obtain ⟨packet, block, -, hpacket, hcarries⟩ := hserver.data k hlow hsound
      exact ⟨k, packet, rfl, hlow, hpacket, hcarries.sequenceNumber⟩

/-- What the child sends is right. -/
theorem InOrder.sends_right (h : P.InOrder net L K m a) {i : ServerInput}
    (hstep : P.ServerSteps net i net' ds)
    (htakes : Takes i.Silent (P.ServerReceives · i) net.toServer net'.toServer)
    (hto : net'.toRcopy = net.toRcopy ++ ds) : ∀ d ∈ ds, P.Right d.bytes := by
  obtain ⟨L', K', m', -, hproceeds⟩ := h.serverStep hstep htakes hto
  refine hproceeds.right fun number flag hcause => ?_
  obtain ⟨x, packet, rfl, hlow, -⟩ := h.resent_mem htakes hcause
  exact Int.ofNat_le.mpr hlow

/-- So is whatever is on its way to the receiver. -/
theorem right_of_reachable (h : P.fifo.Reachable net) : ∀ d ∈ net.toRcopy, P.Right d.bytes := by
  refine System.Reachable.invariant (P := fun net : Net => ∀ d ∈ net.toRcopy, P.Right d.bytes)
    ?_ ?_ h
  · intro net hinit d hd
    rw [hinit.toRcopy] at hd
    cases hd
  · intro net e net' hreach ih hstep d hd
    cases e with
    | server i =>
        obtain ⟨ds, hsteps, hto, htakes⟩ := hstep
        obtain ⟨L, K, m, a, h⟩ := inOrder_of_reachable hreach
        rw [hto, List.mem_append] at hd
        exact hd.elim (ih d) (h.sends_right hsteps htakes hto d)
    | rcopy i =>
        obtain ⟨ds, hsteps, hfrom, htakes⟩ := hstep
        rcases htakes with ⟨-, heq⟩ | ⟨d', -, hqueue⟩
        · exact ih d (heq ▸ hd)
        · exact ih d (hqueue ▸ List.mem_cons_of_mem d' hd)
    | loseToRcopy k =>
        cases hstep
        exact ih d (List.mem_of_mem_eraseIdx hd)
    | loseToServer k =>
        cases hstep
        exact ih d hd

/-- What the child releases stays in range. -/
theorem InOrder.release_returns (h : P.InOrder net L K m a) {src : Addr} {stale datagram : Bytes}
    {rr : Int} (htakes : Takes (ServerInput.Silent (.poll (.received src stale datagram)))
      (P.ServerReceives · (.poll (.received src stale datagram))) net.toServer queue)
    (hcontrol : receiveControl P.serverOrder stale datagram = .rr rr) :
    ∃ w, cleaningUpWithRR net.server.window rr = .ok w := by
  obtain ⟨toRcopy, toServer, hjoint, -, hsub⟩ := h.joint
  have hserver : net.server.Holds P.serverOrder P.windowSize P.blocks L K m := hjoint.server
  have hrecv : ServerInput.Silent (.poll (.received src stale datagram)) ∨
      ∃ d ∈ toServer, P.ServerReceives d (.poll (.received src stale datagram)) :=
    htakes.imp (·.1) fun ⟨d, hd, hqueue⟩ => ⟨d, hsub (hqueue ▸ List.mem_cons_self), hd⟩
  obtain ⟨c, hc, hsound⟩ := hjoint.exists_reply hrecv rfl (by simp [hcontrol])
  obtain ⟨k, rfl, rfl⟩ := Reply.eq_rr_of_control (hc.trans hcontrol)
  have hk : k ≤ a.current := hsound
  have hcurrent := hjoint.current_le
  have hlength := hserver.le_length
  have hlower := hserver.lower_le
  have hrange := P.range
  have hrelease : max L (k : Int).toNat + P.windowSize < 2147483648 := by
    rw [Int.toNat_natCast]
    omega
  obtain ⟨w, hclean, -⟩ := cleaningUpWithRR_eq hserver.shows hrelease
  exact ⟨w, hclean⟩

theorem InOrder.bufferSize_pos (h : P.InOrder net L K m a) : 0 < net.server.bufferSize := by
  obtain ⟨toRcopy, toServer, hjoint, -⟩ := h.joint
  have hsize : net.server.bufferSize = (P.bufferSize : Nat) := hjoint.serverSize
  have hmin := P.bufferSize.2.1
  omega

theorem InOrder.bufferSize_lt (h : P.InOrder net L K m a) :
    pduHeaderLen + net.server.bufferSize < 2147483648 := by
  obtain ⟨toRcopy, toServer, hjoint, -⟩ := h.joint
  have hsize : net.server.bufferSize = (P.bufferSize : Nat) := hjoint.serverSize
  have hmax := P.bufferSize.2.2
  have hheader : pduHeaderLen = 7 := rfl
  omega

theorem InOrder.block_fits (h : P.InOrder net L K m a) {block : Bytes} (hblock : block ∈ P.blocks) :
    (block.length : Int) ≤ net.server.bufferSize := by
  obtain ⟨toRcopy, toServer, hjoint, -⟩ := h.joint
  have hsize : net.server.bufferSize = (P.bufferSize : Nat) := hjoint.serverSize
  rw [hsize]
  exact Int.ofNat_le.mpr (P.blocks_fit block hblock).2

/-- Every step of the child returns. -/
theorem InOrder.serverStep_returns (h : P.InOrder net L K m a) {i : ServerInput}
    (htakes : Takes i.Silent (P.ServerReceives · i) net.toServer queue)
    {y : C (Server × List Datagram)} (hy : net.server.step P.serverOrder i = some y) :
    ∃ s' ds, y = .ok (s', ds) := by
  obtain ⟨toRcopy, toServer, hjoint, -⟩ := h.joint
  have hserver : net.server.Holds P.serverOrder P.windowSize P.blocks L K m := hjoint.server
  refine hserver.step_returns (fun block hblock => ?_) h.bufferSize_pos ?_ ?_ hy
  · exact Nat.le_trans (P.blocks_fit block hblock).2 P.bufferSize.2.2
  · rintro src stale datagram rr rfl hcontrol
    exact h.release_returns htakes hcontrol
  · intro number flag hcause
    obtain ⟨x, packet, rfl, -, hpacket, -⟩ := h.resent_mem htakes hcause
    exact ⟨_, hserver.resend_returns (fun block => h.block_fits) h.bufferSize_pos
      h.bufferSize_lt hpacket flag⟩

end

/-- **Resends are always the right block** over a channel that keeps the order: whatever the child
is asked for, by an SREJ or by a timeout, it finds in its window; it runs into nothing undefined;
and every datagram it sends is right. -/
theorem resends_right_of_reachable {net : Net} (h : P.fifo.Reachable net) {i : ServerInput}
    {queue : List Datagram} (htakes : Takes i.Silent (P.ServerReceives · i) net.toServer queue) :
    (∀ number flag, Server.ResendCause P.serverOrder net.server i number flag →
      ∃ j packet, net.server.window.index number = .ok j ∧
        net.server.window.slot j = some packet ∧ packet.sequenceNumber = number) ∧
    ∀ y, net.server.step P.serverOrder i = some y →
      ∃ s' ds, y = .ok (s', ds) ∧ ∀ d ∈ ds, P.Right d.bytes := by
  obtain ⟨L, K, m, a, h⟩ := inOrder_of_reachable h
  obtain ⟨toRcopy, toServer, hjoint, -⟩ := h.joint
  have hserver : net.server.Holds P.serverOrder P.windowSize P.blocks L K m := hjoint.server
  refine ⟨fun number flag hcause => ?_, fun y hy => ?_⟩
  · obtain ⟨x, packet, rfl, -, hpacket, hnumber⟩ := h.resent_mem htakes hcause
    obtain ⟨hlow, hhigh⟩ := hserver.shows.mem_window hpacket
    refine ⟨x % P.windowSize, packet, WindowArray.index_eq hserver.shows.size hserver.shows.pos,
      ?_, hnumber⟩
    rw [hserver.shows.slot_eq hlow hhigh, hpacket]
  · obtain ⟨s', ds, rfl⟩ := h.serverStep_returns htakes hy
    have hsteps : P.ServerSteps net i
        { net with server := s', toRcopy := net.toRcopy ++ ds, toServer := queue } ds := ⟨hy, rfl⟩
    exact ⟨s', ds, rfl, h.sends_right hsteps htakes rfl⟩

/-! ### A lost block -/

/-- The block is lost, and the EOF tells the receiver so. -/
def blockLost : List Event :=
  [.server (.run false 0), .loseToRcopy 0, .server (.poll .timeout), .server (.run false 0),
    .server (.run false 0),
    .rcopy (.poll (.received 8 [] (encodePDU .little 1 eofFlag [0])) .complete 0)]

/-- The SREJ for the block. -/
def srejBlock : Datagram :=
  ⟨8, encodePDU .big 0 srejFlag (ByteOrder.bytes32 .big 0)⟩

theorem resends_right_smallNet : ∃ net s' ds, smallTransfer.fifo.Reachable net ∧
    net.server.step .little (.poll (.received 7 [] srejBlock.bytes)) = some (.ok (s', ds)) ∧
    ds.length = 1 ∧ ∀ d ∈ ds, smallTransfer.Right d.bytes := by
  have hinit : smallTransfer.fifo.Reachable smallNet := .init initial_smallNet
  obtain ⟨net, hnet, hstate⟩ := hinit.exists_of_run smallTransfer.fifoNext
    (fun _ _ _ => fifo_of_fifoNext smallTransfer) blockLost
    (fun net => decide (net.toServer = [srejBlock] ∧ ((net.server.sends .little
      (.poll (.received 7 [] srejBlock.bytes))).map List.length = some 1))) (by decide +kernel)
  obtain ⟨hqueue, hlength⟩ := of_decide_eq_true hstate
  obtain ⟨ds, hsends, hlength⟩ := Option.map_eq_some_iff.mp hlength
  obtain ⟨s', hstep⟩ := Server.exists_of_sends hsends
  have htakes : Takes False (smallTransfer.ServerReceives ·
      (.poll (.received 7 [] srejBlock.bytes))) net.toServer [] :=
    .inr ⟨srejBlock, ⟨rfl, .inl ⟨rfl, rfl⟩⟩, hqueue⟩
  have hright := (resends_right_of_reachable hnet
    (i := .poll (.received 7 [] srejBlock.bytes)) htakes).2
  obtain ⟨s'', ds', heq, hds⟩ := hright _ hstep
  cases heq
  exact ⟨net, s', ds, hnet, hstep, hlength, hds⟩

end Transfer

end RemoteCopy

import RemoteCopy.OrderedSession
import RemoteCopy.Request
import RemoteCopy.OrderedChannel
import RemoteCopy.Delivery
import RemoteCopy.Library.Mailbox

/-!
# The whole copy

From the command line of rcopy to the end of the data phase: rcopy asks, up to ten times, the main
process of the server forks a child for every request, and rcopy goes on with one of them.

What a child and the socket it was forked for have to do with each other is a run of the data phase
that was verified on its own, whatever all the others do (`Copy.Follows`). So what holds there holds
of the whole program (`Copy.copied_of_reachable`), the setup phase included: the answer to the
request, which rcopy would write to its file as a block, cannot come late.
-/

namespace RemoteCopy

/-- A command line that rcopy accepts, for a file that the server can open. -/
structure Copy where
  args : Args
  accepted : checkArgs args = true
  windowSize_pos : 0 < args.windowSize
  files : Files
  blocks : List Bytes
  opens : files.reads args.fromFile args.bufferSize = some blocks
  range : blocks.length + args.windowSize < 2147483648
  serverOrder : ByteOrder
  rcopyOrder : ByteOrder
  serverAddr : Addr

namespace Copy

variable (P : Copy)

/-- The session it begins. -/
def session : Session where
  files := P.files
  fromFile := P.args.fromFile
  windowSize := P.args.windowSize
  bufferSize := P.args.size P.accepted
  serverOrder := P.serverOrder
  rcopyOrder := P.rcopyOrder
  serverAddr := P.serverAddr

/-- The data phase between the child at `addr` and the socket it was forked for. -/
def transfer (addr client : Addr) : Transfer where
  windowSize := P.args.windowSize.toNat
  bufferSize := P.args.size P.accepted
  blocks := P.blocks
  serverOrder := P.serverOrder
  rcopyOrder := P.rcopyOrder
  serverAddr := addr
  rcopyAddr := client
  sequenceNumber := 1
  windowSize_pos := by
    have := P.windowSize_pos
    omega
  blocks_fit := by
    intro block hblock
    obtain ⟨hne, hlen⟩ := P.files.reads_fit _ _ _ P.opens block hblock
    rw [← P.args.coe_size P.accepted] at hlen
    exact ⟨hne, Int.ofNat_le.mp hlen⟩
  range := by
    have := P.range
    have := P.windowSize_pos
    omega

/-- Whatever rcopy writes in the transfer is written completely. -/
def CompleteWrites (_ : SessionNet) : OrderedEvent → Prop
  | .session (.transfer i) => i.CompleteWrite
  | _ => True

instance (net : SessionNet) : DecidablePred (CompleteWrites net)
  | .session (.transfer i) => inferInstanceAs (Decidable i.CompleteWrite)
  | .session (.serve _ _ _ _) | .session (.child _ _) | .session (.filename _ _)
  | .session .fileOkay | .loseToServer _ | .loseToRcopy _ => isTrue trivial

/-- The runs of the copy. -/
def system : System SessionNet OrderedEvent := P.session.fifo.restrict CompleteWrites

/-- Its steps, computed. -/
def next (net : SessionNet) (e : OrderedEvent) : Option SessionNet :=
  if CompleteWrites net e then P.session.fifoNext net e else none

theorem system_of_next {net net' : SessionNet} {e : OrderedEvent} (h : P.next net e = some net') :
    ∃ e, P.system.step net e net' := by
  unfold next at h
  split at h
  · next hwrite => exact ⟨e, hwrite, h⟩
  · cases h

/-- The bytes of the request. -/
def request : Bytes :=
  encodePDU P.rcopyOrder 0 filenameFlag
    (requestPayload P.args.windowSize (P.args.size P.accepted) P.args.fromFile)

/-- The answer of the child at `addr`, whose file is open. -/
def answer (addr client : Addr) : Sent :=
  ⟨addr, ⟨client, encodePDU P.serverOrder 0 filenameResponseFlag [fileOk]⟩⟩

/-- rcopy has not gone on with this socket. -/
def Waits (net : SessionNet) (client : Addr) : Prop :=
  net.rcopy.state = .fileOkay → net.rcopy.clientSocket ≠ client

/-- The session, as the child at `addr` sees it, is the data phase `tnet`; there, the receiver is
ready from the beginning. -/
structure Follows (net : SessionNet) (addr client : Addr) (s : Server) (tnet : Net) : Prop where
  server : tnet.server = s
  transfer : ∀ r, net.transfer = some r → net.rcopy.clientSocket = client → tnet.rcopy = r
  fresh : (net.transfer ≠ none → net.rcopy.clientSocket ≠ client) →
    Rcopy.start P.args.windowSize (P.args.size P.accepted) 1 addr = .ok tnet.rcopy
  toRcopy : ∃ answers,
    net.toRcopy.filter (Sent.isFrom addr) = answers ++ tnet.toRcopy.map (Sent.mk addr) ∧
      (answers = [] ∨ (answers = [P.answer addr client] ∧ Waits net client))
  toServer : net.toServer.filter (Sent.isFor addr) = tnet.toServer.map (Sent.mk client)

/-- The invariant of the whole session. -/
structure Copying (net : SessionNet) : Prop where
  paired : P.session.Paired net
  requests : ∀ x ∈ net.toServer, x.datagram.dest = P.serverAddr → x.datagram.bytes = P.request
  sequenceNumber : net.rcopy.sequenceNumber = if net.rcopy.state = .filename then 0 else 1
  follows : ∀ (k : Nat) addr client s, net.children[k]? = some ⟨addr, client, some s⟩ →
    ∃ tnet, (P.transfer addr client).fifo.Reachable tnet ∧ P.Follows net addr client s tnet
  silent : ∀ (k : Nat) addr client, net.children[k]? = some ⟨addr, client, none⟩ →
    (∀ x ∈ net.toRcopy, x.src ≠ addr) ∧ Waits net client

/-! ## The request and the child that is forked for it -/

theorem toNat_windowSize : ((P.args.windowSize.toNat : Nat) : Int) = P.args.windowSize :=
  Int.toNat_of_nonneg (Int.le_of_lt P.windowSize_pos)

theorem makeWindow_windowSize : ∃ w, makeWindow P.args.windowSize = some w := by
  have hpos : 0 ≤ P.args.windowSize := Int.le_of_lt P.windowSize_pos
  exact ⟨_, dif_pos hpos⟩

variable {P}

theorem createRequest_request :
    RcopySetup.createRequest P.rcopyOrder P.args.windowSize (P.args.size P.accepted)
      P.args.fromFile 0 = .ok P.request :=
  createRequest_eq (of_checkArgs P.accepted).1 0

/-- The request makes the main process fork a child that has opened the file. -/
theorem fork_request (client : Addr) (stale : Bytes) : ∃ s,
    Server.start P.args.windowSize P.args.bufferSize P.blocks client = .ok s ∧
    P.session.fork client (recvfrom Server.requestBufferLength stale P.request).1
      (recvfrom Server.requestBufferLength stale P.request).2
      = (some s, [⟨client, encodePDU P.serverOrder 0 filenameResponseFlag [fileOk]⟩]) := by
  obtain ⟨w, hw⟩ := P.makeWindow_windowSize
  have hread : Server.filename P.session.serverOrder P.session.files client
      (recvfrom Server.requestBufferLength stale P.request).1
      (recvfrom Server.requestBufferLength stale P.request).2 = _ :=
    Server.filename_request P.rcopyOrder P.serverOrder P.files client 0 stale
      (of_checkArgs P.accepted).1 P.args.fromFile_nul P.args.windowSize_range.1
      P.args.windowSize_range.2 (show P.request = _ from rfl)
  rw [P.args.coe_size P.accepted, P.opens] at hread
  refine ⟨⟨.windowOpen, w, P.blocks, P.args.bufferSize, client⟩, ?_, ?_⟩
  · rw [Server.start, hw]
  · rw [Session.fork, hread]
    simp only [Server.start, hw]
    rfl

/-- Anything else that arrives at the main port has been damaged, and its child ends at once. -/
theorem fork_rejected {client : Addr} {stale datagram : Bytes}
    (h : Rejected P.serverOrder Server.requestBufferLength stale datagram) :
    P.session.fork client (recvfrom Server.requestBufferLength stale datagram).1
      (recvfrom Server.requestBufferLength stale datagram).2 = (none, []) := by
  have hread : Server.filename P.session.serverOrder P.session.files client
      (recvfrom Server.requestBufferLength stale datagram).1
      (recvfrom Server.requestBufferLength stale datagram).2 = .ok (none, []) :=
    Server.filename_rejected h
  rw [Session.fork, hread]

/-- The data phase begins with the child's first step, for a receiver that is ready. -/
theorem initial_transfer {addr client : Addr} {s : Server} {r : Rcopy}
    (hs : Server.start P.args.windowSize P.args.bufferSize P.blocks client = .ok s)
    (hr : Rcopy.start P.args.windowSize (P.args.size P.accepted) 1 addr = .ok r) :
    (P.transfer addr client).Initial ⟨s, r, [], []⟩ where
  server := by
    rw [← hs, ← P.args.coe_size P.accepted, ← P.toNat_windowSize]
    rfl
  rcopy := by
    rw [← hr, ← P.toNat_windowSize]
    rfl
  toRcopy := rfl
  toServer := rfl

/-! ## What a child sees of the queues -/

section
variable {addr a : Addr} {queue xs : List Sent} {ds : List Datagram}

theorem filter_isFrom_map :
    (ds.map (Sent.mk addr)).filter (Sent.isFrom addr) = ds.map (Sent.mk addr) := by
  rw [List.filter_eq_self]
  intro x hx
  obtain ⟨d, -, rfl⟩ := List.mem_map.mp hx
  exact beq_self_eq_true addr

theorem filter_isFrom_self :
    (queue ++ ds.map (Sent.mk addr)).filter (Sent.isFrom addr)
      = queue.filter (Sent.isFrom addr) ++ ds.map (Sent.mk addr) := by
  rw [List.filter_append, filter_isFrom_map]

theorem filter_isFrom_other (hne : a ≠ addr) :
    (queue ++ ds.map (Sent.mk a)).filter (Sent.isFrom addr) = queue.filter (Sent.isFrom addr) := by
  have hnone : ∀ x ∈ ds.map (Sent.mk a), ¬ Sent.isFrom addr x = true := by
    intro x hx hfrom
    obtain ⟨d, -, rfl⟩ := List.mem_map.mp hx
    exact hne (beq_iff_eq.mp hfrom)
  rw [List.filter_append, List.filter_eq_nil_iff.mpr hnone, List.append_nil]

theorem filter_isFor_self (h : ∀ d ∈ ds, d.dest = addr) :
    (queue ++ ds.map (Sent.mk a)).filter (Sent.isFor addr)
      = queue.filter (Sent.isFor addr) ++ ds.map (Sent.mk a) := by
  have hall : ∀ x ∈ ds.map (Sent.mk a), Sent.isFor addr x = true := by
    intro x hx
    obtain ⟨d, hd, rfl⟩ := List.mem_map.mp hx
    exact beq_iff_eq.mpr (h d hd)
  rw [List.filter_append, List.filter_eq_self.mpr hall]

theorem filter_isFor_other (h : ∀ x ∈ xs, x.datagram.dest ≠ addr) :
    (queue ++ xs).filter (Sent.isFor addr) = queue.filter (Sent.isFor addr) := by
  have hnone : ∀ x ∈ xs, ¬ Sent.isFor addr x = true := by
    intro x hx hfor
    exact h x hx (beq_iff_eq.mp hfor)
  rw [List.filter_append, List.filter_eq_nil_iff.mpr hnone, List.append_nil]

end

section
variable {addr : Addr} {corrupt : Bytes → Bytes → Prop}
  [∀ stale datagram, Decidable (corrupt stale datagram)] {p : Poll} {queue queue' : List Sent}
  {q : Sent → Bool}

/-- Whoever polls takes the head of what is there for it. -/
theorem takeAt_self (h : takeAt addr corrupt p queue = some queue')
    (hq : ∀ y ∈ queue, Sent.isFor addr y = q y) :
    (p = .timeout ∧ queue' = queue) ∨
      ∃ x, x.ReceivedAs addr corrupt p ∧ queue.filter q = x :: queue'.filter q := by
  rcases takeAt_cases h with htimeout | ⟨x, hfind, hreceived, rfl⟩
  · exact .inl htimeout
  · exact .inr ⟨x, hreceived, List.filter_of_find? hfind hq⟩

theorem takeAt_other (h : takeAt addr corrupt p queue = some queue')
    (hq : ∀ y ∈ queue, Sent.isFor addr y = true → q y = false) :
    queue'.filter q = queue.filter q := by
  rcases takeAt_cases h with ⟨-, rfl⟩ | ⟨x, -, -, rfl⟩
  · rfl
  · exact List.filter_eraseP hq

end

section
variable {net : SessionNet} {addr client : Addr}

theorem mem_links {k : Nat} {c : Forked} (hk : net.children[k]? = some c) :
    (c.addr, c.client) ∈ Session.links net.children :=
  List.mem_map_of_mem (f := fun c : Forked => (c.addr, c.client)) (List.mem_of_getElem? hk)

/-- What is sent to the socket of a child is what the child sends. -/
theorem isFor_eq_isFrom (h : P.session.Paired net)
    (hlink : (addr, client) ∈ Session.links net.children) :
    ∀ y ∈ net.toRcopy, Sent.isFor client y = Sent.isFrom addr y := by
  intro y hy
  have hsent := h.toRcopy y hy
  rw [Bool.eq_iff_iff, Sent.isFor, Sent.isFrom, beq_iff_eq, beq_iff_eq]
  constructor
  · intro hdest
    rw [hdest] at hsent
    exact h.addr_eq hsent hlink
  · intro hsrc
    rw [hsrc] at hsent
    exact h.client_eq hsent hlink

/-- What is sent to another socket is not. -/
theorem isFrom_of_isFor (h : P.session.Paired net)
    (hlink : (addr, client) ∈ Session.links net.children) {a : Addr} (hne : a ≠ client) :
    ∀ y ∈ net.toRcopy, Sent.isFor a y = true → Sent.isFrom addr y = false := by
  intro y hy hfor
  rw [← isFor_eq_isFrom h hlink y hy, Sent.isFor, beq_eq_false_iff_ne]
  rw [Sent.isFor, beq_iff_eq] at hfor
  rw [hfor]
  exact hne

end

/-! ## Steps of the others -/

section
variable {net net' : SessionNet} {addr client : Addr} {s : Server} {tnet : Net}

/-- A step that leaves rcopy as it is, and the two queues between it and the child. -/
theorem Follows.kept (h : P.Follows net addr client s tnet)
    (htransfer : net'.transfer = net.transfer) (hrcopy : net'.rcopy = net.rcopy)
    (hto : net'.toRcopy.filter (Sent.isFrom addr) = net.toRcopy.filter (Sent.isFrom addr))
    (hfrom : net'.toServer.filter (Sent.isFor addr) = net.toServer.filter (Sent.isFor addr)) :
    P.Follows net' addr client s tnet where
  server := h.server
  transfer := by
    rw [htransfer, hrcopy]
    exact h.transfer
  fresh := by
    rw [htransfer, hrcopy]
    exact h.fresh
  toRcopy := by
    rw [hto, Waits, hrcopy]
    exact h.toRcopy
  toServer := hfrom.trans h.toServer

/-- A step of rcopy with another socket. -/
theorem Follows.apart (h : P.Follows net addr client s tnet)
    (hbefore : net.transfer ≠ none → net.rcopy.clientSocket ≠ client)
    (hafter : net'.transfer ≠ none → net'.rcopy.clientSocket ≠ client)
    (hwaits : Waits net client → Waits net' client)
    (hto : net'.toRcopy.filter (Sent.isFrom addr) = net.toRcopy.filter (Sent.isFrom addr))
    (hfrom : net'.toServer.filter (Sent.isFor addr) = net.toServer.filter (Sent.isFor addr)) :
    P.Follows net' addr client s tnet where
  server := h.server
  transfer r hr hsocket :=
    absurd hsocket (hafter (by rw [hr]; exact Option.some_ne_none r))
  fresh _ := h.fresh hbefore
  toRcopy := by
    obtain ⟨answers, hqueue, hanswers⟩ := h.toRcopy
    exact ⟨answers, hto.trans hqueue, hanswers.imp_right fun ha => ⟨ha.1, hwaits ha.2⟩⟩
  toServer := hfrom.trans h.toServer

/-- One of the datagrams from the child to rcopy is lost. -/
theorem Follows.loseToRcopy (h : P.Follows net addr client s tnet) (k : Nat)
    (hreach : (P.transfer addr client).fifo.Reachable tnet) :
    ∃ tnet', (P.transfer addr client).fifo.Reachable tnet' ∧
      P.Follows { net with toRcopy := net.toRcopy.eraseIdx k } addr client s tnet' := by
  obtain ⟨j, hj⟩ := List.exists_filter_eraseIdx (Sent.isFrom addr) net.toRcopy k
  obtain ⟨answers, hqueue, hanswers⟩ := h.toRcopy
  rw [hqueue] at hj
  rcases Nat.lt_or_ge j answers.length with hlt | hge
  · -- the answer
    rcases hanswers with rfl | ⟨rfl, -⟩
    · cases hlt
    · obtain rfl : j = 0 := Nat.lt_one_iff.mp hlt
      exact ⟨tnet, hreach, h.server, h.transfer, h.fresh, ⟨[], hj, .inl rfl⟩, h.toServer⟩
  · rw [List.eraseIdx_append_of_length_le hge, List.eraseIdx_map] at hj
    exact ⟨{ tnet with toRcopy := tnet.toRcopy.eraseIdx (j - answers.length) },
      hreach.step (i := .loseToRcopy (j - answers.length)) rfl, h.server, h.transfer, h.fresh,
      ⟨answers, hj, hanswers⟩, h.toServer⟩

/-- One of the datagrams from rcopy to the child is lost. -/
theorem Follows.loseToServer (h : P.Follows net addr client s tnet) (k : Nat)
    (hreach : (P.transfer addr client).fifo.Reachable tnet) :
    ∃ tnet', (P.transfer addr client).fifo.Reachable tnet' ∧
      P.Follows { net with toServer := net.toServer.eraseIdx k } addr client s tnet' := by
  obtain ⟨j, hj⟩ := List.exists_filter_eraseIdx (Sent.isFor addr) net.toServer k
  rw [h.toServer, List.eraseIdx_map] at hj
  exact ⟨{ tnet with toServer := tnet.toServer.eraseIdx j },
    hreach.step (i := .loseToServer j) rfl, h.server, h.transfer, h.fresh, h.toRcopy, hj⟩

/-! ## Steps of the child, and of rcopy with its socket -/

/-- What a poll of the child takes off the queue of the session, it takes off its own. -/
theorem Follows.takes (h : P.Follows net addr client s tnet) {i : ServerInput}
    {queue : List Sent}
    (htake : takeAt addr (Rejected P.serverOrder (pduHeaderLen + rcopyResponsesPacketLength))
      i.answer net.toServer = some queue) :
    ∃ toServer : List Datagram, queue.filter (Sent.isFor addr) = toServer.map (Sent.mk client) ∧
      Transfer.Takes i.Silent ((P.transfer addr client).ServerReceives · i) tnet.toServer
        toServer := by
  rcases takeAt_self htake fun _ _ => rfl with ⟨htimeout, rfl⟩ | ⟨x, hreceived, hqueue⟩
  · refine ⟨tnet.toServer, h.toServer, .inl ⟨?_, rfl⟩⟩
    cases i with
    | run readFails junk => trivial
    | poll p =>
        obtain rfl : p = .timeout := htimeout
        trivial
  · rw [h.toServer, List.map_eq_cons_iff] at hqueue
    obtain ⟨d, toServer, hown, rfl, hrest⟩ := hqueue
    refine ⟨toServer, hrest.symm, .inr ⟨d, ?_, hown⟩⟩
    cases i with
    | run readFails junk => exact hreceived.elim
    | poll p =>
        cases p with
        | timeout => exact hreceived.elim
        | received src stale datagram =>
            obtain ⟨hdest, hsrc, hbytes⟩ := hreceived
            exact ⟨hsrc, hbytes.imp_left fun hbytes => ⟨hdest, hbytes⟩⟩

/-- The child takes a step. -/
theorem Follows.childStep (h : P.Follows net addr client s tnet) {i : ServerInput}
    {queue : List Sent} {s' : Server} {ds : List Datagram} (children : List Forked)
    (htake : takeAt addr (Rejected P.serverOrder (pduHeaderLen + rcopyResponsesPacketLength))
      i.answer net.toServer = some queue)
    (hstep : s.step P.serverOrder i = some (.ok (s', ds))) :
    ∃ toServer, (P.transfer addr client).fifo.step tnet (.server i)
        ⟨s', tnet.rcopy, tnet.toRcopy ++ ds, toServer⟩ ∧
      P.Follows { net with
        children := children
        toServer := queue
        toRcopy := net.toRcopy ++ ds.map (Sent.mk addr) } addr client s'
        ⟨s', tnet.rcopy, tnet.toRcopy ++ ds, toServer⟩ := by
  obtain ⟨toServer, hqueue, htakes⟩ := h.takes htake
  have hown : tnet.server.step P.serverOrder i = some (.ok (s', ds)) := h.server ▸ hstep
  refine ⟨toServer, ⟨ds, ⟨hown, rfl⟩, rfl, htakes⟩, rfl, h.transfer, h.fresh, ?_, hqueue⟩
  obtain ⟨answers, hto, hanswers⟩ := h.toRcopy
  exact ⟨answers, by rw [filter_isFrom_self, hto, List.map_append, List.append_assoc], hanswers⟩

/-- rcopy leaves `filename`, or asks again. -/
theorem Follows.filenameStep (h : P.Follows net addr client s tnet) (hpaired : P.session.Paired net)
    (hlink : (addr, client) ∈ Session.links net.children) (hnone : net.transfer = none)
    (hsocket : net.rcopy.clientSocket = client) {p : Poll} {queue xs : List Sent}
    (htake : takeAt net.rcopy.clientSocket
      (Damaged P.rcopyOrder (pduHeaderLen + P.args.size P.accepted)) p net.toRcopy = some queue)
    {r : RcopySetup} (hr : p = .timeout → r.state ≠ .fileOkay)
    (hxs : ∀ x ∈ xs, x.datagram.dest ≠ addr) (opened : List Addr) (requests : List Sent)
    (hreach : (P.transfer addr client).fifo.Reachable tnet) :
    ∃ tnet', (P.transfer addr client).fifo.Reachable tnet' ∧ P.Follows { net with
      rcopy := r
      toServer := net.toServer ++ xs
      toRcopy := queue
      opened := opened
      requests := requests } addr client s tnet' := by
  have hfresh : net.transfer ≠ none → net.rcopy.clientSocket ≠ client := fun hc => absurd hnone hc
  have hfrom : (net.toServer ++ xs).filter (Sent.isFor addr) = tnet.toServer.map (Sent.mk client) :=
    (filter_isFor_other hxs).trans h.toServer
  obtain ⟨answers, hto, hanswers⟩ := h.toRcopy
  rcases takeAt_self htake (hsocket ▸ isFor_eq_isFrom hpaired hlink) with
    ⟨htimeout, rfl⟩ | ⟨x, -, hqueue⟩
  · refine ⟨tnet, hreach, h.server, fun _ hc => ?_, fun _ => h.fresh hfresh,
      ⟨answers, hto, hanswers.imp_right fun ha => ⟨ha.1, fun hc => absurd hc (hr htimeout)⟩⟩, hfrom⟩
    cases hnone.symm.trans hc
  · rw [hto] at hqueue
    rcases hanswers with rfl | ⟨rfl, -⟩
    · -- A block stands for the answer, and is lost.
      rw [List.nil_append, List.map_eq_cons_iff] at hqueue
      obtain ⟨d, toRcopy, hown, -, hrest⟩ := hqueue
      refine ⟨{ tnet with toRcopy := toRcopy }, hreach.step (i := .loseToRcopy 0) ?_, h.server,
        fun _ hc => ?_, fun _ => h.fresh hfresh, ⟨[], hrest.symm, .inl rfl⟩, hfrom⟩
      · show _ = { tnet with toRcopy := tnet.toRcopy.eraseIdx 0 }
        rw [hown]
        rfl
      · cases hnone.symm.trans hc
    · obtain ⟨-, hrest⟩ := List.cons.inj hqueue
      refine ⟨tnet, hreach, h.server, fun _ hc => ?_, fun _ => h.fresh hfresh,
        ⟨[], hrest.symm, .inl rfl⟩, hfrom⟩
      cases hnone.symm.trans hc

/-- rcopy starts on the transfer. -/
theorem Follows.fileOkay (h : P.Follows net addr client s tnet)
    (hnone : net.transfer = none) (hsocket : net.rcopy.clientSocket = client)
    (hstate : net.rcopy.state = .fileOkay) {r : Rcopy}
    (hstart : Rcopy.start P.args.windowSize (P.args.size P.accepted) 1 addr = .ok r) :
    P.Follows { net with transfer := some r } addr client s tnet where
  server := h.server
  transfer r' hr' _ := by
    cases hr'
    exact Except.ok.inj ((h.fresh fun hc => absurd hnone hc).symm.trans hstart)
  fresh hc := absurd hsocket (hc (Option.some_ne_none r))
  toRcopy := by
    obtain ⟨answers, hto, rfl | ⟨-, hwaits⟩⟩ := h.toRcopy
    · exact ⟨[], hto, .inl rfl⟩
    · exact absurd hsocket (hwaits hstate)
  toServer := h.toServer

/-- rcopy takes a step of the transfer. -/
theorem Follows.rcopyStep (h : P.Follows net addr client s tnet) (hpaired : P.session.Paired net)
    (hlink : (addr, client) ∈ Session.links net.children)
    (hsocket : net.rcopy.clientSocket = client) {r r' : Rcopy} (hr : net.transfer = some r)
    {i : RcopyInput} {queue : List Sent}
    (htake : takeAt net.rcopy.clientSocket
      (Rejected P.rcopyOrder (pduHeaderLen + P.args.size P.accepted)) i.answer net.toRcopy
      = some queue)
    {ds : List Datagram} (hdest : ∀ d ∈ ds, d.dest = addr)
    (hstep : r.step P.rcopyOrder i = some (.ok (r', ds))) (hwrite : i.CompleteWrite) :
    ∃ toRcopy, (P.transfer addr client).fifo.step tnet (.rcopy i)
        ⟨tnet.server, r', toRcopy, tnet.toServer ++ ds⟩ ∧
      P.Follows { net with
        transfer := some r'
        toServer := net.toServer ++ ds.map (Sent.mk net.rcopy.clientSocket)
        toRcopy := queue } addr client s ⟨tnet.server, r', toRcopy, tnet.toServer ++ ds⟩ := by
  have hsome : net.transfer ≠ none := by rw [hr]; exact Option.some_ne_none r
  have hstate : net.rcopy.state = .fileOkay := hpaired.transfer hsome
  have hown : tnet.rcopy.step P.rcopyOrder i = some (.ok (r', ds)) :=
    (h.transfer r hr hsocket).symm ▸ hstep
  have hto : net.toRcopy.filter (Sent.isFrom addr) = tnet.toRcopy.map (Sent.mk addr) := by
    obtain ⟨answers, hto, rfl | ⟨-, hwaits⟩⟩ := h.toRcopy
    · exact hto
    · exact absurd hsocket (hwaits hstate)
  obtain ⟨toRcopy, hqueue, htakes⟩ : ∃ toRcopy : List Datagram,
      queue.filter (Sent.isFrom addr) = toRcopy.map (Sent.mk addr) ∧
      Transfer.Takes i.Silent ((P.transfer addr client).RcopyReceives · i) tnet.toRcopy
        toRcopy := by
    rcases takeAt_self htake (hsocket ▸ isFor_eq_isFrom hpaired hlink) with
      ⟨htimeout, rfl⟩ | ⟨x, hreceived, hqueue⟩
    · refine ⟨tnet.toRcopy, hto, .inl ⟨?_, rfl⟩⟩
      cases i with
      | flush write junk => trivial
      | poll p write junk =>
          obtain rfl : p = .timeout := htimeout
          trivial
    · rw [hto, List.map_eq_cons_iff] at hqueue
      obtain ⟨d, toRcopy, hqueue, rfl, hrest⟩ := hqueue
      refine ⟨toRcopy, hrest.symm, .inr ⟨d, ?_, hqueue⟩⟩
      cases i with
      | flush write junk => exact hreceived.elim
      | poll p write junk =>
          cases p with
          | timeout => exact hreceived.elim
          | received src stale datagram =>
              obtain ⟨hdest, hsrc, hbytes⟩ := hreceived
              rw [hsocket] at hdest
              exact ⟨hsrc, hbytes.imp_left fun hbytes => ⟨hdest, hbytes⟩⟩
  refine ⟨toRcopy, ⟨ds, ⟨hown, rfl, hwrite⟩, rfl, htakes⟩, h.server,
    fun _ heq _ => Option.some.inj heq, fun hc => ?_, ⟨[], hqueue, .inl rfl⟩, ?_⟩
  · exact absurd hsocket (hc (Option.some_ne_none r'))
  · show (net.toServer ++ ds.map (Sent.mk net.rcopy.clientSocket)).filter _ = _
    rw [filter_isFor_self hdest, h.toServer, hsocket, List.map_append]

end

/-! ## The invariant -/

section
variable {net net' : SessionNet}

/-- In the transfer, rcopy sends to the child of its socket only. -/
theorem dest_linked (h : P.session.Paired net) {r r' : Rcopy} (hr : net.transfer = some r)
    {i : RcopyInput} {corrupt : Bytes → Bytes → Prop}
    (hrecv : Arrives net.toRcopy net.rcopy.clientSocket corrupt i.answer) {ds : List Datagram}
    (hstep : r.step P.rcopyOrder i = some (.ok (r', ds))) {d : Datagram} (hd : d ∈ ds) :
    (d.dest, net.rcopy.clientSocket) ∈ Session.links net.children := by
  have hstate : net.rcopy.state = .fileOkay := h.transfer (by rw [hr]; exact Option.some_ne_none r)
  have hlink := (h.transferred hr hrecv hstep).server hstate
  obtain ⟨hserver, hdest⟩ := Rcopy.addressed_of_step hstep
  rw [hdest d hd, ← hserver]
  exact hlink

theorem linked_ne (h : P.session.Paired net) {addr client : Addr}
    (hlink : (addr, client) ∈ Session.links net.children) : addr ≠ P.serverAddr := by
  obtain ⟨c, hc, heq⟩ := List.mem_map.mp hlink
  have haddr : c.addr = addr := congrArg Prod.fst heq
  rw [← haddr]
  exact h.addr c hc

theorem Copying.initial (h : P.session.Initial net) : P.Copying net := by
  have hpaired := Session.Paired.initial h
  have hstart := Except.ok.inj (h.rcopy.symm.trans
    (by rw [RcopySetup.start]; exact congrArg (· >>= _) P.createRequest_request))
  refine ⟨hpaired, fun x hx _ => ?_, ?_, fun k addr client s hk => ?_, fun k addr client hk => ?_⟩
  · rw [h.toServer, List.mem_singleton] at hx
    rw [hx, RcopySetup.request, hstart]
  · rw [hstart]
    rfl
  · rw [h.children] at hk
    cases hk
  · rw [h.children] at hk
    cases hk

/-! ### A child is forked -/

/-- rcopy has a new socket by the time that a request from an old one is received. -/
theorem Copying.waits_of_request (h : P.Copying net) {x : Sent} (hx : x ∈ net.toServer)
    (hdest : x.datagram.dest = P.serverAddr) : Waits net x.src := by
  intro hstate hsocket
  have hlink := h.paired.server hstate
  rw [hsocket] at hlink
  have hpending : x.src ∈ P.session.pending net.toServer :=
    List.mem_map_of_mem (List.mem_filter.mpr ⟨hx, decide_eq_true hdest⟩)
  exact (List.nodup_append.mp h.paired.clients).2.2 _ hpending _
    (List.mem_map_of_mem (f := Prod.snd) hlink) rfl

/-- Nothing was ever sent from a fresh socket. -/
theorem Copying.src_ne_fresh (h : P.Copying net) {childAddr : Addr}
    (hfresh : P.session.Fresh net childAddr) : ∀ y ∈ net.toRcopy, y.src ≠ childAddr := by
  intro y hy hfrom
  have hsent := h.paired.toRcopy y hy
  rw [hfrom] at hsent
  obtain ⟨c, hc, heq⟩ := List.mem_map.mp hsent
  exact hfresh.2.2 (List.mem_map.mpr ⟨c, hc, congrArg Prod.fst heq⟩)

/-- Nor to it. -/
theorem Copying.dest_ne_fresh (h : P.Copying net) {childAddr : Addr}
    (hfresh : P.session.Fresh net childAddr) :
    ∀ y ∈ net.toServer, y.datagram.dest ≠ childAddr := by
  intro y hy hdest
  obtain ⟨hmain, -, hchildren⟩ := hfresh
  rcases h.paired.toServer y hy with hmain' | ⟨-, -, hsent⟩
  · exact hmain (hdest.symm.trans hmain')
  · rw [hdest] at hsent
    obtain ⟨c, hc, heq⟩ := List.mem_map.mp hsent
    exact hchildren (List.mem_map.mpr ⟨c, hc, congrArg Prod.fst heq⟩)

/-- What was received is the request, or nothing comes of it. -/
theorem Copying.fork_cases (h : P.Copying net) (childAddr : Addr) {x : Sent}
    (hx : x ∈ net.toServer) {stale datagram : Bytes}
    (hreceived : x.ReceivedAs P.serverAddr (Rejected P.serverOrder Server.requestBufferLength)
      (.received x.src stale datagram)) {server : Option Server} {ds : List Datagram}
    (hfork : P.session.fork x.src (recvfrom Server.requestBufferLength stale datagram).1
      (recvfrom Server.requestBufferLength stale datagram).2 = (server, ds)) :
    (server = none ∧ ds = []) ∨ ∃ s, server = some s ∧
      Server.start P.args.windowSize P.args.bufferSize P.blocks x.src = .ok s ∧
      ds.map (Sent.mk childAddr) = [P.answer childAddr x.src] := by
  rcases hreceived.2.2 with rfl | hrejected
  · obtain ⟨s, hstart, hfork'⟩ := P.fork_request x.src stale
    rw [h.requests x hx hreceived.1] at hfork
    obtain ⟨rfl, rfl⟩ := Prod.mk.inj (hfork'.symm.trans hfork)
    exact .inr ⟨s, rfl, hstart, rfl⟩
  · rw [fork_rejected hrejected] at hfork
    cases hfork
    exact .inl ⟨rfl, rfl⟩

/-- The transfer of a child that has just been forked: the answer is on its way to rcopy, which
waits for it or has given up on it. -/
theorem Copying.forked (h : P.Copying net) {childAddr client : Addr}
    (hfresh : P.session.Fresh net childAddr) (hwaits : Waits net client) {s : Server}
    (hstart : Server.start P.args.windowSize P.args.bufferSize P.blocks client = .ok s)
    {ds : List Datagram} (hds : ds.map (Sent.mk childAddr) = [P.answer childAddr client])
    {queue : List Sent} (hqueue : queue ⊆ net.toServer) (children : List Forked) :
    ∃ tnet, (P.transfer childAddr client).fifo.Reachable tnet ∧
      P.Follows { net with
        children := children
        toServer := queue
        toRcopy := net.toRcopy ++ ds.map (Sent.mk childAddr) } childAddr client s tnet := by
  obtain ⟨w, hw⟩ := P.makeWindow_windowSize
  obtain ⟨r, hr⟩ : ∃ r, Rcopy.start P.args.windowSize (P.args.size P.accepted) 1 childAddr
      = .ok r := ⟨_, by rw [Rcopy.start, hw]⟩
  have hsilent : queue.filter (Sent.isFor childAddr) = [] := by
    rw [List.filter_eq_nil_iff]
    exact fun y hy hfor => h.dest_ne_fresh hfresh y (hqueue hy) (beq_iff_eq.mp hfor)
  have hempty : net.toRcopy.filter (Sent.isFrom childAddr) = [] := by
    rw [List.filter_eq_nil_iff]
    exact fun y hy hfrom => h.src_ne_fresh hfresh y hy (beq_iff_eq.mp hfrom)
  refine ⟨⟨s, r, [], []⟩, .init (initial_transfer hstart hr), rfl,
    fun r' hr' hsocket => ?_, fun _ => hr,
    ⟨[P.answer childAddr client], ?_, .inr ⟨rfl, hwaits⟩⟩, hsilent⟩
  · have hsome : net.transfer ≠ none := by
      rw [show net.transfer = some r' from hr']
      exact Option.some_ne_none r'
    exact absurd hsocket (hwaits (h.paired.transfer hsome))
  · rw [filter_isFrom_self, hempty, hds]
    rfl

/-- The main process forks a child. -/
theorem Copying.serve (h : P.Copying net) {k : Nat} {stale datagram : Bytes} {childAddr : Addr}
    {x : Sent} (hk : net.toServer[k]? = some x)
    (hreceived : x.ReceivedAs P.serverAddr (Rejected P.serverOrder Server.requestBufferLength)
      (.received x.src stale datagram))
    (hfresh : P.session.Fresh net childAddr) {server : Option Server} {ds : List Datagram}
    (hfork : P.session.fork x.src (recvfrom Server.requestBufferLength stale datagram).1
      (recvfrom Server.requestBufferLength stale datagram).2 = (server, ds)) :
    P.Copying { net with
      children := net.children ++ [⟨childAddr, x.src, server⟩]
      toServer := net.toServer.eraseIdx k
      toRcopy := net.toRcopy ++ ds.map (Sent.mk childAddr) } := by
  have hpaired := h.paired.ordered (.serve hk hreceived hfresh hfork)
  have hx := List.mem_of_getElem? hk
  have hwaits := h.waits_of_request hx hreceived.1
  have hserver := h.fork_cases childAddr hx hreceived hfork
  have hold {j : Nat} {c : Forked} (hj : net.children[j]? = some c) : childAddr ≠ c.addr := by
    rintro rfl
    exact hfresh.2.2 (List.mem_map_of_mem (List.mem_of_getElem? hj))
  refine ⟨hpaired, fun y hy => h.requests y (List.mem_of_mem_eraseIdx hy), h.sequenceNumber,
    fun j addr client s hj => ?_, fun j addr client hj => ?_⟩
  · rcases Nat.lt_or_ge j net.children.length with hlt | hge
    · rw [List.getElem?_append_left hlt] at hj
      obtain ⟨tnet, hreach, hfollows⟩ := h.follows j addr client s hj
      have hdest : Sent.isFor addr x = false := by
        rw [Sent.isFor, hreceived.1, beq_eq_false_iff_ne]
        exact (linked_ne h.paired (mem_links hj)).symm
      exact ⟨tnet, hreach, hfollows.kept rfl rfl (filter_isFrom_other (hold hj))
        (List.filter_eraseIdx_of_neg hk hdest)⟩
    · rw [List.getElem?_append_right hge, List.getElem?_singleton] at hj
      split at hj
      · cases hj
        obtain ⟨hc, -⟩ | ⟨s', hs, hstart, hds⟩ := hserver
        · cases hc
        · cases hs
          exact h.forked hfresh hwaits hstart hds List.eraseIdx_subset _
      · cases hj
  · rcases Nat.lt_or_ge j net.children.length with hlt | hge
    · rw [List.getElem?_append_left hlt] at hj
      obtain ⟨hsrc, hsocket⟩ := h.silent j addr client hj
      refine ⟨fun y hy => ?_, hsocket⟩
      rcases List.mem_append.mp hy with hy | hy
      · exact hsrc y hy
      · obtain ⟨d, -, rfl⟩ := List.mem_map.mp hy
        exact hold hj
    · rw [List.getElem?_append_right hge, List.getElem?_singleton] at hj
      split at hj
      · cases hj
        obtain ⟨-, rfl⟩ | ⟨s, hc, -⟩ := hserver
        · rw [List.map_nil, List.append_nil]
          exact ⟨h.src_ne_fresh hfresh, hwaits⟩
        · cases hc
      · cases hj

/-! ### The other steps -/

/-- A child takes a step. -/
theorem Copying.child (h : P.Copying net) {k : Nat} {i : ServerInput} {addr client : Addr}
    {s s' : Server} {ds : List Datagram} {queue : List Sent}
    (hk : net.children[k]? = some ⟨addr, client, some s⟩)
    (htake : takeAt addr (Rejected P.serverOrder (pduHeaderLen + rcopyResponsesPacketLength))
      i.answer net.toServer = some queue)
    (hstep : s.step P.serverOrder i = some (.ok (s', ds))) :
    P.Copying { net with
      children := net.children.set k ⟨addr, client, some s'⟩
      toServer := queue
      toRcopy := net.toRcopy ++ ds.map (Sent.mk addr) } := by
  have hpaired := h.paired.ordered (.child hk htake hstep)
  refine ⟨hpaired, fun y hy => h.requests y ((Session.sublist_of_takeAt htake).subset hy),
    h.sequenceNumber, fun j addr' client' t hj => ?_, fun j addr' client' hj => ?_⟩
  · by_cases hjk : j = k
    · obtain ⟨hlt, -⟩ := List.getElem?_eq_some_iff.mp hk
      subst hjk
      rw [List.getElem?_set_self hlt] at hj
      cases hj
      obtain ⟨tnet, hreach, hfollows⟩ := h.follows j addr client s hk
      obtain ⟨toServer, hstep', hfollows'⟩ := hfollows.childStep _ htake hstep
      exact ⟨_, hreach.step hstep', hfollows'⟩
    · rw [List.getElem?_set_ne (Ne.symm hjk)] at hj
      obtain ⟨tnet, hreach, hfollows⟩ := h.follows j addr' client' t hj
      have haddr : addr ≠ addr' := h.paired.addr_ne hk hj (Ne.symm hjk)
      refine ⟨tnet, hreach, hfollows.kept rfl rfl (filter_isFrom_other haddr)
        (takeAt_other htake fun y _ hfor => ?_)⟩
      rw [Sent.isFor, beq_iff_eq] at hfor
      rw [Sent.isFor, hfor, beq_eq_false_iff_ne]
      exact haddr
  · by_cases hjk : j = k
    · obtain ⟨hlt, -⟩ := List.getElem?_eq_some_iff.mp hk
      subst hjk
      rw [List.getElem?_set_self hlt] at hj
      cases hj
    · rw [List.getElem?_set_ne (Ne.symm hjk)] at hj
      obtain ⟨hsrc, hsocket⟩ := h.silent j addr' client' hj
      refine ⟨fun y hy => ?_, hsocket⟩
      rcases List.mem_append.mp hy with hy | hy
      · exact hsrc y hy
      · obtain ⟨d, -, rfl⟩ := List.mem_map.mp hy
        exact h.paired.addr_ne hk hj (Ne.symm hjk)

/-- rcopy goes on from its poll in `filename`. -/
theorem Copying.filename (h : P.Copying net) {p : Poll} {newSocket : Addr} {r : RcopySetup}
    {xs queue : List Sent} (hwaits : net.rcopy.state = .filename)
    (htake : takeAt net.rcopy.clientSocket
      (Damaged P.rcopyOrder (pduHeaderLen + P.args.size P.accepted)) p net.toRcopy = some queue)
    (hfresh : P.session.Fresh net newSocket)
    (hfilename : net.rcopy.filename P.rcopyOrder (P.args.size P.accepted) P.serverAddr newSocket p
      = (r, xs)) :
    P.Copying { net with
      rcopy := r
      toServer := net.toServer ++ xs
      toRcopy := queue
      opened := if r.clientSocket = net.rcopy.clientSocket then net.opened
        else net.opened ++ [r.clientSocket]
      requests := net.requests ++ xs } := by
  have hpaired := h.paired.ordered (.filename hwaits htake hfresh hfilename)
  obtain ⟨hnone, -⟩ := h.paired.requests_of_waits hwaits
  have hbuffer : net.rcopy.pduBuffer = P.request :=
    Except.ok.inj (h.paired.asks.pduBuffer.symm.trans P.createRequest_request)
  have hseq := h.sequenceNumber
  rw [if_pos hwaits] at hseq
  have hcases : (r.state = .fileOkay → p ≠ .timeout ∧ r.clientSocket = net.rcopy.clientSocket) ∧
      (∀ x ∈ xs, x.datagram = ⟨P.serverAddr, P.request⟩) ∧
      r.sequenceNumber = if r.state = .filename then 0 else 1 := by
    rcases net.rcopy.filename_socket P.rcopyOrder (P.args.size P.accepted) P.serverAddr newSocket p
      with ⟨state, src, hstate, hanswer, count, heq⟩ | ⟨-, heq⟩
    · cases heq.symm.trans hfilename
      refine ⟨fun hokay => ⟨?_, rfl⟩, fun x hx => (by cases hx), ?_⟩
      · obtain ⟨stale, datagram, rfl⟩ := hanswer hokay
        exact fun hc => (by cases hc)
      · show net.rcopy.sequenceNumber + 1 = if state = .filename then 0 else 1
        rw [hseq, if_neg hstate]
        rfl
    · cases heq.symm.trans hfilename
      refine ⟨fun hokay => ?_, fun x hx => ?_, ?_⟩
      · cases hwaits.symm.trans hokay
      · rw [List.mem_singleton.mp hx, hbuffer]
      · show net.rcopy.sequenceNumber = if net.rcopy.state = .filename then 0 else 1
        rw [hseq, if_pos hwaits]
  obtain ⟨hokay, hxs, hseq'⟩ := hcases
  refine ⟨hpaired, fun y hy hdest => ?_, hseq', fun j addr client s hj => ?_,
    fun j addr client hj => ?_⟩
  · rcases List.mem_append.mp hy with hy | hy
    · exact h.requests y hy hdest
    · rw [hxs y hy]
  · obtain ⟨tnet, hreach, hfollows⟩ := h.follows j addr client s hj
    have hlink := mem_links hj
    have hdest : ∀ x ∈ xs, x.datagram.dest ≠ addr := by
      intro x hx
      rw [hxs x hx]
      exact (linked_ne h.paired hlink).symm
    by_cases hsocket : net.rcopy.clientSocket = client
    · exact hfollows.filenameStep h.paired hlink hnone hsocket htake
        (fun htimeout hc => (hokay hc).1 htimeout) hdest _ _ hreach
    · refine ⟨tnet, hreach, hfollows.apart (fun hc => absurd hnone hc) (fun hc => absurd hnone hc)
        (fun _ hc => ?_) (takeAt_other htake (isFrom_of_isFor h.paired hlink hsocket))
        (filter_isFor_other hdest)⟩
      rw [(hokay hc).2]
      exact hsocket
  · obtain ⟨hsrc, -⟩ := h.silent j addr client hj
    refine ⟨fun y hy => hsrc y ((Session.sublist_of_takeAt htake).subset hy), fun hstate => ?_⟩
    obtain ⟨hreceived, hsocket⟩ := hokay hstate
    rw [hsocket]
    rintro rfl
    -- What rcopy has received was sent by the child of its socket.
    rcases takeAt_cases htake with ⟨htimeout, -⟩ | ⟨x, hfind, -⟩
    · exact hreceived htimeout
    · have hx := List.mem_of_find?_eq_some hfind
      have hfor := List.find?_some hfind
      rw [isFor_eq_isFrom h.paired (mem_links hj) x hx] at hfor
      exact hsrc x hx (beq_iff_eq.mp hfor)

/-- Once rcopy has its answer, it knows the child of its socket. -/
theorem Copying.answered (h : P.Copying net) (hstate : net.rcopy.state = .fileOkay)
    (hnone : net.transfer = none) {addr : Addr}
    (hlink : (addr, net.rcopy.clientSocket) ∈ Session.links net.children) :
    net.rcopy.sequenceNumber = 1 ∧ net.rcopy.serverAddress = addr := by
  have hserver := h.paired.server hstate
  rw [SessionNet.serverAddress, hnone] at hserver
  exact ⟨by rw [h.sequenceNumber, hstate]; rfl, h.paired.addr_eq hserver hlink⟩

/-- rcopy starts on the transfer. -/
theorem Copying.fileOkay (h : P.Copying net) (hstate : net.rcopy.state = .fileOkay)
    (hnone : net.transfer = none) {r : Rcopy}
    (hstart : Rcopy.start P.args.windowSize (P.args.size P.accepted) net.rcopy.sequenceNumber
      net.rcopy.serverAddress = .ok r) :
    P.Copying { net with transfer := some r } := by
  have hpaired := h.paired.ordered (.fileOkay hstate hnone hstart)
  refine ⟨hpaired, h.requests, h.sequenceNumber, fun j addr client s hj => ?_, h.silent⟩
  obtain ⟨tnet, hreach, hfollows⟩ := h.follows j addr client s hj
  refine ⟨tnet, hreach, ?_⟩
  by_cases hsocket : net.rcopy.clientSocket = client
  · obtain ⟨hseq, hserver⟩ := h.answered hstate hnone (hsocket ▸ mem_links hj)
    rw [hseq, hserver] at hstart
    exact hfollows.fileOkay hnone hsocket hstate hstart
  · exact hfollows.apart (fun hc => absurd hnone hc) (fun _ => hsocket) (fun hw => hw) rfl rfl

/-- rcopy takes a step of the transfer. -/
theorem Copying.transferred (h : P.Copying net) {i : RcopyInput} {r r' : Rcopy}
    {ds : List Datagram} {queue : List Sent} (hr : net.transfer = some r)
    (htake : takeAt net.rcopy.clientSocket
      (Rejected P.rcopyOrder (pduHeaderLen + P.args.size P.accepted)) i.answer net.toRcopy
      = some queue)
    (hstep : r.step P.rcopyOrder i = some (.ok (r', ds))) (hwrite : i.CompleteWrite) :
    P.Copying { net with
      transfer := some r'
      toServer := net.toServer ++ ds.map (Sent.mk net.rcopy.clientSocket)
      toRcopy := queue } := by
  have hpaired := h.paired.ordered (.transfer hr htake hstep)
  have hdest {d : Datagram} (hd : d ∈ ds) :=
    dest_linked h.paired hr (Session.arrives_of_takeAt htake) hstep hd
  refine ⟨hpaired, fun y hy hmain => ?_, h.sequenceNumber, fun j addr client s hj => ?_,
    fun j addr client hj => ?_⟩
  · rcases List.mem_append.mp hy with hy | hy
    · exact h.requests y hy hmain
    · obtain ⟨d, hd, rfl⟩ := List.mem_map.mp hy
      exact absurd hmain (linked_ne h.paired (hdest hd))
  · obtain ⟨tnet, hreach, hfollows⟩ := h.follows j addr client s hj
    have hlink := mem_links hj
    by_cases hsocket : net.rcopy.clientSocket = client
    · obtain ⟨toRcopy, hstep', hfollows'⟩ := hfollows.rcopyStep h.paired hlink hsocket hr htake
        (fun d hd => h.paired.addr_eq (hsocket ▸ hdest hd) hlink) hstep hwrite
      exact ⟨_, hreach.step hstep', hfollows'⟩
    · refine ⟨tnet, hreach, hfollows.apart (fun _ => hsocket) (fun _ => hsocket) (fun hw => hw)
        (takeAt_other htake (isFrom_of_isFor h.paired hlink hsocket))
        (filter_isFor_other fun x hx hc => ?_)⟩
      obtain ⟨d, hd, rfl⟩ := List.mem_map.mp hx
      have hlink' := hdest hd
      rw [show d.dest = addr from hc] at hlink'
      exact hsocket (h.paired.client_eq hlink' hlink)
  · obtain ⟨hsrc, hsocket⟩ := h.silent j addr client hj
    exact ⟨fun y hy => hsrc y ((Session.sublist_of_takeAt htake).subset hy), hsocket⟩

theorem Copying.ordered (h : P.Copying net) {e : SessionEvent}
    (hstep : P.session.Ordered net e net') (hwrite : CompleteWrites net (.session e)) :
    P.Copying net' := by
  cases hstep with
  | serve hk hreceived hfresh hfork => exact h.serve hk hreceived hfresh hfork
  | child hk htake hstep => exact h.child hk htake hstep
  | filename hwaits htake hfresh hfilename => exact h.filename hwaits htake hfresh hfilename
  | fileOkay hstate hnone hstart => exact h.fileOkay hstate hnone hstart
  | transfer hr htake hstep => exact h.transferred hr htake hstep hwrite

theorem Copying.step (h : P.Copying net) {e : OrderedEvent} (hstep : P.system.step net e net') :
    P.Copying net' := by
  obtain ⟨hwrite, hstep⟩ := hstep
  cases e with
  | session e => exact h.ordered (Session.ordered_of_fifoNext hstep) hwrite
  | loseToServer k =>
      have hpaired := h.paired.fifoStep hstep
      cases hstep
      refine ⟨hpaired, fun y hy => h.requests y (List.mem_of_mem_eraseIdx hy), h.sequenceNumber,
        fun j addr client s hj => ?_, h.silent⟩
      obtain ⟨tnet, hreach, hfollows⟩ := h.follows j addr client s hj
      exact hfollows.loseToServer k hreach
  | loseToRcopy k =>
      have hpaired := h.paired.fifoStep hstep
      cases hstep
      refine ⟨hpaired, h.requests, h.sequenceNumber, fun j addr client s hj => ?_,
        fun j addr client hj => ?_⟩
      · obtain ⟨tnet, hreach, hfollows⟩ := h.follows j addr client s hj
        exact hfollows.loseToRcopy k hreach
      · obtain ⟨hsrc, hsocket⟩ := h.silent j addr client hj
        exact ⟨fun y hy => hsrc y (List.mem_of_mem_eraseIdx hy), hsocket⟩

theorem copying_of_reachable (h : P.system.Reachable net) : P.Copying net :=
  System.Reachable.invariant (fun _ => Copying.initial) (fun _ _ _ _ hc hstep => hc.step hstep) h

/-- rcopy has one child to do with in the transfer, and that has opened the file. -/
theorem Copying.exists_child (h : P.Copying net) {r : Rcopy} (hr : net.transfer = some r) :
    ∃ (k : Nat) (s : Server) (tnet : Net),
      net.children[k]? = some ⟨r.serverAddress, net.rcopy.clientSocket, some s⟩ ∧
      (P.transfer r.serverAddress net.rcopy.clientSocket).fifo.Reachable tnet ∧
      tnet.server = s ∧ tnet.rcopy = r := by
  have hstate : net.rcopy.state = .fileOkay :=
    h.paired.transfer (by rw [hr]; exact Option.some_ne_none r)
  have hlink := h.paired.server hstate
  rw [SessionNet.serverAddress, hr] at hlink
  obtain ⟨c, hc, heq⟩ := List.mem_map.mp hlink
  obtain ⟨k, hk⟩ := List.mem_iff_getElem?.mp hc
  obtain ⟨addr, client, server⟩ := c
  obtain ⟨rfl, rfl⟩ := Prod.mk.inj heq
  cases server with
  | none => exact absurd rfl ((h.silent k _ _ hk).2 hstate)
  | some s =>
      obtain ⟨tnet, hreach, hfollows⟩ := h.follows k _ _ s hk
      exact ⟨k, s, tnet, hk, hreach, hfollows.server, hfollows.transfer r hr rfl⟩

/-! ## What is copied -/

/-- What rcopy has written. -/
theorem Copying.copied (h : P.Copying net) {r : Rcopy} (hr : net.transfer = some r) :
    ∃ (k current : Nat) (s : Server),
      net.children[k]? = some ⟨r.serverAddress, net.rcopy.clientSocket, some s⟩ ∧
      r.window.current = current ∧ r.outputFile = P.blocks.take current ∧
      s.window.lower ≤ current ∧ current ≤ s.window.current ∧
      (r.point = .done .eofAck ∨ s.point = .done .eofAck →
        r.point = .done .eofAck ∧ r.outputFile = P.blocks) := by
  obtain ⟨k, s, tnet, hk, hreach, rfl, rfl⟩ := h.exists_child hr
  obtain ⟨L, K, m, a, hinOrder⟩ := Transfer.inOrder_of_reachable hreach
  obtain ⟨toRcopy, toServer, hjoint, -⟩ := hinOrder.joint
  have hserver : tnet.server.Holds P.serverOrder P.args.windowSize.toNat P.blocks L K m :=
    hjoint.server
  have hrefines : tnet.rcopy.Refines P.args.windowSize.toNat a := hjoint.rcopy
  have hfile : tnet.rcopy.outputFile = P.blocks.take a.current := hjoint.file_eq
  refine ⟨k, a.current, tnet.server, hk, hrefines.current, hfile, ?_, ?_, fun hdone => ?_⟩
  · rw [hserver.shows.lower]
    exact Int.ofNat_le.mpr hjoint.lower_le
  · rw [hserver.current]
    exact Int.ofNat_le.mpr hjoint.current_le
  · have hpoint : a.point = .done .eofAck :=
      hdone.elim (fun hrcopy => hrefines.point.symm.trans hrcopy) hjoint.done
    have hend : a.current = P.blocks.length := hjoint.current_eq_length hpoint
    exact ⟨hrefines.point.trans hpoint, by rw [hfile, hend, List.take_length]⟩

/-- **The file is copied.** Over channels that keep the order, whatever is lost or damaged, however
often rcopy asks and however many children send at once: rcopy's transfer is with one child that has
opened the file, what it has written are always the blocks before its `current`, which lies in the
child's window, and once it has sent an EOF ACK, or the child has received one, it is the whole
file. -/
theorem copied_of_reachable (h : P.system.Reachable net) {r : Rcopy} (hr : net.transfer = some r) :
    ∃ (k current : Nat) (s : Server),
      net.children[k]? = some ⟨r.serverAddress, net.rcopy.clientSocket, some s⟩ ∧
      r.window.current = current ∧ r.outputFile = P.blocks.take current ∧
      s.window.lower ≤ current ∧ current ≤ s.window.current ∧
      (r.point = .done .eofAck ∨ s.point = .done .eofAck →
        r.point = .done .eofAck ∧ r.outputFile = P.blocks) :=
  (copying_of_reachable h).copied hr

end

/-! ### A block that stands for the answer -/

/-- rcopy asks the server at 1 for a file of one block. -/
def smallCopy : Copy where
  args := {
    fromFile := [102]
    toFile := [103]
    windowSize := 3
    bufferSize := 108
    errorRate := 0
    fromFile_nul := by decide
    windowSize_range := by decide }
  accepted := by decide
  windowSize_pos := by decide
  files := Setup.filesOf [[43]] (by decide)
  blocks := [[43]]
  opens := rfl
  range := by decide
  serverOrder := .big
  rcopyOrder := .little
  serverAddr := 1

/-- rcopy has opened a socket at 7 and asked for the first time. -/
def smallCopyNet : SessionNet where
  rcopy := {
    state := .filename
    count := 0
    clientSocket := 7
    sequenceNumber := 0
    serverAddress := 1
    pduBuffer := smallCopy.request }
  transfer := none
  children := []
  toServer := [⟨7, ⟨1, smallCopy.request⟩⟩]
  toRcopy := []
  opened := [7]
  requests := [⟨7, ⟨1, smallCopy.request⟩⟩]

theorem initial_smallCopyNet : smallCopy.session.Initial smallCopyNet where
  rcopy := by
    rw [RcopySetup.start]
    exact congrArg (· >>= _) smallCopy.createRequest_request
  transfer := rfl
  children := rfl
  toServer := rfl
  toRcopy := rfl
  opened := rfl
  requests := rfl

/-- rcopy asks a second time. The answer of its second child is lost, and so is the block that
stands for it; the EOF tells rcopy that the block is missing. -/
def answerLost : List OrderedEvent :=
  [.session (.filename .timeout 8), .session (.serve 0 [] smallCopy.request 2),
    .session (.serve 0 [] smallCopy.request 3), .session (.child 1 (.run false 0)), .loseToRcopy 1,
    .session (.filename (.received 3 [] (encodePDU .big 0 dataPacketFlag [43])) 9),
    .session .fileOkay, .session (.child 1 (.poll .timeout)), .session (.child 1 (.run false 0)),
    .session (.child 1 (.run false 0)),
    .session (.transfer (.poll (.received 3 [] (encodePDU .big 1 eofFlag [0])) .complete 0)),
    .session (.child 1 (.poll (.received 8 []
      (encodePDU .little 1 srejFlag (ByteOrder.bytes32 .big 0))))),
    .session (.transfer (.poll (.received 3 []
      (encodePDU .big 0 resentSrejDataPacketFlag [43])) .complete 0)),
    .session (.transfer (.flush .complete 0))]

theorem copied_smallCopy : ∃ net r, smallCopy.system.Reachable net ∧ net.transfer = some r ∧
    net.opened = [7, 8] ∧ r.point = .done .eofAck ∧ r.outputFile = [[43]] := by
  have hinit : smallCopy.system.Reachable smallCopyNet := .init initial_smallCopyNet
  obtain ⟨net, hnet, hp⟩ := hinit.exists_of_run smallCopy.next
    (fun _ _ _ => system_of_next smallCopy) answerLost
    (fun net => decide (net.opened = [7, 8] ∧
      net.transfer.map Rcopy.point = some (.done .eofAck))) (by decide +kernel)
  obtain ⟨hopened, hpoint⟩ := of_decide_eq_true hp
  obtain ⟨r, hr, hdone⟩ := Option.map_eq_some_iff.mp hpoint
  obtain ⟨k, current, s, -, -, -, -, -, hcopied⟩ := copied_of_reachable hnet hr
  exact ⟨net, r, hnet, hr, hopened, hdone, (hcopied (.inl hdone)).2⟩

end Copy

end RemoteCopy

import RemoteCopy.Copy
import RemoteCopy.Undisturbed
import Mathlib.Data.Finset.Range

/-!
# The undisturbed copy

Where nothing disturbs it, the whole copy is completed, from the command line on: rcopy asks once,
one child is forked, the answer comes before the first block, and the data phase is an undisturbed
one (`Copy.Undergoing`). Its runs have at most `5 * N + 9` steps, something can happen until rcopy
and the child have ended with the EOF ACK, and then the file is there (`Copy.completed_copy`).
-/

namespace RemoteCopy

namespace Copy

variable (P : Copy)

/-- Nothing is on its way, and no program does anything but wait. -/
structure Idle (net : SessionNet) : Prop where
  toServer : net.toServer = []
  toRcopy : net.toRcopy = []
  children : ∀ c ∈ net.children, ∀ s ∈ c.server, s.Rests
  fileOkay : net.rcopy.state = .fileOkay → net.transfer ≠ none
  transfer : ∀ r ∈ net.transfer, r.point ≠ .flush

instance (net : SessionNet) : Decidable (Idle net) :=
  decidable_of_iff (net.toServer = [] ∧ net.toRcopy = [] ∧
    (∀ c ∈ net.children, ∀ s ∈ c.server, s.Rests) ∧
    (net.rcopy.state = .fileOkay → net.transfer ≠ none) ∧ ∀ r ∈ net.transfer, r.point ≠ .flush)
    ⟨fun ⟨h₁, h₂, h₃, h₄, h₅⟩ => ⟨h₁, h₂, h₃, h₄, h₅⟩,
      fun ⟨h₁, h₂, h₃, h₄, h₅⟩ => ⟨h₁, h₂, h₃, h₄, h₅⟩⟩

/-- The oldest datagram for the address, as it was sent. -/
def Intact (queue : List Sent) (addr : Addr) (datagram : Bytes) : Prop :=
  (queue.find? (Sent.isFor addr)).map (fun x => x.datagram.bytes) = some datagram

instance (queue : List Sent) (addr : Addr) (datagram : Bytes) :
    Decidable (Intact queue addr datagram) :=
  inferInstanceAs (Decidable (_ = _))

/-- What happens undisturbed, as in the data phase: nothing is lost or damaged, no `read` fails, and
a poll that waits for the other side times out only if there is nothing to come. -/
def Undisturbed (net : SessionNet) : OrderedEvent → Prop
  | .session (.serve k _ datagram _) =>
      net.toServer[k]?.map (fun x => x.datagram.bytes) = some datagram
  | .session (.child _ (.run readFails _)) => readFails = false
  | .session (.child k (.poll .timeout)) =>
      (∃ c ∈ net.children[k]?, ∃ s ∈ c.server, s.point = .windowOpenPoll) ∨ Idle net
  | .session (.child k (.poll (.received _ _ datagram))) =>
      ∀ c ∈ net.children[k]?, Intact net.toServer c.addr datagram
  | .session (.filename .timeout _) => Idle net
  | .session (.filename (.received _ _ datagram) _) =>
      Intact net.toRcopy net.rcopy.clientSocket datagram
  | .session .fileOkay => True
  | .session (.transfer (.flush _ _)) => True
  | .session (.transfer (.poll .timeout _ _)) => Idle net
  | .session (.transfer (.poll (.received _ _ datagram) _ _)) =>
      Intact net.toRcopy net.rcopy.clientSocket datagram
  | .loseToServer _ | .loseToRcopy _ => False

instance (net : SessionNet) : DecidablePred (Undisturbed net)
  | .session (.serve _ _ _ _) => inferInstanceAs (Decidable (_ = _))
  | .session (.child _ (.run _ _)) => inferInstanceAs (Decidable (_ = _))
  | .session (.child _ (.poll .timeout)) => inferInstanceAs (Decidable (_ ∨ _))
  | .session (.child k (.poll (.received _ _ _))) =>
      inferInstanceAs (Decidable (∀ c ∈ net.children[k]?, _))
  | .session (.filename .timeout _) => inferInstanceAs (Decidable (Idle net))
  | .session (.filename (.received _ _ _) _) => inferInstanceAs (Decidable (Intact _ _ _))
  | .session .fileOkay => isTrue trivial
  | .session (.transfer (.flush _ _)) => isTrue trivial
  | .session (.transfer (.poll .timeout _ _)) => inferInstanceAs (Decidable (Idle net))
  | .session (.transfer (.poll (.received _ _ _) _ _)) =>
      inferInstanceAs (Decidable (Intact _ _ _))
  | .loseToServer _ | .loseToRcopy _ => isFalse id

/-- The copy, undisturbed. -/
def undisturbed : System SessionNet OrderedEvent := P.system.restrict Undisturbed

/-- Its steps, computed. -/
def undisturbedNext (net : SessionNet) (e : OrderedEvent) : Option SessionNet :=
  if Undisturbed net e ∧ CompleteWrites net e then P.session.fifoNext net e else none

theorem undisturbed_of_undisturbedNext {net net' : SessionNet} {e : OrderedEvent}
    (h : P.undisturbedNext net e = some net') : ∃ e, P.undisturbed.step net e net' := by
  unfold undisturbedNext at h
  split at h
  · next hundisturbed => exact ⟨e, hundisturbed.1, hundisturbed.2, h⟩
  · cases h

/-- Both programs have ended with the EOF ACK, and the file is there. -/
def Copied (net : SessionNet) : Prop :=
  ∃ r, net.transfer = some r ∧ r.point = .done .eofAck ∧ r.outputFile = P.blocks ∧
    ∃ addr s, net.children = [⟨addr, net.rcopy.clientSocket, some s⟩] ∧ s.point = .done .eofAck

/-- The copy while there is a child: it is the only one, and it and rcopy are in the undisturbed
data phase `tnet`, but for the answer that rcopy waits for. -/
structure Undergoing (net : SessionNet) (addr : Addr) (s : Server) (tnet : Net) : Prop where
  copying : P.Copying net
  children : net.children = [⟨addr, net.rcopy.clientSocket, some s⟩]
  reachable : (P.transfer addr net.rcopy.clientSocket).undisturbed.Reachable tnet
  follows : P.Follows net addr net.rcopy.clientSocket s tnet
  toServer : net.toServer = tnet.toServer.map (Sent.mk net.rcopy.clientSocket)
  toRcopy : net.toRcopy
    = (if net.rcopy.state = .filename then [P.answer addr net.rcopy.clientSocket] else [])
      ++ tnet.toRcopy.map (Sent.mk addr)
  waits : net.rcopy.state = .filename ∨ net.rcopy.state = .fileOkay
  asked : net.requests.length = 1

/-- What is still to be done. -/
def remaining (net : SessionNet) : Nat :=
  match net.children with
  | [⟨_, _, some s⟩] =>
      5 * (P.blocks.length - s.window.current.toNat) + 3 * net.toRcopy.length
        + 2 * net.toServer.length + s.point.weight
        + if net.rcopy.state = .fileOkay ∧ net.transfer = none then 1 else 0
  | _ => 5 * P.blocks.length + 9

variable {P}

section
variable {net net' : SessionNet} {addr : Addr} {s : Server} {tnet : Net}

/-! ## The session and its data phase -/

theorem Undergoing.transfer (h : P.Undergoing net addr s tnet) {r : Rcopy}
    (hr : net.transfer = some r) : tnet.rcopy = r := h.follows.transfer r hr rfl

theorem Undergoing.link (h : P.Undergoing net addr s tnet) :
    (addr, net.rcopy.clientSocket) ∈ Session.links net.children := by
  rw [h.children]
  exact List.mem_singleton_self _

/-- A receiver that has not started is ready. -/
theorem Undergoing.fresh (h : P.Undergoing net addr s tnet) (hnone : net.transfer = none) :
    Rcopy.start P.args.windowSize (P.args.size P.accepted) 1 addr = .ok tnet.rcopy :=
  h.follows.fresh fun hc => absurd hnone hc

theorem Undergoing.remaining_eq (h : P.Undergoing net addr s tnet) (client : Addr) :
    P.remaining net = (P.transfer addr client).remaining tnet
      + (if net.rcopy.state = .filename then 3 else 0)
      + if net.rcopy.state = .fileOkay ∧ net.transfer = none then 1 else 0 := by
  have hserver := h.follows.server
  have hanswer : (if net.rcopy.state = .filename then
      [P.answer addr net.rcopy.clientSocket] else []).length
      = if net.rcopy.state = .filename then 1 else 0 := by
    split <;> rfl
  have hblocks : (P.transfer addr client).blocks = P.blocks := rfl
  simp only [remaining, Transfer.remaining, h.children, h.toServer, h.toRcopy, List.length_append,
    List.length_map, hserver, hanswer, hblocks]
  split <;> omega

/-- What is the oldest for the child in the session is the oldest in the data phase. -/
theorem Undergoing.head_toServer (h : P.Undergoing net addr s tnet) {datagram : Bytes}
    (hintact : Intact net.toServer addr datagram) :
    tnet.toServer.head?.map Datagram.bytes = some datagram := by
  rw [Intact, ← List.head?_filter, h.follows.toServer, List.head?_map, Option.map_map] at hintact
  exact hintact

theorem Undergoing.head_toRcopy (h : P.Undergoing net addr s tnet)
    (hstate : net.rcopy.state = .fileOkay) {datagram : Bytes}
    (hintact : Intact net.toRcopy net.rcopy.clientSocket datagram) :
    tnet.toRcopy.head?.map Datagram.bytes = some datagram := by
  have hfrom := isFor_eq_isFrom h.copying.paired h.link
  have hqueue := h.toRcopy
  rw [hstate, if_neg (by decide), List.nil_append] at hqueue
  rw [Intact, ← List.head?_filter, List.filter_congr hfrom, hqueue, filter_isFrom_map,
    List.head?_map, Option.map_map] at hintact
  exact hintact

/-- Where the session is idle, so is the data phase. -/
theorem Undergoing.idle (h : P.Undergoing net addr s tnet) (hidle : Idle net) :
    Transfer.Idle tnet where
  server := by
    rw [h.follows.server]
    exact hidle.children _ (by rw [h.children]; exact List.mem_singleton_self _) s rfl
  rcopy := by
    cases hr : net.transfer with
    | none =>
        rw [(Rcopy.of_start (h.fresh hr)).2.1]
        exact fun hc => (by cases hc)
    | some r =>
        rw [h.transfer hr]
        exact hidle.transfer r hr
  toRcopy := by
    have hqueue := h.toRcopy
    rw [hidle.toRcopy] at hqueue
    exact List.map_eq_nil_iff.mp (List.append_eq_nil_iff.mp hqueue.symm).2
  toServer := by
    have hqueue := h.toServer
    rw [hidle.toServer] at hqueue
    exact List.map_eq_nil_iff.mp hqueue.symm

/-- Whatever is on its way to the server is for the child. -/
theorem Undergoing.dest (h : P.Undergoing net addr s tnet) {x : Sent} (hx : x ∈ net.toServer) :
    Sent.isFor addr x = true := by
  have hall : net.toServer.filter (Sent.isFor addr) = net.toServer := by
    rw [h.follows.toServer, h.toServer]
  exact List.filter_eq_self.mp hall x hx

/-! ## Steps -/

/-- The child takes a step. -/
theorem Undergoing.child (h : P.Undergoing net addr s tnet) {k : Nat} {i : ServerInput}
    {addr' client : Addr} {t s' : Server} {ds : List Datagram} {queue : List Sent}
    (hk : net.children[k]? = some ⟨addr', client, some t⟩)
    (htake : takeAt addr' (Rejected P.serverOrder (pduHeaderLen + rcopyResponsesPacketLength))
      i.answer net.toServer = some queue)
    (hstep : t.step P.serverOrder i = some (.ok (s', ds)))
    (hundisturbed : Undisturbed net (.session (.child k i))) :
    ∃ tnet', P.Undergoing { net with
        children := net.children.set k ⟨addr', client, some s'⟩
        toServer := queue
        toRcopy := net.toRcopy ++ ds.map (Sent.mk addr') } addr' s' tnet' ∧
      (P.transfer addr net.rcopy.clientSocket).undisturbed.step tnet (.server i) tnet' := by
  have hcopying := h.copying.child hk htake hstep
  have hk' := hk
  rw [h.children, List.getElem?_singleton] at hk'
  split at hk'
  · next hzero =>
      subst hzero
      cases hk'
      have hown : Transfer.Undisturbed tnet (.server i) := by
        cases i with
        | run readFails junk => exact hundisturbed
        | poll p =>
            cases p with
            | timeout =>
                rcases hundisturbed with ⟨c, hc, t, ht, hpoint⟩ | hidle
                · rw [h.children] at hc
                  cases hc
                  cases ht
                  exact .inl (by rw [h.follows.server]; exact hpoint)
                · exact .inr (h.idle hidle)
            | received src stale datagram => exact h.head_toServer (hundisturbed _ hk)
      obtain ⟨toServer, hstep', hfollows⟩ := h.follows.childStep
        (net.children.set 0 ⟨addr, net.rcopy.clientSocket, some s'⟩) htake hstep
      refine ⟨_, ⟨hcopying, ?_, h.reachable.step ⟨hown, hstep'⟩, hfollows, ?_, ?_, h.waits,
        h.asked⟩, hown, hstep'⟩
      · show net.children.set 0 _ = _
        rw [h.children]
        rfl
      · have hall : queue.filter (Sent.isFor addr) = queue :=
          List.filter_eq_self.mpr fun x hx => h.dest ((Session.sublist_of_takeAt htake).subset hx)
        exact hall.symm.trans hfollows.toServer
      · show net.toRcopy ++ _ = _
        rw [h.toRcopy, List.map_append, List.append_assoc]
  · cases hk'

/-- rcopy has the answer. -/
theorem Undergoing.filename (h : P.Undergoing net addr s tnet) {p : Poll} {newSocket : Addr}
    {r : RcopySetup} {xs queue : List Sent} (hwaits : net.rcopy.state = .filename)
    (htake : takeAt net.rcopy.clientSocket
      (Damaged P.rcopyOrder (pduHeaderLen + P.args.size P.accepted)) p net.toRcopy = some queue)
    (hfresh : P.session.Fresh net newSocket)
    (hfilename : net.rcopy.filename P.rcopyOrder (P.args.size P.accepted) P.serverAddr newSocket p
      = (r, xs))
    (hundisturbed : Undisturbed net (.session (.filename p newSocket))) :
    P.Undergoing { net with
        rcopy := r
        toServer := net.toServer ++ xs
        toRcopy := queue
        opened := if r.clientSocket = net.rcopy.clientSocket then net.opened
          else net.opened ++ [r.clientSocket]
        requests := net.requests ++ xs } addr s tnet ∧
      r.state = .fileOkay ∧ net.transfer = none := by
  have hcopying := h.copying.filename hwaits htake hfresh hfilename
  obtain ⟨hnone, -⟩ := h.copying.paired.requests_of_waits hwaits
  have hqueue := h.toRcopy
  rw [if_pos hwaits, List.singleton_append] at hqueue
  cases p with
  | timeout =>
      have hidle : Idle net := hundisturbed
      rw [hidle.toRcopy] at hqueue
      cases hqueue
  | received src stale datagram =>
      have hfor : Sent.isFor net.rcopy.clientSocket (P.answer addr net.rcopy.clientSocket) = true :=
        beq_self_eq_true net.rcopy.clientSocket
      have hintact : Intact net.toRcopy net.rcopy.clientSocket datagram := hundisturbed
      rw [Intact, hqueue, List.find?_cons_of_pos hfor] at hintact
      have hbytes : datagram = encodePDU P.serverOrder 0 filenameResponseFlag [fileOk] :=
        (Option.some.inj hintact).symm
      have hsize := (P.args.size P.accepted).2.1
      have hfit : [fileOk].length ≤ P.args.size P.accepted := by
        rw [List.length_singleton]
        omega
      rw [RcopySetup.filename_received P.rcopyOrder P.serverOrder net.rcopy 0 filenameResponseFlag
        fileOk hfit P.serverAddr newSocket src stale hbytes] at hfilename
      cases hfilename
      have herase : queue = tnet.toRcopy.map (Sent.mk addr) := by
        rcases takeAt_cases htake with ⟨hc, -⟩ | ⟨x, -, -, heq⟩
        · cases hc
        · rw [heq, hqueue, List.eraseP_cons_of_pos hfor]
      subst herase
      refine ⟨⟨hcopying, h.children, h.reachable, ?_, ?_, rfl, .inr rfl, ?_⟩, rfl, hnone⟩
      · refine ⟨h.follows.server, fun _ hr => ?_, fun _ => h.fresh hnone,
          ⟨[], filter_isFrom_map, .inl rfl⟩, ?_⟩
        · cases hnone.symm.trans hr
        · show (net.toServer ++ []).filter _ = _
          rw [List.append_nil]
          exact h.follows.toServer
      · show net.toServer ++ [] = _
        rw [List.append_nil]
        exact h.toServer
      · show (net.requests ++ []).length = 1
        rw [List.append_nil]
        exact h.asked

/-- rcopy starts on the transfer. -/
theorem Undergoing.fileOkay (h : P.Undergoing net addr s tnet)
    (hstate : net.rcopy.state = .fileOkay) (hnone : net.transfer = none) {r : Rcopy}
    (hstart : Rcopy.start P.args.windowSize (P.args.size P.accepted) net.rcopy.sequenceNumber
      net.rcopy.serverAddress = .ok r) :
    P.Undergoing { net with transfer := some r } addr s tnet := by
  have hcopying := h.copying.fileOkay hstate hnone hstart
  obtain ⟨hseq, hserver⟩ := h.copying.answered hstate hnone h.link
  rw [hseq, hserver] at hstart
  exact ⟨hcopying, h.children, h.reachable, h.follows.fileOkay hnone rfl hstate hstart, h.toServer,
    h.toRcopy, h.waits, h.asked⟩

/-- rcopy takes a step of the transfer. -/
theorem Undergoing.transferred (h : P.Undergoing net addr s tnet) {i : RcopyInput} {r r' : Rcopy}
    {ds : List Datagram} {queue : List Sent} (hr : net.transfer = some r)
    (htake : takeAt net.rcopy.clientSocket
      (Rejected P.rcopyOrder (pduHeaderLen + P.args.size P.accepted)) i.answer net.toRcopy
      = some queue)
    (hstep : r.step P.rcopyOrder i = some (.ok (r', ds))) (hwrite : i.CompleteWrite)
    (hundisturbed : Undisturbed net (.session (.transfer i))) :
    ∃ tnet', P.Undergoing { net with
        transfer := some r'
        toServer := net.toServer ++ ds.map (Sent.mk net.rcopy.clientSocket)
        toRcopy := queue } addr s tnet' ∧
      (P.transfer addr net.rcopy.clientSocket).undisturbed.step tnet (.rcopy i) tnet' := by
  have hcopying := h.copying.transferred hr htake hstep hwrite
  have hpaired := h.copying.paired
  have hstate : net.rcopy.state = .fileOkay :=
    hpaired.transfer (by rw [hr]; exact Option.some_ne_none r)
  have hown : Transfer.Undisturbed tnet (.rcopy i) := by
    cases i with
    | flush write junk => trivial
    | poll p write junk =>
        cases p with
        | timeout => exact h.idle hundisturbed
        | received src stale datagram => exact h.head_toRcopy hstate hundisturbed
  have hdest {d : Datagram} (hd : d ∈ ds) : d.dest = addr :=
    hpaired.addr_eq (dest_linked hpaired hr (Session.arrives_of_takeAt htake) hstep hd) h.link
  obtain ⟨toRcopy, hstep', hfollows⟩ := h.follows.rcopyStep hpaired h.link rfl hr htake
    (fun d hd => hdest hd) hstep hwrite
  have hqueue := h.toRcopy
  rw [hstate, if_neg (by decide), List.nil_append] at hqueue
  refine ⟨_, ⟨hcopying, h.children, h.reachable.step ⟨hown, hstep'⟩, hfollows, ?_, ?_, h.waits,
    h.asked⟩, hown, hstep'⟩
  · show net.toServer ++ _ = _
    rw [h.toServer, List.map_append]
  · have hall : queue.filter (Sent.isFrom addr) = queue := by
      have hfrom : ∀ x ∈ net.toRcopy, Sent.isFrom addr x = true := by
        rw [hqueue]
        exact List.filter_eq_self.mp filter_isFrom_map
      exact List.filter_eq_self.mpr fun x hx =>
        hfrom x ((Session.sublist_of_takeAt htake).subset hx)
    obtain ⟨answers, hto, rfl | ⟨-, hwaits⟩⟩ := hfollows.toRcopy
    · show queue = (if net.rcopy.state = .filename then _ else []) ++ _
      rw [hstate, if_neg (by decide)]
      exact hall.symm.trans hto
    · exact absurd rfl (hwaits hstate)

/-- **A step leaves less to be done**, and the only child is still the only one. -/
theorem Undergoing.step (h : P.Undergoing net addr s tnet) {e : OrderedEvent}
    (hstep : P.undisturbed.step net e net') :
    (∃ s' tnet', P.Undergoing net' addr s' tnet') ∧ P.remaining net' < P.remaining net := by
  obtain ⟨hundisturbed, hwrite, hstep⟩ := hstep
  have hflow {e : Event} {tnet' : Net}
      (hstep : (P.transfer addr net.rcopy.clientSocket).undisturbed.step tnet e tnet') :
      (P.transfer addr net.rcopy.clientSocket).remaining tnet'
        < (P.transfer addr net.rcopy.clientSocket).remaining tnet := by
    obtain ⟨L, K, m, a, hflow⟩ := Transfer.flowing_of_reachable h.reachable
    exact (hflow.step hstep).2
  cases e with
  | loseToServer k => exact hundisturbed.elim
  | loseToRcopy k => exact hundisturbed.elim
  | session e =>
      cases Session.ordered_of_fifoNext hstep with
      | serve hk hreceived hfresh hfork =>
          have hfor := h.dest (List.mem_of_getElem? hk)
          exact absurd ((beq_iff_eq.mp hfor).symm.trans hreceived.1)
            (linked_ne h.copying.paired h.link)
      | @child k i addr' client t s' ds queue hk htake hserver =>
          have hchild : addr' = addr ∧ client = net.rcopy.clientSocket := by
            rw [h.children, List.getElem?_singleton] at hk
            split at hk
            · cases hk
              exact ⟨rfl, rfl⟩
            · cases hk
          obtain ⟨rfl, rfl⟩ := hchild
          obtain ⟨tnet', h', hown⟩ := h.child hk htake hserver hundisturbed
          refine ⟨⟨_, tnet', h'⟩, ?_⟩
          have hlt := hflow hown
          rw [h'.remaining_eq net.rcopy.clientSocket, h.remaining_eq net.rcopy.clientSocket]
          exact Nat.add_lt_add_right (Nat.add_lt_add_right hlt _) _
      | @filename p newSocket r xs queue hwaits htake hfresh hfilename =>
          obtain ⟨h', hstate, hnone⟩ := h.filename hwaits htake hfresh hfilename hundisturbed
          refine ⟨⟨s, tnet, h'⟩, ?_⟩
          rw [h'.remaining_eq net.rcopy.clientSocket, h.remaining_eq net.rcopy.clientSocket]
          simp [hstate, hnone, hwaits]
      | fileOkay hstate hnone hstart =>
          have h' := h.fileOkay hstate hnone hstart
          refine ⟨⟨s, tnet, h'⟩, ?_⟩
          rw [h'.remaining_eq net.rcopy.clientSocket, h.remaining_eq net.rcopy.clientSocket]
          simp [hstate, hnone]
      | transfer hr htake hrcopy =>
          obtain ⟨tnet', h', hown⟩ := h.transferred hr htake hrcopy hwrite hundisturbed
          refine ⟨⟨s, tnet', h'⟩, ?_⟩
          have hlt := hflow hown
          rw [h'.remaining_eq net.rcopy.clientSocket, h.remaining_eq net.rcopy.clientSocket]
          simp only [hr, reduceCtorEq, and_false, if_false]
          exact Nat.add_lt_add_right (Nat.add_lt_add_right hlt _) _

/-! ## The first step -/

/-- The first child has been forked, and its answer is on its way to rcopy. -/
theorem undergoing_forked (h : P.session.Initial net) (hstate : net.rcopy.state = .filename)
    {childAddr : Addr} {s : Server}
    (hstart : Server.start P.args.windowSize P.args.bufferSize P.blocks net.rcopy.clientSocket
      = .ok s)
    (hcopying : P.Copying { net with
      children := net.children ++ [⟨childAddr, net.rcopy.request.src, some s⟩]
      toServer := net.toServer.eraseIdx 0
      toRcopy := net.toRcopy ++ [⟨net.rcopy.clientSocket,
        encodePDU P.serverOrder 0 filenameResponseFlag [fileOk]⟩].map (Sent.mk childAddr) }) :
    ∃ tnet, (P.transfer childAddr net.rcopy.clientSocket).Initial tnet ∧ P.Undergoing { net with
      children := net.children ++ [⟨childAddr, net.rcopy.request.src, some s⟩]
      toServer := net.toServer.eraseIdx 0
      toRcopy := net.toRcopy ++ [⟨net.rcopy.clientSocket,
        encodePDU P.serverOrder 0 filenameResponseFlag [fileOk]⟩].map (Sent.mk childAddr) }
      childAddr s tnet := by
  obtain ⟨w, hw⟩ := P.makeWindow_windowSize
  obtain ⟨r, hr⟩ : ∃ r, Rcopy.start P.args.windowSize (P.args.size P.accepted) 1 childAddr
      = .ok r := ⟨_, by rw [Rcopy.start, hw]⟩
  have hinit := initial_transfer hstart hr
  refine ⟨⟨s, r, [], []⟩, hinit, hcopying, ?_, .init hinit, ?_, ?_, ?_, .inl hstate, ?_⟩
  · show net.children ++ _ = _
    rw [h.children]
    rfl
  · refine ⟨rfl, fun r' hr' => ?_, fun _ => hr, ⟨[P.answer childAddr _], ?_,
      .inr ⟨rfl, fun hc => ?_⟩⟩, ?_⟩
    · cases h.transfer.symm.trans hr'
    · rw [filter_isFrom_self, h.toRcopy]
      rfl
    · cases hstate.symm.trans hc
    · show (net.toServer.eraseIdx 0).filter _ = _
      rw [h.toServer]
      rfl
  · show net.toServer.eraseIdx 0 = _
    rw [h.toServer]
    rfl
  · show net.toRcopy ++ _ = (if net.rcopy.state = .filename then _ else _) ++ _
    rw [h.toRcopy, if_pos hstate]
    rfl
  · show net.requests.length = 1
    rw [h.requests]
    rfl

/-- rcopy has asked, and the main process forks a child. -/
theorem asked_step (h : P.session.Initial net) {e : OrderedEvent}
    (hstep : P.undisturbed.step net e net') :
    (∃ addr s tnet, P.Undergoing net' addr s tnet) ∧ P.remaining net' < P.remaining net := by
  obtain ⟨hundisturbed, -, hstep⟩ := hstep
  have hcopying := Copying.initial h
  have hbefore : P.remaining net = 5 * P.blocks.length + 9 := by
    rw [remaining, h.children]
  have hstate : net.rcopy.state = .filename := by
    obtain ⟨pduBuffer, -, hstart⟩ := C.bind_eq_ok.mp h.rcopy
    rw [← Except.ok.inj hstart]
  cases e with
  | loseToServer k => exact hundisturbed.elim
  | loseToRcopy k => exact hundisturbed.elim
  | session e =>
      cases Session.ordered_of_fifoNext hstep with
      | @serve k stale datagram childAddr x hk hreceived hfresh server ds hfork =>
          have hcopying' := hcopying.serve hk hreceived hfresh hfork
          have hx := hk
          rw [h.toServer, List.getElem?_singleton] at hx
          split at hx
          · next hzero =>
              subst hzero
              cases hx
              have hrequest : net.rcopy.request.datagram.bytes = P.request :=
                hcopying.requests _ (List.mem_of_getElem? hk) hreceived.1
              have hbytes : P.request = datagram := by
                have hintact : net.toServer[0]?.map (fun x => x.datagram.bytes)
                    = some datagram := hundisturbed
                rw [hk, Option.map_some, hrequest] at hintact
                exact Option.some.inj hintact
              subst hbytes
              obtain ⟨s, hstart, hfork'⟩ := P.fork_request net.rcopy.clientSocket stale
              obtain ⟨rfl, rfl⟩ := Prod.mk.inj (hfork'.symm.trans hfork)
              obtain ⟨tnet, hinit, h'⟩ := undergoing_forked h hstate hstart hcopying'
              refine ⟨⟨_, _, _, h'⟩, ?_⟩
              rw [h'.remaining_eq net.rcopy.clientSocket, Transfer.remaining_initial hinit, hbefore]
              have hnone := h.transfer
              have hblocks : (P.transfer childAddr net.rcopy.clientSocket).blocks = P.blocks := rfl
              simp only [hstate, hblocks, if_true, reduceCtorEq, false_and, if_false]
              omega
          · cases hx
      | child hk htake hserver =>
          rw [h.children] at hk
          cases hk
      | @filename p newSocket r xs queue hwaits htake hfresh hfilename =>
          cases p with
          | timeout =>
              have hidle : Idle net := hundisturbed
              cases h.toServer.symm.trans hidle.toServer
          | received src stale datagram =>
              have hintact : Intact net.toRcopy net.rcopy.clientSocket datagram := hundisturbed
              rw [Intact, h.toRcopy] at hintact
              cases hintact
      | fileOkay hokay hnone hstart => cases hstate.symm.trans hokay
      | transfer hr htake hrcopy => cases h.transfer.symm.trans hr

/-- The copy has begun, or is undergoing. -/
theorem underway_of_reachable (h : P.undisturbed.Reachable net) :
    P.session.Initial net ∨ ∃ addr s tnet, P.Undergoing net addr s tnet := by
  refine System.Reachable.invariant
    (P := fun net => P.session.Initial net ∨ ∃ addr s tnet, P.Undergoing net addr s tnet) ?_ ?_ h
  · exact fun net hinit => .inl hinit
  · rintro net e net' - (hinit | ⟨addr, s, tnet, h⟩) hstep
    · exact .inr (asked_step hinit hstep).1
    · obtain ⟨s', tnet', h'⟩ := (h.step hstep).1
      exact .inr ⟨addr, s', tnet', h'⟩

/-! ## Progress -/

theorem intact_cons {a : Addr} {x : Sent} {queue : List Sent} (h : x.datagram.dest = a) :
    Intact (x :: queue) a x.datagram.bytes := by
  rw [Intact, List.find?_cons_of_pos (p := Sent.isFor a) (beq_iff_eq.mpr h)]
  rfl

/-- There is always a port that was not used before. -/
theorem exists_fresh (net : SessionNet) : ∃ a, P.session.Fresh net a := by
  obtain ⟨a, ha⟩ := Finset.exists_nat_subset_range
    (insert P.serverAddr (net.opened ++ net.children.map Forked.addr).toFinset)
  have hfresh := mt (@ha a) Finset.notMem_range_self
  rw [Finset.mem_insert, List.mem_toFinset, List.mem_append, not_or, not_or] at hfresh
  exact ⟨a, hfresh⟩

/-- The main process can receive the request. -/
theorem asked_progress (h : P.session.Initial net) : ∃ e net', P.undisturbed.step net e net' := by
  obtain ⟨a, ha⟩ := exists_fresh (P := P) net
  have hk : net.toServer[0]? = some net.rcopy.request := by
    rw [h.toServer]
    rfl
  have hdest : net.rcopy.request.datagram.dest = P.serverAddr := by
    obtain ⟨pduBuffer, -, hstart⟩ := C.bind_eq_ok.mp h.rcopy
    rw [RcopySetup.request, ← Except.ok.inj hstart]
    rfl
  have hstep : P.session.Ordered net
      (.serve 0 [] net.rcopy.request.datagram.bytes a) _ :=
    .serve hk ⟨hdest, rfl, .inl rfl⟩ ha rfl
  refine ⟨.session (.serve _ _ _ _), _, ?_, trivial, Session.fifoNext_of_ordered hstep⟩
  show net.toServer[0]?.map _ = _
  rw [hk]
  rfl

theorem Undergoing.copied (h : P.Undergoing net addr s tnet) (hstarted : net.transfer ≠ none)
    (hcompleted : Transfer.Completed tnet) : P.Copied net := by
  obtain ⟨r, hr⟩ := Option.ne_none_iff_exists'.mp hstarted
  obtain ⟨L, K, m, a, hflow⟩ := Transfer.flowing_of_reachable h.reachable
  have hrcopy := h.transfer hr
  exact ⟨r, hr, hrcopy ▸ hcompleted.2, hrcopy ▸ hflow.file_eq hcompleted, addr, s, h.children,
    h.follows.server ▸ hcompleted.1⟩

/-- Once nothing more can come, everything has been done. -/
theorem Undergoing.copied_of_idle (h : P.Undergoing net addr s tnet) (hidle : Idle net) :
    P.Copied net := by
  obtain ⟨L, K, m, a, hflow⟩ := Transfer.flowing_of_reachable h.reachable
  have hstarted : net.transfer ≠ none := by
    rcases h.waits with hstate | hstate
    · have hqueue := h.toRcopy
      rw [hidle.toRcopy, if_pos hstate] at hqueue
      cases hqueue
    · exact hidle.fileOkay hstate
  exact h.copied hstarted (hflow.completed_of_idle (h.idle hidle))

/-- The answer can be received. -/
theorem Undergoing.filename_progress (h : P.Undergoing net addr s tnet)
    (hstate : net.rcopy.state = .filename) : ∃ e net', P.undisturbed.step net e net' := by
  obtain ⟨a, ha⟩ := exists_fresh (P := P) net
  have hqueue := h.toRcopy
  rw [if_pos hstate, List.singleton_append] at hqueue
  have hreceived : (P.answer addr net.rcopy.clientSocket).ReceivedAs net.rcopy.clientSocket
      (Damaged P.rcopyOrder (pduHeaderLen + P.args.size P.accepted))
      (.received addr [] (P.answer addr net.rcopy.clientSocket).datagram.bytes) :=
    ⟨rfl, rfl, .inl rfl⟩
  have htake := hqueue ▸ takeAt_cons hreceived
  have hstep : P.session.Ordered net (.filename (.received addr []
      (P.answer addr net.rcopy.clientSocket).datagram.bytes) a) _ := .filename hstate htake ha rfl
  refine ⟨.session (.filename _ _), _, ?_, trivial, Session.fifoNext_of_ordered hstep⟩
  rw [Undisturbed, hqueue]
  exact intact_cons rfl

/-- rcopy can start on the transfer. -/
theorem Undergoing.fileOkay_progress (h : P.Undergoing net addr s tnet)
    (hstate : net.rcopy.state = .fileOkay) (hnone : net.transfer = none) :
    ∃ e net', P.undisturbed.step net e net' := by
  obtain ⟨hseq, hserver⟩ := h.copying.answered hstate hnone h.link
  have hstart := h.fresh hnone
  rw [← hseq, ← hserver] at hstart
  exact ⟨.session .fileOkay, _, trivial, trivial,
    Session.fifoNext_of_ordered (.fileOkay (P := P.session) hstate hnone hstart)⟩

/-- What the child can do in its data phase, it can do in the session. -/
theorem Undergoing.server_progress (h : P.Undergoing net addr s tnet)
    (hbusy : ¬ Transfer.Idle tnet) {i : ServerInput} {tnet' : Net}
    (hstep : (P.transfer addr net.rcopy.clientSocket).undisturbed.step tnet (.server i) tnet') :
    ∃ e net', P.undisturbed.step net e net' := by
  obtain ⟨hundisturbed, ds, ⟨hserver, -⟩, -, htakes⟩ := hstep
  rw [h.follows.server] at hserver
  have hk : net.children[0]? = some ⟨addr, net.rcopy.clientSocket, some s⟩ := by
    rw [h.children]
    rfl
  obtain ⟨queue, htake, hown⟩ : ∃ queue,
      takeAt addr (Rejected P.serverOrder (pduHeaderLen + rcopyResponsesPacketLength)) i.answer
        net.toServer = some queue ∧ Undisturbed net (.session (.child 0 i)) := by
    cases i with
    | run readFails junk => exact ⟨_, rfl, hundisturbed⟩
    | poll p =>
        cases p with
        | timeout =>
            have hpoint := hundisturbed.resolve_right hbusy
            rw [h.follows.server] at hpoint
            exact ⟨_, rfl, .inl ⟨_, hk, s, rfl, hpoint⟩⟩
        | received src stale datagram =>
            obtain ⟨d, ⟨rfl, -⟩, hqueue⟩ := htakes.resolve_left fun hc => hc.1
            obtain rfl : d.bytes = datagram := by
              have hhead : tnet.toServer.head?.map Datagram.bytes = some datagram := hundisturbed
              rw [hqueue] at hhead
              exact Option.some.inj hhead
            have hsession := h.toServer
            rw [hqueue, List.map_cons] at hsession
            have hdest : d.dest = addr :=
              beq_iff_eq.mp (h.dest (x := ⟨_, d⟩) (by rw [hsession]; exact List.mem_cons_self))
            refine ⟨_, hsession ▸ takeAt_cons ⟨hdest, rfl, .inl rfl⟩, fun c hc => ?_⟩
            rw [hk] at hc
            cases hc
            rw [hsession]
            exact intact_cons hdest
  exact ⟨_, _, hown, trivial,
    Session.fifoNext_of_ordered (.child (P := P.session) hk htake hserver)⟩

/-- What the receiver can do in its data phase, rcopy can do in the session. -/
theorem Undergoing.rcopy_progress (h : P.Undergoing net addr s tnet)
    (hbusy : ¬ Transfer.Idle tnet) {r : Rcopy} (hr : net.transfer = some r) {i : RcopyInput}
    {tnet' : Net}
    (hstep : (P.transfer addr net.rcopy.clientSocket).undisturbed.step tnet (.rcopy i) tnet') :
    ∃ e net', P.undisturbed.step net e net' := by
  obtain ⟨hundisturbed, ds, ⟨hrcopy, -, hwrite⟩, -, htakes⟩ := hstep
  rw [h.transfer hr] at hrcopy
  have hstate : net.rcopy.state = .fileOkay :=
    h.copying.paired.transfer (by rw [hr]; exact Option.some_ne_none r)
  have hsession := h.toRcopy
  rw [hstate, if_neg (by decide), List.nil_append] at hsession
  obtain ⟨queue, htake, hown⟩ : ∃ queue,
      takeAt net.rcopy.clientSocket (Rejected P.rcopyOrder (pduHeaderLen + P.args.size P.accepted))
        i.answer net.toRcopy = some queue ∧ Undisturbed net (.session (.transfer i)) := by
    cases i with
    | flush write junk => exact ⟨_, rfl, trivial⟩
    | poll p write junk =>
        cases p with
        | timeout => exact absurd hundisturbed hbusy
        | received src stale datagram =>
            obtain ⟨d, ⟨rfl, -⟩, hqueue⟩ := htakes.resolve_left fun hc => hc.1
            obtain rfl : d.bytes = datagram := by
              have hhead : tnet.toRcopy.head?.map Datagram.bytes = some datagram := hundisturbed
              rw [hqueue] at hhead
              exact Option.some.inj hhead
            rw [hqueue, List.map_cons] at hsession
            have hdest : d.dest = net.rcopy.clientSocket := by
              refine beq_iff_eq.mp ((isFor_eq_isFrom h.copying.paired h.link ⟨src, d⟩ ?_).trans
                (beq_self_eq_true src))
              rw [hsession]
              exact List.mem_cons_self
            refine ⟨_, hsession ▸ takeAt_cons ⟨hdest, rfl, .inl rfl⟩, ?_⟩
            rw [Undisturbed, hsession]
            exact intact_cons hdest
  exact ⟨_, _, hown, hwrite,
    Session.fifoNext_of_ordered (.transfer (P := P.session) hr htake hrcopy)⟩

/-- **Undisturbed, something can happen until the file is copied.** -/
theorem Undergoing.progress (h : P.Undergoing net addr s tnet) :
    P.Copied net ∨ ∃ e net', P.undisturbed.step net e net' := by
  rcases h.waits with hstate | hstate
  · exact .inr (h.filename_progress hstate)
  · cases hr : net.transfer with
    | none => exact .inr (h.fileOkay_progress hstate hr)
    | some r =>
        have hstarted : net.transfer ≠ none := by
          rw [hr]
          exact Option.some_ne_none r
        obtain ⟨L, K, m, a, hflow⟩ := Transfer.flowing_of_reachable h.reachable
        by_cases hidle : Transfer.Idle tnet
        · exact .inl (h.copied hstarted (hflow.completed_of_idle hidle))
        · rcases hflow.progress with hcompleted | ⟨e, tnet', hstep⟩
          · exact .inl (h.copied hstarted hcompleted)
          · cases e with
            | server i => exact .inr (h.server_progress hidle hstep)
            | rcopy i => exact .inr (h.rcopy_progress hidle hr hstep)
            | loseToRcopy k => exact hstep.1.elim
            | loseToServer k => exact hstep.1.elim

end

/-- **An undisturbed copy is completed.** From the command line on, its runs have at most
`5 * N + 9` steps for a file of `N` blocks; as long as the file is not copied another step is
possible, and once nothing more can come it is. rcopy asks once, and one child is forked. -/
theorem completed_copy {net : SessionNet} {trace : List (SessionNet × OrderedEvent)}
    (h : P.undisturbed.traced.Reachable (net, trace)) :
    trace.length ≤ 5 * P.blocks.length + 9 ∧
    (P.Copied net ∨ ∃ e net', P.undisturbed.step net e net') ∧
    (Idle net → P.Copied net) ∧ net.requests.length = 1 ∧ net.children.length ≤ 1 := by
  have hlength : trace.length + P.remaining net ≤ 5 * P.blocks.length + 9 :=
    System.Reachable.length_le (S := P.undisturbed) P.remaining
      (fun net hinit => by
        have hchildren : net.children = [] := Session.Initial.children hinit
        rw [remaining, hchildren])
      (fun net e net' hnet hstep => by
        rcases underway_of_reachable hnet with hinit | ⟨addr, s, tnet, hunder⟩
        · exact (asked_step hinit hstep).2
        · exact (hunder.step hstep).2) h
  refine ⟨by omega, ?_⟩
  rcases underway_of_reachable h.of_traced with hinit | ⟨addr, s, tnet, hunder⟩
  · refine ⟨.inr (asked_progress hinit), fun hidle => ?_, ?_, ?_⟩
    · cases hinit.toServer.symm.trans hidle.toServer
    · rw [hinit.requests]
      rfl
    · rw [hinit.children]
      exact Nat.zero_le 1
  · refine ⟨hunder.progress, hunder.copied_of_idle, hunder.asked, ?_⟩
    rw [hunder.children]
    exact Nat.le_refl 1

/-- One request, one child, and the datagrams of the data phase. -/
def undisturbedCopy : List OrderedEvent :=
  [.session (.serve 0 [] smallCopy.request 2),
    .session (.filename (.received 2 [] (encodePDU .big 0 filenameResponseFlag [fileOk])) 8),
    .session .fileOkay, .session (.child 0 (.run false 0)), .session (.child 0 (.poll .timeout)),
    .session (.transfer (.poll (.received 2 [] (encodePDU .big 0 dataPacketFlag [43]))
      .complete 0)),
    .session (.child 0 (.run false 0)), .session (.child 0 (.run false 0)),
    .session (.child 0 (.poll (.received 7 []
      (encodePDU .little 1 rrFlag (ByteOrder.bytes32 .big 1))))),
    .session (.transfer (.poll (.received 2 [] (encodePDU .big 1 eofFlag [0])) .complete 0)),
    .session (.child 0 (.poll (.received 7 [] (encodePDU .little 2 eofAckFlag [0]))))]

theorem completed_copy_smallCopy : ∃ net trace,
    smallCopy.undisturbed.traced.Reachable (net, trace) ∧ trace.length ≤ 14 ∧
      smallCopy.Copied net := by
  have hinit : smallCopy.undisturbed.Reachable smallCopyNet := .init initial_smallCopyNet
  obtain ⟨net, hnet, hp⟩ := hinit.exists_of_run smallCopy.undisturbedNext
    (fun _ _ _ => undisturbed_of_undisturbedNext smallCopy) undisturbedCopy
    (fun net => decide (Idle net)) (by decide +kernel)
  obtain ⟨trace, htrace⟩ := hnet.exists_traced
  obtain ⟨hlength, -, hidle, -⟩ := completed_copy htrace
  exact ⟨net, trace, htrace, hlength, hidle (of_decide_eq_true hp)⟩

end Copy

end RemoteCopy

import RemoteCopy.Pairing

/-!
# Sessions over channels that keep the order

The sessions of rcopy, the main process and all its children once more, but every datagram is
received at most once, and what one socket sends to another arrives in the order in which it was
sent, unless it is lost. Requests from different sockets may overtake each other. A step is one over
UDP that takes the oldest datagram for whoever polls, so the children have the peers that they have
there (`Session.Paired.ordered`).
-/

namespace RemoteCopy

/-- A step of the programs, or the loss of a datagram. -/
inductive OrderedEvent where
  | session (e : SessionEvent)
  | loseToServer (position : Nat)
  | loseToRcopy (position : Nat)

/-- Sent to this address. -/
def Sent.isFor (addr : Addr) (x : Sent) : Bool := x.datagram.dest == addr

/-- Sent from this address. -/
def Sent.isFrom (addr : Addr) (x : Sent) : Bool := x.src == addr

/-- The queue after a poll at `addr` has taken nothing, or the oldest datagram for it. -/
def takeAt (addr : Addr) (corrupt : Bytes → Bytes → Prop)
    [∀ stale datagram, Decidable (corrupt stale datagram)] (p : Poll) (queue : List Sent) :
    Option (List Sent) :=
  if p = .timeout then some queue
  else
    match queue.find? (Sent.isFor addr) with
    | some x => if x.ReceivedAs addr corrupt p then some (queue.eraseP (Sent.isFor addr)) else none
    | none => none

theorem takeAt_cases {addr : Addr} {corrupt : Bytes → Bytes → Prop}
    [∀ stale datagram, Decidable (corrupt stale datagram)] {p : Poll} {queue queue' : List Sent}
    (h : takeAt addr corrupt p queue = some queue') :
    (p = .timeout ∧ queue' = queue) ∨ ∃ x, queue.find? (Sent.isFor addr) = some x ∧
      x.ReceivedAs addr corrupt p ∧ queue' = queue.eraseP (Sent.isFor addr) := by
  unfold takeAt at h
  split at h
  · next htimeout =>
      cases h
      exact .inl ⟨htimeout, rfl⟩
  · split at h
    · next x hfind =>
        split at h
        · next hreceived =>
            cases h
            exact .inr ⟨x, hfind, hreceived, rfl⟩
        · cases h
    · cases h

/-- What is received can be taken off the head. -/
theorem takeAt_cons {addr : Addr} {corrupt : Bytes → Bytes → Prop}
    [∀ stale datagram, Decidable (corrupt stale datagram)] {src : Addr} {stale datagram : Bytes}
    {x : Sent} {queue : List Sent}
    (h : x.ReceivedAs addr corrupt (.received src stale datagram)) :
    takeAt addr corrupt (.received src stale datagram) (x :: queue) = some queue := by
  have hfor : Sent.isFor addr x = true := beq_iff_eq.mpr h.1
  rw [takeAt, if_neg (fun hc => by cases hc), List.find?_cons_of_pos hfor,
    List.eraseP_cons_of_pos hfor]
  exact if_pos h

namespace Session

variable (P : Session)

/-- A step over channels that keep the order. It is one over UDP that takes the oldest datagram for
whoever polls, and takes it off its queue. -/
def fifoNext (net : SessionNet) : OrderedEvent → Option SessionNet
  | .session e =>
      match P.next net e, e with
      | some net', .child k i =>
          match net.children[k]? with
          | some c =>
              (takeAt c.addr (Rejected P.serverOrder (pduHeaderLen + rcopyResponsesPacketLength))
                i.answer net.toServer).map fun queue => { net' with toServer := queue }
          | none => none
      | some net', .filename p _ =>
          (takeAt net.rcopy.clientSocket (Damaged P.rcopyOrder (pduHeaderLen + P.bufferSize)) p
            net.toRcopy).map fun queue => { net' with toRcopy := queue }
      | some net', .transfer i =>
          (takeAt net.rcopy.clientSocket (Rejected P.rcopyOrder (pduHeaderLen + P.bufferSize))
            i.answer net.toRcopy).map fun queue => { net' with toRcopy := queue }
      | some net', .serve _ _ _ _ => some net'
      | some net', .fileOkay => some net'
      | none, _ => none
  | .loseToServer k => some { net with toServer := net.toServer.eraseIdx k }
  | .loseToRcopy k => some { net with toRcopy := net.toRcopy.eraseIdx k }

/-- Sessions over channels that keep the order. -/
def fifo : System SessionNet OrderedEvent where
  init := P.Initial
  step net e net' := P.fifoNext net e = some net'

/-- What a step of the programs over these channels does. -/
inductive Ordered (net : SessionNet) : SessionEvent → SessionNet → Prop
  | serve {k : Nat} {stale datagram : Bytes} {childAddr : Addr} {x : Sent}
      (hk : net.toServer[k]? = some x)
      (hreceived : x.ReceivedAs P.serverAddr (Rejected P.serverOrder Server.requestBufferLength)
        (.received x.src stale datagram))
      (hfresh : P.Fresh net childAddr) {server : Option Server} {ds : List Datagram}
      (hfork : P.fork x.src (recvfrom Server.requestBufferLength stale datagram).1
        (recvfrom Server.requestBufferLength stale datagram).2 = (server, ds)) :
      Ordered net (.serve k stale datagram childAddr) { net with
        children := net.children ++ [⟨childAddr, x.src, server⟩]
        toServer := net.toServer.eraseIdx k
        toRcopy := net.toRcopy ++ ds.map (Sent.mk childAddr) }
  | child {k : Nat} {i : ServerInput} {addr client : Addr} {s s' : Server} {ds : List Datagram}
      {queue : List Sent} (hk : net.children[k]? = some ⟨addr, client, some s⟩)
      (htake : takeAt addr (Rejected P.serverOrder (pduHeaderLen + rcopyResponsesPacketLength))
        i.answer net.toServer = some queue)
      (hstep : s.step P.serverOrder i = some (.ok (s', ds))) :
      Ordered net (.child k i) { net with
        children := net.children.set k ⟨addr, client, some s'⟩
        toServer := queue
        toRcopy := net.toRcopy ++ ds.map (Sent.mk addr) }
  | filename {p : Poll} {newSocket : Addr} {r : RcopySetup} {xs queue : List Sent}
      (hwaits : net.rcopy.state = .filename)
      (htake : takeAt net.rcopy.clientSocket (Damaged P.rcopyOrder (pduHeaderLen + P.bufferSize)) p
        net.toRcopy = some queue)
      (hfresh : P.Fresh net newSocket)
      (hfilename : net.rcopy.filename P.rcopyOrder P.bufferSize P.serverAddr newSocket p
        = (r, xs)) :
      Ordered net (.filename p newSocket) { net with
        rcopy := r
        toServer := net.toServer ++ xs
        toRcopy := queue
        opened := if r.clientSocket = net.rcopy.clientSocket then net.opened
          else net.opened ++ [r.clientSocket]
        requests := net.requests ++ xs }
  | fileOkay {r : Rcopy} (hstate : net.rcopy.state = .fileOkay) (hnone : net.transfer = none)
      (hstart : Rcopy.start P.windowSize P.bufferSize net.rcopy.sequenceNumber
        net.rcopy.serverAddress = .ok r) :
      Ordered net .fileOkay { net with transfer := some r }
  | transfer {i : RcopyInput} {r r' : Rcopy} {ds : List Datagram} {queue : List Sent}
      (hr : net.transfer = some r)
      (htake : takeAt net.rcopy.clientSocket
        (Rejected P.rcopyOrder (pduHeaderLen + P.bufferSize)) i.answer net.toRcopy = some queue)
      (hstep : r.step P.rcopyOrder i = some (.ok (r', ds))) :
      Ordered net (.transfer i) { net with
        transfer := some r'
        toServer := net.toServer ++ ds.map (Sent.mk net.rcopy.clientSocket)
        toRcopy := queue }

section
variable {P} {net net' : SessionNet}

theorem ordered_of_fifoNext {e : SessionEvent}
    (hstep : P.fifoNext net (.session e) = some net') : P.Ordered net e net' := by
  simp only [fifoNext] at hstep
  split at hstep
  · next net₁ k i hnext =>
      split at hstep
      · next c hk =>
          obtain ⟨queue, htake, rfl⟩ := Option.map_eq_some_iff.mp hstep
          simp only [next, hk] at hnext
          split at hnext
          · next addr client s heq =>
              cases heq
              split at hnext
              · split at hnext
                · next s' ds hserver =>
                    cases hnext
                    exact .child hk htake hserver
                · cases hnext
              · cases hnext
          · cases hnext
      · cases hstep
  · next net₁ p newSocket hnext =>
      obtain ⟨queue, htake, rfl⟩ := Option.map_eq_some_iff.mp hstep
      simp only [next] at hnext
      split at hnext
      · next hwaits =>
          cases hnext
          exact .filename hwaits.1 htake hwaits.2.2 rfl
      · cases hnext
  · next net₁ i hnext =>
      obtain ⟨queue, htake, rfl⟩ := Option.map_eq_some_iff.mp hstep
      simp only [next] at hnext
      split at hnext
      · next r hr =>
          split at hnext
          · split at hnext
            · next r' ds hrcopy =>
                cases hnext
                exact .transfer hr htake hrcopy
            · cases hnext
          · cases hnext
      · cases hnext
  · next net₁ k stale datagram childAddr hnext =>
      cases hstep
      simp only [next] at hnext
      split at hnext
      · next x hk =>
          split at hnext
          · next hrecv =>
              cases hnext
              exact .serve hk hrecv.1 hrecv.2 rfl
          · cases hnext
      · cases hnext
  · next net₁ hnext =>
      cases hstep
      simp only [next] at hnext
      split at hnext
      · next hokay =>
          split at hnext
          · next r hstart =>
              cases hnext
              exact .fileOkay hokay.1 hokay.2 hstart
          · cases hnext
      · cases hnext
  · cases hstep

theorem arrives_of_takeAt {addr : Addr} {corrupt : Bytes → Bytes → Prop}
    [∀ stale datagram, Decidable (corrupt stale datagram)] {p : Poll} {queue queue' : List Sent}
    (h : takeAt addr corrupt p queue = some queue') : Arrives queue addr corrupt p := by
  rcases takeAt_cases h with ⟨htimeout, -⟩ | ⟨x, hfind, hreceived, -⟩
  · exact .inl htimeout
  · exact .inr ⟨x, List.mem_of_find?_eq_some hfind, hreceived⟩

theorem sublist_of_takeAt {addr : Addr} {corrupt : Bytes → Bytes → Prop}
    [∀ stale datagram, Decidable (corrupt stale datagram)] {p : Poll} {queue queue' : List Sent}
    (h : takeAt addr corrupt p queue = some queue') : queue'.Sublist queue := by
  rcases takeAt_cases h with ⟨-, rfl⟩ | ⟨x, -, -, rfl⟩
  · exact List.Sublist.refl _
  · exact List.eraseP_sublist

/-- What a step does is a step. -/
theorem fifoNext_of_ordered {e : SessionEvent} (h : P.Ordered net e net') :
    P.fifoNext net (.session e) = some net' := by
  cases h with
  | serve hk hreceived hfresh hfork =>
      simp only [fifoNext, next, hk, if_pos (And.intro hreceived hfresh), hfork]
  | child hk htake hstep =>
      simp only [fifoNext, next, hk, if_pos (arrives_of_takeAt htake), hstep, htake,
        Option.map_some]
  | filename hwaits htake hfresh hfilename =>
      simp only [fifoNext, next,
        if_pos (And.intro hwaits (And.intro (arrives_of_takeAt htake) hfresh)), hfilename, htake,
        Option.map_some]
  | fileOkay hstate hnone hstart =>
      simp only [fifoNext, next, if_pos (And.intro hstate hnone), hstart]
  | transfer hr htake hstep =>
      simp only [fifoNext, next, hr, if_pos (arrives_of_takeAt htake), hstep, htake,
        Option.map_some]

/-! ## Children and their peers -/

/-- What is lost or taken can only be missed. -/
theorem Paired.of_sublist (h : P.Paired net) {toServer toRcopy : List Sent}
    (hserver : toServer.Sublist net.toServer) (hrcopy : toRcopy.Sublist net.toRcopy) :
    P.Paired { net with toServer := toServer, toRcopy := toRcopy } := by
  have hpending : (P.pending toServer ++ (links net.children).map Prod.snd).Sublist
      (P.pending net.toServer ++ (links net.children).map Prod.snd) :=
    ((hserver.filter _).map _).append_right _
  constructor
  · exact h.asks
  · exact h.transfer
  · exact h.peer
  · exact h.addr
  · exact h.addrs
  · exact h.clients.sublist hpending
  · intro a ha
    exact h.opened a (hpending.subset ha)
  · intro x hx
    exact h.toRcopy x (hrcopy.subset hx)
  · intro x hx
    exact h.toServer x (hserver.subset hx)
  · exact h.server

theorem client_of_fork {client : Addr} {buf : Bytes} {recvLen : Nat} {server : Option Server}
    {ds : List Datagram} (h : P.fork client buf recvLen = (server, ds)) :
    (server.map Server.client).getD client = client ∧ ∀ d ∈ ds, d.dest = client := by
  have hserver : (P.fork client buf recvLen).1 = server := congrArg Prod.fst h
  have hds : (P.fork client buf recvLen).2 = ds := congrArg Prod.snd h
  rw [← hserver, ← hds]
  exact fork_client

theorem Paired.ordered (h : P.Paired net) {e : SessionEvent} (hstep : P.Ordered net e net') :
    P.Paired net' := by
  cases hstep with
  | @serve k stale datagram childAddr x hk hreceived hfresh server ds hfork =>
      obtain ⟨hserver, hds⟩ := client_of_fork hfork
      exact h.serve hk hreceived.1 hfresh hserver hds
  | child hk htake hstep =>
      exact (h.child hk (arrives_of_takeAt htake) hstep).of_sublist (sublist_of_takeAt htake)
        (List.Sublist.refl _)
  | filename hwaits htake hfresh hfilename =>
      exact (h.filename hwaits (arrives_of_takeAt htake) hfresh.2.1 hfilename).of_sublist
        (List.Sublist.refl _) (sublist_of_takeAt htake)
  | fileOkay hstate hnone hstart =>
      exact h.fileOkay hstate hnone (Rcopy.of_start hstart).2.2.2.2.2
  | transfer hr htake hstep =>
      exact (h.transferred hr (arrives_of_takeAt htake) hstep).of_sublist (List.Sublist.refl _)
        (sublist_of_takeAt htake)

theorem Paired.fifoStep (h : P.Paired net) {e : OrderedEvent} (hstep : P.fifo.step net e net') :
    P.Paired net' := by
  cases e with
  | session e => exact h.ordered (ordered_of_fifoNext hstep)
  | loseToServer k =>
      cases hstep
      exact h.of_sublist (List.eraseIdx_sublist _ _) (List.Sublist.refl _)
  | loseToRcopy k =>
      cases hstep
      exact h.of_sublist (List.Sublist.refl _) (List.eraseIdx_sublist _ _)

/-- A child is at one address. -/
theorem Paired.addr_ne (h : P.Paired net) {j k : Nat} {c c' : Forked}
    (hj : net.children[j]? = some c) (hk : net.children[k]? = some c') (hne : j ≠ k) :
    c.addr ≠ c'.addr := by
  intro heq
  have hj' : ((links net.children).map Prod.fst)[j]? = some c.addr := by
    rw [links, List.map_map, List.getElem?_map, hj]
    rfl
  have hk' : ((links net.children).map Prod.fst)[k]? = some c.addr := by
    rw [links, List.map_map, List.getElem?_map, hk, heq]
    rfl
  obtain ⟨hlt, -⟩ := List.getElem?_eq_some_iff.mp hj'
  exact hne ((List.getElem?_inj hlt h.addrs).mp (hj'.trans hk'.symm))

/-- A socket has one child only. -/
theorem Paired.addr_eq (h : P.Paired net) {addr addr' client : Addr}
    (hlink : (addr, client) ∈ links net.children) (hlink' : (addr', client) ∈ links net.children) :
    addr = addr' := by
  have hnodup := (List.nodup_append.mp h.clients).2.1
  exact congrArg Prod.fst (List.inj_on_of_nodup_map hnodup hlink hlink' rfl)

/-- And a child has one socket only. -/
theorem Paired.client_eq (h : P.Paired net) {addr client client' : Addr}
    (hlink : (addr, client) ∈ links net.children) (hlink' : (addr, client') ∈ links net.children) :
    client = client' :=
  congrArg Prod.snd (List.inj_on_of_nodup_map h.addrs hlink hlink' rfl)

end

end Session

end RemoteCopy

import RemoteCopy.Session
import Mathlib.Data.List.Nodup
import Mathlib.Data.List.Perm.Basic

/-!
# One child per transfer

Each socket of rcopy asks once, so at most one child is forked for it, and a child never hears from
another socket than the one it was forked for. `Session.Paired` is the invariant, and
`Session.peer_of_reachable` what follows: rcopy goes on with the only child that its socket has.
-/

namespace RemoteCopy

namespace Session

variable (P : Session)

/-! ## Sockets of rcopy -/

/-- Each socket that was opened has sent the request to the server once. -/
structure Asks (r : RcopySetup) (opened : List Addr) (requests : List Sent) : Prop where
  pduBuffer : RcopySetup.createRequest P.rcopyOrder P.windowSize P.bufferSize P.fromFile 0
    = .ok r.pduBuffer
  requests : requests = opened.map fun a => ⟨a, ⟨P.serverAddr, r.pduBuffer⟩⟩
  nodup : opened.Nodup
  length_le : opened.length ≤ 10
  clientSocket : r.clientSocket ∈ opened
  waits : r.state = .filename → opened.length = r.count + 1

section
variable {P} {r : RcopySetup} {opened : List Addr} {requests : List Sent}

theorem Asks.start {net : SessionNet} (h : P.Initial net) :
    P.Asks net.rcopy net.opened net.requests := by
  obtain ⟨pduBuffer, hcreate, hstart⟩ := C.bind_eq_ok.mp h.rcopy
  have hrcopy := Except.ok.inj hstart
  have hbuffer : net.rcopy.pduBuffer = pduBuffer := by rw [← hrcopy]
  have hserver : net.rcopy.serverAddress = P.serverAddr := by rw [← hrcopy]
  have hcount : net.rcopy.count = 0 := by rw [← hrcopy]
  rw [h.opened, h.requests]
  constructor
  · rw [hbuffer]
    exact hcreate
  · rw [RcopySetup.request, hserver]
    rfl
  · exact List.nodup_singleton _
  · simp
  · exact List.mem_singleton_self _
  · intro _
    rw [hcount]
    rfl

/-- The last request has been answered, or was the last. -/
theorem Asks.leave (h : P.Asks r opened requests) {state : SetupState} (hstate : state ≠ .filename)
    (src : Addr) (count : Nat) :
    P.Asks (.leave { r with count := count, serverAddress := src } state) opened requests :=
  ⟨h.pduBuffer, h.requests, h.nodup, h.length_le, h.clientSocket, fun hc => absurd hc hstate⟩

/-- Another socket asks, for the same file. -/
theorem Asks.retry (h : P.Asks r opened requests) (hwaits : r.state = .filename)
    (hcount : r.count + 1 ≠ 10) {newSocket : Addr} (hfresh : newSocket ∉ opened) (server : Addr) :
    P.Asks { r with count := r.count + 1, clientSocket := newSocket, serverAddress := server }
      (opened ++ [newSocket]) (requests ++ [⟨newSocket, ⟨P.serverAddr, r.pduBuffer⟩⟩]) := by
  have hlen := h.waits hwaits
  have hmax := h.length_le
  constructor
  · exact h.pduBuffer
  · rw [h.requests, List.map_append]
    rfl
  · rw [← List.concat_eq_append]
    exact h.nodup.concat hfresh
  · rw [List.length_append, List.length_singleton]
    omega
  · exact List.mem_append_right _ (List.mem_singleton_self _)
  · intro _
    rw [List.length_append, List.length_singleton, hlen]

end

/-! ## Children and their peers -/

/-- The sockets whose requests are on their way to the main port. -/
def pending (toServer : List Sent) : List Addr :=
  (toServer.filter fun x => x.datagram.dest = P.serverAddr).map Sent.src

/-- The sockets of the children, each with the one that it was forked for. -/
def links (children : List Forked) : List (Addr × Addr) := children.map fun c => (c.addr, c.client)

/-- Every socket of rcopy has asked for one child at most, which knows of no other socket; and once
rcopy has left `filename`, it knows of no other child than that of its socket. -/
structure Paired (net : SessionNet) : Prop where
  asks : P.Asks net.rcopy net.opened net.requests
  transfer : net.transfer ≠ none → net.rcopy.state = .fileOkay
  peer : ∀ c ∈ net.children, c.peer = c.client
  addr : ∀ c ∈ net.children, c.addr ≠ P.serverAddr
  addrs : ((links net.children).map Prod.fst).Nodup
  clients : (P.pending net.toServer ++ (links net.children).map Prod.snd).Nodup
  opened : ∀ a ∈ P.pending net.toServer ++ (links net.children).map Prod.snd, a ∈ net.opened
  toRcopy : ∀ x ∈ net.toRcopy, (x.src, x.datagram.dest) ∈ links net.children
  toServer : ∀ x ∈ net.toServer, x.datagram.dest = P.serverAddr ∨
    (net.rcopy.state = .fileOkay ∧ x.src = net.rcopy.clientSocket ∧
      (x.datagram.dest, x.src) ∈ links net.children)
  server : net.rcopy.state = .fileOkay →
    (net.serverAddress, net.rcopy.clientSocket) ∈ links net.children

/-! ### The requests that are on their way -/

section
variable {P} {toServer : List Sent}

theorem pending_cons {x : Sent} (hdest : x.datagram.dest = P.serverAddr) :
    P.pending (x :: toServer) = x.src :: P.pending toServer := by
  simp [pending, hdest]

theorem pending_append (xs : List Sent) :
    P.pending (toServer ++ xs) = P.pending toServer ++ P.pending xs := by
  rw [pending, List.filter_append, List.map_append]
  rfl

/-- What goes to other ports does not count. -/
theorem pending_append_of_ne {xs : List Sent} (h : ∀ x ∈ xs, x.datagram.dest ≠ P.serverAddr) :
    P.pending (toServer ++ xs) = P.pending toServer := by
  have hnone : P.pending xs = [] := by
    rw [pending, List.filter_eq_nil_iff.mpr fun x hx => by simpa using h x hx]
    rfl
  rw [pending_append, hnone, List.append_nil]

theorem pending_append_request {a : Addr} {bytes : Bytes} :
    P.pending (toServer ++ [⟨a, ⟨P.serverAddr, bytes⟩⟩]) = P.pending toServer ++ [a] := by
  rw [pending_append, pending_cons rfl]
  rfl

/-- A request that arrives is one of them, and no longer. -/
theorem pending_perm {k : Nat} {x : Sent} (hk : toServer[k]? = some x)
    (hdest : x.datagram.dest = P.serverAddr) :
    (x.src :: P.pending (toServer.eraseIdx k)).Perm (P.pending toServer) := by
  obtain ⟨hlt, rfl⟩ := List.getElem?_eq_some_iff.mp hk
  rw [← pending_cons hdest]
  exact ((List.getElem_cons_eraseIdx_perm hlt).filter _).map _

end

/-! ### Steps -/

section
variable {P} {net net' : SessionNet}

theorem Paired.initial (h : P.Initial net) : P.Paired net := by
  obtain ⟨pduBuffer, -, hstart⟩ := C.bind_eq_ok.mp h.rcopy
  have hrcopy := Except.ok.inj hstart
  have hstate : net.rcopy.state = .filename := by rw [← hrcopy]
  have hdest : net.rcopy.request.datagram.dest = P.serverAddr := by
    rw [RcopySetup.request, ← hrcopy]
  have hpending : P.pending net.toServer = [net.rcopy.clientSocket] := by
    rw [h.toServer, pending_cons hdest]
    rfl
  constructor
  · exact .start h
  · intro hc
    exact absurd h.transfer hc
  · simp [h.children]
  · simp [h.children]
  · simp [h.children, links]
  · simp [h.children, links, hpending]
  · simp [h.children, links, hpending, h.opened]
  · simp [h.toRcopy]
  · intro x hx
    rw [h.toServer, List.mem_singleton] at hx
    rw [hx]
    exact .inl hdest
  · intro hc
    cases hstate.symm.trans hc

theorem mem_links_append {children : List Forked} {p : Addr × Addr} (h : p ∈ links children)
    (c : Forked) : p ∈ links (children ++ [c]) := by
  rw [links, List.map_append]
  exact List.mem_append_left _ h

/-- The main process receives a request, of whatever length and form, and forks a child. -/
theorem Paired.serve (h : P.Paired net) {k : Nat} {x : Sent} (hk : net.toServer[k]? = some x)
    (hdest : x.datagram.dest = P.serverAddr) {childAddr : Addr} (hfresh : P.Fresh net childAddr)
    {server : Option Server} (hserver : (server.map Server.client).getD x.src = x.src)
    {ds : List Datagram} (hds : ∀ d ∈ ds, d.dest = x.src) :
    P.Paired { net with
      children := net.children ++ [⟨childAddr, x.src, server⟩]
      toServer := net.toServer.eraseIdx k
      toRcopy := net.toRcopy ++ ds.map (Sent.mk childAddr) } := by
  obtain ⟨hmain, -, hchildren⟩ := hfresh
  have hlinks : links (net.children ++ [⟨childAddr, x.src, server⟩])
      = links net.children ++ [(childAddr, x.src)] := by
    rw [links, List.map_append]
    rfl
  have hperm : (P.pending (net.toServer.eraseIdx k)
      ++ (links net.children ++ [(childAddr, x.src)]).map Prod.snd).Perm
      (P.pending net.toServer ++ (links net.children).map Prod.snd) := by
    rw [List.map_append, ← List.append_assoc]
    refine (List.perm_append_comm).trans ?_
    exact (pending_perm hk hdest).append_right _
  constructor
  · exact h.asks
  · exact h.transfer
  · intro c hc
    rcases List.mem_append.mp hc with hc | hc
    · exact h.peer c hc
    · rw [List.mem_singleton.mp hc]
      exact hserver
  · intro c hc
    rcases List.mem_append.mp hc with hc | hc
    · exact h.addr c hc
    · rw [List.mem_singleton.mp hc]
      exact hmain
  · show ((links (net.children ++ [_])).map Prod.fst).Nodup
    rw [hlinks, List.map_append, List.map_singleton, ← List.concat_eq_append]
    refine h.addrs.concat fun hmem => hchildren ?_
    rwa [links, List.map_map] at hmem
  · show (_ ++ (links (net.children ++ [_])).map Prod.snd).Nodup
    rw [hlinks]
    exact hperm.nodup_iff.mpr h.clients
  · intro a ha
    refine h.opened a (hperm.mem_iff.mp ?_)
    rw [← hlinks]
    exact ha
  · intro y hy
    rcases List.mem_append.mp hy with hy | hy
    · exact mem_links_append (h.toRcopy y hy) _
    · obtain ⟨d, hd, rfl⟩ := List.mem_map.mp hy
      show (childAddr, d.dest) ∈ links (net.children ++ [_])
      rw [hlinks, hds d hd]
      exact List.mem_append_right _ (List.mem_singleton_self _)
  · intro y hy
    refine (h.toServer y (List.mem_of_mem_eraseIdx hy)).imp_right fun hsent => ?_
    exact ⟨hsent.1, hsent.2.1, mem_links_append hsent.2.2 _⟩
  · intro hstate
    exact mem_links_append (h.server hstate) _

/-- What arrives at a child was sent by the socket it was forked for. -/
theorem Paired.src_eq (h : P.Paired net) {c : Forked} (hc : c ∈ net.children) {src : Addr}
    {stale datagram : Bytes} {corrupt : Bytes → Bytes → Prop}
    (hrecv : Arrives net.toServer c.addr corrupt (.received src stale datagram)) :
    src = c.client := by
  rcases hrecv with hrecv | ⟨x, hx, hdest, rfl, -⟩
  · cases hrecv
  · rcases h.toServer x hx with hmain | ⟨-, -, hlink⟩
    · exact absurd (hdest.symm.trans hmain) (h.addr c hc)
    · rw [hdest] at hlink
      have hlink' : (c.addr, c.client) ∈ links net.children :=
        List.mem_map_of_mem (f := fun c => (c.addr, c.client)) hc
      exact congrArg Prod.snd (List.inj_on_of_nodup_map h.addrs hlink hlink' rfl)

/-- What the state of a child is plays no part in whose child it is. -/
theorem links_set {children : List Forked} {k : Nat} {c c' : Forked} (hk : children[k]? = some c)
    (haddr : c'.addr = c.addr) (hclient : c'.client = c.client) :
    links (children.set k c') = links children := by
  obtain ⟨hlt, rfl⟩ := List.getElem?_eq_some_iff.mp hk
  calc links (children.set k c')
    _ = (links children).set k (c'.addr, c'.client) := List.map_set
    _ = (links children).set k (children[k].addr, children[k].client) := by rw [haddr, hclient]
    _ = links (children.set k children[k]) := List.map_set.symm
    _ = links children := by rw [List.set_getElem_self]

/-- A child takes a step. -/
theorem Paired.child (h : P.Paired net) {k : Nat} {addr client : Addr} {s s' : Server}
    (hk : net.children[k]? = some ⟨addr, client, some s⟩) {corrupt : Bytes → Bytes → Prop}
    {i : ServerInput} (hrecv : Arrives net.toServer addr corrupt i.answer) {ds : List Datagram}
    (hstep : s.step P.serverOrder i = some (.ok (s', ds))) :
    P.Paired { net with
      children := net.children.set k ⟨addr, client, some s'⟩
      toRcopy := net.toRcopy ++ ds.map (Sent.mk addr) } := by
  have hc := List.mem_of_getElem? hk
  have haddr : addr ≠ P.serverAddr := h.addr _ hc
  have hclient : s.client = client := h.peer _ hc
  have hclient' : s'.client = client := by
    rw [(Server.stepped hstep).client]
    cases i with
    | run readFails junk => exact hclient
    | poll p =>
        cases p with
        | timeout => exact hclient
        | received src stale datagram => exact h.src_eq hc hrecv
  have hlinks : links (net.children.set k ⟨addr, client, some s'⟩) = links net.children :=
    links_set hk rfl rfl
  constructor
  · exact h.asks
  · exact h.transfer
  · intro c' hc'
    rcases List.mem_or_eq_of_mem_set hc' with hc' | rfl
    · exact h.peer c' hc'
    · exact hclient'
  · intro c' hc'
    rcases List.mem_or_eq_of_mem_set hc' with hc' | rfl
    · exact h.addr c' hc'
    · exact haddr
  · rw [hlinks]
    exact h.addrs
  · rw [hlinks]
    exact h.clients
  · rw [hlinks]
    exact h.opened
  · intro x hx
    rw [hlinks]
    rcases List.mem_append.mp hx with hx | hx
    · exact h.toRcopy x hx
    · obtain ⟨d, hd, rfl⟩ := List.mem_map.mp hx
      show (addr, d.dest) ∈ _
      rw [Server.dest_of_step hstep hd, hclient']
      exact List.mem_map_of_mem (f := fun c : Forked => (c.addr, c.client)) hc
  · rw [hlinks]
    exact h.toServer
  · rw [hlinks]
    exact h.server

/-- What arrives at the current socket of rcopy was sent by a child that was forked for it. -/
theorem Paired.linked (h : P.Paired net) {src : Addr} {stale datagram : Bytes}
    {corrupt : Bytes → Bytes → Prop}
    (hrecv : Arrives net.toRcopy net.rcopy.clientSocket corrupt (.received src stale datagram)) :
    (src, net.rcopy.clientSocket) ∈ links net.children := by
  rcases hrecv with hrecv | ⟨x, hx, hdest, rfl, -⟩
  · cases hrecv
  · rw [← hdest]
    exact h.toRcopy x hx

/-- While rcopy waits in `filename` there is nothing but requests on the way to the server. -/
theorem Paired.requests_of_waits (h : P.Paired net) (hwaits : net.rcopy.state = .filename) :
    net.transfer = none ∧ ∀ x ∈ net.toServer, x.datagram.dest = P.serverAddr := by
  have hne : net.rcopy.state ≠ .fileOkay := by
    rw [hwaits]
    decide
  refine ⟨?_, fun x hx => ?_⟩
  · by_contra hsome
    exact hne (h.transfer hsome)
  · exact (h.toServer x hx).resolve_right fun hsent => hne hsent.1

/-- rcopy leaves `filename`, because of what a child has sent. -/
theorem Paired.leave (h : P.Paired net) (hwaits : net.rcopy.state = .filename)
    {state : SetupState} (hstate : state ≠ .filename) {src : Addr} (count : Nat)
    (hlink : state = .fileOkay → (src, net.rcopy.clientSocket) ∈ links net.children) :
    P.Paired { net with
      rcopy := .leave { net.rcopy with count := count, serverAddress := src } state } := by
  obtain ⟨hnone, hmain⟩ := h.requests_of_waits hwaits
  constructor
  · exact h.asks.leave hstate src count
  · intro hc
    exact absurd hnone hc
  · exact h.peer
  · exact h.addr
  · exact h.addrs
  · exact h.clients
  · exact h.opened
  · exact h.toRcopy
  · intro x hx
    exact .inl (hmain x hx)
  · rw [SessionNet.serverAddress, hnone]
    exact hlink

/-- rcopy asks again, from a socket that nobody knows. -/
theorem Paired.retry (h : P.Paired net) (hwaits : net.rcopy.state = .filename)
    (hcount : net.rcopy.count + 1 ≠ 10) {newSocket : Addr} (hfresh : newSocket ∉ net.opened) :
    P.Paired { net with
      rcopy := { net.rcopy with
        count := net.rcopy.count + 1, clientSocket := newSocket, serverAddress := P.serverAddr }
      toServer := net.toServer ++ [⟨newSocket, ⟨P.serverAddr, net.rcopy.pduBuffer⟩⟩]
      opened := net.opened ++ [newSocket]
      requests := net.requests ++ [⟨newSocket, ⟨P.serverAddr, net.rcopy.pduBuffer⟩⟩] } := by
  obtain ⟨hnone, hmain⟩ := h.requests_of_waits hwaits
  have hperm : (P.pending (net.toServer ++ [⟨newSocket, ⟨P.serverAddr, net.rcopy.pduBuffer⟩⟩])
      ++ (links net.children).map Prod.snd).Perm
      (newSocket :: (P.pending net.toServer ++ (links net.children).map Prod.snd)) := by
    rw [pending_append_request, ← List.cons_append]
    exact List.perm_append_comm.append_right _
  have hwaits' : net.rcopy.state ≠ .fileOkay := by
    rw [hwaits]
    decide
  constructor
  · exact h.asks.retry hwaits hcount hfresh P.serverAddr
  · intro hc
    exact absurd hnone hc
  · exact h.peer
  · exact h.addr
  · exact h.addrs
  · refine hperm.nodup_iff.mpr (List.nodup_cons.mpr ⟨?_, h.clients⟩)
    exact fun hmem => hfresh (h.opened _ hmem)
  · intro a ha
    rcases List.mem_cons.mp (hperm.mem_iff.mp ha) with rfl | ha
    · exact List.mem_append_right _ (List.mem_singleton_self _)
    · exact List.mem_append_left _ (h.opened a ha)
  · exact h.toRcopy
  · intro x hx
    rcases List.mem_append.mp hx with hx | hx
    · exact .inl (hmain x hx)
    · rw [List.mem_singleton.mp hx]
      exact .inl rfl
  · intro hc
    exact absurd hc hwaits'

theorem Paired.filename (h : P.Paired net) (hwaits : net.rcopy.state = .filename) {p : Poll}
    {corrupt : Bytes → Bytes → Prop}
    (hrecv : Arrives net.toRcopy net.rcopy.clientSocket corrupt p) {newSocket : Addr}
    (hfresh : newSocket ∉ net.opened) {r : RcopySetup} {xs : List Sent}
    (hfilename : net.rcopy.filename P.rcopyOrder P.bufferSize P.serverAddr newSocket p = (r, xs)) :
    P.Paired { net with
      rcopy := r
      toServer := net.toServer ++ xs
      opened := if r.clientSocket = net.rcopy.clientSocket then net.opened
        else net.opened ++ [r.clientSocket]
      requests := net.requests ++ xs } := by
  rcases net.rcopy.filename_socket P.rcopyOrder P.bufferSize P.serverAddr newSocket p with
    ⟨state, src, hstate, hanswer, count, heq⟩ | ⟨hcount, heq⟩
  · cases heq.symm.trans hfilename
    have hsame : (RcopySetup.leave { net.rcopy with count := count, serverAddress := src }
        state).clientSocket = net.rcopy.clientSocket := rfl
    rw [if_pos hsame, List.append_nil, List.append_nil]
    refine h.leave hwaits hstate count fun hokay => ?_
    obtain ⟨stale, datagram, rfl⟩ := hanswer hokay
    exact h.linked hrecv
  · cases heq.symm.trans hfilename
    have hne : newSocket ≠ net.rcopy.clientSocket := by
      rintro rfl
      exact hfresh h.asks.clientSocket
    rw [if_neg hne]
    exact h.retry hwaits hcount hfresh

/-- rcopy starts on the transfer. -/
theorem Paired.fileOkay (h : P.Paired net) (hstate : net.rcopy.state = .fileOkay)
    (hnone : net.transfer = none) {r : Rcopy}
    (hserver : r.serverAddress = net.rcopy.serverAddress) :
    P.Paired { net with transfer := some r } := by
  constructor
  · exact h.asks
  · intro _
    exact hstate
  · exact h.peer
  · exact h.addr
  · exact h.addrs
  · exact h.clients
  · exact h.opened
  · exact h.toRcopy
  · exact h.toServer
  · intro _
    show (r.serverAddress, _) ∈ _
    have hlink := h.server hstate
    rw [SessionNet.serverAddress, hnone] at hlink
    rw [hserver]
    exact hlink

/-- rcopy takes a step of the transfer. -/
theorem Paired.transferred (h : P.Paired net) {r r' : Rcopy} (hr : net.transfer = some r)
    {corrupt : Bytes → Bytes → Prop} {i : RcopyInput}
    (hrecv : Arrives net.toRcopy net.rcopy.clientSocket corrupt i.answer) {ds : List Datagram}
    (hstep : r.step P.rcopyOrder i = some (.ok (r', ds))) :
    P.Paired { net with
      transfer := some r'
      toServer := net.toServer ++ ds.map (Sent.mk net.rcopy.clientSocket) } := by
  have hstate : net.rcopy.state = .fileOkay := h.transfer (by rw [hr]; exact Option.some_ne_none r)
  obtain ⟨hserver', hdest⟩ := Rcopy.addressed_of_step hstep
  have hold : (r.serverAddress, net.rcopy.clientSocket) ∈ links net.children := by
    have hlink := h.server hstate
    rw [SessionNet.serverAddress, hr] at hlink
    exact hlink
  have hlink : (i.server r.serverAddress, net.rcopy.clientSocket) ∈ links net.children := by
    cases i with
    | flush write junk => exact hold
    | poll p write junk =>
        cases p with
        | timeout => exact hold
        | received src stale datagram =>
            exact h.linked hrecv
  have hpending : P.pending (net.toServer ++ ds.map (Sent.mk net.rcopy.clientSocket))
      = P.pending net.toServer := by
    refine pending_append_of_ne fun x hx => ?_
    obtain ⟨d, hd, rfl⟩ := List.mem_map.mp hx
    obtain ⟨c, hc, heq⟩ := List.mem_map.mp hlink
    have haddr : c.addr = i.server r.serverAddress := congrArg Prod.fst heq
    rw [hdest d hd, ← haddr]
    exact h.addr c hc
  constructor
  · exact h.asks
  · intro _
    exact hstate
  · exact h.peer
  · exact h.addr
  · exact h.addrs
  · rw [hpending]
    exact h.clients
  · rw [hpending]
    exact h.opened
  · exact h.toRcopy
  · intro x hx
    rcases List.mem_append.mp hx with hx | hx
    · exact h.toServer x hx
    · obtain ⟨d, hd, rfl⟩ := List.mem_map.mp hx
      refine .inr ⟨hstate, rfl, ?_⟩
      rw [hdest d hd]
      exact hlink
  · intro _
    show (r'.serverAddress, _) ∈ _
    rw [hserver']
    exact hlink

theorem Paired.step (h : P.Paired net) {e : SessionEvent} (hstep : P.next net e = some net') :
    P.Paired net' := by
  cases moved_of_next hstep with
  | serve hk hdest hfresh hserver hds => exact h.serve hk hdest hfresh hserver hds
  | child hk hrecv hserver => exact h.child hk hrecv hserver
  | filename hwaits hrecv hfresh hfilename => exact h.filename hwaits hrecv hfresh hfilename
  | fileOkay hstate hnone hserver => exact h.fileOkay hstate hnone hserver
  | transfer hr hrecv hrcopy => exact h.transferred hr hrecv hrcopy

/-! ## Every run -/

theorem paired_of_reachable (h : P.udp.Reachable net) : P.Paired net :=
  System.Reachable.invariant (fun _ => Paired.initial) (fun _ _ _ _ hs hstep => hs.step hstep) h

/-- A step forgets no child, and once `filename` has returned it leaves rcopy its socket. -/
theorem links_of_step {e : SessionEvent} (hstep : P.next net e = some net') :
    links net.children <+: links net'.children ∧
      (net.rcopy.state = .fileOkay → net'.rcopy = net.rcopy) := by
  cases moved_of_next hstep with
  | serve _ _ _ _ _ =>
      refine ⟨?_, fun _ => rfl⟩
      rw [links, links, List.map_append]
      exact List.prefix_append _ _
  | @child k addr client s s' _ _ _ hk _ _ =>
      have hlinks : links (net.children.set k ⟨addr, client, some s'⟩) = links net.children :=
        links_set hk rfl rfl
      exact ⟨hlinks.symm ▸ List.prefix_refl _, fun _ => rfl⟩
  | filename hwaits _ _ _ =>
      refine ⟨List.prefix_refl _, fun hokay => ?_⟩
      cases hwaits.symm.trans hokay
  | fileOkay _ _ _ => exact ⟨List.prefix_refl _, fun _ => rfl⟩
  | transfer _ _ _ => exact ⟨List.prefix_refl _, fun _ => rfl⟩

theorem links_of_leads (h : P.udp.Leads net net') :
    links net.children <+: links net'.children ∧
      (net.rcopy.state = .fileOkay → net'.rcopy = net.rcopy) := by
  induction h with
  | refl => exact ⟨List.prefix_refl _, fun _ => rfl⟩
  | tail _ hstep ih =>
      obtain ⟨e, hstep⟩ := hstep
      obtain ⟨hlinks, hrcopy⟩ := links_of_step hstep
      refine ⟨ih.1.trans hlinks, fun hokay => ?_⟩
      have hsame := ih.2 hokay
      rw [← hsame] at hokay ⊢
      exact hrcopy hokay

/-- The children with their peers are those of `links`. -/
theorem Paired.peers (h : P.Paired net) :
    net.children.map (fun c => (c.addr, c.peer)) = links net.children := by
  refine List.map_congr_left fun c hc => ?_
  rw [h.peer c hc]

theorem filter_eq_singleton {α β : Type} [DecidableEq β] {f : α → β} {l : List α}
    (h : (l.map f).Nodup) {x : α} (hx : x ∈ l) : (l.filter fun y => f y = f x) = [x] := by
  induction l with
  | nil => cases hx
  | cons a l ih =>
      rw [List.map_cons, List.nodup_cons] at h
      rcases List.mem_cons.mp hx with rfl | hx
      · have hnone : (l.filter fun y => f y = f x) = [] := by
          rw [List.filter_eq_nil_iff]
          intro y hy heq
          exact h.1 (of_decide_eq_true heq ▸ List.mem_map_of_mem hy)
        rw [List.filter_cons, if_pos (decide_eq_true rfl), hnone]
      · have hne : f a ≠ f x := fun heq => h.1 (heq ▸ List.mem_map_of_mem hx)
        rw [List.filter_cons, if_neg fun heq => hne (of_decide_eq_true heq)]
        exact ih h.2 hx

/-- There is one child only for each socket. -/
theorem Paired.filter_peer (h : P.Paired net) {addr client : Addr}
    (hlink : (addr, client) ∈ links net.children) :
    (net.children.filter fun c => c.peer = client).map Forked.addr = [addr] := by
  obtain ⟨c, hc, heq⟩ := List.mem_map.mp hlink
  cases heq
  have hclients : (net.children.map Forked.client).Nodup := by
    have hnodup := (List.nodup_append.mp h.clients).2.1
    rwa [links, List.map_map] at hnodup
  have hfilter : net.children.filter (fun c' => c'.peer = c.client)
      = net.children.filter fun c' => c'.client = c.client :=
    List.filter_congr fun c' hc' => by rw [h.peer c' hc']
  rw [hfilter, filter_eq_singleton hclients hc]
  rfl

/-- **One child per transfer.** Each socket that `filename` opens sends one request, to the main
port, and there are ten of them at most. Children are added and keep their peers. Once `filename`
has returned `FILE_OKAY`, one child and no other has the current socket as its peer, now and ever
after; its address is the server's address of rcopy, and whatever is sent to the socket is from
it. -/
theorem peer_of_reachable (h : P.udp.Reachable net) :
    (net.requests.map Sent.src = net.opened ∧ net.opened.Nodup ∧ net.opened.length ≤ 10 ∧
      ∀ x ∈ net.requests, x.datagram.dest = P.serverAddr ∧
        RcopySetup.createRequest P.rcopyOrder P.windowSize P.bufferSize P.fromFile 0
          = .ok x.datagram.bytes) ∧
    (∀ net', P.udp.Leads net net' → net.children.map (fun c => (c.addr, c.peer)) <+:
      net'.children.map fun c => (c.addr, c.peer)) ∧
    (net.rcopy.state = .fileOkay → ∃ addr, ∀ net', P.udp.Leads net net' →
      net'.rcopy.clientSocket = net.rcopy.clientSocket ∧ net'.serverAddress = addr ∧
      (net'.children.filter fun c => c.peer = net.rcopy.clientSocket).map Forked.addr = [addr] ∧
      ∀ x ∈ net'.toRcopy, x.datagram.dest = net.rcopy.clientSocket → x.src = addr) := by
  have hpaired := paired_of_reachable h
  have hasks := hpaired.asks
  refine ⟨⟨?_, hasks.nodup, hasks.length_le, fun x hx => ?_⟩, fun net' hleads => ?_,
    fun hokay => ⟨net.serverAddress, fun net' hleads => ?_⟩⟩
  · rw [hasks.requests, List.map_map]
    exact List.map_id _
  · rw [hasks.requests] at hx
    obtain ⟨a, -, rfl⟩ := List.mem_map.mp hx
    exact ⟨rfl, hasks.pduBuffer⟩
  · rw [hpaired.peers, (paired_of_reachable (h.leads hleads)).peers]
    exact (links_of_leads hleads).1
  · have hpaired' := paired_of_reachable (h.leads hleads)
    obtain ⟨hlinks, hsame⟩ := links_of_leads hleads
    have hrcopy := hsame hokay
    -- The child of now is still the only one for this socket.
    have hlink := hlinks.subset (hpaired.server hokay)
    have honly {addr : Addr} (haddr : (addr, net.rcopy.clientSocket) ∈ links net'.children) :
        addr = net.serverAddress := by
      have heq := (hpaired'.filter_peer haddr).symm.trans (hpaired'.filter_peer hlink)
      exact List.singleton_injective heq
    refine ⟨by rw [hrcopy], ?_, hpaired'.filter_peer hlink, fun x hx hdest => ?_⟩
    · have hserver := hpaired'.server (by rw [hrcopy]; exact hokay)
      rw [hrcopy] at hserver
      exact honly hserver
    · rw [← hdest] at honly
      exact honly (hpaired'.toRcopy x hx)

end

/-! ### A request that is late -/

/-- rcopy asks the server at 1 for a file of one block. -/
def smallSession : Session where
  files := Setup.filesOf [[42]] (by decide)
  fromFile := [97]
  windowSize := 1
  bufferSize := leastBufferSize
  serverOrder := .big
  rcopyOrder := .little
  serverAddr := 1

/-- The first request is on its way from a socket at 7. -/
def smallSessionNet : SessionNet where
  rcopy := Setup.smallSetupNet.rcopy
  transfer := none
  children := []
  toServer := [Setup.smallSetupNet.rcopy.request]
  toRcopy := []
  opened := [7]
  requests := [Setup.smallSetupNet.rcopy.request]

theorem initial_smallSessionNet : smallSession.Initial smallSessionNet where
  rcopy := (Setup.initial_smallSetupNet [[42]] (by decide)).rcopy
  transfer := rfl
  children := rfl
  toServer := rfl
  toRcopy := rfl
  opened := rfl
  requests := rfl

/-- The first request comes late, when rcopy has asked again from a socket at 8; children are forked
at 2 and 3, and the second one's answer arrives. -/
theorem peer_smallSessionNet : ∃ net, smallSession.udp.Reachable net ∧
    net.rcopy.state = .fileOkay ∧ net.rcopy.clientSocket = 8 ∧ net.opened = [7, 8] ∧
    net.children.map (fun c => (c.addr, c.peer)) = [(2, 7), (3, 8)] ∧
    (∃ addr, ∀ net', smallSession.udp.Leads net net' →
      net'.rcopy.clientSocket = net.rcopy.clientSocket ∧ net'.serverAddress = addr ∧
      (net'.children.filter fun c => c.peer = net.rcopy.clientSocket).map Forked.addr = [addr] ∧
      ∀ x ∈ net'.toRcopy, x.datagram.dest = net.rcopy.clientSocket → x.src = addr) := by
  have hinit : smallSession.udp.Reachable smallSessionNet := .init initial_smallSessionNet
  obtain ⟨net, hnet, hp⟩ := hinit.exists_of_run smallSession.next (fun _ e _ h => ⟨e, h⟩)
    [.filename .timeout 8,
      .serve 0 [] (encodePDU .little 0 filenameFlag (requestPayload 1 leastBufferSize [97])) 2,
      .serve 0 [] (encodePDU .little 0 filenameFlag (requestPayload 1 leastBufferSize [97])) 3,
      .filename (.received 3 [] (encodePDU .big 0 filenameResponseFlag [fileOk])) 9, .fileOkay]
    (fun net => decide (net.rcopy.state = .fileOkay ∧ net.rcopy.clientSocket = 8 ∧
      net.opened = [7, 8] ∧ net.children.map (fun c => (c.addr, c.peer)) = [(2, 7), (3, 8)]))
    (by decide +kernel)
  obtain ⟨hokay, hsocket, hopened, hpeers⟩ := of_decide_eq_true hp
  exact ⟨net, hnet, hokay, hsocket, hopened, hpeers, (peer_of_reachable hnet).2.2 hokay⟩

end Session

end RemoteCopy

import RemoteCopy.Handshake
import RemoteCopy.RcopySteps

/-!
# Sessions

rcopy from its first request on, with the main process of the server and all the children it
forks. Every retry makes another child, which starts to send at once, so children of abandoned
attempts are alive beside the one that rcopy goes on with. Requests arrive at most once, late or
never; of every other datagram nothing is assumed, so it may arrive any number of times. A socket
that is opened gets a port that was not used before.
-/

namespace RemoteCopy

/-- What rcopy was called with, and the server it is to ask. -/
structure Session where
  files : Files
  fromFile : Bytes
  windowSize : Int
  bufferSize : BufferSize
  serverOrder : ByteOrder
  rcopyOrder : ByteOrder
  serverAddr : Addr

/-- A child: its socket, whose request it was forked for, and its state once it sends the file. -/
structure Forked where
  addr : Addr
  client : Addr
  server : Option Server

/-- Whom the child sends to. -/
def Forked.peer (c : Forked) : Addr := (c.server.map Server.client).getD c.client

/-- The programs and the datagrams: requests until they arrive, and whatever else was ever sent.
`transfer` is rcopy after `file_okay`; `opened` and `requests` record the sockets that it has opened
and what it has sent in `filename`. -/
structure SessionNet where
  rcopy : RcopySetup
  transfer : Option Rcopy
  children : List Forked
  toServer : List Sent
  toRcopy : List Sent
  opened : List Addr
  requests : List Sent

/-- The server's address as rcopy has it. -/
def SessionNet.serverAddress (net : SessionNet) : Addr :=
  (net.transfer.map Rcopy.serverAddress).getD net.rcopy.serverAddress

/-- The main process receives a datagram and forks a child with a new socket; a child takes a step;
rcopy goes on from its poll in `filename`, with a new socket if it needs one; it starts on the
transfer; or it takes a step of that. -/
inductive SessionEvent where
  | serve (k : Nat) (stale datagram : Bytes) (childAddr : Addr)
  | child (k : Nat) (i : ServerInput)
  | filename (p : Poll) (newSocket : Addr)
  | fileOkay
  | transfer (i : RcopyInput)

/-- What answers the poll; without one there is nothing to wait for. -/
def ServerInput.answer : ServerInput → Poll
  | .run _ _ => .timeout
  | .poll p => p

def RcopyInput.answer : RcopyInput → Poll
  | .poll p _ _ => p
  | .flush _ _ => .timeout

/-- What a poll at `addr` receives, if anything, was sent there. -/
def Arrives (sent : List Sent) (addr : Addr) (corrupt : Bytes → Bytes → Prop) (p : Poll) : Prop :=
  p = .timeout ∨ ∃ x ∈ sent, x.ReceivedAs addr corrupt p

instance (sent : List Sent) (addr : Addr) (corrupt : Bytes → Bytes → Prop)
    [∀ stale datagram, Decidable (corrupt stale datagram)] :
    DecidablePred (Arrives sent addr corrupt) := fun _ =>
  inferInstanceAs (Decidable (_ ∨ ∃ x ∈ sent, _))

namespace Session

variable (P : Session)

/-! ## Steps -/

/-- The port was not used before. -/
def Fresh (net : SessionNet) (addr : Addr) : Prop :=
  addr ≠ P.serverAddr ∧ addr ∉ net.opened ∧ addr ∉ net.children.map Forked.addr

instance (net : SessionNet) : DecidablePred (P.Fresh net) := fun _ =>
  inferInstanceAs (Decidable (_ ∧ _ ∧ _))

/-- `filename` of a child for the request of `client`: the child that sends the file, if it comes to
that, and the answer. -/
def fork (client : Addr) (buf : Bytes) (recvLen : Nat) : Option Server × List Datagram :=
  match Server.filename P.serverOrder P.files client buf recvLen with
  | .ok (some opened, ds) =>
      ((Server.start opened.windowSize opened.bufSize opened.dataFile client).toOption, ds)
  | .ok (none, ds) => (none, ds)
  | .error _ => (none, [])

/-- The steps are computed. Whatever arrives at the main port is taken from `toServer`, and a child
is forked for it. -/
def next (net : SessionNet) : SessionEvent → Option SessionNet
  | .serve k stale datagram childAddr =>
      match net.toServer[k]? with
      | some x =>
          if x.ReceivedAs P.serverAddr (Rejected P.serverOrder Server.requestBufferLength)
              (.received x.src stale datagram) ∧ P.Fresh net childAddr then
            let (buf, recvLen) := recvfrom Server.requestBufferLength stale datagram
            let (server, ds) := P.fork x.src buf recvLen
            some { net with
              children := net.children ++ [⟨childAddr, x.src, server⟩]
              toServer := net.toServer.eraseIdx k
              toRcopy := net.toRcopy ++ ds.map (Sent.mk childAddr) }
          else none
      | none => none
  | .child k i =>
      match net.children[k]? with
      | some ⟨addr, client, some s⟩ =>
          if Arrives net.toServer addr
              (Rejected P.serverOrder (pduHeaderLen + rcopyResponsesPacketLength)) i.answer then
            match s.step P.serverOrder i with
            | some (.ok (s, ds)) => some { net with
                children := net.children.set k ⟨addr, client, some s⟩
                toRcopy := net.toRcopy ++ ds.map (Sent.mk addr) }
            | _ => none
          else none
      | _ => none
  | .filename p newSocket =>
      if net.rcopy.state = .filename ∧ Arrives net.toRcopy net.rcopy.clientSocket
          (Damaged P.rcopyOrder (pduHeaderLen + P.bufferSize)) p ∧ P.Fresh net newSocket then
        let (r, xs) := net.rcopy.filename P.rcopyOrder P.bufferSize P.serverAddr newSocket p
        some { net with
          rcopy := r
          toServer := net.toServer ++ xs
          opened := if r.clientSocket = net.rcopy.clientSocket then net.opened
            else net.opened ++ [r.clientSocket]
          requests := net.requests ++ xs }
      else none
  | .fileOkay =>
      if net.rcopy.state = .fileOkay ∧ net.transfer = none then
        match Rcopy.start P.windowSize P.bufferSize net.rcopy.sequenceNumber
            net.rcopy.serverAddress with
        | .ok r => some { net with transfer := some r }
        | .error _ => none
      else none
  | .transfer i =>
      match net.transfer with
      | some r =>
          if Arrives net.toRcopy net.rcopy.clientSocket
              (Rejected P.rcopyOrder (pduHeaderLen + P.bufferSize)) i.answer then
            match r.step P.rcopyOrder i with
            | some (.ok (r, ds)) => some { net with
                transfer := some r
                toServer := net.toServer ++ ds.map (Sent.mk net.rcopy.clientSocket) }
            | _ => none
          else none
      | none => none

/-- rcopy has opened its first socket and sent its first request. -/
structure Initial (net : SessionNet) : Prop where
  rcopy : RcopySetup.start P.rcopyOrder P.windowSize P.bufferSize P.fromFile P.serverAddr
    net.rcopy.clientSocket = .ok net.rcopy
  transfer : net.transfer = none
  children : net.children = []
  toServer : net.toServer = [net.rcopy.request]
  toRcopy : net.toRcopy = []
  opened : net.opened = [net.rcopy.clientSocket]
  requests : net.requests = [net.rcopy.request]

def udp : System SessionNet SessionEvent where
  init := P.Initial
  step net e net' := P.next net e = some net'

/-- What a step of the network does. -/
inductive Moved (net : SessionNet) : SessionNet → Prop
  | serve {k : Nat} {x : Sent} {childAddr : Addr} {server : Option Server} {ds : List Datagram}
      (hk : net.toServer[k]? = some x) (hdest : x.datagram.dest = P.serverAddr)
      (hfresh : P.Fresh net childAddr) (hserver : (server.map Server.client).getD x.src = x.src)
      (hds : ∀ d ∈ ds, d.dest = x.src) :
      Moved net { net with
        children := net.children ++ [⟨childAddr, x.src, server⟩]
        toServer := net.toServer.eraseIdx k
        toRcopy := net.toRcopy ++ ds.map (Sent.mk childAddr) }
  | child {k : Nat} {addr client : Addr} {s s' : Server} {i : ServerInput} {ds : List Datagram}
      {corrupt : Bytes → Bytes → Prop}
      (hk : net.children[k]? = some ⟨addr, client, some s⟩)
      (hrecv : Arrives net.toServer addr corrupt i.answer)
      (hstep : s.step P.serverOrder i = some (.ok (s', ds))) :
      Moved net { net with
        children := net.children.set k ⟨addr, client, some s'⟩
        toRcopy := net.toRcopy ++ ds.map (Sent.mk addr) }
  | filename {p : Poll} {newSocket : Addr} {r : RcopySetup} {xs : List Sent}
      {corrupt : Bytes → Bytes → Prop} (hwaits : net.rcopy.state = .filename)
      (hrecv : Arrives net.toRcopy net.rcopy.clientSocket corrupt p)
      (hfresh : newSocket ∉ net.opened)
      (hfilename : net.rcopy.filename P.rcopyOrder P.bufferSize P.serverAddr newSocket p
        = (r, xs)) :
      Moved net { net with
        rcopy := r
        toServer := net.toServer ++ xs
        opened := if r.clientSocket = net.rcopy.clientSocket then net.opened
          else net.opened ++ [r.clientSocket]
        requests := net.requests ++ xs }
  | fileOkay {r : Rcopy} (hstate : net.rcopy.state = .fileOkay) (hnone : net.transfer = none)
      (hserver : r.serverAddress = net.rcopy.serverAddress) :
      Moved net { net with transfer := some r }
  | transfer {r r' : Rcopy} {i : RcopyInput} {ds : List Datagram}
      {corrupt : Bytes → Bytes → Prop} (hr : net.transfer = some r)
      (hrecv : Arrives net.toRcopy net.rcopy.clientSocket corrupt i.answer)
      (hstep : r.step P.rcopyOrder i = some (.ok (r', ds))) :
      Moved net { net with
        transfer := some r'
        toServer := net.toServer ++ ds.map (Sent.mk net.rcopy.clientSocket) }

section
variable {P} {net net' : SessionNet}

/-- A child is forked for the request of `client`, sends to it, and knows of no other. -/
theorem fork_client {client : Addr} {buf : Bytes} {recvLen : Nat} :
    (((P.fork client buf recvLen).1.map Server.client).getD client = client) ∧
      ∀ d ∈ (P.fork client buf recvLen).2, d.dest = client := by
  unfold fork
  split
  · next opened ds hfilename =>
      refine ⟨?_, fun d hd => Server.dest_of_filename hfilename hd⟩
      cases hstart : Server.start opened.windowSize opened.bufSize opened.dataFile client with
      | error e => rfl
      | ok s => exact (Server.of_start hstart).2.2.2.2
  · next ds hfilename => exact ⟨rfl, fun d hd => Server.dest_of_filename hfilename hd⟩
  · exact ⟨rfl, fun d hd => (by cases hd)⟩

theorem moved_of_next {e : SessionEvent} (hstep : P.next net e = some net') :
    P.Moved net net' := by
  cases e with
  | serve k stale datagram childAddr =>
      simp only [next] at hstep
      split at hstep
      · next x hk =>
          split at hstep
          · next hrecv =>
              cases hstep
              obtain ⟨hserver, hds⟩ := fork_client
              exact .serve hk hrecv.1.1 hrecv.2 hserver hds
          · cases hstep
      · cases hstep
  | child k i =>
      simp only [next] at hstep
      split at hstep
      · next addr client s hk =>
          split at hstep
          · next hrecv =>
              split at hstep
              · next s' ds hserver =>
                  cases hstep
                  exact .child hk hrecv hserver
              · cases hstep
          · cases hstep
      · cases hstep
  | filename p newSocket =>
      simp only [next] at hstep
      split at hstep
      · next hwaits =>
          cases hstep
          exact .filename hwaits.1 hwaits.2.1 hwaits.2.2.2.1 rfl
      · cases hstep
  | fileOkay =>
      simp only [next] at hstep
      split at hstep
      · next hokay =>
          split at hstep
          · next r hstart =>
              cases hstep
              exact .fileOkay hokay.1 hokay.2 (Rcopy.of_start hstart).2.2.2.2.2
          · cases hstep
      · cases hstep
  | transfer i =>
      simp only [next] at hstep
      split at hstep
      · next r hr =>
          split at hstep
          · next hrecv =>
              split at hstep
              · next r' ds hrcopy =>
                  cases hstep
                  exact .transfer hr hrecv hrcopy
              · cases hstep
          · cases hstep
      · cases hstep

end

end Session

end RemoteCopy

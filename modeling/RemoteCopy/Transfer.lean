import RemoteCopy.Server
import RemoteCopy.RcopySteps

/-!
# The data phase: one child, one rcopy and the network between them

A `Transfer` fixes what the setup phase has agreed on and what the file is. Its data phase is a
transition system over the states of the two programs and of the network, in two versions: UDP,
where whatever was sent may be delivered any number of times, at any time and in any order, or not
at all (`Transfer.udp`); and a channel that only loses datagrams (`Transfer.fifo`). In both,
datagrams that `processPDU` rejects stand for what corruption makes of others, polls time out at
any moment, and a program that reaches something undefined takes no further step.
-/

namespace RemoteCopy

/-- What the two sides have agreed on when the data phase starts, and the file as `read` will cut
it. -/
structure Transfer where
  windowSize : Nat
  bufferSize : BufferSize
  blocks : List Bytes
  serverOrder : ByteOrder
  rcopyOrder : ByteOrder
  serverAddr : Addr
  rcopyAddr : Addr
  sequenceNumber : UInt32
  windowSize_pos : 0 < windowSize
  blocks_fit : ∀ block ∈ blocks, block ≠ [] ∧ block.length ≤ bufferSize
  range : blocks.length + windowSize < 2147483648

/-- The two programs, and the datagrams on their way to each. -/
structure Net where
  server : Server
  rcopy : Rcopy
  toRcopy : List Datagram
  toServer : List Datagram

/-- Which program takes a step and on what, or which datagram is lost. -/
inductive Event where
  | server (i : ServerInput)
  | rcopy (i : RcopyInput)
  | loseToRcopy (position : Nat)
  | loseToServer (position : Nat)

/-- The child receives no datagram in this step. -/
def ServerInput.Silent : ServerInput → Prop
  | .poll (.received _ _ _) => False
  | _ => True

instance : DecidablePred ServerInput.Silent
  | .run _ _ => isTrue trivial
  | .poll .timeout => isTrue trivial
  | .poll (.received _ _ _) => isFalse id

/-- The receiver receives no datagram in this step. -/
def RcopyInput.Silent : RcopyInput → Prop
  | .poll (.received _ _ _) _ _ => False
  | _ => True

instance : DecidablePred RcopyInput.Silent
  | .flush _ _ => isTrue trivial
  | .poll .timeout _ _ => isTrue trivial
  | .poll (.received _ _ _) _ _ => isFalse id

namespace Transfer

variable (P : Transfer)

/-- Fresh windows, and no datagram in flight. -/
structure Initial (net : Net) : Prop where
  server : Server.start P.windowSize P.bufferSize P.blocks P.rcopyAddr = .ok net.server
  rcopy : Rcopy.start P.windowSize P.bufferSize P.sequenceNumber P.serverAddr = .ok net.rcopy
  toRcopy : net.toRcopy = []
  toServer : net.toServer = []

/-! ## Steps of the programs -/

/-- The child takes a step and sends `ds`. -/
def ServerSteps (net : Net) (i : ServerInput) (net' : Net) (ds : List Datagram) : Prop :=
  net.server.step P.serverOrder i = some (.ok (net'.server, ds)) ∧ net'.rcopy = net.rcopy

/-- The receiver takes a step and sends `ds`. -/
def RcopySteps (net : Net) (i : RcopyInput) (net' : Net) (ds : List Datagram) : Prop :=
  net.rcopy.step P.rcopyOrder i = some (.ok (net'.rcopy, ds)) ∧ net'.server = net.server ∧
    i.CompleteWrite

/-- What a poll of the child receives is `d`, or is rejected. -/
def ServerReceives (d : Datagram) : ServerInput → Prop
  | .poll (.received src stale datagram) => src = P.rcopyAddr ∧
      ((d.dest = P.serverAddr ∧ datagram = d.bytes) ∨
        Rejected P.serverOrder (pduHeaderLen + rcopyResponsesPacketLength) stale datagram)
  | _ => False

instance (d : Datagram) : DecidablePred (P.ServerReceives d)
  | .run _ _ => isFalse id
  | .poll .timeout => isFalse id
  | .poll (.received _ _ _) => inferInstanceAs (Decidable (_ ∧ (_ ∨ _)))

/-- What a poll of the receiver receives is `d`, or is rejected. -/
def RcopyReceives (d : Datagram) : RcopyInput → Prop
  | .poll (.received src stale datagram) _ _ => src = P.serverAddr ∧
      ((d.dest = P.rcopyAddr ∧ datagram = d.bytes) ∨
        Rejected P.rcopyOrder (pduHeaderLen + P.bufferSize) stale datagram)
  | _ => False

instance (d : Datagram) : DecidablePred (P.RcopyReceives d)
  | .flush _ _ => isFalse id
  | .poll .timeout _ _ => isFalse id
  | .poll (.received _ _ _) _ _ => inferInstanceAs (Decidable (_ ∧ (_ ∨ _)))

/-! ## The network -/

/-- UDP: `toRcopy` and `toServer` are what was ever sent. Each reception is of some datagram among
these, or of what corruption made of one. -/
def udp : System Net Event where
  init := P.Initial
  step net e net' :=
    match e with
    | .server i => ∃ ds, P.ServerSteps net i net' ds ∧
        (i.Silent ∨ ∃ d ∈ net.toServer, P.ServerReceives d i) ∧
        net'.toRcopy = net.toRcopy ++ ds ∧ net'.toServer = net.toServer
    | .rcopy i => ∃ ds, P.RcopySteps net i net' ds ∧
        (i.Silent ∨ ∃ d ∈ net.toRcopy, P.RcopyReceives d i) ∧
        net'.toServer = net.toServer ++ ds ∧ net'.toRcopy = net.toRcopy
    | .loseToRcopy _ | .loseToServer _ => net' = net

/-- From a queue a step takes nothing, or the oldest datagram. -/
def Takes (silent : Prop) (receives : Datagram → Prop) (queue queue' : List Datagram) : Prop :=
  (silent ∧ queue' = queue) ∨ ∃ d, receives d ∧ queue = d :: queue'

/-- The channel that keeps the order: `toRcopy` and `toServer` are queues, from which any datagram
may be lost. Each reception takes the oldest, or what corruption made of it. -/
def fifo : System Net Event where
  init := P.Initial
  step net e net' :=
    match e with
    | .server i => ∃ ds, P.ServerSteps net i net' ds ∧ net'.toRcopy = net.toRcopy ++ ds ∧
        Takes i.Silent (P.ServerReceives · i) net.toServer net'.toServer
    | .rcopy i => ∃ ds, P.RcopySteps net i net' ds ∧ net'.toServer = net.toServer ++ ds ∧
        Takes i.Silent (P.RcopyReceives · i) net.toRcopy net'.toRcopy
    | .loseToRcopy k => net' = { net with toRcopy := net.toRcopy.eraseIdx k }
    | .loseToServer k => net' = { net with toServer := net.toServer.eraseIdx k }

/-! ## Execution -/

/-- A step over UDP. -/
def udpNext (net : Net) : Event → Option Net
  | .server i =>
      if i.Silent ∨ ∃ d ∈ net.toServer, P.ServerReceives d i then
        match net.server.step P.serverOrder i with
        | some (.ok (s, ds)) => some { net with server := s, toRcopy := net.toRcopy ++ ds }
        | _ => none
      else none
  | .rcopy i =>
      if i.CompleteWrite ∧ (i.Silent ∨ ∃ d ∈ net.toRcopy, P.RcopyReceives d i) then
        match net.rcopy.step P.rcopyOrder i with
        | some (.ok (r, ds)) => some { net with rcopy := r, toServer := net.toServer ++ ds }
        | _ => none
      else none
  | .loseToRcopy _ | .loseToServer _ => some net

theorem udp_of_udpNext {net net' : Net} {e : Event} (h : P.udpNext net e = some net') :
    ∃ e, P.udp.step net e net' := by
  refine ⟨e, ?_⟩
  unfold udpNext at h
  split at h
  · split at h
    · next hrecv =>
        split at h
        · next s ds hstep =>
            cases h
            exact ⟨ds, ⟨hstep, rfl⟩, hrecv, rfl, rfl⟩
        · cases h
    · cases h
  · split at h
    · next hrecv =>
        split at h
        · next r ds hstep =>
            cases h
            exact ⟨ds, ⟨hstep, rfl, hrecv.1⟩, hrecv.2, rfl, rfl⟩
        · cases h
    · cases h
  · cases h
    rfl
  · cases h
    rfl

/-- The queue after a step has taken what it needs. -/
def take (silent : Prop) [Decidable silent] (receives : Datagram → Prop) [DecidablePred receives] :
    List Datagram → Option (List Datagram)
  | [] => if silent then some [] else none
  | d :: queue => if silent then some (d :: queue) else if receives d then some queue else none

theorem takes_of_take {silent : Prop} [Decidable silent] {receives : Datagram → Prop}
    [DecidablePred receives] {queue queue' : List Datagram}
    (h : take silent receives queue = some queue') : Takes silent receives queue queue' := by
  unfold take at h
  split at h
  · split at h
    · next hsilent =>
        cases h
        exact .inl ⟨hsilent, rfl⟩
    · cases h
  · split at h
    · next hsilent =>
        cases h
        exact .inl ⟨hsilent, rfl⟩
    · split at h
      · next d _ _ hreceives =>
          cases h
          exact .inr ⟨d, hreceives, rfl⟩
      · cases h

/-- A step over the channel that keeps the order. -/
def fifoNext (net : Net) : Event → Option Net
  | .server i =>
      match take i.Silent (P.ServerReceives · i) net.toServer, net.server.step P.serverOrder i with
      | some queue, some (.ok (s, ds)) =>
          some { net with server := s, toRcopy := net.toRcopy ++ ds, toServer := queue }
      | _, _ => none
  | .rcopy i =>
      if i.CompleteWrite then
        match take i.Silent (P.RcopyReceives · i) net.toRcopy, net.rcopy.step P.rcopyOrder i with
        | some queue, some (.ok (r, ds)) =>
            some { net with rcopy := r, toServer := net.toServer ++ ds, toRcopy := queue }
        | _, _ => none
      else none
  | .loseToRcopy k => some { net with toRcopy := net.toRcopy.eraseIdx k }
  | .loseToServer k => some { net with toServer := net.toServer.eraseIdx k }

theorem step_of_fifoNext {net net' : Net} {e : Event} (h : P.fifoNext net e = some net') :
    P.fifo.step net e net' := by
  unfold fifoNext at h
  split at h
  · split at h
    · next htake hstep =>
        cases h
        exact ⟨_, ⟨hstep, rfl⟩, rfl, takes_of_take htake⟩
    · cases h
  · split at h
    · next hwrite =>
        split at h
        · next htake hstep =>
            cases h
            exact ⟨_, ⟨hstep, rfl, hwrite⟩, rfl, takes_of_take htake⟩
        · cases h
    · cases h
  · cases h
    rfl
  · cases h
    rfl

theorem fifo_of_fifoNext {net net' : Net} {e : Event} (h : P.fifoNext net e = some net') :
    ∃ e, P.fifo.step net e net' :=
  ⟨e, P.step_of_fifoNext h⟩

/-! ### A transfer of one block -/

/-- A file of one block, and windows of two PDUs. -/
def smallTransfer : Transfer where
  windowSize := 2
  bufferSize := leastBufferSize
  blocks := [[1]]
  serverOrder := .little
  rcopyOrder := .big
  serverAddr := 8
  rcopyAddr := 7
  sequenceNumber := 0
  windowSize_pos := by decide
  blocks_fit := by decide
  range := by decide

def smallNet : Net where
  server := {
    point := .windowOpen
    window := smallWindow
    dataFile := [[1]]
    bufferSize := 108
    client := 7 }
  rcopy := {
    point := .inOrder
    window := smallWindow
    bufferSize := leastBufferSize
    outputFile := []
    sequenceNumber := 0
    serverAddress := 8 }
  toRcopy := []
  toServer := []

theorem initial_smallNet : smallTransfer.Initial smallNet := ⟨rfl, rfl, rfl, rfl⟩

end Transfer

end RemoteCopy

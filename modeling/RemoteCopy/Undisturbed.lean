import RemoteCopy.Recovery
import RemoteCopy.Library.Numbered

/-!
# The undisturbed transfer

Recovery shows that a disturbed transfer can still be completed; here nothing disturbs it, and it
*is* completed. Over a channel that keeps the order and neither loses nor damages anything, where a
poll that waits for the other side times out only once nothing more can come, every run of the data
phase ends, after at most `5 * N + 5` steps, and it ends with both programs through the EOF ACK and
the file delivered (`Transfer.completed_undisturbed`). No such poll ever times out.

The two queues carry the argument. What is on its way to the receiver are the datagrams from its
`current` up to that of the child, each once and in order, and what is on its way back are the
answers to those before them (`Transfer.Flowing`).
-/

namespace RemoteCopy

/-- The child is at a poll that lasts a second, or has ended. -/
def Server.Rests (s : Server) : Prop :=
  (∃ count, s.point = .windowClosed count ∨ s.point = .endOfFileWait count) ∨
    ∃ why, s.point = .done why

instance (s : Server) : Decidable s.Rests :=
  match hpoint : s.point with
  | .windowClosed count => isTrue (.inl ⟨count, .inl hpoint⟩)
  | .endOfFileWait count => isTrue (.inl ⟨count, .inr hpoint⟩)
  | .done why => isTrue (.inr ⟨why, hpoint⟩)
  | .windowOpen | .windowOpenPoll | .endOfFile => isFalse (by simp [Server.Rests, hpoint])

namespace Transfer

variable (P : Transfer)

/-- Nothing is on its way, and neither program does anything but wait. -/
structure Idle (net : Net) : Prop where
  server : net.server.Rests
  rcopy : net.rcopy.point ≠ .flush
  toRcopy : net.toRcopy = []
  toServer : net.toServer = []

instance (net : Net) : Decidable (Idle net) :=
  decidable_of_iff (net.server.Rests ∧ net.rcopy.point ≠ .flush ∧ net.toRcopy = [] ∧
    net.toServer = []) ⟨fun ⟨h₁, h₂, h₃, h₄⟩ => ⟨h₁, h₂, h₃, h₄⟩, fun ⟨h₁, h₂, h₃, h₄⟩ =>
    ⟨h₁, h₂, h₃, h₄⟩⟩

/-- What happens undisturbed: what is received is the oldest datagram as it was sent, no `read`
fails, and a poll that waits for an answer times out only if there is none to come. The poll between
two blocks does not wait. -/
def Undisturbed (net : Net) : Event → Prop
  | .server (.run readFails _) => readFails = false
  | .server (.poll .timeout) => net.server.point = .windowOpenPoll ∨ Idle net
  | .server (.poll (.received _ _ datagram)) =>
      net.toServer.head?.map Datagram.bytes = some datagram
  | .rcopy (.flush _ _) => True
  | .rcopy (.poll .timeout _ _) => Idle net
  | .rcopy (.poll (.received _ _ datagram) _ _) =>
      net.toRcopy.head?.map Datagram.bytes = some datagram
  | .loseToRcopy _ | .loseToServer _ => False

instance (net : Net) : DecidablePred (Undisturbed net)
  | .server (.run _ _) => inferInstanceAs (Decidable (_ = _))
  | .server (.poll .timeout) => inferInstanceAs (Decidable (_ ∨ _))
  | .server (.poll (.received _ _ _)) => inferInstanceAs (Decidable (_ = _))
  | .rcopy (.flush _ _) => isTrue trivial
  | .rcopy (.poll .timeout _ _) => inferInstanceAs (Decidable (Idle net))
  | .rcopy (.poll (.received _ _ _) _ _) => inferInstanceAs (Decidable (_ = _))
  | .loseToRcopy _ | .loseToServer _ => isFalse id

/-- The data phase over the channel that keeps the order, undisturbed. -/
def undisturbed : System Net Event := P.fifo.restrict Undisturbed

/-- Its steps, computed. -/
def undisturbedNext (net : Net) (e : Event) : Option Net :=
  if Undisturbed net e then P.fifoNext net e else none

theorem undisturbed_of_undisturbedNext {net net' : Net} {e : Event}
    (h : P.undisturbedNext net e = some net') : ∃ e, P.undisturbed.step net e net' := by
  unfold undisturbedNext at h
  split at h
  · next hundisturbed => exact ⟨e, hundisturbed, P.step_of_fifoNext h⟩
  · cases h

/-! ## The datagrams, numbered -/

/-- The datagram with number `k`: the block of that number, or the EOF behind the last. -/
def Carries (k : Nat) (d : Datagram) : Prop :=
  d.dest = P.rcopyAddr ∧ ∃ flag payload,
    d.bytes = encodePDU P.serverOrder (toUInt32 k) flag payload ∧
    ((flag = dataPacketFlag ∧ P.block k = some payload) ∨
      (flag = eofFlag ∧ k = P.blocks.length ∧ ∃ junk, payload = [junk]))

/-- What the receiver answers to it. -/
def answer (k : Nat) : Reply := if k < P.blocks.length then .rr (k + 1) else .eofAck

def Answers (k : Nat) (d : Datagram) : Prop :=
  d.dest = P.serverAddr ∧ (P.answer k).Encodes d.bytes

end Transfer

/-- How many datagrams the child has sent, each counted once; `K` are blocks. -/
def ServerPoint.sent (point : ServerPoint) (K : Nat) : Nat := if point.beforeEof then K else K + 1

/-- How many the child knows to have been received; `L` are blocks. -/
def ServerPoint.acknowledged (point : ServerPoint) (L : Nat) : Nat :=
  match point with
  | .done _ => L + 1
  | _ => L

/-- How many the receiver has taken in, the EOF included. -/
def Receiver.taken (a : Receiver) : Nat :=
  if a.point = .done .eofAck then a.current + 1 else a.current

/-- The child goes on, and has not timed out. -/
def ServerPoint.prompt : ServerPoint → Bool
  | .windowOpen | .windowOpenPoll | .endOfFile => true
  | .windowClosed count | .endOfFileWait count => count == 0
  | .done _ => false

/-- What is still to be done at a point, apart from the blocks and what is on its way. -/
def ServerPoint.weight : ServerPoint → Nat
  | .windowOpenPoll => 6
  | .windowOpen => 5
  | .windowClosed _ | .endOfFile => 4
  | .endOfFileWait _ | .done _ => 0

namespace Transfer

variable {P : Transfer}

/-- What is still to be done: blocks to be sent, received and acknowledged. -/
def remaining (P : Transfer) (net : Net) : Nat :=
  5 * (P.blocks.length - net.server.window.current.toNat) + 3 * net.toRcopy.length +
    2 * net.toServer.length + net.server.point.weight

/-- The invariant. Datagrams are numbered as the child sends them; those it has sent are received,
on their way, or not yet answered. -/
structure Flowing (P : Transfer) (net : Net) (L K : Nat) (m : Nat → Option Packet)
    (a : Receiver) : Prop where
  inOrder : P.InOrder net L K m a
  rcopyPoint : a.point = .inOrder ∨ a.point = .done .eofAck
  toRcopy : Numbered P.Carries a.taken (net.server.point.sent K) net.toRcopy
  toServer : Numbered P.Answers (net.server.point.acknowledged L) a.taken net.toServer
  serverPoint : net.server.point.prompt = true ∨ (net.server.point = .done .eofAck ∧ L = K)

end Transfer

/-! ## The child on its own -/

namespace Server

section
variable {o : ByteOrder} {s s' : Server} {n L K : Nat} {blocks : List Bytes}
  {m : Nat → Option Packet} {ds : List Datagram}

/-- What the child does between its polls. -/
theorem Holds.run_cases (h : s.Holds o n blocks L K m) (hsize : 0 < s.bufferSize) {junk : Byte}
    (hstep : s.step o (.run false junk) = some (.ok (s', ds))) :
    (s.point = .windowOpen ∧ ds = [] ∧
      (s' = { s with point := .windowClosed 0 } ∨ s' = { s with point := .endOfFile })) ∨
    (s.point = .windowOpen ∧ s'.point = .windowOpenPoll ∧ s'.window.current = (K + 1 : Nat) ∧
      s'.window.lower = L ∧ ∃ payload, blocks[K]? = some payload ∧
      ds = [⟨s.client, encodePDU o (toUInt32 K) dataPacketFlag payload⟩]) ∨
    (s.point = .endOfFile ∧ s'.point = .endOfFileWait 0 ∧ s'.window.current = K ∧
      s'.window.lower = L ∧ K = blocks.length ∧
      ds = [⟨s.client, encodePDU o (toUInt32 K) eofFlag [junk]⟩]) := by
  rcases point_of_step_run hstep with hpoint | hpoint
  · cases hopen : s.window.checkWindowOpen with
    | false =>
        rw [run_closed hpoint hopen] at hstep
        cases hstep
        exact .inl ⟨hpoint, rfl, .inl rfl⟩
    | true =>
        by_cases hfile : s.dataFile = []
        · rw [run_end hpoint hopen hsize hfile] at hstep
          cases hstep
          exact .inl ⟨hpoint, rfl, .inr rfl⟩
        · obtain ⟨payload, rest, hfile⟩ := List.exists_cons_of_ne_nil hfile
          rw [Server.run_block hpoint hopen hsize hfile, Option.some.injEq] at hstep
          obtain ⟨⟨w, buf⟩, hsend, hs'⟩ := C.bind_eq_ok.mp hstep
          cases hs'
          obtain ⟨hblock, -, rfl, packet, -, h'⟩ := h.sent hpoint hopen hfile hsend
          exact .inr (.inl ⟨hpoint, rfl, h'.current, h'.shows.lower, payload, hblock, rfl⟩)
  · rw [step_endOfFile hpoint, Option.some.injEq] at hstep
    obtain ⟨⟨w, buf⟩, hsend, hs'⟩ := C.bind_eq_ok.mp hstep
    cases hs'
    obtain ⟨hend, -, rfl, packet, -, h'⟩ := h.sentEof hpoint hsend
    exact .inr (.inr ⟨hpoint, rfl, h'.current, h'.shows.lower, hend, rfl⟩)

/-- The acknowledgement of one more datagram. -/
theorem Holds.rr_cases (h : s.Holds o n blocks L K m) (hpoll : s.Polls) {src : Addr}
    {stale datagram : Bytes}
    (hcontrol : receiveControl o stale datagram = .rr (L + 1 : Nat)) (hL : L + 1 + n < 2147483648)
    (hstep : s.step o (.poll (.received src stale datagram)) = some (.ok (s', ds))) :
    ds = [] ∧ s'.window.lower = (L + 1 : Nat) ∧ s'.window.current = K ∧
      ((s'.point = .windowOpen ∧
          (s.point = .windowOpenPoll ∨ ∃ count, s.point = .windowClosed count)) ∨
        (s'.point = .endOfFileWait 0 ∧ ∃ count, s.point = .endOfFileWait count)) := by
  have hmax : max L ((L + 1 : Nat) : Int).toNat = L + 1 := by
    rw [Int.toNat_natCast]
    omega
  have hrange : max L ((L + 1 : Nat) : Int).toNat + n < 2147483648 := by rw [hmax]; exact hL
  obtain ⟨w, hclean, hshows, hcurrent⟩ := cleaningUpWithRR_eq h.shows hrange
  rw [hmax] at hshows
  have hlower := hshows.lower
  rw [h.current] at hcurrent
  rcases hpoll with hpoint | ⟨count, hpoint⟩ | ⟨count, hpoint⟩
  · simp only [step_windowOpenPoll hpoint, windowOpenPoll, hcontrol, hclean] at hstep
    cases hstep
    exact ⟨rfl, hlower, hcurrent, .inl ⟨rfl, .inl hpoint⟩⟩
  · simp only [step_windowClosed hpoint, windowClosed, hcontrol, hclean] at hstep
    cases hstep
    exact ⟨rfl, hlower, hcurrent, .inl ⟨rfl, .inr ⟨count, hpoint⟩⟩⟩
  · simp only [step_endOfFileWait hpoint, Server.endOfFileWait, hcontrol, hclean] at hstep
    cases hstep
    exact ⟨rfl, hlower, hcurrent, .inr ⟨rfl, count, hpoint⟩⟩

end

end Server

/-! ## Steps -/

namespace Transfer

variable {P : Transfer}

section
variable {net net' : Net} {L K : Nat} {m : Nat → Option Packet} {a : Receiver}

theorem InOrder.holds (h : P.InOrder net L K m a) :
    net.server.Holds P.serverOrder P.windowSize P.blocks L K m := by
  obtain ⟨toRcopy, toServer, hjoint, -⟩ := h.joint
  exact hjoint.server

/-- A step without a reception leaves the queue as it is. -/
theorem queue_of_silent {i : ServerInput} {queue queue' : List Datagram}
    (h : Takes i.Silent (P.ServerReceives · i) queue queue') (hi : i.Silent) : queue' = queue := by
  rcases h with ⟨-, heq⟩ | ⟨d, hd, -⟩
  · exact heq
  · unfold ServerReceives at hd
    split at hd
    · exact hi.elim
    · exact hd.elim

/-- What the child receives undisturbed is the answer to the datagram that it waits for. -/
theorem Flowing.control (h : P.Flowing net L K m a) {d : Datagram} {queue : List Datagram}
    (hqueue : net.toServer = d :: queue) (stale : Bytes) :
    receiveControl P.serverOrder stale d.bytes
      = (P.answer (net.server.point.acknowledged L)).control := by
  obtain ⟨toRcopy, toServer, hjoint, -, hsub⟩ := h.inOrder.joint
  obtain ⟨⟨-, hencodes⟩, hlt, -⟩ := (hqueue ▸ h.toServer).of_cons
  have hfits : (P.answer (net.server.point.acknowledged L)).Fits := by
    have hrange := P.range
    unfold answer
    split
    · show _ < _
      omega
    · exact trivial
  exact (P.answer _).receiveControl_eq hencodes hfits _ _

/-- The child has moved on: it has sent the next datagram or none, and has taken the next answer or
none. -/
theorem Flowing.serverMoves (h : P.Flowing net L K m a) {L' K' : Nat} {m' : Nat → Option Packet}
    (hin : P.InOrder net' L' K' m' a)
    (hto : (net'.toRcopy = net.toRcopy ∧
        net'.server.point.sent K' = net.server.point.sent K) ∨
      ∃ d, net'.toRcopy = net.toRcopy ++ [d] ∧ P.Carries (net.server.point.sent K) d ∧
        net'.server.point.sent K' = net.server.point.sent K + 1)
    (hfrom : (net'.toServer = net.toServer ∧
        net'.server.point.acknowledged L' = net.server.point.acknowledged L) ∨
      ∃ d, net.toServer = d :: net'.toServer ∧
        net'.server.point.acknowledged L' = net.server.point.acknowledged L + 1)
    (hpoint : net'.server.point.prompt = true ∨ (net'.server.point = .done .eofAck ∧ L' = K')) :
    P.Flowing net' L' K' m' a where
  inOrder := hin
  rcopyPoint := h.rcopyPoint
  toRcopy := by
    rcases hto with ⟨hqueue, hsent⟩ | ⟨d, hqueue, hd, hsent⟩
    · rw [hqueue, hsent]
      exact h.toRcopy
    · rw [hqueue, hsent]
      exact h.toRcopy.snoc hd
  toServer := by
    rcases hfrom with ⟨hqueue, hack⟩ | ⟨d, hqueue, hack⟩
    · rw [hqueue, hack]
      exact h.toServer
    · rw [hack]
      exact (hqueue ▸ h.toServer).of_cons.2.2
  serverPoint := hpoint

/-- The child sends, or goes from one poll to the next. -/
theorem Flowing.run (h : P.Flowing net L K m a) {junk : Byte} {ds : List Datagram}
    (hstep : P.ServerSteps net (.run false junk) net' ds)
    (htakes : Takes (ServerInput.Silent (.run false junk))
      (P.ServerReceives · (.run false junk)) net.toServer net'.toServer)
    (hto : net'.toRcopy = net.toRcopy ++ ds) :
    (∃ L' K' m', P.Flowing net' L' K' m' a) ∧ P.remaining net' < P.remaining net := by
  obtain ⟨L', K', m', hin, -⟩ := h.inOrder.serverStep hstep htakes hto
  have hqueue := queue_of_silent htakes trivial
  have hholds := h.inOrder.holds
  have hlower := hholds.shows.lower
  have hlower' := hin.holds.shows.lower
  have hcurrent := hholds.current
  have hcurrent' := hin.holds.current
  obtain ⟨toRcopy, toServer, hjoint, -⟩ := h.inOrder.joint
  have hclient : net.server.client = P.rcopyAddr := hjoint.client
  rcases hholds.run_cases h.inOrder.bufferSize_pos hstep.1 with
    ⟨hpoint, rfl, hs | hs⟩ | ⟨hpoint, hpoint', hK, hL, payload, hblock, rfl⟩ |
    ⟨hpoint, hpoint', hK, hL, hend, rfl⟩
  · rw [hs] at hlower' hcurrent'
    obtain rfl : L' = L := Int.ofNat_inj.mp (hlower'.symm.trans hlower)
    obtain rfl : K' = K := Int.ofNat_inj.mp (hcurrent'.symm.trans hcurrent)
    rw [List.append_nil] at hto
    refine ⟨⟨_, _, m', h.serverMoves hin (.inl ⟨hto, ?_⟩) (.inl ⟨hqueue, ?_⟩) (.inl ?_)⟩, ?_⟩
    · rw [hs, hpoint]
      rfl
    · rw [hs, hpoint]
      rfl
    · rw [hs]
      rfl
    · simp only [remaining, hs, hto, hqueue, hpoint, ServerPoint.weight]
      omega
  · rw [hs] at hlower' hcurrent'
    obtain rfl : L' = L := Int.ofNat_inj.mp (hlower'.symm.trans hlower)
    obtain rfl : K' = K := Int.ofNat_inj.mp (hcurrent'.symm.trans hcurrent)
    rw [List.append_nil] at hto
    refine ⟨⟨_, _, m', h.serverMoves hin (.inl ⟨hto, ?_⟩) (.inl ⟨hqueue, ?_⟩) (.inl ?_)⟩, ?_⟩
    · rw [hs, hpoint]
      rfl
    · rw [hs, hpoint]
      rfl
    · rw [hs]
      rfl
    · simp only [remaining, hs, hto, hqueue, hpoint, ServerPoint.weight]
      omega
  · obtain rfl : L' = L := Int.ofNat_inj.mp (hlower'.symm.trans hL)
    obtain rfl : K' = K + 1 := Int.ofNat_inj.mp (hcurrent'.symm.trans hK)
    have hlt : K < P.blocks.length := (List.getElem?_eq_some_iff.mp hblock).1
    refine ⟨⟨_, _, m', h.serverMoves hin (.inr ⟨_, hto, ?_, ?_⟩) (.inl ⟨hqueue, ?_⟩) (.inl ?_)⟩, ?_⟩
    · rw [hpoint]
      exact ⟨hclient, _, _, rfl, .inl ⟨rfl, hblock⟩⟩
    · rw [hpoint, hpoint']
      rfl
    · rw [hpoint, hpoint']
      rfl
    · rw [hpoint']
      rfl
    · simp only [remaining, hK, hcurrent, hto, hqueue, hpoint, hpoint', ServerPoint.weight,
        List.length_append, List.length_singleton]
      omega
  · obtain rfl : L' = L := Int.ofNat_inj.mp (hlower'.symm.trans hL)
    obtain rfl : K' = K := Int.ofNat_inj.mp (hcurrent'.symm.trans hK)
    refine ⟨⟨_, _, m', h.serverMoves hin (.inr ⟨_, hto, ?_, ?_⟩) (.inl ⟨hqueue, ?_⟩) (.inl ?_)⟩, ?_⟩
    · rw [hpoint]
      exact ⟨hclient, _, _, rfl, .inr ⟨rfl, hend, junk, rfl⟩⟩
    · rw [hpoint, hpoint']
      rfl
    · rw [hpoint, hpoint']
      rfl
    · rw [hpoint']
      rfl
    · simp only [remaining, hK, hcurrent, hto, hqueue, hpoint, hpoint', ServerPoint.weight,
        List.length_append, List.length_singleton]
      omega

/-- When nothing more can come, everything has come. -/
theorem Flowing.completed_of_idle (h : P.Flowing net L K m a) (hidle : Idle net) :
    Completed net := by
  have hholds := h.inOrder.holds
  have hle := hholds.lower_le
  obtain ⟨toRcopy, toServer, hjoint, -⟩ := h.inOrder.joint
  have hcurrent := hjoint.current_le
  have hpoint : net.rcopy.point = a.point := hjoint.rcopy.point
  have hsent := h.toRcopy.eq_nil_iff.mp hidle.toRcopy
  have hack := h.toServer.eq_nil_iff.mp hidle.toServer
  rcases hidle.server with ⟨count, hserver | hserver⟩ | ⟨why, hserver⟩
  · -- The window is full, but nothing in it waits for an answer.
    rw [hserver] at hsent hack
    have hclosed := (hholds.poised.windowClosed count hserver).1
    have hopen : net.server.window.checkWindowOpen = true := by
      have hpos := hholds.shows.pos
      have heq : L = K := hack.trans hsent
      exact hholds.checkWindowOpen.mpr (by omega)
    rw [hclosed] at hopen
    cases hopen
  · rw [hserver] at hsent hack
    have heq : L = K + 1 := hack.trans hsent
    omega
  · rcases h.serverPoint with hprompt | ⟨hdone, rfl⟩
    · rw [hserver] at hprompt
      cases hprompt
    · refine ⟨hdone, hpoint.trans (h.rcopyPoint.resolve_left fun hrunning => ?_)⟩
      rw [hdone] at hsent
      have heq : a.taken = L + 1 := hsent
      rw [Receiver.taken, if_neg (by rw [hrunning]; exact fun hc => by cases hc)] at heq
      omega

/-- The poll between two blocks times out, and no other. -/
theorem Flowing.timeout (h : P.Flowing net L K m a) {ds : List Datagram}
    (hstep : P.ServerSteps net (.poll .timeout) net' ds)
    (htakes : Takes (ServerInput.Silent (.poll .timeout))
      (P.ServerReceives · (.poll .timeout)) net.toServer net'.toServer)
    (hto : net'.toRcopy = net.toRcopy ++ ds)
    (hundisturbed : net.server.point = .windowOpenPoll ∨ Idle net) :
    (∃ L' K' m', P.Flowing net' L' K' m' a) ∧ P.remaining net' < P.remaining net := by
  obtain ⟨L', K', m', hin, -⟩ := h.inOrder.serverStep hstep htakes hto
  have hqueue := queue_of_silent htakes trivial
  have hlower' := hin.holds.shows.lower
  have hcurrent' := hin.holds.current
  rcases hundisturbed with hpoint | hidle
  · have hrun := hstep.1
    rw [Server.poll_windowOpen hpoint] at hrun
    obtain ⟨hs, rfl⟩ := Prod.mk.inj (Except.ok.inj (Option.some.inj hrun))
    rw [← hs] at hlower' hcurrent'
    obtain rfl : L' = L := Int.ofNat_inj.mp (hlower'.symm.trans h.inOrder.holds.shows.lower)
    obtain rfl : K' = K := Int.ofNat_inj.mp (hcurrent'.symm.trans h.inOrder.holds.current)
    rw [List.append_nil] at hto
    refine ⟨⟨_, _, m', h.serverMoves hin (.inl ⟨hto, ?_⟩) (.inl ⟨hqueue, ?_⟩) (.inl ?_)⟩, ?_⟩
    · rw [← hs, hpoint]
      rfl
    · rw [← hs, hpoint]
      rfl
    · rw [← hs]
      rfl
    · simp only [remaining, ← hs, hto, hqueue, hpoint, ServerPoint.weight]
      omega
  · have hdone := (h.completed_of_idle hidle).1
    rcases Server.polls_of_step hstep.1 with hpoint | ⟨count, hpoint⟩ | ⟨count, hpoint⟩
    · cases hdone.symm.trans hpoint
    · cases hdone.symm.trans hpoint
    · cases hdone.symm.trans hpoint

/-- The child takes the next answer. -/
theorem Flowing.answered (h : P.Flowing net L K m a) {src : Addr} {stale datagram : Bytes}
    {ds : List Datagram}
    (hstep : P.ServerSteps net (.poll (.received src stale datagram)) net' ds)
    (htakes : Takes (ServerInput.Silent (.poll (.received src stale datagram)))
      (P.ServerReceives · (.poll (.received src stale datagram))) net.toServer net'.toServer)
    (hto : net'.toRcopy = net.toRcopy ++ ds)
    (hundisturbed : net.toServer.head?.map Datagram.bytes = some datagram) :
    (∃ L' K' m', P.Flowing net' L' K' m' a) ∧ P.remaining net' < P.remaining net := by
  obtain ⟨L', K', m', hin, -⟩ := h.inOrder.serverStep hstep htakes hto
  have hholds := h.inOrder.holds
  have hle := hholds.lower_le
  have hlength := hholds.le_length
  have hlower := hholds.shows.lower
  have hcurrent := hholds.current
  have hlower' := hin.holds.shows.lower
  have hcurrent' := hin.holds.current
  have hrange := P.range
  have hpolls := Server.polls_of_step hstep.1
  obtain ⟨d, -, hqueue⟩ := htakes.resolve_left fun hc => hc.1
  rw [hqueue] at hundisturbed
  obtain rfl : d.bytes = datagram := Option.some.inj hundisturbed
  have hshorter : net.toServer.length = net'.toServer.length + 1 := by
    rw [hqueue, List.length_cons]
  have hcontrol := h.control hqueue stale
  have hack : net.server.point.acknowledged L = L := by
    rcases hpolls with hpoint | ⟨count, hpoint⟩ | ⟨count, hpoint⟩ <;> rw [hpoint] <;> rfl
  rw [hack, answer] at hcontrol
  by_cases hlt : L < P.blocks.length
  · rw [if_pos hlt] at hcontrol
    obtain ⟨rfl, hL, hK, hpoint⟩ := hholds.rr_cases hpolls hcontrol (by omega) hstep.1
    obtain rfl : L' = L + 1 := Int.ofNat_inj.mp (hlower'.symm.trans hL)
    obtain rfl : K' = K := Int.ofNat_inj.mp (hcurrent'.symm.trans hK)
    rw [List.append_nil] at hto
    refine ⟨⟨_, _, m', h.serverMoves hin (.inl ⟨hto, ?_⟩) (.inr ⟨d, hqueue, ?_⟩) (.inl ?_)⟩, ?_⟩
    · rcases hpoint with ⟨hpoint', hpoint | ⟨count, hpoint⟩⟩ | ⟨hpoint', count, hpoint⟩ <;>
        rw [hpoint', hpoint] <;> rfl
    · rw [hack]
      rcases hpoint with ⟨hpoint', -⟩ | ⟨hpoint', -⟩ <;> rw [hpoint'] <;> rfl
    · rcases hpoint with ⟨hpoint', -⟩ | ⟨hpoint', -⟩ <;> rw [hpoint'] <;> rfl
    · simp only [remaining, hK, hcurrent, hto, hshorter]
      rcases hpoint with ⟨hpoint', hpoint | ⟨count, hpoint⟩⟩ | ⟨hpoint', count, hpoint⟩ <;>
        simp only [hpoint', hpoint, ServerPoint.weight] <;> omega
  · rw [if_neg hlt] at hcontrol
    -- Everything else is acknowledged, so the EOF is, and was sent.
    have hsent : L < net.server.point.sent K := by
      have hnext := (hqueue ▸ h.toServer).of_cons.2.1
      have htaken := h.toRcopy.le
      rw [hack] at hnext
      omega
    obtain ⟨count, hpoint⟩ : ∃ count, net.server.point = .endOfFileWait count := by
      rcases hpolls with hpoint | ⟨count, hpoint⟩ | hpoint
      · rw [hpoint] at hsent
        have hsent : L < K := hsent
        omega
      · rw [hpoint] at hsent
        have hsent : L < K := hsent
        omega
      · exact hpoint
    have hrun := hstep.1
    rw [Server.receive_eofAck hpoint src hcontrol] at hrun
    obtain ⟨hs, rfl⟩ := Prod.mk.inj (Except.ok.inj (Option.some.inj hrun))
    rw [← hs] at hlower' hcurrent'
    obtain rfl : L' = L := Int.ofNat_inj.mp (hlower'.symm.trans hlower)
    obtain rfl : K' = K := Int.ofNat_inj.mp (hcurrent'.symm.trans hcurrent)
    rw [List.append_nil] at hto
    refine ⟨⟨_, _, m', h.serverMoves hin (.inl ⟨hto, ?_⟩) (.inr ⟨d, hqueue, ?_⟩)
      (.inr ⟨by rw [← hs], by omega⟩)⟩, ?_⟩
    · rw [← hs, hpoint]
      rfl
    · rw [hack, ← hs]
      rfl
    · simp only [remaining, ← hs, hto, hshorter, hpoint, ServerPoint.weight]
      omega

/-- The receiver takes the datagram that it waits for, and answers it. -/
theorem Flowing.accepts (h : P.Flowing net L K m a) (hpoint : a.point = .inOrder) {d : Datagram}
    (hd : P.Carries a.current d) (stale : Bytes) (junk : Byte) :
    ∃ (r' : Rcopy) (d' : Datagram) (a' : Receiver), net.rcopy.step P.rcopyOrder
        (.poll (.received P.serverAddr stale d.bytes) .complete junk) = some (.ok (r', [d'])) ∧
      r'.point = a'.point ∧ r'.window.current = a'.current ∧
      (a'.point = .inOrder ∨ a'.point = .done .eofAck) ∧ a'.taken = a.current + 1 ∧
      P.Answers a.current d' := by
  obtain ⟨toRcopy, toServer, hjoint, -⟩ := h.inOrder.joint
  have hrefines : net.rcopy.Refines P.windowSize a := hjoint.rcopy
  have hsize : net.rcopy.bufferSize = P.bufferSize := hjoint.rcopySize
  have hnone : a.stored a.current = none := hjoint.assembles.inOrder hpoint a.current
  have hcurrent := hjoint.current_le
  have hlength := h.inOrder.holds.le_length
  have hpos := P.windowSize_pos
  have hrange := P.range
  have hbuffer := P.bufferSize.2
  have hnumber : (toUInt32 (a.current : Int)).toNat = a.current :=
    toNat_toUInt32_natCast (by omega)
  obtain ⟨-, flag, payload, hbytes, hcase⟩ := hd
  have hpayload : payload ≠ [] ∧ payload.length ≤ P.bufferSize := by
    rcases hcase with ⟨-, hblock⟩ | ⟨-, -, junk, rfl⟩
    · exact P.blocks_fit payload (List.mem_of_getElem? hblock)
    · refine ⟨List.cons_ne_nil _ _, ?_⟩
      rw [List.length_singleton]
      omega
  have hlen : d.bytes.length = pduHeaderLen + payload.length := by
    rw [hbytes, length_encodePDU]
  have hfits : d.bytes.length ≤ maxPduLen := by
    rw [hlen]
    simp only [pduHeaderLen, maxPduLen]
    omega
  have hacc : Accepted P.rcopyOrder d.bytes (toUInt32 (a.current : Int)) flag payload :=
    hbytes ▸ accepted_encodePDU _ _ _ _ (by omega)
  have haccept := hrefines.accept (o := P.rcopyOrder) (.inl hpoint) hnone hacc
    (by rw [hlen, hsize]; omega) hfits
  have hflag : (Packet.of (toUInt32 (a.current : Int)).toNat d.bytes hfits).flag = flag :=
    hacc.layout.2.1
  have hdata : (Packet.of (toUInt32 (a.current : Int)).toNat d.bytes hfits).payload = payload :=
    hacc.layout.2.2
  generalize Packet.of (toUInt32 (a.current : Int)).toNat d.bytes hfits = packet at *
  rw [hnumber] at haccept
  rcases hcase with ⟨hdataFlag, hblock⟩ | ⟨heof, hend, -⟩
  · have hlt : a.current < P.blocks.length := (List.getElem?_eq_some_iff.mp hblock).1
    rw [Receiver.accept_written hpoint rfl (by rw [hflag, hdataFlag]; decide)
      (hdata ▸ hpayload.1)] at haccept
    obtain ⟨y, hstep, r', ds, rfl, hrefines', hsends, -, -⟩ :=
      haccept (by omega) (by show a.current + 1 + _ < _; omega) P.serverAddr stale junk
    cases hsends with
    | cons hd' hnil =>
        cases hnil
        refine ⟨r', _, _, hstep, hrefines'.point, hrefines'.current, .inl hpoint, ?_, hd'.1, ?_⟩
        · rw [Receiver.taken, if_neg (by simp only [hpoint]; exact fun hc => by cases hc)]
        · rw [answer, if_pos hlt]
          exact hd'.2
  · have hack : a.accept a.current packet = ({ a with point := .done .eofAck }, [.eofAck]) := by
      simp only [Receiver.accept, hpoint, if_neg (Nat.lt_irrefl _), if_true, hflag, heof]
    rw [hack] at haccept
    obtain ⟨y, hstep, r', ds, rfl, hrefines', hsends, -, -⟩ :=
      haccept (by omega) (by show a.current + _ < _; omega) P.serverAddr stale junk
    cases hsends with
    | cons hd' hnil =>
        cases hnil
        refine ⟨r', _, _, hstep, hrefines'.point, hrefines'.current, .inr rfl, ?_, hd'.1, ?_⟩
        · rw [Receiver.taken, if_pos rfl]
        · rw [answer, if_neg (by omega)]
          exact hd'.2

/-- A receiver that polls is in order. -/
theorem Flowing.inOrder_of_step (h : P.Flowing net L K m a) {i : RcopyInput}
    {y : C (Rcopy × List Datagram)} (hstep : net.rcopy.step P.rcopyOrder i = some y) :
    a.point = .inOrder := by
  obtain ⟨toRcopy, toServer, hjoint, -⟩ := h.inOrder.joint
  have hpoint : net.rcopy.point = a.point := hjoint.rcopy.point
  exact h.rcopyPoint.resolve_right fun hdone =>
    Rcopy.step_done hstep .eofAck (hpoint.trans hdone)

/-- The receiver takes the next datagram. -/
theorem Flowing.rcopyStep (h : P.Flowing net L K m a) {i : RcopyInput} {ds : List Datagram}
    (hstep : P.RcopySteps net i net' ds)
    (htakes : Takes i.Silent (P.RcopyReceives · i) net.toRcopy net'.toRcopy)
    (hfrom : net'.toServer = net.toServer ++ ds) (hundisturbed : Undisturbed net (.rcopy i)) :
    (∃ a', P.Flowing net' L K m a') ∧ P.remaining net' < P.remaining net := by
  have hpoint := h.inOrder_of_step hstep.1
  obtain ⟨toRcopy, toServer, hjoint, -⟩ := h.inOrder.joint
  have hrcopy : net.rcopy.point = a.point := hjoint.rcopy.point
  cases i with
  | flush write junk =>
      have hrun := hstep.1
      rw [Rcopy.step_flush_none (by rw [hrcopy, hpoint]; exact fun hc => by cases hc)] at hrun
      cases hrun
  | poll p write junk =>
      obtain rfl : write = .complete := hstep.2.2
      cases p with
      | timeout =>
          have hdone := (h.completed_of_idle hundisturbed).2
          rw [hrcopy, hpoint] at hdone
          cases hdone
      | received src stale datagram =>
          obtain ⟨a', hin⟩ := h.inOrder.rcopyStep hstep htakes hfrom
          obtain ⟨d, ⟨rfl, -⟩, hqueue⟩ := htakes.resolve_left fun hc => hc.1
          have hundisturbed : net.toRcopy.head?.map Datagram.bytes = some datagram := hundisturbed
          rw [hqueue] at hundisturbed
          obtain rfl : d.bytes = datagram := Option.some.inj hundisturbed
          have htaken : a.taken = a.current := by
            rw [Receiver.taken, if_neg (by rw [hpoint]; exact fun hc => by cases hc)]
          have hflow := h.toRcopy
          have hback := h.toServer
          rw [htaken] at hback
          rw [htaken, hqueue] at hflow
          obtain ⟨hd, -, hrest⟩ := hflow.of_cons
          obtain ⟨r', d', a'', hrun, hpoint', hcurrent', hends, htaken', hanswers⟩ :=
            h.accepts hpoint hd stale junk
          have hran := Except.ok.inj (Option.some.inj (hrun.symm.trans hstep.1))
          obtain ⟨hr, rfl⟩ := Prod.mk.inj hran
          -- The abstract receiver of the invariant is this one, as far as the invariant goes.
          obtain ⟨toRcopy', toServer', hjoint', -⟩ := hin.joint
          have hrefines' : net'.rcopy.Refines P.windowSize a' := hjoint'.rcopy
          have hsame : a'.point = a''.point ∧ a'.current = a''.current := by
            refine ⟨hrefines'.point.symm.trans (hr ▸ hpoint'), ?_⟩
            exact Int.ofNat_inj.mp (hrefines'.current.symm.trans (hr ▸ hcurrent'))
          have htaken'' : a'.taken = a.current + 1 := by
            rw [← htaken', Receiver.taken, Receiver.taken, hsame.1, hsame.2]
          refine ⟨⟨a', hin, ?_, ?_, ?_, ?_⟩, ?_⟩
          · rw [hsame.1]
            exact hends
          · rw [htaken'', hstep.2.1]
            exact hrest
          · rw [htaken'', hstep.2.1, hfrom]
            exact hback.snoc hanswers
          · rw [hstep.2.1]
            exact h.serverPoint
          · simp only [remaining, hstep.2.1, hfrom, hqueue, List.length_append, List.length_cons,
              List.length_nil]
            omega

/-- **A step keeps the invariant**, and leaves less to be done. -/
theorem Flowing.step (h : P.Flowing net L K m a) {e : Event}
    (hstep : P.undisturbed.step net e net') :
    (∃ L' K' m' a', P.Flowing net' L' K' m' a') ∧ P.remaining net' < P.remaining net := by
  obtain ⟨hundisturbed, hstep⟩ := hstep
  cases e with
  | server i =>
      obtain ⟨ds, hsteps, hto, htakes⟩ := hstep
      have hnext : (∃ L' K' m', P.Flowing net' L' K' m' a) ∧
          P.remaining net' < P.remaining net := by
        cases i with
        | run readFails junk =>
            obtain rfl : readFails = false := hundisturbed
            exact h.run hsteps htakes hto
        | poll p =>
            cases p with
            | timeout => exact h.timeout hsteps htakes hto hundisturbed
            | received src stale datagram => exact h.answered hsteps htakes hto hundisturbed
      obtain ⟨⟨L', K', m', h'⟩, hlt⟩ := hnext
      exact ⟨⟨L', K', m', a, h'⟩, hlt⟩
  | rcopy i =>
      obtain ⟨ds, hsteps, hfrom, htakes⟩ := hstep
      obtain ⟨⟨a', h'⟩, hlt⟩ := h.rcopyStep hsteps htakes hfrom hundisturbed
      exact ⟨⟨L, K, m, a', h'⟩, hlt⟩
  | loseToRcopy k => exact hundisturbed.elim
  | loseToServer k => exact hundisturbed.elim

theorem Flowing.initial (h : P.Initial net) : P.Flowing net 0 0 (fun _ => none) .fresh where
  inOrder := .initial h
  rcopyPoint := .inl rfl
  toRcopy := by
    rw [h.toRcopy, (Server.of_start h.server).2.1]
    exact .nil 0
  toServer := by
    rw [h.toServer, (Server.of_start h.server).2.1]
    exact .nil 0
  serverPoint := .inl (by rw [(Server.of_start h.server).2.1]; rfl)

theorem flowing_of_reachable (h : P.undisturbed.Reachable net) :
    ∃ L K m a, P.Flowing net L K m a := by
  refine System.Reachable.invariant (P := fun net => ∃ L K m a, P.Flowing net L K m a) ?_ ?_ h
  · exact fun net hinit => ⟨0, 0, _, _, Flowing.initial hinit⟩
  · rintro net e net' - ⟨L, K, m, a, h⟩ hstep
    exact (h.step hstep).1

/-! ### Progress -/

/-- A child that waits for rcopy can take the answer that has come. -/
theorem Flowing.exists_answered (h : P.Flowing net L K m a) (hrests : net.server.Rests)
    {d : Datagram} {queue : List Datagram} (hto : net.toServer = d :: queue) :
    ∃ e net', P.undisturbed.step net e net' := by
  obtain ⟨toRcopy, toServer, hjoint, -, hsub⟩ := h.inOrder.joint
  obtain ⟨hdest, -⟩ := hjoint.toServer d (hsub (hto ▸ List.mem_cons_self))
  have htakes : Takes (ServerInput.Silent (.poll (.received P.rcopyAddr [] d.bytes)))
      (P.ServerReceives · (.poll (.received P.rcopyAddr [] d.bytes))) net.toServer queue :=
    .inr ⟨d, ⟨rfl, .inl ⟨hdest, rfl⟩⟩, hto⟩
  have hruns {y : C (Server × List Datagram)} (hy : net.server.step P.serverOrder
      (.poll (.received P.rcopyAddr [] d.bytes)) = some y) :
      ∃ e net', P.undisturbed.step net e net' := by
    obtain ⟨s, ds, rfl⟩ := h.inOrder.serverStep_returns htakes hy
    refine ⟨.server (.poll (.received P.rcopyAddr [] d.bytes)),
      { net with server := s, toRcopy := net.toRcopy ++ ds, toServer := queue }, ?_, ds,
      ⟨hy, rfl⟩, rfl, htakes⟩
    show net.toServer.head?.map Datagram.bytes = _
    rw [hto]
    rfl
  rcases hrests with ⟨count, hpoint | hpoint⟩ | ⟨why, hpoint⟩
  · exact hruns (Server.step_windowClosed hpoint _)
  · exact hruns (Server.step_endOfFileWait hpoint _)
  · -- Everything is acknowledged, the EOF as well.
    rcases h.serverPoint with hprompt | ⟨-, rfl⟩
    · rw [hpoint] at hprompt
      cases hprompt
    · have hback := h.toServer
      have hflow := h.toRcopy.le
      rw [hto, hpoint] at hback
      rw [hpoint] at hflow
      have hlt : L + 1 < a.taken := hback.of_cons.2.1
      have hle : a.taken ≤ L + 1 := hflow
      omega

/-- rcopy has ended with the EOF, behind which the child sends nothing. -/
theorem Flowing.taken_eq_sent (h : P.Flowing net L K m a) (hack : a.point = .done .eofAck) :
    a.taken = net.server.point.sent K := by
  obtain ⟨toRcopy, toServer, hjoint, -⟩ := h.inOrder.joint
  have hcurrent := hjoint.current_eq_length hack
  have hle := h.toRcopy.le
  have hlength := h.inOrder.holds.le_length
  have htaken : a.taken = a.current + 1 := by rw [Receiver.taken, if_pos hack]
  rw [ServerPoint.sent] at hle ⊢
  cases hbefore : net.server.point.beforeEof with
  | true =>
      rw [hbefore, if_pos rfl] at hle
      omega
  | false =>
      rw [hbefore, if_neg Bool.false_ne_true] at hle
      rw [if_neg Bool.false_ne_true]
      omega

/-- rcopy can take the datagram that has come, if it has answered everything before. -/
theorem Flowing.exists_accepted (h : P.Flowing net L K m a) {d : Datagram} {queue : List Datagram}
    (hto : net.toRcopy = d :: queue) : ∃ d' r', P.undisturbed.step net
      (.rcopy (.poll (.received P.serverAddr [] d.bytes) .complete 0))
      { net with rcopy := r', toServer := net.toServer ++ [d'], toRcopy := queue } := by
  have hflow := h.toRcopy
  rw [hto] at hflow
  obtain ⟨hd, hlt, -⟩ := hflow.of_cons
  have hpoint : a.point = .inOrder := h.rcopyPoint.resolve_right fun hack => by
    have := h.taken_eq_sent hack
    omega
  have htaken : a.taken = a.current := by
    rw [Receiver.taken, if_neg (by rw [hpoint]; exact fun hc => by cases hc)]
  rw [htaken] at hd
  obtain ⟨r', d', -, hstep, -⟩ := h.accepts hpoint hd [] 0
  refine ⟨d', r', ?_, [d'], ⟨hstep, rfl, rfl⟩, rfl, .inr ⟨d, ⟨rfl, .inl ⟨hd.1, rfl⟩⟩, hto⟩⟩
  show net.toRcopy.head?.map Datagram.bytes = _
  rw [hto]
  rfl

/-- A child that does not wait can always be the next. -/
theorem Flowing.exists_run (h : P.Flowing net L K m a) (hrests : ¬ net.server.Rests) :
    ∃ e net', P.undisturbed.step net e net' := by
  have hholds := h.inOrder.holds
  have hsize := h.inOrder.bufferSize_pos
  have hfit : ∀ block ∈ P.blocks, block.length ≤ 1400 := fun block hblock =>
    Nat.le_trans (P.blocks_fit block hblock).2 P.bufferSize.2.2
  have hserver {i : ServerInput} {s : Server} {ds : List Datagram}
      (hstep : net.server.step P.serverOrder i = some (.ok (s, ds))) (hsilent : i.Silent)
      (hi : Undisturbed net (.server i)) : ∃ e net', P.undisturbed.step net e net' :=
    ⟨.server i, { net with server := s, toRcopy := net.toRcopy ++ ds },
      hi, ds, ⟨hstep, rfl⟩, rfl, .inl ⟨hsilent, rfl⟩⟩
  cases hpoint : net.server.point with
  | windowOpen =>
      obtain ⟨s, ds, hrun⟩ := hholds.windowOpen_returns hfit hsize hpoint false
      exact hserver (i := .run false 0) (by rw [Server.step_windowOpen hpoint, hrun]) trivial rfl
  | windowOpenPoll => exact hserver (Server.poll_windowOpen hpoint) trivial (.inl hpoint)
  | endOfFile =>
      obtain ⟨s, ds, hrun⟩ := hholds.endOfFile_returns hpoint 0
      exact hserver (i := .run false 0) (by rw [Server.step_endOfFile hpoint, hrun]) trivial rfl
  | windowClosed count => exact absurd (.inl ⟨count, .inl hpoint⟩) hrests
  | endOfFileWait count => exact absurd (.inl ⟨count, .inr hpoint⟩) hrests
  | done why => exact absurd (.inr ⟨why, hpoint⟩) hrests

/-- **Undisturbed, something can happen until the transfer is complete.** -/
theorem Flowing.progress (h : P.Flowing net L K m a) :
    Completed net ∨ ∃ e net', P.undisturbed.step net e net' := by
  obtain ⟨toRcopy, toServer, hjoint, -⟩ := h.inOrder.joint
  have hrcopy : net.rcopy.point = a.point := hjoint.rcopy.point
  by_cases hrests : net.server.Rests
  · cases hto : net.toServer with
    | cons d queue => exact .inr (h.exists_answered hrests hto)
    | nil =>
        cases hto' : net.toRcopy with
        | cons d queue =>
            obtain ⟨d', r', hstep⟩ := h.exists_accepted hto'
            exact .inr ⟨_, _, hstep⟩
        | nil =>
            refine .inl (h.completed_of_idle ⟨hrests, ?_, hto', hto⟩)
            rw [hrcopy]
            rcases h.rcopyPoint with hpoint | hpoint <;> rw [hpoint] <;>
              exact fun hc => by cases hc
  · exact .inr (h.exists_run hrests)

/-- What is complete has been delivered. -/
theorem Flowing.file_eq (h : P.Flowing net L K m a) (hcompleted : Completed net) :
    net.rcopy.outputFile = P.blocks := by
  obtain ⟨toRcopy, toServer, hjoint, -⟩ := h.inOrder.joint
  have hpoint : net.rcopy.point = a.point := hjoint.rcopy.point
  have hfile : net.rcopy.outputFile = P.blocks.take a.current := hjoint.file_eq
  rw [hfile, hjoint.current_eq_length (hpoint.symm.trans hcompleted.2), List.take_length]

/-- The measure of a transfer that has not begun. -/
theorem remaining_initial (h : P.Initial net) :
    P.remaining net = 5 * P.blocks.length + 5 := by
  have hholds := (Flowing.initial h).inOrder.holds
  have hcurrent := hholds.current
  have hpoint := (Server.of_start h.server).2.1
  simp only [remaining, hpoint, h.toRcopy, h.toServer, List.length_nil, ServerPoint.weight]
  omega

end

/-- **An undisturbed transfer is completed.** Its runs have at most `5 * N + 5` steps for a file of
`N` blocks; as long as it is not complete another step is possible, and once nothing more can come
it is; then the file is there. On the way the receiver buffers nothing, and the child never counts a
timeout. -/
theorem completed_undisturbed {net : Net} {trace : List (Net × Event)}
    (h : P.undisturbed.traced.Reachable (net, trace)) :
    trace.length ≤ 5 * P.blocks.length + 5 ∧
    (Completed net ∨ ∃ e net', P.undisturbed.step net e net') ∧
    (Idle net → Completed net) ∧ (Completed net → net.rcopy.outputFile = P.blocks) ∧
    (net.rcopy.point = .inOrder ∨ net.rcopy.point = .done .eofAck) ∧
    ∀ count, net.server.point = .windowClosed count ∨ net.server.point = .endOfFileWait count →
      count = 0 := by
  have hlength : trace.length + P.remaining net ≤ 5 * P.blocks.length + 5 :=
    System.Reachable.length_le (S := P.undisturbed) P.remaining
      (fun net hinit => Nat.le_of_eq (remaining_initial hinit))
      (fun net e net' hnet hstep => by
        obtain ⟨L, K, m, a, hflow⟩ := flowing_of_reachable hnet
        exact (hflow.step hstep).2) h
  obtain ⟨L, K, m, a, hflow⟩ := flowing_of_reachable h.of_traced
  obtain ⟨toRcopy, toServer, hjoint, -⟩ := hflow.inOrder.joint
  have hpoint : net.rcopy.point = a.point := hjoint.rcopy.point
  refine ⟨by omega, hflow.progress, hflow.completed_of_idle, hflow.file_eq,
    hpoint ▸ hflow.rcopyPoint, fun count hcount => ?_⟩
  rcases hflow.serverPoint with hprompt | ⟨hdone, -⟩
  · rcases hcount with hcount | hcount <;> rw [hcount] at hprompt <;>
      exact beq_iff_eq.mp hprompt
  · rcases hcount with hcount | hcount <;> cases hdone.symm.trans hcount

/-- The block, its acknowledgement, the EOF and the EOF ACK. -/
def undisturbedEvents : List Event :=
  [.server (.run false 0), .server (.poll .timeout),
    .rcopy (.poll (.received 8 [] (encodePDU .little 0 dataPacketFlag [1])) .complete 0),
    .server (.run false 0), .server (.run false 0),
    .server (.poll (.received 7 [] (encodePDU .big 0 rrFlag (ByteOrder.bytes32 .big 1)))),
    .rcopy (.poll (.received 8 [] (encodePDU .little 1 eofFlag [0])) .complete 0),
    .server (.poll (.received 7 [] (encodePDU .big 1 eofAckFlag [0])))]

theorem completed_undisturbed_smallNet : ∃ net trace,
    smallTransfer.undisturbed.traced.Reachable (net, trace) ∧ Completed net ∧
      trace.length ≤ 10 ∧ net.rcopy.outputFile = [[1]] := by
  have hinit : smallTransfer.undisturbed.Reachable smallNet := .init initial_smallNet
  obtain ⟨net, hnet, hp⟩ := hinit.exists_of_run smallTransfer.undisturbedNext
    (fun _ _ _ => undisturbed_of_undisturbedNext smallTransfer) undisturbedEvents
    (fun net => decide (Idle net)) (by decide +kernel)
  obtain ⟨trace, htrace⟩ := hnet.exists_traced
  obtain ⟨hlength, -, hidle, hfile, -⟩ := completed_undisturbed htrace
  have hcompleted := hidle (of_decide_eq_true hp)
  exact ⟨net, trace, htrace, hcompleted, hlength, hfile hcompleted⟩

end Transfer

end RemoteCopy

import RemoteCopy.OrderedSession
import RemoteCopy.PollLib
import RemoteCopy.Library.Slots

/-!
# The sockets that are polled

A session names sockets by their addresses. The programs have numbers: what `socket` returns is the
lowest free descriptor, `pollCall` looks at the numbers in the poll set, and what they receive from
is a variable. rcopy closes its socket and opens another one for every retry, and a child closes the
main socket, opens its own and never adds it to the set that it has inherited. What holds all this
together is that a number that was given back is the next one to be given out
(`List.allocate_set_none`), so that in every session whoever polls its socket is told of what
arrived there (`Processes.told_of_reachable`).
-/

namespace RemoteCopy

/-- What a descriptor refers to. -/
inductive Description where
  | socket (addr : Addr)
  | other
  deriving DecidableEq, Repr

/-- Where something can be received, and what is the matter with the descriptors that are no
sockets. -/
structure Outside where
  arrived : Addr → Bool
  others : PollEvents

/-- The descriptors that a program is called with. There are always fewer than an `int` counts. -/
structure Inherited where
  descriptors : List (Option Description)
  few : descriptors.length + pollSetSize < 2147483648

/-- A process, as far as it waits: its descriptors, its poll set, and the variable with the number
of its socket. -/
structure Process where
  descriptors : List (Option Description)
  pollSet : PollSet
  socketNumber : Nat

namespace Process

/-- What `poll` has to report of the descriptors. An unconnected UDP socket has no errors; a number
that is not open is one. -/
def events (p : Process) (outside : Outside) : PollEvents where
  readable fd :=
    match p.descriptors[fd]? with
    | some (some (.socket addr)) => outside.arrived addr
    | some (some .other) => outside.others.readable fd
    | _ => false
  exceptional fd :=
    match p.descriptors[fd]? with
    | some (some (.socket _)) => false
    | some (some .other) => outside.others.exceptional fd
    | _ => true

def pollCall (p : Process) (outside : Outside) : C (Option Nat) :=
  p.pollSet.pollCall (p.events outside)

/-- `setupUdpClientToServer` and `udpServerSetup`, with the address that the socket gets. -/
def openSocket (p : Process) (addr : Addr) : Process :=
  { p with
    descriptors := (p.descriptors.allocate (.socket addr)).1
    socketNumber := (p.descriptors.allocate (.socket addr)).2 }

/-- `close`, on the socket. -/
def close (p : Process) : Process :=
  { p with descriptors := p.descriptors.set p.socketNumber none }

/-- `close` and `removeFromPollSet`. -/
def unregister (p : Process) : C Process := do
  let p := p.close
  let pollSet ← p.pollSet.removeFromPollSet p.socketNumber
  return { p with pollSet := pollSet }

/-- `open`, on a file. -/
def openFile (p : Process) : Process :=
  { p with descriptors := (p.descriptors.allocate .other).1 }

/-- `setupPollSet` and `addToPollSet`. -/
def register (p : Process) : C (Option Process) := do
  let pollSet ← p.pollSet.setupPollSet.addToPollSet p.socketNumber
  return pollSet.map fun pollSet => { p with pollSet := pollSet }

/-- A process that begins with these descriptors. -/
def inherit (i : Inherited) : Process := ⟨i.descriptors, .empty, 0⟩

/-- `start` of rcopy, and `main` of the server up to `process_server`. -/
def start (p : Process) (addr : Addr) : C (Option Process) := (p.openSocket addr).register

/-- The end of an iteration of rcopy's `filename` that got no answer. After the tenth the socket is
closed, and stays in the poll set. -/
def retry (p : Process) (count : Nat) (newSocket : Addr) : C (Option Process) :=
  if count + 1 = 10 then return some p.close
  else do
    let p ← p.unregister
    (p.openSocket newSocket).register

/-- `filename` of rcopy from its poll on. -/
def filename (p : Process) (o : ByteOrder) (bufferSize : BufferSize) (count : Nat)
    (newSocket : Addr) : Poll → C (Option Process)
  | .timeout => p.retry count newSocket
  | .received _ stale datagram =>
      let (pduBuffer, recvLength) := recvfrom (pduHeaderLen + bufferSize) stale datagram
      if inCksum o (pduBuffer.take recvLength) = 0 then
        if byteAt pduBuffer recvFlagLocation ≠ filenameResponseFlag then return some p
        else if byteAt pduBuffer pduHeaderLen ≠ fileOk then do
          let p ← p.unregister
          return some p
        else return some p
      else p.retry count newSocket

/-- `file_okay`, which may fail to open the file. -/
def fileOkay (p : Process) (opens : Bool) : C Process :=
  if opens then return p.openFile else p.unregister

/-- The child in `process_server`: it has what the main process has, but for the socket. -/
def fork (main : Process) (addr : Addr) : Process := main.close.openSocket addr

/-- The process has its socket at the lowest number it could have, and polls that number alone. -/
structure Polls (p : Process) (addr : Addr) : Prop where
  socket : p.descriptors[p.socketNumber]? = some (some (.socket addr))
  below : p.descriptors.TakenBelow p.socketNumber
  small : p.socketNumber + pollSetSize < 2147483648
  watches : p.pollSet.Watches {p.socketNumber}
  highest : p.pollSet.maxFileDescriptor = p.socketNumber + 1

section
variable {p : Process} {addr addr' : Addr}

/-- A new socket that is registered is what is polled, if there was no higher number before. -/
theorem exists_register (hhighest : p.pollSet.maxFileDescriptor ≤ p.socketNumber + 1)
    (hsocket : p.descriptors[p.socketNumber]? = some (some (.socket addr)))
    (hbelow : p.descriptors.TakenBelow p.socketNumber)
    (hsmall : p.socketNumber + pollSetSize < 2147483648) :
    ∃ p', p.register = .ok (some p') ∧ p'.Polls addr := by
  obtain ⟨pollSet, hadd, hwatches, hmax, -⟩ := (PollSet.Watches.setup (s := p.pollSet)).add
    (show pollSetSize < 2147483648 by decide) (.inr hsmall)
  have hregister : p.register = .ok (some { p with pollSet := pollSet }) := by
    rw [register, hadd]
    rfl
  refine ⟨_, hregister, hsocket, hbelow, hsmall, hwatches, ?_⟩
  rw [hmax]
  exact Nat.max_eq_right hhighest

/-- Registering a socket changes no descriptor. -/
theorem descriptors_of_register {p p' : Process} (h : p.register = .ok (some p')) :
    p'.descriptors = p.descriptors := by
  obtain ⟨pollSet, -, h⟩ := C.bind_eq_ok.mp h
  obtain ⟨pollSet, -, rfl⟩ := Option.map_eq_some_iff.mp (Except.ok.inj h)
  rfl

theorem exists_start (i : Inherited) (addr : Addr) :
    ∃ p, (inherit i).start addr = .ok (some p) ∧ p.Polls addr := by
  obtain ⟨hbelow, hsocket⟩ := i.descriptors.allocate_spec (.socket addr)
  have hnumber := i.descriptors.allocate_le_length (.socket addr)
  exact exists_register (p := (inherit i).openSocket addr) (Nat.zero_le _) hsocket hbelow
    (Nat.lt_of_le_of_lt (Nat.add_le_add_right hnumber _) i.few)

/-- A socket that is opened after the old one was closed gets its number. -/
theorem Polls.openSocket_close (h : p.Polls addr) (addr' : Addr) :
    p.close.openSocket addr' =
      { p with descriptors := p.descriptors.set p.socketNumber (some (.socket addr')) } := by
  simp only [close, openSocket, List.allocate_set_none h.below h.socket]

theorem Polls.lt_length (h : p.Polls addr) : p.socketNumber < p.descriptors.length :=
  (List.getElem?_eq_some_iff.mp h.socket).1

/-- The number refers to the new socket, and what is below stays taken. -/
theorem Polls.set_socket (h : p.Polls addr) (addr' : Addr) :
    (p.descriptors.set p.socketNumber (some (.socket addr')))[p.socketNumber]?
        = some (some (.socket addr')) ∧
      (p.descriptors.set p.socketNumber (some (.socket addr'))).TakenBelow p.socketNumber := by
  refine ⟨List.getElem?_set_self h.lt_length, fun i hi => ?_⟩
  rw [List.getElem?_set_ne (Nat.ne_of_gt hi)]
  exact h.below i hi

/-- What is polled can be taken out of the poll set. -/
theorem Polls.exists_unregister (h : p.Polls addr) : ∃ pollSet,
    p.unregister = .ok { p.close with pollSet := pollSet } ∧
      pollSet.maxFileDescriptor = p.pollSet.maxFileDescriptor := by
  obtain ⟨pollSet, hremove, -, hmax, -⟩ :=
    h.watches.remove (h.watches.lt _ (Finset.mem_singleton_self _)).2
  refine ⟨pollSet, ?_, hmax⟩
  show (p.pollSet.removeFromPollSet p.socketNumber >>= _) = _
  rw [hremove]
  rfl

/-- **A retry moves rcopy to its new socket**, unless it is the last. -/
theorem Polls.retry (h : p.Polls addr) (count : Nat) (newSocket : Addr) :
    ∃ p', p.retry count newSocket = .ok (some p') ∧
      (count + 1 ≠ 10 → p'.Polls newSocket) := by
  rw [Process.retry]
  split
  · next hlast => exact ⟨_, rfl, fun hne => absurd hlast hne⟩
  · obtain ⟨pollSet, hunregister, hmax⟩ := h.exists_unregister
    obtain ⟨hsocket, hbelow⟩ := h.set_socket newSocket
    have hopen : { p.close with pollSet := pollSet }.openSocket newSocket =
        { p with
          descriptors := p.descriptors.set p.socketNumber (some (.socket newSocket))
          pollSet := pollSet } := by
      simp only [close, openSocket, List.allocate_set_none h.below h.socket]
    rw [hunregister, C.ok_bind, hopen]
    obtain ⟨p', hp', hpolls⟩ := exists_register (p := { p with
      descriptors := p.descriptors.set p.socketNumber (some (.socket newSocket))
      pollSet := pollSet }) (by rw [hmax, h.highest]) hsocket hbelow h.small
    exact ⟨p', hp', fun _ => hpolls⟩

/-- **`filename` returns**, and as long as it goes on, or goes on to `file_okay`, rcopy polls the
socket that it has. -/
theorem Polls.filename {r : RcopySetup} (h : p.Polls r.clientSocket) (o : ByteOrder)
    (bufferSize : BufferSize) (server newSocket : Addr) (poll : Poll) :
    ∃ p', p.filename o bufferSize r.count newSocket poll = .ok (some p') ∧
      ((r.filename o bufferSize server newSocket poll).1.state = .done ∨
        p'.Polls (r.filename o bufferSize server newSocket poll).1.clientSocket) := by
  obtain ⟨p', hretry, hpolls⟩ := h.retry r.count newSocket
  have hagain (r' : RcopySetup) (hcount : r'.count = r.count) :
      (r'.retry server newSocket).1.state = .done ∨
        p'.Polls (r'.retry server newSocket).1.clientSocket := by
    rw [RcopySetup.retry, hcount]
    split
    · exact .inl rfl
    · next hmore => exact .inr (hpolls hmore)
  cases poll with
  | timeout => exact ⟨p', hretry, hagain r rfl⟩
  | received src stale datagram =>
      rw [Process.filename, RcopySetup.filename]
      dsimp only
      split
      · split
        · refine ⟨p, rfl, ?_⟩
          split
          · exact .inr h
          · exact .inl rfl
        · split
          · obtain ⟨pollSet, hunregister, -⟩ := h.exists_unregister
            exact ⟨_, by rw [hunregister]; rfl, .inl rfl⟩
          · exact ⟨p, rfl, .inr h⟩
      · exact ⟨p', hretry, hagain _ rfl⟩

/-- **A child polls its own socket**, under the number that it has inherited. -/
theorem Polls.fork (h : p.Polls addr) (addr' : Addr) : (p.fork addr').Polls addr' := by
  obtain ⟨hsocket, hbelow⟩ := h.set_socket addr'
  rw [Process.fork, h.openSocket_close addr']
  exact ⟨hsocket, hbelow, h.small, h.watches, h.highest⟩

/-- A file gets another number. -/
theorem Polls.openFile (h : p.Polls addr) : p.openFile.Polls addr where
  socket := List.getElem?_allocate h.socket _
  below := h.below.allocate _
  small := h.small
  watches := h.watches
  highest := h.highest

/-- What `pollCall` returns where something may have arrived, to a process whose socket has this
number: something wrong with descriptor 0 is reported first. -/
def answer (number : Nat) (arrived stdinExceptional : Bool) : Option Nat :=
  if 0 < number ∧ stdinExceptional = true then some 0
  else if arrived then some number
  else none

/-- **A poll asks for the socket**, and for what is wrong with descriptor 0. -/
theorem Polls.pollCall (h : p.Polls addr) (outside : Outside) :
    p.pollCall outside = .ok (answer p.socketNumber (outside.arrived addr)
      ((p.events outside).exceptional 0)) := by
  have hroom := (h.watches.lt _ (Finset.mem_singleton_self _)).2
  have hown : PollSet.reports {p.socketNumber} (p.events outside) p.socketNumber
      = outside.arrived addr := by
    rw [PollSet.reports, if_pos (Finset.mem_singleton_self _)]
    simp only [events, h.socket, Bool.or_false]
  have hbelow (i : Nat) (hi : i < p.socketNumber) :
      PollSet.reports {p.socketNumber} (p.events outside) i = (p.events outside).exceptional 0 :=
    if_neg (by rw [Finset.mem_singleton]; exact Nat.ne_of_lt hi)
  rw [Process.pollCall, h.watches.pollCall, h.highest, if_neg (Nat.not_lt.mpr hroom)]
  refine congrArg Except.ok ?_
  unfold answer
  split
  · next hstdin =>
      rw [List.find?_range_eq_some, hbelow 0 hstdin.1]
      refine ⟨hstdin.2, List.mem_range.mpr (Nat.zero_lt_succ _), fun j hj => ?_⟩
      exact absurd hj (Nat.not_lt_zero j)
  · next hquiet =>
      have hquiet' (i : Nat) (hi : i < p.socketNumber) :
          PollSet.reports {p.socketNumber} (p.events outside) i = false := by
        rw [hbelow i hi]
        refine Bool.eq_false_iff.mpr fun hstdin => hquiet ⟨?_, hstdin⟩
        exact Nat.lt_of_le_of_lt (Nat.zero_le i) hi
      split
      · next harrived =>
          rw [List.find?_range_eq_some, hown]
          refine ⟨harrived, List.mem_range.mpr (Nat.lt_succ_self _), fun j hj => ?_⟩
          rw [hquiet' j hj]
          rfl
      · next hnothing =>
          rw [List.find?_range_eq_none]
          intro i hi
          rcases Nat.lt_or_eq_of_le (Nat.le_of_lt_succ hi) with hlt | rfl
          · rw [hquiet' i hlt]
            rfl
          · rw [hown, Bool.eq_false_iff.mpr hnothing]
            rfl

end

end Process

/-! ## Sessions with processes -/

/-- The socket of the child that is forked, if one is. -/
def SessionEvent.forked : SessionEvent → List Addr
  | .serve _ _ _ childAddr => [childAddr]
  | _ => []

namespace Session

/-- rcopy's part in a step, before it starts on the transfer. -/
def setup (P : Session) (r : RcopySetup) : SessionEvent → RcopySetup
  | .filename p newSocket => (r.filename P.rcopyOrder P.bufferSize P.serverAddr newSocket p).1
  | _ => r

variable {P : Session} {net net' : SessionNet} {e : SessionEvent}

/-- Children keep their sockets, and so does rcopy but in `filename`. -/
theorem sockets_of_next (h : P.next net e = some net') :
    net'.children.map Forked.addr = net.children.map Forked.addr ++ e.forked ∧
      net'.rcopy = P.setup net.rcopy e := by
  cases e with
  | serve k stale datagram childAddr =>
      simp only [next] at h
      split at h
      · split at h
        · cases h
          exact ⟨List.map_append, rfl⟩
        · cases h
      · cases h
  | child k i =>
      simp only [next] at h
      split at h
      · next addr client s hk =>
          split at h
          · split at h
            · next s' ds hstep =>
                cases h
                have haddr : (net.children.map Forked.addr)[k]? = some addr := by
                  rw [List.getElem?_map, hk]
                  rfl
                obtain ⟨hlt, hget⟩ := List.getElem?_eq_some_iff.mp haddr
                refine ⟨?_, rfl⟩
                show _ = _ ++ []
                rw [List.map_set, List.append_nil, ← hget]
                exact List.set_getElem_self hlt
            · cases h
          · cases h
      · cases h
  | filename p newSocket =>
      simp only [next] at h
      split at h
      · cases h
        exact ⟨(List.append_nil _).symm, rfl⟩
      · cases h
  | fileOkay =>
      simp only [next] at h
      split at h
      · split at h
        · cases h
          exact ⟨(List.append_nil _).symm, rfl⟩
        · cases h
      · cases h
  | transfer i =>
      simp only [next] at h
      split at h
      · split at h
        · split at h
          · cases h
            exact ⟨(List.append_nil _).symm, rfl⟩
          · cases h
        · cases h
      · cases h

/-- rcopy polls in `filename` while it is there. -/
theorem filename_of_next {p : Poll} {newSocket : Addr}
    (h : P.next net (.filename p newSocket) = some net') : net.rcopy.state = .filename := by
  simp only [next] at h
  split at h
  · next hwaits => exact hwaits.1
  · cases h

end Session

/-- A session and the processes in it. -/
structure Processes where
  net : SessionNet
  rcopy : Process
  main : Process
  children : List Process

/-- A step of the session, or rcopy cannot open its file. -/
inductive ProcessEvent where
  | session (e : SessionEvent)
  | fileNotOpened

namespace Processes

/-- What a step of the session does to the processes. A child that sends a file has opened it. -/
def move (P : Session) (m : Processes) (net : SessionNet) : SessionEvent → C (Option Processes)
  | .serve _ _ _ childAddr =>
      let child := m.main.fork childAddr
      let opens := (net.children.getLast?.bind Forked.server).isSome
      let child := if opens then child.openFile else child
      return some { m with net := net, children := m.children ++ [child] }
  | .filename p newSocket => do
      let rcopy ← m.rcopy.filename P.rcopyOrder P.bufferSize m.net.rcopy.count newSocket p
      return rcopy.map fun rcopy => { m with net := net, rcopy := rcopy }
  | .fileOkay => do
      let rcopy ← m.rcopy.fileOkay true
      return some { m with net := net, rcopy := rcopy }
  | .child _ _ | .transfer _ => return some { m with net := net }

/-- rcopy leaves `file_okay` without a file, which ends it. -/
def giveUp (m : Processes) : C Processes := do
  let rcopy ← m.rcopy.fileOkay false
  return { m with
    net := { m.net with rcopy := { m.net.rcopy with state := .done } }
    rcopy := rcopy }

/-- The sessions of two programs that are called with these descriptors open. -/
def system (P : Session) (rcopy server : Inherited) : System Processes ProcessEvent where
  init m := P.Initial m.net ∧
    (Process.inherit rcopy).start m.net.rcopy.clientSocket = .ok (some m.rcopy) ∧
    (Process.inherit server).start P.serverAddr = .ok (some m.main) ∧ m.children = []
  step m e m' :=
    match e with
    | .session e => ∃ net, P.next m.net e = some net ∧ m.move P net e = .ok (some m')
    | .fileNotOpened =>
        m.net.rcopy.state = .fileOkay ∧ m.net.transfer = none ∧ m.giveUp = .ok m'

/-- Every process polls the socket that the session has for it, as long as it polls. -/
structure Polling (P : Session) (m : Processes) : Prop where
  rcopy : m.net.rcopy.state = .done ∨ m.rcopy.Polls m.net.rcopy.clientSocket
  main : m.main.Polls P.serverAddr
  children : List.Forall₂ Process.Polls m.children (m.net.children.map Forked.addr)

section
variable {P : Session} {m : Processes} {net : SessionNet}

/-- **The processes follow every step of the session**: none of their calls is undefined or ends a
program, and each goes on polling its socket. -/
theorem Polling.move (h : m.Polling P) {e : SessionEvent} (hnext : P.next m.net e = some net) :
    ∃ m', m.move P net e = .ok (some m') ∧ m'.net = net ∧ m'.Polling P := by
  obtain ⟨haddrs, hsetup⟩ := Session.sockets_of_next hnext
  have hchildren (hnone : e.forked = []) :
      List.Forall₂ Process.Polls m.children (net.children.map Forked.addr) := by
    rw [haddrs, hnone, List.append_nil]
    exact h.children
  cases e with
  | serve k stale datagram childAddr =>
      refine ⟨_, rfl, rfl, hsetup ▸ h.rcopy, h.main, ?_⟩
      rw [haddrs]
      refine List.rel_append h.children (.cons ?_ .nil)
      split
      · exact (h.main.fork childAddr).openFile
      · exact h.main.fork childAddr
  | filename p newSocket =>
      have hpolls := h.rcopy.resolve_left (by rw [Session.filename_of_next hnext]; decide)
      obtain ⟨rcopy, hfilename, hrcopy⟩ :=
        hpolls.filename P.rcopyOrder P.bufferSize P.serverAddr newSocket p
      refine ⟨{ m with net := net, rcopy := rcopy }, ?_, rfl, hsetup ▸ hrcopy, h.main,
        hchildren rfl⟩
      rw [Processes.move, hfilename]
      rfl
  | fileOkay =>
      exact ⟨_, rfl, rfl, hsetup ▸ h.rcopy.imp_right Process.Polls.openFile, h.main, hchildren rfl⟩
  | child k i => exact ⟨_, rfl, rfl, hsetup ▸ h.rcopy, h.main, hchildren rfl⟩
  | transfer i => exact ⟨_, rfl, rfl, hsetup ▸ h.rcopy, h.main, hchildren rfl⟩

/-- Nor is what rcopy does without a file. -/
theorem Polling.giveUp (h : m.Polling P) (hstate : m.net.rcopy.state = .fileOkay) :
    ∃ m', m.giveUp = .ok m' ∧ m'.Polling P := by
  have hpolls := h.rcopy.resolve_left (by rw [hstate]; decide)
  obtain ⟨pollSet, hunregister, -⟩ := hpolls.exists_unregister
  have hfileOkay : m.rcopy.fileOkay false = .ok { m.rcopy.close with pollSet := pollSet } :=
    hunregister
  have hgiveUp : m.giveUp = .ok { m with
      net := { m.net with rcopy := { m.net.rcopy with state := .done } }
      rcopy := { m.rcopy.close with pollSet := pollSet } } := by
    rw [Processes.giveUp, hfileOkay]
    rfl
  exact ⟨_, hgiveUp, .inl rfl, h.main, h.children⟩

variable {rcopy server : Inherited}

theorem polling_of_reachable (h : (system P rcopy server).Reachable m) : m.Polling P := by
  refine System.Reachable.invariant (P := Polling P) (fun m hinit => ?_)
    (fun m e m' _ hpolling hstep => ?_) h
  · obtain ⟨hsession, hrcopy, hmain, hchildren⟩ := hinit
    obtain ⟨p, hp, hpolls⟩ := Process.exists_start rcopy m.net.rcopy.clientSocket
    obtain ⟨q, hq, hpolls'⟩ := Process.exists_start server P.serverAddr
    obtain rfl := Option.some.inj (Except.ok.inj (hp.symm.trans hrcopy))
    obtain rfl := Option.some.inj (Except.ok.inj (hq.symm.trans hmain))
    refine ⟨.inr hpolls, hpolls', ?_⟩
    rw [hchildren, hsession.children]
    exact .nil
  · cases e with
    | session e =>
        obtain ⟨net, hnext, hmove⟩ := hstep
        obtain ⟨m₁, hmove', -, hpolling'⟩ := hpolling.move hnext
        obtain rfl := Option.some.inj (Except.ok.inj (hmove'.symm.trans hmove))
        exact hpolling'
    | fileNotOpened =>
        obtain ⟨hstate, -, hgiveUp⟩ := hstep
        obtain ⟨m₁, hgiveUp', hpolling'⟩ := hpolling.giveUp hstate
        obtain rfl := Except.ok.inj (hgiveUp'.symm.trans hgiveUp)
        exact hpolling'

/-- **Every session is one of processes**, with whatever descriptors they begin. -/
theorem exists_of_reachable (h : P.udp.Reachable net) (rcopy server : Inherited) :
    ∃ m, (system P rcopy server).Reachable m ∧ m.net = net := by
  induction h with
  | @init net hinit =>
      obtain ⟨p, hp, -⟩ := Process.exists_start rcopy net.rcopy.clientSocket
      obtain ⟨q, hq, -⟩ := Process.exists_start server P.serverAddr
      exact ⟨⟨net, p, q, []⟩, .init ⟨hinit, hp, hq, rfl⟩, rfl⟩
  | @step net net' e _ hstep ih =>
      obtain ⟨m, hm, rfl⟩ := ih
      obtain ⟨m', hmove, hnet, -⟩ := (polling_of_reachable hm).move hstep
      exact ⟨m', hm.step (i := .session e) ⟨net', hstep, hmove⟩, hnet⟩

/-- The process is told of what arrived at the socket. -/
def Told (outside : Outside) (p : Process) (addr : Addr) : Prop :=
  p.descriptors[p.socketNumber]? = some (some (.socket addr)) ∧
    p.pollCall outside = .ok (Process.answer p.socketNumber (outside.arrived addr)
      ((p.events outside).exceptional 0))

/-- **Whoever polls its socket is told of what arrived there**, in every session, whatever the
descriptors that the programs begin with: before and after retries, in the main process and in
every child. Whatever step the session can take, no call of the processes is undefined or ends a
program, and what a poll returns is a timeout, the number of the socket that the session has for
the process, or 0 where there is something wrong with stdin. -/
theorem told_of_reachable (P : Session) (rcopy server : Inherited) :
    (∀ net, P.udp.Reachable net → ∃ m, (system P rcopy server).Reachable m ∧ m.net = net) ∧
    ∀ m, (system P rcopy server).Reachable m →
      (∀ e net, P.next m.net e = some net →
        ∃ m', m.move P net e = .ok (some m') ∧ m'.net = net) ∧
      (m.net.rcopy.state = .fileOkay → ∃ m', m.giveUp = .ok m') ∧
      ∀ outside, (m.net.rcopy.state = .done ∨ Told outside m.rcopy m.net.rcopy.clientSocket) ∧
        Told outside m.main P.serverAddr ∧
        List.Forall₂ (Told outside) m.children (m.net.children.map Forked.addr) := by
  refine ⟨fun net hnet => exists_of_reachable hnet rcopy server, fun m hm => ?_⟩
  have hpolling := polling_of_reachable hm
  refine ⟨fun e net hnext => ?_, fun hstate => ?_, fun outside => ⟨?_, ?_, ?_⟩⟩
  · obtain ⟨m', hmove, hnet, -⟩ := hpolling.move hnext
    exact ⟨m', hmove, hnet⟩
  · obtain ⟨m', hgiveUp, -⟩ := hpolling.giveUp hstate
    exact ⟨m', hgiveUp⟩
  · exact hpolling.rcopy.imp_right fun hpolls => ⟨hpolls.socket, hpolls.pollCall outside⟩
  · exact ⟨hpolling.main.socket, hpolling.main.pollCall outside⟩
  · exact hpolling.children.imp fun p addr hpolls => ⟨hpolls.socket, hpolls.pollCall outside⟩

/-- stdin, stdout and stderr. -/
def standard : Inherited := ⟨[some .other, some .other, some .other], by decide⟩

/-- rcopy asks again from a socket at 8, and two children are forked. -/
theorem told_smallSession : ∃ m, (system Session.smallSession standard standard).Reachable m ∧
    m.net.opened = [7, 8] ∧ m.net.children.map Forked.addr = [2, 3] ∧ ∀ outside,
      Told outside m.rcopy m.net.rcopy.clientSocket ∧
      Told outside m.main Session.smallSession.serverAddr ∧
      List.Forall₂ (Told outside) m.children [2, 3] := by
  have hinit : Session.smallSession.udp.Reachable Session.smallSessionNet :=
    .init Session.initial_smallSessionNet
  obtain ⟨net, hnet, hp⟩ := hinit.exists_of_run Session.smallSession.next (fun _ e _ h => ⟨e, h⟩)
    [.filename .timeout 8,
      .serve 0 [] (encodePDU .little 0 filenameFlag (requestPayload 1 leastBufferSize [97])) 2,
      .serve 0 [] [1] 3]
    (fun net => decide (net.opened = [7, 8] ∧ net.children.map Forked.addr = [2, 3] ∧
      net.rcopy.state = .filename)) (by decide +kernel)
  obtain ⟨hopened, hchildren, hstate⟩ := of_decide_eq_true hp
  obtain ⟨hexists, htold⟩ := told_of_reachable Session.smallSession standard standard
  obtain ⟨m, hm, rfl⟩ := hexists net hnet
  refine ⟨m, hm, hopened, hchildren, fun outside => ?_⟩
  obtain ⟨hrcopy, hmain, hforked⟩ := (htold m hm).2.2 outside
  refine ⟨hrcopy.resolve_left ?_, hmain, hchildren ▸ hforked⟩
  rw [hstate]
  decide

/-! ## A broken stdin -/

/-- What `filename` of rcopy makes of its poll: a timeout, if nothing was reported, and else what it
then receives. -/
def Polled (m : Processes) (outside : Outside) : ProcessEvent → Prop
  | .session (.filename p _) => p = .timeout ↔ m.rcopy.pollCall outside = .ok none
  | _ => True

/-- Sessions in which something is wrong with rcopy's stdin from the beginning on, as with a pipe
that nobody writes to any more. -/
def broken (P : Session) (rcopy server : Inherited) : System Processes ProcessEvent :=
  (system P rcopy server).restrict fun m e =>
    ∃ outside, outside.others.exceptional 0 = true ∧ m.Polled outside e

/-- rcopy as it is after `start`. -/
structure Waiting (m : Processes) : Prop where
  stdin : m.rcopy.descriptors[0]? = some (some .other)
  state : m.net.rcopy.state = .filename
  count : m.net.rcopy.count = 0
  transfer : m.net.transfer = none
  requests : m.net.requests.length = 1

theorem waiting_start (hstdin : rcopy.descriptors[0]? = some (some .other)) (h : P.Initial m.net)
    (hstart : (Process.inherit rcopy).start m.net.rcopy.clientSocket = .ok (some m.rcopy)) :
    m.Waiting := by
  obtain ⟨pduBuffer, -, hrcopy⟩ := C.bind_eq_ok.mp h.rcopy
  have hinitial := Except.ok.inj hrcopy
  constructor
  · rw [Process.descriptors_of_register hstart]
    exact List.getElem?_allocate hstdin _
  · rw [← hinitial]
  · rw [← hinitial]
  · exact h.transfer
  · rw [h.requests]
    rfl

/-- So it polls. -/
theorem Waiting.polls (h : m.Waiting) (hpolling : m.Polling P) :
    m.rcopy.Polls m.net.rcopy.clientSocket :=
  hpolling.rcopy.resolve_left (by rw [h.state]; decide)

/-- What is wrong with stdin comes first. -/
theorem Waiting.pollCall (h : m.Waiting) (hpolls : m.rcopy.Polls m.net.rcopy.clientSocket)
    {outside : Outside} (hstdin : outside.others.exceptional 0 = true) :
    m.rcopy.pollCall outside = .ok (some 0) := by
  have hexceptional : (m.rcopy.events outside).exceptional 0 = true := by
    simp only [Process.events, h.stdin]
    exact hstdin
  have hpos : 0 < m.rcopy.socketNumber := by
    refine Nat.pos_of_ne_zero fun hzero => ?_
    have hsocket := hpolls.socket
    rw [hzero, h.stdin] at hsocket
    cases hsocket
  rw [hpolls.pollCall, Process.answer, if_pos ⟨hpos, hexceptional⟩]

/-- What was sent to rcopy stays sent. -/
theorem toRcopy_of_next {e : SessionEvent} (h : P.next m.net e = some net)
    (hsilent : net.toRcopy = []) : m.net.toRcopy = [] := by
  cases Session.moved_of_next h with
  | serve => exact (List.append_eq_nil_iff.mp hsilent).1
  | child => exact (List.append_eq_nil_iff.mp hsilent).1
  | filename => exact hsilent
  | fileOkay => exact hsilent
  | transfer => exact hsilent

/-- As long as nothing is sent to rcopy, no step is one of it. -/
theorem Waiting.move (h : m.Waiting) (hpolls : m.rcopy.Polls m.net.rcopy.clientSocket)
    {outside : Outside} (hstdin : outside.others.exceptional 0 = true) {e : SessionEvent}
    (hpolled : m.Polled outside (.session e)) (hnext : P.next m.net e = some net)
    {m' : Processes} (hmove : m.move P net e = .ok (some m')) (hsilent : m.net.toRcopy = []) :
    m'.Waiting := by
  cases e with
  | serve k stale datagram childAddr =>
      cases hmove
      simp only [Session.next] at hnext
      split at hnext
      · split at hnext
        · cases hnext
          exact ⟨h.stdin, h.state, h.count, h.transfer, h.requests⟩
        · cases hnext
      · cases hnext
  | child k i =>
      cases hmove
      simp only [Session.next] at hnext
      split at hnext
      · split at hnext
        · split at hnext
          · cases hnext
            exact ⟨h.stdin, h.state, h.count, h.transfer, h.requests⟩
          · cases hnext
        · cases hnext
      · cases hnext
  | filename p newSocket =>
      simp only [Session.next] at hnext
      split at hnext
      · next hwaits =>
          rcases hwaits.2.1 with htimeout | ⟨x, hx, -⟩
          · have hnone := hpolled.mp htimeout
            rw [h.pollCall hpolls hstdin] at hnone
            cases hnone
          · rw [hsilent] at hx
            cases hx
      · cases hnext
  | fileOkay =>
      simp only [Session.next, h.state] at hnext
      cases hnext
  | transfer i =>
      simp only [Session.next, h.transfer] at hnext
      cases hnext

/-- **With a broken stdin rcopy never gives up**: a server from which nothing ever comes is asked
once and waited for, since no poll of rcopy times out. -/
theorem waits_of_reachable (hstdin : rcopy.descriptors[0]? = some (some .other))
    (h : (broken P rcopy server).Reachable m) (hsilent : m.net.toRcopy = []) :
    (m.net.rcopy.state = .filename ∧ m.net.rcopy.count = 0 ∧ m.net.requests.length = 1) ∧
      ∀ outside, outside.others.exceptional 0 = true →
        m.rcopy.pollCall outside = .ok (some 0) := by
  have hwaiting : m.net.toRcopy = [] → m.Waiting := by
    refine System.Reachable.invariant (P := fun m => m.net.toRcopy = [] → m.Waiting)
      (fun m hinit _ => ?_) (fun m e m' hr ih hstep hsilent' => ?_) h
    · obtain ⟨hsession, hstart, -⟩ := hinit
      exact waiting_start hstdin hsession hstart
    · obtain ⟨⟨outside, hbroken, hpolled⟩, hstep⟩ := hstep
      have hpolling := polling_of_reachable hr.of_restrict
      cases e with
      | session e =>
          obtain ⟨net, hnext, hmove⟩ := hstep
          obtain ⟨m₁, hmove', hnet, -⟩ := hpolling.move hnext
          obtain rfl := Option.some.inj (Except.ok.inj (hmove'.symm.trans hmove))
          have hsilent := toRcopy_of_next hnext (hnet ▸ hsilent')
          have hw := ih hsilent
          exact hw.move (hw.polls hpolling) hbroken hpolled hnext hmove hsilent
      | fileNotOpened =>
          obtain ⟨hstate, -, hgiveUp⟩ := hstep
          obtain ⟨rcopy, -, hm'⟩ := C.bind_eq_ok.mp hgiveUp
          cases hm'
          cases (ih hsilent').state.symm.trans hstate
  have hw := hwaiting hsilent
  have hpolls := hw.polls (polling_of_reachable h.of_restrict)
  exact ⟨⟨hw.state, hw.count, hw.requests⟩, fun outside hbroken => hw.pollCall hpolls hbroken⟩

end

/-- The request is damaged on its way, and the child that is forked for it does not answer. -/
theorem waits_smallSession : ∃ m,
    (broken Session.smallSession standard standard).Reachable m ∧
    m.net.toRcopy = [] ∧ m.net.toServer = [] ∧ m.net.children.length = 1 ∧
    (m.net.rcopy.state = .filename ∧ m.net.rcopy.count = 0 ∧ m.net.requests.length = 1) ∧
    ∀ outside, outside.others.exceptional 0 = true →
      m.rcopy.pollCall outside = .ok (some 0) := by
  obtain ⟨p, hp, -⟩ := Process.exists_start standard 7
  obtain ⟨q, hq, -⟩ := Process.exists_start standard Session.smallSession.serverAddr
  have hinit : (broken Session.smallSession standard standard).Reachable
      ⟨Session.smallSessionNet, p, q, []⟩ :=
    .init ⟨Session.initial_smallSessionNet, hp, hq, rfl⟩
  obtain ⟨net, hnext, hsilent, hserver, hchildren⟩ : ∃ net,
      Session.smallSession.next Session.smallSessionNet (.serve 0 [] [1] 2) = some net ∧
        net.toRcopy = [] ∧ net.toServer = [] ∧ net.children.length = 1 :=
    ⟨_, rfl, rfl, rfl, rfl⟩
  have hpolling := polling_of_reachable hinit.of_restrict
  obtain ⟨m, hmove, rfl, -⟩ := hpolling.move hnext
  have hreach : (broken Session.smallSession standard standard).Reachable m :=
    hinit.step (i := .session (.serve 0 [] [1] 2))
      ⟨⟨⟨fun _ => false, ⟨fun _ => false, fun _ => true⟩⟩, rfl, trivial⟩, m.net, hnext, hmove⟩
  exact ⟨m, hreach, hsilent, hserver, hchildren, waits_of_reachable rfl hreach hsilent⟩

end Processes

end RemoteCopy

import RemoteCopy.Request
import RemoteCopy.Library.Ledger

/-!
# Sockets, files and windows

The loops of `process_client` and `processFile`, with what they open and what they release. Both
keep their variables until `clean_up` is to release everything under `case DONE`; but that case is
inside a loop that runs `while (state != DONE)`, and no iteration ever gets there. The child
releases nothing, and rcopy no more than what `filename` and `file_okay` close themselves
(`released_iff`).

A call of a state function comes with what it returned, which is left open here: what the loops do
is proved for whatever sequence of results. That the state functions of the two programs are among
these is said by `Server.processClient_of_reachable` and its counterparts for rcopy.
-/

namespace RemoteCopy

/-- What is opened or made for a transfer. rcopy opens up to ten sockets, one after the other. -/
inductive Resource where
  | socket (k : Nat)
  | file
  | window
  deriving DecidableEq, Repr

/-- What is held while the file is transferred, from the moment it is open. -/
def transferring (window : Bool) (socket : Nat) : List Resource :=
  if window then [.window, .file, .socket socket] else [.file, .socket socket]

section
variable {log : Ledger Resource} {window : Bool} {socket : Nat}

theorem not_balanced_of_transferring (h : log.held [] = some (transferring window socket)) :
    ¬ log.Balanced := by
  cases window with
  | false => exact Ledger.not_balanced h
  | true => exact Ledger.not_balanced h

/-- The window is made once. -/
theorem held_made (h : log.held [] = some (transferring window socket)) :
    Ledger.held [] (log ++ if window then [] else [.opened .window])
      = some (transferring true socket) := by
  cases window with
  | true =>
      rw [if_pos rfl, List.append_nil]
      exact h
  | false => exact Ledger.held_opened h (by simp)

end

/-! ## The child -/

/-- The states in which the child sends. -/
inductive Sending where
  | windowOpen
  | windowClosed
  | endOfFile
  deriving DecidableEq, Repr

inductive ClientState where
  | start
  | filename
  | sending (f : Sending)
  | done
  deriving DecidableEq, Repr

/-- What a call of a state function comes to, as the loop sees it. -/
inductive ClientReturn where
  | start
  /-- `filename`: the request was rejected, or this is what `open` returned. -/
  | filename (dataFile : Option Int)
  /-- Any other: the state that it returned, unless that is `DONE`. -/
  | sending (next : Option Sending)
  deriving DecidableEq, Repr

/-- The variables of `process_client` that `clean_up` looks at; `window` is whether there is one. -/
structure ProcessClient where
  state : ClientState
  dataFile : Int
  window : Bool
  log : Ledger Resource
  deriving DecidableEq

namespace ProcessClient

/-- `clean_up`, of the child. -/
def cleanUp (p : ProcessClient) : ProcessClient :=
  let freed := if p.window then [.released .window] else []
  let closed := if 0 < p.dataFile then [.released .file] else []
  { p with log := p.log ++ freed ++ closed ++ [.released (.socket 0)] }

/-- The `switch` of `process_client`, if the result is one of the function that is called. -/
def switch (p : ProcessClient) (result : ClientReturn) : Option ProcessClient :=
  match p.state, result with
  | .start, .start => some { p with state := .filename }
  | .filename, .filename none => some { p with state := .done }
  | .filename, .filename (some fd) =>
      let opened := if 0 ≤ fd then [.opened .file] else []
      -- the descriptor 0 counts as a failure
      let state := if 0 < fd then .sending .windowOpen else .done
      some { p with state := state, dataFile := fd, log := p.log ++ opened }
  | .sending .windowOpen, .sending next =>
      let made := if p.window then [] else [.opened .window]
      let state := (next.map ClientState.sending).getD .done
      some { p with state := state, window := true, log := p.log ++ made }
  | .sending _, .sending next =>
      some { p with state := (next.map ClientState.sending).getD .done }
  | .done, _ => some p.cleanUp
  | _, _ => none

/-- `process_client`, with the socket that was opened for it. -/
def system : System ProcessClient ClientReturn where
  init p := p = ⟨.start, 0, false, [.opened (.socket 0)]⟩
  -- `while (state != DONE)`
  step p result p' := p.state ≠ .done ∧ p.switch result = some p'

/-- What the child holds while it runs. -/
def holding (p : ProcessClient) : List Resource :=
  match p.state with
  | .sending _ => transferring p.window 0
  | _ => [.socket 0]

/-- The log says what is held; before the child sends there is no window, and in the end there is
something left. -/
structure Accounted (p : ProcessClient) : Prop where
  running : p.state ≠ .done → p.log.held [] = some p.holding
  window : p.state = .start ∨ p.state = .filename → p.window = false
  done : p.state = .done → ¬ p.log.Balanced

/-- The child goes on sending, or is done, with what it held. -/
theorem accounted_of_transferring {p : ProcessClient} (next : Option Sending)
    (hstate : p.state = (next.map ClientState.sending).getD .done)
    (h : p.log.held [] = some (transferring p.window 0)) : p.Accounted := by
  cases next with
  | none =>
      refine ⟨fun hc => absurd hstate hc, fun hc => ?_, fun _ => not_balanced_of_transferring h⟩
      rcases hc with hc | hc <;> cases hstate.symm.trans hc
  | some f =>
      have hsending : p.state = .sending f := hstate
      refine ⟨fun _ => ?_, fun hc => ?_, fun hc => ?_⟩
      · rw [h, holding, hsending]
      · rcases hc with hc | hc <;> cases hsending.symm.trans hc
      · cases hsending.symm.trans hc

theorem Accounted.step {p p' : ProcessClient} {result : ClientReturn} (h : p.Accounted)
    (hstep : system.step p result p') : p'.Accounted := by
  obtain ⟨hrunning, hstep⟩ := hstep
  have hheld := h.running hrunning
  unfold switch at hstep
  split at hstep
  · next hstate =>
      cases hstep
      rw [holding, hstate] at hheld
      exact ⟨fun _ => hheld, fun _ => h.window (.inl hstate), fun hc => (by cases hc)⟩
  · next hstate =>
      cases hstep
      rw [holding, hstate] at hheld
      exact ⟨fun hc => absurd rfl hc, fun hc => (by rcases hc with hc | hc <;> cases hc),
        fun _ => Ledger.not_balanced hheld⟩
  · next fd hstate =>
      cases hstep
      rw [holding, hstate] at hheld
      have hwindow := h.window (.inr hstate)
      have hopened : Ledger.held [] (p.log ++ [.opened .file]) = some [.file, .socket 0] :=
        Ledger.held_opened hheld (by decide)
      by_cases hfd : 0 < fd
      · refine accounted_of_transferring (some .windowOpen) (if_pos hfd) ?_
        show Ledger.held [] (p.log ++ if 0 ≤ fd then [.opened .file] else [])
          = some (transferring p.window 0)
        rw [if_pos (Int.le_of_lt hfd), hwindow]
        exact hopened
      · have hdone : (if 0 < fd then ClientState.sending .windowOpen else .done) = .done :=
          if_neg hfd
        refine ⟨fun hc => absurd hdone hc, fun _ => hwindow, fun _ => ?_⟩
        show ¬ Ledger.Balanced (p.log ++ if 0 ≤ fd then [.opened .file] else [])
        split
        · exact Ledger.not_balanced hopened
        · rw [List.append_nil]
          exact Ledger.not_balanced hheld
  · next next hstate =>
      cases hstep
      rw [holding, hstate] at hheld
      exact accounted_of_transferring next rfl (held_made hheld)
  · next f next _ hstate =>
      cases hstep
      rw [holding, hstate] at hheld
      exact accounted_of_transferring next rfl hheld
  · next hstate => exact absurd hstate hrunning
  · cases hstep

theorem accounted_of_reachable {p : ProcessClient} (h : system.Reachable p) : p.Accounted := by
  refine System.Reachable.invariant (P := Accounted) ?_ ?_ h
  · rintro p rfl
    exact ⟨fun _ => rfl, fun _ => rfl, fun hc => (by cases hc)⟩
  · exact fun p result p' _ hp hstep => hp.step hstep

end ProcessClient

/-! ## rcopy -/

/-- The states in which rcopy receives the file. -/
inductive ReceivingState where
  | inOrder
  | buffering
  | flush
  deriving DecidableEq, Repr

/-- The states of `processFile`; in `filename` with the count of its loop. -/
inductive FileState where
  | start
  | filename (count : Nat)
  | fileOkay
  | receiving (f : ReceivingState)
  | done
  deriving DecidableEq, Repr

/-- What an iteration of the loop of `filename` gets. -/
inductive Answer where
  | unanswered
  /-- `FILE_NOT_OK`. -/
  | refused
  /-- Something intact that is no answer. -/
  | unexpected
  | accepted
  deriving DecidableEq, Repr

/-- What a call of a state function comes to; for `filename`, what an iteration of its loop does. -/
inductive FileReturn where
  | start
  | filename (answer : Answer)
  /-- `file_okay`, with what `open` returned. -/
  | fileOkay (outputFileFd : Int)
  /-- Any other: the state that it returned, unless that is `DONE`. -/
  | receiving (next : Option ReceivingState)
  deriving DecidableEq, Repr

/-- The variables of `processFile` that `clean_up` looks at. -/
structure ProcessFile where
  state : FileState
  clientSocket : Nat
  outputFileFd : Int
  window : Bool
  log : Ledger Resource
  deriving DecidableEq

namespace ProcessFile

/-- `clean_up`, of rcopy. -/
def cleanUp (p : ProcessFile) : ProcessFile :=
  let freed := if p.window then [.released .window] else []
  let closed := if 0 < p.outputFileFd then [.released .file] else []
  { p with log := p.log ++ freed ++ closed ++ [.released (.socket p.clientSocket)] }

/-- An exit that closes the socket. -/
def closeSocket (p : ProcessFile) : ProcessFile :=
  { p with state := .done, log := p.log ++ [.released (.socket p.clientSocket)] }

/-- An iteration of `filename`, from its poll on. -/
def filename (p : ProcessFile) (count : Nat) : Answer → ProcessFile
  | .unanswered =>
      if count + 1 = 10 then p.closeSocket
      else
        let socket := p.clientSocket + 1
        { p with
          state := .filename (count + 1)
          clientSocket := socket
          log := p.log ++ [.released (.socket p.clientSocket)] ++ [.opened (.socket socket)] }
  | .refused => p.closeSocket
  | .unexpected => { p with state := .done }
  | .accepted => { p with state := .fileOkay }

/-- The `switch` of `processFile`, if the result is one of the function that is called. -/
def switch (p : ProcessFile) (result : FileReturn) : Option ProcessFile :=
  match p.state, result with
  | .start, .start =>
      some { p with
        state := .filename 0, clientSocket := 0, log := p.log ++ [.opened (.socket 0)] }
  | .filename count, .filename answer => some (p.filename count answer)
  | .fileOkay, .fileOkay fd =>
      if fd < 0 then some { p.closeSocket with outputFileFd := fd }
      else some { p with
        state := .receiving .inOrder, outputFileFd := fd, log := p.log ++ [.opened .file] }
  | .receiving .inOrder, .receiving next =>
      let made := if p.window then [] else [.opened .window]
      let state := (next.map FileState.receiving).getD .done
      some { p with state := state, window := true, log := p.log ++ made }
  | .receiving _, .receiving next =>
      some { p with state := (next.map FileState.receiving).getD .done }
  | .done, _ => some p.cleanUp
  | _, _ => none

/-- `processFile`. -/
def system : System ProcessFile FileReturn where
  init p := p = ⟨.start, 0, 0, false, []⟩
  -- `while (state != DONE)`
  step p result p' := p.state ≠ .done ∧ p.switch result = some p'

/-- What rcopy holds while it runs. -/
def holding (p : ProcessFile) : List Resource :=
  match p.state with
  | .start => []
  | .receiving _ => transferring p.window p.clientSocket
  | _ => [.socket p.clientSocket]

/-- The log says what is held, and before rcopy receives the file there is no window. -/
structure Accounted (p : ProcessFile) : Prop where
  held : p.log.held [] = some p.holding
  window : (∀ f, p.state ≠ .receiving f) → p.window = false

/-- The result ends `processFile` with its socket closed: the tenth request was not answered, the
file was refused, or the output file cannot be opened. -/
def Closes : FileState → FileReturn → Prop
  | .filename count, .filename .unanswered => count + 1 = 10
  | .filename _, .filename .refused => True
  | .fileOkay, .fileOkay fd => fd < 0
  | _, _ => False

section
variable {p p' : ProcessFile} {result : FileReturn}

theorem balanced_closeSocket (h : p.log.held [] = some [.socket p.clientSocket]) :
    p.closeSocket.log.Balanced := by
  have hreleased := Ledger.held_released h (List.mem_singleton_self _)
  rw [List.erase_cons_head] at hreleased
  exact hreleased

/-- What a step leaves: the books in order, or the end of the run, with everything released where
the result says so. -/
def Settled (state : FileState) (result : FileReturn) (p' : ProcessFile) : Prop :=
  (p'.state ≠ .done ∧ p'.Accounted) ∨
    (p'.state = .done ∧ (p'.log.Balanced ↔ Closes state result))

theorem settled_filename {count : Nat} {answer : Answer} (hwindow : p.window = false)
    (h : p.log.held [] = some [.socket p.clientSocket]) :
    Settled (.filename count) (.filename answer) (p.filename count answer) := by
  cases answer with
  | unanswered =>
      by_cases hcount : count + 1 = 10
      · simp only [filename, if_pos hcount]
        exact .inr ⟨rfl, iff_of_true (balanced_closeSocket h) hcount⟩
      · simp only [filename, if_neg hcount]
        refine .inl ⟨FileState.noConfusion, ?_, fun _ => hwindow⟩
        have hreleased := Ledger.held_released h (List.mem_singleton_self _)
        rw [List.erase_cons_head] at hreleased
        exact Ledger.held_opened hreleased List.not_mem_nil
  | refused => exact .inr ⟨rfl, iff_of_true (balanced_closeSocket h) trivial⟩
  | unexpected => exact .inr ⟨rfl, iff_of_false (Ledger.not_balanced h) id⟩
  | accepted => exact .inl ⟨FileState.noConfusion, h, fun _ => hwindow⟩

theorem settled_receiving {f : ReceivingState} (next : Option ReceivingState)
    (hstate : p'.state = (next.map FileState.receiving).getD .done)
    (h : p'.log.held [] = some (transferring p'.window p'.clientSocket)) :
    Settled (.receiving f) (.receiving next) p' := by
  cases next with
  | none => exact .inr ⟨hstate, iff_of_false (not_balanced_of_transferring h) id⟩
  | some g =>
      have hreceiving : p'.state = .receiving g := hstate
      refine .inl ⟨fun hc => (by cases hreceiving.symm.trans hc), ?_,
        fun hc => absurd hreceiving (hc g)⟩
      rw [h, holding, hreceiving]

/-- **What a step of `processFile` leaves.** -/
theorem Accounted.step (h : p.Accounted) (hstep : system.step p result p') :
    Settled p.state result p' := by
  obtain ⟨hrunning, hstep⟩ := hstep
  have hheld := h.held
  unfold switch at hstep
  split at hstep
  · next hstate =>
      cases hstep
      rw [holding, hstate] at hheld
      exact .inl ⟨FileState.noConfusion, Ledger.held_opened hheld List.not_mem_nil,
        fun _ => h.window fun f hc => (by cases hstate.symm.trans hc)⟩
  · next count answer hstate =>
      cases hstep
      rw [holding, hstate] at hheld
      rw [hstate]
      exact settled_filename (h.window fun f hc => (by cases hstate.symm.trans hc)) hheld
  · next fd hstate =>
      rw [holding, hstate] at hheld
      have hwindow := h.window fun f hc => (by cases hstate.symm.trans hc)
      rw [hstate]
      split at hstep
      · next hfd =>
          cases hstep
          exact .inr ⟨rfl, iff_of_true (balanced_closeSocket hheld) hfd⟩
      · cases hstep
        refine .inl ⟨FileState.noConfusion, ?_, fun hc => absurd rfl (hc .inOrder)⟩
        show Ledger.held [] (p.log ++ [.opened .file]) = some (transferring p.window p.clientSocket)
        rw [hwindow]
        exact Ledger.held_opened hheld (by simp)
  · next next hstate =>
      cases hstep
      rw [holding, hstate] at hheld
      rw [hstate]
      exact settled_receiving next rfl (held_made hheld)
  · next f next _ hstate =>
      cases hstep
      rw [holding, hstate] at hheld
      rw [hstate]
      exact settled_receiving next rfl hheld
  · next hstate => exact absurd hstate hrunning
  · cases hstep

theorem accounted_of_reachable (h : system.Reachable p) : p.state ≠ .done → p.Accounted := by
  refine System.Reachable.invariant (P := fun p => p.state ≠ .done → p.Accounted) ?_ ?_ h
  · rintro p rfl -
    exact ⟨rfl, fun _ => rfl⟩
  · intro p result p' _ hp hstep hrunning
    rcases (hp hstep.1).step hstep with ⟨-, hp'⟩ | ⟨hdone, -⟩
    · exact hp'
    · exact absurd hdone hrunning

end

end ProcessFile

/-! ## The state functions -/

/-- The state of `process_client` at a point, unless it is `DONE`. -/
def ServerPoint.sending : ServerPoint → Option Sending
  | .windowOpen | .windowOpenPoll => some .windowOpen
  | .windowClosed _ => some .windowClosed
  | .endOfFile | .endOfFileWait _ => some .endOfFile
  | .done _ => none

def ServerPoint.state (point : ServerPoint) : ClientState :=
  (point.sending.map ClientState.sending).getD .done

/-- The state of `processFile` at a point, unless it is `DONE`. -/
def RcopyPoint.receiving : RcopyPoint → Option ReceivingState
  | .inOrder => some .inOrder
  | .buffering => some .buffering
  | .flush => some .flush
  | .done _ => none

def RcopyPoint.state (point : RcopyPoint) : FileState :=
  (point.receiving.map FileState.receiving).getD .done

/-- A function in which the child sends may return any state. -/
theorem ProcessClient.exists_step {p : ProcessClient} {f : Sending} (h : p.state = .sending f)
    (next : Option Sending) : ∃ p', system.step p (.sending next) p' ∧
      p'.state = (next.map ClientState.sending).getD .done := by
  have hrunning : p.state ≠ .done := fun hc => (by cases h.symm.trans hc)
  cases f with
  | windowOpen => exact ⟨_, ⟨hrunning, by simp only [switch, h]; rfl⟩, rfl⟩
  | windowClosed => exact ⟨_, ⟨hrunning, by simp only [switch, h]; rfl⟩, rfl⟩
  | endOfFile => exact ⟨_, ⟨hrunning, by simp only [switch, h]; rfl⟩, rfl⟩

theorem ProcessFile.exists_step {p : ProcessFile} {f : ReceivingState} (h : p.state = .receiving f)
    (next : Option ReceivingState) : ∃ p', system.step p (.receiving next) p' ∧
      p'.state = (next.map FileState.receiving).getD .done := by
  have hrunning : p.state ≠ .done := fun hc => (by cases h.symm.trans hc)
  cases f with
  | inOrder => exact ⟨_, ⟨hrunning, by simp only [switch, h]; rfl⟩, rfl⟩
  | buffering => exact ⟨_, ⟨hrunning, by simp only [switch, h]; rfl⟩, rfl⟩
  | flush => exact ⟨_, ⟨hrunning, by simp only [switch, h]; rfl⟩, rfl⟩

/-- The runs of the child are runs of `process_client`. -/
theorem Server.processClient_of_reachable {o : ByteOrder} {windowSize bufferSize : Int}
    {blocks : List Bytes} {client : Addr} {s₀ s : Server}
    (hstart : start windowSize bufferSize blocks client = .ok s₀)
    (h : (system o s₀).Reachable s) :
    ∃ p, ProcessClient.system.Reachable p ∧ p.state = s.point.state := by
  refine System.Reachable.invariant (P := fun s =>
    ∃ p, ProcessClient.system.Reachable p ∧ p.state = s.point.state) ?_ ?_ h
  · rintro s rfl
    have hinit : ProcessClient.system.Reachable ⟨.start, 0, false, [.opened (.socket 0)]⟩ :=
      .init rfl
    have hfilename := hinit.step (i := .start) ⟨ClientState.noConfusion, rfl⟩
    have hopen := hfilename.step (i := .filename (some 3)) ⟨ClientState.noConfusion, rfl⟩
    refine ⟨_, hopen, ?_⟩
    rw [(of_start hstart).2.1]
    rfl
  · rintro s l s' - ⟨p, hp, hstate⟩ hstep
    cases hsending : s.point.sending with
    | none =>
        -- A child that is done takes no step.
        unfold ServerPoint.sending at hsending
        unfold system step at hstep
        split at hsending
        · cases hsending
        · cases hsending
        · cases hsending
        · cases hsending
        · cases hsending
        · next hpoint =>
            simp only [hpoint] at hstep
            cases hstep
    | some f =>
        rw [ServerPoint.state, hsending] at hstate
        obtain ⟨p', hstep', hstate'⟩ := ProcessClient.exists_step hstate s'.point.sending
        exact ⟨p', hp.step hstep', hstate'⟩

/-- So are those of rcopy, once its output file is open, runs of `processFile`. -/
theorem Rcopy.processFile_of_reachable {o : ByteOrder} {windowSize : Int}
    {bufferSize : BufferSize} {seq : UInt32} {addr : Addr} {r₀ r : Rcopy}
    (hstart : start windowSize bufferSize seq addr = .ok r₀) {p : ProcessFile}
    (hp : ProcessFile.system.Reachable p) (hopen : p.state = .receiving .inOrder)
    (h : (system o r₀).Reachable r) :
    ∃ p', ProcessFile.system.Reachable p' ∧ p'.state = r.point.state := by
  refine System.Reachable.invariant (P := fun r =>
    ∃ p', ProcessFile.system.Reachable p' ∧ p'.state = r.point.state) ?_ ?_ h
  · rintro r rfl
    refine ⟨p, hp, ?_⟩
    rw [hopen, (of_start hstart).2.1]
    rfl
  · rintro r l r' - ⟨p, hp, hstate⟩ hstep
    cases hpoint : r.point with
    | done why => exact absurd hpoint (step_done hstep why)
    | inOrder | buffering | flush =>
        rw [hpoint] at hstate
        obtain ⟨p', hstep', hstate'⟩ := ProcessFile.exists_step hstate r'.point.receiving
        exact ⟨p', hp.step hstep', hstate'⟩

namespace RcopySetup

variable {o : ByteOrder} {r : RcopySetup}

/-- What an iteration of `filename` gets from its poll. -/
def answer (o : ByteOrder) (bufferSize : BufferSize) : Poll → Answer
  | .timeout => .unanswered
  | .received _ stale datagram =>
      let (pduBuffer, recvLength) := recvfrom (pduHeaderLen + bufferSize) stale datagram
      if inCksum o (pduBuffer.take recvLength) = 0 then
        let recvFlag := byteAt pduBuffer recvFlagLocation
        let fileResponse := byteAt pduBuffer pduHeaderLen
        if recvFlag ≠ filenameResponseFlag then
          if recvFlag = dataPacketFlag ∨ recvFlag = resentTimeoutDataPacketFlag then .accepted
          else .unexpected
        else if fileResponse ≠ fileOk then .refused
        else .accepted
      else .unanswered

/-- The state of `processFile` in the setup phase. -/
def fileState (r : RcopySetup) : FileState :=
  match r.state with
  | .filename => .filename r.count
  | .fileOkay => .fileOkay
  | .done => .done

/-- Where an iteration of `filename` leads, for what it gets. -/
theorem fileState_filename (hwaits : r.state = .filename) (bufferSize : BufferSize)
    (server newSocket : Addr) (poll : Poll) {p : ProcessFile} :
    (r.filename o bufferSize server newSocket poll).1.fileState
      = (p.filename r.count (answer o bufferSize poll)).state := by
  have hretry (src : Addr) : (retry { r with serverAddress := src } server newSocket).1.fileState
      = (p.filename r.count .unanswered).state := by
    rw [retry, ProcessFile.filename]
    split
    · rfl
    · simp only [fileState, hwaits]
  cases poll with
  | timeout => exact hretry r.serverAddress
  | received src stale datagram =>
      simp only [filename, answer]
      split
      · split
        · split <;> rfl
        · split <;> rfl
      · exact hretry src

/-- An iteration of `filename` is one of `processFile`. -/
theorem processFile_of_filename (hwaits : r.state = .filename) (bufferSize : BufferSize)
    (server newSocket : Addr) (poll : Poll) {p : ProcessFile}
    (hp : ProcessFile.system.Reachable p) (hstate : p.state = r.fileState) :
    ∃ p', ProcessFile.system.Reachable p' ∧
      p'.state = (r.filename o bufferSize server newSocket poll).1.fileState := by
  have hcount : p.state = .filename r.count := by
    rw [hstate, fileState, hwaits]
  have hstep : ProcessFile.system.step p (.filename (answer o bufferSize poll))
      (p.filename r.count (answer o bufferSize poll)) :=
    ⟨fun hc => (by cases hcount.symm.trans hc), by simp only [ProcessFile.switch, hcount]⟩
  exact ⟨_, hp.step hstep, (fileState_filename hwaits bufferSize server newSocket poll).symm⟩

end RcopySetup

/-! ## Every way out -/

/-- **Who releases what.** However `process_client` ends, it has not released everything; and
`processFile` has if and only if it ends with the tenth request unanswered, with the file refused by
the server, or with an output file that cannot be opened. -/
theorem released_iff (p p' : ProcessClient) (clientReturn : ClientReturn) (r r' : ProcessFile)
    (fileReturn : FileReturn) :
    (ProcessClient.system.Reachable p → ProcessClient.system.step p clientReturn p' →
      p'.state = .done → ¬ p'.log.Balanced) ∧
    (ProcessFile.system.Reachable r → ProcessFile.system.step r fileReturn r' →
      r'.state = .done → (r'.log.Balanced ↔ ProcessFile.Closes r.state fileReturn)) := by
  constructor
  · intro hp hstep hdone
    exact (ProcessClient.accounted_of_reachable (hp.step hstep)).done hdone
  · intro hr hstep hdone
    rcases (ProcessFile.accounted_of_reachable hr hstep.1).step hstep with ⟨hrunning, -⟩ | ⟨-, h⟩
    · exact absurd hdone hrunning
    · exact h

/-- A file that the server does not have: the child keeps its socket, and rcopy closes its own. -/
theorem released_iff_refused : (∃ p : ProcessClient, ProcessClient.system.Reachable p ∧
    p.state = .done ∧ ¬ p.log.Balanced) ∧ ∃ r : ProcessFile, ProcessFile.system.Reachable r ∧
    r.state = .done ∧ r.log.Balanced := by
  have hclient : ProcessClient.system.Reachable ⟨.start, 0, false, [.opened (.socket 0)]⟩ :=
    .init rfl
  have hfilename := hclient.step (i := .start) ⟨ClientState.noConfusion, rfl⟩
  obtain ⟨p, hmissing, hkept⟩ : ∃ p, ProcessClient.system.step
      ⟨.filename, 0, false, [.opened (.socket 0)]⟩ (.filename (some (-1))) p ∧
      p.state = .done := ⟨_, ⟨ClientState.noConfusion, rfl⟩, rfl⟩
  have hinit : ProcessFile.system.Reachable ⟨.start, 0, 0, false, []⟩ := .init rfl
  have hstarted := hinit.step (i := .start) ⟨FileState.noConfusion, rfl⟩
  obtain ⟨r, hrefused, hclosed⟩ : ∃ r, ProcessFile.system.step
      ⟨.filename 0, 0, 0, false, [.opened (.socket 0)]⟩ (.filename .refused) r ∧
      r.state = .done := ⟨_, ⟨FileState.noConfusion, rfl⟩, rfl⟩
  obtain ⟨hnever, hiff⟩ := released_iff _ p _ _ r _
  exact ⟨⟨p, hfilename.step hmissing, hkept, hnever hfilename hmissing hkept⟩,
    r, hstarted.step hrefused, hclosed, (hiff hstarted hrefused hclosed).mpr trivial⟩

/-- The child that has told rcopy so keeps its socket. -/
theorem not_released : (∃ d, Server.filename .little Server.noFiles 7
      (recvfrom Server.requestBufferLength [] (encodePDU .little 0 filenameFlag
        (requestPayload 1 leastBufferSize [97]))).1
      (recvfrom Server.requestBufferLength [] (encodePDU .little 0 filenameFlag
        (requestPayload 1 leastBufferSize [97]))).2 = .ok (none, [d])) ∧
    ∃ p : ProcessClient, ProcessClient.system.Reachable p ∧ p.state = .done ∧
      p.log = [.opened (.socket 0)] ∧ ¬ p.log.Balanced := by
  have hinit : ProcessClient.system.Reachable ⟨.start, 0, false, [.opened (.socket 0)]⟩ :=
    .init rfl
  have hfilename := hinit.step (i := .start) ⟨ClientState.noConfusion, rfl⟩
  have hmissing := hfilename.step (i := .filename (some (-1))) ⟨ClientState.noConfusion, rfl⟩
  exact ⟨⟨_, rfl⟩, _, hmissing, rfl, rfl, by decide⟩

end RemoteCopy

import RemoteCopy.CopyErrors
import RemoteCopy.Library.Chunks

/-!
# Regular files

What the server's `read`s return comes from a file with contents, if there is one of that name. If
there is, the bytes that rcopy has written are the first ones of these contents, and all of them in
the end (`ErrorCopy.bytes_of_reachable`). If there is none, rcopy never gets as far as opening the
file it would write to, even over UDP (`Setup.refused_of_reachable`).
-/

namespace RemoteCopy

/-- A server with regular files: `read` returns the next `bufSize` bytes, or what is left. -/
def Files.regular (contents : Bytes → Option Bytes) : Files where
  reads fname bufSize := (contents fname).map fun bytes => bytes.chunks bufSize.toNat
  reads_fit fname bufSize blocks h block hblock := by
    obtain ⟨bytes, -, rfl⟩ := Option.map_eq_some_iff.mp h
    obtain ⟨hne, hlen⟩ := List.of_mem_chunks hblock
    refine ⟨hne, ?_⟩
    have hpos := List.length_pos_of_ne_nil hne
    omega

/-! ## A file that is there -/

namespace ErrorCopy

variable {P : ErrorCopy} {x : ErrorNet}

/-- **The bytes are copied**: what rcopy has written are the first `current` times `bufferSize`
bytes of the file, as far as there are that many, and after the EOF ACK all of it. -/
theorem bytes_of_reachable {contents : Bytes → Option Bytes}
    (hfiles : P.copy.files = Files.regular contents) (h : P.system.Reachable x) {r : Rcopy}
    (hr : x.net.transfer = some r) : ∃ (bytes : Bytes) (current : Nat),
      contents P.copy.args.fromFile = some bytes ∧ r.window.current = current ∧
      r.outputFile.flatten = bytes.take (current * P.copy.args.bufferSize.toNat) ∧
      (r.point = .done .eofAck → r.outputFile.flatten = bytes) := by
  obtain ⟨net, hshows⟩ := shows_of_reachable h
  obtain ⟨toServer, toRcopy, hnet, -⟩ := hshows.queues
  rw [hnet] at hr
  obtain ⟨k, current, s, -, hcurrent, hfile, -, -, hdone⟩ :=
    (Copy.copying_of_reachable hshows.reachable).copied hr
  have hopens := P.copy.opens
  rw [hfiles] at hopens
  obtain ⟨bytes, hcontents, hblocks⟩ := Option.map_eq_some_iff.mp hopens
  have hsize := of_checkArgs P.copy.accepted
  have hpos : 0 < P.copy.args.bufferSize.toNat := by omega
  refine ⟨bytes, current, hcontents, hcurrent, ?_, fun hend => ?_⟩
  · rw [hfile, ← hblocks, List.flatten_take_chunks hpos]
  · rw [(hdone (.inl hend)).2, ← hblocks, List.flatten_chunks hpos]

/-! ### A file of two blocks -/

/-- The second `read` returns a single byte. -/
def twoBlocks : ErrorCopy where
  copy := { Copy.smallCopy with
    files := Files.regular fun _ => some (List.replicate 108 45 ++ [46])
    blocks := [List.replicate 108 45, [46]]
    opens := rfl
    range := by decide }
  rcopyEnv := ⟨none, none, none, none⟩
  rcopyRate := .finite 0
  serverEnv := ⟨none, none, none, none⟩
  serverRate := .finite 0

theorem initial_twoBlocks : twoBlocks.copy.session.Initial Copy.smallCopyNet where
  rcopy := Copy.initial_smallCopyNet.rcopy
  transfer := rfl
  children := rfl
  toServer := rfl
  toRcopy := rfl
  opened := rfl
  requests := rfl

/-- The copy up to rcopy's EOF ACK, with none of the RRs received. -/
def twoBlocksCopied : List ErrorEvent :=
  [.session (.serve 0 [] Copy.smallCopy.request 2),
    .session (.filename (.received 2 [] (encodePDU .big 0 filenameResponseFlag [fileOk])) 9),
    .session .fileOkay, .session (.child 0 (.run false 0)), .session (.child 0 (.poll .timeout)),
    .session (.child 0 (.run false 0)), .session (.child 0 (.poll .timeout)),
    .session (.child 0 (.run false 0)), .session (.child 0 (.run false 0)),
    .session (.transfer (.poll (.received 2 []
      (encodePDU .big 0 dataPacketFlag (List.replicate 108 45))) .complete 0)),
    .session (.transfer (.poll (.received 2 [] (encodePDU .big 1 dataPacketFlag [46]))
      .complete 0)),
    .session (.transfer (.poll (.received 2 [] (encodePDU .big 2 eofFlag [0])) .complete 0))].map
    fun e => ⟨e, 0, 0⟩

theorem bytes_twoBlocks : ∃ x r, twoBlocks.system.Reachable x ∧ x.net.transfer = some r ∧
    r.outputFile.length = 2 ∧ r.outputFile.flatten = List.replicate 108 45 ++ [46] := by
  obtain ⟨x, hx, hp⟩ := exists_of_begun (P := twoBlocks) initial_twoBlocks 1 twoBlocksCopied
    (fun x => x.net.transfer.any fun r : Rcopy =>
      decide (r.point = .done .eofAck ∧ r.outputFile.length = 2)) (by decide +kernel)
  obtain ⟨r, hr, hdone⟩ := (Option.any_eq_true _ _).mp hp
  obtain ⟨hpoint, hlength⟩ := of_decide_eq_true hdone
  obtain ⟨bytes, current, hcontents, -, -, hend⟩ := bytes_of_reachable (P := twoBlocks) rfl hx hr
  exact ⟨x, r, hx, hr, hlength, (hend hpoint).trans (Option.some.inj hcontents).symm⟩

end ErrorCopy

/-! ## A file that is not there -/

namespace Setup

variable (P : Setup)

/-- The answer to a request for a file that cannot be opened. -/
def refusal : Bytes := encodePDU P.serverOrder 0 filenameResponseFlag [fileNotOk]

/-- Nothing but requests and refusals is on its way. -/
structure Refused (net : SetupNet) : Prop where
  pduBuffer : net.rcopy.pduBuffer = P.requestBytes
  serverAddress : net.rcopy.state = .filename → net.rcopy.serverAddress = P.serverAddr
  state : net.rcopy.state ≠ .fileOkay
  toServer : ∀ x ∈ net.toServer, x.datagram = ⟨P.serverAddr, P.requestBytes⟩
  children : net.children = []
  toRcopy : ∀ x ∈ net.toRcopy, x.datagram.bytes = P.refusal

variable {P} {net net' : SetupNet}

theorem Refused.initial (h : P.Initial net) : P.Refused net := by
  have hsound : P.Sound [] net := .initial h
  obtain ⟨pduBuffer, -, hstart⟩ := C.bind_eq_ok.mp h.rcopy
  have hstate : net.rcopy.state = .filename := by rw [← Except.ok.inj hstart]
  refine ⟨hsound.pduBuffer, hsound.serverAddress, ?_, hsound.toServer, h.children, fun x hx => ?_⟩
  · rw [hstate]
    decide
  · rw [h.toRcopy] at hx
    cases hx

/-- The main process forks a child, which refuses at most. -/
theorem Refused.serve (h : P.Refused net) (hnone : P.files.reads P.fromFile P.bufferSize = none)
    {src : Addr} {stale datagram : Bytes}
    (hrecv : P.MainReceives net.toServer src stale datagram) {opened : Option Server.Opened}
    {ds : List Datagram}
    (hfilename : Server.filename P.serverOrder P.files src
      (recvfrom Server.requestBufferLength stale datagram).1
      (recvfrom Server.requestBufferLength stale datagram).2 = .ok (opened, ds)) :
    opened = none ∧ ∀ d ∈ ds, d.bytes = P.refusal := by
  have hmax := P.windowSize_lt
  obtain ⟨x, hx, -, -, hintact | hrejected⟩ := hrecv
  · rw [h.toServer x hx] at hintact
    rw [Server.filename_request P.rcopyOrder P.serverOrder P.files src 0 stale P.fromFile_le
      P.nul_notMem (by omega) (by omega) hintact, hnone] at hfilename
    cases hfilename
    refine ⟨rfl, fun d hd => ?_⟩
    rw [List.mem_singleton.mp hd]
    rfl
  · rw [Rejected] at hrejected
    rw [Server.filename, hrejected] at hfilename
    cases hfilename
    exact ⟨rfl, fun d hd => (by cases hd)⟩

/-- A refusal that arrives as it was sent ends rcopy. -/
theorem filename_refusal (r : RcopySetup) (src : Addr) (stale : Bytes) (newSocket : Addr) :
    r.filename P.rcopyOrder P.bufferSize P.serverAddr newSocket (.received src stale P.refusal)
      = (.leave { r with serverAddress := src } .done, []) := by
  have hsize := P.bufferSize.2.1
  have hfit : [fileNotOk].length ≤ P.bufferSize := by
    rw [List.length_singleton]
    omega
  exact r.filename_received P.rcopyOrder P.serverOrder 0 filenameResponseFlag fileNotOk hfit
    P.serverAddr newSocket src stale rfl

/-- Whatever rcopy receives, it does not go on. -/
theorem Refused.rcopy (h : P.Refused net) {p : Poll} (hrecv : P.RcopyReceives net p)
    (newSocket : Addr) : (net.rcopy.filename P.rcopyOrder P.bufferSize P.serverAddr newSocket p
      ).1.state ≠ .fileOkay := by
  have hretry (r : RcopySetup) (hr : r.state ≠ .fileOkay) :
      (r.retry P.serverAddr newSocket).1.state ≠ .fileOkay := by
    rw [RcopySetup.retry]
    split
    · exact fun hc => by cases hc
    · exact hr
  cases p with
  | timeout => exact hretry _ h.state
  | received src stale datagram =>
      obtain hc | ⟨x, hx, -, -, hbytes⟩ := hrecv
      · cases hc
      rcases hbytes with rfl | hdamaged
      · rw [h.toRcopy x hx, filename_refusal]
        exact fun hc => by cases hc
      · rw [Damaged] at hdamaged
        simp only [RcopySetup.filename, if_neg hdamaged]
        exact hretry _ h.state

theorem Refused.step (h : P.Refused net) (hnone : P.files.reads P.fromFile P.bufferSize = none)
    {e : SetupEvent} (hstep : P.next net e = some net') : P.Refused net' := by
  cases e with
  | serve src stale datagram childAddr =>
      simp only [next] at hstep
      split at hstep
      · next hrecv =>
          split at hstep
          · next opened ds hfilename =>
              cases hstep
              obtain ⟨rfl, hds⟩ := h.serve hnone hrecv.1 hfilename
              refine ⟨h.pduBuffer, h.serverAddress, h.state, h.toServer, ?_, fun x hx => ?_⟩
              · show net.children ++ [] = []
                rw [h.children, List.nil_append]
              · rcases List.mem_append.mp hx with hx | hx
                · exact h.toRcopy x hx
                · obtain ⟨d, hd, rfl⟩ := List.mem_map.mp hx
                  exact hds d hd
          · cases hstep
      · cases hstep
  | child k i =>
      rw [next, h.children, List.getElem?_nil] at hstep
      cases hstep
  | rcopy p newSocket =>
      simp only [next] at hstep
      split at hstep
      · next hrecv =>
          cases hstep
          obtain ⟨hbuffer, hserver, hsent⟩ := net.rcopy.filename_keeps P.rcopyOrder P.bufferSize
            P.serverAddr newSocket p
          refine ⟨hbuffer.trans h.pduBuffer, hserver, h.rcopy hrecv.2 newSocket, fun x hx => ?_,
            h.children, h.toRcopy⟩
          rcases List.mem_append.mp hx with hx | hx
          · exact h.toServer x hx
          · rw [hsent x hx, h.pduBuffer]
      · cases hstep

/-- **What is not there is not copied**: if the file cannot be opened, then over UDP, whatever is
lost, repeated, delayed or damaged, no child starts to send, rcopy never gets as far as opening its
own file, and what is sent to it are refusals, each of which ends it if it arrives as it was
sent. -/
theorem refused_of_reachable (hnone : P.files.reads P.fromFile P.bufferSize = none)
    (h : P.udp.Reachable net) : net.children = [] ∧ net.rcopy.state ≠ .fileOkay ∧
      ∀ x ∈ net.toRcopy, x.datagram.bytes = P.refusal ∧
        (net.rcopy.state = .filename → x.datagram.dest = net.rcopy.clientSocket →
          ∀ stale newSocket, ∃ net',
            P.udp.step net (.rcopy (.received x.src stale x.datagram.bytes) newSocket) net' ∧
            net'.rcopy.state = .done) := by
  have hrefused : P.Refused net :=
    System.Reachable.invariant (fun _ => Refused.initial) (fun _ _ _ _ hr => hr.step hnone) h
  refine ⟨hrefused.children, hrefused.state, fun x hx => ⟨hrefused.toRcopy x hx, ?_⟩⟩
  intro hwaits hdest stale newSocket
  have hrecv : P.RcopyReceives net (.received x.src stale x.datagram.bytes) :=
    .inr ⟨x, hx, hdest, rfl, .inl rfl⟩
  refine ⟨{ net with
    rcopy := .leave { net.rcopy with serverAddress := x.src } .done
    toServer := net.toServer ++ [] }, ?_, rfl⟩
  show P.next net _ = _
  rw [next, if_pos ⟨hwaits, hrecv⟩, hrefused.toRcopy x hx, filename_refusal]

/-! ### A server without files -/

def emptySetup : Setup :=
  { smallSetup [[44]] (by decide) with files := Files.regular fun _ => none }

theorem initial_emptySetup : emptySetup.Initial smallSetupNet where
  rcopy := by
    rw [RcopySetup.start, createRequest_eq emptySetup.fromFile_le]
    rfl
  children := rfl
  toServer := rfl
  toRcopy := rfl

/-- The request arrives twice, and the second refusal ends rcopy. -/
theorem refused_emptySetup : ∃ net x, emptySetup.udp.Reachable net ∧ net.toRcopy.length = 2 ∧
    net.toRcopy[1]? = some x ∧ ∃ net',
      emptySetup.udp.step net (.rcopy (.received x.src [] x.datagram.bytes) 8) net' ∧
      net'.rcopy.state = .done := by
  have hinit : emptySetup.udp.Reachable smallSetupNet := .init initial_emptySetup
  obtain ⟨net, hnet, hp⟩ := hinit.exists_of_run emptySetup.next (fun _ e _ h => ⟨e, h⟩)
    [.serve 7 [] emptySetup.requestBytes 2, .serve 7 [] emptySetup.requestBytes 3]
    (fun net => decide (net.rcopy.state = .filename ∧ net.toRcopy.length = 2) &&
      net.toRcopy[1]?.any fun x : Sent => decide (x.datagram.dest = net.rcopy.clientSocket))
    (by decide +kernel)
  obtain ⟨hwaits, hx⟩ := Bool.and_eq_true_iff.mp hp
  obtain ⟨x, hget, hdest⟩ := (Option.any_eq_true _ _).mp hx
  obtain ⟨-, -, hrefused⟩ := refused_of_reachable (P := emptySetup) rfl hnet
  obtain ⟨-, hends⟩ := hrefused x (List.mem_of_getElem? hget)
  exact ⟨net, x, hnet, (of_decide_eq_true hwaits).2, hget,
    hends (of_decide_eq_true hwaits).1 (of_decide_eq_true hdest) [] 8⟩

end Setup

end RemoteCopy

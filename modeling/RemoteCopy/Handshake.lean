import RemoteCopy.Setup
import RemoteCopy.Transfer
import RemoteCopy.ServerInvariant

/-!
# The handshake

rcopy in `filename`, the main process of the server, and the children it forks, over UDP: whatever
was sent may arrive any number of times, at any time and in any order, damaged or not at all. A
child starts sending the file as soon as it has opened it, so rcopy takes data for an answer too.
The invariant `Setup.Sound` says what can be on its way to rcopy while it waits.
-/

namespace RemoteCopy

/-- What rcopy was called with, and the server it is to ask. -/
structure Setup where
  files : Files
  fromFile : Bytes
  windowSize : Nat
  bufferSize : BufferSize
  serverOrder : ByteOrder
  rcopyOrder : ByteOrder
  serverAddr : Addr
  fromFile_le : fromFile.length ≤ maxFilenameLength
  nul_notMem : 0 ∉ fromFile
  windowSize_pos : 0 < windowSize
  windowSize_lt : windowSize < 2147483648

/-- A child, and the address of its socket. -/
structure Child where
  addr : Addr
  server : Server

/-- The programs, and what was ever sent to either side. -/
structure SetupNet where
  rcopy : RcopySetup
  children : List Child
  toServer : List Sent
  toRcopy : List Sent

/-- The main process receives a datagram and forks a child with a new socket; a child takes a step;
or rcopy goes on from its poll, with a new socket if it needs one. -/
inductive SetupEvent where
  | serve (src : Addr) (stale datagram : Bytes) (childAddr : Addr)
  | child (k : Nat) (i : ServerInput)
  | rcopy (p : Poll) (newSocket : Addr)

/-- What a poll at `addr` receives is `x`, or what corruption has made of it. -/
def Sent.ReceivedAs (x : Sent) (addr : Addr) (corrupt : Bytes → Bytes → Prop) : Poll → Prop
  | .timeout => False
  | .received src stale datagram => x.datagram.dest = addr ∧ src = x.src ∧
      (datagram = x.datagram.bytes ∨ corrupt stale datagram)

instance (x : Sent) (addr : Addr) (corrupt : Bytes → Bytes → Prop)
    [∀ stale datagram, Decidable (corrupt stale datagram)] :
    DecidablePred (x.ReceivedAs addr corrupt)
  | .timeout => isFalse id
  | .received _ _ _ => inferInstanceAs (Decidable (_ ∧ _ ∧ (_ ∨ _)))

/-- What a receive of the datagram leaves in a buffer of `size` bytes fails the checksum. -/
def Damaged (o : ByteOrder) (size : Nat) (stale datagram : Bytes) : Prop :=
  inCksum o ((recvfrom size stale datagram).1.take (recvfrom size stale datagram).2) ≠ 0

instance (o : ByteOrder) (size : Nat) (stale datagram : Bytes) :
    Decidable (Damaged o size stale datagram) :=
  inferInstanceAs (Decidable (_ ≠ _))

namespace Setup

variable (P : Setup)

/-! ## Steps -/

/-- The child of a request from `src`, if its `filename` returns `WINDOW_OPEN`. -/
def fork (childAddr src : Addr) : Option Server.Opened → List Child
  | none => []
  | some opened =>
      match Server.start opened.windowSize opened.bufSize opened.dataFile src with
      | .ok s => [⟨childAddr, s⟩]
      | .error _ => []

/-- What a child receives, if anything, was sent to it. -/
def ChildReceives (addr : Addr) (toServer : List Sent) : ServerInput → Prop
  | .poll (.received src stale datagram) => ∃ x ∈ toServer,
      x.ReceivedAs addr (Rejected P.serverOrder (pduHeaderLen + rcopyResponsesPacketLength))
        (.received src stale datagram)
  | _ => True

instance (addr : Addr) (toServer : List Sent) : DecidablePred (P.ChildReceives addr toServer)
  | .run _ _ => isTrue trivial
  | .poll .timeout => isTrue trivial
  | .poll (.received _ _ _) => inferInstanceAs (Decidable (∃ x ∈ toServer, _))

/-- What rcopy receives on its current socket, if anything, was sent to that. -/
def RcopyReceives (net : SetupNet) (p : Poll) : Prop :=
  p = .timeout ∨ ∃ x ∈ net.toRcopy, x.ReceivedAs net.rcopy.clientSocket
    (Damaged P.rcopyOrder (pduHeaderLen + P.bufferSize)) p

instance (net : SetupNet) : DecidablePred (P.RcopyReceives net) := fun _ =>
  inferInstanceAs (Decidable (_ ∨ ∃ x ∈ net.toRcopy, _))

/-- What the main process receives was sent to its port. -/
def MainReceives (toServer : List Sent) (src : Addr) (stale datagram : Bytes) : Prop :=
  ∃ x ∈ toServer, x.ReceivedAs P.serverAddr (Rejected P.serverOrder Server.requestBufferLength)
    (.received src stale datagram)

instance (toServer : List Sent) (src : Addr) (stale datagram : Bytes) :
    Decidable (P.MainReceives toServer src stale datagram) :=
  inferInstanceAs (Decidable (∃ x ∈ toServer, _))

/-- The handshake over UDP. The steps are computed. -/
def next (net : SetupNet) : SetupEvent → Option SetupNet
  | .serve src stale datagram childAddr =>
      if P.MainReceives net.toServer src stale datagram ∧ childAddr ≠ P.serverAddr then
        let (buf, recvLen) := recvfrom Server.requestBufferLength stale datagram
        match Server.filename P.serverOrder P.files src buf recvLen with
        | .ok (opened, ds) => some { net with
            children := net.children ++ fork childAddr src opened
            toRcopy := net.toRcopy ++ ds.map (Sent.mk childAddr) }
        | .error _ => none
      else none
  | .child k i =>
      match net.children[k]? with
      | some c =>
          if P.ChildReceives c.addr net.toServer i then
            match c.server.step P.serverOrder i with
            | some (.ok (s, ds)) => some { net with
                children := net.children.set k ⟨c.addr, s⟩
                toRcopy := net.toRcopy ++ ds.map (Sent.mk c.addr) }
            | _ => none
          else none
      | none => none
  | .rcopy p newSocket =>
      if net.rcopy.state = .filename ∧ P.RcopyReceives net p then
        let (r, xs) := net.rcopy.filename P.rcopyOrder P.bufferSize P.serverAddr newSocket p
        some { net with rcopy := r, toServer := net.toServer ++ xs }
      else none

/-- rcopy has sent its first request. -/
structure Initial (net : SetupNet) : Prop where
  rcopy : RcopySetup.start P.rcopyOrder P.windowSize P.bufferSize P.fromFile P.serverAddr
    net.rcopy.clientSocket = .ok net.rcopy
  children : net.children = []
  toServer : net.toServer = [net.rcopy.request]
  toRcopy : net.toRcopy = []

def udp : System SetupNet SetupEvent where
  init := P.Initial
  step net e net' := P.next net e = some net'

/-! ## What is on its way -/

/-- rcopy's request. -/
def requestBytes : Bytes :=
  encodePDU P.rcopyOrder 0 filenameFlag (requestPayload P.windowSize P.bufferSize P.fromFile)

/-- What a child sends before it has heard anything: that the file is open, a block, a block again
after a timeout, or the EOF. -/
def Announces (b : Bytes) : Prop :=
  ∃ number flag x rest, b = encodePDU P.serverOrder number flag (x :: rest) ∧
    (x :: rest).length ≤ P.bufferSize ∧
    ((flag = filenameResponseFlag ∧ x = fileOk) ∨ flag = dataPacketFlag ∨
      flag = resentTimeoutDataPacketFlag ∨ flag = eofFlag)

/-- As long as rcopy waits, nothing but its request is on its way to the server, so the children
have heard nothing, and nothing but what they announce is on its way to rcopy. -/
structure Sound (blocks : List Bytes) (net : SetupNet) : Prop where
  pduBuffer : net.rcopy.pduBuffer = P.requestBytes
  serverAddress : net.rcopy.state = .filename → net.rcopy.serverAddress = P.serverAddr
  toServer : ∀ x ∈ net.toServer, x.datagram = ⟨P.serverAddr, P.requestBytes⟩
  addr : ∀ c ∈ net.children, c.addr ≠ P.serverAddr
  bufferSize : ∀ c ∈ net.children, c.server.bufferSize = P.bufferSize
  holds : ∀ c ∈ net.children, ∃ L K m,
    c.server.Holds P.serverOrder P.windowSize blocks L K m
  toRcopy : ∀ x ∈ net.toRcopy, P.Announces x.datagram.bytes

variable {P} {blocks : List Bytes} {net net' : SetupNet}

theorem Sound.initial (h : P.Initial net) : P.Sound blocks net := by
  obtain ⟨pduBuffer, hcreate, hstart⟩ := C.bind_eq_ok.mp h.rcopy
  rw [createRequest_eq P.fromFile_le] at hcreate
  cases hcreate
  have hrcopy := Except.ok.inj hstart
  have hbuffer : net.rcopy.pduBuffer = P.requestBytes := by
    rw [← hrcopy]
    rfl
  have hserver : net.rcopy.serverAddress = P.serverAddr := by rw [← hrcopy]
  refine ⟨hbuffer, fun _ => hserver, fun x hx => ?_, ?_, ?_, ?_, ?_⟩
  · rw [h.toServer, List.mem_singleton] at hx
    rw [hx, RcopySetup.request, hserver, hbuffer]
  · simp [h.children]
  · simp [h.children]
  · simp [h.children]
  · simp [h.toRcopy]

/-- A child to which nothing was sent hears nothing. -/
theorem Sound.silent (h : P.Sound blocks net) {addr : Addr} (haddr : addr ≠ P.serverAddr)
    {i : ServerInput} (hi : P.ChildReceives addr net.toServer i) : i.Silent := by
  cases i with
  | run readFails junk => trivial
  | poll p =>
      cases p with
      | timeout => trivial
      | received src stale datagram =>
          obtain ⟨x, hx, hdest, -⟩ := hi
          rw [h.toServer x hx] at hdest
          exact haddr hdest.symm

/-- A silent step of a child keeps its window, and sends nothing but data and the EOF. -/
theorem announces_of_step {s s' : Server} {L K : Nat} {m : Nat → Option Packet}
    (hfit : ∀ block ∈ blocks, block ≠ [] ∧ (block.length : Int) ≤ P.bufferSize)
    (h : s.Holds P.serverOrder P.windowSize blocks L K m) {i : ServerInput} (hi : i.Silent)
    {ds : List Datagram} (hstep : s.step P.serverOrder i = some (.ok (s', ds))) :
    (∃ L' K' m', s'.Holds P.serverOrder P.windowSize blocks L' K' m') ∧
      s'.bufferSize = s.bufferSize ∧ ∀ d ∈ ds, P.Announces d.bytes := by
  have hack : Server.AcknowledgesSent P.serverOrder s i := by
    rintro src stale datagram rr rfl _
    exact hi.elim
  obtain ⟨heffect, -, hsize, -⟩ := Server.stepped hstep
  refine ⟨h.step hstep hack, hsize, fun d hd => ?_⟩
  have hbytes := P.bufferSize.2.1
  have hblock {number : UInt32} {flag : Byte} {block : Bytes} (hmem : block ∈ blocks)
      (hflag : flag = dataPacketFlag ∨ flag = resentTimeoutDataPacketFlag) :
      P.Announces (encodePDU P.serverOrder number flag block) := by
    obtain ⟨hne, hlen⟩ := hfit block hmem
    obtain ⟨x, rest, rfl⟩ := List.exists_cons_of_ne_nil hne
    exact ⟨number, flag, x, rest, rfl, by omega, .inr (hflag.elim .inl fun h => .inr (.inl h))⟩
  have heof (number : UInt32) (junk : Byte) :
      P.Announces (encodePDU P.serverOrder number eofFlag [junk]) :=
    ⟨number, eofFlag, junk, [], rfl, by rw [List.length_singleton]; omega, .inr (.inr (.inr rfl))⟩
  -- A child that has heard nothing sends its blocks, resends `lower`, or sends the EOF.
  cases heffect with
  | idle _ _ _ => cases hd
  | sent hpoint hopen hfile hsend =>
      obtain ⟨hget, -, rfl, -⟩ := h.sent hpoint hopen hfile hsend
      cases List.mem_singleton.mp hd
      exact hblock (List.mem_of_getElem? hget) (.inl rfl)
  | sentEof hpoint hsend =>
      obtain ⟨-, -, rfl, -⟩ := h.sentEof hpoint hsend
      cases List.mem_singleton.mp hd
      exact heof _ _
  | released _ _ _ _ => exact hi.elim
  | resent hcause hresend _ _ _ =>
      cases List.mem_singleton.mp hd
      cases hcause with
      | srej _ => exact hi.elim
      | timeout _ =>
          have hpos := P.windowSize_pos
          rw [h.shows.lower] at hresend
          obtain ⟨k, packet, hpacket, -, rfl⟩ := h.resent (by omega) hresend
          rcases h.carries hpacket with ⟨-, block, hget, hcarries⟩ | ⟨-, -, junk, hcarries⟩
          · rw [hcarries.payload_eq, hcarries.resentFlag_data]
            exact hblock (List.mem_of_getElem? hget) (.inr rfl)
          · rw [hcarries.payload_eq, hcarries.resentFlag_eof]
            exact heof _ _

/-- The answer of a child, and what it has learnt, when the main process receives the request. -/
theorem Sound.serve (h : P.Sound blocks net)
    (hopen : P.files.reads P.fromFile P.bufferSize = some blocks) {src : Addr}
    {stale datagram : Bytes} (hrecv : P.MainReceives net.toServer src stale datagram)
    {opened : Option Server.Opened} {ds : List Datagram}
    (hfilename : Server.filename P.serverOrder P.files src
      (recvfrom Server.requestBufferLength stale datagram).1
      (recvfrom Server.requestBufferLength stale datagram).2 = .ok (opened, ds)) :
    (opened = none ∨ opened = some ⟨blocks, P.bufferSize, P.windowSize⟩) ∧
      ∀ d ∈ ds, P.Announces d.bytes := by
  have hmax := P.windowSize_lt
  have hsize := P.bufferSize.2.1
  obtain ⟨x, hx, -, -, hintact | hreject⟩ := hrecv
  · -- Nothing but the request was ever sent to the main port.
    rw [h.toServer x hx] at hintact
    rw [Server.filename_request P.rcopyOrder P.serverOrder P.files src 0 stale P.fromFile_le
      P.nul_notMem (by omega) (by omega) hintact, hopen] at hfilename
    cases hfilename
    refine ⟨.inr rfl, fun d hd => ?_⟩
    cases List.mem_singleton.mp hd
    exact ⟨0, filenameResponseFlag, fileOk, [], rfl, by rw [List.length_singleton]; omega,
      .inl ⟨rfl, rfl⟩⟩
  · rw [Rejected] at hreject
    rw [Server.filename, hreject] at hfilename
    cases hfilename
    exact ⟨.inl rfl, fun d hd => (by cases hd)⟩

/-- A forked child starts on the file, with the sizes that rcopy asked for. -/
theorem mem_fork {childAddr src : Addr} {opened : Option Server.Opened}
    (hopened : opened = none ∨ opened = some ⟨blocks, P.bufferSize, P.windowSize⟩) {c : Child}
    (hc : c ∈ fork childAddr src opened) : c.addr = childAddr ∧
      Server.start P.windowSize P.bufferSize blocks src = .ok c.server := by
  rcases hopened with rfl | rfl
  · cases hc
  · simp only [fork] at hc
    split at hc
    · next s hstart =>
        cases List.mem_singleton.mp hc
        exact ⟨rfl, hstart⟩
    · cases hc

/-- The main process forks a child, which answers. -/
theorem Sound.forked (h : P.Sound blocks net) {childAddr src : Addr}
    (haddr : childAddr ≠ P.serverAddr) {opened : Option Server.Opened} {ds : List Datagram}
    (hopened : opened = none ∨ opened = some ⟨blocks, P.bufferSize, P.windowSize⟩)
    (hannounces : ∀ d ∈ ds, P.Announces d.bytes) :
    P.Sound blocks { net with
      children := net.children ++ fork childAddr src opened
      toRcopy := net.toRcopy ++ ds.map (⟨childAddr, ·⟩) } := by
  have hfork {c : Child} (hc : c ∈ net.children ++ fork childAddr src opened) :
      c ∈ net.children ∨ (c.addr = childAddr ∧
        Server.start P.windowSize P.bufferSize blocks src = .ok c.server) :=
    (List.mem_append.mp hc).imp_right fun hc => mem_fork hopened hc
  refine ⟨h.pduBuffer, h.serverAddress, h.toServer, fun c hc => ?_, fun c hc => ?_,
    fun c hc => ?_, fun x hx => ?_⟩
  · rcases hfork hc with hc | ⟨haddr', -⟩
    · exact h.addr c hc
    · exact haddr' ▸ haddr
  · rcases hfork hc with hc | ⟨-, hstart⟩
    · exact h.bufferSize c hc
    · exact (Server.of_start hstart).2.2.2.1
  · rcases hfork hc with hc | ⟨-, hstart⟩
    · exact h.holds c hc
    · exact ⟨0, 0, _, .start P.windowSize_pos P.windowSize_lt hstart⟩
  · rcases List.mem_append.mp hx with hx | hx
    · exact h.toRcopy x hx
    · obtain ⟨d, hd, rfl⟩ := List.mem_map.mp hx
      exact hannounces d hd

/-- A child takes a step. -/
theorem Sound.moved (h : P.Sound blocks net)
    (hfit : ∀ block ∈ blocks, block ≠ [] ∧ (block.length : Int) ≤ P.bufferSize) {k : Nat}
    {c : Child} (hc : c ∈ net.children) {i : ServerInput} (hi : i.Silent) {s : Server}
    {ds : List Datagram} (hstep : c.server.step P.serverOrder i = some (.ok (s, ds))) :
    P.Sound blocks { net with
      children := net.children.set k { c with server := s }
      toRcopy := net.toRcopy ++ ds.map (⟨c.addr, ·⟩) } := by
  obtain ⟨L, K, m, hholds⟩ := h.holds c hc
  obtain ⟨hholds', hsize, hannounces⟩ := announces_of_step hfit hholds hi hstep
  refine ⟨h.pduBuffer, h.serverAddress, h.toServer, fun c' hc' => ?_, fun c' hc' => ?_,
    fun c' hc' => ?_, fun x hx => ?_⟩
  · rcases List.mem_or_eq_of_mem_set hc' with hc' | rfl
    · exact h.addr c' hc'
    · exact h.addr c hc
  · rcases List.mem_or_eq_of_mem_set hc' with hc' | rfl
    · exact h.bufferSize c' hc'
    · exact hsize.trans (h.bufferSize c hc)
  · rcases List.mem_or_eq_of_mem_set hc' with hc' | rfl
    · exact h.holds c' hc'
    · exact hholds'
  · rcases List.mem_append.mp hx with hx | hx
    · exact h.toRcopy x hx
    · obtain ⟨d, hd, rfl⟩ := List.mem_map.mp hx
      exact hannounces d hd

theorem Sound.step (h : P.Sound blocks net)
    (hopen : P.files.reads P.fromFile P.bufferSize = some blocks) {e : SetupEvent}
    (hstep : P.next net e = some net') : P.Sound blocks net' := by
  cases e with
  | serve src stale datagram childAddr =>
      simp only [next] at hstep
      split at hstep
      · next hrecv =>
          split at hstep
          · next opened ds hfilename =>
              cases hstep
              obtain ⟨hopened, hannounces⟩ := h.serve hopen hrecv.1 hfilename
              exact h.forked hrecv.2 hopened hannounces
          · cases hstep
      · cases hstep
  | child k i =>
      simp only [next] at hstep
      split at hstep
      · next c hk =>
          split at hstep
          · next hrecv =>
              split at hstep
              · next s ds hserver =>
                  cases hstep
                  have hc := List.mem_of_getElem? hk
                  exact h.moved (P.files.reads_fit _ _ _ hopen) hc
                    (h.silent (h.addr c hc) hrecv) hserver
              · cases hstep
          · cases hstep
      · cases hstep
  | rcopy p newSocket =>
      simp only [next] at hstep
      split at hstep
      · cases hstep
        -- Whatever comes of the poll, the next request is the first one again.
        obtain ⟨hbuffer, hserver, hsent⟩ := net.rcopy.filename_keeps P.rcopyOrder
          P.bufferSize P.serverAddr newSocket p
        refine ⟨hbuffer.trans h.pduBuffer, hserver, fun x hx => ?_, h.addr, h.bufferSize, h.holds,
          h.toRcopy⟩
        rcases List.mem_append.mp hx with hx | hx
        · exact h.toServer x hx
        · rw [hsent x hx, h.pduBuffer]
      · cases hstep

/-- **A datagram of a child that reaches rcopy in `filename` makes it go on unless it is the EOF,
which ends it.** -/
theorem fileOkay_iff_of_reachable (hopen : P.files.reads P.fromFile P.bufferSize = some blocks)
    (h : P.udp.Reachable net) (hwaits : net.rcopy.state = .filename) {x : Sent}
    (hx : x ∈ net.toRcopy) (hdest : x.datagram.dest = net.rcopy.clientSocket) (stale : Bytes)
    (newSocket : Addr) : ∃ net',
    P.udp.step net (.rcopy (.received x.src stale x.datagram.bytes) newSocket) net' ∧
    (net'.rcopy.state = .fileOkay ↔ byteAt x.datagram.bytes recvFlagLocation ≠ eofFlag) ∧
    (net'.rcopy.state = .done ↔ byteAt x.datagram.bytes recvFlagLocation = eofFlag) := by
  have hsound : P.Sound blocks net :=
    System.Reachable.invariant (fun _ => Sound.initial) (fun _ _ _ _ hs => hs.step hopen) h
  obtain ⟨number, flag, first, rest, hbytes, hlen, hannounced⟩ := hsound.toRcopy x hx
  have hrecv : P.RcopyReceives net (.received x.src stale x.datagram.bytes) :=
    .inr ⟨x, hx, hdest, rfl, .inl rfl⟩
  have hflag : byteAt x.datagram.bytes recvFlagLocation = flag := by
    rw [hbytes, byteAt_encodePDU]
  have hstep : P.next net (.rcopy (.received x.src stale x.datagram.bytes) newSocket)
      = some { net with
        rcopy := .leave { net.rcopy with serverAddress := x.src } (RcopySetup.answered flag first)
        toServer := net.toServer ++ [] } := by
    rw [next, if_pos ⟨hwaits, hrecv⟩, net.rcopy.filename_received P.rcopyOrder P.serverOrder number
      flag first hlen P.serverAddr newSocket x.src stale hbytes]
  refine ⟨_, hstep, ?_⟩
  rw [hflag]
  show (RcopySetup.answered flag first = .fileOkay ↔ _) ∧
    (RcopySetup.answered flag first = .done ↔ _)
  rcases hannounced with ⟨rfl, rfl⟩ | hflag
  · decide
  · rcases hflag with rfl | rfl | rfl
    · exact ⟨iff_of_true rfl (by decide), iff_of_false (fun hc => by cases hc) (by decide)⟩
    · exact ⟨iff_of_true rfl (by decide), iff_of_false (fun hc => by cases hc) (by decide)⟩
    · exact ⟨iff_of_false (fun hc => by cases hc) (not_not.mpr rfl), iff_of_true rfl rfl⟩

/-! ### Files without and with a block -/

/-- A server whose files are all alike. -/
def filesOf (blocks : List Bytes) (hblocks : ∀ block ∈ blocks, block ≠ [] ∧ block.length ≤ 108) :
    Files where
  reads _ bufSize := if 108 ≤ bufSize then some blocks else none
  reads_fit fname bufSize blocks' h := by
    split at h
    · next hsize =>
        cases h
        intro block hblock
        have := (hblocks block hblock).2
        exact ⟨(hblocks block hblock).1, by omega⟩
    · cases h

/-- rcopy asks the server at 1, from a socket at 7, for a window of one PDU. -/
def smallSetup (blocks : List Bytes) (hblocks : ∀ block ∈ blocks, block ≠ [] ∧ block.length ≤ 108) :
    Setup where
  files := filesOf blocks hblocks
  fromFile := [97]
  windowSize := 1
  bufferSize := leastBufferSize
  serverOrder := .big
  rcopyOrder := .little
  serverAddr := 1
  fromFile_le := by decide
  nul_notMem := by decide
  windowSize_pos := by decide
  windowSize_lt := by decide

def smallSetupNet : SetupNet where
  rcopy := {
    state := .filename
    count := 0
    clientSocket := 7
    sequenceNumber := 0
    serverAddress := 1
    pduBuffer := encodePDU .little 0 filenameFlag (requestPayload 1 leastBufferSize [97]) }
  children := []
  toServer := [⟨7, ⟨1, encodePDU .little 0 filenameFlag
    (requestPayload 1 leastBufferSize [97])⟩⟩]
  toRcopy := []

theorem initial_smallSetupNet (blocks : List Bytes)
    (hblocks : ∀ block ∈ blocks, block ≠ [] ∧ block.length ≤ 108) :
    (smallSetup blocks hblocks).Initial smallSetupNet where
  rcopy := by
    rw [RcopySetup.start, createRequest_eq (smallSetup blocks hblocks).fromFile_le]
    rfl
  children := rfl
  toServer := rfl
  toRcopy := rfl

/-- The main process receives the first request and forks a child at 2, which then runs twice. -/
def smallEvents : List SetupEvent :=
  [.serve 7 [] (encodePDU .little 0 filenameFlag (requestPayload 1 leastBufferSize [97])) 2,
    .child 0 (.run false 0), .child 0 (.run false 0)]

theorem reads_smallSetup (blocks : List Bytes)
    (hblocks : ∀ block ∈ blocks, block ≠ [] ∧ block.length ≤ 108) :
    (smallSetup blocks hblocks).files.reads (smallSetup blocks hblocks).fromFile
      (smallSetup blocks hblocks).bufferSize = some blocks := rfl

theorem fileOkay_smallSetup : ∃ net x, (smallSetup [[42]] (by decide)).udp.Reachable net ∧
    x ∈ net.toRcopy ∧ byteAt x.datagram.bytes recvFlagLocation = dataPacketFlag ∧ ∃ net',
    (smallSetup [[42]] (by decide)).udp.step net
      (.rcopy (.received x.src [] x.datagram.bytes) 8) net' ∧
    net'.rcopy.state = .fileOkay := by
  have hinit : (smallSetup [[42]] (by decide)).udp.Reachable smallSetupNet :=
    .init (initial_smallSetupNet _ _)
  obtain ⟨net, hnet, hp⟩ := hinit.exists_of_run (smallSetup [[42]] (by decide)).next
    (fun _ e _ h => ⟨e, h⟩) (smallEvents.take 2)
    (fun net => decide (net.rcopy.state = .filename ∧ ∃ x ∈ net.toRcopy,
      x.datagram.dest = net.rcopy.clientSocket ∧
      byteAt x.datagram.bytes recvFlagLocation = dataPacketFlag))
    (by decide +kernel)
  obtain ⟨hwaits, x, hx, hdest, hflag⟩ := of_decide_eq_true hp
  obtain ⟨net', hstep, hokay, -⟩ := fileOkay_iff_of_reachable (reads_smallSetup [[42]] (by decide))
    hnet hwaits hx hdest [] 8
  exact ⟨net, x, hnet, hx, hflag, net', hstep, hokay.mpr (by rw [hflag]; decide)⟩

/-- The file is empty and the answer is lost: rcopy gets the EOF, and gives up. -/
theorem not_fileOkay_smallSetup : ∃ net x, (smallSetup [] (by decide)).udp.Reachable net ∧
    (smallSetup [] (by decide)).files.reads [97] 108 = some [] ∧
    net.rcopy.state = .filename ∧ x ∈ net.toRcopy ∧
    x.datagram.dest = net.rcopy.clientSocket ∧ ∃ net',
    (smallSetup [] (by decide)).udp.step net
      (.rcopy (.received x.src [] x.datagram.bytes) 8) net' ∧
    net'.rcopy.state = .done := by
  have hinit : (smallSetup [] (by decide)).udp.Reachable smallSetupNet :=
    .init (initial_smallSetupNet _ _)
  obtain ⟨net, hnet, hp⟩ := hinit.exists_of_run (smallSetup [] (by decide)).next
    (fun _ e _ h => ⟨e, h⟩) smallEvents
    (fun net => decide (net.rcopy.state = .filename ∧ ∃ x ∈ net.toRcopy,
      x.datagram.dest = net.rcopy.clientSocket ∧
      ((smallSetup [] (by decide)).next net
        (.rcopy (.received x.src [] x.datagram.bytes) 8)).any (·.rcopy.state = .done) = true))
    (by decide +kernel)
  obtain ⟨hwaits, x, hx, hdest, hdone⟩ := of_decide_eq_true hp
  obtain ⟨net', hstep, hstate⟩ := (Option.any_eq_true _ _).mp hdone
  exact ⟨net, x, hnet, rfl, hwaits, hx, hdest, net', hstep, of_decide_eq_true hstate⟩

end Setup

end RemoteCopy

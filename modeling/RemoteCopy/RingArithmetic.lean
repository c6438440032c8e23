import RemoteCopy.RingInvariant
import RemoteCopy.Session
import RemoteCopy.Sizes

/-!
# Ring arithmetic for a command line

The window size is a number of the command line that nothing looks at before two windows are made of
it. For rcopy and the child that is forked for its request: the remainders are indices and the upper
edges stay in the range of `int32_t` if the size is not zero and the edges have room to move past
the last block, or past number 0, and else there are runs in which they do not
(`Invocation.ringSafe_iff`).
-/

namespace RemoteCopy

/-- A call of rcopy that `checkArgs` lets through, for a file that the server can open. -/
structure Invocation where
  args : Args
  accepted : checkArgs args = true
  files : Files
  dataFile : List Bytes
  opens : files.reads args.fromFile args.bufferSize = some dataFile
  serverOrder : ByteOrder
  rcopyOrder : ByteOrder
  serverAddr : Addr
  rcopyAddr : Addr

namespace Invocation

variable (P : Invocation)

def bufferSize : BufferSize := P.args.size P.accepted

/-- What the child opens that is forked for the request, and what it answers, whatever its buffer
held before. The request had the sequence number 0. -/
def ChildOpens (opened : Server.Opened) (ds : List Datagram) : Prop :=
  ∃ request stale,
    RcopySetup.createRequest P.rcopyOrder P.args.windowSize P.bufferSize P.args.fromFile 0
      = .ok request ∧
    Server.filename P.serverOrder P.files P.rcopyAddr
      (recvfrom Server.requestBufferLength stale request).1
      (recvfrom Server.requestBufferLength stale request).2 = .ok (some opened, ds)

/-- The child as it comes to send the file, with its answer sent. -/
def Starts (s : Server) (ds : List Datagram) : Prop :=
  ∃ opened, P.ChildOpens opened ds ∧
    Server.start opened.windowSize opened.bufSize opened.dataFile P.rcopyAddr = .ok s

/-- Both programs have made their windows. The child's answer, or a copy of it, may still be on its
way: what rcopy has taken for one may be a block. -/
structure Initial (net : Net) : Prop where
  server : P.Starts net.server net.toRcopy
  rcopy : Rcopy.start P.args.windowSize P.bufferSize 1 P.serverAddr = .ok net.rcopy
  toServer : net.toServer = []

/-- What a poll of the child receives, if anything, is from rcopy. -/
def ServerHears (net : Net) (i : ServerInput) : Prop :=
  Arrives (net.toServer.map (Sent.mk P.rcopyAddr)) P.serverAddr
    (Rejected P.serverOrder (pduHeaderLen + rcopyResponsesPacketLength)) i.answer

/-- What a poll of the receiver receives, if anything, is from the child. -/
def RcopyHears (net : Net) (i : RcopyInput) : Prop :=
  Arrives (net.toRcopy.map (Sent.mk P.serverAddr)) P.rcopyAddr
    (Rejected P.rcopyOrder (pduHeaderLen + P.bufferSize)) i.answer

/-- UDP, as in `Transfer.udp`, for any window size; and a `write` may fail. -/
def udp : System Net Event where
  init := P.Initial
  step net e net' :=
    match e with
    | .server i => ∃ ds, net.server.step P.serverOrder i = some (.ok (net'.server, ds)) ∧
        P.ServerHears net i ∧ net'.rcopy = net.rcopy ∧ net'.toRcopy = net.toRcopy ++ ds ∧
        net'.toServer = net.toServer
    | .rcopy i => ∃ ds, net.rcopy.step P.rcopyOrder i = some (.ok (net'.rcopy, ds)) ∧
        P.RcopyHears net i ∧ net'.server = net.server ∧ net'.toServer = net.toServer ++ ds ∧
        net'.toRcopy = net.toRcopy
    | .loseToRcopy _ | .loseToServer _ => net' = net

/-- Whatever either program does next, every remainder it takes is an index of its window, and every
upper edge that it increments stays an `int32_t`. -/
structure RingSafe (net : Net) : Prop where
  serverRemainders : ∀ i, P.ServerHears net i →
    ∀ c ∈ net.server.remainders P.serverOrder i, c.InRing
  serverRaises : ∀ i, P.ServerHears net i →
    ∀ upper ∈ net.server.raises P.serverOrder i, InInt32 (upper + 1)
  rcopyRemainders : ∀ i, P.RcopyHears net i →
    ∀ c ∈ net.rcopy.remainders P.rcopyOrder i, c.InRing
  rcopyRaises : ∀ i, P.RcopyHears net i →
    ∀ upper ∈ net.rcopy.raises P.rcopyOrder i, InInt32 (upper + 1)

section
variable {P} {net : Net}

/-- Then no step of the child ends at a remainder, or with an index that it gave. -/
theorem RingSafe.server (h : P.RingSafe net) {i : ServerInput} (hears : P.ServerHears net i)
    {y : C (Server × List Datagram)} (hy : net.server.step P.serverOrder i = some y) :
    RingSound y :=
  Server.ringSound_of_step (h.serverRemainders i hears) hy

/-- Nor does one of the receiver. -/
theorem RingSafe.rcopy (h : P.RingSafe net) {i : RcopyInput} (hears : P.RcopyHears net i)
    {y : C (Rcopy × List Datagram)} (hy : net.rcopy.step P.rcopyOrder i = some y) :
    RingSound y :=
  Rcopy.ringSound_of_step (h.rcopyRemainders i hears) hy

end

end Invocation

/-! ## The child of the request -/

namespace Invocation

variable {P : Invocation} {s : Server}

/-- The answer to the request. -/
def fileOkay (P : Invocation) : Datagram :=
  ⟨P.rcopyAddr, encodePDU P.serverOrder 0 filenameResponseFlag [fileOk]⟩

/-- The request takes the sizes of the command line to the child as they are. -/
theorem childOpens_iff {opened : Server.Opened} {ds : List Datagram} : P.ChildOpens opened ds ↔
    opened = ⟨P.dataFile, P.args.bufferSize, P.args.windowSize⟩ ∧ ds = [P.fileOkay] := by
  obtain ⟨hname, -, -⟩ := of_checkArgs P.accepted
  have hcreate : RcopySetup.createRequest P.rcopyOrder P.args.windowSize P.bufferSize
      P.args.fromFile 0 = .ok _ := createRequest_eq hname 0
  have hsize : ((P.bufferSize : Nat) : Int) = P.args.bufferSize := P.args.coe_size P.accepted
  have hread (stale : Bytes) := Server.filename_request P.rcopyOrder P.serverOrder P.files
    P.rcopyAddr 0 stale hname P.args.fromFile_nul P.args.windowSize_range.1
    P.args.windowSize_range.2 (Eq.refl (encodePDU P.rcopyOrder 0 filenameFlag
      (requestPayload P.args.windowSize P.bufferSize P.args.fromFile)))
  simp only [hsize, P.opens] at hread
  constructor
  · rintro ⟨request, stale, hrequest, hopened⟩
    cases hcreate.symm.trans hrequest
    cases (hread stale).symm.trans hopened
    exact ⟨rfl, rfl⟩
  · rintro ⟨rfl, rfl⟩
    exact ⟨_, [], hcreate, hread []⟩

theorem starts_iff {ds : List Datagram} : P.Starts s ds ↔
    Server.start P.args.windowSize P.args.bufferSize P.dataFile P.rcopyAddr = .ok s ∧
      ds = [P.fileOkay] := by
  constructor
  · rintro ⟨opened, hopens, hstart⟩
    obtain ⟨rfl, rfl⟩ := childOpens_iff.mp hopens
    exact ⟨hstart, rfl⟩
  · rintro ⟨hstart, rfl⟩
    exact ⟨_, childOpens_iff.mpr ⟨rfl, rfl⟩, hstart⟩

theorem length_le_of_mem {block : Bytes} (hblock : block ∈ P.dataFile) :
    block ≠ [] ∧ block.length ≤ P.bufferSize := by
  obtain ⟨hne, hlen⟩ := P.files.reads_fit _ _ _ P.opens block hblock
  rw [← P.args.coe_size P.accepted] at hlen
  exact ⟨hne, Int.ofNat_le.mp hlen⟩

theorem bufferSize_pos (P : Invocation) : 0 < (P.bufferSize : Nat) := by
  have := P.bufferSize.2.1
  omega

end Invocation

/-! ## Where there is room -/

namespace Invocation

variable {P : Invocation} {net net' : Net} {n L K c : Nat}

/-- The invariant. The child's window is `[L, L + n)` with `K` blocks sent, and the receiver waits
for `c`, or has waited for it when it ended. -/
structure Ringed (P : Invocation) (n : Nat) (net : Net) (L K c : Nat) : Prop where
  server : net.server.Spans P.serverOrder n P.dataFile L K
  rcopy : (∃ why, net.rcopy.point = .done why) ∨
    ∃ a, net.rcopy.Refines n a ∧ a.UpTo K ∧ a.current = c
  rcopySize : net.rcopy.bufferSize = P.bufferSize
  lower_le : L ≤ c
  le_max : c ≤ max K 1
  toRcopy : ∀ d ∈ net.toRcopy, Numbered P.serverOrder P.bufferSize n L K d.bytes
  toServer : ∀ d ∈ net.toServer, ∃ x : Reply, x.Encodes d.bytes ∧ x.Within c K

theorem Ringed.initial (hn : P.args.windowSize = n) (hpos : 0 < n) (hmax : n < 2147483648)
    (h : P.Initial net) : P.Ringed n net 0 0 0 := by
  obtain ⟨hserver, hto⟩ := starts_iff.mp h.server
  have hrcopy := h.rcopy
  rw [hn] at hserver hrcopy
  refine ⟨.start hpos hmax hserver, .inr ⟨.fresh, .start hpos hmax hrcopy, .fresh, rfl⟩,
    (Rcopy.of_start hrcopy).2.2.1, Nat.le_refl 0, Nat.zero_le _, fun d hd => ?_, fun d hd => ?_⟩
  · rw [hto] at hd
    rw [List.mem_singleton.mp hd]
    exact ⟨0, _, _, rfl, List.cons_ne_nil _ _, P.bufferSize_pos, by simpa using hpos,
      Nat.le_refl 0, fun _ => Nat.lt_succ_self 0⟩
  · rw [h.toServer] at hd
    cases hd

/-- The edges of both windows have room past the last block, and past number 0. -/
theorem Ringed.room (h : P.Ringed n net L K c) (hroom : max P.dataFile.length 1 + n < 2147483648) :
    max K 1 + n < 2147483648 ∧ c + n < 2147483648 ∧ K < 2147483648 := by
  have hlen := h.server.le_length
  have hle := h.le_max
  exact ⟨by omega, by omega, by omega⟩

theorem Ringed.serverHears (h : P.Ringed n net L K c)
    (hroom : max P.dataFile.length 1 + n < 2147483648) {i : ServerInput}
    (hears : P.ServerHears net i) : Server.Hears P.serverOrder c K i := by
  obtain ⟨-, hc, hK⟩ := h.room hroom
  rintro src stale datagram rfl
  rcases hears with hpoll | ⟨y, hy, -, -, hbytes⟩
  · cases hpoll
  · obtain ⟨d, hd, rfl⟩ := List.mem_map.mp hy
    rcases hbytes with rfl | hreject
    · obtain ⟨x, hencodes, hwithin⟩ := h.toServer d hd
      exact .inr ⟨x, hwithin,
        (x.receiveControl_eq hencodes (hwithin.fits (by omega) hK) _ stale).symm⟩
    · left
      rw [Rejected] at hreject
      simp only [receiveControl, hreject]

theorem Ringed.rcopyHears (h : P.Ringed n net L K c) {i : RcopyInput}
    (hears : P.RcopyHears net i) : Rcopy.Hears P.rcopyOrder n L K net.rcopy i := by
  intro pdu hpdu
  rw [h.rcopySize] at hpdu
  cases i with
  | flush write junk => cases hpdu
  | poll p write junk =>
      rcases hears with hpoll | ⟨y, hy, hreceived⟩
      · cases (show p = .timeout from hpoll)
        cases hpdu
      · obtain ⟨d, hd, rfl⟩ := List.mem_map.mp hy
        cases p with
        | timeout => cases hpdu
        | received src stale datagram =>
            obtain ⟨-, -, rfl | hreject⟩ := hreceived
            · obtain ⟨s, flag, payload, hbytes, hne, hlen, hnumber⟩ := h.toRcopy d hd
              have hsize := P.bufferSize.2.2
              have hacc := accepted_encodePDU P.serverOrder P.rcopyOrder s flag (p := payload)
                (by omega)
              rw [← hbytes] at hacc
              have hfit : d.bytes.length ≤ pduHeaderLen + P.bufferSize := by
                rw [hbytes, length_encodePDU]
                omega
              cases (hacc.received _ hfit stale).symm.trans hpdu
              refine ⟨?_, hnumber⟩
              rw [ReceivedPdu.payload, List.take_left]
              exact hne
            · cases hreject.symm.trans hpdu

theorem Ringed.serverStep (h : P.Ringed n net L K c)
    (hroom : max P.dataFile.length 1 + n < 2147483648) {i : ServerInput} {ds : List Datagram}
    (hstep : net.server.step P.serverOrder i = some (.ok (net'.server, ds)))
    (hears : P.ServerHears net i) (hrcopy : net'.rcopy = net.rcopy)
    (hto : net'.toRcopy = net.toRcopy ++ ds) (hfrom : net'.toServer = net.toServer) :
    ∃ L' K', P.Ringed n net' L' K' c := by
  obtain ⟨L', K', hspans, hL, hmax, hK, hnumbered⟩ := h.server.step
    (fun _ hblock => length_le_of_mem hblock) P.bufferSize_pos (h.serverHears hroom hears) h.le_max
    hstep
  have hlow := h.lower_le
  have hle := h.le_max
  refine ⟨L', K', hspans, ?_, by rw [hrcopy]; exact h.rcopySize, by omega, by omega,
    fun d hd => ?_, fun d hd => ?_⟩
  · rw [hrcopy]
    exact h.rcopy.imp_right fun ⟨a, hrefines, hup, hcurrent⟩ =>
      ⟨a, hrefines, hup.mono hK, hcurrent⟩
  · rw [hto] at hd
    rcases List.mem_append.mp hd with hd | hd
    · exact (h.toRcopy d hd).mono hL hK
    · exact hnumbered d hd
  · rw [hfrom] at hd
    obtain ⟨x, hencodes, hwithin⟩ := h.toServer d hd
    exact ⟨x, hencodes, hwithin.mono (Nat.le_refl c) hK⟩

theorem Ringed.rcopyStep (h : P.Ringed n net L K c) {i : RcopyInput} {ds : List Datagram}
    (hstep : net.rcopy.step P.rcopyOrder i = some (.ok (net'.rcopy, ds)))
    (hears : P.RcopyHears net i) (hserver : net'.server = net.server)
    (hfrom : net'.toServer = net.toServer ++ ds) (hto : net'.toRcopy = net.toRcopy) :
    ∃ c', P.Ringed n net' L K c' := by
  have hhears := h.rcopyHears hears
  have hlow := h.lower_le
  have hsize := (Rcopy.framed_of_step hstep).1.trans h.rcopySize
  rcases h.rcopy with ⟨why, hdone⟩ | ⟨a, hrefines, hup, rfl⟩
  · exact absurd hdone (Rcopy.step_done hstep why)
  · have hadmits : Rcopy.Admits P.rcopyOrder n net.rcopy i := by
      refine hhears.admits ?_
      rw [hrefines.current]
      exact Int.ofNat_le.mpr hlow
    rcases hrefines.nextBy hup.orderly hadmits hstep with
      ⟨rfl, why, hdone⟩ | ⟨x, hnext, hrefines', hsends, -⟩
    · rw [List.append_nil] at hfrom
      exact ⟨a.current, hserver ▸ h.server, .inl ⟨why, hdone⟩, hsize, hlow, h.le_max,
        hto ▸ h.toRcopy, hfrom ▸ h.toServer⟩
    · obtain ⟨hup', hmono, hwithin⟩ := hup.step hhears hnext
      refine ⟨x.1.current, hserver ▸ h.server, .inr ⟨x.1, hrefines', hup', rfl⟩, hsize,
        hlow.trans hmono, hup'.current_le, hto ▸ h.toRcopy, fun d hd => ?_⟩
      rw [hfrom] at hd
      rcases List.mem_append.mp hd with hd | hd
      · obtain ⟨y, hencodes, hold⟩ := h.toServer d hd
        exact ⟨y, hencodes, hold.mono hmono (Nat.le_refl K)⟩
      · obtain ⟨-, y, hy, hencodes⟩ := hsends.mem hd
        exact ⟨y, hencodes, hwithin y hy⟩

/-- **The numbers stay within bounds throughout.** -/
theorem ringed_of_reachable (hn : P.args.windowSize = n) (hpos : 0 < n)
    (hroom : max P.dataFile.length 1 + n < 2147483648) (h : P.udp.Reachable net) :
    ∃ L K c, P.Ringed n net L K c := by
  refine System.Reachable.invariant (P := fun net => ∃ L K c, P.Ringed n net L K c) ?_ ?_ h
  · intro net hinit
    exact ⟨0, 0, 0, .initial hn hpos (by omega) hinit⟩
  · rintro net e net' - ⟨L, K, c, hringed⟩ hstep
    cases e with
    | server i =>
        obtain ⟨ds, hrun, hears, hrcopy, hto, hfrom⟩ := hstep
        obtain ⟨L', K', hringed'⟩ := hringed.serverStep hroom hrun hears hrcopy hto hfrom
        exact ⟨L', K', c, hringed'⟩
    | rcopy i =>
        obtain ⟨ds, hrun, hears, hserver, hfrom, hto⟩ := hstep
        obtain ⟨c', hringed'⟩ := hringed.rcopyStep hrun hears hserver hfrom hto
        exact ⟨L, K, c', hringed'⟩
    | loseToRcopy k =>
        cases hstep
        exact ⟨L, K, c, hringed⟩
    | loseToServer k =>
        cases hstep
        exact ⟨L, K, c, hringed⟩

/-- **Where there is room, the ring arithmetic is safe** throughout. -/
theorem ringSafe_of_reachable (hn : P.args.windowSize = n) (hpos : 0 < n)
    (hroom : max P.dataFile.length 1 + n < 2147483648) (h : P.udp.Reachable net) :
    P.RingSafe net := by
  obtain ⟨L, K, c, hringed⟩ := ringed_of_reachable hn hpos hroom h
  obtain ⟨hroom', hc, hK⟩ := hringed.room hroom
  have hserver {i : ServerInput} (hears : P.ServerHears net i) := hringed.serverHears hroom hears
  have hrcopy {i : RcopyInput} (hears : P.RcopyHears net i) := hringed.rcopyHears hears
  refine ⟨fun i hears => hringed.server.inRing hK (hserver hears),
    fun i hears => hringed.server.inInt32_raises (hserver hears) hc, fun i hears => ?_,
    fun i hears => ?_⟩
  · rcases hringed.rcopy with ⟨why, hdone⟩ | ⟨a, hrefines, -, -⟩
    · intro call hcall
      simp only [Rcopy.remainders, Rcopy.adds, Rcopy.gets, Rcopy.removes, hdone] at hcall
      cases hcall
    · exact hrefines.inRing hK (hrcopy hears)
  · rcases hringed.rcopy with ⟨why, hdone⟩ | ⟨a, hrefines, hup, -⟩
    · intro upper hupper
      simp only [Rcopy.raises, Rcopy.removes, hdone] at hupper
      cases hupper
    · exact hrefines.inInt32_raises hup (hrcopy hears) hroom'

/-! ## Where there is none -/

theorem exists_initial (hw : 0 ≤ P.args.windowSize) : ∃ net, P.Initial net := by
  obtain ⟨s, hserver⟩ : ∃ s, Server.start P.args.windowSize P.args.bufferSize P.dataFile P.rcopyAddr
      = .ok s := by
    rw [Server.start, makeWindow, dif_pos hw]
    exact ⟨_, rfl⟩
  obtain ⟨r, hrcopy⟩ : ∃ r, Rcopy.start P.args.windowSize P.bufferSize 1 P.serverAddr
      = .ok r := by
    rw [Rcopy.start, makeWindow, dif_pos hw]
    exact ⟨_, rfl⟩
  exact ⟨⟨s, r, [P.fileOkay], []⟩, starts_iff.mpr ⟨hserver, rfl⟩, hrcopy, rfl⟩

/-- Of a negative size no window is made. -/
theorem makeWindow_of_neg {windowSize : Int} (h : windowSize < 0) : makeWindow windowSize = none :=
  dif_neg (Int.not_le.mpr h)

theorem not_reachable_of_neg (hw : P.args.windowSize < 0) : ¬ P.udp.Reachable net := by
  refine fun h => System.Reachable.invariant (P := fun _ => False) ?_ (fun _ _ _ _ hc _ => hc) h
  intro net hinit
  obtain ⟨hwindow, -⟩ := Rcopy.of_start hinit.rcopy
  rw [makeWindow_of_neg hw] at hwindow
  cases hwindow

/-- A window without slots is closed from the start, and at the first timeout the child divides by
its size. -/
theorem not_ringSafe_of_zero (hw : P.args.windowSize = 0) :
    ∃ net, P.udp.Reachable net ∧ ¬ P.RingSafe net := by
  obtain ⟨net, hinit⟩ := exists_initial (Int.le_of_eq hw.symm)
  obtain ⟨-, hlow, hhigh⟩ := of_checkArgs P.accepted
  obtain ⟨hstart, -⟩ := starts_iff.mp hinit.server
  rw [hw] at hstart
  obtain ⟨hwindow, hpoint, -, hbuffer, -⟩ := Server.of_start hstart
  have hbuffers : Server.HasBuffers net.server.bufferSize := by
    simp only [Server.HasBuffers, hbuffer, pduHeaderLen]
    exact ⟨by omega, by omega⟩
  have hempty : net.server.window.windowSize = 0 ∧
      net.server.window.checkWindowOpen = false := by
    rw [makeWindow, dif_pos (Int.le_refl 0)] at hwindow
    rw [← Option.some.inj hwindow]
    exact ⟨rfl, rfl⟩
  have hrun := Server.run_closed (o := P.serverOrder) hpoint hempty.2 false 0
  have hnet : P.udp.Reachable { net with server := { net.server with point := .windowClosed 0 } } :=
    .step (i := .server (.run false 0)) (.init hinit)
      ⟨[], hrun, .inl rfl, rfl, (List.append_nil _).symm, rfl⟩
  refine ⟨_, hnet, fun hsafe => ?_⟩
  have hgets : Server.gets P.serverOrder { net.server with point := .windowClosed 0 }
      (.poll .timeout) = [⟨net.server.window, toInt32 (toUInt32 net.server.window.lower)⟩] := by
    simp only [Server.gets]
    rw [if_pos hbuffers]
  have hring := hsafe.serverRemainders (.poll .timeout) (.inl rfl) _
    (List.mem_append_left _ (List.mem_append_right _ (hgets ▸ List.mem_singleton_self _)))
  exact absurd hring.1 (by rw [hempty.1]; exact Int.lt_irrefl 0)

/-- The child's answer comes when rcopy has made its window, and is taken for block 0: the upper
edge of the largest window overflows. -/
theorem not_ringSafe_of_max (hw : P.args.windowSize = 2147483647) :
    ∃ net, P.udp.Reachable net ∧ ¬ P.RingSafe net := by
  obtain ⟨net, hinit⟩ := exists_initial (P := P) (by omega)
  obtain ⟨-, hto⟩ := starts_iff.mp hinit.server
  have hstart := hinit.rcopy
  rw [show P.args.windowSize = (2147483647 : Nat) from hw] at hstart
  have hrefines : net.rcopy.Refines 2147483647 .fresh := .start (by decide) (by decide) hstart
  have hsize : net.rcopy.bufferSize = P.bufferSize := (Rcopy.of_start hstart).2.2.1
  have hacc : Accepted P.rcopyOrder P.fileOkay.bytes 0 filenameResponseFlag [fileOk] :=
    accepted_encodePDU _ _ _ _ (by decide)
  have hfit : P.fileOkay.bytes.length ≤ pduHeaderLen + P.bufferSize := by
    rw [hacc.layout.1]
    exact Nat.add_le_add_left P.bufferSize_pos _
  have hpdu : RcopyInput.pdu P.rcopyOrder (pduHeaderLen + net.rcopy.bufferSize)
      (.poll (.received P.serverAddr [] P.fileOkay.bytes) .complete 0)
        = some ⟨0, filenameResponseFlag, [fileOk] ++ List.drop P.fileOkay.bytes.length [], 1⟩ := by
    rw [hsize]
    exact hacc.received _ hfit []
  have hraises : net.rcopy.raises P.rcopyOrder
      (.poll (.received P.serverAddr [] P.fileOkay.bytes) .complete 0)
        = [net.rcopy.window.upper] := by
    have hpoint : net.rcopy.point = .inOrder := hrefines.point
    have hcurrent : net.rcopy.window.current = (0 : Nat) := hrefines.current
    simp only [Rcopy.raises, hpoint, hpdu, hcurrent]
    rw [if_pos ⟨rfl, by decide, by decide, rfl⟩]
  have hears :
      P.RcopyHears net (.poll (.received P.serverAddr [] P.fileOkay.bytes) .complete 0) := by
    refine .inr ⟨⟨P.serverAddr, P.fileOkay⟩, ?_, rfl, rfl, .inl rfl⟩
    rw [hto]
    exact List.mem_singleton_self _
  refine ⟨net, .init hinit, fun hsafe => ?_⟩
  have hedge := hsafe.rcopyRaises _ hears net.rcopy.window.upper
    (hraises ▸ List.mem_singleton_self _)
  rw [hrefines.shows.upper] at hedge
  exact absurd hedge.2 (by decide)

/-- The child has sent the first `j` blocks and nothing was acknowledged; the receiver has received
them in order. -/
structure Climbs (P : Invocation) (n j : Nat) (net : Net) : Prop where
  reachable : P.udp.Reachable net
  server : ∃ m, net.server.Holds P.serverOrder n P.dataFile 0 j m
  point : net.server.point = .windowOpen
  client : net.server.client = P.rcopyAddr
  serverSize : net.server.bufferSize = P.args.bufferSize
  rcopy : ∃ a, net.rcopy.Refines n a ∧ a.point = .inOrder ∧ a.current = j ∧ ∀ k, a.stored k = none
  rcopySize : net.rcopy.bufferSize = P.bufferSize

theorem exists_climbs_zero (hn : P.args.windowSize = n) (hpos : 0 < n) (hmax : n < 2147483648) :
    ∃ net, P.Climbs n 0 net := by
  obtain ⟨net, hinit⟩ := exists_initial (P := P) (by omega)
  obtain ⟨hserver, -⟩ := starts_iff.mp hinit.server
  have hrcopy := hinit.rcopy
  rw [hn] at hserver hrcopy
  obtain ⟨-, hpoint, -, hsize, hclient⟩ := Server.of_start hserver
  exact ⟨net, .init hinit, ⟨_, .start hpos hmax hserver⟩, hpoint, hclient, hsize,
    ⟨.fresh, .start hpos hmax hrcopy, rfl, rfl, fun k => rfl⟩, (Rcopy.of_start hrcopy).2.2.1⟩

section
variable {j : Nat} {block : Bytes}

/-- The child sends the next block. -/
theorem Climbs.sent (h : P.Climbs n j net) (hj : j < n) (hblock : P.dataFile[j]? = some block) :
    ∃ s d, d.dest = P.rcopyAddr ∧
      d.bytes = encodePDU P.serverOrder (toUInt32 (j : Int)) dataPacketFlag block ∧
      P.udp.Reachable { net with server := s, toRcopy := net.toRcopy ++ [d] } ∧
      (∃ m, s.Holds P.serverOrder n P.dataFile 0 (j + 1) m) ∧ s.point = .windowOpen ∧
      s.client = P.rcopyAddr ∧ s.bufferSize = P.args.bufferSize := by
  obtain ⟨m, hholds⟩ := h.server
  obtain ⟨-, hlow, -⟩ := of_checkArgs P.accepted
  have hlen : block.length ≤ 1400 :=
    (length_le_of_mem (List.mem_of_getElem? hblock)).2.trans P.bufferSize.2.2
  have hsize : 0 < net.server.bufferSize := by
    rw [h.serverSize]
    omega
  have hopen := hholds.checkWindowOpen.mpr (by omega)
  obtain ⟨rest, hfile⟩ : ∃ rest, net.server.dataFile = block :: rest := by
    obtain ⟨hlt, rfl⟩ := List.getElem?_eq_some_iff.mp hblock
    exact ⟨_, hholds.file.trans (List.drop_eq_getElem_cons hlt)⟩
  obtain ⟨packet, w, -, hsend, -⟩ := sendDataPacket_eq (o := P.serverOrder) hholds.shows
    hholds.current hholds.lower_le (hholds.checkWindowOpen.mp hopen)
    (hholds.beforeEof (by rw [h.point]; rfl)) hlen
  obtain ⟨-, -, -, packet', -, hholds'⟩ := hholds.sent h.point hopen hfile hsend
  have hrun : net.server.step P.serverOrder (.run false 0)
      = some (.ok ({ net.server with point := .windowOpenPoll, window := w, dataFile := rest },
        [⟨net.server.client,
          encodePDU P.serverOrder (toUInt32 (j : Int)) dataPacketFlag block⟩])) := by
    rw [Server.run_block h.point hopen hsize hfile, hsend]
    rfl
  have hnet₁ : P.udp.Reachable { net with
      server := { net.server with point := .windowOpenPoll, window := w, dataFile := rest }
      toRcopy := net.toRcopy ++ [⟨net.server.client,
        encodePDU P.serverOrder (toUInt32 (j : Int)) dataPacketFlag block⟩] } :=
    .step (i := .server (.run false 0)) h.reachable ⟨_, hrun, .inl rfl, rfl, rfl, rfl⟩
  have hnet₂ : P.udp.Reachable { net with
      server := { net.server with point := .windowOpen, window := w, dataFile := rest }
      toRcopy := net.toRcopy ++ [⟨net.server.client,
        encodePDU P.serverOrder (toUInt32 (j : Int)) dataPacketFlag block⟩] } :=
    .step (i := .server (.poll .timeout)) hnet₁
      ⟨[], rfl, .inl rfl, rfl, (List.append_nil _).symm, rfl⟩
  refine ⟨_, _, h.client, rfl, hnet₂, ⟨_, hholds'.continues rfl ⟨rfl, fun _ => rfl, ?_⟩
    (Server.poised_of_windowOpen rfl)⟩, rfl, h.client, h.serverSize⟩
  intro count hc
  cases hc

/-- What the receiver may receive then. -/
theorem hears_sent {s : Server} {d : Datagram} (hdest : d.dest = P.rcopyAddr) :
    P.RcopyHears { net with server := s, toRcopy := net.toRcopy ++ [d] }
      (.poll (.received P.serverAddr [] d.bytes) .complete 0) :=
  .inr ⟨⟨P.serverAddr, d⟩,
    List.mem_map_of_mem (List.mem_append_right _ (List.mem_singleton_self d)), hdest, rfl, .inl rfl⟩

/-- It is what the receiver waits for. -/
theorem accepted_sent (hblock : P.dataFile[j]? = some block) :
    Accepted P.rcopyOrder (encodePDU P.serverOrder (toUInt32 (j : Int)) dataPacketFlag block)
      (toUInt32 (j : Int)) dataPacketFlag block ∧
    (encodePDU P.serverOrder (toUInt32 (j : Int)) dataPacketFlag block).length
      ≤ pduHeaderLen + P.bufferSize := by
  have hlen := (length_le_of_mem (List.mem_of_getElem? hblock)).2
  have hsize := P.bufferSize.2.2
  refine ⟨accepted_encodePDU _ _ _ _ (by omega), ?_⟩
  rw [length_encodePDU]
  exact Nat.add_le_add_left hlen _

theorem Climbs.next (h : P.Climbs n j net) (hj : j < n) (hblock : P.dataFile[j]? = some block)
    (hroom : j + 1 + n < 2147483648) : ∃ net', P.Climbs n (j + 1) net' := by
  obtain ⟨s, d, hdest, hbytes, hnet, hserver, hpoint, hclient, hsize⟩ := h.sent hj hblock
  obtain ⟨a, hrefines, hinOrder, hcurrent, hstored⟩ := h.rcopy
  obtain ⟨hacc, hfit⟩ := accepted_sent (j := j) hblock
  obtain ⟨hne, hlen⟩ := length_le_of_mem (List.mem_of_getElem? hblock)
  have hbuffer := P.bufferSize.2.2
  have hnumber : (toUInt32 (j : Int)).toNat = j := toNat_toUInt32_natCast (by omega)
  rw [← h.rcopySize] at hfit
  have hfits : (encodePDU P.serverOrder (toUInt32 (j : Int)) dataPacketFlag block).length
      ≤ maxPduLen := by
    rw [length_encodePDU]
    simp only [pduHeaderLen, maxPduLen]
    omega
  -- The PDU carries `current`, so it is written and the window moves.
  have hflag : (Packet.of (toUInt32 (j : Int)).toNat _ hfits).flag ≠ eofFlag := by
    rw [show (Packet.of (toUInt32 (j : Int)).toNat _ hfits).flag = _ from hacc.layout.2.1]
    decide
  have hpayload : (Packet.of (toUInt32 (j : Int)).toNat _ hfits).payload ≠ [] := by
    rw [show (Packet.of (toUInt32 (j : Int)).toNat _ hfits).payload = _ from hacc.layout.2.2]
    exact hne
  have haccept := Receiver.accept_written hinOrder (hnumber.trans hcurrent.symm) hflag hpayload
  obtain ⟨y, hstep, r, ds, rfl, hrefines', -, hsize', -⟩ := hrefines.accept (.inl hinOrder)
    (hstored a.current) hacc hfit hfits (by omega)
    (by rw [haccept, hnumber]; exact hroom) P.serverAddr [] 0
  rw [haccept] at hrefines'
  rw [← hbytes] at hstep
  have hnet' : P.udp.Reachable { net with
      server := s, rcopy := r, toRcopy := net.toRcopy ++ [d], toServer := net.toServer ++ ds } :=
    .step (i := .rcopy _) hnet ⟨ds, hstep, hears_sent hdest, rfl, rfl, rfl⟩
  exact ⟨_, hnet', hserver, hpoint, hclient, hsize, ⟨_, hrefines', hinOrder,
    congrArg (· + 1) hnumber, hstored⟩, hsize'.trans h.rcopySize⟩

/-- The receiver gets to any block before its upper edge overflows. -/
theorem exists_climbs (hn : P.args.windowSize = n) (hpos : 0 < n) : ∀ {j : Nat},
    j ≤ n → j ≤ P.dataFile.length → j + n < 2147483648 → ∃ net, P.Climbs n j net := by
  intro j
  induction j with
  | zero =>
      intro _ _ hroom
      exact exists_climbs_zero hn hpos (by omega)
  | succ j ih =>
      intro hj hlen hroom
      obtain ⟨net, hclimbs⟩ := ih (by omega) (by omega) (by omega)
      exact hclimbs.next hj (List.getElem?_eq_getElem hlen) hroom

/-- At the next one it does. -/
theorem Climbs.not_ringSafe (h : P.Climbs n j net) (hj : j < n)
    (hblock : P.dataFile[j]? = some block) (hroom : j + 1 + n = 2147483648) :
    ∃ net', P.udp.Reachable net' ∧ ¬ P.RingSafe net' := by
  obtain ⟨s, d, hdest, hbytes, hnet, -⟩ := h.sent hj hblock
  obtain ⟨a, hrefines, hinOrder, hcurrent, -⟩ := h.rcopy
  obtain ⟨hacc, hfit⟩ := accepted_sent (j := j) hblock
  refine ⟨_, hnet, fun hsafe => ?_⟩
  have hpdu : RcopyInput.pdu P.rcopyOrder (pduHeaderLen + net.rcopy.bufferSize)
      (.poll (.received P.serverAddr [] d.bytes) .complete 0)
        = some ⟨toUInt32 (j : Int), dataPacketFlag, block ++ List.drop d.bytes.length [],
          block.length⟩ := by
    rw [h.rcopySize, hbytes]
    exact hacc.received _ hfit []
  have hraises : net.rcopy.raises P.rcopyOrder
      (.poll (.received P.serverAddr [] d.bytes) .complete 0) = [net.rcopy.window.upper] := by
    have hpoint := hrefines.point.trans hinOrder
    have hpos : 0 < block.length :=
      List.length_pos_iff.mpr (length_le_of_mem (List.mem_of_getElem? hblock)).1
    simp only [Rcopy.raises, hpoint, hpdu, hrefines.current, hcurrent]
    rw [if_pos ⟨trivial, by decide, hpos, rfl⟩]
  have hedge := hsafe.rcopyRaises _ (hears_sent hdest) net.rcopy.window.upper
    (hraises ▸ List.mem_singleton_self _)
  rw [hrefines.shows.upper] at hedge
  have hlt := hedge.2
  omega

end

/-- **The ring arithmetic of a command line.** In both programs `make_window` adds the window size
to zero, which is an `int32_t`. The remainders are indices and the upper edges stay `int32_t`s, in
every state that rcopy and the child can reach and whatever they do next, if and only if the window
size is not zero and leaves the upper edge room to move past the last block, and past number 0 if
there is none: the child's answer to the request may be taken for a block. -/
theorem ringSafe_iff (P : Invocation) (hblocks : P.dataFile.length < 1073741824) :
    (InInt32 (0 + P.args.windowSize) ∧
      ∀ opened ds, P.ChildOpens opened ds → InInt32 (0 + opened.windowSize)) ∧
    ((∀ net, P.udp.Reachable net → P.RingSafe net) ↔
      P.args.windowSize ≠ 0 ∧ max P.dataFile.length 1 + P.args.windowSize < 2147483648) ∧
    (P.args.windowSize < 0 →
      (∀ opened ds, P.ChildOpens opened ds → Server.start opened.windowSize opened.bufSize
        opened.dataFile P.rcopyAddr = .error .nullWindow) ∧
      Rcopy.start P.args.windowSize P.bufferSize 1 P.serverAddr = .error .nullWindow ∧
      ∀ p, RingSound (Rcopy.inOrderWithoutWindow P.rcopyOrder P.bufferSize p)) := by
  obtain ⟨hlow, hhigh⟩ := P.args.windowSize_range
  have hmake : InInt32 (0 + P.args.windowSize) := ⟨by omega, by omega⟩
  refine ⟨⟨hmake, fun opened ds hopens => ?_⟩, ⟨fun hsafe => ⟨fun hw => ?_, ?_⟩,
    fun ⟨hne, hroom⟩ net hnet => ?_⟩, fun hneg => ⟨fun opened ds hopens => ?_, ?_,
    Rcopy.ringSound_inOrderWithoutWindow _⟩⟩
  · obtain ⟨rfl, -⟩ := childOpens_iff.mp hopens
    exact hmake
  · obtain ⟨net, hnet, hunsafe⟩ := not_ringSafe_of_zero hw
    exact hunsafe (hsafe net hnet)
  · by_contra hroom
    rcases Nat.eq_zero_or_pos P.dataFile.length with hempty | hlen
    · obtain ⟨net, hnet, hunsafe⟩ := not_ringSafe_of_max (P := P) (by omega)
      exact hunsafe (hsafe net hnet)
    · obtain ⟨n, hn⟩ := Int.eq_ofNat_of_zero_le (show 0 ≤ P.args.windowSize by omega)
      -- The window is larger than the file, so the child never waits for an RR.
      obtain ⟨net, hclimbs⟩ := exists_climbs (j := 2147483647 - n) hn (by omega) (by omega)
        (by omega) (by omega)
      have hlt : 2147483647 - n < P.dataFile.length := by omega
      obtain ⟨net', hnet', hunsafe⟩ := hclimbs.not_ringSafe (by omega)
        (List.getElem?_eq_getElem hlt) (by omega)
      exact hunsafe (hsafe net' hnet')
  · rcases Int.lt_or_le P.args.windowSize 0 with hneg | hpos
    · exact absurd hnet (not_reachable_of_neg hneg)
    · obtain ⟨n, hn⟩ := Int.eq_ofNat_of_zero_le hpos
      exact ringSafe_of_reachable hn (by omega) (by omega) hnet
  · obtain ⟨rfl, -⟩ := childOpens_iff.mp hopens
    rw [Server.start, makeWindow_of_neg hneg]
  · rw [Rcopy.start, makeWindow_of_neg hneg]

/-- A file of two blocks, with windows of any size. -/
def smallInvocation (windowSize : Int)
    (h : -2147483648 ≤ windowSize ∧ windowSize < 2147483648) : Invocation where
  args := { smallArgs with windowSize := windowSize, windowSize_range := h }
  accepted := rfl
  files := Files.all [[1], [2]]
  dataFile := [[1], [2]]
  opens := rfl
  serverOrder := .little
  rcopyOrder := .big
  serverAddr := 8
  rcopyAddr := 7

theorem ringSafe_smallInvocation : ∃ net, (smallInvocation 2 (by decide)).udp.Reachable net ∧
    (smallInvocation 2 (by decide)).RingSafe net := by
  obtain ⟨net, hinit⟩ := exists_initial (P := smallInvocation 2 (by decide)) (by decide)
  obtain ⟨-, hsafe, -⟩ := ringSafe_iff (smallInvocation 2 (by decide)) (by decide)
  exact ⟨net, .init hinit, hsafe.mpr ⟨by decide, by decide⟩ net (.init hinit)⟩

/-- With windows of no slots the child divides by zero, and with the largest ones the upper edge of
the receiver's overflows at the first block. -/
theorem not_ringSafe :
    (checkArgs (smallInvocation 0 (by decide)).args = true ∧
      (smallInvocation 0 (by decide)).dataFile.length < 1073741824 ∧
      ∃ net, (smallInvocation 0 (by decide)).udp.Reachable net ∧
        ¬ (smallInvocation 0 (by decide)).RingSafe net) ∧
    checkArgs (smallInvocation 2147483647 (by decide)).args = true ∧
      (smallInvocation 2147483647 (by decide)).dataFile.length < 1073741824 ∧
      ∃ net, (smallInvocation 2147483647 (by decide)).udp.Reachable net ∧
        ¬ (smallInvocation 2147483647 (by decide)).RingSafe net := by
  refine ⟨⟨rfl, by decide, not_ringSafe_of_zero rfl⟩, rfl, by decide, ?_⟩
  have hfirst : (smallInvocation 2147483647 (by decide)).dataFile[0]? = some [1] := rfl
  obtain ⟨net, hclimbs⟩ := exists_climbs_zero (P := smallInvocation 2147483647 (by decide))
    (n := 2147483647) rfl (by decide) (by decide)
  exact hclimbs.not_ringSafe (by decide) hfirst (by decide)

end Invocation

end RemoteCopy

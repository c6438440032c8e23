import RemoteCopy.Acknowledgements
import RemoteCopy.ServerPeer
import RemoteCopy.Setup
import RemoteCopy.Codec

/-!
# What a receive leaves behind

`safeRecvfrom` writes into three things at once: the receive buffer, the length, and the peer's
address. The handlers validate what they received only afterwards, so two questions remain that the
codec does not answer. A datagram that `processPDU` rejects is to be passed over; but by then its
sender has become the peer (`passesOver_iff`). And a short datagram leaves old bytes in the buffer;
some handlers look at them (`decidesOnReceived_iff`).
-/

namespace RemoteCopy

variable {o : ByteOrder}

/-! ## What the child tells datagrams apart by -/

section
variable {stale datagram : Bytes}

theorem receiveControl_of_rejected
    (h : Rejected o (pduHeaderLen + rcopyResponsesPacketLength) stale datagram) :
    receiveControl o stale datagram = .rejected := by
  rw [Rejected] at h
  simp only [receiveControl, h]

theorem receiveControl_of_some {pdu : ReceivedPdu}
    (h : processPDU o (recvfrom (pduHeaderLen + rcopyResponsesPacketLength) stale datagram).1
      (recvfrom (pduHeaderLen + rcopyResponsesPacketLength) stale datagram).2 = some pdu) :
    receiveControl o stale datagram =
      if pdu.recvFlag = rrFlag then
        .rr (toInt32 (o.toNetwork (o.word32 pdu.payloadPointer)))
      else if pdu.recvFlag = srejFlag then
        .srej (toInt32 (o.toNetwork (o.word32 pdu.payloadPointer)))
      else if pdu.recvFlag = eofAckFlag then .eofAck
      else .other := by
  simp only [receiveControl, h]

end

/-! ## Rejected datagrams: the child -/

namespace Server

/-- The child after a datagram from `src` that it ignores: it goes back to where it polls next. -/
def ignored (s : Server) (src : Addr) : Server :=
  { s with
    client := src
    point := match s.point with
      | .windowOpenPoll  => .windowOpen
      | .windowClosed _  => .windowClosed 0
      | .endOfFileWait _ => .endOfFileWait 0
      | point            => point }

/-- The child treats the next datagram as `s` would have: behind `pollCall(0)` it goes on as after
no datagram, and elsewhere it receives the next one with the same result. -/
def GoesOn (o : ByteOrder) (s s' : Server) : Prop :=
  (s.point = .windowOpenPoll → s.step o (.poll .timeout) = some (.ok (s', []))) ∧
  (s.point ≠ .windowOpenPoll → ∀ src stale datagram,
    s'.step o (.poll (.received src stale datagram))
      = s.step o (.poll (.received src stale datagram)))

/-- The input changes nothing that matters. -/
def PassesOver (o : ByteOrder) (s : Server) (i : ServerInput) : Prop :=
  ∃ s', s.step o i = some (.ok (s', [])) ∧ s'.window = s.window ∧ s'.dataFile = s.dataFile ∧
    s'.bufferSize = s.bufferSize ∧ s'.client = s.client ∧ GoesOn o s s'

section
variable {s : Server} {src : Addr} {stale datagram : Bytes}

/-- Five exits, one outcome: the five ways in which the C leaves a handler after a bad checksum
all lead to the next poll. -/
theorem step_rejected (hpoised : s.Poised) (hpoll : s.Polls)
    (hreject : Rejected o (pduHeaderLen + rcopyResponsesPacketLength) stale datagram) :
    s.step o (.poll (.received src stale datagram)) = some (.ok (s.ignored src, [])) := by
  have hcontrol := receiveControl_of_rejected hreject
  rcases hpoll with hpoint | ⟨count, hpoint⟩ | ⟨count, hpoint⟩
  · simp only [step_windowOpenPoll hpoint, hpoint, windowOpenPoll, hcontrol, ignored]
  · -- The window is still closed, so `window_closed` is entered again.
    have hclosed := (hpoised.windowClosed count hpoint).1
    simp only [step_windowClosed hpoint, hpoint, windowClosed, hcontrol, ignored, windowClosedLoop,
      hclosed]
    rfl
  · simp only [step_endOfFileWait hpoint, hpoint, endOfFileWait, hcontrol, ignored, endOfFileLoop]
    rfl

/-- The count of timeouts plays no part in a receive. -/
theorem goesOn_ignored (hpoll : s.Polls) : GoesOn o s (s.ignored s.client) := by
  refine ⟨?_, ?_⟩
  · intro hpoint
    simp only [step_windowOpenPoll hpoint, hpoint, windowOpenPoll, ignored]
  · intro hne src stale datagram
    rcases hpoll with hpoint | ⟨count, hpoint⟩ | ⟨count, hpoint⟩
    · exact absurd hpoint hne
    · simp only [step, hpoint, ignored, windowClosed, resend, windowClosedLoop]
    · simp only [step, hpoint, ignored, endOfFileWait, resend, endOfFileLoop]

/-- **A rejected datagram is passed over iff it comes from the peer.** -/
theorem passesOver_iff_src (hpoised : s.Poised) (hpoll : s.Polls)
    (hreject : Rejected o (pduHeaderLen + rcopyResponsesPacketLength) stale datagram) :
    s.PassesOver o (.poll (.received src stale datagram)) ↔ src = s.client := by
  rw [PassesOver, step_rejected hpoised hpoll hreject]
  constructor
  · rintro ⟨s', hs', -, -, -, hclient, -⟩
    cases hs'
    exact hclient
  · rintro rfl
    exact ⟨_, rfl, rfl, rfl, rfl, rfl, goesOn_ignored hpoll⟩

/-- What is tested on the way to a poll holds there in every run. -/
theorem poised_of_reachable {windowSize bufferSize : Int} {dataFile : List Bytes} {client : Addr}
    {s₀ : Server} (hstart : start windowSize bufferSize dataFile client = .ok s₀)
    (h : (system o s₀).Reachable s) : s.Poised := by
  refine h.invariant (P := Poised) ?_ ?_
  · intro s hs
    cases hs
    exact poised_of_windowOpen (of_start hstart).2.1
  · intro s l s' _ _ hstep
    exact (stepped hstep).poised

end

end Server

/-! ## Rejected datagrams: rcopy -/

namespace Rcopy

/-- The input changes nothing that matters. -/
def PassesOver (o : ByteOrder) (r : Rcopy) (i : RcopyInput) : Prop :=
  ∃ r', r.step o i = some (.ok (r', [])) ∧ r'.window = r.window ∧ r'.outputFile = r.outputFile ∧
    r'.sequenceNumber = r.sequenceNumber ∧ r'.serverAddress = r.serverAddress ∧
    ∀ i, r'.step o i = r.step o i

/-- **A rejected datagram is passed over iff it comes from the peer.** -/
theorem passesOver_iff_src {r : Rcopy} (hpoll : r.point = .inOrder ∨ r.point = .buffering)
    {src : Addr} {stale datagram : Bytes} {write : Write} {junk : Byte}
    (hreject : Rejected o (pduHeaderLen + r.bufferSize) stale datagram) :
    r.PassesOver o (.poll (.received src stale datagram) write junk) ↔
      src = r.serverAddress := by
  rw [PassesOver, step_rejected hpoll hreject]
  constructor
  · rintro ⟨r', hr', -, -, -, hserver, -⟩
    cases hr'
    exact hserver
  · rintro rfl
    exact ⟨r, rfl, rfl, rfl, rfl, rfl, fun _ => rfl⟩

end Rcopy

/-- **In every state either program can reach, a datagram that `processPDU` rejects changes
nothing that matters if and only if it comes from the current peer**: the receive itself has
already made its sender the peer. -/
theorem passesOver_iff (o : ByteOrder) :
    (∀ (windowSize bufferSize : Int) (dataFile : List Bytes) (client : Addr) (s₀ s : Server),
      Server.start windowSize bufferSize dataFile client = .ok s₀ →
      (Server.system o s₀).Reachable s → s.Polls → ∀ (src : Addr) (stale datagram : Bytes),
      Rejected o (pduHeaderLen + rcopyResponsesPacketLength) stale datagram →
      (s.PassesOver o (.poll (.received src stale datagram)) ↔ src = s.client)) ∧
    (∀ (windowSize : Int) (bufferSize : BufferSize) (sequenceNumber : UInt32)
      (serverAddress : Addr) (r₀ r : Rcopy),
      Rcopy.start windowSize bufferSize sequenceNumber serverAddress = .ok r₀ →
      (Rcopy.system o r₀).Reachable r → (r.point = .inOrder ∨ r.point = .buffering) →
      ∀ (src : Addr) (stale datagram : Bytes) (write : Write) (junk : Byte),
      Rejected o (pduHeaderLen + r.bufferSize) stale datagram →
      (r.PassesOver o (.poll (.received src stale datagram) write junk) ↔
        src = r.serverAddress)) := by
  refine ⟨?_, ?_⟩
  · intro windowSize bufferSize dataFile client s₀ s hstart hs hpoll src stale datagram hreject
    exact Server.passesOver_iff_src (Server.poised_of_reachable hstart hs) hpoll hreject
  · intro windowSize bufferSize sequenceNumber serverAddress r₀ r _ _ hpoll src stale datagram
      write junk hreject
    exact Rcopy.passesOver_iff_src hpoll hreject

/-- One byte from the peer, between two blocks. -/
theorem passesOver_iff_sentServer :
    Server.sentServer.PassesOver .little (.poll (.received 7 [] [0xFF])) ↔ (7 : Addr) = 7 :=
  (passesOver_iff .little).1 1 108 [[1], [2]] 7 Server.smallServer Server.sentServer rfl
    (.step (.init rfl) Server.step_smallServer) (.inl rfl) 7 [] [0xFF] (by decide)

/-- The same byte from anyone else: the next block goes to the stranger. -/
theorem not_passesOver : Server.start (1 : Nat) 108 [[1], [2]] 7 = .ok Server.smallServer ∧
    (Server.system .little Server.smallServer).Reachable Server.sentServer ∧
    Server.sentServer.Polls ∧ Rejected .little 11 [] [0xFF] ∧
    ¬ Server.sentServer.PassesOver .little (.poll (.received 9 [] [0xFF])) := by
  refine ⟨rfl, .step (.init rfl) Server.step_smallServer, .inl rfl, by decide, ?_⟩
  rintro ⟨s', hstep, -, -, -, hclient, -⟩
  cases hstep
  cases hclient

/-! ## Bytes that were not received: the child -/

namespace Server

/-- What the child does with a datagram does not depend on what its receive buffer held before, in
any state it can reach. -/
def DecidesOnReceived (o : ByteOrder) (datagram : Bytes) : Prop :=
  ∀ (windowSize bufferSize : Int) (dataFile : List Bytes) (client : Addr) (s₀ s : Server),
    start windowSize bufferSize dataFile client = .ok s₀ → (system o s₀).Reachable s →
    ∀ (src : Addr) (stale stale' : Bytes),
      stale.length = pduHeaderLen + rcopyResponsesPacketLength →
      stale'.length = pduHeaderLen + rcopyResponsesPacketLength →
      s.step o (.poll (.received src stale datagram))
        = s.step o (.poll (.received src stale' datagram))

/-- No number is read from bytes that were not received: if the payload is too short for one, the
datagram is no SREJ, and an RR only if the sign of its number was received, and is negative. -/
def NumberReceived (o : ByteOrder) (datagram : Bytes) : Prop :=
  ∀ s flag payload, Accepted o datagram s flag payload →
    payload.length < rcopyResponsesPacketLength → flag ≠ srejFlag ∧
      (flag = rrFlag → ∃ sign rest, payload = sign :: rest ∧ 0x80 ≤ sign)

section
variable {s : Server} {src : Addr} {stale stale' datagram : Bytes}

theorem step_congr (h : receiveControl o stale datagram = receiveControl o stale' datagram) :
    s.step o (.poll (.received src stale datagram))
      = s.step o (.poll (.received src stale' datagram)) := by
  cases hpoint : s.point with
  | windowOpen => simp only [step, hpoint]
  | windowOpenPoll => simp only [step_windowOpenPoll hpoint, windowOpenPoll, h]
  | windowClosed count => simp only [step_windowClosed hpoint, windowClosed, h]
  | endOfFile => simp only [step, hpoint]
  | endOfFileWait count => simp only [step_endOfFileWait hpoint, endOfFileWait, h]
  | done why => simp only [step, hpoint]

/-- Two RRs that release nothing. -/
theorem step_congr_rr {rr rr' : Int} (h : receiveControl o stale datagram = .rr rr)
    (h' : receiveControl o stale' datagram = .rr rr') (hle : rr ≤ s.window.lower)
    (hle' : rr' ≤ s.window.lower) :
    s.step o (.poll (.received src stale datagram))
      = s.step o (.poll (.received src stale' datagram)) := by
  have hclean := cleaningUpWithRR_of_le hle
  have hclean' := cleaningUpWithRR_of_le hle'
  cases hpoint : s.point with
  | windowOpen => simp only [step, hpoint]
  | windowOpenPoll => simp only [step_windowOpenPoll hpoint, windowOpenPoll, h, h', hclean, hclean']
  | windowClosed count => simp only [step_windowClosed hpoint, windowClosed, h, h', hclean, hclean']
  | endOfFile => simp only [step, hpoint]
  | endOfFileWait count =>
      simp only [step_endOfFileWait hpoint, endOfFileWait, h, h', hclean, hclean']
  | done why => simp only [step, hpoint]

/-! ### The lower edge never goes below zero -/

theorem lower_of_sendDataPacket {w w' : WindowArray} {payload buf : Bytes}
    (h : sendDataPacket o w payload = .ok (w', buf)) : w'.lower = w.lower := by
  obtain ⟨b, -, h⟩ := C.bind_eq_ok.mp h
  obtain ⟨w₁, hadd, h⟩ := C.bind_eq_ok.mp h
  obtain ⟨w₂, hinc, h⟩ := C.bind_eq_ok.mp h
  obtain ⟨current, -, hw₂⟩ := C.bind_eq_ok.mp hinc
  cases hw₂
  cases h
  exact (WindowArray.edges_of_addPDU hadd).1

theorem lower_of_sendEof {w w' : WindowArray} {buf : Bytes} {junk : Byte}
    (h : RemoteCopy.sendEof o w junk = .ok (w', buf)) : w'.lower = w.lower := by
  obtain ⟨b, -, h⟩ := C.bind_eq_ok.mp h
  obtain ⟨w₁, hadd, h⟩ := C.bind_eq_ok.mp h
  cases h
  exact (WindowArray.edges_of_addPDU hadd).1

theorem lower_nonneg_of_reachable {windowSize bufferSize : Int} {dataFile : List Bytes}
    {client : Addr} {s₀ : Server} (hstart : start windowSize bufferSize dataFile client = .ok s₀)
    (h : (system o s₀).Reachable s) : 0 ≤ s.window.lower := by
  refine h.invariant (P := fun s => 0 ≤ s.window.lower) ?_ ?_
  · intro s hs
    cases hs
    exact Int.le_of_eq (WindowArray.lower_makeWindow (of_start hstart).1).symm
  · rintro s ⟨i, ds⟩ s' - hlow hstep
    cases (stepped hstep).effect with
    | idle hwindow _ _ => rw [hwindow]; exact hlow
    | sent _ _ _ hsend => exact (lower_of_sendDataPacket hsend).symm ▸ hlow
    | sentEof _ hsend => exact (lower_of_sendEof hsend).symm ▸ hlow
    | released _ hclean _ _ => exact Int.le_trans hlow (edges_of_cleaningUpWithRR hclean).2
    | resent _ _ hwindow _ _ => rw [hwindow]; exact hlow

end

/-! ### The number of a short RR or SREJ -/

theorem toInt32_pack_neg {a b c d : UInt8} (h : 0x80 ≤ a) :
    toInt32 (ByteOrder.pack a b c d) < 0 := by
  have ha : 128 ≤ a.toNat := UInt8.le_iff_toNat_le.mp h
  have hlt := (ByteOrder.pack a b c d).toNat_lt
  have hnat := ByteOrder.toNat_pack a b c d
  rw [toInt32, if_neg (by omega)]
  omega

theorem toInt32_pack_of_lt {a b c d : UInt8} (h : a < 0x80) : toInt32 (ByteOrder.pack a b c d)
    = (16777216 * a.toNat + 65536 * b.toNat + 256 * c.toNat + d.toNat : Nat) := by
  have ha : a.toNat < 128 := UInt8.lt_iff_toNat_lt.mp h
  have hb := b.toNat_lt
  have hc := c.toNat_lt
  have hd := d.toNat_lt
  have hnat := ByteOrder.toNat_pack a b c d
  rw [toInt32, hnat, if_pos (by omega)]

/-- The child's receive buffer, with one byte of it left over. -/
def staleBuffer (last : Byte) : Bytes := [0, 0, 0, 0, 0, 0, 0, 0, 0, 0, last]

/-- The number behind the header of a short datagram ends in the byte that was left over. -/
theorem word32_staleBuffer {payload : Bytes}
    (hshort : payload.length < rcopyResponsesPacketLength) : ∃ a b c,
    (a = 0 ∨ ∃ rest, payload = a :: rest) ∧ ∀ last : Byte, ByteOrder.word32 .big
      (payload ++ (staleBuffer last).drop (pduHeaderLen + payload.length))
        = ByteOrder.pack a b c last := by
  simp only [rcopyResponsesPacketLength] at hshort
  rcases payload with - | ⟨a, - | ⟨b, - | ⟨c, - | ⟨d, rest⟩⟩⟩⟩
  · exact ⟨0, 0, 0, .inl rfl, fun _ => rfl⟩
  · exact ⟨a, 0, 0, .inr ⟨_, rfl⟩, fun _ => rfl⟩
  · exact ⟨a, b, 0, .inr ⟨_, rfl⟩, fun _ => rfl⟩
  · exact ⟨a, b, c, .inr ⟨_, rfl⟩, fun _ => rfl⟩
  · simp only [List.length_cons] at hshort
    omega

section
variable {datagram : Bytes} {number : UInt32} {flag : Byte} {payload : Bytes}

/-- A short accepted datagram, as the child tells it apart. -/
theorem receiveControl_short (h : Accepted o datagram number flag payload)
    (hshort : payload.length < rcopyResponsesPacketLength) (stale : Bytes) :
    receiveControl o stale datagram =
      if flag = rrFlag then
        .rr (toInt32 (ByteOrder.word32 .big (payload ++ stale.drop datagram.length)))
      else if flag = srejFlag then
        .srej (toInt32 (ByteOrder.word32 .big (payload ++ stale.drop datagram.length)))
      else if flag = eofAckFlag then .eofAck
      else .other := by
  have hlen : datagram.length ≤ pduHeaderLen + rcopyResponsesPacketLength := by
    rw [h.layout.1]
    omega
  rw [receiveControl_of_some (h.received _ hlen stale)]
  simp only [ByteOrder.toNetwork_word32]

/-- A buffer that is filled to its end holds nothing else. -/
theorem receiveControl_full {stale stale' : Bytes}
    (hlen : pduHeaderLen + rcopyResponsesPacketLength ≤ datagram.length)
    (hstale : stale.length = pduHeaderLen + rcopyResponsesPacketLength)
    (hstale' : stale'.length = pduHeaderLen + rcopyResponsesPacketLength) :
    receiveControl o stale datagram = receiveControl o stale' datagram := by
  have hbuf : recvfrom (pduHeaderLen + rcopyResponsesPacketLength) stale datagram
      = recvfrom (pduHeaderLen + rcopyResponsesPacketLength) stale' datagram := by
    simp only [recvfrom, Nat.min_eq_right hlen]
    rw [List.drop_of_length_le (by omega), List.drop_of_length_le (by omega)]
  simp only [receiveControl, hbuf]

/-- Where the number was received, or does not matter, the child decides on what was received. -/
theorem decidesOnReceived_of_numberReceived (h : NumberReceived o datagram) :
    DecidesOnReceived o datagram := by
  intro windowSize bufferSize dataFile client s₀ s hstart hs src stale stale' hstale hstale'
  rcases Nat.lt_or_ge datagram.length (pduHeaderLen + rcopyResponsesPacketLength) with hlt | hge
  · have hprocess (stale : Bytes) := processPDU_append o datagram (stale.drop datagram.length)
    cases hpdu : processPDU o datagram datagram.length with
    | none =>
        have hreject (stale : Bytes) :
            Rejected o (pduHeaderLen + rcopyResponsesPacketLength) stale datagram := by
          rw [Rejected, recvfrom_of_le stale (Nat.le_of_lt hlt), hprocess, hpdu]
          rfl
        apply step_congr
        rw [receiveControl_of_rejected (hreject stale), receiveControl_of_rejected (hreject stale')]
    | some pdu =>
        have hacc := exists_accepted hpdu
        have hshort : pdu.payload.length < rcopyResponsesPacketLength := by
          have := hacc.layout.1
          omega
        obtain ⟨hsrej, hrr⟩ := h _ _ _ hacc hshort
        have hcontrol := receiveControl_short hacc hshort
        by_cases hflag : pdu.recvFlag = rrFlag
        · -- Whatever follows the sign, the number is negative.
          obtain ⟨sign, rest, hpayload, hsign⟩ := hrr hflag
          have hneg (tail : Bytes) :
              toInt32 (ByteOrder.word32 .big (pdu.payload ++ tail)) < 0 := by
            rw [hpayload]
            exact toInt32_pack_neg hsign
          have hlower := lower_nonneg_of_reachable hstart hs
          simp only [if_pos hflag] at hcontrol
          exact step_congr_rr (hcontrol stale) (hcontrol stale')
            (Int.le_of_lt (Int.lt_of_lt_of_le (hneg _) hlower))
            (Int.le_of_lt (Int.lt_of_lt_of_le (hneg _) hlower))
        · apply step_congr
          rw [hcontrol stale, hcontrol stale', if_neg hflag, if_neg hflag, if_neg hsrej,
            if_neg hsrej]
  · exact step_congr (receiveControl_full hge hstale hstale')

/-! ### A child that reads on -/

theorem sendWindow_sentServer : SendWindow sentServer.window := by
  have hreach : (honestSystem .little smallServer).Reachable sentServer := by
    refine .step (.init rfl) ⟨?_, step_smallServer⟩
    intro src stale datagram rr hi
    cases hi
  obtain ⟨L, K, m, h⟩ := holds_of_reachable (by decide) (by decide) start_smallServer hreach
  exact h.sendWindow

/-- Two numbers of an RR move the window to two places. -/
theorem step_rr_ne {src : Addr} {stale stale' : Bytes} {rr : Int} (hrr : 0 ≤ rr)
    (hmax : rr + 2 < 2147483648) (h : receiveControl o stale datagram = .rr rr)
    (h' : receiveControl o stale' datagram = .rr (rr + 1)) :
    sentServer.step o (.poll (.received src stale datagram))
      ≠ sentServer.step o (.poll (.received src stale' datagram)) := by
  intro heq
  have hwindow := sendWindow_sentServer
  have hlower : sentServer.window.lower = 0 := rfl
  have hsize : sentServer.window.windowSize = 1 := rfl
  obtain ⟨w, hclean⟩ := (cleaningUpWithRR_returns_iff hwindow rr).mpr (by omega)
  obtain ⟨w', hclean'⟩ := (cleaningUpWithRR_returns_iff hwindow (rr + 1)).mpr (by omega)
  have hpoll : sentServer.Polls := .inl rfl
  obtain ⟨next, hnext, hrun⟩ := step_rr hpoll src h
  obtain ⟨next', hnext', hrun'⟩ := step_rr hpoll src h'
  rw [hrun, hrun', hclean, hclean'] at heq
  simp only [C.ok_bind, Option.some.injEq, Except.ok.injEq, Prod.mk.injEq, and_true] at heq
  have hsame : w = w' := by rw [← (hnext w).1, ← (hnext' w').1, heq]
  have hedge := (acknowledged_of_cleaningUpWithRR hwindow hclean).lower
  have hedge' := (acknowledged_of_cleaningUpWithRR hwindow hclean').lower
  rw [hsame] at hedge
  omega

/-- Two numbers of an SREJ are answered with two datagrams: with one slot, whatever is asked for
is in it. -/
theorem step_srej_ne {src : Addr} {stale stale' : Bytes} {x x' : UInt32} (hne : x ≠ x')
    (h : receiveControl o stale datagram = .srej (toInt32 x))
    (h' : receiveControl o stale' datagram = .srej (toInt32 x')) :
    sentServer.step o (.poll (.received src stale datagram))
      ≠ sentServer.step o (.poll (.received src stale' datagram)) := by
  intro heq
  have hindex (x : UInt32) : sentServer.window.index (toInt32 x) = .ok 0 := by
    have hmod : (toInt32 x).tmod sentServer.window.windowSize = 0 := Int.tmod_one _
    rw [WindowArray.index, hmod]
    rfl
  obtain ⟨packet, hslot, hmin, hmax, hflag, hpayload⟩ : ∃ packet,
      sentServer.window.slot 0 = some packet ∧ pduHeaderLen ≤ packet.pdu.length ∧
      (packet.pdu.length : Int) ≤ pduHeaderLen + sentServer.bufferSize ∧
      packet.resentFlag resentSrejDataPacketFlag = resentSrejDataPacketFlag ∧
      packet.payload = [1] :=
    ⟨_, rfl, by decide, by decide, by decide, by decide⟩
  have hresend (x : UInt32) : resendDataPacket o sentServer.window x resentSrejDataPacketFlag
      sentServer.bufferSize = .ok (encodePDU o x resentSrejDataPacketFlag [1]) := by
    rw [resendDataPacket_some (hindex x) hslot hmin hmax (by decide), hflag, hpayload]
  have hpoll : sentServer.Polls := .inl rfl
  obtain ⟨s', -, hrun⟩ := step_srej hpoll src h
  obtain ⟨s'', -, hrun'⟩ := step_srej hpoll src h'
  rw [hrun, hrun', toUInt32_toInt32, toUInt32_toInt32, hresend, hresend] at heq
  simp only [C.ok_bind, Option.some.injEq, Except.ok.injEq, Prod.mk.injEq, List.cons.injEq,
    Datagram.mk.injEq, and_true, true_and] at heq
  have hacc := accepted_encodePDU o o x resentSrejDataPacketFlag (p := [1]) (by decide)
  rw [heq.2] at hacc
  have hacc' := accepted_encodePDU o o x' resentSrejDataPacketFlag (p := [1]) (by decide)
  exact hne (hacc.unique hacc').1

/-- **The child decides on what it received exactly where the number was received**, or where the
datagram needs none. -/
theorem decidesOnReceived_iff_numberReceived (o : ByteOrder) (datagram : Bytes) :
    DecidesOnReceived o datagram ↔ NumberReceived o datagram := by
  refine ⟨fun h => ?_, decidesOnReceived_of_numberReceived⟩
  intro number flag payload hacc hshort
  have hsame := h 1 108 [[1], [2]] 7 smallServer sentServer rfl
    (.step (.init rfl) step_smallServer) 7 (staleBuffer 0) (staleBuffer 1) rfl rfl
  obtain ⟨a, b, c, ha, hword⟩ := word32_staleBuffer hshort
  have hcontrol := receiveControl_short hacc hshort
  simp only [hacc.layout.1] at hcontrol
  refine ⟨?_, ?_⟩
  · rintro rfl
    have hsrej (last : Byte) : receiveControl o (staleBuffer last) datagram
        = .srej (toInt32 (ByteOrder.pack a b c last)) := by
      rw [hcontrol, if_neg (by decide), if_pos rfl, hword]
    have hne : ByteOrder.pack a b c 0 ≠ ByteOrder.pack a b c 1 := by
      intro heq
      have hnat := congrArg UInt32.toNat heq
      rw [ByteOrder.toNat_pack, ByteOrder.toNat_pack] at hnat
      simp at hnat
    exact step_srej_ne hne (hsrej 0) (hsrej 1) hsame
  · rintro rfl
    have hrr (last : Byte) : receiveControl o (staleBuffer last) datagram
        = .rr (toInt32 (ByteOrder.pack a b c last)) := by
      rw [hcontrol, if_pos rfl, hword]
    rcases Nat.lt_or_ge a.toNat 128 with hlt | hge
    · -- The sign was not received, or is positive.
      have hsign : a < 0x80 := UInt8.lt_iff_toNat_lt.mpr hlt
      have hzero := toInt32_pack_of_lt (b := b) (c := c) (d := 0) hsign
      have hone := toInt32_pack_of_lt (b := b) (c := c) (d := 1) hsign
      have hb := b.toNat_lt
      have hc := c.toNat_lt
      have h0 : (0 : UInt8).toNat = 0 := rfl
      have h1 : (1 : UInt8).toNat = 1 := rfl
      rw [h0] at hzero
      rw [h1] at hone
      have hnext : toInt32 (ByteOrder.pack a b c 1) = toInt32 (ByteOrder.pack a b c 0) + 1 := by
        rw [hzero, hone]
        push_cast
        omega
      exact absurd hsame (step_rr_ne (by omega) (by omega) (hrr 0) (hnext ▸ hrr 1))
    · rcases ha with rfl | ⟨rest, hpayload⟩
      · exact absurd hge (by decide)
      · exact ⟨a, rest, hpayload, UInt8.le_iff_toNat_le.mpr hge⟩

end

end Server

/-! ## Bytes that were not received: `filename` -/

namespace RcopySetup

/-- What `filename` makes of a datagram does not depend on what its receive buffer held before. -/
def DecidesOnReceived (o : ByteOrder) (r : RcopySetup) (bufferSize : BufferSize)
    (server newSocket src : Addr) (datagram : Bytes) : Prop :=
  ∀ stale stale' : Bytes, stale.length = pduHeaderLen + bufferSize →
    stale'.length = pduHeaderLen + bufferSize →
    r.filename o bufferSize server newSocket (.received src stale datagram)
      = r.filename o bufferSize server newSocket (.received src stale' datagram)

/-- If the checksum is right, the flag was received, and for `FILENAME_RESPONSE` the byte behind
it too. -/
def ResponseReceived (o : ByteOrder) (bufferSize : BufferSize) (datagram : Bytes) : Prop :=
  inCksum o (datagram.take (pduHeaderLen + bufferSize)) = 0 →
    pduHeaderLen < datagram.length ∨
      (datagram.length = pduHeaderLen ∧ byteAt datagram recvFlagLocation ≠ filenameResponseFlag)

section
variable {r : RcopySetup} {bufferSize : BufferSize} {server newSocket src : Addr}
  {datagram : Bytes}

theorem take_recvfrom (size : Nat) (stale datagram : Bytes) :
    (recvfrom size stale datagram).1.take (recvfrom size stale datagram).2
      = datagram.take size := by
  have hlen : (datagram.take (min datagram.length size)).length = min datagram.length size :=
    List.length_take_of_le (Nat.min_le_left _ _)
  simp only [recvfrom]
  rw [List.take_append_of_le_length (Nat.le_of_eq hlen.symm), List.take_take, Nat.min_self]
  rcases Nat.le_total datagram.length size with h | h
  · rw [Nat.min_eq_left h, List.take_length, List.take_of_length_le h]
  · rw [Nat.min_eq_right h]

/-- A received byte is where it was in the datagram. -/
theorem byteAt_recvfrom {size i : Nat} (stale : Bytes) (hi : i < datagram.length)
    (hi' : i < size) : byteAt (recvfrom size stale datagram).1 i = byteAt datagram i := by
  have hlen : i < (datagram.take (min datagram.length size)).length := by
    rw [List.length_take]
    omega
  simp only [recvfrom]
  rw [byteAt_append hlen, byteAt, byteAt, List.getD_eq_getElem?_getD,
    List.getElem?_take_of_lt (by omega), ← List.getD_eq_getElem?_getD]

/-- Any other byte is one of the old ones. -/
theorem byteAt_recvfrom_replicate {size i : Nat} (hi : datagram.length ≤ i) (hi' : i < size)
    (x : Byte) : byteAt (recvfrom size (List.replicate size x) datagram).1 i = x := by
  have hle : datagram.length ≤ size := by omega
  rw [recvfrom_of_le _ hle, byteAt, List.getD_eq_getElem?_getD, List.getElem?_append_right hi,
    List.getElem?_drop, List.getElem?_replicate, if_pos (by omega)]
  rfl

/-- A receive whose checksum is wrong is one more reason to ask again. -/
theorem filename_of_inCksum_ne (stale : Bytes)
    (hsum : inCksum o (datagram.take (pduHeaderLen + bufferSize)) ≠ 0) :
    r.filename o bufferSize server newSocket (.received src stale datagram)
      = retry { r with serverAddress := src } server newSocket := by
  simp only [filename, take_recvfrom, if_neg hsum]

theorem filename_intact (r : RcopySetup) (server newSocket src : Addr) (stale : Bytes)
    (hsum : inCksum o (datagram.take (pduHeaderLen + bufferSize)) = 0) :
    r.filename o bufferSize server newSocket (.received src stale datagram)
      = (leave { r with serverAddress := src } (answered
          (byteAt (recvfrom (pduHeaderLen + bufferSize) stale datagram).1 recvFlagLocation)
          (byteAt (recvfrom (pduHeaderLen + bufferSize) stale datagram).1 pduHeaderLen)), []) :=
  filename_of_inCksum r server newSocket src (by rw [take_recvfrom]; exact hsum)

/-- Behind a shorter datagram than a header the flag is an old byte. -/
theorem DecidesOnReceived.header_received
    (h : DecidesOnReceived o r bufferSize server newSocket src datagram)
    (hsum : inCksum o (datagram.take (pduHeaderLen + bufferSize)) = 0) :
    pduHeaderLen ≤ datagram.length := by
  by_contra hlt
  have hflag (x : Byte) : byteAt (recvfrom (pduHeaderLen + bufferSize)
      (List.replicate (pduHeaderLen + bufferSize) x) datagram).1 recvFlagLocation = x := by
    apply byteAt_recvfrom_replicate
    · exact Nat.le_of_lt_succ (Nat.lt_of_not_le hlt)
    · simp only [recvFlagLocation, pduHeaderLen]
      omega
  have hsame := h (List.replicate _ 0) (List.replicate _ dataPacketFlag)
    List.length_replicate List.length_replicate
  rw [filename_intact r server newSocket src _ hsum, filename_intact r server newSocket src _ hsum,
    hflag, hflag] at hsame
  have hstate := congrArg (fun x => x.1.state) hsame
  simp only [leave, answered] at hstate
  rw [if_neg (by decide), if_neg (by decide), if_neg (by decide), if_pos (.inl trivial)] at hstate
  cases hstate

/-- Behind a header alone the byte that stands for the file is an old one. -/
theorem DecidesOnReceived.flag_ne
    (h : DecidesOnReceived o r bufferSize server newSocket src datagram)
    (hsum : inCksum o (datagram.take (pduHeaderLen + bufferSize)) = 0)
    (hlen : datagram.length = pduHeaderLen) :
    byteAt datagram recvFlagLocation ≠ filenameResponseFlag := by
  intro hresponse
  have hsize := bufferSize.2.1
  have hbyte (x : Byte) : byteAt (recvfrom (pduHeaderLen + bufferSize)
      (List.replicate (pduHeaderLen + bufferSize) x) datagram).1 pduHeaderLen = x := by
    apply byteAt_recvfrom_replicate
    · exact Nat.le_of_eq hlen
    · omega
  have hflag (stale : Bytes) : byteAt (recvfrom (pduHeaderLen + bufferSize) stale datagram).1
      recvFlagLocation = filenameResponseFlag := by
    rw [byteAt_recvfrom stale (by rw [hlen]; decide) (by
      simp only [recvFlagLocation, pduHeaderLen]
      omega), hresponse]
  have hsame := h (List.replicate _ fileNotOk) (List.replicate _ fileOk)
    List.length_replicate List.length_replicate
  rw [filename_intact r server newSocket src _ hsum, filename_intact r server newSocket src _ hsum,
    hbyte, hbyte, hflag, hflag] at hsame
  have hstate := congrArg (fun x => x.1.state) hsame
  simp only [leave, answered, if_true] at hstate
  rw [if_neg (by decide)] at hstate
  cases hstate

/-- **`filename` decides on what it received exactly where its answer was received**, or where the
checksum is wrong. -/
theorem decidesOnReceived_iff_responseReceived : DecidesOnReceived o r bufferSize server newSocket
    src datagram ↔ ResponseReceived o bufferSize datagram := by
  have hsize := bufferSize.2.1
  constructor
  · intro h hsum
    rcases Nat.lt_or_eq_of_le (h.header_received hsum) with hlt | heq
    · exact .inl hlt
    · exact .inr ⟨heq.symm, h.flag_ne hsum heq.symm⟩
  · intro h stale stale' _ _
    by_cases hsum : inCksum o (datagram.take (pduHeaderLen + bufferSize)) = 0
    · have hflag (stale : Bytes) (hlen : pduHeaderLen ≤ datagram.length) :
          byteAt (recvfrom (pduHeaderLen + bufferSize) stale datagram).1 recvFlagLocation
            = byteAt datagram recvFlagLocation := by
        apply byteAt_recvfrom
        · exact Nat.lt_of_succ_le hlen
        · simp only [recvFlagLocation, pduHeaderLen]
          omega
      rw [filename_intact r server newSocket src stale hsum,
        filename_intact r server newSocket src stale' hsum]
      rcases h hsum with hlt | ⟨hlen, hne⟩
      · rw [hflag stale (Nat.le_of_lt hlt), hflag stale' (Nat.le_of_lt hlt),
          byteAt_recvfrom stale hlt (by omega), byteAt_recvfrom stale' hlt (by omega)]
      · rw [hflag stale (Nat.le_of_eq hlen.symm), hflag stale' (Nat.le_of_eq hlen.symm), answered,
          answered, if_neg hne, if_neg hne]
    · rw [filename_of_inCksum_ne stale hsum, filename_of_inCksum_ne stale' hsum]

end

end RcopySetup

/-! ## The result -/

/-- **Which datagrams are decided on by their received bytes alone**, in the three receiving states
of the child, wherever it may be, and in `filename`. -/
theorem decidesOnReceived_iff (o : ByteOrder) (datagram : Bytes) :
    (Server.DecidesOnReceived o datagram ↔ Server.NumberReceived o datagram) ∧
    ∀ (r : RcopySetup) (bufferSize : BufferSize) (server newSocket src : Addr),
      r.DecidesOnReceived o bufferSize server newSocket src datagram ↔
        RcopySetup.ResponseReceived o bufferSize datagram :=
  ⟨Server.decidesOnReceived_iff_numberReceived o datagram,
    fun _ _ _ _ _ => RcopySetup.decidesOnReceived_iff_responseReceived⟩

/-- An intact RR without its number, and two bytes of ones, whose checksum is right as well. -/
theorem not_decidesOnReceived :
    (Accepted .little (encodePDU .little 0 rrFlag []) 0 rrFlag [] ∧
      ¬ Server.DecidesOnReceived .little (encodePDU .little 0 rrFlag [])) ∧
    (inCksum .little [0xFF, 0xFF] = 0 ∧ ∀ (r : RcopySetup) (server newSocket src : Addr),
      ¬ r.DecidesOnReceived .little leastBufferSize server newSocket src [0xFF, 0xFF]) := by
  have hacc : Accepted .little (encodePDU .little 0 rrFlag []) 0 rrFlag [] := ⟨by decide⟩
  refine ⟨⟨hacc, fun h => ?_⟩, by decide, fun r server newSocket src h => ?_⟩
  · obtain ⟨sign, rest, hnil, -⟩ :=
      (Server.decidesOnReceived_iff_numberReceived _ _ |>.mp h 0 rrFlag [] hacc (by decide)).2 rfl
    cases hnil
  · exact absurd (h.header_received (by decide)) (by decide)

end RemoteCopy

import RemoteCopy.ServerInvariant

/-!
# The server child and an arbitrary peer

What the child does with datagrams that pass `processPDU` but need not come from an honest rcopy.
An RR beyond `current` is the only thing that can break its window, and an SREJ is answered
properly exactly when what it asks for is in the window.
-/

namespace RemoteCopy

namespace Server

variable {o : ByteOrder}

/-! ## Acknowledgements -/

/-- The invariant of `window.h`. -/
structure WindowOrdered (s : Server) (n : Nat) : Prop where
  lower_le : s.window.lower ≤ s.window.current
  le_upper : s.window.current ≤ s.window.upper
  upper_eq : s.window.upper = s.window.lower + n

/-- Where a timeout makes the child resend `lower`, the slot of `lower` holds that PDU. -/
def LowerStored (s : Server) : Prop :=
  (∃ count, s.point = .windowClosed count) ∨ (∃ count, s.point = .endOfFileWait count) →
    ∃ i packet, s.window.index s.window.lower = .ok i ∧ s.window.slot i = some packet ∧
      packet.sequenceNumber = s.window.lower

section
variable {s s' : Server} {n L K : Nat} {blocks : List Bytes} {m : Nat → Option Packet}

theorem Holds.windowOrdered (h : s.Holds o n blocks L K m) : s.WindowOrdered n := by
  have hlower := h.shows.lower
  have hupper := h.shows.upper
  have hcurrent := h.current
  have hle := h.lower_le
  have hup := h.le_upper
  exact ⟨by omega, by omega, by omega⟩

theorem Holds.lowerStored (h : s.Holds o n blocks L K m) : s.LowerStored := by
  intro hpoint
  obtain ⟨packet, hpacket, hnumber⟩ := h.lower_isSome hpoint
  have hpos := h.shows.pos
  rw [h.shows.lower]
  refine ⟨L % n, packet, WindowArray.index_eq h.shows.size hpos, ?_, hnumber⟩
  rw [h.shows.slot_eq (Nat.le_refl L) (by omega), hpacket]

/-- **As long as only what was sent is acknowledged, the window stays in order and its lower edge
occupied; an RR beyond `current` breaks the order at once.** -/
theorem windowOrdered_iff_acknowledgesSent {bufferSize : Int} {client : Addr} {s₀ : Server}
    (hn : 0 < n) (hmax : n < 2147483648) (hstart : start n bufferSize blocks client = .ok s₀) :
    (∀ s, (honestSystem o s₀).Reachable s → s.WindowOrdered n ∧ s.LowerStored) ∧
    ∀ s i s' ds, (honestSystem o s₀).Reachable s → s.step o i = some (.ok (s', ds)) →
      (s'.WindowOrdered n ↔ AcknowledgesSent o s i) := by
  refine ⟨fun s h => ?_, fun s i s' ds h hstep => ?_⟩
  · obtain ⟨L, K, m, hs⟩ := holds_of_reachable hn hmax hstart h
    exact ⟨hs.windowOrdered, hs.lowerStored⟩
  · obtain ⟨L, K, m, hs⟩ := holds_of_reachable hn hmax hstart h
    refine ⟨fun hordered => ?_, fun hrr => ?_⟩
    · rintro src stale datagram rr rfl hcontrol
      by_contra hgt
      -- The child carries the RR out, whichever of its three polls it is at.
      obtain ⟨next, hnext, hrun⟩ := step_rr (polls_of_step hstep) src hcontrol
      obtain ⟨w, hclean, hs'⟩ := C.bind_eq_ok.mp (Option.some.inj (hrun.symm.trans hstep))
      cases hs'
      rw [← (hnext w).1] at hclean
      have hcurrent := hs.current
      have hlt := hs.overrun hclean (by omega)
      exact absurd hordered.lower_le (Int.not_le.mpr hlt)
    · obtain ⟨L', K', m', hs'⟩ := hs.step hstep hrr
      exact hs'.windowOrdered

end

/-! ### A window that an RR breaks -/

/-- A child with a window of one PDU, as it starts on a file of two blocks. -/
def smallServer : Server where
  point := .windowOpen
  window := {
    array := [none]
    upper := 1
    lower := 0
    current := 0
    windowSize := 1
    highest := 0
    length_array := rfl }
  dataFile := [[1], [2]]
  bufferSize := 108
  client := 7

theorem start_smallServer : start (1 : Nat) 108 [[1], [2]] 7 = .ok smallServer := rfl

/-- A poll that receives RR or SREJ, by its flag, with the number `n`. -/
def receives (flag : Byte) (n : Nat) : ServerInput :=
  .poll (.received 7 [] (encodePDU .little 0 flag (ByteOrder.bytes32 .big (toUInt32 n))))

/-- A step in which only what was sent is acknowledged, computed. -/
def honestNext (o : ByteOrder) (s : Server) (i : ServerInput) : Option Server :=
  if AcknowledgesSent o s i then s.next o i else none

theorem honestSystem_of_honestNext {s₀ s s' : Server} {i : ServerInput}
    (h : honestNext o s i = some s') : ∃ l, (honestSystem o s₀).step s l s' := by
  unfold honestNext at h
  split at h
  · next hrr =>
      unfold next at h
      split at h
      · next s'' ds hstep =>
          cases h
          exact ⟨(i, ds), hrr, hstep⟩
      · cases h
  · cases h

/-- The first block is acknowledged and the second is sent, so the window is closed; then RR 3 comes
for a block that there is not. -/
theorem windowOrdered_smallServer : ∃ s, (honestSystem .little smallServer).Reachable s ∧
    s.point = .windowClosed 0 ∧ s.window.lower = 1 ∧ s.WindowOrdered 1 ∧ s.LowerStored ∧
    ∃ s' ds, s.step .little (receives rrFlag 3) = some (.ok (s', ds)) ∧ ¬ s'.WindowOrdered 1 := by
  have hinit : (honestSystem .little smallServer).Reachable smallServer := .init rfl
  obtain ⟨s, hs, hp⟩ := hinit.exists_of_run (honestNext .little)
    (fun _ _ _ => honestSystem_of_honestNext)
    [.run false 0, receives rrFlag 1, .run false 0, .poll .timeout, .run false 0]
    (fun s => decide (s.point = .windowClosed 0 ∧ s.window.lower = 1 ∧
      s.sends .little (receives rrFlag 3) = some [] ∧
      ¬ AcknowledgesSent .little s (receives rrFlag 3))) (by decide +kernel)
  obtain ⟨hpoint, hlower, hsends, hunsent⟩ := of_decide_eq_true hp
  obtain ⟨s', hstep⟩ := exists_of_sends hsends
  obtain ⟨hordered, hbreaks⟩ :=
    windowOrdered_iff_acknowledgesSent (o := .little) (by decide) (by decide) start_smallServer
  exact ⟨s, hs, hpoint, hlower, (hordered s hs).1, (hordered s hs).2, s', [], hstep,
    (hbreaks s _ s' [] hs hstep).not.mpr hunsent⟩

/-- With one block sent, RR 2 moves `lower` beyond `current`. -/
theorem not_windowOrdered_smallServer : start (1 : Nat) 108 [[1], [2]] 7 = .ok smallServer ∧
    ∃ s, (system .little smallServer).Reachable s ∧ ¬ s.WindowOrdered 1 := by
  have hinit : (system .little smallServer).Reachable smallServer := .init rfl
  obtain ⟨s, hs, hlt⟩ := hinit.exists_of_run (next .little) (fun _ _ _ => system_of_next .little)
    [.run false 0, receives rrFlag 2] (fun s => decide (s.window.current < s.window.lower))
    (by decide)
  exact ⟨rfl, s, hs, fun h => absurd h.lower_le (Int.not_le.mpr (of_decide_eq_true hlt))⟩

/-! ## Rejections -/

/-- `number` is held in the window: a block between `lower` and `current`, or the EOF. -/
def InWindow (s : Server) (number : Int) : Prop :=
  (s.window.lower ≤ number ∧ number < s.window.current) ∨
  (number = s.window.current ∧ ∃ i packet, s.window.index number = .ok i ∧
    s.window.slot i = some packet ∧ packet.sequenceNumber = number ∧ packet.flag = eofFlag)

/-- The slot of `number` holds the PDU with that number. -/
def Stores (s : Server) (number : Int) : Prop :=
  ∃ i packet, s.window.index number = .ok i ∧ s.window.slot i = some packet ∧
    packet.sequenceNumber = number

/-- The flag under which a PDU is resent for an SREJ: an EOF stays one. -/
def srejFlagOf (packet : Packet) : Byte :=
  if packet.flag = eofFlag then eofFlag else resentSrejDataPacketFlag

/-- The outcome `y` answers an SREJ for `number` from `src` as it should be: with one datagram to
`src` that carries the number and the payload stored for it, resent as what it is, if it is in the
window, and else with none. -/
def AnswersSrej (o : ByteOrder) (s : Server) (src : Addr) (number : Int)
    (y : C (Server × List Datagram)) : Prop :=
  (s.InWindow number → ∃ s' i packet, s.window.index number = .ok i ∧
    s.window.slot i = some packet ∧ packet.sequenceNumber = number ∧
    y = .ok (s', [⟨src, encodePDU o (toUInt32 number) (srejFlagOf packet) packet.payload⟩])) ∧
  (¬ s.InWindow number → ∃ s', y = .ok (s', []))

/-- A PDU that the child has made: data or the EOF, and no longer than the buffer of
`resend_data_packet`. -/
structure Made (bufferSize : Int) (packet : Packet) : Prop where
  min : pduHeaderLen ≤ packet.pdu.length
  max : (packet.pdu.length : Int) ≤ pduHeaderLen + bufferSize
  flag_eq : packet.flag = byteAt packet.pdu recvFlagLocation
  flag : packet.flag = dataPacketFlag ∨ packet.flag = eofFlag

/-- The slots hold what the child has made. -/
structure Stocked (s : Server) : Prop where
  slots : ∀ i packet, s.window.slot i = some packet → Made s.bufferSize packet
  file : ∀ block ∈ s.dataFile, (block.length : Int) ≤ s.bufferSize
  poised : s.Poised

section
variable {s s' : Server} {n : Nat} {blocks : List Bytes}

/-- Acknowledgements only empty slots. -/
theorem slot_of_cleaningUpWithRR {w w' : WindowArray} {rr : Int}
    (h : cleaningUpWithRR w rr = .ok w') {j : Nat} {packet : Packet}
    (hslot : w'.slot j = some packet) : w.slot j = some packet := by
  refine cleaningUpLoop_rel (R := fun w w' => w'.slot j = some packet → w.slot j = some packet)
    ?_ ?_ _ w w' h hslot
  · intro w hw
    exact hw
  · intro w w' i hrest hw'
    have hstore : (w.store i none).slot j = some packet := hrest hw'
    rcases WindowArray.slot_of_store hstore with ⟨hold, -⟩ | ⟨-, hnone⟩
    · exact hold
    · cases hnone

theorem Made.resentFlag {bufferSize : Int} {packet : Packet} (h : Made bufferSize packet) :
    packet.resentFlag resentSrejDataPacketFlag = srejFlagOf packet := by
  rw [Packet.resentFlag, ← h.flag_eq, srejFlagOf]
  rcases h.flag with hdata | heof
  · rw [hdata, if_pos rfl, if_neg (by decide)]
  · rw [heof, if_neg (by decide), if_pos rfl]

/-- What a slot holds after the child has stored a PDU was there before, or is made by the child. -/
theorem made_of_addPDU {w w' : WindowArray} {number bufferSize : Int} {seq : UInt32} {flag : Byte}
    {payload : Bytes} {j : Nat} {packet : Packet}
    (hadd : w.addPDU (encodePDU o seq flag payload) (encodePDU o seq flag payload).length number
      = .ok w') (hj : w'.slot j = some packet) (hlen : (payload.length : Int) ≤ bufferSize)
    (hflag : flag = dataPacketFlag ∨ flag = eofFlag) :
    w.slot j = some packet ∨ Made bufferSize packet := by
  rcases WindowArray.slot_of_addPDU hadd hj with hold | ⟨-, -, -, hbyte, hpdu⟩
  · exact .inl hold
  · rw [List.take_length] at hpdu
    rw [byteAt_encodePDU] at hbyte
    have hlength : packet.pdu.length = pduHeaderLen + payload.length := by
      rw [hpdu, length_encodePDU]
    refine .inr ⟨?_, ?_, ?_, hbyte ▸ hflag⟩
    · omega
    · omega
    · rw [hpdu, byteAt_encodePDU]
      exact hbyte

/-- The steps keep the window stocked, whatever is acknowledged. -/
theorem Stocked.step (h : s.Stocked) {i : ServerInput} {ds : List Datagram}
    (hstep : s.step o i = some (.ok (s', ds))) : s'.Stocked := by
  obtain ⟨heffect, hpoised, hsize, -⟩ := stepped hstep
  cases heffect with
  | idle hwindow hcontinues hack =>
      exact ⟨by rw [hwindow, hsize]; exact h.slots, by rw [hcontinues.file, hsize]; exact h.file,
        hpoised⟩
  | @sent readFails junk payload buf rest w hpoint hopen hfile hsend =>
      have hpayload := h.file payload (hfile ▸ List.mem_cons_self)
      refine ⟨fun j packet hj => ?_,
        fun block hb => h.file block (hfile ▸ List.mem_cons_of_mem _ hb), hpoised⟩
      obtain ⟨rfl, -, w₁, hadd, rfl⟩ := of_sendDataPacket hsend
      exact (made_of_addPDU hadd hj hpayload (.inl rfl)).elim (h.slots j packet) id
  | @sentEof readFails junk buf w hpoint hsend =>
      obtain ⟨-, -, hpos⟩ := h.poised.endOfFile hpoint
      refine ⟨fun j packet hj => ?_, h.file, hpoised⟩
      obtain ⟨rfl, hadd⟩ := of_sendEof hsend
      have hlen : (([junk] : Bytes).length : Int) ≤ s.bufferSize := by
        rw [List.length_singleton]
        omega
      exact (made_of_addPDU hadd hj hlen (.inr rfl)).elim (h.slots j packet) id
  | released hcontrol hclean hcontinues hdone =>
      refine ⟨fun j packet hj => ?_, by rw [hcontinues.file, hsize]; exact h.file, hpoised⟩
      rw [hsize]
      exact h.slots j packet (slot_of_cleaningUpWithRR hclean hj)
  | resent hcause hresend hwindow hcontinues hack =>
      exact ⟨by rw [hwindow, hsize]; exact h.slots, by rw [hcontinues.file, hsize]; exact h.file,
        hpoised⟩

/-- The number of an SREJ is a 32-bit number. -/
theorem exists_of_receiveControl_srej {stale datagram : Bytes} {number : Int}
    (h : receiveControl o stale datagram = .srej number) : ∃ x, number = toInt32 x := by
  unfold receiveControl at h
  simp only at h
  split at h
  · cases h
  · split at h
    · cases h
    · split at h
      · cases h
        exact ⟨_, rfl⟩
      · split at h <;> cases h

/-- What the child does with an SREJ: it sends one datagram, under the number asked for, if the slot
is occupied, and runs into something undefined if it is not, or if its buffers are too large. -/
theorem Stocked.srej (h : s.Stocked) (hpoll : s.Polls) (src : Addr) {stale datagram : Bytes}
    {number : Int} (hcontrol : receiveControl o stale datagram = .srej number) : ∃ y,
    s.step o (.poll (.received src stale datagram)) = some y ∧
    ((∃ s' i packet, pduHeaderLen + s.bufferSize < 2147483648 ∧
      s.window.index number = .ok i ∧ s.window.slot i = some packet ∧
      y = .ok (s', [⟨src, encodePDU o (toUInt32 number) (srejFlagOf packet) packet.payload⟩])) ∨
    ((pduHeaderLen + s.bufferSize < 2147483648 →
        ∀ i packet, s.window.index number = .ok i → s.window.slot i ≠ some packet) ∧
      ∃ e, y = .error e)) := by
  obtain ⟨s', -, hstep⟩ := step_srej hpoll src hcontrol
  have hnumber : toInt32 (toUInt32 number) = number := by
    obtain ⟨x, rfl⟩ := exists_of_receiveControl_srej hcontrol
    rw [toUInt32_toInt32]
  refine ⟨_, hstep, ?_⟩
  cases hresend : resendDataPacket o s.window (toUInt32 number) resentSrejDataPacketFlag
      s.bufferSize with
  | ok buf =>
      have hrange := range_of_resendDataPacket hresend
      obtain ⟨i, packet, hindex, hslot, -, -, rfl⟩ := exists_of_resendDataPacket hresend
      rw [hnumber] at hindex
      refine .inl ⟨s', i, packet, hrange, hindex, hslot, ?_⟩
      rw [(h.slots i packet hslot).resentFlag]
      rfl
  | error e =>
      refine .inr ⟨fun hrange i packet hindex hslot => ?_, e, rfl⟩
      have hmade := h.slots i packet hslot
      rw [resendDataPacket_some (hnumber.symm ▸ hindex) hslot hmade.min hmade.max hrange] at hresend
      cases hresend

/-- What is in the window is stored there, unless an RR has broken the window. -/
theorem Holds.stores {L K : Nat} {m : Nat → Option Packet} (h : s.Holds o n blocks L K m)
    {number : Int} (hin : s.InWindow number) : s.Stores number := by
  rcases hin with ⟨hlow, hhigh⟩ | ⟨-, i, packet, hindex, hslot, hnumber, -⟩
  · rw [h.shows.lower] at hlow
    rw [h.current] at hhigh
    obtain ⟨k, rfl⟩ := Int.eq_ofNat_of_zero_le (by omega : 0 ≤ number)
    have hup := h.le_upper
    obtain ⟨packet, block, -, hpacket, hcarries⟩ := h.data k (by omega) (by omega)
    refine ⟨k % n, packet, WindowArray.index_eq h.shows.size h.shows.pos, ?_,
      hcarries.sequenceNumber⟩
    rw [h.shows.slot_eq (by omega) (by omega), hpacket]
  · exact ⟨i, packet, hindex, hslot, hnumber⟩

/-- **An SREJ is answered as it should be exactly when the number it asks for is in the window and
stored there**, and the buffers to resend it are not too large. In every run in which only what was
sent is acknowledged, what is in the window is stored there. -/
theorem answersSrej_iff {bufferSize : Int} {client : Addr} {s₀ : Server}
    (hmax : n < 2147483648) (hfit : ∀ block ∈ blocks, (block.length : Int) ≤ bufferSize)
    (hstart : start n bufferSize blocks client = .ok s₀) (hs : (system o s₀).Reachable s)
    (hpoll : s.Polls) {src : Addr} {stale datagram : Bytes} {number : Int}
    (hcontrol : receiveControl o stale datagram = .srej number) :
    (∃ y, s.step o (.poll (.received src stale datagram)) = some y ∧
      (AnswersSrej o s src number y ↔
        pduHeaderLen + s.bufferSize < 2147483648 ∧ s.InWindow number ∧ s.Stores number)) ∧
    (0 < n → (honestSystem o s₀).Reachable s → s.InWindow number → s.Stores number) := by
  have hstocked : s.Stocked := by
    refine System.Reachable.invariant (P := Stocked) ?_ (fun s l s' _ h hstep => h.step hstep) hs
    intro s hs
    cases hs
    obtain ⟨hwindow, hpoint, hfile, hsize, -⟩ := of_start hstart
    refine ⟨fun i packet hslot => ?_, by rw [hfile, hsize]; exact hfit, poised_of_windowOpen hpoint⟩
    rw [WindowArray.slot_makeWindow hwindow] at hslot
    cases hslot
  obtain ⟨y, hstep, hy⟩ := hstocked.srej hpoll src hcontrol
  refine ⟨⟨y, hstep, fun hanswer => ?_,
    fun ⟨hrange, hin, hstores⟩ => ⟨fun _ => ?_, fun hout => absurd hin hout⟩⟩,
    fun hn hhonest hin => ?_⟩
  · by_cases hin : s.InWindow number
    · obtain ⟨s', i, packet, hindex, hslot, hnumber, hok⟩ := hanswer.1 hin
      rcases hy with ⟨-, -, -, hrange, -⟩ | ⟨-, e, herror⟩
      · exact ⟨hrange, hin, i, packet, hindex, hslot, hnumber⟩
      · cases hok.symm.trans herror
    · -- A number that is not in the window is never answered by silence.
      obtain ⟨s', hsilent⟩ := hanswer.2 hin
      rcases hy with ⟨s'', i, packet, -, -, -, hsent⟩ | ⟨-, e, herror⟩
      · cases hsilent.symm.trans hsent
      · cases hsilent.symm.trans herror
  · obtain ⟨i, packet, hindex, hslot, hnumber⟩ := hstores
    rcases hy with ⟨s', i', packet', -, hindex', hslot', hsent⟩ | ⟨hempty, -⟩
    · cases hindex.symm.trans hindex'
      cases hslot.symm.trans hslot'
      exact ⟨s', i, packet, hindex, hslot, hnumber, hsent⟩
    · exact absurd hslot (hempty hrange i packet hindex)
  · obtain ⟨L, K, m, h⟩ := holds_of_reachable hn hmax hstart hhonest
    exact h.stores hin

end

/-! ### A resend of the wrong block -/

/-- The child once it has sent the first block. -/
def sentServer : Server where
  point := .windowOpenPoll
  window := {
    array := [some (.of 0 (encodePDU .little 0 dataPacketFlag [1]) (by decide))]
    upper := 1
    lower := 0
    current := 1
    windowSize := 1
    highest := 0
    length_array := rfl }
  dataFile := [[2]]
  bufferSize := 108
  client := 7

theorem step_smallServer : (system o smallServer).step smallServer
    (.run false 0, [⟨7, encodePDU .little 0 dataPacketFlag [1]⟩]) sentServer := by
  cases o <;> rfl

theorem answersSrej_sentServer : (∃ y, sentServer.step .little (receives srejFlag 0) = some y ∧
      (AnswersSrej .little sentServer 7 0 y ↔ pduHeaderLen + sentServer.bufferSize < 2147483648 ∧
        sentServer.InWindow 0 ∧ sentServer.Stores 0)) ∧
    (0 < 1 → (honestSystem .little smallServer).Reachable sentServer →
      sentServer.InWindow 0 → sentServer.Stores 0) :=
  answersSrej_iff (by decide) (by decide) start_smallServer
    (.step (.init rfl) step_smallServer) (.inl rfl) (by decide)

/-- A late SREJ 0 gets the second block under the number of the first. -/
theorem not_answersSrej : ∃ s, (system .little smallServer).Reachable s ∧ s.Polls ∧ ∃ s',
    s.step .little (receives srejFlag 0)
      = some (.ok (s', [⟨7, encodePDU .little 0 resentSrejDataPacketFlag [2]⟩])) ∧
    ¬ AnswersSrej .little s 7 0
      (.ok (s', [⟨7, encodePDU .little 0 resentSrejDataPacketFlag [2]⟩])) := by
  have hinit : (system .little smallServer).Reachable smallServer := .init rfl
  obtain ⟨s, hs, hp⟩ := hinit.exists_of_run (next .little) (fun _ _ _ => system_of_next .little)
    [.run false 0, .poll .timeout, .run false 0, receives rrFlag 1, .run false 0]
    (fun s => decide (s.point = .windowOpenPoll ∧ s.window.lower = 1 ∧ s.window.current = 2 ∧
      s.sends .little (receives srejFlag 0)
        = some [⟨7, encodePDU .little 0 resentSrejDataPacketFlag [2]⟩]))
    (by decide +kernel)
  obtain ⟨hpoint, hlower, hcurrent, hsends⟩ := of_decide_eq_true hp
  obtain ⟨s', hstep⟩ := exists_of_sends hsends
  refine ⟨s, hs, .inl hpoint, s', hstep, fun h => ?_⟩
  have hout : ¬ s.InWindow 0 := by
    rintro (⟨hlow, -⟩ | ⟨heq, -⟩)
    · omega
    · omega
  obtain ⟨s'', hsilent⟩ := h.2 hout
  cases hsilent

end Server

end RemoteCopy

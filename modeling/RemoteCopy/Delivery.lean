import RemoteCopy.DataPhase

/-!
# Delivery over UDP

What the joint invariant says about the two programs in every reachable state of the data phase:
the file is right as far as it is written, and complete once it is acknowledged
(`delivered_of_reachable`), and the two windows fit (`windowsFit_of_reachable`).
-/

namespace RemoteCopy

namespace Transfer

variable {P : Transfer}

/-- **The joint invariant holds throughout.** -/
theorem joint_of_reachable {net : Net} (h : P.udp.Reachable net) :
    ∃ L K m a, P.Joint net L K m a := by
  refine System.Reachable.invariant (P := fun net => ∃ L K m a, P.Joint net L K m a) ?_ ?_ h
  · intro net hinit
    exact ⟨0, 0, _, _, Joint.initial hinit⟩
  · rintro net e net' - ⟨L, K, m, a, hjoint⟩ hstep
    cases e with
    | server i =>
        obtain ⟨ds, hsteps, hrecv, hto, hfrom⟩ := hstep
        obtain ⟨L', K', m', hjoint', -⟩ := hjoint.serverStep hsteps hrecv hto hfrom
        exact ⟨L', K', m', a, hjoint'⟩
    | rcopy i =>
        obtain ⟨ds, hsteps, hrecv, hfrom, hto⟩ := hstep
        obtain ⟨a', hjoint', -⟩ := hjoint.rcopyStep hsteps hrecv hfrom hto
        exact ⟨L, K, m, a', hjoint'⟩
    | loseToRcopy k =>
        cases hstep
        exact ⟨L, K, m, a, hjoint⟩
    | loseToServer k =>
        cases hstep
        exact ⟨L, K, m, a, hjoint⟩

section
variable {net : Net} {L K : Nat} {m : Nat → Option Packet} {a : Receiver}

/-! ## The file -/

/-- The receiver has written the first `current` blocks. -/
theorem Joint.file_eq (h : P.Joint net L K m a) :
    net.rcopy.outputFile = P.blocks.take a.current := by
  have hle : a.current ≤ P.blocks.length := Nat.le_trans h.current_le h.server.le_length
  rw [h.rcopy.file]
  apply List.map_injective_iff.mpr (Option.some_injective Bytes)
  rw [h.assembles.file]
  apply List.ext_getElem
  · simp [hle]
  · intro k hk _
    have hk' : k < a.current := by simpa using hk
    simp only [List.getElem_map, List.getElem_range, List.getElem_take, block]
    exact List.getElem?_eq_getElem (by omega)

/-- An EOF ACK is only ever sent by a receiver that has ended. -/
theorem Joint.eofAck_sent (h : P.Joint net L K m a) {d : Datagram} (hd : d ∈ net.toServer)
    (hflag : byteAt d.bytes recvFlagLocation = eofAckFlag) : a.point = .done .eofAck := by
  obtain ⟨-, c, hencodes, hsound⟩ := h.toServer d hd
  cases c with
  | rr n =>
      obtain ⟨o, seq, hbytes⟩ := hencodes
      rw [hbytes, byteAt_encodePDU] at hflag
      exact absurd hflag (by decide)
  | srej n =>
      obtain ⟨o, seq, hbytes⟩ := hencodes
      rw [hbytes, byteAt_encodePDU] at hflag
      exact absurd hflag (by decide)
  | eofAck => exact hsound

theorem Joint.current_eq_length (h : P.Joint net L K m a) (hdone : a.point = .done .eofAck) :
    a.current = P.blocks.length := by
  have hle : a.current ≤ P.blocks.length := Nat.le_trans h.current_le h.server.le_length
  rcases h.assembles.done _ hdone with htimeout | ⟨-, hend⟩
  · cases htimeout
  · exact Nat.le_antisymm hle (block_eq_none_iff.mp hend)

end

/-- **Data-phase safety over UDP.** What the receiver has written is always the blocks before its
`current`; once it has sent an EOF ACK, and so when the child leaves `end_of_file` because of one,
it is the whole file. -/
theorem delivered_of_reachable {net : Net} (h : P.udp.Reachable net) :
    ∃ current : Nat, net.rcopy.window.current = current ∧ current ≤ P.blocks.length ∧
      net.rcopy.outputFile = P.blocks.take current ∧
      ((∃ d ∈ net.toServer, byteAt d.bytes recvFlagLocation = eofAckFlag) ∨
          net.rcopy.point = .done .eofAck ∨ net.server.point = .done .eofAck →
        current = P.blocks.length ∧ net.rcopy.outputFile = P.blocks) := by
  obtain ⟨L, K, m, a, hjoint⟩ := joint_of_reachable h
  refine ⟨a.current, hjoint.rcopy.current,
    Nat.le_trans hjoint.current_le hjoint.server.le_length, hjoint.file_eq, fun hack => ?_⟩
  have hdone : a.point = .done .eofAck := by
    rcases hack with ⟨d, hd, hflag⟩ | hrcopy | hserver
    · exact hjoint.eofAck_sent hd hflag
    · rw [← hjoint.rcopy.point]
      exact hrcopy
    · exact hjoint.done hserver
  have hend := hjoint.current_eq_length hdone
  refine ⟨hend, ?_⟩
  rw [hjoint.file_eq, hend, List.take_length]

/-! ### The EOF first -/

/-- The child sends the block and the EOF; the receiver gets the EOF first, and flushes it. -/
def eofFirst : List Event :=
  [.server (.run false 0), .server (.poll .timeout), .server (.run false 0),
    .server (.run false 0),
    .rcopy (.poll (.received 8 [] (encodePDU .little 1 eofFlag [0])) .complete 0),
    .rcopy (.poll (.received 8 [] (encodePDU .little 0 dataPacketFlag [1])) .complete 0),
    .rcopy (.flush .complete 0)]

/-- The child receives the EOF ACK that ends `eofFirst`. -/
def eofAckLast : List Event :=
  eofFirst ++ [.server (.poll (.received 7 [] (encodePDU .big 2 eofAckFlag [0])))]

theorem delivered_smallNet : ∃ net, smallTransfer.udp.Reachable net ∧
    net.server.point = .done .eofAck ∧ net.rcopy.outputFile = [[1]] := by
  have hinit : smallTransfer.udp.Reachable smallNet := .init initial_smallNet
  obtain ⟨net, hnet, hdone⟩ := hinit.exists_of_run smallTransfer.udpNext
    (fun _ _ _ => udp_of_udpNext smallTransfer) eofAckLast
    (fun net => decide (net.server.point = .done .eofAck)) (by decide +kernel)
  have hserver := of_decide_eq_true hdone
  obtain ⟨current, -, -, -, hcomplete⟩ := delivered_of_reachable hnet
  exact ⟨net, hnet, hserver, (hcomplete (.inr (.inr hserver))).2⟩

/-! ## The windows -/

/-- The EOF was sent. -/
def EofSent (net : Net) : Prop :=
  ∃ d ∈ net.toRcopy, byteAt d.bytes recvFlagLocation = eofFlag

/-- The edges of the two windows, what the child stores, and what the replies in flight say. -/
structure WindowsFit (P : Transfer) (net : Net) : Prop where
  lower_le : net.server.window.lower ≤ net.rcopy.window.current
  current_le : net.rcopy.window.current ≤ net.server.window.current
  le_upper : net.server.window.current ≤ net.server.window.upper
  upper_eq : net.server.window.upper = net.server.window.lower + P.windowSize
  rcopyLower : net.rcopy.window.lower = net.rcopy.window.current
  rcopyUpper : net.rcopy.window.upper = net.rcopy.window.current + P.windowSize
  sent : ∀ s : Nat, net.server.window.lower ≤ s → s < net.server.window.current →
    ∃ packet block, net.server.window.slot (s % P.windowSize) = some packet ∧
      P.block s = some block ∧ packet.Carries P.serverOrder s dataPacketFlag block
  eof : EofSent net → ∃ (s : Nat) (packet : Packet) (junk : Byte),
    net.server.window.current = s ∧ net.server.window.slot (s % P.windowSize) = some packet ∧
      packet.Carries P.serverOrder s eofFlag [junk]
  empty : ∀ i packet, net.server.window.slot i = some packet →
    ∃ s : Nat, s % P.windowSize = i ∧ net.server.window.lower ≤ s ∧
      (s < net.server.window.current ∨ (s = net.server.window.current ∧ EofSent net))
  rr : ∀ d ∈ net.toServer, ∀ stale n, receiveControl P.serverOrder stale d.bytes = .rr n →
    n ≤ net.rcopy.window.current
  srej : ∀ d ∈ net.toServer, ∀ stale n, receiveControl P.serverOrder stale d.bytes = .srej n →
    n < net.server.window.current

/-- Everything in the receiver's window carries a number of the window, in the slot of that number;
the number is `current` only where `atCurrent` allows it. -/
def RcopyStores (P : Transfer) (net : Net) (atCurrent : Packet → Prop) : Prop :=
  ∀ i packet, net.rcopy.window.slot i = some packet → ∃ s : Nat, packet.sequenceNumber = s ∧
    net.rcopy.window.current ≤ s ∧ s < net.rcopy.window.upper ∧ s % P.windowSize = i ∧
    (s = net.rcopy.window.current → atCurrent packet)

section
variable {net : Net} {L K : Nat} {m : Nat → Option Packet} {a : Receiver}

theorem Joint.windowsFit (h : P.Joint net L K m a) : P.WindowsFit net := by
  have hlower := h.server.shows.lower
  have hupper := h.server.shows.upper
  have hcurrent := h.server.current
  have hrcopy := h.rcopy.current
  have hle := h.lower_le
  have hcur := h.current_le
  have hup := h.server.le_upper
  have hrlower := h.rcopy.shows.lower
  have hrupper := h.rcopy.shows.upper
  refine ⟨by omega, by omega, by omega, by omega, by omega, by omega, ?_, ?_, ?_, ?_, ?_⟩
  · intro s hs hs'
    obtain ⟨packet, block, hblock, hpacket, hcarries⟩ := h.server.data s (by omega) (by omega)
    refine ⟨packet, block, ?_, hblock, hcarries⟩
    rw [h.server.shows.slot_eq (by omega) (by omega), hpacket]
  · intro hsent
    obtain ⟨packet, hpacket⟩ := Option.ne_none_iff_exists'.mp (h.eofSent.mpr hsent)
    obtain ⟨-, junk, hcarries⟩ := h.server.eof packet hpacket
    have hmem := h.server.shows.mem_window hpacket
    refine ⟨K, packet, junk, hcurrent, ?_, hcarries⟩
    rw [h.server.shows.slot_eq hmem.1 hmem.2, hpacket]
  · intro i packet hslot
    obtain ⟨s, hs, -, hmod, hpacket⟩ := h.server.shows.slot_some hslot
    refine ⟨s, hmod, by omega, ?_⟩
    rcases Nat.lt_or_eq_of_le (h.server.mem hpacket).2 with hlt | rfl
    · exact .inl (by omega)
    · refine .inr ⟨hcurrent.symm, h.eofSent.mp ?_⟩
      rw [hpacket]
      exact Option.some_ne_none packet
  · intro d hd stale n hcontrol
    obtain ⟨-, c, hencodes, hsound⟩ := h.toServer d hd
    obtain ⟨k, rfl, rfl⟩ :=
      Reply.eq_rr_of_control ((h.control_eq hencodes hsound stale).symm.trans hcontrol)
    have hk : k ≤ a.current := hsound
    omega
  · intro d hd stale n hcontrol
    obtain ⟨-, c, hencodes, hsound⟩ := h.toServer d hd
    obtain ⟨k, rfl, rfl⟩ :=
      Reply.eq_srej_of_control ((h.control_eq hencodes hsound stale).symm.trans hcontrol)
    have hk : k < K := hsound
    omega

theorem Joint.rcopyStores (h : P.Joint net L K m a) : P.RcopyStores net fun packet =>
    net.rcopy.point = .flush ∨ (net.rcopy.point = .done .eofAck ∧ packet.flag = eofFlag) := by
  intro i packet hslot
  have hcurrent := h.rcopy.current
  have hupper := h.rcopy.shows.upper
  obtain ⟨s, hs, hs', hmod, hpacket⟩ := h.rcopy.shows.slot_some hslot
  obtain ⟨hnumber, -⟩ := h.rcopy.packet s packet hpacket
  refine ⟨s, hnumber, by omega, by omega, hmod, fun heq => ?_⟩
  obtain rfl : s = a.current := by omega
  rw [h.rcopy.point]
  exact h.assembles.current packet hpacket

end

/-- **The two windows fit** in every reachable state, and the receiver holds nothing at `current`
but in `flush`, or once it has ended there on the EOF. -/
theorem windowsFit_of_reachable {net : Net} (h : P.udp.Reachable net) : P.WindowsFit net ∧
    P.RcopyStores net fun packet =>
      net.rcopy.point = .flush ∨ (net.rcopy.point = .done .eofAck ∧ packet.flag = eofFlag) := by
  obtain ⟨L, K, m, a, hjoint⟩ := joint_of_reachable h
  exact ⟨hjoint.windowsFit, hjoint.rcopyStores⟩

theorem windowsFit_smallNet : ∃ net, smallTransfer.udp.Reachable net ∧
    net.rcopy.point = .flush ∧ smallTransfer.WindowsFit net := by
  have hinit : smallTransfer.udp.Reachable smallNet := .init initial_smallNet
  obtain ⟨net, hnet, hflush⟩ := hinit.exists_of_run smallTransfer.udpNext
    (fun _ _ _ => udp_of_udpNext smallTransfer) (eofFirst.take 6)
    (fun net => decide (net.rcopy.point = .flush)) (by decide +kernel)
  exact ⟨net, hnet, of_decide_eq_true hflush, (windowsFit_of_reachable hnet).1⟩

/-- When a flush ends on the EOF, the EOF stays in its slot. -/
theorem not_rcopyStores_flush : ∃ net, smallTransfer.udp.Reachable net ∧
    ¬ smallTransfer.RcopyStores net fun _ => net.rcopy.point = .flush := by
  have hinit : smallTransfer.udp.Reachable smallNet := .init initial_smallNet
  obtain ⟨net, hnet, hstate⟩ := hinit.exists_of_run smallTransfer.udpNext
    (fun _ _ _ => udp_of_udpNext smallTransfer) eofFirst
    (fun net => decide (net.rcopy.point = .done .eofAck ∧ net.rcopy.window.current = 1 ∧
      (net.rcopy.window.slot 1).any fun packet => packet.sequenceNumber = 1)) (by decide +kernel)
  obtain ⟨hpoint, hcurrent, hslot⟩ := of_decide_eq_true hstate
  refine ⟨net, hnet, fun hstores => ?_⟩
  obtain ⟨packet, hpacket, hnumber⟩ := (Option.any_eq_true _ _).mp hslot
  obtain ⟨s, hs, -, -, -, hflush⟩ := hstores 1 packet hpacket
  rw [of_decide_eq_true hnumber] at hs
  cases hpoint.symm.trans (hflush (by rw [hcurrent]; exact hs.symm))

end Transfer

end RemoteCopy

import RemoteCopy.Transfer
import RemoteCopy.ServerInvariant
import RemoteCopy.Reassembly

/-!
# The joint invariant of the data phase

Over UDP, whatever is lost, repeated, delayed or reordered: the receiver is assembling the file,
its `current` lies between the `lower` and the `current` of the child, and every datagram that was
ever sent is either out of date or right (`Transfer.Joint`). Neither program checks this. That no
slot of either ring is ever used for two sequence numbers rests on it alone.
-/

namespace RemoteCopy

namespace Transfer

variable {P : Transfer}

/-- The file by sequence number. -/
def block (P : Transfer) (k : Nat) : Option Bytes := P.blocks[k]?

/-- A datagram to the receiver: below `L` it may be anything, below `K` it is the block of the
file, and at `K` it is the EOF. -/
def InFlight (P : Transfer) (L K : Nat) (b : Bytes) : Prop :=
  ∃ s flag payload, b = encodePDU P.serverOrder s flag payload ∧ payload.length ≤ P.bufferSize ∧
    (s.toNat < L ∨
      (s.toNat < K ∧ IsDataFlag flag ∧ P.block s.toNat = some payload) ∨
      (s.toNat = K ∧ K = P.blocks.length ∧ flag = eofFlag))

/-- A datagram to the receiver that is right, whenever it arrives: a block of the file under its
own number, or the EOF under the number behind the last block. -/
def Right (P : Transfer) (b : Bytes) : Prop :=
  ∃ s flag payload, b = encodePDU P.serverOrder s flag payload ∧
    ((IsDataFlag flag ∧ P.block s.toNat = some payload) ∨
      (flag = eofFlag ∧ s.toNat = P.blocks.length))

/-- A reply: no RR beyond the receiver's `current`, no SREJ from the child's on, and an EOF ACK
only at the end. -/
def Sound (a : Receiver) (K : Nat) : Reply → Prop
  | .rr n => n ≤ a.current
  | .srej n => n < K
  | .eofAck => a.point = .done .eofAck

/-- The invariant. The child's window is `[L, L + n)` with `K` blocks sent and shows `m`, and the
receiver is `a`. -/
structure Joint (P : Transfer) (net : Net) (L K : Nat) (m : Nat → Option Packet)
    (a : Receiver) : Prop where
  server : net.server.Holds P.serverOrder P.windowSize P.blocks L K m
  rcopy : net.rcopy.Refines P.windowSize a
  assembles : a.Assembles P.block
  lower_le : L ≤ a.current
  current_le : a.current ≤ K
  stored_le : ∀ k packet, a.stored k = some packet → k ≤ K ∧ (k = K → P.block k = none)
  toRcopy : ∀ d ∈ net.toRcopy, d.dest = P.rcopyAddr ∧ P.InFlight L K d.bytes
  eofSent : m K ≠ none ↔ ∃ d ∈ net.toRcopy, byteAt d.bytes recvFlagLocation = eofFlag
  eofReceived : a.stored K ≠ none ∨ a.point = .done .eofAck → m K ≠ none
  toServer : ∀ d ∈ net.toServer, d.dest = P.serverAddr ∧
    ∃ c : Reply, c.Encodes d.bytes ∧ Sound a K c
  done : net.server.point = .done .eofAck → a.point = .done .eofAck
  client : net.server.client = P.rcopyAddr
  serverAddress : net.rcopy.serverAddress = P.serverAddr
  serverSize : net.server.bufferSize = (P.bufferSize : Nat)
  rcopySize : net.rcopy.bufferSize = P.bufferSize

section
variable {net net' : Net} {L K : Nat} {m : Nat → Option Packet} {a : Receiver}

theorem block_eq_none_iff {k : Nat} : P.block k = none ↔ P.blocks.length ≤ k :=
  List.getElem?_eq_none_iff

theorem length_lt (P : Transfer) : P.blocks.length < 2147483648 := by
  have := P.range
  omega

theorem windowSize_lt (P : Transfer) : P.windowSize < 2147483648 := by
  have := P.range
  omega

theorem Joint.initial (h : P.Initial net) : P.Joint net 0 0 (fun _ => none) .fresh where
  server := Server.Holds.start P.windowSize_pos P.windowSize_lt h.server
  rcopy := Rcopy.Refines.start P.windowSize_pos P.windowSize_lt h.rcopy
  assembles := .fresh
  lower_le := Nat.le_refl 0
  current_le := Nat.le_refl 0
  stored_le := fun _ _ hk => (by cases hk)
  toRcopy := fun d hd => by
    rw [h.toRcopy] at hd
    cases hd
  eofSent := by
    rw [h.toRcopy]
    exact ⟨fun hne => absurd rfl hne, fun ⟨_, hd, _⟩ => (by cases hd)⟩
  eofReceived := fun h => h.elim (absurd rfl) fun h => (by cases h)
  toServer := fun d hd => by
    rw [h.toServer] at hd
    cases hd
  done := fun hdone => by
    rw [(Server.of_start h.server).2.1] at hdone
    cases hdone
  client := (Server.of_start h.server).2.2.2.2
  serverAddress := (Rcopy.of_start h.rcopy).2.2.2.2.2
  serverSize := (Server.of_start h.server).2.2.2.1
  rcopySize := (Rcopy.of_start h.rcopy).2.2.1

/-! ## Datagrams -/

theorem InFlight.mono {L' K' : Nat} {b : Bytes} (h : P.InFlight L K b) (hL : L ≤ L') (hK : K ≤ K')
    (heof : K = K' ∨ byteAt b recvFlagLocation ≠ eofFlag) : P.InFlight L' K' b := by
  obtain ⟨s, flag, payload, rfl, hlen, hcase⟩ := h
  refine ⟨s, flag, payload, rfl, hlen, ?_⟩
  rcases hcase with hs | ⟨hs, hflag, hblock⟩ | ⟨hs, hend, hflag⟩
  · exact .inl (by omega)
  · exact .inr (.inl ⟨by omega, hflag, hblock⟩)
  · rw [byteAt_encodePDU] at heof
    rcases heof with rfl | hne
    · exact .inr (.inr ⟨hs, hend, hflag⟩)
    · exact absurd hflag hne

/-- Replies stay sound while the receiver moves on. -/
theorem Sound.mono {a' : Receiver} {c : Reply} (h : Sound a K c) (hmono : a.current ≤ a'.current)
    (hrunning : ∀ why, a.point ≠ .done why) : Sound a' K c := by
  cases c with
  | rr k => exact Nat.le_trans h hmono
  | srej k => exact h
  | eofAck => exact absurd h (hrunning _)

theorem Sound.mono_current {K' : Nat} {c : Reply} (h : Sound a K c) (hK : K ≤ K') :
    Sound a K' c := by
  cases c with
  | rr k => exact h
  | srej k => exact Nat.lt_of_lt_of_le h hK
  | eofAck => exact h

/-- What the receiver answers is sound. -/
theorem sound_of_answers {a' : Receiver} {c : Reply} (h : a.Answers a' K c) : Sound a' K c := by
  cases c with
  | rr k => exact Nat.le_of_eq h
  | srej k => exact h.2
  | eofAck => exact h

theorem Sound.fits {c : Reply} (h : Sound a K c) (ha : a.current ≤ K)
    (hK : K ≤ P.blocks.length) : c.Fits := by
  have hlen := P.length_lt
  cases c with
  | rr n =>
      have hn : n ≤ a.current := h
      show n < 2147483648
      omega
  | srej n =>
      have hn : n < K := h
      show n < 2147483648
      omega
  | eofAck => exact trivial

/-- What the child reads in a sound reply. -/
theorem Joint.control_eq (h : P.Joint net L K m a) {d : Datagram} {c : Reply}
    (hencodes : c.Encodes d.bytes) (hsound : Sound a K c) (stale : Bytes) :
    receiveControl P.serverOrder stale d.bytes = c.control :=
  c.receiveControl_eq hencodes (hsound.fits h.current_le h.server.le_length) _ _

/-- What the child makes of a sound reply it receives: itself, or nothing. -/
theorem Joint.control_of_receives (h : P.Joint net L K m a) {d : Datagram} {c : Reply}
    (hencodes : c.Encodes d.bytes) (hsound : Sound a K c) {src : Addr} {stale datagram : Bytes}
    (hrecv : P.ServerReceives d (.poll (.received src stale datagram))) :
    receiveControl P.serverOrder stale datagram = .rejected ∨
      receiveControl P.serverOrder stale datagram = c.control := by
  obtain ⟨-, ⟨-, rfl⟩ | hreject⟩ := hrecv
  · exact .inr (h.control_eq hencodes hsound stale)
  · rw [Rejected] at hreject
    left
    simp only [receiveControl, hreject]

/-- Over UDP it can be any reply ever sent, and it is one of them unless it is rejected. -/
theorem Joint.exists_reply (h : P.Joint net L K m a) {i : ServerInput}
    (hrecv : i.Silent ∨ ∃ d ∈ net.toServer, P.ServerReceives d i) {src : Addr}
    {stale datagram : Bytes} (hi : i = .poll (.received src stale datagram))
    (hne : receiveControl P.serverOrder stale datagram ≠ .rejected) :
    ∃ c : Reply, c.control = receiveControl P.serverOrder stale datagram ∧ Sound a K c := by
  subst hi
  rcases hrecv with hsilent | ⟨d, hd, hrecv⟩
  · exact hsilent.elim
  · obtain ⟨-, c, hencodes, hsound⟩ := h.toServer d hd
    have hc := (h.control_of_receives hencodes hsound hrecv).resolve_left hne
    exact ⟨c, hc.symm, hsound⟩

/-- A datagram that is out of date may be anything that fits the buffer. -/
theorem inFlight_old {x : Nat} (hx : x < L) (hlt : x < 2147483648) (flag : Byte) {payload : Bytes}
    (hlen : payload.length ≤ P.bufferSize) :
    P.InFlight L K (encodePDU P.serverOrder (toUInt32 x) flag payload) := by
  refine ⟨_, _, _, rfl, hlen, .inl ?_⟩
  rw [toNat_toUInt32_natCast (by omega)]
  exact hx

/-- A block of the file, under its own number. -/
theorem inFlight_block {k : Nat} {flag : Byte} {payload : Bytes}
    (hblock : P.block k = some payload) (hk : k < K) (hflag : IsDataFlag flag) :
    P.InFlight L K (encodePDU P.serverOrder (toUInt32 k) flag payload) := by
  have hlt := P.length_lt
  have hlen : k < P.blocks.length := (List.getElem?_eq_some_iff.mp hblock).1
  have hnat : (toUInt32 (k : Int)).toNat = k := toNat_toUInt32_natCast (by omega)
  refine ⟨_, _, _, rfl, (P.blocks_fit payload (List.mem_of_getElem? hblock)).2, .inr (.inl ?_)⟩
  rw [hnat]
  exact ⟨hk, hflag, hblock⟩

theorem right_block {k : Nat} {flag : Byte} {payload : Bytes}
    (hblock : P.block k = some payload) (hflag : IsDataFlag flag) :
    P.Right (encodePDU P.serverOrder (toUInt32 k) flag payload) := by
  have hlt := P.length_lt
  have hlen : k < P.blocks.length := (List.getElem?_eq_some_iff.mp hblock).1
  refine ⟨_, _, _, rfl, .inl ⟨hflag, ?_⟩⟩
  rw [toNat_toUInt32_natCast (by omega)]
  exact hblock

/-- The EOF, under the number behind the last block. -/
theorem inFlight_eof (hend : K = P.blocks.length) (junk : Byte) :
    P.InFlight L K (encodePDU P.serverOrder (toUInt32 K) eofFlag [junk]) := by
  have hlt := P.length_lt
  have hfit : [junk].length ≤ (P.bufferSize : Nat) := by
    have := P.bufferSize.2.1
    rw [List.length_singleton]
    omega
  exact ⟨_, _, _, rfl, hfit, .inr (.inr ⟨toNat_toUInt32_natCast (by omega), hend, rfl⟩)⟩

theorem right_eof (hend : K = P.blocks.length) (junk : Byte) :
    P.Right (encodePDU P.serverOrder (toUInt32 K) eofFlag [junk]) := by
  have hlt := P.length_lt
  exact ⟨_, _, _, rfl, .inr ⟨rfl, (toNat_toUInt32_natCast (by omega)).trans hend⟩⟩

/-! ## Steps of the child -/

/-- The child has moved on, and sent datagrams that are right. -/
theorem Joint.serverMoves (h : P.Joint net L K m a) {L' K' : Nat} {m' : Nat → Option Packet}
    {ds : List Datagram} (hrcopy : net'.rcopy = net.rcopy)
    (hto : net'.toRcopy = net.toRcopy ++ ds) (hfrom : net'.toServer = net.toServer)
    (hserver : net'.server.Holds P.serverOrder P.windowSize P.blocks L' K' m')
    (hL : L ≤ L') (hlow : L' ≤ a.current) (hK : K ≤ K') (heof : K = K' ∨ m K = none)
    (hm : m' K' ≠ none ↔
      m K ≠ none ∨ ∃ d ∈ ds, byteAt d.bytes recvFlagLocation = eofFlag)
    (hds : ∀ d ∈ ds, d.dest = P.rcopyAddr ∧ P.InFlight L' K' d.bytes)
    (hdone : net'.server.point = .done .eofAck → a.point = .done .eofAck)
    (hclient : net'.server.client = P.rcopyAddr)
    (hsize : net'.server.bufferSize = net.server.bufferSize) : P.Joint net' L' K' m' a where
  server := hserver
  rcopy := hrcopy ▸ h.rcopy
  assembles := h.assembles
  lower_le := hlow
  current_le := Nat.le_trans h.current_le hK
  stored_le := fun k packet hk => by
    obtain ⟨hle, hlast⟩ := h.stored_le k packet hk
    exact ⟨Nat.le_trans hle hK, fun hend => hlast (by omega)⟩
  toRcopy := fun d hd => by
    rw [hto, List.mem_append] at hd
    rcases hd with hd | hd
    · obtain ⟨hdest, hflight⟩ := h.toRcopy d hd
      refine ⟨hdest, hflight.mono hL hK (heof.imp_right fun hnone hflag => ?_)⟩
      exact h.eofSent.mpr ⟨d, hd, hflag⟩ hnone
    · exact hds d hd
  eofSent := by
    rw [hm, h.eofSent, hto]
    simp only [List.mem_append, or_and_right, exists_or]
  eofReceived := fun hcase => hm.mpr <| .inl <| h.eofReceived <| hcase.imp_left fun hne => by
    obtain ⟨packet, hpacket⟩ := Option.ne_none_iff_exists'.mp hne
    obtain rfl : K' = K := Nat.le_antisymm (h.stored_le K' packet hpacket).1 hK
    exact hne
  toServer := fun d hd => by
    obtain ⟨hdest, c, hencodes, hsound⟩ := h.toServer d (hfrom ▸ hd)
    exact ⟨hdest, c, hencodes, hsound.mono_current hK⟩
  done := hdone
  client := hclient
  serverAddress := hrcopy ▸ h.serverAddress
  serverSize := hsize.trans h.serverSize
  rcopySize := hrcopy ▸ h.rcopySize

/-- What the child resends, for a number that is not beyond its window. -/
theorem Joint.resent (h : P.Joint net L K m a) {x : Nat} (hx : x < L + P.windowSize) {flag : Byte}
    (hflag : IsDataFlag flag) {buf : Bytes}
    (hresend : resendDataPacket P.serverOrder net.server.window (toUInt32 x) flag
      net.server.bufferSize = .ok buf) :
    P.InFlight L K buf ∧ (byteAt buf recvFlagLocation = eofFlag → m K ≠ none) ∧
      (L ≤ x → P.Right buf) := by
  have hrange := h.server.shows.range
  obtain ⟨k, packet, hk, hkx, rfl⟩ := h.server.resent hx hresend
  rcases h.server.carries hk with ⟨hlt, block, hblock, hcarries⟩ | ⟨rfl, hend, junk, hcarries⟩
  · rw [hcarries.payload_eq, hcarries.resentFlag_data]
    refine ⟨?_, fun heof => ?_, fun hlow => ?_⟩
    · -- Below `lower` the slot may have been used again, and the number sent is not its own.
      rcases Nat.lt_or_ge x L with hlow | hlow
      · exact inFlight_old hlow (by omega) _ (P.blocks_fit block (List.mem_of_getElem? hblock)).2
      · cases hkx hlow
        exact inFlight_block hblock hlt hflag
    · rw [byteAt_encodePDU] at heof
      subst heof
      exact absurd hflag (by decide)
    · cases hkx hlow
      exact right_block hblock hflag
  · rw [hcarries.payload_eq, hcarries.resentFlag_eof]
    refine ⟨?_, fun _ hnone => ?_, fun hlow => ?_⟩
    · rcases Nat.lt_or_ge x L with hlow | hlow
      · have hsize := P.bufferSize.2.1
        exact inFlight_old hlow (by omega) _ (by rw [List.length_singleton]; omega)
      · cases hkx hlow
        exact inFlight_eof hend junk
    · rw [hk] at hnone
      cases hnone
    · cases hkx hlow
      exact right_eof hend junk

/-- The number the child is asked for is that of a block it has sent, or `lower`. -/
theorem Joint.number_lt (h : P.Joint net L K m a) {i : ServerInput} {number : Int} {flag : Byte}
    (hcause : Server.ResendCause P.serverOrder net.server i number flag)
    (hrecv : i.Silent ∨ ∃ d ∈ net.toServer, P.ServerReceives d i) :
    IsDataFlag flag ∧ ∃ x : Nat, number = x ∧ x < L + P.windowSize := by
  have hpos := P.windowSize_pos
  cases hcause with
  | timeout hpoint => exact ⟨.inr (.inr rfl), L, h.server.shows.lower, by omega⟩
  | srej hcontrol =>
      obtain ⟨c, hc, hsound⟩ := h.exists_reply hrecv rfl (by simp [hcontrol])
      obtain ⟨k, rfl, rfl⟩ := Reply.eq_srej_of_control (hc.trans hcontrol)
      have hlt : k < K := hsound
      have hup := h.server.le_upper
      exact ⟨.inr (.inl rfl), k, rfl, by omega⟩

/-- How a step moves the child's window, and what it sends. -/
structure ServerProceeds (P : Transfer) (s : Server) (i : ServerInput) (L K L' K' : Nat)
    (ds : List Datagram) : Prop where
  lower_le : L ≤ L'
  current_le : K ≤ K'
  lower : L' = L ∨ ∃ src stale datagram, ∃ k : Nat, i = .poll (.received src stale datagram) ∧
    receiveControl P.serverOrder stale datagram = .rr k ∧ L' = max L k
  right : (∀ number flag, Server.ResendCause P.serverOrder s i number flag → (L : Int) ≤ number) →
    ∀ d ∈ ds, P.Right d.bytes

/-- The child hears from nobody but rcopy, so it goes on sending to it. -/
theorem Joint.client_eq (h : P.Joint net L K m a) {i : ServerInput}
    (hrecv : i.Silent ∨ ∃ d ∈ net.toServer, P.ServerReceives d i) :
    i.client net.server.client = P.rcopyAddr := by
  rcases hrecv with hsilent | ⟨d, -, hrecv⟩
  · unfold ServerInput.client
    split
    · exact hsilent.elim
    · exact h.client
  · unfold ServerReceives at hrecv
    split at hrecv
    · exact hrecv.1
    · exact hrecv.elim

/-- **Every step of the child keeps the invariant.** -/
theorem Joint.serverStep (h : P.Joint net L K m a) {i : ServerInput} {ds : List Datagram}
    (hstep : P.ServerSteps net i net' ds)
    (hrecv : i.Silent ∨ ∃ d ∈ net.toServer, P.ServerReceives d i)
    (hto : net'.toRcopy = net.toRcopy ++ ds) (hfrom : net'.toServer = net.toServer) :
    ∃ L' K' m', P.Joint net' L' K' m' a ∧ P.ServerProceeds net.server i L K L' K' ds := by
  obtain ⟨hstep, hrcopy⟩ := hstep
  obtain ⟨heffect, hpoised, hsize, hclient⟩ := Server.stepped hstep
  have hclient' : net'.server.client = P.rcopyAddr := hclient.trans (h.client_eq hrecv)
  have hle := h.lower_le
  generalize hs : net'.server = s' at heffect
  cases heffect with
  | idle hwindow hcontinues hack =>
      refine ⟨L, K, m, h.serverMoves hrcopy hto hfrom ?_ (Nat.le_refl L) hle (Nat.le_refl K)
        (.inl rfl) (by simp) (fun _ hd => (by cases hd)) (fun hdone => ?_) hclient' hsize,
        Nat.le_refl L, Nat.le_refl K, .inl rfl, fun _ _ hd => (by cases hd)⟩
      · rw [hs] at hpoised ⊢
        exact h.server.continues hwindow hcontinues hpoised
      · -- Only an EOF ACK ends the child like this, and only a receiver that has ended sends one.
        obtain ⟨src, stale, datagram, hi, hcontrol⟩ := hack (hs ▸ hdone)
        obtain ⟨c, hc, hsound⟩ := h.exists_reply hrecv hi (by simp [hcontrol])
        obtain rfl := Reply.eq_eofAck_of_control (hc.trans hcontrol)
        exact hsound
  | @sent readFails junk payload buf rest w hpoint hopen hfile hsend =>
      obtain ⟨hblock, hlt, rfl, packet, hcarries, hserver⟩ := h.server.sent hpoint hopen hfile hsend
      have hnone : m K = none := h.server.beforeEof (by rw [hpoint]; rfl)
      refine ⟨L, K + 1, _, h.serverMoves hrcopy hto hfrom (hs ▸ hserver) (Nat.le_refl L) hle
        (Nat.le_succ K) (.inr hnone) ?_ (fun d hd => ?_) (fun hdone => ?_) hclient' hsize,
        Nat.le_refl L, Nat.le_succ K, .inl rfl, fun _ d hd => ?_⟩
      · rw [Function.update_of_ne (by omega), h.server.above (K + 1) (Nat.lt_succ_self K), hnone]
        simp only [List.mem_singleton, exists_eq_left, byteAt_encodePDU]
        decide
      · cases List.mem_singleton.mp hd
        exact ⟨h.client, inFlight_block hblock (Nat.lt_succ_self K) (.inl rfl)⟩
      · rw [hs] at hdone
        cases hdone
      · cases List.mem_singleton.mp hd
        exact right_block hblock (.inl rfl)
  | @sentEof readFails junk buf w hpoint hsend =>
      obtain ⟨hend, hlt, rfl, packet, hcarries, hserver⟩ := h.server.sentEof hpoint hsend
      have hnone : m K = none := h.server.beforeEof (by rw [hpoint]; rfl)
      refine ⟨L, K, _, h.serverMoves hrcopy hto hfrom (hs ▸ hserver) (Nat.le_refl L) hle
        (Nat.le_refl K) (.inl rfl) ?_ (fun d hd => ?_) (fun hdone => ?_) hclient' hsize,
        Nat.le_refl L, Nat.le_refl K, .inl rfl, fun _ d hd => ?_⟩
      · rw [Function.update_self]
        simp only [List.mem_singleton, exists_eq_left, byteAt_encodePDU, or_true, iff_true]
        exact Option.some_ne_none packet
      · cases List.mem_singleton.mp hd
        exact ⟨h.client, inFlight_eof hend junk⟩
      · rw [hs] at hdone
        cases hdone
      · cases List.mem_singleton.mp hd
        exact right_eof hend junk
  | @released src stale datagram rr _ hcontrol hclean hcontinues hdone =>
      -- The RR is one the receiver has sent, so `lower` does not pass its `current`.
      obtain ⟨c, hc, hsound⟩ := h.exists_reply hrecv rfl (by simp [hcontrol])
      obtain ⟨k, rfl, rfl⟩ := Reply.eq_rr_of_control (hc.trans hcontrol)
      have hk : k ≤ a.current := hsound
      have hcurrent := h.current_le
      have hserver := h.server.released hclean (by simp only [Int.toNat_natCast]; omega)
        hcontinues (hs ▸ hpoised)
      rw [Int.toNat_natCast] at hserver
      refine ⟨max L k, K, release m k, h.serverMoves hrcopy hto hfrom (hs ▸ hserver)
        (Nat.le_max_left L k) (Nat.max_le.mpr ⟨hle, hk⟩) (Nat.le_refl K) (.inl rfl) ?_
        (fun _ hd => (by cases hd)) (fun hdone' => ?_) hclient' hsize,
        Nat.le_max_left L k, Nat.le_refl K, .inr ⟨src, stale, datagram, k, rfl, hcontrol, rfl⟩,
        fun _ _ hd => (by cases hd)⟩
      · rw [release, if_pos (by omega)]
        simp
      · exact absurd (hs ▸ hdone') (hdone _)
  | @resent _ number flag buf _ hcause hresend hwindow hcontinues hack =>
      obtain ⟨hflag, x, rfl, hx⟩ := h.number_lt hcause hrecv
      obtain ⟨hflight, heof, hright⟩ := h.resent hx hflag hresend
      refine ⟨L, K, m, h.serverMoves hrcopy hto hfrom ?_ (Nat.le_refl L) hle (Nat.le_refl K)
        (.inl rfl) ?_ (fun d hd => ?_) (fun hdone => absurd (hs ▸ hdone) hack) hclient' hsize,
        Nat.le_refl L, Nat.le_refl K, .inl rfl, fun hnumber d hd => ?_⟩
      · rw [hs] at hpoised ⊢
        exact h.server.continues hwindow hcontinues hpoised
      · simp only [List.mem_singleton, exists_eq_left]
        exact ⟨.inl, fun hcase => hcase.elim id heof⟩
      · cases List.mem_singleton.mp hd
        exact ⟨hs ▸ hclient', hflight⟩
      · cases List.mem_singleton.mp hd
        exact hright (Int.ofNat_le.mp (hnumber _ _ hcause))

/-! ## Steps of the receiver -/

/-- What a step of the abstract receiver, to `a'` with the replies `cs`, keeps of the invariant. -/
structure RcopyKeeps (P : Transfer) (K : Nat) (m : Nat → Option Packet) (a a' : Receiver)
    (cs : List Reply) : Prop where
  assembles : a'.Assembles P.block
  mono : a.current ≤ a'.current
  current_le : a'.current ≤ K
  stored_le : ∀ k packet, a'.stored k = some packet → k ≤ K ∧ (k = K → P.block k = none)
  eofReceived : a'.stored K ≠ none ∨ a'.point = .done .eofAck → m K ≠ none
  answers : ∀ c ∈ cs, a.Answers a' K c
  before : cs.Pairwise Reply.Before

/-- How a step moves the receiver on, and what it answers. -/
structure RcopyProceeds (P : Transfer) (K : Nat) (a a' : Receiver) (ds : List Datagram) :
    Prop where
  running : ∀ why, a.point ≠ .done why
  mono : a.current ≤ a'.current
  sends : ∃ cs, Sends P.serverAddr cs ds ∧ (∀ c ∈ cs, a.Answers a' K c) ∧ cs.Pairwise Reply.Before

/-- The receiver has moved on, and sent the replies `cs`. -/
theorem Joint.rcopyMoves (h : P.Joint net L K m a) {a' : Receiver} {cs : List Reply}
    (hkeeps : P.RcopyKeeps K m a a' cs) {ds : List Datagram}
    (hserver : net'.server = net.server) (hto : net'.toRcopy = net.toRcopy)
    (hfrom : net'.toServer = net.toServer ++ ds)
    (hrefines : net'.rcopy.Refines P.windowSize a') (hsends : Sends P.serverAddr cs ds)
    (hrunning : ∀ why, a.point ≠ .done why)
    (haddr : net'.rcopy.serverAddress = P.serverAddr)
    (hsize : net'.rcopy.bufferSize = P.bufferSize) :
    P.Joint net' L K m a' ∧ P.RcopyProceeds K a a' ds where
  left := {
    server := hserver ▸ h.server
    rcopy := hrefines
    assembles := hkeeps.assembles
    lower_le := Nat.le_trans h.lower_le hkeeps.mono
    current_le := hkeeps.current_le
    stored_le := hkeeps.stored_le
    toRcopy := hto ▸ h.toRcopy
    eofSent := hto ▸ h.eofSent
    eofReceived := hkeeps.eofReceived
    toServer := fun d hd => by
      rw [hfrom, List.mem_append] at hd
      rcases hd with hd | hd
      · obtain ⟨hdest, c, hencodes, hsound⟩ := h.toServer d hd
        exact ⟨hdest, c, hencodes, hsound.mono hkeeps.mono hrunning⟩
      · obtain ⟨hdest, c, hc, hencodes⟩ := hsends.mem hd
        exact ⟨hdest, c, hencodes, sound_of_answers (hkeeps.answers c hc)⟩
    done := fun hdone => absurd (h.done (hserver ▸ hdone)) (hrunning _)
    client := hserver ▸ h.client
    serverAddress := haddr
    serverSize := hserver ▸ h.serverSize
    rcopySize := hsize }
  right := ⟨hrunning, hkeeps.mono, cs, hsends, hkeeps.answers, hkeeps.before⟩

/-- A datagram in flight, as the receiver accepts it: with a number below the upper edge of its
window, and part of the file unless it is out of date. -/
theorem Joint.accepted (h : P.Joint net L K m a) {b : Bytes} (hflight : P.InFlight L K b)
    (heof : byteAt b recvFlagLocation = eofFlag → m K ≠ none) : ∃ s flag payload,
    ∃ hfits : b.length ≤ maxPduLen, Accepted P.rcopyOrder b s flag payload ∧
      b.length ≤ pduHeaderLen + P.bufferSize ∧ s.toNat ≤ K ∧
      s.toNat < a.current + P.windowSize ∧
      (s.toNat < a.current ∨ ((s.toNat = K → P.block s.toNat = none) ∧
        (Packet.of s.toNat b hfits).Matches (P.block s.toNat))) := by
  obtain ⟨s, flag, payload, rfl, hlen, hcase⟩ := hflight
  rw [byteAt_encodePDU] at heof
  have hbuffer := P.bufferSize.2.2
  have hfits : (encodePDU P.serverOrder s flag payload).length ≤ maxPduLen := by
    simp only [length_encodePDU, pduHeaderLen, maxPduLen]
    omega
  have hlow := h.lower_le
  have hcur := h.current_le
  have hup := h.server.le_upper
  have hpos := P.windowSize_pos
  refine ⟨s, flag, payload, hfits, accepted_encodePDU _ _ _ _ (by omega),
    by rw [length_encodePDU]; omega, ?_⟩
  rcases hcase with hs | ⟨hs, hflag, hblock⟩ | ⟨hs, hend, hflag⟩
  · exact ⟨by omega, by omega, .inl (by omega)⟩
  · refine ⟨by omega, by omega, .inr ⟨fun heq => absurd heq (by omega), ?_⟩⟩
    rw [hblock]
    refine ⟨?_, drop_encodePDU .., (P.blocks_fit payload (List.mem_of_getElem? hblock)).1⟩
    rw [Packet.of, byteAt_encodePDU]
    exact hflag
  · obtain ⟨packet, hpacket⟩ := Option.ne_none_iff_exists'.mp (heof hflag)
    -- The EOF has a slot in the child's window, so its number is below the upper edge.
    have hmem := h.server.shows.mem_window hpacket
    have hnone : P.block s.toNat = none := block_eq_none_iff.mpr (by omega)
    refine ⟨by omega, by omega, .inr ⟨fun _ => hnone, ?_⟩⟩
    rw [hnone]
    show (Packet.of _ _ hfits).flag = eofFlag
    rw [Packet.of, byteAt_encodePDU]
    exact hflag

/-- The bound on `current` after a block, by the blocks that were sent. -/
theorem Joint.current_lt {k : Nat} {packet : Packet} (hk : k ≤ K)
    (hlast : k = K → P.block k = none) (hmatch : packet.Matches (P.block k))
    (hflag : packet.flag ≠ eofFlag) : k < K := by
  refine Nat.lt_of_le_of_ne hk fun heq => ?_
  exact hflag (hmatch.flag_eq_eofFlag.mpr (hlast heq))

/-- A flush stays below the blocks that were sent, too. -/
theorem Joint.flush_current (h : P.Joint net L K m a) :
    a.current ≤ a.flush.1.current ∧ a.flush.1.current ≤ K := by
  have hcur := h.current_le
  rcases a.flush_current with heq | ⟨packet, hpacket, hne, heq⟩
  · omega
  · obtain ⟨hle, hlast⟩ := h.stored_le _ _ hpacket
    obtain ⟨-, -, hmatch⟩ := h.assembles.stored _ _ hpacket
    have hlt := Joint.current_lt hle hlast hmatch hne
    omega

/-- Nothing happens. -/
theorem Joint.keeps_self (h : P.Joint net L K m a) : P.RcopyKeeps K m a a [] where
  assembles := h.assembles
  mono := Nat.le_refl _
  current_le := h.current_le
  stored_le := h.stored_le
  eofReceived := h.eofReceived
  answers := fun _ hc => (by cases hc)
  before := .nil

/-- The receiver gives up. -/
theorem Joint.keeps_timeout (h : P.Joint net L K m a)
    (hpoll : a.point = .inOrder ∨ a.point = .buffering) :
    P.RcopyKeeps K m a { a with point := .done .timeout } [] where
  assembles := h.assembles.timeout hpoll
  mono := Nat.le_refl _
  current_le := h.current_le
  stored_le := h.stored_le
  eofReceived := fun hcase => h.eofReceived (hcase.imp_right fun hc => (by cases hc))
  answers := fun _ hc => (by cases hc)
  before := .nil

/-- The receiver gets a PDU of the file, or one that is out of date. -/
theorem Joint.keeps_accept (h : P.Joint net L K m a)
    (hpoll : a.point = .inOrder ∨ a.point = .buffering) {s : Nat} {packet : Packet} (hsK : s ≤ K)
    (heof : packet.flag = eofFlag → m K ≠ none)
    (hmatch : s < a.current ∨ ((s = K → P.block s = none) ∧ packet.Matches (P.block s))) :
    P.RcopyKeeps K m a (a.accept s packet).1 (a.accept s packet).2 := by
  have hanswers : ∀ c ∈ (a.accept s packet).2, a.Answers (a.accept s packet).1 K c :=
    fun c hc => (h.assembles.accept_answers c hc).mono hsK
  have hbefore := a.accept_before s packet
  rcases hmatch with hold | ⟨hlast, hmatch⟩
  · rw [Receiver.accept_old hpoll hold] at hanswers hbefore ⊢
    exact ⟨h.assembles, Nat.le_refl _, h.current_le, h.stored_le, h.eofReceived, hanswers, hbefore⟩
  · have hcurrent : a.current ≤ (a.accept s packet).1.current ∧
        (a.accept s packet).1.current ≤ K := by
      have hcur := h.current_le
      rcases a.accept_current s packet with heq | ⟨hs, hne, heq⟩
      · omega
      · have := Joint.current_lt hsK hlast hmatch hne
        omega
    refine ⟨h.assembles.accept hmatch, hcurrent.1, hcurrent.2, fun k p hk => ?_, ?_, hanswers,
      hbefore⟩
    · rcases Receiver.accept_stored hk with hk | ⟨rfl, -⟩
      · exact h.stored_le k p hk
      · exact ⟨hsK, hlast⟩
    · rintro (hstored | hdone)
      · obtain ⟨p, hp⟩ := Option.ne_none_iff_exists'.mp hstored
        rcases Receiver.accept_stored hp with hp | ⟨rfl, -⟩
        · exact h.eofReceived (.inl (by rw [hp]; exact Option.some_ne_none p))
        · exact heof (hmatch.flag_eq_eofFlag.mpr (hlast rfl))
      · rcases Receiver.accept_done hdone with hdone | ⟨-, hflag⟩ | ⟨hc, -⟩
        · exact h.eofReceived (.inr hdone)
        · exact heof hflag
        · cases hc

/-- The receiver flushes a PDU, or comes to the end of its flush. -/
theorem Joint.keeps_flush (h : P.Joint net L K m a) (hpoint : a.point = .flush) :
    P.RcopyKeeps K m a a.flush.1 a.flush.2 := by
  have hcurrent := h.flush_current
  refine ⟨h.assembles.flush hpoint, hcurrent.1, hcurrent.2,
    fun k packet hk => h.stored_le k packet (Receiver.flush_stored hk), ?_,
    fun c hc => (a.flush_answers c hc).mono (Nat.zero_le K), a.flush_before⟩
  rintro (hstored | hdone)
  · obtain ⟨packet, hpacket⟩ := Option.ne_none_iff_exists'.mp hstored
    have hold := Receiver.flush_stored hpacket
    exact h.eofReceived (.inl (by rw [hold]; exact Option.some_ne_none packet))
  · -- The EOF at `current` is behind the last block, so `current` is `K`.
    obtain ⟨-, packet, hpacket, hflag⟩ := Receiver.flush_done hdone
    obtain ⟨-, -, hmatch⟩ := h.assembles.stored _ _ hpacket
    have hend := block_eq_none_iff.mp (hmatch.flag_eq_eofFlag.mp hflag)
    have hcur := h.current_le
    have hlen := h.server.le_length
    obtain rfl : a.current = K := by omega
    exact h.eofReceived (.inl (by rw [hpacket]; exact Option.some_ne_none packet))

/-- **Every step of the receiver keeps the invariant.** -/
theorem Joint.rcopyStep (h : P.Joint net L K m a) {i : RcopyInput} {ds : List Datagram}
    (hstep : P.RcopySteps net i net' ds)
    (hrecv : i.Silent ∨ ∃ d ∈ net.toRcopy, P.RcopyReceives d i)
    (hfrom : net'.toServer = net.toServer ++ ds) (hto : net'.toRcopy = net.toRcopy) :
    ∃ a', P.Joint net' L K m a' ∧ P.RcopyProceeds K a a' ds := by
  obtain ⟨hstep, hserver, hwrite⟩ := hstep
  have hpoint := h.rcopy.point
  have hlen := h.server.le_length
  have hbound := P.range
  cases i with
  | poll p write junk =>
      obtain rfl : write = .complete := hwrite
      have hpoll := Rcopy.point_of_step_poll hstep
      have hpoll' : a.point = .inOrder ∨ a.point = .buffering := by rwa [← hpoint]
      have hrunning := RcopyPoint.ne_done hpoll'
      cases p with
      | timeout =>
          have hrun := (Rcopy.step_timeout hpoll .complete junk).symm.trans hstep
          obtain ⟨hr, rfl⟩ := Prod.mk.inj (Except.ok.inj (Option.some.inj hrun))
          refine ⟨_, h.rcopyMoves (h.keeps_timeout hpoll') hserver hto hfrom ?_ .nil hrunning
            (hr ▸ h.serverAddress) (hr ▸ h.rcopySize)⟩
          rw [← hr]
          exact ⟨rfl, h.rcopy.shows, h.rcopy.current, h.rcopy.highest, h.rcopy.highest_lt,
            h.rcopy.file, h.rcopy.packet⟩
      | received src stale datagram =>
          rcases hrecv with hsilent | ⟨d, hd, rfl, ⟨-, rfl⟩ | hreject⟩
          · exact hsilent.elim
          · obtain ⟨-, hflight⟩ := h.toRcopy d hd
            obtain ⟨s, flag, payload, hfits, hacc, hsize, hsK, hswin, hmatch⟩ := h.accepted hflight
              fun heof => h.eofSent.mpr ⟨d, hd, heof⟩
            have hkeeps : P.RcopyKeeps K m a (a.accept s.toNat (.of s.toNat d.bytes hfits)).1
                (a.accept s.toNat (.of s.toNat d.bytes hfits)).2 :=
              h.keeps_accept hpoll' hsK (fun heof => h.eofSent.mpr ⟨d, hd, heof⟩) hmatch
            have hle := hkeeps.current_le
            obtain ⟨y, hrun, r', ds', rfl, hrefines, hsends, hsize', haddr⟩ :=
              h.rcopy.accept (o := P.rcopyOrder) hpoll' (h.assembles.current_none hpoll') hacc
                (by rw [h.rcopySize]; exact hsize) hfits hswin (by omega) P.serverAddr stale junk
            obtain ⟨hr, rfl⟩ :=
              Prod.mk.inj (Except.ok.inj (Option.some.inj (hrun.symm.trans hstep)))
            exact ⟨_, h.rcopyMoves hkeeps hserver hto hfrom (hr ▸ hrefines) hsends hrunning
              (hr ▸ haddr) (hr ▸ hsize'.trans h.rcopySize)⟩
          · have hreject' : Rejected P.rcopyOrder (pduHeaderLen + net.rcopy.bufferSize) stale
                datagram := by
              rw [h.rcopySize]
              exact hreject
            have hrun := (Rcopy.step_rejected hpoll hreject' .complete junk).symm.trans hstep
            obtain ⟨hr, rfl⟩ := Prod.mk.inj (Except.ok.inj (Option.some.inj hrun))
            refine ⟨a, h.rcopyMoves h.keeps_self hserver hto hfrom ?_ .nil hrunning
              (by rw [← hr]) (hr ▸ h.rcopySize)⟩
            rw [← hr]
            exact ⟨h.rcopy.point, h.rcopy.shows, h.rcopy.current, h.rcopy.highest,
              h.rcopy.highest_lt, h.rcopy.file, h.rcopy.packet⟩
  | flush write junk =>
      obtain rfl : write = .complete := hwrite
      have hflush : a.point = .flush := by
        rw [← hpoint]
        by_contra hne
        rw [Rcopy.step_flush_none hne] at hstep
        cases hstep
      have hrunning : ∀ why, a.point ≠ .done why := fun why hc => by
        rw [hflush] at hc
        cases hc
      have hkeeps := h.keeps_flush hflush
      have hle := hkeeps.current_le
      obtain ⟨y, hrun, r', ds', rfl, hrefines, hsends, hsize', haddr⟩ :=
        h.rcopy.flush (o := P.rcopyOrder) hflush (by omega) junk
      obtain ⟨hr, rfl⟩ := Prod.mk.inj (Except.ok.inj (Option.some.inj (hrun.symm.trans hstep)))
      rw [h.serverAddress] at hsends haddr
      exact ⟨_, h.rcopyMoves hkeeps hserver hto hfrom (hr ▸ hrefines) hsends hrunning (hr ▸ haddr)
        (hr ▸ hsize'.trans h.rcopySize)⟩

end

end Transfer

end RemoteCopy

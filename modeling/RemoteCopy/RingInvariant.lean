import RemoteCopy.RingCalls
import RemoteCopy.ControlTraffic
import RemoteCopy.ServerInvariant

/-!
# The numbers of the two windows

What bounds the edges of the two windows when the child's answer to the request is still on its way.
The receiver takes it, whenever it arrives, for a block with the number 0, so what it writes need
not be the file, and the child of an empty file may be told that a block has arrived that it has
never sent. The numbers stay within bounds all the same: no datagram to the receiver has a number
beyond the child's window, or that of a block that does not exist, but for this one 0
(`Server.Spans.step`, `Receiver.UpTo.step`).
-/

namespace RemoteCopy

/-- A datagram to the receiver from a child with the window `[L, L + n)` and `K` blocks sent. What
is not the EOF has the number of a block that was sent, or 0. -/
def Numbered (o : ByteOrder) (size n L K : Nat) (b : Bytes) : Prop :=
  ∃ s flag payload, b = encodePDU o s flag payload ∧ payload ≠ [] ∧ payload.length ≤ size ∧
    s.toNat < L + n ∧ s.toNat ≤ K ∧ (flag ≠ eofFlag → s.toNat < max K 1)

/-- A reply of a receiver that waits for `c`, to a child that has sent `K` blocks. -/
def Reply.Within (c K : Nat) : Reply → Prop
  | .rr k => k ≤ c
  | .srej k => k < K
  | .eofAck => True

section
variable {o : ByteOrder} {size n L L' K K' c c' : Nat}

theorem Numbered.mono {b : Bytes} (h : Numbered o size n L K b) (hL : L ≤ L') (hK : K ≤ K') :
    Numbered o size n L' K' b := by
  obtain ⟨s, flag, payload, hb, hne, hlen, hwin, hle, hlt⟩ := h
  refine ⟨s, flag, payload, hb, hne, hlen, by omega, by omega, fun hflag => ?_⟩
  have := hlt hflag
  omega

/-- A PDU for the number `x`, with its own number in it. -/
theorem numbered_encodePDU {x : Nat} {flag : Byte} {payload : Bytes} (hne : payload ≠ [])
    (hlen : payload.length ≤ size) (hx : x < 2147483648) (hwin : x < L + n) (hle : x ≤ K)
    (hlt : flag ≠ eofFlag → x < max K 1) :
    Numbered o size n L K (encodePDU o (toUInt32 x) flag payload) := by
  refine ⟨_, _, _, rfl, hne, hlen, ?_⟩
  rw [toNat_toUInt32_natCast (by omega)]
  exact ⟨hwin, hle, hlt⟩

theorem Reply.Within.mono {x : Reply} (h : x.Within c K) (hc : c ≤ c') (hK : K ≤ K') :
    x.Within c' K' := by
  cases x with
  | rr k => exact Nat.le_trans h hc
  | srej k => exact Nat.lt_of_lt_of_le h hK
  | eofAck => trivial

theorem Reply.Within.fits {x : Reply} (h : x.Within c K) (hc : c < 2147483648)
    (hK : K < 2147483648) : x.Fits := by
  cases x with
  | rr k => exact Nat.lt_of_le_of_lt h hc
  | srej k => exact Nat.lt_trans h hK
  | eofAck => trivial

end

/-! ## The child -/

namespace Server

variable {o : ByteOrder} {s s' : Server} {i : ServerInput} {ds : List Datagram}

theorem endOfFileLoop_waits (s : Server) (count : Nat) :
    (∃ count', (s.endOfFileLoop count).point = .endOfFileWait count') ∨
      ∃ why, (s.endOfFileLoop count).point = .done why := by
  obtain ⟨point, heq, ⟨-, rfl⟩ | rfl⟩ := s.endOfFileLoop_eq count
  · exact .inl ⟨count, congrArg Server.point heq⟩
  · exact .inr ⟨_, congrArg Server.point heq⟩

/-- Once the EOF is sent, the child waits in `end_of_file` until it ends. -/
theorem point_of_endOfFileWait {count : Nat} (h : s.step o i = some (.ok (s', ds)))
    (hpoint : s.point = .endOfFileWait count) :
    (∃ count', s'.point = .endOfFileWait count') ∨ ∃ why, s'.point = .done why := by
  cases i with
  | run readFails junk =>
      rcases point_of_step_run h with hc | hc
      · cases hc.symm.trans hpoint
      · cases hc.symm.trans hpoint
  | poll p =>
      rw [step_endOfFileWait hpoint, Option.some.injEq] at h
      unfold endOfFileWait at h
      split at h
      · obtain ⟨d, -, h⟩ := C.bind_eq_ok.mp h
        cases h
        exact endOfFileLoop_waits _ _
      · split at h
        · cases h
          exact endOfFileLoop_waits _ _
        · obtain ⟨w, -, h⟩ := C.bind_eq_ok.mp h
          cases h
          exact endOfFileLoop_waits _ _
        · obtain ⟨d, -, h⟩ := C.bind_eq_ok.mp h
          cases h
          exact endOfFileLoop_waits _ _
        · cases h
          exact .inr ⟨_, rfl⟩
        · cases h
          exact .inr ⟨_, rfl⟩

theorem windowClosedLoop_ne_poll (s : Server) (count : Nat) :
    (s.windowClosedLoop count).point ≠ .windowOpenPoll := by
  obtain ⟨point, heq, hpoint⟩ := s.windowClosedLoop_eq count
  rw [heq]
  intro hc
  rcases hpoint with ⟨-, -, rfl⟩ | rfl | rfl <;> cases hc

/-- After a poll of its own the child is not at the one of `window_open`. -/
theorem ne_windowOpenPoll_of_poll {p : Poll} (h : s.step o (.poll p) = some (.ok (s', ds))) :
    s'.point ≠ .windowOpenPoll := by
  intro hc
  rcases polls_of_step h with hpoint | ⟨count, hpoint⟩ | ⟨count, hpoint⟩
  · rw [step_windowOpenPoll hpoint, Option.some.injEq] at h
    unfold windowOpenPoll at h
    split at h
    · cases h
      cases hc
    · split at h
      · cases h
        cases hc
      · obtain ⟨w, -, h⟩ := C.bind_eq_ok.mp h
        cases h
        cases hc
      · obtain ⟨d, -, h⟩ := C.bind_eq_ok.mp h
        cases h
        cases hc
      · cases h
        cases hc
      · cases h
        cases hc
  · rw [step_windowClosed hpoint, Option.some.injEq] at h
    unfold windowClosed at h
    split at h
    · obtain ⟨d, -, h⟩ := C.bind_eq_ok.mp h
      cases h
      exact windowClosedLoop_ne_poll _ _ hc
    · split at h
      · cases h
        exact windowClosedLoop_ne_poll _ _ hc
      · obtain ⟨w, -, h⟩ := C.bind_eq_ok.mp h
        cases h
        cases hc
      · obtain ⟨d, -, h⟩ := C.bind_eq_ok.mp h
        cases h
        exact windowClosedLoop_ne_poll _ _ hc
      · cases h
        cases hc
      · cases h
        cases hc
  · rcases point_of_endOfFileWait h hpoint with ⟨count', hpoint'⟩ | ⟨why, hpoint'⟩
    · cases hpoint'.symm.trans hc
    · cases hpoint'.symm.trans hc

/-- That poll comes after a block. -/
theorem current_of_windowOpenPoll (h : s.step o i = some (.ok (s', ds)))
    (hc : s'.point = .windowOpenPoll) : s'.window.current = s.window.current + 1 := by
  cases i with
  | poll p => exact absurd hc (ne_windowOpenPoll_of_poll h)
  | run readFails junk =>
      rcases point_of_step_run h with hpoint | hpoint
      · rw [step_windowOpen hpoint, Option.some.injEq] at h
        unfold windowOpen at h
        split at h
        · split at h
          · cases h
          · split at h
            · cases h
              cases hc
            · split at h
              · cases h
                cases hc
              · obtain ⟨⟨w, buf⟩, hsend, h⟩ := C.bind_eq_ok.mp h
                cases h
                obtain ⟨-, -, w₁, -, rfl⟩ := of_sendDataPacket hsend
                rfl
        · cases h
          exact absurd hc (windowClosedLoop_ne_poll s 0)
      · rw [step_endOfFile hpoint, Option.some.injEq] at h
        obtain ⟨x, -, h⟩ := C.bind_eq_ok.mp h
        cases h
        rcases endOfFileLoop_waits { s with window := x.1 } 0 with ⟨count, hwait⟩ | ⟨why, hdone⟩
        · cases hwait.symm.trans hc
        · cases hdone.symm.trans hc

/-- What the child receives is rejected, or a reply of a receiver that waits for `c`. -/
def Hears (o : ByteOrder) (c K : Nat) (i : ServerInput) : Prop :=
  ∀ src stale datagram, i = .poll (.received src stale datagram) →
    receiveControl o stale datagram = .rejected ∨
      ∃ x : Reply, x.Within c K ∧ x.control = receiveControl o stale datagram

section
variable {c K : Nat} {src : Addr} {stale datagram : Bytes} {number : Int}

theorem Hears.of_rr (h : Hears o c K (.poll (.received src stale datagram)))
    (hcontrol : receiveControl o stale datagram = .rr number) : ∃ k : Nat, number = k ∧ k ≤ c := by
  rcases h src stale datagram rfl with hreject | ⟨x, hx, hsame⟩
  · cases hreject.symm.trans hcontrol
  · obtain ⟨k, rfl, rfl⟩ := Reply.eq_rr_of_control (hsame.trans hcontrol)
    exact ⟨k, rfl, hx⟩

theorem Hears.of_srej (h : Hears o c K (.poll (.received src stale datagram)))
    (hcontrol : receiveControl o stale datagram = .srej number) :
    ∃ k : Nat, number = k ∧ k < K := by
  rcases h src stale datagram rfl with hreject | ⟨x, hx, hsame⟩
  · cases hreject.symm.trans hcontrol
  · obtain ⟨k, rfl, rfl⟩ := Reply.eq_srej_of_control (hsame.trans hcontrol)
    exact ⟨k, rfl, hx⟩

end

/-- The child's window is `[L, L + n)` and `K` blocks are sent: either as the child means it to be,
or an RR has released the EOF of an empty file. -/
inductive Spans (o : ByteOrder) (n : Nat) (blocks : List Bytes) (s : Server) : Nat → Nat → Prop
  | holds {L K : Nat} {m : Nat → Option Packet} (h : s.Holds o n blocks L K m)
      (hpoll : s.point = .windowOpenPoll → 0 < K) : Spans o n blocks s L K
  | emptied (hblocks : blocks = []) (hshows : s.window.Shows n 1 fun _ => none)
      (hcurrent : s.window.current = (0 : Nat))
      (hpoint : (∃ count, s.point = .endOfFileWait count) ∨ ∃ why, s.point = .done why) :
      Spans o n blocks s 1 0

/-- The child adds at `current`. -/
theorem of_mem_adds {call : WindowCall} (h : call ∈ s.adds i) :
    call = ⟨s.window, toInt32 (toUInt32 s.window.current)⟩ := by
  unfold adds at h
  split at h
  · split at h
    · exact List.mem_singleton.mp h
    · cases h
  · exact List.mem_singleton.mp h
  · cases h

section
variable {n L K c size : Nat} {blocks : List Bytes}

theorem Spans.start {bufferSize : Int} {client : Addr} (hn : 0 < n) (hmax : n < 2147483648)
    (h : start n bufferSize blocks client = .ok s) : s.Spans o n blocks 0 0 :=
  .holds (.start hn hmax h) fun hc => (by cases (of_start h).2.1.symm.trans hc)

theorem Spans.shows (h : s.Spans o n blocks L K) : ∃ m, s.window.Shows n L m := by
  cases h with
  | holds h _ => exact ⟨_, h.shows⟩
  | emptied _ hshows _ _ => exact ⟨_, hshows⟩

theorem Spans.current (h : s.Spans o n blocks L K) : s.window.current = K := by
  cases h with
  | holds h _ => exact h.current
  | emptied _ _ hcurrent _ => exact hcurrent

theorem Spans.le_length (h : s.Spans o n blocks L K) : K ≤ blocks.length := by
  cases h with
  | holds h _ => exact h.le_length
  | emptied _ _ _ _ => exact Nat.zero_le _

/-- What a step of the child does to these numbers: `lower` only moves up to what the receiver waits
for. -/
structure Proceeds (o : ByteOrder) (n : Nat) (blocks : List Bytes) (size c L K : Nat) (s' : Server)
    (ds : List Datagram) (L' K' : Nat) : Prop where
  spans : s'.Spans o n blocks L' K'
  lower_le : L ≤ L'
  le_max : L' ≤ max L c
  current_le : K ≤ K'
  numbered : ∀ d ∈ ds, Numbered o size n L' K' d.bytes

/-- A step after which the numbers are what they were. -/
theorem Proceeds.stays (h : s'.Spans o n blocks L K)
    (hds : ∀ d ∈ ds, Numbered o size n L K d.bytes) : Proceeds o n blocks size c L K s' ds L K :=
  ⟨h, Nat.le_refl L, Nat.le_max_left L c, Nat.le_refl K, hds⟩

/-- What the child resends: a block or the EOF, under the number of a block or of the EOF. -/
theorem Holds.numbered_resent {m : Nat → Option Packet} (h : s.Holds o n blocks L K m)
    (hfit : ∀ block ∈ blocks, block ≠ [] ∧ block.length ≤ size) (hsize : 0 < size) {x : Nat}
    (hx : x < K ∨ x = L) {flag : Byte} {buf : Bytes}
    (hresend : resendDataPacket o s.window (toUInt32 x) flag s.bufferSize = .ok buf) :
    Numbered o size n L K buf := by
  have hpos := h.shows.pos
  have hrange := h.shows.range
  have hlow := h.lower_le
  have hup := h.le_upper
  obtain ⟨k, packet, hk, hkx, rfl⟩ := h.resent (x := x) (by omega) hresend
  rcases h.carries hk with ⟨hlt, block, hblock, hcarries⟩ | ⟨rfl, -, junk, hcarries⟩
  · obtain ⟨hne, hlen⟩ := hfit block (List.mem_of_getElem? hblock)
    rw [hcarries.payload_eq]
    exact numbered_encodePDU hne hlen (by omega) (by omega) (by omega) fun _ => by omega
  · rw [hcarries.payload_eq, hcarries.resentFlag_eof]
    refine numbered_encodePDU (List.cons_ne_nil _ _) ?_ (by omega) (by omega) (by omega)
      fun hne => absurd rfl hne
    rw [List.length_singleton]
    exact hsize

/-- An RR beyond `current` is one for the EOF of an empty file. -/
theorem Holds.emptied {m : Nat → Option Packet} (h : s.Holds o n blocks L K m)
    (hpoll : s.point = .windowOpenPoll → 0 < K) {src : Addr} {stale datagram : Bytes} {k : Nat}
    (hstep : s.step o (.poll (.received src stale datagram)) = some (.ok (s', ds)))
    (hclean : cleaningUpWithRR s.window k = .ok s'.window) (hk : K < k) (hmax : k ≤ max K 1) :
    L = 0 ∧ K = 0 ∧ s'.Spans o n blocks 1 0 := by
  obtain rfl : K = 0 := by omega
  obtain rfl : k = 1 := by omega
  have hlow := h.lower_le
  obtain rfl : L = 0 := by omega
  have hpos := h.shows.pos
  -- Nothing is sent, so the child neither polls between two blocks nor finds its window closed.
  obtain ⟨count, hwait⟩ : ∃ count, s.point = .endOfFileWait count := by
    rcases polls_of_step hstep with hpoint | ⟨count, hpoint⟩ | hwait
    · exact absurd (hpoll hpoint) (Nat.lt_irrefl 0)
    · have hclosed := (h.poised.windowClosed count hpoint).1
      rw [h.checkWindowOpen.mpr (by omega)] at hclosed
      cases hclosed
    · exact hwait
  obtain ⟨packet, hpacket⟩ := Option.ne_none_iff_exists'.mp (h.endOfFileWait count hwait)
  have hblocks : blocks = [] := List.length_eq_zero_iff.mp (h.eof packet hpacket).1.symm
  have hrange := range_of_cleaningUpWithRR h.shows hclean
  obtain ⟨w, hclean', hshows, hcurrent⟩ := cleaningUpWithRR_eq h.shows hrange
  cases hclean.symm.trans hclean'
  have hnone : release m (1 : Int).toNat = fun _ => none := by
    funext j
    rw [release]
    split
    · next hj => exact h.above j hj
    · rfl
  refine ⟨rfl, rfl, .emptied hblocks ?_ (hcurrent.trans h.current)
    (point_of_endOfFileWait hstep hwait)⟩
  rw [← hnone]
  exact hshows

/-- A step of the child with its window as it means it to be. -/
theorem Holds.proceeds {m : Nat → Option Packet} (h : s.Holds o n blocks L K m)
    (hpoll : s.point = .windowOpenPoll → 0 < K)
    (hfit : ∀ block ∈ blocks, block ≠ [] ∧ block.length ≤ size) (hsize : 0 < size)
    (hears : Hears o c K i) (hc : c ≤ max K 1) (hstep : s.step o i = some (.ok (s', ds))) :
    ∃ L' K', Proceeds o n blocks size c L K s' ds L' K' := by
  obtain ⟨heffect, hpoised, -, -⟩ := stepped hstep
  have hrange := h.shows.range
  -- A step that leaves `current` alone does not come to the poll of `window_open`.
  have hsame (hcurrent : s'.window.current = s.window.current) :
      s'.point = .windowOpenPoll → 0 < K := fun hc => by
    have := current_of_windowOpenPoll hstep hc
    omega
  cases heffect with
  | idle hwindow hcontinues _ =>
      exact ⟨L, K, .stays (.holds (h.continues hwindow hcontinues hpoised)
        (hsame (by rw [hwindow]))) fun _ hd => (by cases hd)⟩
  | @sent readFails junk payload buf rest w hpoint hopen hfile hsend =>
      obtain ⟨hblock, hlt, rfl, packet, -, h'⟩ := h.sent hpoint hopen hfile hsend
      obtain ⟨hne, hlen⟩ := hfit payload (List.mem_of_getElem? hblock)
      refine ⟨L, K + 1, .holds h' fun _ => Nat.succ_pos K, Nat.le_refl L, Nat.le_max_left L c,
        Nat.le_succ K, fun d hd => ?_⟩
      cases List.mem_singleton.mp hd
      exact numbered_encodePDU hne hlen (by omega) hlt (Nat.le_succ K) fun _ => by omega
  | @sentEof readFails junk buf w hpoint hsend =>
      obtain ⟨-, hlt, rfl, packet, -, h'⟩ := h.sentEof hpoint hsend
      refine ⟨L, K, .stays (.holds h' fun hc => (by cases hc)) fun d hd => ?_⟩
      cases List.mem_singleton.mp hd
      exact numbered_encodePDU (List.cons_ne_nil _ _) (by rw [List.length_singleton]; exact hsize)
        (by omega) hlt (Nat.le_refl K) fun hne => absurd rfl hne
  | @released src stale datagram rr _ hcontrol hclean hcontinues _ =>
      obtain ⟨k, rfl, hk⟩ := hears.of_rr hcontrol
      rcases Nat.lt_or_ge K k with hgt | hle
      · obtain ⟨rfl, rfl, h'⟩ := h.emptied hpoll hstep hclean hgt (by omega)
        exact ⟨1, 0, h', Nat.zero_le 1, by omega, Nat.le_refl 0, fun _ hd => (by cases hd)⟩
      · have h' := h.released hclean (by rw [Int.toNat_natCast]; exact hle) hcontinues hpoised
        rw [Int.toNat_natCast] at h'
        exact ⟨max L k, K, .holds h' (hsame (current_of_cleaningUpWithRR hclean)),
          Nat.le_max_left L k, by omega, Nat.le_refl K, fun _ hd => (by cases hd)⟩
  | @resent _ number flag buf _ hcause hresend hwindow hcontinues _ =>
      refine ⟨L, K, .stays (.holds (h.continues hwindow hcontinues hpoised)
        (hsame (by rw [hwindow]))) fun d hd => ?_⟩
      cases List.mem_singleton.mp hd
      obtain ⟨x, rfl, hx⟩ : ∃ x : Nat, number = x ∧ (x < K ∨ x = L) := by
        cases hcause with
        | timeout hpoint => exact ⟨L, h.shows.lower, .inr rfl⟩
        | srej hcontrol =>
            obtain ⟨k, rfl, hk⟩ := hears.of_srej hcontrol
            exact ⟨k, rfl, .inl hk⟩
      exact h.numbered_resent hfit hsize hx hresend

/-- A step of the child once its EOF is released: there is nothing to resend, and
`resend_data_packet` does not return. -/
theorem proceeds_of_emptied (hblocks : blocks = [])
    (hshows : s.window.Shows n 1 fun _ => none) (hcurrent : s.window.current = (0 : Nat))
    {count : Nat} (hwait : s.point = .endOfFileWait count) (hears : Hears o c 0 i) (hc : c ≤ 1)
    (hstep : s.step o i = some (.ok (s', ds))) : Proceeds o n blocks size c 1 0 s' ds 1 0 := by
  have hpoint' := point_of_endOfFileWait hstep hwait
  obtain ⟨heffect, -, -, -⟩ := stepped hstep
  cases heffect with
  | idle hwindow _ _ =>
      rw [← hwindow] at hshows hcurrent
      exact .stays (.emptied hblocks hshows hcurrent hpoint') fun _ hd => (by cases hd)
  | sent hpoint _ _ _ => cases hwait.symm.trans hpoint
  | sentEof hpoint _ => cases hwait.symm.trans hpoint
  | @released src stale datagram rr _ hcontrol hclean _ _ =>
      obtain ⟨k, rfl, hk⟩ := hears.of_rr hcontrol
      have hrange := range_of_cleaningUpWithRR hshows hclean
      obtain ⟨w, hclean', hshows', hcurrent'⟩ := cleaningUpWithRR_eq hshows hrange
      cases hclean.symm.trans hclean'
      rw [release_eq_self hshows (by omega), Nat.max_eq_left (by omega)] at hshows'
      exact .stays (.emptied hblocks hshows' (hcurrent'.trans hcurrent) hpoint')
        fun _ hd => (by cases hd)
  | resent _ hresend _ _ _ =>
      obtain ⟨j, packet, -, hslot, -⟩ := exists_of_resendDataPacket hresend
      obtain ⟨k, -, -, -, hk⟩ := hshows.slot_some hslot
      cases hk

/-- **A step of the child keeps the numbers within bounds**, if the receiver's are. -/
theorem Spans.step (h : s.Spans o n blocks L K)
    (hfit : ∀ block ∈ blocks, block ≠ [] ∧ block.length ≤ size) (hsize : 0 < size)
    (hears : Hears o c K i) (hc : c ≤ max K 1) (hstep : s.step o i = some (.ok (s', ds))) :
    ∃ L' K', Proceeds o n blocks size c L K s' ds L' K' := by
  cases h with
  | holds h hpoll => exact h.proceeds hpoll hfit hsize hears hc hstep
  | emptied hblocks hshows hcurrent hpoint =>
      rcases hpoint with ⟨count, hwait⟩ | ⟨why, hdone⟩
      · exact ⟨1, 0, proceeds_of_emptied hblocks hshows hcurrent hwait hears hc hstep⟩
      · simp only [Server.step, hdone] at hstep
        cases hstep

/-! ### Remainders and edges -/

/-- The loop of `cleaning_up_with_RR` removes what is at `lower` until it has come to the number
received, with the upper edge always as far above. -/
theorem of_mem_cleaningUpRemoves {rr : Int} {fuel : Nat} {w : WindowArray} {c : WindowCall}
    (hc : c ∈ cleaningUpRemoves rr fuel w) : c.window.windowSize = w.windowSize ∧
      w.lower ≤ c.number ∧ c.number < rr ∧ c.window.upper - c.number = w.upper - w.lower := by
  refine forall_mem_cleaningUpRemoves (P := fun w c => c.window.windowSize = w.windowSize ∧
    w.lower ≤ c.number ∧ c.number < rr ∧ c.window.upper - c.number = w.upper - w.lower) ?_ ?_
    fuel hc
  · intro w hlt
    exact ⟨rfl, Int.le_refl _, hlt, rfl⟩
  · rintro w i c - - - ⟨hsize, hlow, hhigh, hedges⟩
    refine ⟨hsize, Int.le_of_lt hlow, hhigh, hedges.trans ?_⟩
    exact Int.add_sub_add_right ..

/-- What the child removes has a number that the receiver has passed. -/
theorem Spans.of_mem_removes (h : s.Spans o n blocks L K) (hears : Hears o c K i)
    {call : WindowCall} (hcall : call ∈ s.removes o i) : call.window.windowSize = n ∧
      0 ≤ call.number ∧ call.number < c ∧ call.window.upper = call.number + n := by
  obtain ⟨src, stale, datagram, rr, rfl, hcontrol, hcall⟩ := Server.of_mem_removes hcall
  obtain ⟨k, rfl, hk⟩ := hears.of_rr hcontrol
  obtain ⟨m, hshows⟩ := h.shows
  have hlower := hshows.lower
  have hupper := hshows.upper
  obtain ⟨hsize, hlow, hhigh, hedges⟩ := of_mem_cleaningUpRemoves hcall
  exact ⟨hsize.trans hshows.size, by omega, by omega, by omega⟩

/-- A number of the child's window, as it is passed on. -/
theorem Spans.inRing_number (h : s.Spans o n blocks L K) {x : Nat} (hx : x < 2147483648) :
    (WindowCall.mk s.window (toInt32 (toUInt32 (x : Int)))).InRing := by
  obtain ⟨m, hshows⟩ := h.shows
  rw [toInt32_toUInt32 (by omega) (by omega)]
  refine WindowCall.inRing_of_nonneg ?_ (Int.natCast_nonneg x)
  rw [hshows.size]
  exact Int.natCast_pos.mpr hshows.pos

/-- **Every remainder that the child takes is an index.** -/
theorem Spans.inRing (h : s.Spans o n blocks L K) (hK : K < 2147483648) (hears : Hears o c K i) :
    ∀ call ∈ s.remainders o i, call.InRing := by
  intro call hcall
  obtain ⟨m, hshows⟩ := h.shows
  have hrange := hshows.range
  rcases List.mem_append.mp hcall with hcall | hcall
  · rcases List.mem_append.mp hcall with hcall | hcall
    · rw [Server.of_mem_adds hcall, h.current]
      exact h.inRing_number hK
    · obtain ⟨number, rfl, rfl | ⟨src, stale, datagram, rfl, hcontrol⟩⟩ := Server.of_mem_gets hcall
      · rw [hshows.lower]
        exact h.inRing_number (by omega)
      · obtain ⟨k, rfl, hk⟩ := hears.of_srej hcontrol
        exact h.inRing_number (by omega)
  · obtain ⟨hsize, hnumber, -⟩ := h.of_mem_removes hears hcall
    refine WindowCall.inRing_of_nonneg ?_ hnumber
    rw [hsize]
    exact Int.natCast_pos.mpr hshows.pos

/-- **Every upper edge that the child increments stays in range**, if that of the receiver does. -/
theorem Spans.inInt32_raises (h : s.Spans o n blocks L K) (hears : Hears o c K i)
    (hroom : c + n < 2147483648) : ∀ upper ∈ s.raises o i, InInt32 (upper + 1) := by
  intro upper hupper
  obtain ⟨call, hcall, rfl⟩ := List.mem_map.mp hupper
  obtain ⟨-, hlow, hhigh, heq⟩ := h.of_mem_removes hears hcall
  rw [heq]
  exact ⟨by omega, by omega⟩

end

end Server

/-! ## The receiver -/

namespace Rcopy

/-- What the receiver accepts is numbered as the child numbers it. -/
def Hears (o : ByteOrder) (n L K : Nat) (r : Rcopy) (i : RcopyInput) : Prop :=
  ∀ pdu, i.pdu o (pduHeaderLen + r.bufferSize) = some pdu → pdu.payload ≠ [] ∧
    pdu.sequenceNumber.toNat < L + n ∧ pdu.sequenceNumber.toNat ≤ K ∧
    (pdu.recvFlag ≠ eofFlag → pdu.sequenceNumber.toNat < max K 1)

section
variable {o : ByteOrder} {n L K : Nat} {r : Rcopy} {a : Receiver} {i : RcopyInput}

theorem Hears.admits (h : Hears o n L K r i) (hL : (L : Int) ≤ r.window.current) :
    Admits o n r i := by
  intro pdu hpdu
  obtain ⟨hne, hwin, -, -⟩ := h pdu hpdu
  exact ⟨.inr hne, by omega⟩

theorem NextBy.next {x : Receiver × List Reply} (hx : NextBy o r a i x) (h : Hears o n L K r i) :
    a.Next x := by
  cases hx with
  | idle _ => exact .idle
  | accept hpdu hpoint packet hflag hpayload =>
      obtain ⟨hne, -⟩ := h _ hpdu
      exact .accept hpoint _ _ (.inr (hpayload.trans_ne hne))
  | flush _ hpoint => exact .flush hpoint

end

end Rcopy

namespace Receiver

variable {a : Receiver} {K K' : Nat}

/-- The receiver has come no further than past the last block that was sent, or past number 0. -/
structure UpTo (a : Receiver) (K : Nat) : Prop where
  orderly : a.Orderly
  current_le : a.current ≤ max K 1
  highest_le : a.highest ≤ K
  stored_le : ∀ k packet, a.stored k = some packet →
    k ≤ K ∧ (packet.flag ≠ eofFlag → k < max K 1)

theorem UpTo.fresh : fresh.UpTo 0 :=
  ⟨.fresh, Nat.zero_le _, Nat.le_refl 0, fun _ _ hk => (by cases hk)⟩

theorem UpTo.mono (h : a.UpTo K) (hK : K ≤ K') : a.UpTo K' := by
  refine ⟨h.orderly, ?_, h.highest_le.trans hK, fun k packet hk => ?_⟩
  · have := h.current_le
    omega
  · obtain ⟨hle, hlt⟩ := h.stored_le k packet hk
    refine ⟨hle.trans hK, fun hflag => ?_⟩
    have := hlt hflag
    omega

/-- `highest` is the largest number seen. -/
theorem accept_highest_le (s : Nat) (packet : Packet) :
    (a.accept s packet).1.highest ≤ max a.highest s := by
  rcases a.received_or_idle s packet with hreceived | hidle
  · generalize a.accept s packet = x at hreceived ⊢
    cases hreceived with
    | old _ | eof _ _ _ | empty _ _ _ _ | dropped _ _ _ | filled _ _ _ =>
        exact Nat.le_max_left a.highest s
    | written _ _ _ _ | opened _ _ => exact Nat.le_max_right a.highest s
    | kept _ _ => exact Nat.le_refl _
  · rw [hidle]
    exact Nat.le_max_left a.highest s

theorem flush_highest (a : Receiver) : a.flush.1.highest = a.highest := by
  unfold flush
  split
  · rfl
  · split <;> rfl

/-- **A step keeps the receiver within the numbers it hears**, and so are its replies. -/
theorem UpTo.step {o : ByteOrder} {n L : Nat} {r : Rcopy} {i : RcopyInput}
    {x : Receiver × List Reply} (h : a.UpTo K) (hears : Rcopy.Hears o n L K r i)
    (hx : Rcopy.NextBy o r a i x) : x.1.UpTo K ∧ a.current ≤ x.1.current ∧
      ∀ c ∈ x.2, c.Within x.1.current K := by
  have hnext := hx.next hears
  have hcurrent := h.current_le
  have hhighest := h.highest_le
  have hbounds : a.current ≤ x.1.current ∧ x.1.current ≤ max K 1 ∧ x.1.highest ≤ K ∧
      ∀ k packet, x.1.stored k = some packet → k ≤ K ∧ (packet.flag ≠ eofFlag → k < max K 1) := by
    cases hx with
    | idle _ => exact ⟨Nat.le_refl _, hcurrent, hhighest, h.stored_le⟩
    | @accept pdu hpdu hpoint packet hflag hpayload =>
        obtain ⟨-, -, hle, hlt⟩ := hears pdu hpdu
        have hhigh := a.accept_highest_le pdu.sequenceNumber.toNat packet
        rw [← hflag] at hlt
        refine ⟨?_, ?_, by omega, fun k p hk => ?_⟩
        · rcases a.accept_current pdu.sequenceNumber.toNat packet with hsame | ⟨-, -, hsucc⟩
          · exact hsame.ge
          · omega
        · rcases a.accept_current pdu.sequenceNumber.toNat packet with hsame | ⟨hs, hdata, hsucc⟩
          · omega
          · have := hlt hdata
            omega
        · rcases accept_stored hk with hold | ⟨rfl, rfl⟩
          · exact h.stored_le k p hold
          · exact ⟨hle, hlt⟩
    | flush _ hpoint =>
        refine ⟨?_, ?_, a.flush_highest.trans_le hhighest, fun k p hk =>
          h.stored_le k p (flush_stored hk)⟩
        · rcases a.flush_current with hsame | ⟨-, -, -, hsucc⟩
          · exact hsame.ge
          · omega
        · rcases a.flush_current with hsame | ⟨packet, hstored, hdata, hsucc⟩
          · omega
          · have := (h.stored_le _ _ hstored).2 hdata
            omega
  obtain ⟨hmono, hcurrent', hhighest', hstored'⟩ := hbounds
  refine ⟨⟨h.orderly.next hnext, hcurrent', hhighest', hstored'⟩, hmono, fun c hc => ?_⟩
  have htruthful := h.orderly.next_truthful hnext c hc
  cases c with
  | rr k => exact Nat.le_of_eq htruthful
  | srej k =>
      obtain ⟨-, -, hlt, -, -⟩ := htruthful
      exact Nat.lt_of_lt_of_le hlt hhighest'
  | eofAck => trivial

end Receiver

/-! ### Remainders and edges -/

namespace Rcopy

section
variable {o : ByteOrder} {n L K : Nat} {r : Rcopy} {a : Receiver} {i : RcopyInput}

theorem Refines.inRing_number (h : r.Refines n a) {w : WindowArray} {number : Int}
    (hsize : w.windowSize = r.window.windowSize) (hnumber : 0 ≤ number) :
    (WindowCall.mk w number).InRing := by
  refine WindowCall.inRing_of_nonneg ?_ hnumber
  rw [hsize, h.shows.size]
  exact Int.natCast_pos.mpr h.shows.pos

/-- **Every remainder that the receiver takes is an index.** -/
theorem Refines.inRing (h : r.Refines n a) (hK : K < 2147483648) (hears : Hears o n L K r i) :
    ∀ call ∈ r.remainders o i, call.InRing := by
  intro call hcall
  have hcurrent : 0 ≤ r.window.current := by
    rw [h.current]
    exact Int.natCast_nonneg _
  have hadd {pdu : ReceivedPdu} (hpdu : i.pdu o (pduHeaderLen + r.bufferSize) = some pdu) :
      0 ≤ toInt32 pdu.sequenceNumber := by
    obtain ⟨-, -, hle, -⟩ := hears pdu hpdu
    rw [toInt32_of_lt (by omega)]
    exact Int.natCast_nonneg _
  rcases List.mem_append.mp hcall with hcall | hcall
  · rcases List.mem_append.mp hcall with hcall | hcall
    · unfold adds at hcall
      split at hcall
      · next hpdu =>
          split at hcall
          · rw [List.mem_singleton.mp hcall]
            exact h.inRing_number rfl (hadd hpdu)
          · cases hcall
      · next hpdu =>
          split at hcall
          · rw [List.mem_singleton.mp hcall]
            exact h.inRing_number rfl (hadd hpdu)
          · cases hcall
      · cases hcall
    · unfold gets at hcall
      split at hcall
      · rcases List.mem_cons.mp hcall with rfl | hcall
        · exact h.inRing_number rfl hcurrent
        · split at hcall
          · rw [List.mem_singleton.mp hcall]
            exact h.inRing_number rfl hcurrent
          · cases hcall
      · cases hcall
  · rw [(Rcopy.of_mem_removes hcall).1]
    exact h.inRing_number rfl hcurrent

/-- What the flush removes is a block that was sent, or has the number 0. -/
theorem Refines.lt_of_removes (h : r.Refines n a) (hup : a.UpTo K) {call : WindowCall}
    (hcall : call ∈ r.removes i) : a.current < max K 1 := by
  obtain ⟨-, hvalid, payloadLen, receiveBuffer, hget, hflag⟩ := Rcopy.of_mem_removes hcall
  rw [h.current, h.checkPDUValid_eq] at hvalid
  obtain ⟨packet, hpacket⟩ := Option.isSome_iff_exists.mp (Except.ok.inj hvalid)
  obtain ⟨receiveBuffer', hget', hflag', -⟩ := h.getPDU_eq hpacket
  rw [h.current] at hget
  cases hget'.symm.trans hget
  rw [hflag'] at hflag
  exact (hup.stored_le _ _ hpacket).2 hflag

/-- **Every upper edge that the receiver increments stays in range**, if there is room for it past
the last block, or past number 0. -/
theorem Refines.inInt32_raises (h : r.Refines n a) (hup : a.UpTo K) (hears : Hears o n L K r i)
    (hroom : max K 1 + n < 2147483648) : ∀ upper ∈ r.raises o i, InInt32 (upper + 1) := by
  intro upper hupper
  have hedge := h.shows.upper
  have hrange := h.shows.range
  have hfits (hlt : a.current < max K 1) : InInt32 (r.window.upper + 1) := by
    rw [hedge]
    exact ⟨by omega, by omega⟩
  have hreceived {pdu : ReceivedPdu} (hpdu : i.pdu o (pduHeaderLen + r.bufferSize) = some pdu)
      (hnumber : pdu.sequenceNumber = toUInt32 r.window.current) (hflag : pdu.recvFlag ≠ eofFlag) :
      a.current < max K 1 := by
    obtain ⟨-, -, -, hlt⟩ := hears pdu hpdu
    rw [h.current, eq_toUInt32_natCast (by omega)] at hnumber
    rw [← hnumber]
    exact hlt hflag
  unfold raises at hupper
  split at hupper
  · next hpdu =>
      split at hupper
      · next hmoves =>
          rw [List.mem_singleton.mp hupper]
          exact hfits (hreceived hpdu hmoves.1 hmoves.2.1)
      · cases hupper
  · next hpdu =>
      split at hupper
      · next hmoves =>
          rw [List.mem_singleton.mp hupper]
          exact hfits (hreceived hpdu hmoves.1 hmoves.2.1)
      · cases hupper
  · obtain ⟨call, hcall, rfl⟩ := List.mem_map.mp hupper
    rw [(Rcopy.of_mem_removes hcall).1]
    exact hfits (h.lt_of_removes hup hcall)

end

end Rcopy

end RemoteCopy

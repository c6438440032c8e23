import RemoteCopy.ServerSteps

/-!
# The window of the server child

`Server.Holds` is the invariant of the child's window: between `lower` and `current` it stores the
blocks of the file, at `current` the EOF once that is sent, and nothing else. It survives every
step but one: an RR beyond `current`, which nothing in `cleaning_up_with_RR` rejects.
-/

namespace RemoteCopy

namespace Server

variable {o : ByteOrder}

/-- The window of `s` spans `[L, L + n)`, with the first `K` blocks sent, and shows `m`. -/
structure Holds (o : ByteOrder) (s : Server) (n : Nat) (blocks : List Bytes) (L K : Nat)
    (m : Nat → Option Packet) : Prop where
  shows : s.window.Shows n L m
  current : s.window.current = K
  lower_le : L ≤ K
  le_upper : K ≤ L + n
  le_length : K ≤ blocks.length
  file : s.dataFile = blocks.drop K
  data : ∀ k, L ≤ k → k < K → ∃ packet block, blocks[k]? = some block ∧ m k = some packet ∧
    packet.Carries o k dataPacketFlag block
  eof : ∀ packet, m K = some packet → K = blocks.length ∧ ∃ junk, packet.Carries o K eofFlag [junk]
  above : ∀ k, K < k → m k = none
  beforeEof : s.point.beforeEof = true → m K = none
  endOfFileWait : ∀ count, s.point = .endOfFileWait count → m K ≠ none
  poised : s.Poised

section
variable {s s' : Server} {n L K : Nat} {blocks : List Bytes} {m : Nat → Option Packet}

theorem Holds.start {bufferSize : Int} {client : Addr} (hn : 0 < n) (hmax : n < 2147483648)
    (h : start n bufferSize blocks client = .ok s) :
    s.Holds o n blocks 0 0 fun _ => none := by
  obtain ⟨hwindow, hpoint, hfile, -, -⟩ := of_start h
  have hcurrent : s.window.current = (0 : Nat) := by
    rw [makeWindow, dif_pos (by omega)] at hwindow
    rw [← Option.some.inj hwindow]
    rfl
  exact {
    shows := WindowArray.Shows.make hn hmax hwindow
    current := hcurrent
    lower_le := Nat.le_refl 0
    le_upper := Nat.zero_le _
    le_length := Nat.zero_le _
    file := hfile
    data := fun k _ hk => absurd hk (Nat.not_lt_zero k)
    eof := fun _ h => (by cases h)
    above := fun _ _ => rfl
    beforeEof := fun _ => rfl
    endOfFileWait := fun _ h => absurd (hpoint.symm.trans h) (by simp)
    poised := poised_of_windowOpen hpoint }

/-! ## The window's edges -/

theorem Holds.mem (h : s.Holds o n blocks L K m) {k : Nat} {packet : Packet}
    (hk : m k = some packet) : L ≤ k ∧ k ≤ K := by
  refine ⟨(h.shows.mem_window hk).1, ?_⟩
  by_contra hlt
  rw [h.above k (by omega)] at hk
  cases hk

theorem Holds.checkWindowOpen (h : s.Holds o n blocks L K m) :
    s.window.checkWindowOpen = true ↔ K < L + n := by
  have hupper := h.shows.upper
  have hcurrent := h.current
  rw [WindowArray.checkWindowOpen, decide_eq_true_iff]
  omega

/-- At its timeouts the child is past `lower`, or waits with the EOF at `lower`. -/
theorem Holds.lower_isSome (h : s.Holds o n blocks L K m)
    (hpoint : (∃ count, s.point = .windowClosed count) ∨
      ∃ count, s.point = .endOfFileWait count) :
    ∃ packet, m L = some packet ∧ packet.sequenceNumber = L := by
  have hdata (hlt : L < K) : ∃ packet, m L = some packet ∧ packet.sequenceNumber = L := by
    obtain ⟨packet, block, _, hpacket, hcarries⟩ := h.data L (Nat.le_refl L) hlt
    exact ⟨packet, hpacket, hcarries.sequenceNumber⟩
  rcases hpoint with ⟨count, hpoint⟩ | ⟨count, hpoint⟩
  · -- A closed window is full, and it has at least one slot.
    have hclosed := (h.poised.windowClosed count hpoint).1
    have hfull : ¬ K < L + n := fun hlt => by
      rw [h.checkWindowOpen.mpr hlt] at hclosed
      cases hclosed
    have hpos := h.shows.pos
    exact hdata (by omega)
  · rcases Nat.lt_or_eq_of_le h.lower_le with hlt | rfl
    · exact hdata hlt
    · obtain ⟨packet, hpacket⟩ := Option.ne_none_iff_exists'.mp (h.endOfFileWait count hpoint)
      obtain ⟨-, junk, hcarries⟩ := h.eof packet hpacket
      exact ⟨packet, hpacket, hcarries.sequenceNumber⟩

/-! ## What the window holds -/

theorem Holds.carries (h : s.Holds o n blocks L K m) {k : Nat} {packet : Packet}
    (hk : m k = some packet) :
    (k < K ∧ ∃ block, blocks[k]? = some block ∧ packet.Carries o k dataPacketFlag block) ∨
    (k = K ∧ K = blocks.length ∧ ∃ junk, packet.Carries o K eofFlag [junk]) := by
  obtain ⟨hlow, hhigh⟩ := h.mem hk
  rcases Nat.lt_or_eq_of_le hhigh with hlt | rfl
  · obtain ⟨packet', block, hblock, hpacket', hcarries⟩ := h.data k hlow hlt
    cases hk.symm.trans hpacket'
    exact .inl ⟨hlt, block, hblock, hcarries⟩
  · exact .inr ⟨rfl, h.eof packet hk⟩

/-- What a resend of `x` finds in the slot of `x`: something of the window, and `x` itself if that
is not yet released. -/
theorem Holds.resent (h : s.Holds o n blocks L K m) {x : Nat} (hx : x < L + n) {flag : Byte}
    {buf : Bytes} (hresend : resendDataPacket o s.window (toUInt32 x) flag s.bufferSize = .ok buf) :
    ∃ k packet, m k = some packet ∧ (L ≤ x → k = x) ∧
      buf = encodePDU o (toUInt32 x) (packet.resentFlag flag) packet.payload := by
  have hrange := h.shows.range
  obtain ⟨i, packet, hindex, hslot, -, -, rfl⟩ := exists_of_resendDataPacket hresend
  rw [toInt32_toUInt32 (by omega) (by omega),
    WindowArray.index_eq h.shows.size h.shows.pos] at hindex
  cases hindex
  obtain ⟨k, hk, hk', hmod, hpacket⟩ := h.shows.slot_some hslot
  -- `k` and `x` share a slot, which two numbers of one window never do.
  refine ⟨k, packet, hpacket, fun hlow => ?_, rfl⟩
  by_contra hne
  exact RingBuffer.mod_ne_of_window hk hk' hlow hx hne hmod

/-! ## Steps -/

/-- A step that leaves window and file alone. -/
theorem Holds.continues (h : s.Holds o n blocks L K m) (hwindow : s'.window = s.window)
    (hcontinues : s.Continues s') (hpoised : s'.Poised) : s'.Holds o n blocks L K m where
  shows := hwindow ▸ h.shows
  current := hwindow ▸ h.current
  lower_le := h.lower_le
  le_upper := h.le_upper
  le_length := h.le_length
  file := hcontinues.file.trans h.file
  data := h.data
  eof := h.eof
  above := h.above
  beforeEof := fun hbefore => h.beforeEof (hcontinues.beforeEof hbefore)
  endOfFileWait := fun count hpoint => by
    obtain ⟨count', hpoint'⟩ := hcontinues.endOfFileWait count hpoint
    exact h.endOfFileWait count' hpoint'
  poised := hpoised

/-- A step that sends the next block. -/
theorem Holds.sent (h : s.Holds o n blocks L K m) {payload buf : Bytes} {rest : List Bytes}
    {w : WindowArray} (hpoint : s.point = .windowOpen) (hopen : s.window.checkWindowOpen = true)
    (hfile : s.dataFile = payload :: rest)
    (hsend : sendDataPacket o s.window payload = .ok (w, buf)) :
    blocks[K]? = some payload ∧ K < L + n ∧
      buf = encodePDU o (toUInt32 K) dataPacketFlag payload ∧ ∃ packet,
      packet.Carries o K dataPacketFlag payload ∧
      Holds o { s with point := .windowOpenPoll, window := w, dataFile := rest } n blocks L (K + 1)
        (Function.update m K (some packet)) := by
  have hlt := h.checkWindowOpen.mp hopen
  have hnone : m K = none := h.beforeEof (by rw [hpoint]; rfl)
  have hdrop : blocks.drop K = payload :: rest := h.file.symm.trans hfile
  have hget : blocks[K]? = some payload := by
    rw [← List.head?_drop, hdrop, List.head?_cons]
  have hlen := length_le_of_sendDataPacket h.shows h.current h.lower_le hlt hnone hsend
  obtain ⟨packet, w', hcarries, hsend', hshows, hcurrent⟩ :=
    sendDataPacket_eq (o := o) h.shows h.current h.lower_le hlt hnone hlen
  cases hsend.symm.trans hsend'
  refine ⟨hget, hlt, rfl, packet, hcarries, ?_⟩
  have hKlt : K < blocks.length := (List.getElem?_eq_some_iff.mp hget).1
  exact {
    shows := hshows
    current := hcurrent
    lower_le := Nat.le_succ_of_le h.lower_le
    le_upper := hlt
    le_length := hKlt
    file := by
      show rest = _
      rw [← List.drop_drop, hdrop]
      rfl
    data := by
      intro k hk hk'
      rcases Nat.lt_or_eq_of_le (Nat.le_of_lt_succ hk') with hlt | rfl
      · rw [Function.update_of_ne (Nat.ne_of_lt hlt)]
        exact h.data k hk hlt
      · exact ⟨packet, payload, hget, Function.update_self .., hcarries⟩
    eof := by
      intro packet' hpacket'
      rw [Function.update_of_ne (by omega), h.above _ (by omega)] at hpacket'
      cases hpacket'
    above := by
      intro k hk
      rw [Function.update_of_ne (by omega)]
      exact h.above k (by omega)
    beforeEof := fun _ => by
      rw [Function.update_of_ne (by omega)]
      exact h.above _ (by omega)
    endOfFileWait := fun _ hc => (by cases hc)
    poised := ⟨fun _ hc => (by cases hc), fun hc => (by cases hc), fun _ hc => (by cases hc)⟩ }

/-- The step that sends the EOF. -/
theorem Holds.sentEof (h : s.Holds o n blocks L K m) {buf : Bytes} {junk : Byte}
    {w : WindowArray} (hpoint : s.point = .endOfFile)
    (hsend : RemoteCopy.sendEof o s.window junk = .ok (w, buf)) :
    K = blocks.length ∧ K < L + n ∧ buf = encodePDU o (toUInt32 K) eofFlag [junk] ∧ ∃ packet,
      packet.Carries o K eofFlag [junk] ∧
      Holds o { s with point := .endOfFileWait 0, window := w } n blocks L K
        (Function.update m K (some packet)) := by
  obtain ⟨hnil, hopen, -⟩ := h.poised.endOfFile hpoint
  have hlt := h.checkWindowOpen.mp hopen
  have hnone : m K = none := h.beforeEof (by rw [hpoint]; rfl)
  have hend : K = blocks.length := by
    have hle := List.drop_eq_nil_iff.mp (h.file.symm.trans hnil)
    exact Nat.le_antisymm h.le_length hle
  obtain ⟨packet, w', hcarries, hsend', hshows, hcurrent⟩ :=
    sendEof_eq (o := o) h.shows h.current h.lower_le hlt hnone junk
  cases hsend.symm.trans hsend'
  refine ⟨hend, hlt, rfl, packet, hcarries, ?_⟩
  exact {
    shows := hshows
    current := hcurrent
    lower_le := h.lower_le
    le_upper := h.le_upper
    le_length := h.le_length
    file := h.file
    data := by
      intro k hk hk'
      rw [Function.update_of_ne (Nat.ne_of_lt hk')]
      exact h.data k hk hk'
    eof := by
      intro packet' hpacket'
      rw [Function.update_self] at hpacket'
      cases hpacket'
      exact ⟨hend, junk, hcarries⟩
    above := by
      intro k hk
      rw [Function.update_of_ne (by omega)]
      exact h.above k hk
    beforeEof := fun hc => (by cases hc)
    endOfFileWait := fun _ _ => by
      rw [Function.update_self]
      exact Option.some_ne_none packet
    poised := poised_endOfFileLoop { s with window := w } 0 }

/-- A step that releases what is acknowledged, up to `current` at most. -/
theorem Holds.released (h : s.Holds o n blocks L K m) {rr : Int}
    (hclean : cleaningUpWithRR s.window rr = .ok s'.window) (hrr : rr.toNat ≤ K)
    (hcontinues : s.Continues s') (hpoised : s'.Poised) :
    s'.Holds o n blocks (max L rr.toNat) K (release m rr.toNat) := by
  have hrange := range_of_cleaningUpWithRR h.shows hclean
  obtain ⟨w, hclean', hshows, hcurrent⟩ := cleaningUpWithRR_eq h.shows hrange
  cases hclean.symm.trans hclean'
  have hle := h.lower_le
  have hup := h.le_upper
  have hrelease : ∀ k, rr.toNat ≤ k → release m rr.toNat k = m k := fun k hk => if_pos hk
  exact {
    shows := hshows
    current := hcurrent.trans h.current
    lower_le := Nat.max_le.mpr ⟨hle, hrr⟩
    le_upper := by omega
    le_length := h.le_length
    file := hcontinues.file.trans h.file
    data := by
      intro k hk hk'
      rw [hrelease k (by omega)]
      exact h.data k (by omega) hk'
    eof := by
      intro packet hpacket
      rw [hrelease K hrr] at hpacket
      exact h.eof packet hpacket
    above := by
      intro k hk
      rw [hrelease k (by omega)]
      exact h.above k hk
    beforeEof := fun hbefore => by
      rw [hrelease K hrr]
      exact h.beforeEof (hcontinues.beforeEof hbefore)
    endOfFileWait := fun count hpoint => by
      obtain ⟨count', hpoint'⟩ := hcontinues.endOfFileWait count hpoint
      rw [hrelease K hrr]
      exact h.endOfFileWait count' hpoint'
    poised := hpoised }

/-- An RR beyond `current` leaves `lower` beyond `current`. -/
theorem Holds.overrun (h : s.Holds o n blocks L K m) {rr : Int}
    (hclean : cleaningUpWithRR s.window rr = .ok s'.window) (hrr : K < rr.toNat) :
    s'.window.current < s'.window.lower := by
  have hrange := range_of_cleaningUpWithRR h.shows hclean
  obtain ⟨w, hclean', hshows, hcurrent⟩ := cleaningUpWithRR_eq h.shows hrange
  cases hclean.symm.trans hclean'
  rw [hcurrent, h.current, hshows.lower]
  omega

/-! ## Steps that return -/

/-- A resend returns if the slot is occupied: what the window holds fits the buffer. -/
theorem Holds.resend_returns (h : s.Holds o n blocks L K m)
    (hfit : ∀ block ∈ blocks, (block.length : Int) ≤ s.bufferSize) (hsize : 0 < s.bufferSize)
    (hroom : pduHeaderLen + s.bufferSize < 2147483648) {x : Nat} {packet : Packet}
    (hx : m x = some packet) (flag : Byte) :
    resendDataPacket o s.window (toUInt32 x) flag s.bufferSize
      = .ok (encodePDU o (toUInt32 x) (packet.resentFlag flag) packet.payload) := by
  have hrange := h.shows.range
  obtain ⟨hlow, hhigh⟩ := h.shows.mem_window hx
  have hindex : s.window.index (toInt32 (toUInt32 (x : Int))) = .ok (x % n) := by
    rw [toInt32_toUInt32 (by omega) (by omega), WindowArray.index_eq h.shows.size h.shows.pos]
  have hslot : s.window.slot (x % n) = some packet := by rw [h.shows.slot_eq hlow hhigh, hx]
  have hlen : pduHeaderLen ≤ packet.pdu.length ∧
      (packet.pdu.length : Int) ≤ pduHeaderLen + s.bufferSize := by
    rcases h.carries hx with ⟨-, block, hblock, hcarries⟩ | ⟨-, -, junk, hcarries⟩
    · have := hfit block (List.mem_of_getElem? hblock)
      rw [hcarries.pdu, length_encodePDU]
      omega
    · rw [hcarries.pdu, length_encodePDU, List.length_singleton]
      omega
  exact resendDataPacket_some hindex hslot hlen.1 hlen.2 hroom

theorem Holds.windowOpen_returns (h : s.Holds o n blocks L K m)
    (hfit : ∀ block ∈ blocks, block.length ≤ 1400) (hsize : 0 < s.bufferSize)
    (hpoint : s.point = .windowOpen) (readFails : Bool) :
    ∃ s' ds, s.windowOpen o readFails = .ok (s', ds) := by
  unfold windowOpen
  by_cases hopen : s.window.checkWindowOpen = true
  · rw [if_pos hopen, if_neg (Int.not_le.mpr hsize)]
    split
    · exact ⟨_, _, rfl⟩
    · split
      · exact ⟨_, _, rfl⟩
      · next payload rest hfile =>
          have hmem : payload ∈ blocks := by
            apply List.mem_of_mem_drop (i := K)
            rw [← h.file, hfile]
            exact List.mem_cons_self
          obtain ⟨packet, w, -, hsend, -⟩ := sendDataPacket_eq (o := o) h.shows h.current
            h.lower_le (h.checkWindowOpen.mp hopen) (h.beforeEof (by rw [hpoint]; rfl))
            (hfit payload hmem)
          rw [hsend]
          exact ⟨_, _, rfl⟩
  · rw [if_neg hopen]
    exact ⟨_, _, rfl⟩

theorem Holds.endOfFile_returns (h : s.Holds o n blocks L K m) (hpoint : s.point = .endOfFile)
    (junk : Byte) : ∃ s' ds, s.endOfFile o junk = .ok (s', ds) := by
  obtain ⟨-, hopen, -⟩ := h.poised.endOfFile hpoint
  obtain ⟨packet, w, -, hsend, -⟩ := sendEof_eq (o := o) h.shows h.current h.lower_le
    (h.checkWindowOpen.mp hopen) (h.beforeEof (by rw [hpoint]; rfl)) junk
  rw [endOfFile, hsend]
  exact ⟨_, _, rfl⟩

/-- A step returns if the resends and the releases it may need do. -/
theorem Holds.step_returns (h : s.Holds o n blocks L K m)
    (hfit : ∀ block ∈ blocks, block.length ≤ 1400) (hsize : 0 < s.bufferSize) {i : ServerInput}
    (hrr : ∀ src stale datagram rr, i = .poll (.received src stale datagram) →
      receiveControl o stale datagram = .rr rr → ∃ w, cleaningUpWithRR s.window rr = .ok w)
    (hresend : ∀ number flag, ResendCause o s i number flag →
      ∃ buf, resendDataPacket o s.window (toUInt32 number) flag s.bufferSize = .ok buf)
    {y : C (Server × List Datagram)} (hy : s.step o i = some y) :
    ∃ s' ds, y = .ok (s', ds) := by
  cases i with
  | run readFails junk =>
      rcases point_of_step_run hy with hpoint | hpoint
      · rw [step_windowOpen hpoint] at hy
        cases hy
        exact h.windowOpen_returns hfit hsize hpoint readFails
      · rw [step_endOfFile hpoint] at hy
        cases hy
        exact h.endOfFile_returns hpoint junk
  | poll p =>
      have hpoll := polls_of_step hy
      cases p with
      | timeout =>
          -- A timeout is followed by a resend of `lower`, but for the poll of `window_open`.
          rcases hpoll with hpoint | ⟨count, hpoint⟩ | ⟨count, hpoint⟩
          · rw [step_windowOpenPoll hpoint] at hy
            cases hy
            exact ⟨_, _, rfl⟩
          · obtain ⟨buf, hbuf⟩ := hresend _ _ (.timeout (.inl ⟨count, hpoint⟩))
            rw [step_windowClosed hpoint] at hy
            cases hy
            rw [windowClosed, resend, hbuf]
            exact ⟨_, _, rfl⟩
          · obtain ⟨buf, hbuf⟩ := hresend _ _ (.timeout (.inr ⟨count, hpoint⟩))
            rw [step_endOfFileWait hpoint] at hy
            cases hy
            rw [Server.endOfFileWait, resend, hbuf]
            exact ⟨_, _, rfl⟩
      | received src stale datagram =>
          cases hcontrol : receiveControl o stale datagram with
          | rr rr =>
              obtain ⟨w, hclean⟩ := hrr src stale datagram rr rfl hcontrol
              obtain ⟨next, -, hrun⟩ := step_rr hpoll src hcontrol
              rw [hclean] at hrun
              cases hrun.symm.trans hy
              exact ⟨_, _, rfl⟩
          | srej number =>
              obtain ⟨buf, hbuf⟩ := hresend _ _ (.srej hcontrol)
              obtain ⟨s', -, hrun⟩ := step_srej hpoll src hcontrol
              rw [hbuf] at hrun
              cases hrun.symm.trans hy
              exact ⟨_, _, rfl⟩
          | rejected => exact step_control_returns (.inl hcontrol) hy
          | eofAck => exact step_control_returns (.inr (.inl hcontrol)) hy
          | other => exact step_control_returns (.inr (.inr hcontrol)) hy

/-! ## Any acknowledgement -/

/-- The number in an RR that the child receives is at most `current`. -/
def AcknowledgesSent (o : ByteOrder) (s : Server) (i : ServerInput) : Prop :=
  ∀ src stale datagram rr, i = .poll (.received src stale datagram) →
    receiveControl o stale datagram = .rr rr → rr ≤ s.window.current

instance (o : ByteOrder) (s : Server) : DecidablePred (AcknowledgesSent o s)
  | .run _ _ => isTrue fun _ _ _ _ hi => by cases hi
  | .poll .timeout => isTrue fun _ _ _ _ hi => by cases hi
  | .poll (.received _ stale datagram) =>
      match hcontrol : receiveControl o stale datagram with
      | .rr rr => decidable_of_iff (rr ≤ s.window.current)
          ⟨fun hle _ _ _ _ hi hrr => by cases hi; cases hcontrol.symm.trans hrr; exact hle,
            fun h => h _ _ _ rr rfl hcontrol⟩
      | .rejected | .srej _ | .eofAck | .other =>
          isTrue fun _ _ _ _ hi hrr => by cases hi; cases hcontrol.symm.trans hrr

/-- **The invariant is inductive** as long as only what was sent is acknowledged. -/
theorem Holds.step (h : s.Holds o n blocks L K m) {i : ServerInput} {ds : List Datagram}
    (hstep : s.step o i = some (.ok (s', ds))) (hrr : AcknowledgesSent o s i) :
    ∃ L' K' m', s'.Holds o n blocks L' K' m' := by
  obtain ⟨heffect, hpoised, -, -⟩ := stepped hstep
  cases heffect with
  | idle hwindow hcontinues hack => exact ⟨L, K, m, h.continues hwindow hcontinues hpoised⟩
  | sent hpoint hopen hfile hsend =>
      obtain ⟨-, -, -, packet, -, h'⟩ := h.sent hpoint hopen hfile hsend
      exact ⟨_, _, _, h'⟩
  | sentEof hpoint hsend =>
      obtain ⟨-, -, -, packet, -, h'⟩ := h.sentEof hpoint hsend
      exact ⟨_, _, _, h'⟩
  | @released src stale datagram rr _ hcontrol hclean hcontinues hdone =>
      -- The one step that could leave `lower` beyond `current`.
      have hle := hrr src stale datagram rr rfl hcontrol
      rw [h.current] at hle
      exact ⟨_, _, _, h.released hclean (by omega) hcontinues hpoised⟩
  | resent hcause hresend hwindow hcontinues hack =>
      exact ⟨L, K, m, h.continues hwindow hcontinues hpoised⟩

/-- The runs of the child in which only what was sent is acknowledged. -/
abbrev honestSystem (o : ByteOrder) (s₀ : Server) : System Server (ServerInput × List Datagram) :=
  (system o s₀).restrict fun s l => AcknowledgesSent o s l.1

theorem holds_of_reachable {s₀ : Server} {bufferSize : Int} {client : Addr} (hn : 0 < n)
    (hmax : n < 2147483648) (hstart : start n bufferSize blocks client = .ok s₀)
    (h : (honestSystem o s₀).Reachable s) : ∃ L K m, s.Holds o n blocks L K m := by
  refine System.Reachable.invariant (P := fun s => ∃ L K m, s.Holds o n blocks L K m) ?_ ?_ h
  · intro s hs
    cases hs
    exact ⟨0, 0, _, Holds.start hn hmax hstart⟩
  · rintro s i s' - ⟨L, K, m, h⟩ ⟨hrr, hstep⟩
    exact h.step hstep hrr

end

end Server

end RemoteCopy

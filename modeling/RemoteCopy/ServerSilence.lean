import RemoteCopy.Recovery
import RemoteCopy.Library.Drive

/-!
# When the client goes silent

From some state on the child receives nothing: every poll times out. It fills its window, sends the
EOF if the file ends before that, and gives up after ten resends. What can go wrong on the way is
the copy of a block into the window, which is as long as the request wanted it, and the size of the
buffers for a resend, which is a sum (`Server.stopsIn_iff`).
-/

namespace RemoteCopy

open Drive

namespace Server

variable {o : ByteOrder} {s s' : Server} {n L K : Nat} {blocks : List Bytes}
  {m : Nat → Option Packet}

/-- The step of a child that receives nothing. Whether a `read` fails, and the payload of the EOF,
are up to its host. -/
def silent (o : ByteOrder) (s : Server) (host : Bool × Byte) :
    Option (C (Server × List Datagram)) :=
  match s.point with
  | .windowOpen | .endOfFile => s.step o (.run host.1 host.2)
  | _ => s.step o (.poll .timeout)

/-- The PDU at `lower`, sent again. -/
def Resent (o : ByteOrder) (s : Server) (d : Datagram) : Prop :=
  ∃ j packet, s.window.index s.window.lower = .ok j ∧ s.window.slot j = some packet ∧
    packet.sequenceNumber = s.window.lower ∧
    d = ⟨s.client, encodePDU o (toUInt32 s.window.lower)
      (packet.resentFlag resentTimeoutDataPacketFlag) packet.payload⟩

/-- From `s` to its end in `s'` the child sends the next blocks, as many as its window has room for
at most, the EOF at most once and the PDU at `lower` ten times at most. -/
structure Fades (o : ByteOrder) (s s' : Server) (blocks eofs resends : List Datagram) : Prop where
  done : ∃ why, s'.point = .done why
  lower : s'.window.lower = s.window.lower
  blocks_le : (blocks.length : Int) ≤ s.window.upper - s.window.current
  blocks_get : ∀ (j : Nat) d, blocks[j]? = some d → ∃ payload, s.dataFile[j]? = some payload ∧
    d = ⟨s.client, encodePDU o (toUInt32 (s.window.current + j)) dataPacketFlag payload⟩
  eofs_le : eofs.length ≤ 1
  eofs_get : ∀ d ∈ eofs, ∃ junk, d = ⟨s.client,
    encodePDU o (toUInt32 (s.window.current + blocks.length)) eofFlag [junk]⟩
  resends_le : resends.length ≤ 10
  resends_get : ∀ d ∈ resends, s'.Resent o d

/-- What the child sends until it ends, in this order. -/
def FadesOut (o : ByteOrder) (s s' : Server) (ds : List Datagram) : Prop :=
  ∃ blocks eofs resends, ds = blocks ++ eofs ++ resends ∧ Fades o s s' blocks eofs resends

/-! ## Waiting -/

theorem resend_eq (h : s.Holds o n blocks L K m) (hsize : 0 < s.bufferSize)
    (hroom : pduHeaderLen + s.bufferSize < 2147483648)
    (hfit : ∀ block ∈ blocks, (block.length : Int) ≤ s.bufferSize)
    (hpoint : (∃ count, s.point = .windowClosed count) ∨
      ∃ count, s.point = .endOfFileWait count) :
    ∃ d, s.resend o s.window.lower resentTimeoutDataPacketFlag = .ok d ∧ s.Resent o d := by
  have hrange := h.shows.range
  have hpos := h.shows.pos
  obtain ⟨packet, hpacket, hnumber⟩ := h.lower_isSome hpoint
  have hresend := h.resend_returns hfit hsize hroom hpacket resentTimeoutDataPacketFlag
  refine ⟨_, by rw [resend, h.shows.lower, hresend]; rfl, L % n, packet, ?_, ?_, ?_, ?_⟩
  · rw [h.shows.lower, WindowArray.index_eq h.shows.size hpos]
  · rw [h.shows.slot_eq (Nat.le_refl L) (by omega), hpacket]
  · rw [h.shows.lower, hnumber]
  · rw [h.shows.lower]

/-- The timeout of a child that waits. -/
theorem silent_waits (h : s.Holds o n blocks L K m) (hsize : 0 < s.bufferSize)
    (hroom : pduHeaderLen + s.bufferSize < 2147483648)
    (hfit : ∀ block ∈ blocks, (block.length : Int) ≤ s.bufferSize) {waits : Nat → ServerPoint}
    (hwaits : waits = .windowClosed ∨ waits = .endOfFileWait) {count : Nat}
    (hpoint : s.point = waits count) (host : Bool × Byte) : ∃ d, s.Resent o d ∧
    s.silent o host = some (.ok ({ s with
      point := if count + 1 < 10 then waits (count + 1) else .done .gaveUp }, [d])) := by
  rcases hwaits with rfl | rfl
  · obtain ⟨d, hresend, hresent⟩ := resend_eq h hsize hroom hfit (.inl ⟨count, hpoint⟩)
    obtain ⟨hclosed, hcount⟩ := h.poised.windowClosed count hpoint
    refine ⟨d, hresent, ?_⟩
    simp only [silent, step, hpoint, windowClosed, hresend, C.ok_bind, C.pure_eq, windowClosedLoop,
      hclosed, true_and]
    by_cases hlt : count + 1 < 10
    · rw [if_pos hlt, if_pos hlt]
    · rw [if_neg hlt, if_neg hlt, if_pos (by omega)]
  · obtain ⟨d, hresend, hresent⟩ := resend_eq h hsize hroom hfit (.inr ⟨count, hpoint⟩)
    refine ⟨d, hresent, ?_⟩
    simp only [silent, step, hpoint, endOfFileWait, hresend, C.ok_bind, C.pure_eq, endOfFileLoop]
    by_cases hlt : count + 1 < 10
    · rw [if_pos hlt, if_pos hlt]
    · rw [if_neg hlt, if_neg hlt]

/-- A child that is done does nothing more. -/
theorem silent_done {why : ServerExit} (hpoint : s.point = .done why) (host : Bool × Byte) :
    s.silent o host = none := by
  simp only [silent, step, hpoint]

theorem silent_eq_step (s : Server) (host : Bool × Byte) :
    ∃ i, s.silent o host = s.step o i ∧ ∀ src stale datagram,
      i ≠ .poll (.received src stale datagram) := by
  unfold silent
  split
  · exact ⟨.run host.1 host.2, rfl, fun _ _ _ hc => (by cases hc)⟩
  · exact ⟨.run host.1 host.2, rfl, fun _ _ _ hc => (by cases hc)⟩
  · exact ⟨.poll .timeout, rfl, fun _ _ _ hc => (by cases hc)⟩

/-- The invariant needs no acknowledgement. -/
theorem Holds.silent (h : s.Holds o n blocks L K m) {host : Bool × Byte} {ds : List Datagram}
    (hstep : s.silent o host = some (.ok (s', ds))) :
    ∃ L' K' m', s'.Holds o n blocks L' K' m' := by
  obtain ⟨i, heq, hsilent⟩ := silent_eq_step (o := o) s host
  rw [heq] at hstep
  exact h.step hstep fun src stale datagram rr hi => absurd hi (hsilent src stale datagram)

/-- **A waiting child gives up** after as many resends as its count leaves. -/
theorem stopsIn_waits {waits : Nat → ServerPoint}
    (hwaits : waits = .windowClosed ∨ waits = .endOfFileWait) (k : Nat) :
    ∀ {s : Server} {L K : Nat} {m : Nat → Option Packet} {count : Nat},
    s.Holds o n blocks L K m → 0 < s.bufferSize → pduHeaderLen + s.bufferSize < 2147483648 →
    (∀ block ∈ blocks, (block.length : Int) ≤ s.bufferSize) → s.point = waits count →
    count + (k + 1) = 10 →
    StopsIn (Server.silent o) (k + 1) (fun s' ds => (∃ why, s'.point = .done why) ∧
      s'.window = s.window ∧ s'.client = s.client ∧ ds.length ≤ k + 1 ∧ ∀ d ∈ ds, s.Resent o d)
      s := by
  -- By induction on the timeouts left.
  induction k with
  | zero =>
      intro s L K m count h hsize hroom hfit hpoint hcount
      refine .next fun host => ?_
      obtain ⟨d, hresent, hstep⟩ := silent_waits h hsize hroom hfit hwaits hpoint host
      rw [if_neg (by omega)] at hstep
      refine ⟨_, _, hstep, .now (silent_done rfl) ⟨⟨_, rfl⟩, rfl, rfl, Nat.le_refl 1, ?_⟩⟩
      exact fun d' hd' => List.mem_singleton.mp hd' ▸ hresent
  | succ k ih =>
      intro s L K m count h hsize hroom hfit hpoint hcount
      refine .next fun host => ?_
      obtain ⟨d, hresent, hstep⟩ := silent_waits h hsize hroom hfit hwaits hpoint host
      rw [if_pos (by omega)] at hstep
      obtain ⟨L', K', m', h'⟩ := h.silent hstep
      have hrest := ih h' hsize hroom hfit rfl (by omega)
      refine ⟨_, _, hstep, hrest.mono (Nat.le_refl _) fun s' ds hQ => ?_⟩
      obtain ⟨hdone, hwindow, hclient, hlen, hresends⟩ := hQ
      refine ⟨hdone, hwindow, hclient, Nat.succ_le_succ hlen, fun d' hd' => ?_⟩
      rcases List.mem_cons.mp hd' with rfl | hd'
      · exact hresent
      · exact hresends d' hd'

/-! ## Sending -/

/-- At what point the child is plays no part. -/
theorem FadesOut.congr {t : Server} {ds : List Datagram} (h : t.FadesOut o s' ds)
    (hwindow : t.window = s.window) (hfile : t.dataFile = s.dataFile)
    (hclient : t.client = s.client) : s.FadesOut o s' ds := by
  obtain ⟨blocks, eofs, resends, hds, hfades⟩ := h
  refine ⟨blocks, eofs, resends, hds, ⟨hfades.done, ?_, ?_, ?_, hfades.eofs_le, ?_,
    hfades.resends_le, hfades.resends_get⟩⟩
  · rw [← hwindow]
    exact hfades.lower
  · rw [← hwindow]
    exact hfades.blocks_le
  · rw [← hwindow, ← hfile, ← hclient]
    exact hfades.blocks_get
  · rw [← hwindow, ← hclient]
    exact hfades.eofs_get

/-- A child that waits sends nothing but resends. -/
theorem fadesOut_waits {ds : List Datagram} (hle : s.window.current ≤ s.window.upper)
    (h : (∃ why, s'.point = .done why) ∧ s'.window = s.window ∧ s'.client = s.client ∧
      ds.length ≤ 10 ∧ ∀ d ∈ ds, s.Resent o d) : s.FadesOut o s' ds := by
  obtain ⟨hdone, hwindow, hclient, hlen, hresends⟩ := h
  refine ⟨[], [], ds, rfl, ⟨hdone, by rw [hwindow], ?_, fun j d hd => (by cases hd),
    Nat.zero_le 1, fun d hd => (by cases hd), hlen, fun d hd => ?_⟩⟩
  · show (0 : Int) ≤ _
    omega
  · obtain ⟨j, packet, hindex, hslot, hnumber, rfl⟩ := hresends d hd
    exact ⟨j, packet, by rw [hwindow]; exact hindex, by rw [hwindow]; exact hslot,
      by rw [hwindow]; exact hnumber, by rw [hwindow, hclient]⟩

/-- The child sends nothing, and is done. -/
theorem fadesOut_done {why : ServerExit} (hle : s.window.current ≤ s.window.upper)
    (hpoint : s'.point = .done why) (hwindow : s'.window = s.window)
    (hclient : s'.client = s.client) : s.FadesOut o s' [] :=
  fadesOut_waits hle ⟨⟨why, hpoint⟩, hwindow, hclient, Nat.zero_le 10, fun _ hd => (by cases hd)⟩

/-- The EOF first. -/
theorem fadesOut_eof {s₁ : Server} {junk : Byte} {ds : List Datagram}
    (hle : s.window.current ≤ s.window.upper) (hlower : s₁.window.lower = s.window.lower)
    (h : (∃ why, s'.point = .done why) ∧ s'.window = s₁.window ∧ s'.client = s₁.client ∧
      ds.length ≤ 10 ∧ ∀ d ∈ ds, s₁.Resent o d) :
    s.FadesOut o s' (⟨s.client, encodePDU o (toUInt32 s.window.current) eofFlag [junk]⟩ :: ds) := by
  obtain ⟨hdone, hwindow, hclient, hlen, hresends⟩ := h
  refine ⟨[], [_], ds, rfl, ⟨hdone, by rw [hwindow, hlower], ?_, fun j d hd => (by cases hd),
    Nat.le_refl 1, fun d hd => ⟨junk, ?_⟩, hlen, fun d hd => ?_⟩⟩
  · show (0 : Int) ≤ _
    omega
  · rw [List.mem_singleton.mp hd]
    show _ = Datagram.mk s.client (encodePDU o (toUInt32 (s.window.current + 0)) eofFlag [junk])
    rw [Int.add_zero]
  · obtain ⟨j, packet, hindex, hslot, hnumber, rfl⟩ := hresends d hd
    exact ⟨j, packet, by rw [hwindow]; exact hindex, by rw [hwindow]; exact hslot,
      by rw [hwindow]; exact hnumber, by rw [hwindow, hclient]⟩

/-- A block first. -/
theorem FadesOut.block {s₁ : Server} {payload : Bytes} {ds : List Datagram}
    (h : s₁.FadesOut o s' ds) (hfile : s.dataFile = payload :: s₁.dataFile)
    (hlower : s₁.window.lower = s.window.lower) (hupper : s₁.window.upper = s.window.upper)
    (hcurrent : s₁.window.current = s.window.current + 1) (hclient : s₁.client = s.client) :
    s.FadesOut o s'
      (⟨s.client, encodePDU o (toUInt32 s.window.current) dataPacketFlag payload⟩ :: ds) := by
  obtain ⟨blocks, eofs, resends, rfl, hfades⟩ := h
  refine ⟨_ :: blocks, eofs, resends, rfl, ⟨hfades.done, hfades.lower.trans hlower, ?_,
    fun j d hd => ?_, hfades.eofs_le, fun d hd => ?_, hfades.resends_le, hfades.resends_get⟩⟩
  · have hlen := hfades.blocks_le
    rw [List.length_cons]
    omega
  · cases j with
    | zero =>
        cases hd
        refine ⟨payload, by rw [hfile]; rfl, ?_⟩
        show _ = Datagram.mk s.client
          (encodePDU o (toUInt32 (s.window.current + 0)) dataPacketFlag payload)
        rw [Int.add_zero]
    | succ j =>
        obtain ⟨payload', hget, rfl⟩ := hfades.blocks_get j d hd
        refine ⟨payload', by rw [hfile, List.getElem?_cons_succ, hget], ?_⟩
        rw [hclient, hcurrent, Int.natCast_succ, Int.add_assoc, Int.add_comm 1]
  · obtain ⟨junk, rfl⟩ := hfades.eofs_get d hd
    refine ⟨junk, ?_⟩
    rw [hclient, hcurrent, List.length_cons, Int.natCast_succ, Int.add_assoc, Int.add_comm 1]

theorem Holds.current_le (h : s.Holds o n blocks L K m) :
    s.window.current ≤ s.window.upper := by
  have hle := h.le_upper
  rw [h.current, h.shows.upper]
  omega

theorem stopsIn_endOfFile (h : s.Holds o n blocks L K m) (hsize : 0 < s.bufferSize)
    (hroom : pduHeaderLen + s.bufferSize < 2147483648)
    (hfit : ∀ block ∈ blocks, (block.length : Int) ≤ s.bufferSize) (hpoint : s.point = .endOfFile) :
    StopsIn (Server.silent o) 11 (s.FadesOut o) s := by
  obtain ⟨-, hopen, -⟩ := h.poised.endOfFile hpoint
  refine .next fun host => ?_
  obtain ⟨packet, w, -, hsend, hshows, -⟩ := sendEof_eq (o := o) h.shows h.current h.lower_le
    (h.checkWindowOpen.mp hopen) (h.beforeEof (by rw [hpoint]; rfl)) host.2
  obtain ⟨-, -, -, packet', -, h'⟩ := h.sentEof hpoint hsend
  have hrest := stopsIn_waits (.inr rfl) 9 h' hsize hroom hfit rfl rfl
  refine ⟨_, [⟨s.client, encodePDU o (toUInt32 s.window.current) eofFlag [host.2]⟩], ?_,
    hrest.mono (Nat.le_refl _) fun s' ds hQ => ?_⟩
  · simp only [silent, step, hpoint, endOfFile, hsend, h.current]
    rfl
  · exact fadesOut_eof h.current_le (hshows.lower.trans h.shows.lower.symm) hQ

/-- What the child may still do fits: the size of its buffers for a resend is an `int32_t`; and
while its window is open, the array that a block is read into has a size, and each of the next
blocks has a place in a `packet`. -/
structure NextFit (s : Server) : Prop where
  resend : (∀ why, s.point ≠ .done why) → pduHeaderLen + s.bufferSize < 2147483648
  read : s.point = .windowOpen ∨ s.point = .windowOpenPoll → s.window.current < s.window.upper →
    0 < s.bufferSize ∧
      ∀ block ∈ s.dataFile.take (s.window.upper - s.window.current).toNat, block.length ≤ 1400

/-- Of a window that is full nothing more is asked. -/
theorem NextFit.le (h : s.NextFit) (hpoint : s.point = .windowOpen ∨ s.point = .windowOpenPoll) :
    ∀ block ∈ s.dataFile.take (s.window.upper - s.window.current).toNat,
      block.length ≤ 1400 := by
  intro block hb
  by_cases hopen : s.window.current < s.window.upper
  · exact (h.read hpoint hopen).2 block hb
  · rw [Int.toNat_of_nonpos (Int.sub_nonpos_of_le (Int.not_lt.mp hopen)), List.take_zero] at hb
    cases hb

/-- The poll between two blocks. -/
theorem silent_poll (hpoint : s.point = .windowOpenPoll) (host : Bool × Byte) :
    s.silent o host = some (.ok ({ s with point := .windowOpen }, [])) := by
  simp only [silent, hpoint]
  exact poll_windowOpen hpoint

theorem silent_run (hpoint : s.point = .windowOpen) (host : Bool × Byte) :
    s.silent o host = s.step o (.run host.1 host.2) := by
  simp only [silent, hpoint]

/-- A block that fits goes out. -/
theorem Holds.silent_block (h : s.Holds o n blocks L K m) (hsize : 0 < s.bufferSize)
    (hpoint : s.point = .windowOpen) (hopen : s.window.checkWindowOpen = true) {payload : Bytes}
    {rest : List Bytes} (hfile : s.dataFile = payload :: rest) (hlen : payload.length ≤ 1400) :
    ∃ w, w.lower = s.window.lower ∧ w.upper = s.window.upper ∧
      w.current = s.window.current + 1 ∧
      (∃ L' K' m', Server.Holds o { s with point := .windowOpen, window := w, dataFile := rest } n
        blocks L' K' m') ∧
      ∀ junk, s.silent o (false, junk) = some (.ok
        ({ s with point := .windowOpenPoll, window := w, dataFile := rest },
          [⟨s.client, encodePDU o (toUInt32 s.window.current) dataPacketFlag payload⟩])) := by
  obtain ⟨packet, w, -, hsend, hshows, hcurrent⟩ := sendDataPacket_eq (o := o) h.shows h.current
    h.lower_le (h.checkWindowOpen.mp hopen) (h.beforeEof (by rw [hpoint]; rfl)) hlen
  obtain ⟨-, -, -, packet', -, h'⟩ := h.sent hpoint hopen hfile hsend
  refine ⟨w, hshows.lower.trans h.shows.lower.symm, hshows.upper.trans h.shows.upper.symm, ?_,
    h'.silent (silent_poll rfl (false, 0)), fun junk => ?_⟩
  · rw [hcurrent, h.current, Int.natCast_succ]
  · rw [silent_run hpoint, Server.run_block hpoint hopen hsize hfile, hsend, h.current]
    rfl

/-- **A sending child fills its window and gives up**, if what it reads on the way fits. -/
theorem stopsIn_windowOpen (u : Nat) : ∀ {s : Server} {L K : Nat} {m : Nat → Option Packet},
    s.Holds o n blocks L K m → 0 < s.bufferSize → pduHeaderLen + s.bufferSize < 2147483648 →
    (∀ block ∈ blocks, (block.length : Int) ≤ s.bufferSize) → s.point = .windowOpen →
    s.window.upper - s.window.current = u →
    (∀ block ∈ s.dataFile.take u, block.length ≤ 1400) →
    StopsIn (Server.silent o) (2 * u + 12) (s.FadesOut o) s := by
  -- By induction on the room in the window.
  induction u with
  | zero =>
      intro s L K m h hsize hroom hfit hpoint hleft _
      have hclosed : s.window.checkWindowOpen = false := by
        rw [WindowArray.checkWindowOpen, decide_eq_false_iff_not]
        omega
      have hstep (host : Bool × Byte) :
          s.silent o host = some (.ok ({ s with point := .windowClosed 0 }, [])) := by
        rw [silent_run hpoint]
        exact run_closed hpoint hclosed host.1 host.2
      obtain ⟨L', K', m', h'⟩ := h.silent (hstep (false, 0))
      have hrest := stopsIn_waits (.inl rfl) 9 h' hsize hroom hfit rfl rfl
      refine StopsIn.mono (N := 11) (.next fun host => ⟨_, _, hstep host, ?_⟩) (by omega)
        fun _ _ hQ => hQ
      exact hrest.mono (Nat.le_refl _) fun s' ds hQ => fadesOut_waits h.current_le hQ
  | succ u ih =>
      intro s L K m h hsize hroom hfit hpoint hleft hnext
      have hopen : s.window.checkWindowOpen = true := by
        rw [WindowArray.checkWindowOpen, decide_eq_true_iff]
        omega
      refine .next fun host => ?_
      obtain ⟨readFails, junk⟩ := host
      cases readFails with
      | true =>
          have hfails : s.silent o (true, junk)
              = some (.ok ({ s with point := .done .readFailed }, [])) := by
            simp only [silent, step, hpoint, windowOpen, if_pos hopen,
              if_neg (Int.not_le.mpr hsize), if_true]
          exact ⟨_, _, hfails, StopsIn.mono (.now (silent_done rfl)
            (fadesOut_done h.current_le rfl rfl rfl)) (Nat.zero_le _) fun _ _ hQ => hQ⟩
      | false =>
          cases hfile : s.dataFile with
          | nil =>
              have hend : s.silent o (false, junk)
                  = some (.ok ({ s with point := .endOfFile }, [])) := by
                rw [silent_run hpoint]
                exact run_end hpoint hopen hsize hfile junk
              obtain ⟨L', K', m', h'⟩ := h.silent hend
              have hrest := stopsIn_endOfFile h' hsize hroom hfit rfl
              refine ⟨_, _, hend, hrest.mono (by omega) fun s' ds hQ => ?_⟩
              exact hQ.congr rfl rfl rfl
          | cons payload rest =>
              have hlen : payload.length ≤ 1400 := by
                apply hnext payload
                rw [hfile, List.take_succ_cons]
                exact List.mem_cons_self
              obtain ⟨w, hlower, hupper, hcurrent, ⟨L', K', m', h'⟩, hblock⟩ :=
                h.silent_block hsize hpoint hopen hfile hlen
              have hrest := ih h' hsize hroom hfit rfl (by simp only [hupper, hcurrent]; omega)
                (fun block hb => hnext block (by
                  rw [hfile, List.take_succ_cons]
                  exact List.mem_cons_of_mem _ hb))
              refine ⟨_, _, hblock junk, StopsIn.mono (N := 2 * u + 12 + 1)
                (.next fun host => ⟨_, _, silent_poll rfl host, hrest⟩) (by omega)
                fun s' ds hQ => ?_⟩
              exact FadesOut.block hQ hfile hlower hupper hcurrent rfl

/-- **A child for which everything fits comes to its end.** -/
theorem exists_stopsIn (h : s.Holds o n blocks L K m) (hsize : 0 < s.bufferSize)
    (hfit : ∀ block ∈ blocks, (block.length : Int) ≤ s.bufferSize) (hnext : s.NextFit) :
    ∃ N, StopsIn (Server.silent o) N (s.FadesOut o) s := by
  have hle := h.current_le
  have hroom (hrunning : ∀ why, s.point ≠ .done why) := hnext.resend hrunning
  have hwaits {waits : Nat → ServerPoint}
      (hwaits : waits = .windowClosed ∨ waits = .endOfFileWait) {count : Nat}
      (hpoint : s.point = waits count) (hcount : count < 10) :
      ∃ N, StopsIn (Server.silent o) N (s.FadesOut o) s := by
    obtain ⟨k, hk⟩ : ∃ k, count + (k + 1) = 10 := ⟨9 - count, by omega⟩
    have hrunning : ∀ why, s.point ≠ .done why := by
      rw [hpoint]
      rcases hwaits with rfl | rfl
      · exact fun why hc => (by cases hc)
      · exact fun why hc => (by cases hc)
    refine ⟨k + 1, (stopsIn_waits hwaits k h hsize (hroom hrunning) hfit hpoint hk).mono
      (Nat.le_refl _) fun s' ds ⟨hdone, hwindow, hclient, hlen, hresends⟩ => ?_⟩
    exact fadesOut_waits hle ⟨hdone, hwindow, hclient, by omega, hresends⟩
  cases hpoint : s.point with
  | windowOpen =>
      exact ⟨_, stopsIn_windowOpen _ h hsize (hroom (by simp [hpoint])) hfit hpoint
        (Int.toNat_of_nonneg (by omega)).symm (hnext.le (.inl hpoint))⟩
  | windowOpenPoll =>
      obtain ⟨L', K', m', h'⟩ := h.silent (silent_poll hpoint (false, 0))
      have hrest := stopsIn_windowOpen _ h' hsize (hroom (by simp [hpoint])) hfit rfl
        (Int.toNat_of_nonneg (by simp only; omega)).symm (hnext.le (.inr hpoint))
      refine ⟨_, .next fun host => ⟨_, _, silent_poll hpoint host, hrest.mono (Nat.le_refl _)
        fun s' ds hQ => ?_⟩⟩
      exact hQ.congr rfl rfl rfl
  | windowClosed count => exact hwaits (.inl rfl) hpoint (h.poised.windowClosed count hpoint).2
  | endOfFile =>
      exact ⟨11, stopsIn_endOfFile h hsize (hroom (by simp [hpoint])) hfit hpoint⟩
  | endOfFileWait count => exact hwaits (.inr rfl) hpoint (h.poised.endOfFileWait count hpoint)
  | done why =>
      exact ⟨0, .now (silent_done hpoint) (fadesOut_done hle hpoint rfl rfl)⟩

/-! ## What does not fit -/

/-- A waiting child cannot even make the buffers for its resend. -/
theorem drive_waits {waits : Nat → ServerPoint}
    (hwaits : waits = .windowClosed ∨ waits = .endOfFileWait) {count : Nat}
    (hpoint : s.point = waits count) (hroom : ¬ pduHeaderLen + s.bufferSize < 2147483648) :
    drive (Server.silent o) [(false, 0)] s = .error .signedOverflow := by
  have hresend : s.resend o s.window.lower resentTimeoutDataPacketFlag
      = .error .signedOverflow := by
    rw [resend, resendDataPacket_overflow (Int.not_lt.mp hroom)]
    rfl
  have hstep : s.silent o (false, 0) = some (.error .signedOverflow) := by
    rcases hwaits with rfl | rfl
    · simp only [silent, step, hpoint, windowClosed, hresend, C.error_bind]
    · simp only [silent, step, hpoint, endOfFileWait, hresend, C.error_bind]
  rw [drive, hstep]

/-- Nor does a child that has only the EOF left to send. -/
theorem drive_endOfFile (h : s.Holds o n blocks L K m) (hpoint : s.point = .endOfFile)
    (hroom : ¬ pduHeaderLen + s.bufferSize < 2147483648) :
    ∃ hosts, drive (Server.silent o) hosts s = .error .signedOverflow := by
  obtain ⟨w, d, -, hstep⟩ := h.run_eof (o := o) hpoint
  have hsent : s.silent o (false, 0)
      = some (.ok ({ s with point := .endOfFileWait 0, window := w }, [d])) := by
    simp only [silent, hpoint]
    exact hstep
  have hwaits := drive_waits (o := o) (s := { s with point := .endOfFileWait 0, window := w })
    (.inr rfl) rfl hroom
  refine ⟨[(false, 0), (false, 0)], ?_⟩
  rw [drive_cons hsent, hwaits]

/-- A block that does not fit is written past its slot, and buffers that do not fit are not made. -/
theorem drive_windowOpen (u : Nat) : ∀ {s : Server} {L K : Nat} {m : Nat → Option Packet},
    s.Holds o n blocks L K m → 0 < s.bufferSize → s.point = .windowOpen →
    s.window.upper - s.window.current = u →
    (¬ pduHeaderLen + s.bufferSize < 2147483648 ∨
      ∃ block ∈ s.dataFile.take u, 1400 < block.length) →
    ∃ hosts e, drive (Server.silent o) hosts s = .error e := by
  -- By induction on the room in the window.
  induction u with
  | zero =>
      rintro s L K m h - hpoint hleft (hroom | ⟨block, hb, -⟩)
      · have hclosed : s.window.checkWindowOpen = false := by
          rw [WindowArray.checkWindowOpen, decide_eq_false_iff_not]
          omega
        have hstep : s.silent o (false, 0)
            = some (.ok ({ s with point := .windowClosed 0 }, [])) := by
          rw [silent_run hpoint]
          exact run_closed hpoint hclosed false 0
        have hwaits := drive_waits (o := o) (s := { s with point := .windowClosed 0 })
          (.inl rfl) rfl hroom
        refine ⟨[(false, 0), (false, 0)], .signedOverflow, ?_⟩
        rw [drive_cons hstep, hwaits]
      · cases hb
  | succ u ih =>
      rintro s L K m h hsize hpoint hleft hbad
      have hopen : s.window.checkWindowOpen = true := by
        rw [WindowArray.checkWindowOpen, decide_eq_true_iff]
        omega
      cases hfile : s.dataFile with
      | nil =>
          rcases hbad with hroom | ⟨block, hb, -⟩
          · have hend : s.silent o (false, 0)
                = some (.ok ({ s with point := .endOfFile }, [])) := by
              rw [silent_run hpoint]
              exact run_end hpoint hopen hsize hfile 0
            obtain ⟨L', K', m', h'⟩ := h.silent hend
            obtain ⟨hosts, hrun⟩ := drive_endOfFile h' rfl hroom
            refine ⟨(false, 0) :: hosts, .signedOverflow, ?_⟩
            rw [drive_cons hend, hrun]
          · rw [hfile] at hb
            cases hb
      | cons payload rest =>
          by_cases hlen : payload.length ≤ 1400
          · obtain ⟨w, -, hupper, hcurrent, ⟨L', K', m', h'⟩, hblock⟩ :=
              h.silent_block hsize hpoint hopen hfile hlen
            have hrest : ¬ pduHeaderLen + s.bufferSize < 2147483648 ∨
                ∃ block ∈ rest.take u, 1400 < block.length := by
              rcases hbad with hroom | ⟨block, hb, hlong⟩
              · exact .inl hroom
              · rw [hfile, List.take_succ_cons] at hb
                rcases List.mem_cons.mp hb with rfl | hb
                · exact absurd hlen (Nat.not_le.mpr hlong)
                · exact .inr ⟨block, hb, hlong⟩
            obtain ⟨hosts, e, hrun⟩ :=
              ih h' hsize rfl (by simp only [hupper, hcurrent]; omega) hrest
            refine ⟨(false, 0) :: (false, 0) :: hosts, e, ?_⟩
            rw [drive_cons (hblock 0), drive_cons (silent_poll rfl (false, 0)), hrun]
          · have hsend := sendDataPacket_overrun (o := o) h.shows h.current h.lower_le
              (h.checkWindowOpen.mp hopen) (h.beforeEof (by rw [hpoint]; rfl))
              (Nat.not_le.mp hlen)
            refine ⟨[(false, 0)], .bufferOverrun, ?_⟩
            have hstep : s.silent o (false, 0) = some (.error .bufferOverrun) := by
              rw [silent_run hpoint, run_block hpoint hopen hsize hfile, hsend]
              rfl
            rw [drive, hstep]

/-- Whatever does not fit, the child fails over it. -/
theorem exists_drive_error (h : s.Holds o n blocks L K m) (hsize : 0 < s.bufferSize)
    (hnext : ¬ s.NextFit) : ∃ hosts e, drive (Server.silent o) hosts s = .error e := by
  have hleft := (Int.toNat_of_nonneg (Int.sub_nonneg_of_le h.current_le)).symm
  have hbad : ((∀ why, s.point ≠ .done why) ∧ ¬ pduHeaderLen + s.bufferSize < 2147483648) ∨
      ((s.point = .windowOpen ∨ s.point = .windowOpenPoll) ∧
        ∃ block ∈ s.dataFile.take (s.window.upper - s.window.current).toNat,
          1400 < block.length) := by
    by_contra hgood
    rw [not_or, not_and, not_and, not_not] at hgood
    refine hnext ⟨hgood.1, fun hpoint hopen =>
      ⟨hsize, fun block hb => Nat.not_lt.mp fun hlong => hgood.2 hpoint ⟨block, hb, hlong⟩⟩⟩
  have hroom := hbad.imp And.right And.right
  cases hpoint : s.point with
  | windowOpen => exact drive_windowOpen _ h hsize hpoint hleft hroom
  | windowOpenPoll =>
      obtain ⟨L', K', m', h'⟩ := h.silent (silent_poll hpoint (false, 0))
      obtain ⟨hosts, e, hrun⟩ := drive_windowOpen _ h' hsize rfl hleft hroom
      refine ⟨(false, 0) :: hosts, e, ?_⟩
      rw [drive_cons (silent_poll hpoint (false, 0)), hrun]
  | windowClosed count =>
      rcases hbad with ⟨-, hroom⟩ | ⟨hc | hc, -⟩
      · exact ⟨_, _, drive_waits (.inl rfl) hpoint hroom⟩
      · cases hpoint.symm.trans hc
      · cases hpoint.symm.trans hc
  | endOfFile =>
      rcases hbad with ⟨-, hroom⟩ | ⟨hc | hc, -⟩
      · obtain ⟨hosts, hrun⟩ := drive_endOfFile h hpoint hroom
        exact ⟨hosts, _, hrun⟩
      · cases hpoint.symm.trans hc
      · cases hpoint.symm.trans hc
  | endOfFileWait count =>
      rcases hbad with ⟨-, hroom⟩ | ⟨hc | hc, -⟩
      · exact ⟨_, _, drive_waits (.inr rfl) hpoint hroom⟩
      · cases hpoint.symm.trans hc
      · cases hpoint.symm.trans hc
  | done why =>
      rcases hbad with ⟨hrunning, -⟩ | ⟨hc | hc, -⟩
      · exact absurd hpoint (hrunning why)
      · cases hpoint.symm.trans hc
      · cases hpoint.symm.trans hc

theorem stopsIn_iff (h : s.Holds o n blocks L K m) (hsize : 0 < s.bufferSize)
    (hfit : ∀ block ∈ blocks, (block.length : Int) ≤ s.bufferSize) :
    (∃ N, StopsIn (Server.silent o) N (s.FadesOut o) s) ↔ s.NextFit := by
  refine ⟨fun ⟨N, hstops⟩ => ?_, exists_stopsIn h hsize hfit⟩
  by_contra hnext
  obtain ⟨hosts, e, hrun⟩ := exists_drive_error (o := o) h hsize hnext
  exact not_stopsIn hrun hstops

section
variable {bufferSize : Int} {client : Addr} {s₀ : Server}

theorem bufferSize_of_reachable (hstart : start n bufferSize blocks client = .ok s₀)
    (h : (system o s₀).Reachable s) : s.bufferSize = bufferSize := by
  refine System.Reachable.invariant (P := fun s => s.bufferSize = bufferSize) ?_ ?_ h
  · rintro s rfl
    exact (of_start hstart).2.2.2.1
  · intro s l s' _ hsize hstep
    exact (stepped hstep).bufferSize.trans hsize

/-- A child with a size of zero, or less, does not come through its first step. -/
theorem run_arraySize (hpoint : s.point = .windowOpen)
    (hopen : s.window.current < s.window.upper) (hsize : s.bufferSize ≤ 0) (readFails : Bool)
    (junk : Byte) : s.step o (.run readFails junk) = some (.error .arraySize) := by
  simp only [step_windowOpen hpoint, windowOpen, WindowArray.checkWindowOpen, hopen, hsize,
    decide_true, if_true]

theorem eq_start_of_reachable (hpoint : s₀.point = .windowOpen)
    (hopen : s₀.window.current < s₀.window.upper) (hsize : s₀.bufferSize ≤ 0)
    (h : (system o s₀).Reachable s) : s = s₀ := by
  refine System.Reachable.invariant (P := fun s => s = s₀) (fun s hs => hs) ?_ h
  rintro s l s' - rfl hstep
  have hstep' : s.step o l.1 = some (.ok (s', l.2)) := hstep
  cases hi : l.1 with
  | run readFails junk =>
      rw [hi, run_arraySize hpoint hopen hsize] at hstep'
      cases hstep'
  | poll p =>
      rw [hi] at hstep'
      simp only [step, hpoint] at hstep'
      cases hstep'

/-- **Which children come to an end when nothing is received any more.** -/
theorem stopsIn_iff_of_reachable (hn : 0 < n) (hmax : n < 2147483648)
    (hstart : start n bufferSize blocks client = .ok s₀)
    (hfit : ∀ block ∈ blocks, (block.length : Int) ≤ bufferSize)
    (h : (honestSystem o s₀).Reachable s) :
    (∃ N, StopsIn (Server.silent o) N (s.FadesOut o) s) ↔ s.NextFit := by
  have hsize := bufferSize_of_reachable hstart h.of_restrict
  obtain ⟨L, K, m, hs⟩ := holds_of_reachable hn hmax hstart h
  by_cases hpos : 0 < bufferSize
  · exact stopsIn_iff hs (hsize ▸ hpos) (hsize ▸ hfit)
  · have hstarted := Holds.start (o := o) hn hmax hstart
    obtain ⟨-, hpoint, -, hsize₀, -⟩ := of_start hstart
    have hopen : s₀.window.current < s₀.window.upper := by
      rw [hstarted.current, hstarted.shows.upper]
      omega
    have hle : s₀.bufferSize ≤ 0 := hsize₀ ▸ Int.not_lt.mp hpos
    obtain rfl := eq_start_of_reachable hpoint hopen hle h.of_restrict
    refine ⟨fun ⟨N, hstops⟩ => ?_, fun hnext => ?_⟩
    · have hfails : drive (Server.silent o) [(false, 0)] s = .error .arraySize := by
        have hrun : s.silent o (false, 0) = some (.error .arraySize) := by
          simp only [silent, hpoint, run_arraySize hpoint hopen hle]
        rw [drive, hrun]
      exact absurd hstops (not_stopsIn hfails)
    · exact absurd (hnext.read (.inl hpoint) hopen).1 (Int.not_lt.mpr hle)

end

end Server

end RemoteCopy

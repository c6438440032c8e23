import RemoteCopy.Delivery
import RemoteCopy.OrderedChannel

/-!
# Recovery

Over a channel that keeps the order the data phase never gets stuck: as long as neither program has
ended and the child is not about to give up, the transfer can still be completed. The continuation
loses whatever is in flight and goes on in rounds. In each round the receiver finishes its flush,
the child sends all it may, and then times out once; its resend of `lower` is delivered, and so is
the answer, which moves `lower` up or ends the transfer.
-/

namespace RemoteCopy

/-! ## The child on its own -/

/-- The child waits for an acknowledgement, and can afford a timeout. -/
def Server.Waits (s : Server) : Prop :=
  ∃ count ≤ 8, s.point = .windowClosed count ∨ s.point = .endOfFileWait count

namespace Server

section
variable {o : ByteOrder} {s : Server} {n L K : Nat} {blocks : List Bytes}
  {m : Nat → Option Packet}

/-- The next block goes out. -/
theorem Holds.run_block (h : s.Holds o n blocks L K m) (hpoint : s.point = .windowOpen)
    (hopen : s.window.checkWindowOpen = true) (hsize : 0 < s.bufferSize)
    (hfit : ∀ block ∈ blocks, block.length ≤ 1400) {payload : Bytes} {rest : List Bytes}
    (hfile : s.dataFile = payload :: rest) : ∃ w d, w.lower = s.window.lower ∧
    s.step o (.run false 0) = some (.ok
      ({ s with point := .windowOpenPoll, window := w, dataFile := rest }, [d])) := by
  have hmem : payload ∈ blocks := by
    apply List.mem_of_mem_drop (i := K)
    rw [← h.file, hfile]
    exact List.mem_cons_self
  obtain ⟨packet, w, -, hsend, hshows, -⟩ := sendDataPacket_eq (o := o) h.shows h.current
    h.lower_le (h.checkWindowOpen.mp hopen) (h.beforeEof (by rw [hpoint]; rfl)) (hfit payload hmem)
  refine ⟨w, ⟨s.client, encodePDU o (toUInt32 K) dataPacketFlag payload⟩,
    hshows.lower.trans h.shows.lower.symm, ?_⟩
  rw [Server.run_block hpoint hopen hsize hfile, hsend]
  rfl

/-- The EOF goes out. -/
theorem Holds.run_eof (h : s.Holds o n blocks L K m) (hpoint : s.point = .endOfFile) :
    ∃ w d, w.lower = s.window.lower ∧ s.step o (.run false 0)
      = some (.ok ({ s with point := .endOfFileWait 0, window := w }, [d])) := by
  obtain ⟨hnil, hopen, -⟩ := h.poised.endOfFile hpoint
  obtain ⟨packet, w, -, hsend, hshows, -⟩ := sendEof_eq (o := o) h.shows h.current h.lower_le
    (h.checkWindowOpen.mp hopen) (h.beforeEof (by rw [hpoint]; rfl)) 0
  refine ⟨w, ⟨s.client, encodePDU o (toUInt32 K) eofFlag [0]⟩,
    hshows.lower.trans h.shows.lower.symm, ?_⟩
  simp only [Server.step_endOfFile hpoint, endOfFile, hsend]
  rfl

/-- The timeout of a waiting child: it sends the PDU at `lower` again and goes on waiting. -/
theorem Holds.poll_timeout (h : s.Holds o n blocks L K m) (hwaits : s.Waits)
    (hsize : 0 < s.bufferSize) (hroom : pduHeaderLen + s.bufferSize < 2147483648)
    (hfit : ∀ block ∈ blocks, (block.length : Int) ≤ s.bufferSize) :
    ∃ packet point, m L = some packet ∧
      ((∃ count, s.point = .windowClosed count ∧ point = .windowClosed (count + 1)) ∨
        ∃ count, s.point = .endOfFileWait count ∧ point = .endOfFileWait (count + 1)) ∧
      s.step o (.poll .timeout) = some (.ok ({ s with point := point }, [⟨s.client,
        encodePDU o (toUInt32 L) (packet.resentFlag resentTimeoutDataPacketFlag)
          packet.payload⟩])) := by
  obtain ⟨count, hcount, hpoint | hpoint⟩ := hwaits
  · obtain ⟨packet, hpacket, -⟩ := h.lower_isSome (.inl ⟨count, hpoint⟩)
    obtain ⟨hclosed, -⟩ := h.poised.windowClosed count hpoint
    refine ⟨packet, .windowClosed (count + 1), hpacket, .inl ⟨count, hpoint, rfl⟩, ?_⟩
    simp only [Server.step_windowClosed hpoint, windowClosed, resend, h.shows.lower,
      h.resend_returns hfit hsize hroom hpacket, C.ok_bind, C.pure_eq]
    rw [windowClosedLoop, if_pos ⟨hclosed, by omega⟩]
  · obtain ⟨packet, hpacket, -⟩ := h.lower_isSome (.inr ⟨count, hpoint⟩)
    refine ⟨packet, .endOfFileWait (count + 1), hpacket, .inr ⟨count, hpoint, rfl⟩, ?_⟩
    simp only [Server.step_endOfFileWait hpoint, Server.endOfFileWait, resend, h.shows.lower,
      h.resend_returns hfit hsize hroom hpacket, C.ok_bind, C.pure_eq]
    rw [endOfFileLoop, if_pos (by omega)]

/-- The EOF ACK ends the child. -/
theorem receive_eofAck {count : Nat} (hpoint : s.point = .endOfFileWait count) (src : Addr)
    {stale datagram : Bytes} (hcontrol : receiveControl o stale datagram = .eofAck) :
    s.step o (.poll (.received src stale datagram))
      = some (.ok ({ s with client := src, point := .done .eofAck }, [])) := by
  simp only [step_endOfFileWait hpoint, endOfFileWait, hcontrol]

/-- Once the EOF is stored, only its acknowledgement is missing. -/
theorem Holds.waits_of_eof (h : s.Holds o n blocks L K m) (heof : m K ≠ none)
    (hrunning : ∀ why, s.point ≠ .done why) : ∃ count, s.point = .endOfFileWait count := by
  cases hpoint : s.point with
  | endOfFileWait count => exact ⟨count, rfl⟩
  | done why => exact absurd hpoint (hrunning why)
  | windowOpen => exact absurd (h.beforeEof (by rw [hpoint]; rfl)) heof
  | windowOpenPoll => exact absurd (h.beforeEof (by rw [hpoint]; rfl)) heof
  | windowClosed count => exact absurd (h.beforeEof (by rw [hpoint]; rfl)) heof
  | endOfFile => exact absurd (h.beforeEof (by rw [hpoint]; rfl)) heof

end

end Server

/-! ## The receiver and a resend of `lower` -/

/-- A PDU that is not beyond `current` is answered by an RR for more than it carries, unless it is
the EOF in its place. -/
theorem Receiver.accept_resent {a : Receiver} {s : Nat} {packet : Packet}
    (hpoint : a.point = .inOrder ∨ a.point = .buffering) (hs : s ≤ a.current)
    (hpayload : packet.payload ≠ [])
    (heof : packet.flag = eofFlag → s = a.current ∧ a.point = .inOrder) :
    (∃ k, (a.accept s packet).2 = [.rr k] ∧ s < k ∧
        (k = a.current ∨ (k = s + 1 ∧ packet.flag ≠ eofFlag)) ∧
        ∀ why, (a.accept s packet).1.point ≠ .done why) ∨
      ((a.accept s packet).2 = [.eofAck] ∧ (a.accept s packet).1.point = .done .eofAck) := by
  have hrunning := RcopyPoint.ne_done hpoint
  rcases Nat.lt_or_eq_of_le hs with hlt | heq
  · rw [Receiver.accept_old hpoint hlt]
    exact .inl ⟨a.current, rfl, hlt, .inl rfl, hrunning⟩
  by_cases hflag : packet.flag = eofFlag
  · obtain ⟨-, hinOrder⟩ := heof hflag
    right
    simp only [Receiver.accept, hinOrder, if_neg (Nat.not_lt.mpr (Nat.le_of_eq heq.symm)),
      if_pos heq, if_pos hflag]
    exact ⟨trivial, trivial⟩
  · left
    refine ⟨s + 1, ?_, Nat.lt_succ_self s, .inr ⟨rfl, hflag⟩, ?_⟩
    · rcases hpoint with hpoint | hpoint
      · simp only [Receiver.accept, hpoint, if_neg (Nat.not_lt.mpr (Nat.le_of_eq heq.symm)),
          if_pos heq, if_neg hflag, if_neg hpayload]
      · simp only [Receiver.accept, hpoint, if_neg (Nat.not_lt.mpr (Nat.le_of_eq heq)),
          if_pos heq, if_neg hflag]
    · intro why
      rcases hpoint with hpoint | hpoint
      · simp only [Receiver.accept, hpoint, if_neg (Nat.not_lt.mpr (Nat.le_of_eq heq.symm)),
          if_pos heq, if_neg hflag, if_neg hpayload]
        exact fun hc => (by cases hc)
      · simp only [Receiver.accept, hpoint, if_neg (Nat.not_lt.mpr (Nat.le_of_eq heq)),
          if_pos heq, if_neg hflag]
        exact fun hc => (by cases hc)

namespace Transfer

variable {P : Transfer}

/-! ## Continuations -/

/-- Nothing is in flight. -/
def quiet (s : Server) (r : Rcopy) : Net := ⟨s, r, [], []⟩

section
variable {s s' : Server} {r r' : Rcopy} {d : Datagram} {ds : List Datagram}

/-- Everything in flight may be lost. -/
theorem leads_quiet (net : Net) : P.fifo.Leads net (quiet net.server net.rcopy) := by
  obtain ⟨s, r, toRcopy, toServer⟩ := net
  have hfrom : P.fifo.Leads ⟨s, r, [], toServer⟩ ⟨s, r, [], []⟩ := by
    induction toServer with
    | nil => exact .refl _
    | cons d ds ih => exact .head (i := .loseToServer 0) rfl ih
  have hto : P.fifo.Leads ⟨s, r, toRcopy, toServer⟩ ⟨s, r, [], toServer⟩ := by
    induction toRcopy with
    | nil => exact .refl _
    | cons d ds ih => exact .head (i := .loseToRcopy 0) rfl ih
  exact hto.trans hfrom

theorem leads_server {i : ServerInput} (hstep : s.step P.serverOrder i = some (.ok (s', ds)))
    (hsilent : i.Silent) :
    P.fifo.Leads (quiet s r) ⟨s', r, ds, []⟩ :=
  .single (i := .server i) ⟨ds, ⟨hstep, rfl⟩, rfl, .inl ⟨hsilent, rfl⟩⟩

theorem leads_flush (hstep : r.step P.rcopyOrder (.flush .complete 0) = some (.ok (r', ds))) :
    P.fifo.Leads (quiet s r) ⟨s, r', [], ds⟩ :=
  .single (i := .rcopy (.flush .complete 0)) ⟨ds, ⟨hstep, rfl, rfl⟩, rfl, .inl ⟨trivial, rfl⟩⟩

/-- The receiver gets a datagram. -/
theorem leads_receive (hdest : d.dest = P.rcopyAddr)
    (hstep : r.step P.rcopyOrder (.poll (.received P.serverAddr [] d.bytes) .complete 0)
      = some (.ok (r', ds))) : P.fifo.Leads ⟨s, r, [d], []⟩ ⟨s, r', [], ds⟩ :=
  .single (i := .rcopy (.poll (.received P.serverAddr [] d.bytes) .complete 0))
    ⟨ds, ⟨hstep, rfl, rfl⟩, rfl, .inr ⟨d, ⟨rfl, .inl ⟨hdest, rfl⟩⟩, rfl⟩⟩

/-- The child gets a reply, and sends nothing in return. -/
theorem leads_reply (hdest : d.dest = P.serverAddr)
    (hstep : s.step P.serverOrder (.poll (.received P.rcopyAddr [] d.bytes))
      = some (.ok (s', []))) :
    P.fifo.Leads ⟨s, r, [], [d]⟩ (quiet s' r) :=
  .single (i := .server (.poll (.received P.rcopyAddr [] d.bytes)))
    ⟨[], ⟨hstep, rfl⟩, rfl, .inr ⟨d, ⟨rfl, .inl ⟨hdest, rfl⟩⟩, rfl⟩⟩

/-- A step of the child of which nothing arrives. -/
theorem leads_server_quiet {i : ServerInput}
    (hstep : s.step P.serverOrder i = some (.ok (s', ds))) (hsilent : i.Silent) :
    P.fifo.Leads (quiet s r) (quiet s' r) :=
  (leads_server hstep hsilent).trans (leads_quiet _)

/-- Both programs have ended as they should. -/
def Completed (net : Net) : Prop :=
  net.server.point = .done .eofAck ∧ net.rcopy.point = .done .eofAck

/-- Neither program has ended, and the child is not about to give up. -/
structure Live (P : Transfer) (net : Net) : Prop where
  reachable : P.fifo.Reachable net
  rcopy : ∀ why, net.rcopy.point ≠ .done why
  server : ∀ why, net.server.point ≠ .done why
  patient : ∀ count, net.server.point = .windowClosed count ∨
    net.server.point = .endOfFileWait count → count ≤ 8

/-- An EOF ACK in flight completes the transfer. -/
theorem leads_completed (h : P.fifo.Reachable ⟨s, r, [], [d]⟩) (hack : Reply.eofAck.Encodes d.bytes)
    (hdone : r.point = .done .eofAck) (hserver : ∀ why, s.point ≠ .done why) :
    ∃ net, P.fifo.Leads ⟨s, r, [], [d]⟩ net ∧ Completed net := by
  obtain ⟨L, K, m, a, hin⟩ := inOrder_of_reachable h
  obtain ⟨toRcopy, toServer, hjoint, -, hsub⟩ := hin.joint
  have hpoint : a.point = .done .eofAck := hjoint.rcopy.point.symm.trans hdone
  have hholds : s.Holds P.serverOrder P.windowSize P.blocks L K m := hjoint.server
  obtain ⟨count, hwait⟩ := hholds.waits_of_eof (hjoint.eofReceived (.inr hpoint)) hserver
  obtain ⟨hdest, -⟩ := hjoint.toServer d (hsub List.mem_cons_self)
  have hcontrol := Reply.eofAck.receiveControl_eq hack trivial P.serverOrder []
  exact ⟨_, leads_reply hdest (Server.receive_eofAck hwait P.rcopyAddr hcontrol), rfl, hdone⟩

/-! ## The parts of a round -/

/-- The receiver finishes its flush: it polls, or has sent an EOF ACK. -/
theorem leads_polling (fuel : Nat) : ∀ {r : Rcopy}, P.fifo.Reachable (quiet s r) →
    (∀ why, r.point ≠ .done why) → (P.blocks.length : Int) < r.window.current + fuel →
    (∃ r', P.fifo.Leads (quiet s r) (quiet s r') ∧
      (r'.point = .inOrder ∨ r'.point = .buffering)) ∨
    ∃ r' d, P.fifo.Leads (quiet s r) ⟨s, r', [], [d]⟩ ∧ r'.point = .done .eofAck ∧
      Reply.eofAck.Encodes d.bytes := by
  -- Every PDU flushed moves `current`, which the joint invariant keeps within the file.
  induction fuel with
  | zero =>
      intro r h _ hfuel
      obtain ⟨L, K, m, a, hin⟩ := inOrder_of_reachable h
      obtain ⟨toRcopy, toServer, hjoint, -⟩ := hin.joint
      have hrefines : r.Refines P.windowSize a := hjoint.rcopy
      have hcurrent := hrefines.current
      have hle := hjoint.current_le
      have hlength := hjoint.server.le_length
      omega
  | succ fuel ih =>
      intro r h hrunning hfuel
      obtain ⟨L, K, m, a, hin⟩ := inOrder_of_reachable h
      obtain ⟨toRcopy, toServer, hjoint, -⟩ := hin.joint
      have hrefines : r.Refines P.windowSize a := hjoint.rcopy
      cases hpoint : a.point with
      | inOrder => exact .inl ⟨r, .refl _, .inl (hrefines.point.trans hpoint)⟩
      | buffering => exact .inl ⟨r, .refl _, .inr (hrefines.point.trans hpoint)⟩
      | done why => exact absurd (hrefines.point.trans hpoint) (hrunning why)
      | flush =>
          have hcurrent := hjoint.flush_current.2
          have hlength := hjoint.server.le_length
          have hrange := P.range
          obtain ⟨y, hstep, r', ds, rfl, hrefines', hsends, -, -⟩ :=
            hrefines.flush (o := P.rcopyOrder) hpoint (by omega) 0
          have hlead := leads_flush (P := P) (s := s) hstep
          have hquiet := hlead.trans (leads_quiet _)
          cases hstored : a.stored a.current with
          | none =>
              simp only [Receiver.flush, hstored] at hrefines'
              exact .inl ⟨r', hquiet, .inr hrefines'.point⟩
          | some packet =>
              by_cases heof : packet.flag = eofFlag
              · simp only [Receiver.flush, hstored, if_pos heof] at hrefines' hsends
                cases hsends with
                | cons hack hnil =>
                    cases hnil
                    exact .inr ⟨r', _, hlead, hrefines'.point, hack.2⟩
              · simp only [Receiver.flush, hstored, if_neg heof] at hrefines'
                have hcurrent := hrefines.current
                have hcurrent' := hrefines'.current
                simp only at hcurrent'
                have hrunning' : ∀ why, r'.point ≠ .done why := fun why hdone => by
                  have hpoint' := hrefines'.point
                  rw [hdone] at hpoint'
                  simp only at hpoint'
                  split at hpoint' <;> cases hpoint'
                have hfuel' : (P.blocks.length : Int) < r'.window.current + fuel := by omega
                rcases ih (h.leads hquiet) hrunning' hfuel' with
                  ⟨r'', hlead', hpoll⟩ | ⟨r'', d, hlead', hdone⟩
                · exact .inl ⟨r'', hquiet.trans hlead', hpoll⟩
                · exact .inr ⟨r'', d, hquiet.trans hlead', hdone⟩

/-- The child sends the EOF and waits. -/
theorem leads_waiting_of_endOfFile (h : P.fifo.Reachable (quiet s r))
    (hpoint : s.point = .endOfFile) : ∃ s', P.fifo.Leads (quiet s r) (quiet s' r) ∧ s'.Waits ∧
      s'.window.lower = s.window.lower := by
  obtain ⟨L, K, m, a, hin⟩ := inOrder_of_reachable h
  obtain ⟨toRcopy, toServer, hjoint, -⟩ := hin.joint
  have hholds : s.Holds P.serverOrder P.windowSize P.blocks L K m := hjoint.server
  obtain ⟨w, d, hlower, hstep⟩ := hholds.run_eof hpoint
  exact ⟨_, leads_server_quiet hstep trivial, ⟨0, by omega, .inr rfl⟩, hlower⟩

/-- From `window_open` on, the child sends until its window is full or the file has ended. -/
theorem leads_waiting_of_windowOpen (k : Nat) : ∀ {s : Server}, P.fifo.Reachable (quiet s r) →
    s.point = .windowOpen → s.dataFile.length < k → ∃ s', P.fifo.Leads (quiet s r) (quiet s' r) ∧
      s'.Waits ∧ s'.window.lower = s.window.lower := by
  -- By induction on what is left of the file.
  induction k with
  | zero => exact fun _ _ hfile => absurd hfile (Nat.not_lt_zero _)
  | succ k ih =>
      intro s h hpoint hfile
      obtain ⟨L, K, m, a, hin⟩ := inOrder_of_reachable h
      obtain ⟨toRcopy, toServer, hjoint, -⟩ := hin.joint
      have hholds : s.Holds P.serverOrder P.windowSize P.blocks L K m := hjoint.server
      have hsize : 0 < s.bufferSize := hin.bufferSize_pos
      cases hopen : s.window.checkWindowOpen with
      | false =>
          have hlead :=
            leads_server_quiet (P := P) (r := r) (Server.run_closed hpoint hopen false 0) trivial
          exact ⟨_, hlead, ⟨0, by omega, .inl rfl⟩, rfl⟩
      | true =>
          cases hrest : s.dataFile with
          | nil =>
              have hlead := leads_server_quiet (P := P) (r := r)
                (Server.run_end hpoint hopen hsize hrest 0) trivial
              obtain ⟨s', hlead', hwaits, hlower⟩ :=
                leads_waiting_of_endOfFile (h.leads hlead) rfl
              exact ⟨s', hlead.trans hlead', hwaits, hlower⟩
          | cons payload rest =>
              obtain ⟨w, d, hw, hstep⟩ := hholds.run_block hpoint hopen hsize
                (fun block hblock => Nat.le_trans (P.blocks_fit block hblock).2 P.bufferSize.2.2)
                hrest
              have hsent := leads_server_quiet (r := r) hstep trivial
              have hpolled : P.fifo.Leads
                  (quiet { s with point := .windowOpenPoll, window := w, dataFile := rest } r)
                  (quiet { s with point := .windowOpen, window := w, dataFile := rest } r) :=
                leads_server_quiet (Server.poll_windowOpen rfl) trivial
              have hlead := hsent.trans hpolled
              have hshorter : rest.length < k := by
                rw [hrest, List.length_cons] at hfile
                omega
              obtain ⟨s', hlead', hwaits, hlower⟩ := ih (h.leads hlead) rfl hshorter
              exact ⟨s', hlead.trans hlead', hwaits, hlower.trans hw⟩

/-- Wherever the child is, it comes to wait for an acknowledgement. -/
theorem leads_waiting (h : P.Live (quiet s r)) : ∃ s', P.fifo.Leads (quiet s r) (quiet s' r) ∧
    s'.Waits ∧ s'.window.lower = s.window.lower := by
  cases hpoint : s.point with
  | windowOpen => exact leads_waiting_of_windowOpen _ h.reachable hpoint (Nat.lt_succ_self _)
  | windowOpenPoll =>
      have hlead := leads_server_quiet (P := P) (r := r)
        (Server.poll_windowOpen hpoint) trivial
      obtain ⟨s', hlead', hwaits, hlower⟩ :=
        leads_waiting_of_windowOpen _ (h.reachable.leads hlead) rfl (Nat.lt_succ_self _)
      exact ⟨s', hlead.trans hlead', hwaits, hlower⟩
  | windowClosed count =>
      exact ⟨s, .refl _, ⟨count, h.patient count (.inl hpoint), .inl hpoint⟩, rfl⟩
  | endOfFile => exact leads_waiting_of_endOfFile h.reachable hpoint
  | endOfFileWait count =>
      exact ⟨s, .refl _, ⟨count, h.patient count (.inr hpoint), .inr hpoint⟩, rfl⟩
  | done why => exact absurd hpoint (h.server why)

/-- A PDU as the child sends it again at a timeout: a block, or the EOF when everything else is
acknowledged. -/
structure Resent (P : Transfer) (L K : Nat) (b : Bytes) (flag : Byte) (payload : Bytes) : Prop where
  accepted : Accepted P.rcopyOrder b (toUInt32 L) flag payload
  payload_ne : payload ≠ []
  payload_le : payload.length ≤ P.bufferSize
  flag_eq : (flag = eofFlag ∧ L = K) ∨ (flag ≠ eofFlag ∧ L < K)

section
variable {net : Net} {L K : Nat} {m : Nat → Option Packet} {a : Receiver}

theorem Joint.resent_lower (h : P.Joint net L K m a) {packet : Packet}
    (hpacket : m L = some packet) : P.Resent L K (encodePDU P.serverOrder (toUInt32 L)
        (packet.resentFlag resentTimeoutDataPacketFlag) packet.payload)
      (packet.resentFlag resentTimeoutDataPacketFlag) packet.payload := by
  have hsize := P.bufferSize.2
  rcases h.server.carries hpacket with ⟨hlt, block, hblock, hcarries⟩ | ⟨heq, -, junk, hcarries⟩
  · obtain ⟨hne, hlen⟩ := P.blocks_fit block (List.mem_of_getElem? hblock)
    rw [hcarries.payload_eq, hcarries.resentFlag_data]
    exact ⟨accepted_encodePDU _ _ _ _ (by omega), hne, hlen, .inr ⟨by decide, hlt⟩⟩
  · have hlen : [junk].length ≤ (P.bufferSize : Nat) := by
      rw [List.length_singleton]
      omega
    rw [hcarries.payload_eq, hcarries.resentFlag_eof]
    exact ⟨accepted_encodePDU _ _ _ _ (by omega), List.cons_ne_nil _ _, hlen, .inl ⟨rfl, heq⟩⟩

/-- While the receiver is buffering, something beyond its `current` was sent. -/
theorem Joint.current_lt_of_buffering (h : P.Joint net L K m a) (hpoint : a.point = .buffering) :
    a.current < K := by
  obtain ⟨packet, hpacket⟩ := Option.ne_none_iff_exists'.mp (h.assembles.ahead (.inl hpoint))
  have hle := (h.stored_le _ _ hpacket).1
  have hcurrent := h.assembles.current_le_highest (.inl hpoint)
  have hne : a.current ≠ a.highest := by
    intro heq
    rw [← heq, h.assembles.current_none (.inr hpoint)] at hpacket
    cases hpacket
  omega

/-- The receiver answers it with one datagram, which moves `lower` up or ends the transfer. -/
theorem Joint.answers_resent (h : P.Joint net L K m a)
    (hpoint : a.point = .inOrder ∨ a.point = .buffering) {b : Bytes} {flag : Byte}
    {payload : Bytes} (hb : P.Resent L K b flag payload) : ∃ r' d,
    net.rcopy.step P.rcopyOrder (.poll (.received P.serverAddr [] b) .complete 0)
        = some (.ok (r', [d])) ∧ d.dest = P.serverAddr ∧
      ((∃ k : Nat, (Reply.rr k).Encodes d.bytes ∧ L < k ∧ k ≤ K ∧ ∀ why, r'.point ≠ .done why) ∨
        (Reply.eofAck.Encodes d.bytes ∧ r'.point = .done .eofAck)) := by
  obtain ⟨hsize, hbyte, hdrop⟩ := hb.accepted.layout
  have hlow := h.lower_le
  have hcur := h.current_le
  have hlength := h.server.le_length
  have hrange := P.range
  have hpos := P.windowSize_pos
  have hlen := hb.payload_le
  have hmax := P.bufferSize.2.2
  have hfits : b.length ≤ maxPduLen := by
    simp only [hsize, pduHeaderLen, maxPduLen]
    omega
  have hnumber : (toUInt32 (L : Int)).toNat = L := toNat_toUInt32_natCast (by omega)
  have haccept := h.rcopy.accept (o := P.rcopyOrder) hpoint (h.assembles.current_none hpoint)
    hb.accepted (by rw [hsize, h.rcopySize]; omega) hfits
  generalize hp : Packet.of (toUInt32 (L : Int)).toNat b hfits = packet at haccept
  have hflag : packet.flag = flag := by
    rw [← hp]
    exact hbyte
  have hpayload : packet.payload = payload := by
    rw [← hp]
    exact hdrop
  rw [hnumber] at haccept
  -- What moves `current` is a block that was sent.
  have hbound : (a.accept L packet).1.current ≤ K := by
    rcases a.accept_current L packet with heq | ⟨hs, hdata, heq⟩
    · omega
    · rcases hb.flag_eq with ⟨heof, -⟩ | ⟨-, hlt⟩
      · exact absurd (hflag.trans heof) hdata
      · omega
  obtain ⟨y, hstep, r', ds, rfl, hrefines, hsends, -, -⟩ :=
    haccept (by omega) (by omega) P.serverAddr [] 0
  have heof : packet.flag = eofFlag → L = a.current ∧ a.point = .inOrder := by
    intro heof
    rcases hb.flag_eq with ⟨-, heq⟩ | ⟨hdata, -⟩
    · -- `buffering` would drop the EOF, but it has stored something beyond `current`.
      refine ⟨by omega, hpoint.resolve_right fun hbuffering => ?_⟩
      have hlt := h.current_lt_of_buffering hbuffering
      omega
    · exact absurd (hflag.symm.trans heof) hdata
  rcases Receiver.accept_resent hpoint hlow (hpayload ▸ hb.payload_ne) heof with
    ⟨k, hreply, hk, hle, hrunning⟩ | ⟨hreply, hdone⟩
  · rw [hreply] at hsends
    cases hsends with
    | cons hd hnil =>
        cases hnil
        refine ⟨r', _, hstep, hd.1, .inl ⟨k, hd.2, hk, ?_, fun why => ?_⟩⟩
        · rcases hle with rfl | ⟨rfl, hdata⟩
          · exact hcur
          · rcases hb.flag_eq with ⟨heof, -⟩ | ⟨-, hlt⟩
            · exact absurd (hflag.trans heof) hdata
            · exact hlt
        · rw [hrefines.point]
          exact hrunning why
  · rw [hreply] at hsends
    cases hsends with
    | cons hd hnil =>
        cases hnil
        exact ⟨r', _, hstep, hd.1, .inr ⟨hd.2, hrefines.point.trans hdone⟩⟩

end

/-- An RR in flight moves `lower` up. -/
theorem leads_released {k : Nat} (h : P.fifo.Reachable ⟨s, r, [], [d]⟩)
    (hdest : d.dest = P.serverAddr) (hrr : (Reply.rr k).Encodes d.bytes)
    (hk : s.window.lower < k) (hle : k ≤ P.blocks.length) (hpolls : s.Polls)
    (hrunning : ∀ why, r.point ≠ .done why) : ∃ s',
    P.fifo.Leads ⟨s, r, [], [d]⟩ (quiet s' r) ∧ P.Live (quiet s' r) ∧
      s.window.lower < s'.window.lower := by
  obtain ⟨L, K, m, a, hin⟩ := inOrder_of_reachable h
  obtain ⟨toRcopy, toServer, hjoint, -⟩ := hin.joint
  have hholds : s.Holds P.serverOrder P.windowSize P.blocks L K m := hjoint.server
  have hrange := P.range
  have hpos := P.windowSize_pos
  have hlower := hholds.shows.lower
  have hfits : (Reply.rr k).Fits := show k < 2147483648 by omega
  have hcontrol := (Reply.rr k).receiveControl_eq hrr hfits P.serverOrder []
  obtain ⟨next, hnext, hstep⟩ := Server.step_rr hpolls P.rcopyAddr hcontrol
  have hrelease : max L (k : Int).toNat + P.windowSize < 2147483648 := by
    rw [Int.toNat_natCast]
    omega
  obtain ⟨w, hclean, hshows, -⟩ := cleaningUpWithRR_eq hholds.shows hrelease
  rw [hclean, C.ok_bind] at hstep
  obtain ⟨hwindow, hpoint⟩ := hnext w
  have hlead := leads_reply (r := r) hdest hstep
  refine ⟨next w, hlead, ⟨h.leads hlead, hrunning, fun why hdone => ?_, fun count hwait => ?_⟩, ?_⟩
  · have hdone' : (next w).point = .done why := hdone
    rcases hpoint with hpoint | hpoint
    · cases hpoint.symm.trans hdone'
    · cases hpoint.symm.trans hdone'
  · have hwait' : (next w).point = .windowClosed count ∨ (next w).point = .endOfFileWait count :=
      hwait
    rcases hpoint with hpoint | hpoint
    · rw [hpoint] at hwait'
      exact hwait'.elim (fun hc => (by cases hc)) fun hc => (by cases hc)
    · rw [hpoint] at hwait'
      rcases hwait' with hc | hc
      · cases hc
      · cases hc
        omega
  · rw [hwindow, hshows.lower, Int.toNat_natCast]
    omega

/-- The end of a round: the child times out, and what it sends again is answered. -/
theorem leads_answered (h : P.Live (quiet s r)) (hwaits : s.Waits)
    (hpoll : r.point = .inOrder ∨ r.point = .buffering) : ∃ net, P.fifo.Leads (quiet s r) net ∧
    (Completed net ∨ (P.Live net ∧ s.window.lower < net.server.window.lower)) := by
  obtain ⟨L, K, m, a, hin⟩ := inOrder_of_reachable h.reachable
  obtain ⟨toRcopy, toServer, hjoint, -⟩ := hin.joint
  have hholds : s.Holds P.serverOrder P.windowSize P.blocks L K m := hjoint.server
  have hclient : s.client = P.rcopyAddr := hjoint.client
  have hpoint : a.point = .inOrder ∨ a.point = .buffering := hjoint.rcopy.point ▸ hpoll
  obtain ⟨packet, point, hpacket, hwait, hstep⟩ :=
    hholds.poll_timeout hwaits hin.bufferSize_pos hin.bufferSize_lt fun block => hin.block_fits
  obtain ⟨r', d, hreceive, hdest, hanswer⟩ :=
    hjoint.answers_resent hpoint (hjoint.resent_lower hpacket)
  have hsent := leads_server (r := r) hstep trivial
  have hlead := hsent.trans (leads_receive hclient hreceive)
  have hreachable := h.reachable.leads hlead
  rcases hanswer with ⟨k, hrr, hk, hle, hrunning⟩ | ⟨hack, hdone⟩
  · have hpolls : Server.Polls { s with point := point } := by
      rcases hwait with ⟨count, -, hpoint⟩ | ⟨count, -, hpoint⟩
      · exact .inr (.inl ⟨count + 1, hpoint⟩)
      · exact .inr (.inr ⟨count + 1, hpoint⟩)
    have hlower : s.window.lower < (k : Int) := by
      rw [hholds.shows.lower]
      exact Int.ofNat_lt.mpr hk
    obtain ⟨s', hlead', hlive, hlt⟩ := leads_released hreachable hdest hrr hlower
      (Nat.le_trans hle hholds.le_length) hpolls hrunning
    exact ⟨_, hlead.trans hlead', .inr ⟨hlive, hlt⟩⟩
  · have hserver : ∀ why, ({ s with point := point } : Server).point ≠ .done why := by
      rintro why rfl
      rcases hwait with ⟨count, -, hpoint⟩ | ⟨count, -, hpoint⟩
      · cases hpoint
      · cases hpoint
    obtain ⟨net, hlead', hcompleted⟩ := leads_completed hreachable hack hdone hserver
    exact ⟨net, hlead.trans hlead', .inl hcompleted⟩

/-- A child that waits is live. -/
theorem Live.waiting (h : P.Live (quiet s r)) (hlead : P.fifo.Leads (quiet s r) (quiet s' r))
    (hwaits : s'.Waits) : P.Live (quiet s' r) := by
  obtain ⟨count, hcount, hpoint⟩ := hwaits
  refine ⟨h.reachable.leads hlead, h.rcopy, fun why hc => ?_, fun c hc => ?_⟩
  · rcases hpoint with hpoint | hpoint
    · cases hpoint.symm.trans hc
    · cases hpoint.symm.trans hc
  · have hc' : s'.point = .windowClosed c ∨ s'.point = .endOfFileWait c := hc
    rcases hpoint with hpoint | hpoint
    · rw [hpoint] at hc'
      rcases hc' with hc | hc
      · cases hc
        exact hcount
      · cases hc
    · rw [hpoint] at hc'
      rcases hc' with hc | hc
      · cases hc
      · cases hc
        exact hcount

/-- One round. -/
theorem leads_round {net : Net} (h : P.Live net) : ∃ net', P.fifo.Leads net net' ∧
    (Completed net' ∨ (P.Live net' ∧ net.server.window.lower < net'.server.window.lower)) := by
  have hquiet := leads_quiet (P := P) net
  have hreachable := h.reachable.leads hquiet
  obtain ⟨L, K, m, a, hin⟩ := inOrder_of_reachable hreachable
  obtain ⟨toRcopy, toServer, hjoint, -⟩ := hin.joint
  have hcurrent : net.rcopy.window.current = a.current := hjoint.rcopy.current
  rcases leads_polling (P.blocks.length + 1) hreachable h.rcopy (by omega) with
    ⟨r, hlead, hpoll⟩ | ⟨r, d, hlead, hdone, hack⟩
  · have hlead₁ := hquiet.trans hlead
    have hlive : P.Live (quiet net.server r) :=
      ⟨h.reachable.leads hlead₁, RcopyPoint.ne_done hpoll, h.server, h.patient⟩
    obtain ⟨s, hlead₂, hwaits, hlower⟩ := leads_waiting hlive
    have hlive' := hlive.waiting hlead₂ hwaits
    obtain ⟨net', hlead₃, hend⟩ := leads_answered hlive' hwaits hpoll
    refine ⟨net', hlead₁.trans (hlead₂.trans hlead₃), hend.imp_right fun ⟨hlive, hlt⟩ => ?_⟩
    rw [hlower] at hlt
    exact ⟨hlive, hlt⟩
  · have hlead₁ := hquiet.trans hlead
    obtain ⟨net', hlead₂, hcompleted⟩ :=
      leads_completed (h.reachable.leads hlead₁) hack hdone h.server
    exact ⟨net', hlead₁.trans hlead₂, .inl hcompleted⟩

end

/-- **Recovery.** From every state in which neither program has ended and the child has counted at
most eight timeouts, the transfer can be completed: both programs end through the EOF ACK, and the
file is there. -/
theorem completed_of_live {net : Net} (h : P.fifo.Reachable net)
    (hrcopy : ∀ why, net.rcopy.point ≠ .done why) (hserver : ∀ why, net.server.point ≠ .done why)
    (hpatient : ∀ count, net.server.point = .windowClosed count ∨
      net.server.point = .endOfFileWait count → count ≤ 8) :
    ∃ net', P.fifo.Leads net net' ∧ net'.server.point = .done .eofAck ∧
      net'.rcopy.point = .done .eofAck ∧ net'.rcopy.outputFile = P.blocks := by
  have hround : ∀ net, P.Live net → ∃ net', P.fifo.Leads net net' ∧ (Completed net' ∨
      (P.Live net' ∧ P.blocks.length - net'.server.window.lower.toNat
        < P.blocks.length - net.server.window.lower.toNat)) := by
    intro net hlive
    obtain ⟨net', hlead, hend⟩ := leads_round hlive
    refine ⟨net', hlead, hend.imp_right fun ⟨hlive', hlt⟩ => ⟨hlive', ?_⟩⟩
    obtain ⟨L, K, m, a, hin⟩ := inOrder_of_reachable hlive'.reachable
    obtain ⟨toRcopy, toServer, hjoint, -⟩ := hin.joint
    have hlower : net'.server.window.lower = L := hjoint.server.shows.lower
    have hle := hjoint.server.lower_le
    have hlength := hjoint.server.le_length
    obtain ⟨L₀, K₀, m₀, a₀, hin₀⟩ := inOrder_of_reachable hlive.reachable
    obtain ⟨toRcopy₀, toServer₀, hjoint₀, -⟩ := hin₀.joint
    have hlower₀ : net.server.window.lower = L₀ := hjoint₀.server.shows.lower
    omega
  obtain ⟨net', hlead, hserver', hrcopy'⟩ :=
    System.Leads.of_measure (I := P.Live)
      (fun net : Net => P.blocks.length - net.server.window.lower.toNat) hround
      ⟨h, hrcopy, hserver, hpatient⟩
  obtain ⟨L, K, m, a, hin⟩ := inOrder_of_reachable (h.leads hlead)
  obtain ⟨toRcopy, toServer, hjoint, -⟩ := hin.joint
  have hpoint : a.point = .done .eofAck := hjoint.rcopy.point.symm.trans hrcopy'
  refine ⟨net', hlead, hserver', hrcopy', ?_⟩
  have hfile : net'.rcopy.outputFile = P.blocks.take a.current := hjoint.file_eq
  rw [hfile, hjoint.current_eq_length hpoint, List.take_length]

/-- With its only block lost and the EOF buffered, the transfer can still be completed. -/
theorem completed_smallNet : ∃ net net', smallTransfer.fifo.Reachable net ∧
    net.rcopy.point = .buffering ∧ smallTransfer.fifo.Leads net net' ∧
    net'.rcopy.outputFile = [[1]] := by
  have hinit : smallTransfer.fifo.Reachable smallNet := .init initial_smallNet
  obtain ⟨net, hnet, hstate⟩ := hinit.exists_of_run smallTransfer.fifoNext
    (fun _ _ _ => fifo_of_fifoNext smallTransfer) blockLost
    (fun net => decide (net.rcopy.point = .buffering ∧ net.server.point = .endOfFileWait 0))
    (by decide +kernel)
  obtain ⟨hrcopy, hserver⟩ := of_decide_eq_true hstate
  obtain ⟨net', hlead, -, -, hfile⟩ := completed_of_live hnet
    (fun why hc => by cases hrcopy.symm.trans hc) (fun why hc => by cases hserver.symm.trans hc)
    fun count hc => by
      rcases hc with hc | hc
      · cases hserver.symm.trans hc
      · cases hserver.symm.trans hc
        omega
  exact ⟨net, net', hnet, hrcopy, hlead, hfile⟩

end Transfer

end RemoteCopy

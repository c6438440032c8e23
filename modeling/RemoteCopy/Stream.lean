import RemoteCopy.ServerPeer

/-!
# The stream of the server child

`window_open` reads a block and sends it at once, and is left and entered again on four different
conditions between one block and the next. Whatever comes in, the datagrams that carry
`DATA_PACKET_FLAG` are the blocks of the file, each once and in order, and the EOF comes after them
(`Server.streams_of_reachable`). No part of this depends on the window, which an RR can break: the
number of a fresh block is `current`, and a resend never carries the flag of a fresh block, because
the slots hold nothing but blocks and EOFs.
-/

namespace RemoteCopy

/-! ## The datagrams -/

/-- What a stream consists of: blocks as they are first sent, and EOFs. -/
inductive Item where
  | block (number : Nat) (payload : Bytes)
  | eof (number : Nat)
  deriving DecidableEq, Repr

/-- What a datagram adds to the stream, as a host reads it. -/
def Datagram.item (o : ByteOrder) (d : Datagram) : Option Item :=
  match processPDU o d.bytes d.bytes.length with
  | none => none
  | some pdu =>
      if pdu.recvFlag = dataPacketFlag then some (.block pdu.sequenceNumber.toNat pdu.payload)
      else if pdu.recvFlag = eofFlag then some (.eof pdu.sequenceNumber.toNat)
      else none

/-- The stream that the datagrams make up. -/
def stream (o : ByteOrder) (ds : List Datagram) : List Item := ds.filterMap (Datagram.item o)

/-- Every one of the datagrams is accepted by a host that receives it as it was sent. -/
def Intact (o : ByteOrder) (ds : List Datagram) : Prop :=
  ∀ d ∈ ds, ∃ pdu, processPDU o d.bytes d.bytes.length = some pdu

/-- `read` cuts the file into blocks that fit the buffer, none of them empty. -/
structure Reads (file : Bytes) (bufferSize : Nat) (blocks : List Bytes) : Prop where
  file : blocks.flatten = file
  block : ∀ block ∈ blocks, block ≠ [] ∧ block.length ≤ bufferSize

section
variable (o o' : ByteOrder) (dest : Addr) (seq : UInt32) {payload : Bytes}

theorem item_encodePDU (flag : Byte) (hlen : payload.length < 65000) :
    Datagram.item o' ⟨dest, encodePDU o seq flag payload⟩
      = if flag = dataPacketFlag then some (.block seq.toNat payload)
        else if flag = eofFlag then some (.eof seq.toNat) else none := by
  have htake : payload.take payload.length = payload := List.take_length
  simp only [Datagram.item, (accepted_encodePDU o o' seq flag hlen).process, ReceivedPdu.payload,
    htake]

theorem stream_block (hlen : payload.length < 65000) :
    stream o' [⟨dest, encodePDU o seq dataPacketFlag payload⟩] = [.block seq.toNat payload] := by
  have hitem := item_encodePDU o o' dest seq dataPacketFlag hlen
  rw [if_pos rfl] at hitem
  rw [stream, List.filterMap_cons_some hitem]
  rfl

theorem stream_eof (hlen : payload.length < 65000) :
    stream o' [⟨dest, encodePDU o seq eofFlag payload⟩] = [.eof seq.toNat] := by
  have hitem := item_encodePDU o o' dest seq eofFlag hlen
  rw [if_neg (by decide), if_pos rfl] at hitem
  rw [stream, List.filterMap_cons_some hitem]
  rfl

theorem stream_other {flag : Byte} (hlen : payload.length < 65000) (hdata : flag ≠ dataPacketFlag)
    (heof : flag ≠ eofFlag) : stream o' [⟨dest, encodePDU o seq flag payload⟩] = [] := by
  have hitem := item_encodePDU o o' dest seq flag hlen
  rw [if_neg hdata, if_neg heof] at hitem
  rw [stream, List.filterMap_cons_none hitem]
  rfl

theorem intact_encodePDU (flag : Byte) (hlen : payload.length < 65000) :
    Intact o' [⟨dest, encodePDU o seq flag payload⟩] := by
  intro d hd
  rw [List.mem_singleton.mp hd]
  exact ⟨_, (accepted_encodePDU o o' seq flag hlen).process⟩

end

theorem Intact.append {o : ByteOrder} {ds ds' : List Datagram} (h : Intact o ds)
    (h' : Intact o ds') : Intact o (ds ++ ds') := by
  intro d hd
  rcases List.mem_append.mp hd with hd | hd
  · exact h d hd
  · exact h' d hd

/-- What a slot holds is short enough for the checksum. -/
theorem Packet.length_payload_lt (packet : Packet) : packet.payload.length < 65000 := by
  have hfits := packet.fits
  rw [Packet.payload, List.length_drop]
  simp only [maxPduLen] at hfits
  omega

namespace Server

variable {o o' : ByteOrder} {s s' s₀ : Server} {blocks : List Bytes} {items : List Item} {k : Nat}
  {eofs : List Nat}

/-! ## The invariant -/

/-- The child has sent the first `k` blocks, and then EOFs with the numbers `eofs`. -/
structure Streams (s : Server) (blocks : List Bytes) (items : List Item) (k : Nat)
    (eofs : List Nat) : Prop where
  items : items = (blocks.take k).mapIdx Item.block ++ eofs.map Item.eof
  current : s.window.current = k
  current_lt : k < 2147483648
  le_length : k ≤ blocks.length
  file : s.dataFile = blocks.drop k
  first : eofs ≠ [] → k = blocks.length ∧ eofs.head? = some blocks.length
  beforeEof : s.point.beforeEof = true → eofs = []
  slots : ∀ i packet, s.window.slot i = some packet →
    byteAt packet.pdu recvFlagLocation = dataPacketFlag ∨
      (byteAt packet.pdu recvFlagLocation = eofFlag ∧ eofs ≠ [])
  poised : s.Poised

theorem Streams.start {bufferSize windowSize : Int} {client : Addr}
    (h : start windowSize bufferSize blocks client = .ok s) : s.Streams blocks [] 0 [] := by
  obtain ⟨hwindow, hpoint, hfile, -, -⟩ := of_start h
  have hcurrent : s.window.current = (0 : Nat) := by
    unfold makeWindow at hwindow
    split at hwindow
    · rw [← Option.some.inj hwindow]
      rfl
    · cases hwindow
  refine ⟨rfl, hcurrent, by simp, Nat.zero_le _, hfile, fun hne => absurd rfl hne, fun _ => rfl,
    fun i packet hslot => ?_, poised_of_windowOpen hpoint⟩
  rw [WindowArray.slot_makeWindow hwindow i] at hslot
  cases hslot

/-- A step that adds nothing but, perhaps, EOFs after EOFs. -/
theorem Streams.continues (h : s.Streams blocks items k eofs) (hcurrent : s'.window.current = k)
    (hslots : ∀ i packet, s'.window.slot i = some packet → s.window.slot i = some packet)
    (hcontinues : s.Continues s') (hpoised : s'.Poised) (more : List Nat)
    (hmore : more ≠ [] → eofs ≠ []) :
    s'.Streams blocks (items ++ more.map Item.eof) k (eofs ++ more) where
  items := by rw [h.items, List.append_assoc, List.map_append]
  current := hcurrent
  current_lt := h.current_lt
  le_length := h.le_length
  file := hcontinues.file.trans h.file
  first := by
    intro hne
    have heofs : eofs ≠ [] := by
      rintro rfl
      exact hmore (by simpa using hne) rfl
    obtain ⟨hk, hhead⟩ := h.first heofs
    exact ⟨hk, by rw [List.head?_append, hhead]; rfl⟩
  beforeEof := by
    intro hbefore
    have heofs := h.beforeEof (hcontinues.beforeEof hbefore)
    have hnone : more = [] := by
      by_contra hne
      exact hmore hne heofs
    rw [heofs, hnone]
    rfl
  slots := by
    intro i packet hslot
    refine (h.slots i packet (hslots i packet hslot)).imp_right fun hold => ⟨hold.1, fun hnil => ?_⟩
    exact hold.2 (List.append_eq_nil_iff.mp hnil).1
  poised := hpoised

/-- A slot that a PDU was added to holds what it held or the flag of that PDU. -/
theorem flag_of_addPDU {w w' : WindowArray} {number : Int} {seq : UInt32} {flag : Byte}
    {payload : Bytes} {j : Nat} {packet : Packet}
    (hadd : w.addPDU (encodePDU o seq flag payload) (encodePDU o seq flag payload).length number
      = .ok w') (hj : w'.slot j = some packet) :
    w.slot j = some packet ∨ byteAt packet.pdu recvFlagLocation = flag := by
  refine (WindowArray.pdu_of_addPDU hadd hj).imp_right fun hpdu => ?_
  rw [hpdu, List.take_length, byteAt_encodePDU]

/-- A step that sends the next block. -/
theorem Streams.sent (h : s.Streams blocks items k eofs) {payload buf : Bytes} {rest : List Bytes}
    {w : WindowArray} (hpoint : s.point = .windowOpen) (hfile : s.dataFile = payload :: rest)
    (hsend : sendDataPacket o s.window payload = .ok (w, buf)) :
    buf = encodePDU o (toUInt32 k) dataPacketFlag payload ∧ payload ∈ blocks ∧
      Streams { s with point := .windowOpenPoll, window := w, dataFile := rest } blocks
        (items ++ [.block k payload]) (k + 1) [] := by
  obtain ⟨rfl, hlt, w₁, hadd, rfl⟩ := of_sendDataPacket hsend
  have hcurrent := h.current
  have hnil := h.beforeEof (by rw [hpoint]; rfl)
  have hdrop : blocks.drop k = payload :: rest := h.file.symm.trans hfile
  have hget : blocks[k]? = some payload := by
    rw [← List.head?_drop, hdrop, List.head?_cons]
  have hk : k < blocks.length := (List.getElem?_eq_some_iff.mp hget).1
  refine ⟨by rw [hcurrent], List.mem_of_getElem? hget, ?_⟩
  exact {
    items := by
      have hlen : (blocks.take k).length = k := List.length_take_of_le h.le_length
      have htake : blocks.take (k + 1) = blocks.take k ++ [payload] := by
        rw [List.take_add_one, hget]
        rfl
      rw [h.items, hnil, htake, List.mapIdx_concat, hlen, List.map_nil, List.append_nil,
        List.append_nil]
    current := by
      show s.window.current + 1 = ((k + 1 : Nat) : Int)
      omega
    current_lt := by omega
    le_length := hk
    file := by
      show rest = blocks.drop (k + 1)
      rw [← List.drop_drop, hdrop]
      rfl
    first := fun hne => absurd rfl hne
    beforeEof := fun _ => rfl
    slots := by
      intro j packet hj
      rcases flag_of_addPDU hadd hj with hold | hflag
      · rcases h.slots j packet hold with hdata | ⟨-, hne⟩
        · exact .inl hdata
        · exact absurd hnil hne
      · exact .inl hflag
    poised := ⟨fun _ hc => (by cases hc), fun hc => (by cases hc), fun _ hc => (by cases hc)⟩ }

/-- The step that sends the EOF for the first time. -/
theorem Streams.sentEof (h : s.Streams blocks items k eofs) {buf : Bytes} {junk : Byte}
    {w : WindowArray} (hpoint : s.point = .endOfFile)
    (hsend : RemoteCopy.sendEof o s.window junk = .ok (w, buf)) :
    buf = encodePDU o (toUInt32 k) eofFlag [junk] ∧
      Streams { s with point := .endOfFileWait 0, window := w } blocks (items ++ [.eof k]) k
        [k] := by
  obtain ⟨rfl, hadd⟩ := of_sendEof hsend
  have hcurrent := h.current
  have hnil := h.beforeEof (by rw [hpoint]; rfl)
  have hk : k = blocks.length := by
    have hread := (h.poised.endOfFile hpoint).1
    have hle := List.drop_eq_nil_iff.mp (h.file.symm.trans hread)
    exact Nat.le_antisymm h.le_length hle
  refine ⟨by rw [hcurrent], ?_⟩
  exact {
    items := by rw [h.items, hnil, List.map_nil, List.append_nil]; rfl
    current := (WindowArray.edges_of_addPDU hadd).2.2.1.trans hcurrent
    current_lt := h.current_lt
    le_length := h.le_length
    file := h.file
    first := fun _ => ⟨hk, by rw [← hk]; rfl⟩
    beforeEof := fun hc => (by cases hc)
    slots := by
      intro j packet hj
      rcases flag_of_addPDU hadd hj with hold | hflag
      · rcases h.slots j packet hold with hdata | ⟨-, hne⟩
        · exact .inl hdata
        · exact absurd hnil hne
      · exact .inr ⟨hflag, List.cons_ne_nil _ _⟩
    poised := poised_endOfFileLoop { s with window := w } 0 }

/-! ## The run -/

/-- A resend adds nothing to the stream, or another EOF if one was sent before. -/
theorem Streams.resent (h : s.Streams blocks items k eofs) {i : ServerInput} {number : Int}
    {flag : Byte} {buf : Bytes} (hcause : ResendCause o s i number flag)
    (hresend : resendDataPacket o s.window (toUInt32 number) flag s.bufferSize = .ok buf)
    (o' : ByteOrder) (dest : Addr) :
    Intact o' [⟨dest, buf⟩] ∧ ∃ more : List Nat, stream o' [⟨dest, buf⟩] = more.map Item.eof ∧
      (more ≠ [] → eofs ≠ []) := by
  obtain ⟨j, packet, -, hslot, -, -, rfl⟩ := exists_of_resendDataPacket hresend
  have hlen := packet.length_payload_lt
  refine ⟨intact_encodePDU o o' dest _ _ hlen, ?_⟩
  rw [Packet.resentFlag]
  rcases h.slots j packet hslot with hdata | ⟨heof, hne⟩
  · rw [if_pos hdata]
    refine ⟨[], ?_, fun hnil => absurd rfl hnil⟩
    cases hcause with
    | srej _ => exact stream_other o o' dest _ hlen (by decide) (by decide)
    | timeout _ => exact stream_other o o' dest _ hlen (by decide) (by decide)
  · rw [heof, if_neg (by decide)]
    exact ⟨[(toUInt32 number).toNat], stream_eof o o' dest _ hlen, fun _ => hne⟩

/-- **What a step sends continues the stream**, whatever comes in. -/
theorem Streams.step (h : s.Streams blocks items k eofs)
    (hblocks : ∀ block ∈ blocks, block.length ≤ 1400) {i : ServerInput} {ds : List Datagram}
    (hstep : s.step o i = some (.ok (s', ds))) (o' : ByteOrder) :
    (∃ k' eofs', s'.Streams blocks (items ++ stream o' ds) k' eofs') ∧ Intact o' ds ∧
      ∀ number payload, .block number payload ∈ stream o' ds →
        s.window.current < s.window.upper := by
  have hlt := h.current_lt
  have hnumber : (toUInt32 (k : Int)).toNat = k := toNat_toUInt32_natCast (by omega)
  obtain ⟨heffect, hpoised, -, -⟩ := stepped hstep
  cases heffect with
  | idle hwindow hcontinues hack =>
      refine ⟨⟨k, _, h.continues (hwindow ▸ h.current) (fun _ _ hj => hwindow ▸ hj) hcontinues
        hpoised [] fun hnil => absurd rfl hnil⟩, fun d hd => (by cases hd), ?_⟩
      intro number payload hmem
      cases hmem
  | @sent readFails junk payload buf rest w hpoint hopen hfile hsend =>
      obtain ⟨rfl, hmem, h'⟩ := h.sent hpoint hfile hsend
      have hlen := hblocks payload hmem
      rw [stream_block o o' s.client (toUInt32 k) (by omega), hnumber]
      refine ⟨⟨k + 1, [], h'⟩, intact_encodePDU o o' s.client _ _ (by omega), fun _ _ _ => ?_⟩
      exact of_decide_eq_true hopen
  | @sentEof readFails junk buf w hpoint hsend =>
      obtain ⟨rfl, h'⟩ := h.sentEof hpoint hsend
      rw [stream_eof o o' s.client (toUInt32 k) (by simp), hnumber]
      refine ⟨⟨k, [k], h'⟩, intact_encodePDU o o' s.client _ _ (by simp), ?_⟩
      intro number payload hmem
      cases List.mem_singleton.mp hmem
  | released hcontrol hclean hcontinues hdone =>
      have hcurrent := (current_of_cleaningUpWithRR hclean).trans h.current
      refine ⟨⟨k, _, h.continues hcurrent (fun _ _ => slot_of_cleaningUpWithRR hclean) hcontinues
        hpoised [] fun hnil => absurd rfl hnil⟩, fun d hd => (by cases hd), ?_⟩
      intro number payload hmem
      cases hmem
  | resent hcause hresend hwindow hcontinues hack =>
      obtain ⟨hintact, more, hstream, hmore⟩ := h.resent hcause hresend o' s'.client
      rw [hstream]
      refine ⟨⟨k, _, h.continues (hwindow ▸ h.current) (fun _ _ hj => hwindow ▸ hj) hcontinues
        hpoised more hmore⟩, hintact, ?_⟩
      intro number payload hmem
      obtain ⟨x, -, hx⟩ := List.mem_map.mp hmem
      cases hx

theorem streams_of_logged {bufferSize windowSize : Int} {client : Addr}
    (hblocks : ∀ block ∈ blocks, block.length ≤ 1400)
    (hstart : Server.start windowSize bufferSize blocks client = .ok s₀) (o' : ByteOrder)
    {x : Server × List Datagram} (h : ((system o s₀).logged Prod.snd).Reachable x) :
    Intact o' x.2 ∧ ∃ k eofs, x.1.Streams blocks (stream o' x.2) k eofs := by
  refine System.Reachable.invariant (P := fun x => Intact o' x.2 ∧
    ∃ k eofs, x.1.Streams blocks (stream o' x.2) k eofs) ?_ ?_ h
  · rintro x ⟨rfl, hlog⟩
    rw [hlog]
    exact ⟨fun d hd => (by cases hd), 0, [], .start hstart⟩
  · rintro x l x' - ⟨hintact, k, eofs, hx⟩ ⟨hstep, hlog⟩
    have happend : stream o' x'.2 = stream o' x.2 ++ stream o' l.2 := by
      rw [hlog]
      exact List.filterMap_append
    obtain ⟨hstreams, hintact', -⟩ := hx.step hblocks hstep o'
    rw [happend, hlog]
    exact ⟨hintact.append hintact', hstreams⟩

/-- **The stream of the child.** Whatever comes in, and however `read` cuts the file: the datagrams
sent under `DATA_PACKET_FLAG` are the first blocks of the file, numbered from 0, and make up what
has been read of it; a fresh block is only sent into an open window; and all EOFs come after the
blocks, once there is none left, the first of them with the number of the blocks. -/
theorem streams_of_reachable {windowSize : Int} {bufferSize : Nat} {client : Addr} {file : Bytes}
    (hsize : bufferSize ≤ 1400) (hreads : Reads file bufferSize blocks)
    (hstart : Server.start windowSize bufferSize blocks client = .ok s₀) {log : List Datagram}
    (h : ((system o s₀).logged Prod.snd).Reachable (s, log)) (o' : ByteOrder) :
    Intact o' log ∧
    ∃ k eofs, stream o' log = (blocks.take k).mapIdx Item.block ++ eofs.map Item.eof ∧
      (blocks.take k).flatten ++ s.dataFile.flatten = file ∧
      (eofs ≠ [] → k = blocks.length ∧ eofs.head? = some blocks.length) ∧
      ∀ i s' ds, s.step o i = some (.ok (s', ds)) → ∀ number payload,
        .block number payload ∈ stream o' ds → s.window.current < s.window.upper := by
  have hblocks : ∀ block ∈ blocks, block.length ≤ 1400 := fun block hb =>
    Nat.le_trans (hreads.block block hb).2 hsize
  obtain ⟨hintact, k, eofs, hs⟩ := streams_of_logged hblocks hstart o' h
  refine ⟨hintact, k, eofs, hs.items, ?_, hs.first,
    fun i s' ds hstep => (hs.step hblocks hstep o').2.2⟩
  rw [hs.file, ← List.flatten_append, List.take_append_drop, hreads.file]

/-- A step of the child with what it sends, computed. -/
def loggedNext (o : ByteOrder) (x : Server × List Datagram) (i : ServerInput) :
    Option (Server × List Datagram) :=
  match x.1.step o i with
  | some (.ok y) => some (y.1, x.2 ++ y.2)
  | _ => none

theorem step_of_loggedNext {x x' : Server × List Datagram} {i : ServerInput}
    (h : loggedNext o x i = some x') :
    ∃ l, ((system o s₀).logged Prod.snd).step x l x' := by
  unfold loggedNext at h
  split at h
  · next y hstep =>
      cases h
      exact ⟨(i, y.2), hstep, rfl⟩
  · cases h

/-- Two blocks and the EOF, with a timeout before the first acknowledgement. -/
theorem streams_smallServer : ∃ x : Server × List Datagram,
    stream .little x.2 = [.block 0 [1], .block 1 [2], .eof 2] ∧
    ∃ (k : Nat) (eofs : List Nat), stream .little x.2
      = (([[1], [2]] : List Bytes).take k).mapIdx Item.block ++ eofs.map Item.eof := by
  have hinit : ((system .little smallServer).logged Prod.snd).Reachable (smallServer, []) :=
    .init ⟨rfl, rfl⟩
  obtain ⟨x, hx, hp⟩ := hinit.exists_of_run (loggedNext .little)
    (fun _ _ _ => step_of_loggedNext)
    [.run false 0, .poll .timeout, .run false 0, .poll .timeout, receives rrFlag 1, .run false 0,
      receives rrFlag 2, .run false 0, .run false 9]
    (fun x => decide (stream .little x.2 = [.block 0 [1], .block 1 [2], .eof 2]))
    (by decide +kernel)
  have hreads : Reads [1, 2] 108 [[1], [2]] := by
    refine ⟨rfl, fun block hblock => ?_⟩
    rcases List.mem_cons.mp hblock with rfl | hblock
    · exact ⟨by simp, by simp⟩
    · cases List.mem_singleton.mp hblock
      exact ⟨by simp, by simp⟩
  obtain ⟨-, k, eofs, hitems, -⟩ :=
    streams_of_reachable (by decide) hreads start_smallServer hx .little
  exact ⟨x, of_decide_eq_true hp, k, eofs, hitems⟩

end Server

end RemoteCopy

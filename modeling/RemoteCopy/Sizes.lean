import RemoteCopy.WindowCalls
import RemoteCopy.ServerPeer
import RemoteCopy.Request

/-!
# The sizes of what is stored

`add_PDU` copies a PDU into an array of 1407 bytes without looking at its length. What the length is
follows from elsewhere: on the receiver's side from the buffer that it receives into, which
`checkArgs` has bounded, and on the child's from the block that it has read, whose size came with
the request and which nothing has bounded (`storedFit_iff`). A PDU whose slot is occupied is not
copied at all.
-/

namespace RemoteCopy

variable {o : ByteOrder}

/-- The PDU has a header and a payload of at least `least` bytes, and fits the array of a
`packet`. -/
def FitsPacket (least : Nat) (pdu : Bytes) : Prop :=
  pduHeaderLen + least ≤ pdu.length ∧ pdu.length ≤ maxPduLen

/-! ## What `add_PDU` does -/

namespace WindowArray

variable {w w' : WindowArray} {x : Int} {pdu : Bytes} {len : Nat}

theorem exists_of_checkPDUValid (h : w.checkPDUValid x = .ok false) :
    ∃ j, w.index x = .ok j ∧ w.slot j = none := by
  obtain ⟨j, hindex, hnone⟩ := C.bind_eq_ok.mp h
  exact ⟨j, hindex, Option.isNone_iff_eq_none.mp (by simpa using Except.ok.inj hnone)⟩

/-- It fills a slot that is free. -/
theorem filled_of_addPDU (hfree : w.checkPDUValid x = .ok false)
    (hadd : w.addPDU pdu len x = .ok w') : ∃ j packet, w.slot j = none ∧
      w'.slot j = some packet ∧ packet.pdu = pdu.take len := by
  obtain ⟨j, hindex, hnone⟩ := exists_of_checkPDUValid hfree
  rw [addPDU, hindex, C.ok_bind, hnone] at hadd
  simp only at hadd
  split at hadd
  · cases hadd
    exact ⟨j, _, hnone, slot_store_self hindex _, rfl⟩
  · cases hadd

/-- It leaves one alone that is not. -/
theorem eq_of_addPDU (hfree : w.checkPDUValid x ≠ .ok false)
    (hadd : w.addPDU pdu len x = .ok w') : w' = w := by
  obtain ⟨j, hindex, hadd⟩ := C.bind_eq_ok.mp hadd
  split at hadd
  · cases hadd
    rfl
  · next hnone =>
      refine absurd ?_ hfree
      rw [checkPDUValid, hindex, C.ok_bind, hnone]
      rfl

/-- What is too long goes past the end of a slot that is free. -/
theorem addPDU_overrun (hfree : w.checkPDUValid x = .ok false) (hlen : maxPduLen < len) :
    w.addPDU pdu len x = .error .bufferOverrun := by
  obtain ⟨j, hindex, hnone⟩ := exists_of_checkPDUValid hfree
  rw [addPDU, hindex, C.ok_bind, hnone]
  exact dif_neg (Nat.not_le.mpr hlen)

end WindowArray

namespace Server

variable {s s' : Server} {i : ServerInput} {ds : List Datagram}

/-! ## What the child stores -/

/-- What the `read` of `window_open` returns in a step, if there is one. -/
def reads (s : Server) (i : ServerInput) : List Bytes :=
  match s.point, i with
  | .windowOpen, .run readFails _ =>
      if s.window.checkWindowOpen = true ∧ 0 < s.bufferSize ∧ readFails = false
      then s.dataFile.take 1
      else []
  | _, _ => []

/-- The PDUs that `send_data_packet` and `send_eof` hand to `add_PDU` in a step. -/
def pdus (o : ByteOrder) (s : Server) (i : ServerInput) : List Bytes :=
  match s.point, i with
  | .windowOpen, .run _ _ =>
      (s.reads i).map (encodePDU o (toUInt32 s.window.current) dataPacketFlag)
  | .endOfFile, .run _ junk => [encodePDU o (toUInt32 s.window.current) eofFlag [junk]]
  | _, _ => []

theorem of_mem_reads {block : Bytes} (h : block ∈ s.reads i) : ∃ junk rest,
    i = .run false junk ∧ s.point = .windowOpen ∧ s.window.checkWindowOpen = true ∧
      0 < s.bufferSize ∧ s.dataFile = block :: rest := by
  unfold reads at h
  split at h
  · next readFails junk hpoint =>
      split at h
      · next hreads =>
          obtain ⟨hopen, hsize, rfl⟩ := hreads
          cases hfile : s.dataFile with
          | nil =>
              rw [hfile] at h
              cases h
          | cons payload rest =>
              rw [hfile, List.take_succ_cons, List.take_zero, List.mem_singleton] at h
              exact ⟨junk, rest, rfl, hpoint, hopen, hsize, h ▸ rfl⟩
      · cases h
  · cases h

theorem mem_dataFile_of_reads {block : Bytes} (h : block ∈ s.reads i) : block ∈ s.dataFile := by
  obtain ⟨-, rest, -, -, -, -, hfile⟩ := of_mem_reads h
  rw [hfile]
  exact List.mem_cons_self

/-- There is one for each call. -/
theorem length_pdus (o : ByteOrder) (s : Server) (i : ServerInput) :
    (s.pdus o i).length = (s.adds i).length := by
  unfold pdus
  split
  · next readFails junk hpoint =>
      simp only [reads, adds, hpoint, List.length_map]
      cases s.dataFile with
      | nil =>
          simp only [List.take_nil, ite_self, ne_eq, not_true_eq_false, and_false, if_false]
          rfl
      | cons payload rest =>
          simp only [ne_eq, reduceCtorEq, not_false_eq_true, and_true]
          split <;> rfl
  · next hpoint => simp only [adds, hpoint, List.length_singleton]
  · next hopen heof =>
      unfold adds
      split
      · next readFails junk hpoint => exact absurd rfl (hopen readFails junk hpoint)
      · next readFails junk hpoint => exact absurd rfl (heof readFails junk hpoint)
      · rfl

/-- A block that is sent is the one that was read. -/
theorem pdus_of_sent {junk : Byte} {payload buf : Bytes} {rest : List Bytes} {w : WindowArray}
    (hpoint : s.point = .windowOpen) (hopen : s.window.checkWindowOpen = true)
    (hsize : 0 < s.bufferSize) (hfile : s.dataFile = payload :: rest)
    (hsend : sendDataPacket o s.window payload = .ok (w, buf)) :
    s.pdus o (.run false junk) = [buf] := by
  have hreads : s.reads (.run false junk) = [payload] := by
    simp only [reads, hpoint, hopen, hsize, hfile, and_self, if_true, List.take_succ_cons,
      List.take_zero]
  simp only [pdus, hpoint, hreads, List.map_singleton, (of_sendDataPacket hsend).1]

theorem pdus_of_sentEof {readFails : Bool} {junk : Byte} {buf : Bytes} {w : WindowArray}
    (hpoint : s.point = .endOfFile) (hsend : sendEof o s.window junk = .ok (w, buf)) :
    s.pdus o (.run readFails junk) = [buf] := by
  simp only [pdus, hpoint, (of_sendEof hsend).1]

/-- The slot is free that the next PDU goes to. -/
def SlotFree (s : Server) : Prop :=
  s.window.checkPDUValid (toInt32 (toUInt32 s.window.current)) = .ok false

instance (s : Server) : Decidable s.SlotFree := inferInstanceAs (Decidable (_ = _))

/-- The PDUs that `add_PDU` copies into the window in a step. They have been sent before that, and a
`sendto` that fails has ended the program; and a PDU whose slot is occupied is not copied. -/
def stored (o : ByteOrder) (s : Server) (i : ServerInput) (sendFails : Bool) : List Bytes :=
  if sendFails = false ∧ s.SlotFree then s.pdus o i else []

/-- What the slots hold after a step that stores what is `stored`, and nothing else. -/
structure Filled (s s' : Server) (stored : List Bytes) : Prop where
  added : ∀ pdu ∈ stored, ∃ j packet, s.window.slot j = none ∧
    s'.window.slot j = some packet ∧ packet.pdu = pdu
  only : ∀ j packet, s'.window.slot j = some packet →
    s.window.slot j = some packet ∨ packet.pdu ∈ stored

theorem stored_of_free (h : s.SlotFree) : s.stored o i false = s.pdus o i :=
  if_pos ⟨rfl, h⟩

theorem stored_of_occupied (h : ¬ s.SlotFree) (sendFails : Bool) :
    s.stored o i sendFails = [] := if_neg fun hc => h hc.2

/-- Where no PDU is handed over, none is stored. -/
theorem filled_of_adds (hadds : s.adds i = [])
    (hslot : ∀ j packet, s'.window.slot j = some packet → s.window.slot j = some packet) :
    Filled s s' (s.stored o i false) := by
  have hpdus : s.pdus o i = [] := by
    rw [← List.length_eq_zero_iff, length_pdus, hadds, List.length_nil]
  refine ⟨fun pdu hpdu => ?_, fun j packet hj => .inl (hslot j packet hj)⟩
  unfold stored at hpdu
  split at hpdu
  · rw [hpdus] at hpdu
    cases hpdu
  · cases hpdu

/-- A PDU that is handed over is stored if its slot is free. -/
theorem filled_of_addPDU {buf : Bytes} {w : WindowArray} (hpdus : s.pdus o i = [buf])
    (hadd : s.window.addPDU buf buf.length (toInt32 (toUInt32 s.window.current)) = .ok w)
    (hslot : ∀ j, s'.window.slot j = w.slot j) : Filled s s' (s.stored o i false) := by
  by_cases hfree : s.SlotFree
  · rw [stored_of_free hfree, hpdus]
    refine ⟨fun pdu hpdu => ?_, fun j packet hj => ?_⟩
    · obtain ⟨j, packet, hnone, hfilled, heq⟩ := WindowArray.filled_of_addPDU hfree hadd
      rw [List.take_length] at heq
      exact ⟨j, packet, hnone, (hslot j).trans hfilled, heq.trans (List.mem_singleton.mp hpdu).symm⟩
    · refine (WindowArray.pdu_of_addPDU hadd ((hslot j).symm.trans hj)).imp_right fun heq => ?_
      rw [heq, List.take_length]
      exact List.mem_singleton_self buf
  · rw [stored_of_occupied hfree]
    refine ⟨fun pdu hpdu => (by cases hpdu), fun j packet hj => .inl ?_⟩
    rw [← WindowArray.eq_of_addPDU hfree hadd, ← hslot j]
    exact hj

/-- **A step fills the slots with what is stored in it**, and with nothing else. -/
theorem filled_of_step (h : s.step o i = some (.ok (s', ds))) :
    Filled s s' (s.stored o i false) := by
  have hmoves := moves_of_step h
  generalize hw : s'.window = w' at hmoves
  cases hmoves with
  | still hadds _ => exact filled_of_adds hadds fun j packet hj => hw ▸ hj
  | sent hpoint hopen hsize hfile _ hsend =>
      obtain ⟨-, -, w₁, hadd, rfl⟩ := of_sendDataPacket hsend
      exact filled_of_addPDU (pdus_of_sent hpoint hopen hsize hfile hsend) hadd
        fun j => by rw [hw]; rfl
  | sentEof hpoint _ hsend =>
      exact filled_of_addPDU (pdus_of_sentEof hpoint hsend) (of_sendEof hsend).2
        fun j => by rw [hw]
  | released hadds _ hclean =>
      exact filled_of_adds hadds fun j packet hj => slot_of_cleaningUpWithRR hclean (hw ▸ hj)

/-! ## How long it is -/

/-- The child reads what `filename` has opened, in pieces that are not empty and fit the size. -/
theorem reads_of_filename {files : Files} {client : Addr} {buf : Bytes} {recvLen : Nat}
    {opened : Opened} (h : filename o files client buf recvLen = .ok (some opened, ds)) :
    ∀ block ∈ opened.dataFile, block ≠ [] ∧ (block.length : Int) ≤ opened.bufSize := by
  cases hprocess : processPDU o buf recvLen with
  | none =>
      rw [filename_rejected hprocess] at h
      cases h
  | some pdu =>
      rw [filename_eq hprocess] at h
      obtain ⟨request, -, h⟩ := C.bind_eq_ok.mp h
      unfold answer at h
      split at h
      · next dataFile hreads =>
          obtain ⟨buffer, -, h⟩ := C.bind_eq_ok.mp h
          cases h
          exact files.reads_fit _ _ _ hreads
      · obtain ⟨buffer, -, h⟩ := C.bind_eq_ok.mp h
        cases h

/-- What is left of the file is part of it. -/
theorem dataFile_of_step (h : s.step o i = some (.ok (s', ds))) :
    ∀ block ∈ s'.dataFile, block ∈ s.dataFile := by
  have heffect := (stepped h).effect
  intro block hb
  cases heffect with
  | idle _ hcontinues _ => exact hcontinues.file ▸ hb
  | sent _ _ hfile _ =>
      rw [hfile]
      exact List.mem_cons_of_mem _ hb
  | sentEof _ _ => exact hb
  | released _ _ hcontinues _ => exact hcontinues.file ▸ hb
  | resent _ _ _ hcontinues _ => exact hcontinues.file ▸ hb

theorem dataFile_of_reachable {windowSize bufferSize : Int} {blocks : List Bytes} {client : Addr}
    {s₀ : Server} (hstart : start windowSize bufferSize blocks client = .ok s₀)
    (h : (system o s₀).Reachable s) : ∀ block ∈ s.dataFile, block ∈ blocks := by
  refine System.Reachable.invariant (P := fun s => ∀ block ∈ s.dataFile, block ∈ blocks) ?_ ?_ h
  · rintro s rfl block hb
    rwa [(of_start hstart).2.2.1] at hb
  · intro s l s' _ hfile hstep block hb
    exact hfile block (dataFile_of_step hstep block hb)

/-- What the child hands to `add_PDU` fits if what it reads does, and only then. -/
theorem fitsPacket_pdus_iff (hfile : ∀ block ∈ s.dataFile, block ≠ []) (o : ByteOrder)
    (i : ServerInput) :
    (∀ pdu ∈ s.pdus o i, FitsPacket 1 pdu) ↔ ∀ block ∈ s.reads i, block.length ≤ 1400 := by
  unfold pdus
  split
  · next readFails junk hpoint =>
      rw [List.forall_mem_map]
      apply forall₂_congr
      intro block hb
      have hpos := List.length_pos_iff.mpr (hfile block (mem_dataFile_of_reads hb))
      rw [FitsPacket, length_encodePDU, maxPduLen, pduHeaderLen]
      omega
  · next readFails junk hpoint =>
      have hreads : s.reads (.run readFails junk) = [] := by simp only [reads, hpoint]
      rw [hreads, List.forall_mem_singleton, FitsPacket, length_encodePDU]
      refine ⟨fun _ block hb => (by cases hb), fun _ => ?_⟩
      simp only [List.length_singleton, maxPduLen, pduHeaderLen]
      exact ⟨by decide, by decide⟩
  · next hopen heof =>
      refine ⟨fun _ block hb => ?_, fun _ pdu hpdu => (by cases hpdu)⟩
      unfold reads at hb
      split at hb
      · next readFails junk hpoint => exact absurd rfl (hopen readFails junk hpoint)
      · cases hb

/-- What it stores fits if it stores nothing, or what it reads fits. -/
theorem fitsPacket_stored_iff (hfile : ∀ block ∈ s.dataFile, block ≠ []) (o : ByteOrder)
    (i : ServerInput) (sendFails : Bool) :
    (∀ pdu ∈ s.stored o i sendFails, FitsPacket 1 pdu) ↔
      (sendFails = false → s.SlotFree → ∀ block ∈ s.reads i, block.length ≤ 1400) := by
  rw [stored]
  split
  · next hstores =>
      rw [fitsPacket_pdus_iff hfile]
      exact ⟨fun h _ _ => h, fun h => h hstores.1 hstores.2⟩
  · next hnothing =>
      exact ⟨fun _ hsent hfree => absurd ⟨hsent, hfree⟩ hnothing, fun _ pdu hpdu => (by cases hpdu)⟩

/-- **What does not fit is copied all the same**, past the end of its slot. -/
theorem step_overrun (hfile : ∀ block ∈ s.dataFile, block ≠ []) {pdu : Bytes}
    (hpdu : pdu ∈ s.stored o i false) (hlong : ¬ FitsPacket 1 pdu) :
    s.step o i = some (.error .bufferOverrun) := by
  have hfree : s.SlotFree := by
    by_contra hoccupied
    rw [stored_of_occupied hoccupied] at hpdu
    cases hpdu
  have hnot : ¬ ∀ block ∈ s.reads i, block.length ≤ 1400 := fun hreads =>
    hlong ((fitsPacket_stored_iff hfile o i false).mpr (fun _ _ => hreads) pdu hpdu)
  simp only [not_forall, exists_prop, Nat.not_le] at hnot
  obtain ⟨block, hblock, hlen⟩ := hnot
  obtain ⟨junk, rest, rfl, hpoint, hopen, hsize, hread⟩ := of_mem_reads hblock
  have hbuf : maxPduLen
      < (encodePDU o (toUInt32 s.window.current) dataPacketFlag block).length := by
    rw [length_encodePDU]
    simp only [maxPduLen, pduHeaderLen]
    omega
  rw [run_block hpoint hopen hsize hread]
  simp only [sendDataPacket, createPDU_ok o (pduHeaderLen + block.length)
    (toUInt32 s.window.current) dataPacketFlag block rfl (Nat.le_refl _), C.ok_bind,
    WindowArray.addPDU_overrun hfree hbuf, C.error_bind]

end Server

/-- What a poll receives into a buffer of a size. -/
def RcopyInput.received (size : Nat) : RcopyInput → Bytes
  | .poll (.received _ stale datagram) _ _ =>
      (recvfrom size stale datagram).1.take (recvfrom size stale datagram).2
  | _ => []

namespace Rcopy

variable {r r' : Rcopy} {i : RcopyInput} {ds : List Datagram}

/-! ## What the receiver stores -/

/-- The PDUs that `in_order` and `buffering` hand to `add_PDU` in a step, one for each call. -/
def pdus (o : ByteOrder) (r : Rcopy) (i : RcopyInput) : List Bytes :=
  (r.adds o i).map fun _ => i.received (pduHeaderLen + r.bufferSize)

/-- A PDU is handed over only if `processPDU` has accepted it. -/
theorem exists_of_pdus {b : Bytes} (h : b ∈ r.pdus o i) :
    b = i.received (pduHeaderLen + r.bufferSize) ∧
      ∃ pdu, i.pdu o (pduHeaderLen + r.bufferSize) = some pdu := by
  obtain ⟨call, hcall, rfl⟩ := List.mem_map.mp h
  refine ⟨rfl, ?_⟩
  unfold adds at hcall
  split at hcall
  · next pdu _ hpdu => exact ⟨pdu, hpdu⟩
  · next pdu _ hpdu => exact ⟨pdu, hpdu⟩
  · cases hcall

theorem length_received {size : Nat} {pdu : ReceivedPdu} (h : i.pdu o size = some pdu) :
    pduHeaderLen ≤ (i.received size).length ∧ (i.received size).length ≤ size := by
  unfold RcopyInput.pdu at h
  split at h
  · next src stale datagram write junk =>
      have hlen := le_length_recvfrom size stale datagram
      refine ⟨(processPDU_layout hlen h).1, ?_⟩
      rw [RcopyInput.received, List.length_take]
      exact (Nat.min_le_left ..).trans (Nat.min_le_right ..)
  · cases h

/-- What a slot holds after a step was there before, or is what the step has handed over. -/
theorem slot_of_pdus (h : r.step o i = some (.ok (r', ds))) {j : Nat} {packet : Packet}
    (hj : r'.window.slot j = some packet) :
    r.window.slot j = some packet ∨ packet.pdu ∈ r.pdus o i := by
  have hmoves := moves_of_step h
  generalize r'.window = w' at hmoves hj
  cases hmoves with
  | still _ _ _ => exact .inl hj
  | advanced _ _ _ _ hadvance =>
      rw [WindowArray.slot, (of_advance hadvance).2.1] at hj
      exact .inl hj
  | kept _ _ _ hadds _ _ hadd =>
      have hstored := WindowArray.pdu_of_addPDU hadd hj
      refine hstored.imp_right fun hpdu => ?_
      rw [pdus, hadds, List.map_singleton, List.mem_singleton]
      exact hpdu
  | flushed _ _ _ _ hadvance => exact .inl ((of_flushAdvance hadvance).2.2 j packet hj).1

/-! ## What the flush copies -/

/-- What is stored has a header, and fits the buffer of `flush`. -/
def Bounded (r : Rcopy) : Prop :=
  ∀ j packet, r.window.slot j = some packet →
    pduHeaderLen ≤ packet.pdu.length ∧ packet.pdu.length ≤ pduHeaderLen + r.bufferSize

theorem pdus_bounded {b : Bytes} (h : b ∈ r.pdus o i) :
    pduHeaderLen ≤ b.length ∧ b.length ≤ pduHeaderLen + r.bufferSize := by
  obtain ⟨rfl, pdu, hpdu⟩ := exists_of_pdus h
  exact length_received hpdu

theorem Bounded.step (h : r.Bounded) (hstep : r.step o i = some (.ok (r', ds))) :
    r'.Bounded := by
  intro j packet hj
  rw [(framed_of_step hstep).1]
  rcases slot_of_pdus hstep hj with hold | hnew
  · exact h j packet hold
  · exact pdus_bounded hnew

theorem bounded_of_reachable {windowSize : Int} {bufferSize : BufferSize} {seq : UInt32}
    {addr : Addr} {r₀ : Rcopy} (hstart : start windowSize bufferSize seq addr = .ok r₀)
    (h : (system o r₀).Reachable r) : r.Bounded := by
  refine System.Reachable.invariant (P := Bounded) ?_ (fun r l r' _ hr hstep => hr.step hstep) h
  rintro r rfl j packet hj
  rw [WindowArray.slot_makeWindow (of_start hstart).1] at hj
  cases hj

/-- `flush` gets a PDU with a header, and what it writes of it is in its receive buffer. -/
def CopiesWithin (r : Rcopy) : Prop :=
  r.window.checkPDUValid r.window.current = .ok true → ∃ payloadLen receiveBuffer,
    r.window.getPDU (List.replicate (pduHeaderLen + r.bufferSize) 0) r.window.current
      = .ok (payloadLen, receiveBuffer) ∧
    receiveBuffer.length = pduHeaderLen + r.bufferSize ∧
    pduHeaderLen ≤ payloadLen ∧ payloadLen ≤ receiveBuffer.length

theorem Bounded.copiesWithin (h : r.Bounded) : r.CopiesWithin := by
  intro hvalid
  obtain ⟨j, hindex, hsome⟩ := C.bind_eq_ok.mp hvalid
  obtain ⟨packet, hslot⟩ := Option.isSome_iff_exists.mp (Except.ok.inj hsome)
  obtain ⟨hmin, hmax⟩ := h j packet hslot
  have hget := WindowArray.getPDU_some hindex hslot
    (List.replicate (pduHeaderLen + r.bufferSize) 0) (by rw [List.length_replicate]; exact hmax)
  refine ⟨_, _, hget, ?_, ?_, ?_⟩
  · rw [List.length_append, List.length_drop, List.length_replicate]
    omega
  · exact Int.ofNat_le.mpr hmin
  · rw [List.length_append]
    exact Int.ofNat_le.mpr (Nat.le_add_right ..)

end Rcopy

/-! ## Both sides -/

/-- **What is stored fits, if what the child reads does.** For every request that the child's
`filename` grants and every run of the child that it starts: what a step stores is between 8 and
1407 bytes long if and only if `sendto` fails, or the slot is occupied, or the `read` of the step
returns no more than 1400, which is so if the request asks for no more. What is stored is what a
step that returns has put into the slots, and what does not fit goes past the end of one. For every
command line that `checkArgs` accepts and every run of the receiver: what a step hands to `add_PDU`,
and what the slots hold, is between 7 and 1407 bytes long, and `flush` stays within its buffer. -/
theorem storedFit_iff (o o' : ByteOrder) {files : Files} {client : Addr} {stale datagram : Bytes}
    {opened : Server.Opened} {ds : List Datagram} {s₀ : Server}
    (hopened : Server.filename o files client
      (recvfrom Server.requestBufferLength stale datagram).1
      (recvfrom Server.requestBufferLength stale datagram).2 = .ok (some opened, ds))
    (hserver : Server.start opened.windowSize opened.bufSize opened.dataFile client = .ok s₀)
    {args : Args} (hargs : checkArgs args = true) {seq : UInt32} {addr : Addr} {r₀ : Rcopy}
    (hrcopy : Rcopy.start args.windowSize (args.size hargs) seq addr = .ok r₀) :
    (∀ s, (Server.system o s₀).Reachable s → ∀ i,
      (∀ sendFails, (∀ pdu ∈ s.stored o i sendFails, FitsPacket 1 pdu) ↔
        (sendFails = false → s.SlotFree → ∀ block ∈ s.reads i, block.length ≤ 1400)) ∧
      (opened.bufSize ≤ 1400 → ∀ block ∈ s.reads i, block.length ≤ 1400) ∧
      (∀ s' ds, s.step o i = some (.ok (s', ds)) → Server.Filled s s' (s.stored o i false)) ∧
      ∀ pdu ∈ s.stored o i false, ¬ FitsPacket 1 pdu →
        s.step o i = some (.error .bufferOverrun)) ∧
    ∀ r, (Rcopy.system o' r₀).Reachable r → (∀ i, ∀ pdu ∈ r.pdus o' i, FitsPacket 0 pdu) ∧
      (∀ j packet, r.window.slot j = some packet → FitsPacket 0 packet.pdu) ∧
      r.CopiesWithin := by
  have hreads := Server.reads_of_filename hopened
  constructor
  · intro s hs i
    have hfile := Server.dataFile_of_reachable hserver hs
    have hblocks (block : Bytes) (hb : block ∈ s.dataFile) := (hreads block (hfile block hb)).1
    refine ⟨Server.fitsPacket_stored_iff hblocks o i, fun hsize block hb => ?_,
      fun s' ds => Server.filled_of_step, fun pdu => Server.step_overrun hblocks⟩
    have hblock := (hreads block (hfile block (Server.mem_dataFile_of_reads hb))).2
    omega
  · intro r hr
    have hbounded := Rcopy.bounded_of_reachable hrcopy hr
    have hfits {pdu : Bytes} (h : pduHeaderLen ≤ pdu.length ∧
        pdu.length ≤ pduHeaderLen + r.bufferSize) : FitsPacket 0 pdu := by
      have hsize := r.bufferSize.2.2
      refine ⟨h.1, Nat.le_trans h.2 ?_⟩
      simp only [pduHeaderLen, maxPduLen]
      omega
    exact ⟨fun i pdu hpdu => hfits (Rcopy.pdus_bounded hpdu),
      fun j packet hj => hfits (hbounded j packet hj), hbounded.copiesWithin⟩

/-- A server that has one file, under every name, for buffers that its pieces fit. -/
def Files.all (blocks : List Bytes) : Files where
  reads := fun _ bufSize =>
    if ∀ block ∈ blocks, block ≠ [] ∧ (block.length : Int) ≤ bufSize then some blocks else none
  reads_fit := by
    intro fname bufSize blocks' h
    split at h
    · next hfit =>
        cases h
        exact hfit
    · cases h

/-- A request for the file `a`, with a window of one PDU. -/
def requestOf (bufSize : UInt32) : Bytes :=
  encodePDU .little 0 filenameFlag
    (ByteOrder.bytes32 .big 1 ++ (ByteOrder.bytes32 .big bufSize ++ [97]))

/-- The least command line: both names have one letter, and the window has two PDUs. -/
def smallArgs : Args where
  fromFile := [97]
  toFile := [98]
  windowSize := 2
  bufferSize := 108
  errorRate := 0
  fromFile_nul := fun h => absurd (List.mem_singleton.mp h) (by decide)
  windowSize_range := by decide

theorem storedFit_smallServer :
    (∀ pdu ∈ Server.smallServer.stored .little (.run false 0) false, FitsPacket 1 pdu) ∧
      ∃ r₀, Rcopy.start 2 leastBufferSize 0 7 = .ok r₀ ∧ r₀.CopiesWithin := by
  have hopened : ∃ ds, Server.filename .little (Files.all [[1], [2]]) 7
      (recvfrom Server.requestBufferLength [] (requestOf 108)).1
      (recvfrom Server.requestBufferLength [] (requestOf 108)).2
        = .ok (some ⟨[[1], [2]], 108, 1⟩, ds) := ⟨_, rfl⟩
  have hstart : ∃ r₀, Rcopy.start smallArgs.windowSize (smallArgs.size rfl) 0 7 = .ok r₀ :=
    ⟨_, rfl⟩
  obtain ⟨ds, hopened⟩ := hopened
  obtain ⟨r₀, hstart⟩ := hstart
  obtain ⟨hserver, hrcopy⟩ := storedFit_iff .little .big hopened Server.start_smallServer rfl hstart
  obtain ⟨hfits, hreads, -⟩ := hserver _ (.init rfl) (.run false 0)
  exact ⟨(hfits false).mpr fun _ _ => hreads (by decide), r₀, hstart,
    (hrcopy _ (.init rfl)).2.2⟩

/-- A request for pieces of 2000 bytes is granted. -/
theorem Server.filename_requestOf : ∃ ds, Server.filename .little
    (Files.all [List.replicate 1401 1]) 7
    (recvfrom Server.requestBufferLength [] (requestOf 2000)).1
    (recvfrom Server.requestBufferLength [] (requestOf 2000)).2
      = .ok (some ⟨[List.replicate 1401 1], 2000, 1⟩, ds) := by
  have hfit : ∀ block ∈ [List.replicate 1401 (1 : Byte)],
      block ≠ [] ∧ (block.length : Int) ≤ 2000 := by
    intro block hb
    rw [List.mem_singleton.mp hb, List.length_replicate]
    exact ⟨List.cons_ne_nil _ _, by decide⟩
  have hprocess : ∃ pdu, processPDU .little
      (recvfrom Server.requestBufferLength [] (requestOf 2000)).1
      (recvfrom Server.requestBufferLength [] (requestOf 2000)).2 = some pdu ∧
      Server.readRequest .little pdu = .ok ⟨1, 2000, [97, 0]⟩ := ⟨_, rfl, rfl⟩
  obtain ⟨pdu, hprocess, hread⟩ := hprocess
  have hbuffer : createPDU .little (pduHeaderLen + filenameResponsePacketLength)
      pdu.sequenceNumber filenameResponseFlag [fileOk] filenameResponsePacketLength
      = .ok (encodePDU .little pdu.sequenceNumber filenameResponseFlag [fileOk]) :=
    createPDU_singleton ..
  refine ⟨[⟨7, encodePDU .little pdu.sequenceNumber filenameResponseFlag [fileOk]⟩], ?_⟩
  rw [Server.filename_eq hprocess, hread, C.ok_bind]
  simp only [Server.answer, Files.all, if_pos hfit, hbuffer, C.ok_bind, C.pure_eq]

/-- A request for pieces of 2000 bytes, of a file of 1401, is granted: the first step of the child
writes past the end of the array in its window. -/
theorem not_storedFit : ∃ blocks ds s₀ pdu,
    Server.filename .little (Files.all blocks) 7
      (recvfrom Server.requestBufferLength [] (requestOf 2000)).1
      (recvfrom Server.requestBufferLength [] (requestOf 2000)).2
        = .ok (some ⟨blocks, 2000, 1⟩, ds) ∧
    Server.start 1 2000 blocks 7 = .ok s₀ ∧ pdu ∈ s₀.stored .little (.run false 0) false ∧
    pdu.length = 1408 ∧ ¬ FitsPacket 1 pdu ∧
    s₀.step .little (.run false 0) = some (.error .bufferOverrun) := by
  obtain ⟨ds, hopened⟩ := Server.filename_requestOf
  obtain ⟨s₀, hstart⟩ : ∃ s₀, Server.start (1 : Nat) 2000 [List.replicate 1401 1] 7 = .ok s₀ :=
    ⟨_, rfl⟩
  obtain ⟨hwindow, hpoint, hfile, hsize, -⟩ := Server.of_start hstart
  have hholds := Server.Holds.start (o := .little) (by decide) (by decide) hstart
  have hopen : s₀.window.checkWindowOpen = true := hholds.checkWindowOpen.mpr (by decide)
  have hlong : (encodePDU .little (toUInt32 s₀.window.current) dataPacketFlag
      (List.replicate 1401 1)).length = 1408 := by
    rw [length_encodePDU, List.length_replicate]
    rfl
  refine ⟨[List.replicate 1401 1], ds, s₀, _, hopened, hstart, ?_, hlong, fun hc => ?_, ?_⟩
  · have hfree : s₀.SlotFree := by
      rw [Server.SlotFree, hholds.current, toInt32_toUInt32 (by decide) (by decide),
        WindowArray.checkPDUValid_eq hholds.shows.size hholds.shows.pos,
        WindowArray.slot_makeWindow hwindow]
      rfl
    rw [Server.stored_of_free hfree]
    simp only [Server.pdus, Server.reads, hpoint, hopen, hsize, hfile]
    exact List.mem_singleton_self _
  · have hmax := hc.2
    rw [hlong] at hmax
    exact absurd hmax (by decide)
  · have hlen : 1400 < (List.replicate 1401 (1 : Byte)).length := by
      rw [List.length_replicate]
      decide
    have hsend := sendDataPacket_overrun (o := .little) hholds.shows hholds.current
      (Nat.le_refl 0) (by decide) rfl hlen
    simp only [Server.step_windowOpen hpoint, Server.windowOpen, hopen, hsize, hfile, hsend]
    rfl

end RemoteCopy

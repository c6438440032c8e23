import RemoteCopy.RcopySteps
import RemoteCopy.ServerSteps

/-!
# Calls to the window

The calls that a step of either program makes to `add_PDU` and `remove_PDU`, each with the window it
finds there, and the upper edges that it increments, as the code has them. The first two functions
complain about a slot in the wrong state and go on, so a step does not show what they found. Nothing
else changes what is in the two rings (`Server.slot_of_step`, `Rcopy.slot_of_step`).
-/

namespace RemoteCopy

/-- A call of `add_PDU` or `remove_PDU`. -/
structure WindowCall where
  window : WindowArray
  number : Int

/-- What the call finds in the slot of its number. -/
def WindowCall.Finds (c : WindowCall) (x : Option Packet) : Prop :=
  ∃ j, c.window.index c.number = .ok j ∧ c.window.slot j = x

/-- The slot is not that of a call's number. -/
def WindowCall.Misses (c : WindowCall) (j : Nat) : Prop := c.window.index c.number ≠ .ok j

/-- The calls of `remove_PDU` from the loop of `cleaning_up_with_RR`. -/
def cleaningUpRemoves (rrSeqNum : Int) : Nat → WindowArray → List WindowCall
  | 0, _ => []
  | fuel + 1, w =>
      if w.lower < rrSeqNum then
        let next : C WindowArray := do
          let w ← w.removePDU w.lower
          let w ← w.incrementLower
          w.incrementUpper
        ⟨w, w.lower⟩ :: match next with
          | .ok w => cleaningUpRemoves rrSeqNum fuel w
          | .error _ => []
      else []

namespace Server

/-- The calls of `add_PDU` from `send_data_packet` and `send_eof`. -/
def adds (s : Server) (i : ServerInput) : List WindowCall :=
  match s.point, i with
  | .windowOpen, .run readFails _ =>
      if s.window.checkWindowOpen = true ∧ 0 < s.bufferSize ∧ readFails = false ∧ s.dataFile ≠ []
      then [⟨s.window, toInt32 (toUInt32 s.window.current)⟩]
      else []
  | .endOfFile, .run _ _ => [⟨s.window, toInt32 (toUInt32 s.window.current)⟩]
  | _, _ => []

/-- The calls of `remove_PDU` for an RR. -/
def removes (o : ByteOrder) (s : Server) (i : ServerInput) : List WindowCall :=
  match i with
  | .poll (.received _ stale datagram) =>
      match s.point, receiveControl o stale datagram with
      | .windowOpenPoll, .rr rr | .windowClosed _, .rr rr | .endOfFileWait _, .rr rr =>
          cleaningUpRemoves rr (rr - s.window.lower).toNat s.window
      | _, _ => []
  | _ => []

/-- The upper edges that a step increments: one for each PDU that is removed. -/
def raises (o : ByteOrder) (s : Server) (i : ServerInput) : List Int :=
  (s.removes o i).map fun c => c.window.upper

end Server

namespace Rcopy

/-- The calls of `add_PDU` from `in_order` and `buffering`. -/
def adds (o : ByteOrder) (r : Rcopy) (i : RcopyInput) : List WindowCall :=
  match r.point, i.pdu o (pduHeaderLen + r.bufferSize) with
  | .inOrder, some pdu =>
      if toUInt32 r.window.current < pdu.sequenceNumber then
        [⟨r.window.updateHighest (toInt32 pdu.sequenceNumber), toInt32 pdu.sequenceNumber⟩]
      else []
  | .buffering, some pdu =>
      if toUInt32 r.window.current < pdu.sequenceNumber then
        [⟨r.window, toInt32 pdu.sequenceNumber⟩]
      else []
  | _, _ => []

/-- The call of `remove_PDU` from `flush`, for a PDU that is there, is not the EOF and was written
to the file. -/
def removes (r : Rcopy) (i : RcopyInput) : List WindowCall :=
  match r.point, i with
  | .flush, .flush write _ =>
      match r.window.checkPDUValid r.window.current,
        r.window.getPDU (List.replicate (pduHeaderLen + r.bufferSize) 0) r.window.current with
      | .ok true, .ok (payloadLen, receiveBuffer) =>
          if byteAt receiveBuffer recvFlagLocation ≠ eofFlag ∧ (0 < payloadLen → write = .complete)
          then [⟨r.window, r.window.current⟩]
          else []
      | _, _ => []
  | _, _ => []

/-- The upper edges that a step increments: for a PDU that was written, or had nothing to write. -/
def raises (o : ByteOrder) (r : Rcopy) (i : RcopyInput) : List Int :=
  match r.point, i.pdu o (pduHeaderLen + r.bufferSize) with
  | .inOrder, some pdu =>
      if pdu.sequenceNumber = toUInt32 r.window.current ∧ pdu.recvFlag ≠ eofFlag ∧
          0 < pdu.payloadLen ∧ i.CompleteWrite
      then [r.window.upper]
      else []
  | .buffering, some pdu =>
      if pdu.sequenceNumber = toUInt32 r.window.current ∧ pdu.recvFlag ≠ eofFlag ∧
          (0 < pdu.payloadLen → i.CompleteWrite)
      then [r.window.upper]
      else []
  | _, _ => (r.removes i).map fun c => c.window.upper

end Rcopy

/-! ## Nothing else changes the rings -/

section
variable {o : ByteOrder} {j : Nat}

/-- What an iteration does, with the call that it makes and with a loop of them after it, the loop
does. -/
theorem cleaningUpRemoves_rel {rr : Int} {R : List WindowCall → WindowArray → WindowArray → Prop}
    (hrefl : ∀ w, R [] w w)
    (hiter : ∀ (cs : List WindowCall) (w w' : WindowArray) (i : Nat), w.index w.lower = .ok i →
      w.upper + 1 < 2147483648 →
      R cs { w.store i none with lower := w.lower + 1, upper := w.upper + 1 } w' →
      R (⟨w, w.lower⟩ :: cs) w w') :
    ∀ (fuel : Nat) (w w' : WindowArray), cleaningUpLoop rr fuel w = .ok w' →
      R (cleaningUpRemoves rr fuel w) w w' := by
  intro fuel
  induction fuel with
  | zero =>
      intro w w' h
      cases h
      exact hrefl w
  | succ fuel ih =>
      intro w w' h
      rw [cleaningUpLoop] at h
      rw [cleaningUpRemoves]
      split at h
      · next hlt =>
          obtain ⟨w₁, hremove, h⟩ := C.bind_eq_ok.mp h
          obtain ⟨w₂, hlower, h⟩ := C.bind_eq_ok.mp h
          obtain ⟨w₃, hupper, h⟩ := C.bind_eq_ok.mp h
          simp only [if_pos hlt, hremove, hlower, hupper, C.ok_bind]
          obtain ⟨i, hindex, hedge, rfl⟩ := of_iteration hremove hlower hupper
          exact hiter _ w w' i hindex hedge (ih _ _ h)
      · next hlt =>
          cases h
          rw [if_neg hlt]
          exact hrefl w

/-- What holds of the call of an iteration, and before an iteration if it does after it, holds of
every call of the loop. -/
theorem forall_mem_cleaningUpRemoves {rr : Int} {P : WindowArray → WindowCall → Prop}
    (hhead : ∀ w, w.lower < rr → P w ⟨w, w.lower⟩)
    (htail : ∀ (w : WindowArray) (i : Nat) (c : WindowCall), w.lower < rr →
      w.index w.lower = .ok i → w.upper + 1 < 2147483648 →
      P { w.store i none with lower := w.lower + 1, upper := w.upper + 1 } c → P w c) :
    ∀ (fuel : Nat) {w : WindowArray} {c : WindowCall}, c ∈ cleaningUpRemoves rr fuel w → P w c := by
  intro fuel
  induction fuel with
  | zero =>
      intro w c hc
      cases hc
  | succ fuel ih =>
      intro w c hc
      rw [cleaningUpRemoves] at hc
      split at hc
      · next hlt =>
          rcases List.mem_cons.mp hc with rfl | hc
          · exact hhead w hlt
          · split at hc
            · next w₃ hnext =>
                obtain ⟨w₁, hremove, hnext⟩ := C.bind_eq_ok.mp hnext
                obtain ⟨w₂, hlower, hupper⟩ := C.bind_eq_ok.mp hnext
                obtain ⟨i, hindex, hedge, rfl⟩ := of_iteration hremove hlower hupper
                exact htail w i c hlt hindex hedge (ih hc)
            · cases hc
      · cases hc

theorem slot_of_cleaningUpLoop {rr : Int} {fuel : Nat} {w w' : WindowArray}
    (h : cleaningUpLoop rr fuel w = .ok w') (hmisses : ∀ c ∈ cleaningUpRemoves rr fuel w,
      c.Misses j) : w'.slot j = w.slot j := by
  refine cleaningUpRemoves_rel
    (R := fun cs w w' => (∀ c ∈ cs, c.Misses j) → w'.slot j = w.slot j) ?_ ?_ fuel w w' h hmisses
  · intro w _
    rfl
  · intro cs w w' i hindex _ hrest hmisses
    have hslot : w'.slot j = (w.store i none).slot j :=
      hrest fun c hc => hmisses c (List.mem_cons_of_mem _ hc)
    have hne : j ≠ i := fun hj => hmisses _ List.mem_cons_self (hj ▸ hindex)
    rw [hslot, WindowArray.slot_store_ne hne]

namespace Server

variable {s s' : Server} {i : ServerInput} {ds : List Datagram}

/-- Wherever the child polls, it removes what an RR says. -/
theorem removes_of_rr (hpoll : s.Polls) (src : Addr) {stale datagram : Bytes} {rr : Int}
    (hcontrol : receiveControl o stale datagram = .rr rr) :
    s.removes o (.poll (.received src stale datagram))
      = cleaningUpRemoves rr (rr - s.window.lower).toNat s.window := by
  rcases hpoll with hpoint | ⟨count, hpoint⟩ | ⟨count, hpoint⟩ <;>
    simp only [removes, hpoint, hcontrol]

/-- It removes nothing else. -/
theorem of_mem_removes {c : WindowCall} (h : c ∈ s.removes o i) :
    ∃ src stale datagram rr, i = .poll (.received src stale datagram) ∧
      receiveControl o stale datagram = .rr rr ∧
      c ∈ cleaningUpRemoves rr (rr - s.window.lower).toNat s.window := by
  unfold removes at h
  split at h
  · split at h
    · next hcontrol => exact ⟨_, _, _, _, rfl, hcontrol, h⟩
    · next hcontrol => exact ⟨_, _, _, _, rfl, hcontrol, h⟩
    · next hcontrol => exact ⟨_, _, _, _, rfl, hcontrol, h⟩
    · cases h
  · cases h

/-- Without an RR nothing is removed. -/
theorem removes_of_not_rr (h : ∀ src stale datagram rr, i = .poll (.received src stale datagram) →
    receiveControl o stale datagram ≠ .rr rr) : s.removes o i = [] := by
  rw [List.eq_nil_iff_forall_not_mem]
  intro c hc
  obtain ⟨src, stale, datagram, rr, hi, hcontrol, -⟩ := of_mem_removes hc
  exact h src stale datagram rr hi hcontrol

/-- Only between two polls the child adds. -/
theorem adds_poll (p : Poll) : s.adds (.poll p) = [] := by
  unfold adds
  split
  · next hi => cases hi
  · next hi => cases hi
  · rfl

/-- What a step makes of the window, with the calls that it makes. -/
inductive Moves (o : ByteOrder) (s : Server) : ServerInput → WindowArray → Prop
  | still {i : ServerInput} (hadds : s.adds i = []) (hremoves : s.removes o i = []) :
      Moves o s i s.window
  | sent {junk : Byte} {payload buf : Bytes} {rest : List Bytes} {w : WindowArray}
      (hpoint : s.point = .windowOpen) (hopen : s.window.checkWindowOpen = true)
      (hsize : 0 < s.bufferSize) (hfile : s.dataFile = payload :: rest)
      (hadds : s.adds (.run false junk) = [⟨s.window, toInt32 (toUInt32 s.window.current)⟩])
      (hsend : sendDataPacket o s.window payload = .ok (w, buf)) : Moves o s (.run false junk) w
  | sentEof {readFails : Bool} {junk : Byte} {buf : Bytes} {w : WindowArray}
      (hpoint : s.point = .endOfFile)
      (hadds : s.adds (.run readFails junk) = [⟨s.window, toInt32 (toUInt32 s.window.current)⟩])
      (hsend : sendEof o s.window junk = .ok (w, buf)) : Moves o s (.run readFails junk) w
  | released {p : Poll} {rr : Int} {w : WindowArray} (hadds : s.adds (.poll p) = [])
      (hremoves : s.removes o (.poll p) = cleaningUpRemoves rr (rr - s.window.lower).toNat s.window)
      (hclean : cleaningUpWithRR s.window rr = .ok w) : Moves o s (.poll p) w

theorem moves_of_windowOpen {readFails : Bool} {junk : Byte} (hpoint : s.point = .windowOpen)
    (h : s.windowOpen o readFails = .ok (s', ds)) : s.Moves o (.run readFails junk) s'.window := by
  have hadds : s.adds (.run readFails junk)
      = if s.window.checkWindowOpen = true ∧ 0 < s.bufferSize ∧ readFails = false ∧ s.dataFile ≠ []
        then [⟨s.window, toInt32 (toUInt32 s.window.current)⟩] else [] := by
    simp only [adds, hpoint]
  unfold windowOpen at h
  split at h
  · next hopen =>
      split at h
      · cases h
      · next hsize =>
          split at h
          · next hread =>
              cases h
              rw [if_neg fun hc => by cases hread.symm.trans hc.2.2.1] at hadds
              exact .still hadds rfl
          · next hread =>
              rw [Bool.not_eq_true] at hread
              subst hread
              split at h
              · next hfile =>
                  cases h
                  rw [if_neg fun hc => hc.2.2.2 hfile] at hadds
                  exact .still hadds rfl
              · next payload rest hfile =>
                  have hne : s.dataFile ≠ [] := hfile ▸ List.cons_ne_nil payload rest
                  obtain ⟨⟨w, buf⟩, hsend, h⟩ := C.bind_eq_ok.mp h
                  cases h
                  rw [if_pos ⟨hopen, Int.not_le.mp hsize, rfl, hne⟩] at hadds
                  exact .sent hpoint hopen (Int.not_le.mp hsize) hfile hadds hsend
  · next hclosed =>
      obtain ⟨point, hloop, -⟩ := s.windowClosedLoop_eq 0
      cases h
      rw [if_neg fun hc => hclosed hc.1] at hadds
      rw [hloop]
      exact .still hadds rfl

theorem moves_of_endOfFile (readFails : Bool) {junk : Byte} (hpoint : s.point = .endOfFile)
    (h : s.endOfFile o junk = .ok (s', ds)) : s.Moves o (.run readFails junk) s'.window := by
  obtain ⟨⟨w, buf⟩, hsend, h⟩ := C.bind_eq_ok.mp h
  obtain ⟨point, hloop, -⟩ := endOfFileLoop_eq { s with window := w } 0
  cases h
  rw [hloop]
  exact .sentEof hpoint (by simp only [adds, hpoint]) hsend

theorem moves_of_poll {p : Poll} (h : s.step o (.poll p) = some (.ok (s', ds))) :
    s.Moves o (.poll p) s'.window := by
  have heffect := (stepped h).effect
  by_cases hrr : ∃ src stale datagram rr, p = .received src stale datagram ∧
      receiveControl o stale datagram = .rr rr
  · obtain ⟨src, stale, datagram, rr, rfl, hcontrol⟩ := hrr
    have hpoll := polls_of_step h
    obtain ⟨next, hnext, hstep⟩ := step_rr hpoll src hcontrol
    rw [hstep] at h
    obtain ⟨w, hclean, hs'⟩ := C.bind_eq_ok.mp (Option.some.inj h)
    cases hs'
    rw [(hnext w).1]
    exact .released (adds_poll _) (removes_of_rr hpoll src hcontrol) hclean
  · simp only [not_exists, not_and] at hrr
    have hremoves : s.removes o (.poll p) = [] :=
      removes_of_not_rr fun src stale datagram rr hi => hrr src stale datagram rr (by cases hi; rfl)
    have hwindow : s'.window = s.window := by
      cases heffect with
      | idle hwindow _ _ => exact hwindow
      | released hcontrol _ _ _ => exact absurd hcontrol (hrr _ _ _ _ rfl)
      | resent _ _ hwindow _ _ => exact hwindow
    rw [hwindow]
    exact .still (adds_poll p) hremoves

/-- **What a step of the child does to its window.** -/
theorem moves_of_step (h : s.step o i = some (.ok (s', ds))) : s.Moves o i s'.window := by
  cases i with
  | poll p => exact moves_of_poll h
  | run readFails junk =>
      rcases point_of_step_run h with hpoint | hpoint
      · rw [step_windowOpen hpoint] at h
        exact moves_of_windowOpen hpoint (Option.some.inj h)
      · rw [step_endOfFile hpoint] at h
        exact moves_of_endOfFile readFails hpoint (Option.some.inj h)

/-- What a step of the child leaves alone. -/
theorem slot_of_step (h : s.step o i = some (.ok (s', ds))) (hadds : ∀ c ∈ s.adds i, c.Misses j)
    (hremoves : ∀ c ∈ s.removes o i, c.Misses j) : s'.window.slot j = s.window.slot j := by
  have hmoves := moves_of_step h
  generalize s'.window = w' at hmoves ⊢
  cases hmoves with
  | still _ _ => rfl
  | sent _ _ _ _ hcalls hsend =>
      have hmisses := hadds _ (by rw [hcalls]; exact List.mem_singleton_self _)
      obtain ⟨-, -, w₁, hadd, rfl⟩ := of_sendDataPacket hsend
      have hslot := WindowArray.slot_of_addPDU_ne hadd hmisses
      exact hslot
  | sentEof _ hcalls hsend =>
      have hmisses := hadds _ (by rw [hcalls]; exact List.mem_singleton_self _)
      exact WindowArray.slot_of_addPDU_ne (of_sendEof hsend).2 hmisses
  | released _ hcalls hclean =>
      rw [hcalls] at hremoves
      exact slot_of_cleaningUpLoop hclean hremoves

end Server

end

namespace Rcopy

/-- The flush removes what it has found at `current`, if that is not the EOF. -/
theorem of_mem_removes {r : Rcopy} {i : RcopyInput} {c : WindowCall} (h : c ∈ r.removes i) :
    c = ⟨r.window, r.window.current⟩ ∧ r.window.checkPDUValid r.window.current = .ok true ∧
      ∃ payloadLen receiveBuffer, r.window.getPDU (List.replicate (pduHeaderLen + r.bufferSize) 0)
        r.window.current = .ok (payloadLen, receiveBuffer) ∧
        byteAt receiveBuffer recvFlagLocation ≠ eofFlag := by
  unfold removes at h
  split at h
  · split at h
    · next hvalid hget =>
        split at h
        · next hflag => exact ⟨List.mem_singleton.mp h, hvalid, _, _, hget, hflag.1⟩
        · cases h
    · cases h
  · cases h

section
variable {o : ByteOrder} {j : Nat} {r r' : Rcopy} {pdu : ReceivedPdu} {write : Write} {junk : Byte}
  {ds : List Datagram}

/-! ### The calls, state by state -/

section
variable {i : RcopyInput}

theorem adds_rejected (h : i.pdu o (pduHeaderLen + r.bufferSize) = none) : r.adds o i = [] := by
  unfold adds
  split
  · next hpdu => cases h.symm.trans hpdu
  · next hpdu => cases h.symm.trans hpdu
  · rfl

theorem raises_rejected (h : i.pdu o (pduHeaderLen + r.bufferSize) = none) :
    r.raises o i = (r.removes i).map fun c => c.window.upper := by
  unfold raises
  split
  · next hpdu => cases h.symm.trans hpdu
  · next hpdu => cases h.symm.trans hpdu
  · rfl

theorem adds_inOrder (hpoint : r.point = .inOrder)
    (h : i.pdu o (pduHeaderLen + r.bufferSize) = some pdu) :
    r.adds o i = if toUInt32 r.window.current < pdu.sequenceNumber then
      [⟨r.window.updateHighest (toInt32 pdu.sequenceNumber), toInt32 pdu.sequenceNumber⟩]
    else [] := by
  simp only [adds, hpoint, h]

theorem adds_buffering (hpoint : r.point = .buffering)
    (h : i.pdu o (pduHeaderLen + r.bufferSize) = some pdu) :
    r.adds o i = if toUInt32 r.window.current < pdu.sequenceNumber then
      [⟨r.window, toInt32 pdu.sequenceNumber⟩]
    else [] := by
  simp only [adds, hpoint, h]

theorem raises_inOrder (hpoint : r.point = .inOrder)
    (h : i.pdu o (pduHeaderLen + r.bufferSize) = some pdu) :
    r.raises o i = if pdu.sequenceNumber = toUInt32 r.window.current ∧ pdu.recvFlag ≠ eofFlag ∧
        0 < pdu.payloadLen ∧ i.CompleteWrite then [r.window.upper] else [] := by
  simp only [raises, hpoint, h]

theorem raises_buffering (hpoint : r.point = .buffering)
    (h : i.pdu o (pduHeaderLen + r.bufferSize) = some pdu) :
    r.raises o i = if pdu.sequenceNumber = toUInt32 r.window.current ∧ pdu.recvFlag ≠ eofFlag ∧
        (0 < pdu.payloadLen → i.CompleteWrite) then [r.window.upper] else [] := by
  simp only [raises, hpoint, h]

/-- Only the flush removes. -/
theorem removes_poll (p : Poll) : r.removes (.poll p write junk) = [] := by
  unfold removes
  split
  · next hi => cases hi
  · rfl

end

/-! ### The window, state by state -/

/-- What a step makes of the window, with the calls that it makes. -/
inductive Moves (o : ByteOrder) (r : Rcopy) : RcopyInput → WindowArray → Prop
  | still {i : RcopyInput} (hadds : r.adds o i = []) (hremoves : r.removes i = [])
      (hraises : r.raises o i = []) : Moves o r i r.window
  /-- A PDU at `current` was written, or had nothing to write. -/
  | advanced {i : RcopyInput} {highest : Int} {w : WindowArray}
      (hpoll : r.point = .inOrder ∨ r.point = .buffering) (hadds : r.adds o i = [])
      (hremoves : r.removes i = []) (hraises : r.raises o i = [r.window.upper])
      (hadvance : advance (r.window.updateHighest highest) = .ok w) : Moves o r i w
  /-- A PDU beyond `current` was handed to `add_PDU`. -/
  | kept {src : Addr} {stale datagram : Bytes} {write : Write} {junk : Byte} {pdu : ReceivedPdu}
      {before after : Int} {w : WindowArray}
      (hpdu : processPDU o (recvfrom (pduHeaderLen + r.bufferSize) stale datagram).1
        (recvfrom (pduHeaderLen + r.bufferSize) stale datagram).2 = some pdu)
      (hpoll : r.point = .inOrder ∨ r.point = .buffering)
      (hnumber : toUInt32 r.window.current < pdu.sequenceNumber)
      (hadds : r.adds o (.poll (.received src stale datagram) write junk)
        = [⟨r.window.updateHighest before, toInt32 pdu.sequenceNumber⟩])
      (hremoves : r.removes (.poll (.received src stale datagram) write junk) = [])
      (hraises : r.raises o (.poll (.received src stale datagram) write junk) = [])
      (hadd : (r.window.updateHighest before).addPDU
        (recvfrom (pduHeaderLen + r.bufferSize) stale datagram).1
        (recvfrom (pduHeaderLen + r.bufferSize) stale datagram).2 (toInt32 pdu.sequenceNumber)
        = .ok w) :
      Moves o r (.poll (.received src stale datagram) write junk) (w.updateHighest after)
  /-- The PDU stored at `current` was flushed. -/
  | flushed {i : RcopyInput} {w : WindowArray} (hpoint : r.point = .flush) (hadds : r.adds o i = [])
      (hremoves : r.removes i = [⟨r.window, r.window.current⟩])
      (hraises : r.raises o i = [r.window.upper]) (hadvance : flushAdvance r.window = .ok w) :
      Moves o r i w

/-- A step that makes no calls. -/
theorem moves_rejected {p : Poll}
    (h : (RcopyInput.poll p write junk).pdu o (pduHeaderLen + r.bufferSize) = none) :
    r.Moves o (.poll p write junk) r.window :=
  .still (adds_rejected h) (removes_poll p)
    (by rw [raises_rejected h, removes_poll, List.map_nil])

theorem moves_of_inOrder {p : Poll} (hpoint : r.point = .inOrder)
    (h : r.inOrder o write junk p = .ok (r', ds)) :
    r.Moves o (.poll p write junk) r'.window := by
  cases p with
  | timeout =>
      cases h
      exact moves_rejected rfl
  | received src stale datagram =>
      simp only [inOrder] at h
      split at h
      · next hreject =>
          cases h
          exact moves_rejected hreject
      · next pdu hpdu =>
          have hadds := adds_inOrder (i := .poll (.received src stale datagram) write junk)
            hpoint hpdu
          have hraises := raises_inOrder (i := .poll (.received src stale datagram) write junk)
            hpoint hpdu
          split at h
          · next hle =>
              split at h
              · next hnumber =>
                  rw [if_neg (UInt32.not_lt.mpr (UInt32.le_of_eq hnumber))] at hadds
                  rcases window_of_inOrderCurrent h with ⟨hflag, hlen, hwrite, hadvance⟩ |
                    ⟨hnot, hwindow⟩
                  · rw [if_pos ⟨hnumber, hflag, hlen, hwrite⟩] at hraises
                    exact .advanced (.inl hpoint) hadds (removes_poll _) hraises hadvance
                  · rw [if_neg fun hc => hnot hc.2] at hraises
                    rw [hwindow]
                    exact .still hadds (removes_poll _) hraises
              · next hne =>
                  have hnumber := UInt32.lt_of_le_of_ne hle (Ne.symm hne)
                  rw [if_pos hnumber] at hadds
                  rw [if_neg fun hc => hne hc.1] at hraises
                  have hadd := window_of_inOrderAhead h
                  have hmoves : r.Moves o _ (r'.window.updateHighest r'.window.highest) :=
                    .kept hpdu (.inl hpoint) hnumber hadds (removes_poll _) hraises hadd
                  exact hmoves
          · next hlt =>
              obtain ⟨⟨r₁, d⟩, hsend, h⟩ := C.bind_eq_ok.mp h
              cases h
              obtain ⟨seq, rfl⟩ := of_sendNumber hsend
              rw [if_neg fun hc => hlt (UInt32.le_of_lt hc)] at hadds
              rw [if_neg fun hc => hlt (UInt32.le_of_eq hc.1.symm)] at hraises
              exact .still hadds (removes_poll _) hraises

theorem moves_of_buffering {p : Poll} (hpoint : r.point = .buffering)
    (h : r.buffering o write p = .ok (r', ds)) :
    r.Moves o (.poll p write junk) r'.window := by
  cases p with
  | timeout =>
      cases h
      exact moves_rejected rfl
  | received src stale datagram =>
      simp only [buffering] at h
      split at h
      · next hreject =>
          cases h
          exact moves_rejected hreject
      · next pdu hpdu =>
          have hadds := adds_buffering (i := .poll (.received src stale datagram) write junk)
            hpoint hpdu
          have hraises := raises_buffering (i := .poll (.received src stale datagram) write junk)
            hpoint hpdu
          split at h
          · next hlt =>
              obtain ⟨w, highest, hadd, hwindow⟩ := window_of_bufferingAhead h
              rw [if_pos hlt] at hadds
              rw [if_neg fun hc => UInt32.ne_of_lt hlt hc.1.symm] at hraises
              rw [hwindow]
              exact .kept hpdu (.inr hpoint) hlt hadds (removes_poll _) hraises hadd
          · next hle =>
              rw [if_neg hle] at hadds
              split at h
              · next hnumber =>
                  rcases window_of_bufferingCurrent h with ⟨hflag, hwrite, hadvance⟩ |
                    ⟨hnot, hwindow⟩
                  · rw [if_pos ⟨hnumber, hflag, hwrite⟩] at hraises
                    exact .advanced (.inr hpoint) hadds (removes_poll _) hraises hadvance
                  · rw [if_neg fun hc => hnot hc.2] at hraises
                    rw [hwindow]
                    exact .still hadds (removes_poll _) hraises
              · next hne =>
                  obtain ⟨⟨r₁, d⟩, hsend, h⟩ := C.bind_eq_ok.mp h
                  cases h
                  obtain ⟨seq, rfl⟩ := of_sendNumber hsend
                  rw [if_neg fun hc => hne hc.1] at hraises
                  exact .still hadds (removes_poll _) hraises

theorem moves_of_flush (hpoint : r.point = .flush) (h : r.flush o write junk = .ok (r', ds)) :
    r.Moves o (.flush write junk) r'.window := by
  have hadds : r.adds o (.flush write junk) = [] := adds_rejected rfl
  have hraises : r.raises o (.flush write junk) = _ := raises_rejected rfl
  obtain ⟨valid, hvalid, h⟩ := C.bind_eq_ok.mp h
  cases valid with
  | false =>
      have hremoves : r.removes (.flush write junk) = [] := by simp only [removes, hpoint, hvalid]
      cases h
      rw [hremoves] at hraises
      exact .still hadds hremoves hraises
  | true =>
      obtain ⟨⟨payloadLen, receiveBuffer⟩, hget, h⟩ := C.bind_eq_ok.mp h
      have hremoves : r.removes (.flush write junk)
          = if byteAt receiveBuffer recvFlagLocation ≠ eofFlag ∧
              (0 < payloadLen → write = .complete)
            then [⟨r.window, r.window.current⟩] else [] := by
        simp only [removes, hpoint, hvalid, hget]
      simp only at h
      split at h
      · next heof =>
          obtain ⟨d, -, h⟩ := C.bind_eq_ok.mp h
          cases h
          rw [if_neg fun hc => hc.1 heof] at hremoves
          rw [hremoves] at hraises
          exact .still hadds hremoves hraises
      · next heof =>
          have hnext (file : List Bytes) (hwrite : 0 < payloadLen → write = .complete) (h : (do
              let window ← flushAdvance r.window
              let x ← sendRR o { r with outputFile := file, window := window } window.current
              if window.highest < window.current then return ({ x.1 with point := .inOrder }, [x.2])
              else return ({ x.1 with point := .flush }, [x.2]) : C (Rcopy × List Datagram))
                = .ok (r', ds)) : r.Moves o (.flush write junk) r'.window := by
            rw [if_pos ⟨heof, hwrite⟩] at hremoves
            rw [hremoves] at hraises
            obtain ⟨w, hadvance, h⟩ := of_moved h
            split at h <;>
            · cases h
              exact .flushed hpoint hadds hremoves hraises hadvance
          unfold flushWrite at h
          simp only at h
          split at h
          · next hlen =>
              split at h
              · cases h
                rw [if_neg fun hc => by cases hc.2 hlen] at hremoves
                rw [hremoves] at hraises
                exact .still hadds hremoves hraises
              · exact hnext _ (fun _ => rfl) h
          · next hlen => exact hnext _ (fun hc => absurd hc hlen) h

/-- **What a step of the receiver does to its window.** -/
theorem moves_of_step {i : RcopyInput} (h : r.step o i = some (.ok (r', ds))) :
    r.Moves o i r'.window := by
  unfold step at h
  split at h
  · next hpoint => exact moves_of_inOrder hpoint (Option.some.inj h)
  · next hpoint => exact moves_of_buffering hpoint (Option.some.inj h)
  · next hpoint => exact moves_of_flush hpoint (Option.some.inj h)
  · cases h

theorem slot_of_flushAdvance {w w' : WindowArray} (h : flushAdvance w = .ok w')
    (hmisses : w.index w.current ≠ .ok j) : w'.slot j = w.slot j := by
  obtain ⟨w₁, hremove, h⟩ := C.bind_eq_ok.mp h
  obtain ⟨w₂, hcurrent, h⟩ := C.bind_eq_ok.mp h
  obtain ⟨w₃, hupper, hlower⟩ := C.bind_eq_ok.mp h
  obtain ⟨rfl, -⟩ := WindowArray.of_incrementCurrent hcurrent
  obtain ⟨rfl, -⟩ := WindowArray.of_incrementUpper hupper
  obtain ⟨rfl, -⟩ := WindowArray.of_incrementLower hlower
  have hslot := WindowArray.slot_of_removePDU_ne hremove hmisses
  exact hslot

/-- What a step of the receiver leaves alone. -/
theorem slot_of_step {i : RcopyInput} (h : r.step o i = some (.ok (r', ds)))
    (hadds : ∀ c ∈ r.adds o i, c.Misses j) (hremoves : ∀ c ∈ r.removes i, c.Misses j) :
    r'.window.slot j = r.window.slot j := by
  have hmoves := moves_of_step h
  generalize r'.window = w' at hmoves ⊢
  cases hmoves with
  | still _ _ _ => rfl
  | advanced _ _ _ _ hadvance =>
      rw [WindowArray.slot, (of_advance hadvance).2.1]
      rfl
  | kept _ _ _ hcalls _ _ hadd =>
      have hmisses := hadds _ (by rw [hcalls]; exact List.mem_singleton_self _)
      have hslot := WindowArray.slot_of_addPDU_ne hadd hmisses
      exact hslot
  | flushed _ _ hcalls _ hadvance =>
      have hmisses := hremoves _ (by rw [hcalls]; exact List.mem_singleton_self _)
      exact slot_of_flushAdvance hadvance hmisses

end

end Rcopy

end RemoteCopy

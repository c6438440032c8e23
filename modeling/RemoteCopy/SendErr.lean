import RemoteCopy.Codec
import RemoteCopy.Library.Rounding
import RemoteCopy.Library.Congruential
import Mathlib.Algebra.Order.Field.Rat

/-!
# The library that both programs send through

`safeSendto` does not send by itself: it hands what is to be sent to `sendtoErr` of libcpe464, which
drops some of it and alters a byte of some. Here are its generator, its events and its packet
manager. What can become of a datagram is said once (`PacketManager.Fate`), and derived from the
code in `PacketManager.sendtoErr_fate`.
-/

namespace RemoteCopy

/-! ## Numbers -/

/-- The 48 bits behind `drand48`. -/
abbrev Rand48 := BitVec 48

/-- One step of `drand48`. The number it returns is the new state, with all bits behind the
point. -/
def drand48 (x : Rand48) : Rand48 := Congruential.affine 0x5DEECE66D 0xB x

def srand48 (seedval : Int) : Rand48 := BitVec.ofInt 32 seedval ++ (0x330E : BitVec 16)

/-- `(int) (n * drand48())`, a product of two `double`s cut off. -/
def scaled (n : Nat) (x : Rand48) : Nat := Rounding.roundSig 53 (n * x.toNat) / 2 ^ 48

/-- A `float`, as a comparison sees it. -/
inductive CFloat where
  | finite (value : ℚ)
  | infinite (negative : Bool)
  | nan
  deriving DecidableEq

/-- `randNum <= rate`, after the number has been rounded to a `float`. -/
def CFloat.reaches (x : Rand48) : CFloat → Bool
  | .finite value => decide ((Rounding.roundSig 24 x.toNat : ℚ) ≤ value * 2 ^ 48)
  | .infinite negative => !negative
  | .nan => false

theorem scaled_lt {n : Nat} (hn : 0 < n) (x : Rand48) : scaled n x < n :=
  Rounding.roundSig_mul_div_lt (by decide) x.isLt (by decide) hn

/-- A rate of zero is reached by the number zero. -/
theorem reaches_zero (x : Rand48) : (CFloat.finite 0).reaches x = true ↔ x = 0 := by
  have hround := Rounding.roundSig_eq_zero_iff (p := 24) (n := x.toNat) (by decide)
  rw [CFloat.reaches, decide_eq_true_iff, zero_mul]
  constructor
  · intro h
    have hzero : Rounding.roundSig 24 x.toNat = 0 := by
      rw [← Nat.cast_zero, Nat.cast_le] at h
      exact Nat.le_zero.mp h
    exact BitVec.eq_of_toNat_eq (hround.mp hzero)
  · rintro rfl
    rw [hround.mpr rfl, Nat.cast_zero]

/-! ## Events -/

/-- What `IMsgEvent::run` returns: `0`, `1` or `2`. -/
inductive EventResult where
  | unchanged
  | changed
  | dropped
  deriving DecidableEq, Repr

/-- The three classes behind `IMsgEvent`, with their members. -/
inductive MsgEvent where
  | errorDrop (dropAll : Bool) (dropList : List UInt32)
  | errorFlipBits
  | infoSeqNo (count : List (UInt32 × UInt32)) (history : List UInt32)
  deriving DecidableEq, Repr

/-- `++m_Count[seqNo]`, on a map that begins at zero everywhere. -/
def increment (seqNo : UInt32) : List (UInt32 × UInt32) → List (UInt32 × UInt32)
  | [] => [(seqNo, 1)]
  | (key, n) :: count =>
      if key = seqNo then (key, n + 1) :: count else (key, n) :: increment seqNo count

/-- `ntohl(*(uint32_t *) buf)`, the same on every machine (`ByteOrder.toNetwork_word32`). -/
def seqNoOf (buf : Bytes) : C UInt32 :=
  if 4 ≤ buf.length then .ok (ByteOrder.word32 .big buf) else .error .indexOutOfBounds

/-- `run`, by class: its result, the event and the buffer afterwards, and what is left of the
random numbers. -/
def MsgEvent.run (msgNo : UInt32) (buf : Bytes) (x : Rand48) :
    MsgEvent → C (EventResult × MsgEvent × Bytes × Rand48)
  | .errorDrop dropAll dropList => do
      if dropAll = true ∨ msgNo ∈ dropList then
        let _ ← seqNoOf buf
        return (.dropped, .errorDrop dropAll dropList, buf, x)
      else
        return (.unchanged, .errorDrop dropAll dropList, buf, x)
  | .errorFlipBits => do
      let _ ← seqNoOf buf
      let byteToFlip := scaled buf.length (drand48 x)
      if byteToFlip < buf.length then
        return (.changed, .errorFlipBits, RemoteCopy.errorFlipBits buf byteToFlip, drand48 x)
      else
        .error .indexOutOfBounds
  | .infoSeqNo count history => do
      let seqNo ← seqNoOf buf
      return (.unchanged, .infoSeqNo (increment seqNo count) (history ++ [seqNo]), buf, x)

/-! ## The packet manager -/

/-- `PacketManager`, and with it the state of `drand48`, which the process has once. -/
structure PacketManager where
  errorRate : CFloat
  msgNo : UInt32
  errorCaseConstant : List MsgEvent
  errorCaseChance : List MsgEvent
  rand : Rand48
  deriving DecidableEq

/-- `runMsgEvents`: all events in order, unless one drops. -/
def runMsgEvents (msgNo : UInt32) (hasChanged : Bool) (buf : Bytes) (x : Rand48) :
    List MsgEvent → C (EventResult × List MsgEvent × Bytes × Rand48)
  | [] => .ok (if hasChanged then .changed else .unchanged, [], buf, x)
  | e :: es => do
      let (nResult, e, buf, x) ← e.run msgNo buf x
      if nResult = .dropped then
        return (.dropped, e :: es, buf, x)
      else
        let (nResult, es, buf, x) ←
          runMsgEvents msgNo (hasChanged || decide (nResult = .changed)) buf x es
        return (nResult, e :: es, buf, x)

namespace PacketManager

/-- `processEvents`. What the chosen event returns stands for what the others have done, unless one
of them has dropped the packet. -/
def processEvents (m : PacketManager) (buf : Bytes) : C (EventResult × Bytes × PacketManager) := do
  let (constant, events, buf, x) ← runMsgEvents m.msgNo false buf m.rand m.errorCaseConstant
  let m := { m with errorCaseConstant := events }
  let randNum := drand48 x
  if m.errorCaseChance ≠ [] ∧ m.errorRate.reaches randNum = true then
    let x := drand48 randNum
    let randCase := scaled (Rounding.roundSig 24 m.errorCaseChance.length) x
    match m.errorCaseChance[randCase]? with
    | some e =>
        let (nResult, e, buf, x) ← e.run m.msgNo buf x
        let m := { m with errorCaseChance := m.errorCaseChance.set randCase e, rand := x }
        return (if constant = .dropped then .dropped else nResult, buf, m)
    | none => .error .indexOutOfBounds
  else
    return (constant, buf, { m with rand := randNum })

/-- What a call of `sendto_Err` does: what it returns, what it really sends, and the manager
afterwards. -/
structure Sending where
  returned : Nat
  wire : Option Bytes
  manager : PacketManager
  deriving DecidableEq

/-- `printType`: the number that it prints beside the kind of packet. That of data is the sequence
number; that of RR and SREJ is in the payload, which is taken to be there. -/
def printType (flag : Byte) (buf : Bytes) : C (Option UInt32) := do
  if flag ∈ [(3 : Byte), 4, 7, 16, 17, 18] then
    let seqNumber ← seqNoOf buf
    return some seqNumber
  else if flag = rrFlag ∨ flag = srejFlag then
    let seqNumber ← seqNoOf (buf.drop 7)
    return some seqNumber
  else
    return none

/-- `sendto_Err`, on a copy of the buffer. With nothing to send it ends the program (`none`). -/
def sendtoErr (m : PacketManager) (buf : Bytes) : C (Option Sending) := do
  if buf.length = 0 then
    return none
  else if buf.length < pduHeaderLen then
    -- The flag, which it prints, is not there.
    .error .indexOutOfBounds
  else
    let _ ← printType (byteAt buf recvFlagLocation) buf
    let (nResult, bufTmp, m) ← { m with msgNo := m.msgNo + 1 }.processEvents buf
    if nResult = .dropped then
      return some ⟨buf.length, none, m⟩
    else
      return some ⟨buf.length, some bufTmp, m⟩

end PacketManager

/-! ## What it does -/

/-- Packets with this number are dropped by the event. -/
def MsgEvent.drops (msgNo : UInt32) : MsgEvent → Bool
  | .errorDrop dropAll dropList => dropAll || decide (msgNo ∈ dropList)
  | _ => false

/-- The event after a packet with this sequence number. -/
def MsgEvent.note (seqNo : UInt32) : MsgEvent → MsgEvent
  | .infoSeqNo count history => .infoSeqNo (increment seqNo count) (history ++ [seqNo])
  | e => e

/-- The events after a packet with this number and sequence number: those before one that drops it
have seen it. -/
def noted (msgNo seqNo : UInt32) (es : List MsgEvent) : List MsgEvent :=
  (es.takeWhile fun e => !e.drops msgNo).map (MsgEvent.note seqNo)
    ++ es.dropWhile fun e => !e.drops msgNo

section
variable (msgNo : UInt32) {buf : Bytes} (x : Rand48)

theorem seqNoOf_eq (hlen : 4 ≤ buf.length) : seqNoOf buf = .ok (ByteOrder.word32 .big buf) :=
  if_pos hlen

theorem run_constant (hlen : 4 ≤ buf.length) {e : MsgEvent} (he : e ≠ .errorFlipBits) :
    e.run msgNo buf x = .ok (if e.drops msgNo then .dropped else .unchanged,
      if e.drops msgNo then e else e.note (ByteOrder.word32 .big buf), buf, x) := by
  cases e with
  | errorDrop dropAll dropList =>
      by_cases hdrop : dropAll = true ∨ msgNo ∈ dropList
      · have hdrops : MsgEvent.drops msgNo (.errorDrop dropAll dropList) = true := by
          rw [MsgEvent.drops, Bool.or_eq_true, decide_eq_true_iff]
          exact hdrop
        rw [MsgEvent.run, if_pos hdrop, seqNoOf_eq hlen, hdrops]
        rfl
      · have hdrops : MsgEvent.drops msgNo (.errorDrop dropAll dropList) = false := by
          rw [← Bool.not_eq_true, MsgEvent.drops, Bool.or_eq_true, decide_eq_true_iff]
          exact hdrop
        rw [MsgEvent.run, if_neg hdrop, hdrops]
        rfl
  | errorFlipBits => exact absurd rfl he
  | infoSeqNo count history =>
      rw [MsgEvent.run, seqNoOf_eq hlen]
      rfl

theorem runMsgEvents_constant (hlen : 4 ≤ buf.length) {es : List MsgEvent}
    (hes : ∀ e ∈ es, e ≠ .errorFlipBits) :
    runMsgEvents msgNo false buf x es
      = .ok (if es.any (MsgEvent.drops msgNo) then .dropped else .unchanged,
        noted msgNo (ByteOrder.word32 .big buf) es, buf, x) := by
  induction es with
  | nil => rfl
  | cons e es ih =>
      rw [runMsgEvents, run_constant msgNo x hlen (hes e List.mem_cons_self), C.ok_bind]
      cases hdrops : e.drops msgNo with
      | true =>
          simp only [if_true, List.any_cons, hdrops, Bool.true_or, noted, Bool.not_true,
            List.takeWhile_cons, List.dropWhile_cons, Bool.false_eq_true, if_false, List.map_nil,
            List.nil_append, C.pure_eq]
      | false =>
          simp only [Bool.false_eq_true, if_false, reduceCtorEq, decide_false, Bool.or_false,
            ih fun e he => hes e (List.mem_cons_of_mem _ he), C.ok_bind, C.pure_eq, List.any_cons,
            hdrops, Bool.false_or, noted, Bool.not_false, List.takeWhile_cons, if_true,
            List.dropWhile_cons, List.map_cons, List.cons_append]

theorem run_flip (hlen : 4 ≤ buf.length) :
    MsgEvent.errorFlipBits.run msgNo buf x = .ok (.changed, .errorFlipBits,
      RemoteCopy.errorFlipBits buf (scaled buf.length (drand48 x)), drand48 x) := by
  have hlt : scaled buf.length (drand48 x) < buf.length := scaled_lt (by omega) (drand48 x)
  simp only [MsgEvent.run, seqNoOf_eq hlen, C.ok_bind, if_pos hlt, C.pure_eq]

end

namespace PacketManager

/-- As the environment and `sendErr_init` set it up: only drops and flips happen by chance, and of
them there are few enough to be counted by a `float`. -/
structure Configured (m : PacketManager) : Prop where
  constant : ∀ e ∈ m.errorCaseConstant, e ≠ .errorFlipBits
  chance : ∀ e ∈ m.errorCaseChance, e = .errorDrop true [] ∨ e = .errorFlipBits
  few : m.errorCaseChance.length < 2 ^ 24

/-- The next packet is on a drop list. -/
def lists (m : PacketManager) : Bool := m.errorCaseConstant.any (MsgEvent.drops (m.msgNo + 1))

/-- Something happens by chance to the next packet. -/
def fires (m : PacketManager) : Bool :=
  decide (m.errorCaseChance ≠ []) && m.errorRate.reaches (drand48 m.rand)

/-- The manager after a packet, with `x` behind its random numbers. -/
def after (m : PacketManager) (buf : Bytes) (x : Rand48) : PacketManager :=
  { m with
    msgNo := m.msgNo + 1
    errorCaseConstant := noted (m.msgNo + 1) (ByteOrder.word32 .big buf) m.errorCaseConstant
    rand := x }

/-- What can become of a packet, and of the random numbers. -/
inductive Fate (m : PacketManager) (buf : Bytes) : Rand48 → Option Bytes → Prop
  | kept (hlists : m.lists = false) (hfires : m.fires = false) :
      Fate m buf (drand48 m.rand) (some buf)
  | listed (hlists : m.lists = true) (x : Rand48) : Fate m buf x none
  | dropped (hfires : m.fires = true) (hmem : .errorDrop true [] ∈ m.errorCaseChance)
      (x : Rand48) : Fate m buf x none
  | flipped (hlists : m.lists = false) (hfires : m.fires = true)
      (hmem : .errorFlipBits ∈ m.errorCaseChance) (x : Rand48) {i : Nat} (hi : i < buf.length) :
      Fate m buf x (some (errorFlipBits buf i))

section
variable {m : PacketManager} {buf : Bytes}

/-- One of the random events is chosen. -/
theorem Configured.chosen (h : m.Configured) (hsome : m.errorCaseChance ≠ []) (x : Rand48) :
    ∃ e ∈ m.errorCaseChance,
      m.errorCaseChance[scaled (Rounding.roundSig 24 m.errorCaseChance.length) x]? = some e ∧
      m.errorCaseChance.set (scaled (Rounding.roundSig 24 m.errorCaseChance.length) x) e
        = m.errorCaseChance := by
  have hlt := scaled_lt (List.length_pos_of_ne_nil hsome) x
  rw [Rounding.roundSig_of_lt (by decide) h.few]
  exact ⟨_, List.getElem_mem hlt, List.getElem?_eq_getElem hlt, List.set_getElem_self hlt⟩

theorem sendtoErr_eq (hbuf : pduHeaderLen ≤ buf.length) {number : Option UInt32}
    (hprint : printType (byteAt buf recvFlagLocation) buf = .ok number) :
    m.sendtoErr buf = ({ m with msgNo := m.msgNo + 1 }.processEvents buf).map
      fun x : EventResult × Bytes × PacketManager =>
        some ⟨buf.length, if x.1 = EventResult.dropped then none else some x.2.1, x.2.2⟩ := by
  have hheader : 0 < pduHeaderLen := by decide
  rw [sendtoErr, if_neg (by omega), if_neg (by omega), hprint, C.ok_bind]
  cases { m with msgNo := m.msgNo + 1 }.processEvents buf with
  | error e => rfl
  | ok x =>
      by_cases hdropped : x.1 = .dropped
      · simp only [C.ok_bind, Except.map, if_pos hdropped, C.pure_eq]
      · simp only [C.ok_bind, Except.map, if_neg hdropped, C.pure_eq]

/-- **What `sendto_Err` does with a packet** that has what it prints. It does not fail, it returns
the full length, and what becomes of the packet is its fate. -/
theorem sendtoErr_fate (h : m.Configured) (hbuf : pduHeaderLen ≤ buf.length)
    {number : Option UInt32} (hprint : printType (byteAt buf recvFlagLocation) buf = .ok number) :
    ∃ x wire, m.sendtoErr buf = .ok (some ⟨buf.length, wire, m.after buf x⟩) ∧
      m.Fate buf x wire := by
  have hlen : 4 ≤ buf.length := Nat.le_trans (by decide) hbuf
  have hconstant := runMsgEvents_constant (m.msgNo + 1) m.rand hlen h.constant
  rw [show m.errorCaseConstant.any (MsgEvent.drops (m.msgNo + 1)) = m.lists from rfl] at hconstant
  rw [sendtoErr_eq hbuf hprint]
  by_cases hchance : m.errorCaseChance ≠ [] ∧ m.errorRate.reaches (drand48 m.rand) = true
  · have hfires : m.fires = true := by
      rw [fires, decide_eq_true hchance.1, hchance.2]
      rfl
    obtain ⟨e, he, hget, hset⟩ := h.chosen hchance.1 (drand48 (drand48 m.rand))
    rcases h.chance e he with rfl | rfl
    · refine ⟨drand48 (drand48 m.rand), none, ?_, .dropped hfires he _⟩
      simp only [processEvents, hconstant, C.ok_bind, if_pos hchance, hget, MsgEvent.run, true_or,
        if_true, seqNoOf_eq hlen, C.pure_eq, hset, ite_self, after, Except.map]
    · cases hlists : m.lists with
      | true =>
          refine ⟨drand48 (drand48 (drand48 m.rand)), none, ?_, .listed hlists _⟩
          rw [hlists] at hconstant
          simp only [processEvents, hconstant, C.ok_bind, if_pos hchance, hget, run_flip _ _ hlen,
            if_true, C.pure_eq, hset, after, Except.map]
      | false =>
          refine ⟨drand48 (drand48 (drand48 m.rand)), _, ?_,
            .flipped hlists hfires he _ (scaled_lt (by omega) (drand48 (drand48 (drand48 m.rand))))⟩
          rw [hlists] at hconstant
          simp only [processEvents, hconstant, C.ok_bind, if_pos hchance, hget, run_flip _ _ hlen,
            Bool.false_eq_true, if_false, reduceCtorEq, C.pure_eq, hset, after, Except.map]
  · have hfires : m.fires = false := by
      rw [← Bool.not_eq_true, fires, Bool.and_eq_true, decide_eq_true_iff]
      exact hchance
    cases hlists : m.lists with
    | true =>
        refine ⟨drand48 m.rand, none, ?_, .listed hlists _⟩
        rw [hlists] at hconstant
        simp only [processEvents, hconstant, C.ok_bind, if_neg hchance, if_true, C.pure_eq, after,
          Except.map]
    | false =>
        refine ⟨drand48 m.rand, some buf, ?_, .kept hlists hfires⟩
        rw [hlists] at hconstant
        simp only [processEvents, hconstant, C.ok_bind, if_neg hchance, Bool.false_eq_true,
          if_false, reduceCtorEq, C.pure_eq, after, Except.map]

/-- A packet that is sent has what is printed of it. -/
theorem printed_of_sendtoErr {sending : Sending} (h : m.sendtoErr buf = .ok (some sending)) :
    pduHeaderLen ≤ buf.length ∧
      ∃ number, printType (byteAt buf recvFlagLocation) buf = .ok number := by
  rw [sendtoErr] at h
  split at h
  · cases h
  · split at h
    · cases h
    · next hlen =>
        obtain ⟨number, hprint, -⟩ := C.bind_eq_ok.mp h
        exact ⟨Nat.not_lt.mp hlen, number, hprint⟩

end

end PacketManager

/-! ## What a receiver makes of it -/

/-- A flipped byte is another one. -/
theorem flip_ne (x : Byte) : x ^^^ 0xFF ≠ x := by
  intro h
  have hzero : x ^^^ 0xFF ^^^ x = 0 := by rw [h, UInt8.xor_self]
  rw [UInt8.xor_comm x, UInt8.xor_assoc, UInt8.xor_self] at hzero
  revert hzero
  decide

theorem errorFlipBits_ne {buf : Bytes} {i : Nat} (hi : i < buf.length) :
    errorFlipBits buf i ≠ buf := by
  intro h
  have hbyte : byteAt (errorFlipBits buf i) i = byteAt buf i ^^^ 0xFF := by
    simp only [errorFlipBits, byteAt, List.getD_eq_getElem?_getD, List.getElem?_set_self hi,
      Option.getD_some]
  rw [h] at hbyte
  exact flip_ne _ hbyte.symm

/-- An RR or SREJ has a number in its payload. -/
def Numerable (flag : Byte) (payload : Bytes) : Prop :=
  flag = rrFlag ∨ flag = srejFlag → 4 ≤ payload.length

instance (flag : Byte) (payload : Bytes) : Decidable (Numerable flag payload) :=
  inferInstanceAs (Decidable (_ → _))

section
variable (o o' : ByteOrder) (s : UInt32) {flag : Byte} {payload : Bytes}

/-- `printType` finds the number of a PDU that has one. -/
theorem exists_printType (h : Numerable flag payload) :
    ∃ number, PacketManager.printType (byteAt (encodePDU o s flag payload) recvFlagLocation)
      (encodePDU o s flag payload) = .ok number := by
  have hlen : (encodePDU o s flag payload).length = pduHeaderLen + payload.length :=
    length_encodePDU o s flag payload
  rw [byteAt_encodePDU]
  unfold PacketManager.printType
  split
  · rw [seqNoOf_eq (by rw [hlen, pduHeaderLen]; omega)]
    exact ⟨_, rfl⟩
  · split
    · next hnumber =>
        have := h hnumber
        rw [seqNoOf_eq (by rw [List.length_drop, hlen, pduHeaderLen]; omega)]
        exact ⟨_, rfl⟩
    · exact ⟨_, rfl⟩

/-- In one that should have a number and has none, it reads past the end. -/
theorem printType_error (h : ¬ Numerable flag payload) :
    PacketManager.printType flag (encodePDU o s flag payload) = .error .indexOutOfBounds := by
  obtain ⟨hnumber, hshort⟩ := Classical.not_imp.mp h
  have hdrop : (encodePDU o s flag payload).drop 7 = payload := drop_encodePDU o s flag payload
  have hdata : flag ∉ [(3 : Byte), 4, 7, 16, 17, 18] := by
    rcases hnumber with rfl | rfl <;> decide
  have hseq : seqNoOf payload = .error .indexOutOfBounds := if_neg hshort
  rw [PacketManager.printType, if_neg hdata, if_pos hnumber, hdrop, hseq]
  rfl

/-- So it cannot be sent. -/
theorem PacketManager.sendtoErr_error (m : PacketManager) (h : ¬ Numerable flag payload) :
    m.sendtoErr (encodePDU o s flag payload) = .error .indexOutOfBounds := by
  have hlen : (encodePDU o s flag payload).length = pduHeaderLen + payload.length :=
    length_encodePDU o s flag payload
  have hheader : 0 < pduHeaderLen := by decide
  rw [sendtoErr, if_neg (by omega), if_neg (by omega), byteAt_encodePDU, printType_error o s h]
  rfl

/-- The checksum of a PDU with a flipped byte does not come out, on either machine. -/
theorem inCksum_flip (flag : Byte) (hpayload : payload.length ≤ 1400) {i : Nat}
    (hi : i < (encodePDU o s flag payload).length) :
    inCksum o' (errorFlipBits (encodePDU o s flag payload) i) ≠ 0 := by
  have haccepted := (accepted_encodePDU o o' s flag (p := payload) (by omega)).process
  have hlen : (encodePDU o s flag payload).length = pduHeaderLen + payload.length :=
    length_encodePDU o s flag payload
  have hmax : (encodePDU o s flag payload).length ≤ 1407 := by
    rw [hlen, pduHeaderLen]
    omega
  have hrejected := processPDU_set haccepted hmax hi (flip_ne _)
  rw [processPDU, if_neg (by omega)] at hrejected
  have hflip : (errorFlipBits (encodePDU o s flag payload) i).length
      = (encodePDU o s flag payload).length := List.length_set
  intro hsum
  rw [← errorFlipBits, ← hflip, List.take_length, if_neg (not_not_intro hsum)] at hrejected
  cases hrejected

end

end RemoteCopy

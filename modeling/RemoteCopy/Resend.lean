import RemoteCopy.ServerSteps

/-!
# What a resend repeats

The sender's functions on their own, called in any order that `window_open` and its companions
allow: blocks and EOFs are sent, acknowledgements clean up, and anything may be sent again. The
datagram that `resend_data_packet` makes is put together anew, from what `get_PDU` copies out of the
ring; it repeats the datagram that was first sent for its number
(`SendCall.resend_repeats`). What carries the proof is that every stored PDU is the first one sent
for its number (`Repeats`).
-/

namespace RemoteCopy

/-- A call to one of the sender's functions. -/
inductive SendCall where
  | dataPacket (payload : Bytes)
  | eof (junk : Byte)
  | cleaningUp (rrSeqNum : Int)
  | resend (sequenceNumber : UInt32) (flag : Byte)
  deriving DecidableEq, Repr

/-- The first datagram among `sent` that carries the number, as a host reads it. -/
def firstSent (o : ByteOrder) (sent : List Bytes) (sequenceNumber : UInt32) :
    Option ReceivedPdu :=
  (sent.filterMap fun b => processPDU o b b.length).find?
    fun pdu => decide (pdu.sequenceNumber = sequenceNumber)

namespace SendCall

variable {o o' : ByteOrder} {n bufferSize L K : Nat} {w w' : WindowArray} {sent : List Bytes}
  {m : Nat → Option Packet} {c : SendCall}

/-- What a call does to the window, and the datagram it sends. -/
def run (o : ByteOrder) (bufferSize : Nat) (w : WindowArray) :
    SendCall → C (WindowArray × Option Bytes)
  | dataPacket payload => do
      let (w, buf) ← sendDataPacket o w payload
      return (w, some buf)
  | eof junk => do
      let (w, buf) ← sendEof o w junk
      return (w, some buf)
  | cleaningUp rrSeqNum => do
      let w ← cleaningUpWithRR w rrSeqNum
      return (w, none)
  | resend sequenceNumber flag => do
      let buf ← resendDataPacket o w sequenceNumber flag bufferSize
      return (w, some buf)

/-- The calls that the child makes: it sends into an open window only, and here what it receives
acknowledges nothing but what it has sent. -/
def Allowed (bufferSize : Nat) (w : WindowArray) : SendCall → Prop
  | dataPacket payload =>
      1 ≤ payload.length ∧ payload.length ≤ bufferSize ∧ w.checkWindowOpen = true
  | eof _ => w.checkWindowOpen = true
  | cleaningUp rrSeqNum => rrSeqNum ≤ w.current
  | resend _ _ => True

instance (bufferSize : Nat) (w : WindowArray) : (c : SendCall) → Decidable (Allowed bufferSize w c)
  | dataPacket _ => inferInstanceAs (Decidable (_ ∧ _ ∧ _))
  | eof _ => inferInstanceAs (Decidable (_ = _))
  | cleaningUp _ => inferInstanceAs (Decidable (_ ≤ _))
  | resend _ _ => inferInstanceAs (Decidable True)

/-- The datagram is not a repetition. -/
def first : SendCall → Option Bytes → List Bytes
  | resend _ _, _ => []
  | _, buf => buf.toList

/-- The windows that these calls make from a fresh one. -/
def calls (o : ByteOrder) (n bufferSize : Nat) : System WindowArray (SendCall × Option Bytes) where
  init w := makeWindow n = some w
  step w l w' := Allowed bufferSize w l.1 ∧ l.1.run o bufferSize w = .ok (w', l.2)

/-- The same, with every datagram sent but the repetitions. -/
def system (o : ByteOrder) (n bufferSize : Nat) :
    System (WindowArray × List Bytes) (SendCall × Option Bytes) :=
  (calls o n bufferSize).logged fun l => l.1.first l.2

/-! ## What is stored -/

/-- The window shows `m`, and every PDU in it is the first one sent for its number. -/
structure Repeats (o o' : ByteOrder) (n bufferSize : Nat) (w : WindowArray) (sent : List Bytes)
    (L K : Nat) (m : Nat → Option Packet) : Prop where
  shows : w.Shows n L m
  current : w.current = K
  lower_le : L ≤ K
  le_upper : K ≤ L + n
  stored : ∀ k packet, m k = some packet → k ≤ K ∧ ∃ flag payload,
    packet.Carries o k flag payload ∧ payload.length ≤ bufferSize ∧
    (flag = dataPacketFlag ∨ flag = eofFlag) ∧
    firstSent o' sent (toUInt32 k) = some ⟨toUInt32 k, flag, payload, payload.length⟩
  fresh : ∀ k : Nat, K ≤ k → k < 2147483648 → m k = none → firstSent o' sent (toUInt32 k) = none

theorem Repeats.start (hn : 0 < n) (hmax : n < 2147483648) (h : makeWindow n = some w) :
    Repeats o o' n bufferSize w [] 0 0 fun _ => none := by
  have hcurrent : w.current = (0 : Nat) := by
    rw [makeWindow, dif_pos (by omega)] at h
    rw [← Option.some.inj h]
    rfl
  exact ⟨.make hn hmax h, hcurrent, Nat.le_refl 0, Nat.zero_le _, fun _ _ hk => (by cases hk),
    fun _ _ _ _ => rfl⟩

theorem toUInt32_natCast_inj {j k : Nat} (hj : j < 2147483648) (hk : k < 2147483648) :
    toUInt32 (j : Int) = toUInt32 (k : Int) ↔ j = k := by
  constructor
  · intro h
    have hnat := congrArg UInt32.toNat h
    rwa [toNat_toUInt32_natCast (by omega), toNat_toUInt32_natCast (by omega)] at hnat
  · intro h
    rw [h]

/-- What the first datagrams are once one more is sent. -/
theorem firstSent_concat {flag : Byte} {payload : Bytes} (hlen : payload.length < 65000)
    (seq number : UInt32) :
    firstSent o' (sent ++ [encodePDU o seq flag payload]) number
      = (firstSent o' sent number).or
          (if seq = number then some ⟨seq, flag, payload, payload.length⟩ else none) := by
  have hprocess := (accepted_encodePDU o o' seq flag hlen).process
  rw [firstSent, List.filterMap_append, List.find?_append,
    List.filterMap_cons_some (f := fun b => processPDU o' b b.length) hprocess,
    List.filterMap_nil, List.find?_singleton, ← firstSent]
  simp only [decide_eq_true_eq]

/-- A PDU stored at `current`, where there may be one already, with the datagram that was sent. -/
theorem Repeats.stores (h : Repeats o o' n bufferSize w sent L K m) (hopen : K < L + n)
    {flag : Byte} (hflag : flag = dataPacketFlag ∨ flag = eofFlag) {payload : Bytes}
    (hlen : payload.length ≤ bufferSize) (hsize : bufferSize ≤ 1400)
    (hadd : w.addPDU (encodePDU o (toUInt32 K) flag payload)
      (encodePDU o (toUInt32 K) flag payload).length (toInt32 (toUInt32 (K : Int))) = .ok w') :
    ∃ m', Repeats o o' n bufferSize w' (sent ++ [encodePDU o (toUInt32 K) flag payload]) L K
      m' := by
  have hrange := h.shows.range
  have hfits : (encodePDU o (toUInt32 K) flag payload).length ≤ maxPduLen := by
    rw [length_encodePDU]
    simp only [pduHeaderLen, maxPduLen]
    omega
  have hconcat : ∀ number, firstSent o' (sent ++ [encodePDU o (toUInt32 K) flag payload]) number
      = (firstSent o' sent number).or (if toUInt32 (K : Int) = number then
          some ⟨toUInt32 K, flag, payload, payload.length⟩ else none) :=
    fun number => firstSent_concat (by omega) (toUInt32 K) number
  -- A number beyond `current` is still not sent.
  have hfresh (k : Nat) (hne : k ≠ K) (hk : K ≤ k) (hlt : k < 2147483648) (hnone : m k = none) :
      firstSent o' (sent ++ [encodePDU o (toUInt32 K) flag payload]) (toUInt32 k) = none := by
    rw [hconcat, h.fresh k hk hlt hnone, if_neg fun heq =>
      hne ((toUInt32_natCast_inj (by omega) hlt).mp heq).symm]
    rfl
  cases hK : m K with
  | some packet =>
      -- `add_PDU` refuses, and the number has been sent before.
      rw [toInt32_toUInt32 (by omega) (by omega), WindowArray.addPDU_eq h.shows.size h.shows.pos _
        hfits, h.shows.slot_eq h.lower_le hopen, hK,
        if_pos (show (some packet).isSome = true from rfl)] at hadd
      cases hadd
      refine ⟨m, h.shows, h.current, h.lower_le, h.le_upper, ?_, ?_⟩
      · intro k packet' hk
        obtain ⟨hle, flag', payload', hcarries, hlen', hflag', hfirst⟩ := h.stored k packet' hk
        exact ⟨hle, flag', payload', hcarries, hlen', hflag', by rw [hconcat, hfirst]; rfl⟩
      · intro k hk hlt hnone
        refine hfresh k ?_ hk hlt hnone
        rintro rfl
        rw [hK] at hnone
        cases hnone
  | none =>
      obtain ⟨packet, w₁, hcarries, hadd', hshows, hcurrent⟩ :=
        addPDU_current (o := o) h.shows h.lower_le hopen hK flag payload hfits
      cases hadd.symm.trans hadd'
      refine ⟨Function.update m K (some packet), hshows, hcurrent.trans h.current, h.lower_le,
        h.le_upper, ?_, ?_⟩
      · intro k packet' hk
        by_cases hkK : k = K
        · subst hkK
          rw [Function.update_self] at hk
          cases hk
          refine ⟨Nat.le_refl k, flag, payload, hcarries, hlen, hflag, ?_⟩
          rw [hconcat, h.fresh k (Nat.le_refl k) (by omega) hK, if_pos rfl]
          rfl
        · rw [Function.update_of_ne hkK] at hk
          obtain ⟨hle, flag', payload', hcarries', hlen', hflag', hfirst⟩ := h.stored k packet' hk
          exact ⟨hle, flag', payload', hcarries', hlen', hflag', by rw [hconcat, hfirst]; rfl⟩
      · intro k hk hlt hnone
        by_cases hkK : k = K
        · rw [hkK, Function.update_self] at hnone
          cases hnone
        · rw [Function.update_of_ne hkK] at hnone
          exact hfresh k hkK hk hlt hnone

/-- Sending the block at `current` moves `current` up. -/
theorem Repeats.advance (h : Repeats o o' n bufferSize w sent L K m) (hopen : K < L + n) :
    Repeats o o' n bufferSize { w with current := (K : Int) + 1 } sent L (K + 1) m where
  shows := h.shows.congr rfl rfl rfl rfl
  current := rfl
  lower_le := Nat.le_succ_of_le h.lower_le
  le_upper := hopen
  stored := by
    intro k packet hk
    obtain ⟨hle, hrest⟩ := h.stored k packet hk
    exact ⟨Nat.le_succ_of_le hle, hrest⟩
  fresh := fun k hk => h.fresh k (Nat.le_of_succ_le hk)

/-- An acknowledgement up to `current` at most only takes PDUs away that were sent. -/
theorem Repeats.released (h : Repeats o o' n bufferSize w sent L K m) {rr : Int}
    (hrr : rr ≤ w.current) (hclean : cleaningUpWithRR w rr = .ok w') :
    ∃ L' m', Repeats o o' n bufferSize w' sent L' K m' := by
  have hcurrent := h.current
  have hle := h.lower_le
  have hup := h.le_upper
  obtain ⟨w₁, hclean', hshows, hcurrent'⟩ :=
    cleaningUpWithRR_eq h.shows (range_of_cleaningUpWithRR h.shows hclean)
  cases hclean.symm.trans hclean'
  refine ⟨max L rr.toNat, release m rr.toNat, hshows, hcurrent'.trans hcurrent, by omega, by omega,
    ?_, ?_⟩
  · intro k packet hk
    rw [release] at hk
    split at hk
    · exact h.stored k packet hk
    · cases hk
  · intro k hk hlt hnone
    rw [release, if_pos (by omega)] at hnone
    exact h.fresh k hk hlt hnone

/-- **Every call keeps what is stored the first PDU sent for its number.** -/
theorem Repeats.step (h : Repeats o o' n bufferSize w sent L K m) (hsize : 108 ≤ bufferSize)
    (hsize' : bufferSize ≤ 1400) (hallowed : Allowed bufferSize w c) {buf : Option Bytes}
    (hrun : c.run o bufferSize w = .ok (w', buf)) :
    ∃ L' K' m', Repeats o o' n bufferSize w' (sent ++ c.first buf) L' K' m' := by
  have hcurrent := h.current
  have hupper := h.shows.upper
  cases c with
  | dataPacket payload =>
      obtain ⟨-, hlen, hopen⟩ := hallowed
      have hlt : w.current < w.upper := of_decide_eq_true hopen
      obtain ⟨⟨w₂, b⟩, hsend, hrest⟩ := C.bind_eq_ok.mp hrun
      cases hrest
      obtain ⟨rfl, -, w₁, hadd, rfl⟩ := of_sendDataPacket hsend
      rw [hcurrent] at hadd ⊢
      obtain ⟨m', h'⟩ := h.stores (by omega) (.inl rfl) hlen hsize' hadd
      exact ⟨L, K + 1, m', h'.advance (by omega)⟩
  | eof junk =>
      have hlt : w.current < w.upper := of_decide_eq_true hallowed
      obtain ⟨⟨w₂, b⟩, hsend, hrest⟩ := C.bind_eq_ok.mp hrun
      cases hrest
      obtain ⟨rfl, hadd⟩ := of_sendEof hsend
      rw [hcurrent] at hadd ⊢
      obtain ⟨m', h'⟩ := h.stores (by omega) (.inr rfl) (by simp; omega) hsize' hadd
      exact ⟨L, K, m', h'⟩
  | cleaningUp rrSeqNum =>
      obtain ⟨w₁, hclean, hrest⟩ := C.bind_eq_ok.mp hrun
      cases hrest
      obtain ⟨L', m', h'⟩ := h.released hallowed hclean
      refine ⟨L', K, m', ?_⟩
      show Repeats o o' n bufferSize w' (sent ++ []) L' K m'
      rw [List.append_nil]
      exact h'
  | resend sequenceNumber flag =>
      obtain ⟨b, -, hrest⟩ := C.bind_eq_ok.mp hrun
      cases hrest
      refine ⟨L, K, m, ?_⟩
      show Repeats o o' n bufferSize w (sent ++ []) L K m
      rw [List.append_nil]
      exact h

theorem repeats_of_reachable (hn : 0 < n) (hmax : n < 2147483648) (hsize : 108 ≤ bufferSize)
    (hsize' : bufferSize ≤ 1400) (o' : ByteOrder) {x : WindowArray × List Bytes}
    (h : (system o n bufferSize).Reachable x) :
    ∃ L K m, Repeats o o' n bufferSize x.1 x.2 L K m := by
  refine System.Reachable.invariant
    (P := fun x => ∃ L K m, Repeats o o' n bufferSize x.1 x.2 L K m) ?_ ?_ h
  · rintro x ⟨hmake, hsent⟩
    rw [hsent]
    exact ⟨0, 0, _, .start hn hmax hmake⟩
  · rintro x l x' - ⟨L, K, m, hx⟩ ⟨⟨hallowed, hrun⟩, hsent⟩
    rw [hsent]
    exact hx.step hsize hsize' hallowed hrun

/-! ## The resend -/

/-- **A resend repeats what was first sent.** On every window that the sender's functions make, for
every number it still holds: `resend_data_packet` leaves the window as it is, and its datagram is
accepted and carries the number, the payload and the length of the one first sent for that number;
its flag is the one asked for, or that of an EOF. -/
theorem resend_repeats (hn : 0 < n) (hmax : n < 2147483648) (hsize : 108 ≤ bufferSize)
    (hsize' : bufferSize ≤ 1400) (h : (system o n bufferSize).Reachable (w, sent)) {x : Nat}
    (hlow : w.lower ≤ x) (hhigh : x < w.upper) (hheld : w.checkPDUValid x = .ok true) (flag : Byte)
    (o' : ByteOrder) :
    ∃ pdu buf pdu', firstSent o' sent (toUInt32 x) = some pdu ∧
      (resend (toUInt32 x) flag).run o bufferSize w = .ok (w, some buf) ∧
      processPDU o' buf buf.length = some pdu' ∧ pdu'.sequenceNumber.toNat = x ∧
      pdu'.payload = pdu.payload ∧ pdu'.payloadLen = pdu.payloadLen ∧
      ((pdu.recvFlag = dataPacketFlag ∧ pdu'.recvFlag = flag) ∨
        (pdu.recvFlag = eofFlag ∧ pdu'.recvFlag = eofFlag)) := by
  obtain ⟨L, K, m, hrep⟩ := repeats_of_reachable hn hmax hsize hsize' o' h
  simp only at hrep
  have hlower := hrep.shows.lower
  have hupper := hrep.shows.upper
  have hrange := hrep.shows.range
  have hslot := hrep.shows.slot_eq (s := x) (by omega) (by omega)
  have hindex := WindowArray.index_eq (s := x) hrep.shows.size hrep.shows.pos
  rw [WindowArray.checkPDUValid_eq hrep.shows.size hrep.shows.pos, hslot] at hheld
  obtain ⟨packet, hpacket⟩ := Option.isSome_iff_exists.mp (Except.ok.inj hheld)
  obtain ⟨-, flag', payload, hcarries, hlen, hflag', hfirst⟩ := hrep.stored x packet hpacket
  have hbuf : resendDataPacket o w (toUInt32 x) flag bufferSize
      = .ok (encodePDU o (toUInt32 x) (packet.resentFlag flag) packet.payload) := by
    apply resendDataPacket_some (i := x % n)
    · rw [toInt32_toUInt32 (by omega) (by omega), hindex]
    · exact hslot.trans hpacket
    · rw [hcarries.pdu, length_encodePDU]
      omega
    · rw [hcarries.pdu, length_encodePDU]
      omega
    · simp only [pduHeaderLen]
      omega
  rw [hcarries.payload_eq] at hbuf
  have hprocess := (accepted_encodePDU o o' (toUInt32 (x : Int)) (packet.resentFlag flag)
    (p := payload) (by omega)).process
  refine ⟨_, _, _, hfirst, ?_, hprocess, toNat_toUInt32_natCast (by omega), rfl, rfl, ?_⟩
  · rw [run, hbuf]
    rfl
  · rcases hflag' with rfl | rfl
    · exact .inl ⟨rfl, hcarries.resentFlag_data flag⟩
    · exact .inr ⟨rfl, hcarries.resentFlag_eof flag⟩

/-- A call with what it sends, computed. -/
def next (o : ByteOrder) (bufferSize : Nat) (x : WindowArray × List Bytes) (c : SendCall) :
    Option (WindowArray × List Bytes) :=
  if Allowed bufferSize x.1 c then
    match c.run o bufferSize x.1 with
    | .ok y => some (y.1, x.2 ++ c.first y.2)
    | .error _ => none
  else none

theorem step_of_next {x x' : WindowArray × List Bytes} (h : next o bufferSize x c = some x') :
    ∃ l, (system o n bufferSize).step x l x' := by
  unfold next at h
  split at h
  · next hallowed =>
      split at h
      · next y hrun =>
          cases h
          exact ⟨(c, y.2), ⟨hallowed, hrun⟩, rfl⟩
      · cases h
  · cases h

/-- The second of two blocks, the last one and short, once the first is acknowledged and the window
has moved. -/
theorem resend_repeats_smallWindow : ∃ x : WindowArray × List Bytes,
    x.1.lower = 1 ∧ x.1.current = 2 ∧ ∃ pdu buf pdu',
      firstSent .little x.2 (toUInt32 (1 : Nat)) = some pdu ∧
      (resend (toUInt32 (1 : Nat)) resentSrejDataPacketFlag).run .little 108 x.1
        = .ok (x.1, some buf) ∧
      processPDU .little buf buf.length = some pdu' ∧ pdu'.payload = pdu.payload := by
  have hinit : (system .little 2 108).Reachable (smallWindow, []) := .init ⟨rfl, rfl⟩
  obtain ⟨x, hx, hp⟩ := hinit.exists_of_run (next .little 108) (fun _ _ _ => step_of_next)
    [.dataPacket [5, 6, 7], .dataPacket [8], .resend 0 resentTimeoutDataPacketFlag, .cleaningUp 1,
      .eof 0]
    (fun x => decide (x.1.lower = 1 ∧ x.1.current = 2 ∧ x.1.upper = 3 ∧
      (x.1.slot 1).isSome = true ∧ x.1.windowSize = 2)) (by decide +kernel)
  obtain ⟨hlower, hcurrent, hupper, hslot, hsize⟩ := of_decide_eq_true hp
  have hheld : x.1.checkPDUValid (1 : Nat) = .ok true := by
    rw [WindowArray.checkPDUValid_eq (n := 2) hsize (by decide)]
    exact congrArg Except.ok hslot
  obtain ⟨pdu, buf, pdu', hfirst, hrun, hprocess, -, hpayload, -⟩ :=
    resend_repeats (by decide) (by decide) (by decide) (by decide) hx (by omega) (by omega) hheld
      resentSrejDataPacketFlag .little
  exact ⟨x, hlower, hcurrent, pdu, buf, pdu', hfirst, hrun, hprocess, hpayload⟩

end SendCall

end RemoteCopy

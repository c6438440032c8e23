import RemoteCopy.Server

/-!
# What one step of the server child can do

The operations of the child on a window that shows a map, and from them an inversion of
`Server.step`: a step that returns does one of the five things listed by `Server.Effect`, whichever
of the three receiving states it is taken in. What holds along the runs of the child is proved by
cases on this list, and no later proof unfolds a state function again.
-/

namespace RemoteCopy

variable {o : ByteOrder}

/-- The stored PDU is the one with this sequence number, flag and payload. -/
structure Packet.Carries (packet : Packet) (o : ByteOrder) (k : Nat) (flag : Byte)
    (payload : Bytes) : Prop where
  sequenceNumber : packet.sequenceNumber = k
  packetFlag : packet.flag = flag
  pdu : packet.pdu = encodePDU o (toUInt32 k) flag payload

theorem Packet.carries_of {k : Nat} {flag : Byte} {payload : Bytes}
    (h : (encodePDU o (toUInt32 k) flag payload).length ≤ maxPduLen) :
    (Packet.of k (encodePDU o (toUInt32 k) flag payload) h).Carries o k flag payload :=
  ⟨rfl, byteAt_encodePDU .., rfl⟩

/-! ## Sending -/

section
variable {w w' : WindowArray} {n L K : Nat} {m : Nat → Option Packet} {payload buf : Bytes}

/-- Storing a PDU at `current`, where there is none yet. -/
theorem addPDU_current (h : w.Shows n L m) (hK : L ≤ K) (hK' : K < L + n) (hm : m K = none)
    (flag : Byte) (payload : Bytes)
    (hlen : (encodePDU o (toUInt32 K) flag payload).length ≤ maxPduLen) :
    ∃ packet w', packet.Carries o K flag payload ∧
      w.addPDU (encodePDU o (toUInt32 K) flag payload)
        (encodePDU o (toUInt32 K) flag payload).length (toInt32 (toUInt32 K)) = .ok w' ∧
      w'.Shows n L (Function.update m K (some packet)) ∧ w'.current = w.current := by
  have hslot := h.slot_eq hK hK'
  have hrange := h.range
  refine ⟨Packet.of K _ hlen, _, Packet.carries_of hlen, ?_, h.store hK hK' _, rfl⟩
  rw [toInt32_toUInt32 (by omega) (by omega), WindowArray.addPDU_eq h.size h.pos _ hlen,
    if_neg (by rw [hslot, hm]; simp)]
  simp only [List.take_length, Packet.of, recvFlagLocation]

/-- What `send_data_packet` has done if it returns, whatever the window is. -/
theorem of_sendDataPacket (h : sendDataPacket o w payload = .ok (w', buf)) :
    buf = encodePDU o (toUInt32 w.current) dataPacketFlag payload ∧
      w.current + 1 < 2147483648 ∧ ∃ w₁,
      w.addPDU buf buf.length (toInt32 (toUInt32 w.current)) = .ok w₁ ∧
      w' = { w₁ with current := w.current + 1 } := by
  simp only [sendDataPacket, createPDU_ok o (pduHeaderLen + payload.length) (toUInt32 w.current)
    dataPacketFlag payload rfl (Nat.le_refl _), C.ok_bind] at h
  obtain ⟨w₁, hadd, h⟩ := C.bind_eq_ok.mp h
  obtain ⟨w₂, hinc, h⟩ := C.bind_eq_ok.mp h
  obtain ⟨rfl, hlt⟩ := WindowArray.of_incrementCurrent hinc
  have hsame : w₁.current = w.current := (WindowArray.edges_of_addPDU hadd).2.2.1
  cases h
  rw [hsame] at hlt ⊢
  exact ⟨rfl, hlt, w₁, hadd, rfl⟩

/-- What `send_eof` has done if it returns. -/
theorem of_sendEof {junk : Byte} (h : sendEof o w junk = .ok (w', buf)) :
    buf = encodePDU o (toUInt32 w.current) eofFlag [junk] ∧
      w.addPDU buf buf.length (toInt32 (toUInt32 w.current)) = .ok w' := by
  simp only [sendEof, createPDU_singleton, C.ok_bind] at h
  obtain ⟨w₁, hadd, h⟩ := C.bind_eq_ok.mp h
  cases h
  exact ⟨rfl, hadd⟩

/-- `send_data_packet`, for a block that fits a slot. -/
theorem sendDataPacket_eq (h : w.Shows n L m) (hcur : w.current = K) (hK : L ≤ K)
    (hK' : K < L + n) (hm : m K = none) (hlen : payload.length ≤ 1400) :
    ∃ packet w', packet.Carries o K dataPacketFlag payload ∧
      sendDataPacket o w payload = .ok (w', encodePDU o (toUInt32 K) dataPacketFlag payload) ∧
      w'.Shows n L (Function.update m K (some packet)) ∧ w'.current = (K + 1 : Nat) := by
  have hrange := h.range
  obtain ⟨packet, w₁, hcarries, hadd, hshows, hcur₁⟩ := addPDU_current (o := o) h hK hK' hm
    dataPacketFlag payload (by simp only [length_encodePDU, maxPduLen, pduHeaderLen]; omega)
  have hinc : addInt32 w₁.current 1 = .ok (K + 1 : Nat) := by
    rw [hcur₁, hcur]
    exact addInt32_ok (by omega) (by omega)
  refine ⟨packet, { w₁ with current := (K + 1 : Nat) }, hcarries, ?_,
    hshows.congr rfl rfl rfl rfl, rfl⟩
  simp only [sendDataPacket, hcur, createPDU_ok o (pduHeaderLen + payload.length) (toUInt32 K)
    dataPacketFlag payload rfl (Nat.le_refl _), C.ok_bind, hadd, WindowArray.incrementCurrent, hinc,
    C.pure_eq]

/-- A block that does not fit a slot is written past its end. -/
theorem sendDataPacket_overrun (h : w.Shows n L m) (hcur : w.current = K) (hK : L ≤ K)
    (hK' : K < L + n) (hm : m K = none) (hlen : 1400 < payload.length) :
    sendDataPacket o w payload = .error .bufferOverrun := by
  have hrange := h.range
  have hadd : w.addPDU (encodePDU o (toUInt32 K) dataPacketFlag payload)
      (encodePDU o (toUInt32 K) dataPacketFlag payload).length (toInt32 (toUInt32 K))
      = .error .bufferOverrun := by
    rw [toInt32_toUInt32 (by omega) (by omega), WindowArray.addPDU,
      WindowArray.index_eq h.size h.pos, C.ok_bind, h.slot_eq hK hK', hm]
    rw [dif_neg (by simp only [length_encodePDU, maxPduLen, pduHeaderLen]; omega)]
  simp only [sendDataPacket, hcur, createPDU_ok o (pduHeaderLen + payload.length) (toUInt32 K)
    dataPacketFlag payload rfl (Nat.le_refl _), C.ok_bind, hadd, C.error_bind]

theorem length_le_of_sendDataPacket (h : w.Shows n L m) (hcur : w.current = K) (hK : L ≤ K)
    (hK' : K < L + n) (hm : m K = none) (hsend : sendDataPacket o w payload = .ok (w', buf)) :
    payload.length ≤ 1400 := by
  by_contra hlen
  cases (sendDataPacket_overrun h hcur hK hK' hm (Nat.lt_of_not_le hlen)).symm.trans hsend

/-- `send_eof`. -/
theorem sendEof_eq (h : w.Shows n L m) (hcur : w.current = K) (hK : L ≤ K) (hK' : K < L + n)
    (hm : m K = none) (junk : Byte) :
    ∃ packet w', packet.Carries o K eofFlag [junk] ∧
      sendEof o w junk = .ok (w', encodePDU o (toUInt32 K) eofFlag [junk]) ∧
      w'.Shows n L (Function.update m K (some packet)) ∧ w'.current = (K : Int) := by
  obtain ⟨packet, w₁, hcarries, hadd, hshows, hcur₁⟩ := addPDU_current (o := o) h hK hK' hm eofFlag
    [junk] (by simp [maxPduLen, pduHeaderLen])
  refine ⟨packet, w₁, hcarries, ?_, hshows, hcur₁.trans hcur⟩
  simp only [sendEof, hcur, createPDU_singleton, C.ok_bind, hadd, C.pure_eq]

/-! ## Acknowledgements -/

/-- What an iteration of the loop that returns has done. -/
theorem of_iteration {w₁ w₂ w₃ : WindowArray} (hremove : w.removePDU w.lower = .ok w₁)
    (hlower : w₁.incrementLower = .ok w₂) (hupper : w₂.incrementUpper = .ok w₃) :
    ∃ i, w.index w.lower = .ok i ∧ w.upper + 1 < 2147483648 ∧
      w₃ = { w.store i none with lower := w.lower + 1, upper := w.upper + 1 } := by
  obtain ⟨i, hindex, rfl⟩ := WindowArray.of_removePDU hremove
  obtain ⟨rfl, -⟩ := WindowArray.of_incrementLower hlower
  obtain ⟨rfl, hlt⟩ := WindowArray.of_incrementUpper hupper
  exact ⟨i, hindex, hlt, rfl⟩

/-- What an iteration of the loop does to any window, and a loop of them after it, the loop does. -/
theorem cleaningUpLoop_rel {R : WindowArray → WindowArray → Prop} (hrefl : ∀ w, R w w)
    (hiter : ∀ (w w' : WindowArray) (i : Nat),
      R { w.store i none with lower := w.lower + 1, upper := w.upper + 1 } w' → R w w')
    {rr : Int} :
    ∀ (fuel : Nat) (w w' : WindowArray), cleaningUpLoop rr fuel w = .ok w' → R w w' := by
  intro fuel
  induction fuel with
  | zero =>
      intro w w' h
      cases h
      exact hrefl w
  | succ fuel ih =>
      intro w w' h
      rw [cleaningUpLoop] at h
      split at h
      · obtain ⟨w₁, hremove, h⟩ := C.bind_eq_ok.mp h
        obtain ⟨w₂, hlower, h⟩ := C.bind_eq_ok.mp h
        obtain ⟨w₃, hupper, h⟩ := C.bind_eq_ok.mp h
        obtain ⟨i, -, -, rfl⟩ := of_iteration hremove hlower hupper
        exact hiter w w' i (ih _ _ h)
      · cases h
        exact hrefl w

/-- An acknowledgement never moves `current`. -/
theorem current_of_cleaningUpWithRR {rr : Int} (h : cleaningUpWithRR w rr = .ok w') :
    w'.current = w.current := by
  refine cleaningUpLoop_rel (R := fun w w' => w'.current = w.current) ?_ ?_ _ w w' h
  · intro w
    rfl
  · intro w w' i hrest
    exact hrest

/-- The map after an acknowledgement. -/
def release (m : Nat → Option Packet) (rr : Nat) (k : Nat) : Option Packet :=
  if rr ≤ k then m k else none

/-- Nothing is left to release once `lower` has reached the number. -/
theorem release_eq_self (h : w.Shows n L m) {rr : Nat} (hle : rr ≤ L) : release m rr = m := by
  funext k
  rw [release]
  split
  · rfl
  · next hk =>
      cases hmk : m k with
      | none => rfl
      | some packet =>
          have := h.mem_window hmk
          omega

/-- An iteration of the loop drops the PDU at `lower` and moves both edges. -/
theorem cleaningUpLoop_succ (h : w.Shows n L m) {rr : Int} (hlt : L < rr)
    (hedge : L + 1 + n < 2147483648) (fuel : Nat) : ∃ w',
    cleaningUpLoop rr (fuel + 1) w = cleaningUpLoop rr fuel w' ∧
      w'.Shows n (L + 1) (Function.update m L none) ∧ w'.current = w.current := by
  have hlower := h.lower
  have hupper := h.upper
  have hpos := h.pos
  have hlow : addInt32 w.lower 1 = .ok (w.lower + 1) := addInt32_ok (by omega) (by omega)
  have hup : addInt32 w.upper 1 = .ok (w.upper + 1) := addInt32_ok (by omega) (by omega)
  refine ⟨{ w.store (L % n) none with lower := w.lower + 1, upper := w.upper + 1 }, ?_,
    (h.store (Nat.le_refl _) (by omega) none).slide (Function.update_self ..) hedge
      rfl rfl rfl rfl, rfl⟩
  rw [cleaningUpLoop, if_pos (by omega)]
  simp only [hlower, WindowArray.removePDU_eq h.size hpos, C.ok_bind, WindowArray.incrementLower,
    WindowArray.incrementUpper, WindowArray.store_lower, WindowArray.store_upper, hlower ▸ hlow,
    hup, C.pure_eq]

/-- The upper edge is the first to overflow. -/
theorem cleaningUpLoop_overflow (h : w.Shows n L m) {rr : Int} (hlt : L < rr)
    (hedge : ¬ L + 1 + n < 2147483648) (fuel : Nat) :
    cleaningUpLoop rr (fuel + 1) w = .error .signedOverflow := by
  have hlower := h.lower
  have hupper := h.upper
  have hrange := h.range
  have hpos := h.pos
  have hlow : addInt32 w.lower 1 = .ok (w.lower + 1) := addInt32_ok (by omega) (by omega)
  have hup : addInt32 w.upper 1 = .error .signedOverflow := if_neg (by omega)
  rw [cleaningUpLoop, if_pos (by omega)]
  simp only [hlower, WindowArray.removePDU_eq h.size hpos, C.ok_bind, WindowArray.incrementLower,
    WindowArray.incrementUpper, WindowArray.store_lower, WindowArray.store_upper, hlower ▸ hlow,
    hup, C.pure_eq, C.error_bind]

/-- `cleaning_up_with_RR` releases what is below the number received, and moves the window up to
it. It overflows exactly when the upper edge leaves the range of `int32_t`. -/
theorem cleaningUpLoop_eq (rr : Int) : ∀ (fuel L : Nat) (m : Nat → Option Packet)
    (w : WindowArray), w.Shows n L m → rr ≤ L + fuel →
    (max L rr.toNat + n < 2147483648 → ∃ w', cleaningUpLoop rr fuel w = .ok w' ∧
      w'.Shows n (max L rr.toNat) (release m rr.toNat) ∧ w'.current = w.current) ∧
    (¬ max L rr.toNat + n < 2147483648 → cleaningUpLoop rr fuel w = .error .signedOverflow) := by
  -- The window where the loop stops, whether or not there is fuel left.
  have hdone : ∀ (fuel L : Nat) (m : Nat → Option Packet) (w : WindowArray), w.Shows n L m →
      rr ≤ L → cleaningUpLoop rr fuel w = .ok w →
      (max L rr.toNat + n < 2147483648 → ∃ w', cleaningUpLoop rr fuel w = .ok w' ∧
        w'.Shows n (max L rr.toNat) (release m rr.toNat) ∧ w'.current = w.current) ∧
      (¬ max L rr.toNat + n < 2147483648 →
        cleaningUpLoop rr fuel w = .error .signedOverflow) := by
    intro fuel L m w h hle hstop
    have hrange := h.range
    rw [Nat.max_eq_left (show rr.toNat ≤ L by omega), release_eq_self h (by omega)]
    exact ⟨fun _ => ⟨w, hstop, h, rfl⟩, fun hover => absurd hrange hover⟩
  intro fuel
  induction fuel with
  | zero =>
      intro L m w h hle
      exact hdone 0 L m w h (by omega) rfl
  | succ fuel ih =>
      intro L m w h hle
      by_cases hlt : (L : Int) < rr
      · have hmax : max (L + 1) rr.toNat = max L rr.toNat := by omega
        by_cases hedge : L + 1 + n < 2147483648
        · obtain ⟨w', hnext, hshows, hcurrent⟩ := cleaningUpLoop_succ h hlt hedge fuel
          have hrelease : release (Function.update m L none) rr.toNat = release m rr.toNat := by
            funext k
            rw [release, release]
            split
            · exact Function.update_of_ne (by omega) ..
            · rfl
          have hrest := ih (L + 1) _ _ hshows (by omega)
          rw [hmax, hrelease, hcurrent] at hrest
          rw [hnext]
          exact hrest
        · exact ⟨fun hin => absurd hin (by omega),
            fun _ => cleaningUpLoop_overflow h hlt hedge fuel⟩
      · have hlower := h.lower
        refine hdone (fuel + 1) L m w h (by omega) ?_
        rw [cleaningUpLoop, if_neg (by omega)]

theorem cleaningUpWithRR_eq (h : w.Shows n L m) {rr : Int}
    (hrange : max L rr.toNat + n < 2147483648) : ∃ w', cleaningUpWithRR w rr = .ok w' ∧
      w'.Shows n (max L rr.toNat) (release m rr.toNat) ∧ w'.current = w.current := by
  have hlower := h.lower
  exact (cleaningUpLoop_eq rr _ L m w h (by omega)).1 hrange

theorem range_of_cleaningUpWithRR (h : w.Shows n L m) {rr : Int}
    (hrun : cleaningUpWithRR w rr = .ok w') : max L rr.toNat + n < 2147483648 := by
  have hlower := h.lower
  by_contra hover
  rw [cleaningUpWithRR, (cleaningUpLoop_eq rr _ L m w h (by omega)).2 hover] at hrun
  cases hrun

end

/-! ## Resending -/

/-- The flag under which a stored PDU is sent again. -/
def Packet.resentFlag (packet : Packet) (flag : Byte) : Byte :=
  if byteAt packet.pdu recvFlagLocation = dataPacketFlag then flag
  else byteAt packet.pdu recvFlagLocation

section
variable {packet : Packet} {k : Nat} {payload : Bytes}

theorem Packet.Carries.payload_eq {flag : Byte} (h : packet.Carries o k flag payload) :
    packet.payload = payload := by
  rw [Packet.payload, h.pdu, drop_encodePDU]

theorem Packet.Carries.resentFlag_data (h : packet.Carries o k dataPacketFlag payload)
    (flag : Byte) : packet.resentFlag flag = flag := by
  rw [Packet.resentFlag, h.pdu, byteAt_encodePDU, if_pos rfl]

theorem Packet.Carries.resentFlag_eof (h : packet.Carries o k eofFlag payload) (flag : Byte) :
    packet.resentFlag flag = eofFlag := by
  rw [Packet.resentFlag, h.pdu, byteAt_encodePDU, if_neg (by decide)]

end

section
variable {w : WindowArray} {x : UInt32} {flag : Byte} {bufferSize : Int} {i : Nat}

/-- An occupied slot is sent under the number asked for, whatever number is stored in it. -/
theorem resendDataPacket_some (hindex : w.index (toInt32 x) = .ok i) {packet : Packet}
    (hslot : w.slot i = some packet) (hmin : pduHeaderLen ≤ packet.pdu.length)
    (hmax : (packet.pdu.length : Int) ≤ pduHeaderLen + bufferSize)
    (hrange : pduHeaderLen + bufferSize < 2147483648) :
    resendDataPacket o w x flag bufferSize
      = .ok (encodePDU o x (packet.resentFlag flag) packet.payload) := by
  have hlen : packet.pdu.length ≤ (pduHeaderLen + bufferSize).toNat := by omega
  have hget := WindowArray.getPDU_some hindex hslot
    (List.replicate (pduHeaderLen + bufferSize).toNat 0) (by simpa using hlen)
  have hbyte (tail : Bytes) :
      byteAt (packet.pdu ++ tail) recvFlagLocation = byteAt packet.pdu recvFlagLocation :=
    byteAt_append (by simp only [pduHeaderLen, recvFlagLocation] at hmin ⊢; omega) tail
  have htake (tail : Bytes) : ((packet.pdu ++ tail).drop pduHeaderLen).take
      ((packet.pdu.length : Int) - pduHeaderLen).toNat = packet.payload := by
    have hpayload : ((packet.pdu.length : Int) - pduHeaderLen).toNat
        = (packet.pdu.drop pduHeaderLen).length := by
      rw [List.length_drop]
      omega
    rw [List.drop_append_of_le_length hmin, hpayload, List.take_left, Packet.payload]
  have hpos : ¬ (pduHeaderLen : Int) + bufferSize ≤ 0 := by
    simp only [pduHeaderLen] at hmin hmax ⊢
    omega
  have hadd : addInt32 pduHeaderLen bufferSize = .ok (pduHeaderLen + bufferSize) :=
    addInt32_ok (by omega) hrange
  simp only [resendDataPacket, hadd, if_neg hpos, hget, C.ok_bind, createPDU, htake, hbyte]
  rw [if_neg (by omega), if_neg (by omega)]
  rfl

/-- An empty slot makes the payload length negative. -/
theorem resendDataPacket_none (hindex : w.index (toInt32 x) = .ok i) (hslot : w.slot i = none)
    (hpos : 0 < pduHeaderLen + bufferSize) (hrange : pduHeaderLen + bufferSize < 2147483648) :
    resendDataPacket o w x flag bufferSize = .error .negativeCopy := by
  have hadd : addInt32 pduHeaderLen bufferSize = .ok (pduHeaderLen + bufferSize) :=
    addInt32_ok (by omega) hrange
  simp only [resendDataPacket, hadd, if_neg (Int.not_le.mpr hpos),
    WindowArray.getPDU_none hindex hslot, C.ok_bind, createPDU]
  rw [if_pos (by simp [pduHeaderLen])]

/-- The length of the buffers is an `int32_t`. -/
theorem resendDataPacket_overflow (h : 2147483648 ≤ pduHeaderLen + bufferSize) :
    resendDataPacket o w x flag bufferSize = .error .signedOverflow := by
  have hadd : addInt32 pduHeaderLen bufferSize = .error .signedOverflow :=
    if_neg fun hc => absurd hc.2 (Int.not_lt.mpr h)
  simp only [resendDataPacket, hadd, C.error_bind]

theorem range_of_resendDataPacket {buf : Bytes}
    (h : resendDataPacket o w x flag bufferSize = .ok buf) :
    pduHeaderLen + bufferSize < 2147483648 := by
  by_contra hge
  cases (resendDataPacket_overflow (Int.not_lt.mp hge)).symm.trans h

/-- A resend that returns found an occupied slot. -/
theorem exists_of_resendDataPacket {buf : Bytes}
    (h : resendDataPacket o w x flag bufferSize = .ok buf) : ∃ i packet,
    w.index (toInt32 x) = .ok i ∧ w.slot i = some packet ∧ pduHeaderLen ≤ packet.pdu.length ∧
      (packet.pdu.length : Int) ≤ pduHeaderLen + bufferSize ∧
      buf = encodePDU o x (packet.resentFlag flag) packet.payload := by
  have hrange := range_of_resendDataPacket h
  obtain ⟨length, hlength, h'⟩ := C.bind_eq_ok.mp h
  obtain ⟨rfl, -⟩ := of_addInt32 hlength
  have hpos : 0 < (pduHeaderLen : Int) + bufferSize := by
    by_contra hle
    simp only [if_pos (Int.not_lt.mp hle)] at h'
    cases h'
  simp only [if_neg (Int.not_le.mpr hpos)] at h'
  cases hindex : w.index (toInt32 x) with
  | error e =>
      simp only [WindowArray.getPDU, hindex, C.error_bind] at h'
      cases h'
  | ok i =>
      cases hslot : w.slot i with
      | none =>
          rw [resendDataPacket_none hindex hslot hpos hrange] at h
          cases h
      | some packet =>
          have hmax : (packet.pdu.length : Int) ≤ pduHeaderLen + bufferSize := by
            by_contra hgt
            simp only [WindowArray.getPDU, hindex, hslot, C.ok_bind, List.length_replicate] at h'
            rw [if_pos (by omega)] at h'
            cases h'
          have hmin : pduHeaderLen ≤ packet.pdu.length := by
            by_contra hlt
            have hget := WindowArray.getPDU_some hindex hslot
              (List.replicate (pduHeaderLen + bufferSize).toNat 0)
              (by rw [List.length_replicate]; omega)
            simp only [hget, C.ok_bind, createPDU] at h'
            rw [if_pos (by omega)] at h'
            cases h'
          refine ⟨i, packet, rfl, hslot, hmin, hmax, ?_⟩
          rw [resendDataPacket_some hindex hslot hmin hmax hrange] at h
          cases h
          rfl

end

/-! ## The steps -/

/-- The EOF has not been sent yet. -/
def ServerPoint.beforeEof : ServerPoint → Bool
  | .windowOpen | .windowOpenPoll | .windowClosed _ | .endOfFile => true
  | .endOfFileWait _ | .done _ => false

/-- Whose address the child holds after the input. -/
def ServerInput.client (client : Addr) : ServerInput → Addr
  | .poll (.received src _ _) => src
  | _ => client

namespace Server

/-- What is tested on the way to a point holds there. -/
structure Poised (s : Server) : Prop where
  windowClosed : ∀ count, s.point = .windowClosed count →
    s.window.checkWindowOpen = false ∧ count < 10
  endOfFile : s.point = .endOfFile →
    s.dataFile = [] ∧ s.window.checkWindowOpen = true ∧ 0 < s.bufferSize
  endOfFileWait : ∀ count, s.point = .endOfFileWait count → count < 10

/-- Why the child calls `resend_data_packet` for a number, under a flag. -/
inductive ResendCause (o : ByteOrder) (s : Server) : ServerInput → Int → Byte → Prop
  | srej {src : Addr} {stale datagram : Bytes} {number : Int}
      (hcontrol : receiveControl o stale datagram = .srej number) :
      ResendCause o s (.poll (.received src stale datagram)) number resentSrejDataPacketFlag
  | timeout (hpoint : (∃ count, s.point = .windowClosed count) ∨
      ∃ count, s.point = .endOfFileWait count) :
      ResendCause o s (.poll .timeout) s.window.lower resentTimeoutDataPacketFlag

/-- Neither the file nor the phase of the transfer has moved on. -/
structure Continues (s s' : Server) : Prop where
  file : s'.dataFile = s.dataFile
  beforeEof : s'.point.beforeEof = true → s.point.beforeEof = true
  endOfFileWait : ∀ count, s'.point = .endOfFileWait count →
    ∃ count, s.point = .endOfFileWait count

/-- What a step that returns has done to the window and the file, and what it has sent. -/
inductive Effect (o : ByteOrder) (s : Server) : ServerInput → Server → List Datagram → Prop
  | idle {i : ServerInput} {s' : Server} (hwindow : s'.window = s.window) (h : s.Continues s')
      (hack : s'.point = .done .eofAck → ∃ src stale datagram,
        i = .poll (.received src stale datagram) ∧ receiveControl o stale datagram = .eofAck) :
      Effect o s i s' []
  | sent {readFails : Bool} {junk : Byte} {payload buf : Bytes} {rest : List Bytes}
      {w : WindowArray} (hpoint : s.point = .windowOpen)
      (hopen : s.window.checkWindowOpen = true) (hfile : s.dataFile = payload :: rest)
      (hsend : sendDataPacket o s.window payload = .ok (w, buf)) :
      Effect o s (.run readFails junk)
        { s with point := .windowOpenPoll, window := w, dataFile := rest } [⟨s.client, buf⟩]
  | sentEof {readFails : Bool} {junk : Byte} {buf : Bytes} {w : WindowArray}
      (hpoint : s.point = .endOfFile) (hsend : sendEof o s.window junk = .ok (w, buf)) :
      Effect o s (.run readFails junk) { s with point := .endOfFileWait 0, window := w }
        [⟨s.client, buf⟩]
  | released {src : Addr} {stale datagram : Bytes} {rr : Int} {s' : Server}
      (hcontrol : receiveControl o stale datagram = .rr rr)
      (hclean : cleaningUpWithRR s.window rr = .ok s'.window) (h : s.Continues s')
      (hdone : ∀ why, s'.point ≠ .done why) :
      Effect o s (.poll (.received src stale datagram)) s' []
  | resent {i : ServerInput} {number : Int} {flag : Byte} {buf : Bytes} {s' : Server}
      (hcause : ResendCause o s i number flag)
      (hresend : resendDataPacket o s.window (toUInt32 number) flag s.bufferSize = .ok buf)
      (hwindow : s'.window = s.window) (h : s.Continues s')
      (hack : s'.point ≠ .done .eofAck) :
      Effect o s i s' [⟨s'.client, buf⟩]

/-- All there is to say about a step that returns. -/
structure Stepped (o : ByteOrder) (s : Server) (i : ServerInput) (s' : Server)
    (ds : List Datagram) : Prop where
  effect : Effect o s i s' ds
  poised : s'.Poised
  bufferSize : s'.bufferSize = s.bufferSize
  client : s'.client = i.client s.client

/-! ### Loop heads -/

theorem poised_of_done {s : Server} {why : ServerExit} (h : s.point = .done why) : s.Poised :=
  ⟨fun _ h' => by simp [h] at h', fun h' => by simp [h] at h', fun _ h' => by simp [h] at h'⟩

theorem poised_of_windowOpen {s : Server} (h : s.point = .windowOpen) : s.Poised :=
  ⟨fun _ h' => by simp [h] at h', fun h' => by simp [h] at h', fun _ h' => by simp [h] at h'⟩

theorem continues_of_done {s s' : Server} {why : ServerExit} (hfile : s'.dataFile = s.dataFile)
    (h : s'.point = .done why) : s.Continues s' :=
  ⟨hfile, fun h' => by simp [h, ServerPoint.beforeEof] at h', fun _ h' => by simp [h] at h'⟩

theorem continues_of_beforeEof {s s' : Server} (hfile : s'.dataFile = s.dataFile)
    (h : s.point.beforeEof = true) (h' : ∀ count, s'.point ≠ .endOfFileWait count) :
    s.Continues s' :=
  ⟨hfile, fun _ => h, fun count hc => absurd hc (h' count)⟩

section
variable (s : Server) (count : Nat)

/-- Where the loop of `window_closed` goes. -/
theorem windowClosedLoop_eq : ∃ point, s.windowClosedLoop count = { s with point := point } ∧
    ((s.window.checkWindowOpen = false ∧ count < 10 ∧ point = .windowClosed count) ∨
      point = .done .gaveUp ∨ point = .windowOpen) := by
  unfold windowClosedLoop
  split
  · next h => exact ⟨_, rfl, .inl ⟨h.1, h.2, rfl⟩⟩
  · split
    · exact ⟨_, rfl, .inr (.inl rfl)⟩
    · exact ⟨_, rfl, .inr (.inr rfl)⟩

/-- Where the loop of `end_of_file` goes. -/
theorem endOfFileLoop_eq : ∃ point, s.endOfFileLoop count = { s with point := point } ∧
    ((count < 10 ∧ point = .endOfFileWait count) ∨ point = .done .gaveUp) := by
  unfold endOfFileLoop
  split
  · next h => exact ⟨_, rfl, .inl ⟨h, rfl⟩⟩
  · exact ⟨_, rfl, .inr rfl⟩

theorem poised_windowClosedLoop : (s.windowClosedLoop count).Poised := by
  obtain ⟨point, heq, ⟨hclosed, hcount, rfl⟩ | rfl | rfl⟩ := s.windowClosedLoop_eq count
  · rw [heq]
    refine ⟨fun c hc => ?_, fun hc => (by cases hc), fun _ hc => (by cases hc)⟩
    cases hc
    exact ⟨hclosed, hcount⟩
  · exact poised_of_done (congrArg Server.point heq)
  · exact poised_of_windowOpen (congrArg Server.point heq)

theorem poised_endOfFileLoop : (s.endOfFileLoop count).Poised := by
  obtain ⟨point, heq, ⟨hcount, rfl⟩ | rfl⟩ := s.endOfFileLoop_eq count
  · rw [heq]
    refine ⟨fun _ hc => (by cases hc), fun hc => (by cases hc), fun c hc => ?_⟩
    cases hc
    exact hcount
  · exact poised_of_done (congrArg Server.point heq)

end

/-- The loop of `window_closed`, entered from `s` with a window that may have moved. -/
theorem stepped_windowClosedLoop {s t : Server} (count : Nat) (hfile : t.dataFile = s.dataFile)
    (hbefore : s.point.beforeEof = true) :
    s.Continues (t.windowClosedLoop count) ∧ (t.windowClosedLoop count).window = t.window ∧
      (t.windowClosedLoop count).bufferSize = t.bufferSize ∧
      (t.windowClosedLoop count).client = t.client ∧
      (t.windowClosedLoop count).point ≠ .done .eofAck := by
  obtain ⟨point, heq, hpoint⟩ := t.windowClosedLoop_eq count
  rw [heq]
  refine ⟨continues_of_beforeEof hfile hbefore fun c hc => ?_, rfl, rfl, rfl, fun hc => ?_⟩
  · rcases hpoint with ⟨-, -, rfl⟩ | rfl | rfl <;> cases hc
  · rcases hpoint with ⟨-, -, rfl⟩ | rfl | rfl <;> cases hc

/-- The loop of `end_of_file`, entered from `s` once the EOF is sent. -/
theorem stepped_endOfFileLoop {s t : Server} (count : Nat) (hfile : t.dataFile = s.dataFile)
    (hwait : ∃ count, s.point = .endOfFileWait count) :
    s.Continues (t.endOfFileLoop count) ∧ (t.endOfFileLoop count).window = t.window ∧
      (t.endOfFileLoop count).bufferSize = t.bufferSize ∧
      (t.endOfFileLoop count).client = t.client ∧
      (t.endOfFileLoop count).point ≠ .done .eofAck := by
  obtain ⟨point, heq, hpoint⟩ := t.endOfFileLoop_eq count
  rw [heq]
  refine ⟨⟨hfile, fun hc => ?_, fun c hc => hwait⟩, rfl, rfl, rfl, fun hc => ?_⟩
  · rcases hpoint with ⟨-, rfl⟩ | rfl <;> cases hc
  · rcases hpoint with ⟨-, rfl⟩ | rfl <;> cases hc

/-! ### State by state -/

section
variable {s s' : Server} {ds : List Datagram}

/-- A resend, and where the child goes on from there. -/
theorem exists_of_resend {t : Server} {number : Int} {flag : Byte} (h : (do
      let d ← s.resend o number flag
      return (t, [d]) : C (Server × List Datagram)) = .ok (s', ds)) : ∃ buf,
    resendDataPacket o s.window (toUInt32 number) flag s.bufferSize = .ok buf ∧
      s' = t ∧ ds = [⟨s.client, buf⟩] := by
  obtain ⟨d, hresend, h⟩ := C.bind_eq_ok.mp h
  obtain ⟨buf, hbuf, hd⟩ := C.bind_eq_ok.mp hresend
  cases hd
  cases h
  exact ⟨buf, hbuf, rfl, rfl⟩

theorem stepped_windowOpen {readFails : Bool} {junk : Byte} (hpoint : s.point = .windowOpen)
    (h : s.windowOpen o readFails = .ok (s', ds)) :
    Stepped o s (.run readFails junk) s' ds := by
  have hbefore : s.point.beforeEof = true := by rw [hpoint]; rfl
  unfold windowOpen at h
  split at h
  · next hopen =>
      split at h
      · cases h
      next hsize =>
        split at h
        · cases h
          exact ⟨.idle rfl (continues_of_done rfl rfl) (fun hc => by cases hc), poised_of_done rfl,
            rfl, rfl⟩
        · split at h
          · next hfile =>
              cases h
              refine ⟨.idle rfl (continues_of_beforeEof rfl hbefore fun _ hc => by cases hc)
                (fun hc => by cases hc), ⟨fun _ hc => (by cases hc),
                fun _ => ⟨hfile, hopen, Int.not_le.mp hsize⟩, fun _ hc => by cases hc⟩, rfl, rfl⟩
          · next payload rest hfile =>
              obtain ⟨⟨w, buf⟩, hsend, hs'⟩ := C.bind_eq_ok.mp h
              cases hs'
              exact ⟨.sent hpoint hopen hfile hsend, ⟨fun _ hc => (by cases hc),
                fun hc => (by cases hc), fun _ hc => by cases hc⟩, rfl, rfl⟩
  · cases h
    obtain ⟨hcontinues, hwindow, hsize, hclient, hack⟩ :=
      stepped_windowClosedLoop (s := s) (t := s) 0 rfl hbefore
    exact ⟨.idle hwindow hcontinues fun hc => absurd hc hack, poised_windowClosedLoop s 0, hsize,
      hclient⟩

theorem stepped_windowOpenPoll {p : Poll} (hpoint : s.point = .windowOpenPoll)
    (h : s.windowOpenPoll o p = .ok (s', ds)) : Stepped o s (.poll p) s' ds := by
  have hbefore : s.point.beforeEof = true := by rw [hpoint]; rfl
  -- Every branch goes on to `windowOpen` or ends the child.
  have hopen (t : Server) (hfile : t.dataFile = s.dataFile) (ht : t.point = .windowOpen) :
      s.Continues t :=
    continues_of_beforeEof hfile hbefore fun _ hc => by simp [ht] at hc
  unfold windowOpenPoll at h
  split at h
  · cases h
    exact ⟨.idle rfl (hopen _ rfl rfl) (fun hc => by cases hc), poised_of_windowOpen rfl, rfl, rfl⟩
  · split at h
    · cases h
      exact ⟨.idle rfl (hopen _ rfl rfl) (fun hc => by cases hc), poised_of_windowOpen rfl, rfl,
        rfl⟩
    · next rr hcontrol =>
        obtain ⟨w, hclean, hs'⟩ := C.bind_eq_ok.mp h
        cases hs'
        exact ⟨.released hcontrol hclean (hopen _ rfl rfl) (fun _ hc => by cases hc),
          poised_of_windowOpen rfl, rfl, rfl⟩
    · next number hcontrol =>
        obtain ⟨buf, hbuf, rfl, rfl⟩ := exists_of_resend h
        exact ⟨.resent (.srej hcontrol) hbuf rfl (hopen _ rfl rfl) (fun hc => by cases hc),
          poised_of_windowOpen rfl, rfl, rfl⟩
    · cases h
      exact ⟨.idle rfl (continues_of_done rfl rfl) (fun hc => by cases hc), poised_of_done rfl, rfl,
        rfl⟩
    · cases h
      exact ⟨.idle rfl (continues_of_done rfl rfl) (fun hc => by cases hc), poised_of_done rfl, rfl,
        rfl⟩

theorem stepped_windowClosed {count : Nat} {p : Poll} (hpoint : s.point = .windowClosed count)
    (h : s.windowClosed o count p = .ok (s', ds)) : Stepped o s (.poll p) s' ds := by
  have hbefore : s.point.beforeEof = true := by rw [hpoint]; rfl
  unfold windowClosed at h
  split at h
  · obtain ⟨buf, hbuf, rfl, rfl⟩ := exists_of_resend h
    obtain ⟨hcontinues, hwindow, hsize, hclient, hack⟩ :=
      stepped_windowClosedLoop (s := s) (t := s) (count + 1) rfl hbefore
    rw [← hclient]
    exact ⟨.resent (.timeout (.inl ⟨count, hpoint⟩)) hbuf hwindow hcontinues hack,
      poised_windowClosedLoop .., hsize, hclient⟩
  · next src stale datagram =>
      -- The loop goes on with the sender's address.
      obtain ⟨hcontinues, hwindow, hsize, hclient, hack⟩ :=
        stepped_windowClosedLoop (s := s) (t := { s with client := src }) 0 rfl hbefore
      split at h
      · cases h
        exact ⟨.idle hwindow hcontinues fun hc => absurd hc hack, poised_windowClosedLoop .., hsize,
          hclient⟩
      · next rr hcontrol =>
          obtain ⟨w, hclean, hs'⟩ := C.bind_eq_ok.mp h
          cases hs'
          exact ⟨.released hcontrol hclean
            (continues_of_beforeEof rfl hbefore fun _ hc => by cases hc) (fun _ hc => by cases hc),
            poised_of_windowOpen rfl, rfl, rfl⟩
      · next number hcontrol =>
          obtain ⟨buf, hbuf, rfl, rfl⟩ := exists_of_resend h
          rw [← hclient]
          exact ⟨.resent (.srej hcontrol) hbuf hwindow hcontinues hack,
            poised_windowClosedLoop .., hsize, hclient⟩
      · cases h
        exact ⟨.idle rfl (continues_of_done rfl rfl) (fun hc => (by cases hc)), poised_of_done rfl,
          rfl, rfl⟩
      · cases h
        exact ⟨.idle rfl (continues_of_done rfl rfl) (fun hc => (by cases hc)), poised_of_done rfl,
          rfl, rfl⟩

theorem stepped_endOfFile {readFails : Bool} {junk : Byte} (hpoint : s.point = .endOfFile)
    (h : s.endOfFile o junk = .ok (s', ds)) : Stepped o s (.run readFails junk) s' ds := by
  obtain ⟨⟨w, buf⟩, hsend, hs'⟩ := C.bind_eq_ok.mp h
  cases hs'
  exact ⟨.sentEof hpoint hsend, poised_endOfFileLoop { s with window := w } 0, rfl, rfl⟩

theorem stepped_endOfFileWait {count : Nat} {p : Poll} (hpoint : s.point = .endOfFileWait count)
    (h : s.endOfFileWait o count p = .ok (s', ds)) : Stepped o s (.poll p) s' ds := by
  have hwait : ∃ count, s.point = .endOfFileWait count := ⟨count, hpoint⟩
  unfold endOfFileWait at h
  split at h
  · obtain ⟨buf, hbuf, rfl, rfl⟩ := exists_of_resend h
    obtain ⟨hcontinues, hwindow, hsize, hclient, hack⟩ :=
      stepped_endOfFileLoop (s := s) (t := s) (count + 1) rfl hwait
    rw [← hclient]
    exact ⟨.resent (.timeout (.inr hwait)) hbuf hwindow hcontinues hack,
      poised_endOfFileLoop .., hsize, hclient⟩
  · next src stale datagram =>
      obtain ⟨hcontinues, hwindow, hsize, hclient, hack⟩ :=
        stepped_endOfFileLoop (s := s) (t := { s with client := src }) 0 rfl hwait
      split at h
      · cases h
        exact ⟨.idle hwindow hcontinues fun hc => absurd hc hack, poised_endOfFileLoop .., hsize,
          hclient⟩
      · next rr hcontrol =>
          obtain ⟨w, hclean, hs'⟩ := C.bind_eq_ok.mp h
          cases hs'
          obtain ⟨hcontinues, hwindow, hsize, hclient, -⟩ := stepped_endOfFileLoop (s := s)
            (t := { s with client := src, window := w }) 0 rfl hwait
          exact ⟨.released hcontrol (hwindow.symm ▸ hclean) hcontinues fun _ hc => (by cases hc),
            poised_endOfFileLoop .., hsize, hclient⟩
      · next number hcontrol =>
          obtain ⟨buf, hbuf, rfl, rfl⟩ := exists_of_resend h
          rw [← hclient]
          exact ⟨.resent (.srej hcontrol) hbuf hwindow hcontinues hack,
            poised_endOfFileLoop .., hsize, hclient⟩
      · next hcontrol =>
          cases h
          exact ⟨.idle rfl (continues_of_done rfl rfl) fun _ => ⟨src, stale, datagram, rfl,
            hcontrol⟩, poised_of_done rfl, rfl, rfl⟩
      · cases h
        exact ⟨.idle rfl (continues_of_done rfl rfl) (fun hc => (by cases hc)), poised_of_done rfl,
          rfl, rfl⟩

/-- **What a step of the child can do.** -/
theorem stepped {i : ServerInput} (h : s.step o i = some (.ok (s', ds))) :
    Stepped o s i s' ds := by
  unfold step at h
  split at h
  · next hpoint => exact stepped_windowOpen hpoint (Option.some.inj h)
  · next hpoint => exact stepped_windowOpenPoll hpoint (Option.some.inj h)
  · next hpoint => exact stepped_windowClosed hpoint (Option.some.inj h)
  · next hpoint => exact stepped_endOfFile hpoint (Option.some.inj h)
  · next hpoint => exact stepped_endOfFileWait hpoint (Option.some.inj h)
  · cases h

/-- **The child sends to whomever it last received from.** -/
theorem dest_of_step {i : ServerInput} (h : s.step o i = some (.ok (s', ds))) {d : Datagram}
    (hd : d ∈ ds) : d.dest = s'.client := by
  obtain ⟨heffect, -, -, -⟩ := stepped h
  cases heffect with
  | idle _ _ _ => cases hd
  | sent _ _ _ _ =>
      cases List.mem_singleton.mp hd
      rfl
  | sentEof _ _ =>
      cases List.mem_singleton.mp hd
      rfl
  | released _ _ _ _ => cases hd
  | resent _ _ _ _ _ =>
      cases List.mem_singleton.mp hd
      rfl

theorem polls_of_step {p : Poll} {y : C (Server × List Datagram)}
    (h : s.step o (.poll p) = some y) : s.Polls := by
  unfold step at h
  split at h
  · next hi => cases hi
  · next hpoint _ => exact .inl hpoint
  · next count _ hpoint _ => exact .inr (.inl ⟨count, hpoint⟩)
  · next hi => cases hi
  · next count _ hpoint _ => exact .inr (.inr ⟨count, hpoint⟩)
  · cases h

theorem point_of_step_run {readFails : Bool} {junk : Byte} {y : C (Server × List Datagram)}
    (h : s.step o (.run readFails junk) = some y) :
    s.point = .windowOpen ∨ s.point = .endOfFile := by
  unfold step at h
  split at h
  · next hpoint _ => exact .inl hpoint
  · next hi => cases hi
  · next hi => cases hi
  · next hpoint _ => exact .inr hpoint
  · next hi => cases hi
  · cases h

/-- What is neither RR nor SREJ is passed over, or ends the child. -/
theorem step_control_returns {src : Addr} {stale datagram : Bytes}
    (hcontrol : receiveControl o stale datagram = .rejected ∨
      receiveControl o stale datagram = .eofAck ∨ receiveControl o stale datagram = .other)
    {y : C (Server × List Datagram)}
    (hy : s.step o (.poll (.received src stale datagram)) = some y) :
    ∃ s' ds, y = .ok (s', ds) := by
  rcases polls_of_step hy with hpoint | ⟨count, hpoint⟩ | ⟨count, hpoint⟩
  · simp only [step_windowOpenPoll hpoint, windowOpenPoll, Option.some.injEq] at hy
    subst hy
    rcases hcontrol with hcontrol | hcontrol | hcontrol <;> rw [hcontrol] <;> exact ⟨_, _, rfl⟩
  · simp only [step_windowClosed hpoint, windowClosed, Option.some.injEq] at hy
    subst hy
    rcases hcontrol with hcontrol | hcontrol | hcontrol <;> rw [hcontrol] <;> exact ⟨_, _, rfl⟩
  · simp only [step_endOfFileWait hpoint, endOfFileWait, Option.some.injEq] at hy
    subst hy
    rcases hcontrol with hcontrol | hcontrol | hcontrol <;> rw [hcontrol] <;> exact ⟨_, _, rfl⟩

/-- At its polls the child releases what an RR acknowledges. -/
theorem step_rr (hpoll : s.Polls) (src : Addr) {stale datagram : Bytes} {rr : Int}
    (hcontrol : receiveControl o stale datagram = .rr rr) : ∃ next : WindowArray → Server,
    (∀ w, (next w).window = w ∧
      ((next w).point = .windowOpen ∨ (next w).point = .endOfFileWait 0)) ∧
    s.step o (.poll (.received src stale datagram))
      = some (cleaningUpWithRR s.window rr >>= fun w => .ok (next w, [])) := by
  rcases hpoll with hpoint | ⟨count, hpoint⟩ | ⟨count, hpoint⟩
  · refine ⟨fun w => { s with client := src, point := .windowOpen, window := w },
      fun _ => ⟨rfl, .inl rfl⟩, ?_⟩
    simp only [step_windowOpenPoll hpoint, windowOpenPoll, hcontrol]
    rfl
  · refine ⟨fun w => { s with client := src, point := .windowOpen, window := w },
      fun _ => ⟨rfl, .inl rfl⟩, ?_⟩
    simp only [step_windowClosed hpoint, windowClosed, hcontrol]
    rfl
  · refine ⟨fun w => { s with client := src, point := .endOfFileWait 0, window := w },
      fun _ => ⟨rfl, .inr rfl⟩, ?_⟩
    simp only [step_endOfFileWait hpoint, endOfFileWait, hcontrol]
    rfl

/-- At its polls the child resends what an SREJ asks for. -/
theorem step_srej (hpoll : s.Polls) (src : Addr) {stale datagram : Bytes} {number : Int}
    (hcontrol : receiveControl o stale datagram = .srej number) : ∃ s' : Server,
    s'.window = s.window ∧ s.step o (.poll (.received src stale datagram))
      = some (resendDataPacket o s.window (toUInt32 number) resentSrejDataPacketFlag s.bufferSize
          >>= fun buf => .ok (s', [⟨src, buf⟩])) := by
  rcases hpoll with hpoint | ⟨count, hpoint⟩ | ⟨count, hpoint⟩
  · refine ⟨{ s with client := src, point := .windowOpen }, rfl, ?_⟩
    simp only [step_windowOpenPoll hpoint, windowOpenPoll, hcontrol, resend, bind_assoc,
      C.pure_eq, C.ok_bind]
  · refine ⟨windowClosedLoop { s with client := src } 0, ?_, ?_⟩
    · obtain ⟨point, heq, -⟩ := windowClosedLoop_eq { s with client := src } 0
      rw [heq]
    · simp only [step_windowClosed hpoint, windowClosed, hcontrol, resend, bind_assoc, C.pure_eq,
        C.ok_bind]
  · refine ⟨endOfFileLoop { s with client := src } 0, ?_, ?_⟩
    · obtain ⟨point, heq, -⟩ := endOfFileLoop_eq { s with client := src } 0
      rw [heq]
    · simp only [step_endOfFileWait hpoint, endOfFileWait, hcontrol, resend, bind_assoc, C.pure_eq,
        C.ok_bind]

/-! ## Steps from `WINDOW_OPEN` -/

/-- The window is full. -/
theorem run_closed (hpoint : s.point = .windowOpen) (hclosed : s.window.checkWindowOpen = false)
    (readFails : Bool) (junk : Byte) : s.step o (.run readFails junk)
      = some (.ok ({ s with point := .windowClosed 0 }, [])) := by
  simp only [step_windowOpen hpoint, windowOpen, windowClosedLoop, hclosed]
  rfl

/-- The file is at its end. -/
theorem run_end (hpoint : s.point = .windowOpen) (hopen : s.window.checkWindowOpen = true)
    (hsize : 0 < s.bufferSize) (hfile : s.dataFile = []) (junk : Byte) :
    s.step o (.run false junk) = some (.ok ({ s with point := .endOfFile }, [])) := by
  simp only [step_windowOpen hpoint, windowOpen, hopen, if_true, if_neg (Int.not_le.mpr hsize),
    hfile]
  rfl

/-- The next block goes out, through the window. -/
theorem run_block (hpoint : s.point = .windowOpen) (hopen : s.window.checkWindowOpen = true)
    (hsize : 0 < s.bufferSize) {payload : Bytes} {rest : List Bytes}
    (hfile : s.dataFile = payload :: rest) (junk : Byte) : s.step o (.run false junk)
      = some (sendDataPacket o s.window payload >>= fun x =>
        .ok ({ s with point := .windowOpenPoll, window := x.1, dataFile := rest },
          [⟨s.client, x.2⟩])) := by
  simp only [step_windowOpen hpoint, windowOpen, hopen, if_true, if_neg (Int.not_le.mpr hsize),
    hfile]
  rfl

/-- The poll between two blocks. -/
theorem poll_windowOpen (hpoint : s.point = .windowOpenPoll) :
    s.step o (.poll .timeout) = some (.ok ({ s with point := .windowOpen }, [])) := by
  simp only [step_windowOpenPoll hpoint, windowOpenPoll]

end

end Server

end RemoteCopy

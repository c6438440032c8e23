import RemoteCopy.ServerSilence
import RemoteCopy.Sizes
import RemoteCopy.Reach
import Mathlib.Data.Finset.Card
import Mathlib.Data.Finset.Range

/-!
# When the peer goes silent

The other half of `ServerSilence`: rcopy gives up after ten requests, or ten seconds after it last
received something, with what lies in its ring from `current` on written before that. Every PDU that
is flushed moves the upper edge of the window, which began at whatever window size was asked for,
and counts an RR: these sums are all that can go wrong (`stops_iff`).
-/

namespace RemoteCopy

open Drive

namespace RcopySetup

variable {o : ByteOrder} {bufferSize : BufferSize} {server : Addr} {r r' : RcopySetup}

/-! ## rcopy without an answer -/

/-- The iterations of `filename` from `r₀` on, labelled by what was polled, the socket that is
opened if another follows, and what was sent. -/
def system (o : ByteOrder) (bufferSize : BufferSize) (server : Addr) (r₀ : RcopySetup) :
    System RcopySetup ((Poll × Addr) × List Sent) where
  init r := r = r₀
  step r l r' := r.state = .filename ∧ r.filename o bufferSize server l.1.2 l.1.1 = (r', l.2)

/-- An iteration that receives nothing. -/
def silent (o : ByteOrder) (bufferSize : BufferSize) (server : Addr) (r : RcopySetup)
    (newSocket : Addr) : Option (C (RcopySetup × List Sent)) :=
  if r.state = .filename then some (.ok (r.filename o bufferSize server newSocket .timeout))
  else none

/-- What rcopy has sent while it waits: the one request, once more for each iteration. -/
structure Repeats (server : Addr) (pduBuffer : Bytes) (r : RcopySetup) (sent : List Sent) :
    Prop where
  pduBuffer_eq : r.pduBuffer = pduBuffer
  datagrams : ∀ x ∈ sent, x.datagram = ⟨server, pduBuffer⟩
  count : r.state = .filename → sent.length = r.count ∧ r.count < 10

theorem Repeats.step {pduBuffer : Bytes} {sent xs : List Sent} {newSocket : Addr} {p : Poll}
    (h : Repeats server pduBuffer r sent) (hstate : r.state = .filename)
    (hstep : r.filename o bufferSize server newSocket p = (r', xs)) :
    Repeats server pduBuffer r' (sent ++ xs) := by
  obtain ⟨hbuffer, -, hdatagrams⟩ := r.filename_keeps o bufferSize server newSocket p
  rw [hstep] at hbuffer hdatagrams
  refine ⟨hbuffer.trans h.pduBuffer_eq, fun x hx => ?_, fun hwaits => ?_⟩
  · rcases List.mem_append.mp hx with hx | hx
    · exact h.datagrams x hx
    · rw [hdatagrams x hx, h.pduBuffer_eq]
  · obtain ⟨hcount, hlt⟩ := h.count hstate
    rcases r.filename_socket o bufferSize server newSocket p with
      ⟨state, src, hleft, -, count, heq⟩ | ⟨hne, heq⟩
    · cases hstep.symm.trans heq
      exact absurd hwaits hleft
    · cases hstep.symm.trans heq
      refine ⟨?_, Nat.lt_of_le_of_ne hlt hne⟩
      rw [List.length_append, hcount]
      rfl

theorem repeats_of_reachable {windowSize : Int} {fromFile : Bytes} {clientSocket : Addr}
    {r₀ : RcopySetup} (hstart : start o windowSize bufferSize fromFile server clientSocket = .ok r₀)
    {x : RcopySetup × List Sent}
    (h : ((system o bufferSize server r₀).logged Prod.snd).Reachable x) :
    Repeats server r₀.pduBuffer x.1 x.2 := by
  refine System.Reachable.invariant (P := fun x => Repeats server r₀.pduBuffer x.1 x.2) ?_ ?_ h
  · rintro x ⟨hinit, hsent⟩
    rw [hinit, hsent]
    obtain ⟨pduBuffer, -, hr₀⟩ := C.bind_eq_ok.mp hstart
    cases hr₀
    exact ⟨rfl, fun x hx => (by cases hx), fun _ => ⟨rfl, Nat.zero_lt_succ 9⟩⟩
  · rintro x l x' - hrepeats ⟨⟨hstate, hstep⟩, hsent⟩
    rw [hsent]
    exact hrepeats.step hstate hstep

/-- **rcopy without an answer gives up** after as many requests as its count leaves. -/
theorem stopsIn_filename {pduBuffer : Bytes} (k : Nat) : ∀ {r : RcopySetup}, r.state = .filename →
    r.pduBuffer = pduBuffer → r.count + (k + 1) = 10 →
    StopsIn (RcopySetup.silent o bufferSize server) (k + 1) (fun r' xs => r'.state = .done ∧
      xs.length = k ∧ ∀ x ∈ xs, x.datagram = ⟨server, pduBuffer⟩) r := by
  induction k with
  | zero =>
      intro r hstate hbuffer hcount
      refine .next fun newSocket => ?_
      have hlast : r.silent o bufferSize server newSocket
          = some (.ok (leave { r with count := r.count + 1 } .done, [])) := by
        simp only [silent, if_pos hstate, filename, retry, if_pos hcount]
      refine ⟨_, [], hlast, .now (fun _ => rfl) ⟨rfl, rfl, fun x hx => (by cases hx)⟩⟩
  | succ k ih =>
      intro r hstate hbuffer hcount
      refine .next fun newSocket => ?_
      have hnext : r.silent o bufferSize server newSocket = some (.ok (
          { r with count := r.count + 1, clientSocket := newSocket, serverAddress := server },
          [⟨newSocket, ⟨server, pduBuffer⟩⟩])) := by
        simp only [silent, if_pos hstate, filename, retry,
          if_neg (show ¬ r.count + 1 = 10 by omega), request, ← hbuffer]
      have hrest := ih (r := { r with
        count := r.count + 1, clientSocket := newSocket, serverAddress := server }) hstate hbuffer
        (by simp only; omega)
      refine ⟨_, _, hnext, hrest.mono (Nat.le_refl _) fun r' xs hQ => ?_⟩
      obtain ⟨hdone, hlen, hdatagrams⟩ := hQ
      refine ⟨hdone, congrArg Nat.succ hlen, fun x hx => ?_⟩
      rcases List.mem_cons.mp hx with rfl | hx
      · rfl
      · exact hdatagrams x hx

end RcopySetup

namespace WindowArray

/-- The slots that hold a PDU. -/
def occupied (w : WindowArray) : Finset Nat :=
  (Finset.range w.array.length).filter fun j => (w.slot j).isSome

/-- `flush` comes to write the PDU `k` places behind `current`: that one and those before it are
stored, none is the EOF, and `highest` is not among those before it. -/
def Flushes (w : WindowArray) (k : Nat) : Prop :=
  ∀ i ≤ k, (∃ j packet, w.index (w.current + i) = .ok j ∧ w.slot j = some packet ∧
    packet.flag ≠ eofFlag) ∧ (i < k → w.current + i < w.highest)

theorem mem_occupied {w : WindowArray} {j : Nat} :
    j ∈ w.occupied ↔ ∃ packet, w.slot j = some packet := by
  rw [occupied, Finset.mem_filter, Finset.mem_range, Option.isSome_iff_exists]
  refine and_iff_right_of_imp fun ⟨packet, hslot⟩ => ?_
  by_contra hge
  rw [slot, List.getElem?_eq_none (Nat.not_lt.mp hge)] at hslot
  cases hslot

end WindowArray

namespace Rcopy

variable {o : ByteOrder} {r r' : Rcopy} {n : Nat}

/-! ## The receiver -/

/-- The counter of what was sent is an `int32_t`, which has not left its range where it is not less
than before; an iteration of the flush counts one RR at most. -/
def counted (r : Rcopy) (y : Rcopy × List Datagram) : C (Rcopy × List Datagram) :=
  if toInt32 r.sequenceNumber ≤ toInt32 y.1.sequenceNumber then .ok y else .error .signedOverflow

/-- The step of a receiver that receives nothing. What its `write`s do is up to its host. -/
def silent (o : ByteOrder) (r : Rcopy) (host : Write × Byte) : Option (C (Rcopy × List Datagram)) :=
  match r.point with
  | .flush => some (r.flush o host.1 host.2 >>= r.counted)
  | _ => r.step o (.poll .timeout host.1 host.2)

/-- From `r` to its end in `r'` the receiver writes what is `written`: the PDUs that are stored from
`current` on, or parts of them, and only while it flushes. -/
structure DriesUp (r r' : Rcopy) (written : List Bytes) : Prop where
  done : ∃ why, r'.point = .done why
  file : r'.outputFile = r.outputFile ++ written
  flush : r.point ≠ .flush → written = []
  few : written.length ≤ r.window.occupied.card
  get : ∀ (k : Nat) payload, written[k]? = some payload → ∃ j packet len,
    r.window.index (r.window.current + k) = .ok j ∧ r.window.slot j = some packet ∧
    payload = packet.payload.take len

/-- The upper edge can move, and the counter count, as far as `flush` takes them. -/
def RoomToFlush (r : Rcopy) : Prop :=
  r.point = .flush → ∀ k : Nat, (k : Int) < r.window.windowSize → r.window.Flushes k →
    r.window.upper + k + 1 < 2147483648 ∧ toInt32 r.sequenceNumber + k + 1 < 2147483648

/-- What holds of a receiver whatever it has received. -/
structure Intact (n : Nat) (r : Rcopy) : Prop where
  range : InRange n r.window
  stocked : r.Stocked
  bounded : r.Bounded

theorem Intact.step (h : r.Intact n) {i : RcopyInput} {ds : List Datagram}
    (hstep : r.step o i = some (.ok (r', ds))) : r'.Intact n where
  range := h.range.step (effect_of_step h.stocked hstep)
  stocked := h.stocked.step hstep
  bounded := h.bounded.step hstep

theorem intact_of_reachable {bufferSize : BufferSize} {seq : UInt32} {addr : Addr} {r₀ : Rcopy}
    (hstart : start n bufferSize seq addr = .ok r₀) (h : (system o r₀).Reachable r) :
    r.Intact n :=
  ⟨inRange_of_reachable hstart h, stocked_of_reachable hstart h, bounded_of_reachable hstart h⟩

/-! ### One iteration of the flush -/

/-- Where `current` is in the array. -/
theorem Intact.index_current (h : r.Intact n) (hn : 0 < n) :
    ∃ j, r.window.index r.window.current = .ok j := by
  obtain ⟨c, hc⟩ := Int.eq_ofNat_of_zero_le h.range.current
  rw [hc]
  exact ⟨c % n, WindowArray.index_eq h.range.size hn⟩

section
variable {j : Nat} {packet : Packet} (write : Write) (junk : Byte)

theorem Intact.flush_stored (h : r.Intact n) (hindex : r.window.index r.window.current = .ok j)
    (hslot : r.window.slot j = some packet) : ∃ receiveBuffer payloadLen,
    0 < payloadLen ∧
    (receiveBuffer.drop pduHeaderLen).take (payloadLen - pduHeaderLen).toNat = packet.payload ∧
    r.flush o write junk = if packet.flag = eofFlag then do
        let d ← r.sendEofAck o junk
        return ({ r with point := .done .eofAck }, [d])
      else r.flushWrite o receiveBuffer payloadLen write := by
  obtain ⟨hmin, hflag⟩ := h.stocked j packet hslot
  exact Rcopy.flush_stored write junk hindex hslot hflag hmin (h.bounded j packet hslot).2

theorem Intact.flush_eof (h : r.Intact n) (hindex : r.window.index r.window.current = .ok j)
    (hslot : r.window.slot j = some packet) (heof : packet.flag = eofFlag) :
    ∃ d, r.flush o write junk = .ok ({ r with point := .done .eofAck }, [d]) := by
  obtain ⟨buf, len, -, -, hflush⟩ := h.flush_stored (o := o) write junk hindex hslot
  obtain ⟨d, hsend, -⟩ := r.sendEofAck_eq (o := o) junk
  refine ⟨d, ?_⟩
  rw [hflush, if_pos heof, hsend]
  rfl

theorem Intact.flush_short (h : r.Intact n) (hindex : r.window.index r.window.current = .ok j)
    (hslot : r.window.slot j = some packet) (heof : packet.flag ≠ eofFlag) (len : Nat) :
    r.flush o (.short len) junk = .ok (r.writeFile packet.payload (.short len), []) := by
  obtain ⟨buf, payloadLen, hpos, hpayload, hflush⟩ :=
    h.flush_stored (o := o) (.short len) junk hindex hslot
  rw [hflush, if_neg heof]
  simp only [flushWrite, if_pos hpos, hpayload]

/-- The PDU at `current` is written, and the window moves on. -/
theorem Intact.flush_complete (h : r.Intact n)
    (hindex : r.window.index r.window.current = .ok j)
    (hslot : r.window.slot j = some packet) (heof : packet.flag ≠ eofFlag) :
    r.flush o .complete junk = (do
      let window ← flushAdvance r.window
      let (r', d) ← sendRR o { r with
        outputFile := r.outputFile ++ [packet.payload], window := window } window.current
      if window.highest < window.current then return ({ r' with point := .inOrder }, [d])
      else return ({ r' with point := .flush }, [d])) := by
  obtain ⟨hmin, hflag⟩ := h.stocked j packet hslot
  exact Rcopy.flush_complete junk hindex hslot hflag hmin (h.bounded j packet hslot).2 heof

end

/-! ### The window behind it -/

/-- `w'` is what the flush of the PDU in slot `j` leaves of `w`. -/
structure Popped (w : WindowArray) (j : Nat) (w' : WindowArray) : Prop where
  gone : w'.slot j = none
  kept : ∀ i ≠ j, w'.slot i = w.slot i
  index : ∀ x, w'.index x = w.index x
  windowSize : w'.windowSize = w.windowSize
  upper : w'.upper = w.upper + 1
  current : w'.current = w.current + 1
  highest : w'.highest = w.highest

section
variable {w w' : WindowArray} {j k : Nat} {packet : Packet}

theorem InRange.popped (h : InRange n w) (hn : 0 < n) (hindex : w.index w.current = .ok j)
    (hroom : w.upper + 1 < 2147483648) : ∃ w', flushAdvance w = .ok w' ∧ Popped w j w' := by
  have hlower := h.lower
  have hupper := h.upper
  have hcurrent := h.current
  have h1 : addInt32 w.lower 1 = .ok (w.lower + 1) := addInt32_ok (by omega) (by omega)
  have h2 : addInt32 w.upper 1 = .ok (w.upper + 1) := addInt32_ok (by omega) hroom
  have h3 : addInt32 w.current 1 = .ok (w.current + 1) := addInt32_ok (by omega) (by omega)
  refine ⟨{ w.store j none with
    lower := w.lower + 1, upper := w.upper + 1, current := w.current + 1 }, ?_, ⟨?_,
    fun i hi => WindowArray.slot_store_ne hi none, fun x => rfl, rfl, rfl, rfl, rfl⟩⟩
  · simp only [flushAdvance, WindowArray.removePDU, hindex, WindowArray.incrementLower,
      WindowArray.incrementUpper, WindowArray.incrementCurrent, WindowArray.store_lower,
      WindowArray.store_upper, WindowArray.store_current, h1, h2, h3, C.ok_bind, C.pure_eq]
  · show (w.store j none).slot j = none
    cases hslot : (w.store j none).slot j with
    | none => rfl
    | some packet =>
        rcases WindowArray.slot_of_store hslot with ⟨-, hne⟩ | ⟨-, hnone⟩
        · exact absurd rfl hne
        · cases hnone

theorem InRange.flushAdvance_overflow (h : InRange n w)
    (hindex : w.index w.current = .ok j) (hroom : ¬ w.upper + 1 < 2147483648) :
    flushAdvance w = .error .signedOverflow := by
  have hupper := h.upper
  have hcurrent := h.current
  have h2 : addInt32 w.upper 1 = .error .signedOverflow := if_neg (fun hc => hroom hc.2)
  simp only [flushAdvance, WindowArray.removePDU, hindex, WindowArray.incrementUpper,
    WindowArray.incrementCurrent, WindowArray.store_upper, WindowArray.store_current, C.ok_bind,
    C.pure_eq]
  -- `current` moves first, and may overflow with it.
  by_cases hnext : w.current + 1 < 2147483648
  · have h3 : addInt32 w.current 1 = .ok (w.current + 1) := addInt32_ok (by omega) hnext
    simp only [h3, C.ok_bind, h2, C.error_bind]
  · have h3 : addInt32 w.current 1 = .error .signedOverflow := if_neg (fun hc => hnext hc.2)
    simp only [h3, C.error_bind]

theorem Popped.slot_of (h : Popped w j w') {i : Nat} (hi : w'.slot i = some packet) :
    i ≠ j ∧ w.slot i = some packet := by
  by_cases hij : i = j
  · subst hij
    cases h.gone.symm.trans hi
  · exact ⟨hij, (h.kept i hij).symm.trans hi⟩

/-- One slot less. -/
theorem Popped.card_lt (h : Popped w j w') (hslot : w.slot j = some packet) :
    w'.occupied.card < w.occupied.card := by
  apply Finset.card_lt_card
  rw [Finset.ssubset_iff_of_subset]
  · refine ⟨j, WindowArray.mem_occupied.mpr ⟨packet, hslot⟩, fun hj => ?_⟩
    obtain ⟨packet', hslot'⟩ := WindowArray.mem_occupied.mp hj
    cases h.gone.symm.trans hslot'
  · intro i hi
    obtain ⟨packet', hslot'⟩ := WindowArray.mem_occupied.mp hi
    exact WindowArray.mem_occupied.mpr ⟨packet', (h.slot_of hslot').2⟩

/-- The places behind `current`, up to a whole turn of the ring, are in other slots. -/
theorem InRange.index_ne (h : InRange n w) (hindex : w.index w.current = .ok j) {i : Nat}
    (hpos : 0 < i) (hlt : i < n) : w.index (w.current + i) ≠ .ok j := by
  have hn : 0 < n := Nat.zero_lt_of_lt hlt
  obtain ⟨c, hc⟩ := Int.eq_ofNat_of_zero_le h.current
  rw [hc, WindowArray.index_eq h.size hn] at hindex
  rw [hc, ← Int.natCast_add, WindowArray.index_eq h.size hn]
  intro hsame
  have hmod : (c + i) % n = (c + 0) % n := Except.ok.inj (hsame.trans hindex.symm)
  have hzero := Nat.ModEq.add_left_cancel' c (show c + i ≡ c + 0 [MOD n] from hmod)
  rw [Nat.ModEq, Nat.mod_eq_of_lt hlt, Nat.zero_mod] at hzero
  exact absurd hzero (Nat.ne_of_gt hpos)

/-- After a whole turn of the ring it is the same slot again. -/
theorem InRange.index_turn (h : InRange n w) (hn : 0 < n) :
    w.index (w.current + n) = w.index w.current := by
  obtain ⟨c, hc⟩ := Int.eq_ofNat_of_zero_le h.current
  rw [hc, ← Int.natCast_add, WindowArray.index_eq h.size hn, WindowArray.index_eq h.size hn,
    Nat.add_mod_right]

/-- What is left to flush was there to be flushed before. -/
theorem Popped.flushes_succ (h : Popped w j w') (hindex : w.index w.current = .ok j)
    (hslot : w.slot j = some packet) (heof : packet.flag ≠ eofFlag)
    (hbelow : w.current < w.highest) (hflushes : w'.Flushes k) : w.Flushes (k + 1) := by
  intro i hi
  cases i with
  | zero =>
      rw [Int.natCast_zero, Int.add_zero]
      exact ⟨⟨j, packet, hindex, hslot, heof⟩, fun _ => hbelow⟩
  | succ i =>
      obtain ⟨⟨j', packet', hindex', hslot', heof'⟩, hbelow'⟩ :=
        hflushes i (Nat.le_of_succ_le_succ hi)
      have hnext : w'.current + (i : Int) = w.current + (i + 1 : Nat) := by
        rw [h.current]
        omega
      rw [hnext] at hindex' hbelow'
      rw [h.index] at hindex'
      refine ⟨⟨j', packet', hindex', (h.slot_of hslot').2, heof'⟩, fun hlt => ?_⟩
      rw [← h.highest]
      exact hbelow' (Nat.lt_of_succ_lt_succ hlt)

/-- The slot just emptied is not come to again. -/
theorem Popped.lt_of_flushes (h : Popped w j w') (hrange : InRange n w)
    (hindex : w.index w.current = .ok j) (hflushes : w'.Flushes k) (hk : k < n) : k + 1 < n := by
  apply Nat.lt_of_le_of_ne hk
  rintro rfl
  obtain ⟨⟨j', packet', hindex', hslot', -⟩, -⟩ := hflushes k (Nat.le_refl k)
  have hturn : w'.current + (k : Int) = w.current + (k + 1 : Nat) := by
    rw [h.current]
    omega
  rw [hturn, h.index, hrange.index_turn (Nat.succ_pos k), hindex] at hindex'
  cases hindex'
  cases h.gone.symm.trans hslot'

/-- What was there to be flushed is left, but for the first. -/
theorem Popped.flushes_of (h : Popped w j w') (hrange : InRange n w)
    (hindex : w.index w.current = .ok j) (hk : k + 1 < n) (hflushes : w.Flushes (k + 1)) :
    w'.Flushes k := by
  intro i hi
  obtain ⟨⟨j', packet', hindex', hslot', heof'⟩, hbelow'⟩ :=
    hflushes (i + 1) (Nat.succ_le_succ hi)
  have hnext : w'.current + (i : Int) = w.current + (i + 1 : Nat) := by
    rw [h.current]
    omega
  have hne : j' ≠ j := by
    rintro rfl
    exact hrange.index_ne hindex (Nat.succ_pos i) (by omega) hindex'
  rw [hnext, h.index]
  refine ⟨⟨j', packet', hindex', (h.kept j' hne).trans hslot', heof'⟩, fun hlt => ?_⟩
  rw [h.highest]
  exact hbelow' (Nat.succ_lt_succ hlt)

end

/-! ### The whole flush -/

theorem silent_flush (hpoint : r.point = .flush) (write : Write) (junk : Byte) :
    r.silent o (write, junk) = some (r.flush o write junk >>= r.counted) := by
  simp only [silent, hpoint]

/-- Without an RR there is nothing to count. -/
theorem counted_same {ds : List Datagram} (h : r'.sequenceNumber = r.sequenceNumber) :
    r.counted (r', ds) = .ok (r', ds) := by
  rw [counted, h, if_pos (Int.le_refl _)]

theorem counted_succ {ds : List Datagram} (h : r'.sequenceNumber = r.sequenceNumber + 1)
    (hcount : toInt32 r.sequenceNumber + 1 < 2147483648) : r.counted (r', ds) = .ok (r', ds) := by
  rw [counted, h, toInt32_add_one hcount, if_pos (by omega)]

theorem counted_overflow {ds : List Datagram} (h : r'.sequenceNumber = r.sequenceNumber + 1)
    (hcount : ¬ toInt32 r.sequenceNumber + 1 < 2147483648) :
    r.counted (r', ds) = .error .signedOverflow := by
  have hlt := toInt32_add_one_lt hcount
  rw [counted, h, if_neg (by omega)]

theorem Intact.silent (h : r.Intact n) (hpoint : r.point = .flush) {host : Write × Byte}
    {ds : List Datagram} (hstep : r.silent o host = some (.ok (r', ds))) : r'.Intact n := by
  simp only [Rcopy.silent, hpoint, Option.some.injEq] at hstep
  obtain ⟨⟨t, ds'⟩, hflush, hcounted⟩ := C.bind_eq_ok.mp hstep
  unfold counted at hcounted
  split at hcounted
  · cases hcounted
    exact h.step (i := .flush host.1 host.2) ((step_flush hpoint _ _).trans (congrArg some hflush))
  · cases hcounted

/-- The receiver ends without having written anything. -/
theorem driesUp_nil {why : RcopyExit} (hdone : r'.point = .done why)
    (hfile : r'.outputFile = r.outputFile) : r.DriesUp r' [] :=
  ⟨⟨why, hdone⟩, hfile.trans (List.append_nil _).symm, fun _ => rfl, Nat.zero_le _,
    fun k payload hget => (by cases hget)⟩

/-- It has come to its end. -/
theorem stopsIn_done {r₁ : Rcopy} {written : List Bytes} (hdries : r.DriesUp r₁ written)
    (N : Nat) :
    StopsIn (Rcopy.silent o) N (fun r' _ => ∃ written, r.DriesUp r' written) r₁ := by
  obtain ⟨why, hdone⟩ := hdries.done
  refine StopsIn.mono (.now (fun host => ?_) ⟨written, hdries⟩) (Nat.zero_le N) fun _ _ hQ => hQ
  simp only [silent, step, hdone]

/-- Without a flush, the first poll is the last. -/
theorem stopsIn_poll {t : Rcopy} (hpoint : t.point = .inOrder ∨ t.point = .buffering)
    {written : List Bytes} (hdries : r.DriesUp { t with point := .done .timeout } written)
    (N : Nat) :
    StopsIn (Rcopy.silent o) (N + 1) (fun r' _ => ∃ written, r.DriesUp r' written) t := by
  refine .next fun ⟨write, junk⟩ => ⟨_, [], ?_, stopsIn_done hdries N⟩
  rcases hpoint with hpoint | hpoint
  · simp only [silent, hpoint]
    exact step_timeout (.inl hpoint) write junk
  · simp only [silent, hpoint]
    exact step_timeout (.inr hpoint) write junk

/-- A PDU first. -/
theorem DriesUp.cons {j : Nat} {packet : Packet} {written : List Bytes} {r₁ : Rcopy}
    (h : r₁.DriesUp r' written) (hpoint : r.point = .flush)
    (hindex : r.window.index r.window.current = .ok j) (hslot : r.window.slot j = some packet)
    (hpopped : Popped r.window j r₁.window)
    (hfile : r₁.outputFile = r.outputFile ++ [packet.payload]) :
    r.DriesUp r' (packet.payload :: written) := by
  refine ⟨h.done, ?_, fun hne => absurd hpoint hne, ?_, fun k payload hget => ?_⟩
  · rw [h.file, hfile, List.append_assoc]
    rfl
  · exact Nat.lt_of_le_of_lt h.few (hpopped.card_lt hslot)
  · cases k with
    | zero =>
        cases hget
        exact ⟨j, packet, packet.payload.length, by rw [Int.natCast_zero, Int.add_zero, hindex],
          hslot, List.take_length.symm⟩
    | succ k =>
        obtain ⟨j', packet', len, hindex', hslot', hpayload⟩ := h.get k payload hget
        refine ⟨j', packet', len, ?_, (hpopped.slot_of hslot').2, hpayload⟩
        rw [← hindex', hpopped.index, hpopped.current, Int.natCast_succ, Int.add_assoc,
          Int.add_comm 1]

/-- A PDU that is written as a whole, and its RR. -/
theorem Intact.flush_flushed (h : r.Intact n) {j : Nat} {packet : Packet}
    (hindex : r.window.index r.window.current = .ok j) (hslot : r.window.slot j = some packet)
    (heof : packet.flag ≠ eofFlag) (junk : Byte) {w : WindowArray}
    (hmoved : flushAdvance r.window = .ok w) :
    ∃ t ds, r.flush o .complete junk = .ok (t, ds) ∧ t.window = w ∧
      t.sequenceNumber = r.sequenceNumber + 1 ∧
      t.outputFile = r.outputFile ++ [packet.payload] ∧
      t.point = if w.highest < w.current then .inOrder else .flush := by
  rw [h.flush_complete junk hindex hslot heof, hmoved, C.ok_bind, sendRR, sendNumber_eq, C.ok_bind]
  simp only
  split
  · exact ⟨_, _, rfl, rfl, rfl, rfl, rfl⟩
  · exact ⟨_, _, rfl, rfl, rfl, rfl, rfl⟩

section
variable {j : Nat} {packet : Packet} (h : r.Intact n) (hpoint : r.point = .flush)
  (hindex : r.window.index r.window.current = .ok j) (hslot : r.window.slot j = some packet)
  (heof : packet.flag ≠ eofFlag) (junk : Byte)
include h hpoint hindex hslot heof

/-- A write that falls short is the last. -/
theorem Intact.silent_short (len : Nat) : ∃ r' written,
    r.silent o (.short len, junk) = some (.ok (r', [])) ∧ r.DriesUp r' written := by
  refine ⟨r.writeFile packet.payload (.short len), [packet.payload.take len], ?_,
    ⟨⟨.writeFailed, rfl⟩, rfl, fun hne => absurd hpoint hne, ?_, fun k payload hget => ?_⟩⟩
  · rw [silent_flush hpoint, h.flush_short junk hindex hslot heof, C.ok_bind]
    exact congrArg some (counted_same rfl)
  · exact Finset.card_pos.mpr ⟨j, WindowArray.mem_occupied.mpr ⟨packet, hslot⟩⟩
  · cases k with
    | zero =>
        cases hget
        exact ⟨j, packet, len, by rw [Int.natCast_zero, Int.add_zero, hindex], hslot, rfl⟩
    | succ k => cases hget

/-- A PDU that is written as a whole. -/
theorem Intact.silent_flushed {w : WindowArray} (hmoved : flushAdvance r.window = .ok w)
    (hcount : toInt32 r.sequenceNumber + 1 < 2147483648) :
    ∃ t ds, r.silent o (.complete, junk) = some (.ok (t, ds)) ∧ t.window = w ∧
      toInt32 t.sequenceNumber = toInt32 r.sequenceNumber + 1 ∧
      t.outputFile = r.outputFile ++ [packet.payload] ∧
      t.point = if w.highest < w.current then .inOrder else .flush := by
  obtain ⟨t, ds, hflush, hwindow, hnumber, hfile, hpoint'⟩ :=
    h.flush_flushed (o := o) hindex hslot heof junk hmoved
  refine ⟨t, ds, ?_, hwindow, hnumber ▸ toInt32_add_one hcount, hfile, hpoint'⟩
  rw [silent_flush hpoint, hflush, C.ok_bind, counted_succ hnumber hcount]

/-- Unless the upper edge cannot move, or the counter not count. -/
theorem Intact.silent_overflow (hn : 0 < n) (hroom : ¬ (r.window.upper + 1 < 2147483648 ∧
      toInt32 r.sequenceNumber + 1 < 2147483648)) :
    r.silent o (.complete, junk) = some (.error .signedOverflow) := by
  rw [silent_flush hpoint]
  by_cases hupper : r.window.upper + 1 < 2147483648
  · obtain ⟨w, hmoved, -⟩ := h.range.popped hn hindex hupper
    obtain ⟨t, ds, hflush, -, hnumber, -⟩ :=
      h.flush_flushed (o := o) hindex hslot heof junk hmoved
    rw [hflush, C.ok_bind, counted_overflow hnumber fun hcount => hroom ⟨hupper, hcount⟩]
  · rw [h.flush_complete junk hindex hslot heof, h.range.flushAdvance_overflow hindex hupper,
      C.error_bind, C.error_bind]

end

/-- Where the flush goes on, there is room for the rest of it. -/
theorem RoomToFlush.popped (h : r.RoomToFlush) (hrange : InRange n r.window)
    (hpoint : r.point = .flush) {j : Nat} {packet : Packet}
    (hindex : r.window.index r.window.current = .ok j) (hslot : r.window.slot j = some packet)
    (heof : packet.flag ≠ eofFlag) {t : Rcopy} (hpopped : Popped r.window j t.window)
    (hnumber : toInt32 t.sequenceNumber = toInt32 r.sequenceNumber + 1)
    (hgoes : ¬ t.window.highest < t.window.current) : t.RoomToFlush := by
  intro _ k hk hflushes
  have hhighest := hpopped.highest
  have hcurrent := hpopped.current
  have hsize := hrange.size
  rw [hpopped.windowSize, hsize] at hk
  have hlt := hpopped.lt_of_flushes hrange hindex hflushes (Int.ofNat_lt.mp hk)
  have hbefore := hpopped.flushes_succ hindex hslot heof (by omega) hflushes
  have hroom := h hpoint (k + 1) (by omega) hbefore
  rw [hpopped.upper, hnumber]
  omega

/-- **The flush comes to its end**, whatever is in the ring: each iteration empties a slot of it. -/
theorem stopsIn_flush (hn : 0 < n) (m : Nat) : ∀ {r : Rcopy}, r.Intact n → r.point = .flush →
    r.window.occupied.card = m → r.RoomToFlush →
    StopsIn (Rcopy.silent o) (m + 2) (fun r' _ => ∃ written, r.DriesUp r' written) r := by
  induction m using Nat.strongRecOn with
  | ind m ih =>
      intro r h hpoint hcard hroom
      obtain ⟨j, hindex⟩ := h.index_current hn
      refine .next fun ⟨write, junk⟩ => ?_
      cases hslot : r.window.slot j with
      | none =>
          have hdries : r.DriesUp { r with point := .done .timeout } [] := driesUp_nil rfl rfl
          refine ⟨{ r with point := .buffering }, [], ?_, ?_⟩
          · rw [silent_flush hpoint, flush_empty write junk hindex hslot, C.ok_bind]
            exact congrArg some (counted_same rfl)
          · exact stopsIn_poll (t := { r with point := .buffering }) (.inr rfl) hdries m
      | some packet =>
          by_cases heof : packet.flag = eofFlag
          · obtain ⟨d, hflush⟩ := h.flush_eof (o := o) write junk hindex hslot heof
            have hdries : r.DriesUp { r with point := .done .eofAck } [] := driesUp_nil rfl rfl
            refine ⟨_, [d], ?_, stopsIn_done hdries (m + 1)⟩
            rw [silent_flush hpoint, hflush, C.ok_bind]
            exact congrArg some (counted_same rfl)
          · cases write with
            | short len =>
                obtain ⟨r', written, hstep, hdries⟩ :=
                  h.silent_short (o := o) hpoint hindex hslot heof junk len
                exact ⟨r', [], hstep, stopsIn_done hdries (m + 1)⟩
            | complete =>
                have hfirst : r.window.Flushes 0 := by
                  intro i hi
                  rw [Nat.le_zero.mp hi, Int.natCast_zero, Int.add_zero]
                  exact ⟨⟨j, packet, hindex, hslot, heof⟩, fun hc => absurd hc (Nat.lt_irrefl 0)⟩
                have hone := hroom hpoint 0 (by rw [h.range.size]; exact Int.ofNat_lt.mpr hn) hfirst
                rw [Int.natCast_zero, Int.add_zero, Int.add_zero] at hone
                obtain ⟨w, hmoved, hpopped⟩ := h.range.popped hn hindex hone.1
                obtain ⟨t, ds, hstep, rfl, hnumber, hfile, hpoint'⟩ :=
                  h.silent_flushed (o := o) hpoint hindex hslot heof junk hmoved hone.2
                have h' := h.silent hpoint hstep
                refine ⟨t, ds, hstep, ?_⟩
                by_cases hlast : t.window.highest < t.window.current
                · have hdries : t.DriesUp { t with point := .done .timeout } [] :=
                    driesUp_nil rfl rfl
                  rw [if_pos hlast] at hpoint'
                  exact stopsIn_poll (.inl hpoint')
                    (hdries.cons hpoint hindex hslot hpopped hfile) m
                · have hlt := hpopped.card_lt hslot
                  rw [if_neg hlast] at hpoint'
                  have hrest := ih _ (hcard ▸ hlt) h' hpoint' rfl
                    (hroom.popped h.range hpoint hindex hslot heof hpopped hnumber hlast)
                  refine hrest.mono (by omega) fun r' ds ⟨written, hdries⟩ => ?_
                  exact ⟨_, hdries.cons hpoint hindex hslot hpopped hfile⟩

/-- **A receiver with room for its flush comes to its end.** -/
theorem exists_stopsIn (h : r.Intact n) (hn : 0 < n) (hroom : r.RoomToFlush) :
    ∃ N, StopsIn (Rcopy.silent o) N (fun r' _ => ∃ written, r.DriesUp r' written) r := by
  have hdries : r.DriesUp { r with point := .done .timeout } [] := driesUp_nil rfl rfl
  cases hpoint : r.point with
  | inOrder => exact ⟨1, stopsIn_poll (.inl hpoint) hdries 0⟩
  | buffering => exact ⟨1, stopsIn_poll (.inr hpoint) hdries 0⟩
  | flush => exact ⟨_, stopsIn_flush hn _ h hpoint rfl hroom⟩
  | done why =>
      have hself : r.DriesUp r [] := driesUp_nil hpoint rfl
      exact ⟨0, stopsIn_done hself 0⟩

/-- Without it, a sum overflows as soon as every `write` succeeds. -/
theorem drive_overflow (k : Nat) : ∀ {r : Rcopy}, r.Intact n → r.point = .flush → k < n →
    r.window.Flushes k → ¬ (r.window.upper + k + 1 < 2147483648 ∧
      toInt32 r.sequenceNumber + k + 1 < 2147483648) →
    ∃ hosts, drive (Rcopy.silent o) hosts r = .error .signedOverflow := by
  induction k with
  | zero =>
      intro r h hpoint hn hflushes hroom
      obtain ⟨⟨j, packet, hindex, hslot, heof⟩, -⟩ := hflushes 0 (Nat.le_refl 0)
      rw [Int.natCast_zero, Int.add_zero] at hindex
      rw [Int.natCast_zero, Int.add_zero, Int.add_zero] at hroom
      refine ⟨[(.complete, 0)], ?_⟩
      rw [drive, h.silent_overflow hpoint hindex hslot heof 0 hn hroom]
  | succ k ih =>
      intro r h hpoint hk hflushes hroom
      obtain ⟨⟨j, packet, hindex, hslot, heof⟩, hbelow⟩ := hflushes 0 (Nat.zero_le _)
      have hbelow := hbelow (Nat.succ_pos k)
      rw [Int.natCast_zero, Int.add_zero] at hindex hbelow
      have hn := Nat.zero_lt_of_lt hk
      by_cases hone : r.window.upper + 1 < 2147483648 ∧ toInt32 r.sequenceNumber + 1 < 2147483648
      · obtain ⟨w, hmoved, hpopped⟩ := h.range.popped hn hindex hone.1
        obtain ⟨t, ds, hstep, rfl, hnumber, -, hpoint'⟩ :=
          h.silent_flushed (o := o) hpoint hindex hslot heof 0 hmoved hone.2
        have hhighest := hpopped.highest
        have hcurrent := hpopped.current
        have hupper := hpopped.upper
        rw [if_neg (by omega)] at hpoint'
        have h' := h.silent hpoint hstep
        obtain ⟨hosts, hrun⟩ := ih h' hpoint' (Nat.lt_of_succ_lt hk)
          (hpopped.flushes_of h.range hindex hk hflushes) (by omega)
        refine ⟨(.complete, 0) :: hosts, ?_⟩
        rw [drive_cons hstep, hrun]
      · refine ⟨[(.complete, 0)], ?_⟩
        rw [drive, h.silent_overflow hpoint hindex hslot heof 0 hn hone]

/-- **Which receivers come to an end when nothing is received any more.** -/
theorem stopsIn_iff (h : r.Intact n) (hn : 0 < n) :
    (∃ N, StopsIn (Rcopy.silent o) N (fun r' _ => ∃ written, r.DriesUp r' written) r) ↔
      r.RoomToFlush := by
  refine ⟨fun ⟨N, hstops⟩ hpoint k hk hflushes => ?_, exists_stopsIn h hn⟩
  by_contra hroom
  rw [h.range.size] at hk
  obtain ⟨hosts, hrun⟩ := drive_overflow (o := o) k h hpoint (Int.ofNat_lt.mp hk) hflushes hroom
  exact not_stopsIn hrun hstops

end Rcopy

/-! ## Both programs -/

/-- **When both programs stop by themselves.** From here on nothing is received. The child comes to
its end, after the blocks there is room for, one EOF and ten resends at most, if and only if what it
may still read fits, and its buffers for a resend. rcopy without an answer has asked ten times at
most when it gives up. The receiver comes to its end, with nothing written but what was stored from
`current` on, if and only if the upper edge of its window can move as far as the flush moves it, and
its counter count as far. -/
theorem stops_iff (o o' : ByteOrder) {n : Nat} (hn : 1 ≤ n) (hmax : n < 2147483648)
    {files : Files} {client : Addr} {stale datagram : Bytes} {opened : Server.Opened}
    {ds : List Datagram} {s₀ : Server}
    (hopened : Server.filename o files client
      (recvfrom Server.requestBufferLength stale datagram).1
      (recvfrom Server.requestBufferLength stale datagram).2 = .ok (some opened, ds))
    (hwindow : opened.windowSize = n)
    (hserver : Server.start opened.windowSize opened.bufSize opened.dataFile client = .ok s₀)
    {bufferSize : BufferSize} {fromFile : Bytes} {server clientSocket : Addr} {q₀ : RcopySetup}
    (hsetup : RcopySetup.start o' n bufferSize fromFile server clientSocket = .ok q₀)
    {seq : UInt32} {addr : Addr} {r₀ : Rcopy}
    (hrcopy : Rcopy.start n bufferSize seq addr = .ok r₀) :
    (∀ s, (Server.honestSystem o s₀).Reachable s →
      ((∃ N, StopsIn (Server.silent o) N (s.FadesOut o) s) ↔ s.NextFit)) ∧
    (∀ x, ((RcopySetup.system o' bufferSize server q₀).logged Prod.snd).Reachable x →
      x.1.state = .filename → StopsIn (RcopySetup.silent o' bufferSize server) 10
        (fun q xs => q.state = .done ∧ (q₀.request :: (x.2 ++ xs)).length ≤ 10 ∧
          ∀ y ∈ q₀.request :: (x.2 ++ xs), y.datagram = ⟨server, q₀.pduBuffer⟩) x.1) ∧
    ∀ r, (Rcopy.system o' r₀).Reachable r →
      ((∃ N, StopsIn (Rcopy.silent o') N (fun r' _ => ∃ written, r.DriesUp r' written) r) ↔
        r.RoomToFlush) := by
  have hfit := Server.reads_of_filename hopened
  rw [hwindow] at hserver
  refine ⟨fun s hs => ?_, fun x hx hstate => ?_, fun r hr => ?_⟩
  · exact Server.stopsIn_iff_of_reachable hn hmax hserver (fun block hb => (hfit block hb).2) hs
  · have hrepeats := RcopySetup.repeats_of_reachable hsetup hx
    obtain ⟨hcount, hlt⟩ := hrepeats.count hstate
    obtain ⟨k, hk⟩ : ∃ k, x.1.count + (k + 1) = 10 := ⟨9 - x.1.count, by omega⟩
    refine (RcopySetup.stopsIn_filename k hstate hrepeats.pduBuffer_eq hk).mono (by omega)
      fun q xs ⟨hdone, hlen, hdatagrams⟩ => ⟨hdone, ?_, fun y hy => ?_⟩
    · rw [List.length_cons, List.length_append]
      omega
    · rcases List.mem_cons.mp hy with rfl | hy
      · obtain ⟨pduBuffer, -, hq₀⟩ := C.bind_eq_ok.mp hsetup
        cases hq₀
        rfl
      · rcases List.mem_append.mp hy with hy | hy
        · exact hrepeats.datagrams y hy
        · exact hdatagrams y hy
  · exact Rcopy.stopsIn_iff (Rcopy.intact_of_reachable hrcopy hr) hn

theorem stops_smallServer :
    (∃ N, StopsIn (Server.silent .little) N (Server.smallServer.FadesOut .little)
      Server.smallServer) ∧
    (∃ q₀, StopsIn (RcopySetup.silent .big leastBufferSize 9) 10 (fun q _ => q.state = .done) q₀) ∧
    ∃ r₀ N, StopsIn (Rcopy.silent .big) N (fun r' _ => ∃ written, r₀.DriesUp r' written) r₀ := by
  have hopened : ∃ ds, Server.filename .little (Files.all [[1], [2]]) 7
      (recvfrom Server.requestBufferLength [] (requestOf 108)).1
      (recvfrom Server.requestBufferLength [] (requestOf 108)).2
        = .ok (some ⟨[[1], [2]], 108, 1⟩, ds) := ⟨_, rfl⟩
  have hsetup : ∃ q₀, RcopySetup.start .big (1 : Nat) leastBufferSize [97] 9 7 = .ok q₀ ∧
      q₀.state = .filename := by
    rw [RcopySetup.start, createRequest_eq (by decide)]
    exact ⟨_, rfl, rfl⟩
  have hrcopy : ∃ r₀, Rcopy.start (1 : Nat) leastBufferSize 0 7 = .ok r₀ ∧ r₀.point = .inOrder :=
    ⟨_, rfl, rfl⟩
  obtain ⟨ds, hopened⟩ := hopened
  obtain ⟨q₀, hsetup, hstate⟩ := hsetup
  obtain ⟨r₀, hrcopy, hpoint⟩ := hrcopy
  obtain ⟨hserver, hasks, hreceives⟩ := stops_iff .little .big (Nat.le_refl 1) (by decide) hopened
    rfl Server.start_smallServer hsetup hrcopy
  refine ⟨(hserver _ (.init rfl)).mpr ⟨fun _ => by decide, fun _ _ => ⟨by decide, by decide⟩⟩,
    ⟨q₀, ?_⟩, r₀, ?_⟩
  · exact (hasks (q₀, []) (.init ⟨rfl, rfl⟩) hstate).mono (Nat.le_refl 10) fun q xs h => h.1
  · refine (hreceives r₀ (.init rfl)).mpr fun hflush => ?_
    cases hpoint.symm.trans hflush

/-- A receiver with the largest window but one comes to flush a PDU for which the upper edge cannot
move. -/
theorem Rcopy.exists_flush_overflow : ∃ r₀ r,
    Rcopy.start (2147483646 : Nat) leastBufferSize 0 7 = .ok r₀ ∧
    (Rcopy.system .little r₀).Reachable r ∧ r.point = .flush ∧
    r.step .little (.flush .complete 0) = some (.error .signedOverflow) := by
  obtain ⟨r₀, hstart⟩ : ∃ r₀, Rcopy.start (2147483646 : Nat) leastBufferSize 0 7 = .ok r₀ := by
    rw [Rcopy.start, makeWindow, dif_pos (Int.natCast_nonneg _)]
    exact ⟨_, rfl⟩
  have hsize : r₀.bufferSize = leastBufferSize := (Rcopy.of_start hstart).2.2.1
  have hfresh := Rcopy.Refines.start (by decide) (by decide) hstart
  have hacc (k : UInt32) : Accepted .little (encodePDU .little k dataPacketFlag [5]) k
      dataPacketFlag [5] := accepted_encodePDU .little .little k dataPacketFlag (by decide)
  have hroom (r : Rcopy) (hsize : r.bufferSize = leastBufferSize) (k : UInt32) :
      (encodePDU .little k dataPacketFlag [5]).length ≤ pduHeaderLen + r.bufferSize := by
    rw [length_encodePDU, hsize]
    decide
  -- PDU 1 is kept, PDU 0 is written.
  obtain ⟨y, hstep₁, r₁, ds₁, rfl, hrefines₁, -, hsize₁, -⟩ := hfresh.accept (.inl rfl) rfl
    (hacc 1) (hroom r₀ hsize 1) (by decide) (by decide) (by decide) 7 [] 0
  obtain ⟨y, hstep₂, r₂, ds₂, rfl, hrefines₂, -, -, -⟩ := hrefines₁.accept (.inr rfl) rfl
    (hacc 0) (hroom r₁ (hsize₁.trans hsize) 0) (by decide) (by decide) (by decide) 7 [] 0
  have hoverflow := hrefines₂.flush_overflow (o := .little) rfl (by decide) 0
  have hr₁ : (Rcopy.system .little r₀).Reachable r₁ :=
    .step (i := (_, ds₁)) (.init rfl) hstep₁
  exact ⟨r₀, r₂, hstart, .step (i := (_, ds₂)) hr₁ hstep₂, hrefines₂.point, hoverflow⟩

/-- A request for pieces of 2000 bytes, of a file of 1401, starts a child that writes past the end
of the array in its window when left alone; and a receiver with the largest window but one is stuck
in its flush. -/
theorem not_stops : (∃ blocks ds s₀, Server.filename .little (Files.all blocks) 7
      (recvfrom Server.requestBufferLength [] (requestOf 2000)).1
      (recvfrom Server.requestBufferLength [] (requestOf 2000)).2
        = .ok (some ⟨blocks, 2000, 1⟩, ds) ∧
      Server.start 1 2000 blocks 7 = .ok s₀ ∧
      ∀ N, ¬ StopsIn (Server.silent .little) N (fun s _ => ∃ why, s.point = .done why) s₀) ∧
    ∃ r₀ r, Rcopy.start 2147483646 leastBufferSize 0 7 = .ok r₀ ∧
      (Rcopy.system .little r₀).Reachable r ∧ r.point = .flush ∧
      ∀ N, ¬ StopsIn (Rcopy.silent .little) N (fun r' _ => ∃ why, r'.point = .done why) r := by
  constructor
  · obtain ⟨ds, hopened⟩ := Server.filename_requestOf
    obtain ⟨s₀, hstart⟩ : ∃ s₀, Server.start (1 : Nat) 2000 [List.replicate 1401 1] 7 = .ok s₀ :=
      ⟨_, rfl⟩
    obtain ⟨-, hpoint, hfile, hsize, -⟩ := Server.of_start hstart
    have hholds := Server.Holds.start (o := .little) (by decide) (by decide) hstart
    obtain ⟨hosts, e, hrun⟩ := Server.drive_windowOpen 1 hholds (hsize ▸ by decide) hpoint
      (by rw [hholds.shows.upper, hholds.current]; rfl)
      (.inr ⟨List.replicate 1401 1, by rw [hfile]; exact List.mem_singleton_self _,
        by rw [List.length_replicate]; decide⟩)
    exact ⟨_, ds, s₀, hopened, hstart, fun N => not_stopsIn hrun⟩
  · obtain ⟨r₀, r, hstart, hr, hpoint, hoverflow⟩ := Rcopy.exists_flush_overflow
    refine ⟨r₀, r, hstart, hr, hpoint, fun N => ?_⟩
    rw [Rcopy.step_flush hpoint, Option.some.injEq] at hoverflow
    have hfails : drive (Rcopy.silent .little) [(.complete, 0)] r = .error .signedOverflow := by
      rw [drive, Rcopy.silent_flush hpoint, hoverflow]
      rfl
    exact not_stopsIn hfails

end RemoteCopy

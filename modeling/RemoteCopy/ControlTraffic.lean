import RemoteCopy.ArrivalOrder
import RemoteCopy.Gaps
import RemoteCopy.RcopySteps

/-!
# The receiver's control traffic

What rcopy sends back over a whole run in which the peer stays below the upper edge of the window.
The datagrams are read as the child reads them. Every step of such a run is one of the abstract
receiver's (`Rcopy.Refines.next`), or ends the run without a word, so that what `Receiver.Asked`
says of the replies holds of the datagrams.
-/

namespace RemoteCopy

/-! ## The datagrams -/

/-- The number of an RR, as the child reads it. -/
def Control.rrNumber : Control → Option Int
  | .rr n => some n
  | _ => none

/-- The number of an SREJ, as the child reads it. -/
def Control.srejNumber : Control → Option Int
  | .srej n => some n
  | _ => none

/-- The numbers of the RRs among the datagrams. -/
def rrNumbers (o : ByteOrder) (ds : List Datagram) : List Int :=
  ds.filterMap fun d => (receiveControl o [] d.bytes).rrNumber

/-- The numbers of the SREJs among the datagrams. -/
def srejNumbers (o : ByteOrder) (ds : List Datagram) : List Int :=
  ds.filterMap fun d => (receiveControl o [] d.bytes).srejNumber

/-- The datagrams are the replies, in order, to whatever addresses they go. -/
def Encoded : List Reply → List Datagram → Prop :=
  List.Forall₂ fun c d => c.Encodes d.bytes ∧ c.Fits

section
variable {o : ByteOrder} {cs : List Reply} {ds : List Datagram}

theorem Sends.encoded {dest : Addr} (h : Sends dest cs ds) (hfits : ∀ c ∈ cs, c.Fits) :
    Encoded cs ds := by
  induction h with
  | nil => exact .nil
  | cons hc _ ih =>
      exact .cons ⟨hc.2, hfits _ List.mem_cons_self⟩
        (ih fun c hc => hfits c (List.mem_cons_of_mem _ hc))

/-- The child can tell what each of them is. -/
theorem Encoded.control_eq (h : Encoded cs ds) (o : ByteOrder) :
    ∀ d ∈ ds, ∃ c : Reply, receiveControl o [] d.bytes = c.control := by
  induction h with
  | nil =>
      intro d hd
      cases hd
  | @cons c d cs ds hc _ ih =>
      intro d' hd'
      rcases List.mem_cons.mp hd' with rfl | hd'
      · exact ⟨c, Reply.receiveControl_eq hc.1 hc.2 o []⟩
      · exact ih d' hd'

theorem Encoded.rrNumbers_eq (h : Encoded cs ds) (o : ByteOrder) :
    rrNumbers o ds = (Receiver.rrs cs).map Int.ofNat := by
  induction h with
  | nil => rfl
  | @cons c d cs ds hc _ ih =>
      have hcontrol := Reply.receiveControl_eq hc.1 hc.2 o []
      rw [rrNumbers] at ih ⊢
      rw [List.filterMap_cons, hcontrol, ih]
      cases c <;> rfl

theorem Encoded.srejNumbers_eq (h : Encoded cs ds) (o : ByteOrder) :
    srejNumbers o ds = (Receiver.srejed cs).map Int.ofNat := by
  induction h with
  | nil => rfl
  | @cons c d cs ds hc _ ih =>
      have hcontrol := Reply.receiveControl_eq hc.1 hc.2 o []
      rw [srejNumbers] at ih ⊢
      rw [List.filterMap_cons, hcontrol, ih]
      cases c <;> rfl

end

/-! ## The receiver behind the window -/

namespace Rcopy

variable {o : ByteOrder} {r r' : Rcopy} {n : Nat} {a : Receiver} {i : RcopyInput}
  {ds log : List Datagram}

/-- The window holds the PDU with this sequence number. -/
def Stores (r : Rcopy) (number : Int) : Prop :=
  ∃ j packet, r.window.index number = .ok j ∧ r.window.slot j = some packet ∧
    packet.sequenceNumber = number

theorem Refines.stores_iff (h : r.Refines n a) {k : Nat} : r.Stores k ↔ a.stored k ≠ none := by
  constructor
  · rintro ⟨j, packet, -, hslot, hnumber⟩
    obtain ⟨s, -, -, -, hstored⟩ := h.shows.slot_some hslot
    have hs : (k : Int) = s := hnumber.symm.trans (h.packet s packet hstored).1
    rw [Int.ofNat_inj.mp hs, hstored]
    exact Option.some_ne_none packet
  · intro hne
    obtain ⟨packet, hstored⟩ := Option.ne_none_iff_exists'.mp hne
    obtain ⟨hlow, hhigh⟩ := h.shows.mem_window hstored
    refine ⟨k % n, packet, WindowArray.index_eq h.shows.size h.shows.pos, ?_,
      (h.packet k packet hstored).1⟩
    rw [h.shows.slot_eq hlow hhigh, hstored]

/-- What the peer may send: nothing beyond the window of `n` slots, and no data without payload. -/
def Admits (o : ByteOrder) (n : Nat) (r : Rcopy) (i : RcopyInput) : Prop :=
  ∀ pdu, i.pdu o (pduHeaderLen + r.bufferSize) = some pdu →
    (pdu.recvFlag = eofFlag ∨ pdu.payload ≠ []) ∧
      (pdu.sequenceNumber.toNat : Int) < r.window.current + n

instance (o : ByteOrder) (n : Nat) (r : Rcopy) (i : RcopyInput) : Decidable (Admits o n r i) :=
  inferInstanceAs (Decidable (∀ pdu ∈ i.pdu o (pduHeaderLen + r.bufferSize), _ ∧ _))

/-! ### The steps of an admitted run -/

/-- A poll sees of a datagram what its buffer has room for. -/
theorem step_take (r : Rcopy) (src : Addr) (stale datagram : Bytes) (write : Write)
    (junk : Byte) :
    r.step o (.poll (.received src stale (datagram.take (pduHeaderLen + r.bufferSize))) write junk)
      = r.step o (.poll (.received src stale datagram) write junk) := by
  cases hpoint : r.point with
  | inOrder =>
      rw [step_inOrder hpoint, step_inOrder hpoint]
      simp only [inOrder, recvfrom_take]
  | buffering =>
      rw [step_buffering hpoint, step_buffering hpoint]
      simp only [buffering, recvfrom_take]
  | flush => simp only [step, hpoint]
  | done why => simp only [step, hpoint]

/-- What a poll accepts is an accepted datagram, as far as there is room for it. -/
theorem accepted_of_pdu {size : Nat} {src : Addr} {stale datagram : Bytes} {write : Write}
    {junk : Byte} {pdu : ReceivedPdu}
    (h : (RcopyInput.poll (.received src stale datagram) write junk).pdu o size = some pdu) :
    Accepted o (datagram.take size) pdu.sequenceNumber pdu.recvFlag pdu.payload := by
  have hlen : (datagram.take size).length ≤ size := List.length_take_le size datagram
  simp only [RcopyInput.pdu] at h
  rw [← recvfrom_take] at h
  have h' := h
  rw [recvfrom_of_le stale hlen, processPDU_append] at h'
  obtain ⟨own, hown, -⟩ := Option.map_eq_some_iff.mp h'
  have hacc := exists_accepted hown
  have hreceived := Option.some.inj ((hacc.received size hlen stale).symm.trans h)
  have hpayload : pdu.payload = own.payload := by
    rw [← hreceived]
    exact List.take_left
  rw [hpayload, ← hreceived]
  exact hacc

/-- What a step makes of the receiver: it accepts the PDU of the input, if there is one, or
flushes. -/
inductive NextBy (o : ByteOrder) (r : Rcopy) (a : Receiver) (i : RcopyInput) :
    Receiver × List Reply → Prop
  | idle (hpdu : i.pdu o (pduHeaderLen + r.bufferSize) = none) : NextBy o r a i (a, [])
  | accept {pdu : ReceivedPdu} (hpdu : i.pdu o (pduHeaderLen + r.bufferSize) = some pdu)
      (hpoint : a.point = .inOrder ∨ a.point = .buffering) (packet : Packet)
      (hflag : packet.flag = pdu.recvFlag) (hpayload : packet.payload = pdu.payload) :
      NextBy o r a i (a.accept pdu.sequenceNumber.toNat packet)
  | flush (hpdu : i.pdu o (pduHeaderLen + r.bufferSize) = none) (hpoint : a.point = .flush) :
      NextBy o r a i a.flush

/-- **A step of an admitted run is one of the receiver's own**, or ends it without a word. -/
theorem Refines.nextBy (h : r.Refines n a) (horderly : a.Orderly) (hadmits : Admits o n r i)
    (hstep : r.step o i = some (.ok (r', ds))) :
    (ds = [] ∧ ∃ why, r'.point = .done why) ∨
      ∃ x, NextBy o r a i x ∧ r'.Refines n x.1 ∧ Sends r'.serverAddress x.2 ds ∧
        r'.bufferSize = r.bufferSize := by
  cases i with
  | flush write junk =>
      by_cases hpoint : r.point = .flush
      · rcases step_completed hstep with hstep | ⟨hds, hwhy⟩
        · have hflush : a.point = .flush := h.point.symm.trans hpoint
          by_cases hrange : a.flush.1.current + n < 2147483648
          · obtain ⟨y, hy, r₁, ds₁, rfl, hrefines, hsends, hsize, haddr⟩ :=
              h.flush (o := o) hflush hrange junk
            cases hstep.symm.trans hy
            exact .inr ⟨_, .flush rfl hflush, hrefines, haddr ▸ hsends, hsize⟩
          · cases hstep.symm.trans (h.flush_overflow hflush hrange junk)
        · exact .inl ⟨hds, _, hwhy⟩
      · rw [step_flush_none hpoint] at hstep
        cases hstep
  | poll p write junk =>
      have hpoint := point_of_step_poll hstep
      rcases step_completed hstep with hstep | ⟨hds, hwhy⟩
      · cases p with
        | timeout =>
            cases (step_timeout hpoint .complete junk).symm.trans hstep
            exact .inl ⟨rfl, _, rfl⟩
        | received src stale datagram =>
            cases hpdu : (RcopyInput.poll (.received src stale datagram) write junk).pdu o
                (pduHeaderLen + r.bufferSize) with
            | none =>
                cases (step_rejected hpoint hpdu .complete junk).symm.trans hstep
                exact .inr ⟨_, .idle hpdu, ⟨h.point, h.shows, h.current, h.highest, h.highest_lt,
                  h.file, h.packet⟩, .nil, rfl⟩
            | some pdu =>
                obtain ⟨-, hwin⟩ := hadmits pdu hpdu
                have hacc := accepted_of_pdu hpdu
                have hsize := List.length_take_le (pduHeaderLen + r.bufferSize) datagram
                have hfits : (datagram.take (pduHeaderLen + r.bufferSize)).length ≤ maxPduLen := by
                  have := r.bufferSize.2.2
                  simp only [pduHeaderLen, maxPduLen] at hsize ⊢
                  omega
                obtain ⟨-, hflag, hpayload⟩ := hacc.layout
                have hpoint' : a.point = .inOrder ∨ a.point = .buffering := by
                  rw [← h.point]
                  exact hpoint
                have hnone := horderly.current hpoint'
                have hcurrent := h.current
                rw [RcopyInput.completed, ← step_take] at hstep
                by_cases hrange : (a.accept pdu.sequenceNumber.toNat
                    (.of pdu.sequenceNumber.toNat _ hfits)).1.current + n < 2147483648
                · obtain ⟨y, hy, r₁, ds₁, rfl, hrefines, hsends, hsame, haddr⟩ :=
                    h.accept hpoint' hnone hacc hsize hfits (by omega) hrange src stale junk
                  cases hstep.symm.trans hy
                  exact .inr ⟨_, .accept hpdu hpoint' (.of _ _ hfits) hflag hpayload, hrefines,
                    haddr ▸ hsends, hsame⟩
                · cases hstep.symm.trans
                    (h.accept_overflow hpoint' hacc hsize hfits hrange src stale junk)
      · exact .inl ⟨hds, _, hwhy⟩

/-- If it has accepted a PDU, the receiver that polls in order next is past number 0. -/
theorem Refines.next (h : r.Refines n a) (horderly : a.Orderly) (hadmits : Admits o n r i)
    (hstep : r.step o i = some (.ok (r', ds))) :
    (ds = [] ∧ ∃ why, r'.point = .done why) ∨
      ∃ x, a.Next x ∧ r'.Refines n x.1 ∧ Sends r'.serverAddress x.2 ds ∧
        r'.bufferSize = r.bufferSize ∧ (i.pdu o (pduHeaderLen + r.bufferSize) ≠ none →
          x.1.point = .inOrder → 0 < x.1.current) := by
  rcases h.nextBy horderly hadmits hstep with hdone | ⟨x, hnext, hrefines, hsends, hsize⟩
  · exact .inl hdone
  · refine .inr ⟨x, ?_, hrefines, hsends, hsize, ?_⟩
    · cases hnext with
      | idle _ => exact .idle
      | accept hpdu hpoint packet hflag hpayload =>
          refine .accept hpoint _ _ ?_
          exact (hadmits _ hpdu).1.imp hflag.trans fun hne => hpayload.trans_ne hne
      | flush _ hpoint => exact .flush hpoint
    · intro hne
      cases hnext with
      | idle hpdu => exact absurd hpdu hne
      | accept _ hpoint _ _ _ => exact Receiver.accept_current_pos hpoint
      | flush hpdu _ => exact absurd hpdu hne

/-! ### The run -/

/-- The admitted runs from `r₀`, with everything sent. -/
def traffic (o : ByteOrder) (n : Nat) (r₀ : Rcopy) :
    System (Rcopy × List Datagram) (RcopyInput × List Datagram) :=
  ((system o r₀).restrict fun r l => Admits o n r l.1).logged Prod.snd

/-- The replies `cs` are what `r` has sent, and what it still knows of them. -/
def Sent (n : Nat) (r : Rcopy) (cs : List Reply) : Prop :=
  (Receiver.rrs cs).Pairwise (· ≤ ·) ∧ (Receiver.srejed cs).Pairwise (· < ·) ∧
    ((∃ why, r.point = .done why) ∨ ∃ a, r.Refines n a ∧ a.Orderly ∧ a.Asked cs)

theorem Refines.fits (h : r.Refines n a) {a₀ : Receiver} {c : Reply}
    (hc : a₀.Truthful a c) : c.Fits := by
  have hrange := h.shows.range
  have hhighest := h.highest_lt
  cases c with
  | rr k =>
      have hk : k = a.current := hc
      show k < 2147483648
      omega
  | srej k => exact Nat.lt_trans hc.2.2.1 hhighest
  | eofAck => trivial

/-- Everything sent along an admitted run is the replies of a receiver. -/
theorem sent_of_reachable {w : Nat} {bufferSize : BufferSize} {seq : UInt32} {addr : Addr}
    {r₀ : Rcopy} (hw : 0 < w) (hmax : w < 2147483648)
    (hstart : start w bufferSize seq addr = .ok r₀) {x : Rcopy × List Datagram}
    (h : (traffic o w r₀).Reachable x) : ∃ cs, Encoded cs x.2 ∧ Sent w x.1 cs := by
  refine System.Reachable.invariant (P := fun x => ∃ cs, Encoded cs x.2 ∧ Sent w x.1 cs) ?_ ?_ h
  · rintro x ⟨rfl, hlog⟩
    rw [hlog]
    exact ⟨[], .nil, .nil, .nil, .inr ⟨.fresh, .start hw hmax hstart, .fresh, .fresh⟩⟩
  · rintro x l x' - ⟨cs, hencoded, hrrs, hsrejs, hrest⟩ ⟨⟨hadmits, hstep⟩, hlog⟩
    rw [hlog]
    rcases hrest with ⟨why, hdone⟩ | ⟨a, hrefines, horderly, hasked⟩
    · exact absurd hdone (step_done hstep why)
    · rcases hrefines.next horderly hadmits hstep with
        ⟨hds, hwhy⟩ | ⟨y, hnext, hrefines', hsends, -⟩
      · rw [hds, List.append_nil]
        exact ⟨cs, hencoded, hrrs, hsrejs, .inl hwhy⟩
      · have hasked' := hasked.next hnext
        have hfits : ∀ c ∈ y.2, c.Fits := fun c hc =>
          hrefines'.fits (horderly.next_truthful hnext c hc)
        exact ⟨cs ++ y.2, List.rel_append hencoded (hsends.encoded hfits), hasked'.rrs_sorted,
          hasked'.srejed_sorted, .inr ⟨y.1, hrefines', horderly.next hnext, hasked'⟩⟩

/-- **The receiver's control traffic.** Along every run in which the peer stays below the upper
edge of the window, the numbers of the RRs never decrease and those of the SREJs strictly increase;
whenever the receiver polls in `BUFFERING`, what is missing up to `highest` has been asked for; and
each RR counts the blocks in the file as it is sent, while an SREJ asks for a block that is neither
in the file nor in the window. -/
theorem controlTraffic {w : Nat} {bufferSize : BufferSize} {seq : UInt32} {addr : Addr}
    {r₀ : Rcopy} (hw : 0 < w) (hmax : w < 2147483648)
    (hstart : start w bufferSize seq addr = .ok r₀) (h : (traffic o w r₀).Reachable (r, log)) :
    (∀ d ∈ log, ∃ c : Reply, receiveControl o [] d.bytes = c.control) ∧
    (rrNumbers o log).Pairwise (· ≤ ·) ∧ (srejNumbers o log).Pairwise (· < ·) ∧
    (r.point = .buffering → ∀ number : Int, r.window.current ≤ number →
      number ≤ r.window.highest → r.Stores number ∨ number ∈ srejNumbers o log) ∧
    ∀ i r' ds, Admits o w r i → r.step o i = some (.ok (r', ds)) →
      (∀ number ∈ rrNumbers o ds, number = r'.outputFile.length) ∧
      ∀ number ∈ srejNumbers o ds, (r'.outputFile.length : Int) ≤ number ∧
        ¬ r.Stores number ∧ ¬ r'.Stores number := by
  obtain ⟨cs, hencoded, hrrs, hsrejs, hrest⟩ := sent_of_reachable hw hmax hstart h
  refine ⟨hencoded.control_eq o, ?_, ?_, ?_, ?_⟩
  · rw [hencoded.rrNumbers_eq, List.pairwise_map]
    exact hrrs.imp Int.ofNat_le.mpr
  · rw [hencoded.srejNumbers_eq, List.pairwise_map]
    exact hsrejs.imp Int.ofNat_lt.mpr
  · intro hpoint number hlow hhigh
    rcases hrest with ⟨why, hdone⟩ | ⟨a, hrefines, -, hasked⟩
    · cases hpoint.symm.trans hdone
    · rw [hrefines.current] at hlow
      rw [hrefines.highest] at hhigh
      obtain ⟨k, rfl⟩ := Int.eq_ofNat_of_zero_le (show 0 ≤ number by omega)
      rw [hrefines.stores_iff, hencoded.srejNumbers_eq]
      have hgaps := hasked.gaps (.inl (hrefines.point.symm.trans hpoint)) k (by omega) (by omega)
      exact hgaps.imp_right fun hk => List.mem_map.mpr ⟨k, hk, rfl⟩
  · intro i r' ds hadmits hstep
    rcases hrest with ⟨why, hdone⟩ | ⟨a, hrefines, horderly, -⟩
    · exact absurd hdone (step_done hstep why)
    · rcases hrefines.next horderly hadmits hstep with ⟨rfl, -⟩ | ⟨y, hnext, hrefines', hsends, -⟩
      · exact ⟨fun _ hk => (by cases hk), fun _ hk => (by cases hk)⟩
      · have htruthful := horderly.next_truthful hnext
        have hencoded' := hsends.encoded fun c hc => hrefines'.fits (htruthful c hc)
        have horderly' := horderly.next hnext
        rw [hencoded'.rrNumbers_eq, hencoded'.srejNumbers_eq]
        constructor
        · intro number hnumber
          obtain ⟨k, hk, rfl⟩ := List.mem_map.mp hnumber
          have hcurrent : k = y.1.current := htruthful _ (Receiver.mem_rrs.mp hk)
          rw [hrefines'.file, horderly'.file, hcurrent]
          rfl
        · intro number hnumber
          obtain ⟨k, hk, rfl⟩ := List.mem_map.mp hnumber
          obtain ⟨hcurrent, hlow, -, hnone, hnone'⟩ := htruthful _ (Receiver.mem_srejed.mp hk)
          have hlength : r'.outputFile.length = a.current := by
            rw [hrefines'.file, horderly'.file, hcurrent]
          refine ⟨?_, fun hstores => ?_, fun hstores => ?_⟩
          · rw [hlength]
            exact Int.ofNat_le.mpr hlow
          · exact hrefines.stores_iff.mp hstores hnone
          · exact hrefines'.stores_iff.mp hstores hnone'

/-- A step of an admitted run, computed. -/
def trafficNext (o : ByteOrder) (n : Nat) (x : Rcopy × List Datagram) (i : RcopyInput) :
    Option (Rcopy × List Datagram) :=
  if Admits o n x.1 i then
    match x.1.step o i with
    | some (.ok y) => some (y.1, x.2 ++ y.2)
    | _ => none
  else none

theorem step_of_trafficNext {r₀ : Rcopy} {x x' : Rcopy × List Datagram}
    (h : trafficNext o n x i = some x') : ∃ l, (traffic o n r₀).step x l x' := by
  unfold trafficNext at h
  split at h
  · next hadmits =>
      split at h
      · next y hstep =>
          cases h
          exact ⟨(i, y.2), ⟨hadmits, hstep⟩, rfl⟩
      · cases h
  · cases h

/-- The second of two blocks comes first, and the first is asked for. -/
theorem controlTraffic_arrival : ∃ x : Rcopy × List Datagram, x.1.point = .buffering ∧
    srejNumbers .little x.2 = [0] ∧ ∀ number : Int, x.1.window.current ≤ number →
      number ≤ x.1.window.highest → x.1.Stores number ∨ number ∈ srejNumbers .little x.2 := by
  have hinit : (traffic .little 2 smallRcopy).Reachable (smallRcopy, []) := .init ⟨rfl, rfl⟩
  obtain ⟨x, hx, hp⟩ := hinit.exists_of_run (trafficNext .little 2)
    (fun _ _ _ => step_of_trafficNext)
    [.poll (.received 7 [] (arrival 1).datagram) .complete 0]
    (fun x => decide (x.1.point = .buffering ∧ srejNumbers .little x.2 = [0]))
    (by decide +kernel)
  obtain ⟨hpoint, hnumbers⟩ := of_decide_eq_true hp
  exact ⟨x, hpoint, hnumbers,
    (controlTraffic (by decide) (by decide) start_smallRcopy hx).2.2.2.1 hpoint⟩

end Rcopy

end RemoteCopy

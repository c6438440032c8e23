import RemoteCopy.Server
import Mathlib.Data.List.Forall2

/-!
# What the receiver answers

Three kinds of datagrams go from rcopy to the server child. They are described here once, as
values (`Reply`), together with the way the child reads them back: for the datagrams of a peer that
follows the protocol, `receiveControl` is the inverse of the encoding, whatever was on the child's
stack and whatever the two hosts' byte orders are.
-/

namespace RemoteCopy

inductive Reply where
  | rr (n : Nat)
  | srej (n : Nat)
  | eofAck
  deriving DecidableEq, Repr

/-- The datagram `b` is the reply, as some host with some control sequence number sends it. -/
def Reply.Encodes : Reply → Bytes → Prop
  | .rr n,    b => ∃ o seq, b = encodePDU o seq rrFlag (ByteOrder.bytes32 .big (toUInt32 n))
  | .srej n,  b => ∃ o seq, b = encodePDU o seq srejFlag (ByteOrder.bytes32 .big (toUInt32 n))
  | .eofAck,  b => ∃ o seq junk, b = encodePDU o seq eofAckFlag [junk]

/-- What the child reads. -/
def Reply.control : Reply → Control
  | .rr n   => .rr n
  | .srej n => .srej n
  | .eofAck => .eofAck

theorem Reply.eq_rr_of_control {c : Reply} {rr : Int} (h : c.control = .rr rr) :
    ∃ k : Nat, c = .rr k ∧ rr = k := by
  cases c with
  | rr k =>
      cases h
      exact ⟨k, rfl, rfl⟩
  | srej k => cases h
  | eofAck => cases h

theorem Reply.eq_srej_of_control {c : Reply} {srej : Int} (h : c.control = .srej srej) :
    ∃ k : Nat, c = .srej k ∧ srej = k := by
  cases c with
  | rr k => cases h
  | srej k =>
      cases h
      exact ⟨k, rfl, rfl⟩
  | eofAck => cases h

theorem Reply.eq_eofAck_of_control {c : Reply} (h : c.control = .eofAck) : c = .eofAck := by
  cases c with
  | rr k => cases h
  | srej k => cases h
  | eofAck => rfl

/-- The numbers in `r` fit `int32_t`. -/
def Reply.Fits : Reply → Prop
  | .rr n   => n < 2147483648
  | .srej n => n < 2147483648
  | .eofAck => True

/-- What may be sent after what: no SREJ for a number that an earlier RR has acknowledged. -/
def Reply.Before : Reply → Reply → Prop
  | .rr k, .srej n => k ≤ n
  | _, _ => True

/-- The sequence number in the payload of RR and SREJ, read back. -/
theorem toInt32_word32_bytes32 (o : ByteOrder) {n : Nat} (hn : n < 2147483648) (tail : Bytes) :
    toInt32 (o.toNetwork (o.word32 (ByteOrder.bytes32 .big (toUInt32 n) ++ tail))) = n := by
  rw [ByteOrder.toNetwork_word32, ByteOrder.word32_bytes32,
    toInt32_toUInt32 (by omega) (by omega)]

/-- **The child reads back what the receiver sent.** -/
theorem Reply.receiveControl_eq {c : Reply} {b : Bytes} (h : c.Encodes b) (hc : c.Fits)
    (o : ByteOrder) (stale : Bytes) : receiveControl o stale b = c.control := by
  cases c with
  | rr n =>
      obtain ⟨o', seq, rfl⟩ := h
      have hacc := accepted_encodePDU o' o seq rrFlag
        (p := ByteOrder.bytes32 .big (toUInt32 n)) (by simp)
      simp only [receiveControl, hacc.received (pduHeaderLen + rcopyResponsesPacketLength)
        (by simp [rcopyResponsesPacketLength]) stale, if_true, Reply.control]
      rw [toInt32_word32_bytes32 o hc]
  | srej n =>
      obtain ⟨o', seq, rfl⟩ := h
      have hacc := accepted_encodePDU o' o seq srejFlag
        (p := ByteOrder.bytes32 .big (toUInt32 n)) (by simp)
      simp only [receiveControl, hacc.received (pduHeaderLen + rcopyResponsesPacketLength)
        (by simp [rcopyResponsesPacketLength]) stale, if_true, Reply.control]
      rw [if_neg (by decide), toInt32_word32_bytes32 o hc]
  | eofAck =>
      obtain ⟨o', seq, junk, rfl⟩ := h
      have hacc := accepted_encodePDU o' o seq eofAckFlag (p := [junk]) (by simp)
      simp only [receiveControl, hacc.received (pduHeaderLen + rcopyResponsesPacketLength)
        (by simp [rcopyResponsesPacketLength]) stale, Reply.control]
      rw [if_neg (by decide), if_neg (by decide), if_pos trivial]

/-- The replies, in order, are the datagrams, each sent to `dest`. -/
def Sends (dest : Addr) : List Reply → List Datagram → Prop :=
  List.Forall₂ fun c d => d.dest = dest ∧ c.Encodes d.bytes

section
variable {dest : Addr} {cs cs' : List Reply} {ds ds' : List Datagram}

theorem Sends.append (h : Sends dest cs ds) (h' : Sends dest cs' ds') :
    Sends dest (cs ++ cs') (ds ++ ds') :=
  List.rel_append h h'

theorem Sends.eraseIdx (h : Sends dest cs ds) (k : Nat) :
    Sends dest (cs.eraseIdx k) (ds.eraseIdx k) := by
  rw [List.eraseIdx_eq_take_drop_succ, List.eraseIdx_eq_take_drop_succ]
  exact Sends.append (List.forall₂_take k h) (List.forall₂_drop (k + 1) h)

theorem Sends.mem (h : Sends dest cs ds) {d : Datagram} (hd : d ∈ ds) :
    d.dest = dest ∧ ∃ c ∈ cs, c.Encodes d.bytes := by
  induction h with
  | nil => cases hd
  | cons hc _ ih =>
      rcases List.mem_cons.mp hd with rfl | hd
      · exact ⟨hc.1, _, List.mem_cons_self, hc.2⟩
      · obtain ⟨h1, c, h2, h3⟩ := ih hd
        exact ⟨h1, c, List.mem_cons_of_mem _ h2, h3⟩

end

end RemoteCopy

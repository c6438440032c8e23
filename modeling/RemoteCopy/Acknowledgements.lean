import RemoteCopy.ServerInvariant

/-!
# Acknowledgements commute

RRs arrive late, twice and out of order. That this is harmless is a fact about
`cleaning_up_with_RR` alone: on a window that satisfies the invariant of the sender
(`SendWindow`), two acknowledgements in either order do what the larger of them does, and a whole
sequence of them does what its largest one does (`foldlM_cleaningUpWithRR`).
-/

namespace RemoteCopy

/-! ## The invariant of the sender -/

/-- The window of a sender: it holds the PDU of every sequence number from `lower` up to
`current`, and nothing else except possibly the EOF at `current`. -/
structure SendWindow (w : WindowArray) : Prop where
  pos : 1 ≤ w.windowSize
  lower_nonneg : 0 ≤ w.lower
  upper_eq : w.upper = w.lower + w.windowSize
  upper_lt : w.upper < 2147483648
  stored : ∀ s : Int, w.lower ≤ s → s < w.current → ∃ i packet, w.index s = .ok i ∧
    w.slot i = some packet ∧ packet.sequenceNumber = s
  only : ∀ i packet, w.slot i = some packet → w.index packet.sequenceNumber = .ok i ∧
    w.lower ≤ packet.sequenceNumber ∧ (packet.sequenceNumber < w.current ∨
      (packet.sequenceNumber = w.current ∧ packet.flag = eofFlag))

/-- What `m` has to satisfy for a window that shows it to be a `SendWindow`. -/
structure SendMap (L : Nat) (current : Int) (m : Nat → Option Packet) : Prop where
  stored : ∀ s : Nat, L ≤ s → s < current → m s ≠ none
  only : ∀ s packet, m s = some packet → packet.sequenceNumber = s ∧ (s < current ∨
    (s = current ∧ packet.flag = eofFlag))

section
variable {w : WindowArray} {n L : Nat} {m : Nat → Option Packet}

/-- Two numbers a window size apart would need the same slot. -/
theorem SendWindow.lt_upper (h : SendWindow w) {i : Nat} {packet : Packet}
    (hslot : w.slot i = some packet) : packet.sequenceNumber < w.upper := by
  obtain ⟨hindex, hlow, hhigh⟩ := h.only i packet hslot
  have hpos := h.pos
  have hlower := h.lower_nonneg
  have hupper := h.upper_eq
  by_contra hge
  obtain ⟨i', packet', hindex', hslot', hnumber⟩ := h.stored
    (packet.sequenceNumber - w.windowSize) (by omega) (by omega)
  obtain ⟨t, ht⟩ := Int.eq_ofNat_of_zero_le (by omega : 0 ≤ packet.sequenceNumber - w.windowSize)
  obtain ⟨n, hn⟩ := Int.eq_ofNat_of_zero_le (by omega : 0 ≤ w.windowSize)
  have ht' : packet.sequenceNumber = ((t + n : Nat) : Int) := by omega
  rw [ht, WindowArray.index_eq hn (by omega)] at hindex'
  rw [ht', WindowArray.index_eq hn (by omega), Nat.add_mod_right] at hindex
  cases hindex'.symm.trans hindex
  cases hslot'.symm.trans hslot
  omega

/-- The window of a sender shows a map. -/
theorem SendWindow.exists_shows (h : SendWindow w) :
    ∃ n L m, w.Shows n L m ∧ SendMap L w.current m := by
  have hpos := h.pos
  have hupper := h.upper_eq
  obtain ⟨n, hn⟩ := Int.eq_ofNat_of_zero_le (by omega : 0 ≤ w.windowSize)
  obtain ⟨L, hL⟩ := Int.eq_ofNat_of_zero_le h.lower_nonneg
  have hnpos : 0 < n := by omega
  have hlen : w.array.length = n := by
    have := w.length_array
    omega
  refine ⟨n, L, fun s => if L ≤ s ∧ s < L + n then w.slot (s % n) else none, ?_, ?_, ?_⟩
  · refine ⟨hn, hL, by omega, by have := h.upper_lt; omega, by omega, ?_, ?_⟩
    · intro s hs hs'
      rw [hlen] at hs'
      simp only [if_pos (And.intro hs hs'), RingBuffer.get, hlen]
      rfl
    · intro s hs
      rw [hlen]
      by_contra hout
      exact hs (if_neg hout)
  · intro s hs hs'
    obtain ⟨i, packet, hindex, hslot, hnumber⟩ := h.stored s (by omega) hs'
    have hlt := h.lt_upper hslot
    rw [WindowArray.index_eq hn hnpos] at hindex
    cases hindex
    simp only [if_pos (show L ≤ s ∧ s < L + n by omega), hslot]
    exact Option.some_ne_none packet
  · intro s packet hs
    split at hs
    · next hrange =>
        obtain ⟨hindex, hlow, hhigh⟩ := h.only _ packet hs
        have hlt := h.lt_upper hs
        obtain ⟨t, ht⟩ := Int.eq_ofNat_of_zero_le (by omega : 0 ≤ packet.sequenceNumber)
        rw [ht, WindowArray.index_eq hn hnpos] at hindex
        have hts : t = s := by
          by_contra hne
          exact RingBuffer.mod_ne_of_window (by omega) (by omega) hrange.1 hrange.2 hne
            (Except.ok.inj hindex)
        subst hts
        rw [ht] at hhigh
        exact ⟨ht, hhigh⟩
    · cases hs

/-- A window that shows such a map is a sender's. -/
theorem WindowArray.Shows.sendWindow (h : w.Shows n L m) (hm : SendMap L w.current m) :
    SendWindow w where
  pos := by have := h.size; have := h.pos; omega
  lower_nonneg := by have := h.lower; omega
  upper_eq := by have := h.upper; have := h.lower; have := h.size; omega
  upper_lt := by have := h.upper; have := h.range; omega
  stored := by
    intro s hlow hhigh
    rw [h.lower] at hlow
    obtain ⟨k, rfl⟩ := Int.eq_ofNat_of_zero_le (by omega : 0 ≤ s)
    obtain ⟨packet, hpacket⟩ := Option.ne_none_iff_exists'.mp (hm.stored k (by omega) hhigh)
    obtain ⟨hlow', hhigh'⟩ := h.mem_window hpacket
    exact ⟨k % n, packet, WindowArray.index_eq h.size h.pos,
      (h.slot_eq hlow' hhigh').trans hpacket, (hm.only k packet hpacket).1⟩
  only := by
    intro i packet hslot
    obtain ⟨s, hlow, -, rfl, hpacket⟩ := h.slot_some hslot
    obtain ⟨hnumber, hhigh⟩ := hm.only s packet hpacket
    rw [hnumber, h.lower]
    exact ⟨WindowArray.index_eq h.size h.pos, by omega, hhigh⟩

end

/-- **The honest child keeps the invariant of the sender.** -/
theorem Server.Holds.sendWindow {o : ByteOrder} {s : Server} {n L K : Nat} {blocks : List Bytes}
    {m : Nat → Option Packet} (h : s.Holds o n blocks L K m) : SendWindow s.window := by
  refine h.shows.sendWindow ⟨?_, ?_⟩
  · intro k hlow hhigh
    rw [h.current] at hhigh
    obtain ⟨packet, -, -, hpacket, -⟩ := h.data k hlow (by omega)
    rw [hpacket]
    exact Option.some_ne_none packet
  · intro k packet hk
    rw [h.current]
    rcases h.carries hk with ⟨hlt, block, -, hcarries⟩ | ⟨rfl, -, junk, hcarries⟩
    · exact ⟨hcarries.sequenceNumber, .inl (by omega)⟩
    · exact ⟨hcarries.sequenceNumber, .inr ⟨rfl, hcarries.packetFlag⟩⟩

/-! ## One acknowledgement after the other -/

section
variable {w w' : WindowArray} {n L : Nat} {m : Nat → Option Packet}

/-- `highest` plays no part on the sender's side, and the lower edge only moves up. -/
theorem edges_of_cleaningUpWithRR {rr : Int} (h : cleaningUpWithRR w rr = .ok w') :
    w'.highest = w.highest ∧ w.lower ≤ w'.lower := by
  refine cleaningUpLoop_rel (R := fun w w' => w'.highest = w.highest ∧ w.lower ≤ w'.lower) ?_ ?_
    _ w w' h
  · intro w
    exact ⟨rfl, Int.le_refl _⟩
  · intro w w' i hrest
    have hlower : w.lower + 1 ≤ w'.lower := hrest.2
    exact ⟨hrest.1, by omega⟩

/-- What one call does to a window that shows a map, and when it overflows. -/
theorem cleaningUpWithRR_cases (h : w.Shows n L m) (rr : Int) :
    (max L rr.toNat + n < 2147483648 ∧ ∃ w', cleaningUpWithRR w rr = .ok w' ∧
      w'.Shows n (max L rr.toNat) (release m rr.toNat) ∧ w'.current = w.current ∧
      w'.highest = w.highest) ∨
    (¬ max L rr.toNat + n < 2147483648 ∧ cleaningUpWithRR w rr = .error .signedOverflow) := by
  have hlower := h.lower
  by_cases hrange : max L rr.toNat + n < 2147483648
  · obtain ⟨w', hclean, hshows, hcurrent⟩ := cleaningUpWithRR_eq h hrange
    exact .inl ⟨hrange, w', hclean, hshows, hcurrent, (edges_of_cleaningUpWithRR hclean).1⟩
  · exact .inr ⟨hrange, (cleaningUpLoop_eq rr _ L m w h (by omega)).2 hrange⟩

theorem release_release (m : Nat → Option Packet) (a b : Nat) :
    release (release m a) b = release m (max a b) := by
  funext k
  simp only [release]
  split
  · split
    · rw [if_pos (by omega)]
    · rw [if_neg (by omega)]
  · rw [if_neg (by omega)]

/-- **Two acknowledgements do what the larger one does**, up to the overflow that all of them run
into. -/
theorem cleaningUpWithRR_comp (h : w.Shows n L m) (a b : Int) :
    (cleaningUpWithRR w a >>= fun w => cleaningUpWithRR w b) = cleaningUpWithRR w (max a b) := by
  have hedge : max (max L a.toNat) b.toNat = max L (max a b).toNat := by omega
  have hnumber : max a.toNat b.toNat = (max a b).toNat := by omega
  rcases cleaningUpWithRR_cases h a with
    ⟨-, w₁, hclean₁, hshows₁, hcurrent₁, hhighest₁⟩ | ⟨ha, hclean₁⟩
  · rw [hclean₁, C.ok_bind]
    rcases cleaningUpWithRR_cases hshows₁ b with
      ⟨hrange, w₂, hclean₂, hshows₂, hcurrent₂, hhighest₂⟩ | ⟨hb, hclean₂⟩
    · rw [release_release, hedge, hnumber] at hshows₂
      rcases cleaningUpWithRR_cases h (max a b) with
        ⟨-, w₃, hclean₃, hshows₃, hcurrent₃, hhighest₃⟩ | ⟨hover, -⟩
      · rw [hclean₂, hclean₃]
        exact congrArg _ (hshows₃.ext hshows₂ (by rw [hcurrent₂, hcurrent₁, hcurrent₃])
          (by rw [hhighest₂, hhighest₁, hhighest₃]))
      · exact absurd hrange (by rw [hedge]; exact hover)
    · rcases cleaningUpWithRR_cases h (max a b) with ⟨hrange, -⟩ | ⟨-, hclean₃⟩
      · exact absurd hrange (by rw [← hedge]; exact hb)
      · rw [hclean₂, hclean₃]
  · rcases cleaningUpWithRR_cases h (max a b) with ⟨hrange, -⟩ | ⟨-, hclean₃⟩
    · omega
    · rw [hclean₁, hclean₃]
      rfl

/-- Acknowledging nothing new changes nothing. -/
theorem cleaningUpWithRR_of_le {w : WindowArray} {rr : Int} (h : rr ≤ w.lower) :
    cleaningUpWithRR w rr = .ok w := by
  have hfuel : (rr - w.lower).toNat = 0 := by omega
  rw [cleaningUpWithRR, hfuel]
  rfl

theorem max_foldr_max {x y : Int} (h : x ≤ y) (rrs : List Int) :
    max y (rrs.foldr max x) = rrs.foldr max y := by
  induction rrs with
  | nil => exact max_eq_left h
  | cons a rrs ih => rw [List.foldr_cons, List.foldr_cons, max_left_comm, ih]

/-- **A sequence of acknowledgements does what the largest of them does.** -/
theorem foldlM_cleaningUpWithRR (rrs : List Int) : ∀ {w : WindowArray} {L : Nat}
    {m : Nat → Option Packet}, w.Shows n L m →
    rrs.foldlM cleaningUpWithRR w = cleaningUpWithRR w (rrs.foldr max w.lower) := by
  induction rrs with
  | nil =>
      intro w L m h
      rw [List.foldlM_nil, List.foldr_nil, cleaningUpWithRR_of_le (Int.le_refl _)]
      rfl
  | cons a rrs ih =>
      intro w L m h
      rw [List.foldlM_cons, List.foldr_cons, ← cleaningUpWithRR_comp h]
      rcases cleaningUpWithRR_cases h a with ⟨-, w₁, hclean₁, hshows₁, -, -⟩ | ⟨-, hclean₁⟩
      · -- The lower edge has moved up to `a` at most, which is what has been acknowledged.
        have hcomp := cleaningUpWithRR_comp hshows₁ w₁.lower (rrs.foldr max w.lower)
        have hlower : max w₁.lower (rrs.foldr max w.lower) = rrs.foldr max w₁.lower := by
          apply max_foldr_max
          rw [hshows₁.lower, h.lower]
          omega
        rw [cleaningUpWithRR_of_le (Int.le_refl _), C.ok_bind] at hcomp
        rw [hclean₁, C.ok_bind, C.ok_bind, ih hshows₁, hcomp, hlower]
      · rw [hclean₁]
        rfl

/-- Exactly what lies below the new lower edge is gone. -/
theorem slot_iff_of_release (h : w.Shows n L m) (hm : SendMap L w.current m) {rr : Nat}
    (h' : w'.Shows n (max L rr) (release m rr)) (i : Nat) (packet : Packet) :
    w'.slot i = some packet ↔ w.slot i = some packet ∧ w'.lower ≤ packet.sequenceNumber := by
  rw [h'.lower]
  constructor
  · intro hslot
    obtain ⟨s, hlow, hhigh, rfl, hs⟩ := h'.slot_some hslot
    have hrr : rr ≤ s := by omega
    rw [release, if_pos hrr] at hs
    obtain ⟨hlow', hhigh'⟩ := h.mem_window hs
    rw [(hm.only s packet hs).1]
    exact ⟨(h.slot_eq hlow' hhigh').trans hs, by omega⟩
  · rintro ⟨hslot, hlow⟩
    obtain ⟨s, -, hhigh, rfl, hs⟩ := h.slot_some hslot
    rw [(hm.only s packet hs).1] at hlow
    rw [h'.slot_eq (by omega) (by omega), release, if_pos (by omega), hs]

theorem SendMap.release {current : Int} (hm : SendMap L current m) (rr : Nat) :
    SendMap (max L rr) current (release m rr) where
  stored := by
    intro s hlow hhigh
    rw [RemoteCopy.release, if_pos (by omega)]
    exact hm.stored s (by omega) hhigh
  only := by
    intro s packet hs
    rw [RemoteCopy.release] at hs
    split at hs
    · exact hm.only s packet hs
    · cases hs

end

/-! ## The result -/

/-- What an acknowledgement of `rr` has made of the window `w`. -/
structure Acknowledged (w : WindowArray) (rr : Int) (w' : WindowArray) : Prop where
  lower : w'.lower = max w.lower rr
  upper : w'.upper = w'.lower + w'.windowSize
  windowSize : w'.windowSize = w.windowSize
  current : w'.current = w.current
  highest : w'.highest = w.highest
  slots : ∀ i packet, w'.slot i = some packet ↔
    w.slot i = some packet ∧ w'.lower ≤ packet.sequenceNumber
  sendWindow : SendWindow w'

theorem acknowledged_of_cleaningUpWithRR {w w' : WindowArray} (h : SendWindow w) {rr : Int}
    (hclean : cleaningUpWithRR w rr = .ok w') : Acknowledged w rr w' := by
  obtain ⟨n, L, m, hshows, hm⟩ := h.exists_shows
  rcases cleaningUpWithRR_cases hshows rr with
    ⟨-, w₁, hclean₁, hshows₁, hcurrent₁, hhighest₁⟩ | ⟨-, hover⟩
  · cases hclean.symm.trans hclean₁
    have hlower := hshows.lower
    have hlower₁ := hshows₁.lower
    have hupper₁ := hshows₁.upper
    have hsize := hshows.size
    have hsize₁ := hshows₁.size
    refine ⟨by omega, by omega, by omega, hcurrent₁, hhighest₁,
      slot_iff_of_release hshows hm hshows₁, hshows₁.sendWindow ?_⟩
    rw [hcurrent₁]
    exact hm.release rr.toNat
  · cases hclean.symm.trans hover

theorem cleaningUpWithRR_returns_iff {w : WindowArray} (h : SendWindow w) (rr : Int) :
    (∃ w', cleaningUpWithRR w rr = .ok w') ↔ max w.lower rr + w.windowSize < 2147483648 := by
  obtain ⟨n, L, m, hshows, -⟩ := h.exists_shows
  have hlower := hshows.lower
  have hsize := hshows.size
  rcases cleaningUpWithRR_cases hshows rr with ⟨hrange, w₁, hclean₁, -⟩ | ⟨hover, hclean₁⟩
  · exact ⟨fun _ => by omega, fun _ => ⟨w₁, hclean₁⟩⟩
  · refine ⟨?_, fun hrange => by omega⟩
    rintro ⟨w', hw'⟩
    cases hw'.symm.trans hclean₁

/-- **Acknowledgements commute.** Two of them in either order give the window that the larger one
gives, and any sequence of them the window that its largest gives; the calls that do not return
run into the overflow of `upper`, in either order. -/
theorem cleaningUpWithRR_commute {w : WindowArray} (h : SendWindow w) {a b : Int}
    (ha : a ≤ w.current) (hb : b ≤ w.current) :
    (cleaningUpWithRR w a >>= fun w => cleaningUpWithRR w b) = cleaningUpWithRR w (max a b) ∧
    (cleaningUpWithRR w b >>= fun w => cleaningUpWithRR w a) = cleaningUpWithRR w (max a b) ∧
    ((∃ w', cleaningUpWithRR w (max a b) = .ok w') ↔
      max w.lower (max a b) + w.windowSize < 2147483648) ∧
    (∀ w', cleaningUpWithRR w (max a b) = .ok w' → Acknowledged w (max a b) w' ∧
      (w.lower ≤ w.current → w'.lower ≤ w'.current)) ∧
    ∀ rrs : List Int, rrs.foldlM cleaningUpWithRR w
      = cleaningUpWithRR w (rrs.foldr max w.lower) := by
  obtain ⟨n, L, m, hshows, -⟩ := h.exists_shows
  refine ⟨cleaningUpWithRR_comp hshows a b, ?_, cleaningUpWithRR_returns_iff h _, ?_,
    fun rrs => foldlM_cleaningUpWithRR rrs hshows⟩
  · rw [max_comm a b]
    exact cleaningUpWithRR_comp hshows b a
  · intro w' hclean
    have hw' := acknowledged_of_cleaningUpWithRR h hclean
    refine ⟨hw', fun hle => ?_⟩
    rw [hw'.lower, hw'.current]
    omega

/-- A window of two PDUs with one block of the file in it and the EOF at `current`. -/
def ackWindow : WindowArray where
  array := [some (.of 4 (encodePDU .little 4 dataPacketFlag [1]) (by decide)),
    some (.of 5 (encodePDU .little 5 eofFlag [0]) (by decide))]
  upper := 6
  lower := 4
  current := 5
  windowSize := 2
  highest := 0
  length_array := rfl

theorem sendWindow_ackWindow : SendWindow ackWindow := by
  refine ⟨by decide, by decide, by decide, by decide, ?_, ?_⟩
  · intro s hlow hhigh
    have hs : s = 4 := by
      simp only [ackWindow] at hlow hhigh
      omega
    subst hs
    exact ⟨0, _, rfl, rfl, rfl⟩
  · intro i packet hslot
    rcases i with - | - | i
    · cases hslot
      decide
    · cases hslot
      decide
    · cases hslot

/-- The last block acknowledged in front of the EOF, and a stale acknowledgement. -/
theorem cleaningUpWithRR_commute_ackWindow :
    (cleaningUpWithRR ackWindow 5 >>= fun w => cleaningUpWithRR w 2)
      = cleaningUpWithRR ackWindow (max 5 2) ∧
    (cleaningUpWithRR ackWindow 2 >>= fun w => cleaningUpWithRR w 5)
      = cleaningUpWithRR ackWindow (max 5 2) ∧
    ((∃ w', cleaningUpWithRR ackWindow (max 5 2) = .ok w') ↔
      max ackWindow.lower (max 5 2) + ackWindow.windowSize < 2147483648) ∧
    (∀ w', cleaningUpWithRR ackWindow (max 5 2) = .ok w' → Acknowledged ackWindow (max 5 2) w' ∧
      (ackWindow.lower ≤ ackWindow.current → w'.lower ≤ w'.current)) ∧
    ∀ rrs : List Int, rrs.foldlM cleaningUpWithRR ackWindow
      = cleaningUpWithRR ackWindow (rrs.foldr max ackWindow.lower) :=
  cleaningUpWithRR_commute sendWindow_ackWindow (by decide) (by decide)

end RemoteCopy

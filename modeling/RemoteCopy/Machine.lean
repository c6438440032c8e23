import RemoteCopy.Library.ByteOrder

/-!
# The machine under both programs

What the C sources take for granted: bytes, 32-bit conversions, socket addresses, a receive into a
fixed-size buffer, and the operations C leaves undefined. An operation that C leaves undefined ends
the run it occurs in: it returns an `Undefined` instead of a result, so a theorem that some call
returns `.ok` also says that nothing undefined happened on the way.

`int` and `int32_t` values are `Int`, kept in range by `addInt32`; `uint32_t` values are `UInt32`.
-/

namespace RemoteCopy

abbrev Byte := UInt8
abbrev Bytes := List UInt8

/-- A `sockaddr_in6`, as far as the programs look at it: something to send to. -/
abbrev Addr := Nat

/-- A datagram on its way to `dest`. -/
structure Datagram where
  dest : Addr
  bytes : Bytes
  deriving DecidableEq, Repr

/-- The undefined operations these programs can reach. -/
inductive Undefined where
  | remainderByZero   -- `sequence_number % window->window_size` with a zero window size
  | indexOutOfBounds  -- `window->array[index]` with a negative index
  | negativeCopy      -- `memcpy` with a negative length
  | bufferOverrun     -- `memcpy` past the end of its destination
  | signedOverflow    -- an `int32_t` leaving its range
  | arraySize         -- a variable-length array without elements
  | nullWindow        -- the window after a failed `malloc`
  deriving DecidableEq, Repr

/-- The result of a piece of C: a value, unless something undefined happened. -/
abbrev C (α : Type) := Except Undefined α

@[simp] theorem C.ok_bind {α β : Type} (a : α) (f : α → C β) : (Except.ok a >>= f) = f a := rfl

@[simp] theorem C.error_bind {α β : Type} (e : Undefined) (f : α → C β) :
    ((Except.error e : C α) >>= f) = .error e := rfl

@[simp] theorem C.pure_eq {α : Type} (a : α) : (pure a : C α) = .ok a := rfl

/-- A sequence of two pieces of C returned, so both did. -/
theorem C.bind_eq_ok {α β : Type} {x : C α} {f : α → C β} {b : β} :
    (x >>= f) = .ok b ↔ ∃ a, x = .ok a ∧ f a = .ok b := by
  cases x with
  | ok a => simp
  | error e => simp

/-! ## 32-bit integers -/

/-- `(uint32_t) x`. -/
def toUInt32 (x : Int) : UInt32 := UInt32.ofNat (x % 4294967296).toNat

/-- `(int32_t) x`, two's complement. -/
def toInt32 (x : UInt32) : Int :=
  if x.toNat < 2147483648 then x.toNat else x.toNat - 4294967296

/-- `a + b` on `int32_t`. -/
def addInt32 (a b : Int) : C Int :=
  if -2147483648 ≤ a + b ∧ a + b < 2147483648 then .ok (a + b) else .error .signedOverflow

theorem addInt32_ok {a b : Int} (h : -2147483648 ≤ a + b) (h' : a + b < 2147483648) :
    addInt32 a b = .ok (a + b) := if_pos ⟨h, h'⟩

theorem of_addInt32 {a b c : Int} (h : addInt32 a b = .ok c) : c = a + b ∧ c < 2147483648 := by
  unfold addInt32 at h
  split at h
  · next hrange =>
      cases h
      exact ⟨rfl, hrange.2⟩
  · cases h

theorem toNat_toUInt32 {x : Int} (h : 0 ≤ x) (h' : x < 4294967296) :
    (toUInt32 x).toNat = x.toNat := by
  rw [toUInt32, UInt32.toNat_ofNat']
  omega

@[simp] theorem toNat_toUInt32_natCast {n : Nat} (h : n < 4294967296) :
    (toUInt32 (n : Int)).toNat = n := by
  rw [toNat_toUInt32 (by omega) (by omega)]
  omega

section
variable {n : Nat} {s : UInt32}

theorem toUInt32_natCast_le (hn : n < 4294967296) : toUInt32 (n : Int) ≤ s ↔ n ≤ s.toNat := by
  rw [UInt32.le_iff_toNat_le, toNat_toUInt32_natCast hn]

theorem toUInt32_natCast_lt (hn : n < 4294967296) : toUInt32 (n : Int) < s ↔ n < s.toNat := by
  rw [UInt32.lt_iff_toNat_lt, toNat_toUInt32_natCast hn]

theorem eq_toUInt32_natCast (hn : n < 4294967296) : s = toUInt32 (n : Int) ↔ s.toNat = n := by
  rw [← UInt32.toNat_inj, toNat_toUInt32_natCast hn]

end

theorem toInt32_of_lt {x : UInt32} (h : x.toNat < 2147483648) : toInt32 x = x.toNat := if_pos h

theorem toInt32_toUInt32 {x : Int} (h : -2147483648 ≤ x) (h' : x < 2147483648) :
    toInt32 (toUInt32 x) = x := by
  rw [toInt32, toUInt32, UInt32.toNat_ofNat']
  split <;> omega

theorem toUInt32_toInt32 (x : UInt32) : toUInt32 (toInt32 x) = x := by
  have hx := x.toNat_lt
  apply UInt32.toNat_inj.mp
  rw [toInt32, toUInt32, UInt32.toNat_ofNat']
  split <;> omega

/-- A counter that has room counts. -/
theorem toInt32_add_one {x : UInt32} (h : toInt32 x + 1 < 2147483648) :
    toInt32 (x + 1) = toInt32 x + 1 := by
  have hx := x.toNat_lt
  unfold toInt32 at h ⊢
  rw [UInt32.toNat_add]
  have hone : (1 : UInt32).toNat = 1 := rfl
  rw [hone]
  split at h <;> split <;> omega

/-- Without room it falls. -/
theorem toInt32_add_one_lt {x : UInt32} (h : ¬ toInt32 x + 1 < 2147483648) :
    toInt32 (x + 1) < toInt32 x := by
  have hx := x.toNat_lt
  unfold toInt32 at h ⊢
  rw [UInt32.toNat_add]
  have hone : (1 : UInt32).toNat = 1 := rfl
  rw [hone]
  split at h <;> split <;> omega

/-! ## Receiving -/

/-- The byte at offset `i`. -/
def byteAt (mem : Bytes) (i : Nat) : Byte := mem.getD i 0

/-- `safeRecvfrom` into a buffer of `size` bytes that held `stale`: the buffer afterwards, and how
many of its bytes were received. A longer datagram is cut off. -/
def recvfrom (size : Nat) (stale datagram : Bytes) : Bytes × Nat :=
  let recvLength := min datagram.length size
  (datagram.take recvLength ++ stale.drop recvLength, recvLength)

theorem recvfrom_of_le {size : Nat} (stale : Bytes) {datagram : Bytes}
    (h : datagram.length ≤ size) :
    recvfrom size stale datagram
      = (datagram ++ stale.drop datagram.length, datagram.length) := by
  simp only [recvfrom, Nat.min_eq_left h, List.take_length]

/-- What was cut off cannot be told from what was never sent. -/
theorem recvfrom_take (size : Nat) (stale datagram : Bytes) :
    recvfrom size stale (datagram.take size) = recvfrom size stale datagram := by
  have hlen : min (datagram.take size).length size = min datagram.length size := by
    rw [List.length_take]
    omega
  simp only [recvfrom, hlen, List.take_take]
  rw [Nat.min_eq_left (Nat.min_le_right _ _)]

/-- What a `pollCall` and the receive that follows it yield: nothing, or a datagram from `src` in a
buffer that held `stale`. -/
inductive Poll where
  | timeout
  | received (src : Addr) (stale datagram : Bytes)
  deriving DecidableEq, Repr

end RemoteCopy

import Qonduit.Lib.Digits
import Mathlib.Data.Vector.Basic

/-!
# Qonduit — bytes, fixed-size arrays and outcomes

The vocabulary every crate of the workspace shares: byte slices, `[u8; 32]` keys, the
fixed-width integer encodings `to_be_bytes` / `from_le_bytes` and their inverses, the clock, the
order of a hash map, and the two ways a Rust function can fail to return a value, an `anyhow` error
and a panic.
-/

namespace UInt16

def toBeBytes (n : UInt16) : List UInt8 := Positional.beBytes 2 n.toNat

def fromBeBytes (bs : List UInt8) : UInt16 := UInt16.ofNat (Positional.ofBe bs)

def toLeBytes (n : UInt16) : List UInt8 := Positional.leBytes 2 n.toNat

def fromLeBytes (bs : List UInt8) : UInt16 := UInt16.ofNat (Positional.ofLe bs)

@[simp] theorem length_toBeBytes (n : UInt16) : n.toBeBytes.length = 2 := by
  simp [toBeBytes]

@[simp] theorem length_toLeBytes (n : UInt16) : n.toLeBytes.length = 2 := by
  simp [toLeBytes]

@[simp] theorem fromLeBytes_toLeBytes (n : UInt16) : fromLeBytes n.toLeBytes = n := by
  rw [fromLeBytes, toLeBytes, Positional.ofLe_leBytes_of_lt n.toNat_lt, UInt16.ofNat_toNat]

@[simp] theorem fromBeBytes_toBeBytes (n : UInt16) : fromBeBytes n.toBeBytes = n := by
  rw [fromBeBytes, toBeBytes, Positional.ofBe_beBytes_of_lt n.toNat_lt, UInt16.ofNat_toNat]

/-- Two bytes are the big-endian encoding of the number they spell. -/
theorem toBeBytes_fromBeBytes {bs : List UInt8} (h : bs.length = 2) :
    (fromBeBytes bs).toBeBytes = bs := by
  have hlt : Positional.ofBe bs < 2 ^ 16 := by
    have := Positional.ofLe_lt bs.reverse
    rw [List.length_reverse, h] at this
    exact this
  rw [toBeBytes, fromBeBytes, UInt16.toNat_ofNat_of_lt' hlt, ← h, Positional.beBytes_ofBe]

theorem toBeBytes_inj {m n : UInt16} : m.toBeBytes = n.toBeBytes ↔ m = n := by
  refine ⟨fun h => UInt16.toNat_inj.mp ?_, fun h => by rw [h]⟩
  exact Positional.beBytes_injOn m.toNat_lt n.toNat_lt h

end UInt16

namespace UInt32

def toBeBytes (n : UInt32) : List UInt8 := Positional.beBytes 4 n.toNat

def fromBeBytes (bs : List UInt8) : UInt32 := UInt32.ofNat (Positional.ofBe bs)

def toLeBytes (n : UInt32) : List UInt8 := Positional.leBytes 4 n.toNat

def fromLeBytes (bs : List UInt8) : UInt32 := UInt32.ofNat (Positional.ofLe bs)

@[simp] theorem length_toBeBytes (n : UInt32) : n.toBeBytes.length = 4 := by
  simp [toBeBytes]

@[simp] theorem length_toLeBytes (n : UInt32) : n.toLeBytes.length = 4 := by
  simp [toLeBytes]

theorem toBeBytes_inj {m n : UInt32} : m.toBeBytes = n.toBeBytes ↔ m = n := by
  refine ⟨fun h => UInt32.toNat_inj.mp ?_, fun h => by rw [h]⟩
  exact Positional.beBytes_injOn m.toNat_lt n.toNat_lt h

@[simp] theorem fromBeBytes_toBeBytes (n : UInt32) : fromBeBytes n.toBeBytes = n := by
  rw [fromBeBytes, toBeBytes, Positional.ofBe_beBytes_of_lt n.toNat_lt, UInt32.ofNat_toNat]

@[simp] theorem fromLeBytes_toLeBytes (n : UInt32) : fromLeBytes n.toLeBytes = n := by
  rw [fromLeBytes, toLeBytes, Positional.ofLe_leBytes_of_lt n.toNat_lt, UInt32.ofNat_toNat]

/-- Four bytes are the big-endian encoding of the number they spell. -/
theorem toBeBytes_fromBeBytes {bs : List UInt8} (h : bs.length = 4) :
    (fromBeBytes bs).toBeBytes = bs := by
  have hlt : Positional.ofBe bs < 2 ^ 32 := by
    have := Positional.ofLe_lt bs.reverse
    rw [List.length_reverse, h] at this
    exact this
  rw [toBeBytes, fromBeBytes, UInt32.toNat_ofNat_of_lt' hlt, ← h, Positional.beBytes_ofBe]

theorem min_eq_ite (m n : UInt32) : min m n = if m ≤ n then m else n := rfl

theorem max_eq_ite (m n : UInt32) : max m n = if m ≤ n then n else m := rfl

/-- `max` as the source computes it, where the first argument wins. -/
theorem max_of_ge {m n : UInt32} (h : n ≤ m) : max m n = m := by
  rw [max_eq_ite]
  split
  · next hle => exact UInt32.le_antisymm h hle
  · rfl

theorem max_of_le {m n : UInt32} (h : m ≤ n) : max m n = n := if_pos h

/-- What is not the smaller is above it, so the minimum is below both. -/
theorem min_le (m n : UInt32) : min m n ≤ m ∧ min m n ≤ n := by
  rw [min_eq_ite]
  split
  · next h => exact ⟨UInt32.le_refl m, h⟩
  · next h => exact ⟨(UInt32.le_total m n).resolve_left h, UInt32.le_refl n⟩

theorem toNat_add_of_lt {m n : UInt32} (h : m.toNat + n.toNat < 2 ^ 32) :
    (m + n).toNat = m.toNat + n.toNat := by
  rw [UInt32.toNat_add]
  exact Nat.mod_eq_of_lt h

/-- The maximum is above both. -/
theorem le_max (m n : UInt32) : m ≤ max m n ∧ n ≤ max m n := by
  rw [max_eq_ite]
  split
  · next h => exact ⟨h, UInt32.le_refl n⟩
  · next h => exact ⟨UInt32.le_refl m, (UInt32.le_total m n).resolve_left h⟩

def saturatingAdd (m n : UInt32) : UInt32 := UInt32.ofNat (min (m.toNat + n.toNat) 0xFFFFFFFF)

def saturatingSub (m n : UInt32) : UInt32 := UInt32.ofNat (m.toNat - n.toNat)

theorem toNat_saturatingAdd (m n : UInt32) :
    (m.saturatingAdd n).toNat = min (m.toNat + n.toNat) 0xFFFFFFFF :=
  UInt32.toNat_ofNat_of_lt' (by show _ < 2 ^ 32; omega)

/-- A saturating difference is the one of natural numbers, which stops at zero as well. -/
theorem toNat_saturatingSub (m n : UInt32) : (m.saturatingSub n).toNat = m.toNat - n.toNat := by
  have hm := m.toNat_lt
  exact UInt32.toNat_ofNat_of_lt' (by show _ < 2 ^ 32; omega)

/-- Big-endian `u32` keys sort numerically, which is what every range scan of the store relies
on. -/
theorem compare_toBeBytes (m n : UInt32) :
    compare m.toBeBytes n.toBeBytes = compare m.toNat n.toNat :=
  Positional.compare_beBytes m.toNat_lt n.toNat_lt

end UInt32

namespace UInt64

def toLeBytes (n : UInt64) : List UInt8 := Positional.leBytes 8 n.toNat

def fromLeBytes (bs : List UInt8) : UInt64 := UInt64.ofNat (Positional.ofLe bs)

@[simp] theorem length_toLeBytes (n : UInt64) : n.toLeBytes.length = 8 := by
  simp [toLeBytes]

@[simp] theorem fromLeBytes_toLeBytes (n : UInt64) : fromLeBytes n.toLeBytes = n := by
  rw [fromLeBytes, toLeBytes, Positional.ofLe_leBytes_of_lt n.toNat_lt, UInt64.ofNat_toNat]

end UInt64

/-! Signed integers are written in two's complement. -/

def Int16.toLeBytes (n : Int16) : List UInt8 := n.toUInt16.toLeBytes

def Int16.fromLeBytes (bs : List UInt8) : Int16 := (UInt16.fromLeBytes bs).toInt16

def Int32.toLeBytes (n : Int32) : List UInt8 := n.toUInt32.toLeBytes

def Int32.fromLeBytes (bs : List UInt8) : Int32 := (UInt32.fromLeBytes bs).toInt32

def Int64.toLeBytes (n : Int64) : List UInt8 := n.toUInt64.toLeBytes

def Int64.fromLeBytes (bs : List UInt8) : Int64 := (UInt64.ofNat (Positional.ofLe bs)).toInt64

@[simp] theorem Int16.length_toLeBytes (n : Int16) : n.toLeBytes.length = 2 :=
  UInt16.length_toLeBytes _

@[simp] theorem Int32.length_toLeBytes (n : Int32) : n.toLeBytes.length = 4 :=
  UInt32.length_toLeBytes _

@[simp] theorem Int64.length_toLeBytes (n : Int64) : n.toLeBytes.length = 8 :=
  UInt64.length_toLeBytes _

@[simp] theorem Int16.fromLeBytes_toLeBytes (n : Int16) : fromLeBytes n.toLeBytes = n := by
  rw [fromLeBytes, toLeBytes, UInt16.fromLeBytes_toLeBytes, Int16.toInt16_toUInt16]

@[simp] theorem Int32.fromLeBytes_toLeBytes (n : Int32) : fromLeBytes n.toLeBytes = n := by
  rw [fromLeBytes, toLeBytes, UInt32.fromLeBytes_toLeBytes, Int32.toInt32_toUInt32]

@[simp] theorem Int64.fromLeBytes_toLeBytes (n : Int64) : fromLeBytes n.toLeBytes = n := by
  show (UInt64.fromLeBytes n.toUInt64.toLeBytes).toInt64 = n
  rw [UInt64.fromLeBytes_toLeBytes, Int64.toInt64_toUInt64]

namespace Qonduit

/-- Nanoseconds of the monotone clock. -/
abbrev Instant := Nat

def secs (n : Nat) : Nat := n * 1000000000

/-- The order in which a hash map hands out its entries. -/
structure IterOrder (α : Type) where
  order : List α → List α
  perm : ∀ l, (order l).Perm l

abbrev Bytes := List UInt8

/-- `[u8; 32]`: a public key, a digest or a storage key. -/
abbrev Key32 := List.Vector UInt8 32

/-- A Rust string, as the UTF-8 bytes `as_bytes` exposes. -/
abbrev Str := Bytes

def zeroKey : Key32 := ⟨List.replicate 32 0, by simp⟩

/-- The key spelled by 32 bytes. -/
def keyOf (bs : Bytes) : Key32 := if h : bs.length = 32 then ⟨bs, h⟩ else zeroKey

/-- How a Rust call ends when it returns no value: with an `anyhow` error, given by its
chain of messages from the outermost context to the root cause, or with a panic. -/
inductive Fault where
  | err (chain : List String)
  | panic (what : String)
  deriving DecidableEq, Repr

/-- The outcome of a call that may return an error or panic. -/
abbrev Outcome := Except Fault

def bail {α : Type} (msg : String) : Outcome α := .error (.err [msg])

theorem ok_bind {α β : Type} (x : α) (k : α → Outcome β) : (Except.ok x >>= k) = k x := rfl

/-- `.context(msg)` on the result of a third-party call that failed with `cause`. -/
def withContext {α β : Type} (msg : String) (r : Except String α) (k : α → Outcome β) :
    Outcome β :=
  match r with
  | .ok a => k a
  | .error cause => .error (.err [msg, cause])

/-- `&payload[a..b]`, which panics unless `a ≤ b ≤ len`. -/
def sliceAt (payload : Bytes) (a b : Nat) : Outcome Bytes :=
  if a ≤ b ∧ b ≤ payload.length then .ok ((payload.drop a).take (b - a))
  else .error (.panic "slice index out of range")

/-- `payload[i]`, which panics out of range. -/
def byteAt (payload : Bytes) (i : Nat) : Outcome UInt8 :=
  match payload[i]? with
  | some b => .ok b
  | none => .error (.panic "index out of bounds")

/-- `[u8; 32]` `copy_from_slice`, which panics when the lengths differ. -/
def copyFromSlice (src : Bytes) : Outcome Key32 :=
  if h : src.length = 32 then .ok ⟨src, h⟩
  else .error (.panic "copy_from_slice: source slice length does not match")

@[simp] theorem copyFromSlice_toList (k : Key32) : copyFromSlice k.toList = .ok k := by
  rw [copyFromSlice, dif_pos k.toList_length]
  rfl

/-- A slice is copied into a key only if it has the right length, and then unchanged. -/
theorem copyFromSlice_ok {src : Bytes} {k : Key32} (h : copyFromSlice src = .ok k) :
    k.toList = src := by
  unfold copyFromSlice at h
  split at h
  · cases h; rfl
  · cases h

/-- Thirty-two bytes are always copied, so the panic is out of the way wherever the length is
known. -/
theorem copyFromSlice_eq_keyOf {src : Bytes} (h : src.length = 32) :
    copyFromSlice src = .ok (keyOf src) := by
  have hkey : keyOf src = ⟨src, h⟩ := dif_pos h
  rw [hkey]
  exact dif_pos h

theorem toList_keyOf {bs : Bytes} (h : bs.length = 32) : (keyOf bs).toList = bs :=
  copyFromSlice_ok (copyFromSlice_eq_keyOf h)

theorem keyOf_toList (k : Key32) : keyOf k.toList = k :=
  List.Vector.eq _ _ (toList_keyOf k.toList_length)

/-- Slicing within bounds does not panic. -/
theorem sliceAt_ok {payload : Bytes} {a b : Nat} (hab : a ≤ b) (hb : b ≤ payload.length) :
    sliceAt payload a b = .ok ((payload.drop a).take (b - a)) := by
  rw [sliceAt, if_pos ⟨hab, hb⟩]

end Qonduit

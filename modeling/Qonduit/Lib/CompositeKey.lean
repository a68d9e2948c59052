import Qonduit.Lib.Digits

/-!
# Composite keys

A composite key is a stem followed by a fixed number of bytes that spell an index, big-endian.
Indices of any type are admitted that are numbered below the power of 256; keys under one stem
then sort as the numbers of their indices (`compare_key`).
-/

/-- A type of indices as the numbers that `size` bytes can spell. -/
structure IndexNumbering (I : Type) (size : Nat) where
  number : I → Nat
  ofNumber : Nat → I
  number_lt : ∀ i, number i < 256 ^ size
  ofNumber_number : ∀ i, ofNumber (number i) = i
  number_ofNumber : ∀ n, n < 256 ^ size → number (ofNumber n) = n

namespace IndexNumbering

open Positional

variable {I : Type} {size : Nat} (N : IndexNumbering I size)

def bytes (i : I) : List UInt8 := beBytes size (N.number i)

def read (bs : List UInt8) : I := N.ofNumber (ofBe bs)

/-- The key of an index under a stem. -/
def key (stem : List UInt8) (i : I) : List UInt8 := stem ++ N.bytes i

@[simp] theorem length_bytes (i : I) : (N.bytes i).length = size := length_beBytes ..

/-- An index is read back from its bytes, because the width is that of its type. -/
@[simp] theorem read_bytes (i : I) : N.read (N.bytes i) = i := by
  rw [read, bytes, ofBe_beBytes_of_lt (N.number_lt i), N.ofNumber_number]

/-- Every string of the right width is the bytes of the index it is read as, so a key in the table
has just one index behind its stem. -/
theorem bytes_read {bs : List UInt8} (h : bs.length = size) : N.bytes (N.read bs) = bs := by
  have hlt : ofBe bs < 256 ^ size := by
    have := ofLe_lt bs.reverse
    rwa [List.length_reverse, h] at this
  rw [bytes, read, N.number_ofNumber _ hlt, ← h, beBytes_ofBe]

/-- Keys under one stem compare as the numbers of their indices. -/
theorem compare_key (stem : List UInt8) (i j : I) :
    compare (N.key stem i) (N.key stem j) = compare (N.number i) (N.number j) := by
  have hstem : compare stem stem = .eq := Std.ReflCmp.compare_self
  rw [key, key, compare_append_of_length_eq rfl, hstem, Ordering.then, bytes, bytes,
    compare_beBytes (N.number_lt i) (N.number_lt j)]

/-- The order of the keys tells the order of the indices, which is what a scan under a stem relies
on. -/
theorem number_lt_of_compare {stem : List UInt8} {i j : I}
    (h : compare (N.key stem i) (N.key stem j) = .lt) : N.number i < N.number j := by
  rw [compare_key] at h
  exact Nat.compare_eq_lt.mp h

end IndexNumbering

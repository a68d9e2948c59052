import Qonduit.Core.Crates

/-!
# Qonduit — base-26 identities

`identity.rs`: a 32-byte public key is written as four fragments of eight little-endian
bytes, each spelled with fourteen letters `A..Z`, least significant first, followed by four
letters of an 18-bit K12 checksum.

`decodeBase26_encodeBase26` is the round trip. Its arithmetic core is that a fragment is
below `2 ^ 64 < 26 ^ 14`, so fourteen digits hold it and the decoder's `u64` accumulator,
which computes modulo `2 ^ 64`, ends at the fragment itself.
-/

namespace Qonduit

def IDENTITY_LENGTH : Nat := 60

def letter (d : Nat) : UInt8 := 65 + UInt8.ofNat d

def isAsciiUppercase (ch : UInt8) : Bool := 65 ≤ ch ∧ ch ≤ 90

/-- `compute_checksum`: the low 18 bits of three K12 bytes as four letters. -/
def computeChecksum (c : Crates) (publicKey : Key32) : Str :=
  -- the digest is three bytes long
  let (b0, b1, b2) := c.k12 publicKey
  let checksum : UInt32 := b0.toUInt32 ||| (b1.toUInt32 <<< 8) ||| (b2.toUInt32 <<< 16)
  let checksum := checksum &&& 0x3FFFF
  (Positional.digits 26 4 checksum.toNat).map letter

def fragmentBytes (key : Bytes) (fragIdx : Nat) : Bytes :=
  (key.drop (fragIdx * 8)).take 8

/-- One turn of `encode_base26`'s fragment loop: fourteen letters for eight bytes. -/
def encodeFragment (bytes : Bytes) : Str :=
  (Positional.digits 26 14 (Positional.ofLe bytes)).map letter

def encodeBase26 (c : Crates) (key : Key32) : Str :=
  encodeFragment (fragmentBytes key.toList 0) ++ encodeFragment (fragmentBytes key.toList 1) ++
    encodeFragment (fragmentBytes key.toList 2) ++ encodeFragment (fragmentBytes key.toList 3) ++
    computeChecksum c key

/-- One turn of `decode_base26`'s fragment loop: the letters are read most significant
first into a wrapping `u64` accumulator. -/
def decodeFragment (chars : Str) : Option UInt64 :=
  chars.reverse.foldlM
    (fun fragment ch =>
      if isAsciiUppercase ch then some (fragment * 26 + (ch - 65).toUInt64) else none)
    0

def fragmentChars (s : Str) (fragIdx : Nat) : Str :=
  (s.drop (fragIdx * 14)).take 14

def keyOfFragments (f0 f1 f2 f3 : UInt64) : Key32 :=
  ⟨Positional.leBytes 8 f0.toNat ++ Positional.leBytes 8 f1.toNat ++
    Positional.leBytes 8 f2.toNat ++ Positional.leBytes 8 f3.toNat, by simp⟩

def decodeBase26 (c : Crates) (s : Str) : Option Key32 :=
  if s.length ≠ IDENTITY_LENGTH then none
  else do
    let f0 ← decodeFragment (fragmentChars s 0)
    let f1 ← decodeFragment (fragmentChars s 1)
    let f2 ← decodeFragment (fragmentChars s 2)
    let f3 ← decodeFragment (fragmentChars s 3)
    let publicKey := keyOfFragments f0 f1 f2 f3
    if s.drop 56 = computeChecksum c publicKey then some publicKey else none

/-! ## Letters -/

theorem isAsciiUppercase_letter : ∀ d < 26, isAsciiUppercase (letter d) = true := by
  decide

theorem toNat_letter_sub : ∀ d < 26, (letter d - 65).toUInt64.toNat = d := by
  decide

/-! ## Lengths -/

@[simp] theorem length_computeChecksum (c : Crates) (key : Key32) :
    (computeChecksum c key).length = 4 := by
  simp [computeChecksum]

@[simp] theorem length_encodeFragment (bytes : Bytes) : (encodeFragment bytes).length = 14 := by
  simp [encodeFragment]

@[simp] theorem length_encodeBase26 (c : Crates) (key : Key32) :
    (encodeBase26 c key).length = IDENTITY_LENGTH := by
  simp [encodeBase26, IDENTITY_LENGTH]

/-- Each of the four fragments has eight bytes. -/
theorem length_fragmentBytes (key : Key32) {i : Nat} (hi : i < 4) :
    (fragmentBytes key.toList i).length = 8 := by
  simp only [fragmentBytes, List.length_take, List.length_drop, List.Vector.toList_length]
  omega

/-! ## Fragments

A fragment of a key is eight bytes, a number of 64 bits, written in fourteen letters. As `26 ^ 14`
is above `2 ^ 64` the letters hold it whole. -/

/-- Horner evaluation of a fragment's letters keeps their number modulo `2 ^ 64`. The induction is
on the digits from the one of greatest weight, in the order of the loop. -/
theorem decodeFragment_map_letter {ds : List Nat} (hds : ∀ d ∈ ds, d < 26) :
    decodeFragment (ds.map letter) = some (UInt64.ofNat (Nat.ofDigits 26 ds)) := by
  unfold decodeFragment
  -- the digits are least significant first, the fold runs over their reverse: the head digit is
  -- the last one it adds
  induction ds with
  | nil => rfl
  | cons d ds ih =>
    have hd : d < 26 := hds d (by simp)
    have hval : (letter d - 65).toUInt64 = UInt64.ofNat d := by
      rw [← UInt64.toNat_inj, toNat_letter_sub d hd,
        UInt64.toNat_ofNat_of_lt' (lt_trans hd (by decide))]
    rw [List.map_cons, List.reverse_cons, List.foldlM_append,
      ih (fun e he => hds e (by simp [he]))]
    simp only [Option.bind_eq_bind, Option.bind_some, List.foldlM_cons, List.foldlM_nil,
      isAsciiUppercase_letter d hd, if_true, hval, Nat.ofDigits_cons]
    rw [Nat.mul_comm, UInt64.ofNat_add, UInt64.ofNat_mul, UInt64.add_comm]
    rfl

/-- Eight bytes come back from their fourteen letters, because their number is below the modulus. -/
theorem decodeFragment_encodeFragment {bytes : Bytes} (h : bytes.length = 8) :
    ∃ f, decodeFragment (encodeFragment bytes) = some f ∧
      Positional.leBytes 8 f.toNat = bytes := by
  have hlt : Positional.ofLe bytes < 2 ^ 64 := by
    have := Positional.ofLe_lt bytes
    rw [h] at this
    exact this
  have hdigits : Nat.ofDigits 26 (Positional.digits 26 14 (Positional.ofLe bytes))
      = Positional.ofLe bytes := by
    -- fourteen letters are enough
    rw [Positional.ofDigits_digits, Nat.mod_eq_of_lt]
    exact lt_trans hlt (by norm_num)
  refine ⟨UInt64.ofNat (Positional.ofLe bytes), ?_, ?_⟩
  · rw [encodeFragment,
      decodeFragment_map_letter (fun d hd => Positional.digits_lt (by decide) hd), hdigits]
  · rw [UInt64.toNat_ofNat_of_lt' hlt, ← h, Positional.leBytes_ofLe]

/-- Consecutive slices join. -/
theorem take_append_drop_add {α : Type*} (l : List α) (a n : Nat) :
    (l.drop a).take n ++ l.drop (a + n) = l.drop a := by
  rw [← List.drop_drop, List.take_append_drop]

/-- A key is the concatenation of its four fragments. -/
theorem fragmentBytes_append (key : Key32) :
    fragmentBytes key.toList 0 ++ fragmentBytes key.toList 1 ++ fragmentBytes key.toList 2 ++
      fragmentBytes key.toList 3 = key.toList := by
  have hend : (key.toList.drop 24).take 8 = key.toList.drop 24 :=
    List.take_of_length_le (by rw [List.length_drop, key.toList_length])
  simp only [fragmentBytes, Nat.zero_mul, Nat.one_mul, Nat.reduceMul, hend, List.append_assoc]
  rw [take_append_drop_add key.toList 16 8, take_append_drop_add key.toList 8 8,
    take_append_drop_add key.toList 0 8, List.drop_zero]

/-- Cutting an identity of four fragments and a checksum at the fragment boundaries finds these
parts again. -/
theorem fragmentChars_append {a b d e t : Str} (ha : a.length = 14) (hb : b.length = 14)
    (hd : d.length = 14) (he : e.length = 14) :
    fragmentChars (a ++ b ++ d ++ e ++ t) 0 = a ∧ fragmentChars (a ++ b ++ d ++ e ++ t) 1 = b ∧
      fragmentChars (a ++ b ++ d ++ e ++ t) 2 = d ∧
      fragmentChars (a ++ b ++ d ++ e ++ t) 3 = e ∧ (a ++ b ++ d ++ e ++ t).drop 56 = t := by
  simp only [fragmentChars, List.append_assoc]
  refine ⟨?_, ?_, ?_, ?_, ?_⟩
  all_goals
    simp [List.drop_append, List.drop_of_length_le, ha, hb, hd, he]

/-! ## The round trip -/

/-- **Encoding a key and decoding the result gives the key.** The four fragments decode to its
quarters, and the checksum is computed from the same key both times. -/
theorem decodeBase26_encodeBase26 (c : Crates) (key : Key32) :
    decodeBase26 c (encodeBase26 c key) = some key := by
  obtain ⟨f0, h0, hb0⟩ :=
    decodeFragment_encodeFragment (length_fragmentBytes key (i := 0) (by decide))
  obtain ⟨f1, h1, hb1⟩ :=
    decodeFragment_encodeFragment (length_fragmentBytes key (i := 1) (by decide))
  obtain ⟨f2, h2, hb2⟩ :=
    decodeFragment_encodeFragment (length_fragmentBytes key (i := 2) (by decide))
  obtain ⟨f3, h3, hb3⟩ :=
    decodeFragment_encodeFragment (length_fragmentBytes key (i := 3) (by decide))
  obtain ⟨c0, c1, c2, c3, ct⟩ := fragmentChars_append (t := computeChecksum c key)
    (length_encodeFragment (fragmentBytes key.toList 0))
    (length_encodeFragment (fragmentBytes key.toList 1))
    (length_encodeFragment (fragmentBytes key.toList 2))
    (length_encodeFragment (fragmentBytes key.toList 3))
  -- the checksum is compared with that of the decoded key, which is the key itself
  have hkey : keyOfFragments f0 f1 f2 f3 = key := by
    apply List.Vector.toList_injective
    show Positional.leBytes 8 f0.toNat ++ Positional.leBytes 8 f1.toNat ++
      Positional.leBytes 8 f2.toNat ++ Positional.leBytes 8 f3.toNat = key.toList
    rw [hb0, hb1, hb2, hb3, fragmentBytes_append]
  rw [decodeBase26, if_neg (by simp)]
  rw [encodeBase26, c0, c1, c2, c3, ct, h0, h1, h2, h3]
  simp [hkey]

/-- A string of another length is no identity. -/
theorem decodeBase26_of_length_ne (c : Crates) {s : Str} (h : s.length ≠ IDENTITY_LENGTH) :
    decodeBase26 c s = none := by
  rw [decodeBase26, if_pos h]

end Qonduit

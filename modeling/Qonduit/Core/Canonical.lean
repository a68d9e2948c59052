import Qonduit.Core.Identity
import Qonduit.Core.Json

/-!
# Qonduit — overflow and canonical form of identities

`decode_base26` accumulates a fragment as `fragment * 26 + digit` in a `u64`. A release build
wraps, a build with overflow checks panics. Fourteen letters spell any number below `26 ^ 14`,
which is more than `2 ^ 64`, and nothing rejects the rest.

* **`decodeBase26Checked`** — the decoder of a build with overflow checks.
* **`decodeFragment_of_upper`**, **`decodeFragmentChecked_spec`** — what fourteen letters decode
  to in either build, by the number they spell.
* **`identity_round_trip`** — encoding then decoding is the identity, without overflow.
* **`identity_canonical_iff`** — the identities that are canonical are those whose fragments spell
  numbers below `2 ^ 64`.
-/

namespace Qonduit

/-! ## A build with overflow checks

`decode_base26` multiplies and adds `u64` numbers with the plain operators. A release build wraps
around, a build with overflow checks panics; the second one is modelled next to the first, with the
panic as an outcome. -/

/-- `fragment * 26 + (ch - b'A') as u64`. -/
def accumulateChecked (fragment : UInt64) (ch : UInt8) : Outcome UInt64 :=
  if 2 ^ 64 ≤ fragment.toNat * 26 then .error (.panic "attempt to multiply with overflow")
  else if 2 ^ 64 ≤ fragment.toNat * 26 + (ch - 65).toNat then
    .error (.panic "attempt to add with overflow")
  else .ok (fragment * 26 + (ch - 65).toUInt64)

/-- The digit loop of one fragment, on its letters from the most significant on. -/
def accumulateLetters (fragment : UInt64) : Str → Outcome (Option UInt64)
  | [] => .ok (some fragment)
  | ch :: chars =>
    if isAsciiUppercase ch then
      match accumulateChecked fragment ch with
      | .ok fragment' => accumulateLetters fragment' chars
      | .error fault => .error fault
    else .ok none

def decodeFragmentChecked (chars : Str) : Outcome (Option UInt64) :=
  accumulateLetters 0 chars.reverse

/-- The fragment loop; a fragment that is no number ends it with `None`. -/
def decodeFragmentsChecked : List Str → Outcome (Option (List UInt64))
  | [] => .ok (some [])
  | chars :: rest =>
    match decodeFragmentChecked chars with
    | .error fault => .error fault
    | .ok none => .ok none
    | .ok (some fragment) =>
      match decodeFragmentsChecked rest with
      | .error fault => .error fault
      | .ok none => .ok none
      | .ok (some fragments) => .ok (some (fragment :: fragments))

def decodeBase26Checked (c : Crates) (s : Str) : Outcome (Option Key32) :=
  if s.length ≠ IDENTITY_LENGTH then .ok none
  else
    match decodeFragmentsChecked ((List.range 4).map (fragmentChars s)) with
    | .error fault => .error fault
    | .ok (some [f0, f1, f2, f3]) =>
      let publicKey := keyOfFragments f0 f1 f2 f3
      if s.drop 56 = computeChecksum c publicKey then .ok (some publicKey) else .ok none
    | .ok _ => .ok none

/-! ## The number letters spell

A fragment is a number to base 26, its first letter the digit of least weight. Both builds compute
it by Horner's rule from the last letter on, one of them modulo `2 ^ 64`. -/

/-- The number a fragment spells, least significant letter first. -/
def fragmentValue (chars : Str) : Nat :=
  Nat.ofDigits 26 (chars.map (fun ch => (ch - 65).toNat))

def Letters (s : Str) : Prop := ∀ ch ∈ s, isAsciiUppercase ch

theorem isAsciiUppercase_iff {ch : UInt8} :
    isAsciiUppercase ch = true ↔ 65 ≤ ch.toNat ∧ ch.toNat ≤ 90 := by
  rw [isAsciiUppercase, decide_eq_true_iff, UInt8.le_iff_toNat_le, UInt8.le_iff_toNat_le]
  rfl

/-- Subtracting `b'A'` from a letter does not wrap around. -/
theorem toNat_sub_of_upper {ch : UInt8} (h : isAsciiUppercase ch) :
    (ch - 65).toNat = ch.toNat - 65 := by
  obtain ⟨hlo, -⟩ := isAsciiUppercase_iff.mp h
  exact UInt8.toNat_sub_of_le _ _ (UInt8.le_iff_toNat_le.mpr hlo)

/-- So the digit of a letter is below 26. -/
theorem digit_lt_of_upper {ch : UInt8} (h : isAsciiUppercase ch) : (ch - 65).toNat < 26 := by
  obtain ⟨hlo, hhi⟩ := isAsciiUppercase_iff.mp h
  rw [toNat_sub_of_upper h]
  omega

/-- A letter is the letter of its digit. -/
theorem letter_of_upper {ch : UInt8} (h : isAsciiUppercase ch) : letter (ch - 65).toNat = ch := by
  obtain ⟨hlo, hhi⟩ := isAsciiUppercase_iff.mp h
  rw [letter, UInt8.ofNat_toNat, ← UInt8.toNat_inj, UInt8.toNat_add, toNat_sub_of_upper h]
  show (65 + (ch.toNat - 65)) % 256 = ch.toNat
  omega

/-- Letters are the letters of their digits. -/
theorem map_letter_of_upper {chars : Str} (h : Letters chars) :
    (chars.map (fun ch => (ch - 65).toNat)).map letter = chars := by
  rw [List.map_map]
  conv_rhs => rw [← List.map_id chars]
  exact List.map_congr_left (fun ch hch => letter_of_upper (h ch hch))

theorem digits_lt_of_upper {chars : Str} (h : Letters chars) :
    ∀ d ∈ chars.map (fun ch => (ch - 65).toNat), d < 26 := by
  intro d hd
  obtain ⟨ch, hch, rfl⟩ := List.mem_map.mp hd
  exact digit_lt_of_upper (h ch hch)

/-- A release build reads the number letters spell modulo `2 ^ 64`, as wrapping around commutes with
multiplying and adding. -/
theorem decodeFragment_of_upper {chars : Str} (h : Letters chars) :
    decodeFragment chars = some (UInt64.ofNat (fragmentValue chars)) := by
  have hdecode := decodeFragment_map_letter (digits_lt_of_upper h)
  rw [map_letter_of_upper h] at hdecode
  exact hdecode

/-- A fragment that decodes consists of letters, because the loop gives up at the first character
that is none. -/
theorem upper_of_decodeFragment {chars : Str} {f : UInt64} (h : decodeFragment chars = some f) :
    Letters chars := by
  -- the loop runs over the characters from the last on, with any number accumulated so far
  have hfold : ∀ (l : Str) (a : UInt64),
      (l.foldlM (fun fragment ch => if isAsciiUppercase ch then
          some (fragment * 26 + (ch - 65).toUInt64) else none) a).isSome → Letters l := by
    intro l
    induction l with
    | nil => intro a _ ch hch; cases hch
    | cons x l ih =>
      intro a hsome ch hch
      rw [List.foldlM_cons] at hsome
      by_cases hx : isAsciiUppercase x
      · rw [if_pos hx] at hsome
        rcases List.mem_cons.mp hch with rfl | hch
        · exact hx
        · exact ih _ hsome ch hch
      · rw [if_neg hx] at hsome
        cases hsome
  intro ch hch
  refine hfold chars.reverse 0 ?_ ch (List.mem_reverse.mpr hch)
  rw [decodeFragment] at h
  rw [h]
  rfl

/-! ## Accumulating with overflow checks -/

/-- The number reached from `a` by the given letters, most significant first. -/
def hornerFrom (a : Nat) (l : Str) : Nat := l.foldl (fun n ch => n * 26 + (ch - 65).toNat) a

/-- The accumulator only grows, so once it is too large it stays so. -/
theorem le_hornerFrom (a : Nat) (l : Str) : a ≤ hornerFrom a l := by
  induction l generalizing a with
  | nil => exact Nat.le_refl a
  | cons ch l ih =>
    have hstep : a ≤ a * 26 + (ch - 65).toNat := by omega
    exact Nat.le_trans hstep (ih _)

/-- Horner's rule over the letters from the last on gives the number they spell. -/
theorem hornerFrom_reverse (chars : Str) : hornerFrom 0 chars.reverse = fragmentValue chars := by
  induction chars with
  | nil => rfl
  | cons ch chars ih =>
    have hvalue : fragmentValue (ch :: chars) = (ch - 65).toNat + 26 * fragmentValue chars :=
      Nat.ofDigits_cons ..
    rw [hornerFrom] at ih
    rw [hornerFrom, List.reverse_cons, List.foldl_append, ih, hvalue]
    show fragmentValue chars * 26 + (ch - 65).toNat = _
    omega

/-- One turn of the loop: the next accumulator if it fits 64 bits, and a panic if it does not,
whether the product or the sum is the one to overflow. -/
theorem accumulateChecked_spec (fragment : UInt64) (ch : UInt8) :
    (fragment.toNat * 26 + (ch - 65).toNat < 2 ^ 64 →
      ∃ f, accumulateChecked fragment ch = .ok f ∧
        f.toNat = fragment.toNat * 26 + (ch - 65).toNat) ∧
    (2 ^ 64 ≤ fragment.toNat * 26 + (ch - 65).toNat →
      ∃ what, accumulateChecked fragment ch = .error (.panic what)) := by
  unfold accumulateChecked
  constructor
  · intro hlt
    rw [if_neg (by omega), if_neg (by omega)]
    refine ⟨_, rfl, ?_⟩
    rw [UInt64.toNat_add, UInt64.toNat_mul, UInt8.toNat_toUInt64]
    have hmul : fragment.toNat * (26 : UInt64).toNat % 2 ^ 64 = fragment.toNat * 26 :=
      Nat.mod_eq_of_lt (by show fragment.toNat * 26 < 2 ^ 64; omega)
    rw [hmul, Nat.mod_eq_of_lt hlt]
  · intro hge
    by_cases hmul : 2 ^ 64 ≤ fragment.toNat * 26
    · exact ⟨_, if_pos hmul⟩
    · rw [if_neg hmul]
      exact ⟨_, if_pos hge⟩

/-- **Letters accumulate to the number they spell**, or panic when it is `2 ^ 64` or more. In the
second case some turn overflows, since the accumulator never shrinks again. -/
theorem accumulateLetters_spec {l : Str} (h : Letters l) (fragment : UInt64) :
    (hornerFrom fragment.toNat l < 2 ^ 64 →
      ∃ f, accumulateLetters fragment l = .ok (some f) ∧ f.toNat = hornerFrom fragment.toNat l) ∧
    (2 ^ 64 ≤ hornerFrom fragment.toNat l →
      ∃ what, accumulateLetters fragment l = .error (.panic what)) := by
  induction l generalizing fragment with
  | nil =>
    refine ⟨fun _ => ⟨fragment, rfl, rfl⟩, fun hge => ?_⟩
    exact absurd fragment.toNat_lt (Nat.not_lt.mpr hge)
  | cons ch l ih =>
    have hch : isAsciiUppercase ch := h ch (by simp)
    have hl : Letters l := fun x hx => h x (by simp [hx])
    obtain ⟨hok, hpanic⟩ := accumulateChecked_spec fragment ch
    have hunfold : hornerFrom fragment.toNat (ch :: l)
        = hornerFrom (fragment.toNat * 26 + (ch - 65).toNat) l := rfl
    rw [hunfold, accumulateLetters, if_pos hch]
    -- the partial numbers only grow, so an early overflow is an overflow of the whole
    have hle := le_hornerFrom (fragment.toNat * 26 + (ch - 65).toNat) l
    by_cases hstep : fragment.toNat * 26 + (ch - 65).toNat < 2 ^ 64
    · obtain ⟨f, hf, hval⟩ := hok hstep
      rw [hf, ← hval]
      exact ih hl f
    · obtain ⟨what, hwhat⟩ := hpanic (Nat.not_lt.mp hstep)
      rw [hwhat]
      refine ⟨fun hlt => ?_, fun _ => ⟨what, rfl⟩⟩
      exact absurd (Nat.lt_of_le_of_lt hle hlt) hstep

/-- The same of a whole fragment, which starts from zero. -/
theorem decodeFragmentChecked_spec {chars : Str} (h : Letters chars) :
    (fragmentValue chars < 2 ^ 64 →
      decodeFragmentChecked chars = .ok (some (UInt64.ofNat (fragmentValue chars)))) ∧
    (2 ^ 64 ≤ fragmentValue chars →
      ∃ what, decodeFragmentChecked chars = .error (.panic what)) := by
  have hrev : Letters chars.reverse := fun ch hch => h ch (List.mem_reverse.mp hch)
  obtain ⟨hok, hpanic⟩ := accumulateLetters_spec hrev 0
  have hvalue : hornerFrom (0 : UInt64).toNat chars.reverse = fragmentValue chars :=
    hornerFrom_reverse chars
  rw [hvalue] at hok hpanic
  refine ⟨fun hlt => ?_, hpanic⟩
  obtain ⟨f, hf, hval⟩ := hok hlt
  rw [decodeFragmentChecked, hf, ← hval, UInt64.ofNat_toNat]

/-! ## Strings of sixty letters

The identity is cut into four fragments of fourteen letters and a checksum of four. A release build
then only compares the checksum of the key that the fragments spell. -/

/-- Fragments of letters are letters. -/
theorem fragmentChars_of_letters {s : Str} (h : Letters s) (i : Nat) :
    Letters (fragmentChars s i) :=
  fun ch hch => h ch (List.mem_of_mem_drop (List.mem_of_mem_take hch))

/-- Each of the four fragments is complete. -/
theorem length_fragmentChars {s : Str} (h : s.length = IDENTITY_LENGTH) {i : Nat} (hi : i < 4) :
    (fragmentChars s i).length = 14 := by
  rw [fragmentChars, List.length_take, List.length_drop, h, IDENTITY_LENGTH]
  omega

/-- The fragments and the checksum are the whole string, nothing is left out. -/
theorem fragmentChars_join (s : Str) :
    fragmentChars s 0 ++ fragmentChars s 1 ++ fragmentChars s 2 ++ fragmentChars s 3 ++ s.drop 56
      = s := by
  simp only [fragmentChars, Nat.zero_mul, Nat.one_mul, Nat.reduceMul, List.append_assoc]
  rw [take_append_drop_add s 42 14, take_append_drop_add s 28 14, take_append_drop_add s 14 14,
    take_append_drop_add s 0 14, List.drop_zero]

/-- The fragments of an identity spell numbers of 64 bits. -/
def FragmentsFit (s : Str) : Prop := ∀ i < 4, fragmentValue (fragmentChars s i) < 2 ^ 64

/-- The key whose fragments are the numbers an identity spells, modulo `2 ^ 64`. -/
def keySpelled (s : Str) : Key32 :=
  let f := fun i => UInt64.ofNat (fragmentValue (fragmentChars s i))
  keyOfFragments (f 0) (f 1) (f 2) (f 3)

/-- Of sixty letters only the checksum decides: they denote the key they spell if they end in its
checksum, and nothing otherwise. -/
theorem decodeBase26_of_letters (c : Crates) {s : Str} (hlen : s.length = IDENTITY_LENGTH)
    (h : Letters s) :
    decodeBase26 c s
      = if s.drop 56 = computeChecksum c (keySpelled s) then some (keySpelled s) else none := by
  rw [decodeBase26, if_neg (not_not.mpr hlen)]
  simp only [decodeFragment_of_upper (fragmentChars_of_letters h _), Option.bind_eq_bind,
    Option.bind_some]
  rfl

/-- The checksum is written in letters. -/
theorem letters_computeChecksum (c : Crates) (key : Key32) : Letters (computeChecksum c key) := by
  intro ch hch
  obtain ⟨d, hd, rfl⟩ := List.mem_map.mp hch
  exact isAsciiUppercase_letter d (Positional.digits_lt (by decide) hd)

/-- So is every fragment. -/
theorem letters_encodeFragment (bytes : Bytes) : Letters (encodeFragment bytes) := by
  intro ch hch
  obtain ⟨d, hd, rfl⟩ := List.mem_map.mp hch
  exact isAsciiUppercase_letter d (Positional.digits_lt (by decide) hd)

theorem letters_append {s t : Str} (hs : Letters s) (ht : Letters t) : Letters (s ++ t) := by
  intro ch hch
  rcases List.mem_append.mp hch with h | h
  · exact hs ch h
  · exact ht ch h

theorem letters_encodeBase26 (c : Crates) (key : Key32) : Letters (encodeBase26 c key) :=
  letters_append (letters_append (letters_append (letters_append (letters_encodeFragment _)
    (letters_encodeFragment _)) (letters_encodeFragment _)) (letters_encodeFragment _))
    (letters_computeChecksum c key)

/-- What the decoder accepts is sixty letters, as it checks the length first and every character in
its loops. -/
theorem letters_of_decodeBase26 {c : Crates} {s : Str} {key : Key32}
    (h : decodeBase26 c s = some key) : s.length = IDENTITY_LENGTH ∧ Letters s := by
  unfold decodeBase26 at h
  split at h
  · cases h
  · next hlen =>
    simp only [Option.bind_eq_bind, Option.bind_eq_some_iff] at h
    obtain ⟨f0, h0, f1, h1, f2, h2, f3, h3, h⟩ := h
    split at h
    · next hchecksum =>
      refine ⟨not_not.mp hlen, ?_⟩
      rw [← fragmentChars_join s]
      refine letters_append (letters_append (letters_append (letters_append
        (upper_of_decodeFragment h0) (upper_of_decodeFragment h1)) (upper_of_decodeFragment h2))
        (upper_of_decodeFragment h3)) ?_
      rw [hchecksum]
      exact letters_computeChecksum c _
    · cases h

/-! ## The checked decoder on sixty letters

Where all four fragments fit 64 bits nothing overflows and the two builds agree. Where one does not
fit, the checked build panics before it comes to the checksum. -/

/-- Fragments that fit are decoded one after the other, none of them wrapped around. -/
theorem decodeFragmentsChecked_of_fit {l : List Str} (h : ∀ chars ∈ l, Letters chars)
    (hfit : ∀ chars ∈ l, fragmentValue chars < 2 ^ 64) :
    decodeFragmentsChecked l
      = .ok (some (l.map (fun chars => UInt64.ofNat (fragmentValue chars)))) := by
  induction l with
  | nil => rfl
  | cons chars l ih =>
    have hfirst := (decodeFragmentChecked_spec (h chars (by simp))).1 (hfit chars (by simp))
    have hrest := ih (fun x hx => h x (by simp [hx])) (fun x hx => hfit x (by simp [hx]))
    simp only [decodeFragmentsChecked, hfirst, hrest, List.map_cons]

/-- The first fragment that does not fit ends the loop with a panic. -/
theorem decodeFragmentsChecked_panics {l : List Str} (h : ∀ chars ∈ l, Letters chars)
    (hover : ∃ chars ∈ l, 2 ^ 64 ≤ fragmentValue chars) :
    ∃ what, decodeFragmentsChecked l = .error (.panic what) := by
  induction l with
  | nil => obtain ⟨_, h, -⟩ := hover; cases h
  | cons chars l ih =>
    obtain ⟨hok, hpanic⟩ := decodeFragmentChecked_spec (h chars (by simp))
    by_cases hfirst : fragmentValue chars < 2 ^ 64
    · -- the fragment that overflows comes later
      obtain ⟨x, hx, hge⟩ := hover
      have hx : x ∈ l := by
        rcases List.mem_cons.mp hx with rfl | hx
        · exact absurd hfirst (Nat.not_lt.mpr hge)
        · exact hx
      obtain ⟨what, hwhat⟩ := ih (fun y hy => h y (by simp [hy])) ⟨x, hx, hge⟩
      refine ⟨what, ?_⟩
      simp only [decodeFragmentsChecked, hok hfirst, hwhat]
    · obtain ⟨what, hwhat⟩ := hpanic (Nat.not_lt.mp hfirst)
      refine ⟨what, ?_⟩
      simp only [decodeFragmentsChecked, hwhat]

/-- The list of fragments, by their numbers. -/
theorem forall_fragments_iff {s : Str} {P : Str → Prop} :
    (∀ chars ∈ (List.range 4).map (fragmentChars s), P chars) ↔
      ∀ i < 4, P (fragmentChars s i) := by
  simp only [List.mem_map, List.mem_range, forall_exists_index, and_imp, forall_apply_eq_imp_iff₂]

/-- Letters whose fragments fit decode alike in both builds: what is spelled is then what is
computed. -/
theorem decodeBase26Checked_of_fit (c : Crates) {s : Str} (hlen : s.length = IDENTITY_LENGTH)
    (h : Letters s) (hfit : FragmentsFit s) :
    decodeBase26Checked c s = .ok (decodeBase26 c s) := by
  have hfragments := decodeFragmentsChecked_of_fit
    (forall_fragments_iff.mpr (fun i _ => fragmentChars_of_letters h i))
    (forall_fragments_iff.mpr hfit)
  rw [decodeBase26_of_letters c hlen h, decodeBase26Checked, if_neg (not_not.mpr hlen), hfragments]
  show (if s.drop 56 = computeChecksum c (keySpelled s) then _ else _) = _
  split <;> rfl

/-- Any other sixty letters make the checked build panic. -/
theorem decodeBase26Checked_panics (c : Crates) {s : Str} (hlen : s.length = IDENTITY_LENGTH)
    (h : Letters s) (hfit : ¬ FragmentsFit s) :
    ∃ what, decodeBase26Checked c s = .error (.panic what) := by
  have hover : ∃ chars ∈ (List.range 4).map (fragmentChars s), 2 ^ 64 ≤ fragmentValue chars := by
    by_contra hnone
    refine hfit (fun i hi => Nat.not_le.mp (fun hge => hnone ⟨fragmentChars s i, ?_, hge⟩))
    exact List.mem_map.mpr ⟨i, List.mem_range.mpr hi, rfl⟩
  obtain ⟨what, hwhat⟩ := decodeFragmentsChecked_panics
    (forall_fragments_iff.mpr (fun i _ => fragmentChars_of_letters h i)) hover
  refine ⟨what, ?_⟩
  rw [decodeBase26Checked, if_neg (not_not.mpr hlen), hwhat]

/-! ## Encoding what was decoded

A key spelled by fragments that fit 64 bits has these numbers as its four quarters, so encoding it
writes the same letters again. -/

/-- Each quarter of the key is the number of its fragment, in little-endian bytes. -/
theorem fragmentBytes_keyOfFragments (f0 f1 f2 f3 : UInt64) :
    fragmentBytes (keyOfFragments f0 f1 f2 f3).toList 0 = Positional.leBytes 8 f0.toNat ∧
      fragmentBytes (keyOfFragments f0 f1 f2 f3).toList 1 = Positional.leBytes 8 f1.toNat ∧
      fragmentBytes (keyOfFragments f0 f1 f2 f3).toList 2 = Positional.leBytes 8 f2.toNat ∧
      fragmentBytes (keyOfFragments f0 f1 f2 f3).toList 3 = Positional.leBytes 8 f3.toNat := by
  have hlist : (keyOfFragments f0 f1 f2 f3).toList = Positional.leBytes 8 f0.toNat ++
      Positional.leBytes 8 f1.toNat ++ Positional.leBytes 8 f2.toNat ++
      Positional.leBytes 8 f3.toNat := rfl
  simp only [hlist, fragmentBytes]
  refine ⟨?_, ?_, ?_, ?_⟩
  all_goals
    simp [List.drop_append, List.drop_of_length_le]

/-- Fourteen letters that spell a number of 64 bits are the encoding of that number. There are fewer
than `26 ^ 14` such numbers, so the fourteen digits determine them. -/
theorem encodeFragment_leBytes {chars : Str} (h : Letters chars) (hlen : chars.length = 14)
    (hfit : fragmentValue chars < 2 ^ 64) :
    encodeFragment (Positional.leBytes 8 (UInt64.ofNat (fragmentValue chars)).toNat) = chars := by
  have hdigits := Positional.digits_ofDigits (digits_lt_of_upper h)
  rw [List.length_map, hlen] at hdigits
  rw [encodeFragment, UInt64.toNat_ofNat_of_lt' hfit, Positional.ofLe_leBytes_of_lt hfit,
    fragmentValue, hdigits, map_letter_of_upper h]

/-- Hence encoding the key gives back the string, fragments and checksum. -/
theorem encodeBase26_keySpelled (c : Crates) {s : Str} (hlen : s.length = IDENTITY_LENGTH)
    (h : Letters s) (hfit : FragmentsFit s)
    (hchecksum : s.drop 56 = computeChecksum c (keySpelled s)) :
    encodeBase26 c (keySpelled s) = s := by
  have hfragment : ∀ i < 4, encodeFragment
      (Positional.leBytes 8 (UInt64.ofNat (fragmentValue (fragmentChars s i))).toNat)
        = fragmentChars s i :=
    fun i hi => encodeFragment_leBytes (fragmentChars_of_letters h i)
      (length_fragmentChars hlen hi) (hfit i hi)
  obtain ⟨h0, h1, h2, h3⟩ := fragmentBytes_keyOfFragments
    (UInt64.ofNat (fragmentValue (fragmentChars s 0)))
    (UInt64.ofNat (fragmentValue (fragmentChars s 1)))
    (UInt64.ofNat (fragmentValue (fragmentChars s 2)))
    (UInt64.ofNat (fragmentValue (fragmentChars s 3)))
  rw [encodeBase26, ← hchecksum]
  rw [keySpelled, h0, h1, h2, h3, hfragment 0 (by decide), hfragment 1 (by decide),
    hfragment 2 (by decide), hfragment 3 (by decide), fragmentChars_join]

/-! ## Round trip and canonical form -/

/-- The fragments of an encoded key fit: each spells the eight bytes it was made of. Fourteen digits
can spell more than that, but the digits of eight bytes do not. -/
theorem fragmentsFit_encodeBase26 (c : Crates) (key : Key32) :
    FragmentsFit (encodeBase26 c key) := by
  -- the letters of a fragment are the digits of its eight bytes, a number below `2 ^ 64`
  have hvalue : ∀ i < 4, fragmentValue (encodeFragment (fragmentBytes key.toList i)) < 2 ^ 64 := by
    intro i hi
    have hlt : Positional.ofLe (fragmentBytes key.toList i) < 2 ^ 64 := by
      have := Positional.ofLe_lt (fragmentBytes key.toList i)
      rwa [length_fragmentBytes key hi] at this
    have hmap : (encodeFragment (fragmentBytes key.toList i)).map (fun ch => (ch - 65).toNat)
        = Positional.digits 26 14 (Positional.ofLe (fragmentBytes key.toList i)) := by
      rw [encodeFragment, List.map_map]
      conv_rhs => rw [← List.map_id (Positional.digits 26 14 _)]
      refine List.map_congr_left (fun d hd => ?_)
      have hd26 : d < 26 := Positional.digits_lt (by decide) hd
      have := toNat_letter_sub d hd26
      rwa [UInt8.toNat_toUInt64] at this
    rw [fragmentValue, hmap, Positional.ofDigits_digits]
    exact Nat.lt_of_le_of_lt (Nat.mod_le _ _) hlt
  -- cutting the encoded key finds the four fragments again
  obtain ⟨h0, h1, h2, h3, -⟩ := fragmentChars_append (t := computeChecksum c key)
    (length_encodeFragment (fragmentBytes key.toList 0))
    (length_encodeFragment (fragmentBytes key.toList 1))
    (length_encodeFragment (fragmentBytes key.toList 2))
    (length_encodeFragment (fragmentBytes key.toList 3))
  intro i hi
  rw [encodeBase26]
  obtain rfl | rfl | rfl | rfl : i = 0 ∨ i = 1 ∨ i = 2 ∨ i = 3 := by omega
  · rw [h0]
    exact hvalue 0 (by decide)
  · rw [h1]
    exact hvalue 1 (by decide)
  · rw [h2]
    exact hvalue 2 (by decide)
  · rw [h3]
    exact hvalue 3 (by decide)

/-- **Identities round-trip.** An encoded key is sixty letters `A..Z`, decodes to the key, and
does so without overflow in a build that checks for it. -/
theorem identity_round_trip (c : Crates) (key : Key32) :
    (encodeBase26 c key).length = 60
    ∧ (∀ ch ∈ encodeBase26 c key, 65 ≤ ch ∧ ch ≤ 90)
    ∧ decodeBase26 c (encodeBase26 c key) = some key
    ∧ decodeBase26Checked c (encodeBase26 c key) = .ok (some key) := by
  have hlen := length_encodeBase26 c key
  have hletters := letters_encodeBase26 c key
  refine ⟨hlen, fun ch hch => ?_, decodeBase26_encodeBase26 c key, ?_⟩
  · exact of_decide_eq_true (hletters ch hch)
  · rw [decodeBase26Checked_of_fit c hlen hletters (fragmentsFit_encodeBase26 c key),
      decodeBase26_encodeBase26]

/-- A string denotes a key only if it is the key's identity, and sixty letters never overflow. -/
structure Canonical (c : Crates) (s : Str) : Prop where
  encode : ∀ key, decodeBase26 c s = some key → encodeBase26 c key = s
  noOverflow : s.length = 60 → Letters s → ∃ r, decodeBase26Checked c s = .ok r

/-- **When identities are canonical**: sixty letters are, exactly when their four fragments spell
numbers below `2 ^ 64`, and every other string is; two strings whose fragments fit never denote
one key. -/
theorem identity_canonical_iff (c : Crates) :
    (∀ s, Canonical c s ↔ (s.length = 60 → Letters s → FragmentsFit s))
    ∧ ∀ s s' key, FragmentsFit s → FragmentsFit s' → decodeBase26 c s = some key →
        decodeBase26 c s' = some key → s = s' := by
  -- what decodes from fitting fragments encodes to itself
  have hencode : ∀ {s key}, FragmentsFit s → decodeBase26 c s = some key →
      encodeBase26 c key = s := by
    intro s key hfit hkey
    obtain ⟨hlen, hletters⟩ := letters_of_decodeBase26 hkey
    rw [decodeBase26_of_letters c hlen hletters] at hkey
    split at hkey
    · next hchecksum =>
      cases hkey
      exact encodeBase26_keySpelled c hlen hletters hfit hchecksum
    · cases hkey
  refine ⟨fun s => ⟨fun hcanon hlen hletters => ?_, fun hfit => ⟨?_, ?_⟩⟩, ?_⟩
  · -- a fragment that does not fit panics in the checked build, which a canonical string does not
    by_contra hnot
    obtain ⟨r, hr⟩ := hcanon.noOverflow hlen hletters
    obtain ⟨what, hwhat⟩ := decodeBase26Checked_panics c hlen hletters hnot
    rw [hr] at hwhat
    cases hwhat
  · intro key hkey
    obtain ⟨hlen, hletters⟩ := letters_of_decodeBase26 hkey
    exact hencode (hfit hlen hletters) hkey
  · intro hlen hletters
    exact ⟨_, decodeBase26Checked_of_fit c hlen hletters (hfit hlen hletters)⟩
  · intro s s' key hs hs' hkey hkey'
    rw [← hencode hs hkey, hencode hs' hkey']

/-- The identity of the burn address with `2 ^ 64` in place of 0 as its first fragment. -/
def sampleOverflow : Str := ascii "QQMUYSXMZCXHLH" ++ List.replicate 42 65 ++ ascii "FXIB"

/-- It denotes the burn address, whose identity is another, and overflows a checked build. -/
theorem overflow_not_canonical :
    let c := Crates.ofKnown { k12 := [burnChecksum] }
    decodeBase26 c sampleOverflow = some zeroKey
    ∧ encodeBase26 c zeroKey = burnIdentity ∧ burnIdentity ≠ sampleOverflow
    ∧ decodeBase26 c burnIdentity = some zeroKey
    ∧ decodeBase26Checked c sampleOverflow
        = .error (.panic "attempt to add with overflow")
    ∧ ¬ Canonical c sampleOverflow := by
  intro c
  have hkey : decodeBase26 c sampleOverflow = some zeroKey := by decide +kernel
  have hburn : encodeBase26 c zeroKey = burnIdentity := by decide +kernel
  have hne : burnIdentity ≠ sampleOverflow := by decide +kernel
  refine ⟨hkey, hburn, hne, by decide +kernel, by decide +kernel, fun h => ?_⟩
  exact hne (hburn.symm.trans (h.encode zeroKey hkey))

end Qonduit

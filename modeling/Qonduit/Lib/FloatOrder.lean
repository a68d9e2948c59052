import Mathlib

/-!
# The order of floating-point numbers

`Float` is binary64 as Lean models it. Its comparison is a linear order of what is compared, except
for NaN, which is comparable with nothing; and NaN does not come from the operations a program
uses to divide and scale counters.

* **`compare_eq_key`** — the comparison of two numbers is that of their keys.
* **`IsNumber.div`**, **`IsNumber.mul`**, **`IsNonzero.add`** — operations that keep numbers.
* **`isNonzero_toFloat`** — a positive counter is a finite number other than zero.
-/

namespace FloatOrder

open Float.Model hiding pack unpack add mul div ofUInt32 ofNat ofInt
open Float.Model.UnpackedFloat

/-! ## Comparison

The comparison of the unpacked numbers is a table over their constructors and signs. It is that of a
key in a linear order, from which antisymmetry and transitivity follow without a walk through the
table. -/

/-- Sign and kind, then the exponent, then the mantissa; both turned around below zero. -/
def key : UnpackedFloat → Int ×ₗ Int ×ₗ Int
  | .infinity .negative => toLex (-2, toLex (0, 0))
  | .finite .negative m e _ => toLex (-1, toLex (-e, -m))
  | .zero _ => toLex (0, toLex (0, 0))
  | .finite .positive m e _ => toLex (1, toLex (e, m))
  | .infinity .positive => toLex (2, toLex (0, 0))
  | .notANumber => toLex (3, toLex (0, 0))

/-- Natural numbers compare as integers as they did before. -/
theorem compare_intCast (m n : Nat) : compare (m : Int) (n : Int) = compare m n := by
  simp only [compare, compareOfLessAndEq, Int.ofNat_lt, Int.ofNat_inj]

/-- Negation turns a comparison around, which is what the sign bit does to a number. -/
theorem compare_neg (m n : Int) : compare (-m) (-n) = (compare m n).swap := by
  rw [← Std.OrientedOrd.eq_swap]
  simp only [compare, compareOfLessAndEq, Int.neg_lt_neg_iff, Int.neg_inj, eq_comm]

/-- **Numbers are compared by their keys.** The cases are the classes of the two numbers, and for
two finite ones their signs, exponents and mantissas decide in this order. -/
theorem compare_eq_key {x y : UnpackedFloat} (hx : x ≠ .notANumber) (hy : y ≠ .notANumber) :
    x.compare y = some (compare (key x) (key y)) := by
  cases x with
  | notANumber => exact absurd rfl hx
  | infinity s =>
    cases y with
    | notANumber => exact absurd rfl hy
    | infinity s' => cases s <;> cases s' <;> rfl
    | zero s' => cases s <;> rfl
    | finite s' m e h => cases s <;> cases s' <;> rfl
  | zero s =>
    cases y with
    | notANumber => exact absurd rfl hy
    | infinity s' => cases s' <;> rfl
    | zero s' => rfl
    | finite s' m e h => cases s' <;> rfl
  | finite s m e h =>
    cases y with
    | notANumber => exact absurd rfl hy
    | infinity s' => cases s <;> cases s' <;> rfl
    | zero s' => cases s <;> rfl
    | finite s' m' e' h' =>
      cases s <;> cases s'
      · -- two negative numbers compare the other way round, exponents and mantissas alike
        show some _ = some ((compare (-e) (-e')).then (compare (-(m : Int)) (-(m' : Int))))
        rw [compare_neg, compare_neg, compare_intCast, Ordering.swap_then]
      · rfl
      · rfl
      · -- two positive ones by exponent first, as the mantissas are normalised
        show some _ = some ((compare e e').then (compare (m : Int) m'))
        rw [compare_intCast]

/-! ## Packed numbers

The all-ones exponent is that of the infinities and of the NaNs, the zero exponent that of the zeros
and of the numbers without a full mantissa. What is packed under any other exponent is a finite
number. -/

section Packing

variable {spec : Format} {s : Sign} {e : BitVec spec.exponentBits}
  {m : BitVec spec.mantissaBitsWithoutImplicit}

/-- Under an exponent that is neither all ones nor zero the unpacked number is finite. -/
theorem unpack_finite {b : BitVec spec.numBits} (hmax : unpackExponent b ≠ -1#_)
    (hmin : unpackExponent b ≠ 0#_) : ∃ s m e h, unpack spec b = .finite s m e h := by
  unfold unpack
  dsimp only
  rw [if_neg hmax, if_neg hmin]
  exact ⟨_, _, _, by simp, rfl⟩

/-- A packed number is no NaN if its mantissa vanishes whenever its exponent is all ones. -/
theorem unpack_ne {b : BitVec spec.numBits} (h : unpackExponent b = -1#_ → unpackMantissa b = 0#_) :
    unpack spec b ≠ .notANumber := by
  intro hnan
  by_cases hmax : unpackExponent b = -1#_
  · unfold unpack at hnan
    dsimp only at hnan
    rw [if_pos hmax, if_pos (h hmax)] at hnan
    cases hnan
  · by_cases hmin : unpackExponent b = 0#_
    · unfold unpack at hnan
      dsimp only at hnan
      rw [if_neg hmax, if_pos hmin] at hnan
      by_cases hzero : unpackMantissa b = 0#_
      · rw [dif_pos hzero] at hnan
        cases hnan
      · rw [dif_neg hzero] at hnan
        cases hnan
    · rcases unpack_finite hmax hmin with ⟨s, m, e, hm, hfinite⟩
      rw [hfinite] at hnan
      cases hnan

/-- The same of a number put together from its parts: the parts are read back as they were put
in. -/
theorem unpack_packComponents_ne (h : e = -1#_ → m = 0#_) :
    unpack spec (packComponents spec s e m) ≠ .notANumber := by
  refine unpack_ne ?_
  rw [unpackExponent_packComponents, unpackMantissa_packComponents]
  exact h

/-- Parts with an ordinary exponent make a finite number. -/
theorem unpack_packComponents_finite (hmax : e ≠ -1#_) (hmin : e ≠ 0#_) :
    ∃ s' m' e' h, unpack spec (packComponents spec s e m) = .finite s' m' e' h := by
  refine unpack_finite ?_ ?_
  · rw [unpackExponent_packComponents]
    exact hmax
  · rw [unpackExponent_packComponents]
    exact hmin

theorem zero_ne_max : (0#_ : BitVec spec.exponentBits) ≠ -1#_ := by
  have he := spec.he
  have hpos : 1 < 2 ^ spec.exponentBits := Nat.one_lt_two_pow (Nat.pos_iff_ne_zero.mp he)
  intro h
  have h := congrArg BitVec.toNat h
  rw [BitVec.neg_one_eq_allOnes, BitVec.toNat_allOnes] at h
  simp only [BitVec.toNat_ofNat, Nat.zero_mod] at h
  omega

/-- An exponent that leaves room for one more is not the all-ones one. -/
theorem ofNat_ne_max {n : Nat} (hn : n + 1 < 2 ^ spec.exponentBits) :
    BitVec.ofNat spec.exponentBits n ≠ -1#_ := by
  intro h
  have h := congrArg BitVec.toNat h
  rw [BitVec.neg_one_eq_allOnes, BitVec.toNat_allOnes, BitVec.toNat_ofNat,
    Nat.mod_eq_of_lt (by omega)] at h
  omega

/-- A positive exponent that fits is not the zero one. -/
theorem ofNat_ne_zero {n : Nat} (hn : n + 1 < 2 ^ spec.exponentBits) (hpos : 0 < n) :
    BitVec.ofNat spec.exponentBits n ≠ 0#_ := by
  intro h
  have h := congrArg BitVec.toNat h
  rw [BitVec.toNat_ofNat, BitVec.toNat_ofNat, Nat.mod_eq_of_lt (by omega), Nat.zero_mod] at h
  omega

/-- Packing a result makes no NaN of it: a finite number too large for the format becomes an
infinity, one too small a zero, and the mantissa is cleared in both cases. -/
theorem unpack_pack_ne {f : UnpackedFloat} (hf : f ≠ .notANumber) :
    unpack spec (pack spec f) ≠ .notANumber := by
  cases f with
  | notANumber => exact absurd rfl hf
  | infinity s => exact unpack_packComponents_ne (fun _ => rfl)
  | zero s => exact unpack_packComponents_ne (fun h => absurd h zero_ne_max)
  | finite s m e hm =>
    unfold pack
    dsimp only
    split
    · exact unpack_packComponents_ne (fun _ => rfl)
    · rename_i hexp
      split
      · exact unpack_packComponents_ne (fun h => absurd h (ofNat_ne_max (by omega)))
      · exact unpack_packComponents_ne (fun h => absurd h zero_ne_max)

/-- A normal number stays one: its exponent fits the field, so that it is neither rounded up to an
infinity nor down to a zero. -/
theorem unpack_pack_normal {s : Sign} {m : Nat} {e : Int} {hm : 0 < m} {n : Nat}
    (hfull : m.log2 + 1 = spec.mantissaBits) (hpos : 0 < n) (hmax : n + 1 < 2 ^ spec.exponentBits)
    (hexp : (e + spec.exponentBias + spec.mantissaBitsWithoutImplicit).toNat = n) :
    ∃ s' m' e' h, unpack spec (pack spec (.finite s m e hm)) = .finite s' m' e' h := by
  unfold pack
  dsimp only
  rw [hexp, if_neg (Nat.not_le.mpr hmax), if_pos hfull]
  exact unpack_packComponents_finite (ofNat_ne_max hmax) (ofNat_ne_zero hmax hpos)

end Packing

/-! ## Operations

None of the operations makes a NaN from operands that are numbers, as long as the right one is
finite and not zero. The invalid ones (zero by zero, infinity by infinity, infinities of opposite
signs) all have an operand that is excluded here. -/

section Operations

variable {spec : Format}

/-- Rounding ends in a finite number, a zero or an infinity. -/
theorem roundWithAccuracy_ne (s : Sign) (m : Nat) (e : Int) (a : Accuracy) :
    roundWithAccuracy spec s m e a ≠ .notANumber := by
  unfold roundWithAccuracy
  intro hnan
  dsimp only at hnan
  split at hnan <;> cases hnan

theorem normalize_ne (m e : Int) (s : Sign) : normalize spec m e s ≠ .notANumber := by
  unfold UnpackedFloat.normalize
  split
  · exact roundWithAccuracy_ne _ _ _ _
  · exact nofun
  · exact roundWithAccuracy_ne _ _ _ _

variable {x y : UnpackedFloat} {s : Sign} {m : Nat} {e : Int} {hm : 0 < m}

/-- Division by a finite number other than zero gives a number. -/
theorem div_ne (hx : x ≠ .notANumber) : div spec x (.finite s m e hm) ≠ .notANumber := by
  cases x with
  | notANumber => exact absurd rfl hx
  | infinity s' => exact nofun
  | zero s' => exact nofun
  | finite s' m' e' hm' => exact roundWithAccuracy_ne _ _ _ _

/-- So does multiplication by one: the invalid product is that of a zero and an infinity. -/
theorem mul_ne (hx : x ≠ .notANumber) : mul spec x (.finite s m e hm) ≠ .notANumber := by
  cases x with
  | notANumber => exact absurd rfl hx
  | infinity s' => exact nofun
  | zero s' => exact nofun
  | finite s' m' e' hm' => exact roundWithAccuracy_ne _ _ _ _

/-- So does addition to one: the invalid sum is that of two infinities. -/
theorem add_ne (hy : y ≠ .notANumber) : add spec (.finite s m e hm) y ≠ .notANumber := by
  cases y with
  | notANumber => exact absurd rfl hy
  | infinity s' => exact nofun
  | zero s' => exact nofun
  | finite s' m' e' hm' => exact normalize_ne _ _ _

end Operations

/-! ## Numbers -/

/-- Not NaN. -/
def IsNumber (x : Float) : Prop := x.toModel.unpack ≠ .notANumber

/-- A finite number other than zero. -/
def IsNonzero (x : Float) : Prop := ∃ s m e h, x.toModel.unpack = .finite s m e h

theorem IsNonzero.isNumber {x : Float} (h : IsNonzero x) : IsNumber x := by
  rcases h with ⟨s, m, e, hm, hx⟩
  rw [IsNumber, hx]
  exact nofun

/-- The quotient of packed numbers, from `div_ne` by unpacking and packing. -/
theorem IsNumber.div {x y : Float} (hx : IsNumber x) (hy : IsNonzero y) : IsNumber (x / y) := by
  rcases hy with ⟨s, m, e, hm, hy⟩
  refine unpack_pack_ne ?_
  rw [hy]
  exact div_ne hx

/-- The product of packed numbers, from `mul_ne` in the same way. -/
theorem IsNumber.mul {x y : Float} (hx : IsNumber x) (hy : IsNonzero y) : IsNumber (x * y) := by
  rcases hy with ⟨s, m, e, hm, hy⟩
  refine unpack_pack_ne ?_
  rw [hy]
  exact mul_ne hx

/-- The sum of packed numbers, from `add_ne` in the same way. -/
theorem IsNonzero.add {x y : Float} (hx : IsNonzero x) (hy : IsNumber y) : IsNumber (x + y) := by
  rcases hx with ⟨s, m, e, hm, hx⟩
  refine unpack_pack_ne ?_
  rw [hx]
  exact add_ne hy

/-! ## Counters

A counter of 32 bits has at most 32 binary digits, fewer than the 53 of a mantissa, so that
converting it neither rounds nor leaves the finite numbers. -/

/-- The conversion of a counter gives a number whatever its value, zero included. -/
theorem isNumber_toFloat (n : UInt32) : IsNumber n.toFloat := unpack_pack_ne (normalize_ne _ _ _)

/-- A mantissa that has its target exponent is kept. This is the case without rounding, the only one
that a counter meets. -/
theorem roundWithAccuracy_exact {spec : Format} {s : Sign} {m : Nat} {e : Int} (hm : 0 < m)
    (he : spec.targetExponent (totalExponent m e) = e) :
    roundWithAccuracy spec s m e .exact = .finite s m e hm := by
  have hshift : shiftToTargetExponent spec m e .exact = (⟨m, false, false⟩, e) := by
    unfold shiftToTargetExponent shiftToExponent
    dsimp only
    rw [he, Int.sub_self]
    show (_, e + 0) = _
    rw [Int.add_zero]
    rfl
  unfold roundWithAccuracy
  rw [hshift]
  dsimp only [ExtendedMantissa.roundedMantissa, ExtendedMantissa.accuracy,
    Accuracy.roundToNearestEven]
  rw [hshift]
  exact dif_neg hm.ne'

/-- Shifting a positive number to the left moves its leading digit by as many places. -/
theorem log2_mul_two_pow {n : Nat} (hn : n ≠ 0) (k : Nat) : (n * 2 ^ k).log2 = n.log2 + k := by
  induction k with
  | zero => rw [Nat.pow_zero, Nat.mul_one]; rfl
  | succ k ih =>
    have hne : n * 2 ^ k ≠ 0 := Nat.mul_ne_zero hn (Nat.two_pow_pos k).ne'
    have hdouble : n * 2 ^ (k + 1) = 2 * (n * 2 ^ k) := by
      rw [Nat.pow_succ, Nat.mul_comm 2, Nat.mul_assoc]
    rw [hdouble, Nat.log2_two_mul hne, ih]
    rfl

/-- Above the smallest exponents the target exponent of binary64 lies 53 below the total one, the
width of the mantissa. -/
theorem targetExponent_eq {t : Int} (ht : -1021 ≤ t) :
    Format.binary64.targetExponent t = t - 53 := by
  show max (t - 53) (-1074) = t - 53
  omega

/-- A counter of at most 53 bits is a finite number with a full mantissa. The rounding first shifts
the mantissa up to 53 digits, and there it already has its target exponent. -/
theorem round_natCast {n : Nat} (hn : n ≠ 0) (hlog : n.log2 ≤ 52) :
    ∃ m hm, m.log2 = 52 ∧
      round .binary64 .positive n 0 = .finite .positive m ((n.log2 : Int) - 52) hm := by
  -- the mantissa after the shift, which has its leading digit at place 52
  have hpos : 0 < n * 2 ^ (52 - n.log2) := Nat.mul_pos (Nat.pos_of_ne_zero hn) (Nat.two_pow_pos _)
  have hfull : (n * 2 ^ (52 - n.log2)).log2 = 52 := by
    rw [log2_mul_two_pow hn]
    omega
  have htarget : Format.binary64.targetExponent (totalExponent n 0) = (n.log2 : Int) - 52 := by
    rw [totalExponent, targetExponent_eq (by omega)]
    omega
  -- the shift only moves places from the exponent to the mantissa
  have hdecrease : decreaseExponent n 0 ((n.log2 : Int) - 52)
      = (n * 2 ^ (52 - n.log2), (n.log2 : Int) - 52) := by
    have hshift : (0 - ((n.log2 : Int) - 52)).toNat = 52 - n.log2 := by omega
    unfold decreaseExponent
    dsimp only
    rw [hshift, Nat.shiftLeft_eq]
    refine Prod.ext rfl ?_
    show (0 : Int) - ((52 - n.log2 : Nat) : Int) = _
    omega
  refine ⟨n * 2 ^ (52 - n.log2), hpos, hfull, ?_⟩
  unfold UnpackedFloat.round
  dsimp only
  rw [htarget, hdecrease]
  refine roundWithAccuracy_exact hpos ?_
  rw [totalExponent, hfull, targetExponent_eq (by omega)]
  omega

/-- **A positive counter** is a finite number other than zero. The conversion rounds, but rounding
keeps the leading bit. -/
theorem isNonzero_toFloat {n : UInt32} (hn : n ≠ 0) : IsNonzero n.toFloat := by
  have hne : n.toNat ≠ 0 := fun h => hn (UInt32.toNat_inj.mp h)
  have hlog : n.toNat.log2 < 32 := (Nat.log2_lt hne).mpr n.toNat_lt
  rcases round_natCast hne (by omega) with ⟨m, hm, hfull, hround⟩
  have hof : ofUInt32 .binary64 n = .finite .positive m ((n.toNat.log2 : Int) - 52) hm := by
    have hgt : compare (n.toNat : Int) 0 = .gt := by
      rw [compare_gt_iff_gt]
      omega
    unfold ofUInt32 ofNat ofInt UnpackedFloat.normalize
    rw [hgt]
    exact hround
  show ∃ s m e h, unpack .binary64 (pack .binary64 (ofUInt32 .binary64 n)) = .finite s m e h
  rw [hof]
  have hbias : Format.binary64.exponentBias = 1023 := by decide
  refine unpack_pack_normal (by rw [hfull]; decide) (n := n.toNat.log2 + 1023) ?_ ?_ ?_
  · omega
  · simp only
    omega
  · rw [hbias]
    simp only
    omega

end FloatOrder

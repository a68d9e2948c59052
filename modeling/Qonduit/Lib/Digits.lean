import Mathlib.Data.Nat.Digits.Lemmas
import Mathlib.Tactic.Ring

/-!
# Fixed-width positional notation

A natural number written with exactly `w` digits in base `b`, least significant digit
first, and the byte strings that are the case `b = 256`: little-endian (`leBytes`) and
big-endian (`beBytes`). Reading back is Mathlib's `Nat.ofDigits`.

* **`ofDigits_digits`** — writing then reading keeps the number modulo `b ^ w`.
* **`digits_ofDigits`** — reading then writing keeps the digits.
* **`compare_beBytes`** — big-endian strings of one width compare, byte by byte from the
  left, exactly as the numbers they spell. This is what makes a big-endian key sort
  numerically in an ordered map.
-/

namespace Positional

/-- The `w` base-`b` digits of `n`, least significant first; higher digits are dropped. -/
def digits (b : Nat) : Nat → Nat → List Nat
  | 0, _ => []
  | w + 1, n => n % b :: digits b w (n / b)

@[simp] theorem length_digits (b w n : Nat) : (digits b w n).length = w := by
  induction w generalizing n with
  | zero => rfl
  | succ w ih => simp [digits, ih]

/-- Every digit is below the base, also those that pad the number to its width. -/
theorem digits_lt {b w n d : Nat} (hb : 0 < b) (hd : d ∈ digits b w n) : d < b := by
  induction w generalizing n with
  | zero => simp [digits] at hd
  | succ w ih =>
    rcases List.mem_cons.mp hd with rfl | hd
    · exact Nat.mod_lt _ hb
    · exact ih hd

/-- Reading the digits back gives the number modulo what the width can hold: the digits above it are
cut off, not an error. -/
theorem ofDigits_digits (b w n : Nat) : Nat.ofDigits b (digits b w n) = n % b ^ w := by
  induction w generalizing n with
  | zero => simp [digits, Nat.mod_one]
  | succ w ih =>
    rw [digits, Nat.ofDigits_cons, ih, pow_succ', Nat.mod_mul]

/-- Digits below the base are determined by the number they spell and their count. With
`ofDigits_digits` the two functions are inverse up to the width. -/
theorem digits_ofDigits {b : Nat} {l : List Nat} (hl : ∀ d ∈ l, d < b) :
    digits b l.length (Nat.ofDigits b l) = l := by
  induction l with
  | nil => rfl
  | cons d l ih =>
    have hd : d < b := hl d (by simp)
    have hb : 0 < b := by omega
    have hmod : (d + b * Nat.ofDigits b l) % b = d := by
      rw [Nat.add_mul_mod_self_left, Nat.mod_eq_of_lt hd]
    have hdiv : (d + b * Nat.ofDigits b l) / b = Nat.ofDigits b l := by
      rw [Nat.add_mul_div_left _ _ hb, Nat.div_eq_of_lt hd, Nat.zero_add]
    rw [Nat.ofDigits_cons, List.length_cons, digits]
    simp only [hmod, hdiv]
    rw [ih (fun e he => hl e (by simp [he]))]

/-! ## Byte strings -/

def leBytes (w n : Nat) : List UInt8 :=
  (digits 256 w n).map UInt8.ofNat

def ofLe (bs : List UInt8) : Nat :=
  Nat.ofDigits 256 (bs.map UInt8.toNat)

def beBytes (w n : Nat) : List UInt8 :=
  (leBytes w n).reverse

def ofBe (bs : List UInt8) : Nat :=
  ofLe bs.reverse

@[simp] theorem length_leBytes (w n : Nat) : (leBytes w n).length = w := by
  simp [leBytes]

@[simp] theorem length_beBytes (w n : Nat) : (beBytes w n).length = w := by
  simp [beBytes]

/-- A byte string is a list of digits to base 256, so the facts about digits carry over to it. -/
theorem map_toNat_leBytes (w n : Nat) : (leBytes w n).map UInt8.toNat = digits 256 w n := by
  rw [leBytes, List.map_map]
  conv_rhs => rw [← List.map_id (digits 256 w n)]
  apply List.map_congr_left
  intro d hd
  have hlt : d < 256 := digits_lt (by decide) hd
  simp [UInt8.toNat_ofNat', Nat.mod_eq_of_lt hlt]

theorem ofLe_leBytes (w n : Nat) : ofLe (leBytes w n) = n % 256 ^ w := by
  rw [ofLe, map_toNat_leBytes, ofDigits_digits]

/-- A number that fits the width is read back as it is. -/
theorem ofLe_leBytes_of_lt {w n : Nat} (h : n < 256 ^ w) : ofLe (leBytes w n) = n := by
  rw [ofLe_leBytes, Nat.mod_eq_of_lt h]

/-- Every byte string is the one of the number it spells, at its own length: fields of fixed width
lose nothing on the way through a number. -/
theorem leBytes_ofLe (bs : List UInt8) : leBytes bs.length (ofLe bs) = bs := by
  have hlt : ∀ d ∈ bs.map UInt8.toNat, d < 256 := by
    intro d hd
    obtain ⟨u, -, rfl⟩ := List.mem_map.mp hd
    exact u.toNat_lt
  have h := digits_ofDigits hlt
  rw [List.length_map] at h
  rw [leBytes, ofLe, h, List.map_map]
  conv_rhs => rw [← List.map_id bs]
  apply List.map_congr_left
  intro u _
  simp

theorem ofLe_lt (bs : List UInt8) : ofLe bs < 256 ^ bs.length := by
  have h := ofLe_leBytes bs.length (ofLe bs)
  rw [leBytes_ofLe] at h
  rw [h]
  exact Nat.mod_lt _ (by positivity)

/-- The same from the other end. Big-endian strings are the reversed little-endian ones, so each
fact about them is one about those. -/
theorem ofBe_beBytes_of_lt {w n : Nat} (h : n < 256 ^ w) : ofBe (beBytes w n) = n := by
  rw [ofBe, beBytes, List.reverse_reverse, ofLe_leBytes_of_lt h]

theorem beBytes_ofBe (bs : List UInt8) : beBytes bs.length (ofBe bs) = bs := by
  have h := leBytes_ofLe bs.reverse
  rw [List.length_reverse] at h
  rw [beBytes, ofBe, h, List.reverse_reverse]

/-- Two numbers that fit the width have different strings. Keys of fixed width therefore never
meet. -/
theorem beBytes_injOn {w m n : Nat} (hm : m < 256 ^ w) (hn : n < 256 ^ w)
    (h : beBytes w m = beBytes w n) : m = n := by
  have := congrArg ofBe h
  rwa [ofBe_beBytes_of_lt hm, ofBe_beBytes_of_lt hn] at this

/-- One byte more at the end holds the remainder by 256, which is the step of the induction for the
order of keys. -/
theorem beBytes_succ (w n : Nat) :
    beBytes (w + 1) n = beBytes w (n / 256) ++ [UInt8.ofNat (n % 256)] := by
  simp [beBytes, leBytes, digits]

/-- The digits of a number are those of its quotient and its remainder by a power of the base. -/
theorem beBytes_append (a b x y : Nat) (hy : y < 256 ^ b) :
    beBytes a x ++ beBytes b y = beBytes (a + b) (x * 256 ^ b + y) := by
  induction b generalizing y with
  | zero =>
    have hy' : y = 0 := by simpa using hy
    simp [hy', beBytes, leBytes, digits]
  | succ b ih =>
    have hsplit : x * 256 ^ (b + 1) + y = 256 * (x * 256 ^ b) + y := by
      rw [pow_succ, ← Nat.mul_assoc, Nat.mul_comm]
    have hdiv : (x * 256 ^ (b + 1) + y) / 256 = x * 256 ^ b + y / 256 := by
      rw [hsplit]
      omega
    have hmod : (x * 256 ^ (b + 1) + y) % 256 = y % 256 := by
      rw [hsplit]
      omega
    have hy' : y / 256 < 256 ^ b := by
      rw [pow_succ] at hy
      omega
    rw [← Nat.add_assoc, beBytes_succ, beBytes_succ, ← List.append_assoc, ih _ hy', hdiv, hmod]

/-! ## Lexicographic order

Strings whose heads have one length compare by the heads first and by the tails only when the heads
are equal. For the digits of two numbers that is how the numbers themselves compare, which is why a
database that sorts big-endian keys as byte strings sorts them as numbers. -/

/-- The comparison of two strings with heads of one length is decided by the heads unless they are
equal. The lengths matter: a head that is a beginning of the other would let the tail decide too
early. -/
theorem compare_append_of_length_eq {p q : List UInt8} (h : p.length = q.length)
    (a b : List UInt8) : compare (p ++ a) (q ++ b) = (compare p q).then (compare a b) := by
  induction p generalizing q with
  | nil =>
    cases q with
    | nil => simp
    | cons y q => simp at h
  | cons x p ih =>
    cases q with
    | nil => simp at h
    | cons y q =>
      have hlen : p.length = q.length := by simpa using h
      have hcons : ∀ (u v : UInt8) (us vs : List UInt8),
          compare (u :: us) (v :: vs) = (compare u v).then (compare us vs) :=
        fun u v us vs => List.compareLex_cons_cons
      rw [List.cons_append, List.cons_append, hcons, hcons, ih hlen, Ordering.then_assoc]

/-- Two numbers compare as their quotients by 256 do, and as their remainders where these are
equal. -/
theorem compare_eq_then_div_mod (m n : Nat) :
    compare m n = (compare (m / 256) (n / 256)).then (compare (m % 256) (n % 256)) := by
  have hm := Nat.div_add_mod m 256
  have hn := Nat.div_add_mod n 256
  rcases Nat.lt_trichotomy (m / 256) (n / 256) with h | h | h
  · rw [Nat.compare_eq_lt.mpr h, Nat.compare_eq_lt.mpr (by omega)]; rfl
  · rw [Nat.compare_eq_eq.mpr h, Ordering.then]
    rcases Nat.lt_trichotomy (m % 256) (n % 256) with h' | h' | h'
    · rw [Nat.compare_eq_lt.mpr h', Nat.compare_eq_lt.mpr (by omega)]
    · rw [Nat.compare_eq_eq.mpr h', Nat.compare_eq_eq.mpr (by omega)]
    · rw [Nat.compare_eq_gt.mpr h', Nat.compare_eq_gt.mpr (by omega)]
  · rw [Nat.compare_eq_gt.mpr h, Nat.compare_eq_gt.mpr (by omega)]; rfl

theorem compare_singleton_ofNat {a b : Nat} (ha : a < 256) (hb : b < 256) :
    compare [UInt8.ofNat a] [UInt8.ofNat b] = compare a b := by
  have h : compare [UInt8.ofNat a] [UInt8.ofNat b]
      = (compare (UInt8.ofNat a) (UInt8.ofNat b)).then (compare ([] : List UInt8) []) :=
    List.compareLex_cons_cons
  have ha' : (UInt8.ofNat a).toNat = a := UInt8.toNat_ofNat_of_lt ha
  have hb' : (UInt8.ofNat b).toNat = b := UInt8.toNat_ofNat_of_lt hb
  rw [h, show compare ([] : List UInt8) [] = .eq from rfl, Ordering.then_eq]
  simp only [compare, compareOfLessAndEq, UInt8.lt_iff_toNat_lt, ← UInt8.toNat_inj, ha', hb']

/-- Big-endian strings of one width sort as the numbers they spell. -/
theorem compare_beBytes {w m n : Nat} (hm : m < 256 ^ w) (hn : n < 256 ^ w) :
    compare (beBytes w m) (beBytes w n) = compare m n := by
  induction w generalizing m n with
  | zero =>
    have hm' : m = 0 := by simpa using hm
    have hn' : n = 0 := by simpa using hn
    subst hm' hn'
    rfl
  | succ w ih =>
    have hmd : m / 256 < 256 ^ w := by
      rw [pow_succ] at hm; omega
    have hnd : n / 256 < 256 ^ w := by
      rw [pow_succ] at hn; omega
    rw [beBytes_succ, beBytes_succ, compare_append_of_length_eq (by simp), ih hmd hnd,
      compare_singleton_ofNat (Nat.mod_lt _ (by decide)) (Nat.mod_lt _ (by decide)),
      ← compare_eq_then_div_mod]

end Positional

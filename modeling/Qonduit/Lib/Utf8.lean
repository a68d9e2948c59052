import Mathlib.Data.List.TakeWhile
import Mathlib.Data.UInt
import Mathlib.Tactic.Common

/-!
# UTF-8

Well-formed texts by the table of byte sequences of the Unicode standard, and the lossy reading that
makes a text of any bytes: what does not belong to a character is replaced by U+FFFD, once for each
longest beginning of a character that breaks off.

* **`wellFormed_lossy`** — the lossy reading is well-formed.
* **`lossy_of_wellFormed`** — it leaves a well-formed text as it is.
-/

namespace Utf8

/-- The length of a character, by its first byte; no character begins with some bytes. -/
def width (lead : UInt8) : Nat :=
  if lead < 0x80 then 1
  else if 0xC2 ≤ lead ∧ lead ≤ 0xDF then 2
  else if 0xE0 ≤ lead ∧ lead ≤ 0xEF then 3
  else if 0xF0 ≤ lead ∧ lead ≤ 0xF4 then 4
  else 0

def isTail (b : UInt8) : Bool := 0x80 ≤ b ∧ b ≤ 0xBF

/-- The bytes that may follow a first byte: neither overlong forms nor surrogates, and nothing
beyond U+10FFFF. -/
def isSecond (lead b : UInt8) : Bool :=
  if lead = 0xE0 then 0xA0 ≤ b ∧ b ≤ 0xBF
  else if lead = 0xED then 0x80 ≤ b ∧ b ≤ 0x9F
  else if lead = 0xF0 then 0x90 ≤ b ∧ b ≤ 0xBF
  else if lead = 0xF4 then 0x80 ≤ b ∧ b ≤ 0x8F
  else isTail b

/-- The bytes after the first that belong to its character. -/
def tailOf (lead : UInt8) : List UInt8 → List UInt8
  | [] => []
  | b :: rest =>
    if 2 ≤ width lead ∧ isSecond lead b then b :: (rest.take (width lead - 2)).takeWhile isTail
    else []

def replacement : List UInt8 := [0xEF, 0xBF, 0xBD]

/-- `String::from_utf8_lossy`. -/
def lossy : List UInt8 → List UInt8
  | [] => []
  | lead :: rest =>
    let tail := tailOf lead rest
    (if tail.length + 1 = width lead then lead :: tail else replacement)
      ++ lossy (rest.drop tail.length)
  termination_by bs => bs.length
  decreasing_by
    rw [List.length_drop, List.length_cons]
    omega

/-! ## Characters

A character is its first byte, which tells how many bytes follow, and that many tail bytes, the
first of which may be restricted further. A text is well-formed if it comes apart into
characters. -/

/-- The bytes of one character. -/
def IsChar (bs : List UInt8) : Prop :=
  ∃ lead tail, bs = lead :: tail ∧ tail.length + 1 = width lead ∧
    (∀ b ∈ tail.head?, isSecond lead b) ∧ ∀ b ∈ tail.tail, isTail b

/-- A text is a sequence of characters. -/
def WellFormed (bs : List UInt8) : Prop := ∃ chars : List (List UInt8),
  (∀ char ∈ chars, IsChar char) ∧ bs = chars.flatten

theorem wellFormed_nil : WellFormed [] := ⟨[], by simp, rfl⟩

/-- A character in front of a text makes a text. -/
theorem WellFormed.cons {char bs : List UInt8} (hchar : IsChar char) (h : WellFormed bs) :
    WellFormed (char ++ bs) := by
  obtain ⟨chars, hchars, rfl⟩ := h
  refine ⟨char :: chars, fun other hother => ?_, rfl⟩
  rcases List.mem_cons.mp hother with rfl | hother
  · exact hchar
  · exact hchars other hother

/-- The replacement character is one, in three bytes. -/
theorem isChar_replacement : IsChar replacement := by
  refine ⟨0xEF, [0xBF, 0xBD], rfl, by decide, ?_, ?_⟩
  · simp [isSecond, isTail]
  · simp [isTail]

/-- Bytes below 128 are characters. -/
theorem isChar_singleton {b : UInt8} (h : b < 0x80) : IsChar [b] := by
  refine ⟨b, [], rfl, ?_, by simp, by simp⟩
  rw [width, if_pos h]
  rfl

/-- So ASCII is well-formed. -/
theorem wellFormed_of_lt {bs : List UInt8} (h : ∀ b ∈ bs, b < 0x80) : WellFormed bs := by
  induction bs with
  | nil => exact wellFormed_nil
  | cons b bs ih =>
    have hb : IsChar [b] := isChar_singleton (h b (List.mem_cons_self ..))
    exact WellFormed.cons hb (ih (fun b' hb' => h b' (List.mem_cons_of_mem _ hb')))

/-- What belongs to a first byte makes a character where its length is right. It never is too long,
as only as many bytes are looked at. -/
theorem isChar_of_tailOf {lead : UInt8} {rest : List UInt8}
    (h : (tailOf lead rest).length + 1 = width lead) : IsChar (lead :: tailOf lead rest) := by
  refine ⟨lead, tailOf lead rest, rfl, h, ?_, ?_⟩
  · cases rest with
    | nil => simp [tailOf]
    | cons b rest =>
      rw [tailOf]
      split
      · next hsecond => simpa using hsecond.2
      · simp
  · cases rest with
    | nil => simp [tailOf]
    | cons b rest =>
      rw [tailOf]
      split
      · intro x hx
        exact List.mem_takeWhile_imp hx
      · simp

/-- The bytes of a character belong to its first byte, whatever follows them. Reading on takes just
these, since the first byte tells their number. -/
theorem tailOf_append {lead : UInt8} {tail : List UInt8} (h : IsChar (lead :: tail))
    (rest : List UInt8) : tailOf lead (tail ++ rest) = tail := by
  obtain ⟨lead', tail', heq, hlength, hsecond, htail⟩ := h
  obtain ⟨rfl, rfl⟩ := List.cons.inj heq
  cases tail with
  -- a character of one byte: nothing that follows belongs to it
  | nil =>
    have hwidth : ¬2 ≤ width lead := by
      rw [← hlength]
      decide
    cases rest with
    | nil => rfl
    | cons b rest => exact if_neg (fun h => hwidth h.1)
  | cons b tail =>
    -- a longer one: its second byte passes, and so do the others
    have hb : isSecond lead b := hsecond b rfl
    have htail : ∀ x ∈ tail, isTail x := htail
    have hwidth : width lead - 2 = tail.length := by
      rw [← hlength, List.length_cons]
      omega
    have htwo : 2 ≤ width lead := by
      rw [← hlength, List.length_cons]
      omega
    show (if _ then b :: ((tail ++ rest).take _).takeWhile isTail else []) = _
    rw [if_pos ⟨htwo, hb⟩, hwidth, List.take_left, List.takeWhile_eq_self_iff.mpr htail]

/-! ## Lossy reading -/

/-- One step of the reading: the bytes that belong to the first one are taken together with it, and
are replaced as a whole if there are too few. -/
theorem lossy_cons (lead : UInt8) (rest : List UInt8) :
    lossy (lead :: rest)
      = (if (tailOf lead rest).length + 1 = width lead then lead :: tailOf lead rest
          else replacement) ++ lossy (rest.drop (tailOf lead rest).length) := by
  rw [lossy]

/-- **The lossy reading of any bytes is well-formed.** Every step puts down a character, the one it
found or the replacement. -/
theorem wellFormed_lossy (bs : List UInt8) : WellFormed (lossy bs) := by
  induction bs using lossy.induct with
  | case1 =>
    rw [lossy]
    exact wellFormed_nil
  | case2 lead rest tail ih =>
    rw [lossy_cons]
    refine WellFormed.cons ?_ ih
    split
    · next h => exact isChar_of_tailOf h
    · exact isChar_replacement

/-- **A well-formed text is read as it is**: each step finds the whole of the next character. -/
theorem lossy_of_wellFormed {bs : List UInt8} (h : WellFormed bs) : lossy bs = bs := by
  obtain ⟨chars, hchars, rfl⟩ := h
  induction chars with
  | nil =>
    rw [List.flatten_nil, lossy]
  | cons char chars ih =>
    have hchar : IsChar char := hchars char (List.mem_cons_self ..)
    have ih := ih (fun other hother => hchars other (List.mem_cons_of_mem _ hother))
    obtain ⟨lead, tail, rfl, hlength, -, -⟩ := id hchar
    rw [List.flatten_cons, List.cons_append, lossy_cons, tailOf_append hchar, if_pos hlength,
      List.drop_left, ih]
    rfl

end Utf8

import Qonduit.Lib.Layout

/-!
# Streams of self-delimiting records

A relation `Rec p e q` says that the record of `e` starts at position `p` of a stream and ends at
`q`. A reader that takes one record after the other, until it stands where no record starts, finds
a *tiling*. Where a position decides its record, there is only one such tiling, and every other
tiling from the same position is a prefix of it.

* **`Tiles.prefix_of_stuck`** — the tiling that ends where no record starts is the longest.
* **`Tiles.unique`** — two tilings that end where no record starts hold the same records.
* **`Tiles.of_encodings`** — a stream written as a concatenation of encoded records is tiled by
  them.
-/

namespace Tiling

variable {P E : Type*}

/-- The records `es` lie one behind the other from `p` to `r`. -/
inductive Tiles (Rec : P → E → P → Prop) : P → List E → P → Prop
  | nil (p : P) : Tiles Rec p [] p
  | cons {p q r : P} {e : E} {es : List E} (head : Rec p e q) (rest : Tiles Rec q es r) :
      Tiles Rec p (e :: es) r

/-- No record starts at `p`. -/
def Stuck (Rec : P → E → P → Prop) (p : P) : Prop := ∀ e q, ¬Rec p e q

/-- A position decides the record that starts there, and where it ends. -/
structure SelfDelimiting (Rec : P → E → P → Prop) : Prop where
  event {p : P} {e e' : E} {q q' : P} : Rec p e q → Rec p e' q' → e = e'
  stop {p : P} {e e' : E} {q q' : P} : Rec p e q → Rec p e' q' → q = q'

variable {Rec : P → E → P → Prop} {p r r' : P} {es es' : List E}

namespace Tiles

/-- The tiling that ends where no record starts is the longest: any other one that begins at the
same place is a beginning of it. -/
theorem prefix_of_stuck (hself : SelfDelimiting Rec) (h : Tiles Rec p es r)
    (hstuck : Stuck Rec r) (h' : Tiles Rec p es' r') : es' <+: es := by
  induction h generalizing es' with
  | nil p =>
    cases h' with
    | nil => exact List.prefix_refl []
    | cons head' _ => exact absurd head' (hstuck _ _)
  | cons head _ ih =>
    cases h' with
    | nil => exact List.nil_prefix
    | cons head' rest' =>
      obtain rfl := hself.event head head'
      obtain rfl := hself.stop head head'
      exact List.prefix_cons_inj _ |>.mpr (ih hstuck rest')

/-- Two tilings that end where no record starts hold the same records, each being a beginning of the
other. -/
theorem unique (hself : SelfDelimiting Rec) (h : Tiles Rec p es r) (hstuck : Stuck Rec r)
    (h' : Tiles Rec p es' r') (hstuck' : Stuck Rec r') : es = es' := by
  have hle : es' <+: es := h.prefix_of_stuck hself hstuck h'
  have hge : es <+: es' := h'.prefix_of_stuck hself hstuck' h
  exact hge.eq_of_length_le hle.length_le

end Tiles

/-! ## Streams of encoded records -/

section Encodings

variable {B X : Type*} {w : List B} {Rec : Nat → E → Nat → Prop} {enc : X → List B} {val : X → E}

/-- A stream written as a concatenation of encoded records is tiled by them, when each record is
read where its encoding stands. -/
theorem Tiles.of_encodings {xs : List X} {off : Nat}
    (hrec : ∀ x ∈ xs, ∀ o, Layout.At w o (enc x) → Rec o (val x) (o + (enc x).length))
    (h : Layout.At w off (xs.flatMap enc)) :
    Tiles Rec off (xs.map val) (off + (xs.flatMap enc).length) := by
  induction xs generalizing off with
  | nil => exact .nil off
  | cons x xs ih =>
    rw [List.flatMap_cons] at h ⊢
    have hx : Layout.At w off (enc x) := h.left
    have hxs : Layout.At w (off + (enc x).length) (xs.flatMap enc) := h.right
    have htail := ih (fun y hy => hrec y (List.mem_cons_of_mem x hy)) hxs
    rw [Nat.add_assoc, ← List.length_append] at htail
    exact .cons (hrec x List.mem_cons_self off hx) htail

end Encodings

end Tiling

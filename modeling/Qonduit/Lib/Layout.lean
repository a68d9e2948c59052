import Mathlib.Algebra.GroupWithZero.Nat
import Mathlib.Data.List.Basic
import Mathlib.Tactic.Common

/-!
# Fields of a byte layout

A record is laid out as the concatenation of its fields. `At w off f` says that the field `f`
stands at offset `off` of `w`; a reader that slices `w` there gets `f`, whatever follows.

* **`At.flatten`** — a field of a record stands behind the fields before it.
* **`At.item`** — an item of an array of equal-sized items stands at a multiple of their size.
* **`At.trans`** — a field of a field.
-/

namespace Layout

variable {B X : Type*}

/-- The field `f` stands at offset `off`. -/
def At (w : List B) (off : Nat) (f : List B) : Prop :=
  ∃ pre post, w = pre ++ (f ++ post) ∧ pre.length = off

variable {w f g : List B} {off off' : Nat}

/-- A field lies within the record. -/
theorem At.le_length (h : At w off f) : off + f.length ≤ w.length := by
  obtain ⟨pre, post, rfl, rfl⟩ := h
  simp only [List.length_append]
  omega

/-- Slicing the record at the offset of a field, by its length, gives the field. -/
theorem At.slice_eq (h : At w off f) : (w.drop off).take f.length = f := by
  obtain ⟨pre, post, rfl, rfl⟩ := h
  rw [List.drop_left, List.take_left]

theorem At.append (h : At w off f) (t : List B) : At (w ++ t) off f := by
  obtain ⟨pre, post, rfl, rfl⟩ := h
  exact ⟨pre, post ++ t, by simp only [List.append_assoc], rfl⟩

/-- A field of a field is a field of the record, at the sum of the offsets. -/
theorem At.trans (h : At w off f) (h' : At f off' g) : At w (off + off') g := by
  obtain ⟨pre, post, rfl, rfl⟩ := h
  obtain ⟨pre', post', rfl, rfl⟩ := h'
  refine ⟨pre ++ pre', post' ++ post, ?_, List.length_append⟩
  simp only [List.append_assoc]

/-- The first part of a field in two parts. -/
theorem At.left (h : At w off (f ++ g)) : At w off f := by
  obtain ⟨pre, post, rfl, rfl⟩ := h
  exact ⟨pre, g ++ post, by simp only [List.append_assoc], rfl⟩

/-- The second part of a field in two parts. -/
theorem At.right (h : At w off (f ++ g)) : At w (off + f.length) g := by
  obtain ⟨pre, post, rfl, rfl⟩ := h
  exact ⟨pre ++ f, post, by simp only [List.append_assoc], List.length_append⟩

/-- A field of a record stands behind the fields before it, so its offset is the sum of their
lengths. -/
theorem At.flatten {fields : List (List B)} {i : Nat} (h : fields[i]? = some f)
    (hoff : ((fields.take i).map List.length).sum = off) : At fields.flatten off f := by
  subst hoff
  obtain ⟨hi, rfl⟩ := List.getElem?_eq_some_iff.mp h
  refine ⟨(fields.take i).flatten, (fields.drop (i + 1)).flatten, ?_, List.length_flatten⟩
  rw [← List.flatten_cons, ← List.drop_eq_getElem_cons hi, ← List.flatten_append,
    List.take_append_drop]

section Items

variable {items : List X} {enc : X → List B} {size : Nat}

/-- The items of an array all have the same length, which is what its offsets are computed from. -/
theorem map_length_items (hsize : ∀ x ∈ items, (enc x).length = size) :
    (items.map enc).map List.length = List.replicate items.length size := by
  refine List.eq_replicate_iff.mpr ⟨by simp only [List.length_map], ?_⟩
  intro n hn
  rw [List.map_map] at hn
  obtain ⟨x, hx, rfl⟩ := List.mem_map.mp hn
  exact hsize x hx

theorem length_items (hsize : ∀ x ∈ items, (enc x).length = size) :
    (items.flatMap enc).length = items.length * size := by
  show (items.map enc).flatten.length = _
  rw [List.length_flatten, map_length_items hsize, List.sum_replicate_nat]

/-- An item of an array stands at a multiple of the item size. Decoders address it so, with no look
at the items before. -/
theorem At.item (hsize : ∀ x ∈ items, (enc x).length = size) {i : Nat} {x : X}
    (h : items[i]? = some x) : At (items.flatMap enc) (i * size) (enc x) := by
  have hfield : (items.map enc)[i]? = some (enc x) := by rw [List.getElem?_map, h]; rfl
  have hi : i ≤ items.length := Nat.le_of_lt (List.getElem?_eq_some_iff.mp h).1
  have hsize' : ∀ y ∈ items.take i, (enc y).length = size :=
    fun y hy => hsize y (List.mem_of_mem_take hy)
  refine At.flatten hfield ?_
  rw [← List.map_take, map_length_items hsize', List.length_take_of_le hi,
    List.sum_replicate_nat]

end Items

end Layout

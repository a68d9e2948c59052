import Mathlib.Data.List.Basic
import Mathlib.Tactic.Common

/-!
# Updating the first match

A table kept as a list, in which an update changes the first entry that satisfies a test and leaves
the others alone.

* **`map_update`** — a view of the entries that respects the test and the update respects the table.
* **`map_update_of_eq`** — a view that the update keeps does not see it.
* **`update_eq_set`** — where a key tells the entries apart, an update by key changes the entry it
  is meant for.
-/

namespace FirstMatch

variable {α β : Type}

/-- The first entry that satisfies `p` is replaced by its image. -/
def update (p : α → Bool) (f : α → α) : List α → List α
  | [] => []
  | a :: l => if p a then f a :: l else a :: update p f l

/-- A view of the elements that tells which one is meant, and on which the change acts by itself,
sees an update as an update. -/
theorem map_update {p : α → Bool} {f : α → α} {q : β → Bool} {g : β → β} {view : α → β}
    (hp : ∀ a, q (view a) = p a) (hf : ∀ a, view (f a) = g (view a)) (l : List α) :
    (update p f l).map view = update q g (l.map view) := by
  induction l with
  | nil => rfl
  | cons a l ih =>
    rw [update, List.map_cons, update, hp]
    split
    · rw [List.map_cons, hf]
    · rw [List.map_cons, ih]

/-- A view that the change does not touch sees no update at all. Together with `map_update` this
carries a list of records through updates of one field. -/
theorem map_update_of_eq {p : α → Bool} {f : α → α} {view : α → β}
    (hf : ∀ a, view (f a) = view a) (l : List α) : (update p f l).map view = l.map view := by
  induction l with
  | nil => rfl
  | cons a l ih =>
    rw [update]
    split
    · rw [List.map_cons, List.map_cons, hf]
    · rw [List.map_cons, List.map_cons, ih]

/-- In a list without duplicate keys an update by key is an update at the position of that key, so
nothing else moves. -/
theorem update_eq_set {κ : Type} [DecidableEq κ] {key : α → κ} {l : List α}
    (h : (l.map key).Nodup) {i : Nat} {a : α} (hi : l[i]? = some a) (f : α → α) :
    update (fun b => decide (key b = key a)) f l = l.set i (f a) := by
  induction l generalizing i with
  | nil => cases hi
  | cons b l ih =>
    rw [List.map_cons, List.nodup_cons] at h
    cases i with
    | zero =>
      cases hi
      exact if_pos (decide_eq_true rfl)
    | succ i =>
      -- the entry meant lies behind `b`, so `b` has another key
      have hmem : a ∈ l := List.mem_of_getElem? hi
      have hne : ¬key b = key a := fun heq => h.1 (heq ▸ List.mem_map_of_mem hmem)
      rw [update, if_neg (by rw [decide_eq_true_iff]; exact hne), ih h.2 hi]
      rfl

end FirstMatch

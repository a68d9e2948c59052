import Mathlib.Init

/-!
# Computations that return

Total correctness of a computation that may fail: it ends with a value, and the value satisfies a
postcondition. One rule for each way such computations are composed.

* **`Returns.bind`** — sequencing, through a condition on the value in between.
* **`Returns.ite`** — branching, each branch under its condition.
* **`Returns.foldlM`** — a loop over a list keeps its invariant.
* **`exists_mapM_iff`**, **`map_mapM`** — traversals of a list.
-/

namespace Fallible

variable {ε α β : Type}

/-- The computation returns, with a value that satisfies `post`. -/
def Returns (x : Except ε α) (post : α → Prop) : Prop := ∃ a, x = .ok a ∧ post a

namespace Returns

variable {x : Except ε α} {mid post : α → Prop}

theorem ok {a : α} (h : post a) : Returns (.ok a : Except ε α) post := ⟨a, rfl, h⟩

/-- A computation returns if its first part does and the rest returns from any value that part may
have. -/
theorem bind {k : α → Except ε β} {post : β → Prop} (hx : Returns x mid)
    (hk : ∀ a, mid a → Returns (k a) post) : Returns (x >>= k) post := by
  obtain ⟨a, rfl, ha⟩ := hx
  exact hk a ha

/-- Both branches have to return, each under its own condition. -/
theorem ite {p : Prop} [Decidable p] {x y : Except ε α} (hx : p → Returns x post)
    (hy : ¬p → Returns y post) : Returns (if p then x else y) post := by
  by_cases h : p
  · rw [if_pos h]
    exact hx h
  · rw [if_neg h]
    exact hy h

/-- A computation that returns has a value. -/
theorem value (hx : Returns x post) : ∃ a, x = .ok a := by
  obtain ⟨a, hval, -⟩ := hx
  exact ⟨a, hval⟩

/-- A loop over a list whose turns keep an invariant returns, and keeps it. Nothing else about the
loop need be known, in particular not what a turn computes. -/
theorem foldlM {inv : β → Prop} {turn : β → α → Except ε β} {xs : List α}
    (h : ∀ a ∈ xs, ∀ b, inv b → Returns (turn b a) inv) {b : β} (hb : inv b) :
    Returns (xs.foldlM turn b) inv := by
  induction xs generalizing b with
  | nil => exact ok hb
  | cons a xs ih =>
    rw [List.foldlM_cons]
    refine bind (h a List.mem_cons_self b hb) (fun b' hb' => ?_)
    exact ih (fun a' ha' => h a' (List.mem_cons_of_mem a ha')) hb'

end Returns

/-! ## Mapping over a list -/

section MapM

variable {f : α → Except ε β} {xs : List α}

/-- A traversal that returns has a result for its first element and for the rest. -/
theorem mapM_cons_ok {a : α} {bs : List β} (h : (a :: xs).mapM f = .ok bs) :
    ∃ b bs', f a = .ok b ∧ xs.mapM f = .ok bs' ∧ bs = b :: bs' := by
  rw [List.mapM_cons] at h
  cases hb : f a with
  | error e =>
    rw [hb] at h
    cases h
  | ok b =>
    rw [hb] at h
    cases hbs : xs.mapM f with
    | error e =>
      rw [hbs] at h
      cases h
    | ok bs' =>
      rw [hbs] at h
      cases h
      exact ⟨b, bs', rfl, rfl, rfl⟩

/-- A traversal returns exactly when every element does, as it stops at the first that fails. -/
theorem exists_mapM_iff : (∃ bs, xs.mapM f = .ok bs) ↔ ∀ a ∈ xs, ∃ b, f a = .ok b := by
  induction xs with
  | nil => exact ⟨fun _ _ ha => absurd ha List.not_mem_nil, fun _ => ⟨[], rfl⟩⟩
  | cons a xs ih =>
    constructor
    · rintro ⟨bs, h⟩
      obtain ⟨b, bs', hb, hbs, -⟩ := mapM_cons_ok h
      exact List.forall_mem_cons.mpr ⟨⟨b, hb⟩, ih.mp ⟨bs', hbs⟩⟩
    · intro h
      obtain ⟨⟨b, hb⟩, hxs⟩ := List.forall_mem_cons.mp h
      obtain ⟨bs, hbs⟩ := ih.mpr hxs
      exact ⟨b :: bs, by rw [List.mapM_cons, hb, hbs]; rfl⟩

/-- What each step keeps of its element, the traversal keeps of the list. -/
theorem map_mapM {γ : Type} {g : β → γ} {h : α → γ} (hstep : ∀ a b, f a = .ok b → g b = h a)
    {bs : List β} (hbs : xs.mapM f = .ok bs) : bs.map g = xs.map h := by
  induction xs generalizing bs with
  | nil =>
    cases hbs
    rfl
  | cons a xs ih =>
    obtain ⟨b, bs', hb, hbs', rfl⟩ := mapM_cons_ok hbs
    rw [List.map_cons, List.map_cons, hstep a b hb, ih hbs']

end MapM

end Fallible

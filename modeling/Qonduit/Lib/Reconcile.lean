import Mathlib.Data.List.Basic

/-!
# Reconciliation passes

A reconciler goes through a list of wanted items with distinct keys and brings the entry of each
key into line. A step may look at the whole state, and changes the entry of its own key only.

* **`get_pass_of_not_mem`** — a pass leaves every other entry alone.
* **`pass_establishes`** — what each step establishes of its own entry, under an invariant of all
  steps, the pass establishes of all of them.
-/

namespace Reconcile

variable {S K V D : Type} (get : S → K → V) (key : D → K) (step : D → S → S)

/-- A step changes the entry of its own key only. -/
def Local : Prop := ∀ d s k, k ≠ key d → get (step d s) k = get s k

def pass (items : List D) (s : S) : S := items.foldl (fun s d => step d s) s

variable {get key step}

/-- A pass changes only the entries of its items, as every step keeps to its own. -/
theorem get_pass_of_not_mem (hlocal : Local get key step) {items : List D} {k : K}
    (h : k ∉ items.map key) (s : S) : get (pass step items s) k = get s k := by
  induction items generalizing s with
  | nil => rfl
  | cons d items ih =>
    rw [List.map_cons, List.mem_cons, not_or] at h
    show get (pass step items (step d s)) k = get s k
    rw [ih h.2, hlocal d s k h.1]

/-- What every step keeps, a pass keeps. -/
theorem invariant_pass {I : S → Prop} {items : List D}
    (hstep : ∀ d ∈ items, ∀ s, I s → I (step d s)) {s : S} (h : I s) : I (pass step items s) := by
  induction items generalizing s with
  | nil => exact h
  | cons d items ih =>
    have hhead := hstep d List.mem_cons_self s h
    exact ih (fun d hd => hstep d (List.mem_cons_of_mem _ hd)) hhead

/-- **A pass establishes of every entry what its own step establishes.** The items have different
keys, so that what one step has made no later one undoes. -/
theorem pass_establishes (hlocal : Local get key step) {I : S → Prop} {P : D → V → Prop}
    {items : List D} (hnodup : (items.map key).Nodup)
    (hstep : ∀ d ∈ items, ∀ s, I s → I (step d s) ∧ P d (get (step d s) (key d)))
    {s : S} (h : I s) : ∀ d ∈ items, P d (get (pass step items s) (key d)) := by
  induction items generalizing s with
  | nil =>
    intro d hd
    cases hd
  | cons d items ih =>
    rw [List.map_cons, List.nodup_cons] at hnodup
    obtain ⟨hinv, hown⟩ := hstep d List.mem_cons_self s h
    intro e he
    rcases List.mem_cons.mp he with rfl | he
    · -- the later steps have other keys
      show P e (get (pass step items (step e s)) (key e))
      rw [get_pass_of_not_mem hlocal hnodup.1]
      exact hown
    · exact ih hnodup.2 (fun d hd => hstep d (List.mem_cons_of_mem _ hd)) hinv e he

end Reconcile

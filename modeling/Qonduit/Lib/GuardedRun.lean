import Mathlib.Init

/-!
# Runs of a partial step function

A system takes one event after another, each in the state the last one left; an event that cannot
happen has no successor state. Which runs keep an invariant in every state they pass through is
decided step by step.

* **`run_induction`** — what every step keeps, every run keeps.
* **`forall_reached_iff`** — if one step keeps the invariant exactly under a guard, then so do runs.
-/

namespace GuardedRun

variable {σ ε : Type*} {step : σ → ε → Option σ} {guard : σ → ε → Prop} {inv : σ → Prop}

/-- A run that takes a first step goes on from the state after it. -/
theorem run_cons {s s₁ : σ} {ev : ε} (evs : List ε) (h : step s ev = some s₁) :
    (ev :: evs).foldlM step s = evs.foldlM step s₁ := by
  rw [List.foldlM_cons, h]
  rfl

/-- A run takes its first step, and the rest of it is a run from there. A run whose first step is
refused reaches nothing. -/
theorem run_cons_eq_some {s s' : σ} {ev : ε} {evs : List ε}
    (h : (ev :: evs).foldlM step s = some s') :
    ∃ s₁, step s ev = some s₁ ∧ evs.foldlM step s₁ = some s' := by
  cases hstep : step s ev with
  | none =>
    rw [List.foldlM_cons, hstep] at h
    cases h
  | some s₁ =>
    rw [run_cons evs hstep] at h
    exact ⟨s₁, rfl, h⟩

/-- What every step keeps, every run keeps: the induction on runs, once and for all. -/
theorem run_induction (hstep : ∀ {s ev s'}, inv s → step s ev = some s' → inv s') {s s' : σ}
    {evs : List ε} (h : inv s) (hrun : evs.foldlM step s = some s') : inv s' := by
  induction evs generalizing s with
  | nil =>
    cases hrun
    exact h
  | cons ev evs ih =>
    obtain ⟨s₁, hs₁, hrest⟩ := run_cons_eq_some hrun
    exact ih (hstep h hs₁) hrest

/-- Every event of the run meets the guard in the state it happens in. -/
def Guarded (step : σ → ε → Option σ) (guard : σ → ε → Prop) : σ → List ε → Prop
  | _, [] => True
  | s, ev :: evs => ∀ s', step s ev = some s' → guard s ev ∧ Guarded step guard s' evs

/-- The states a run passes through are its first one and those of the run that is left after a
step. -/
theorem forall_reached_cons {P : σ → Prop} {s : σ} {ev : ε} {evs : List ε} :
    (∀ p, p <+: ev :: evs → ∀ s', p.foldlM step s = some s' → P s') ↔
      P s ∧ ∀ s₁, step s ev = some s₁ →
        ∀ p, p <+: evs → ∀ s', p.foldlM step s₁ = some s' → P s' := by
  constructor
  · intro h
    refine ⟨h [] List.nil_prefix s rfl, fun s₁ hs₁ p hp s' hrun => ?_⟩
    refine h (ev :: p) ((List.prefix_cons_inj ev).mpr hp) s' ?_
    rw [run_cons p hs₁]
    exact hrun
  · rintro ⟨hs, hrest⟩ p hp s' hrun
    cases p with
    | nil =>
      cases hrun
      exact hs
    | cons ev' p =>
      obtain ⟨rfl, hp'⟩ := List.cons_prefix_cons.mp hp
      obtain ⟨s₁, hs₁, hrun'⟩ := run_cons_eq_some hrun
      exact hrest s₁ hs₁ p hp' s' hrun'

/-- **Which runs keep an invariant** that a step keeps exactly when it meets the guard: those whose
steps all do. A step outside the guard breaks the invariant in the very state it reaches. -/
theorem forall_reached_iff
    (hstep : ∀ {s ev s'}, inv s → step s ev = some s' → (inv s' ↔ guard s ev)) {s : σ}
    {evs : List ε} (h : inv s) :
    (∀ p, p <+: evs → ∀ s', p.foldlM step s = some s' → inv s') ↔ Guarded step guard s evs := by
  induction evs generalizing s with
  | nil =>
    refine ⟨fun _ => trivial, fun _ p hp s' hrun => ?_⟩
    rw [List.prefix_nil.mp hp] at hrun
    cases hrun
    exact h
  | cons ev evs ih =>
    rw [forall_reached_cons]
    constructor
    · rintro ⟨-, hrest⟩ s₁ hs₁
      have hinv : inv s₁ := hrest s₁ hs₁ [] List.nil_prefix s₁ rfl
      exact ⟨(hstep h hs₁).mp hinv, (ih hinv).mp (hrest s₁ hs₁)⟩
    · intro hguarded
      refine ⟨h, fun s₁ hs₁ => ?_⟩
      obtain ⟨hguard, hrest⟩ := hguarded s₁ hs₁
      exact (ih ((hstep h hs₁).mpr hguard)).mpr hrest

end GuardedRun

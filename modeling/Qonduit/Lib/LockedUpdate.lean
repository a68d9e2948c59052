import Mathlib.Data.List.Basic
import Mathlib.Logic.Function.Basic
import Mathlib.Logic.Relation
import Mathlib.Tactic.Common

/-!
# Updates under one lock

Tasks share a family of cells. To update a cell a task takes the lock, reads the cell, computes
the new value from what it has read, writes it back and releases the lock. The steps of different
tasks interleave in any order; only taking the lock can be refused.

* **`Inv`** — at most one task is between taking the lock and releasing it, the value it has
  computed is that of the cell as it is now, and every cell is its first value folded over the
  updates completed on it.
* **`Inv.step`**, **`Inv.run`** — every step keeps it, so no update is lost under any schedule.
-/

namespace LockedUpdate

variable {T K U V : Type*}

/-- Where a task stands with its update of a cell. -/
inductive Phase (K U V : Type*) where
  | outside
  | waiting (k : K) (u : U)
  | locked (k : K) (u : U)
  | computed (k : K) (u : U) (v : V)

/-- The task has the lock. -/
def Phase.Holds : Phase K U V → Prop
  | .outside | .waiting .. => False
  | .locked .. | .computed .. => True

structure State (T K U V : Type*) where
  cell : K → V
  lock : Option T
  phase : T → Phase K U V
  /-- The completed updates, oldest first. -/
  completed : List (K × U)

section

variable [DecidableEq K]

/-- The updates of one cell in a list of updates. -/
def updatesOf (k : K) (us : List (K × U)) : List U := (us.filter (fun x => x.1 = k)).map Prod.snd

theorem updatesOf_concat (k k' : K) (u : U) (us : List (K × U)) :
    updatesOf k (us ++ [(k', u)]) = updatesOf k us ++ if k' = k then [u] else [] := by
  by_cases h : k' = k <;> simp [updatesOf, h]

structure Inv (apply : K → V → U → V) (cell₀ : K → V) (s : State T K U V) : Prop where
  lock : ∀ t, (s.phase t).Holds → s.lock = some t
  fresh : ∀ t k u v, s.phase t = .computed k u v → v = apply k (s.cell k) u
  cell : ∀ k, s.cell k = (updatesOf k s.completed).foldl (apply k) (cell₀ k)

variable {apply : K → V → U → V} {cell₀ : K → V} {s s' : State T K U V}

/-- The start: no task has begun an update, and every cell holds what it held. -/
theorem Inv.start (apply : K → V → U → V) (cell₀ : K → V) :
    Inv apply cell₀ (⟨cell₀, none, fun _ => .outside, []⟩ : State T K U V) where
  lock _ h := h.elim
  fresh _ _ _ _ h := nomatch h
  cell _ := rfl

/-- **Mutual exclusion.** Two tasks in a phase that holds the lock both have it, so they are the
same. -/
theorem Inv.unique (hs : Inv apply cell₀ s) {t t' : T} (h : (s.phase t).Holds)
    (h' : (s.phase t').Holds) : t = t' :=
  Option.some.inj ((hs.lock t h).symm.trans (hs.lock t' h'))

variable [DecidableEq T]

/-- One task takes one step; `apply` computes the new value of a cell. -/
inductive Step (apply : K → V → U → V) (s : State T K U V) : State T K U V → Prop
  | request {t : T} (k : K) (u : U) (h : s.phase t = .outside) :
      Step apply s { s with phase := Function.update s.phase t (.waiting k u) }
  | acquire {t : T} {k : K} {u : U} (h : s.phase t = .waiting k u) (hfree : s.lock = none) :
      Step apply s
        { s with lock := some t, phase := Function.update s.phase t (.locked k u) }
  | read {t : T} {k : K} {u : U} (h : s.phase t = .locked k u) :
      Step apply s
        { s with phase := Function.update s.phase t (.computed k u (apply k (s.cell k) u)) }
  | write {t : T} {k : K} {u : U} {v : V} (h : s.phase t = .computed k u v) :
      Step apply s
        { cell := Function.update s.cell k v
          lock := none
          phase := Function.update s.phase t .outside
          completed := s.completed ++ [(k, u)] }

/-- A task that moves without writing, to a phase that holds the lock only if it has it. Cells and
updates stay as they are. -/
theorem Inv.move (hs : Inv apply cell₀ s) {t : T} {p : Phase K U V}
    (hlock : p.Holds → s.lock = some t)
    (hfresh : ∀ k u v, p = .computed k u v → v = apply k (s.cell k) u) :
    Inv apply cell₀ { s with phase := Function.update s.phase t p } where
  lock := (Function.forall_update_iff s.phase (fun t p => p.Holds → s.lock = some t)).mpr
    ⟨hlock, fun t' _ => hs.lock t'⟩
  fresh := (Function.forall_update_iff s.phase (fun _ p => ∀ k u v, p = .computed k u v →
      v = apply k (s.cell k) u)).mpr
    ⟨hfresh, fun t' _ => hs.fresh t'⟩
  cell := hs.cell

/-- Taking the free lock. No other task is in a phase that holds it, as each of those would have
it. -/
theorem Inv.acquire (hs : Inv apply cell₀ s) {t : T} {k : K} {u : U} (hfree : s.lock = none) :
    Inv apply cell₀
      { s with lock := some t, phase := Function.update s.phase t (.locked k u) } where
  lock := by
    refine (Function.forall_update_iff s.phase (fun t' p => p.Holds → some t = some t')).mpr
      ⟨fun _ => rfl, fun t' _ h => ?_⟩
    -- nobody held the lock before
    have hlock := hs.lock t' h
    rw [hfree] at hlock
    cases hlock
  fresh := (Function.forall_update_iff s.phase (fun _ p => ∀ k u v, p = .computed k u v →
      v = apply k (s.cell k) u)).mpr
    ⟨fun _ _ _ h => (nomatch h), fun t' _ => hs.fresh t'⟩
  cell := hs.cell

/-- Writing what was computed from the cell as it was read. Nobody else has written it since,
because that would take the lock; so the new value is the update applied to the cell as it is
now. -/
theorem Inv.write (hs : Inv apply cell₀ s) {t : T} {k : K} {u : U} {v : V}
    (h : s.phase t = .computed k u v) :
    Inv apply cell₀
      { cell := Function.update s.cell k v
        lock := none
        phase := Function.update s.phase t .outside
        completed := s.completed ++ [(k, u)] } := by
  have hholds : (s.phase t).Holds := by
    rw [h]
    trivial
  -- the writer was the only task with the lock, so none has it now
  have hnone : ∀ t', ¬(Function.update s.phase t .outside t').Holds :=
    (Function.forall_update_iff s.phase (fun _ p => ¬p.Holds)).mpr
      ⟨fun h' => h', fun _ ht h' => ht (hs.unique h' hholds)⟩
  constructor
  · exact fun t' h' => absurd h' (hnone t')
  · intro t' k' u' v' h'
    refine absurd ?_ (hnone t')
    have h' : Function.update s.phase t .outside t' = .computed k' u' v' := h'
    rw [h']
    trivial
  · intro k'
    dsimp only
    rw [updatesOf_concat, List.foldl_append, ← hs.cell k']
    by_cases hk : k' = k
    · subst hk
      rw [Function.update_self, if_pos rfl, hs.fresh t k' u v h]
      rfl
    · rw [Function.update_of_ne hk, if_neg (Ne.symm hk)]
      rfl

/-- **No step loses an update.** Every step is one of the moves above. -/
theorem Inv.step (hs : Inv apply cell₀ s) (h : Step apply s s') : Inv apply cell₀ s' := by
  cases h with
  | request k u h => exact hs.move (fun h => h.elim) (fun _ _ _ h => nomatch h)
  | acquire h hfree => exact hs.acquire hfree
  | read h =>
    refine hs.move (fun _ => hs.lock _ (by rw [h]; trivial)) (fun k u v h => ?_)
    cases h
    rfl
  | write h => exact hs.write h

/-- Nor does any run: what the cells hold at its end are the updates written, each applied to the
result of those before. -/
theorem Inv.run (hs : Inv apply cell₀ s) (h : Relation.ReflTransGen (Step apply) s s') :
    Inv apply cell₀ s' := by
  induction h with
  | refl => exact hs
  | tail _ h ih => exact ih.step h

end

end LockedUpdate

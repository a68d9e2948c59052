import Mathlib.Data.List.Induction
import Mathlib.Data.List.Sort
import Std.Data.ExtTreeMap

/-!
# Folding the entries of each key

A list of entries is folded into a map, one value for each key: the first entry of a key starts
its value and every further one updates it. What the map holds for a key depends on the entries of
that key only. Its contents, handed out in any order, are then sorted by key.

* **`getElem?_collect`** — the value of a key is the fold over the entries of that key.
* **`pairwise_lt_insertionSort`** — sorting by a rank that tells the entries apart is strict.
-/

namespace KeyedFold

variable {κ α β : Type*}

/-- The value of one key, given its entries in order. -/
def foldGroup (start : α → β) (update : β → α → β) : List α → Option β
  | [] => none
  | a :: l => some (l.foldl update (start a))

/-- The last entry of a group updates the value the entries before it have, and starts one if there
were none. -/
theorem foldGroup_concat (start : α → β) (update : β → α → β) (l : List α) (a : α) :
    foldGroup start update (l ++ [a])
      = some (match foldGroup start update l with
        | some b => update b a
        | none => start a) := by
  cases l with
  | nil => rfl
  | cons x l =>
    show some ((l ++ [a]).foldl update (start x)) = _
    rw [List.foldl_append]
    rfl

/-- A property of a group and its value holds if it holds of one entry and every update keeps it.
The induction is on the group from its end, as that is where the fold adds. -/
theorem foldGroup_induction {start : α → β} {update : β → α → β} {P : List α → β → Prop}
    (hstart : ∀ a, P [a] (start a))
    (hupdate : ∀ l b a, P l b → P (l ++ [a]) (update b a)) {l : List α} {b : β}
    (h : foldGroup start update l = some b) : P l b := by
  induction l using List.reverseRecOn generalizing b with
  | nil => cases h
  | append_singleton l a ih =>
    rw [foldGroup_concat] at h
    cases hl : foldGroup start update l with
    | none =>
      -- only the empty group has no value
      have hnil : l = [] := by
        cases l with
        | nil => rfl
        | cons x l => cases hl
      rw [hl] at h
      cases h
      rw [hnil]
      exact hstart a
    | some b' =>
      rw [hl] at h
      cases h
      exact hupdate l b' a (ih hl)

/-- A group has a value as soon as it has an entry. -/
theorem foldGroup_isSome_iff (start : α → β) (update : β → α → β) (l : List α) :
    (foldGroup start update l).isSome ↔ l ≠ [] := by
  cases l with
  | nil => simp [foldGroup]
  | cons x l => simp [foldGroup]

section Collect

variable (cmp : κ → κ → Ordering) [Std.TransCmp cmp] (key : α → κ) (start : α → β)
  (update : β → α → β)

/-- One entry. -/
def upsert (m : Std.ExtTreeMap κ β cmp) (a : α) : Std.ExtTreeMap κ β cmp :=
  m.alter (key a) fun
    | some b => some (update b a)
    | none => some (start a)

def collect (l : List α) : Std.ExtTreeMap κ β cmp := l.foldl (upsert cmp key start update) ∅

/-- **The value of a key** is the fold over its own entries: the entries of other keys may stand
anywhere between them. -/
theorem getElem?_collect [Std.LawfulEqCmp cmp] [DecidableEq κ] (l : List α) (k : κ) :
    (collect cmp key start update l)[k]?
      = foldGroup start update (l.filter (fun a => key a = k)) := by
  induction l using List.reverseRecOn with
  | nil => exact Std.ExtTreeMap.getElem?_empty
  | append_singleton l a ih =>
    have hlast : collect cmp key start update (l ++ [a])
        = upsert cmp key start update (collect cmp key start update l) a := List.foldl_append
    rw [hlast, upsert, Std.ExtTreeMap.getElem?_alter, List.filter_append]
    by_cases hk : key a = k
    · have heq : cmp (key a) k = .eq := by
        rw [hk]
        exact Std.ReflCmp.compare_self
      rw [if_pos heq, hk, ih, List.filter_cons_of_pos (by simpa using hk), List.filter_nil,
        foldGroup_concat]
      cases foldGroup start update (l.filter fun x => key x = k) <;> rfl
    · have hne : ¬cmp (key a) k = .eq := by
        intro heq
        exact hk (Std.LawfulEqCmp.eq_of_compare heq)
      rw [if_neg hne, ih, List.filter_cons_of_neg (by simpa using hk), List.filter_nil,
        List.append_nil]

end Collect

/-! ## Sorting by key -/

section Sorting

variable {rank : α → Nat} {l l' : List α}

/-- The sorted list ascends in rank, equal ranks next to each other. -/
theorem pairwise_le_insertionSort (l : List α) :
    (l.insertionSort (fun a b => rank a ≤ rank b)).Pairwise (fun a b => rank a ≤ rank b) := by
  have : Std.Total (fun a b : α => rank a ≤ rank b) := ⟨fun a b => Nat.le_total _ _⟩
  have : IsTrans α (fun a b => rank a ≤ rank b) := ⟨fun _ _ _ => Nat.le_trans⟩
  exact List.pairwise_insertionSort _ l

/-- **Sorting is strict** where no two entries have the same rank, as the ranks of neighbours are
then never equal. -/
theorem pairwise_lt_insertionSort (h : l.Pairwise (fun a b => rank a ≠ rank b)) :
    (l.insertionSort (fun a b => rank a ≤ rank b)).Pairwise (fun a b => rank a < rank b) := by
  have hne : (l.insertionSort (fun a b => rank a ≤ rank b)).Pairwise (fun a b => rank a ≠ rank b) :=
    (List.perm_insertionSort _ l).symm.pairwise h (fun hab => Ne.symm hab)
  exact (pairwise_le_insertionSort l).imp₂ (fun _ _ hle hlt => Nat.lt_of_le_of_ne hle hlt) hne

/-- Two strictly sorted lists with the same entries are the same, in whatever order the entries
came. -/
theorem eq_of_pairwise_lt (hl : l.Pairwise (fun a b => rank a < rank b))
    (hl' : l'.Pairwise (fun a b => rank a < rank b)) (h : ∀ a, a ∈ l ↔ a ∈ l') : l = l' := by
  have hnodup : ∀ {l : List α}, l.Pairwise (fun a b => rank a < rank b) → l.Nodup := by
    intro l hl
    refine hl.imp (fun {a b} hlt hab => ?_)
    rw [hab] at hlt
    omega
  refine ((List.perm_ext_iff_of_nodup (hnodup hl) (hnodup hl')).mpr h).eq_of_pairwise ?_ hl hl'
  intro a b _ _ hab hba
  omega

end Sorting

end KeyedFold

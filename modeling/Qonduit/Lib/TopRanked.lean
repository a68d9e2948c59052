import Mathlib.Data.List.Sort
import Mathlib.Tactic.Common
import Qonduit.Lib.OrderedScan

/-!
# The first of a stable order

A list sorted stably by a total preorder `r`. An entry ends up behind those that `r` puts strictly
before it, and behind those of the same rank that stand before it in the list.

* **`insertionSort_split`** — where a given occurrence ends up.
* **`mem_take_insertionSort_iff`** — so the first `k` are the entries with fewer than `k` ahead.
-/

namespace TopRanked

variable {α : Type} (r : α → α → Prop) [DecidableRel r]

/-- The entries that end up ahead of `x`, of those that stand before it and behind it. -/
def ahead (x : α) (before behind : List α) : List α :=
  before.filter (fun y => r y x) ++ behind.filter (fun y => ¬r x y)

variable {r}

/-- Past entries that rank before it an entry is inserted as if they were not there. They stay in
front of it. -/
theorem orderedInsert_append_of_lt {x : α} {l : List α} (h : ∀ y ∈ l, ¬r x y) (l' : List α) :
    (l ++ l').orderedInsert r x = l ++ l'.orderedInsert r x := by
  induction l with
  | nil => rfl
  | cons y l ih =>
    rw [List.cons_append, List.orderedInsert_of_not_le r _ (h y List.mem_cons_self),
      ih (fun z hz => h z (List.mem_cons_of_mem y hz))]
    rfl

/-- Before an entry that does not rank before it an entry is inserted as if that were the end. So
the sort is stable: of two equals, the one that came first stays first. -/
theorem orderedInsert_append_of_le {x z : α} (hz : r x z) (l l' : List α) :
    (l ++ z :: l').orderedInsert r x = l.orderedInsert r x ++ z :: l' := by
  induction l with
  | nil =>
    rw [List.nil_append, List.orderedInsert_cons_of_le r l' hz]
    rfl
  | cons y l ih =>
    by_cases hy : r x y
    · rw [List.cons_append, List.orderedInsert_cons_of_le r _ hy,
        List.orderedInsert_cons_of_le r l hy]
      rfl
    · rw [List.cons_append, List.orderedInsert_of_not_le r _ hy, ih,
        List.orderedInsert_of_not_le r l hy]
      rfl

variable [Std.Total r] [IsTrans α r]

/-- **Where an occurrence ends up.** It stands behind exactly those entries that are ahead of it, by
rank or, among equals, by coming first. -/
theorem insertionSort_split (x : α) (before behind : List α) :
    ∃ front back, (before ++ x :: behind).insertionSort r = front ++ x :: back ∧
      front.Perm (ahead r x before behind) := by
  induction before with
  | nil =>
    have hsorted := List.pairwise_insertionSort r behind
    have hfront : (behind.insertionSort r).takeWhile (fun y => ¬r x y)
        = (behind.insertionSort r).filter (fun y => ¬r x y) := by
      refine OrderedScan.takeWhile_eq_filter hsorted (fun y _ z _ hyz hz => ?_)
      have hz : ¬r x z := of_decide_eq_true hz
      exact decide_eq_true (fun hxy => hz (trans_of r hxy hyz))
    refine ⟨(behind.insertionSort r).takeWhile (fun y => ¬r x y), _,
      List.orderedInsert_eq_take_drop r x _, ?_⟩
    rw [hfront]
    exact (List.perm_insertionSort r behind).filter _
  | cons y before ih =>
    rcases ih with ⟨front, back, hsort, hperm⟩
    have hsorted := List.pairwise_insertionSort r (before ++ x :: behind)
    rw [hsort, List.pairwise_append] at hsorted
    rw [List.cons_append, List.insertionSort_cons, hsort]
    by_cases hy : r y x
    · refine ⟨front.orderedInsert r y, back, orderedInsert_append_of_le hy front back, ?_⟩
      have hahead : ahead r x (y :: before) behind = y :: ahead r x before behind := by
        rw [ahead, List.filter_cons, if_pos (decide_eq_true hy)]
        rfl
      rw [hahead]
      exact (List.perm_orderedInsert r y front).trans (hperm.cons y)
    · -- what is ahead of `x` is ahead of `y` as well
      have hfront : ∀ z ∈ front, ¬r y z := fun z hz hyz =>
        hy (trans_of r hyz (hsorted.2.2 z hz x List.mem_cons_self))
      refine ⟨front, back.orderedInsert r y, ?_, ?_⟩
      · rw [orderedInsert_append_of_lt hfront, List.orderedInsert_of_not_le r back hy]
      · have hahead : ahead r x (y :: before) behind = ahead r x before behind := by
          rw [ahead, List.filter_cons, if_neg (fun h => hy (of_decide_eq_true h))]
          rfl
        rw [hahead]
        exact hperm

/-- **The first `k`** are the entries with an occurrence that fewer than `k` entries are ahead
of. -/
theorem mem_take_insertionSort_iff {x : α} {k : Nat} {l : List α} :
    x ∈ (l.insertionSort r).take k ↔
      ∃ before behind, l = before ++ x :: behind ∧ (ahead r x before behind).length < k := by
  refine ⟨fun hx => ?_, fun h => ?_⟩
  · have hmem := (List.mem_insertionSort r).mp (List.mem_of_mem_take hx)
    -- the first occurrence of `x` has no `x` ahead of it
    rcases List.eq_append_cons_of_mem hmem with ⟨before, behind, rfl, hbefore⟩
    rcases insertionSort_split (r := r) x before behind with ⟨front, back, hsort, hperm⟩
    refine ⟨before, behind, rfl, ?_⟩
    rw [← hperm.length_eq]
    by_contra hle
    rw [hsort, List.take_append_of_le_length (Nat.not_lt.mp hle)] at hx
    have hahead := hperm.mem_iff.mp (List.mem_of_mem_take hx)
    rcases List.mem_append.mp hahead with h | h
    · exact hbefore (List.mem_of_mem_filter h)
    · have hself : r x x := (total_of r x x).elim id id
      exact of_decide_eq_true (List.mem_filter.mp h).2 hself
  · rcases h with ⟨before, behind, rfl, hlt⟩
    rcases insertionSort_split (r := r) x before behind with ⟨front, back, hsort, hperm⟩
    rw [← hperm.length_eq] at hlt
    have hroom : k - front.length = (k - front.length - 1) + 1 := by omega
    rw [hsort, List.take_append, hroom, List.take_succ_cons]
    exact List.mem_append_right _ List.mem_cons_self

end TopRanked

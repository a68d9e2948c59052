import Qonduit.Lib.OrderedScan

/-!
# Secondary indexes

A table holds a value under each of some numbers. A secondary index is a list of numbers, and a
query through it looks each of them up; the same query without it scans the table for the values
that pass a test.

* **`lookups_eq_scan_iff`** — the two answer alike exactly when the index holds the numbers of the
  passing values, among the numbers that hold one.
-/

namespace SecondaryIndex

open OrderedScan

variable {I V : Type*} [DecidableEq I] {rank : I → Nat} {f : I → Option V} {table : List (I × V)}

/-- The rows an ascending list of numbers leads to, in the order of the table. Both sides enumerate
the rows with a number in the list, and an enumeration is unique. -/
theorem enumerates_lookups (htable : Enumerates rank f table) {index : List I}
    (hindex : index.Pairwise (fun i j => rank i < rank j)) :
    index.filterMap (fun i => (f i).map (Prod.mk i)) = table.filter (fun r => r.1 ∈ index) := by
  -- looking the numbers up one by one keeps their order
  have hleft : Enumerates rank (fun i => if i ∈ index then f i else none)
      (index.filterMap (fun i => (f i).map (Prod.mk i))) := by
    constructor
    · intro i v
      simp only [List.mem_filterMap, Option.map_eq_some_iff, Option.ite_none_right_eq_some,
        Prod.mk.injEq]
      constructor
      · rintro ⟨j, hj, u, hu, rfl, rfl⟩
        exact ⟨hj, hu⟩
      · rintro ⟨hi, hv⟩
        exact ⟨i, hi, v, hv, rfl, rfl⟩
    · rw [List.pairwise_filterMap]
      refine hindex.imp (fun {i j} hij a ha b hb => ?_)
      obtain ⟨_, -, rfl⟩ := Option.map_eq_some_iff.mp ha
      obtain ⟨_, -, rfl⟩ := Option.map_eq_some_iff.mp hb
      exact hij
  -- picking the rows off the table keeps its order
  have hright : Enumerates rank (fun i => if i ∈ index then f i else none)
      (table.filter (fun r => r.1 ∈ index)) := by
    constructor
    · intro i v
      rw [List.mem_filter, htable.mem_iff, Option.ite_none_right_eq_some, decide_eq_true_eq,
        and_comm]
    · exact htable.increasing.filter _
  exact hleft.unique hright

/-- The same of the records alone, without their numbers. -/
theorem lookups_eq (htable : Enumerates rank f table) {index : List I}
    (hindex : index.Pairwise (fun i j => rank i < rank j)) :
    index.filterMap f = (table.filter (fun r => r.1 ∈ index)).map Prod.snd := by
  rw [← enumerates_lookups htable hindex, List.map_filterMap]
  congr 1
  funext i
  cases f i <;> rfl

/-- Two selections of a list with one image, the second by a test on the image, are one. An entry
that only one of them selects would be missing from the other's image. -/
theorem filter_agree {X Y : Type*} {l : List X} {g : X → Y} {p : X → Bool} {q : Y → Bool}
    (h : (l.filter p).map g = (l.filter (q ∘ g)).map g) : ∀ x ∈ l, p x = q (g x) := by
  -- what the first selects passes the second test, for its image does
  have hsub : ∀ x ∈ l.filter p, x ∈ l.filter (q ∘ g) := by
    intro x hx
    have himage : g x ∈ (l.filter (q ∘ g)).map g := by
      rw [← h]
      exact List.mem_map_of_mem hx
    obtain ⟨y, hy, hyx⟩ := List.mem_map.mp himage
    have hqy : q (g y) = true := (List.mem_filter.mp hy).2
    rw [hyx] at hqy
    exact List.mem_filter.mpr ⟨(List.mem_filter.mp hx).1, hqy⟩
  have hlength : (l.filter p).length = (l.filter (q ∘ g)).length := by
    rw [← List.length_map g, h, List.length_map]
  -- so the first is a part of the second, and as long
  have hpart : l.filter p = (l.filter (q ∘ g)).filter p := by
    rw [List.filter_filter]
    refine List.filter_congr (fun x hx => ?_)
    cases hp : p x with
    | false => rfl
    | true => exact ((List.mem_filter.mp (hsub x (List.mem_filter.mpr ⟨hx, hp⟩))).2).symm
  have hall : (l.filter (q ∘ g)).filter p = l.filter (q ∘ g) :=
    List.filter_sublist.eq_of_length (by rw [← hpart, hlength])
  intro x hx
  cases hq : q (g x) with
  | true => exact List.filter_eq_self.mp hall x (List.mem_filter.mpr ⟨hx, hq⟩)
  | false =>
    cases hp : p x with
    | false => rfl
    | true =>
      have hqx : q (g x) = true := (List.mem_filter.mp (hsub x (List.mem_filter.mpr ⟨hx, hp⟩))).2
      rw [hq] at hqx
      cases hqx

/-- **When an index answers as the scan does.** The two lists of records are equal exactly if the
index names the rows that pass the test, no more and no fewer. -/
theorem lookups_eq_scan_iff (htable : Enumerates rank f table) {index : List I}
    (hindex : index.Pairwise (fun i j => rank i < rank j)) (q : V → Bool) :
    index.filterMap f = (table.map Prod.snd).filter q ↔
      ∀ i v, f i = some v → (i ∈ index ↔ q v) := by
  rw [lookups_eq htable hindex, List.filter_map]
  constructor
  · intro h i v hv
    have hagree := filter_agree h (i, v) ((htable.mem_iff i v).mpr hv)
    rw [← hagree, decide_eq_true_eq]
  · intro h
    congr 1
    refine List.filter_congr (fun r hr => ?_)
    rw [Bool.eq_iff_iff, decide_eq_true_eq]
    exact h r.1 r.2 ((htable.mem_iff r.1 r.2).mp hr)

end SecondaryIndex

import Mathlib.Data.List.Nodup
import Mathlib.Tactic.Common

/-!
# Range scans over an ordered map

An iterator over an ordered map is positioned at a key and then advanced, forwards or
backwards, until a test on the key fails. When the keys that pass the test are
contiguous in the order and the starting key lies at their edge, such a scan visits
exactly the entries that pass the test (`seek_takeWhile`, `seekBack_takeWhile`). Where those keys
are numbered in their order, the scan lists what the numbers hold (`enumerates_select`).
-/

namespace OrderedScan

/-! ## Scanning a sorted list

A scan skips to its first key and stops at the first key that fails its test. Where the test holds
on one stretch of the keys, that is filtering. -/

/-- Taking from the front until the test fails is filtering by it, if an entry that passes has only
passing ones before it. -/
theorem takeWhile_eq_filter {γ : Type*} {l : List γ} {r : γ → γ → Prop} {p : γ → Bool}
    (hs : l.Pairwise r) (hp : ∀ x ∈ l, ∀ y ∈ l, r x y → p y → p x) :
    l.takeWhile p = l.filter p := by
  induction l with
  | nil => rfl
  | cons x l ih =>
    obtain ⟨hx, hs⟩ := List.pairwise_cons.mp hs
    by_cases hpx : p x
    · rw [List.takeWhile_cons_of_pos hpx, List.filter_cons_of_pos hpx,
        ih hs (fun y hy z hz => hp y (by simp [hy]) z (by simp [hz]))]
    · -- nothing after a failing entry passes, or that entry would pass as well
      rw [List.takeWhile_cons_of_neg hpx, eq_comm, List.filter_eq_nil_iff]
      intro y hy hpy
      rcases List.mem_cons.mp hy with rfl | hy'
      · exact hpx hpy
      · exact hpx (hp x (by simp) y hy (hx y hy') hpy)

/-- Skipping an initial segment leaves the entries outside it. -/
theorem dropWhile_eq_filter {γ : Type*} {l : List γ} {r : γ → γ → Prop} {q : γ → Bool}
    (hs : l.Pairwise r) (hq : ∀ x ∈ l, ∀ y ∈ l, r x y → q y → q x) :
    l.dropWhile q = l.filter (fun x => !q x) := by
  induction l with
  | nil => rfl
  | cons x l ih =>
    obtain ⟨hx, hs⟩ := List.pairwise_cons.mp hs
    by_cases hqx : q x
    · rw [List.dropWhile_cons_of_pos hqx, List.filter_cons_of_neg (by simp [hqx]),
        ih hs (fun y hy z hz => hq y (by simp [hy]) z (by simp [hz]))]
    · -- nothing after `x` lies in the segment either
      rw [List.dropWhile_cons_of_neg hqx, eq_comm, List.filter_eq_self]
      intro y hy
      rw [Bool.not_eq_true']
      rcases List.mem_cons.mp hy with rfl | hy'
      · exact Bool.not_eq_true _ ▸ hqx
      · exact Bool.not_eq_true _ ▸ fun h => hqx (hq x (by simp) y hy (hx y hy') h)

/-- Skipping the entries that satisfy `q` and then taking those that satisfy `p` is
filtering by `p`, when `q` holds on an initial segment and `p` on a segment right of it. -/
theorem dropWhile_takeWhile_eq_filter {γ : Type*} {l : List γ} {r : γ → γ → Prop}
    {q p : γ → Bool} (hs : l.Pairwise r) (hq : ∀ x ∈ l, ∀ y ∈ l, r x y → q y → q x)
    (hpq : ∀ x ∈ l, p x → ¬ q x) (hp : ∀ x ∈ l, ∀ y ∈ l, ¬ q x → r x y → p y → p x) :
    (l.dropWhile q).takeWhile p = l.filter p := by
  induction l with
  | nil => rfl
  | cons x l ih =>
    obtain ⟨hx, hs'⟩ := List.pairwise_cons.mp hs
    by_cases hqx : q x
    · -- `x` is skipped, and passes no test
      have hpx : ¬ p x := fun h => hpq x (by simp) h hqx
      rw [List.dropWhile_cons_of_pos hqx, List.filter_cons_of_neg hpx]
      exact ih hs' (fun y hy z hz => hq y (by simp [hy]) z (by simp [hz]))
        (fun y hy => hpq y (by simp [hy]))
        (fun y hy z hz => hp y (by simp [hy]) z (by simp [hz]))
    · -- the scan starts at `x`: nothing from here on is skipped
      rw [List.dropWhile_cons_of_neg hqx]
      refine takeWhile_eq_filter hs ?_
      intro y hy z hz hyz
      have hqy : ¬ q y := by
        rcases List.mem_cons.mp hy with rfl | hy'
        · exact hqx
        · exact fun h => hqx (hq x (by simp) y hy (hx y hy') h)
      exact hp y hy z hz hqy hyz

/-! ## Iterators

The entries of an ordered map whose keys pass a test, by ascending key, are a selection. What a
forward or a backward iterator yields is one, so each scan is described by its test alone. -/

variable {α β : Type*} {cmp : α → α → Ordering} [Std.TransCmp cmp] [Std.LawfulEqCmp cmp]

/-- The entries from the first key not below `k` on, in increasing order. -/
def seek (m : Std.ExtTreeMap α β cmp) (k : α) : List (α × β) :=
  m.toList.dropWhile (fun e => cmp e.1 k == .lt)

/-- The entries from the last key not above `k` on, in decreasing order. -/
def seekBack (m : Std.ExtTreeMap α β cmp) (k : α) : List (α × β) :=
  m.toList.reverse.dropWhile (fun e => cmp e.1 k == .gt)

/-- The entries that pass a test on the key, in increasing order. -/
def select (m : Std.ExtTreeMap α β cmp) (p : α → Bool) : List (α × β) :=
  m.toList.filter (fun e => p e.1)

@[simp] theorem mem_select {m : Std.ExtTreeMap α β cmp} {p : α → Bool} {k : α} {v : β} :
    (k, v) ∈ select m p ↔ m[k]? = some v ∧ p k := by
  simp only [select, List.mem_filter, Std.ExtTreeMap.mem_toList_iff_getElem?_eq_some]

omit [Std.LawfulEqCmp cmp] in
/-- A selection ascends strictly in its keys. -/
theorem pairwise_select (m : Std.ExtTreeMap α β cmp) (p : α → Bool) :
    (select m p).Pairwise (fun a b => cmp a.1 b.1 = .lt) :=
  Std.ExtTreeMap.ordered_keys_toList.filter _

omit [Std.LawfulEqCmp cmp] in
/-- The order of the keys goes one way only. -/
theorem lt_asymm {a b : α} (h : cmp a b = .lt) : cmp b a ≠ .lt := by
  rw [Std.OrientedCmp.gt_of_lt h]
  simp

omit [Std.LawfulEqCmp cmp] in
/-- A list whose keys ascend strictly repeats no entry. -/
theorem nodup_of_pairwise {l : List (α × β)} (hl : l.Pairwise (fun a b => cmp a.1 b.1 = .lt)) :
    l.Nodup := by
  refine hl.imp ?_
  intro a b hlt hab
  subst hab
  exact lt_asymm hlt hlt

omit [Std.LawfulEqCmp cmp] in
theorem nodup_select (m : Std.ExtTreeMap α β cmp) (p : α → Bool) : (select m p).Nodup :=
  nodup_of_pairwise (pairwise_select m p)

/-- A strictly increasing list with the members of a selection is the selection. -/
theorem select_eq_of_pairwise {m : Std.ExtTreeMap α β cmp} {p : α → Bool} {l : List (α × β)}
    (hl : l.Pairwise (fun a b => cmp a.1 b.1 = .lt))
    (hmem : ∀ k v, (k, v) ∈ l ↔ m[k]? = some v ∧ p k) : select m p = l := by
  have hperm : (select m p).Perm l := by
    refine (List.perm_ext_iff_of_nodup (nodup_select m p) (nodup_of_pairwise hl)).mpr ?_
    rintro ⟨k, v⟩
    rw [mem_select, hmem]
  -- a permutation between two lists sorted by an asymmetric order is the identity
  refine hperm.eq_of_pairwise ?_ (pairwise_select m p) hl
  intro a b _ _ hab hba
  exact absurd hba (lt_asymm hab)

omit [Std.LawfulEqCmp cmp] in
/-- A forward scan from `k` visits the entries whose key is not below `k`. -/
theorem seek_eq_select (m : Std.ExtTreeMap α β cmp) (k : α) :
    seek m k = select m (fun x => !(cmp x k == .lt)) := by
  refine dropWhile_eq_filter Std.ExtTreeMap.ordered_keys_toList (fun x _ y _ hxy hy => ?_)
  rw [beq_iff_eq] at hy ⊢
  exact Std.TransCmp.lt_trans hxy hy

omit [Std.LawfulEqCmp cmp] in
theorem filter_select (m : Std.ExtTreeMap α β cmp) (p q : α → Bool) :
    (select m p).filter (fun e => q e.1) = select m (fun x => q x && p x) :=
  List.filter_filter

theorem mem_of_mem_select {m : Std.ExtTreeMap α β cmp} {p : α → Bool} {e : α × β}
    (h : e ∈ select m p) : e.1 ∈ m ∧ p e.1 := by
  obtain ⟨hget, hp⟩ := mem_select.mp h
  exact ⟨Std.ExtTreeMap.mem_iff_isSome_getElem?.mpr (by rw [hget]; rfl), hp⟩

/-- Stopping at the first failing key keeps the passing ones, where the test fails from some key on.
A scan under a stem stops so, since the keys of one stem stand together. -/
theorem takeWhile_select {m : Std.ExtTreeMap α β cmp} {p q : α → Bool}
    (hq : ∀ x ∈ m, ∀ y ∈ m, cmp x y = .lt → p x → p y → q y → q x) :
    (select m p).takeWhile (fun e => q e.1) = select m (fun x => q x && p x) := by
  rw [← filter_select]
  refine takeWhile_eq_filter (pairwise_select m p) (fun x hx y hy hxy hqy => ?_)
  obtain ⟨hxm, hxp⟩ := mem_of_mem_select hx
  obtain ⟨hym, hyp⟩ := mem_of_mem_select hy
  exact hq x.1 hxm y.1 hym hxy hxp hyp hqy

/-- Selections agree where their tests agree on the keys of the map. -/
theorem select_congr {m : Std.ExtTreeMap α β cmp} {p q : α → Bool} (h : ∀ x ∈ m, p x = q x) :
    select m p = select m q := by
  refine List.filter_congr (fun e he => h e.1 ?_)
  rw [Std.ExtTreeMap.mem_iff_isSome_getElem?,
    Std.ExtTreeMap.mem_toList_iff_getElem?_eq_some.mp he]
  rfl

/-- A forward scan from `k` under a test `p` that holds on an interval starting at or after `k`
visits exactly the entries that pass `p`. The part before the interval is skipped by the seek and
the part behind it by the stop. -/
theorem seek_takeWhile (m : Std.ExtTreeMap α β cmp) (k : α) (p : α → Bool)
    (hlow : ∀ x ∈ m, p x → cmp x k ≠ .lt)
    (hconv : ∀ x ∈ m, ∀ y ∈ m, cmp x k ≠ .lt → cmp x y = .lt → p y → p x) :
    (seek m k).takeWhile (fun e => p e.1) = select m p := by
  have hmem : ∀ e ∈ m.toList, e.1 ∈ m := fun e he =>
    Std.ExtTreeMap.mem_iff_isSome_getElem?.mpr
      (by rw [Std.ExtTreeMap.mem_toList_iff_getElem?_eq_some.mp he]; rfl)
  refine dropWhile_takeWhile_eq_filter Std.ExtTreeMap.ordered_keys_toList ?_ ?_ ?_
  · intro x _ y _ hxy hy
    rw [beq_iff_eq] at hy ⊢
    exact Std.TransCmp.lt_trans hxy hy
  · intro x hx hpx hlt
    exact hlow x.1 (hmem x hx) hpx (beq_iff_eq.mp hlt)
  · intro x hx y hy hxk hxy
    exact hconv x.1 (hmem x hx) y.1 (hmem y hy) (by simpa using hxk) hxy

/-- A backward scan from `k` under a test `p` that holds on an interval ending at or
before `k` visits exactly the entries that pass `p`, greatest key first. -/
theorem seekBack_takeWhile (m : Std.ExtTreeMap α β cmp) (k : α) (p : α → Bool)
    (hhigh : ∀ x ∈ m, p x → cmp x k ≠ .gt)
    (hconv : ∀ x ∈ m, ∀ y ∈ m, cmp x k ≠ .gt → cmp x y = .gt → p y → p x) :
    (seekBack m k).takeWhile (fun e => p e.1) = (select m p).reverse := by
  have hmem : ∀ e ∈ m.toList.reverse, e.1 ∈ m := fun e he =>
    Std.ExtTreeMap.mem_iff_isSome_getElem?.mpr
      (by rw [Std.ExtTreeMap.mem_toList_iff_getElem?_eq_some.mp (List.mem_reverse.mp he)]; rfl)
  have hs : m.toList.reverse.Pairwise (fun a b => cmp a.1 b.1 = .gt) := by
    rw [List.pairwise_reverse]
    exact Std.ExtTreeMap.ordered_keys_toList.imp (fun h => Std.OrientedCmp.gt_of_lt h)
  rw [select, ← List.filter_reverse]
  refine dropWhile_takeWhile_eq_filter hs ?_ ?_ ?_
  · intro x _ y _ hxy hy
    rw [beq_iff_eq] at hy ⊢
    exact Std.TransCmp.gt_trans hxy hy
  · intro x hx hpx hgt
    exact hhigh x.1 (hmem x hx) hpx (beq_iff_eq.mp hgt)
  · intro x hx y hy hxk hxy
    exact hconv x.1 (hmem x hx) y.1 (hmem y hy) (by simpa using hxk) hxy

/-! ## Values of an association list -/

/-- The values of a duplicate-free association list repeat only if two keys share one. -/
theorem nodup_map_snd_iff {l : List (α × β)} (hl : l.Nodup) :
    (l.map Prod.snd).Nodup ↔ ∀ k k' v, (k, v) ∈ l → (k', v) ∈ l → k = k' := by
  rw [List.nodup_map_iff_inj_on hl]
  constructor
  · intro h k k' v hk hk'
    exact congrArg Prod.fst (h _ hk _ hk' rfl)
  · rintro h ⟨k, v⟩ hk ⟨k', v'⟩ hk' hv
    cases hv
    rw [h k k' v hk hk']

/-- A value stands once among the values exactly when one key holds it. The entries with the value
are one entry, and that is its key. -/
theorem count_map_snd_eq_one_iff [BEq β] [LawfulBEq β] {l : List (α × β)} (hl : l.Nodup) (v : β) :
    (l.map Prod.snd).count v = 1 ↔ ∃! k, (k, v) ∈ l := by
  rw [List.count, List.countP_map, List.countP_eq_length_filter, List.length_eq_one_iff]
  have hmem : ∀ e, e ∈ l.filter ((· == v) ∘ Prod.snd) ↔ e ∈ l ∧ e.2 = v := by
    intro e; simp
  constructor
  · -- the only entry with the value names the key
    rintro ⟨⟨k, u⟩, hone⟩
    have hku : (k, u) ∈ l ∧ u = v := (hmem (k, u)).mp (by rw [hone]; simp)
    refine ⟨k, hku.2 ▸ hku.1, ?_⟩
    intro k' hk'
    have hin : (k', v) ∈ l.filter ((· == v) ∘ Prod.snd) := (hmem (k', v)).mpr ⟨hk', rfl⟩
    rw [hone, List.mem_singleton] at hin
    exact congrArg Prod.fst hin
  · -- a key that holds it alone has the only entry with it, as the list repeats none
    rintro ⟨k, hk, huniq⟩
    refine ⟨(k, v), List.perm_singleton.mp ?_⟩
    refine (List.perm_ext_iff_of_nodup (hl.filter _) (by simp)).mpr ?_
    rintro ⟨k', v'⟩
    rw [hmem, List.mem_singleton]
    constructor
    · rintro ⟨hk', rfl⟩
      rw [huniq k' hk']
    · intro h
      cases h
      exact ⟨hk, rfl⟩

/-! ## Slots

The keys that pass the test are often an injective image of an index type. The values a
scan yields are then the values held at the indices. -/

section Slots

variable {I : Type*} {m : Std.ExtTreeMap α β cmp} {p : α → Bool} {mk : I → α}

/-- Every selected key is that of an index, so every value listed is held at one. -/
theorem exists_slot_of_mem_select (hp : ∀ k ∈ m, p k ↔ ∃ i, k = mk i) {k : α} {v : β}
    (h : (k, v) ∈ select m p) : ∃ i, k = mk i ∧ m[mk i]? = some v := by
  obtain ⟨hget, hpk⟩ := mem_select.mp h
  have hmem : k ∈ m := Std.ExtTreeMap.mem_iff_isSome_getElem?.mpr (by rw [hget]; rfl)
  obtain ⟨i, rfl⟩ := (hp k hmem).mp hpk
  exact ⟨i, rfl, hget⟩

/-- The values listed are those held at the indices. -/
theorem mem_values_select_iff (hp : ∀ k ∈ m, p k ↔ ∃ i, k = mk i) (hmk : ∀ i, p (mk i)) {v : β} :
    v ∈ (select m p).map Prod.snd ↔ ∃ i, m[mk i]? = some v := by
  rw [List.mem_map]
  constructor
  · rintro ⟨⟨k, u⟩, hk, rfl⟩
    obtain ⟨i, -, hget⟩ := exists_slot_of_mem_select hp hk
    exact ⟨i, hget⟩
  · rintro ⟨i, hget⟩
    exact ⟨(mk i, v), mem_select.mpr ⟨hget, hmk i⟩, rfl⟩

/-- They are listed without repetition exactly when no two indices hold the same one. -/
theorem nodup_values_select_iff (hinj : Function.Injective mk)
    (hp : ∀ k ∈ m, p k ↔ ∃ i, k = mk i) (hmk : ∀ i, p (mk i)) :
    ((select m p).map Prod.snd).Nodup ↔
      ∀ i j v, m[mk i]? = some v → m[mk j]? = some v → i = j := by
  rw [nodup_map_snd_iff (nodup_select m p)]
  constructor
  · intro h i j v hi hj
    exact hinj (h _ _ v (mem_select.mpr ⟨hi, hmk i⟩) (mem_select.mpr ⟨hj, hmk j⟩))
  · intro h k k' v hk hk'
    obtain ⟨i, rfl, hget⟩ := exists_slot_of_mem_select hp hk
    obtain ⟨j, rfl, hget'⟩ := exists_slot_of_mem_select hp hk'
    rw [h i j v hget hget']

/-- And one of them stands once in the list exactly when one index holds it. -/
theorem count_values_select_eq_one_iff [BEq β] [LawfulBEq β] (hinj : Function.Injective mk)
    (hp : ∀ k ∈ m, p k ↔ ∃ i, k = mk i) (hmk : ∀ i, p (mk i)) (v : β) :
    ((select m p).map Prod.snd).count v = 1 ↔ ∃! i, m[mk i]? = some v := by
  rw [count_map_snd_eq_one_iff (nodup_select m p)]
  constructor
  · rintro ⟨k, hk, huniq⟩
    obtain ⟨i, rfl, hget⟩ := exists_slot_of_mem_select hp hk
    exact ⟨i, hget, fun j hj => hinj (huniq _ (mem_select.mpr ⟨hj, hmk j⟩))⟩
  · rintro ⟨i, hget, huniq⟩
    refine ⟨mk i, mem_select.mpr ⟨hget, hmk i⟩, ?_⟩
    intro k hk
    obtain ⟨j, rfl, hget'⟩ := exists_slot_of_mem_select hp hk
    rw [huniq j hget']

end Slots

/-! ## Enumerations

Where the indices are numbered in the order of their keys, a selection lists what the indices
hold in increasing order. -/

/-- A list of the entries of a function, its values decoded. -/
theorem mem_map_value {I V W : Type*} {enc : W → V} {dec : V → W} (hdec : ∀ w, dec (enc w) = w)
    {f : I → Option W} {l : List (I × V)} (hl : ∀ i v, (i, v) ∈ l ↔ (f i).map enc = some v)
    (i : I) (w : W) : (i, w) ∈ l.map (fun e => (e.1, dec e.2)) ↔ f i = some w := by
  simp only [Option.map_eq_some_iff] at hl
  simp only [List.mem_map, Prod.exists, Prod.mk.injEq]
  constructor
  · rintro ⟨j, v, hv, rfl, rfl⟩
    obtain ⟨u, hu, rfl⟩ := (hl _ v).mp hv
    rwa [hdec]
  · intro hw
    exact ⟨i, enc w, (hl _ _).mpr ⟨w, hw, rfl⟩, rfl, hdec w⟩

/-- `l` lists the entries of a partial function, once each, by increasing number. -/
structure Enumerates {I V : Type*} (rank : I → Nat) (f : I → Option V) (l : List (I × V)) :
    Prop where
  mem_iff : ∀ i v, (i, v) ∈ l ↔ f i = some v
  increasing : l.Pairwise (fun a b => rank a.1 < rank b.1)

namespace Enumerates

variable {I V : Type*} {rank : I → Nat} {f g : I → Option V} {l : List (I × V)}

/-- An enumeration depends on what the function yields, not on how it is given. -/
theorem congr (h : Enumerates rank f l) (hfg : ∀ i, f i = g i) : Enumerates rank g l where
  mem_iff i v := by rw [h.mem_iff, hfg]
  increasing := h.increasing

theorem nodup (h : Enumerates rank f l) : l.Nodup := by
  refine h.increasing.imp (fun {a b} hlt hab => ?_)
  subst hab
  exact Nat.lt_irrefl _ hlt

/-- A function has one enumeration: the entries are given by the function and their order by the
ranks. -/
theorem unique {l' : List (I × V)} (h : Enumerates rank f l) (h' : Enumerates rank f l') :
    l = l' := by
  have hperm : l.Perm l' := by
    refine (List.perm_ext_iff_of_nodup h.nodup h'.nodup).mpr ?_
    rintro ⟨i, v⟩
    rw [h.mem_iff, h'.mem_iff]
  refine hperm.eq_of_pairwise ?_ h.increasing h'.increasing
  intro a b _ _ hab hba
  exact absurd hba (Nat.lt_asymm hab)

/-- Reading every value through a partial function enumerates what can be read. -/
theorem filterMap {W : Type*} (h : Enumerates rank f l) (read : V → Option W) :
    Enumerates rank (fun i => (f i).bind read)
      (l.filterMap (fun r => (read r.2).map (Prod.mk r.1))) where
  mem_iff i w := by
    simp only [List.mem_filterMap, Option.map_eq_some_iff, Option.bind_eq_some_iff, Prod.mk.injEq]
    constructor
    · rintro ⟨⟨j, v⟩, hj, u, hu, rfl, rfl⟩
      exact ⟨v, (h.mem_iff j v).mp hj, hu⟩
    · rintro ⟨v, hv, hw⟩
      exact ⟨(i, v), (h.mem_iff i v).mpr hv, w, hw, rfl, rfl⟩
  increasing := by
    rw [List.pairwise_filterMap]
    refine h.increasing.imp (fun {a b} hlt x hx y hy => ?_)
    obtain ⟨_, -, rfl⟩ := Option.map_eq_some_iff.mp hx
    obtain ⟨_, -, rfl⟩ := Option.map_eq_some_iff.mp hy
    exact hlt

theorem map_value {W : Type*} {enc : W → V} {dec : V → W} (hdec : ∀ w, dec (enc w) = w)
    {f : I → Option W} (h : Enumerates rank (fun i => (f i).map enc) l) :
    Enumerates rank f (l.map (fun e => (e.1, dec e.2))) where
  mem_iff := mem_map_value hdec h.mem_iff
  increasing := List.pairwise_map.mpr h.increasing

/-- The indices of an enumeration are the domain of the function. -/
theorem mem_indices_iff (h : Enumerates rank f l) (i : I) :
    i ∈ l.map Prod.fst ↔ (f i).isSome := by
  rw [List.mem_map, Option.isSome_iff_exists]
  constructor
  · rintro ⟨⟨j, v⟩, hj, rfl⟩
    exact ⟨v, (h.mem_iff j v).mp hj⟩
  · rintro ⟨v, hv⟩
    exact ⟨(i, v), (h.mem_iff i v).mpr hv, rfl⟩

/-- The last entry has the greatest index, and an entry whose index is the greatest is the last. The
entries are enumerated by increasing indices, each once. -/
theorem getLast?_eq_some_iff (h : Enumerates rank f l) {i : I} {v : V} :
    l.getLast? = some (i, v) ↔ f i = some v ∧ ∀ j, (f j).isSome → rank j ≤ rank i := by
  constructor
  · intro hlast
    -- everything before the last entry has a smaller index
    obtain ⟨before, rfl⟩ := List.getLast?_eq_some_iff.mp hlast
    refine ⟨(h.mem_iff i v).mp (List.mem_append_right _ (List.mem_singleton_self _)), ?_⟩
    intro j hj
    obtain ⟨w, hw⟩ := Option.isSome_iff_exists.mp hj
    rcases List.mem_append.mp ((h.mem_iff j w).mpr hw) with hbefore | hself
    · have hlt := (List.pairwise_append.mp h.increasing).2.2 _ hbefore _ (List.mem_singleton_self _)
      exact Nat.le_of_lt hlt
    · cases List.mem_singleton.mp hself
      exact Nat.le_refl _
  · rintro ⟨hi, hmax⟩
    -- the entry is in the list, and if it stood before the last one, that one's index would be
    -- greater
    have hmem := (h.mem_iff i v).mpr hi
    obtain ⟨⟨j, w⟩, hlast⟩ : ∃ e, l.getLast? = some e :=
      ⟨_, List.getLast?_eq_some_getLast (List.ne_nil_of_mem hmem)⟩
    obtain ⟨before, rfl⟩ := List.getLast?_eq_some_iff.mp hlast
    have hj := (h.mem_iff j w).mp (List.mem_append_right _ (List.mem_singleton_self _))
    have hle := hmax j (Option.isSome_iff_exists.mpr ⟨w, hj⟩)
    rcases List.mem_append.mp hmem with hbefore | hself
    · have hlt := (List.pairwise_append.mp h.increasing).2.2 _ hbefore _ (List.mem_singleton_self _)
      exact absurd hle (Nat.not_le.mpr hlt)
    · rw [List.mem_singleton.mp hself]
      exact hlast

/-- The list is empty exactly where the function yields nothing anywhere. -/
theorem getLast?_eq_none_iff (h : Enumerates rank f l) : l.getLast? = none ↔ ∀ i, f i = none := by
  rw [List.getLast?_eq_none_iff, List.eq_nil_iff_forall_not_mem]
  constructor
  · intro hempty i
    exact Option.eq_none_iff_forall_not_mem.mpr (fun v hv => hempty (i, v) ((h.mem_iff i v).mpr hv))
  · rintro hnone ⟨i, v⟩ hmem
    have hv := (h.mem_iff i v).mp hmem
    rw [hnone i] at hv
    cases hv

end Enumerates

/-- `r` lists the entries of `f` with the greatest indices, greatest first: `limit` of them, or all
if there are no more. -/
structure Newest {I V : Type*} (lt : I → I → Prop) (f : I → Option V) (limit : Nat)
    (r : List (I × V)) : Prop where
  held : ∀ i v, (i, v) ∈ r → f i = some v
  decreasing : r.Pairwise (fun a b => lt b.1 a.1)
  greatest : ∀ i v, f i = some v → (i, v) ∉ r → ∀ e ∈ r, lt i e.1
  length_eq : ∃ all : List (I × V), all.Nodup ∧ (∀ i v, (i, v) ∈ all ↔ f i = some v) ∧
    r.length = min limit all.length

/-- Values that were encoded may be decoded: reading them changes neither which entries are listed
nor their order. -/
theorem Newest.map_value {I V W : Type*} {lt : I → I → Prop} {enc : W → V} {dec : V → W}
    (hdec : ∀ w, dec (enc w) = w) {f : I → Option W} {limit : Nat} {r : List (I × V)}
    (h : Newest lt (fun i => (f i).map enc) limit r) :
    Newest lt f limit (r.map (fun e => (e.1, dec e.2))) := by
  have hheld : ∀ e ∈ r, ∃ w, f e.1 = some w ∧ enc w = e.2 := fun e he =>
    Option.map_eq_some_iff.mp (h.held e.1 e.2 he)
  obtain ⟨all, hnodup, hall, hlength⟩ := h.length_eq
  have hmem := mem_map_value hdec hall
  refine ⟨fun i w hw => ?_, List.pairwise_map.mpr h.decreasing, fun i w hw hcut e he => ?_,
    all.map (fun e => (e.1, dec e.2)), hnodup.map_on ?_, hmem, ?_⟩
  · obtain ⟨e, he, heq⟩ := List.mem_map.mp hw
    obtain ⟨u, hu, henc⟩ := hheld e he
    cases heq
    rw [← henc, hdec, hu]
  · obtain ⟨x, hx, rfl⟩ := List.mem_map.mp he
    refine h.greatest i (enc w) (by simp only [hw, Option.map_some]) (fun hmem => hcut ?_) x hx
    exact List.mem_map.mpr ⟨_, hmem, by rw [hdec]⟩
  · -- two entries of one index hold one value, so decoding keeps entries apart
    intro a ha b hb hab
    have hindex : a.1 = b.1 := (Prod.mk.inj hab).1
    have hva := (hall a.1 a.2).mp ha
    have hvb := (hall b.1 b.2).mp hb
    rw [hindex, hvb] at hva
    exact Prod.ext hindex (Option.some_inj.mp hva).symm
  · rw [List.length_map, List.length_map, hlength]

/-- The reverse of an enumeration, cut at a limit, lists the entries of greatest index, newest
first. -/
theorem Enumerates.newest {I V : Type*} {rank : I → Nat} {f : I → Option V} {l : List (I × V)}
    (h : Enumerates rank f l) {lt : I → I → Prop} (hlt : ∀ i j, rank i < rank j → lt i j)
    (limit : Nat) : Newest lt f limit (l.reverse.take limit) := by
  have hdecreasing : l.reverse.Pairwise (fun a b => rank b.1 < rank a.1) :=
    List.pairwise_reverse.mpr h.increasing
  refine ⟨fun i v hmem => ?_, ?_, fun i v hv hcut e he => ?_, l, h.nodup, h.mem_iff, ?_⟩
  · exact (h.mem_iff i v).mp (List.mem_reverse.mp (List.mem_of_mem_take hmem))
  · exact (hdecreasing.sublist (List.take_sublist _ _)).imp (hlt _ _)
  · -- what was cut off comes behind the limit, and so below
    have hmem := List.mem_reverse.mpr ((h.mem_iff i v).mpr hv)
    rw [← List.take_append_drop limit l.reverse] at hmem hdecreasing
    have hdropped := (List.mem_append.mp hmem).resolve_left hcut
    exact hlt _ _ ((List.pairwise_append.mp hdecreasing).2.2 e he _ hdropped)
  · rw [List.length_take, List.length_reverse]

/-- `r` lists the entries of `f` with the least indices, least first: `limit` of them, or all if
there are no more. -/
structure Least {I V : Type*} (rank : I → Nat) (f : I → Option V) (limit : Nat)
    (r : List (I × V)) : Prop where
  held : ∀ i v, (i, v) ∈ r → f i = some v
  increasing : r.Pairwise (fun a b => rank a.1 < rank b.1)
  least : ∀ i v, f i = some v → (i, v) ∉ r → ∀ e ∈ r, rank e.1 < rank i
  /-- An entry is left out only where the limit is reached. -/
  cut : ∀ i v, f i = some v → (i, v) ∉ r → r.length = limit
  length_le : r.length ≤ limit

/-- An enumeration, cut at a limit, lists the entries of least index. -/
theorem Enumerates.least {I V : Type*} {rank : I → Nat} {f : I → Option V} {l : List (I × V)}
    (h : Enumerates rank f l) (limit : Nat) : Least rank f limit (l.take limit) := by
  refine ⟨fun i v hmem => ?_, ?_, fun i v hv hcut e he => ?_, fun i v hv hcut => ?_, ?_⟩
  · exact (h.mem_iff i v).mp (List.mem_of_mem_take hmem)
  · exact h.increasing.sublist (List.take_sublist _ _)
  · -- what was cut off comes behind the limit, and so above
    have hmem := (h.mem_iff i v).mpr hv
    have hincreasing := h.increasing
    rw [← List.take_append_drop limit l] at hmem hincreasing
    have hdropped := (List.mem_append.mp hmem).resolve_left hcut
    exact (List.pairwise_append.mp hincreasing).2.2 e he _ hdropped
  · have hmem := (h.mem_iff i v).mpr hv
    have hlen : ¬l.length ≤ limit := by
      intro hle
      rw [List.take_of_length_le hle] at hcut
      exact hcut hmem
    rw [List.length_take]
    omega
  · exact List.length_take_le _ _

section Enumerations

variable {I : Type*} {m : Std.ExtTreeMap α β cmp} {p : α → Bool} {rank : I → Nat}
  {f : I → Option β}

/-- A selection whose keys are read back as indices enumerates what the indices hold. Three facts
carry it over: every selected key is that of an index, the index is read back from it, and the order
of the keys is that of the ranks. -/
theorem enumerates_select (mk : I → α) (un : α → I) (hkey : ∀ k ∈ m, p k → ∃ i, k = mk i)
    (hun : ∀ i, un (mk i) = i) (hrank : ∀ i j, cmp (mk i) (mk j) = .lt → rank i < rank j)
    (hf : ∀ i v, f i = some v ↔ m[mk i]? = some v ∧ p (mk i)) :
    Enumerates rank f ((select m p).map (fun e => (un e.1, e.2))) := by
  -- each selected entry names its index
  have hslot : ∀ e ∈ select m p, ∃ i, e.1 = mk i := by
    intro e he
    exact hkey e.1 (mem_of_mem_select he).1 (mem_of_mem_select he).2
  constructor
  · intro i v
    rw [hf, ← mem_select, List.mem_map]
    constructor
    · rintro ⟨⟨k, u⟩, he, heq⟩
      obtain ⟨j, rfl⟩ := hslot _ he
      rw [Prod.mk.injEq, hun] at heq
      obtain ⟨rfl, rfl⟩ := heq
      exact he
    · intro he
      exact ⟨(mk i, v), he, by rw [hun]⟩
  · -- the keys ascend, and so do the ranks of the indices read off them
    rw [List.pairwise_map]
    refine (pairwise_select m p).imp_of_mem (fun {a b} ha hb hlt => ?_)
    obtain ⟨i, hi⟩ := hslot a ha
    obtain ⟨j, hj⟩ := hslot b hb
    rw [hi, hj] at hlt
    rw [hi, hj, hun, hun]
    exact hrank i j hlt

end Enumerations

end OrderedScan

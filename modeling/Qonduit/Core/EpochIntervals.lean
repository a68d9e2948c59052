import Qonduit.Core.Structs
import Qonduit.Lib.KeyedFold
import Mathlib.Algebra.Order.Field.Basic
import Mathlib.Data.Rat.Cast.Order
import Mathlib.Data.UInt
import Mathlib.Tactic.Linarith

/-!
# Qonduit — epoch intervals

`epoch_intervals.rs`: the intervals an RPC node reports are merged into one range an epoch and
cached. A hash map hands out its entries in no particular order, which is a parameter here. The
progress of an epoch is given as the rational number the code computes in floating point.

* **`epoch_ranges_merged`** — the cache is what the entries say, in whatever order they come.
* **`progress_agrees_iff`** — the progress of an epoch and the count of epochs done disagree at its
  last tick, and nowhere else.
-/

namespace Qonduit

/-- One entry of `getProcessedTickIntervals`. -/
structure IntervalEntry where
  epoch : UInt16
  firstTick : UInt32
  lastTick : UInt32
  deriving DecidableEq

/-- The first and the last tick of each epoch. -/
abbrev EpochBounds := Std.ExtTreeMap UInt16 (UInt32 × UInt32) compare

def mergeEntry (map : EpochBounds) (entry : IntervalEntry) : EpochBounds :=
  map.alter entry.epoch fun
    | some (first, last) => some (min first entry.firstTick, max last entry.lastTick)
    | none => some (entry.firstTick, entry.lastTick)

def epochRangeOf (bounds : UInt16 × UInt32 × UInt32) : EpochRange :=
  let (epoch, first, last) := bounds
  { epoch
    firstTick := first
    lastTick := last
    tickCount := (last.saturatingSub first).saturatingAdd 1 }

/-- The ranges that replace those cached. -/
def setEpochRanges (iter : IterOrder (UInt16 × UInt32 × UInt32)) (entries : List IntervalEntry) :
    List EpochRange :=
  let map := entries.foldl mergeEntry ∅
  let rangesVec := (iter.order map.toList).map epochRangeOf
  rangesVec.insertionSort (fun a b => a.epoch.toNat ≤ b.epoch.toNat)

/-- A sum of `u64`. -/
def totalKnownTicks (ranges : List EpochRange) : UInt64 :=
  (ranges.map (fun r => r.tickCount.toUInt64)).sum

/-- The ranges that end at or below a tick. -/
def fullyIndexed (ranges : List EpochRange) (indexedTick : UInt32) : List EpochRange :=
  ranges.filter (fun r => indexedTick ≥ r.lastTick)

def epochsFullyIndexed (ranges : List EpochRange) (indexedTick : UInt32) : UInt32 :=
  UInt32.ofNat (fullyIndexed ranges indexedTick).length

/-- In percent; `None` for an epoch that is not known. -/
def epochProgressPct (ranges : List EpochRange) (epoch : UInt16) (indexedTick : UInt32) :
    Option ℚ :=
  match getEpochRange ranges epoch with
  | some range =>
    if range.tickCount = 0 then some 100
    else
      let position := indexedTick.saturatingSub range.firstTick
      let pct := (position.toNat : ℚ) / (range.tickCount.toNat : ℚ) * 100
      some (min pct 100)
  | none => none

/-! ## Merging

`set_epoch_ranges` folds the entries of one epoch into a pair of bounds in a hash map, turns the map
into ranges and sorts these. Folding and sorting are those of `KeyedFold`; what is left is that the
bounds of a group are its least first and its greatest last tick. -/

/-- What the cache has to hold for a list of entries. -/
structure MergesEntries (entries : List IntervalEntry) (ranges : List EpochRange) : Prop where
  increasing : ranges.Pairwise (fun a b => a.epoch.toNat < b.epoch.toNat)
  epochs : ∀ e, (∃ r ∈ ranges, r.epoch = e) ↔ ∃ x ∈ entries, x.epoch = e
  first : ∀ r ∈ ranges, (∃ x ∈ entries, x.epoch = r.epoch ∧ x.firstTick = r.firstTick) ∧
    ∀ x ∈ entries, x.epoch = r.epoch → r.firstTick ≤ x.firstTick
  last : ∀ r ∈ ranges, (∃ x ∈ entries, x.epoch = r.epoch ∧ x.lastTick = r.lastTick) ∧
    ∀ x ∈ entries, x.epoch = r.epoch → x.lastTick ≤ r.lastTick
  count : ∀ r ∈ ranges,
    r.tickCount.toNat = min (r.lastTick.toNat - r.firstTick.toNat + 1) 0xFFFFFFFF

/-- The least first tick and the greatest last tick of some entries. -/
structure Spans (entries : List IntervalEntry) (bounds : UInt32 × UInt32) : Prop where
  first : (∃ x ∈ entries, x.firstTick = bounds.1) ∧ ∀ x ∈ entries, bounds.1 ≤ x.firstTick
  last : (∃ x ∈ entries, x.lastTick = bounds.2) ∧ ∀ x ∈ entries, x.lastTick ≤ bounds.2

def startBounds (entry : IntervalEntry) : UInt32 × UInt32 := (entry.firstTick, entry.lastTick)

def widenBounds (bounds : UInt32 × UInt32) (entry : IntervalEntry) : UInt32 × UInt32 :=
  (min bounds.1 entry.firstTick, max bounds.2 entry.lastTick)

theorem min_cases (m n : UInt32) : min m n = m ∨ min m n = n := by
  rw [UInt32.min_eq_ite]
  split
  · exact .inl rfl
  · exact .inr rfl

theorem max_cases (m n : UInt32) : max m n = m ∨ max m n = n := by
  rw [UInt32.max_eq_ite]
  split
  · exact .inr rfl
  · exact .inl rfl

/-- One entry spans from its own first to its own last tick. -/
theorem Spans.start (x : IntervalEntry) : Spans [x] (startBounds x) := by
  have hself : ∀ y ∈ [x], y = x := fun y hy => List.mem_singleton.mp hy
  refine ⟨⟨⟨x, List.mem_singleton_self x, rfl⟩, ?_⟩, ⟨⟨x, List.mem_singleton_self x, rfl⟩, ?_⟩⟩
  · intro y hy
    rw [hself y hy]
    exact UInt32.le_refl x.firstTick
  · intro y hy
    rw [hself y hy]
    exact UInt32.le_refl x.lastTick

/-- An entry more widens the bounds to its own where they are narrower, and leaves them where they
are not. So they go on being the bounds of all entries. -/
theorem Spans.widen {entries : List IntervalEntry} {bounds : UInt32 × UInt32}
    (h : Spans entries bounds) (x : IntervalEntry) :
    Spans (entries ++ [x]) (widenBounds bounds x) := by
  have hmin := UInt32.min_le bounds.1 x.firstTick
  have hmax := UInt32.le_max bounds.2 x.lastTick
  have hnew : x ∈ entries ++ [x] := List.mem_append_right entries (List.mem_singleton_self x)
  have hold : ∀ y ∈ entries, y ∈ entries ++ [x] := fun y hy => List.mem_append_left [x] hy
  refine ⟨⟨?_, fun y hy => ?_⟩, ⟨?_, fun y hy => ?_⟩⟩
  · -- the new lower bound is that of the old entries or of the new one
    rcases min_cases bounds.1 x.firstTick with hb | hx
    · rcases h.first.1 with ⟨y, hy, heq⟩
      exact ⟨y, hold y hy, heq.trans hb.symm⟩
    · exact ⟨x, hnew, hx.symm⟩
  · rcases List.mem_append.mp hy with hy | hy
    · exact UInt32.le_trans hmin.1 (h.first.2 y hy)
    · rw [List.mem_singleton.mp hy]
      exact hmin.2
  · -- and likewise the upper bound
    rcases max_cases bounds.2 x.lastTick with hb | hx
    · rcases h.last.1 with ⟨y, hy, heq⟩
      exact ⟨y, hold y hy, heq.trans hb.symm⟩
    · exact ⟨x, hnew, hx.symm⟩
  · rcases List.mem_append.mp hy with hy | hy
    · exact UInt32.le_trans (h.last.2 y hy) hmax.1
    · rw [List.mem_singleton.mp hy]
      exact hmax.2

/-- A list of entries spans one pair of bounds. -/
theorem Spans.unique {entries : List IntervalEntry} {b b' : UInt32 × UInt32}
    (h : Spans entries b) (h' : Spans entries b') : b = b' := by
  rcases h.first with ⟨⟨x, hx, hxb⟩, hleast⟩
  rcases h'.first with ⟨⟨x', hx', hxb'⟩, hleast'⟩
  rcases h.last with ⟨⟨y, hy, hyb⟩, hgreatest⟩
  rcases h'.last with ⟨⟨y', hy', hyb'⟩, hgreatest'⟩
  refine Prod.ext (UInt32.le_antisymm ?_ ?_) (UInt32.le_antisymm ?_ ?_)
  · exact hxb' ▸ hleast x' hx'
  · exact hxb ▸ hleast' x hx
  · exact hyb ▸ hgreatest' y hy
  · exact hyb' ▸ hgreatest y' hy'

/-- The entries of an epoch. -/
def entriesOf (entries : List IntervalEntry) (e : UInt16) : List IntervalEntry :=
  entries.filter (fun x => x.epoch = e)

theorem mem_entriesOf {entries : List IntervalEntry} {e : UInt16} {x : IntervalEntry} :
    x ∈ entriesOf entries e ↔ x ∈ entries ∧ x.epoch = e := by
  rw [entriesOf, List.mem_filter, decide_eq_true_eq]

/-- The loop body is one step of the general fold by key. -/
theorem mergeEntry_eq :
    mergeEntry = KeyedFold.upsert compare IntervalEntry.epoch startBounds widenBounds := by
  funext map entry
  show map.alter entry.epoch _ = map.alter entry.epoch _
  congr 1
  funext held
  cases held <;> rfl

/-- So the loop collects the bounds of every epoch from its own entries. -/
theorem mergeEntries_eq (entries : List IntervalEntry) :
    entries.foldl mergeEntry ∅
      = KeyedFold.collect compare IntervalEntry.epoch startBounds widenBounds entries := by
  rw [mergeEntry_eq]
  rfl

/-- **What the merged map holds** for an epoch: the bounds of its entries. -/
theorem getElem?_mergeEntries {entries : List IntervalEntry} {e : UInt16}
    {bounds : UInt32 × UInt32} :
    (entries.foldl mergeEntry ∅)[e]? = some bounds ↔ Spans (entriesOf entries e) bounds := by
  rw [mergeEntries_eq, KeyedFold.getElem?_collect]
  show KeyedFold.foldGroup startBounds widenBounds (entriesOf entries e) = some bounds ↔ _
  have hspans : ∀ b, KeyedFold.foldGroup startBounds widenBounds (entriesOf entries e) = some b →
      Spans (entriesOf entries e) b := by
    intro b hb
    exact KeyedFold.foldGroup_induction Spans.start (fun _ _ x h => h.widen x) hb
  refine ⟨hspans bounds, fun h => ?_⟩
  have hne : entriesOf entries e ≠ [] := by
    rcases h.first.1 with ⟨x, hx, -⟩
    exact List.ne_nil_of_mem hx
  rcases Option.isSome_iff_exists.mp
    ((KeyedFold.foldGroup_isSome_iff startBounds widenBounds _).mpr hne) with ⟨b, hb⟩
  rw [hb, (hspans b hb).unique h]

section Ranges

variable {iter : IterOrder (UInt16 × UInt32 × UInt32)} {entries : List IntervalEntry}

/-- The ranges of the cache are those of the epochs with an entry, each from the bounds of its
entries. -/
theorem mem_setEpochRanges {r : EpochRange} :
    r ∈ setEpochRanges iter entries ↔
      ∃ bounds, Spans (entriesOf entries r.epoch) bounds ∧ r = epochRangeOf (r.epoch, bounds) := by
  rw [setEpochRanges, (List.perm_insertionSort _ _).mem_iff, List.mem_map]
  simp only [(iter.perm _).mem_iff]
  constructor
  · intro h
    rcases h with ⟨⟨e, bounds⟩, hmem, rfl⟩
    have hget := Std.ExtTreeMap.mem_toList_iff_getElem?_eq_some.mp hmem
    exact ⟨bounds, getElem?_mergeEntries.mp hget, rfl⟩
  · intro h
    rcases h with ⟨bounds, hspans, hr⟩
    refine ⟨(r.epoch, bounds), ?_, hr.symm⟩
    exact Std.ExtTreeMap.mem_toList_iff_getElem?_eq_some.mpr (getElem?_mergeEntries.mpr hspans)

/-- They are sorted by epoch, each epoch once, in whatever order the hash map is visited. -/
theorem setEpochRanges_increasing (iter : IterOrder (UInt16 × UInt32 × UInt32))
    (entries : List IntervalEntry) :
    (setEpochRanges iter entries).Pairwise (fun a b => a.epoch.toNat < b.epoch.toNat) := by
  -- the keys of a map are distinct, in whatever order they come
  have hkeys : (iter.order (entries.foldl mergeEntry ∅).toList).Pairwise
      (fun a b => a.1.toNat ≠ b.1.toNat) := by
    refine ((iter.perm _).symm.pairwise ?_ (fun hab => Ne.symm hab))
    refine Std.ExtTreeMap.distinct_keys_toList.imp (fun {a b} hne heq => hne ?_)
    rw [UInt16.toNat_inj.mp heq]
    exact Std.ReflCmp.compare_self
  exact KeyedFold.pairwise_lt_insertionSort (List.pairwise_map.mpr hkeys)

/-- The number of ticks is computed with saturation, which only an epoch of all `u32` ticks
meets. -/
theorem tickCount_epochRangeOf (e : UInt16) (bounds : UInt32 × UInt32) :
    (epochRangeOf (e, bounds)).tickCount.toNat
      = min (bounds.2.toNat - bounds.1.toNat + 1) 0xFFFFFFFF := by
  show ((bounds.2.saturatingSub bounds.1).saturatingAdd 1).toNat = _
  rw [UInt32.toNat_saturatingAdd, UInt32.toNat_saturatingSub]
  rfl

/-- The cache is the merge of the entries: all five of its properties, from the bounds of each
epoch. -/
theorem mergesEntries (iter : IterOrder (UInt16 × UInt32 × UInt32))
    (entries : List IntervalEntry) : MergesEntries entries (setEpochRanges iter entries) := by
  refine ⟨setEpochRanges_increasing iter entries, fun e => ⟨fun h => ?_, fun h => ?_⟩,
    fun r hr => ?_, fun r hr => ?_, fun r hr => ?_⟩
  · -- a range has an entry behind it
    rcases h with ⟨r, hr, rfl⟩
    rcases mem_setEpochRanges.mp hr with ⟨bounds, hspans, -⟩
    rcases hspans.first.1 with ⟨x, hx, -⟩
    exact ⟨x, mem_entriesOf.mp hx⟩
  · -- an entry has a range, as a group that is not empty has bounds
    rcases h with ⟨x, hx, he⟩
    have hne : entriesOf entries e ≠ [] := List.ne_nil_of_mem (mem_entriesOf.mpr ⟨hx, he⟩)
    rcases Option.isSome_iff_exists.mp
      ((KeyedFold.foldGroup_isSome_iff startBounds widenBounds _).mpr hne) with ⟨bounds, hb⟩
    have hspans : Spans (entriesOf entries e) bounds :=
      KeyedFold.foldGroup_induction Spans.start (fun _ _ x h => h.widen x) hb
    exact ⟨epochRangeOf (e, bounds), mem_setEpochRanges.mpr ⟨bounds, hspans, rfl⟩, rfl⟩
  · rcases mem_setEpochRanges.mp hr with ⟨bounds, hspans, heq⟩
    -- the first tick of a range is that of one of its entries, and of none a later one
    have hfirst : r.firstTick = bounds.1 := by rw [heq]; rfl
    rw [hfirst]
    rcases hspans.first with ⟨⟨x, hx, hxb⟩, hleast⟩
    refine ⟨⟨x, (mem_entriesOf.mp hx).1, (mem_entriesOf.mp hx).2, hxb⟩, fun y hy he => ?_⟩
    exact hleast y (mem_entriesOf.mpr ⟨hy, he⟩)
  · rcases mem_setEpochRanges.mp hr with ⟨bounds, hspans, heq⟩
    -- likewise its last tick
    have hlast : r.lastTick = bounds.2 := by rw [heq]; rfl
    rw [hlast]
    rcases hspans.last with ⟨⟨x, hx, hxb⟩, hgreatest⟩
    refine ⟨⟨x, (mem_entriesOf.mp hx).1, (mem_entriesOf.mp hx).2, hxb⟩, fun y hy he => ?_⟩
    exact hgreatest y (mem_entriesOf.mpr ⟨hy, he⟩)
  · rcases mem_setEpochRanges.mp hr with ⟨bounds, -, heq⟩
    have hcount := tickCount_epochRangeOf r.epoch bounds
    rw [← heq] at hcount
    have hbounds : r.firstTick = bounds.1 ∧ r.lastTick = bounds.2 := by rw [heq]; exact ⟨rfl, rfl⟩
    rw [hcount, hbounds.1, hbounds.2]

/-- The epochs of the cache are distinct, since the map has one pair of bounds for each. -/
theorem eq_of_epoch_eq {r r' : EpochRange} (hr : r ∈ setEpochRanges iter entries)
    (hr' : r' ∈ setEpochRanges iter entries) (h : r.epoch = r'.epoch) : r = r' := by
  rcases mem_setEpochRanges.mp hr with ⟨bounds, hspans, heq⟩
  rcases mem_setEpochRanges.mp hr' with ⟨bounds', hspans', heq'⟩
  rw [← h] at hspans' heq'
  rw [heq, heq', hspans.unique hspans']

/-- The search for an epoch finds its one range. -/
theorem getEpochRange_eq_some_iff {e : UInt16} {r : EpochRange} :
    getEpochRange (setEpochRanges iter entries) e = some r ↔
      r ∈ setEpochRanges iter entries ∧ r.epoch = e := by
  refine ⟨fun h => ⟨List.mem_of_find?_eq_some h, ?_⟩, fun h => ?_⟩
  · have hp := List.find?_some h
    exact of_decide_eq_true hp
  · have hsome : (getEpochRange (setEpochRanges iter entries) e).isSome := by
      rw [getEpochRange, List.find?_isSome]
      exact ⟨r, h.1, decide_eq_true h.2⟩
    rcases Option.isSome_iff_exists.mp hsome with ⟨r', hr'⟩
    have hp := List.find?_some hr'
    have hepoch : r'.epoch = e := of_decide_eq_true hp
    rw [hr', eq_of_epoch_eq (List.mem_of_find?_eq_some hr') h.1 (hepoch.trans h.2.symm)]

/-- There is room for one range an epoch number. -/
theorem length_setEpochRanges (iter : IterOrder (UInt16 × UInt32 × UInt32))
    (entries : List IntervalEntry) : (setEpochRanges iter entries).length ≤ 65536 := by
  have hlt := setEpochRanges_increasing iter entries
  have hnodup : ((setEpochRanges iter entries).map (fun r => r.epoch.toNat)).Nodup :=
    List.pairwise_map.mpr (hlt.imp Nat.ne_of_lt)
  have hsubset : (setEpochRanges iter entries).map (fun r => r.epoch.toNat) ⊆ List.range 65536 := by
    intro n hn
    rcases List.mem_map.mp hn with ⟨r, -, rfl⟩
    exact List.mem_range.mpr r.epoch.toNat_lt
  have hlength := (List.subperm_of_subset hnodup hsubset).length_le
  rwa [List.length_map, List.length_range] at hlength

/-- A sum of counters that fits 64 bits is not wrapped around. -/
theorem toNat_sum_of_lt {l : List UInt64} (h : (l.map UInt64.toNat).sum < 2 ^ 64) :
    l.sum.toNat = (l.map UInt64.toNat).sum := by
  induction l with
  | nil => rfl
  | cons n l ih =>
    rw [List.map_cons, List.sum_cons] at h
    rw [List.sum_cons, UInt64.toNat_add, List.map_cons, List.sum_cons, ih (by omega)]
    exact Nat.mod_eq_of_lt h

/-- A sum is at most its number of terms times their bound. -/
theorem sum_le_of_forall_lt {l : List Nat} {n : Nat} (h : ∀ x ∈ l, x < n) :
    l.sum ≤ l.length * n := by
  induction l with
  | nil => exact Nat.zero_le _
  | cons x l ih =>
    have hx := h x List.mem_cons_self
    have hl := ih (fun y hy => h y (List.mem_cons_of_mem x hy))
    rw [List.sum_cons, List.length_cons, Nat.succ_mul]
    omega

/-- Summing the ticks of all epochs does not overflow: at most `2 ^ 16` epochs have fewer than `2 ^
32` ticks each. -/
theorem toNat_totalKnownTicks (iter : IterOrder (UInt16 × UInt32 × UInt32))
    (entries : List IntervalEntry) :
    (totalKnownTicks (setEpochRanges iter entries)).toNat
      = ((setEpochRanges iter entries).map (fun r => r.tickCount.toNat)).sum := by
  have hlength := length_setEpochRanges iter entries
  generalize setEpochRanges iter entries = ranges at hlength ⊢
  have hmap : (ranges.map (fun r => r.tickCount.toUInt64)).map UInt64.toNat
      = ranges.map (fun r => r.tickCount.toNat) := by
    rw [List.map_map]
    rfl
  have hsum : (ranges.map (fun r => r.tickCount.toNat)).sum
      ≤ (ranges.map (fun r => r.tickCount.toNat)).length * 2 ^ 32 := by
    refine sum_le_of_forall_lt (fun x hx => ?_)
    rcases List.mem_map.mp hx with ⟨r, -, rfl⟩
    exact r.tickCount.toNat_lt
  rw [List.length_map] at hsum
  rw [totalKnownTicks, toNat_sum_of_lt, hmap]
  rw [hmap]
  omega

/-- The cache is a function of the set of entries. Two caches of one set are sorted lists of the
same ranges. -/
theorem setEpochRanges_perm {iter' : IterOrder (UInt16 × UInt32 × UInt32)}
    {entries' : List IntervalEntry} (h : entries'.Perm entries) :
    setEpochRanges iter' entries' = setEpochRanges iter entries := by
  refine KeyedFold.eq_of_pairwise_lt (setEpochRanges_increasing iter' entries')
    (setEpochRanges_increasing iter entries) (fun r => ?_)
  have hspans : ∀ bounds, Spans (entriesOf entries' r.epoch) bounds ↔
      Spans (entriesOf entries r.epoch) bounds := by
    intro bounds
    have hmem : ∀ x, x ∈ entriesOf entries' r.epoch ↔ x ∈ entriesOf entries r.epoch :=
      fun x => (h.filter _).mem_iff
    refine ⟨fun hs => ⟨?_, ?_⟩, fun hs => ⟨?_, ?_⟩⟩
    · simpa only [hmem] using hs.first
    · simpa only [hmem] using hs.last
    · simpa only [hmem] using hs.first
    · simpa only [hmem] using hs.last
  rw [mem_setEpochRanges, mem_setEpochRanges]
  simp only [hspans]

end Ranges

/-- **Epoch ranges are merged in any order.** The cache has one range for each epoch of the
entries, sorted, from its least first tick to its greatest last tick; permuting the entries or the
hash map changes nothing, and the two queries return these ranges and the sum of their ticks. -/
theorem epoch_ranges_merged (iter : IterOrder (UInt16 × UInt32 × UInt32))
    (entries : List IntervalEntry) :
    MergesEntries entries (setEpochRanges iter entries) ∧
    (∀ iter' entries', entries'.Perm entries →
      setEpochRanges iter' entries' = setEpochRanges iter entries) ∧
    (∀ e r, getEpochRange (setEpochRanges iter entries) e = some r ↔
      r ∈ setEpochRanges iter entries ∧ r.epoch = e) ∧
    (totalKnownTicks (setEpochRanges iter entries)).toNat
      = ((setEpochRanges iter entries).map (fun r => r.tickCount.toNat)).sum :=
  ⟨mergesEntries iter entries, fun _ _ h => setEpochRanges_perm h,
    fun _ _ => getEpochRange_eq_some_iff, toNat_totalKnownTicks iter entries⟩

/-! ## Progress -/

/-- The progress of an epoch is 100 from its last tick on, which is when it counts as done. -/
structure ProgressAgrees (ranges : List EpochRange) (r : EpochRange) (indexedTick : UInt32) :
    Prop where
  reached : epochProgressPct ranges r.epoch indexedTick = some 100 ↔ r.lastTick ≤ indexedTick
  counted : epochProgressPct ranges r.epoch indexedTick = some 100 ↔
    r ∈ fullyIndexed ranges indexedTick

theorem mem_fullyIndexed {ranges : List EpochRange} {r : EpochRange} {t : UInt32} :
    r ∈ fullyIndexed ranges t ↔ r ∈ ranges ∧ r.lastTick ≤ t := by
  rw [fullyIndexed, List.mem_filter, decide_eq_true_eq]

/-- The progress is 100 when the offset from the first tick reaches the number of ticks. The offset
of the last tick is one less than that, which is the point. -/
theorem epochProgressPct_eq_hundred_iff {ranges : List EpochRange} {e : UInt16} {r : EpochRange}
    (hr : getEpochRange ranges e = some r) (hcount : 0 < r.tickCount.toNat) (t : UInt32) :
    epochProgressPct ranges e t = some 100 ↔
      r.tickCount.toNat ≤ t.toNat - r.firstTick.toNat := by
  have hne : r.tickCount ≠ 0 := by
    intro h0
    rw [h0] at hcount
    exact absurd hcount (by decide)
  have hpos : (0 : ℚ) < (r.tickCount.toNat : ℚ) := by exact_mod_cast hcount
  rw [epochProgressPct, hr]
  show (if r.tickCount = 0 then some 100 else _) = some 100 ↔ _
  rw [if_neg hne, Option.some_inj, min_eq_right_iff, UInt32.toNat_saturatingSub,
    ← @Nat.cast_le ℚ]
  generalize ((t.toNat - r.firstTick.toNat : ℕ) : ℚ) = position
  generalize (r.tickCount.toNat : ℚ) = count at hpos ⊢
  have hscale : 100 ≤ position / count * 100 ↔ 1 ≤ position / count :=
    ⟨fun h => by linarith, fun h => by linarith⟩
  rw [hscale, le_div_iff₀ hpos, one_mul]

/-- **When progress and count agree** on an epoch of the cache: except at its last tick, where the
progress is still below 100, unless the epoch is all of `u32`. -/
theorem progress_agrees_iff (iter : IterOrder (UInt16 × UInt32 × UInt32))
    (entries : List IntervalEntry) {r : EpochRange} (hr : r ∈ setEpochRanges iter entries)
    (hle : r.firstTick ≤ r.lastTick) (t : UInt32) :
    ProgressAgrees (setEpochRanges iter entries) r t ↔
      t ≠ r.lastTick ∨ r.firstTick = 0 ∧ r.lastTick = 0xFFFFFFFF := by
  have hcount := (mergesEntries iter entries).count r hr
  have hget := getEpochRange_eq_some_iff.mpr ⟨hr, rfl⟩
  have hprogress := epochProgressPct_eq_hundred_iff hget (by omega) t
  have hle' : r.firstTick.toNat ≤ r.lastTick.toNat := hle
  have hlast := r.lastTick.toNat_lt
  have ht := t.toNat_lt
  rw [hcount] at hprogress
  -- the condition in numbers
  have hcond : (t ≠ r.lastTick ∨ r.firstTick = 0 ∧ r.lastTick = 0xFFFFFFFF) ↔
      (t.toNat ≠ r.lastTick.toNat ∨ r.firstTick.toNat = 0 ∧ r.lastTick.toNat = 0xFFFFFFFF) := by
    rw [Ne, Ne, ← UInt32.toNat_inj, ← UInt32.toNat_inj, ← UInt32.toNat_inj]
    rfl
  -- a progress of 100 is reached one tick late, except where the number of ticks saturates
  have hreached : (epochProgressPct (setEpochRanges iter entries) r.epoch t = some 100 ↔
      r.lastTick ≤ t) ↔ t ≠ r.lastTick ∨ r.firstTick = 0 ∧ r.lastTick = 0xFFFFFFFF := by
    rw [hprogress, hcond, UInt32.le_iff_toNat_le]
    omega
  refine ⟨fun h => hreached.mp h.reached, fun h => ⟨hreached.mpr h, ?_⟩⟩
  rw [hreached.mpr h, mem_fullyIndexed]
  exact ⟨fun ht => ⟨hr, ht⟩, fun ht => ht.2⟩

/-- A hash map that hands out its entries by key. -/
def IterOrder.sorted (α : Type) : IterOrder α := ⟨id, List.Perm.refl⟩

/-- An epoch reported in two parts, with a tick of the second part indexed. -/
theorem progress_agrees_sample :
    ProgressAgrees (setEpochRanges (.sorted _) [⟨5, 14, 20⟩, ⟨5, 10, 13⟩]) ⟨5, 10, 20, 11⟩ 15 :=
  (progress_agrees_iff (.sorted _) [⟨5, 14, 20⟩, ⟨5, 10, 13⟩] (by decide +kernel)
    (by decide) 15).mpr (.inl (by decide))

/-- An epoch of one tick is done once that tick is indexed, at a progress of 0. -/
theorem progress_below_hundred :
    setEpochRanges (.sorted _) [⟨5, 10, 10⟩] = [⟨5, 10, 10, 1⟩] ∧
    epochsFullyIndexed (setEpochRanges (.sorted _) [⟨5, 10, 10⟩]) 10 = 1 ∧
    epochProgressPct (setEpochRanges (.sorted _) [⟨5, 10, 10⟩]) 5 10 = some 0 ∧
    ¬ProgressAgrees (setEpochRanges (.sorted _) [⟨5, 10, 10⟩]) ⟨5, 10, 10, 1⟩ 10 := by
  have hzero : epochProgressPct (setEpochRanges (.sorted _) [⟨5, 10, 10⟩]) 5 10 = some 0 := by
    decide +kernel
  refine ⟨by decide +kernel, by decide +kernel, hzero, fun h => ?_⟩
  have hhundred := h.reached.mpr (by decide)
  have hepoch : (⟨5, 10, 10, 1⟩ : EpochRange).epoch = 5 := rfl
  rw [hepoch, hzero] at hhundred
  exact absurd hhundred (by decide)

end Qonduit

import Qonduit.Core.Json
import Qonduit.Lib.Paging
import Qonduit.Processor.Integrity
import Qonduit.Storage.ForwardScans

/-!
# Qonduit — the history of an entity

`get_entity_history` walks the index entries of an entity in ascending order, passes over the
first `offset` of them and collects `limit` transactions. The offset counts entries and the limit
counts transactions found; the two agree because no index entry dangles.

* **`historyFrom_eq`** — on resolving entries the loop is a window over them.
* **`entity_history_pages`** — so the pages of a history tile it, within an epoch or without one.
-/

namespace Qonduit

namespace WarmStorage

/-- The entries the loop does not break at: those under the entity, up to the upper tick. -/
def inHistory (entity : Key32) (tickUpper : Option UInt32) (key : Bytes) : Bool :=
  isUnder 40 entity.toList key
    && !tickUpper.any (fun upper => UInt32.fromBeBytes ((key.drop 32).take 4) > upper)

/-- The pair an index entry contributes. -/
def historyRow (s : WarmStorage) (x : Bytes × Bytes) : UInt32 × Bytes :=
  (UInt32.fromBeBytes ((x.1.drop 32).take 4), (s.view (.tx, x.2)).getD [])

section Loop

variable {s : WarmStorage} {entity : Key32} {tickUpper : Option UInt32} {offset limit : Nat}

/-- The loop breaks at an entry that is not in the history. -/
theorem historyFrom_break {key value : Bytes} (h : inHistory entity tickUpper key = false)
    (rest : List (Bytes × Bytes)) (skipped : Nat) (results : List (UInt32 × Bytes)) :
    s.historyFrom entity tickUpper offset limit ((key, value) :: rest) skipped results
      = .ok results := by
  rw [historyFrom]
  by_cases hunder : key.length ≠ 40 ∨ key.take 32 ≠ entity.toList
  · exact if_pos hunder
  · rw [if_neg hunder]
    refine if_pos ?_
    simp only [inHistory, isUnder, entity.toList_length, Bool.and_eq_false_iff, beq_eq_false_iff_ne,
      Bool.not_eq_false'] at h
    exact h.resolve_left hunder

/-- An entry of the history that resolves is skipped, ends the page, or joins it. Which of them is
told by what is left of the offset, and by the length of the page so far. -/
theorem historyFrom_entry {key value data : Bytes} (h : inHistory entity tickUpper key = true)
    (hlen : value.length = 32) (hget : s.view (.tx, value) = some data)
    (rest : List (Bytes × Bytes)) (skipped : Nat) (results : List (UInt32 × Bytes)) :
    s.historyFrom entity tickUpper offset limit ((key, value) :: rest) skipped results
      = if skipped < offset then
          s.historyFrom entity tickUpper offset limit rest (skipped + 1) results
        else if results.length ≥ limit then .ok results
        else s.historyFrom entity tickUpper offset limit rest skipped
          (results ++ [s.historyRow (key, value)]) := by
  have htx : s.getTx (keyOf value) = some data := by
    rw [getTx, toList_keyOf hlen]
    exact hget
  have hrow : s.historyRow (key, value) = (UInt32.fromBeBytes ((key.drop 32).take 4), data) := by
    rw [historyRow, hget]
    rfl
  simp only [inHistory, isUnder, entity.toList_length, Bool.and_eq_true, beq_iff_eq,
    Bool.not_eq_true'] at h
  obtain ⟨⟨hkey, hstem⟩, hupper⟩ := h
  rw [historyFrom, if_neg (by simp [hkey, hstem])]
  simp only [hupper, Bool.false_eq_true, if_false, hlen, ne_eq, not_true_eq_false,
    copyFromSlice_eq_keyOf hlen, ok_bind, htx, hrow]

/-- **The loop is a window**: over entries that resolve it skips what is left of the offset and
fills up to the limit. -/
theorem historyFrom_eq (entries : List (Bytes × Bytes))
    (hres : ∀ x ∈ entries, x.2.length = 32 ∧ (s.view (.tx, x.2)).isSome)
    (skipped : Nat) (results : List (UInt32 × Bytes)) (hskip : skipped ≤ offset) :
    s.historyFrom entity tickUpper offset limit entries skipped results
      = .ok (results ++ (((entries.takeWhile (fun x => inHistory entity tickUpper x.1)).drop
          (offset - skipped)).take (limit - results.length)).map s.historyRow) := by
  induction entries generalizing skipped results with
  | nil => simp [historyFrom]
  | cons x entries ih =>
    obtain ⟨key, value⟩ := x
    obtain ⟨hlen, hsome⟩ := hres (key, value) List.mem_cons_self
    obtain ⟨data, hget⟩ := Option.isSome_iff_exists.mp hsome
    have ih := ih (fun x hx => hres x (List.mem_cons_of_mem (key, value) hx))
    cases hin : inHistory entity tickUpper key with
    | false =>
      rw [historyFrom_break hin, List.takeWhile_cons_of_neg (by simp [hin])]
      simp
    | true =>
      rw [historyFrom_entry hin hlen hget, List.takeWhile_cons_of_pos (by simp [hin])]
      by_cases hoffset : skipped < offset
      · -- the entry falls to the offset
        have hleft : offset - skipped = (offset - (skipped + 1)) + 1 := by omega
        rw [if_pos hoffset, ih (skipped + 1) results hoffset, hleft, List.drop_succ_cons]
      · have hleft : offset - skipped = 0 := by omega
        rw [if_neg hoffset, hleft, List.drop_zero]
        by_cases hfull : results.length ≥ limit
        · rw [if_pos hfull, Nat.sub_eq_zero_of_le hfull]
          simp
        · -- the entry joins the page
          have hroom : limit - results.length = (limit - (results.length + 1)) + 1 := by omega
          rw [if_neg hfull, ih skipped _ hskip, hleft, List.drop_zero, hroom, List.take_succ_cons]
          simp

end Loop

/-! ## The entries of an epoch

The loop seeks the first slot it wants and stops behind the last. Since the slots of an entity are
in the order of their ticks, what it visits in between are the entries of the epoch. -/

/-- The tick lies in the range of the epoch asked for; without a filter every tick does. -/
def inEpoch (ranges : List EpochRange) (epochFilter : Option UInt16) (tick : UInt32) : Bool :=
  match epochFilter with
  | some epoch =>
    match getEpochRange ranges epoch with
    | some range => range.firstTick ≤ tick && tick ≤ range.lastTick
    | none => false
  | none => true

/-- The key of a slot of an entity. -/
def slotKey (entity : Key32) (p : UInt32 × UInt32) : Bytes := numberSlot.key entity.toList p

theorem slotKey_eq (entity : Key32) (p : UInt32 × UInt32) :
    slotKey entity p = entityTickIndexKey entity p.1 p.2 := by
  rw [slotKey, IndexNumbering.key, bytes_numberSlot]
  rfl

/-- Every key of an entity is that of a slot. -/
theorem isUnder_slotKey_iff {entity : Key32} {k : Bytes} :
    isUnder 40 entity.toList k ↔ ∃ p, k = slotKey entity p := by
  rw [isUnder_entity_iff]
  simp only [slotKey_eq]

theorem tick_slotKey (entity : Key32) (p : UInt32 × UInt32) :
    UInt32.fromBeBytes (((slotKey entity p).drop 32).take 4) = p.1 := by
  rw [slotKey_eq, entityTickIndexKey, List.drop_left' entity.toList_length, tickIndexKey,
    List.take_left' (UInt32.length_toBeBytes p.1), UInt32.fromBeBytes_toBeBytes]

/-- Slots are numbered by tick, then by index. -/
theorem number_slot (p : UInt32 × UInt32) :
    numberSlot.number p = p.1.toNat * 256 ^ 4 + p.2.toNat := rfl

/-- Slots in the order of their keys have ticks in order. -/
theorem tick_le_of_compare {entity : Key32} {p q : UInt32 × UInt32}
    (h : compare (slotKey entity p) (slotKey entity q) = .lt) : p.1 ≤ q.1 := by
  have hlt := numberSlot.number_lt_of_compare h
  have hq := q.2.toNat_lt
  rw [number_slot, number_slot] at hlt
  rw [UInt32.le_iff_toNat_le]
  omega

/-- The entries the loop walks from a start key under the entity: those of the entity that are not
before the start, up to the first behind the epoch. -/
theorem seek_inHistory (s : WarmStorage) (entity : Key32) (tickUpper : Option UInt32)
    (pad : Bytes) :
    (OrderedScan.seek (s.db .txByEntity) (entity.toList ++ pad)).takeWhile
        (fun x => inHistory entity tickUpper x.1)
      = OrderedScan.select (s.db .txByEntity) (fun k => inHistory entity tickUpper k
          && !(compare k (entity.toList ++ pad) == .lt)) := by
  rw [OrderedScan.seek_eq_select]
  refine OrderedScan.takeWhile_select (fun x hx y hy hxy hxlow _ hyin => ?_)
  have hlen : ∀ k ∈ s.db .txByEntity, k.length = 40 := s.length_of_mem rfl
  simp only [Bool.not_eq_true', beq_eq_false_iff_ne] at hxlow
  obtain ⟨hyunder, hyupper⟩ := Bool.and_eq_true_iff.mp hyin
  have hxunder := isUnder_of_between (hlen x hx) hxlow hxy hyunder
  obtain ⟨p, rfl⟩ := isUnder_slotKey_iff.mp hxunder
  obtain ⟨q, rfl⟩ := isUnder_slotKey_iff.mp hyunder
  refine Bool.and_eq_true_iff.mpr ⟨hxunder, ?_⟩
  cases tickUpper with
  | none => rfl
  | some upper =>
    simp only [Option.any_some, tick_slotKey, Bool.not_eq_true', decide_eq_false_iff_not,
      gt_iff_lt, UInt32.not_lt] at hyupper ⊢
    exact UInt32.le_trans (tick_le_of_compare hxy) hyupper

/-- The index entries of an entity within an epoch, by ascending key. -/
def historyEntries (s : WarmStorage) (ranges : List EpochRange) (entity : Key32)
    (epochFilter : Option UInt16) : List (Bytes × Bytes) :=
  OrderedScan.select (s.db .txByEntity) (fun k => isUnder 40 entity.toList k
    && inEpoch ranges epochFilter (UInt32.fromBeBytes ((k.drop 32).take 4)))

/-- From the first slot of a tick on, the loop meets the slots of that tick and of later ones. -/
theorem slotKey_start {entity : Key32} {p : UInt32 × UInt32} {tick : UInt32} :
    compare (slotKey entity p) (entity.toList ++ tick.toBeBytes ++ (0 : UInt32).toBeBytes) ≠ .lt
      ↔ tick ≤ p.1 := by
  have hp := p.2.toNat_lt
  have hstart : entity.toList ++ tick.toBeBytes ++ (0 : UInt32).toBeBytes
      = slotKey entity (tick, 0) := by
    rw [slotKey_eq, entityTickIndexKey, tickIndexKey, List.append_assoc]
  rw [hstart, slotKey, slotKey, IndexNumbering.compare_key, Ne, Nat.compare_eq_lt, number_slot,
    number_slot, UInt32.le_iff_toNat_le, UInt32.toNat_zero]
  dsimp only
  omega

/-- Every key under an entity is met from the bare entity on. -/
theorem compare_slotKey_entity (entity : Key32) (p : UInt32 × UInt32) :
    compare (slotKey entity p) (entity.toList ++ []) ≠ .lt := by
  rw [slotKey, IndexNumbering.key, Positional.compare_append_of_length_eq rfl, compare_self_bytes,
    Ordering.then]
  cases numberSlot.bytes p <;> simp [compare, List.compareLex]

/-- The scan reads the entries of the history where, on the keys under the entity, the upper tick
and the start key together are the epoch. -/
theorem takeWhile_seek_eq (s : WarmStorage) (ranges : List EpochRange) (entity : Key32)
    (epochFilter : Option UInt16) (tickUpper : Option UInt32) (pad : Bytes)
    (h : ∀ p, (!(tickUpper.any fun upper => decide (p.1 > upper))
        && !(compare (slotKey entity p) (entity.toList ++ pad) == .lt))
      = inEpoch ranges epochFilter p.1) :
    (OrderedScan.seek (s.db .txByEntity) (entity.toList ++ pad)).takeWhile
        (fun x => inHistory entity tickUpper x.1)
      = s.historyEntries ranges entity epochFilter := by
  rw [seek_inHistory, historyEntries]
  refine OrderedScan.select_congr (fun k _ => ?_)
  cases hunder : isUnder 40 entity.toList k with
  | false => simp [inHistory, hunder]
  | true =>
    obtain ⟨p, rfl⟩ := isUnder_slotKey_iff.mp hunder
    rw [inHistory, hunder, tick_slotKey, Bool.true_and, Bool.true_and]
    exact h p

/-- **What `get_entity_history` returns**: a window over the entries within the epoch. The loop
starts at the first slot of the epoch, or of the entity where no epoch is given, and breaks behind
the last. -/
theorem getEntityHistory_eq {s : WarmStorage} (hs : Resolves s) (ranges : List EpochRange)
    (entity : Key32) (epochFilter : Option UInt16) (offset limit : Nat) :
    s.getEntityHistory ranges entity epochFilter offset limit
      = .ok ((((s.historyEntries ranges entity epochFilter).drop offset).take limit).map
          s.historyRow) := by
  have hres : ∀ k, ∀ x ∈ OrderedScan.seek (s.db .txByEntity) k,
      x.2.length = 32 ∧ (s.view (.tx, x.2)).isSome := by
    intro k x hx
    rw [OrderedScan.seek_eq_select] at hx
    exact hs .txByEntity (by simp [hashFamilies]) x.1 x.2 (OrderedScan.mem_select.mp hx).1
  unfold getEntityHistory
  cases epochFilter with
  | none =>
    have hall := takeWhile_seek_eq s ranges entity none none [] (fun p => by
      simp only [Option.any_none, Bool.not_false, Bool.true_and, inEpoch, Bool.not_eq_true',
        beq_eq_false_iff_ne]
      exact compare_slotKey_entity entity p)
    rw [List.append_nil] at hall
    dsimp only
    rw [historyFrom_eq _ (hres _) 0 [] (Nat.zero_le _), hall]
    rfl
  | some epoch =>
    cases hrange : getEpochRange ranges epoch with
    | none =>
      -- no entry lies in an epoch that is not known
      have hnil : s.historyEntries ranges entity (some epoch) = [] := by
        refine List.filter_eq_nil_iff.mpr (fun x _ => ?_)
        simp [inEpoch, hrange]
      simp only [hrange, hnil, List.drop_nil, List.take_nil, List.map_nil]
    | some range =>
      have hwithin := takeWhile_seek_eq s ranges entity (some epoch) (some range.lastTick)
        (range.firstTick.toBeBytes ++ (0 : UInt32).toBeBytes) (fun p => by
          rw [← List.append_assoc, Bool.eq_iff_iff]
          simp only [Option.any_some, inEpoch, hrange, Bool.and_eq_true, Bool.not_eq_true',
            decide_eq_false_iff_not, beq_eq_false_iff_ne, decide_eq_true_eq, gt_iff_lt,
            UInt32.not_lt]
          rw [slotKey_start, and_comm])
      rw [← List.append_assoc] at hwithin
      simp only [hrange]
      rw [historyFrom_eq _ (hres _) 0 [] (Nat.zero_le _), hwithin]
      rfl

/-- The entries of the history enumerate the slots of the entity within the epoch. -/
theorem historyEntries_enumerates (s : WarmStorage) (ranges : List EpochRange) (entity : Key32)
    (epochFilter : Option UInt16) :
    OrderedScan.Enumerates numberSlot.number
      (fun p => if inEpoch ranges epochFilter p.1 then s.entitySlot entity p else none)
      ((s.historyEntries ranges entity epochFilter).map
        (fun x => (numberSlot.read (x.1.drop 32), x.2))) := by
  refine OrderedScan.enumerates_select (slotKey entity)
    (fun k => numberSlot.read (k.drop 32)) ?_ ?_ ?_ ?_
  · intro k _ hk
    exact isUnder_slotKey_iff.mp (Bool.and_eq_true_iff.mp hk).1
  · intro p
    rw [slotKey, IndexNumbering.key, List.drop_left' entity.toList_length,
      IndexNumbering.read_bytes]
  · intro p q
    exact numberSlot.number_lt_of_compare
  · intro p v
    have hunder : isUnder 40 entity.toList (slotKey entity p) = true :=
      isUnder_slotKey_iff.mpr ⟨p, rfl⟩
    rw [hunder, tick_slotKey, Bool.true_and, Option.ite_none_right_eq_some, and_comm, slotKey_eq]
    rfl

end WarmStorage

namespace Indexer

open WarmStorage

/-- **The pages of a history tile it.** In every reachable store an entity has one history within
an epoch or without one: a pair for each of its index entries there, by ascending tick. A page that
is long enough is the history, and pages of any size read up to the first empty one are the
history too. -/
theorem entity_history_pages {c : Crates} {ix : Indexer} (hix : Reachable c ix)
    (ranges : List EpochRange) (entity : Key32) (epochFilter : Option UInt16) {size : Nat}
    (hsize : 1 ≤ size) :
    ∃ entries history,
      OrderedScan.Enumerates numberSlot.number
        (fun p => if inEpoch ranges epochFilter p.1 then ix.storage.entitySlot entity p else none)
        entries ∧
      List.Forall₂ (fun x row => row.1 = x.1.1 ∧ ix.storage.view (.tx, x.2) = some row.2)
        entries history ∧
      history.Pairwise (fun a b => a.1 ≤ b.1) ∧
      (∀ limit, history.length ≤ limit →
        ix.storage.getEntityHistory ranges entity epochFilter 0 limit = .ok history) ∧
      Paging.ReadsAll (fun k =>
        ix.storage.getEntityHistory ranges entity epochFilter (k * size) size) history := by
  have hs := resolves_of_reachable hix
  let xs := ix.storage.historyEntries ranges entity epochFilter
  have hxs : ∀ x ∈ xs, (∃ p, x.1 = slotKey entity p) ∧
      ix.storage.view (.txByEntity, x.1) = some x.2 := by
    intro x hx
    obtain ⟨hget, hp⟩ := OrderedScan.mem_select.mp hx
    exact ⟨isUnder_slotKey_iff.mp (Bool.and_eq_true_iff.mp hp).1, hget⟩
  refine ⟨_, xs.map ix.storage.historyRow,
    ix.storage.historyEntries_enumerates ranges entity epochFilter, ?_, ?_, ?_, ?_⟩
  · -- the pair of an entry has its tick and the transaction under its hash
    rw [List.forall₂_map_left_iff, List.forall₂_map_right_iff, List.forall₂_same]
    intro x hx
    obtain ⟨⟨p, hp⟩, hget⟩ := hxs x hx
    refine ⟨?_, ?_⟩
    · rw [historyRow, hp, tick_slotKey, slotKey, IndexNumbering.key,
        List.drop_left' entity.toList_length, IndexNumbering.read_bytes]
    · have hsome := (hs .txByEntity (by simp [hashFamilies]) x.1 x.2 hget).2
      obtain ⟨data, hdata⟩ := Option.isSome_iff_exists.mp hsome
      rw [historyRow, hdata]
      rfl
  · rw [List.pairwise_map]
    refine (OrderedScan.pairwise_select _ _).imp_of_mem (fun {x y} hx hy hlt => ?_)
    obtain ⟨⟨p, hp⟩, -⟩ := hxs x hx
    obtain ⟨⟨q, hq⟩, -⟩ := hxs y hy
    rw [hp, hq] at hlt
    rw [historyRow, historyRow, hp, hq, tick_slotKey, tick_slotKey]
    exact tick_le_of_compare hlt
  · intro limit hlimit
    rw [List.length_map] at hlimit
    rw [getEntityHistory_eq hs, List.drop_zero, List.take_of_length_le hlimit]
  · refine Paging.readsAll_of_windows hsize (fun k => ?_)
    rw [getEntityHistory_eq hs, Paging.window, List.map_take, List.map_drop]

def sampleHistory : Known where
  txs := [sampleTx 1 3, sampleTx 2 4]
  k12 := [burnChecksum]

/-- Transactions of ticks 3 and 4, read in pages of one within an epoch from tick 4 on. -/
theorem entity_history_pages_sample :
    let ix := run (.ofKnown sampleHistory) (new .empty {})
      [(.tx, (sampleTx 1 3).json), (.tx, (sampleTx 2 4).json)]
    let history := fun offset limit =>
      ix.storage.getEntityHistory [⟨7, 4, 9, 6⟩] zeroKey (some 7) offset limit
    history 0 5 = .ok [(4, (sampleTx 2 4).json)] ∧
    ∃ rows, (∀ limit, rows.length ≤ limit → history 0 limit = .ok rows) ∧
      Paging.ReadsAll (fun k => history (k * 1) 1) rows := by
  intro ix history
  obtain ⟨_, rows, -, -, -, hlimit, hpages⟩ := entity_history_pages
    (.run (.init {}) [(.tx, (sampleTx 1 3).json), (.tx, (sampleTx 2 4).json)])
    [⟨7, 4, 9, 6⟩] zeroKey (some 7) (Nat.le_refl 1)
  exact ⟨by decide +kernel, rows, hlimit, hpages⟩

end Indexer

end Qonduit

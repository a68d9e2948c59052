import Qonduit.Core.Json
import Qonduit.Processor.StreamLog
import Qonduit.Storage.WarmScan
import Mathlib.Data.List.Dedup

/-!
# Qonduit — the transaction indexes

What `tx`, `tx_by_tick` and `tx_by_entity` hold after a sequence of `index_transaction` calls
on an empty database: each is the last write of a log of placements. The slot of a transaction
is its `position` in a run of equal ticks, not a function of its payload, and from this come
the condition of the main result:

* **`nodup_slotsOf_iff`** — a sequence of ticks gives every transaction its own slot exactly
  when the ticks arrive in contiguous runs.
* **`tickIndex_complete_iff`** — no transaction is lost from the tick index exactly then.
-/

namespace Qonduit

namespace Placement

variable (c : Crates)

/-- The storage key of the transaction. -/
def hash (a : Placement) : Key32 := a.tx.hashBytes c

/-- The transaction is indexed under the entity. -/
def Involves (a : Placement) (e : Key32) : Prop :=
  a.tx.source c = some e ∨ a.tx.destination c = some e

instance (a : Placement) (e : Key32) : Decidable (a.Involves c e) :=
  inferInstanceAs (Decidable (_ ∨ _))

end Placement

/-- The placements of one tick. -/
def ofTick (t : UInt32) (ps : List Placement) : List Placement :=
  ps.filter (fun a => a.tx.tick = t)

/-- The placements of one entity. -/
def ofEntity (c : Crates) (e : Key32) (ps : List Placement) : List Placement :=
  ps.filter (fun a => a.Involves c e)

/-- The writes under one tick: index and hash. -/
def tickLog (c : Crates) (t : UInt32) (ps : List Placement) : List (UInt32 × Bytes) :=
  (ofTick t ps).map (fun a => (a.index, (a.hash c).toList))

/-- The writes under one entity: slot and hash. -/
def entityLog (c : Crates) (e : Key32) (ps : List Placement) :
    List ((UInt32 × UInt32) × Bytes) :=
  (ofEntity c e ps).map (fun a => (a.slot, (a.hash c).toList))

/-- The writes into `tx`: hash and payload. -/
def hashLog (c : Crates) (ps : List Placement) : List (Key32 × Bytes) :=
  ps.map (fun a => (a.hash c, a.payload))

namespace Indexer

/-! ## Logs of placements

The writes of a placement into its three families, each seen as a log of its own. -/

theorem map_filter_eq_flatMap {α β : Type} (l : List α) (p : α → Bool) (f : α → β) :
    (l.filter p).map f = l.flatMap (fun x => if p x then [f x] else []) := by
  induction l with
  | nil => rfl
  | cons x l ih => by_cases h : p x <;> simp [h, ih]

theorem filter_txPuts_txByTick (c : Crates) (a : Placement) :
    (a.puts c).filter (fun p => p.cf = .txByTick)
      = [.txForTick a.tx.tick a.index (a.hash c)] := by
  cases hs : a.tx.source c <;> cases hd : a.tx.destination c <;>
    simp [Placement.puts, txPuts, WarmStorage.batchPutTx, hs, hd, Placement.hash, Put.tx,
      Put.txForTick, Put.txForEntity]

theorem filter_txPuts_tx (c : Crates) (a : Placement) :
    (a.puts c).filter (fun p => p.cf = .tx) = [.tx (a.hash c) a.payload] := by
  cases hs : a.tx.source c <;> cases hd : a.tx.destination c <;>
    simp [Placement.puts, txPuts, WarmStorage.batchPutTx, hs, hd, Placement.hash, Put.tx,
      Put.txForTick, Put.txForEntity]

theorem filter_txPuts_txByEntity (c : Crates) (a : Placement) :
    (a.puts c).filter (fun p => p.cf = .txByEntity)
      = ((a.tx.source c).toList ++ (a.tx.destination c).toList).map
          (fun e => .txForEntity e a.tx.tick a.index (a.hash c)) := by
  cases hs : a.tx.source c <;> cases hd : a.tx.destination c <;>
    simp [Placement.puts, txPuts, WarmStorage.batchPutTx, hs, hd, Placement.hash, Put.tx,
      Put.txForTick, Put.txForEntity]

/-- What the placements leave in `tx_by_tick`. -/
theorem last_txByTick (c : Crates) (ps : List Placement) (t i : UInt32) :
    WriteLog.last ((ps.flatMap (Placement.puts c)).map Put.write) (.txByTick, tickIndexKey t i)
      = WriteLog.last (tickLog c t ps) i := by
  rw [List.map_flatMap, tickLog, ofTick, map_filter_eq_flatMap]
  refine WriteLog.last_flatMap_congr (fun a _ => ?_)
  rw [← last_filter_cf, filter_txPuts_txByTick, List.map_singleton, WriteLog.last_singleton]
  simp only [Put.write, Put.txForTick, Prod.mk.injEq, true_and, WarmStorage.tickIndexKey_inj,
    decide_eq_true_eq]
  by_cases ht : a.tx.tick = t <;> simp [ht]

/-- What one placement leaves under an entity. -/
theorem last_txForEntity (es : List Key32) (slot slot' : UInt32 × UInt32) (h e : Key32) :
    WriteLog.last ((es.map (fun e => Put.txForEntity e slot.1 slot.2 h)).map Put.write)
        (.txByEntity, entityTickIndexKey e slot'.1 slot'.2)
      = if e ∈ es ∧ slot = slot' then some h.toList else none := by
  induction es with
  | nil => simp
  | cons x es ih =>
    rw [List.map_cons, List.map_cons, WriteLog.last_cons, ih]
    simp only [Put.write, Put.txForEntity, Prod.mk.injEq, true_and,
      WarmStorage.entityTickIndexKey_inj, ← Prod.ext_iff]
    by_cases hslot : slot = slot'
    · by_cases hes : e ∈ es
      · simp [hes, hslot]
      · simp [hes, hslot, eq_comm]
    · simp [hslot]

/-- What they leave in `tx_by_entity`. -/
theorem last_txByEntity (c : Crates) (ps : List Placement) (e : Key32) (slot : UInt32 × UInt32) :
    WriteLog.last ((ps.flatMap (Placement.puts c)).map Put.write)
        (.txByEntity, entityTickIndexKey e slot.1 slot.2)
      = WriteLog.last (entityLog c e ps) slot := by
  rw [List.map_flatMap, entityLog, ofEntity, map_filter_eq_flatMap]
  refine WriteLog.last_flatMap_congr (fun a _ => ?_)
  rw [← last_filter_cf, filter_txPuts_txByEntity]
  refine (last_txForEntity _ a.slot slot (a.hash c) e).trans ?_
  have hmem : e ∈ (a.tx.source c).toList ++ (a.tx.destination c).toList ↔ a.Involves c e := by
    simp [Placement.Involves]
  by_cases he : a.Involves c e <;> simp [hmem, he]

/-- What they leave in `tx`. -/
theorem last_tx (c : Crates) (ps : List Placement) (h : Key32) :
    WriteLog.last ((ps.flatMap (Placement.puts c)).map Put.write) (.tx, h.toList)
      = WriteLog.last (hashLog c ps) h := by
  rw [List.map_flatMap, hashLog, List.map_eq_flatMap]
  refine WriteLog.last_flatMap_congr (fun a _ => ?_)
  rw [← last_filter_cf, filter_txPuts_tx, List.map_singleton, WriteLog.last_singleton,
    WriteLog.last_singleton]
  simp only [Put.write, Put.tx, Prod.mk.injEq, true_and, WarmStorage.toList_injective.eq_iff]

/-! ## The store after a sequence of calls

The three families hold what their logs end with. -/

/-- An owned family is the log of the placements. -/
theorem view_indexTransactions {cf : Cf} (hcf : owner cf = some .tx) (c : Crates)
    (pl : PipelineState) (payloads : List Bytes) (k : Bytes) :
    (indexTransactions c (new .empty pl) payloads).storage.view (cf, k)
      = WriteLog.last (((placements c payloads).flatMap (Placement.puts c)).map Put.write)
          (cf, k) := by
  rw [indexTransactions, view_run hcf, ofStream_map, WriteLog.replay, WarmStorage.view_empty,
    Option.or_none]
  rfl

theorem tickSlot_indexTransactions (c : Crates) (pl : PipelineState) (payloads : List Bytes)
    (t i : UInt32) :
    (indexTransactions c (new .empty pl) payloads).storage.tickSlot t i
      = WriteLog.last (tickLog c t (placements c payloads)) i :=
  (view_indexTransactions rfl c pl payloads _).trans (last_txByTick c _ t i)

theorem entitySlot_indexTransactions (c : Crates) (pl : PipelineState) (payloads : List Bytes)
    (e : Key32) (slot : UInt32 × UInt32) :
    (indexTransactions c (new .empty pl) payloads).storage.entitySlot e slot
      = WriteLog.last (entityLog c e (placements c payloads)) slot :=
  (view_indexTransactions rfl c pl payloads _).trans (last_txByEntity c _ e slot)

theorem getTx_indexTransactions (c : Crates) (pl : PipelineState) (payloads : List Bytes)
    (h : Key32) :
    (indexTransactions c (new .empty pl) payloads).storage.getTx h
      = WriteLog.last (hashLog c (placements c payloads)) h :=
  (view_indexTransactions rfl c pl payloads _).trans (last_tx c _ h)

end Indexer

/-! ## Slots of a sequence of ticks

The slots depend on the sequence of the ticks only. Where the ticks are contiguous a slot is a tick
and the number of its transactions before, and these are all different until the counter wraps. -/

/-- Two transactions of one tick have only transactions of that tick between them. -/
def Contiguous (ticks : List UInt32) : Prop :=
  ∀ pre t mid post, ticks = pre ++ t :: (mid ++ t :: post) → ∀ u ∈ mid, u = t

/-- The slots of transactions that follow earlier ones of the given ticks. -/
def slotsAfter (before : List UInt32) : List UInt32 → List (UInt32 × UInt32)
  | [] => []
  | t :: ticks => (t, position before t) :: slotsAfter (before ++ [t]) ticks

/-- The slots a sequence of ticks is given. -/
def slotsOf (ticks : List UInt32) : List (UInt32 × UInt32) := slotsAfter [] ticks

/-- The slots of placements are those of their ticks. -/
theorem map_slot_placeAfter (before : List UInt32) (ds : List Delivery) :
    (placeAfter before ds).map Placement.slot = slotsAfter before (ds.map (·.1.tick)) := by
  induction ds generalizing before with
  | nil => rfl
  | cons d ds ih =>
    rw [placeAfter, List.map_cons, List.map_cons, slotsAfter, ih]
    rfl

theorem map_slot_placements (c : Crates) (payloads : List Bytes) :
    (placements c payloads).map Placement.slot = slotsOf (acceptedTicks c payloads) :=
  map_slot_placeAfter [] _

theorem slotsAfter_append (before ticks ticks' : List UInt32) :
    slotsAfter before (ticks ++ ticks')
      = slotsAfter before ticks ++ slotsAfter (before ++ ticks) ticks' := by
  induction ticks generalizing before with
  | nil => simp [slotsAfter]
  | cons t ticks ih => simp [slotsAfter, ih]

/-- One more tick gets the slot at its position. -/
theorem slotsOf_append_singleton (ticks : List UInt32) (t : UInt32) :
    slotsOf (ticks ++ [t]) = slotsOf ticks ++ [(t, position ticks t)] := by
  rw [slotsOf, slotsAfter_append]
  rfl

/-- After another tick the counter restarts. -/
theorem position_of_getLast?_ne {ticks : List UInt32} {t : UInt32} (h : ticks.getLast? ≠ some t) :
    position ticks t = 0 := by
  rcases List.eq_nil_or_concat ticks with rfl | ⟨ticks', u, rfl⟩
  · rfl
  · rw [List.concat_eq_append] at h ⊢
    rw [position_append_singleton, if_neg]
    rintro rfl
    exact h List.getLast?_concat

theorem getLast?_append_cons_concat (pre mid : List UInt32) (t u : UInt32) :
    (pre ++ t :: mid.concat u).getLast? = some u := by
  rw [List.concat_eq_append, ← List.cons_append, ← List.append_assoc, List.getLast?_concat]

/-- One more tick keeps them contiguous if it is new or the last one again. Otherwise it returns to
a tick that others have followed, and its counter starts over. -/
theorem contiguous_append_singleton {ticks : List UInt32} {t : UInt32} :
    Contiguous (ticks ++ [t]) ↔
      Contiguous ticks ∧ (t ∈ ticks → ticks.getLast? = some t) := by
  constructor
  · intro h
    refine ⟨?_, fun ht => ?_⟩
    · rintro pre u mid post rfl
      exact h pre u mid (post ++ [t]) (by simp)
    · obtain ⟨pre, mid, rfl⟩ := List.append_of_mem ht
      have hmid := h pre t mid [] (by simp)
      rcases List.eq_nil_or_concat mid with rfl | ⟨mid', u, rfl⟩
      · simp
      · rw [getLast?_append_cons_concat, hmid u (by simp)]
  · rintro ⟨h, hlast⟩ pre u mid post heq
    rcases List.eq_nil_or_concat post with rfl | ⟨post', x, rfl⟩
    · -- the second occurrence is the new one
      rw [← List.cons_append, ← List.append_assoc] at heq
      obtain ⟨rfl, hx⟩ := List.append_inj' heq rfl
      cases hx
      have htail := hlast (by simp)
      rcases List.eq_nil_or_concat mid with rfl | ⟨mid', v, rfl⟩
      · simp
      · rw [getLast?_append_cons_concat] at htail
        cases htail
        intro w hw
        rw [List.concat_eq_append] at hw
        rcases List.mem_append.mp hw with hw | hw
        · exact h pre _ mid' [] (by simp) w hw
        · exact List.mem_singleton.mp hw
    · -- both occurrences are among the earlier ticks
      have heq' : ticks ++ [t] = (pre ++ u :: (mid ++ u :: post')) ++ [x] := by
        rw [heq]; simp
      obtain ⟨rfl, -⟩ := List.append_inj' heq' rfl
      exact h pre u mid post' rfl

/-- The run a tick sequence ends in. -/
def runLength (ticks : List UInt32) (t : UInt32) : Nat :=
  (ticks.reverse.takeWhile (· = t)).length

theorem runLength_append_singleton (ticks : List UInt32) (u t : UInt32) :
    runLength (ticks ++ [u]) t = if u = t then runLength ticks t + 1 else 0 := by
  by_cases h : u = t <;> simp [runLength, h]

/-- In contiguous ticks a run holds all transactions of its tick. -/
theorem runLength_eq_count {ticks : List UInt32} {t : UInt32} (h : Contiguous (ticks ++ [t])) :
    runLength ticks t = ticks.count t := by
  induction ticks using List.reverseRecOn with
  | nil => rfl
  | append_singleton ticks u ih =>
    obtain ⟨hprev, hlast⟩ := contiguous_append_singleton.mp h
    rw [runLength_append_singleton, List.count_append, List.count_singleton]
    by_cases hu : u = t
    · subst hu
      rw [ih hprev]
      simp
    · -- a transaction of `t` before `u` would be separated from the next one
      have hnot : t ∉ ticks := by
        intro ht
        have := hlast (by simp [ht])
        exact hu (by simpa using this)
      simp [hu, List.count_eq_zero_of_not_mem hnot]

/-- With contiguous ticks the position is the count. -/
theorem position_eq_count {ticks : List UInt32} {t : UInt32} (h : Contiguous (ticks ++ [t])) :
    position ticks t = UInt32.ofNat (ticks.count t) := by
  rw [← runLength_eq_count h]
  rfl

/-- So the slots of a tick are numbered from 0 on. -/
theorem mem_slotsOf_iff {ticks : List UInt32} (h : Contiguous ticks) {t i : UInt32} :
    (t, i) ∈ slotsOf ticks ↔ ∃ n < ticks.count t, i = UInt32.ofNat n := by
  induction ticks using List.reverseRecOn with
  | nil => simp [slotsOf, slotsAfter]
  | append_singleton ticks u ih =>
    rw [slotsOf_append_singleton, List.mem_append, ih (contiguous_append_singleton.mp h).1,
      position_eq_count h, List.mem_singleton, Prod.mk.injEq, List.count_append,
      List.count_singleton]
    by_cases hu : t = u
    · subst hu
      simp only [beq_self_eq_true, if_true, true_and]
      constructor
      · rintro (⟨n, hn, rfl⟩ | rfl)
        · exact ⟨n, by omega, rfl⟩
        · exact ⟨_, by omega, rfl⟩
      · rintro ⟨n, hn, rfl⟩
        rcases Nat.lt_succ_iff_lt_or_eq.mp hn with hn | rfl
        · exact .inl ⟨n, hn, rfl⟩
        · exact .inr rfl
    · simp [hu, Ne.symm hu]

/-- **Every transaction gets its own slot** exactly when the ticks are contiguous and none has
more than 2^32 transactions. -/
theorem nodup_slotsOf_iff (ticks : List UInt32) :
    (slotsOf ticks).Nodup ↔ Contiguous ticks ∧ ∀ t, ticks.count t ≤ 2 ^ 32 := by
  induction ticks using List.reverseRecOn with
  | nil => simp [slotsOf, slotsAfter, Contiguous]
  | append_singleton ticks t ih =>
    have hcount : ∀ u, (ticks ++ [t]).count u = ticks.count u + if t = u then 1 else 0 := by
      intro u
      rw [List.count_append, List.count_singleton]
      simp only [beq_iff_eq]
    rw [slotsOf_append_singleton, ← List.concat_eq_append, List.nodup_concat, ih]
    constructor
    · rintro ⟨hnew, hcont, hle⟩
      have hcont' : Contiguous (ticks ++ [t]) := by
        refine contiguous_append_singleton.mpr ⟨hcont, fun ht => ?_⟩
        -- a restarted counter gives the slot of the tick's first transaction again
        by_contra hlast
        rw [position_of_getLast?_ne hlast] at hnew
        exact hnew ((mem_slotsOf_iff hcont).mpr ⟨0, List.count_pos_iff.mpr ht, rfl⟩)
      refine ⟨hcont', fun u => ?_⟩
      rw [hcount]
      split
      · next hu =>
        subst hu
        -- after 2^32 transactions the counter is back at 0
        by_contra hfull
        have hcnt : ticks.count t = 2 ^ 32 := by
          have := hle t
          omega
        have hzero : position ticks t = UInt32.ofNat 0 := by
          rw [position_eq_count hcont', hcnt]
          rfl
        rw [hzero] at hnew
        exact hnew ((mem_slotsOf_iff hcont).mpr ⟨0, by omega, rfl⟩)
      · exact hle u
    · rintro ⟨hcont', hle⟩
      have hcont := (contiguous_append_singleton.mp hcont').1
      have hlt : ticks.count t < 2 ^ 32 := by
        have := hle t
        rw [hcount, if_pos rfl] at this
        omega
      -- below 2^32 the positions of one run are distinct as `u32`
      refine ⟨fun hmem => ?_, hcont, fun u => ?_⟩
      · obtain ⟨n, hn, heq⟩ := (mem_slotsOf_iff hcont).mp hmem
        rw [position_eq_count hcont', ← UInt32.toNat_inj, UInt32.toNat_ofNat_of_lt' hlt,
          UInt32.toNat_ofNat_of_lt' (Nat.lt_trans hn hlt)] at heq
        omega
      · have := hle u
        rw [hcount] at this
        omega

/-! ## The tick index

A transaction is found under its tick as long as its slot keeps its hash. -/

theorem map_delivery_placeAfter (before : List UInt32) (ds : List Delivery) :
    (placeAfter before ds).map (fun a => (a.tx, a.payload)) = ds := by
  induction ds generalizing before with
  | nil => rfl
  | cons d ds ih => rw [placeAfter, List.map_cons, ih]

theorem map_delivery_placements (c : Crates) (payloads : List Bytes) :
    (placements c payloads).map (fun a => (a.tx, a.payload)) = accepted c payloads :=
  map_delivery_placeAfter [] _

/-- What a tick slot holds was placed there. -/
theorem exists_placement_of_last {c : Crates} {t i : UInt32} {ps : List Placement} {h : Key32}
    (hlast : WriteLog.last (tickLog c t ps) i = some h.toList) :
    ∃ a ∈ ps, a.slot = (t, i) ∧ a.hash c = h := by
  obtain ⟨a, ha, heq⟩ := List.mem_map.mp (WriteLog.mem_of_last hlast)
  obtain ⟨hmem, ht⟩ := List.mem_filter.mp ha
  obtain ⟨hi, hh⟩ := Prod.mk.inj heq
  refine ⟨a, hmem, ?_, WarmStorage.toList_injective hh⟩
  rw [Placement.slot, of_decide_eq_true ht, hi]

section DistinctHashes

variable {c : Crates} {ps : List Placement} (hnd : (ps.map (Placement.hash c)).Nodup)

include hnd

/-- With distinct hashes a slot that holds the hash of a placement is that placement's. -/
theorem last_eq_hash_iff {a : Placement} (ha : a ∈ ps) {i : UInt32} :
    WriteLog.last (tickLog c a.tx.tick ps) i = some (a.hash c).toList ↔
      i = a.index ∧ WriteLog.last (tickLog c a.tx.tick ps) a.index = some (a.hash c).toList := by
  constructor
  · intro hlast
    obtain ⟨b, hb, hslot, hhash⟩ := exists_placement_of_last hlast
    have hba : b = a := List.inj_on_of_nodup_map hnd hb ha hhash
    subst hba
    have hi : i = b.index := (Prod.mk.inj hslot).2.symm
    exact ⟨hi, hi ▸ hlast⟩
  · rintro ⟨rfl, hlast⟩
    exact hlast

/-- With distinct hashes it is listed once if its own slot holds it. -/
theorem existsUnique_slot_iff {a : Placement} (ha : a ∈ ps) :
    (∃! i, WriteLog.last (tickLog c a.tx.tick ps) i = some (a.hash c).toList) ↔
      WriteLog.last (tickLog c a.tx.tick ps) a.index = some (a.hash c).toList := by
  constructor
  · rintro ⟨i, hi, -⟩
    exact ((last_eq_hash_iff hnd ha).mp hi).2
  · intro h
    exact ⟨a.index, h, fun j hj => ((last_eq_hash_iff hnd ha).mp hj).1⟩

/-- Every placement is still in its slot exactly when no two share one. As the hashes are distinct,
a slot that was used twice holds the hash of the later placement and not that of the earlier one. -/
theorem all_in_slot_iff :
    (∀ a ∈ ps, WriteLog.last (tickLog c a.tx.tick ps) a.index = some (a.hash c).toList) ↔
      (ps.map Placement.slot).Nodup := by
  constructor
  · intro h
    refine (List.nodup_map_iff_inj_on (List.Nodup.of_map _ hnd)).mpr ?_
    intro a ha b hb hslot
    obtain ⟨ht, hi⟩ := Prod.mk.inj hslot
    have hlast := h a ha
    rw [ht, hi, h b hb, Option.some_inj] at hlast
    exact List.inj_on_of_nodup_map hnd ha hb (WarmStorage.toList_injective hlast).symm
  · intro h a ha
    refine WriteLog.last_of_mem_of_nodup ?_ (List.mem_map.mpr ⟨a, ?_, rfl⟩)
    · have hsub : ((ofTick a.tx.tick ps).map Placement.slot).Nodup :=
        h.sublist (List.filter_sublist.map _)
      have hmap : (ofTick a.tx.tick ps).map Placement.slot
          = ((tickLog c a.tx.tick ps).map Prod.fst).map (Prod.mk a.tx.tick) := by
        rw [tickLog, List.map_map, List.map_map]
        refine List.map_congr_left (fun b hb => ?_)
        have ht := of_decide_eq_true (List.mem_filter.mp hb).2
        rw [Placement.slot, ht]
        rfl
      rw [hmap] at hsub
      exact List.Nodup.of_map _ hsub
    · exact List.mem_filter.mpr ⟨ha, by simp⟩

end DistinctHashes

namespace Indexer

/-- **When the tick index is complete.** For transactions with distinct hashes, indexed into an
empty database, every accepted transaction is listed exactly once under its tick if and only
if the ticks are contiguous and none has more than 2^32 transactions. -/
theorem tickIndex_complete_iff (c : Crates) (pl : PipelineState) (payloads : List Bytes)
    (hdistinct : ((accepted c payloads).map (fun d => d.1.hashBytes c)).Nodup) :
    (∀ d ∈ accepted c payloads, ∃ hs,
      (indexTransactions c (new .empty pl) payloads).storage.getTxHashesForTick d.1.tick = .ok hs
        ∧ hs.count (d.1.hashBytes c) = 1)
    ↔ Contiguous (acceptedTicks c payloads) ∧
      ∀ t, (acceptedTicks c payloads).count t ≤ 2 ^ 32 := by
  have hnd : ((placements c payloads).map (Placement.hash c)).Nodup := by
    rw [← map_delivery_placements c payloads, List.map_map] at hdistinct
    exact hdistinct
  -- the condition says that no two placements share a slot
  rw [← nodup_slotsOf_iff, ← map_slot_placements, ← all_in_slot_iff hnd,
    ← map_delivery_placements c payloads, List.forall_mem_map]
  -- and the listing counts a hash once exactly when one slot holds it
  refine forall₂_congr (fun a ha => ?_)
  rw [← existsUnique_slot_iff hnd ha]
  obtain ⟨hs, hok, hlists⟩ :=
    (indexTransactions c (new .empty pl) payloads).storage.getTxHashesForTick_ok a.tx.tick
  have hcount := hlists.count_eq_one_iff (a.hash c)
  simp only [tickSlot_indexTransactions] at hcount
  rw [← hcount]
  constructor
  · rintro ⟨hs', hok', h⟩
    rw [hok] at hok'
    cases hok'
    exact h
  · intro h
    exact ⟨hs, hok, h⟩

/-- Three transactions of ticks 1, 1 and 2, and three of ticks 1, 2 and 1. -/
def sampleTxs : Known where
  txs := [sampleTx 1 1, sampleTx 2 1, sampleTx 2 2, sampleTx 3 2, sampleTx 3 1]
  k12 := [burnChecksum]

/-- Two transactions of one tick and one of the next. -/
theorem tickIndex_complete_sample :
    let payloads := [(sampleTx 1 1).json, (sampleTx 2 1).json, (sampleTx 3 2).json]
    ∀ d ∈ accepted (.ofKnown sampleTxs) payloads, ∃ hs,
      (indexTransactions (.ofKnown sampleTxs) (new .empty {}) payloads).storage.getTxHashesForTick
          d.1.tick = .ok hs ∧ hs.count (d.1.hashBytes (.ofKnown sampleTxs)) = 1 := by
  intro payloads
  obtain ⟨hticks, hdistinct⟩ : acceptedTicks (.ofKnown sampleTxs) payloads = [1, 1, 2] ∧
      ((accepted (.ofKnown sampleTxs) payloads).map
        (fun d => d.1.hashBytes (.ofKnown sampleTxs))).Nodup := by
    decide +kernel
  refine (tickIndex_complete_iff (.ofKnown sampleTxs) {} payloads hdistinct).mpr ?_
  rw [hticks, ← nodup_slotsOf_iff]
  decide

/-- With ticks 1, 2, 1 the third transaction takes the slot of the first, whose hash is gone
from the listing of tick 1. -/
theorem tickIndex_loses_transaction :
    let payloads := [(sampleTx 1 1).json, (sampleTx 2 2).json, (sampleTx 3 1).json]
    ((accepted (.ofKnown sampleTxs) payloads).map
        (fun d => d.1.hashBytes (.ofKnown sampleTxs))).Nodup
    ∧ (sampleTx 1 1, (sampleTx 1 1).json) ∈ accepted (.ofKnown sampleTxs) payloads
    ∧ (indexTransactions (.ofKnown sampleTxs) (new .empty {}) payloads).storage.getTxHashesForTick 1
        = .ok [(sampleTx 3 1).hashBytes (.ofKnown sampleTxs)]
    ∧ [(sampleTx 3 1).hashBytes (.ofKnown sampleTxs)].count
        ((sampleTx 1 1).hashBytes (.ofKnown sampleTxs)) = 0 := by
  decide +kernel

end Indexer

end Qonduit

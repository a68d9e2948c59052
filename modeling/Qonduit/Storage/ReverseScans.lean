import Qonduit.Storage.ForwardScans

/-!
# Qonduit — the reverse scans of the warm tier

`get_latest_tick`, `get_latest_computors` and `get_latest_oracle` iterate a family from its end,
`get_tx_hashes_for_entity` from the artificial key `entity || 0xFF * 8`, below which the entity's
own keys come first.

* **`lastEntry_eq_getLast?`** — an iteration from the end of a family stops at the last entry of its
  enumeration.
* **`getLatestTick_eq_some_iff`** — so the latest tick is the greatest stored.
* **`getTxHashesForEntity_newest`** — the listing of an entity is its enumeration backwards, cut at
  the limit.
* **`reverseScansExact`** — all of them, by the bytes that a store holds.
* **`reverse_scans_exact`** — the same after any run of the writers, by the arguments of its calls.
-/

namespace Qonduit

/-- Slots are numbered in the order of their ticks, and within a tick of their indices. -/
theorem lex_of_number_lt {p q : UInt32 × UInt32} (h : numberSlot.number p < numberSlot.number q) :
    Prod.Lex (· < ·) (· < ·) p q := by
  have hp := p.2.toNat_lt
  have hq := q.2.toNat_lt
  have h' : p.1.toNat * 256 ^ 4 + p.2.toNat < q.1.toNat * 256 ^ 4 + q.2.toNat := h
  rw [Prod.lex_def, UInt32.lt_iff_toNat_lt, UInt32.lt_iff_toNat_lt, ← UInt32.toNat_inj]
  omega

namespace WarmStorage

/-- Reverse scan of `CF_COMPUTORS` for its first two-byte key. -/
def getLatestComputors (s : WarmStorage) : Option (UInt16 × Bytes) :=
  ((s.db .computors).toList.reverse.find? (fun e => e.1.length == 2)).map
    (fun e => (UInt16.fromBeBytes e.1, e.2))

/-- Reverse scan of `CF_ORACLE` for its first four-byte key. -/
def getLatestOracle (s : WarmStorage) : Option (UInt32 × Bytes) :=
  ((s.db .oracle).toList.reverse.find? (fun e => e.1.length == 4)).map
    (fun e => (UInt32.fromBeBytes e.1, e.2))

/-! ## From the end of a family

A reverse iterator starts behind the last key. The getters that look for the latest entry take the
first row whose key has the expected length. -/

/-- **A reverse scan of a family** whose keys have one length stops at its first entry, which is
the last of the enumeration. -/
theorem lastEntry_eq_getLast? (s : WarmStorage) {I : Type} {size : Nat} (N : IndexNumbering I size)
    (cf : Cf) (hcf : cf.keyLength = some size) :
    ∃ l, OrderedScan.Enumerates N.number (fun i => s.view (cf, N.bytes i)) l ∧
      ((s.db cf).toList.reverse.find? (fun e => e.1.length == size)).map
        (fun e => (N.read e.1, e.2)) = l.getLast? := by
  have hlen : ∀ e ∈ (s.db cf).toList, e.1.length = size := fun e he =>
    s.keyLength_of_view (Std.ExtTreeMap.mem_toList_iff_getElem?_eq_some.mp he) hcf
  refine ⟨_, s.scanUnder_enumerates N cf hcf [] (Nat.zero_add size).symm, ?_⟩
  -- nothing is passed over: every key has the length the loop looks for
  have hscan : scanUnder (s.db cf) size [] = (s.db cf).toList := by
    rw [scanUnder_eq_select (s.length_of_mem hcf), OrderedScan.select, List.filter_eq_self]
    intro e he
    exact isUnder_iff.mpr ⟨hlen e he, e.1, rfl⟩
  have hfind : (s.db cf).toList.reverse.find? (fun e => e.1.length == size)
      = (s.db cf).toList.getLast? := by
    rw [← List.head?_reverse]
    cases hrev : (s.db cf).toList.reverse with
    | nil => rfl
    | cons e rest =>
      have he : e ∈ (s.db cf).toList :=
        List.mem_reverse.mp (hrev ▸ List.mem_cons_self)
      rw [List.find?_cons_of_pos (by simp [hlen e he]), List.head?_cons]
  rw [hfind, hscan, List.getLast?_map]
  rfl

/-! ## The latest tick

`get_latest_tick` goes backwards over the ticks and stops at once, so that it returns the last of
the enumeration, if there is one. -/

def HasTick (s : WarmStorage) (t : UInt32) : Prop :=
  ∃ v, s.view (.tick, t.toBeBytes) = some v

/-- The latest tick is the last of the stored ones, in the order of their numbers. -/
theorem getLatestTick_eq_getLast? (s : WarmStorage) :
    ∃ ticks, OrderedScan.Enumerates UInt32.toNat (fun t => s.view (.tick, t.toBeBytes)) ticks ∧
      s.getLatestTick = ticks.getLast?.map Prod.fst := by
  obtain ⟨ticks, hticks, hlast⟩ := s.lastEntry_eq_getLast? numberU32 .tick rfl
  refine ⟨ticks, hticks, ?_⟩
  rw [← hlast, Option.map_map]
  rfl

/-- **`get_latest_tick` is the greatest stored tick.** -/
theorem getLatestTick_eq_some_iff (s : WarmStorage) (t : UInt32) :
    s.getLatestTick = some t ↔ s.HasTick t ∧ ∀ u, s.HasTick u → u ≤ t := by
  obtain ⟨ticks, hticks, hlatest⟩ := s.getLatestTick_eq_getLast?
  have hmax : ∀ v, ticks.getLast? = some (t, v) ↔
      s.view (.tick, t.toBeBytes) = some v ∧ ∀ u, s.HasTick u → u ≤ t := by
    intro v
    rw [hticks.getLast?_eq_some_iff]
    simp only [Option.isSome_iff_exists, HasTick, UInt32.le_iff_toNat_le]
  rw [hlatest, Option.map_eq_some_iff]
  constructor
  · rintro ⟨⟨t', v⟩, hlast, rfl⟩
    obtain ⟨hv, hle⟩ := (hmax v).mp hlast
    exact ⟨⟨v, hv⟩, hle⟩
  · rintro ⟨⟨v, hv⟩, hle⟩
    exact ⟨(t, v), (hmax v).mpr ⟨hv, hle⟩, rfl⟩

/-- A tick is missing where nothing is stored under it. -/
theorem not_hasTick_iff {s : WarmStorage} {t : UInt32} :
    ¬s.HasTick t ↔ s.view (.tick, t.toBeBytes) = none := by
  rw [HasTick, not_exists, Option.eq_none_iff_forall_ne_some]

/-- There is no latest tick exactly if no tick is stored. -/
theorem getLatestTick_eq_none_iff (s : WarmStorage) :
    s.getLatestTick = none ↔ ∀ t, ¬s.HasTick t := by
  obtain ⟨ticks, hticks, hlatest⟩ := s.getLatestTick_eq_getLast?
  rw [hlatest, Option.map_eq_none_iff, hticks.getLast?_eq_none_iff]
  exact forall_congr' fun t => not_hasTick_iff.symm

/-! ## The transactions of an entity

`get_tx_hashes_for_entity` seeks the last possible key of the entity and goes backwards until the
key belongs to another one, or the limit is reached. -/

/-- **`get_tx_hashes_for_entity` lists the newest slots of the entity**, whatever the limit. -/
theorem getTxHashesForEntity_newest (s : WarmStorage) (e : Key32) (limit : Nat) :
    ∃ newest hashes, s.getTxHashesForEntity e limit = .ok hashes ∧
      hashes.map List.Vector.toList = newest.map Prod.snd ∧
      OrderedScan.Newest (Prod.Lex (· < ·) (· < ·)) (s.entitySlot e) limit newest := by
  have henum := (s.scanUnder_enumerates numberSlot .txByEntity rfl e.toList
    (by simp)).congr (g := s.entitySlot e) (fun p => by
      rw [entitySlot, IndexNumbering.key, bytes_numberSlot, entityTickIndexKey])
  have hlen : ∀ x ∈ (scanUnder (s.db .txByEntity) 40 e.toList).reverse.take limit,
      x.2.length = 32 := by
    intro x hx
    exact s.valueLength_of_mem_scanUnder rfl rfl x (List.mem_reverse.mp (List.mem_of_mem_take hx))
  obtain ⟨hashes, hok, hval⟩ := mapM_copyFromSlice hlen
  refine ⟨_, hashes, ?_, ?_, henum.newest (fun _ _ => lex_of_number_lt) limit⟩
  · rw [getTxHashesForEntity_eq, hok]
  · rw [hval, ← List.map_reverse, ← List.map_take, List.map_map]
    rfl

/-! ## What a store holds -/

/-- What the reverse scans of a store return, given the entry under each key. -/
structure ReverseScansExact (s : WarmStorage) (entry : Cf → Bytes → Option Bytes) : Prop where
  /-- A slot of an entity is a tick and an index. -/
  txHashes : ∀ e limit, ∃ newest hashes, s.getTxHashesForEntity e limit = .ok hashes ∧
    hashes.map List.Vector.toList = newest.map Prod.snd ∧
    OrderedScan.Newest (Prod.Lex (· < ·) (· < ·))
      (fun p => entry .txByEntity (entityTickIndexKey e p.1 p.2)) limit newest
  latestTick : ∀ t, s.getLatestTick = some t ↔
    (entry .tick t.toBeBytes).isSome ∧ ∀ u, (entry .tick u.toBeBytes).isSome → u ≤ t
  latestTick_none : s.getLatestTick = none ↔ ∀ t : UInt32, entry .tick t.toBeBytes = none
  latestComputors : ∀ epoch data, s.getLatestComputors = some (epoch, data) ↔
    entry .computors epoch.toBeBytes = some data ∧
      ∀ u, (entry .computors u.toBeBytes).isSome → u ≤ epoch
  latestComputors_none : s.getLatestComputors = none ↔
    ∀ epoch : UInt16, entry .computors epoch.toBeBytes = none
  latestOracle : ∀ tick data, s.getLatestOracle = some (tick, data) ↔
    entry .oracle tick.toBeBytes = some data ∧ ∀ u, (entry .oracle u.toBeBytes).isSome → u ≤ tick
  latestOracle_none : s.getLatestOracle = none ↔
    ∀ tick : UInt32, entry .oracle tick.toBeBytes = none

/-- The five scans together, in terms of the bytes a store holds. -/
theorem reverseScansExact (s : WarmStorage) :
    ReverseScansExact s (fun cf k => s.view (cf, k)) := by
  obtain ⟨epochs, hepochs, hepoch⟩ := s.lastEntry_eq_getLast? numberU16 .computors rfl
  obtain ⟨entries, hentries, hentry⟩ := s.lastEntry_eq_getLast? numberU32 .oracle rfl
  have hcomputors : s.getLatestComputors = epochs.getLast? := hepoch
  have horacle : s.getLatestOracle = entries.getLast? := hentry
  refine ⟨s.getTxHashesForEntity_newest, fun t => ?_, ?_, fun epoch data => ?_, ?_,
    fun tick data => ?_, ?_⟩
  · simp only [Option.isSome_iff_exists]
    exact s.getLatestTick_eq_some_iff t
  · rw [s.getLatestTick_eq_none_iff]
    exact forall_congr' fun t => not_hasTick_iff
  · rw [hcomputors]
    exact hepochs.getLast?_eq_some_iff
  · rw [hcomputors]
    exact hepochs.getLast?_eq_none_iff
  · rw [horacle]
    exact hentries.getLast?_eq_some_iff
  · rw [horacle]
    exact hentries.getLast?_eq_none_iff

/-! ## Every run of the writers -/

/-- What the reverse scans of a store return, given the calls that filled it. -/
structure NewestScansExact (s : WarmStorage) (calls : List PutCall) : Prop where
  /-- A slot of an entity is a tick and an index. -/
  txHashes : ∀ e limit, ∃ newest, s.getTxHashesForEntity e limit = .ok (newest.map Prod.snd) ∧
    OrderedScan.Newest (Prod.Lex (· < ·) (· < ·))
      (fun p => lastPut PutCall.txsForEntity calls (e, p.1, p.2)) limit newest
  latestTick : ∀ t, s.getLatestTick = some t ↔
    (lastPut PutCall.ticks calls t).isSome ∧
      ∀ u, (lastPut PutCall.ticks calls u).isSome → u ≤ t
  latestTick_none : s.getLatestTick = none ↔ ∀ t, lastPut PutCall.ticks calls t = none
  latestComputors : ∀ epoch data, s.getLatestComputors = some (epoch, data) ↔
    lastPut PutCall.computors calls epoch = some data ∧
      ∀ u, (lastPut PutCall.computors calls u).isSome → u ≤ epoch
  latestComputors_none : s.getLatestComputors = none ↔
    ∀ epoch, lastPut PutCall.computors calls epoch = none
  latestOracle : ∀ tick data, s.getLatestOracle = some (tick, data) ↔
    lastPut PutCall.oracles calls tick = some data ∧
      ∀ u, (lastPut PutCall.oracles calls u).isSome → u ≤ tick
  latestOracle_none : s.getLatestOracle = none ↔ ∀ tick, lastPut PutCall.oracles calls tick = none

/-- The newest slots of an entity, as hashes. -/
theorem getTxHashesForEntity_exact (calls : List PutCall) (e : Key32) (limit : Nat) :
    ∃ newest, (empty.perform calls).getTxHashesForEntity e limit = .ok (newest.map Prod.snd) ∧
      OrderedScan.Newest (Prod.Lex (· < ·) (· < ·))
        (fun p => lastPut PutCall.txsForEntity calls (e, p.1, p.2)) limit newest := by
  obtain ⟨newest, hashes, hok, hval, hnewest⟩ :=
    (empty.perform calls).getTxHashesForEntity_newest e limit
  have hslot : (empty.perform calls).entitySlot e = fun p =>
      (lastPut PutCall.txsForEntity calls (e, p.1, p.2)).map List.Vector.toList :=
    funext fun p => PutCall.records_txsForEntity.view_perform calls (e, p.1, p.2)
  rw [hslot] at hnewest
  refine ⟨_, ?_, hnewest.map_value keyOf_toList⟩
  rw [hok, eq_map_keyOf hval, List.map_map, List.map_map]
  rfl

/-- **The newest-first scans are exact** after any run of the writers. -/
theorem reverse_scans_exact (calls : List PutCall) :
    NewestScansExact (empty.perform calls) calls := by
  have h := reverseScansExact (empty.perform calls)
  have hticks := view_perform_id PutCall.records_ticks calls
  have hcomputors := view_perform_id PutCall.records_computors calls
  have horacles := view_perform_id PutCall.records_oracles calls
  refine ⟨getTxHashesForEntity_exact calls, fun t => ?_, ?_, fun epoch data => ?_, ?_,
    fun tick data => ?_, ?_⟩
  · simp only [← hticks]
    exact h.latestTick t
  · simp only [← hticks]
    exact h.latestTick_none
  · simp only [← hcomputors]
    exact h.latestComputors epoch data
  · simp only [← hcomputors]
    exact h.latestComputors_none
  · simp only [← horacles]
    exact h.latestOracle tick data
  · simp only [← horacles]
    exact h.latestOracle_none

end WarmStorage

end Qonduit

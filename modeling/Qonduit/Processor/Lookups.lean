import Qonduit.Core.Json
import Qonduit.Processor.WellKeyed
import Qonduit.Storage.LimitedScans

/-!
# Qonduit — what a lookup finds

A caller of the warm tier gets bytes and the key it asked for, no more. In the store of a
processor the bytes are always a document of the family, and the field the family is keyed by is
the one asked for; nothing the readers do with a record can fail on its form.

* **`LookupsKeyed`** — every reader of a document, one field each.
* **`lookups_keyed`** — in any state of any run, restarts included.
-/

namespace Qonduit

/-- A stored tick: accepted, and under its own number. -/
def IsTick (c : Crates) (n : UInt32) (data : Bytes) : Prop :=
  ∃ tick, c.serde.tickData.fromSlice data = .ok tick ∧ tick.tick = n ∧ tick.epoch ≤ 1000

def IsComputors (c : Crates) (epoch : UInt16) (data : Bytes) : Prop :=
  ∃ computors, c.serde.computors.fromSlice data = .ok computors ∧ computors.epoch = epoch

def IsAsset (c : Crates) (index : UInt32) (data : Bytes) : Prop :=
  ∃ asset, c.serde.assetRecord.fromSlice data = .ok asset ∧ asset.issuanceIndex = index

def IsContractIpo (c : Crates) (index : UInt32) (data : Bytes) : Prop :=
  ∃ ipo, c.serde.contractIpo.fromSlice data = .ok ipo ∧ ipo.contractIndex = index

def IsEntity (c : Crates) (key : Key32) (data : Bytes) : Prop :=
  ∃ entity, c.serde.entityData.fromSlice data = .ok entity ∧
    decodeBase26 c entity.identity = some key

def IsSpectrumEntry (c : Crates) (key : Key32) (data : Bytes) : Prop :=
  ∃ entry, c.serde.valueFromSlice data = .ok entry ∧
    decodeBase26 c ((entry.field "identity").asStr.getD []) = some key

/-- A data point lies under the tick it names. One that names none, as all that the decoder
publishes, reads as tick 0 and lies under the tick the processor was at. -/
def IsOracle (c : Crates) (tick : UInt32) (data : Bytes) : Prop :=
  ∃ entry, c.serde.valueFromSlice data = .ok entry ∧ (entry.tick ≠ 0 → entry.tick = tick)

def IsEpochStats (c : Crates) (epoch : UInt16) (data : Bytes) : Prop :=
  ∃ stats, data = c.serde.epochStats.toVec stats ∧ stats.epoch = epoch

/-- The current tick and epoch are those of a stored tick, or there is no tick at all. -/
def CurrentTickKnown (c : Crates) (s : WarmStorage) : Prop :=
  (s.getCurrentTick = none ∧ s.getCurrentEpoch = none ∧ s.getLatestTick = none) ∨
  ∃ tick data, c.serde.tickData.fromSlice data = .ok tick ∧ s.getTick tick.tick = some data ∧
    s.getCurrentTick = some tick.tick ∧ s.getCurrentEpoch = some tick.epoch

structure LookupsKeyed (c : Crates) (s : WarmStorage) : Prop where
  tick : ∀ n data, s.getTick n = some data → IsTick c n data
  tickRange : ∀ fromTick toTick n data, (n, data) ∈ s.getTickRange fromTick toTick →
    IsTick c n data
  tx : ∀ hash data, s.getTx hash = some data →
    ∃ tx, c.serde.transaction.fromSlice data = .ok tx ∧ tx.hashBytes c = hash
  entity : ∀ key data, s.getEntity key = some data → IsEntity c key data
  spectrum : ∀ key data, s.getSpectrumEntry key = some data → IsSpectrumEntry c key data
  spectrumRange : ∀ start count, ∃ entries, s.getSpectrumRange start count = .ok entries ∧
    ∀ key data, (key, data) ∈ entries → IsSpectrumEntry c key data
  asset : ∀ index data, s.getAsset index = some data → IsAsset c index data
  allAssets : ∀ limit index data, (index, data) ∈ s.getAllAssets limit → IsAsset c index data
  computors : ∀ epoch data, s.getComputors epoch = some data → IsComputors c epoch data
  latestComputors : ∀ epoch data, s.getLatestComputors = some (epoch, data) →
    IsComputors c epoch data
  contractIpo : ∀ index data, s.getContractIpo index = some data → IsContractIpo c index data
  allContractIpos : ∀ limit index data, (index, data) ∈ s.getAllContractIpos limit →
    IsContractIpo c index data
  oracle : ∀ tick data, s.getOracle tick = some data → IsOracle c tick data
  latestOracle : ∀ tick data, s.getLatestOracle = some (tick, data) → IsOracle c tick data
  epochStats : ∀ epoch data, s.getEpochStats epoch = some data → IsEpochStats c epoch data
  epochStatsList : ∀ epoch data, (epoch, data) ∈ s.listEpochStats → IsEpochStats c epoch data
  votes : ∀ t index data, (index, data) ∈ s.getVotesForTick t →
    ∃ vote, c.serde.valueFromSlice data = .ok vote ∧ vote.tick = t ∧ vote.computorIndex = index
  messages : ∀ t, ∀ data ∈ s.getCustomMessagesForTick t,
    ∃ msg, c.serde.valueFromSlice data = .ok msg ∧ msg.tick = t
  events : ∀ t, ∀ data ∈ s.getLogEventsForTick t,
    ∃ event, data = c.serde.logEvent.toVec event ∧ event.tick = t
  assetsForEntity : ∀ e, ∀ index ∈ s.getAssetsForEntity e, (s.getAsset index).isSome
  current : CurrentTickKnown c s

/-! ## Reading `Recorded` backwards

A record was written in one of a few ways, and its key was made of the record each time. Given the
family and the key, one way is left, and it says what the record is. -/

namespace Recorded

variable {c : Crates} {P : Bytes → Prop} {v : Bytes}

theorem isTick {n : UInt32} (h : Recorded c P .tick n.toBeBytes v) : IsTick c n v := by
  generalize hk : n.toBeBytes = k at h
  cases h with
  | tick given parses accepted =>
    refine ⟨_, parses, (UInt32.toBeBytes_inj.mp hk).symm, ?_⟩
    simpa [Indexer.acceptsTick] using accepted
  | reference family => simp [referenceFamilies] at family

theorem tx_key {hash : Key32} (h : Recorded c P .tx hash.toList v) :
    ∃ tx, c.serde.transaction.fromSlice v = .ok tx ∧ tx.hashBytes c = hash := by
  generalize hk : hash.toList = k at h
  cases h with
  | tx given parses => exact ⟨_, parses, (List.Vector.toList_injective hk).symm⟩
  | reference family => simp [referenceFamilies] at family

theorem isEntity {key : Key32} (h : Recorded c P .entity key.toList v) : IsEntity c key v := by
  generalize hk : key.toList = k at h
  cases h with
  | entity given parses decodes =>
    rw [List.Vector.toList_injective hk]
    exact ⟨_, parses, decodes⟩
  | reference family => simp [referenceFamilies] at family

theorem isSpectrumEntry {key : Key32} (h : Recorded c P .spectrum key.toList v) :
    IsSpectrumEntry c key v := by
  generalize hk : key.toList = k at h
  cases h with
  | spectrum given parses decodes =>
    rw [List.Vector.toList_injective hk]
    exact ⟨_, parses, decodes⟩
  | reference family => simp [referenceFamilies] at family

theorem isAsset {index : UInt32} (h : Recorded c P .asset index.toBeBytes v) :
    IsAsset c index v := by
  generalize hk : index.toBeBytes = k at h
  cases h with
  | asset given parses => exact ⟨_, parses, (UInt32.toBeBytes_inj.mp hk).symm⟩
  | reference family => simp [referenceFamilies] at family

theorem isComputors {epoch : UInt16} (h : Recorded c P .computors epoch.toBeBytes v) :
    IsComputors c epoch v := by
  generalize hk : epoch.toBeBytes = k at h
  cases h with
  | computors given parses => exact ⟨_, parses, (UInt16.toBeBytes_inj.mp hk).symm⟩
  | reference family => simp [referenceFamilies] at family

theorem isContractIpo {index : UInt32} (h : Recorded c P .contractIpo index.toBeBytes v) :
    IsContractIpo c index v := by
  generalize hk : index.toBeBytes = k at h
  cases h with
  | contractIpo given parses => exact ⟨_, parses, (UInt32.toBeBytes_inj.mp hk).symm⟩
  | reference family => simp [referenceFamilies] at family

/-- In that of the oracle, whose records may name no tick. -/
theorem isOracle {tick : UInt32} (h : Recorded c P .oracle tick.toBeBytes v) :
    IsOracle c tick v := by
  generalize hk : tick.toBeBytes = k at h
  cases h with
  | oracle given parses own =>
    rw [UInt32.toBeBytes_inj.mp hk]
    exact ⟨_, parses, fun hne => (own hne).symm⟩
  | reference family => simp [referenceFamilies] at family

/-- In that of the statistics, which only the processor writes. -/
theorem isEpochStats {epoch : UInt16} (h : Recorded c P .epochStats epoch.toBeBytes v) :
    IsEpochStats c epoch v := by
  generalize hk : epoch.toBeBytes = k at h
  cases h with
  | epochStats stats => exact ⟨stats, rfl, (UInt16.toBeBytes_inj.mp hk).symm⟩
  | reference family => simp [referenceFamilies] at family

theorem vote_key {t : UInt32} {index : UInt16}
    (h : Recorded c P .tickVote (t.toBeBytes ++ index.toBeBytes) v) :
    ∃ vote, c.serde.valueFromSlice v = .ok vote ∧ vote.tick = t ∧ vote.computorIndex = index := by
  generalize hk : t.toBeBytes ++ index.toBeBytes = k at h
  cases h with
  | tickVote given parses =>
    obtain ⟨ht, hi⟩ := List.append_inj hk (by simp)
    exact ⟨_, parses, (UInt32.toBeBytes_inj.mp ht).symm, (UInt16.toBeBytes_inj.mp hi).symm⟩
  | reference family => simp [referenceFamilies] at family

theorem message_key {t index : UInt32} (h : Recorded c P .customMessage (tickIndexKey t index) v) :
    ∃ msg, c.serde.valueFromSlice v = .ok msg ∧ msg.tick = t := by
  generalize hk : tickIndexKey t index = k at h
  cases h with
  | customMessage index' given parses =>
    exact ⟨_, parses, (WarmStorage.tickIndexKey_inj.mp hk).1.symm⟩
  | reference family => simp [referenceFamilies] at family

theorem event_key {t index : UInt32} {eventType : UInt8}
    (h : Recorded c P .logEvent (tickIndexKey t index ++ [eventType]) v) :
    ∃ event, v = c.serde.logEvent.toVec event ∧ event.tick = t := by
  generalize hk : tickIndexKey t index ++ [eventType] = k at h
  cases h with
  | logEvent event =>
    obtain ⟨hkey, -⟩ := List.append_inj hk (by simp)
    exact ⟨event, rfl, (WarmStorage.tickIndexKey_inj.mp hkey).1.symm⟩
  | reference family => simp [referenceFamilies] at family

end Recorded

namespace Indexer

variable {c : Crates} {P : Bytes → Prop} {s : WarmStorage}

/-- The current tick is read from records that are written together with the tick. -/
theorem currentTickKnown_of_wellKeyed (h : WellKeyed c P s) : CurrentTickKnown c s := by
  rcases h.current with hnone | ⟨tick, payload, parses, hstored, htick, hepoch⟩
  · refine .inl ⟨?_, ?_, ?_⟩
    · have hmeta : s.getMeta currentTickKey = none := (hnone currentTickKey).2
      rw [WarmStorage.getCurrentTick, hmeta]
    · have hmeta : s.getMeta currentEpochKey = none := (hnone currentEpochKey).2
      rw [WarmStorage.getCurrentEpoch, hmeta]
    · rw [WarmStorage.getLatestTick_eq_none_iff]
      rintro t ⟨v, hv⟩
      rw [(hnone _).1] at hv
      cases hv
  · have hmeta : s.getMeta currentTickKey = some tick.tick.toBeBytes := htick
    have hmeta' : s.getMeta currentEpochKey = some tick.epoch.toBeBytes := hepoch
    refine .inr ⟨tick, payload, parses, hstored, ?_, ?_⟩
    · simp [WarmStorage.getCurrentTick, hmeta]
    · simp [WarmStorage.getCurrentEpoch, hmeta']

/-- What a listing holds is recorded. -/
theorem recorded_of_mem_values {I : Type} {rank : I → Nat} {cf : Cf} {mk : I → Bytes}
    (h : WellKeyed c P s) {l : List (I × Bytes)}
    (hl : OrderedScan.Enumerates rank (fun i => s.view (cf, mk i)) l) {data : Bytes}
    (hdata : data ∈ l.map Prod.snd) : ∃ i, Recorded c P cf (mk i) data := by
  obtain ⟨⟨i, v⟩, hmem, rfl⟩ := List.mem_map.mp hdata
  exact ⟨i, h.documents cf _ _ ((hl.mem_iff i v).mp hmem)⟩

/-- **In a well-keyed store every reader finds what it asks for.** A single lookup reads one record.
A listing visits records of one family, each of which is recorded under the key it is shown with. -/
theorem lookupsKeyed_of_wellKeyed (h : WellKeyed c P s) : LookupsKeyed c s := by
  have hforward := s.scansExact
  have hreverse := s.reverseScansExact
  have hlimited := s.limitedScansExact
  refine
    { tick := fun n data hget => (h.documents .tick _ _ hget).isTick
      tickRange := fun fromTick toTick n data hmem => ?_
      tx := fun hash data hget => (h.documents .tx _ _ hget).tx_key
      entity := fun key data hget => (h.documents .entity _ _ hget).isEntity
      spectrum := fun key data hget => (h.documents .spectrum _ _ hget).isSpectrumEntry
      spectrumRange := fun start count => ?_
      asset := fun index data hget => (h.documents .asset _ _ hget).isAsset
      allAssets := fun limit index data hmem => ?_
      computors := fun epoch data hget => (h.documents .computors _ _ hget).isComputors
      latestComputors := fun epoch data hlatest => ?_
      contractIpo := fun index data hget => (h.documents .contractIpo _ _ hget).isContractIpo
      allContractIpos := fun limit index data hmem => ?_
      oracle := fun tick data hget => (h.documents .oracle _ _ hget).isOracle
      latestOracle := fun tick data hlatest => ?_
      epochStats := fun epoch data hget => (h.documents .epochStats _ _ hget).isEpochStats
      epochStatsList := fun epoch data hmem => ?_
      votes := fun t index data hmem => ?_
      messages := fun t data hmem => ?_
      events := fun t data hmem => ?_
      assetsForEntity := fun e index hmem => ?_
      current := currentTickKnown_of_wellKeyed h }
  · have hsome := ((hforward.tickRange fromTick toTick).mem_iff n data).mp hmem
    exact (h.documents .tick _ _ (Option.ite_none_right_eq_some.mp hsome).2).isTick
  · obtain ⟨entries, hok, hleast⟩ := hlimited.spectrum start count
    refine ⟨entries, hok, fun key data hmem => ?_⟩
    -- what is not below the start is an entry as it is stored
    have hheld := hleast.held key data hmem
    unfold WarmStorage.fromKey at hheld
    split at hheld
    · cases hheld
    · exact (h.documents .spectrum _ _ hheld).isSpectrumEntry
  · exact (h.documents .asset _ _ ((hlimited.assets limit).held index data hmem)).isAsset
  · have hstored := ((hreverse.latestComputors epoch data).mp hlatest).1
    exact (h.documents .computors _ _ hstored).isComputors
  · exact (h.documents .contractIpo _ _
      ((hlimited.contractIpos limit).held index data hmem)).isContractIpo
  · exact (h.documents .oracle _ _ ((hreverse.latestOracle tick data).mp hlatest).1).isOracle
  · exact (h.documents .epochStats _ _
      ((hlimited.epochStats.mem_iff epoch data).mp hmem)).isEpochStats
  · exact (h.documents .tickVote _ _ (((hforward.votes t).mem_iff index data).mp hmem)).vote_key
  · obtain ⟨l, hl, hvalues⟩ := hforward.customMessages t
    obtain ⟨index, hrec⟩ := recorded_of_mem_values h hl (hvalues ▸ hmem)
    exact hrec.message_key
  · obtain ⟨l, hl, hvalues⟩ := hforward.logEvents t
    obtain ⟨p, hrec⟩ := recorded_of_mem_values h hl (hvalues ▸ hmem)
    exact hrec.event_key
  · exact h.assets e index ((hforward.mem_assets_iff e index).mp hmem)

/-- **A lookup finds a document of its kind, under its own key**, in every state of every run. -/
theorem lookups_keyed (hserde : StatsRoundTrip c) {ix : Indexer} (hix : Reachable c ix) :
    LookupsKeyed c ix.storage :=
  lookupsKeyed_of_wellKeyed (wellKeyed_of_reachableOn hserde hix.on)

/-- A tick, a transaction of it and a custom message, with a restart in between. -/
def lookupDocs : Known where
  ticks := [sampleTick 5 7]
  txs := [sampleTx 1 7]
  values := [sampleMessage 7]
  k12 := [burnChecksum]

def lookupState : Indexer :=
  run (.ofKnown lookupDocs)
    (new (run (.ofKnown lookupDocs) (new .empty {}) [(.tick, (sampleTick 5 7).json)]).storage {})
    [(.tx, (sampleTx 1 7).json), (.custmsg, (sampleMessage 7).1)]

theorem lookups_keyed_sample :
    lookupState.storage.getCurrentTick = some 7 ∧
      LookupsKeyed (.ofKnown lookupDocs) lookupState.storage := by
  have hreach : Reachable (.ofKnown lookupDocs) lookupState :=
    ((Reachable.init {}).run _).restart {} |>.run _
  refine ⟨by decide +kernel, lookups_keyed (Crates.epochStats_ofKnown lookupDocs) hreach⟩

end Indexer

end Qonduit

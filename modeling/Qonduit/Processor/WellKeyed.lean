import Qonduit.Processor.EpochStats

/-!
# Qonduit — every document lies under its own key

`index_*` reads a document, takes the key from one of its fields and stores the document, or a
part of it, under that key. Nothing is deleted and no handler writes another's family, so the
store of a processor never holds a document that does not parse, or one under a foreign key.

* **`Recorded`** — the documents each family may hold, and under which key.
* **`CurrentStored`** — `current_tick` and `current_epoch` are the fields of one stored tick.
* **`recorded_of_mem_puts`**, **`currentStored_consume`** — one message.
* **`wellKeyed_of_reachableOn`** — every reachable store, restarts included.
-/

namespace Qonduit

/-- The families that hold no document of their own: indexes and the meta family. -/
def referenceFamilies : List Cf := [.txByTick, .txByEntity, .entityAsset, .metadata]

/-- A value the indexer may leave in a family, and the key it has there, where `P` holds of all
payloads. -/
inductive Recorded (c : Crates) (P : Bytes → Prop) : Cf → Bytes → Bytes → Prop
  | tick {v : Bytes} {tick : TickData} (given : P v)
      (parses : c.serde.tickData.fromSlice v = .ok tick) (accepted : Indexer.acceptsTick tick) :
      Recorded c P .tick tick.tick.toBeBytes v
  | tx {v : Bytes} {tx : Transaction} (given : P v)
      (parses : c.serde.transaction.fromSlice v = .ok tx) :
      Recorded c P .tx (tx.hashBytes c).toList v
  | entity {v : Bytes} {entity : EntityData} {key : Key32} (given : P v)
      (parses : c.serde.entityData.fromSlice v = .ok entity)
      (decodes : decodeBase26 c entity.identity = some key) : Recorded c P .entity key.toList v
  | spectrum {v : Bytes} {entry : Value} {key : Key32} (given : P v)
      (parses : c.serde.valueFromSlice v = .ok entry)
      (decodes : decodeBase26 c ((entry.field "identity").asStr.getD []) = some key) :
      Recorded c P .spectrum key.toList v
  | asset {v : Bytes} {asset : AssetRecord} (given : P v)
      (parses : c.serde.assetRecord.fromSlice v = .ok asset) :
      Recorded c P .asset asset.issuanceIndex.toBeBytes v
  | computors {v : Bytes} {computors : Computors} (given : P v)
      (parses : c.serde.computors.fromSlice v = .ok computors) :
      Recorded c P .computors computors.epoch.toBeBytes v
  | contractIpo {v : Bytes} {ipo : ContractIpo} (given : P v)
      (parses : c.serde.contractIpo.fromSlice v = .ok ipo) :
      Recorded c P .contractIpo ipo.contractIndex.toBeBytes v
  | customMessage {v : Bytes} {msg : Value} (index : UInt32) (given : P v)
      (parses : c.serde.valueFromSlice v = .ok msg) :
      Recorded c P .customMessage (tickIndexKey msg.tick index) v
  -- the one document the indexer writes anew: an element of the batch it parsed
  | logEvent (event : LogEvent) :
      Recorded c P .logEvent (tickIndexKey event.tick event.txIndex ++ [event.eventType])
        (c.serde.logEvent.toVec event)
  | tickVote {v : Bytes} {vote : Value} (given : P v)
      (parses : c.serde.valueFromSlice v = .ok vote) :
      Recorded c P .tickVote (vote.tick.toBeBytes ++ vote.computorIndex.toBeBytes) v
  -- a data point without a tick lies wherever the gauge stood
  | oracle {v : Bytes} {entry : Value} {tick : UInt32} (given : P v)
      (parses : c.serde.valueFromSlice v = .ok entry)
      (own : entry.tick ≠ 0 → tick = entry.tick) : Recorded c P .oracle tick.toBeBytes v
  | epochStats (stats : EpochStats) :
      Recorded c P .epochStats stats.epoch.toBeBytes (c.serde.epochStats.toVec stats)
  | reference {cf : Cf} {k v : Bytes} (family : cf ∈ referenceFamilies) : Recorded c P cf k v

/-- Neither a tick nor a current tick. -/
def NoTick (s : WarmStorage) : Prop :=
  ∀ k, s.view (.tick, k) = none ∧ s.view (.metadata, k) = none

/-- `current_tick` and `current_epoch` are the fields of the stored document of that tick. -/
def CurrentIs (c : Crates) (s : WarmStorage) (tick : TickData) : Prop :=
  ∃ payload, c.serde.tickData.fromSlice payload = .ok tick ∧
    s.view (.tick, tick.tick.toBeBytes) = some payload ∧
    s.view (.metadata, currentTickKey) = some tick.tick.toBeBytes ∧
    s.view (.metadata, currentEpochKey) = some tick.epoch.toBeBytes

def CurrentStored (c : Crates) (s : WarmStorage) : Prop :=
  NoTick s ∨ ∃ tick, CurrentIs c s tick

/-- Every asset an entity is listed for is stored. -/
def AssetsStored (s : WarmStorage) : Prop :=
  ∀ e : Key32, ∀ index : UInt32, (s.view (.entityAsset, e.toList ++ index.toBeBytes)).isSome →
    (s.view (.asset, index.toBeBytes)).isSome

structure WellKeyed (c : Crates) (P : Bytes → Prop) (s : WarmStorage) : Prop where
  documents : ∀ cf k v, s.view (cf, k) = some v → Recorded c P cf k v
  current : CurrentStored c s
  assets : AssetsStored s

/-- The reachable states of a processor that only meets payloads with a property. -/
inductive Indexer.ReachableOn (c : Crates) (P : Bytes → Prop) : Indexer → Prop
  | init (pl : PipelineState) : ReachableOn c P (new .empty pl)
  | step {ix ix' : Indexer} (σ : Stream) (payload : Bytes) (given : P payload)
      (hix : ReachableOn c P ix) (h : handler c σ ix payload = .ok ix') : ReachableOn c P ix'
  | restart {ix : Indexer} (pl : PipelineState) (hix : ReachableOn c P ix) :
      ReachableOn c P (new ix.storage pl)

/-- Without a condition on the messages these are the reachable states. -/
theorem Indexer.Reachable.on {c : Crates} {ix : Indexer} (hix : Reachable c ix) :
    ReachableOn c (fun _ => True) ix := by
  induction hix with
  | init pl => exact .init pl
  | step σ payload _ h ih => exact .step σ payload trivial ih h
  | restart pl _ ih => exact .restart pl ih

/-- Messages that all satisfy the condition keep the processor among these states, as one whose
handler fails changes nothing. -/
theorem Indexer.ReachableOn.run {c : Crates} {P : Bytes → Prop} {ix : Indexer}
    (hix : ReachableOn c P ix) (ms : List Message) (hms : ∀ m ∈ ms, P m.2) :
    ReachableOn c P (run c ix ms) := by
  induction ms generalizing ix with
  | nil => exact hix
  | cons m ms ih =>
    refine ih ?_ (fun m' hm' => hms m' (List.mem_cons_of_mem m hm'))
    unfold consume
    split
    · next ix' h => exact .step m.1 m.2 (hms m List.mem_cons_self) hix h
    · exact hix

/-- `serde_json` reads back the statistics records it writes. -/
def StatsRoundTrip (c : Crates) : Prop :=
  ∀ stats, c.serde.epochStats.fromSlice (c.serde.epochStats.toVec stats) = .ok stats

namespace Indexer

variable {c : Crates} {P : Bytes → Prop}

/-! ## Documents

A family keyed by a field of its documents has each document under that field. Every write of every
handler is gone through. -/

theorem recorded_of_mem_txPuts {payload : Bytes} {tx : Transaction} {i : UInt32} {p : Put}
    (given : P payload) (parses : c.serde.transaction.fromSlice payload = .ok tx)
    (h : p ∈ txPuts c tx payload i) : Recorded c P p.cf p.key p.value := by
  rcases mem_txPuts.mp h with rfl | rfl | ⟨e, -, rfl⟩
  · exact .tx given parses
  · show Recorded c P .txByTick _ _
    exact .reference (by decide)
  · show Recorded c P .txByEntity _ _
    exact .reference (by decide)

/-- The writes that depend on the payload only, stream by stream. In each case the key is made of a
field of the document, or the family holds no documents at all. -/
theorem recorded_of_mem_payloadPuts {σ : Stream} {payload : Bytes} {p : Put}
    (given : P payload) (h : p ∈ payloadPuts c σ payload) : Recorded c P p.cf p.key p.value := by
  cases σ <;> simp only [payloadPuts] at h
  case tick =>
    split at h
    · next tick parses =>
      split at h
      · next accepted =>
        simp only [WarmStorage.batchPutTick, List.nil_append, List.mem_cons, List.not_mem_nil,
          or_false] at h
        rcases h with rfl | rfl | rfl
        · exact .tick given parses accepted
        · show Recorded c P .metadata _ _
          exact .reference (by decide)
        · show Recorded c P .metadata _ _
          exact .reference (by decide)
      · cases h
    · cases h
  case entity =>
    split at h
    · next entity parses =>
      obtain ⟨key, decodes, rfl⟩ := Option.map_eq_some_iff.mp (Option.mem_toList.mp h)
      exact .entity given parses decodes
    · cases h
  case spectrum =>
    split at h
    · next entry parses =>
      obtain ⟨key, decodes, rfl⟩ := Option.map_eq_some_iff.mp (Option.mem_toList.mp h)
      exact .spectrum given parses decodes
    · cases h
  case computors =>
    split at h
    · next parses => rw [List.mem_singleton.mp h]; exact .computors given parses
    · cases h
  case asset =>
    split at h
    · next parses =>
      rcases List.mem_cons.mp h with rfl | h
      · exact .asset given parses
      · obtain ⟨key, -, rfl⟩ := List.mem_map.mp h
        show Recorded c P .entityAsset _ _
        exact .reference (by decide)
    · cases h
  case contract =>
    split at h
    · next parses => rw [List.mem_singleton.mp h]; exact .contractIpo given parses
    · cases h
  case log =>
    split at h
    · obtain ⟨event, -, rfl⟩ := List.mem_map.mp h
      exact .logEvent event
    · cases h
  case tickvote =>
    split at h
    · next parses => rw [List.mem_singleton.mp h]; exact .tickVote given parses
    · cases h
  case tx | custmsg | oracle => cases h

/-- The record an update starts from is the one of its epoch. -/
theorem epoch_loadEpochStats (hserde : StatsRoundTrip c) {s : WarmStorage}
    (h : ∀ k v, s.view (.epochStats, k) = some v → Recorded c P .epochStats k v) (epoch : UInt16) :
    (loadEpochStats c s epoch).epoch = epoch := by
  unfold loadEpochStats
  cases hview : s.getEpochStats epoch with
  | none => rfl
  | some data =>
    have hrec : Recorded c P .epochStats epoch.toBeBytes data := h _ _ hview
    generalize hk : epoch.toBeBytes = k at hrec
    cases hrec with
    | epochStats stats =>
      simp only [hserde stats]
      exact (UInt16.toBeBytes_inj.mp hk).symm
    | reference family => simp [referenceFamilies] at family

/-- A statistics record is that of its epoch, as the one it was made from was. -/
theorem recorded_statsPut (hserde : StatsRoundTrip c) {s : WarmStorage}
    (h : ∀ k v, s.view (.epochStats, k) = some v → Recorded c P .epochStats k v) {epoch : UInt16}
    {f : EpochStats → EpochStats} (hf : ∀ stats, (f stats).epoch = stats.epoch) :
    Recorded c P (statsPut c s epoch f).cf (statsPut c s epoch f).key
      (statsPut c s epoch f).value := by
  have hepoch : (f (loadEpochStats c s epoch)).epoch = epoch := by
    rw [hf, epoch_loadEpochStats hserde h]
  have hrec : Recorded c P .epochStats _ _ := .epochStats (f (loadEpochStats c s epoch))
  rw [hepoch] at hrec
  exact hrec

/-- The batches that precede an update of the statistics leave the statistics alone. -/
theorem recorded_epochStats_batchWrite {s : WarmStorage} {batch : WriteBatch}
    (h : ∀ k v, s.view (.epochStats, k) = some v → Recorded c P .epochStats k v)
    (hcf : ∀ p ∈ batch, p.cf ≠ .epochStats) (k v : Bytes)
    (hv : (s.batchWrite batch).view (.epochStats, k) = some v) : Recorded c P .epochStats k v := by
  rw [WarmStorage.view_batchWrite_of_cf hcf] at hv
  exact h k v hv

/-- And so where a transaction or an entity is charged. -/
theorem recorded_of_mem_chargePuts (hserde : StatsRoundTrip c) {ix : Indexer}
    (h : ∀ k v, ix.storage.view (.epochStats, k) = some v → Recorded c P .epochStats k v)
    {f : EpochStats → EpochStats} (hf : ∀ stats, (f stats).epoch = stats.epoch) {p : Put}
    (hp : p ∈ chargePuts c ix f) : Recorded c P p.cf p.key p.value := by
  unfold chargePuts at hp
  split at hp
  · rw [List.mem_singleton.mp hp]
    exact recorded_statsPut hserde h hf
  · cases hp

theorem cf_ne_epochStats_of_owner {p : Put} {σ : Stream} (h : owner p.cf = some σ) :
    p.cf ≠ .epochStats := by
  intro hcf
  rw [hcf] at h
  cases h

/-- The writes that depend on the state, stream by stream: transactions, custom messages and oracle
data, and the statistics that ticks, transactions and entities lead to. -/
theorem recorded_of_mem_statePuts (hserde : StatsRoundTrip c) {ix : Indexer}
    (h : ∀ k v, ix.storage.view (.epochStats, k) = some v → Recorded c P .epochStats k v)
    {m : Message} (given : P m.2) {p : Put} (hp : p ∈ statePuts c ix m) :
    Recorded c P p.cf p.key p.value := by
  obtain ⟨σ, payload⟩ := m
  cases σ <;> simp only [statePuts] at hp
  case tick =>
    split at hp
    · next tick parses =>
      split at hp
      · rw [List.mem_singleton.mp hp]
        refine recorded_statsPut hserde ?_ (fun _ => rfl)
        exact recorded_epochStats_batchWrite h
          (fun p hp => cf_ne_epochStats_of_owner (owner_of_mem_batchPutTick hp))
      · cases hp
    · cases hp
  case tx =>
    split at hp
    · next tx parses =>
      rcases List.mem_append.mp hp with hp | hp
      · exact recorded_of_mem_txPuts given parses hp
      · -- the charge comes behind the writes of the transaction itself
        refine recorded_of_mem_chargePuts (f := countTx) hserde ?_ (fun _ => rfl) hp
        refine recorded_epochStats_batchWrite h ?_
        intro p (hp : p ∈ txPuts c tx payload _)
        exact cf_ne_epochStats_of_owner (owner_of_mem_txPuts hp)
    · cases hp
  case entity =>
    split at hp
    · split at hp
      · next key decodes =>
        refine recorded_of_mem_chargePuts (f := countEntity) hserde ?_ (fun _ => rfl) hp
        have hcf : ∀ p ∈ [Put.entity key payload], p.cf ≠ .epochStats := by
          intro p hp
          rw [List.mem_singleton.mp hp]
          show Cf.entity ≠ .epochStats
          decide
        exact recorded_epochStats_batchWrite h hcf
      · cases hp
    · cases hp
  case custmsg =>
    split at hp
    · next parses => rw [List.mem_singleton.mp hp]; exact .customMessage _ given parses
    · cases hp
  case oracle =>
    split at hp
    · next entry parses =>
      rw [List.mem_singleton.mp hp]
      exact .oracle given parses (fun hne => if_neg hne)
    · cases hp
  all_goals cases hp

/-- **A message writes documents under their own keys.** -/
theorem recorded_of_mem_puts (hserde : StatsRoundTrip c) {ix : Indexer}
    (h : ∀ k v, ix.storage.view (.epochStats, k) = some v → Recorded c P .epochStats k v)
    {m : Message} (given : P m.2) {p : Put} (hp : p ∈ puts c ix m) :
    Recorded c P p.cf p.key p.value := by
  rcases List.mem_append.mp hp with hp | hp
  · exact recorded_of_mem_payloadPuts given hp
  · exact recorded_of_mem_statePuts hserde h given hp

/-- **One message keeps the documents under their keys.** -/
theorem documents_consume (hserde : StatsRoundTrip c) {ix : Indexer}
    (h : ∀ cf k v, ix.storage.view (cf, k) = some v → Recorded c P cf k v) {m : Message}
    (given : P m.2) (cf : Cf) (k v : Bytes) (hv : (consume c ix m).storage.view (cf, k) = some v) :
    Recorded c P cf k v := by
  rw [storage_consume, WarmStorage.view_batchWrite] at hv
  rcases WriteLog.mem_or_of_replay hv with hw | hold
  · obtain ⟨p, hp, heq⟩ := List.mem_map.mp hw
    obtain ⟨haddr, rfl⟩ := Prod.mk.inj heq
    obtain ⟨rfl, rfl⟩ := Prod.mk.inj haddr
    exact recorded_of_mem_puts hserde (h .epochStats) given hp
  · exact h cf k v hold

/-! ## The current tick

The current tick and epoch are written in one batch with the tick, so they always name one that is
stored. -/

/-- An accepted tick writes its batch, and its statistics behind it. -/
theorem puts_tick_of_accepted {payload : Bytes} {tick : TickData}
    (h : acceptedTick c payload = some tick) (ix : Indexer) :
    c.serde.tickData.fromSlice payload = .ok tick ∧
      ∃ p, p.cf = .epochStats ∧ puts c ix (.tick, payload)
        = WarmStorage.batchPutTick [] tick.tick tick.epoch payload ++ [p] := by
  simp only [acceptedTick] at h
  cases parses : c.serde.tickData.fromSlice payload with
  | error e => simp [parses] at h
  | ok tick' =>
    simp only [parses] at h
    by_cases accepted : acceptsTick tick'
    · rw [if_pos accepted] at h
      cases h
      refine ⟨rfl, statsPut c (ix.commitTick tick payload).storage tick.epoch
        (countTick tick.tick), rfl, ?_⟩
      simp only [puts, payloadPuts, statePuts, parses, if_pos accepted]
    · rw [if_neg accepted] at h
      cases h

/-- Only an accepted tick writes the tick and meta families. Both belong to the tick stream, and a
tick that fails its check writes nothing. -/
theorem accepted_of_mem_puts {ix : Indexer} {m : Message} {p : Put} (hp : p ∈ puts c ix m)
    (howner : owner p.cf = some .tick) : m.1 = .tick ∧ ∃ tick, acceptedTick c m.2 = some tick := by
  rcases List.mem_append.mp hp with hp | hp
  · have hσ : m.1 = .tick := by
      rw [owner_of_mem_payloadPuts hp] at howner
      exact Option.some_inj.mp howner
    refine ⟨hσ, ?_⟩
    rw [hσ] at hp
    simp only [payloadPuts] at hp
    cases parses : c.serde.tickData.fromSlice m.2 with
    | error e =>
      rw [parses] at hp
      cases hp
    | ok tick =>
      rw [parses] at hp
      by_cases accepted : acceptsTick tick
      · refine ⟨tick, ?_⟩
        rw [acceptedTick, parses]
        exact if_pos accepted
      · dsimp only at hp
        rw [if_neg accepted] at hp
        cases hp
  · -- none of the writes that depend on the state is in a family of the tick stream
    rcases mem_statePuts hp with h | ⟨-, tx, -, h⟩ | ⟨-, msg, -, rfl⟩ | ⟨-, h⟩
    · rw [h] at howner
      cases howner
    · rw [owner_of_mem_txPuts h] at howner
      cases howner
    · cases howner
    · rw [h] at howner
      cases howner

/-- The batch of a tick makes it the current one. The three entries of the batch are under different
keys, and the statistics behind them are in another family. -/
theorem currentIs_commit {s : WarmStorage} {payload : Bytes} {tick : TickData}
    (parses : c.serde.tickData.fromSlice payload = .ok tick) {p : Put} (hp : p.cf = .epochStats) :
    CurrentIs c (s.batchWrite
      (WarmStorage.batchPutTick [] tick.tick tick.epoch payload ++ [p])) tick := by
  have hkeys : currentEpochKey ≠ currentTickKey := by decide
  have hview : ∀ a : Cf × Bytes, a.1 ≠ .epochStats →
      (s.batchWrite (WarmStorage.batchPutTick [] tick.tick tick.epoch payload ++ [p])).view a
        = WriteLog.replay ((WarmStorage.batchPutTick [] tick.tick tick.epoch payload).map
            Put.write) s.view a := by
    intro a ha
    rw [WarmStorage.batchWrite_append, WarmStorage.view_batchWrite, WarmStorage.view_batchWrite]
    refine WriteLog.replay_of_not_mem ?_
    intro w hw haddr
    rw [List.mem_singleton.mp hw] at haddr
    exact ha ((congrArg Prod.fst haddr).symm.trans hp)
  refine ⟨payload, parses, ?_, ?_, ?_⟩
  · rw [hview _ (by simp)]
    simp [WriteLog.replay, WarmStorage.batchPutTick, WriteLog.last_cons, Put.write, Put.tick,
      Put.metaValue]
  · rw [hview _ (by decide)]
    simp [WriteLog.replay, WarmStorage.batchPutTick, WriteLog.last_cons, Put.write, Put.tick,
      Put.metaValue, hkeys]
  · rw [hview _ (by decide)]
    simp [WriteLog.replay, WarmStorage.batchPutTick, WriteLog.last_cons, Put.write, Put.tick,
      Put.metaValue]

/-- **One message keeps the current tick stored.** An accepted tick becomes the current one and is
stored in the same batch; any other message leaves both as they are. -/
theorem currentStored_consume {ix : Indexer} (h : CurrentStored c ix.storage) (m : Message) :
    CurrentStored c (consume c ix m).storage := by
  rw [storage_consume]
  by_cases hm : m.1 = .tick ∧ ∃ tick, acceptedTick c m.2 = some tick
  · obtain ⟨hσ, tick, haccepted⟩ := hm
    obtain ⟨parses, p, hp, hputs⟩ := puts_tick_of_accepted haccepted ix
    have hm : m = (.tick, m.2) := by rw [← hσ]
    rw [hm, hputs]
    exact .inr ⟨tick, currentIs_commit parses hp⟩
  · -- no write of this message reaches either family
    have hkeep : ∀ cf k, owner cf = some .tick →
        (ix.storage.batchWrite (puts c ix m)).view (cf, k) = ix.storage.view (cf, k) := by
      intro cf k hcf
      refine WarmStorage.view_batchWrite_of_cf (fun p hp heq => hm ?_) k
      exact accepted_of_mem_puts hp (heq ▸ hcf)
    rcases h with hnone | ⟨tick, payload, parses, hstored, htick, hepoch⟩
    · refine .inl (fun k => ?_)
      rw [hkeep .tick k rfl, hkeep .metadata k rfl]
      exact hnone k
    · refine .inr ⟨tick, payload, parses, ?_, ?_, ?_⟩
      · rw [hkeep _ _ rfl, hstored]
      · rw [hkeep _ _ rfl, htick]
      · rw [hkeep _ _ rfl, hepoch]

/-! ## Assets

An asset is listed for the entities that have a role in it by the batch that stores it. -/

theorem key_append_inj {e e' : Key32} {i i' : UInt32}
    (h : e.toList ++ i.toBeBytes = e'.toList ++ i'.toBeBytes) : e = e' ∧ i = i' := by
  have hlen : e.toList.length = e'.toList.length := by simp
  obtain ⟨he, hi⟩ := List.append_inj h hlen
  exact ⟨List.Vector.toList_injective he, UInt32.toBeBytes_inj.mp hi⟩

/-- The batch that lists an asset for an entity stores the asset. The index in the key of the
listing is that of the record, since both are of four bytes behind the key of the entity. -/
theorem exists_assetPut_of_mem_puts {ix : Indexer} {m : Message} {p : Put} {e : Key32}
    {index : UInt32} (hp : p ∈ puts c ix m)
    (haddr : (p.cf, p.key) = (.entityAsset, e.toList ++ index.toBeBytes)) :
    ∃ q ∈ puts c ix m, (q.cf, q.key) = (.asset, index.toBeBytes) := by
  have hcf : p.cf = .entityAsset := congrArg Prod.fst haddr
  have howner : owner p.cf = some .asset := by rw [hcf]; rfl
  rcases List.mem_append.mp hp with hp | hp
  · have hσ : m.1 = .asset := by
      rw [owner_of_mem_payloadPuts hp] at howner
      exact Option.some_inj.mp howner
    have hputs : payloadPuts c m.1 m.2 = payloadPuts c .asset m.2 := by rw [hσ]
    rw [hputs] at hp
    simp only [puts, hputs]
    simp only [payloadPuts] at hp ⊢
    split at hp
    · next asset parses =>
      rcases List.mem_cons.mp hp with rfl | hp
      · cases hcf
      · obtain ⟨key, -, rfl⟩ := List.mem_map.mp hp
        obtain ⟨-, hindex⟩ := key_append_inj (congrArg Prod.snd haddr)
        refine ⟨.asset asset.issuanceIndex m.2, List.mem_append.mpr (.inl ?_), ?_⟩
        · exact List.mem_cons_self
        · rw [← hindex]
          rfl
    · cases hp
  · rcases mem_statePuts hp with h | ⟨-, tx, -, h⟩ | ⟨-, msg, -, rfl⟩ | ⟨-, h⟩
    · rw [h] at hcf
      cases hcf
    · rw [owner_of_mem_txPuts h] at howner
      cases howner
    · cases hcf
    · rw [h] at hcf
      cases hcf

/-- **One message keeps the listed assets stored.** -/
theorem assetsStored_consume {ix : Indexer} (h : AssetsStored ix.storage) (m : Message) :
    AssetsStored (consume c ix m).storage := by
  intro e index hlisted
  rw [storage_consume, WarmStorage.view_batchWrite] at hlisted ⊢
  obtain ⟨v, hv⟩ := Option.isSome_iff_exists.mp hlisted
  rcases WriteLog.mem_or_of_replay hv with hw | hold
  · obtain ⟨p, hp, heq⟩ := List.mem_map.mp hw
    obtain ⟨q, hq, hkey⟩ := exists_assetPut_of_mem_puts hp (congrArg Prod.fst heq)
    have := WriteLog.isSome_replay_of_mem (m := ix.storage.view)
      (List.mem_map_of_mem (f := Put.write) hq)
    rw [← hkey]
    exact this
  · exact WriteLog.isSome_replay (h e index (Option.isSome_iff_exists.mpr ⟨v, hold⟩))

/-! ## The whole store

The three parts together, kept by every message. -/

theorem wellKeyed_empty : WellKeyed c P .empty where
  documents cf k v h := by
    rw [WarmStorage.view_empty] at h
    cases h
  current := .inl (fun k => ⟨WarmStorage.view_empty _, WarmStorage.view_empty _⟩)
  assets e index h := by
    rw [WarmStorage.view_empty] at h
    cases h

/-- **One message keeps a store well keyed.** -/
theorem wellKeyed_consume (hserde : StatsRoundTrip c) {ix : Indexer}
    (h : WellKeyed c P ix.storage) {m : Message} (given : P m.2) :
    WellKeyed c P (consume c ix m).storage where
  documents := documents_consume hserde h.documents given
  current := currentStored_consume h.current m
  assets := assetsStored_consume h.assets m

/-- **Every reachable store is well keyed.** -/
theorem wellKeyed_of_reachableOn (hserde : StatsRoundTrip c) {ix : Indexer}
    (hix : ReachableOn c P ix) : WellKeyed c P ix.storage := by
  induction hix with
  | init pl => exact wellKeyed_empty
  | step σ payload given _ hok ih =>
    rw [← consume_of_ok hok]
    exact wellKeyed_consume hserde ih (m := (σ, payload)) given
  | restart pl _ ih => exact ih

end Indexer

end Qonduit

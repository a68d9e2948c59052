import Qonduit.Core.Identity
import Qonduit.Storage.Warm

/-!
# Qonduit — the indexer

`indexer.rs`: each `index_*` method deserializes a JSON payload from NATS and writes keys and
values into the warm tier. All clones of an `Indexer` share one store, one pipeline state and
one pair of transaction counters, so the methods are transitions of a single `Indexer` value.

A method that returns an error has touched nothing before, hence an `Outcome` carries the
successor only. Integer arithmetic wraps, as in a release build. Of the cold tier the indexer
state records the `export_epoch` calls: what they read and how they are parametrised; their
result is logged and dropped by the caller.

* **`indexTransaction`** — one batch: payload by hash, tick index, entity indexes. The slot
  within the tick comes from the shared pair (`txLastTick`, `txCounter`).
* **`indexTick`** — payload by tick, `current_tick` and `current_epoch`, epoch transition,
  pipeline state, epoch statistics.
* **`indexCustomMessage`** — appended at the number of messages already under the tick.
-/

namespace Qonduit

/-- One call of `ColdStorage::export_epoch`. -/
structure ColdExport where
  warm : WarmStorage
  epoch : UInt16
  tickRange : UInt32 × UInt32

structure Indexer where
  storage : WarmStorage
  pipeline : PipelineState
  /-- Last tick seen by `index_transaction`. -/
  txLastTick : UInt32 := 0
  /-- Sequential counter for transactions within the current tick. -/
  txCounter : UInt32 := 0
  coldExports : List ColdExport := []

/-- `hex::decode(s).ok().filter(|b| b.len() == 32)` as an array. -/
def hexKey (c : Crates) (s : Str) : Option Key32 :=
  match c.hex.decode s with
  | some b => if h : b.length = 32 then some ⟨b, h⟩ else none
  | none => none

/-- The storage key of a transaction: its hash as base-26, else as hex, else all zero. -/
def Transaction.hashBytes (c : Crates) (tx : Transaction) : Key32 :=
  (decodeBase26 c tx.hash).getD ((hexKey c tx.hash).getD zeroKey)

def Transaction.source (c : Crates) (tx : Transaction) : Option Key32 :=
  (decodeBase26 c tx.sourceIdentity).or (hexKey c tx.sourceHex)

def Transaction.destination (c : Crates) (tx : Transaction) : Option Key32 :=
  (decodeBase26 c tx.destinationIdentity).or (hexKey c tx.destinationHex)

def Value.tick (v : Value) : UInt32 := ((v.field "tick").asU64.getD 0).toUInt32

def Value.computorIndex (v : Value) : UInt16 :=
  ((v.field "computor_index").asU64.getD 0).toUInt16

namespace Indexer

def new (storage : WarmStorage) (pipeline : PipelineState) : Indexer :=
  { storage, pipeline }

/-! ## Epoch statistics -/

/-- The record `update_epoch_stats` starts from: a stored record that does not parse is
replaced by the default one, whose `epoch` is 0. -/
def loadEpochStats (c : Crates) (s : WarmStorage) (epoch : UInt16) : EpochStats :=
  match s.getEpochStats epoch with
  | some data =>
    match c.serde.epochStats.fromSlice data with
    | .ok stats => stats
    -- `unwrap_or_default`
    | .error _ => {}
  | none => { epoch }

def updateEpochStats (c : Crates) (ix : Indexer) (epoch : UInt16)
    (f : EpochStats → EpochStats) : Indexer :=
  { ix with
    storage := ix.storage.putEpochStats epoch
      (c.serde.epochStats.toVec (f (loadEpochStats c ix.storage epoch))) }

def countTick (tick : UInt32) (stats : EpochStats) : EpochStats :=
  { stats with
    tickCount := stats.tickCount + 1
    firstTick := some (min (stats.firstTick.getD tick) tick)
    lastTick := some (max (stats.lastTick.getD tick) tick) }

def countTx (stats : EpochStats) : EpochStats := { stats with txCount := stats.txCount + 1 }

def countEntity (stats : EpochStats) : EpochStats :=
  { stats with entityCount := stats.entityCount + 1 }

/-- The statistics update of transactions and entities, charged to the indexed epoch once
there is one. -/
def chargeIndexedEpoch (c : Crates) (ix : Indexer) (f : EpochStats → EpochStats) : Indexer :=
  if ix.pipeline.indexedEpoch > 0 then ix.updateEpochStats c ix.pipeline.indexedEpoch f else ix

/-! ## Tick -/

/-- `tick.epoch > 1000` marks a corrupted payload. -/
def acceptsTick (tick : TickData) : Bool := !(tick.epoch > 1000)

/-- The epoch transition test and the export of the previous epoch. -/
def exportOnTransition (ix : Indexer) (tick : TickData) : List ColdExport :=
  let previousEpoch := ix.pipeline.indexedEpoch
  let previousTick := ix.pipeline.indexedTick
  -- a jump over an epoch, or back to one, exports nothing
  if previousEpoch > 0 ∧ tick.epoch ≠ previousEpoch ∧ tick.epoch = previousEpoch + 1 then
    if previousTick > 0 then [⟨ix.storage, previousEpoch, (0, previousTick)⟩] else []
  else []

/-- The effect of an accepted tick up to the statistics: export, batch write, pipeline. -/
def commitTick (ix : Indexer) (tick : TickData) (payload : Bytes) : Indexer :=
  { ix with
    coldExports := ix.coldExports ++ ix.exportOnTransition tick
    storage := ix.storage.batchWrite (WarmStorage.batchPutTick [] tick.tick tick.epoch payload)
    -- stored whatever was there before: a backfilled tick moves both gauges back
    pipeline := { ix.pipeline with
      indexedTick := tick.tick
      indexedEpoch := tick.epoch
      ticksIndexed := ix.pipeline.ticksIndexed + 1
      totalTicksIndexed := ix.pipeline.totalTicksIndexed + 1 } }

def indexTick (c : Crates) (ix : Indexer) (payload : Bytes) : Outcome Indexer :=
  withContext "Failed to deserialize TickData" (c.serde.tickData.fromSlice payload) fun tick =>
    if acceptsTick tick then
      .ok ((ix.commitTick tick payload).updateEpochStats c tick.epoch (countTick tick.tick))
    -- the corrupted payload is skipped without an error, so it is acknowledged
    else .ok ix

/-! ## Transaction -/

/-- `tx_index`: the counter, reset when the tick differs from the last one seen. -/
def txIndex (ix : Indexer) (tick : UInt32) : UInt32 :=
  if tick ≠ ix.txLastTick then 0 else ix.txCounter

/-- The effect of a transaction up to the statistics: counters and batch write. -/
def commitTransaction (c : Crates) (ix : Indexer) (tx : Transaction) (payload : Bytes) :
    Indexer :=
  { ix with
    txLastTick := tx.tick
    txCounter := ix.txIndex tx.tick + 1
    storage := ix.storage.batchWrite (WarmStorage.batchPutTx [] (tx.hashBytes c) payload
      tx.tick (ix.txIndex tx.tick) (tx.source c) (tx.destination c))
    pipeline := { ix.pipeline with txsIndexed := ix.pipeline.txsIndexed + 1 } }

def indexTransaction (c : Crates) (ix : Indexer) (payload : Bytes) : Outcome Indexer :=
  match c.serde.transaction.fromSlice payload with
  | .ok tx => .ok ((ix.commitTransaction c tx payload).chargeIndexedEpoch c countTx)
  | .error e => bail s!"Transaction deserialization failed: {e}"

/-! ## Entity and spectrum -/

def commitEntity (ix : Indexer) (key : Key32) (payload : Bytes) : Indexer :=
  { ix with
    storage := ix.storage.putEntity key payload
    pipeline := { ix.pipeline with entitiesIndexed := ix.pipeline.entitiesIndexed + 1 } }

def indexEntity (c : Crates) (ix : Indexer) (payload : Bytes) : Outcome Indexer :=
  withContext "Failed to deserialize EntityData" (c.serde.entityData.fromSlice payload)
    fun entity =>
      match decodeBase26 c entity.identity with
      | some key => .ok ((ix.commitEntity key payload).chargeIndexedEpoch c countEntity)
      -- an identity that does not decode is logged and skipped
      | none => .ok ix

def indexSpectrum (c : Crates) (ix : Indexer) (payload : Bytes) : Outcome Indexer :=
  withContext "Failed to deserialize spectrum entry" (c.serde.valueFromSlice payload)
    fun entry =>
      match decodeBase26 c ((entry.field "identity").asStr.getD []) with
      | some key => .ok { ix with storage := ix.storage.putSpectrumEntry key payload }
      | none => .ok ix

/-! ## Computors, assets, contracts -/

def indexComputors (c : Crates) (ix : Indexer) (payload : Bytes) : Outcome Indexer :=
  withContext "Failed to deserialize Computors" (c.serde.computors.fromSlice payload)
    fun computors => .ok { ix with storage := ix.storage.putComputors computors.epoch payload }

/-- The entity→asset wiring of one role; an all-zero key stands for no entity. -/
def putAssetRole (index : UInt32) (s : WarmStorage) (entityKey : Key32) : WarmStorage :=
  if entityKey ≠ zeroKey then s.putEntityAsset entityKey index else s

def indexAsset (c : Crates) (ix : Indexer) (payload : Bytes) : Outcome Indexer :=
  withContext "Failed to deserialize AssetRecord" (c.serde.assetRecord.fromSlice payload)
    fun asset => .ok { ix with
      storage := [asset.issuingEntity, asset.owningEntity, asset.possessingEntity].foldl
        (putAssetRole asset.issuanceIndex) (ix.storage.putAsset asset.issuanceIndex payload) }

def indexContractIpo (c : Crates) (ix : Indexer) (payload : Bytes) : Outcome Indexer :=
  withContext "Failed to deserialize ContractIpo" (c.serde.contractIpo.fromSlice payload)
    fun ipo => .ok { ix with storage := ix.storage.putContractIpo ipo.contractIndex payload }

/-! ## Log events, votes, oracle data, custom messages -/

def indexLogEvents (c : Crates) (ix : Indexer) (payload : Bytes) : Outcome Indexer :=
  withContext "Failed to deserialize log events" (c.serde.logEvents.fromSlice payload)
    fun events => .ok { ix with
      storage := events.foldl
        (fun s event =>
          s.putLogEvent event.tick event.txIndex event.eventType (c.serde.logEvent.toVec event))
        ix.storage }

/-- The vote count read after the write is only logged. -/
def indexTickVote (c : Crates) (ix : Indexer) (payload : Bytes) : Outcome Indexer :=
  withContext "Failed to deserialize tick vote" (c.serde.valueFromSlice payload)
    fun vote => .ok { ix with
      storage := ix.storage.putTickVote vote.tick vote.computorIndex payload }

def indexOracle (c : Crates) (ix : Indexer) (payload : Bytes) : Outcome Indexer :=
  withContext "Failed to deserialize oracle data" (c.serde.valueFromSlice payload)
    fun entry =>
      let tick := if entry.tick = 0 then ix.pipeline.indexedTick else entry.tick
      .ok { ix with storage := ix.storage.putOracle tick payload }

def indexCustomMessage (c : Crates) (ix : Indexer) (payload : Bytes) : Outcome Indexer :=
  withContext "Failed to deserialize custom message" (c.serde.valueFromSlice payload)
    fun msg =>
      -- `usize as u32`: the cast truncates
      let index := UInt32.ofNat (ix.storage.countCustomMessagesForTick msg.tick)
      .ok { ix with storage := ix.storage.putCustomMessage msg.tick index payload }

end Indexer

end Qonduit

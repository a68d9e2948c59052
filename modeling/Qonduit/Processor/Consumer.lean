import Qonduit.Processor.Indexer

/-!
# Qonduit — stream consumers

`consumer.rs`: eleven JetStream streams, each drained by its own task into one handler of the
shared `Indexer`. A fetched batch goes into a `FuturesUnordered`, which polls new futures in the
order in which they were pushed, and a handler has no suspension point: it is done at its first
poll. A message is acknowledged whether its handler succeeds or not. So a run of the processor
is a sequence of (stream, payload) messages in which the streams interleave freely.

* **`consume`**, **`run`** — one message, a sequence of messages.
* **`consume_eq_next`** — all a message does: one write batch (`puts`) and the next pipeline
  state and counters. Every result about runs starts here, and no other proof unfolds the
  handlers.
* **`Reachable`** — the indexer states of any run from an empty database, restarts included.
-/

namespace Qonduit

/-- The streams `QONDUIT_TICK` … `QONDUIT_ORACLE`. -/
inductive Stream where
  | tick
  | tx
  | entity
  | computors
  | asset
  | contract
  | custmsg
  | spectrum
  | log
  | tickvote
  | oracle
  deriving DecidableEq, Repr

abbrev Message := Stream × Bytes

def ofStream (σ : Stream) (ms : List Message) : List Bytes :=
  (ms.filter (fun m => m.1 = σ)).map Prod.snd

namespace Indexer

def handler (c : Crates) : Stream → Indexer → Bytes → Outcome Indexer
  | .tick => indexTick c
  | .tx => indexTransaction c
  | .entity => indexEntity c
  | .computors => indexComputors c
  | .asset => indexAsset c
  | .contract => indexContractIpo c
  | .custmsg => indexCustomMessage c
  | .spectrum => indexSpectrum c
  | .log => indexLogEvents c
  | .tickvote => indexTickVote c
  | .oracle => indexOracle c

/-- One message: an error of the handler is logged and the message acknowledged. -/
def consume (c : Crates) (ix : Indexer) (m : Message) : Indexer :=
  match handler c m.1 ix m.2 with
  | .ok ix' => ix'
  | .error _ => ix

/-- A handler that succeeds gives the next state. -/
theorem consume_of_ok {c : Crates} {σ : Stream} {ix ix' : Indexer} {payload : Bytes}
    (h : handler c σ ix payload = .ok ix') : consume c ix (σ, payload) = ix' := by
  simp only [consume, h]

/-- The messages one processor handles, in the order in which it handles them. -/
def run (c : Crates) (ix : Indexer) (ms : List Message) : Indexer := ms.foldl (consume c) ix

def indexTransactions (c : Crates) (ix : Indexer) (payloads : List Bytes) : Indexer :=
  run c ix (payloads.map (Prod.mk .tx))

@[simp] theorem run_nil (c : Crates) (ix : Indexer) : run c ix [] = ix := rfl

@[simp] theorem run_cons (c : Crates) (ix : Indexer) (m : Message) (ms : List Message) :
    run c ix (m :: ms) = run c (consume c ix m) ms := rfl

theorem run_append (c : Crates) (ix : Indexer) (ms ms' : List Message) :
    run c ix (ms ++ ms') = run c (run c ix ms) ms' :=
  List.foldl_append

/-- The states of a processor over an initially empty database: any handler may be called on
any payload, and the process may be restarted at any point, which keeps the database and
replaces everything else. -/
inductive Reachable (c : Crates) : Indexer → Prop
  | init (pl : PipelineState) : Reachable c (new .empty pl)
  | step {ix ix' : Indexer} (σ : Stream) (payload : Bytes) (hix : Reachable c ix)
      (h : handler c σ ix payload = .ok ix') : Reachable c ix'
  | restart {ix : Indexer} (pl : PipelineState) (hix : Reachable c ix) :
      Reachable c (new ix.storage pl)

/-- What is reached from a reachable state is reachable. -/
theorem Reachable.run {c : Crates} {ix : Indexer} (hix : Reachable c ix) (ms : List Message) :
    Reachable c (run c ix ms) := by
  induction ms generalizing ix with
  | nil => exact hix
  | cons m ms ih =>
    refine ih ?_
    unfold consume
    split
    · next ix' h => exact .step m.1 m.2 hix h
    -- a message whose handler fails is no step at all
    · exact hix

/-! ## The log of a step

What one message writes, as a batch. Only the statistics record and the index of a custom
message depend on the store, and only the slot of a transaction on the counters. -/

def statsPut (c : Crates) (s : WarmStorage) (epoch : UInt16) (f : EpochStats → EpochStats) :
    Put :=
  .epochStats epoch (c.serde.epochStats.toVec (f (loadEpochStats c s epoch)))

def chargePuts (c : Crates) (ix : Indexer) (f : EpochStats → EpochStats) : WriteBatch :=
  if ix.pipeline.indexedEpoch > 0 then [statsPut c ix.storage ix.pipeline.indexedEpoch f] else []

def rolePuts (asset : AssetRecord) : WriteBatch :=
  ([asset.issuingEntity, asset.owningEntity, asset.possessingEntity].filter (· ≠ zeroKey)).map
    (fun key => .entityAsset key asset.issuanceIndex)

def txPuts (c : Crates) (tx : Transaction) (payload : Bytes) (index : UInt32) : WriteBatch :=
  WarmStorage.batchPutTx [] (tx.hashBytes c) payload tx.tick index (tx.source c)
    (tx.destination c)

/-- The writes of a handler whose keys and values are functions of the payload; the streams
whose writes are not have none here. -/
def payloadPuts (c : Crates) (σ : Stream) (payload : Bytes) : WriteBatch :=
  match σ with
  | .tick =>
    match c.serde.tickData.fromSlice payload with
    | .ok tick =>
      if acceptsTick tick then WarmStorage.batchPutTick [] tick.tick tick.epoch payload else []
    | .error _ => []
  | .entity =>
    match c.serde.entityData.fromSlice payload with
    | .ok entity => ((decodeBase26 c entity.identity).map (Put.entity · payload)).toList
    | .error _ => []
  | .spectrum =>
    match c.serde.valueFromSlice payload with
    | .ok entry =>
      ((decodeBase26 c ((entry.field "identity").asStr.getD [])).map
        (Put.spectrumEntry · payload)).toList
    | .error _ => []
  | .computors =>
    match c.serde.computors.fromSlice payload with
    | .ok computors => [.computors computors.epoch payload]
    | .error _ => []
  | .asset =>
    match c.serde.assetRecord.fromSlice payload with
    | .ok asset => .asset asset.issuanceIndex payload :: rolePuts asset
    | .error _ => []
  | .contract =>
    match c.serde.contractIpo.fromSlice payload with
    | .ok ipo => [.contractIpo ipo.contractIndex payload]
    | .error _ => []
  | .log =>
    match c.serde.logEvents.fromSlice payload with
    | .ok events => events.map (fun event =>
        .logEvent event.tick event.txIndex event.eventType (c.serde.logEvent.toVec event))
    | .error _ => []
  | .tickvote =>
    match c.serde.valueFromSlice payload with
    | .ok vote => [.tickVote vote.tick vote.computorIndex payload]
    | .error _ => []
  | .tx | .custmsg | .oracle => []

/-- The writes that depend on the state of the indexer. -/
def statePuts (c : Crates) (ix : Indexer) (m : Message) : WriteBatch :=
  match m.1 with
  | .tick =>
    match c.serde.tickData.fromSlice m.2 with
    | .ok tick =>
      -- the record is read after the tick's own batch is committed
      if acceptsTick tick then
        [statsPut c (ix.commitTick tick m.2).storage tick.epoch (countTick tick.tick)] else []
    | .error _ => []
  | .tx =>
    match c.serde.transaction.fromSlice m.2 with
    | .ok tx =>
      txPuts c tx m.2 (ix.txIndex tx.tick)
        ++ chargePuts c (ix.commitTransaction c tx m.2) countTx
    | .error _ => []
  | .entity =>
    match c.serde.entityData.fromSlice m.2 with
    | .ok entity =>
      match decodeBase26 c entity.identity with
      | some key => chargePuts c (ix.commitEntity key m.2) countEntity
      | none => []
    | .error _ => []
  | .custmsg =>
    match c.serde.valueFromSlice m.2 with
    | .ok msg => [.customMessage msg.tick
        (UInt32.ofNat (ix.storage.countCustomMessagesForTick msg.tick)) m.2]
    | .error _ => []
  | .oracle =>
    match c.serde.valueFromSlice m.2 with
    | .ok entry =>
      -- a data point without a tick goes to the tick indexed last
      [.oracle (if entry.tick = 0 then ix.pipeline.indexedTick else entry.tick) m.2]
    | .error _ => []
  | _ => []

def puts (c : Crates) (ix : Indexer) (m : Message) : WriteBatch :=
  payloadPuts c m.1 m.2 ++ statePuts c ix m

def nextPipeline (c : Crates) (ix : Indexer) (m : Message) : PipelineState :=
  match m.1 with
  | .tick =>
    match c.serde.tickData.fromSlice m.2 with
    | .ok tick => if acceptsTick tick then (ix.commitTick tick m.2).pipeline else ix.pipeline
    | .error _ => ix.pipeline
  | .tx =>
    match c.serde.transaction.fromSlice m.2 with
    | .ok tx => (ix.commitTransaction c tx m.2).pipeline
    | .error _ => ix.pipeline
  | .entity =>
    match c.serde.entityData.fromSlice m.2 with
    | .ok entity =>
      match decodeBase26 c entity.identity with
      | some key => (ix.commitEntity key m.2).pipeline
      | none => ix.pipeline
    | .error _ => ix.pipeline
  | _ => ix.pipeline

/-- The transaction counters (`tx_last_tick`, `tx_counter`) after a message. -/
def nextCounters (c : Crates) (ix : Indexer) (m : Message) : UInt32 × UInt32 :=
  match m.1 with
  | .tx =>
    match c.serde.transaction.fromSlice m.2 with
    | .ok tx => (tx.tick, ix.txIndex tx.tick + 1)
    | .error _ => (ix.txLastTick, ix.txCounter)
  | _ => (ix.txLastTick, ix.txCounter)

def nextExports (c : Crates) (ix : Indexer) (m : Message) : List ColdExport :=
  match m.1 with
  | .tick =>
    match c.serde.tickData.fromSlice m.2 with
    | .ok tick =>
      if acceptsTick tick then ix.coldExports ++ ix.exportOnTransition tick else ix.coldExports
    | .error _ => ix.coldExports
  | _ => ix.coldExports

def next (c : Crates) (ix : Indexer) (m : Message) : Indexer where
  storage := ix.storage.batchWrite (puts c ix m)
  pipeline := nextPipeline c ix m
  txLastTick := (nextCounters c ix m).1
  txCounter := (nextCounters c ix m).2
  coldExports := nextExports c ix m

/-- Charging the indexed epoch is a batch of at most one write. -/
theorem chargeIndexedEpoch_eq (c : Crates) (ix : Indexer) (f : EpochStats → EpochStats) :
    ix.chargeIndexedEpoch c f
      = { ix with storage := ix.storage.batchWrite (chargePuts c ix f) } := by
  unfold chargeIndexedEpoch chargePuts
  split <;> rfl

/-- The roles of an asset are written for those of its keys that are not zero. -/
theorem foldl_putAssetRole (index : UInt32) (keys : List Key32) (s : WarmStorage) :
    keys.foldl (putAssetRole index) s
      = s.batchWrite ((keys.filter (· ≠ zeroKey)).map (fun key => .entityAsset key index)) := by
  induction keys generalizing s with
  | nil => rfl
  | cons key keys ih =>
    rw [List.foldl_cons, ih, putAssetRole]
    by_cases h : key = zeroKey
    · simp [h]
    · simp [h]; rfl

/-- **What a message does**: one write batch, and the counters of its own handler. The cases follow
the streams, and in each the payload is read, then checked. -/
theorem consume_eq_next (c : Crates) (ix : Indexer) (m : Message) :
    consume c ix m = next c ix m := by
  obtain ⟨σ, payload⟩ := m
  cases σ with
  | tick =>
    simp only [consume, handler, indexTick, withContext, next, puts, payloadPuts, statePuts,
      nextPipeline, nextCounters, nextExports]
    cases c.serde.tickData.fromSlice payload with
    | error e => rfl
    | ok tick =>
      by_cases h : acceptsTick tick
      · simp only [if_pos h]
        rw [WarmStorage.batchWrite_append]
        rfl
      · simp only [if_neg h]
        rfl
  | tx =>
    simp only [consume, handler, indexTransaction, next, puts, payloadPuts, statePuts,
      nextPipeline, nextCounters, nextExports]
    cases c.serde.transaction.fromSlice payload with
    | error e => rfl
    | ok tx =>
      simp only [List.nil_append]
      rw [chargeIndexedEpoch_eq, WarmStorage.batchWrite_append]
      rfl
  | entity =>
    simp only [consume, handler, indexEntity, withContext, next, puts, payloadPuts, statePuts,
      nextPipeline, nextCounters, nextExports]
    cases c.serde.entityData.fromSlice payload with
    | error e => rfl
    | ok entity =>
      dsimp only
      cases decodeBase26 c entity.identity with
      | none => rfl
      | some key =>
        dsimp only
        rw [chargeIndexedEpoch_eq, WarmStorage.batchWrite_append]
        rfl
  -- from here on no counter changes and no epoch is charged
  | asset =>
    simp only [consume, handler, indexAsset, withContext, next, puts, payloadPuts, statePuts]
    cases c.serde.assetRecord.fromSlice payload with
    | error e => rfl
    | ok asset =>
      dsimp only
      rw [foldl_putAssetRole, List.append_nil]
      rfl
  | log =>
    simp only [consume, handler, indexLogEvents, withContext, next, puts, payloadPuts, statePuts]
    cases c.serde.logEvents.fromSlice payload with
    | error e => rfl
    | ok events =>
      dsimp only
      rw [List.append_nil, WarmStorage.batchWrite, List.foldl_map]
      rfl
  | spectrum =>
    simp only [consume, handler, indexSpectrum, withContext, next, puts, payloadPuts, statePuts]
    cases c.serde.valueFromSlice payload with
    | error e => rfl
    | ok entry =>
      dsimp only
      cases decodeBase26 c ((entry.field "identity").asStr.getD []) <;> rfl
  | computors =>
    simp only [consume, handler, indexComputors, withContext, next, puts, payloadPuts, statePuts]
    cases c.serde.computors.fromSlice payload <;> rfl
  | contract =>
    simp only [consume, handler, indexContractIpo, withContext, next, puts, payloadPuts,
      statePuts]
    cases c.serde.contractIpo.fromSlice payload <;> rfl
  | custmsg =>
    simp only [consume, handler, indexCustomMessage, withContext, next, puts, payloadPuts,
      statePuts]
    cases c.serde.valueFromSlice payload <;> rfl
  | tickvote =>
    simp only [consume, handler, indexTickVote, withContext, next, puts, payloadPuts, statePuts]
    cases c.serde.valueFromSlice payload <;> rfl
  | oracle =>
    simp only [consume, handler, indexOracle, withContext, next, puts, payloadPuts, statePuts]
    cases c.serde.valueFromSlice payload <;> rfl

theorem storage_consume (c : Crates) (ix : Indexer) (m : Message) :
    (consume c ix m).storage = ix.storage.batchWrite (puts c ix m) := by
  rw [consume_eq_next]
  rfl

theorem pipeline_consume (c : Crates) (ix : Indexer) (m : Message) :
    (consume c ix m).pipeline = nextPipeline c ix m := by
  rw [consume_eq_next]
  rfl

theorem counters_consume (c : Crates) (ix : Indexer) (m : Message) :
    ((consume c ix m).txLastTick, (consume c ix m).txCounter) = nextCounters c ix m := by
  rw [consume_eq_next]
  rfl

end Indexer

end Qonduit

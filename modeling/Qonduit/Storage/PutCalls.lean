import Qonduit.Storage.WarmScan

/-!
# Qonduit — runs of the writers of the warm tier

The store is written through the `put_*` functions, the two setters of the metadata and
`batch_write`, whose batches are filled by `batch_put_tx` and `batch_put_tick`. A run is a list of
calls of these functions with their arguments.

What a run puts into a family is read off the arguments: `PutCall.ticks`, `PutCall.txsForTick` and
so on list the index and the value of every entry, without a word about keys or their bytes.

* **`perform_eq_batchWrite`** — a call performs the writes listed for it.
* **`view_perform`** — so after a run each index holds what the last call for it put there.
-/

namespace Qonduit

open WarmStorage

/-- A call that adds to a `WriteBatch`. -/
inductive BatchCall where
  | batchPutTx (hash : Key32) (data : Bytes) (tick txIndex : UInt32)
      (source destination : Option Key32)
  | batchPutTick (tick : UInt32) (epoch : UInt16) (data : Bytes)

def BatchCall.extend (batch : WriteBatch) : BatchCall → WriteBatch
  | .batchPutTx hash data tick txIndex source destination =>
    WarmStorage.batchPutTx batch hash data tick txIndex source destination
  | .batchPutTick tick epoch data => WarmStorage.batchPutTick batch tick epoch data

/-- A call that writes to the store. `batchWrite` takes the calls that filled its batch. -/
inductive PutCall where
  | putTick (tick : UInt32) (data : Bytes)
  | putTx (hash : Key32) (data : Bytes)
  | putTxForTick (tick txIndex : UInt32) (txHash : Key32)
  | putTxForEntity (entity : Key32) (tick txIndex : UInt32) (txHash : Key32)
  | putEntity (identity : Key32) (data : Bytes)
  | putSpectrumEntry (identity : Key32) (data : Bytes)
  | putAsset (index : UInt32) (data : Bytes)
  | putComputors (epoch : UInt16) (data : Bytes)
  | putContractIpo (contractIndex : UInt32) (data : Bytes)
  | putCustomMessage (tick index : UInt32) (data : Bytes)
  | putEntityAsset (entity : Key32) (assetIndex : UInt32)
  | putLogEvent (tick txIndex : UInt32) (eventType : UInt8) (data : Bytes)
  | putTickVote (tick : UInt32) (computorIndex : UInt16) (data : Bytes)
  | putMeta (key value : Bytes)
  | setCurrentTick (tick : UInt32)
  | setCurrentEpoch (epoch : UInt16)
  | putOracle (tick : UInt32) (data : Bytes)
  | putEpochStats (epoch : UInt16) (data : Bytes)
  | batchWrite (calls : List BatchCall)

def PutCall.apply (s : WarmStorage) : PutCall → WarmStorage
  | .putTick tick data => s.putTick tick data
  | .putTx hash data => s.putTx hash data
  | .putTxForTick tick txIndex txHash => s.putTxForTick tick txIndex txHash
  | .putTxForEntity entity tick txIndex txHash => s.putTxForEntity entity tick txIndex txHash
  | .putEntity identity data => s.putEntity identity data
  | .putSpectrumEntry identity data => s.putSpectrumEntry identity data
  | .putAsset index data => s.putAsset index data
  | .putComputors epoch data => s.putComputors epoch data
  | .putContractIpo contractIndex data => s.putContractIpo contractIndex data
  | .putCustomMessage tick index data => s.putCustomMessage tick index data
  | .putEntityAsset entity assetIndex => s.putEntityAsset entity assetIndex
  | .putLogEvent tick txIndex eventType data => s.putLogEvent tick txIndex eventType data
  | .putTickVote tick computorIndex data => s.putTickVote tick computorIndex data
  | .putMeta key value => s.putMeta key value
  | .setCurrentTick tick => s.setCurrentTick tick
  | .setCurrentEpoch epoch => s.setCurrentEpoch epoch
  | .putOracle tick data => s.putOracle tick data
  | .putEpochStats epoch data => s.putEpochStats epoch data
  | .batchWrite calls => s.batchWrite (calls.foldl BatchCall.extend [])

/-- The store after a run of calls. -/
def WarmStorage.perform (s : WarmStorage) (calls : List PutCall) : WarmStorage :=
  calls.foldl PutCall.apply s

/-! ## What the calls put

The entries of each family, index and value, in the order in which a call puts them. The data of
`batch_put_tx` and `batch_put_tick` stands beside that of the single calls. -/

namespace BatchCall

def ticks : BatchCall → List (UInt32 × Bytes)
  | .batchPutTick tick _ data => [(tick, data)]
  | _ => []

def txsForTick : BatchCall → List ((UInt32 × UInt32) × Key32)
  | .batchPutTx hash _ tick txIndex _ _ => [((tick, txIndex), hash)]
  | _ => []

/-- The source and the destination of a transaction are indexed where they decoded. -/
def txsForEntity : BatchCall → List ((Key32 × UInt32 × UInt32) × Key32)
  | .batchPutTx hash _ tick txIndex source destination =>
    (source.toList ++ destination.toList).map (fun entity => ((entity, tick, txIndex), hash))
  | _ => []

end BatchCall

namespace PutCall

def ticks : PutCall → List (UInt32 × Bytes)
  | .putTick tick data => [(tick, data)]
  | .batchWrite calls => calls.flatMap BatchCall.ticks
  | _ => []

/-- The slots of a tick are numbered by the transaction index. -/
def txsForTick : PutCall → List ((UInt32 × UInt32) × Key32)
  | .putTxForTick tick txIndex txHash => [((tick, txIndex), txHash)]
  | .batchWrite calls => calls.flatMap BatchCall.txsForTick
  | _ => []

def txsForEntity : PutCall → List ((Key32 × UInt32 × UInt32) × Key32)
  | .putTxForEntity entity tick txIndex txHash => [((entity, tick, txIndex), txHash)]
  | .batchWrite calls => calls.flatMap BatchCall.txsForEntity
  | _ => []

def entities : PutCall → List (Key32 × Bytes)
  | .putEntity identity data => [(identity, data)]
  | _ => []

def spectrumEntries : PutCall → List (Key32 × Bytes)
  | .putSpectrumEntry identity data => [(identity, data)]
  | _ => []

def assets : PutCall → List (UInt32 × Bytes)
  | .putAsset index data => [(index, data)]
  | _ => []

def computors : PutCall → List (UInt16 × Bytes)
  | .putComputors epoch data => [(epoch, data)]
  | _ => []

def contractIpos : PutCall → List (UInt32 × Bytes)
  | .putContractIpo contractIndex data => [(contractIndex, data)]
  | _ => []

def customMessages : PutCall → List ((UInt32 × UInt32) × Bytes)
  | .putCustomMessage tick index data => [((tick, index), data)]
  | _ => []

/-- The pairs of an entity and an asset: the index has no values. -/
def entityAssets : PutCall → List ((Key32 × UInt32) × Unit)
  | .putEntityAsset entity assetIndex => [((entity, assetIndex), ())]
  | _ => []

def logEvents : PutCall → List ((UInt32 × UInt32 × UInt8) × Bytes)
  | .putLogEvent tick txIndex eventType data => [((tick, txIndex, eventType), data)]
  | _ => []

def tickVotes : PutCall → List ((UInt32 × UInt16) × Bytes)
  | .putTickVote tick computorIndex data => [((tick, computorIndex), data)]
  | _ => []

def oracles : PutCall → List (UInt32 × Bytes)
  | .putOracle tick data => [(tick, data)]
  | _ => []

def epochStats : PutCall → List (UInt16 × Bytes)
  | .putEpochStats epoch data => [(epoch, data)]
  | _ => []

end PutCall

/-- What a run leaves at an index: the value of the last call for it. -/
def lastPut {A V : Type} [DecidableEq A] (entries : PutCall → List (A × V))
    (calls : List PutCall) (a : A) : Option V :=
  WriteLog.last (calls.flatMap entries) a

/-! ## The writes of a call

A single call writes at once. A call of `batch_put_*` adds its entries to a batch, which
`batch_write` performs whole. Either way the entries of a call are a list that depends on its
arguments alone. -/

def BatchCall.puts (call : BatchCall) : WriteBatch := call.extend []

/-- The `put_cf` calls that a call comes down to. -/
def PutCall.puts : PutCall → WriteBatch
  | .putTick tick data => [.tick tick data]
  | .putTx hash data => [.tx hash data]
  | .putTxForTick tick txIndex txHash => [.txForTick tick txIndex txHash]
  | .putTxForEntity entity tick txIndex txHash => [.txForEntity entity tick txIndex txHash]
  | .putEntity identity data => [.entity identity data]
  | .putSpectrumEntry identity data => [.spectrumEntry identity data]
  | .putAsset index data => [.asset index data]
  | .putComputors epoch data => [.computors epoch data]
  | .putContractIpo contractIndex data => [.contractIpo contractIndex data]
  | .putCustomMessage tick index data => [.customMessage tick index data]
  | .putEntityAsset entity assetIndex => [.entityAsset entity assetIndex]
  | .putLogEvent tick txIndex eventType data => [.logEvent tick txIndex eventType data]
  | .putTickVote tick computorIndex data => [.tickVote tick computorIndex data]
  | .putMeta key value => [.metaValue key value]
  | .setCurrentTick tick => [.metaValue currentTickKey tick.toBeBytes]
  | .setCurrentEpoch epoch => [.metaValue currentEpochKey epoch.toBeBytes]
  | .putOracle tick data => [.oracle tick data]
  | .putEpochStats epoch data => [.epochStats epoch data]
  | .batchWrite calls => calls.flatMap BatchCall.puts

/-- A `batch_put_*` call adds its entries at the end of the batch and touches nothing that is
there. -/
theorem BatchCall.extend_eq (batch : WriteBatch) (call : BatchCall) :
    call.extend batch = batch ++ call.puts := by
  cases call with
  | batchPutTx hash data tick txIndex source destination =>
    simp [BatchCall.puts, BatchCall.extend, WarmStorage.batchPutTx, List.append_assoc]
  | batchPutTick tick epoch data => rfl

/-- So a batch that several of them filled holds their entries one after the other. -/
theorem BatchCall.foldl_extend (calls : List BatchCall) (batch : WriteBatch) :
    calls.foldl BatchCall.extend batch = batch ++ calls.flatMap BatchCall.puts := by
  induction calls generalizing batch with
  | nil => exact (List.append_nil batch).symm
  | cons call calls ih =>
    rw [List.foldl_cons, ih, BatchCall.extend_eq, List.flatMap_cons, List.append_assoc]

/-- Every function writes what is listed for it, and nothing else. There is one case for each of the
functions. -/
theorem PutCall.apply_eq (s : WarmStorage) (call : PutCall) :
    call.apply s = s.batchWrite call.puts := by
  cases call with
  | batchWrite calls =>
    show s.batchWrite (calls.foldl BatchCall.extend []) = _
    rw [BatchCall.foldl_extend, List.nil_append]
    rfl
  | _ => rfl

/-- A history of calls is one long batch of their entries, which makes the store after it the result
of a write log. -/
theorem WarmStorage.perform_eq_batchWrite (s : WarmStorage) (calls : List PutCall) :
    s.perform calls = s.batchWrite (calls.flatMap PutCall.puts) := by
  induction calls generalizing s with
  | nil => rfl
  | cons call calls ih =>
    show (call.apply s).perform calls = _
    rw [ih, PutCall.apply_eq, List.flatMap_cons, batchWrite_append]

/-! ## The entries of a family

A family stores its entries under encoded indices, with encoded values. Where the writes of a call
into the family are its entries, encoded, the family holds after a run what the entries say. -/

/-- `entries` are the writes of a call into a family, before their keys and values are spelled. -/
structure PutCall.Records {A V : Type} (entries : PutCall → List (A × V)) (cf : Cf)
    (key : A → Bytes) (value : V → Bytes) : Prop where
  injective : Function.Injective key
  writes_eq : ∀ call : PutCall, (call.puts.filter (fun p => p.cf = cf)).map Put.write
    = (entries call).map (fun w => ((cf, key w.1), value w.2))

/-- **After a run an index holds what the last call for it put there.** The encoding of the indices
is injective, so no other index is written by mistake. -/
theorem PutCall.Records.view_perform {A V : Type} [DecidableEq A]
    {entries : PutCall → List (A × V)} {cf : Cf} {key : A → Bytes} {value : V → Bytes}
    (h : Records entries cf key value) (calls : List PutCall) (a : A) :
    (empty.perform calls).view (cf, key a) = (lastPut entries calls a).map value := by
  have hinj : Function.Injective (fun a => (cf, key a)) :=
    fun a b hab => h.injective (congrArg Prod.snd hab)
  -- call by call: the writes into other families do not matter, and these are the entries
  have hcall : ∀ call ∈ calls, WriteLog.last (call.puts.map Put.write) (cf, key a)
      = WriteLog.last ((entries call).map (fun w => (w.1, value w.2))) a := by
    intro call _
    have hfamily : (call.puts.map Put.write).filter (fun w => w.1.1 = cf)
        = ((entries call).map (fun w => (w.1, value w.2))).map
            (fun w => ((cf, key w.1), w.2)) := by
      rw [List.filter_map, List.map_map]
      exact h.writes_eq call
    rw [← WriteLog.last_filter (p := fun w => w.1.1 = cf)
      (fun w _ hw => by simp [hw]), hfamily, WriteLog.last_map_injective hinj]
  rw [perform_eq_batchWrite, view_batchWrite, WriteLog.replay, view_empty, Option.or_none,
    List.map_flatMap, WriteLog.last_flatMap_congr hcall, ← List.map_flatMap,
    WriteLog.last_map_value, lastPut]

/-- The same of a call that adds to a batch. -/
def BatchCall.Records {A V : Type} (entries : BatchCall → List (A × V)) (cf : Cf)
    (key : A → Bytes) (value : V → Bytes) : Prop :=
  ∀ call : BatchCall, (call.puts.filter (fun p => p.cf = cf)).map Put.write
    = (entries call).map (fun w => ((cf, key w.1), value w.2))

/-- The writes of a batch into a family, call by call. A family that batches write too has its
entries listed for both. -/
theorem BatchCall.Records.writes_flatMap {A V : Type} {entries : BatchCall → List (A × V)}
    {cf : Cf} {key : A → Bytes} {value : V → Bytes} (h : BatchCall.Records entries cf key value)
    (calls : List BatchCall) :
    ((calls.flatMap BatchCall.puts).filter (fun p => p.cf = cf)).map Put.write
      = (calls.flatMap entries).map (fun w => ((cf, key w.1), value w.2)) := by
  rw [List.filter_flatMap, List.map_flatMap, List.map_flatMap]
  exact congrArg (List.flatMap · calls) (funext h)

/-- The families that a batch can write. -/
def BatchCall.families : List Cf := [.tick, .tx, .txByTick, .txByEntity, .metadata]

/-- The families that batches write: the ticks, the transactions with their two indexes, and the
metadata. -/
theorem BatchCall.mem_families {call : BatchCall} {p : Put} (h : p ∈ call.puts) :
    p.cf ∈ BatchCall.families := by
  cases call with
  | batchPutTx hash data tick txIndex source destination =>
    simp only [BatchCall.puts, BatchCall.extend, WarmStorage.batchPutTx, List.nil_append,
      List.mem_append, List.mem_cons, List.not_mem_nil, or_false, Option.mem_toList,
      Option.map_eq_some_iff] at h
    -- a transaction has at most four entries, those of its source and destination only if given
    rcases h with ((rfl | rfl) | ⟨_, -, rfl⟩) | ⟨_, -, rfl⟩
    · show Cf.tx ∈ BatchCall.families
      decide
    · show Cf.txByTick ∈ BatchCall.families
      decide
    · show Cf.txByEntity ∈ BatchCall.families
      decide
    · show Cf.txByEntity ∈ BatchCall.families
      decide
  | batchPutTick tick epoch data =>
    simp only [BatchCall.puts, BatchCall.extend, WarmStorage.batchPutTick, List.nil_append,
      List.mem_cons, List.not_mem_nil, or_false] at h
    -- a tick has three, its record and the two of the current tick and epoch
    rcases h with rfl | rfl | rfl
    · show Cf.tick ∈ BatchCall.families
      decide
    · show Cf.metadata ∈ BatchCall.families
      decide
    · show Cf.metadata ∈ BatchCall.families
      decide

/-- A batch leaves the other families alone, which is what lets them be described by their single
calls. -/
theorem BatchCall.writes_eq_nil {cf : Cf} (h : cf ∉ BatchCall.families)
    (calls : List BatchCall) :
    ((calls.flatMap BatchCall.puts).filter (fun p => p.cf = cf)).map Put.write = [] := by
  rw [List.map_eq_nil_iff, List.filter_eq_nil_iff]
  intro p hp hcf
  obtain ⟨call, -, hp⟩ := List.mem_flatMap.mp hp
  exact h (of_decide_eq_true hcf ▸ BatchCall.mem_families hp)

/-! ## Each family

Three families are written by single calls and by batches, the others by one function each. For each
of them it is said how its indices and values are encoded, and that the encoding of the indices is
injective. The proofs go through the calls one by one. -/

namespace BatchCall

/-- The record of a tick, from `batch_put_tick`. -/
theorem records_ticks : Records ticks .tick UInt32.toBeBytes id := by
  intro call
  cases call with
  | batchPutTx hash data tick txIndex source destination =>
    cases source <;> cases destination <;> rfl
  | batchPutTick tick epoch data => rfl

/-- The entry under a tick, from `batch_put_tx`. -/
theorem records_txsForTick :
    Records txsForTick .txByTick (fun p => tickIndexKey p.1 p.2) List.Vector.toList := by
  intro call
  cases call with
  | batchPutTx hash data tick txIndex source destination =>
    cases source <;> cases destination <;> rfl
  | batchPutTick tick epoch data => rfl

/-- The entries under source and destination, from `batch_put_tx`. -/
theorem records_txsForEntity :
    Records txsForEntity .txByEntity (fun p => entityTickIndexKey p.1 p.2.1 p.2.2)
      List.Vector.toList := by
  intro call
  cases call with
  | batchPutTx hash data tick txIndex source destination =>
    cases source <;> cases destination <;> rfl
  | batchPutTick tick epoch data => rfl

end BatchCall

namespace PutCall

/-- Ticks are stored under their number, by `put_tick` and by batches. -/
theorem records_ticks : Records ticks .tick UInt32.toBeBytes id where
  injective _ _ h := UInt32.toBeBytes_inj.mp h
  writes_eq call := by
    cases call with
    | batchWrite calls => exact BatchCall.records_ticks.writes_flatMap calls
    | _ => rfl

/-- The hashes of a tick under its number and their slot. -/
theorem records_txsForTick :
    Records txsForTick .txByTick (fun p => tickIndexKey p.1 p.2) List.Vector.toList where
  injective p q h := by
    obtain ⟨htick, hindex⟩ := tickIndexKey_inj.mp h
    exact Prod.ext htick hindex
  writes_eq call := by
    cases call with
    | batchWrite calls => exact BatchCall.records_txsForTick.writes_flatMap calls
    | _ => rfl

/-- The hashes of an entity under its key, the tick and their slot there. -/
theorem records_txsForEntity :
    Records txsForEntity .txByEntity (fun p => entityTickIndexKey p.1 p.2.1 p.2.2)
      List.Vector.toList where
  injective p q h := by
    obtain ⟨hentity, htick, hindex⟩ := entityTickIndexKey_inj.mp h
    exact Prod.ext hentity (Prod.ext htick hindex)
  writes_eq call := by
    cases call with
    | batchWrite calls => exact BatchCall.records_txsForEntity.writes_flatMap calls
    | _ => rfl

theorem records_entities : Records entities .entity List.Vector.toList id where
  injective := toList_injective
  writes_eq call := by
    cases call with
    | batchWrite calls => exact BatchCall.writes_eq_nil (by decide) calls
    | _ => rfl

theorem records_spectrumEntries :
    Records spectrumEntries .spectrum List.Vector.toList id where
  injective := toList_injective
  writes_eq call := by
    cases call with
    | batchWrite calls => exact BatchCall.writes_eq_nil (by decide) calls
    | _ => rfl

theorem records_assets : Records assets .asset UInt32.toBeBytes id where
  injective _ _ h := UInt32.toBeBytes_inj.mp h
  writes_eq call := by
    cases call with
    | batchWrite calls => exact BatchCall.writes_eq_nil (by decide) calls
    | _ => rfl

theorem records_computors : Records computors .computors UInt16.toBeBytes id where
  injective _ _ h := UInt16.toBeBytes_inj.mp h
  writes_eq call := by
    cases call with
    | batchWrite calls => exact BatchCall.writes_eq_nil (by decide) calls
    | _ => rfl

/-- Contract offerings under the index of the contract. -/
theorem records_contractIpos : Records contractIpos .contractIpo UInt32.toBeBytes id where
  injective _ _ h := UInt32.toBeBytes_inj.mp h
  writes_eq call := by
    cases call with
    | batchWrite calls => exact BatchCall.writes_eq_nil (by decide) calls
    | _ => rfl

/-- Custom messages under their tick and their number in it. -/
theorem records_customMessages :
    Records customMessages .customMessage (fun p => tickIndexKey p.1 p.2) id where
  injective p q h := by
    obtain ⟨htick, hindex⟩ := tickIndexKey_inj.mp h
    exact Prod.ext htick hindex
  writes_eq call := by
    cases call with
    | batchWrite calls => exact BatchCall.writes_eq_nil (by decide) calls
    | _ => rfl

/-- The assets of an entity under its key and their index, without a value. -/
theorem records_entityAssets :
    Records entityAssets .entityAsset (fun p => p.1.toList ++ p.2.toBeBytes)
      (fun _ => []) where
  injective p q h := by
    obtain ⟨hentity, hindex⟩ := List.append_inj h (by simp)
    exact Prod.ext (toList_injective hentity) (UInt32.toBeBytes_inj.mp hindex)
  writes_eq call := by
    cases call with
    | batchWrite calls => exact BatchCall.writes_eq_nil (by decide) calls
    | _ => rfl

/-- Log events under their tick, their transaction and their type. -/
theorem records_logEvents :
    Records logEvents .logEvent (fun p => tickIndexKey p.1 p.2.1 ++ [p.2.2]) id where
  injective p q h := by
    obtain ⟨hslot, htype⟩ := List.append_inj h (by simp)
    obtain ⟨htick, hindex⟩ := tickIndexKey_inj.mp hslot
    exact Prod.ext htick (Prod.ext hindex (List.cons.inj htype).1)
  writes_eq call := by
    cases call with
    | batchWrite calls => exact BatchCall.writes_eq_nil (by decide) calls
    | _ => rfl

/-- Votes under their tick and their computor. -/
theorem records_tickVotes :
    Records tickVotes .tickVote (fun p => p.1.toBeBytes ++ p.2.toBeBytes) id where
  injective p q h := by
    obtain ⟨htick, hindex⟩ := List.append_inj h (by simp)
    exact Prod.ext (UInt32.toBeBytes_inj.mp htick) (UInt16.toBeBytes_inj.mp hindex)
  writes_eq call := by
    cases call with
    | batchWrite calls => exact BatchCall.writes_eq_nil (by decide) calls
    | _ => rfl

theorem records_oracles : Records oracles .oracle UInt32.toBeBytes id where
  injective _ _ h := UInt32.toBeBytes_inj.mp h
  writes_eq call := by
    cases call with
    | batchWrite calls => exact BatchCall.writes_eq_nil (by decide) calls
    | _ => rfl

theorem records_epochStats : Records epochStats .epochStats UInt16.toBeBytes id where
  injective _ _ h := UInt16.toBeBytes_inj.mp h
  writes_eq call := by
    cases call with
    | batchWrite calls => exact BatchCall.writes_eq_nil (by decide) calls
    | _ => rfl

end PutCall

end Qonduit

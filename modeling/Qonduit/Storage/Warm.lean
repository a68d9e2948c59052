import Qonduit.Core.Structs
import Qonduit.Lib.WriteLog
import Qonduit.Lib.OrderedScan
import Mathlib.Logic.Function.Basic

/-!
# Qonduit — the warm tier

`warm.rs`: sixteen RocksDB column families. A family is a finite map from byte strings to
byte strings, iterated in unsigned lexicographic key order; `put_cf` overwrites; a
`WriteBatch` is applied atomically and in order. RocksDB itself is taken not to fail.

* **`Put`** — one `put_cf`. Every `put_*` function builds its key with a fixed layout, and
  a `Put` carries the proof that key and value have the layout of their family. A
  `WarmStorage` carries the same fact for its contents, so a scan that stops at the first
  key of a foreign length never meets one.
* **`WarmStorage.view`** — the store as a partial function of (family, key), on which a
  batch is the replay of its write log (`view_batchWrite`).
* The reads are the source's loops: `scanUnder` is the forward scan under a key stem that
  nine of them share.
-/

namespace Qonduit

/-- The column families (`CF_TICK` … `CF_EPOCH_STATS`; `metadata` is `CF_META`). -/
inductive Cf where
  | tick
  | tx
  | txByTick
  | txByEntity
  | entity
  | spectrum
  | asset
  | computors
  | contractIpo
  | customMessage
  | entityAsset
  | logEvent
  | tickVote
  | metadata
  | oracle
  | epochStats
  deriving DecidableEq, Repr

/-- The key length of a family; `CF_META` has named keys. -/
def Cf.keyLength : Cf → Option Nat
  | .tick => some 4
  | .tx => some 32
  | .txByTick => some 8
  | .txByEntity => some 40
  | .entity => some 32
  | .spectrum => some 32
  | .asset => some 4
  | .computors => some 2
  | .contractIpo => some 4
  | .customMessage => some 8
  | .entityAsset => some 36
  | .logEvent => some 9
  | .tickVote => some 6
  | .metadata => none
  | .oracle => some 4
  | .epochStats => some 2

/-- The value length of a family whose values are fixed-size. -/
def Cf.valueLength : Cf → Option Nat
  | .txByTick => some 32
  | .txByEntity => some 32
  | .entityAsset => some 0
  | _ => none

def Cf.Shaped (cf : Cf) (key value : Bytes) : Prop :=
  (∀ n ∈ cf.keyLength, key.length = n) ∧ (∀ n ∈ cf.valueLength, value.length = n)

abbrev Family := Std.ExtTreeMap Bytes Bytes compare

/-- One `put_cf`. -/
structure Put where
  cf : Cf
  key : Bytes
  value : Bytes
  shaped : cf.Shaped key value

abbrev WriteBatch := List Put

/-- `tick(4 BE) || tx_index(4 BE)`, the key layout of `tx_by_tick` and `custom_message`. -/
def tickIndexKey (tick index : UInt32) : Bytes :=
  tick.toBeBytes ++ index.toBeBytes

def entityTickIndexKey (entity : Key32) (tick index : UInt32) : Bytes :=
  entity.toList ++ tickIndexKey tick index

@[simp] theorem length_tickIndexKey (tick index : UInt32) :
    (tickIndexKey tick index).length = 8 := by
  simp [tickIndexKey]

@[simp] theorem length_entityTickIndexKey (entity : Key32) (tick index : UInt32) :
    (entityTickIndexKey entity tick index).length = 40 := by
  simp [entityTickIndexKey]

namespace Put

def tick (tick : UInt32) (data : Bytes) : Put :=
  ⟨.tick, tick.toBeBytes, data, by simp [Cf.Shaped, Cf.keyLength, Cf.valueLength]⟩

def tx (hash : Key32) (data : Bytes) : Put :=
  ⟨.tx, hash.toList, data, by simp [Cf.Shaped, Cf.keyLength, Cf.valueLength]⟩

def txForTick (tick txIndex : UInt32) (txHash : Key32) : Put :=
  ⟨.txByTick, tickIndexKey tick txIndex, txHash.toList,
    by simp [Cf.Shaped, Cf.keyLength, Cf.valueLength]⟩

def txForEntity (entity : Key32) (tick txIndex : UInt32) (txHash : Key32) : Put :=
  ⟨.txByEntity, entityTickIndexKey entity tick txIndex, txHash.toList,
    by simp [Cf.Shaped, Cf.keyLength, Cf.valueLength]⟩

def entity (identity : Key32) (data : Bytes) : Put :=
  ⟨.entity, identity.toList, data, by simp [Cf.Shaped, Cf.keyLength, Cf.valueLength]⟩

def spectrumEntry (identity : Key32) (data : Bytes) : Put :=
  ⟨.spectrum, identity.toList, data, by simp [Cf.Shaped, Cf.keyLength, Cf.valueLength]⟩

def asset (index : UInt32) (data : Bytes) : Put :=
  ⟨.asset, index.toBeBytes, data, by simp [Cf.Shaped, Cf.keyLength, Cf.valueLength]⟩

def computors (epoch : UInt16) (data : Bytes) : Put :=
  ⟨.computors, epoch.toBeBytes, data, by simp [Cf.Shaped, Cf.keyLength, Cf.valueLength]⟩

def contractIpo (contractIndex : UInt32) (data : Bytes) : Put :=
  ⟨.contractIpo, contractIndex.toBeBytes, data,
    by simp [Cf.Shaped, Cf.keyLength, Cf.valueLength]⟩

def customMessage (tick index : UInt32) (data : Bytes) : Put :=
  ⟨.customMessage, tickIndexKey tick index, data,
    by simp [Cf.Shaped, Cf.keyLength, Cf.valueLength]⟩

def entityAsset (entity : Key32) (assetIndex : UInt32) : Put :=
  ⟨.entityAsset, entity.toList ++ assetIndex.toBeBytes, [],
    by simp [Cf.Shaped, Cf.keyLength, Cf.valueLength]⟩

def logEvent (tick txIndex : UInt32) (eventType : UInt8) (data : Bytes) : Put :=
  ⟨.logEvent, tickIndexKey tick txIndex ++ [eventType], data,
    by simp [Cf.Shaped, Cf.keyLength, Cf.valueLength]⟩

def tickVote (tick : UInt32) (computorIndex : UInt16) (data : Bytes) : Put :=
  ⟨.tickVote, tick.toBeBytes ++ computorIndex.toBeBytes, data,
    by simp [Cf.Shaped, Cf.keyLength, Cf.valueLength]⟩

def metaValue (key value : Bytes) : Put :=
  ⟨.metadata, key, value, by simp [Cf.Shaped, Cf.keyLength, Cf.valueLength]⟩

def oracle (tick : UInt32) (data : Bytes) : Put :=
  ⟨.oracle, tick.toBeBytes, data, by simp [Cf.Shaped, Cf.keyLength, Cf.valueLength]⟩

def epochStats (epoch : UInt16) (data : Bytes) : Put :=
  ⟨.epochStats, epoch.toBeBytes, data, by simp [Cf.Shaped, Cf.keyLength, Cf.valueLength]⟩

/-- The write as an entry of a log over (family, key) addresses. -/
def write (p : Put) : (Cf × Bytes) × Bytes := ((p.cf, p.key), p.value)

end Put

def currentTickKey : Bytes := [99, 117, 114, 114, 101, 110, 116, 95, 116, 105, 99, 107]

def currentEpochKey : Bytes := [99, 117, 114, 114, 101, 110, 116, 95, 101, 112, 111, 99, 104]

structure WarmStorage where
  db : Cf → Family
  shaped : ∀ cf k v, (db cf)[k]? = some v → cf.Shaped k v

namespace WarmStorage

def empty : WarmStorage := ⟨fun _ => ∅, by simp⟩

/-- The store as a partial function of (family, key). -/
def view (s : WarmStorage) : Cf × Bytes → Option Bytes := fun a => (s.db a.1)[a.2]?

/-- A family after one put: the key holds the new value, every other one what it held. -/
theorem getElem?_update (s : WarmStorage) (p : Put) (cf : Cf) (k : Bytes) :
    ((Function.update s.db p.cf ((s.db p.cf).insert p.key p.value)) cf)[k]?
      = if (p.cf, p.key) = (cf, k) then some p.value else (s.db cf)[k]? := by
  by_cases hcf : cf = p.cf
  · subst hcf
    rw [Function.update_self, Std.ExtTreeMap.getElem?_insert]
    simp [Std.LawfulEqCmp.compare_eq_iff_eq]
  · rw [Function.update_of_ne hcf, if_neg (fun h => hcf (congrArg Prod.fst h).symm)]

def putCf (s : WarmStorage) (p : Put) : WarmStorage :=
  ⟨Function.update s.db p.cf ((s.db p.cf).insert p.key p.value), by
    intro cf k v h
    rw [getElem?_update] at h
    split at h
    · next heq =>
      cases h
      rw [Prod.mk.injEq] at heq
      rw [← heq.1, ← heq.2]
      exact p.shaped
    · exact s.shaped cf k v h⟩

def batchWrite (s : WarmStorage) (batch : WriteBatch) : WarmStorage := batch.foldl putCf s

/-! ## Writes -/

def putTick (s : WarmStorage) (tick : UInt32) (data : Bytes) : WarmStorage :=
  s.putCf (.tick tick data)

def putTx (s : WarmStorage) (hash : Key32) (data : Bytes) : WarmStorage :=
  s.putCf (.tx hash data)

def putTxForTick (s : WarmStorage) (tick txIndex : UInt32) (txHash : Key32) : WarmStorage :=
  s.putCf (.txForTick tick txIndex txHash)

def putTxForEntity (s : WarmStorage) (entity : Key32) (tick txIndex : UInt32)
    (txHash : Key32) : WarmStorage :=
  s.putCf (.txForEntity entity tick txIndex txHash)

def putEntity (s : WarmStorage) (identity : Key32) (data : Bytes) : WarmStorage :=
  s.putCf (.entity identity data)

def putSpectrumEntry (s : WarmStorage) (identity : Key32) (data : Bytes) : WarmStorage :=
  s.putCf (.spectrumEntry identity data)

def putAsset (s : WarmStorage) (index : UInt32) (data : Bytes) : WarmStorage :=
  s.putCf (.asset index data)

def putComputors (s : WarmStorage) (epoch : UInt16) (data : Bytes) : WarmStorage :=
  s.putCf (.computors epoch data)

def putContractIpo (s : WarmStorage) (contractIndex : UInt32) (data : Bytes) : WarmStorage :=
  s.putCf (.contractIpo contractIndex data)

def putCustomMessage (s : WarmStorage) (tick index : UInt32) (data : Bytes) : WarmStorage :=
  s.putCf (.customMessage tick index data)

def putEntityAsset (s : WarmStorage) (entity : Key32) (assetIndex : UInt32) : WarmStorage :=
  s.putCf (.entityAsset entity assetIndex)

def putLogEvent (s : WarmStorage) (tick txIndex : UInt32) (eventType : UInt8)
    (data : Bytes) : WarmStorage :=
  s.putCf (.logEvent tick txIndex eventType data)

def putTickVote (s : WarmStorage) (tick : UInt32) (computorIndex : UInt16)
    (data : Bytes) : WarmStorage :=
  s.putCf (.tickVote tick computorIndex data)

def putMeta (s : WarmStorage) (key value : Bytes) : WarmStorage :=
  s.putCf (.metaValue key value)

def setCurrentTick (s : WarmStorage) (tick : UInt32) : WarmStorage :=
  s.putMeta currentTickKey tick.toBeBytes

def setCurrentEpoch (s : WarmStorage) (epoch : UInt16) : WarmStorage :=
  s.putMeta currentEpochKey epoch.toBeBytes

def putOracle (s : WarmStorage) (tick : UInt32) (data : Bytes) : WarmStorage :=
  s.putCf (.oracle tick data)

def putEpochStats (s : WarmStorage) (epoch : UInt16) (data : Bytes) : WarmStorage :=
  s.putCf (.epochStats epoch data)

/-- `batch_put_tx`: the payload under its hash, the tick index entry, and an entity index
entry for each key that decoded. -/
def batchPutTx (batch : WriteBatch) (hash : Key32) (data : Bytes) (tick txIndex : UInt32)
    (source destination : Option Key32) : WriteBatch :=
  batch ++ [.tx hash data, .txForTick tick txIndex hash]
    ++ (source.map (fun src => Put.txForEntity src tick txIndex hash)).toList
    ++ (destination.map (fun dst => Put.txForEntity dst tick txIndex hash)).toList

/-- `batch_put_tick`: the payload under its tick, and `current_tick` / `current_epoch`. -/
def batchPutTick (batch : WriteBatch) (tick : UInt32) (epoch : UInt16) (data : Bytes) :
    WriteBatch :=
  batch ++ [.tick tick data, .metaValue currentTickKey tick.toBeBytes,
    .metaValue currentEpochKey epoch.toBeBytes]

/-! ## Reads -/

/-- The forward loop that starts at `stem` and breaks at the first key that has another
length than `keyLen` or does not start with `stem`. -/
def scanUnder (f : Family) (keyLen : Nat) (stem : Bytes) : List (Bytes × Bytes) :=
  (OrderedScan.seek f stem).takeWhile
    (fun e => e.1.length == keyLen && e.1.take stem.length == stem)

def getTick (s : WarmStorage) (tick : UInt32) : Option Bytes :=
  (s.db .tick)[tick.toBeBytes]?

/-- The ticks from `fromTick` to `toTick`: keys of another length are passed over, and the loop
breaks at the first tick beyond. -/
def getTickRange (s : WarmStorage) (fromTick toTick : UInt32) : List (UInt32 × Bytes) :=
  (((OrderedScan.seek (s.db .tick) fromTick.toBeBytes).filter (fun e => e.1.length == 4)).map
    (fun e => (UInt32.fromBeBytes e.1, e.2))).takeWhile (fun r => r.1 ≤ toTick)

/-- Reverse scan of `CF_TICK` for its first four-byte key. -/
def getLatestTick (s : WarmStorage) : Option UInt32 :=
  ((s.db .tick).toList.reverse.find? (fun e => e.1.length == 4)).map
    (fun e => UInt32.fromBeBytes e.1)

def getTx (s : WarmStorage) (hash : Key32) : Option Bytes :=
  (s.db .tx)[hash.toList]?

def getTxHashesForTick (s : WarmStorage) (tick : UInt32) : Outcome (List Key32) :=
  (scanUnder (s.db .txByTick) 8 tick.toBeBytes).mapM (fun e => copyFromSlice e.2)

/-- Reverse scan from `entity || 0xFF * 8`, at most `limit` entries. -/
def getTxHashesForEntity (s : WarmStorage) (entity : Key32) (limit : Nat) :
    Outcome (List Key32) :=
  (((OrderedScan.seekBack (s.db .txByEntity) (entity.toList ++ List.replicate 8 0xFF)).takeWhile
    (fun e => e.1.length == 40 && e.1.take 32 == entity.toList)).take limit).mapM
      (fun e => copyFromSlice e.2)

/-- The loop of `get_entity_history`, with the entries still ahead, the number of those skipped
and the results so far. -/
def historyFrom (s : WarmStorage) (entity : Key32) (tickUpper : Option UInt32)
    (offset limit : Nat) :
    List (Bytes × Bytes) → Nat → List (UInt32 × Bytes) → Outcome (List (UInt32 × Bytes))
  | [], _, results => .ok results
  | (key, value) :: rest, skipped, results =>
    if key.length ≠ 40 ∨ key.take 32 ≠ entity.toList then .ok results
    else
      let tick := UInt32.fromBeBytes ((key.drop 32).take 4)
      if tickUpper.any (fun upper => tick > upper) then .ok results
      else if value.length ≠ 32 then
        historyFrom s entity tickUpper offset limit rest skipped results
      else do
        let hash ← copyFromSlice value
        if skipped < offset then
          historyFrom s entity tickUpper offset limit rest (skipped + 1) results
        else if results.length ≥ limit then .ok results
        else
          match s.getTx hash with
          | some data =>
            historyFrom s entity tickUpper offset limit rest skipped (results ++ [(tick, data)])
          -- an entry without its transaction takes no place in the page
          | none => historyFrom s entity tickUpper offset limit rest skipped results

/-- `ranges` are the cached epoch ranges; an unknown epoch has no history. -/
def getEntityHistory (s : WarmStorage) (ranges : List EpochRange) (entity : Key32)
    (epochFilter : Option UInt16) (offset limit : Nat) : Outcome (List (UInt32 × Bytes)) :=
  match epochFilter with
  | some epoch =>
    match getEpochRange ranges epoch with
    | some range =>
      historyFrom s entity (some range.lastTick) offset limit
        (OrderedScan.seek (s.db .txByEntity)
          (entity.toList ++ range.firstTick.toBeBytes ++ (0 : UInt32).toBeBytes)) 0 []
    | none => .ok []
  | none =>
    historyFrom s entity none offset limit
      (OrderedScan.seek (s.db .txByEntity) entity.toList) 0 []

def countEntityTransactions (s : WarmStorage) (entity : Key32) : Nat :=
  (scanUnder (s.db .txByEntity) 40 entity.toList).length

def countCustomMessagesForTick (s : WarmStorage) (tick : UInt32) : Nat :=
  (scanUnder (s.db .customMessage) 8 tick.toBeBytes).length

def getCustomMessagesForTick (s : WarmStorage) (tick : UInt32) : List Bytes :=
  (scanUnder (s.db .customMessage) 8 tick.toBeBytes).map Prod.snd

def getAsset (s : WarmStorage) (index : UInt32) : Option Bytes :=
  (s.db .asset)[index.toBeBytes]?

/-- At most `limit` assets, from the key of four zero bytes on. -/
def getAllAssets (s : WarmStorage) (limit : Nat) : List (UInt32 × Bytes) :=
  (((OrderedScan.seek (s.db .asset) (List.replicate 4 0)).filter
    (fun e => e.1.length == 4)).take limit).map (fun e => (UInt32.fromBeBytes e.1, e.2))

def getAssetsForEntity (s : WarmStorage) (entity : Key32) : List UInt32 :=
  (scanUnder (s.db .entityAsset) 36 entity.toList).map
    (fun e => UInt32.fromBeBytes (e.1.drop 32))

/-- The whole family is scanned for keys that end in the index. -/
def getHoldersForAsset (s : WarmStorage) (assetIndex : UInt32) : Outcome (List Key32) :=
  (((s.db .entityAsset).toList.filter (fun e => e.1.length == 36)).filter
    (fun e => e.1.drop 32 == assetIndex.toBeBytes)).mapM (fun e => copyFromSlice (e.1.take 32))

def getLogEventsForTick (s : WarmStorage) (tick : UInt32) : List Bytes :=
  (scanUnder (s.db .logEvent) 9 tick.toBeBytes).map Prod.snd

def getVotesForTick (s : WarmStorage) (tick : UInt32) : List (UInt16 × Bytes) :=
  (scanUnder (s.db .tickVote) 6 tick.toBeBytes).map
    (fun e => (UInt16.fromBeBytes (e.1.drop 4), e.2))

def countVotesForTick (s : WarmStorage) (tick : UInt32) : Nat :=
  (scanUnder (s.db .tickVote) 6 tick.toBeBytes).length

def getMeta (s : WarmStorage) (key : Bytes) : Option Bytes :=
  (s.db .metadata)[key]?

def getCurrentTick (s : WarmStorage) : Option UInt32 :=
  match s.getMeta currentTickKey with
  | some data => if data.length = 4 then some (UInt32.fromBeBytes data) else none
  | none => none

def getCurrentEpoch (s : WarmStorage) : Option UInt16 :=
  match s.getMeta currentEpochKey with
  | some data => if data.length = 2 then some (UInt16.fromBeBytes data) else none
  | none => none

def getEpochStats (s : WarmStorage) (epoch : UInt16) : Option Bytes :=
  (s.db .epochStats)[epoch.toBeBytes]?

def getContractIpo (s : WarmStorage) (contractIndex : UInt32) : Option Bytes :=
  (s.db .contractIpo)[contractIndex.toBeBytes]?

/-! ## The store as a function

A store is seen as the function from a family and a key to what is stored there. Every write changes
it at one place, so a history of writes is a log in which the last write to a place wins. -/

@[simp] theorem view_empty (a : Cf × Bytes) : empty.view a = none := by
  simp [view, empty]

/-- A put is a log of one write. -/
theorem view_putCf (s : WarmStorage) (p : Put) :
    (s.putCf p).view = WriteLog.replay [p.write] s.view := by
  funext a
  rw [WriteLog.replay_singleton]
  exact getElem?_update s p a.1 a.2

/-- A batch is the log of its entries. -/
theorem view_batchWrite (s : WarmStorage) (batch : WriteBatch) :
    (s.batchWrite batch).view = WriteLog.replay (batch.map Put.write) s.view := by
  induction batch generalizing s with
  | nil => simp [batchWrite]
  | cons p batch ih =>
    show ((s.putCf p).batchWrite batch).view = _
    rw [ih, view_putCf, ← WriteLog.replay_append]
    rfl

/-- A batch that does not write a family leaves it alone. -/
theorem view_batchWrite_of_cf {s : WarmStorage} {batch : WriteBatch} {cf : Cf}
    (h : ∀ p ∈ batch, p.cf ≠ cf) (k : Bytes) :
    (s.batchWrite batch).view (cf, k) = s.view (cf, k) := by
  rw [view_batchWrite]
  refine WriteLog.replay_of_not_mem ?_
  intro w hw haddr
  obtain ⟨p, hp, rfl⟩ := List.mem_map.mp hw
  exact h p hp (congrArg Prod.fst haddr)

theorem batchWrite_append (s : WarmStorage) (b b' : WriteBatch) :
    s.batchWrite (b ++ b') = (s.batchWrite b).batchWrite b' :=
  List.foldl_append

/-- A family is determined by what it holds, as the map has one form for each content. -/
theorem db_eq_of_view {s s' : WarmStorage} {cf : Cf}
    (h : ∀ k, s.view (cf, k) = s'.view (cf, k)) : s.db cf = s'.db cf :=
  Std.ExtTreeMap.ext_getElem? h

/-- The keys of a family have its length. The store carries this as a field of each family. -/
theorem keyLength_of_view {s : WarmStorage} {cf : Cf} {k v : Bytes} {n : Nat}
    (h : s.view (cf, k) = some v) (hn : cf.keyLength = some n) : k.length = n :=
  (s.shaped cf k v h).1 n hn

theorem valueLength_of_view {s : WarmStorage} {cf : Cf} {k v : Bytes} {n : Nat}
    (h : s.view (cf, k) = some v) (hn : cf.valueLength = some n) : v.length = n :=
  (s.shaped cf k v h).2 n hn

end WarmStorage

end Qonduit

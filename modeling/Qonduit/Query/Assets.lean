import Qonduit.Core.Json
import Qonduit.Lib.SecondaryIndex
import Qonduit.Processor.StreamLog
import Qonduit.Query.Rpc
import Qonduit.Storage.ForwardScans

/-!
# Qonduit — the assets of an entity

The queries for owned and for possessed assets look at `entity_asset` first and scan the assets
only where that index has nothing. The index is one relation for three roles: `index_asset` wires
an asset to its issuer, its owner and its possessor, and never takes a wire back.

* **`mem_getAssetsForEntity_run`** — an asset is wired to an entity once any record of it named the
  entity.
* **`asset_queries_agree_iff`** — when the queries answer with the assets that the entity owns, or
  possesses.
* **`owned_assets_of_issuer`** — an entity that only issued an asset is told that it owns it.
-/

namespace Qonduit

/-! ## The queries

Both front ends look up the assets wired to the entity first, and scan all assets for its role only
where none is wired. The wires do not say which role they stand for. -/

/-- `value.get(name)`. -/
def Value.get : Value → String → Option Value
  | .object fields, name => fields.lookup name
  | _, _ => none

def Value.asNumber : Value → Option Number
  | .number n => some n
  | _ => none

/-- `value == json!(key)`. -/
def Value.isKey (key : Key32) : Value → Bool
  | .array xs => xs.map Value.asNumber == key.toList.map (fun b => some (.posInt b.toUInt64))
  | _ => false

/-- The role of an asset record a query asks for, by the name of its field. -/
inductive AssetRole where
  | owning
  | possessing
  deriving DecidableEq

def AssetRole.field : AssetRole → String
  | .owning => "owning_entity"
  | .possessing => "possessing_entity"

/-- `v.get(field) == Some(&entity_json)`. -/
def AssetRole.holds (role : AssetRole) (key : Key32) (v : Value) : Bool :=
  (v.get role.field).any (Value.isKey key)

/-- The document stored under an asset index, where there is one that parses. -/
def assetDoc (c : Crates) (s : WarmStorage) (index : UInt32) : Option Value :=
  (s.getAsset index).bind (fun data => (c.serde.valueFromSlice data).toOption)

/-- The scan the queries fall back to. -/
def scanAssets (c : Crates) (s : WarmStorage) (role : AssetRole) (key : Key32) : List Value :=
  ((s.getAllAssets 10000).filterMap (fun a => (c.serde.valueFromSlice a.2).toOption)).filter
    (role.holds key)

/-- What the handlers for owned and possessed assets answer with: the documents under the wired
indices if there is any wire, else the scan. -/
def assetsOf (c : Crates) (s : WarmStorage) (role : AssetRole) (key : Key32) : List Value :=
  let indices := s.getAssetsForEntity key
  if !indices.isEmpty then indices.filterMap (assetDoc c s) else scanAssets c s role key

/-- Both REST handlers. -/
def Rest.assetsOfRole (c : Crates) (s : WarmStorage) (role : AssetRole) (id : Str) : Response :=
  match decodeBase26 c id with
  | some key => .json (.array (assetsOf c s role key))
  | none => .badRequest "Invalid identity: must be a valid base26-encoded string"

/-- `GET /v1/owned-assets/:id`. -/
def Rest.getOwnedAssets (c : Crates) (s : WarmStorage) (id : Str) : Response :=
  Rest.assetsOfRole c s .owning id

/-- `GET /v1/possessed-assets/:id`. -/
def Rest.getPossessedAssets (c : Crates) (s : WarmStorage) (id : Str) : Response :=
  Rest.assetsOfRole c s .possessing id

/-- Both arms of `dispatch_method`. -/
def Rpc.assetsOfRole (c : Crates) (s : WarmStorage) (role : AssetRole) (params : Option Value) :
    Outcome Value := do
  let id ← extractStringParam params 0
  match decodeBase26 c id with
  | some key => .ok (.array (assetsOf c s role key))
  | none => bail "Invalid identity"

def Rpc.getOwnedAssets (c : Crates) (s : WarmStorage) (params : Option Value) : Outcome Value :=
  Rpc.assetsOfRole c s .owning params

def Rpc.getPossessedAssets (c : Crates) (s : WarmStorage) (params : Option Value) :
    Outcome Value :=
  Rpc.assetsOfRole c s .possessing params

/-- An array reads as numbers if it is one of numbers. -/
theorem map_asNumber_iff (xs : List Value) (ns : List Number) :
    xs.map Value.asNumber = ns.map some ↔ xs = ns.map .number := by
  constructor
  · intro h
    induction ns generalizing xs with
    | nil => simpa using h
    | cons n ns ih =>
      cases xs with
      | nil => simp at h
      | cons x xs =>
        obtain ⟨hx, hxs⟩ := List.cons.inj h
        cases x with
        | number m =>
          cases hx
          rw [ih xs hxs, List.map_cons]
        | _ => cases hx
  · rintro rfl
    rw [List.map_map]
    rfl

/-- The comparison with a key is equality. -/
theorem Value.isKey_iff {key : Key32} {v : Value} : v.isKey key ↔ v = .bytes key := by
  have hbytes : ∀ xs : List Value, xs.map Value.asNumber
      = key.toList.map (fun b => some (.posInt b.toUInt64)) ↔ .array xs = Value.bytes key := by
    intro xs
    have h := map_asNumber_iff xs (key.toList.map (fun b => Number.posInt b.toUInt64))
    rw [List.map_map, List.map_map] at h
    rw [Value.bytes, Value.array.injEq]
    exact h
  cases v with
  | array xs =>
    rw [isKey, beq_iff_eq]
    exact hbytes xs
  | _ => simp [isKey, bytes]

/-! ## The stored assets

The assets are enumerated by their indices, which is the order in which both the listing and the
scan visit them. -/

/-- The documents of the stored assets, by ascending index. -/
def storedAssets (c : Crates) (s : WarmStorage) : List Value :=
  (s.db .asset).toList.filterMap (fun x => (c.serde.valueFromSlice x.2).toOption)

/-- The stored assets with their indices. -/
def assetTable (c : Crates) (s : WarmStorage) : List (UInt32 × Value) :=
  ((s.db .asset).toList.map (fun x => (UInt32.fromBeBytes x.1, x.2))).filterMap
    (fun r => (c.serde.valueFromSlice r.2).toOption.map (Prod.mk r.1))

namespace WarmStorage

/-- The stored assets, by index. -/
theorem assets_enumerates (s : WarmStorage) :
    OrderedScan.Enumerates UInt32.toNat s.getAsset
      ((s.db .asset).toList.map (fun x => (UInt32.fromBeBytes x.1, x.2))) := by
  have hall : OrderedScan.select (s.db .asset) (fun _ => true) = (s.db .asset).toList :=
    List.filter_true _
  rw [← hall]
  refine OrderedScan.enumerates_select UInt32.toBeBytes _ ?_ ?_ ?_ ?_
  · intro k hk _
    exact exists_toBeBytes k (s.length_of_mem rfl k hk)
  · exact UInt32.fromBeBytes_toBeBytes
  · intro i j hij
    rw [UInt32.compare_toBeBytes] at hij
    exact Nat.compare_eq_lt.mp hij
  · intro i v
    exact ⟨fun h => ⟨h, rfl⟩, And.left⟩

/-- A limit that is not below the number of assets cuts nothing off. -/
theorem getAllAssets_eq (s : WarmStorage) {limit : Nat} (h : (s.db .asset).size ≤ limit) :
    s.getAllAssets limit = (s.db .asset).toList.map (fun x => (UInt32.fromBeBytes x.1, x.2)) := by
  have hlen : ∀ x ∈ (s.db .asset).toList, x.1.length = 4 := fun x hx =>
    s.keyLength_of_view (Std.ExtTreeMap.mem_toList_iff_getElem?_eq_some.mp hx) rfl
  have hstart : OrderedScan.seek (s.db .asset) (List.replicate 4 0) = (s.db .asset).toList := by
    rw [OrderedScan.seek_eq_select]
    refine List.filter_eq_self.mpr (fun x hx => ?_)
    -- no four-byte key is below the zero key
    have hzero : (List.replicate 4 0 : Bytes) = (0 : UInt32).toBeBytes := by decide
    obtain ⟨i, hi⟩ := exists_toBeBytes x.1 (hlen x hx)
    have hlow : compare x.1 (List.replicate 4 0) ≠ .lt := by
      rw [hi, hzero, UInt32.compare_toBeBytes, UInt32.toNat_zero, Ne, Nat.compare_eq_lt]
      exact Nat.not_lt_zero _
    rw [Bool.not_eq_true', beq_eq_false_iff_ne]
    exact hlow
  have hkeep : (s.db .asset).toList.filter (fun x => x.1.length == 4) = (s.db .asset).toList :=
    List.filter_eq_self.mpr (fun x hx => by simp [hlen x hx])
  rw [getAllAssets, hstart, hkeep, List.take_of_length_le]
  rwa [Std.ExtTreeMap.length_toList]

end WarmStorage

section Table

variable (c : Crates) (s : WarmStorage)

theorem assetTable_enumerates :
    OrderedScan.Enumerates UInt32.toNat (assetDoc c s) (assetTable c s) :=
  s.assets_enumerates.filterMap (fun data => (c.serde.valueFromSlice data).toOption)

theorem map_snd_assetTable : (assetTable c s).map Prod.snd = storedAssets c s := by
  rw [assetTable, storedAssets, List.map_filterMap, List.filterMap_map]
  congr 1
  funext x
  cases h : (c.serde.valueFromSlice x.2).toOption <;> simp [h]

/-- The scan returns the documents of all stored assets that pass its test. -/
theorem scanAssets_eq {role : AssetRole} {key : Key32} (h : (s.db .asset).size ≤ 10000) :
    scanAssets c s role key = (storedAssets c s).filter (role.holds key) := by
  rw [scanAssets, s.getAllAssets_eq h, storedAssets, List.filterMap_map]
  rfl

/-- **When the answer is that of the scan**: nothing is wired to the entity, or exactly the assets
that pass the test are. -/
theorem assetsOf_eq_iff {role : AssetRole} {key : Key32} (h : (s.db .asset).size ≤ 10000) :
    assetsOf c s role key = (storedAssets c s).filter (role.holds key) ↔
      s.getAssetsForEntity key = [] ∨
      ∀ i v, assetDoc c s i = some v → (i ∈ s.getAssetsForEntity key ↔ role.holds key v) := by
  cases hindex : s.getAssetsForEntity key with
  | nil =>
    have hscan : assetsOf c s role key = scanAssets c s role key := by
      simp only [assetsOf, hindex, List.isEmpty_nil, Bool.not_true, Bool.false_eq_true, if_false]
    rw [hscan, scanAssets_eq c s h]
    exact ⟨fun _ => .inl rfl, fun _ => rfl⟩
  | cons i rest =>
    have hfast : assetsOf c s role key = (s.getAssetsForEntity key).filterMap (assetDoc c s) := by
      simp only [assetsOf, hindex, List.isEmpty_cons, Bool.not_false, if_true]
    have hincreasing : (s.getAssetsForEntity key).Pairwise (fun i j => i.toNat < j.toNat) :=
      (s.getAssetsForEntity_spec key).1.imp UInt32.lt_iff_toNat_lt.mp
    rw [hfast, ← map_snd_assetTable,
      SecondaryIndex.lookups_eq_scan_iff (assetTable_enumerates c s) hincreasing, hindex]
    simp

end Table

/-! ## Runs of the indexer

A record wires its asset to the entities it names, and nothing takes a wire away. A later record may
name others, so the wires of an asset go back to all records of it. -/

/-- The record names the entity in some role; the zero key stands for no entity. -/
def AssetRecord.Names (asset : AssetRecord) (key : Key32) : Prop :=
  key ≠ zeroKey ∧ key ∈ [asset.issuingEntity, asset.owningEntity, asset.possessingEntity]

/-- Some accepted record of the asset index names the entity. -/
def NamedAt (c : Crates) (payloads : List Bytes) (key : Key32) (index : UInt32) : Prop :=
  ∃ payload ∈ payloads, ∃ asset, c.serde.assetRecord.fromSlice payload = .ok asset ∧
    asset.issuanceIndex = index ∧ asset.Names key

/-- The accepted payloads of the asset stream, under their indices. -/
def assetLog (c : Crates) (payloads : List Bytes) : List (UInt32 × Bytes) :=
  payloads.flatMap (fun payload =>
    match c.serde.assetRecord.fromSlice payload with
    | .ok asset => [(asset.issuanceIndex, payload)]
    | .error _ => [])

/-- The document of the last accepted record of an asset index. -/
def lastAssetDoc (c : Crates) (payloads : List Bytes) (index : UInt32) : Option Value :=
  (WriteLog.last (assetLog c payloads) index).bind
    (fun data => (c.serde.valueFromSlice data).toOption)

/-- No record names the entity, or among the assets that have a document it was named by some record
of the asset exactly where the last one puts it in the role. -/
def NamesMatchRole (c : Crates) (payloads : List Bytes) (role : AssetRole) (key : Key32) : Prop :=
  (∀ index, ¬NamedAt c payloads key index) ∨
  ∀ index v, lastAssetDoc c payloads index = some v →
    (NamedAt c payloads key index ↔ role.holds key v)

namespace Indexer

variable (c : Crates) (pl : PipelineState) (ms : List Message)

/-- A wire tells its entity and its asset. -/
theorem entityAsset_key_inj {e e' : Key32} {i i' : UInt32} :
    e.toList ++ i.toBeBytes = e'.toList ++ i'.toBeBytes ↔ e = e' ∧ i = i' := by
  constructor
  · intro h
    obtain ⟨h₁, h₂⟩ := List.append_inj h (by simp)
    exact ⟨List.Vector.eq _ _ h₁, UInt32.toBeBytes_inj.mp h₂⟩
  · rintro ⟨rfl, rfl⟩
    rfl

/-- The wires a payload puts are those of the entities its record names. -/
theorem exists_wire_iff {payload : Bytes} {key : Key32} {index : UInt32} :
    (∃ p ∈ payloadPuts c .asset payload,
        (p.cf, p.key) = (Cf.entityAsset, key.toList ++ index.toBeBytes)) ↔
      ∃ asset, c.serde.assetRecord.fromSlice payload = .ok asset ∧
        asset.issuanceIndex = index ∧ asset.Names key := by
  simp only [payloadPuts]
  cases c.serde.assetRecord.fromSlice payload with
  | error e => simp
  | ok asset =>
    simp only [List.mem_cons, rolePuts, List.mem_map, List.mem_filter, decide_eq_true_eq,
      Except.ok.injEq, exists_eq_left']
    constructor
    · rintro ⟨p, rfl | ⟨k, ⟨hmem, hne⟩, rfl⟩, hkey⟩
      · cases (Prod.mk.inj hkey).1
      · obtain ⟨rfl, rfl⟩ := entityAsset_key_inj.mp (Prod.mk.inj hkey).2
        exact ⟨rfl, hne, by simpa using hmem⟩
    · rintro ⟨rfl, hne, hmem⟩
      exact ⟨.entityAsset key asset.issuanceIndex,
        .inr ⟨key, ⟨by simpa using hmem, hne⟩, rfl⟩, rfl⟩

/-- **An asset is wired to every entity a record of it ever named**, in whatever role. -/
theorem mem_getAssetsForEntity_run {key : Key32} {index : UInt32} :
    index ∈ (run c (new .empty pl) ms).storage.getAssetsForEntity key ↔
      NamedAt c (ofStream .asset ms) key index := by
  rw [((run c (new .empty pl) ms).storage.getAssetsForEntity_spec key).2,
    view_run (show owner .entityAsset = some .asset from rfl), WriteLog.replay,
    WarmStorage.view_empty, Option.or_none, ← Option.ne_none_iff_isSome, Ne,
    WriteLog.last_eq_none_iff]
  simp only [NamedAt, ← exists_wire_iff, streamLog, List.mem_map, List.mem_flatMap, not_forall,
    not_not]
  constructor
  · rintro ⟨_, ⟨p, ⟨payload, hpayload, hp⟩, rfl⟩, hkey⟩
    exact ⟨payload, hpayload, p, hp, hkey⟩
  · rintro ⟨payload, hpayload, p, hp, hkey⟩
    exact ⟨p.write, ⟨p, ⟨payload, hpayload, hp⟩, rfl⟩, hkey⟩

/-- The record of an asset is the last one delivered. The family is owned by the stream of the
assets, so what other streams do in between makes no difference. -/
theorem getAsset_run (index : UInt32) :
    (run c (new .empty pl) ms).storage.getAsset index
      = WriteLog.last (assetLog c (ofStream .asset ms)) index := by
  have hlog : streamLog c .asset (ofStream .asset ms)
      = (ofStream .asset ms).flatMap (payloadPuts c .asset) := rfl
  show (run c (new .empty pl) ms).storage.view (.asset, index.toBeBytes) = _
  rw [view_run (show owner .asset = some .asset from rfl), WriteLog.replay,
    WarmStorage.view_empty, Option.or_none, hlog, List.map_flatMap, assetLog]
  refine WriteLog.last_flatMap_congr (fun payload _ => ?_)
  simp only [payloadPuts]
  cases c.serde.assetRecord.fromSlice payload with
  | error e => rfl
  | ok asset =>
    -- the wires go to another family
    have hwires : WriteLog.last ((rolePuts asset).map Put.write) (Cf.asset, index.toBeBytes)
        = none := by
      refine WriteLog.last_eq_none_iff.mpr (fun w hw => ?_)
      obtain ⟨p, hp, rfl⟩ := List.mem_map.mp hw
      obtain ⟨key, -, rfl⟩ := List.mem_map.mp hp
      intro h
      cases (Prod.mk.inj h).1
    rw [List.map_cons, WriteLog.last_cons, hwires, Option.none_or, WriteLog.last_singleton]
    simp only [Put.write, Put.asset, Prod.mk.injEq, true_and, UInt32.toBeBytes_inj]

/-- The answer over the store of a run, in terms of the records it was given. -/
theorem assetsOf_run_iff {role : AssetRole} {key : Key32}
    (hsize : ((run c (new .empty pl) ms).storage.db .asset).size ≤ 10000) :
    assetsOf c (run c (new .empty pl) ms).storage role key
        = (storedAssets c (run c (new .empty pl) ms).storage).filter (role.holds key) ↔
      NamesMatchRole c (ofStream .asset ms) role key := by
  rw [assetsOf_eq_iff c _ hsize, NamesMatchRole, List.eq_nil_iff_forall_not_mem]
  simp only [mem_getAssetsForEntity_run, assetDoc, getAsset_run, lastAssetDoc]

/-- **When the queries for owned and possessed assets are right**, over REST and RPC alike: if no
asset is wired to the entity that it does not own, or possess, by the last record of the asset, or
none is wired at all and so none is its own. -/
theorem asset_queries_agree_iff {id : Str} {key : Key32} {params : Option Value}
    (hid : decodeBase26 c id = some key) (hparams : Rpc.extractStringParam params 0 = .ok id)
    (hsize : ((run c (new .empty pl) ms).storage.db .asset).size ≤ 10000) :
    let s := (run c (new .empty pl) ms).storage
    let payloads := ofStream .asset ms
    let held := fun role => Value.array ((storedAssets c s).filter (AssetRole.holds role key))
    ((Rest.getOwnedAssets c s id = .json (held .owning) ∧
        Rpc.getOwnedAssets c s params = .ok (held .owning)) ↔
      NamesMatchRole c payloads .owning key) ∧
    ((Rest.getPossessedAssets c s id = .json (held .possessing) ∧
        Rpc.getPossessedAssets c s params = .ok (held .possessing)) ↔
      NamesMatchRole c payloads .possessing key) := by
  intro s payloads held
  have hrest : ∀ role, Rest.assetsOfRole c s role id = .json (.array (assetsOf c s role key)) := by
    intro role
    simp only [Rest.assetsOfRole, hid]
  have hrpc : ∀ role, Rpc.assetsOfRole c s role params = .ok (.array (assetsOf c s role key)) := by
    intro role
    simp only [Rpc.assetsOfRole, hparams, ok_bind, hid]
  have hrole : ∀ role, (Rest.assetsOfRole c s role id = .json (held role) ∧
      Rpc.assetsOfRole c s role params = .ok (held role)) ↔ NamesMatchRole c payloads role key := by
    intro role
    rw [hrest, hrpc, ← assetsOf_run_iff c pl ms hsize]
    simp only [held, Response.json.injEq, Except.ok.injEq, Value.array.injEq, and_self]
    rfl
  exact ⟨hrole .owning, hrole .possessing⟩

/-! ## An asset of two entities

One entity has issued the asset, the other one owns and possesses it. -/

/-- The keys that begin with 1 and with 2, their identities, and the first K12 bytes of both. -/
def issuerKey : Key32 := ⟨1 :: List.replicate 31 0, by simp⟩

def issuerIdentity : Str := 66 :: List.replicate 55 65 ++ ascii "RMID"

def ownerKey : Key32 := ⟨2 :: List.replicate 31 0, by simp⟩

def ownerIdentity : Str := 67 :: List.replicate 55 65 ++ ascii "CNKL"

/-- An asset that one entity issued and another owns and possesses. -/
def sampleAsset : AssetRecord where
  assetType := .possession
  managed := true
  issuingEntity := issuerKey
  owningEntity := ownerKey
  possessingEntity := ownerKey
  issuanceIndex := 0
  issuanceAmount := 1000
  numberOfUnits := 1000
  unitOfMeasurement := 0
  denomination := 0
  valuePerUnit := 0
  name := ascii "QX"
  description := []
  url := []
  hash := zeroKey
  managingContractIndex := 1

def sampleAssetCrates : Crates :=
  (Crates.ofKnown {
    values := [(sampleAsset.json, sampleAsset.document)]
    k12 := [(issuerKey, (0x61, 0xE4, 0x0C)), (ownerKey, (0xF4, 0x0E, 0x47))] }).withAssets
      [sampleAsset]

/-- The store after the one record of the asset. -/
def sampleAssetRun : Indexer :=
  run sampleAssetCrates (new .empty {}) [(.asset, sampleAsset.json)]

/-- The owner asks for the assets it owns and possesses and gets just that one, both ways. It is
wired to this asset only, in both roles. -/
theorem asset_queries_agree_sample :
    ((Rest.getOwnedAssets sampleAssetCrates sampleAssetRun.storage ownerIdentity
          = .json (.array ((storedAssets sampleAssetCrates sampleAssetRun.storage).filter
              (AssetRole.owning.holds ownerKey))) ∧
        Rpc.getOwnedAssets sampleAssetCrates sampleAssetRun.storage
            (some (.array [.string ownerIdentity]))
          = .ok (.array ((storedAssets sampleAssetCrates sampleAssetRun.storage).filter
              (AssetRole.owning.holds ownerKey)))) ↔
      NamesMatchRole sampleAssetCrates (ofStream .asset [(.asset, sampleAsset.json)]) .owning
        ownerKey) ∧
    (storedAssets sampleAssetCrates sampleAssetRun.storage).length = 1 := by
  have hid : decodeBase26 sampleAssetCrates ownerIdentity = some ownerKey := by decide +kernel
  have hparams : Rpc.extractStringParam (some (.array [.string ownerIdentity])) 0
      = .ok ownerIdentity := by
    simp [Rpc.extractStringParam, Rpc.extractParam, Rpc.paramArray, Value.asArray,
      Value.asStr, ok_bind]
  obtain ⟨hsize, hone⟩ : ((run sampleAssetCrates (new .empty {})
      [(.asset, sampleAsset.json)]).storage.db .asset).size ≤ 10000 ∧
      (storedAssets sampleAssetCrates sampleAssetRun.storage).length = 1 := by
    decide +kernel
  have hagree := asset_queries_agree_iff sampleAssetCrates {} [(.asset, sampleAsset.json)]
    hid hparams hsize
  exact ⟨hagree.1, hone⟩

/-- The issuer asks for the assets it owns and gets the one it issued; it owns none. A wire of an
issuer looks like any other. -/
theorem owned_assets_of_issuer :
    decodeBase26 sampleAssetCrates issuerIdentity = some issuerKey ∧
    (assetsOf sampleAssetCrates sampleAssetRun.storage .owning issuerKey).length = 1 ∧
    (storedAssets sampleAssetCrates sampleAssetRun.storage).filter
      (AssetRole.owning.holds issuerKey) = [] ∧
    Rest.getOwnedAssets sampleAssetCrates sampleAssetRun.storage issuerIdentity
      ≠ .json (.array ((storedAssets sampleAssetCrates sampleAssetRun.storage).filter
          (AssetRole.owning.holds issuerKey))) := by
  have hid : decodeBase26 sampleAssetCrates issuerIdentity = some issuerKey := by decide +kernel
  have hanswer :
      (assetsOf sampleAssetCrates sampleAssetRun.storage .owning issuerKey).length = 1 := by
    decide +kernel
  have hheld : (storedAssets sampleAssetCrates sampleAssetRun.storage).filter
      (AssetRole.owning.holds issuerKey) = [] := by
    rw [← List.length_eq_zero_iff]
    decide +kernel
  refine ⟨hid, hanswer, hheld, fun h => ?_⟩
  simp only [Rest.getOwnedAssets, Rest.assetsOfRole, hid, Response.json.injEq,
    Value.array.injEq] at h
  rw [h, hheld] at hanswer
  cases hanswer

end Indexer

end Qonduit

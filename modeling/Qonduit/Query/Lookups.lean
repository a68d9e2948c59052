import Qonduit.Query.Assets
import Qonduit.Query.HistoryTotal
import Qonduit.Query.NumericParams
import Qonduit.Storage.LimitedScans

/-!
# Qonduit — the remaining lookups of the query server

The handlers of `rest.rs` and the arms of `dispatch_method` that look one record up, or list the
records of a family, beside those that are modelled where they are compared. RocksDB is taken not to
fail. A REST handler passes stored bytes on; an arm of the RPC parses them first.

* **`Rest.byIdentity`**, **`Rpc.byIdentity`** — the shape of the lookups by identity.
* **`spectrumBalance`** — what the three arms about a balance read from a spectrum entry.
* **`front_ends_agree`** — where the REST and the RPC lookups of one record say the same.
-/

namespace Qonduit

/-- `env!("CARGO_PKG_VERSION")`. -/
def PKG_VERSION : Str := ascii "0.1.0"

/-- The documents of a listing, where they parse. -/
def parsedRows {K : Type} (c : Crates) (rows : List (K × Bytes)) : List Value :=
  rows.filterMap fun row => (c.serde.valueFromSlice row.2).toOption

/-- `obj.insert(name, value)` on an object, whose keys are sorted; any other value is kept. -/
def Value.insert (name : String) (value : Value) : Value → Value
  | .object fields =>
    .object (fields.takeWhile (fun f => f.1 < name) ++ (name, value) ::
      (fields.dropWhile (fun f => f.1 < name)).filter (fun f => f.1 ≠ name))
  | v => v

namespace Rest

def byIdentity (c : Crates) (lookup : Key32 → Option Bytes) (id : Str) : Response :=
  match decodeBase26 c id with
  | some key => jsonOr404 (lookup key)
  | none => .badRequest "Invalid identity: must be a valid base26-encoded string"

/-- `GET /v1/entity/:id`. -/
def getEntity (c : Crates) (s : WarmStorage) (id : Str) : Response := byIdentity c s.getEntity id

/-- `GET /v1/spectrum/:id`. -/
def getSpectrumEntry (c : Crates) (s : WarmStorage) (id : Str) : Response :=
  byIdentity c s.getSpectrumEntry id

/-- `GET /v1/computors`. -/
def getComputors (s : WarmStorage) : Response :=
  match s.getLatestComputors with
  | some (_, data) => jsonOr404 (some data)
  | none => .notFound

/-- `GET /v1/issued-assets`. -/
def getIssuedAssets (c : Crates) (s : WarmStorage) : Response :=
  .json (.array (parsedRows c (s.getAllAssets 1000)))

/-- `GET /v1/active-ipos`. -/
def getActiveIpos (c : Crates) (s : WarmStorage) : Response :=
  .json (.array (parsedRows c (s.getAllContractIpos 1000)))

/-- `GET /v1/epochs`. -/
def listEpochs (c : Crates) (s : WarmStorage) : Response :=
  .json (.array (parsedRows c s.listEpochStats))

end Rest

namespace Rpc

/-! ## The current tick

A handler of one front end beside the arm of the other. Both read the same getters, and what they do
with the result is compared below. -/

def currentTickNumber (s : WarmStorage) : Value := .nat (s.getCurrentTick.getD 0).toUInt64

def currentEpochNumber (s : WarmStorage) : Value := .nat (s.getCurrentEpoch.getD 0).toUInt64

/-- The document of `getTickInfo`. -/
def getCurrentTickInfo (s : WarmStorage) : Value := getTickInfo s

def getQubicInfo (s : WarmStorage) : Value :=
  .object [("epoch", currentEpochNumber s), ("tick", currentTickNumber s),
    ("version", .string PKG_VERSION)]

def getSystemInfo (s : WarmStorage) : Value :=
  .object [("currentEpoch", currentEpochNumber s), ("currentTick", currentTickNumber s)]

def getSpectrumStats (s : WarmStorage) : Value :=
  .object [("epoch", currentEpochNumber s), ("numberOfEntities", .nat 0),
    ("tick", currentTickNumber s)]

def getSyncState (s : WarmStorage) : Value :=
  .object [("currentTick", currentTickNumber s), ("syncing", .bool false)]

def getEpochInfo (s : WarmStorage) : Value :=
  .object [("currentTick", currentTickNumber s), ("epoch", currentEpochNumber s)]

/-! ## One record

The handlers take their arguments from the path, the arms from an array. Behind that the two read
the same record. -/

/-- The identity at index 0 and its key. -/
def extractIdentity (c : Crates) (params : Option Value) : Outcome (Str × Key32) := do
  let id ← extractStringParam params 0
  match decodeBase26 c id with
  | some key => .ok (id, key)
  | none => bail "Invalid identity"

def byIdentity (c : Crates) (lookup : Key32 → Option Bytes) (params : Option Value) :
    Outcome Value := do
  let (_, key) ← extractIdentity c params
  parseStored c (lookup key)

def getEntity (c : Crates) (s : WarmStorage) (params : Option Value) : Outcome Value :=
  byIdentity c s.getEntity params

/-- `getSpectrum` and `qonduit_getEntityBalances`. -/
def getSpectrum (c : Crates) (s : WarmStorage) (params : Option Value) : Outcome Value :=
  byIdentity c s.getSpectrumEntry params

def getComputors (c : Crates) (s : WarmStorage) : Outcome Value :=
  parseStored c (s.getLatestComputors.map Prod.snd)

/-- The answers built from a spectrum entry: `found` gets the parsed entry. -/
def spectrumBalance (c : Crates) (s : WarmStorage) (found : Str → Value → Value)
    (missing : Str → Value) (params : Option Value) : Outcome Value := do
  let (id, key) ← extractIdentity c params
  match s.getSpectrumEntry key with
  | some data =>
    match c.serde.valueFromSlice data with
    | .ok entry => .ok (found id entry)
    | .error e => .error (.err [e])
  | none => .ok (missing id)

/-- An entry without a balance shows `null`. -/
def getBalance (c : Crates) (s : WarmStorage) (params : Option Value) : Outcome Value :=
  spectrumBalance c s
    (fun _ entry => .object [("balance", (entry.get "balance").getD .null)])
    (fun _ => .object [("balance", .nat 0)]) params

/-- Here an entry without a balance counts as 0. -/
def getEntityTokens (c : Crates) (s : WarmStorage) (params : Option Value) : Outcome Value :=
  spectrumBalance c s
    (fun id entry => .object [("balance", (entry.get "balance").getD (.nat 0)),
      ("identity", .string id), ("note", .string (ascii
        "Returns Qubic balance from spectrum. Token and contract balances not yet indexed."))])
    (fun id => .object [("balance", .nat 0), ("identity", .string id),
      ("note", .string (ascii "Entity not found in spectrum"))]) params

def getSpectrumChanges (c : Crates) (s : WarmStorage) (params : Option Value) : Outcome Value :=
  spectrumBalance c s
    (fun id entry => .object [("changes", .array []),
      ("current_balance", (entry.get "balance").getD (.nat 0)), ("identity", .string id),
      ("note", .string (ascii
        "Returns current spectrum balance. Historical change tracking is not yet indexed."))])
    (fun id => .object [("changes", .array []), ("current_balance", .nat 0),
      ("identity", .string id), ("note", .string (ascii "Entity not found in spectrum"))]) params

/-- The latest data point and the tick it was stored under. -/
def getOracleData (c : Crates) (s : WarmStorage) : Outcome Value :=
  match s.getLatestOracle with
  | some (tick, data) =>
    match c.serde.valueFromSlice data with
    | .ok v => .ok (v.insert "indexed_tick" (.nat tick.toUInt64))
    | .error e => .error (.err [e])
  | none => .ok (.object [("data", .null), ("note", .string (ascii
      ("Oracle data has not been indexed yet. The QONDUIT_ORACLE stream exists but no data has " ++
        "been received.")))])

/-! ## Listings

Whole families, as far as their limit goes. Documents that do not parse are left out. -/

def getIssuedAssets (c : Crates) (s : WarmStorage) : Value :=
  .array (parsedRows c (s.getAllAssets 1000))

/-- `getActiveIPOs`. -/
def getActiveIpos (c : Crates) (s : WarmStorage) : Value :=
  .array (parsedRows c (s.getAllContractIpos 1000))

def listEpochStats (c : Crates) (s : WarmStorage) : Value :=
  .array (parsedRows c s.listEpochStats)

/-- `getAssetsByOwner`, word for word `getOwnedAssets`. -/
def getAssetsByOwner (c : Crates) (s : WarmStorage) (params : Option Value) : Outcome Value :=
  getOwnedAssets c s params

def getAssetHolders (c : Crates) (s : WarmStorage) (params : Option Value) : Outcome Value := do
  let assetIndex ← extractU32Param params 0
  let holders ← s.getHoldersForAsset assetIndex
  .ok (.object [("asset_index", .nat assetIndex.toUInt64),
    ("holders", .array (holders.map fun key =>
      .object [("identity", .string (encodeBase26 c key))]))])

def getCustomMessages (c : Crates) (s : WarmStorage) (params : Option Value) :
    Outcome Value := do
  let tick ← extractU32Param params 0
  .ok (.array ((s.getCustomMessagesForTick tick).filterMap
    fun data => (c.serde.valueFromSlice data).toOption))

/-- `qonduit_getLogEvents`: a number, of custom messages. -/
def getLogEvents (s : WarmStorage) (params : Option Value) : Outcome Value := do
  let tick ← extractU32Param params 0
  .ok (.nat (.ofNat (s.getCustomMessagesForTick tick).length))

def getDeFiPositions (params : Option Value) : Outcome Value := do
  let _ ← extractStringParam params 0
  .ok (.object [("note", .string (ascii ("DeFi position indexing is not yet implemented. This " ++
      "endpoint will be populated once DeFi contract state indexing is added."))),
    ("positions", .array [])])

end Rpc

/-! ## The two front ends

Each pair is given the argument it takes, in the form in which it takes it. For a lookup of stored
bytes agreement needs that they parse, since REST passes them on as they are. -/

/-- `[s]`. -/
def stringParams (s : Str) : Option Value := some (.array [.string s])

/-- `[id, limit, offset]`, and the epoch if there is one. -/
def historyQueryParams (id : Str) (params : EntityHistoryParams) : Option Value :=
  some (.array ([.string id, .nat (.ofNat params.limit), .nat (.ofNat params.offset)]
    ++ (params.epoch.map (fun epoch => .nat epoch.toUInt64)).toList))

/-- The response of a handler to a text that is no identity, with status 400. -/
def Rest.invalidIdentity : Response :=
  .badRequest "Invalid identity: must be a valid base26-encoded string"

/-- The answer of an arm to a text that is no identity. Its code is not that of an invalid
parameter. -/
def Rpc.RejectsIdentity (answer : Outcome Value) : Prop :=
  ∃ message, answer = bail message ∧ Rpc.errorCode message = -32000

/-- Where a REST handler and an arm of the RPC that read the same records say the same. -/
structure FrontEndsAgree (c : Crates) (s : WarmStorage) : Prop where
  entity : ∀ id key, decodeBase26 c id = some key →
    (SameOutcome c (Rest.getEntity c s id) (Rpc.getEntity c s (stringParams id)) ↔
      Readable c (s.getEntity key))
  spectrum : ∀ id key, decodeBase26 c id = some key →
    (SameOutcome c (Rest.getSpectrumEntry c s id) (Rpc.getSpectrum c s (stringParams id)) ↔
      Readable c (s.getSpectrumEntry key))
  transaction : ∀ text hash, hexKey c text = some hash →
    (SameOutcome c (Rest.getTransaction c s text) (Rpc.getTransaction c s (stringParams text)) ↔
      Readable c (s.getTx hash))
  computors : SameOutcome c (Rest.getComputors s) (Rpc.getComputors c s) ↔
    Readable c (s.getLatestComputors.map Prod.snd)
  /-- Documents that do not parse are left out of the listings by both. -/
  owned : ∀ id key, decodeBase26 c id = some key →
    SameOutcome c (Rest.getOwnedAssets c s id) (Rpc.getAssetsByOwner c s (stringParams id))
  activity : ∀ id key, decodeBase26 c id = some key →
    ∃ r, Rest.getEntityTransactions c s id = .ok r ∧
      SameOutcome c r (Rpc.getEntityActivity c s (stringParams id))
  /-- The RPC reads `u32`s. -/
  history : ∀ ranges id key params, decodeBase26 c id = some key → params.limit < 2 ^ 32 →
    params.offset < 2 ^ 32 → ∃ r, Rest.getEntityHistory c s ranges id params = .ok r ∧
      SameOutcome c r (Rpc.getEntityHistory c s ranges (historyQueryParams id params))
  /-- The listings of whole families leave out documents that do not parse, as well. -/
  issuedAssets : SameOutcome c (Rest.getIssuedAssets c s) (.ok (Rpc.getIssuedAssets c s))
  activeIpos : SameOutcome c (Rest.getActiveIpos c s) (.ok (Rpc.getActiveIpos c s))
  epochs : SameOutcome c (Rest.listEpochs c s) (.ok (Rpc.listEpochStats c s))
  /-- A text that is no identity is rejected by both, by the RPC not as an invalid parameter. -/
  rejected : ∀ id, decodeBase26 c id = none → ∀ lookup,
    Rest.byIdentity c lookup id = Rest.invalidIdentity ∧
      Rpc.RejectsIdentity (Rpc.byIdentity c lookup (stringParams id))
  owned_rejected : ∀ id, decodeBase26 c id = none →
    Rest.getOwnedAssets c s id = Rest.invalidIdentity ∧
      Rpc.RejectsIdentity (Rpc.getAssetsByOwner c s (stringParams id))
  activity_rejected : ∀ id, decodeBase26 c id = none →
    Rest.getEntityTransactions c s id = .ok Rest.invalidIdentity ∧
      Rpc.RejectsIdentity (Rpc.getEntityActivity c s (stringParams id))
  /-- Whatever the limit, the offset and the epoch are. -/
  history_rejected : ∀ ranges id params, decodeBase26 c id = none →
    Rest.getEntityHistory c s ranges id params = .ok Rest.invalidIdentity ∧
      Rpc.RejectsIdentity (Rpc.getEntityHistory c s ranges (historyQueryParams id params))

theorem Rpc.extractStringParam_stringParams (s : Str) :
    Rpc.extractStringParam (stringParams s) 0 = .ok s := rfl

theorem Rpc.extractIdentity_stringParams {c : Crates} {id : Str} {key : Key32}
    (h : decodeBase26 c id = some key) :
    Rpc.extractIdentity c (stringParams id) = .ok (id, key) := by
  rw [extractIdentity, extractStringParam_stringParams, ok_bind, h]

theorem sameOutcome_byIdentity_iff {c : Crates} {id : Str} {key : Key32}
    (h : decodeBase26 c id = some key) (lookup : Key32 → Option Bytes) :
    SameOutcome c (Rest.byIdentity c lookup id) (Rpc.byIdentity c lookup (stringParams id)) ↔
      Readable c (lookup key) := by
  rw [Rest.byIdentity, h, Rpc.byIdentity, Rpc.extractIdentity_stringParams h, ok_bind]
  exact sameOutcome_stored_iff

/-- A lookup by hash. The RPC decodes the hash in two steps where REST does it in one, and the two
agree on a text that is a hash. -/
theorem sameOutcome_transaction_iff {c : Crates} (s : WarmStorage) {text : Str} {hash : Key32}
    (h : hexKey c text = some hash) :
    SameOutcome c (Rest.getTransaction c s text) (Rpc.getTransaction c s (stringParams text)) ↔
      Readable c (s.getTx hash) := by
  obtain ⟨bytes, hdecode, hlen, hkey⟩ :
      ∃ bytes, c.hex.decode text = some bytes ∧ bytes.length = 32 ∧ keyOf bytes = hash := by
    unfold hexKey at h
    cases hdecode : c.hex.decode text with
    | none =>
      rw [hdecode] at h
      cases h
    | some bytes =>
      rw [hdecode] at h
      by_cases hlen : bytes.length = 32
      · have hkey : keyOf bytes = ⟨bytes, hlen⟩ := dif_pos hlen
        simp only [hlen, dite_true] at h
        exact ⟨bytes, rfl, hlen, hkey.trans (Option.some.inj h)⟩
      · simp [hlen] at h
  have hcopy : copyFromSlice bytes = .ok hash := by rw [copyFromSlice_eq_keyOf hlen, hkey]
  rw [Rest.getTransaction, h, Rpc.getTransaction, Rpc.extractStringParam_stringParams, ok_bind,
    hdecode]
  show SameOutcome c (jsonOr404 (s.getTx hash))
    (if bytes.length ≠ 32 then bail "Invalid hash length"
      else copyFromSlice bytes >>= fun hash => Rpc.parseStored c (s.getTx hash)) ↔ _
  rw [if_neg (not_not.mpr hlen), hcopy, ok_bind]
  exact sameOutcome_stored_iff

/-- The assets of an owner are put together by the same code. -/
theorem sameOutcome_owned {c : Crates} (s : WarmStorage) {id : Str} {key : Key32}
    (h : decodeBase26 c id = some key) :
    SameOutcome c (Rest.getOwnedAssets c s id) (Rpc.getAssetsByOwner c s (stringParams id)) := by
  rw [Rest.getOwnedAssets, Rest.assetsOfRole, h, Rpc.getAssetsByOwner, Rpc.getOwnedAssets,
    Rpc.assetsOfRole, Rpc.extractStringParam_stringParams, ok_bind, h]
  exact .document _

/-- The transactions of an entity, with the limit that both have. -/
theorem sameOutcome_activity {c : Crates} (s : WarmStorage) {id : Str} {key : Key32}
    (h : decodeBase26 c id = some key) :
    ∃ r, Rest.getEntityTransactions c s id = .ok r ∧
      SameOutcome c r (Rpc.getEntityActivity c s (stringParams id)) := by
  obtain ⟨hashes, hok, -, -⟩ := s.getTxHashesForEntity_ok key
  have hlimit : (Rpc.extractU32Param (stringParams id) 1).toOption.getD 100 = 100 := rfl
  refine ⟨.json (.array (listTransactions c s (hashes.take 100))), ?_, ?_⟩
  · rw [Rest.getEntityTransactions, h]
    simp only [hok, orStorageErr]
  · rw [Rpc.getEntityActivity, Rpc.extractStringParam_stringParams, ok_bind, hlimit, h]
    show SameOutcome c _ (s.getTxHashesForEntity key (100 : UInt32).toNat >>= fun hashes =>
      .ok (.array (listTransactions c s hashes)))
    rw [hok]
    exact .document _

/-- The limit and the offset reach the RPC in 32 bits. -/
theorem extractU32Param_historyQueryParams (id : Str) (params : EntityHistoryParams) :
    Rpc.extractU32Param (historyQueryParams id params) 1
        = .ok (UInt64.ofNat params.limit).toUInt32 ∧
      Rpc.extractU32Param (historyQueryParams id params) 2
        = .ok (UInt64.ofNat params.offset).toUInt32 := ⟨rfl, rfl⟩

/-- The epoch reaches the RPC as it is, if there is one. -/
theorem extractEpoch_historyQueryParams (id : Str) (params : EntityHistoryParams) :
    Rpc.extractOptionalU16Param (historyQueryParams id params) 3 = .ok params.epoch := by
  cases hepoch : params.epoch with
  | none =>
    rw [historyQueryParams, hepoch]
    rfl
  | some epoch =>
    have hread : epoch.toUInt64.toUInt16 = epoch := by
      rw [← UInt16.toNat_inj]
      simp
    rw [historyQueryParams, hepoch]
    show (.ok (some epoch.toUInt64.toUInt16) : Outcome (Option UInt16)) = _
    rw [hread]

theorem toNat_toUInt32_ofNat {n : Nat} (h : n < 2 ^ 32) :
    (UInt64.ofNat n).toUInt32.toNat = n := by
  rw [UInt64.toNat_toUInt32, UInt64.toNat_ofNat_of_lt' (by show n < 2 ^ 64; omega)]
  exact Nat.mod_eq_of_lt h

/-- The history of an entity never fails: a value of another length is passed over before it is
copied. -/
theorem exists_historyFrom_ok (s : WarmStorage) (entity : Key32) (tickUpper : Option UInt32)
    (offset limit : Nat) (entries : List (Bytes × Bytes)) (skipped : Nat)
    (results : List (UInt32 × Bytes)) :
    ∃ rows, s.historyFrom entity tickUpper offset limit entries skipped results = .ok rows := by
  induction entries generalizing skipped results with
  | nil => exact ⟨results, rfl⟩
  | cons entry rest ih =>
    obtain ⟨key, value⟩ := entry
    unfold WarmStorage.historyFrom
    split
    · exact ⟨results, rfl⟩
    · dsimp only
      split
      · exact ⟨results, rfl⟩
      · split
        · exact ih skipped results
        · next hlen =>
          rw [copyFromSlice_eq_keyOf (not_not.mp hlen), ok_bind]
          split
          · exact ih (skipped + 1) results
          · split
            · exact ⟨results, rfl⟩
            · split
              · exact ih skipped _
              · exact ih skipped results

/-- So a page of it is always returned. -/
theorem exists_entityHistoryPage_ok (c : Crates) (s : WarmStorage) (ranges : List EpochRange)
    (key : Key32) (epoch : Option UInt16) (offset limit : Nat) :
    ∃ page, entityHistoryPage c s ranges key epoch offset limit = .ok page := by
  have hrows : ∃ rows, s.getEntityHistory ranges key epoch offset (min limit 500) = .ok rows := by
    unfold WarmStorage.getEntityHistory
    split
    · split
      · exact exists_historyFrom_ok ..
      · exact ⟨[], rfl⟩
    · exact exists_historyFrom_ok ..
  obtain ⟨rows, hrows⟩ := hrows
  rw [entityHistoryPage, hrows, ok_bind]
  exact ⟨_, rfl⟩

/-- The history of an entity, for a limit and an offset in range. -/
theorem sameOutcome_history {c : Crates} (s : WarmStorage) (ranges : List EpochRange) {id : Str}
    {key : Key32} {params : EntityHistoryParams} (h : decodeBase26 c id = some key)
    (hlimit : params.limit < 2 ^ 32) (hoffset : params.offset < 2 ^ 32) :
    ∃ r, Rest.getEntityHistory c s ranges id params = .ok r ∧
      SameOutcome c r (Rpc.getEntityHistory c s ranges (historyQueryParams id params)) := by
  obtain ⟨page, hpage⟩ :=
    exists_entityHistoryPage_ok c s ranges key params.epoch params.offset params.limit
  obtain ⟨hlimitParam, hoffsetParam⟩ := extractU32Param_historyQueryParams id params
  have hid : Rpc.extractStringParam (historyQueryParams id params) 0 = .ok id := rfl
  refine ⟨.json page.document, ?_, ?_⟩
  · rw [Rest.getEntityHistory, h]
    simp only [hpage, orStorageErr]
  · rw [Rpc.getEntityHistory, hid, ok_bind, hlimitParam, hoffsetParam,
      extractEpoch_historyQueryParams, ok_bind, h]
    show SameOutcome c _ (entityHistoryPage c s ranges key params.epoch
      (UInt64.ofNat params.offset).toUInt32.toNat (UInt64.ofNat params.limit).toUInt32.toNat >>=
        fun page => .ok page.document)
    rw [toNat_toUInt32_ofNat hlimit, toNat_toUInt32_ofNat hoffset, hpage]
    exact .document _

theorem sameOutcome_computors_iff (c : Crates) (s : WarmStorage) :
    SameOutcome c (Rest.getComputors s) (Rpc.getComputors c s) ↔
      Readable c (s.getLatestComputors.map Prod.snd) := by
  have hrest : Rest.getComputors s = jsonOr404 (s.getLatestComputors.map Prod.snd) := by
    rw [Rest.getComputors]
    cases s.getLatestComputors <;> rfl
  rw [hrest]
  exact sameOutcome_stored_iff

/-! ## Texts that are no identity

Every handler decodes the identity before it reads the store, and every arm of the RPC too, once its
other parameters are read. -/

/-- The RPC answers with an error, whose code is not that of invalid parameters. -/
theorem rejectsIdentity_bail : Rpc.RejectsIdentity (bail "Invalid identity") :=
  ⟨"Invalid identity", rfl, by decide⟩

theorem rejected_byIdentity {c : Crates} {id : Str} (h : decodeBase26 c id = none)
    (lookup : Key32 → Option Bytes) :
    Rest.byIdentity c lookup id = Rest.invalidIdentity ∧
      Rpc.RejectsIdentity (Rpc.byIdentity c lookup (stringParams id)) := by
  constructor
  · rw [Rest.byIdentity, h]
    rfl
  · rw [Rpc.byIdentity, Rpc.extractIdentity, Rpc.extractStringParam_stringParams, ok_bind, h]
    exact rejectsIdentity_bail

theorem rejected_owned {c : Crates} (s : WarmStorage) {id : Str} (h : decodeBase26 c id = none) :
    Rest.getOwnedAssets c s id = Rest.invalidIdentity ∧
      Rpc.RejectsIdentity (Rpc.getAssetsByOwner c s (stringParams id)) := by
  constructor
  · rw [Rest.getOwnedAssets, Rest.assetsOfRole, h]
    rfl
  · rw [Rpc.getAssetsByOwner, Rpc.getOwnedAssets, Rpc.assetsOfRole,
      Rpc.extractStringParam_stringParams, ok_bind, h]
    exact rejectsIdentity_bail

theorem rejected_activity {c : Crates} (s : WarmStorage) {id : Str}
    (h : decodeBase26 c id = none) :
    Rest.getEntityTransactions c s id = .ok Rest.invalidIdentity ∧
      Rpc.RejectsIdentity (Rpc.getEntityActivity c s (stringParams id)) := by
  constructor
  · rw [Rest.getEntityTransactions, h]
    rfl
  · rw [Rpc.getEntityActivity, Rpc.extractStringParam_stringParams, ok_bind, h]
    exact rejectsIdentity_bail

/-- Its history is rejected by both, whatever the other arguments are. -/
theorem rejected_history {c : Crates} (s : WarmStorage) (ranges : List EpochRange) {id : Str}
    (params : EntityHistoryParams) (h : decodeBase26 c id = none) :
    Rest.getEntityHistory c s ranges id params = .ok Rest.invalidIdentity ∧
      Rpc.RejectsIdentity (Rpc.getEntityHistory c s ranges (historyQueryParams id params)) := by
  have hid : Rpc.extractStringParam (historyQueryParams id params) 0 = .ok id := rfl
  constructor
  · rw [Rest.getEntityHistory, h]
    rfl
  · -- the epoch is read before the identity is decoded, and reads well
    rw [Rpc.getEntityHistory, hid, ok_bind, extractEpoch_historyQueryParams, ok_bind, h]
    exact rejectsIdentity_bail

/-- **The two front ends agree** on the lookups by identity and by hash, on the latest computors,
on the transactions of an entity and on the listings of whole families, over any store. -/
theorem front_ends_agree (c : Crates) (s : WarmStorage) : FrontEndsAgree c s where
  entity _ _ h := sameOutcome_byIdentity_iff h s.getEntity
  spectrum _ _ h := sameOutcome_byIdentity_iff h s.getSpectrumEntry
  transaction _ _ h := sameOutcome_transaction_iff s h
  computors := sameOutcome_computors_iff c s
  owned _ _ h := sameOutcome_owned s h
  activity _ _ h := sameOutcome_activity s h
  history ranges _ _ _ h hlimit hoffset := sameOutcome_history s ranges h hlimit hoffset
  issuedAssets := .document _
  activeIpos := .document _
  epochs := .document _
  rejected _ h lookup := rejected_byIdentity h lookup
  owned_rejected _ h := rejected_owned s h
  activity_rejected _ h := rejected_activity s h
  history_rejected ranges _ params h := rejected_history s ranges params h

end Qonduit

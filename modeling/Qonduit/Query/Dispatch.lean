import Qonduit.Query.Search

/-!
# Qonduit — the JSON-RPC endpoint

`handle_rpc` of `rpc.rs` over all arms of `dispatch_method`. A request is answered with a result or
with an error, whose code is read off its message. Which of the two, and which code, depends on the
method and on its first parameter alone as long as every stored document is JSON, which it is where
every payload was.

* **`dispatchMethod`** — the arms, under the names they are called by.
* **`verdict`** — what a request deserves, without looking at the store.
* **`rpc_answers_verdict`** — every response is the one its request deserves.
-/

namespace Qonduit

structure JsonRpcRequest where
  jsonrpc : Str
  method : String
  params : Option Value
  id : Option Value

structure JsonRpcError where
  code : Int
  message : String
  data : Option Value

structure JsonRpcResponse where
  jsonrpc : Str
  result : Option Value
  error : Option JsonRpcError
  id : Option Value

namespace Rpc

/-- The arms of `dispatch_method`, in the order of the source. -/
def arms (c : Crates) (s : WarmStorage) (ranges : List EpochRange) :
    List (String × (Option Value → Outcome Value)) :=
  [("getTickInfo", fun _ => .ok (getTickInfo s)),
    ("getCurrentTickInfo", fun _ => .ok (getCurrentTickInfo s)),
    ("getEntity", getEntity c s),
    ("getBalance", getBalance c s),
    ("getTransactionsForTick", getTickTransactions c s),
    ("getTickTransactions", getTickTransactions c s),
    ("getTransaction", getTransaction c s),
    ("getBlock", getBlock c s),
    ("getQubicInfo", fun _ => .ok (getQubicInfo s)),
    ("getSystemInfo", fun _ => .ok (getSystemInfo s)),
    ("getComputors", fun _ => getComputors c s),
    ("getContractIPO", getContractIpo c s),
    ("getIssuedAssets", fun _ => .ok (getIssuedAssets c s)),
    ("getOwnedAssets", getOwnedAssets c s),
    ("getPossessedAssets", getPossessedAssets c s),
    ("getAssetsByOwner", getAssetsByOwner c s),
    ("getSpectrumStats", fun _ => .ok (getSpectrumStats s)),
    ("getSpectrum", getSpectrum c s),
    ("getProposal", fun _ => .ok .null),
    ("getBallot", fun _ => .ok .null),
    ("getVotesForProposal", fun _ => .ok (.array [])),
    ("getVotesForVoter", fun _ => .ok (.array [])),
    ("getActiveIPOs", fun _ => .ok (getActiveIpos c s)),
    ("getIPOBids", getContractIpo c s),
    ("getContractFunction", fun _ => bail ("getContractFunction is not yet supported. " ++
      "This requires TCP forwarding to a Qubic node. " ++
      "TODO: Implement via NATS request/reply through the ingestion layer.")),
    ("getSyncState", fun _ => .ok (getSyncState s)),
    ("getContractFunctionResult", fun _ => bail
      ("getContractFunctionResult is not yet supported. " ++
      "This requires a pending-response cache for contract function calls. " ++
      "TODO: Implement via NATS subscription + dejavu-keyed cache.")),
    ("qonduit_getTick", getBlock c s),
    ("qonduit_getTickTransactions", getTickTransactions c s),
    ("qonduit_getEntityActivity", getEntityActivity c s),
    ("qonduit_getEntityHistory", getEntityHistory c s ranges),
    ("qonduit_search", search c s),
    ("qonduit_getAssetHolders", getAssetHolders c s),
    ("qonduit_getCustomMessages", getCustomMessages c s),
    ("qonduit_getOracleData", fun _ => getOracleData c s),
    ("qonduit_getEntityTokens", getEntityTokens c s),
    ("qonduit_getDeFiPositions", getDeFiPositions),
    ("qonduit_getEpochInfo", fun _ => .ok (getEpochInfo s)),
    ("getEpochStats", getEpochStats c s),
    ("listEpochStats", fun _ => .ok (listEpochStats c s)),
    ("qonduit_getLogEvents", getLogEvents s),
    ("qonduit_getSpectrumChanges", getSpectrumChanges c s),
    ("qonduit_getEntityBalances", getSpectrum c s)]

def dispatchMethod (c : Crates) (s : WarmStorage) (ranges : List EpochRange) (method : String)
    (params : Option Value) : Outcome Value :=
  match (arms c s ranges).lookup method with
  | some arm => arm params
  | none => bail ("Method not found: " ++ method)

/-- `handle_rpc`. A panic takes the connection with it. -/
def handleRpc (c : Crates) (s : WarmStorage) (ranges : List EpochRange)
    (request : JsonRpcRequest) : Outcome JsonRpcResponse :=
  match dispatchMethod c s ranges request.method request.params with
  | .ok value => .ok ⟨ascii "2.0", some value, none, request.id⟩
  | .error (.err chain) =>
    let message := chain.headD ""
    .ok ⟨ascii "2.0", none, some ⟨errorCode message, message, none⟩, request.id⟩
  | .error (.panic what) => .error (.panic what)

/-! ## What a request deserves

The verdict on a request is read off its method and its first parameter. It is the specification:
the arms are compared with it one by one, and nothing in it mentions the store. -/

inductive Verdict where
  | result
  | unknownMethod
  | invalidParams
  | refused
  deriving DecidableEq, Repr

/-- The error code of a verdict. -/
def Verdict.code : Verdict → Option Int
  | .result => none
  | .unknownMethod => some (-32601)
  | .invalidParams => some (-32602)
  | .refused => some (-32000)

/-- What a method does with its first parameter. -/
inductive ArgKind where
  /-- It does not look at it. -/
  | nothing
  | number
  | text
  /-- A text that must be an identity. -/
  | identity
  /-- A text that must be the hex of a hash. -/
  | hash
  /-- The method is there, and does nothing yet. -/
  | unsupported
  deriving DecidableEq, Repr

def firstParam (params : Option Value) : Option Value :=
  (params.bind Value.asArray).bind List.head?

def ArgKind.verdict (c : Crates) (kind : ArgKind) (params : Option Value) : Verdict :=
  match kind with
  | .nothing => .result
  | .number => ((firstParam params).bind Value.asU64).elim .invalidParams (fun _ => .result)
  | .text => ((firstParam params).bind Value.asStr).elim .invalidParams (fun _ => .result)
  | .identity => ((firstParam params).bind Value.asStr).elim .invalidParams
      (fun id => if (decodeBase26 c id).isSome then .result else .refused)
  | .hash => ((firstParam params).bind Value.asStr).elim .invalidParams
      (fun text => if (hexKey c text).isSome then .result else .refused)
  | .unsupported => .refused

/-- The methods and their first parameters. -/
def kinds : List (String × ArgKind) :=
  [("getTickInfo", .nothing), ("getCurrentTickInfo", .nothing), ("getEntity", .identity),
    ("getBalance", .identity), ("getTransactionsForTick", .number),
    ("getTickTransactions", .number), ("getTransaction", .hash), ("getBlock", .number),
    ("getQubicInfo", .nothing), ("getSystemInfo", .nothing), ("getComputors", .nothing),
    ("getContractIPO", .number), ("getIssuedAssets", .nothing), ("getOwnedAssets", .identity),
    ("getPossessedAssets", .identity), ("getAssetsByOwner", .identity),
    ("getSpectrumStats", .nothing), ("getSpectrum", .identity), ("getProposal", .nothing),
    ("getBallot", .nothing), ("getVotesForProposal", .nothing), ("getVotesForVoter", .nothing),
    ("getActiveIPOs", .nothing), ("getIPOBids", .number), ("getContractFunction", .unsupported),
    ("getSyncState", .nothing), ("getContractFunctionResult", .unsupported),
    ("qonduit_getTick", .number), ("qonduit_getTickTransactions", .number),
    ("qonduit_getEntityActivity", .identity), ("qonduit_getEntityHistory", .identity),
    ("qonduit_search", .text), ("qonduit_getAssetHolders", .number),
    ("qonduit_getCustomMessages", .number), ("qonduit_getOracleData", .nothing),
    ("qonduit_getEntityTokens", .identity), ("qonduit_getDeFiPositions", .text),
    ("qonduit_getEpochInfo", .nothing), ("getEpochStats", .number), ("listEpochStats", .nothing),
    ("qonduit_getLogEvents", .number), ("qonduit_getSpectrumChanges", .identity),
    ("qonduit_getEntityBalances", .identity)]

def verdict (c : Crates) (method : String) (params : Option Value) : Verdict :=
  (kinds.lookup method).elim .unknownMethod (fun kind => kind.verdict c params)

/-- An outcome is the one a verdict asks for. -/
def Verdict.Matches (v : Verdict) : Outcome Value → Prop
  | .ok _ => v.code = none
  | .error (.err chain) => v.code = some (errorCode (chain.headD ""))
  | .error (.panic _) => False

end Rpc

/-- A text `serde_json` reads. -/
def IsJson (c : Crates) (data : Bytes) : Prop := ∃ v, c.serde.valueFromSlice data = .ok v

/-- The families whose documents the RPC parses before it answers. -/
def parsedFamilies : List Cf :=
  [.tick, .tx, .entity, .spectrum, .computors, .contractIpo, .oracle, .epochStats]

/-- Every document in them is JSON. -/
def DocumentsReadable (c : Crates) (s : WarmStorage) : Prop :=
  ∀ cf ∈ parsedFamilies, ∀ k v, s.view (cf, k) = some v → IsJson c v

namespace Rpc

variable {c : Crates} {s : WarmStorage}

/-! ## Parameters

A helper that extracts a parameter fails with a message that `handle_rpc` recognises by its
beginning. All other messages get one and the same code. -/

/-- Every stem that `handle_rpc` looks for begins with `M` or `P`, so a message that begins with
another character gets the code of the other failures. -/
theorem errorCode_of_head {message : String} (ch : Char) (h : message.toList.head? = some ch)
    (hM : ch ≠ 'M') (hP : ch ≠ 'P') : errorCode message = -32000 := by
  have hno : ∀ (stem : String) (first : Char), stem.toList.head? = some first → ch ≠ first →
      stem.toList.isPrefixOf message.toList = false := by
    intro stem first hfirst hne
    cases htext : message.toList with
    | nil =>
      rw [htext] at h
      cases h
    | cons ch' chars =>
      rw [htext] at h
      cases h
      cases hstem : stem.toList with
      | nil =>
        rw [hstem] at hfirst
        cases hfirst
      | cons first' rest =>
        rw [hstem] at hfirst
        cases hfirst
        rw [List.isPrefixOf, beq_false_of_ne hne.symm, Bool.false_and]
  unfold errorCode
  simp only [hno "Method not found" 'M' (by decide) hM, hno "Missing params" 'M' (by decide) hM,
    hno "Params must be array" 'P' (by decide) hP, hno "Missing param at index" 'M' (by decide) hM]
  rfl

/-- A message with the code for invalid parameters. -/
theorem matches_invalid {message : String} (h : errorCode message = -32602) :
    Verdict.invalidParams.Matches (bail message) :=
  congrArg some h.symm

/-- A message with the code of the other failures. -/
theorem matches_refused {message : String} (h : errorCode message = -32000) :
    Verdict.refused.Matches (bail message) :=
  congrArg some h.symm

/-- An arm that reads its first parameter rejects the request without it, else goes on. -/
theorem matches_extractParam {α : Type} {f : Value → Option α} {k : α → Outcome Value}
    {v : α → Verdict} (params : Option Value) (h : ∀ a, (v a).Matches (k a)) :
    (((firstParam params).bind f).elim .invalidParams v).Matches
      (extractParam f params 0 >>= k) := by
  cases params with
  | none => exact matches_invalid (by decide)
  | some value =>
    cases harray : value.asArray with
    | none =>
      rw [extractParam, firstParam, paramArray, Option.bind_some, harray]
      exact matches_invalid (by decide)
    | some xs =>
      have hfirst : firstParam (some value) = xs[0]? := by
        rw [firstParam, Option.bind_some, harray, Option.bind_some, List.head?_eq_getElem?]
      rw [extractParam, hfirst, paramArray, harray, ok_bind]
      cases hread : (xs[0]?).bind f with
      | none => exact matches_invalid (by decide)
      | some a => exact h a

theorem matches_text {k : Str → Outcome Value} {v : Str → Verdict} (h : ∀ t, (v t).Matches (k t))
    (params : Option Value) : (((firstParam params).bind Value.asStr).elim .invalidParams v).Matches
      (extractStringParam params 0 >>= k) :=
  matches_extractParam params h

/-- A verdict that does not depend on the value. -/
theorem elim_map {α β : Type} (x : Option α) (f : α → β) (d v : Verdict) :
    (x.map f).elim d (fun _ => v) = x.elim d (fun _ => v) := by
  cases x <;> rfl

/-- A number of 64 bits is cut to 32. -/
theorem matches_u32 {k : UInt32 → Outcome Value} (h : ∀ n, Verdict.result.Matches (k n))
    (params : Option Value) : (ArgKind.number.verdict c params).Matches
      (extractU32Param params 0 >>= k) := by
  have hmatch := matches_extractParam (f := fun v => v.asU64.map UInt64.toUInt32) params h
  rw [ArgKind.verdict]
  cases hfirst : firstParam params with
  | none =>
    rw [hfirst] at hmatch
    exact hmatch
  | some value =>
    rw [hfirst, Option.bind_some, elim_map] at hmatch
    exact hmatch

/-- Or to 16. -/
theorem matches_u16 {k : UInt16 → Outcome Value} (h : ∀ n, Verdict.result.Matches (k n))
    (params : Option Value) : (ArgKind.number.verdict c params).Matches
      (extractU16Param params 0 >>= k) := by
  have hmatch := matches_extractParam (f := fun v => v.asU64.map UInt64.toUInt16) params h
  rw [ArgKind.verdict]
  cases hfirst : firstParam params with
  | none =>
    rw [hfirst] at hmatch
    exact hmatch
  | some value =>
    rw [hfirst, Option.bind_some, elim_map] at hmatch
    exact hmatch

/-- An arm that decodes an identity. -/
theorem matches_identity {k : Str → Outcome Value}
    (hnone : ∀ id, decodeBase26 c id = none → k id = bail "Invalid identity")
    (hsome : ∀ id key, decodeBase26 c id = some key → Verdict.result.Matches (k id))
    (params : Option Value) :
    (ArgKind.identity.verdict c params).Matches (extractStringParam params 0 >>= k) := by
  refine matches_text (fun id => ?_) params
  cases hdecode : decodeBase26 c id with
  | none =>
    rw [hnone id hdecode]
    exact matches_refused (by decide)
  | some key => exact hsome id key hdecode

/-- An identity that does not decode is refused, though not as an invalid parameter. -/
theorem matches_extractIdentity {k : Str × Key32 → Outcome Value}
    (h : ∀ id key, Verdict.result.Matches (k (id, key))) (params : Option Value) :
    (ArgKind.identity.verdict c params).Matches (extractIdentity c params >>= k) := by
  rw [extractIdentity, bind_assoc]
  refine matches_identity (fun id hdecode => ?_) (fun id key hdecode => ?_) params
  · rw [hdecode]
    exact rfl
  · rw [hdecode]
    exact h id key

/-- What is stored is parsed, and what is not gives null. -/
theorem matches_parseStored {stored : Option Bytes}
    (h : ∀ data, stored = some data → IsJson c data) :
    Verdict.result.Matches (parseStored c stored) := by
  cases stored with
  | none => exact rfl
  | some data =>
    obtain ⟨v, hv⟩ := h data rfl
    rw [parseStored, hv]
    exact rfl

/-! ## What the arms answer

Each arm is followed from its parameters to the value it returns. Behind the parameters none of them
fails, as the stored documents are JSON. -/

theorem matches_byIdentity {lookup : Key32 → Option Bytes}
    (h : ∀ key data, lookup key = some data → IsJson c data) (params : Option Value) :
    (ArgKind.identity.verdict c params).Matches (byIdentity c lookup params) :=
  matches_extractIdentity (fun _ key => matches_parseStored (h key)) params

/-- The balance of an entity, from the spectrum. -/
theorem matches_spectrumBalance {found : Str → Value → Value} {missing : Str → Value}
    (h : ∀ key data, s.getSpectrumEntry key = some data → IsJson c data)
    (params : Option Value) :
    (ArgKind.identity.verdict c params).Matches (spectrumBalance c s found missing params) := by
  refine matches_extractIdentity (fun id key => ?_) params
  dsimp only
  cases hentry : s.getSpectrumEntry key with
  | none => exact rfl
  | some data =>
    obtain ⟨v, hv⟩ := h key data hentry
    simp only [hv]
    exact rfl

theorem matches_assetsOfRole (role : AssetRole) (params : Option Value) :
    (ArgKind.identity.verdict c params).Matches (assetsOfRole c s role params) := by
  refine matches_identity (fun id hdecode => ?_) (fun id key hdecode => ?_) params
  · rw [hdecode]
  · rw [hdecode]
    exact rfl

theorem matches_getTickTransactions (params : Option Value) :
    (ArgKind.number.verdict c params).Matches (getTickTransactions c s params) := by
  refine matches_u32 (fun tick => ?_) params
  obtain ⟨hashes, hok, -⟩ := s.getTxHashesForTick_ok tick
  rw [hok, ok_bind]
  exact rfl

/-- A transaction by its hash, which has to be hex and of 32 bytes. A text that is no hex gets the
message of the hex decoder, and one of another length its own; both are refused. -/
theorem matches_getTransaction (hhex : ∀ text, c.hex.decode text = none →
      errorCode (c.hex.error text) = -32000)
    (h : ∀ hash data, s.getTx hash = some data → IsJson c data) (params : Option Value) :
    (ArgKind.hash.verdict c params).Matches (getTransaction c s params) := by
  refine matches_text (fun text => ?_) params
  cases hdecode : c.hex.decode text with
  | none =>
    have hkey : hexKey c text = none := by rw [hexKey, hdecode]
    rw [hkey]
    exact congrArg some (hhex text hdecode).symm
  | some bytes =>
    by_cases hlen : bytes.length = 32
    · have hkey : (hexKey c text).isSome := by
        simp only [hexKey, hdecode, hlen, dite_true]
        rfl
      rw [if_pos hkey]
      simp only [ne_eq, hlen, not_true_eq_false, if_false, copyFromSlice_eq_keyOf hlen, ok_bind]
      exact matches_parseStored (h _)
    · have hkey : hexKey c text = none := by simp [hexKey, hdecode, hlen]
      rw [hkey]
      simp only [ne_eq, hlen, not_false_eq_true, if_true]
      exact matches_refused (by decide)

theorem matches_getEntityActivity (params : Option Value) :
    (ArgKind.identity.verdict c params).Matches (getEntityActivity c s params) := by
  refine matches_identity (fun id hdecode => ?_) (fun id key hdecode => ?_) params
  · rw [hdecode]
  · obtain ⟨hashes, hok, -, -⟩ := s.getTxHashesForEntity_ok key
    simp only [hdecode, hok, ok_bind]
    exact rfl

/-- The optional epoch fails only where the identity has failed already. It is read first, but from
the same array, and any value there stands for an epoch or for none. -/
theorem matches_getEntityHistory (ranges : List EpochRange) (params : Option Value) :
    (ArgKind.identity.verdict c params).Matches (getEntityHistory c s ranges params) := by
  by_cases harray : ∃ xs, params.bind Value.asArray = some xs
  · -- in an array the optional epoch is there or not, and is never an error
    obtain ⟨xs, hxs⟩ := harray
    obtain ⟨value, rfl, hvalue⟩ := Option.bind_eq_some_iff.mp hxs
    have hepoch : extractOptionalU16Param (some value) 3
        = .ok ((xs[3]?).bind fun v => v.asU64.map UInt64.toUInt16) := by
      rw [extractOptionalU16Param, paramArray, hvalue, ok_bind]
    rw [getEntityHistory, hepoch]
    simp only [ok_bind]
    refine matches_identity (fun id hdecode => ?_) (fun id key hdecode => ?_) (some value)
    · rw [hdecode]
    obtain ⟨page, hpage⟩ := exists_entityHistoryPage_ok c s ranges key
      ((xs[3]?).bind fun v => v.asU64.map UInt64.toUInt16)
      ((extractU32Param (some value) 2).toOption.getD 0).toNat
      ((extractU32Param (some value) 1).toOption.getD 50).toNat
    rw [hdecode]
    show Verdict.result.Matches (entityHistoryPage .. >>= _)
    rw [hpage, ok_bind]
    exact rfl
  · have hnone : params.bind Value.asArray = none :=
      Option.eq_none_iff_forall_ne_some.mpr (fun xs hxs => harray ⟨xs, hxs⟩)
    have hfirst : firstParam params = none := by rw [firstParam, hnone, Option.bind_none]
    rw [ArgKind.verdict, hfirst]
    cases params with
    | none => exact matches_invalid (by decide)
    | some value =>
      rw [Option.bind_some] at hnone
      rw [getEntityHistory, extractStringParam, extractParam, paramArray, hnone]
      exact matches_invalid (by decide)

theorem matches_getAssetHolders (params : Option Value) :
    (ArgKind.number.verdict c params).Matches (getAssetHolders c s params) := by
  refine matches_u32 (fun index => ?_) params
  obtain ⟨holders, hok, -⟩ := s.getHoldersForAsset_spec index
  rw [hok, ok_bind]
  exact rfl

theorem matches_search (params : Option Value) :
    (ArgKind.text.verdict c params).Matches (search c s params) := by
  refine matches_text (fun query => ?_) params
  dsimp only
  split <;> exact rfl

/-- The latest oracle data take no parameter. -/
theorem matches_getOracleData
    (h : ∀ tick data, s.getLatestOracle = some (tick, data) → IsJson c data) :
    Verdict.result.Matches (getOracleData c s) := by
  rw [getOracleData]
  cases hlatest : s.getLatestOracle with
  | none => exact rfl
  | some entry =>
    obtain ⟨tick, data⟩ := entry
    obtain ⟨v, hv⟩ := h tick data hlatest
    simp only [hv]
    exact rfl

/-! ## The arms

Every arm beside the method of its name, in five groups: the arms and the table of methods are cut
at the same places, and put together again in `arms_match`. -/

/-- An arm answers every parameter list as its kind of method should. -/
def ArmMatches (c : Crates) (arm : Option Value → Outcome Value) (kind : ArgKind) : Prop :=
  ∀ params, (kind.verdict c params).Matches (arm params)

/-- The arm is that of the method. -/
def Answers (c : Crates) (arm : String × (Option Value → Outcome Value))
    (method : String × ArgKind) : Prop :=
  arm.1 = method.1 ∧ ArmMatches c arm.2 method.2

theorem Answers.arm {name : String} {arm : Option Value → Outcome Value} {kind : ArgKind}
    (h : ArmMatches c arm kind) : Answers c (name, arm) (name, kind) := ⟨rfl, h⟩

/-- A method that looks at nothing and always has an answer. -/
theorem Answers.nothing {name : String} {value : Value} :
    Answers c (name, fun _ => .ok value) (name, .nothing) := ⟨rfl, fun _ => rfl⟩

/-- A method that looks up a number and parses what is stored there. -/
theorem Answers.number {name : String} {lookup : UInt32 → Option Bytes}
    (h : ∀ n data, lookup n = some data → IsJson c data) :
    Answers c (name, fun params => extractU32Param params 0 >>= fun n => parseStored c (lookup n))
      (name, .number) :=
  ⟨rfl, fun params => matches_u32 (fun n => matches_parseStored (h n)) params⟩

/-- The two methods that are not supported say so in three sentences, the first of which begins with
the name of the method. -/
theorem errorCode_sentences {first : String} (h : first.toList.head? = some 'g')
    (second third : String) : errorCode (first ++ second ++ third) = -32000 := by
  refine errorCode_of_head 'g' ?_ (by decide) (by decide)
  rw [String.toList_append, String.toList_append, List.append_assoc, List.head?_append, h]
  rfl

section Documents

variable (hdocs : DocumentsReadable c s)
include hdocs

theorem isJson_tick (n : UInt32) (data : Bytes) (h : s.getTick n = some data) : IsJson c data :=
  hdocs .tick (by decide) _ data h

theorem isJson_tx (hash : Key32) (data : Bytes) (h : s.getTx hash = some data) : IsJson c data :=
  hdocs .tx (by decide) _ data h

theorem isJson_entity (key : Key32) (data : Bytes) (h : s.getEntity key = some data) :
    IsJson c data :=
  hdocs .entity (by decide) _ data h

theorem isJson_spectrum (key : Key32) (data : Bytes) (h : s.getSpectrumEntry key = some data) :
    IsJson c data :=
  hdocs .spectrum (by decide) _ data h

theorem isJson_ipo (index : UInt32) (data : Bytes) (h : s.getContractIpo index = some data) :
    IsJson c data :=
  hdocs .contractIpo (by decide) _ data h

theorem isJson_stats (epoch : UInt16) (data : Bytes) (h : s.getEpochStats epoch = some data) :
    IsJson c data :=
  hdocs .epochStats (by decide) _ data h

theorem isJson_computors (data : Bytes) (h : s.getLatestComputors.map Prod.snd = some data) :
    IsJson c data := by
  obtain ⟨⟨epoch, data⟩, hlatest, rfl⟩ := Option.map_eq_some_iff.mp h
  exact hdocs .computors (by decide) _ data
    ((s.reverseScansExact.latestComputors epoch data).mp hlatest).1

theorem isJson_oracle (tick : UInt32) (data : Bytes) (h : s.getLatestOracle = some (tick, data)) :
    IsJson c data :=
  hdocs .oracle (by decide) _ data ((s.reverseScansExact.latestOracle tick data).mp h).1

/-- `getTickInfo` to `getBlock`: entities, transactions and ticks. -/
theorem ledger_arms_match (hhex : ∀ text, c.hex.decode text = none →
      errorCode (c.hex.error text) = -32000) (ranges : List EpochRange) :
    List.Forall₂ (Answers c) ((arms c s ranges).take 8) (kinds.take 8) :=
  .cons .nothing <| .cons .nothing <|
  .cons (.arm (matches_byIdentity (isJson_entity hdocs))) <|
  .cons (.arm (matches_spectrumBalance (isJson_spectrum hdocs))) <|
  .cons (.arm matches_getTickTransactions) <| .cons (.arm matches_getTickTransactions) <|
  .cons (.arm (matches_getTransaction hhex (isJson_tx hdocs))) <|
  .cons (.number (isJson_tick hdocs)) .nil

/-- `getQubicInfo` to `getSpectrum`: the chain, the assets and the spectrum. -/
theorem chain_arms_match (ranges : List EpochRange) :
    List.Forall₂ (Answers c) (((arms c s ranges).drop 8).take 10) ((kinds.drop 8).take 10) :=
  .cons .nothing <| .cons .nothing <|
  .cons (.arm fun _ => matches_parseStored (isJson_computors hdocs)) <|
  .cons (.number (isJson_ipo hdocs)) <| .cons .nothing <|
  .cons (.arm (matches_assetsOfRole .owning)) <|
  .cons (.arm (matches_assetsOfRole .possessing)) <|
  .cons (.arm (matches_assetsOfRole .owning)) <| .cons .nothing <|
  .cons (.arm (matches_byIdentity (isJson_spectrum hdocs))) .nil

/-- `getProposal` to `getContractFunctionResult`: what is not there, or not yet, and the IPOs. -/
theorem contract_arms_match (ranges : List EpochRange) :
    List.Forall₂ (Answers c) (((arms c s ranges).drop 18).take 9) ((kinds.drop 18).take 9) :=
  .cons .nothing <| .cons .nothing <| .cons .nothing <| .cons .nothing <| .cons .nothing <|
  .cons (.number (isJson_ipo hdocs)) <|
  .cons (.arm fun _ => matches_refused (errorCode_sentences (by decide) _ _)) <| .cons .nothing <|
  .cons (.arm fun _ => matches_refused (errorCode_sentences (by decide) _ _)) .nil

/-- `qonduit_getTick` to `qonduit_getEpochInfo`: the methods that are not those of Bob. -/
theorem native_arms_match (ranges : List EpochRange) :
    List.Forall₂ (Answers c) (((arms c s ranges).drop 27).take 11) ((kinds.drop 27).take 11) :=
  .cons (.number (isJson_tick hdocs)) <| .cons (.arm matches_getTickTransactions) <|
  .cons (.arm matches_getEntityActivity) <| .cons (.arm (matches_getEntityHistory ranges)) <|
  .cons (.arm matches_search) <| .cons (.arm matches_getAssetHolders) <|
  .cons (.arm (matches_u32 fun _ => rfl)) <|
  .cons (.arm fun _ => matches_getOracleData (isJson_oracle hdocs)) <|
  .cons (.arm (matches_spectrumBalance (isJson_spectrum hdocs))) <|
  .cons (.arm (matches_text fun _ => rfl)) <| .cons .nothing .nil

/-- `getEpochStats` to `qonduit_getEntityBalances`: the statistics, and what changed. -/
theorem stats_arms_match (ranges : List EpochRange) :
    List.Forall₂ (Answers c) ((arms c s ranges).drop 38) (kinds.drop 38) :=
  .cons (.arm (matches_u16 fun epoch => matches_parseStored (isJson_stats hdocs epoch))) <|
  .cons .nothing <| .cons (.arm (matches_u32 fun _ => rfl)) <|
  .cons (.arm (matches_spectrumBalance (isJson_spectrum hdocs))) <|
  .cons (.arm (matches_byIdentity (isJson_spectrum hdocs))) .nil

/-- **Every arm answers** as its kind of method should. -/
theorem arms_match (hhex : ∀ text, c.hex.decode text = none →
      errorCode (c.hex.error text) = -32000) (ranges : List EpochRange) :
    List.Forall₂ (Answers c) (arms c s ranges) kinds :=
  List.rel_append (ledger_arms_match hdocs hhex ranges) <|
  List.rel_append (chain_arms_match hdocs ranges) <|
  List.rel_append (contract_arms_match hdocs ranges) <|
  List.rel_append (native_arms_match hdocs ranges) (stats_arms_match hdocs ranges)

end Documents

/-! ## The endpoint

A request is looked up in the table of methods. A name that is not there is an unknown method, and
every other one is answered by its arm. -/

/-- Two tables that agree row by row agree in every lookup. -/
theorem lookup_forall₂ {A B : Type} {R : A → B → Prop} {l : List (String × A)}
    {l' : List (String × B)} (h : List.Forall₂ (fun a b => a.1 = b.1 ∧ R a.2 b.2) l l')
    (name : String) : Option.Rel R (l.lookup name) (l'.lookup name) := by
  induction h with
  | nil => exact .none
  | @cons a b l l' hab _ ih =>
    obtain ⟨hname, hrel⟩ := hab
    rw [List.lookup_cons, List.lookup_cons, ← hname]
    cases name == a.1 with
    | true => exact .some hrel
    | false => exact ih

theorem isPrefixOf_append (stem rest : List Char) : stem.isPrefixOf (stem ++ rest) = true := by
  simp

/-- The message for an unknown method has its own code. -/
theorem errorCode_unknownMethod (method : String) :
    errorCode ("Method not found: " ++ method) = -32601 := by
  have hstem : ("Method not found".toList.isPrefixOf
      ("Method not found: " ++ method).toList) = true := by
    rw [String.toList_append, show "Method not found: ".toList
      = "Method not found".toList ++ [':', ' '] from rfl, List.append_assoc]
    exact isPrefixOf_append _ _
  simp only [errorCode, hstem, if_true]

/-- **Every method is answered as it should be.** A name that is in the table of methods is in the
table of the arms at the same place, and one that is not is in neither. -/
theorem dispatchMethod_matches (hdocs : DocumentsReadable c s)
    (hhex : ∀ text, c.hex.decode text = none → errorCode (c.hex.error text) = -32000)
    (ranges : List EpochRange) (method : String) (params : Option Value) :
    (verdict c method params).Matches (dispatchMethod c s ranges method params) := by
  have hlookup := lookup_forall₂ (R := ArmMatches c) (arms_match hdocs hhex ranges) method
  rw [verdict, dispatchMethod]
  cases hkind : kinds.lookup method with
  | none =>
    rw [hkind] at hlookup
    cases harm : (arms c s ranges).lookup method with
    | none => exact congrArg some (errorCode_unknownMethod method).symm
    | some arm =>
      rw [harm] at hlookup
      cases hlookup
  | some kind =>
    rw [hkind] at hlookup
    cases harm : (arms c s ranges).lookup method with
    | none =>
      rw [harm] at hlookup
      cases hlookup
    | some arm =>
      rw [harm] at hlookup
      cases hlookup with
      | some hmatch => exact hmatch params

/-- A response with the error code a verdict asks for, or with a result. -/
structure Deserved (request : JsonRpcRequest) (v : Verdict) (response : JsonRpcResponse) :
    Prop where
  version : response.jsonrpc = ascii "2.0"
  id : response.id = request.id
  code : response.error.map JsonRpcError.code = v.code
  result : response.result.isSome ↔ v = .result

end Rpc

/-- Documents the indexer takes over or writes are JSON where every payload is. -/
theorem documentsReadable_of_wellKeyed {c : Crates} {s : WarmStorage}
    (hstats : ∀ stats, IsJson c (c.serde.epochStats.toVec stats))
    (h : WellKeyed c (IsJson c) s) : DocumentsReadable c s := by
  intro cf hcf k v hv
  cases h.documents cf k v hv with
  | tick given _ _ => exact given
  | tx given _ => exact given
  | entity given _ _ => exact given
  | spectrum given _ _ => exact given
  | asset given _ => exact given
  | computors given _ => exact given
  | contractIpo given _ => exact given
  | customMessage _ given _ => exact given
  | logEvent event => exact absurd hcf (by decide)
  | tickVote given _ => exact given
  | oracle given _ _ => exact given
  | epochStats stats => exact hstats stats
  | reference family =>
    simp only [referenceFamilies, List.mem_cons, List.not_mem_nil, or_false] at family
    rcases family with rfl | rfl | rfl | rfl <;> exact absurd hcf (by decide)

/-- **Every RPC request gets what it deserves**, in every state of every run whose payloads are
JSON: a result, or the one error code that its method and first parameter call for. -/
theorem rpc_answers_verdict {c : Crates} (hserde : StatsRoundTrip c)
    (hstats : ∀ stats, IsJson c (c.serde.epochStats.toVec stats))
    (hhex : ∀ text, c.hex.decode text = none → Rpc.errorCode (c.hex.error text) = -32000)
    {ix : Indexer} (hix : Indexer.ReachableOn c (IsJson c) ix) (ranges : List EpochRange)
    (request : JsonRpcRequest) :
    ∃ response, Rpc.handleRpc c ix.storage ranges request = .ok response ∧
      Rpc.Deserved request (Rpc.verdict c request.method request.params) response := by
  have hdocs := documentsReadable_of_wellKeyed hstats
    (Indexer.wellKeyed_of_reachableOn hserde hix)
  have hmatch := Rpc.dispatchMethod_matches hdocs hhex ranges request.method request.params
  rw [Rpc.handleRpc]
  cases hcall : Rpc.dispatchMethod c ix.storage ranges request.method request.params with
  | ok value =>
    rw [hcall] at hmatch
    refine ⟨_, rfl, rfl, rfl, Eq.symm hmatch, ?_⟩
    -- a result is returned for no other verdict
    have hresult : Rpc.verdict c request.method request.params = .result := by
      cases hv : Rpc.verdict c request.method request.params with
      | result => rfl
      | _ => rw [hv] at hmatch; cases hmatch
    exact iff_of_true rfl hresult
  | error fault =>
    rw [hcall] at hmatch
    cases fault with
    | panic what => exact hmatch.elim
    | err chain =>
      refine ⟨_, rfl, rfl, rfl, Eq.symm hmatch, ?_⟩
      refine iff_of_false (by simp) (fun hresult => ?_)
      rw [hresult] at hmatch
      cases hmatch

/-! ## A request

A processor that was given one tick, and a request for this tick. -/

/-- The messages of the hex decoder get the code of the other failures. -/
theorem errorCode_hexError (text : Str) : Rpc.errorCode (hexError text) = -32000 := by
  unfold hexError
  split
  · exact Rpc.errorCode_of_head 'O' (by decide) (by decide) (by decide)
  · split
    · refine Rpc.errorCode_of_head 'I' ?_ (by decide) (by decide)
      simp only [String.toList_append, List.append_assoc]
      rfl
    · exact Rpc.errorCode_of_head 'I' (by decide) (by decide) (by decide)

def requestDocs : Crates :=
  (Crates.ofKnown { ticks := [sampleTick 5 7],
                    values := [((sampleTick 5 7).json, (sampleTick 5 7).document)] })
    |>.withStatsDocuments

def requestStore : Indexer :=
  Indexer.run requestDocs (Indexer.new .empty {}) [(.tick, (sampleTick 5 7).json)]

def blockRequest : JsonRpcRequest := ⟨ascii "2.0", "getBlock", numericParams 7, some (.nat 1)⟩

/-- The request is answered with a result: its method takes a number, its parameter is one, and the
tick of that number is stored and JSON. -/
theorem rpc_answers_verdict_sample :
    Rpc.verdict requestDocs blockRequest.method blockRequest.params = .result ∧
    ∃ response, Rpc.handleRpc requestDocs requestStore.storage [] blockRequest = .ok response ∧
      Rpc.Deserved blockRequest .result response := by
  have hcodec : requestDocs.serde.epochStats = .epochStats := by
    rw [requestDocs, Crates.serde_epochStats_withStatsDocuments, Crates.serde_epochStats_ofKnown]
  have hserde : StatsRoundTrip requestDocs := by
    intro stats
    rw [hcodec]
    exact JsonCodec.epochStats_fromSlice_toVec stats
  have hstats : ∀ stats, IsJson requestDocs (requestDocs.serde.epochStats.toVec stats) := by
    intro stats
    rw [hcodec, requestDocs]
    exact ⟨stats.document, Crates.valueFromSlice_withStatsDocuments _ stats⟩
  have htick : IsJson requestDocs (sampleTick 5 7).json := ⟨(sampleTick 5 7).document, by rfl⟩
  have hgiven : ∀ m ∈ [((.tick, (sampleTick 5 7).json) : Message)], IsJson requestDocs m.2 := by
    intro m hm
    rw [List.mem_singleton.mp hm]
    exact htick
  have hreach : Indexer.ReachableOn requestDocs (IsJson requestDocs) requestStore := by
    unfold requestStore
    exact (Indexer.ReachableOn.init {}).run _ hgiven
  have hverdict : Rpc.verdict requestDocs blockRequest.method blockRequest.params = .result := by
    decide
  refine ⟨hverdict, ?_⟩
  rw [← hverdict]
  exact rpc_answers_verdict hserde hstats (fun text _ => errorCode_hexError text) hreach []
    blockRequest

end Qonduit

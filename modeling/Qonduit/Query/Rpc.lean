import Qonduit.Query.Rest

/-!
# Qonduit — the JSON-RPC API

`rpc.rs`: each arm of `dispatch_method` as a function of the store and the `params` of the
request, under the name of its method. An error carries the message the response shows.
-/

namespace Qonduit

namespace Rpc

/-- The code `handle_rpc` gives an error, read off its message. -/
def errorCode (message : String) : Int :=
  let startsWith (stem : String) := stem.toList.isPrefixOf message.toList
  if startsWith "Method not found" then -32601
  else if startsWith "Missing params" || startsWith "Params must be array"
      || startsWith "Missing param at index" then -32602
  else -32000

/-- The array of parameters. -/
def paramArray (params : Option Value) : Outcome (List Value) :=
  match params with
  | some v =>
    match v.asArray with
    | some xs => .ok xs
    | none => bail "Params must be array"
  | none => bail "Missing params"

/-- The parameter at an index, read by `f`. -/
def extractParam {α : Type} (f : Value → Option α) (params : Option Value) (index : Nat) :
    Outcome α := do
  let xs ← paramArray params
  match (xs[index]?).bind f with
  | some a => .ok a
  | none => bail s!"Missing param at index {index}"

def extractStringParam (params : Option Value) (index : Nat) : Outcome Str :=
  extractParam Value.asStr params index

/-- A number beyond `u32` is truncated. -/
def extractU32Param (params : Option Value) (index : Nat) : Outcome UInt32 :=
  extractParam (fun v => v.asU64.map UInt64.toUInt32) params index

/-- A number beyond `u16` is truncated. -/
def extractU16Param (params : Option Value) (index : Nat) : Outcome UInt16 :=
  extractParam (fun v => v.asU64.map UInt64.toUInt16) params index

/-- The same, where the parameter may be missing or of another type. -/
def extractOptionalU16Param (params : Option Value) (index : Nat) : Outcome (Option UInt16) := do
  let xs ← paramArray params
  .ok ((xs[index]?).bind fun v => v.asU64.map UInt64.toUInt16)

/-- `Ok(serde_json::from_slice(&data)?)`, or `null` where nothing is stored. -/
def parseStored (c : Crates) : Option Bytes → Outcome Value
  | some data =>
    match c.serde.valueFromSlice data with
    | .ok v => .ok v
    | .error e => .error (.err [e])
  | none => .ok .null

/-- The keys of a `serde_json` map are sorted. -/
def getTickInfo (s : WarmStorage) : Value :=
  let tick := s.getCurrentTick.getD 0
  let epoch := s.getCurrentEpoch.getD 0
  .object [("epoch", .nat epoch.toUInt64), ("tick", .nat tick.toUInt64)]

/-- `getTransactionsForTick`, `getTickTransactions` and `qonduit_getTickTransactions`. -/
def getTickTransactions (c : Crates) (s : WarmStorage) (params : Option Value) :
    Outcome Value := do
  let tick ← extractU32Param params 0
  let hashes ← s.getTxHashesForTick tick
  .ok (.array (listTransactions c s hashes))

def getTransaction (c : Crates) (s : WarmStorage) (params : Option Value) : Outcome Value := do
  let hashStr ← extractStringParam params 0
  match c.hex.decode hashStr with
  | none => .error (.err [c.hex.error hashStr])
  | some hashBytes =>
    if hashBytes.length ≠ 32 then bail "Invalid hash length"
    else
      let hash ← copyFromSlice hashBytes
      parseStored c (s.getTx hash)

/-- `qonduit_getEntityActivity`; any failure to read a limit means 100. -/
def getEntityActivity (c : Crates) (s : WarmStorage) (params : Option Value) :
    Outcome Value := do
  let id ← extractStringParam params 0
  let limit := (extractU32Param params 1).toOption.getD 100
  match decodeBase26 c id with
  | some key =>
    let hashes ← s.getTxHashesForEntity key limit.toNat
    .ok (.array (listTransactions c s hashes))
  | none => bail "Invalid identity"

/-- `getBlock` and `qonduit_getTick`. -/
def getBlock (c : Crates) (s : WarmStorage) (params : Option Value) : Outcome Value := do
  let tick ← extractU32Param params 0
  parseStored c (s.getTick tick)

/-- `getContractIPO`. -/
def getContractIpo (c : Crates) (s : WarmStorage) (params : Option Value) : Outcome Value := do
  let index ← extractU32Param params 0
  parseStored c (s.getContractIpo index)

def getEpochStats (c : Crates) (s : WarmStorage) (params : Option Value) : Outcome Value := do
  let epoch ← extractU16Param params 0
  parseStored c (s.getEpochStats epoch)

/-- `qonduit_getEntityHistory`; any failure to read the limit or the offset means the default. -/
def getEntityHistory (c : Crates) (s : WarmStorage) (ranges : List EpochRange)
    (params : Option Value) : Outcome Value := do
  let id ← extractStringParam params 0
  let limit := (extractU32Param params 1).toOption.getD 50
  let offset := (extractU32Param params 2).toOption.getD 0
  let epoch ← extractOptionalU16Param params 3
  match decodeBase26 c id with
  | some key =>
    let page ← entityHistoryPage c s ranges key epoch offset.toNat limit.toNat
    .ok page.document
  | none => bail "Invalid identity"

end Rpc

end Qonduit

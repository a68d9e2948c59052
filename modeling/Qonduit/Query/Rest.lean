import Qonduit.Processor.Indexer

/-!
# Qonduit — the REST API

`rest.rs`: handlers over the shared warm tier. A handler answers with a stored payload, byte
for byte, or with a document it builds. RocksDB is taken not to fail, so `storage_err` is
reached through the scans' own outcomes only.
-/

namespace Qonduit

/-- What a handler answers with. -/
inductive Response where
  /-- 200 with stored JSON bytes. -/
  | raw (json : Bytes)
  /-- 200 with a document. -/
  | json (v : Value)
  | notFound
  | badRequest (error : String)
  | storageError (message : String)

/-- `json_or_404`. -/
def jsonOr404 : Option Bytes → Response
  | some bytes => .raw bytes
  | none => .notFound

/-- `storage_err` on the error of a scan, shown by its outermost message; a panic stays one. -/
def orStorageErr {α : Type} (r : Outcome α) (k : α → Response) : Outcome Response :=
  match r with
  | .ok a => .ok (k a)
  | .error (.err chain) => .ok (.storageError (chain.headD ""))
  | .error (.panic what) => .error (.panic what)

/-- `str::parse::<u32>`: an optional plus sign and at least one digit, in range. -/
def parseU32 (s : Str) : Option UInt32 :=
  let digits := if s.head? = some 43 then s.tail else s
  if digits ≠ [] ∧ digits.all (fun b => 48 ≤ b ∧ b ≤ 57) then
    let n := digits.foldl (fun n b => 10 * n + (b.toNat - 48)) 0
    if n < 2 ^ 32 then some (UInt32.ofNat n) else none
  else none

/-- `str::parse::<u16>`: the same text, within the narrower range. -/
def parseU16 (s : Str) : Option UInt16 :=
  (parseU32 s).bind fun n => if n.toNat < 2 ^ 16 then some n.toUInt16 else none

/-- The loop of the transaction listings: the stored payload of every hash that has one, where
it parses. -/
def listTransactions (c : Crates) (s : WarmStorage) (hashes : List Key32) : List Value :=
  hashes.filterMap fun hash =>
    match s.getTx hash with
    | some data => (c.serde.valueFromSlice data).toOption
    | none => none

/-- `json!(n)` for an unsigned integer. -/
def Value.nat (n : UInt64) : Value := .number (.posInt n)

/-- What the entity-history endpoints answer with. -/
structure HistoryPage where
  transactions : List Value
  total : Nat
  offset : Nat
  limit : Nat

/-- The keys of a `serde_json` map are sorted. -/
def HistoryPage.document (p : HistoryPage) : Value :=
  .object [("limit", .nat (.ofNat p.limit)), ("offset", .nat (.ofNat p.offset)),
    ("total", .nat (.ofNat p.total)), ("transactions", .array p.transactions)]

/-- The body of the entity-history endpoints after their arguments are read: the limit is capped,
the total comes from a scan of its own, and stored payloads that do not parse are dropped. -/
def entityHistoryPage (c : Crates) (s : WarmStorage) (ranges : List EpochRange) (key : Key32)
    (epoch : Option UInt16) (offset limit : Nat) : Outcome HistoryPage := do
  let limit := min limit 500
  let total := s.countEntityTransactions key
  let history ← s.getEntityHistory ranges key epoch offset limit
  let transactions := history.filterMap fun row => (c.serde.valueFromSlice row.2).toOption
  .ok { transactions, total, offset, limit }

/-- The query parameters of the entity-history endpoint. -/
structure EntityHistoryParams where
  offset : Nat := 0
  limit : Nat := 50
  epoch : Option UInt16 := none

namespace Rest

/-- `GET /v1/tick`. -/
def currentTick (s : WarmStorage) : Response :=
  match s.getCurrentTick with
  | some tick => jsonOr404 (s.getTick tick)
  | none => .notFound

/-- `GET /v1/tick/:tick`. -/
def getTick (s : WarmStorage) (tickStr : Str) : Response :=
  match parseU32 tickStr with
  | some tick => jsonOr404 (s.getTick tick)
  | none => .badRequest "Invalid tick: must be a valid u32"

/-- `GET /v1/tick/:tick/tx`. -/
def getTickTransactions (c : Crates) (s : WarmStorage) (tickStr : Str) : Outcome Response :=
  match parseU32 tickStr with
  | some tick =>
    orStorageErr (s.getTxHashesForTick tick) fun hashes =>
      .json (.array (listTransactions c s hashes))
  | none => .ok (.badRequest "Invalid tick: must be a valid u32")

/-- `GET /v1/tx/:hash`. -/
def getTransaction (c : Crates) (s : WarmStorage) (hashStr : Str) : Response :=
  match hexKey c hashStr with
  | some hash => jsonOr404 (s.getTx hash)
  | none => .badRequest "Invalid transaction hash: must be 64 hex characters"

/-- `GET /v1/entity/:id/transactions`. -/
def getEntityTransactions (c : Crates) (s : WarmStorage) (id : Str) : Outcome Response :=
  match decodeBase26 c id with
  | some key =>
    orStorageErr (s.getTxHashesForEntity key 100) fun hashes =>
      .json (.array (listTransactions c s hashes))
  | none => .ok (.badRequest "Invalid identity: must be a valid base26-encoded string")

/-- `GET /v1/entity/:id/history`. -/
def getEntityHistory (c : Crates) (s : WarmStorage) (ranges : List EpochRange) (id : Str)
    (params : EntityHistoryParams) : Outcome Response :=
  match decodeBase26 c id with
  | some key =>
    orStorageErr (entityHistoryPage c s ranges key params.epoch params.offset params.limit)
      fun page => .json page.document
  | none => .ok (.badRequest "Invalid identity: must be a valid base26-encoded string")

/-- `GET /v1/contract-ipo/:index`. -/
def getContractIpo (s : WarmStorage) (indexStr : Str) : Response :=
  match parseU32 indexStr with
  | some index => jsonOr404 (s.getContractIpo index)
  | none => .badRequest "Invalid contract IPO index: must be a valid u32"

/-- `GET /v1/epochs/:epoch`. -/
def getEpoch (s : WarmStorage) (epochStr : Str) : Response :=
  match parseU16 epochStr with
  | some epoch => jsonOr404 (s.getEpochStats epoch)
  | none => .badRequest "Invalid epoch: must be a valid u16"

end Rest

end Qonduit

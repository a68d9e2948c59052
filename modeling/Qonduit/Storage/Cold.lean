import Qonduit.Core.Crates
import Qonduit.Storage.Warm

/-!
# Qonduit — the cold tier

`cold.rs`: `export_epoch` writes the ticks of a range and the transactions indexed under them to
two Parquet files in the directory of an epoch. The epoch names the directory and selects nothing.
The model returns the rows, none where the code leaves a file unwritten; the file system, which may
fail at any of its calls, is left to the caller.
-/

namespace Qonduit

/-- A row of `ticks.parquet`. -/
structure TickRow where
  tick : UInt32
  epoch : UInt16
  timestamp : UInt64
  transactionCount : UInt16
  dataJson : Str
  deriving DecidableEq

/-- A row of `transactions.parquet`. -/
structure TxRow where
  tick : UInt32
  inputType : UInt16
  source : Str
  destination : Str
  amount : Int64
  dataJson : Str
  deriving DecidableEq

structure EpochExport where
  ticks : List TickRow
  transactions : List TxRow
  deriving DecidableEq

def Value.asI64 : Value → Option Int64
  | .number (.posInt n) => if n.toNat < 2 ^ 63 then some n.toInt64 else none
  | .number (.negInt n) => some n
  | _ => none

/-- `serde_json::from_slice(data)?` at an untyped document. -/
def parseDocument (c : Crates) (data : Bytes) : Outcome Value :=
  match c.serde.valueFromSlice data with
  | .ok v => .ok v
  | .error e => .error (.err [e])

/-- `from..=to`. -/
def ticksBetween (fromTick toTick : UInt32) : List UInt32 :=
  (List.range' fromTick.toNat (toTick.toNat + 1 - fromTick.toNat)).map UInt32.ofNat

namespace ColdStorage

/-- A field that is missing or of another kind reads as 0. -/
def tickRow (c : Crates) (tick : UInt32) (data : Bytes) : Outcome TickRow := do
  let val ← parseDocument c data
  .ok {
    tick
    epoch := ((val.field "epoch").asU64.getD 0).toUInt16
    timestamp := (val.field "timestamp").asU64.getD 0
    transactionCount := ((val.field "transaction_count").asU64.getD 0).toUInt16
    -- a document that parsed is UTF-8, and `from_utf8_lossy` leaves it alone
    dataJson := data }

def txRow (c : Crates) (tick : UInt32) (data : Bytes) : Outcome TxRow := do
  let val ← parseDocument c data
  .ok {
    tick
    inputType := ((val.field "input_type").asU64.getD 0).toUInt16
    source := (val.field "source_hex").asStr.getD []
    destination := (val.field "destination_hex").asStr.getD []
    amount := (val.field "amount").asI64.getD 0
    dataJson := data }

def exportTicks (c : Crates) (warm : WarmStorage) (range : UInt32 × UInt32) :
    Outcome (List TickRow) :=
  (warm.getTickRange range.1 range.2).mapM (fun r => tickRow c r.1 r.2)

/-- The rows of one turn of the loop over ticks. -/
def exportTransactionsOf (c : Crates) (warm : WarmStorage) (tick : UInt32) :
    Outcome (List TxRow) := do
  let hashes ← warm.getTxHashesForTick tick
  -- a hash under which nothing is stored gives no row
  (hashes.filterMap warm.getTx).mapM (txRow c tick)

def exportTransactions (c : Crates) (warm : WarmStorage) (range : UInt32 × UInt32) :
    Outcome (List TxRow) := do
  let rows ← (ticksBetween range.1 range.2).mapM (exportTransactionsOf c warm)
  .ok rows.flatten

/-- `export_epoch`, which passes the epoch to neither of the two. -/
def exportEpoch (c : Crates) (warm : WarmStorage) (_epoch : UInt16)
    (tickRange : UInt32 × UInt32) : Outcome EpochExport := do
  let ticks ← exportTicks c warm tickRange
  let transactions ← exportTransactions c warm tickRange
  .ok { ticks, transactions }

end ColdStorage

end Qonduit

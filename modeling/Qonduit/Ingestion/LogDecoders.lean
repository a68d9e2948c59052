import Qonduit.Ingestion.RecordDecoders

/-!
# Qonduit — decoders of log messages

`decoders.rs`: the packed log events of a broadcast message, and the three short responses about
oracles and logs. A message is a sequence of events, each a header of 26 bytes and data whose
size its type decides; the loop stops at the first event it cannot delimit.
-/

namespace Qonduit

/-! ## Log event types (`constants.rs`) -/

def LOG_QU_TRANSFER : UInt8 := 0

def LOG_ASSET_ISSUANCE : UInt8 := 1

def LOG_ASSET_OWNERSHIP_CHANGE : UInt8 := 2

def LOG_ASSET_POSSESSION_CHANGE : UInt8 := 3

def LOG_CONTRACT_ERROR_MESSAGE : UInt8 := 4

def LOG_CONTRACT_DEBUG_MESSAGE : UInt8 := 7

def LOG_BURNING : UInt8 := 8

def LOG_DUST_BURNING : UInt8 := 9

def LOG_SPECTRUM_STATS : UInt8 := 10

def LOG_ASSET_OWNERSHIP_MANAGING_CONTRACT_CHANGE : UInt8 := 11

def LOG_ASSET_POSSESSION_MANAGING_CONTRACT_CHANGE : UInt8 := 12

def LOG_CONTRACT_RESERVE_DEDUCTION : UInt8 := 13

def LOG_ORACLE_QUERY_STATUS_CHANGE : UInt8 := 14

def LOG_ORACLE_SUBSCRIBER_MESSAGE : UInt8 := 15

def LOG_CUSTOM_MESSAGE : UInt8 := 255

def LOG_HEADER_SIZE : Nat := 26

/-! ## Log events -/

/-- The size of data that begin with their own length; `none` is the `break` of the loop. -/
def lengthPrefixed (payload : Bytes) (dataStart : Nat) : Outcome (Option Nat) :=
  if dataStart + 2 ≤ payload.length then do
    let len := UInt16.fromLeBytes (← sliceAt payload dataStart (dataStart + 2))
    .ok (some (len.toNat + 2))
  else .ok none

/-- The size of the data of an event; `none` is the `break` of the loop. -/
def logDataSize (payload : Bytes) (offset : Nat) (eventType : UInt8) : Outcome (Option Nat) :=
  let dataStart := offset + LOG_HEADER_SIZE
  if eventType = LOG_QU_TRANSFER then .ok (some 64)
  else if eventType = LOG_ASSET_ISSUANCE then .ok (some 816)
  else if eventType = LOG_ASSET_OWNERSHIP_CHANGE then .ok (some 64)
  else if eventType = LOG_ASSET_POSSESSION_CHANGE then .ok (some 64)
  else if LOG_CONTRACT_ERROR_MESSAGE ≤ eventType ∧ eventType ≤ LOG_CONTRACT_DEBUG_MESSAGE then
    lengthPrefixed payload dataStart
  else if eventType = LOG_BURNING then .ok (some 8)
  else if eventType = LOG_DUST_BURNING then .ok (some 8)
  else if eventType = LOG_SPECTRUM_STATS then .ok (some 224)
  else if eventType = LOG_ASSET_OWNERSHIP_MANAGING_CONTRACT_CHANGE then .ok (some 64)
  else if eventType = LOG_ASSET_POSSESSION_MANAGING_CONTRACT_CHANGE then .ok (some 64)
  else if eventType = LOG_CONTRACT_RESERVE_DEDUCTION then .ok (some 8)
  else if eventType = LOG_ORACLE_QUERY_STATUS_CHANGE then .ok (some 8)
  else if eventType = LOG_ORACLE_SUBSCRIBER_MESSAGE then lengthPrefixed payload dataStart
  else if eventType = LOG_CUSTOM_MESSAGE then lengthPrefixed payload dataStart
  else if offset + 19 < payload.length then do
    -- an unknown type: the byte after it is taken for the size
    let sizeByte ← byteAt payload (offset + 19)
    if sizeByte > 0 then .ok (some sizeByte.toNat) else .ok none
  else .ok none

/-- The event at `offset`, where a whole header fits, and the size of its data; `none` is the
`break` of the loop. -/
def logEventAt (payload : Bytes) (offset : Nat) : Outcome (Option (LogEvent × Nat)) := do
  let eventTick := UInt32.fromLeBytes (← sliceAt payload offset (offset + 4))
  let txIndex := UInt32.fromLeBytes (← sliceAt payload (offset + 4) (offset + 8))
  let eventEpoch := UInt16.fromLeBytes (← sliceAt payload (offset + 8) (offset + 10))
  let amount := Int64.fromLeBytes (← sliceAt payload (offset + 10) (offset + 18))
  let eventType ← byteAt payload (offset + 18)
  let dataStart := offset + LOG_HEADER_SIZE
  match ← logDataSize payload offset eventType with
  | none => .ok none
  | some dataSize =>
    let dataEnd := dataStart + dataSize
    if dataEnd > payload.length then .ok none
    else do
      let data ← sliceAt payload dataStart dataEnd
      .ok (some
        ({ tick := eventTick, txIndex, epoch := eventEpoch, amount, eventType, data }, dataSize))

/-- The `while` loop, from `offset` on, with the events found so far. -/
def logEventsFrom (payload : Bytes) (offset : Nat) (events : List LogEvent) :
    Outcome (List LogEvent) :=
  if offset + LOG_HEADER_SIZE ≤ payload.length then do
    match ← logEventAt payload offset with
    | none => .ok events
    | some (event, dataSize) =>
      let dataEnd := offset + LOG_HEADER_SIZE + dataSize
      logEventsFrom payload dataEnd (events ++ [event])
  else .ok events
termination_by payload.length - offset
decreasing_by
  simp only [LOG_HEADER_SIZE] at *
  omega

def decodeLogEvents (payload : Bytes) : Outcome (List LogEvent) :=
  if payload.length < 8 then bail s!"BroadcastMessage payload too small: {payload.length} < 8"
  else logEventsFrom payload 8 []

/-! ## Oracle data, pruning and state digest -/

def decodeOracleData (c : Crates) (payload : Bytes) : Outcome OracleDataResponse :=
  if payload.length < 4 then bail s!"OracleData payload too small: {payload.length} < 4"
  else do
    let resType := UInt32.fromLeBytes (← sliceAt payload 0 4)
    let payloadHex ←
      if payload.length > 4 then do .ok (c.hex.encode (← sliceAt payload 4 payload.length))
      else .ok []
    .ok { resType, payloadHex }

def decodePruningLogResponse (payload : Bytes) : Outcome PruningLogResponse :=
  if payload.length < 8 then bail s!"PruningLogResponse payload too small: {payload.length} < 8"
  else do
    let success := Int64.fromLeBytes (← sliceAt payload 0 8)
    .ok { success }

def decodeLogStateDigest (c : Crates) (payload : Bytes) : Outcome LogStateDigest :=
  if payload.length < 32 then bail s!"LogStateDigest payload too small: {payload.length} < 32"
  else do
    let digestHex := c.hex.encode (← sliceAt payload 0 32)
    .ok { digestHex }

end Qonduit

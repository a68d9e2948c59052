import Qonduit.Core.Basic

/-!
# Qonduit — records that travel through the pipeline

The serde structs of `qonduit_core` that the decoders produce, NATS carries as JSON and
the indexer reads back, and `serde_json::Value` for the handlers that read single fields
of an untyped document.
-/

namespace Qonduit

/-- Decoded tick (`structs/tick.rs`). -/
structure TickData where
  computorIndex : UInt16
  epoch : UInt16
  tick : UInt32
  timestamp : UInt64
  timeLock : Key32
  transactionDigestsHex : Str
  contractFeesHex : Str
  signatureHex : Str
  deriving DecidableEq

/-- Decoded transaction (`structs/transaction.rs`). -/
structure Transaction where
  hash : Str
  sourceHex : Str
  sourceIdentity : Str
  destinationHex : Str
  destinationIdentity : Str
  amount : Int64
  tick : UInt32
  inputType : UInt16
  inputSize : UInt16
  inputHex : Str
  inputTypeName : String
  signatureHex : Str
  deriving DecidableEq

inductive InputType where
  | simpleTransfer
  | smartContractCall (inputType : UInt16)
  | assetIssuance
  | assetOwnershipTransfer
  | assetPossessionTransfer
  | dividendDistribution
  | contractBid
  | contractAsk
  deriving DecidableEq, Repr

def InputType.classify (inputType : UInt16) : InputType :=
  if inputType = 0 then .simpleTransfer
  else if inputType = 1 then .assetIssuance
  else if inputType = 2 then .assetOwnershipTransfer
  else if inputType = 3 then .assetPossessionTransfer
  else if inputType = 24 then .contractBid
  else if inputType = 25 then .contractAsk
  else if inputType = 26 then .dividendDistribution
  else .smartContractCall inputType

def InputType.label : InputType → String
  | .simpleTransfer => "simple_transfer"
  | .assetIssuance => "asset_issuance"
  | .assetOwnershipTransfer => "asset_ownership_transfer"
  | .assetPossessionTransfer => "asset_possession_transfer"
  | .dividendDistribution => "dividend_distribution"
  | .contractBid => "contract_bid"
  | .contractAsk => "contract_ask"
  | .smartContractCall _ => "smart_contract_call"

/-- Entity response (`structs/entity.rs`). -/
structure EntityData where
  identity : Str
  incoming : Int64
  outgoing : Int64
  numberOfIncomingTransfers : UInt32
  numberOfOutgoingTransfers : UInt32
  latestIncomingTransferTick : UInt32
  latestOutgoingTransferTick : UInt32
  deriving DecidableEq

/-- Decoded computors list (`structs/computors.rs`). -/
structure Computors where
  epoch : UInt16
  publicKeys : List Key32
  publicKeyIdentities : List Str
  deriving DecidableEq

inductive AssetType where
  | empty
  | issuance
  | ownership
  | possession
  deriving DecidableEq, Repr

/-- Decoded asset record (`structs/asset.rs`). -/
structure AssetRecord where
  assetType : AssetType
  managed : Bool
  issuingEntity : Key32
  owningEntity : Key32
  possessingEntity : Key32
  issuanceIndex : UInt32
  issuanceAmount : Int64
  numberOfUnits : Int64
  unitOfMeasurement : UInt64
  denomination : UInt32
  valuePerUnit : Int64
  name : Str
  description : Str
  url : Str
  hash : Key32
  managingContractIndex : Int32
  deriving DecidableEq

structure ContractBid where
  identity : Str
  bidAmount : Int64
  deriving DecidableEq

/-- Contract IPO bids (`structs/contract.rs`). -/
structure ContractIpo where
  contractIndex : UInt32
  bids : List ContractBid
  deriving DecidableEq

/-- Current tick info response (`structs/system_info.rs`). -/
structure CurrentTickInfo where
  epoch : UInt16
  tick : UInt32
  numberOfAlignedVotes : UInt16
  numberOfMisalignedVotes : UInt16
  initialTick : UInt32
  latestVotingTick : UInt32
  timeSinceLastVotingTick : UInt64
  deriving DecidableEq

/-- System info reply (`structs/system_info.rs`). -/
structure SystemInfoReply where
  version : Int16
  epoch : UInt16
  tick : UInt32
  initialTick : UInt32
  latestCreatedTick : UInt32
  initialMillisecond : UInt16
  initialSecond : UInt8
  initialMinute : UInt8
  initialHour : UInt8
  initialDay : UInt8
  initialMonth : UInt8
  initialYear : UInt8
  numberOfEntities : UInt32
  numberOfTransactions : UInt32
  randomMiningSeedHex : Str
  solutionThreshold : Int32
  totalSpectrumAmount : UInt64
  currentEntityBalanceDustThreshold : UInt64
  targetTickVoteSignature : UInt32
  computorPacketSignature : UInt64
  solutionAdditionalThreshold : UInt64
  deriving DecidableEq

/-- Oracle query metadata (`structs/oracle.rs`). -/
structure OracleQueryMetadata where
  queryId : Int64
  queryType : UInt8
  status : UInt8
  statusFlags : UInt16
  queryTick : UInt32
  queryingEntityHex : Str
  timeout : UInt64
  interfaceIndex : UInt32
  subscriptionId : Int32
  revealTick : UInt32
  totalCommits : UInt16
  agreeingCommits : UInt16
  deriving DecidableEq

/-- Custom mining task (`structs/mining.rs`). -/
structure CustomMiningTask where
  sourcePublicKeyHex : Str
  codeFileTrailerDigestHex : Str
  dataFileTrailerDigestHex : Str
  jobId : UInt64
  customMiningType : UInt8
  payloadHex : Str
  signatureHex : Str
  deriving DecidableEq

/-- Custom mining solution (`structs/mining.rs`). -/
structure CustomMiningSolution where
  sourcePublicKeyHex : Str
  minerPublicKeyHex : Str
  jobId : UInt64
  customMiningType : UInt8
  payloadHex : Str
  signatureHex : Str
  deriving DecidableEq

/-- Oracle data response (`structs/oracle.rs`). -/
structure OracleDataResponse where
  resType : UInt32
  payloadHex : Str
  deriving DecidableEq

/-- Pruning log response (`structs/logging.rs`). -/
structure PruningLogResponse where
  success : Int64
  deriving DecidableEq

/-- Log state digest (`structs/logging.rs`). -/
structure LogStateDigest where
  digestHex : Str
  deriving DecidableEq

/-- Log id ranges of the transactions of a tick (`structs/logging.rs`). -/
structure LogIdRangesResponse where
  tick : UInt32
  txCount : Nat
  fromLogIds : List Int64
  lengths : List Int64
  deriving DecidableEq

/-- Transaction status response (`structs/logging.rs`). -/
structure TxStatusResponse where
  currentTickOfNode : UInt32
  tick : UInt32
  txCount : UInt32
  moneyFlewHex : Str
  txDigests : List Str
  deriving DecidableEq

/-- Decoded log event (`event.rs`). -/
structure LogEvent where
  tick : UInt32
  txIndex : UInt32
  epoch : UInt16
  amount : Int64
  eventType : UInt8
  data : Bytes
  deriving DecidableEq

/-- Per-epoch statistics tracked by the indexer; the field defaults are the derived
`Default`. -/
structure EpochStats where
  epoch : UInt16 := 0
  tickCount : UInt32 := 0
  txCount : UInt64 := 0
  entityCount : UInt64 := 0
  firstTick : Option UInt32 := none
  lastTick : Option UInt32 := none
  deriving DecidableEq

/-! ## Pipeline state -/

/-- The shared counters of `pipeline.rs` that the modelled functions read or update; the
field values are those of `PipelineState::new`. -/
structure PipelineState where
  nodeTick : UInt32 := 0
  nodeEpoch : UInt16 := 0
  indexedTick : UInt32 := 0
  indexedEpoch : UInt16 := 0
  ticksIndexed : UInt64 := 0
  txsIndexed : UInt64 := 0
  entitiesIndexed : UInt64 := 0
  totalTicksIndexed : UInt64 := 0
  deriving DecidableEq

/-! ## Epoch intervals -/

/-- The first and the last tick of an epoch (`epoch_intervals.rs`). -/
structure EpochRange where
  epoch : UInt16
  firstTick : UInt32
  lastTick : UInt32
  tickCount : UInt32
  deriving DecidableEq

/-- Looks the epoch up in the cached ranges, which the caller passes. -/
def getEpochRange (ranges : List EpochRange) (epoch : UInt16) : Option EpochRange :=
  ranges.find? (fun r => r.epoch = epoch)

/-! ## Untyped JSON -/

/-- `serde_json::Number`: a `u64`, a negative `i64`, or a float given by its bits. -/
inductive Number where
  | posInt (n : UInt64)
  | negInt (n : Int64)
  | float (bits : UInt64)
  deriving DecidableEq

inductive Value where
  | null
  | bool (b : Bool)
  | number (n : Number)
  | string (s : Str)
  | array (xs : List Value)
  | object (fields : List (String × Value))

/-- `value["name"]`: the field of an object, `Null` where there is none. -/
def Value.field : Value → String → Value
  | .object fields, name => (fields.lookup name).getD .null
  | _, _ => .null

def Value.asStr : Value → Option Str
  | .string s => some s
  | _ => none

def Value.asU64 : Value → Option UInt64
  | .number (.posInt n) => some n
  | _ => none

def Value.asArray : Value → Option (List Value)
  | .array xs => some xs
  | _ => none

end Qonduit

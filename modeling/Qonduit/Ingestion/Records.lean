import Qonduit.Lib.Layout
import Qonduit.Ingestion.RecordDecoders

/-!
# Qonduit — wire records round-trip

The records a node sends, field by field in the order of their documented layouts (the fields the
decoders skip included), and the struct each decoder is to return for them.

* **`records_round_trip`** — decoding the layout of a record, whatever bytes follow it, returns
  the struct of that record; the two mining formats end with their signature, so nothing may
  follow them.
* **`sliceAt_skip`**, **`sliceAt_front`** — how a read at a fixed offset walks over the fields in
  front of it.
* **`sliceAt_of_at`** — the same for a field given by its place in the layout: an array, or a
  field behind a length that varies.
-/

namespace Qonduit

/-! ## Reading a field

A record is written as a sequence of fields. Reads of it are pushed past the fields in front of the
one they mean, and the last read then takes a whole field. -/

section Reads

variable {f w : Bytes} {a b i : Nat}

/-- A slice behind the first field is one of the rest. -/
@[simp] theorem sliceAt_skip (ha : f.length ≤ a) (hab : a ≤ b) :
    sliceAt (f ++ w) a b = sliceAt w (a - f.length) (b - f.length) := by
  have hbound : (a ≤ b ∧ b ≤ (f ++ w).length) ↔
      (a - f.length ≤ b - f.length ∧ b - f.length ≤ w.length) := by
    rw [List.length_append]
    omega
  have hdrop : (f ++ w).drop a = w.drop (a - f.length) := by
    rw [List.drop_append, List.drop_eq_nil_of_le ha, List.nil_append]
  have hwidth : b - a = b - f.length - (a - f.length) := by omega
  simp only [sliceAt, hbound, hdrop, hwidth]

/-- A slice of the first field is that field. -/
@[simp] theorem sliceAt_front (hb : b = f.length) : sliceAt (f ++ w) 0 b = .ok f := by
  subst hb
  rw [sliceAt_ok (Nat.zero_le _) (by rw [List.length_append]; omega), List.drop_zero,
    Nat.sub_zero, List.take_left]

@[simp] theorem sliceAt_skip_byte {x : UInt8} (ha : 1 ≤ a) (hab : a ≤ b) :
    sliceAt (x :: w) a b = sliceAt w (a - 1) (b - 1) :=
  sliceAt_skip (f := [x]) ha hab

/-- A byte behind the first field is one of the rest. -/
@[simp] theorem byteAt_skip (hi : f.length ≤ i) :
    byteAt (f ++ w) i = byteAt w (i - f.length) := by
  rw [byteAt, byteAt, List.getElem?_append_right hi]

@[simp] theorem byteAt_skip_byte {x : UInt8} (hi : 1 ≤ i) :
    byteAt (x :: w) i = byteAt w (i - 1) :=
  byteAt_skip (f := [x]) hi

@[simp] theorem byteAt_front {x : UInt8} : byteAt (x :: w) 0 = .ok x := rfl

theorem sliceAt_of_at (h : Layout.At w a f) (hb : b = a + f.length) : sliceAt w a b = .ok f := by
  subst hb
  rw [sliceAt_ok (Nat.le_add_right _ _) h.le_length, Nat.add_sub_cancel_left, h.slice_eq]

/-- Bytes behind a record do not make it too small. -/
theorem not_too_small {n : Nat} (h : w.length = n) (t : Bytes) : ¬(w ++ t).length < n := by
  rw [List.length_append]
  omega

end Reads

/-! ## Records without arrays

Records of fixed size: the fields are read one after the other, and what follows the record is not
looked at. -/

/-- `RespondEntity`, its `EntityRecord`. -/
structure EntityRecord where
  publicKey : Key32
  incomingAmount : Int64
  outgoingAmount : Int64
  numberOfIncomingTransfers : UInt32
  numberOfOutgoingTransfers : UInt32
  latestIncomingTransferTick : UInt32
  latestOutgoingTransferTick : UInt32

def EntityRecord.bytes (r : EntityRecord) : Bytes :=
  [r.publicKey.toList,
   r.incomingAmount.toLeBytes,
   r.outgoingAmount.toLeBytes,
   r.numberOfIncomingTransfers.toLeBytes,
   r.numberOfOutgoingTransfers.toLeBytes,
   r.latestIncomingTransferTick.toLeBytes,
   r.latestOutgoingTransferTick.toLeBytes].flatten

def EntityRecord.decoded (c : Crates) (r : EntityRecord) : EntityData where
  identity := encodeBase26 c r.publicKey
  incoming := r.incomingAmount
  outgoing := r.outgoingAmount
  numberOfIncomingTransfers := r.numberOfIncomingTransfers
  numberOfOutgoingTransfers := r.numberOfOutgoingTransfers
  latestIncomingTransferTick := r.latestIncomingTransferTick
  latestOutgoingTransferTick := r.latestOutgoingTransferTick

theorem decodeEntity_bytes (c : Crates) (r : EntityRecord) (t : Bytes) :
    decodeEntity c (r.bytes ++ t) = .ok (r.decoded c) := by
  have hlen : r.bytes.length = 64 := by simp [EntityRecord.bytes]
  rw [decodeEntity, if_neg (not_too_small hlen t)]
  simp [EntityRecord.bytes, EntityRecord.decoded, ok_bind]

/-- `RespondSystemInfo`, 128 bytes. -/
structure SystemInfoRecord where
  version : Int16
  epoch : UInt16
  tick : UInt32
  initialTick : UInt32
  latestCreatedTick : UInt32
  initialMillisecond : UInt16
  initialSecond : UInt8
  initialMinute : UInt8
  initialHour : UInt8
  initialDay : UInt8
  initialMonth : UInt8
  initialYear : UInt8
  numberOfEntities : UInt32
  numberOfTransactions : UInt32
  randomMiningSeed : Key32
  solutionThreshold : Int32
  totalSpectrumAmount : UInt64
  currentEntityBalanceDustThreshold : UInt64
  targetTickVoteSignature : UInt32
  computorPacketSignature : UInt64
  solutionAdditionalThreshold : UInt64
  reserve2 : UInt64
  reserve3 : UInt64
  reserve4 : UInt64

def SystemInfoRecord.bytes (r : SystemInfoRecord) : Bytes :=
  [r.version.toLeBytes,
   r.epoch.toLeBytes,
   r.tick.toLeBytes,
   r.initialTick.toLeBytes,
   r.latestCreatedTick.toLeBytes,
   r.initialMillisecond.toLeBytes,
   [r.initialSecond],
   [r.initialMinute],
   [r.initialHour],
   [r.initialDay],
   [r.initialMonth],
   [r.initialYear],
   r.numberOfEntities.toLeBytes,
   r.numberOfTransactions.toLeBytes,
   r.randomMiningSeed.toList,
   r.solutionThreshold.toLeBytes,
   r.totalSpectrumAmount.toLeBytes,
   r.currentEntityBalanceDustThreshold.toLeBytes,
   r.targetTickVoteSignature.toLeBytes,
   r.computorPacketSignature.toLeBytes,
   r.solutionAdditionalThreshold.toLeBytes,
   r.reserve2.toLeBytes,
   r.reserve3.toLeBytes,
   r.reserve4.toLeBytes].flatten

def SystemInfoRecord.decoded (c : Crates) (r : SystemInfoRecord) : SystemInfoReply where
  version := r.version
  epoch := r.epoch
  tick := r.tick
  initialTick := r.initialTick
  latestCreatedTick := r.latestCreatedTick
  initialMillisecond := r.initialMillisecond
  initialSecond := r.initialSecond
  initialMinute := r.initialMinute
  initialHour := r.initialHour
  initialDay := r.initialDay
  initialMonth := r.initialMonth
  initialYear := r.initialYear
  numberOfEntities := r.numberOfEntities
  numberOfTransactions := r.numberOfTransactions
  randomMiningSeedHex := c.hex.encode r.randomMiningSeed.toList
  solutionThreshold := r.solutionThreshold
  totalSpectrumAmount := r.totalSpectrumAmount
  currentEntityBalanceDustThreshold := r.currentEntityBalanceDustThreshold
  targetTickVoteSignature := r.targetTickVoteSignature
  computorPacketSignature := r.computorPacketSignature
  solutionAdditionalThreshold := r.solutionAdditionalThreshold

theorem decodeSystemInfo_bytes (c : Crates) (r : SystemInfoRecord) (t : Bytes) :
    decodeSystemInfo c (r.bytes ++ t) = .ok (r.decoded c) := by
  have hlen : r.bytes.length = 128 := by simp [SystemInfoRecord.bytes]
  rw [decodeSystemInfo, if_neg (not_too_small hlen t)]
  simp [SystemInfoRecord.bytes, SystemInfoRecord.decoded, ok_bind]

/-- `RespondCurrentTickInfo` in its 28-byte form. -/
structure CurrentTickInfoRecord where
  tickDuration : UInt16
  epoch : UInt16
  tick : UInt32
  numberOfAlignedVotes : UInt16
  numberOfMisalignedVotes : UInt16
  initialTick : UInt32
  latestVotingTick : UInt32
  timeSinceLastVotingTick : UInt64

def CurrentTickInfoRecord.bytes (r : CurrentTickInfoRecord) : Bytes :=
  [r.tickDuration.toLeBytes,
   r.epoch.toLeBytes,
   r.tick.toLeBytes,
   r.numberOfAlignedVotes.toLeBytes,
   r.numberOfMisalignedVotes.toLeBytes,
   r.initialTick.toLeBytes,
   r.latestVotingTick.toLeBytes,
   r.timeSinceLastVotingTick.toLeBytes].flatten

def CurrentTickInfoRecord.decoded (r : CurrentTickInfoRecord) : CurrentTickInfo where
  epoch := r.epoch
  tick := r.tick
  numberOfAlignedVotes := r.numberOfAlignedVotes
  numberOfMisalignedVotes := r.numberOfMisalignedVotes
  initialTick := r.initialTick
  latestVotingTick := r.latestVotingTick
  timeSinceLastVotingTick := r.timeSinceLastVotingTick

theorem decodeCurrentTickInfo_bytes (r : CurrentTickInfoRecord) (t : Bytes) :
    decodeCurrentTickInfo (r.bytes ++ t) = .ok r.decoded := by
  have hlen : r.bytes.length = 28 := by simp [CurrentTickInfoRecord.bytes]
  -- long enough for both optional fields
  have hlong : (r.bytes ++ t).length ≥ 28 := Nat.not_lt.mp (not_too_small hlen t)
  have hlong' : (r.bytes ++ t).length ≥ 20 := by omega
  rw [decodeCurrentTickInfo, if_neg (by omega)]
  simp only [if_pos hlong, if_pos hlong']
  simp [CurrentTickInfoRecord.bytes, CurrentTickInfoRecord.decoded, ok_bind]

/-- The metadata of an oracle query, 72 bytes. -/
structure OracleQueryMetadataRecord where
  queryId : Int64
  queryType : UInt8
  status : UInt8
  statusFlags : UInt16
  queryTick : UInt32
  queryingEntity : Key32
  timeout : UInt64
  interfaceIndex : UInt32
  subscriptionId : Int32
  revealTick : UInt32
  totalCommits : UInt16
  agreeingCommits : UInt16

def OracleQueryMetadataRecord.bytes (r : OracleQueryMetadataRecord) : Bytes :=
  [r.queryId.toLeBytes,
   [r.queryType],
   [r.status],
   r.statusFlags.toLeBytes,
   r.queryTick.toLeBytes,
   r.queryingEntity.toList,
   r.timeout.toLeBytes,
   r.interfaceIndex.toLeBytes,
   r.subscriptionId.toLeBytes,
   r.revealTick.toLeBytes,
   r.totalCommits.toLeBytes,
   r.agreeingCommits.toLeBytes].flatten

def OracleQueryMetadataRecord.decoded (c : Crates) (r : OracleQueryMetadataRecord) :
    OracleQueryMetadata where
  queryId := r.queryId
  queryType := r.queryType
  status := r.status
  statusFlags := r.statusFlags
  queryTick := r.queryTick
  queryingEntityHex := c.hex.encode r.queryingEntity.toList
  timeout := r.timeout
  interfaceIndex := r.interfaceIndex
  subscriptionId := r.subscriptionId
  revealTick := r.revealTick
  totalCommits := r.totalCommits
  agreeingCommits := r.agreeingCommits

/-- The metadata of an oracle query, of 72 bytes. -/
theorem decodeOracleQueryMetadata_bytes (c : Crates) (r : OracleQueryMetadataRecord) (t : Bytes) :
    decodeOracleQueryMetadata c (r.bytes ++ t) = .ok (r.decoded c) := by
  have hlen : r.bytes.length = ORACLE_QUERY_METADATA_SIZE := by
    simp [OracleQueryMetadataRecord.bytes, ORACLE_QUERY_METADATA_SIZE]
  rw [decodeOracleQueryMetadata, if_neg (not_too_small hlen t)]
  simp [OracleQueryMetadataRecord.bytes, OracleQueryMetadataRecord.decoded, ok_bind]

/-! ## Records with a field of variable length

The length is in the record itself, except in the two of custom mining, where the last field takes
what the packet has. -/

/-- A transaction: 80 bytes of header, the input, the signature. -/
structure TransactionRecord where
  source : Key32
  destination : Key32
  amount : Int64
  tick : UInt32
  inputType : UInt16
  input : Bytes
  signature : List.Vector UInt8 64
  input_size : input.length < 2 ^ 16

def TransactionRecord.inputSize (r : TransactionRecord) : UInt16 := UInt16.ofNat r.input.length

def TransactionRecord.header (r : TransactionRecord) : Bytes :=
  [r.source.toList,
   r.destination.toList,
   r.amount.toLeBytes,
   r.tick.toLeBytes,
   r.inputType.toLeBytes,
   r.inputSize.toLeBytes].flatten

def TransactionRecord.bytes (r : TransactionRecord) : Bytes :=
  [r.header, r.input, r.signature.toList].flatten

def TransactionRecord.decoded (c : Crates) (r : TransactionRecord) : Transaction where
  hash := c.hex.encode (c.sha256 (r.bytes.take (80 + r.input.length))).toList
  sourceHex := c.hex.encode r.source.toList
  sourceIdentity := encodeBase26 c r.source
  destinationHex := c.hex.encode r.destination.toList
  destinationIdentity := encodeBase26 c r.destination
  amount := r.amount
  tick := r.tick
  inputType := r.inputType
  inputSize := r.inputSize
  inputHex := c.hex.encode r.input
  inputTypeName := (InputType.classify r.inputType).label
  signatureHex := c.hex.encode r.signature.toList

/-- A field that is there is given in hex, and an absent one is empty. -/
theorem hexSliceIf_of_slice (c : Crates) {p : Prop} [Decidable p] {w f : Bytes} {a b : Nat}
    (hslice : sliceAt w a b = .ok f) (habsent : ¬p → f = []) :
    hexSliceIf c p w a b = .ok (c.hex.encode f) := by
  unfold hexSliceIf
  by_cases hp : p
  · rw [if_pos hp, hslice]
    rfl
  · rw [if_neg hp, habsent hp]
    have hnil : c.hex.encode [] = [] := List.length_eq_zero_iff.mp (c.hex.length_encode [])
    rw [hnil]

/-- The size in the header is that of the input. -/
theorem TransactionRecord.inputSize_toNat (r : TransactionRecord) :
    r.inputSize.toNat = r.input.length :=
  UInt16.toNat_ofNat_of_lt' r.input_size

theorem TransactionRecord.length_header (r : TransactionRecord) :
    r.header.length = TX_HEADER_SIZE := by
  simp [TransactionRecord.header, TX_HEADER_SIZE]

/-- In front of the input and the signature. -/
theorem TransactionRecord.length_bytes (r : TransactionRecord) :
    r.bytes.length = 80 + r.input.length + 64 := by
  simp [TransactionRecord.bytes, TransactionRecord.header]
  omega

/-- The hash covers what precedes the signature, and nothing else. -/
theorem TransactionRecord.txHashInput_bytes (r : TransactionRecord) (t : Bytes) :
    txHashInput (r.bytes ++ t) r.inputSize = r.bytes.take (80 + r.input.length) := by
  have hcovered : 80 + r.input.length ≤ r.bytes.length := by
    rw [r.length_bytes]
    omega
  have hlen : (r.bytes ++ t).length ≥ 80 + r.input.length := by
    rw [List.length_append]
    omega
  rw [txHashInput, r.inputSize_toNat, if_pos hlen, List.take_append_of_le_length hcovered]

/-- The transaction: its input by the size in the header, its signature behind the input. Bytes
behind the signature are not looked at, also not for the hash. -/
theorem decodeTransaction_bytes (c : Crates) (r : TransactionRecord) (t : Bytes) :
    decodeTransaction c (r.bytes ++ t) = .ok (r.decoded c) := by
  have hlen : (r.bytes ++ t).length = 80 + r.input.length + 64 + t.length := by
    rw [List.length_append, r.length_bytes]
  have hsize : TX_HEADER_SIZE + r.inputSize.toNat = 80 + r.input.length := by
    rw [r.inputSize_toNat, TX_HEADER_SIZE]
  -- the header
  have hsource : sliceAt (r.bytes ++ t) 0 32 = .ok r.source.toList := by
    simp [TransactionRecord.bytes, TransactionRecord.header]
  have hdestination : sliceAt (r.bytes ++ t) 32 64 = .ok r.destination.toList := by
    simp [TransactionRecord.bytes, TransactionRecord.header]
  have hamount : sliceAt (r.bytes ++ t) 64 72 = .ok r.amount.toLeBytes := by
    simp [TransactionRecord.bytes, TransactionRecord.header]
  have htick : sliceAt (r.bytes ++ t) 72 76 = .ok r.tick.toLeBytes := by
    simp [TransactionRecord.bytes, TransactionRecord.header]
  have hinputType : sliceAt (r.bytes ++ t) 76 78 = .ok r.inputType.toLeBytes := by
    simp [TransactionRecord.bytes, TransactionRecord.header]
  have hinputSize : sliceAt (r.bytes ++ t) 78 80 = .ok r.inputSize.toLeBytes := by
    simp [TransactionRecord.bytes, TransactionRecord.header]
  -- the input and the signature, which the checks find present
  have hinput : sliceAt (r.bytes ++ t) TX_HEADER_SIZE (80 + r.input.length) = .ok r.input :=
    sliceAt_of_at ((Layout.At.flatten (i := 1) rfl (by simp [r.length_header])).append t) rfl
  have hsignature : sliceAt (r.bytes ++ t) (80 + r.input.length)
      (80 + r.input.length + SIGNATURE_SIZE) = .ok r.signature.toList :=
    sliceAt_of_at
      ((Layout.At.flatten (i := 2) rfl (by simp [r.length_header, TX_HEADER_SIZE])).append t)
      (by rw [r.signature.toList_length, SIGNATURE_SIZE])
  have hinputHex := hexSliceIf_of_slice c
    (p := r.inputSize > 0 ∧ (r.bytes ++ t).length ≥ 80 + r.input.length) hinput
    (fun habsent => by
      have hzero : ¬r.inputSize > 0 := fun hpos => habsent ⟨hpos, by omega⟩
      rw [gt_iff_lt, UInt16.lt_iff_toNat_lt, r.inputSize_toNat] at hzero
      exact List.length_eq_zero_iff.mp (Nat.eq_zero_of_not_pos hzero))
  have hsignatureHex := hexSliceIf_of_slice c
    (p := (r.bytes ++ t).length ≥ 80 + r.input.length + SIGNATURE_SIZE) hsignature
    (fun habsent => absurd (by unfold SIGNATURE_SIZE; omega) habsent)
  rw [decodeTransaction, if_neg (by unfold TX_HEADER_SIZE; omega)]
  simp only [hsource, hdestination, hamount, htick, hinputType, hinputSize, ok_bind,
    copyFromSlice_toList, UInt16.fromLeBytes_toLeBytes, UInt32.fromLeBytes_toLeBytes,
    Int64.fromLeBytes_toLeBytes, hsize, hinputHex, hsignatureHex, computeTxHash,
    r.txHashInput_bytes t]
  rw [if_pos (by omega)]
  rfl

/-- `BroadcastCustomMiningTask`: a task of any length in front of the dispatcher's signature. -/
structure CustomMiningTaskRecord where
  sourcePublicKey : Key32
  zero : Key32
  gammingNonce : Key32
  codeFileTrailerDigest : Key32
  dataFileTrailerDigest : Key32
  jobId : UInt64
  customMiningType : UInt8
  payload : Bytes
  signature : List.Vector UInt8 64

def CustomMiningTaskRecord.bytes (r : CustomMiningTaskRecord) : Bytes :=
  [r.sourcePublicKey.toList,
   r.zero.toList,
   r.gammingNonce.toList,
   r.codeFileTrailerDigest.toList,
   r.dataFileTrailerDigest.toList,
   r.jobId.toLeBytes,
   [r.customMiningType],
   r.payload,
   r.signature.toList].flatten

def CustomMiningTaskRecord.decoded (c : Crates) (r : CustomMiningTaskRecord) :
    CustomMiningTask where
  sourcePublicKeyHex := c.hex.encode r.sourcePublicKey.toList
  codeFileTrailerDigestHex := c.hex.encode r.codeFileTrailerDigest.toList
  dataFileTrailerDigestHex := c.hex.encode r.dataFileTrailerDigest.toList
  jobId := r.jobId
  customMiningType := r.customMiningType
  payloadHex := c.hex.encode r.payload
  signatureHex := c.hex.encode r.signature.toList

/-- The mining task, whose last field takes the rest of the packet. -/
theorem decodeCustomMiningTask_bytes (c : Crates) (r : CustomMiningTaskRecord) :
    decodeCustomMiningTask c r.bytes = .ok (r.decoded c) := by
  have hlen : r.bytes.length = 169 + r.payload.length + 64 := by
    simp [CustomMiningTaskRecord.bytes]
    omega
  have hpayload : sliceAt r.bytes 169 (169 + r.payload.length) = .ok r.payload :=
    sliceAt_of_at (Layout.At.flatten (i := 7) rfl (by simp)) rfl
  have hsignature : sliceAt r.bytes (169 + r.payload.length) (169 + r.payload.length + 64)
      = .ok r.signature.toList :=
    sliceAt_of_at (Layout.At.flatten (i := 8) rfl (by simp; omega))
      (by rw [r.signature.toList_length])
  rw [decodeCustomMiningTask, if_neg (by omega), hlen, Nat.add_sub_cancel]
  simp only [hpayload, hsignature]
  simp [CustomMiningTaskRecord.bytes, CustomMiningTaskRecord.decoded, ok_bind]

/-- `BroadcastCustomMiningSolution`: a solution of any length in front of the sender's
signature. -/
structure CustomMiningSolutionRecord where
  sourcePublicKey : Key32
  zero : Key32
  gammingNonce : Key32
  minerPublicKey : Key32
  jobId : UInt64
  customMiningType : UInt8
  payload : Bytes
  signature : List.Vector UInt8 64

def CustomMiningSolutionRecord.bytes (r : CustomMiningSolutionRecord) : Bytes :=
  [r.sourcePublicKey.toList,
   r.zero.toList,
   r.gammingNonce.toList,
   r.minerPublicKey.toList,
   r.jobId.toLeBytes,
   [r.customMiningType],
   r.payload,
   r.signature.toList].flatten

def CustomMiningSolutionRecord.decoded (c : Crates) (r : CustomMiningSolutionRecord) :
    CustomMiningSolution where
  sourcePublicKeyHex := c.hex.encode r.sourcePublicKey.toList
  minerPublicKeyHex := c.hex.encode r.minerPublicKey.toList
  jobId := r.jobId
  customMiningType := r.customMiningType
  payloadHex := c.hex.encode r.payload
  signatureHex := c.hex.encode r.signature.toList

/-- The mining solution, whose last field takes the rest of the packet. -/
theorem decodeCustomMiningSolution_bytes (c : Crates) (r : CustomMiningSolutionRecord) :
    decodeCustomMiningSolution c r.bytes = .ok (r.decoded c) := by
  have hlen : r.bytes.length = 137 + r.payload.length + 64 := by
    simp [CustomMiningSolutionRecord.bytes]
    omega
  have hpayload : sliceAt r.bytes 137 (137 + r.payload.length) = .ok r.payload :=
    sliceAt_of_at (Layout.At.flatten (i := 6) rfl (by simp)) rfl
  have hsignature : sliceAt r.bytes (137 + r.payload.length) (137 + r.payload.length + 64)
      = .ok r.signature.toList :=
    sliceAt_of_at (Layout.At.flatten (i := 7) rfl (by simp; omega))
      (by rw [r.signature.toList_length])
  rw [decodeCustomMiningSolution, if_neg (by omega), hlen, Nat.add_sub_cancel]
  simp only [hpayload, hsignature]
  simp [CustomMiningSolutionRecord.bytes, CustomMiningSolutionRecord.decoded, ok_bind]

/-! ## Records with arrays

An array is read by a loop that computes the offset of each item. Where the array stands in the
payload, every turn of the loop reads its item. -/

section Arrays

variable {X : Type} {size : Nat} {enc : X → Bytes} {xs : List X} {w : Bytes} {off : Nat}

/-- A read of one item of an array is in range and returns it. -/
theorem sliceAt_item (hsize : ∀ x, (enc x).length = size)
    (hat : Layout.At w off (xs.flatMap enc)) {i : Nat} {x : X} (hi : xs[i]? = some x) :
    sliceAt w (off + i * size) (off + i * size + size) = .ok (enc x) ∧
      off + i * size + size ≤ w.length := by
  have hitem := hat.trans (Layout.At.item (fun y _ => hsize y) hi)
  have hend := hitem.le_length
  rw [hsize x] at hend
  exact ⟨sliceAt_of_at hitem (by rw [hsize x]), hend⟩

/-- An array that stands in `w` makes `w` as long as its items need. -/
theorem items_le_length (hsize : ∀ x, (enc x).length = size)
    (hat : Layout.At w off (xs.flatMap enc)) : off + xs.length * size ≤ w.length := by
  have hle := hat.le_length
  rw [Layout.length_items (fun x _ => hsize x)] at hle
  exact hle

end Arrays

theorem length_key : ∀ k : Key32, k.toList.length = PUBLIC_KEY_SIZE := fun k => k.toList_length

/-- `BroadcastComputors`: the 676 keys of an epoch. -/
structure ComputorsRecord where
  epoch : UInt16
  publicKeys : List.Vector Key32 676
  signature : List.Vector UInt8 64

def ComputorsRecord.bytes (r : ComputorsRecord) : Bytes :=
  [r.epoch.toLeBytes,
   r.publicKeys.toList.flatMap List.Vector.toList,
   r.signature.toList].flatten

def ComputorsRecord.decoded (c : Crates) (r : ComputorsRecord) : Computors where
  epoch := r.epoch
  publicKeys := r.publicKeys.toList
  publicKeyIdentities := r.publicKeys.toList.map (encodeBase26 c)

/-- The list of computors, read key by key. -/
theorem decodeComputors_bytes (c : Crates) (r : ComputorsRecord) (t : Bytes) :
    decodeComputors c (r.bytes ++ t) = .ok (r.decoded c) := by
  have hkeys : Layout.At (r.bytes ++ t) 2 (r.publicKeys.toList.flatMap List.Vector.toList) :=
    (Layout.At.flatten (i := 1) rfl (by simp)).append t
  have hlen : 21634 ≤ (r.bytes ++ t).length := by
    have hle := items_le_length length_key hkeys
    rw [r.publicKeys.toList_length] at hle
    exact hle
  have hepoch : sliceAt (r.bytes ++ t) 0 2 = .ok r.epoch.toLeBytes := by
    simp [ComputorsRecord.bytes]
  have hloop : pushEach NUMBER_OF_COMPUTORS (computorKey (r.bytes ++ t))
      = .ok (r.publicKeys.toList.map id) := by
    refine pushEach_items r.publicKeys.toList_length (fun i key hi => ?_)
    obtain ⟨hread, hin⟩ := sliceAt_item length_key hkeys hi
    simp only [computorKey, if_pos hin, hread, ok_bind, copyFromSlice_toList, id]
  rw [decodeComputors, if_neg (Nat.not_lt.mpr hlen)]
  simp only [hepoch, ok_bind, UInt16.fromLeBytes_toLeBytes, hloop, List.map_id]
  rfl

/-- `RespondContractIPO`: bidder `i` offers price `i`. -/
structure ContractIpoRecord where
  contractIndex : UInt32
  tick : UInt32
  publicKeys : List.Vector Key32 676
  prices : List.Vector Int64 676

def ContractIpoRecord.bytes (r : ContractIpoRecord) : Bytes :=
  [r.contractIndex.toLeBytes,
   r.tick.toLeBytes,
   r.publicKeys.toList.flatMap List.Vector.toList,
   r.prices.toList.flatMap Int64.toLeBytes].flatten

def ContractIpoRecord.decoded (c : Crates) (r : ContractIpoRecord) : ContractIpo where
  contractIndex := r.contractIndex
  bids := (r.publicKeys.toList.zip r.prices.toList).map
    (fun (key, price) => { identity := encodeBase26 c key, bidAmount := price })

/-- The contract IPO has two arrays, of keys and of prices, and its loop reads an item of each. Both
stand at fixed offsets, as the number of computors is a constant. -/
theorem decodeContractIpo_bytes (c : Crates) (r : ContractIpoRecord) (t : Bytes) :
    decodeContractIpo c (r.bytes ++ t) = .ok (r.decoded c) := by
  have hkeys : Layout.At (r.bytes ++ t) 8 (r.publicKeys.toList.flatMap List.Vector.toList) :=
    (Layout.At.flatten (i := 2) rfl (by simp)).append t
  have hprices : Layout.At (r.bytes ++ t) (8 + NUMBER_OF_COMPUTORS * PUBLIC_KEY_SIZE)
      (r.prices.toList.flatMap Int64.toLeBytes) := by
    refine (Layout.At.flatten (i := 3) rfl ?_).append t
    show 4 + (4 + ((r.publicKeys.toList.flatMap List.Vector.toList).length + 0)) = _
    rw [Layout.length_items (fun k _ => length_key k), r.publicKeys.toList_length]
    rfl
  have hlen : 27048 ≤ (r.bytes ++ t).length := by
    have hle := items_le_length Int64.length_toLeBytes hprices
    rw [r.prices.toList_length] at hle
    exact hle
  have hindex : sliceAt (r.bytes ++ t) 0 4 = .ok r.contractIndex.toLeBytes := by
    simp [ContractIpoRecord.bytes]
  have hbids : (r.publicKeys.toList.zip r.prices.toList).length = NUMBER_OF_COMPUTORS := by
    rw [List.length_zip, r.publicKeys.toList_length, r.prices.toList_length]
    rfl
  -- turn by turn, the two items with the same number
  have hloop : pushEach NUMBER_OF_COMPUTORS (contractBid c (r.bytes ++ t))
      = .ok (r.decoded c).bids := by
    refine pushEach_items hbids (fun i bid hi => ?_)
    obtain ⟨hkey, hprice⟩ := List.getElem?_zip_eq_some.mp hi
    have hkeyRead := (sliceAt_item length_key hkeys hkey).1
    have hpriceRead := (sliceAt_item Int64.length_toLeBytes hprices hprice).1
    simp only [contractBid, hkeyRead, hpriceRead, ok_bind, copyFromSlice_toList,
      Int64.fromLeBytes_toLeBytes]
  rw [decodeContractIpo, if_neg (Nat.not_lt.mpr hlen)]
  simp only [hindex, ok_bind, UInt32.fromLeBytes_toLeBytes, hloop]
  rfl

/-- `RespondTxStatus`: the status of the transactions of a tick. -/
structure TxStatusRecord where
  currentTickOfNode : UInt32
  tick : UInt32
  moneyFlew : List.Vector UInt8 512
  txDigests : List Key32
  tx_count : txDigests.length < 2 ^ 32

def TxStatusRecord.txCount (r : TxStatusRecord) : UInt32 := UInt32.ofNat r.txDigests.length

def TxStatusRecord.bytes (r : TxStatusRecord) : Bytes :=
  [r.currentTickOfNode.toLeBytes,
   r.tick.toLeBytes,
   r.txCount.toLeBytes,
   r.moneyFlew.toList,
   r.txDigests.flatMap List.Vector.toList].flatten

def TxStatusRecord.decoded (c : Crates) (r : TxStatusRecord) : TxStatusResponse where
  currentTickOfNode := r.currentTickOfNode
  tick := r.tick
  txCount := r.txCount
  moneyFlewHex := c.hex.encode r.moneyFlew.toList
  txDigests := r.txDigests.map (fun digest => c.hex.encode digest.toList)

/-- The transaction status has as many digests as it says. The number of them is read first, and the
loop then reads so many items from offset 524 on. -/
theorem decodeTxStatus_bytes (c : Crates) (r : TxStatusRecord) (requested : UInt32) (t : Bytes) :
    decodeTxStatus c (r.bytes ++ t) requested = .ok (r.decoded c) := by
  have hcount : r.txCount.toNat = r.txDigests.length := UInt32.toNat_ofNat_of_lt' r.tx_count
  have hdigests : Layout.At (r.bytes ++ t) 524 (r.txDigests.flatMap List.Vector.toList) :=
    (Layout.At.flatten (i := 4) rfl (by simp)).append t
  have hlen : 524 + r.txDigests.length * 32 ≤ (r.bytes ++ t).length :=
    items_le_length length_key hdigests
  -- turn by turn
  have hloop : pushEach r.txDigests.length (txDigest c (r.bytes ++ t))
      = .ok (r.decoded c).txDigests := by
    refine pushEach_items rfl (fun i digest hi => ?_)
    have hread : sliceAt (r.bytes ++ t) (524 + i * 32) (524 + i * 32 + 32) = .ok digest.toList :=
      (sliceAt_item length_key hdigests hi).1
    simp only [txDigest, hread, ok_bind]
  have hnode : sliceAt (r.bytes ++ t) 0 4 = .ok r.currentTickOfNode.toLeBytes := by
    simp [TxStatusRecord.bytes]
  have htick : sliceAt (r.bytes ++ t) 4 8 = .ok r.tick.toLeBytes := by
    simp [TxStatusRecord.bytes]
  have htxCount : sliceAt (r.bytes ++ t) 8 12 = .ok r.txCount.toLeBytes := by
    simp [TxStatusRecord.bytes]
  have hmoneyFlew : sliceAt (r.bytes ++ t) 12 524 = .ok r.moneyFlew.toList := by
    simp [TxStatusRecord.bytes]
  rw [decodeTxStatus, if_neg (by omega)]
  simp only [hnode, htick, htxCount, hmoneyFlew, ok_bind, UInt32.fromLeBytes_toLeBytes, hcount,
    if_pos hlen, hloop]
  rfl

/-- `RespondAllLogIdRangesFromTick`: two arrays, one entry per transaction slot each. -/
structure LogIdRangesRecord where
  fromLogId : List.Vector Int64 4102
  length : List.Vector Int64 4102

def LogIdRangesRecord.bytes (r : LogIdRangesRecord) : Bytes :=
  [r.fromLogId.toList.flatMap Int64.toLeBytes,
   r.length.toList.flatMap Int64.toLeBytes].flatten

/-- The tick is that of the request. -/
def LogIdRangesRecord.decoded (r : LogIdRangesRecord) (tick : UInt32) : LogIdRangesResponse where
  tick := tick
  txCount := 4102
  fromLogIds := r.fromLogId.toList
  lengths := r.length.toList

/-- One of the two arrays of log id ranges. -/
theorem pushEach_logI64 {w : Bytes} {off : Nat} {xs : List.Vector Int64 4102}
    (hat : Layout.At w off (xs.toList.flatMap Int64.toLeBytes)) :
    pushEach LOG_TX_PER_TICK (logI64 w off) = .ok xs.toList := by
  have hloop : pushEach LOG_TX_PER_TICK (logI64 w off) = .ok (xs.toList.map id) := by
    refine pushEach_items xs.toList_length (fun i x hi => ?_)
    have hread := (sliceAt_item Int64.length_toLeBytes hat hi).1
    simp only [logI64, hread, ok_bind, Int64.fromLeBytes_toLeBytes, id]
  rw [hloop, List.map_id]

/-- The log id ranges of a tick. -/
theorem decodeAllLogIdRanges_bytes (r : LogIdRangesRecord) (tick : UInt32) (t : Bytes) :
    decodeAllLogIdRanges (r.bytes ++ t) tick = .ok (r.decoded tick) := by
  have hfrom : Layout.At (r.bytes ++ t) 0 (r.fromLogId.toList.flatMap Int64.toLeBytes) :=
    (Layout.At.flatten (i := 0) rfl rfl).append t
  have hlength : Layout.At (r.bytes ++ t) (LOG_TX_PER_TICK * 8)
      (r.length.toList.flatMap Int64.toLeBytes) := by
    refine (Layout.At.flatten (i := 1) rfl ?_).append t
    show (r.fromLogId.toList.flatMap Int64.toLeBytes).length + 0 = _
    rw [Layout.length_items (fun x _ => x.length_toLeBytes), r.fromLogId.toList_length]
    rfl
  have hlen : LOG_TX_PER_TICK * 8 * 2 ≤ (r.bytes ++ t).length := by
    have hle := items_le_length Int64.length_toLeBytes hlength
    rw [r.length.toList_length] at hle
    exact hle
  rw [decodeAllLogIdRanges, if_neg (Nat.not_lt.mpr hlen)]
  simp only [pushEach_logI64 hfrom, pushEach_logI64 hlength, ok_bind]
  rfl

/-! ## All formats

The records above together. Two of them take the rest of the packet as a field, so nothing may
follow those. -/

/-- **Every record comes back from its layout**, whatever follows it on the wire. The two records of
custom mining take all that follows for their last field, so for them nothing does. -/
theorem records_round_trip (c : Crates) (t : Bytes) :
    (∀ r : TransactionRecord, decodeTransaction c (r.bytes ++ t) = .ok (r.decoded c)) ∧
    (∀ r : ComputorsRecord, decodeComputors c (r.bytes ++ t) = .ok (r.decoded c)) ∧
    (∀ r : ContractIpoRecord, decodeContractIpo c (r.bytes ++ t) = .ok (r.decoded c)) ∧
    (∀ r : EntityRecord, decodeEntity c (r.bytes ++ t) = .ok (r.decoded c)) ∧
    (∀ r : CurrentTickInfoRecord, decodeCurrentTickInfo (r.bytes ++ t) = .ok r.decoded) ∧
    (∀ r : SystemInfoRecord, decodeSystemInfo c (r.bytes ++ t) = .ok (r.decoded c)) ∧
    (∀ r : OracleQueryMetadataRecord,
      decodeOracleQueryMetadata c (r.bytes ++ t) = .ok (r.decoded c)) ∧
    (∀ (r : LogIdRangesRecord) (tick : UInt32),
      decodeAllLogIdRanges (r.bytes ++ t) tick = .ok (r.decoded tick)) ∧
    (∀ (r : TxStatusRecord) (tick : UInt32),
      decodeTxStatus c (r.bytes ++ t) tick = .ok (r.decoded c)) ∧
    (∀ r : CustomMiningTaskRecord, decodeCustomMiningTask c r.bytes = .ok (r.decoded c)) ∧
    (∀ r : CustomMiningSolutionRecord,
      decodeCustomMiningSolution c r.bytes = .ok (r.decoded c)) :=
  ⟨fun r => decodeTransaction_bytes c r t,
   fun r => decodeComputors_bytes c r t,
   fun r => decodeContractIpo_bytes c r t,
   fun r => decodeEntity_bytes c r t,
   fun r => decodeCurrentTickInfo_bytes r t,
   fun r => decodeSystemInfo_bytes c r t,
   fun r => decodeOracleQueryMetadata_bytes c r t,
   fun r tick => decodeAllLogIdRanges_bytes r tick t,
   fun r tick => decodeTxStatus_bytes c r tick t,
   decodeCustomMiningTask_bytes c,
   decodeCustomMiningSolution_bytes c⟩

end Qonduit

import Qonduit.Core.Crates

/-!
# Qonduit — JSON documents

The compact JSON `serde_json::to_vec` writes for the records of concrete runs (their strings
need no escapes), a reader for the statistics record, and an instance of `Crates` that answers
as the real crates do on finitely many listed documents.

* **`EpochStats.ofJson_json`** — the reader undoes the writer on every statistics record.
-/

namespace Qonduit

/-! ## Writing

The compact form `serde_json` writes: no blanks, the fields of a struct in the order of their
declaration. Strings are written as they are, because none of the documents here has a character to
escape. -/

def ascii (s : String) : Str := s.toList.map (fun ch => UInt8.ofNat ch.toNat)

def jsonNat (n : Nat) : Bytes := (Nat.toDigits 10 n).map (fun ch => UInt8.ofNat ch.toNat)

def jsonInt (n : Int) : Bytes := if n < 0 then 45 :: jsonNat n.natAbs else jsonNat n.natAbs

def jsonString (s : Str) : Bytes := 34 :: s ++ [34]

def jsonArray (xs : List Bytes) : Bytes := 91 :: [44].intercalate xs ++ [93]

def jsonKey (name : String) : Bytes := jsonString (ascii name) ++ [58]

def jsonObject (fields : List (String × Bytes)) : Bytes :=
  123 :: [44].intercalate (fields.map (fun f => jsonKey f.1 ++ f.2)) ++ [125]

def jsonNull : Bytes := [110, 117, 108, 108]

def jsonOption {α : Type} (f : α → Bytes) : Option α → Bytes
  | some a => f a
  | none => jsonNull

def Transaction.json (tx : Transaction) : Bytes :=
  jsonObject [("hash", jsonString tx.hash), ("source_hex", jsonString tx.sourceHex),
    ("source_identity", jsonString tx.sourceIdentity),
    ("destination_hex", jsonString tx.destinationHex),
    ("destination_identity", jsonString tx.destinationIdentity),
    ("amount", jsonInt tx.amount.toInt), ("tick", jsonNat tx.tick.toNat),
    ("input_type", jsonNat tx.inputType.toNat), ("input_size", jsonNat tx.inputSize.toNat),
    ("input_hex", jsonString tx.inputHex),
    ("input_type_name", jsonString (ascii tx.inputTypeName)),
    ("signature_hex", jsonString tx.signatureHex)]

def Transaction.document (tx : Transaction) : Value :=
  .object [("hash", .string tx.hash), ("source_hex", .string tx.sourceHex),
    ("source_identity", .string tx.sourceIdentity),
    ("destination_hex", .string tx.destinationHex),
    ("destination_identity", .string tx.destinationIdentity),
    ("amount", .number (if tx.amount < 0 then .negInt tx.amount else .posInt tx.amount.toUInt64)),
    ("tick", .number (.posInt tx.tick.toUInt64)),
    ("input_type", .number (.posInt tx.inputType.toUInt64)),
    ("input_size", .number (.posInt tx.inputSize.toUInt64)),
    ("input_hex", .string tx.inputHex),
    ("input_type_name", .string (ascii tx.inputTypeName)),
    ("signature_hex", .string tx.signatureHex)]

def jsonBool (b : Bool) : Bytes := ascii (if b then "true" else "false")

/-- A `[u8; 32]`. -/
def jsonBytes (key : Key32) : Bytes := jsonArray (key.toList.map (fun b => jsonNat b.toNat))

def Value.bytes (key : Key32) : Value :=
  .array (key.toList.map (fun b => .number (.posInt b.toUInt64)))

def Value.int (n : Int64) : Value := .number (if n < 0 then .negInt n else .posInt n.toUInt64)

def AssetType.name : AssetType → String
  | .empty => "Empty"
  | .issuance => "Issuance"
  | .ownership => "Ownership"
  | .possession => "Possession"

def AssetRecord.json (asset : AssetRecord) : Bytes :=
  jsonObject [("asset_type", jsonString (ascii asset.assetType.name)),
    ("managed", jsonBool asset.managed), ("issuing_entity", jsonBytes asset.issuingEntity),
    ("owning_entity", jsonBytes asset.owningEntity),
    ("possessing_entity", jsonBytes asset.possessingEntity),
    ("issuance_index", jsonNat asset.issuanceIndex.toNat),
    ("issuance_amount", jsonInt asset.issuanceAmount.toInt),
    ("number_of_units", jsonInt asset.numberOfUnits.toInt),
    ("unit_of_measurement", jsonNat asset.unitOfMeasurement.toNat),
    ("denomination", jsonNat asset.denomination.toNat),
    ("value_per_unit", jsonInt asset.valuePerUnit.toInt), ("name", jsonString asset.name),
    ("description", jsonString asset.description), ("url", jsonString asset.url),
    ("hash", jsonBytes asset.hash),
    ("managing_contract_index", jsonInt asset.managingContractIndex.toInt)]

def AssetRecord.document (asset : AssetRecord) : Value :=
  .object [("asset_type", .string (ascii asset.assetType.name)), ("managed", .bool asset.managed),
    ("issuing_entity", .bytes asset.issuingEntity), ("owning_entity", .bytes asset.owningEntity),
    ("possessing_entity", .bytes asset.possessingEntity),
    ("issuance_index", .number (.posInt asset.issuanceIndex.toUInt64)),
    ("issuance_amount", .int asset.issuanceAmount),
    ("number_of_units", .int asset.numberOfUnits),
    ("unit_of_measurement", .number (.posInt asset.unitOfMeasurement)),
    ("denomination", .number (.posInt asset.denomination.toUInt64)),
    ("value_per_unit", .int asset.valuePerUnit), ("name", .string asset.name),
    ("description", .string asset.description), ("url", .string asset.url),
    ("hash", .bytes asset.hash),
    ("managing_contract_index", .int asset.managingContractIndex.toInt64)]

/-- A field with `skip_serializing_if = "String::is_empty"`. -/
def jsonSkipEmpty (name : String) (s : Str) : List (String × Bytes) :=
  if s.isEmpty then [] else [(name, jsonString s)]

def TickData.json (tick : TickData) : Bytes :=
  jsonObject ([("computor_index", jsonNat tick.computorIndex.toNat),
    ("epoch", jsonNat tick.epoch.toNat), ("tick", jsonNat tick.tick.toNat),
    ("timestamp", jsonNat tick.timestamp.toNat),
    ("time_lock", jsonArray (tick.timeLock.toList.map (fun b => jsonNat b.toNat)))]
    ++ jsonSkipEmpty "transaction_digests_hex" tick.transactionDigestsHex
    ++ jsonSkipEmpty "contract_fees_hex" tick.contractFeesHex
    ++ jsonSkipEmpty "signature_hex" tick.signatureHex)

def TickData.document (tick : TickData) : Value :=
  .object ([("computor_index", .number (.posInt tick.computorIndex.toUInt64)),
    ("epoch", .number (.posInt tick.epoch.toUInt64)),
    ("tick", .number (.posInt tick.tick.toUInt64)),
    ("timestamp", .number (.posInt tick.timestamp)), ("time_lock", .bytes tick.timeLock)]
    ++ [("transaction_digests_hex", tick.transactionDigestsHex),
        ("contract_fees_hex", tick.contractFeesHex),
        ("signature_hex", tick.signatureHex)].filterMap
      (fun f => if f.2.isEmpty then none else some (f.1, .string f.2)))

def EpochStats.json (stats : EpochStats) : Bytes :=
  jsonObject [("epoch", jsonNat stats.epoch.toNat), ("tick_count", jsonNat stats.tickCount.toNat),
    ("tx_count", jsonNat stats.txCount.toNat), ("entity_count", jsonNat stats.entityCount.toNat),
    ("first_tick", jsonOption (fun t => jsonNat t.toNat) stats.firstTick),
    ("last_tick", jsonOption (fun t => jsonNat t.toNat) stats.lastTick)]

/-! ## Reading statistics

The statistics record is the one document that is read, changed and written again, so its reader is
written out and proved to undo the writer. A reader takes a beginning of the bytes and returns what
is left. -/

def readLit (lit bs : Bytes) : Option Bytes :=
  if bs.take lit.length = lit then some (bs.drop lit.length) else none

def isDigit (b : UInt8) : Bool := 48 ≤ b ∧ b ≤ 57

def readNat (bs : Bytes) : Option (Nat × Bytes) :=
  if bs.takeWhile isDigit = [] then none
  else some (Nat.ofDigitChars 10 ((bs.takeWhile isDigit).map (fun b => Char.ofNat b.toNat)) 0,
    bs.dropWhile isDigit)

def readUInt (width : Nat) (bs : Bytes) : Option (Nat × Bytes) := do
  let (n, rest) ← readNat bs
  if n < 2 ^ width then some (n, rest) else none

def readTick (bs : Bytes) : Option (Option UInt32 × Bytes) :=
  match readLit jsonNull bs with
  | some rest => some (none, rest)
  | none => do
    let (n, rest) ← readUInt 32 bs
    some (some (UInt32.ofNat n), rest)

def EpochStats.ofJson (bs : Bytes) : Option EpochStats := do
  let bs ← readLit (123 :: jsonKey "epoch") bs
  let (epoch, bs) ← readUInt 16 bs
  let bs ← readLit (44 :: jsonKey "tick_count") bs
  let (tickCount, bs) ← readUInt 32 bs
  let bs ← readLit (44 :: jsonKey "tx_count") bs
  let (txCount, bs) ← readUInt 64 bs
  let bs ← readLit (44 :: jsonKey "entity_count") bs
  let (entityCount, bs) ← readUInt 64 bs
  let bs ← readLit (44 :: jsonKey "first_tick") bs
  let (firstTick, bs) ← readTick bs
  let bs ← readLit (44 :: jsonKey "last_tick") bs
  let (lastTick, bs) ← readTick bs
  let bs ← readLit [125] bs
  if bs = [] then
    some ⟨UInt16.ofNat epoch, UInt32.ofNat tickCount, UInt64.ofNat txCount,
      UInt64.ofNat entityCount, firstTick, lastTick⟩
  else none

theorem readLit_append (lit rest : Bytes) : readLit lit (lit ++ rest) = some rest := by
  simp [readLit]

/-- The text does not begin with a digit. -/
def NoDigit (rest : Bytes) : Prop := ∀ b, rest.head? = some b → isDigit b = false

/-- A digit is a byte, and the conversion between characters and bytes keeps it. -/
theorem toNat_of_isDigit {ch : Char} (h : ch.isDigit) :
    48 ≤ ch.toNat ∧ ch.toNat ≤ 57 ∧ (UInt8.ofNat ch.toNat).toNat = ch.toNat := by
  obtain ⟨hlow, hhigh⟩ := Char.isDigit_iff_toNat.mp h
  have hlow : 48 ≤ ch.toNat := hlow
  have hhigh : ch.toNat ≤ 57 := hhigh
  exact ⟨hlow, hhigh, UInt8.toNat_ofNat_of_lt' (Nat.lt_of_le_of_lt hhigh (by decide))⟩

theorem isDigit_toDigits {n : Nat} {ch : Char} (h : ch ∈ Nat.toDigits 10 n) : ch.isDigit :=
  Nat.isDigit_of_mem_toDigits (by decide) (by decide) h

/-- A number is written in digits only. -/
theorem isDigit_of_mem_jsonNat {n : Nat} {b : UInt8} (h : b ∈ jsonNat n) : isDigit b = true := by
  obtain ⟨ch, hch, rfl⟩ := List.mem_map.mp h
  obtain ⟨hlow, hhigh, hval⟩ := toNat_of_isDigit (isDigit_toDigits hch)
  simp only [isDigit, UInt8.le_iff_toNat_le, hval, decide_eq_true_eq]
  exact ⟨hlow, hhigh⟩

/-- Its bytes are the characters of its decimal digits. -/
theorem map_ofNat_jsonNat (n : Nat) :
    (jsonNat n).map (fun b => Char.ofNat b.toNat) = Nat.toDigits 10 n := by
  rw [jsonNat, List.map_map]
  refine (List.map_congr_left (fun ch hch => ?_)).trans (List.map_id _)
  have hval := (toNat_of_isDigit (isDigit_toDigits hch)).2.2
  simp only [Function.comp_apply, hval, Char.ofNat_toNat, id]

theorem jsonNat_ne_nil (n : Nat) : jsonNat n ≠ [] := by
  simp [jsonNat, Nat.toDigits_ne_nil]

/-- Where no digit follows, the number ends. -/
theorem dropWhile_of_noDigit {rest : Bytes} (h : NoDigit rest) :
    rest.takeWhile isDigit = [] ∧ rest.dropWhile isDigit = rest := by
  cases rest with
  | nil => exact ⟨rfl, rfl⟩
  | cons b rest =>
    have hb := h b rfl
    simp [hb]

/-- A number is read off in front of anything that does not begin with a digit. -/
theorem readNat_jsonNat (n : Nat) {rest : Bytes} (hrest : NoDigit rest) :
    readNat (jsonNat n ++ rest) = some (n, rest) := by
  obtain ⟨htake, hdrop⟩ := dropWhile_of_noDigit hrest
  have hall : ∀ b ∈ jsonNat n, isDigit b = true := fun b hb => isDigit_of_mem_jsonNat hb
  rw [readNat, List.takeWhile_append_of_pos hall, List.dropWhile_append_of_pos hall, htake, hdrop,
    List.append_nil, if_neg (jsonNat_ne_nil n), map_ofNat_jsonNat, Nat.ofDigitChars_ten_toDigits]

/-- So is one of a fixed width, if it fits. -/
theorem readUInt_jsonNat {width n : Nat} (hn : n < 2 ^ width) {rest : Bytes}
    (hrest : NoDigit rest) : readUInt width (jsonNat n ++ rest) = some (n, rest) := by
  simp [readUInt, readNat_jsonNat n hrest, hn]

/-- An optional tick is read off as `null` or as its number, which the first byte tells apart. -/
theorem readTick_json (t : Option UInt32) {rest : Bytes} (hrest : NoDigit rest) :
    readTick (jsonOption (fun t => jsonNat t.toNat) t ++ rest) = some (t, rest) := by
  cases t with
  | none => simp [readTick, jsonOption, readLit_append]
  | some t =>
    -- a number does not begin with the `n` of `null`
    have hlit : readLit jsonNull (jsonNat t.toNat ++ rest) = none := by
      cases hjson : jsonNat t.toNat with
      | nil => exact absurd hjson (jsonNat_ne_nil _)
      | cons b bs =>
        have hb : isDigit b = true := isDigit_of_mem_jsonNat (n := t.toNat) (by rw [hjson]; simp)
        have hne : b ≠ 110 := by
          rintro rfl
          cases hb
        simp [readLit, jsonNull, hne]
    have hread := readUInt_jsonNat (n := t.toNat) t.toNat_lt hrest
    simp [readTick, jsonOption, hlit, hread]

theorem noDigit_cons {b : UInt8} (hb : isDigit b = false) (rest : Bytes) : NoDigit (b :: rest) := by
  rintro _ ⟨⟩
  exact hb

/-- The record as the sequence of literals and numbers that the reader takes apart. -/
theorem EpochStats.json_eq (stats : EpochStats) :
    stats.json = (123 :: jsonKey "epoch") ++ (jsonNat stats.epoch.toNat
      ++ ((44 :: jsonKey "tick_count") ++ (jsonNat stats.tickCount.toNat
      ++ ((44 :: jsonKey "tx_count") ++ (jsonNat stats.txCount.toNat
      ++ ((44 :: jsonKey "entity_count") ++ (jsonNat stats.entityCount.toNat
      ++ ((44 :: jsonKey "first_tick") ++ (jsonOption (fun t => jsonNat t.toNat) stats.firstTick
      ++ ((44 :: jsonKey "last_tick") ++ (jsonOption (fun t => jsonNat t.toNat) stats.lastTick
      ++ ([125] ++ [])))))))))))) := by
  simp [EpochStats.json, jsonObject, List.intercalate]

/-- A reader that succeeds hands its value on. -/
theorem bind_of_some {α β : Type} {x : Option α} {a : α} (h : x = some a) (f : α → Option β) :
    (x >>= f) = f a := by
  rw [h]
  rfl

/-- **The statistics record round-trips.** The reader takes the six members one after the other,
each number ended by the comma or brace behind it. -/
theorem EpochStats.ofJson_json (stats : EpochStats) : ofJson stats.json = some stats := by
  have hcomma : ∀ name rest, NoDigit ((44 :: jsonKey name) ++ rest) :=
    fun name rest => noDigit_cons (by decide) _
  have hclose : NoDigit ([125] ++ []) := noDigit_cons (by decide) _
  have h64 : ∀ (n : UInt64) {rest}, NoDigit rest →
      readUInt 64 (jsonNat n.toNat ++ rest) = some (n.toNat, rest) :=
    fun n _ h => readUInt_jsonNat n.toNat_lt h
  rw [EpochStats.json_eq, ofJson]
  -- a literal and a value for each of the six fields, then the closing brace
  refine (bind_of_some (readLit_append _ _) _).trans ?_
  refine (bind_of_some (readUInt_jsonNat stats.epoch.toNat_lt (hcomma _ _)) _).trans ?_
  refine (bind_of_some (readLit_append _ _) _).trans ?_
  refine (bind_of_some (readUInt_jsonNat stats.tickCount.toNat_lt (hcomma _ _)) _).trans ?_
  refine (bind_of_some (readLit_append _ _) _).trans ?_
  refine (bind_of_some (h64 stats.txCount (hcomma _ _)) _).trans ?_
  refine (bind_of_some (readLit_append _ _) _).trans ?_
  refine (bind_of_some (h64 stats.entityCount (hcomma _ _)) _).trans ?_
  refine (bind_of_some (readLit_append _ _) _).trans ?_
  refine (bind_of_some (readTick_json _ (hcomma _ _)) _).trans ?_
  refine (bind_of_some (readLit_append _ _) _).trans ?_
  refine (bind_of_some (readTick_json _ hclose) _).trans ?_
  refine (bind_of_some (readLit_append _ _) _).trans ?_
  rw [if_pos rfl, UInt16.ofNat_toNat, UInt32.ofNat_toNat, UInt64.ofNat_toNat,
    UInt64.ofNat_toNat]

/-! ## Known documents

To instantiate `serde_json` in a sample it is enough to know the documents that occur in it. A codec
that knows a list of values writes their JSON and reads back any of them. -/

/-- A codec that reads back the documents it knows and rejects every other. -/
def JsonCodec.known {α : Type} (toVec : α → Bytes) (docs : List α) : JsonCodec α where
  toVec
  fromSlice b :=
    match docs.find? (fun a => toVec a = b) with
    | some a => .ok a
    | none => .error "expected value at line 1 column 1"

def JsonCodec.epochStats : JsonCodec EpochStats where
  toVec := EpochStats.json
  fromSlice b :=
    match EpochStats.ofJson b with
    | some stats => .ok stats
    | none => .error "expected value at line 1 column 1"

/-- The codec of the statistics reads back every record it writes. -/
theorem JsonCodec.epochStats_fromSlice_toVec (stats : EpochStats) :
    epochStats.fromSlice (epochStats.toVec stats) = .ok stats := by
  simp only [epochStats, EpochStats.ofJson_json]

/-- Documents an instance of `Crates` knows: records with their JSON, untyped documents with
their text, and the hashes of the listed keys and byte strings. -/
structure Known where
  ticks : List TickData := []
  txs : List Transaction := []
  values : List (Bytes × Value) := []
  k12 : List (Key32 × (UInt8 × UInt8 × UInt8)) := []
  sha256 : List (Bytes × Key32) := []

/-- The crates, answering as the real ones do on what `known` lists. -/
def Crates.ofKnown (known : Known) : Crates where
  serde :=
    { tickData := .known TickData.json known.ticks
      transaction := .known Transaction.json known.txs
      entityData := .known (fun _ => []) []
      computors := .known (fun _ => []) []
      assetRecord := .known (fun _ => []) []
      contractIpo := .known (fun _ => []) []
      logEvent := .known (fun _ => []) []
      logEvents := .known (fun _ => []) []
      epochStats := .epochStats
      valueFromSlice := fun b =>
        match known.values.lookup b with
        | some v => .ok v
        | none => .error "expected value at line 1 column 1" }
  hex := .lower
  k12 key := (known.k12.lookup key).getD (0, 0, 0)
  sha256 b := (known.sha256.lookup b).getD zeroKey

/-- The crates, which also know some asset records. -/
def Crates.withAssets (c : Crates) (assets : List AssetRecord) : Crates :=
  { c with serde := { c.serde with assetRecord := .known AssetRecord.json assets } }

def LogEvent.json (event : LogEvent) : Bytes :=
  jsonObject [("tick", jsonNat event.tick.toNat), ("tx_index", jsonNat event.txIndex.toNat),
    ("epoch", jsonNat event.epoch.toNat), ("amount", jsonInt event.amount.toInt),
    ("event_type", jsonNat event.eventType.toNat),
    ("data", jsonArray (event.data.map (fun b => jsonNat b.toNat)))]

/-- A batch of log events. -/
def LogEvent.jsonBatch (events : List LogEvent) : Bytes := jsonArray (events.map LogEvent.json)

/-- The crates, which also know some log events and batches of them. -/
def Crates.withLogEvents (c : Crates) (batches : List (List LogEvent)) : Crates :=
  { c with serde := { c.serde with
      logEvent := .known LogEvent.json batches.flatten
      logEvents := .known LogEvent.jsonBatch batches } }

/-- A document that is known is read as the value it is known to have. -/
theorem Crates.valueFromSlice_ofKnown {known : Known} {b : Bytes} {v : Value}
    (h : known.values.lookup b = some v) : (ofKnown known).serde.valueFromSlice b = .ok v := by
  simp only [ofKnown, h]

/-- The records of statistics need not be known one by one, as their reader is complete. -/
theorem Crates.serde_epochStats_ofKnown (known : Known) :
    (ofKnown known).serde.epochStats = .epochStats := rfl

/-- Epoch statistics round-trip, whatever the documents known. -/
theorem Crates.epochStats_ofKnown (known : Known) (stats : EpochStats) :
    (ofKnown known).serde.epochStats.fromSlice ((ofKnown known).serde.epochStats.toVec stats)
      = .ok stats := by
  rw [serde_epochStats_ofKnown]
  exact JsonCodec.epochStats_fromSlice_toVec stats

/-! ## Sample documents -/

/-- The identity of the all-zero key. -/
def burnIdentity : Str := List.replicate 56 65 ++ [70, 88, 73, 66]

/-- The first K12 bytes of the all-zero key, from which its identity's checksum comes. -/
def burnChecksum : Key32 × (UInt8 × UInt8 × UInt8) := (zeroKey, (0x23, 0x5C, 0x00))

/-- A transfer of the burn address to itself, with a hash of 32 equal bytes. -/
def sampleTx (hashByte : UInt8) (tick : UInt32) : Transaction where
  hash := hexEncode (List.replicate 32 hashByte)
  sourceHex := hexEncode zeroKey.toList
  sourceIdentity := burnIdentity
  destinationHex := hexEncode zeroKey.toList
  destinationIdentity := burnIdentity
  amount := 1
  tick := tick
  inputType := 0
  inputSize := 0
  inputHex := []
  inputTypeName := "simple_transfer"
  signatureHex := []

def sampleTick (epoch : UInt16) (tick : UInt32) : TickData where
  computorIndex := 0
  epoch := epoch
  tick := tick
  timestamp := 0
  timeLock := zeroKey
  transactionDigestsHex := []
  contractFeesHex := []
  signatureHex := []

/-- A custom message without payload, as text and as a parsed document. -/
def sampleMessage (tick : UInt32) : Bytes × Value :=
  (jsonObject [("tick", jsonNat tick.toNat), ("message_type", jsonNat 1),
      ("payload_hex", jsonString [])],
    .object [("tick", .number (.posInt tick.toUInt64)), ("message_type", .number (.posInt 1)),
      ("payload_hex", .string [])])

end Qonduit

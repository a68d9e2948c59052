import Qonduit.Core.Json

/-!
# Qonduit — the JSON of the other records

Entities, computors and contract IPOs as `serde_json::to_vec` writes them, and an instance of
`Crates` that knows finitely many of them besides the documents it knew before.
-/

namespace Qonduit

def EntityData.json (entity : EntityData) : Bytes :=
  jsonObject [("identity", jsonString entity.identity),
    ("incoming", jsonInt entity.incoming.toInt), ("outgoing", jsonInt entity.outgoing.toInt),
    ("number_of_incoming_transfers", jsonNat entity.numberOfIncomingTransfers.toNat),
    ("number_of_outgoing_transfers", jsonNat entity.numberOfOutgoingTransfers.toNat),
    ("latest_incoming_transfer_tick", jsonNat entity.latestIncomingTransferTick.toNat),
    ("latest_outgoing_transfer_tick", jsonNat entity.latestOutgoingTransferTick.toNat)]

def EntityData.document (entity : EntityData) : Value :=
  .object [("identity", .string entity.identity), ("incoming", .int entity.incoming),
    ("outgoing", .int entity.outgoing),
    ("number_of_incoming_transfers",
      .number (.posInt entity.numberOfIncomingTransfers.toUInt64)),
    ("number_of_outgoing_transfers",
      .number (.posInt entity.numberOfOutgoingTransfers.toUInt64)),
    ("latest_incoming_transfer_tick",
      .number (.posInt entity.latestIncomingTransferTick.toUInt64)),
    ("latest_outgoing_transfer_tick",
      .number (.posInt entity.latestOutgoingTransferTick.toUInt64))]

def Computors.json (computors : Computors) : Bytes :=
  jsonObject [("epoch", jsonNat computors.epoch.toNat),
    ("public_keys", jsonArray (computors.publicKeys.map jsonBytes)),
    ("public_key_identities", jsonArray (computors.publicKeyIdentities.map jsonString))]

def ContractBid.json (bid : ContractBid) : Bytes :=
  jsonObject [("identity", jsonString bid.identity), ("bid_amount", jsonInt bid.bidAmount.toInt)]

def ContractIpo.json (ipo : ContractIpo) : Bytes :=
  jsonObject [("contract_index", jsonNat ipo.contractIndex.toNat),
    ("bids", jsonArray (ipo.bids.map ContractBid.json))]

/-- The crates, which also know some entities, computor lists and contract IPOs. -/
def Crates.withRecords (c : Crates) (entities : List EntityData) (computors : List Computors)
    (ipos : List ContractIpo) : Crates :=
  { c with serde := { c.serde with
      entityData := .known EntityData.json entities
      computors := .known Computors.json computors
      contractIpo := .known ContractIpo.json ipos } }

/-- The records of statistics are written and read as before. -/
theorem Crates.serde_epochStats_withRecords (c : Crates) (entities : List EntityData)
    (computors : List Computors) (ipos : List ContractIpo) :
    (withRecords c entities computors ipos).serde.epochStats = c.serde.epochStats := rfl

def EpochStats.document (stats : EpochStats) : Value :=
  .object [("epoch", .number (.posInt stats.epoch.toUInt64)),
    ("tick_count", .number (.posInt stats.tickCount.toUInt64)),
    ("tx_count", .number (.posInt stats.txCount)),
    ("entity_count", .number (.posInt stats.entityCount)),
    ("first_tick", stats.firstTick.elim .null (fun t => .number (.posInt t.toUInt64))),
    ("last_tick", stats.lastTick.elim .null (fun t => .number (.posInt t.toUInt64)))]

/-- The crates, which also read every statistics record as an untyped document. -/
def Crates.withStatsDocuments (c : Crates) : Crates :=
  { c with serde := { c.serde with
      valueFromSlice := fun b =>
        match EpochStats.ofJson b with
        | some stats => .ok stats.document
        | none => c.serde.valueFromSlice b } }

/-- Only what `serde_json` reads as a document is changed, so the records are written as before. -/
theorem Crates.serde_epochStats_withStatsDocuments (c : Crates) :
    (withStatsDocuments c).serde.epochStats = c.serde.epochStats := rfl

/-- A statistics record reads as an untyped document of its members. -/
theorem Crates.valueFromSlice_withStatsDocuments (c : Crates) (stats : EpochStats) :
    (withStatsDocuments c).serde.valueFromSlice stats.json = .ok stats.document := by
  simp only [withStatsDocuments, EpochStats.ofJson_json]

/-- The entity of the all-zero key, after one transfer to it. -/
def burnEntity : EntityData where
  identity := burnIdentity
  incoming := 1
  outgoing := 0
  numberOfIncomingTransfers := 1
  numberOfOutgoingTransfers := 0
  latestIncomingTransferTick := 7
  latestOutgoingTransferTick := 0

end Qonduit

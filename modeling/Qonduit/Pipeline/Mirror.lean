import Qonduit.Pipeline.Routing
import Qonduit.Processor.Resolution
import Qonduit.Storage.LimitedScans

/-!
# Qonduit — the store mirrors the network

From the bytes of a packet to the store behind the queries: the decoder reads the packet and
publishes the record, the bus hands it to the consumer of its stream, the handler files it. A
record is looked up under a key that the wire already has: the number of a tick, the hash of a
transaction, the public key of an entity, the epoch of a computor list, the index of a contract.

* **`last_streamLog`** — what a handler files (`filed`), key by key.
* **`filed_payload`** — a record comes back out of its JSON under the key its packet has.
* **`store_mirrors_packets`** — however the consumers take turns, and however far each has come,
  the records of a handler are those of the packets up to some moment, latest first.
-/

namespace Qonduit

/-! ## Records and their keys

Five families hold one record under each key, and each is written by one handler. A lookup in such a
family is a lookup of the record with that key. -/

/-- What a record of the warm tier is looked up under. -/
inductive RecordKey where
  | tick (n : UInt32)
  | tx (hash : Key32)
  | entity (publicKey : Key32)
  | computors (epoch : UInt16)
  | contractIpo (index : UInt32)
  deriving DecidableEq

namespace RecordKey

/-- The stream whose handler files the record. -/
def stream : RecordKey → Stream
  | .tick _ => .tick
  | .tx _ => .tx
  | .entity _ => .entity
  | .computors _ => .computors
  | .contractIpo _ => .contract

def address : RecordKey → Cf × Bytes
  | .tick n => (.tick, n.toBeBytes)
  | .tx hash => (.tx, hash.toList)
  | .entity publicKey => (.entity, publicKey.toList)
  | .computors epoch => (.computors, epoch.toBeBytes)
  | .contractIpo index => (.contractIpo, index.toBeBytes)

/-- The family of a record belongs to the stream that brings it. -/
theorem owner_address (k : RecordKey) : owner k.address.1 = some k.stream := by
  cases k <;> rfl

end RecordKey

def WarmStorage.lookup (s : WarmStorage) : RecordKey → Option Bytes
  | .tick n => s.getTick n
  | .tx hash => s.getTx hash
  | .entity publicKey => s.getEntity publicKey
  | .computors epoch => s.getComputors epoch
  | .contractIpo index => s.getContractIpo index

/-- A record is looked up where it is filed. -/
theorem WarmStorage.lookup_eq_view (s : WarmStorage) (k : RecordKey) :
    s.lookup k = s.view k.address := by
  cases k <;> rfl

/-! ## What a handler files

A handler writes a record under the key it finds in the payload. What stands under a key at the end
of a run is the last payload that was filed there. -/

/-- The record a handler files a payload as. -/
def filed (c : Crates) (σ : Stream) (payload : Bytes) : Option RecordKey :=
  match σ with
  | .tick =>
    match c.serde.tickData.fromSlice payload with
    | .ok tick => if Indexer.acceptsTick tick then some (.tick tick.tick) else none
    | .error _ => none
  | .tx =>
    match c.serde.transaction.fromSlice payload with
    | .ok tx => some (.tx (tx.hashBytes c))
    | .error _ => none
  | .entity =>
    match c.serde.entityData.fromSlice payload with
    | .ok entity => (decodeBase26 c entity.identity).map RecordKey.entity
    | .error _ => none
  | .computors =>
    match c.serde.computors.fromSlice payload with
    | .ok computors => some (.computors computors.epoch)
    | .error _ => none
  | .contract =>
    match c.serde.contractIpo.fromSlice payload with
    | .ok ipo => some (.contractIpo ipo.contractIndex)
    | .error _ => none
  | _ => none

/-- The records a handler files for a sequence of payloads. -/
def filings (c : Crates) (σ : Stream) (payloads : List Bytes) : List (RecordKey × Bytes) :=
  payloads.flatMap (fun payload => ((filed c σ payload).map (fun k => (k, payload))).toList)

/-- What one message leaves under a key, apart from transactions: its payload, if it is filed
there. -/
theorem last_filed {c : Crates} {σ : Stream} {payload : Bytes} {k : RecordKey}
    (hk : k.stream = σ) (hσ : σ ≠ .tx) :
    WriteLog.last ((Indexer.payloadPuts c σ payload).map Put.write) k.address
      = WriteLog.last ((filed c σ payload).map (fun k => (k, payload))).toList k := by
  subst hk
  cases k with
  | tx hash => exact absurd rfl hσ
  | tick n =>
    simp only [RecordKey.stream, Indexer.payloadPuts, filed]
    cases c.serde.tickData.fromSlice payload with
    | error e => rfl
    | ok tick =>
      by_cases h : Indexer.acceptsTick tick
      · simp only [if_pos h]
        simp [WarmStorage.batchPutTick, WriteLog.last_cons, Put.write, Put.tick, Put.metaValue,
          RecordKey.address, UInt32.toBeBytes_inj]
      · simp only [if_neg h]
        rfl
  | entity publicKey =>
    simp only [RecordKey.stream, Indexer.payloadPuts, filed]
    cases c.serde.entityData.fromSlice payload with
    | error e => rfl
    | ok entity =>
      dsimp only
      cases decodeBase26 c entity.identity with
      | none => rfl
      | some key =>
        simp [Put.write, Put.entity, RecordKey.address, WarmStorage.toList_injective.eq_iff]
  | computors epoch =>
    simp only [RecordKey.stream, Indexer.payloadPuts, filed]
    cases c.serde.computors.fromSlice payload with
    | error e => rfl
    | ok computors => simp [Put.write, Put.computors, RecordKey.address, UInt16.toBeBytes_inj]
  | contractIpo index =>
    simp only [RecordKey.stream, Indexer.payloadPuts, filed]
    cases c.serde.contractIpo.fromSlice payload with
    | error e => rfl
    | ok ipo => simp [Put.write, Put.contractIpo, RecordKey.address, UInt32.toBeBytes_inj]

/-- The log of placements, payload by payload. -/
theorem filings_tx (c : Crates) (payloads : List Bytes) :
    filings c .tx payloads
      = (hashLog c (placements c payloads)).map (fun w => (RecordKey.tx w.1, w.2)) := by
  have hdeliveries : hashLog c (placements c payloads)
      = (accepted c payloads).map (fun d => (d.1.hashBytes c, d.2)) := by
    rw [← map_delivery_placements, List.map_map]
    rfl
  rw [hdeliveries, List.map_map, accepted, List.map_filterMap, filings,
    ← List.filterMap_eq_flatMap_toList]
  refine List.filterMap_congr (fun payload _ => ?_)
  simp only [filed]
  cases c.serde.transaction.fromSlice payload <;> rfl

/-- **What a stream leaves under a key** is what its handler files there. -/
theorem last_streamLog (c : Crates) {σ : Stream} (payloads : List Bytes) {k : RecordKey}
    (hk : k.stream = σ) :
    WriteLog.last ((streamLog c σ payloads).map Put.write) k.address
      = WriteLog.last (filings c σ payloads) k := by
  by_cases hσ : σ = .tx
  · subst hσ
    cases k with
    | tx hash =>
      have hinj : Function.Injective RecordKey.tx := fun _ _ h => RecordKey.tx.inj h
      rw [filings_tx, WriteLog.last_map_injective hinj]
      exact Indexer.last_tx c (placements c payloads) hash
    | _ => cases hk
  · have hlog : streamLog c σ payloads = payloads.flatMap (Indexer.payloadPuts c σ) := by
      cases σ <;> first | exact absurd rfl hσ | rfl
    rw [hlog, List.map_flatMap, filings]
    exact WriteLog.last_flatMap_congr (fun payload _ => last_filed hk hσ)

/-! ## What a packet carries

The record a packet carries and its key are read off the bytes of the packet. The decoder publishes
that record, and the handler files it under that key. -/

/-- The hash of a transaction payload; one that is cut short has none. -/
def Wire.hash (c : Crates) (w : Bytes) : Key32 :=
  if Complete w then c.sha256 (hashInput w) else zeroKey

/-- The record a packet carries, under its key on the wire. -/
def wireRecord (c : Crates) (packet : Received) : Option (RecordKey × PublishCall) :=
  let w := packet.2.2
  if packet.1 = 8 then
    (decodeTick c w).toOption.map (fun tick => (.tick (TickWire.tick w), .tick tick))
  else if packet.1 = 24 then
    (decodeTransaction c w).toOption.map (fun tx => (.tx (Wire.hash c w), .tx tx))
  else if packet.1 = 32 then
    (decodeEntity c w).toOption.map
      (fun entity => (.entity (keyOf (Wire.field w 0 32)), .entity entity))
  else if packet.1 = 2 then
    (decodeComputors c w).toOption.map
      (fun computors => (.computors (UInt16.fromLeBytes (Wire.field w 0 2)), .computors computors))
  else if packet.1 = 34 then
    (decodeContractIpo c w).toOption.map
      (fun ipo => (.contractIpo (UInt32.fromLeBytes (Wire.field w 0 4)), .contractIpo ipo))
  else none

/-- The epoch of the computors is their first field. -/
theorem epoch_of_decodeComputors {c : Crates} {w : Bytes} {computors : Computors}
    (h : decodeComputors c w = .ok computors) :
    computors.epoch = UInt16.fromLeBytes (Wire.field w 0 2) := by
  by_cases hlen : w.length < 21634
  · rw [decodeComputors, if_pos hlen] at h
    cases h
  · rw [decodeComputors, if_neg hlen, Wire.sliceAt_eq_field (by decide) (by omega), ok_bind] at h
    cases hkeys : pushEach NUMBER_OF_COMPUTORS (computorKey w) with
    | error fault => rw [hkeys] at h; cases h
    | ok keys =>
      rw [hkeys, ok_bind] at h
      obtain rfl := Except.ok.inj h
      rfl

/-- The index of a contract is the first field of its record. -/
theorem index_of_decodeContractIpo {c : Crates} {w : Bytes} {ipo : ContractIpo}
    (h : decodeContractIpo c w = .ok ipo) :
    ipo.contractIndex = UInt32.fromLeBytes (Wire.field w 0 4) := by
  by_cases hlen : w.length < 27048
  · rw [decodeContractIpo, if_pos hlen] at h
    cases h
  · rw [decodeContractIpo, if_neg hlen, Wire.sliceAt_eq_field (by decide) (by omega),
      ok_bind] at h
    cases hbids : pushEach NUMBER_OF_COMPUTORS (contractBid c w) with
    | error fault => rw [hbids] at h; cases h
    | ok bids =>
      rw [hbids, ok_bind] at h
      obtain rfl := Except.ok.inj h
      rfl

/-- The hash of a transaction is computed from the packet. -/
theorem hash_of_decodeTransaction {c : Crates} {w : Bytes} {tx : Transaction}
    (h : decodeTransaction c w = .ok tx) : tx.hashBytes c = Wire.hash c w := by
  by_cases hlen : TX_HEADER_SIZE ≤ w.length
  · rw [decodeTransaction_eq c hlen] at h
    obtain rfl := Except.ok.inj h
    exact hashBytes_transactionOf c w
  · obtain ⟨msg, hmsg⟩ := decodeTransaction_short c (Nat.not_le.mp hlen)
    rw [hmsg] at h
    cases h

/-- The tick number of a tick is one of its fields. -/
theorem tick_of_decodeTick {c : Crates} {w : Bytes} {tick : TickData}
    (h : decodeTick c w = .ok tick) : tick.tick = TickWire.tick w := by
  rcases decodeTick_cases c w with ⟨-, msg, hmsg⟩ | ⟨-, -, hpanic⟩ | ⟨-, -, d, hd, htick, -⟩
  · rw [h] at hmsg
    cases hmsg
  · rw [h] at hpanic
    cases hpanic
  · obtain rfl := Except.ok.inj (h.symm.trans hd)
    exact htick

/-- A packet that carries a record publishes it and nothing else, and its handler files it under
the key the wire has. -/
structure Carried (c : Crates) (j : PublisherJson) (packet : Received) (k : RecordKey)
    (p : PublishCall) : Prop where
  published : PacketDecoder.records c packet = [p]
  stream : p.stream = some k.stream
  filed : p.Readable c j → filed c k.stream (p.payload c j) = some k

/-- A decoder that gives a record has returned it. -/
theorem toOption_map_eq_some {α β : Type} {r : Outcome α} {f : α → β} {b : β}
    (h : r.toOption.map f = some b) : ∃ a, r = .ok a ∧ f a = b := by
  cases r with
  | error fault => cases h
  | ok a => exact ⟨a, rfl, Option.some.inj h⟩

/-- **A packet that carries a record publishes it**, and whoever reads it back files it under its
key. -/
theorem carried_of_wireRecord {c : Crates} (j : PublisherJson) {packet : Received} {k : RecordKey}
    {p : PublishCall} (h : wireRecord c packet = some (k, p)) : Carried c j packet k p := by
  obtain ⟨msgType, dejavu, w⟩ := packet
  simp only [wireRecord] at h
  split at h
  · next ht =>
    subst ht
    obtain ⟨tick, hdecode, heq⟩ := toOption_map_eq_some h
    obtain ⟨rfl, rfl⟩ := Prod.mk.inj heq
    refine ⟨by simp [PacketDecoder.records, recordsOf, hdecode, Except.map, Except.toOption],
      rfl, fun hread => ?_⟩
    have hread : c.serde.tickData.fromSlice (c.serde.tickData.toVec tick.slim)
      = .ok tick.slim := hread
    have haccept : Indexer.acceptsTick tick = true := acceptsTick_of_decodeTick hdecode
    have haccept : Indexer.acceptsTick tick.slim = true := haccept
    have htick : tick.tick = TickWire.tick w := tick_of_decodeTick hdecode
    have htick : tick.slim.tick = TickWire.tick w := htick
    simp [Qonduit.filed, RecordKey.stream, PublishCall.payload, hread, haccept, htick]
  split at h
  · next ht =>
    subst ht
    obtain ⟨tx, hdecode, heq⟩ := toOption_map_eq_some h
    obtain ⟨rfl, rfl⟩ := Prod.mk.inj heq
    refine ⟨by simp [PacketDecoder.records, recordsOf, hdecode, Except.map, Except.toOption],
      rfl, fun hread => ?_⟩
    have hread : c.serde.transaction.fromSlice (c.serde.transaction.toVec tx) = .ok tx := hread
    have hhash := hash_of_decodeTransaction hdecode
    simp [Qonduit.filed, RecordKey.stream, PublishCall.payload, hread, hhash]
  split at h
  · next ht =>
    subst ht
    obtain ⟨entity, hdecode, heq⟩ := toOption_map_eq_some h
    obtain ⟨rfl, rfl⟩ := Prod.mk.inj heq
    refine ⟨by simp [PacketDecoder.records, recordsOf, hdecode, Except.map, Except.toOption],
      rfl, fun hread => ?_⟩
    have hread : c.serde.entityData.fromSlice (c.serde.entityData.toVec entity)
      = .ok entity := hread
    have hkey : decodeBase26 c entity.identity = some (keyOf (Wire.field w 0 32)) := by
      rw [identity_of_decodeEntity hdecode, decodeBase26_encodeBase26]
    simp [Qonduit.filed, RecordKey.stream, PublishCall.payload, hread, hkey]
  split at h
  · next ht =>
    subst ht
    obtain ⟨computors, hdecode, heq⟩ := toOption_map_eq_some h
    obtain ⟨rfl, rfl⟩ := Prod.mk.inj heq
    refine ⟨by simp [PacketDecoder.records, recordsOf, hdecode, Except.map, Except.toOption],
      rfl, fun hread => ?_⟩
    have hread : c.serde.computors.fromSlice (c.serde.computors.toVec computors)
      = .ok computors := hread
    have hepoch := epoch_of_decodeComputors hdecode
    simp [Qonduit.filed, RecordKey.stream, PublishCall.payload, hread, hepoch]
  split at h
  · next ht =>
    subst ht
    obtain ⟨ipo, hdecode, heq⟩ := toOption_map_eq_some h
    obtain ⟨rfl, rfl⟩ := Prod.mk.inj heq
    refine ⟨by simp [PacketDecoder.records, recordsOf, hdecode, Except.map, Except.toOption],
      rfl, fun hread => ?_⟩
    have hread : c.serde.contractIpo.fromSlice (c.serde.contractIpo.toVec ipo) = .ok ipo := hread
    have hindex := index_of_decodeContractIpo hdecode
    simp [Qonduit.filed, RecordKey.stream, PublishCall.payload, hread, hindex]
  · cases h

/-- A packet that carries none publishes nothing for the handlers of the records. Its type is
another one, or it does not decode, or what it publishes is for another handler. -/
theorem stream_of_wireRecord_eq_none {c : Crates} {packet : Received}
    (h : wireRecord c packet = none) {p : PublishCall} (hp : p ∈ PacketDecoder.records c packet)
    (k : RecordKey) : p.stream ≠ some k.stream := by
  obtain ⟨msgType, dejavu, w⟩ := packet
  have hdecoded : PacketDecoder.Decoded c dejavu w msgType p :=
    PacketDecoder.decoded_of_mem_records hp
  -- a packet whose record decodes would carry it
  cases hdecoded with
  | @tick tick hdecode =>
    have hsome : wireRecord c (8, dejavu, w) = some (.tick (TickWire.tick w), .tick tick) := by
      simp [wireRecord, hdecode, Except.toOption]
    cases hsome.symm.trans h
  | @tx tx hdecode =>
    have hsome : wireRecord c (24, dejavu, w) = some (.tx (Wire.hash c w), .tx tx) := by
      simp [wireRecord, hdecode, Except.toOption]
    cases hsome.symm.trans h
  | @computors computors hdecode =>
    have hsome : wireRecord c (2, dejavu, w)
        = some (.computors (UInt16.fromLeBytes (Wire.field w 0 2)), .computors computors) := by
      simp [wireRecord, hdecode, Except.toOption]
    cases hsome.symm.trans h
  | @entity entity hdecode =>
    have hsome : wireRecord c (32, dejavu, w)
        = some (.entity (keyOf (Wire.field w 0 32)), .entity entity) := by
      simp [wireRecord, hdecode, Except.toOption]
    cases hsome.symm.trans h
  | @contractIpo ipo hdecode =>
    have hsome : wireRecord c (34, dejavu, w)
        = some (.contractIpo (UInt32.fromLeBytes (Wire.field w 0 4)), .contractIpo ipo) := by
      simp [wireRecord, hdecode, Except.toOption]
    cases hsome.symm.trans h
  | contractFn | logEvents | customMessage | logStateDigest | oracleData | customMiningTask
  | customMiningSolution | tickVote | quorumTick =>
    cases k <;> simp [PublishCall.stream, RecordKey.stream]

/-! ## The bus

A handler of records is given the records of the packets, and of none other, since each type of
packet brings one of these handlers something at most. -/

/-- The JSON a packet hands to a handler of records. -/
def wirePayload (c : Crates) (j : PublisherJson) (σ : Stream) (packet : UInt16 × Received) :
    Option Bytes :=
  (wireRecord c packet.2).bind (fun r =>
    if r.1.stream = σ then some (r.2.payload c j) else none)

/-- What one packet brings a handler: the record it carries, if it carries one for this handler, in
the form in which the publisher writes it. -/
theorem payloads_of_packet (c : Crates) (j : PublisherJson) (k : RecordKey)
    (packet : UInt16 × Received) :
    ((PacketDecoder.records c packet.2).filter (fun p => p.stream = some k.stream)).map
        (fun p => p.payload c j)
      = (wirePayload c j k.stream packet).toList := by
  rw [wirePayload]
  cases h : wireRecord c packet.2 with
  | none =>
    have hnil : (PacketDecoder.records c packet.2).filter (fun p => p.stream = some k.stream)
        = [] := by
      rw [List.filter_eq_nil_iff]
      intro p hp heq
      exact stream_of_wireRecord_eq_none h hp k (of_decide_eq_true heq)
    rw [hnil]
    rfl
  | some r =>
    obtain ⟨k', p⟩ := r
    have hcarried := carried_of_wireRecord j h
    rw [hcarried.published, Option.bind_some]
    by_cases hk : k'.stream = k.stream
    · simp [hcarried.stream, hk]
    · simp [hcarried.stream, hk]

/-- **What a handler of records is given**: the records of the packets, in their order. -/
theorem inbox_records (n : Nats) (c : Crates) (j : PublisherJson) (d : PacketDecoder)
    (packets : List (UInt16 × Received)) (k : RecordKey) :
    inbox n k.stream (busLog c j (d.publications c packets))
      = packets.filterMap (wirePayload c j k.stream) := by
  rw [inbox_publications, List.filterMap_eq_flatMap_toList]
  simp only [payloads_of_packet]

/-! ## The store

The last payload filed under a key is that of the last packet with this key. So a store that has
handled all packets mirrors them, and one that has handled the first of them mirrors those. -/

/-- What the packets leave of the records: key and JSON. -/
def wireLog (c : Crates) (j : PublisherJson) (packets : List (UInt16 × Received)) :
    List (RecordKey × Bytes) :=
  packets.filterMap (fun packet =>
    (wireRecord c packet.2).map (fun r => (r.1, r.2.payload c j)))

/-- The records of a handler are those of some packets, over what was stored before. -/
def Mirrors (c : Crates) (j : PublisherJson) (σ : Stream) (packets : List (UInt16 × Received))
    (s s' : WarmStorage) : Prop :=
  ∀ k : RecordKey, k.stream = σ → s'.lookup k = WriteLog.replay (wireLog c j packets) s.lookup k

section

variable {c : Crates} {j : PublisherJson} {packets : List (UInt16 × Received)}

/-- The JSON of the carried records can be read back. -/
def RecordsReadable (c : Crates) (j : PublisherJson) (packets : List (UInt16 × Received)) : Prop :=
  ∀ packet ∈ packets, ∀ k p, wireRecord c packet.2 = some (k, p) → p.Readable c j

/-- The last filing under a key is the last packet that carries it. -/
theorem last_filings (hread : RecordsReadable c j packets) (k : RecordKey) :
    WriteLog.last (filings c k.stream (packets.filterMap (wirePayload c j k.stream))) k
      = WriteLog.last (wireLog c j packets) k := by
  rw [filings, wireLog, List.filterMap_eq_flatMap_toList, List.filterMap_eq_flatMap_toList,
    List.flatMap_assoc]
  refine WriteLog.last_flatMap_congr (fun packet hpacket => ?_)
  rw [wirePayload]
  cases h : wireRecord c packet.2 with
  | none => rfl
  | some r =>
    obtain ⟨k', p⟩ := r
    have hfiled := (carried_of_wireRecord j h).filed (hread packet hpacket k' p h)
    rw [Option.bind_some]
    by_cases hk : k'.stream = k.stream
    · rw [hk] at hfiled
      simp [hk, hfiled]
    · -- the record of another handler is no record under the key
      have hne : k' ≠ k := fun heq => hk (heq ▸ rfl)
      simp [hk, hne]

/-- A run over the records of some packets mirrors them. -/
theorem mirrors_run (hread : RecordsReadable c j packets) {σ : Stream} {ms : List Message}
    (hms : ofStream σ ms = packets.filterMap (wirePayload c j σ)) (s : WarmStorage)
    (pl : PipelineState) :
    Mirrors c j σ packets s (Indexer.run c (Indexer.new s pl) ms).storage := by
  intro k hk
  subst hk
  have hview := Indexer.view_run k.owner_address c s pl ms k.address.2
  rw [Prod.mk.eta, ← WarmStorage.lookup_eq_view] at hview
  rw [hview, WriteLog.replay, last_streamLog c _ rfl, hms, last_filings hread,
    ← WarmStorage.lookup_eq_view]
  rfl

theorem RecordsReadable.mono {seen : List (UInt16 × Received)} (h : RecordsReadable c j packets)
    (hseen : seen <+: packets) : RecordsReadable c j seen :=
  fun packet hpacket => h packet (hseen.subset hpacket)

/-- **The store mirrors the network.** Let a processor start over any database and handle what
the bus delivers, the streams interleaved in any way. Where a handler has come, in order and
without a gap, its records are those of the packets up to some moment; where it has been given
everything, they are those of all packets. -/
theorem store_mirrors_packets (n : Nats) (d : PacketDecoder)
    (hread : RecordsReadable c j packets) {ms : List Message} {σ : Stream}
    (hdelivered : ofStream σ ms <+: inbox n σ (busLog c j (d.publications c packets)))
    (s : WarmStorage) (pl : PipelineState) :
    ∃ seen, seen <+: packets ∧
      Mirrors c j σ seen s (Indexer.run c (Indexer.new s pl) ms).storage ∧
      (ofStream σ ms = inbox n σ (busLog c j (d.publications c packets)) → seen = packets) := by
  by_cases hk : ∃ k : RecordKey, k.stream = σ
  · obtain ⟨k, rfl⟩ := hk
    rw [inbox_records] at hdelivered ⊢
    obtain ⟨seen, hseen, hms, hall⟩ := exists_prefix_filterMap hdelivered
    exact ⟨seen, hseen, mirrors_run (hread.mono hseen) hms s pl, hall⟩
  · -- the other handlers have no records of the kind
    exact ⟨packets, List.prefix_refl packets, fun k heq => absurd ⟨k, heq⟩ hk, fun _ => rfl⟩

end

/-- The packet of an entity record of the all-zero key. -/
def burnPacket (incoming latestIncomingTransferTick : UInt8) : UInt16 × Received :=
  (9, 32, 0, List.replicate 32 0 ++ [incoming] ++ List.replicate 15 0 ++ [incoming]
    ++ List.replicate 7 0 ++ [latestIncomingTransferTick] ++ List.replicate 7 0)

def burnCrates : Crates :=
  (Crates.ofKnown { k12 := [burnChecksum] }).withRecords [idleEntity, burnEntity] [] []

/-- Either of the two records of the sample is read back. -/
theorem readable_burn {entity : EntityData}
    (h : [idleEntity, burnEntity].find? (fun doc => doc.json = entity.json) = some entity) :
    (PublishCall.entity entity).Readable burnCrates .silent := by
  have hcodec : burnCrates.serde.entityData = .known EntityData.json [idleEntity, burnEntity] := rfl
  show burnCrates.serde.entityData.fromSlice (burnCrates.serde.entityData.toVec entity) = .ok entity
  rw [hcodec]
  exact JsonCodec.fromSlice_known h

/-- Two records of one entity, the second after a first transfer to it. -/
def burnPackets : List (UInt16 × Received) := [burnPacket 0 0, burnPacket 1 7]

/-- So its packets are readable. -/
theorem recordsReadable_burn : RecordsReadable burnCrates .silent burnPackets := by
  have hidle : wireRecord burnCrates (burnPacket 0 0).2
      = some (.entity zeroKey, .entity idleEntity) := by
    decide +kernel
  have hburn : wireRecord burnCrates (burnPacket 1 7).2
      = some (.entity zeroKey, .entity burnEntity) := by
    decide +kernel
  intro packet hpacket k p h
  rcases List.mem_pair.mp hpacket with rfl | rfl
  · obtain ⟨-, rfl⟩ := Prod.mk.inj (Option.some.inj (hidle.symm.trans h))
    exact readable_burn (by decide +kernel)
  · obtain ⟨-, rfl⟩ := Prod.mk.inj (Option.some.inj (hburn.symm.trans h))
    exact readable_burn (by decide +kernel)

def burnMessages : List Message := [(.entity, idleEntity.json), (.entity, burnEntity.json)]

/-- The messages of the sample are what the bus delivers. -/
theorem delivered_burn : ofStream .entity burnMessages
    = inbox .literal .entity (busLog burnCrates .silent
      (PacketDecoder.publications burnCrates {} burnPackets)) := by
  decide +kernel

/-- The store holds the later record. -/
theorem store_mirrors_packets_burn :
    (Indexer.run burnCrates (Indexer.new .empty {}) burnMessages).storage.lookup (.entity zeroKey)
      = some burnEntity.json := by
  obtain ⟨seen, -, hmirrors, hall⟩ := store_mirrors_packets .literal {} recordsReadable_burn
    (delivered_burn ▸ List.prefix_refl (inbox _ _ _)) .empty {}
  obtain rfl := hall delivered_burn
  rw [hmirrors (.entity zeroKey) rfl]
  decide +kernel

/-! ## What is never filed

Two handlers wait for messages that no packet brings. -/

/-- No publication is for the handlers of assets and of the spectrum. -/
theorem inbox_eq_nil (n : Nats) (c : Crates) (j : PublisherJson)
    (ps : List (UInt16 × PublishCall)) {σ : Stream} (hσ : σ = .asset ∨ σ = .spectrum) :
    inbox n σ (busLog c j ps) = [] := by
  rw [inbox_busLog, List.map_eq_nil_iff, List.filter_eq_nil_iff]
  intro p _ heq
  have heq := of_decide_eq_true heq
  rcases hσ with rfl | rfl
  · obtain ⟨epoch, p⟩ := p
    cases p <;> cases heq
  · obtain ⟨epoch, p⟩ := p
    cases p <;> cases heq

/-- **No packet feeds the assets or the spectrum**: whatever the network sends, and however the
consumers take turns, these families stay as the processor found them. -/
theorem unfed_families {c : Crates} {j : PublisherJson} (n : Nats) (d : PacketDecoder)
    (packets : List (UInt16 × Received)) {ms : List Message}
    (hdelivered : ∀ σ, ofStream σ ms <+: inbox n σ (busLog c j (d.publications c packets)))
    (s : WarmStorage) (pl : PipelineState) {cf : Cf}
    (hcf : cf ∈ [Cf.asset, Cf.entityAsset, Cf.spectrum]) :
    (Indexer.run c (Indexer.new s pl) ms).storage.db cf = s.db cf := by
  obtain ⟨σ, howner, hσ⟩ : ∃ σ, owner cf = some σ ∧ (σ = .asset ∨ σ = .spectrum) := by
    simp only [List.mem_cons, List.not_mem_nil, or_false] at hcf
    rcases hcf with rfl | rfl | rfl
    · exact ⟨.asset, rfl, .inl rfl⟩
    · exact ⟨.asset, rfl, .inl rfl⟩
    · exact ⟨.spectrum, rfl, .inr rfl⟩
  have hnone : ofStream σ ms = [] := by
    have hprefix := hdelivered σ
    rw [inbox_eq_nil n c j _ hσ] at hprefix
    exact List.prefix_nil.mp hprefix
  have hlog : streamLog c σ [] = [] := by
    rcases hσ with rfl | rfl <;> rfl
  refine WarmStorage.db_eq_of_view (fun k => ?_)
  rw [Indexer.view_run howner, hnone, hlog, List.map_nil, WriteLog.replay_nil]

/-- The spectrum of the sample run is that of the store it started with. -/
theorem unfed_families_burn :
    (Indexer.run burnCrates (Indexer.new .empty {}) burnMessages).storage.db .spectrum
      = WarmStorage.empty.db .spectrum := by
  have hdelivered : ∀ σ, ofStream σ burnMessages <+: inbox .literal σ
      (busLog burnCrates .silent (PacketDecoder.publications burnCrates {} burnPackets)) := by
    intro σ
    cases σ with
    | entity =>
      rw [delivered_burn]
    | _ => exact List.nil_prefix
  exact unfed_families .literal {} burnPackets hdelivered .empty {} (by decide)

end Qonduit

import Qonduit.Processor.Resolution
import Qonduit.Query.Rpc

/-!
# Qonduit — a transaction from the wire to the APIs

A payload that holds its announced input is decoded, published as JSON and indexed; then the
REST and RPC lookups of its hash return the published JSON, and the listings of its tick and of
its two entities, reached by their identities, contain the hash.

* **`view_consume_tx`** — what one `index_transaction` leaves in its three families, over any
  store.
* **`transaction_retrievable`** — the whole path.
-/

namespace Qonduit

namespace Indexer

variable {c : Crates} (ix : Indexer) {payload : Bytes} {tx : Transaction}

/-- One `index_transaction` over any store, in the families of the transaction stream. -/
theorem view_consume_tx (h : c.serde.transaction.fromSlice payload = .ok tx) {cf : Cf}
    (hcf : owner cf = some .tx) (k : Bytes) :
    (consume c ix (.tx, payload)).storage.view (cf, k)
      = (WriteLog.last (([⟨tx, payload, ix.txIndex tx.tick⟩].flatMap (Placement.puts c)).map
          Put.write) (cf, k)).or (ix.storage.view (cf, k)) := by
  have hputs : puts c ix (.tx, payload) = txPuts c tx payload (ix.txIndex tx.tick)
      ++ chargePuts c (ix.commitTransaction c tx payload) countTx := by
    simp only [puts, payloadPuts, statePuts, h, List.nil_append]
  -- the statistics record of the epoch is in a family of its own
  have hcharge : (chargePuts c (ix.commitTransaction c tx payload) countTx).filter
      (fun p => p.cf = cf) = [] := by
    refine filter_eq_nil_of_owner (fun p hp => ?_)
    rw [cf_of_mem_chargePuts hp, hcf]
    simp [owner]
  rw [storage_consume, WarmStorage.view_batchWrite, WriteLog.replay, ← last_filter_cf, hputs,
    List.filter_append, hcharge, List.append_nil, last_filter_cf, List.flatMap_singleton]
  rfl

theorem getTx_consume_tx (h : c.serde.transaction.fromSlice payload = .ok tx) :
    (consume c ix (.tx, payload)).storage.getTx (tx.hashBytes c) = some payload := by
  refine (view_consume_tx ix h rfl (tx.hashBytes c).toList).trans ?_
  rw [last_tx]
  simp [hashLog, Placement.hash]

theorem tickSlot_consume_tx (h : c.serde.transaction.fromSlice payload = .ok tx) :
    (consume c ix (.tx, payload)).storage.tickSlot tx.tick (ix.txIndex tx.tick)
      = some (tx.hashBytes c).toList := by
  refine (view_consume_tx ix h rfl _).trans ?_
  rw [last_txByTick]
  simp [tickLog, ofTick, Placement.hash]

theorem entitySlot_consume_tx (h : c.serde.transaction.fromSlice payload = .ok tx) {e : Key32}
    (he : tx.source c = some e ∨ tx.destination c = some e) :
    (consume c ix (.tx, payload)).storage.entitySlot e (tx.tick, ix.txIndex tx.tick)
      = some (tx.hashBytes c).toList := by
  refine (view_consume_tx ix h rfl _).trans ?_
  rw [last_txByEntity]
  simp [entityLog, ofEntity, Placement.Involves, he, Placement.hash, Placement.slot]

/-- Indexing a transaction that parses does not fail. -/
theorem indexTransaction_eq_consume (h : c.serde.transaction.fromSlice payload = .ok tx) :
    indexTransaction c ix payload = .ok (consume c ix (.tx, payload)) := by
  simp only [consume, handler, indexTransaction, h]

end Indexer

/-! ## Lookups

From the tables to the answers: a hash in a slot is in the listing, and a hash in hex leads to its
payload through either front end. -/

theorem Rest.getTransaction_hashToHex (c : Crates) (s : WarmStorage) (h : Key32) :
    Rest.getTransaction c s (hashToHex c h) = jsonOr404 (s.getTx h) := by
  rw [Rest.getTransaction, hashToHex, hexKey_encode]

/-- The RPC by the hash in hex, whatever other parameters there are. -/
theorem Rpc.getTransaction_hashToHex (c : Crates) (s : WarmStorage) (h : Key32)
    (more : List Value) :
    Rpc.getTransaction c s (some (.array (.string (hashToHex c h) :: more)))
      = Rpc.parseStored c (s.getTx h) := by
  have hparam : extractStringParam (some (.array (.string (hashToHex c h) :: more))) 0
      = .ok (hashToHex c h) := rfl
  rw [Rpc.getTransaction, hparam]
  simp only [bind, Except.bind, hashToHex, c.hex.decode_encode, List.Vector.toList_length,
    ne_eq, not_true_eq_false, if_false, copyFromSlice_toList]

/-- A transaction payload can be found under its hash, its tick and its entities. -/
structure Retrievable (c : Crates) (s : WarmStorage) (w : Bytes) (tx : Transaction) (doc : Value) :
    Prop where
  /-- `GET /v1/tx/:hash` returns the published bytes. -/
  rest : Rest.getTransaction c s tx.hash = .raw (c.serde.transaction.toVec tx)
  /-- `getTransaction` returns the published document. -/
  rpc : ∀ more, Rpc.getTransaction c s (some (.array (.string tx.hash :: more))) = .ok doc
  /-- The listing of the tick at offset 72 has the hash. -/
  tick : ∃ hashes, s.getTxHashesForTick (UInt32.fromLeBytes (Wire.field w 72 4)) = .ok hashes ∧
    ∃ h ∈ hashes, hashToHex c h = tx.hash
  /-- So have the listings of the keys at offsets 0 and 32, reached by the decoded identities,
  once the limit covers the entries of the key. -/
  source : ∃ key, decodeBase26 c tx.sourceIdentity = some key ∧ key.toList = Wire.field w 0 32 ∧
    ∀ limit ≥ s.countEntityTransactions key, ∃ hashes,
      s.getTxHashesForEntity key limit = .ok hashes ∧ ∃ h ∈ hashes, hashToHex c h = tx.hash
  destination : ∃ key, decodeBase26 c tx.destinationIdentity = some key ∧
    key.toList = Wire.field w 32 32 ∧
    ∀ limit ≥ s.countEntityTransactions key, ∃ hashes,
      s.getTxHashesForEntity key limit = .ok hashes ∧ ∃ h ∈ hashes, hashToHex c h = tx.hash

/-- A hash in a slot of a tick is listed under the tick. -/
theorem mem_tick_listing {s : WarmStorage} {t i : UInt32} {h : Key32}
    (hslot : s.tickSlot t i = some h.toList) :
    ∃ hashes, s.getTxHashesForTick t = .ok hashes ∧ h ∈ hashes := by
  obtain ⟨hashes, hok, hlists⟩ := s.getTxHashesForTick_ok t
  exact ⟨hashes, hok, (hlists.mem_iff h).mpr ⟨i, hslot⟩⟩

/-- And one in a slot of an entity is, if the limit is not too small. -/
theorem mem_entity_listing {s : WarmStorage} {e : Key32} {slot : UInt32 × UInt32} {h : Key32}
    (hslot : s.entitySlot e slot = some h.toList) {limit : Nat}
    (hlimit : limit ≥ s.countEntityTransactions e) :
    ∃ hashes, s.getTxHashesForEntity e limit = .ok hashes ∧ h ∈ hashes := by
  obtain ⟨hashes, hok, hlists, hcount⟩ := s.getTxHashesForEntity_ok e
  rw [hcount] at hlimit
  refine ⟨hashes, ?_, (hlists.mem_iff h).mpr ⟨slot, hslot⟩⟩
  rw [hok limit, List.take_of_length_le hlimit]

/-- **End-to-end retrieval.** A payload that holds its announced input is decoded; indexing the
published JSON succeeds over any store; and afterwards the transaction is found under its hash by
REST and RPC, under its tick and under both its entities. -/
theorem transaction_retrievable (c : Crates) (ix : Indexer) {w : Bytes} (hw : Wire.Complete w)
    (hjson : ∀ tx, decodeTransaction c w = .ok tx →
      c.serde.transaction.fromSlice (c.serde.transaction.toVec tx) = .ok tx)
    {doc : Value} (hdoc : ∀ tx, decodeTransaction c w = .ok tx →
      c.serde.valueFromSlice (c.serde.transaction.toVec tx) = .ok doc) :
    ∃ tx ix', decodeTransaction c w = .ok tx ∧
      ix.indexTransaction c (c.serde.transaction.toVec tx) = .ok ix' ∧
      Retrievable c ix'.storage w tx doc := by
  have hheader : TX_HEADER_SIZE ≤ w.length := Nat.le_trans (Nat.le_add_right _ _) hw
  have hdecode := decodeTransaction_eq c hheader
  have hread := hjson _ hdecode
  have hvalue := hdoc _ hdecode
  refine ⟨_, _, hdecode, Indexer.indexTransaction_eq_consume ix hread, ?_⟩
  have hkey := hashBytes_transactionOf c w
  -- the hash text the clients see is the hex of the storage key
  have hhash : (Wire.transactionOf c w).hash
      = hashToHex c ((Wire.transactionOf c w).hashBytes c) := by
    rw [hkey, if_pos hw]
    exact if_pos hw
  have hget := Indexer.getTx_consume_tx ix hread
  have hentity : ∀ e, ((Wire.transactionOf c w).source c = some e ∨
      (Wire.transactionOf c w).destination c = some e) → _ := fun e he =>
    Indexer.entitySlot_consume_tx ix hread he
  refine ⟨?_, fun more => ?_, ?_, ?_, ?_⟩
  · rw [hhash, Rest.getTransaction_hashToHex, hget]
    rfl
  · rw [hhash, Rpc.getTransaction_hashToHex, hget, Rpc.parseStored, hvalue]
  · obtain ⟨hashes, hok, hmem⟩ := mem_tick_listing (Indexer.tickSlot_consume_tx ix hread)
    exact ⟨hashes, hok, _, hmem, hhash.symm⟩
  · refine ⟨Wire.source w, decodeBase26_encodeBase26 c _, Wire.toList_source hheader, ?_⟩
    intro limit hlimit
    obtain ⟨hashes, hok, hmem⟩ :=
      mem_entity_listing (hentity _ (.inl (source_transactionOf c w))) hlimit
    exact ⟨hashes, hok, _, hmem, hhash.symm⟩
  · refine ⟨Wire.destination w, decodeBase26_encodeBase26 c _, Wire.toList_destination hheader, ?_⟩
    intro limit hlimit
    obtain ⟨hashes, hok, hmem⟩ :=
      mem_entity_listing (hentity _ (.inr (destination_transactionOf c w))) hlimit
    exact ⟨hashes, hok, _, hmem, hhash.symm⟩

/-- The complete payload of tick 1, with its JSON as text and as a document. -/
def sampleServed : Known :=
  let tx := Wire.transactionOf (.ofKnown Indexer.sampleHashes) (Indexer.sampleWire 1 0)
  { Indexer.sampleHashes with
    txs := [tx]
    values := [(tx.json, tx.document)] }

/-- A transaction off the wire, all the way. -/
theorem transaction_retrievable_sample :
    ∃ tx ix', decodeTransaction (.ofKnown sampleServed) (Indexer.sampleWire 1 0) = .ok tx ∧
      (Indexer.new .empty {}).indexTransaction (.ofKnown sampleServed) tx.json = .ok ix' ∧
      Retrievable (.ofKnown sampleServed) ix'.storage (Indexer.sampleWire 1 0) tx
        (Wire.transactionOf (.ofKnown sampleServed) (Indexer.sampleWire 1 0)).document := by
  have hheader : TX_HEADER_SIZE ≤ (Indexer.sampleWire 1 0).length := by decide
  have hdecode := decodeTransaction_eq (.ofKnown sampleServed) hheader
  refine transaction_retrievable (.ofKnown sampleServed) (Indexer.new .empty {})
    (by decide +kernel) (fun tx htx => ?_) (fun tx htx => ?_)
  · rw [← Except.ok.inj (hdecode.symm.trans htx)]
    decide +kernel
  · rw [← Except.ok.inj (hdecode.symm.trans htx)]
    exact Crates.valueFromSlice_ofKnown List.lookup_cons_self

end Qonduit

import Qonduit.Backfill.IndexedTick
import Qonduit.Ingestion.Publish
import Qonduit.Processor.Consumer
import Qonduit.Query.Rest

/-!
# Qonduit — a tick from the wire to the API

`decode_tick` reads 139,376 bytes into a record that `publish_tick` slims down before it is
handed to NATS, `index_tick` stores what NATS delivers, and the API serves what is stored. No
component but the publisher ever holds the whole record.

* **`getTick_consume_tick`** — the indexer serves the published document, byte for byte.
* **`served_tick_incomplete`** — so the document served for a full payload always lacks the
  digests, the fees and the signature, and nothing else.
-/

namespace Qonduit

/-- What a consumer fetches of a publication: its stream and its JSON. -/
def Publication.message (c : Crates) : Publication → Message
  | .tick _ data => (.tick, c.serde.tickData.toVec data)
  | .tx _ data => (.tx, c.serde.transaction.toVec data)

/-- `GET /v1/tick/:tick` answers with JSON that reads as the record. -/
def ServesTick (c : Crates) (s : WarmStorage) (tickStr : Str) (tick : TickData) : Prop :=
  ∃ json, Rest.getTick s tickStr = .raw json ∧ c.serde.tickData.fromSlice json = .ok tick

/-- What is published of a tick is its slim form. -/
theorem publishTick_ok {epoch : UInt16} {tick : TickData} {nats : Except String Unit}
    {p : Publication} (h : publishTick epoch tick nats = .ok p) : p = .tick epoch tick.slim := by
  cases nats with
  | error cause => cases h
  | ok _ =>
    cases h
    rfl

/-! ## The full payload

A payload that is long enough has the digests, the fees and the signature, and the decoder reads all
three. -/

section Decoded

variable {c : Crates} {w : Bytes} {tick : TickData}

/-- A tick that decodes has passed the checks. -/
theorem passesChecks_of_decodeTick (h : decodeTick c w = .ok tick) : TickWire.PassesChecks w := by
  obtain ⟨-, msg, hmsg⟩ | ⟨hpass, -⟩ | ⟨hpass, -⟩ := decodeTick_cases c w
  · rw [h] at hmsg
    cases hmsg
  · exact hpass
  · exact hpass

/-- A decoded tick is the record its fields spell. -/
theorem eq_tickOf_of_decodeTick (h : decodeTick c w = .ok tick) :
    ∃ timestamp tail, tickTail c w = .ok tail ∧ tick = tickOf w timestamp tail := by
  rw [decodeTick_of_passesChecks c (passesChecks_of_decodeTick h)] at h
  obtain ⟨tail, htail⟩ := tickTail_ok c w
  cases hdate : qubicDateToUnix (2000 + (w.getD 15 0).toNat) (TickWire.month w) (w.getD 13 0)
      (w.getD 12 0) (w.getD 11 0) (w.getD 10 0) with
  | error fault =>
    rw [hdate] at h
    cases h
  | ok timestamp =>
    rw [hdate, ok_bind, htail, ok_bind] at h
    cases h
    exact ⟨timestamp, tail, htail, rfl⟩

theorem encode_ne_nil (c : Crates) {bs : Bytes} (h : 0 < bs.length) : c.hex.encode bs ≠ [] := by
  intro hnil
  have hlen := c.hex.length_encode bs
  rw [hnil, List.length_nil] at hlen
  omega

/-- A full payload spells all three large fields. -/
theorem tickTail_full (hlen : 139376 ≤ w.length) :
    ∃ tail, tickTail c w = .ok tail ∧ tail.1 ≠ [] ∧ tail.2.1 ≠ [] ∧ tail.2.2 ≠ [] := by
  have hfield : ∀ {a n}, a + n ≤ 139376 → 0 < n → c.hex.encode (Wire.field w a n) ≠ [] :=
    fun han hn => encode_ne_nil c (by rw [Wire.length_field (Nat.le_trans han hlen)]; exact hn)
  unfold tickTail
  rw [if_pos hlen, Wire.sliceAt_eq_field (by decide) (by omega),
    Wire.sliceAt_eq_field (by decide) (by omega), Wire.sliceAt_eq_field (by decide) hlen]
  exact ⟨_, rfl, hfield (by decide) (by decide), hfield (by decide) (by decide),
    hfield (by decide) (by decide)⟩

/-- A tick decoded from a full payload is in the range of epochs and has its large fields. -/
theorem decodeTick_full (hlen : 139376 ≤ w.length) (h : decodeTick c w = .ok tick) :
    tick.epoch ≤ 1000 ∧ tick.transactionDigestsHex ≠ [] ∧ tick.contractFeesHex ≠ [] ∧
      tick.signatureHex ≠ [] := by
  obtain ⟨timestamp, tail, htail, rfl⟩ := eq_tickOf_of_decodeTick h
  obtain ⟨tail', htail', hfields⟩ := tickTail_full (c := c) hlen
  rw [htail] at htail'
  cases htail'
  exact ⟨(passesChecks_of_decodeTick h).2.1, hfields⟩

end Decoded

/-! ## The stored document

The publisher empties the three fields before the message is made, and the indexer stores the
message as it is. -/

/-- **The indexer serves a tick as it was delivered**, byte for byte. It parses the payload to check
the epoch and to find the tick number, and stores what it was given. -/
theorem getTick_consume_tick (c : Crates) (ix : Indexer) {payload : Bytes} {tick : TickData}
    (hread : c.serde.tickData.fromSlice payload = .ok tick) (hepoch : tick.epoch ≤ 1000) :
    (Indexer.consume c ix (.tick, payload)).storage.getTick tick.tick = some payload := by
  have haccepts : Indexer.acceptsTick tick = true := by
    rw [Indexer.acceptsTick, Bool.not_eq_true', decide_eq_false_iff_not]
    exact UInt16.not_lt.mpr hepoch
  have hindex : ix.indexTick c payload
      = .ok ((ix.commitTick tick payload).updateEpochStats c tick.epoch
          (Indexer.countTick tick.tick)) := by
    simp only [Indexer.indexTick, withContext, hread, if_pos haccepts]
  have hmeta : ∀ p ∈ [Put.metaValue currentTickKey tick.tick.toBeBytes,
      Put.metaValue currentEpochKey tick.epoch.toBeBytes], p.cf ≠ .tick := by
    simp [Put.metaValue]
  rw [@Indexer.consume_of_ok c .tick _ _ _ hindex]
  show ((ix.storage.batchWrite (WarmStorage.batchPutTick [] tick.tick tick.epoch payload)
    ).putEpochStats _ _).getTick tick.tick = some payload
  rw [getTick_putEpochStats]
  show ((ix.storage.putCf (.tick tick.tick payload)).batchWrite _).view
    (.tick, tick.tick.toBeBytes) = _
  rw [WarmStorage.view_batchWrite_of_cf hmeta, WarmStorage.view_putCf, WriteLog.replay_singleton]
  exact if_pos rfl

section Served

variable {c : Crates} {ix : Indexer} {w : Bytes} {tick : TickData} {epoch : UInt16}
  {nats : Except String Unit} {p : Publication} {tickStr : Str}

/-- What is served is what was published. -/
theorem serves_slim (hpub : publishTick epoch tick nats = .ok p) (hepoch : tick.epoch ≤ 1000)
    (hjson : c.serde.tickData.fromSlice (c.serde.tickData.toVec tick.slim) = .ok tick.slim)
    (hstr : parseU32 tickStr = some tick.tick) :
    ServesTick c (Indexer.consume c ix (p.message c)).storage tickStr tick.slim := by
  rw [publishTick_ok hpub]
  refine ⟨c.serde.tickData.toVec tick.slim, ?_, hjson⟩
  have hget := getTick_consume_tick c ix hjson hepoch
  rw [Rest.getTick, hstr]
  show jsonOr404 ((Indexer.consume c ix _).storage.getTick tick.slim.tick) = _
  rw [Publication.message, hget]
  rfl

/-- A document reads as one record. -/
theorem ServesTick.unique {s : WarmStorage} {tick tick' : TickData}
    (h : ServesTick c s tickStr tick) (h' : ServesTick c s tickStr tick') : tick = tick' := by
  obtain ⟨json, hraw, hread⟩ := h
  obtain ⟨json', hraw', hread'⟩ := h'
  rw [hraw] at hraw'
  cases hraw'
  rw [hread] at hread'
  exact Except.ok.inj hread'

/-- **The served tick is never the decoded one**: of a full payload the digests, the fees and the
signature are lost, and nothing else is. -/
theorem served_tick_incomplete (hlen : 139376 ≤ w.length) (hdecode : decodeTick c w = .ok tick)
    (hpub : publishTick epoch tick nats = .ok p)
    (hjson : c.serde.tickData.fromSlice (c.serde.tickData.toVec tick.slim) = .ok tick.slim)
    (hstr : parseU32 tickStr = some tick.tick) :
    (∀ served, ServesTick c (Indexer.consume c ix (p.message c)).storage tickStr served →
      served.transactionDigestsHex ≠ tick.transactionDigestsHex ∧
      served.contractFeesHex ≠ tick.contractFeesHex ∧
      served.signatureHex ≠ tick.signatureHex) ∧
    ServesTick c (Indexer.consume c ix (p.message c)).storage tickStr tick.slim := by
  obtain ⟨hepoch, hdigests, hfees, hsignature⟩ := decodeTick_full hlen hdecode
  have hserves := @serves_slim _ ix _ _ _ _ _ hpub hepoch hjson hstr
  refine ⟨fun served hserved => ?_, hserves⟩
  rw [hserved.unique hserves]
  exact ⟨hdigests.symm, hfees.symm, hsignature.symm⟩

end Served

/-! ## A payload of zeros

It passes every check, as its month is 0, and it spells three fields of zeros. -/

def zeroPayload : Bytes := List.replicate 139376 0

/-- The record of the zero payload as it is published: month and day 0 count as January 1. -/
def zeroTick : TickData := { sampleTick 0 0 with timestamp := 946684800 }

def sampleZeroTick : Known where
  ticks := [zeroTick]

theorem field_zeroPayload {a n : Nat} (h : a + n ≤ 139376) :
    Wire.field zeroPayload a n = List.replicate n 0 := by
  rw [Wire.field, zeroPayload, List.drop_replicate, List.take_replicate, Nat.min_eq_left (by omega)]

theorem getD_zeroPayload (i : Nat) : zeroPayload.getD i 0 = 0 := by
  rw [zeroPayload, List.getD_eq_getElem?_getD, List.getElem?_replicate]
  split <;> rfl

/-- A payload of zeros decodes: epoch and computor index are 0 and so within their bounds, and month
0 is within the table of months. -/
theorem decodeTick_zeroPayload (c : Crates) :
    ∃ tick, decodeTick c zeroPayload = .ok tick ∧ tick.slim = zeroTick := by
  have hlen : zeroPayload.length = 139376 := List.length_replicate
  have hpass : TickWire.PassesChecks zeroPayload := by
    refine ⟨by omega, ?_, ?_⟩
    · rw [TickWire.epoch, field_zeroPayload (by decide)]
      decide
    · rw [TickWire.computorIndex, field_zeroPayload (by decide)]
      decide
  obtain ⟨tail, htail⟩ := tickTail_ok c zeroPayload
  rw [decodeTick_of_passesChecks c hpass, TickWire.month]
  simp only [getD_zeroPayload]
  have hdate : qubicDateToUnix (2000 + UInt8.toNat 0) 0 0 0 0 0 = .ok 946684800 := by decide
  rw [hdate, ok_bind, htail, ok_bind]
  refine ⟨_, rfl, ?_⟩
  simp only [TickData.slim, tickOf, TickWire.computorIndex, TickWire.epoch, TickWire.tick,
    field_zeroPayload (show 0 + 2 ≤ 139376 by decide),
    field_zeroPayload (show 2 + 2 ≤ 139376 by decide),
    field_zeroPayload (show 4 + 4 ≤ 139376 by decide),
    field_zeroPayload (show 16 + 32 ≤ 139376 by decide)]
  decide

/-- The zero payload, published and read back. -/
theorem sampleZeroTick_published :
    ∃ tick p, decodeTick (Crates.ofKnown sampleZeroTick) zeroPayload = .ok tick ∧
      publishTick 0 tick (.ok ()) = .ok p ∧ parseU32 [48] = some tick.tick ∧
      (Crates.ofKnown sampleZeroTick).serde.tickData.fromSlice
        ((Crates.ofKnown sampleZeroTick).serde.tickData.toVec tick.slim) = .ok tick.slim := by
  obtain ⟨tick, hdecode, hslim⟩ := decodeTick_zeroPayload (Crates.ofKnown sampleZeroTick)
  have htick : tick.tick = 0 := congrArg TickData.tick hslim
  refine ⟨tick, _, hdecode, rfl, ?_, ?_⟩
  · rw [htick]
    decide
  · rw [hslim]
    simp [Crates.ofKnown, JsonCodec.known, sampleZeroTick]

/-- None of the three fields is served. -/
theorem served_tick_incomplete_sample :
    ∃ tick p, decodeTick (Crates.ofKnown sampleZeroTick) zeroPayload = .ok tick ∧
      (∀ served, ServesTick (Crates.ofKnown sampleZeroTick) (Indexer.consume
          (Crates.ofKnown sampleZeroTick) (.new .empty {})
          (Publication.message (Crates.ofKnown sampleZeroTick) p)).storage [48] served →
        served.transactionDigestsHex ≠ tick.transactionDigestsHex ∧
        served.contractFeesHex ≠ tick.contractFeesHex ∧
        served.signatureHex ≠ tick.signatureHex) := by
  obtain ⟨tick, p, hdecode, hpub, hstr, hjson⟩ := sampleZeroTick_published
  have hlen : 139376 ≤ zeroPayload.length := Nat.le_of_eq List.length_replicate.symm
  exact ⟨tick, p, hdecode, (served_tick_incomplete hlen hdecode hpub hjson hstr).1⟩

/-- The digests decoded from the zero payload are not served. -/
theorem tick_loses_fields :
    ∃ tick p, decodeTick (Crates.ofKnown sampleZeroTick) zeroPayload = .ok tick ∧
      publishTick 0 tick (.ok ()) = .ok p ∧
      ¬ServesTick (Crates.ofKnown sampleZeroTick) (Indexer.consume
          (Crates.ofKnown sampleZeroTick) (.new .empty {})
          (Publication.message (Crates.ofKnown sampleZeroTick) p)).storage [48] tick := by
  obtain ⟨tick, p, hdecode, hpub, hstr, hjson⟩ := sampleZeroTick_published
  have hlen : 139376 ≤ zeroPayload.length := Nat.le_of_eq List.length_replicate.symm
  obtain ⟨hepoch, hdigests, -⟩ := decodeTick_full hlen hdecode
  refine ⟨tick, p, hdecode, hpub, fun hserved => hdigests ?_⟩
  have hslim := hserved.unique (serves_slim hpub hepoch hjson hstr)
  exact congrArg TickData.transactionDigestsHex hslim

end Qonduit

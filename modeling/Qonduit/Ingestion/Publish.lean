import Qonduit.Core.JsonRecords
import Qonduit.Ingestion.LogDecoders
import Qonduit.Ingestion.Protocol
import Qonduit.Ingestion.Quorums

/-!
# Qonduit — what a packet publishes

`decoder.rs` dispatches a packet on its type: it is decoded, and what it decodes to goes to the
publish methods of `nats_publish.rs`, each of which has a subject and a JSON of its own. A refused
publish ends the call. Of the decoder's state only the votes matter.

* **`decodeAndPublish`** — one packet; `publications` — a sequence of them, nothing refused.
* **`decoded_of_attempted`** — all a packet can publish, whatever the publisher answers.
* **`filterMap_publications`** — what a sequence publishes, packet by packet, where votes play no
  part.
-/

namespace Qonduit

/-- A broadcast message, its payload in hexadecimal. -/
structure CustomMessage where
  tick : UInt32
  messageType : UInt32
  payloadHex : Str
  deriving DecidableEq

/-- The calls of the `publish_*` methods the decoders make, each with its record. -/
inductive PublishCall where
  | tick (tick : TickData)
  | tx (tx : Transaction)
  | entity (entity : EntityData)
  | computors (computors : Computors)
  | customMessage (msg : CustomMessage)
  | contractIpo (ipo : ContractIpo)
  | contractFn (dejavu : UInt32) (data : Bytes)
  | tickVote (vote : TickVote)
  | logEvents (events : List LogEvent)
  | quorumTick (qt : QuorumTick)
  | logStateDigest (digest : LogStateDigest)
  | oracleData (oracle : OracleDataResponse)
  | customMiningTask (task : CustomMiningTask)
  | customMiningSolution (solution : CustomMiningSolution)
  deriving DecidableEq

/-- `serde_json::to_vec` at the types that only the publisher writes. -/
structure PublisherJson where
  customMessage : CustomMessage → Bytes
  tickVote : TickVote → Bytes
  quorumTick : QuorumTick → Bytes
  logStateDigest : LogStateDigest → Bytes
  oracleDataResponse : OracleDataResponse → Bytes
  customMiningTask : CustomMiningTask → Bytes
  customMiningSolution : CustomMiningSolution → Bytes
  value : Value → Bytes

/-- `Q.{epoch}.QONDUIT.{type}`. -/
def qonduitSubject (epoch : UInt16) (type : String) : Str :=
  ascii "Q." ++ jsonNat epoch.toNat ++ ascii ".QONDUIT." ++ ascii type

/-- What `publish_tick` keeps of a tick: the large fields would break the payload limit of the
bus. -/
def TickData.slim (tick : TickData) : TickData :=
  { tick with transactionDigestsHex := [], contractFeesHex := [], signatureHex := [] }

namespace PublishCall

def subject (epoch : UInt16) : PublishCall → Str
  | .tick _ => qonduitSubject epoch "TICK"
  | .tx _ => qonduitSubject epoch "TX"
  | .entity _ => qonduitSubject epoch "ENTITY"
  | .computors _ => qonduitSubject epoch "COMPUTORS"
  | .customMessage _ => qonduitSubject epoch "CUSTMSG"
  | .contractIpo _ => qonduitSubject epoch "CONTRACT"
  | .contractFn _ _ => qonduitSubject epoch "CFNR"
  | .tickVote _ => qonduitSubject epoch "TICKVOTE"
  | .logEvents _ => qonduitSubject epoch "LOG"
  | .quorumTick _ => qonduitSubject epoch "QUORUM"
  -- a digest belongs to no epoch
  | .logStateDigest _ => ascii "Q.0.QONDUIT.LOGDIGEST"
  | .oracleData _ => qonduitSubject epoch "ORACLE"
  | .customMiningTask _ => qonduitSubject epoch "MINING"
  | .customMiningSolution _ => qonduitSubject epoch "MINING"

def payload (c : Crates) (j : PublisherJson) : PublishCall → Bytes
  | .tick record => c.serde.tickData.toVec record.slim
  | .tx record => c.serde.transaction.toVec record
  | .entity record => c.serde.entityData.toVec record
  | .computors record => c.serde.computors.toVec record
  | .customMessage msg => j.customMessage msg
  | .contractIpo ipo => c.serde.contractIpo.toVec ipo
  | .contractFn dejavu data => j.value (.object [("data_hex", .string (c.hex.encode data)),
      ("dejavu", .number (.posInt dejavu.toUInt64))])
  | .tickVote vote => j.tickVote vote
  | .logEvents events => c.serde.logEvents.toVec events
  | .quorumTick qt => j.quorumTick qt
  | .logStateDigest digest => j.logStateDigest digest
  | .oracleData oracle => j.oracleDataResponse oracle
  | .customMiningTask task => j.customMiningTask task
  | .customMiningSolution solution => j.customMiningSolution solution

end PublishCall

/-- The custom message of a log event. -/
def LogEvent.message (c : Crates) (event : LogEvent) : CustomMessage where
  tick := event.tick
  messageType := event.eventType.toUInt32
  payloadHex := c.hex.encode event.data

/-- What a broadcast message publishes: its events in one batch, then one message for each. -/
def broadcastRecords (c : Crates) (events : List LogEvent) : List PublishCall :=
  (if events.isEmpty then [] else [.logEvents events])
    ++ events.map (fun event => .customMessage (event.message c))

/-- The arms of `decode_and_publish` other than that of a vote: what they publish. -/
def recordsOf (c : Crates) (msgType : UInt8) (dejavu : UInt32) (payload : Bytes) :
    Outcome (List PublishCall) :=
  if msgType = 8 then (decodeTick c payload).map (fun tick => [.tick tick])
  else if msgType = 24 then (decodeTransaction c payload).map (fun tx => [.tx tx])
  else if msgType = 2 then (decodeComputors c payload).map (fun computors => [.computors computors])
  else if msgType = 32 then (decodeEntity c payload).map (fun entity => [.entity entity])
  else if msgType = 34 then (decodeContractIpo c payload).map (fun ipo => [.contractIpo ipo])
  -- system and tick info are only checked
  else if msgType = 47 then (decodeSystemInfo c payload).map (fun _ => [])
  else if msgType = 28 then (decodeCurrentTickInfo payload).map (fun _ => [])
  else if msgType = 43 then .ok [.contractFn dejavu payload]
  else if msgType = 51 then (decodeAllLogIdRanges payload 0).map (fun _ => [])
  -- `TryAgain` and `EndResponse`
  else if msgType = 54 ∨ msgType = 35 then .ok []
  else if msgType = 1 then (decodeLogEvents payload).map (broadcastRecords c)
  else if msgType = 57 then (decodePruningLogResponse payload).map (fun _ => [])
  else if msgType = 59 then
    (decodeLogStateDigest c payload).map (fun digest => [.logStateDigest digest])
  else if msgType = 67 then (decodeOracleData c payload).map (fun oracle => [.oracleData oracle])
  else if msgType = 68 then
    (decodeCustomMiningTask c payload).map (fun task => [.customMiningTask task])
  else if msgType = 69 then
    (decodeCustomMiningSolution c payload).map (fun solution => [.customMiningSolution solution])
  else if msgType = 202 then (decodeTxStatus c payload 0).map (fun _ => [])
  -- an unknown type is ignored
  else .ok []

namespace PacketDecoder

/-- What a call leaves: the decoder, what it handed to the publisher, and its result. -/
structure DecodeCall where
  decoder : PacketDecoder
  attempted : List PublishCall
  result : Outcome Unit

/-- Publishes one record after the other, up to the first that is refused; `answer i` is the
publisher's answer to the `i`-th publish of the call. -/
def publishEach (answer : Nat → Outcome Unit) :
    Nat → List PublishCall → List PublishCall × Outcome Unit
  | _, [] => ([], .ok ())
  | i, p :: ps =>
    match answer i with
    | .ok () => (p :: (publishEach answer (i + 1) ps).1, (publishEach answer (i + 1) ps).2)
    | .error fault => ([p], .error fault)

/-- What a vote payload hands to the publisher: the vote, and the quorum it completes. -/
def votePublications (d : PacketDecoder) (acks : Acks) (payload : Bytes) : List PublishCall :=
  ((voteOf payload).map PublishCall.tickVote).toList
    ++ ((d.decodeTickVote acks payload).produced.map PublishCall.quorumTick).toList

def decodeAndPublish (c : Crates) (d : PacketDecoder) (answer : Nat → Outcome Unit)
    (msgType : UInt8) (dejavu : UInt32) (payload : Bytes) : DecodeCall :=
  if msgType = 3 then
    let acks : Acks := ⟨answer 0, answer 1⟩
    let call := d.decodeTickVote acks payload
    ⟨call.decoder, d.votePublications acks payload, call.result⟩
  else
    match recordsOf c msgType dejavu payload with
    | .error fault => ⟨d, [], .error fault⟩
    | .ok ps => ⟨d, (publishEach answer 0 ps).1, (publishEach answer 0 ps).2⟩

/-- Every publish succeeds. -/
def accept : Nat → Outcome Unit := fun _ => .ok ()

/-- What a sequence of packets publishes, each under the epoch current when it arrived, in order
and with nothing refused. -/
def publications (c : Crates) (d : PacketDecoder) :
    List (UInt16 × Received) → List (UInt16 × PublishCall)
  | [] => []
  | (epoch, msgType, dejavu, payload) :: packets =>
    let call := d.decodeAndPublish c accept msgType dejavu payload
    call.attempted.map (Prod.mk epoch) ++ publications c call.decoder packets

/-! ## What a packet can publish

Whatever the publisher answers, a packet publishes records that its decoders made of its payload. A
vote is the exception, as the quorum it may complete is made of earlier packets as well. -/

/-- The records a packet can publish, each with the decoder it comes from. -/
inductive Decoded (c : Crates) (dejavu : UInt32) (w : Bytes) : UInt8 → PublishCall → Prop
  | tick {tick : TickData} (h : decodeTick c w = .ok tick) : Decoded c dejavu w 8 (.tick tick)
  | tx {tx : Transaction} (h : decodeTransaction c w = .ok tx) : Decoded c dejavu w 24 (.tx tx)
  | computors {computors : Computors} (h : decodeComputors c w = .ok computors) :
      Decoded c dejavu w 2 (.computors computors)
  | entity {entity : EntityData} (h : decodeEntity c w = .ok entity) :
      Decoded c dejavu w 32 (.entity entity)
  | contractIpo {ipo : ContractIpo} (h : decodeContractIpo c w = .ok ipo) :
      Decoded c dejavu w 34 (.contractIpo ipo)
  | contractFn : Decoded c dejavu w 43 (.contractFn dejavu w)
  | logEvents {events : List LogEvent} (h : decodeLogEvents w = .ok events) (hne : events ≠ []) :
      Decoded c dejavu w 1 (.logEvents events)
  | customMessage {events : List LogEvent} (h : decodeLogEvents w = .ok events)
      {event : LogEvent} (hevent : event ∈ events) :
      Decoded c dejavu w 1 (.customMessage (event.message c))
  | logStateDigest {digest : LogStateDigest} (h : decodeLogStateDigest c w = .ok digest) :
      Decoded c dejavu w 59 (.logStateDigest digest)
  | oracleData {oracle : OracleDataResponse} (h : decodeOracleData c w = .ok oracle) :
      Decoded c dejavu w 67 (.oracleData oracle)
  | customMiningTask {task : CustomMiningTask} (h : decodeCustomMiningTask c w = .ok task) :
      Decoded c dejavu w 68 (.customMiningTask task)
  | customMiningSolution {solution : CustomMiningSolution}
      (h : decodeCustomMiningSolution c w = .ok solution) :
      Decoded c dejavu w 69 (.customMiningSolution solution)
  | tickVote {vote : TickVote} (h : voteOf w = some vote) : Decoded c dejavu w 3 (.tickVote vote)
  | quorumTick {vote : TickVote} (h : voteOf w = some vote) {qt : QuorumTick}
      (hkey : qt.key = vote.key) : Decoded c dejavu w 3 (.quorumTick qt)

section

variable {c : Crates} {dejavu : UInt32} {w : Bytes} {ps : List PublishCall} {p : PublishCall}

/-- A decoder with one record publishes that record. -/
theorem of_map_singleton {α : Type} {r : Outcome α} {f : α → PublishCall}
    (h : r.map (fun a => [f a]) = .ok ps) (hp : p ∈ ps) : ∃ a, r = .ok a ∧ p = f a := by
  cases r with
  | error fault => cases h
  | ok a =>
    cases h
    exact ⟨a, rfl, List.mem_singleton.mp hp⟩

/-- A decoder that publishes nothing has no record. -/
theorem not_mem_of_map_nil {α : Type} {r : Outcome α}
    (h : r.map (fun _ => ([] : List PublishCall)) = .ok ps) : p ∉ ps := by
  cases r with
  | error fault => cases h
  | ok a =>
    cases h
    exact List.not_mem_nil

/-- A message with events publishes them together, unless there are none, and then one message for
each. -/
theorem decoded_of_broadcast (h : (decodeLogEvents w).map (broadcastRecords c) = .ok ps)
    (hp : p ∈ ps) : Decoded c dejavu w 1 p := by
  cases hevents : decodeLogEvents w with
  | error fault => rw [hevents] at h; cases h
  | ok events =>
    rw [hevents] at h
    cases h
    rcases List.mem_append.mp hp with hp | hp
    · by_cases hempty : events.isEmpty
      · rw [if_pos hempty] at hp
        cases hp
      · rw [if_neg hempty] at hp
        rw [List.mem_singleton.mp hp]
        exact .logEvents hevents (fun hnil => hempty (by rw [hnil]; rfl))
    · obtain ⟨event, hevent, rfl⟩ := List.mem_map.mp hp
      exact .customMessage hevents hevent

/-- One branch of the dispatch, or one of those behind it. -/
theorem of_ite {cond : Prop} [Decidable cond] {x y : Outcome (List PublishCall)}
    (h : (if cond then x else y) = .ok ps) : (cond ∧ x = .ok ps) ∨ y = .ok ps := by
  by_cases hcond : cond
  · rw [if_pos hcond] at h
    exact .inl ⟨hcond, h⟩
  · rw [if_neg hcond] at h
    exact .inr h

/-- The records of a packet are those of the decoder for its type. The types are tried in the order
of the source. -/
theorem decoded_of_recordsOf {msgType : UInt8} (h : recordsOf c msgType dejavu w = .ok ps)
    (hp : p ∈ ps) : Decoded c dejavu w msgType p := by
  rcases of_ite h with ⟨rfl, h⟩ | h
  · obtain ⟨tick, htick, rfl⟩ := of_map_singleton h hp
    exact .tick htick
  rcases of_ite h with ⟨rfl, h⟩ | h
  · obtain ⟨tx, htx, rfl⟩ := of_map_singleton h hp
    exact .tx htx
  rcases of_ite h with ⟨rfl, h⟩ | h
  · obtain ⟨computors, hcomputors, rfl⟩ := of_map_singleton h hp
    exact .computors hcomputors
  rcases of_ite h with ⟨rfl, h⟩ | h
  · obtain ⟨entity, hentity, rfl⟩ := of_map_singleton h hp
    exact .entity hentity
  rcases of_ite h with ⟨rfl, h⟩ | h
  · obtain ⟨ipo, hipo, rfl⟩ := of_map_singleton h hp
    exact .contractIpo hipo
  rcases of_ite h with ⟨-, h⟩ | h
  · exact absurd hp (not_mem_of_map_nil h)
  rcases of_ite h with ⟨-, h⟩ | h
  · exact absurd hp (not_mem_of_map_nil h)
  rcases of_ite h with ⟨rfl, h⟩ | h
  · cases h
    rw [List.mem_singleton.mp hp]
    exact .contractFn
  rcases of_ite h with ⟨-, h⟩ | h
  · exact absurd hp (not_mem_of_map_nil h)
  rcases of_ite h with ⟨-, h⟩ | h
  · cases h
    cases hp
  rcases of_ite h with ⟨rfl, h⟩ | h
  · exact decoded_of_broadcast h hp
  rcases of_ite h with ⟨-, h⟩ | h
  · exact absurd hp (not_mem_of_map_nil h)
  rcases of_ite h with ⟨rfl, h⟩ | h
  · obtain ⟨digest, hdigest, rfl⟩ := of_map_singleton h hp
    exact .logStateDigest hdigest
  rcases of_ite h with ⟨rfl, h⟩ | h
  · obtain ⟨oracle, horacle, rfl⟩ := of_map_singleton h hp
    exact .oracleData horacle
  rcases of_ite h with ⟨rfl, h⟩ | h
  · obtain ⟨task, htask, rfl⟩ := of_map_singleton h hp
    exact .customMiningTask htask
  rcases of_ite h with ⟨rfl, h⟩ | h
  · obtain ⟨solution, hsolution, rfl⟩ := of_map_singleton h hp
    exact .customMiningSolution hsolution
  rcases of_ite h with ⟨-, h⟩ | h
  · exact absurd hp (not_mem_of_map_nil h)
  cases h
  cases hp

/-- Publishing stops at the first error, so what was attempted is a beginning of the records. -/
theorem subset_publishEach (answer : Nat → Outcome Unit) (i : Nat) (ps : List PublishCall) :
    (publishEach answer i ps).1 ⊆ ps := by
  induction ps generalizing i with
  | nil => exact List.Subset.refl _
  | cons q ps ih =>
    rw [publishEach]
    cases answer i with
    | ok =>
      exact List.cons_subset_cons q (ih (i + 1))
    | error fault =>
      exact List.cons_subset_cons q (List.nil_subset ps)

/-- A quorum event is about the key of the vote that completes it. -/
theorem key_of_produced {d : PacketDecoder} {acks : Acks} {qt : QuorumTick}
    (h : (d.decodeTickVote acks w).produced = some qt) :
    ∃ vote, voteOf w = some vote ∧ qt.key = vote.key := by
  rcases attempt_cases d (acks, w) with ⟨-, -, hproduced⟩ | ⟨vote, -, hvote, -, hproduced⟩
  · rw [hproduced] at h
    cases h
  · rw [hproduced] at h
    obtain ⟨-, rfl⟩ := (d.voteAggregator.recordVote_eq_some_iff vote).mp h
    exact ⟨vote, hvote, rfl⟩

/-- **All a packet can publish**, whatever the publisher answers. -/
theorem decoded_of_attempted {d : PacketDecoder} {answer : Nat → Outcome Unit} {msgType : UInt8}
    (h : p ∈ (d.decodeAndPublish c answer msgType dejavu w).attempted) :
    Decoded c dejavu w msgType p := by
  rw [decodeAndPublish] at h
  -- a vote and the quorum it completes, or the records of another type
  by_cases ht : msgType = 3
  · rw [if_pos ht] at h
    subst ht
    rcases List.mem_append.mp h with h | h
    · obtain ⟨vote, hvote, rfl⟩ := Option.map_eq_some_iff.mp (Option.mem_toList.mp h)
      exact .tickVote hvote
    · obtain ⟨qt, hqt, rfl⟩ := Option.map_eq_some_iff.mp (Option.mem_toList.mp h)
      obtain ⟨vote, hvote, hkey⟩ := key_of_produced hqt
      exact .quorumTick hvote hkey
  · rw [if_neg ht] at h
    cases hrecords : recordsOf c msgType dejavu w with
    | error fault => simp only [hrecords] at h; cases h
    | ok ps =>
      simp only [hrecords] at h
      exact decoded_of_recordsOf hrecords (subset_publishEach answer 0 ps h)

end

/-! ## What a sequence publishes

With a publisher that takes everything a sequence of packets publishes the records of each, in
order, and quorum events between them. What ignores the quorum events therefore depends on each
packet alone. -/

/-- A publisher that takes everything is given every record. -/
theorem publishEach_accept (i : Nat) (ps : List PublishCall) :
    publishEach accept i ps = (ps, .ok ()) := by
  induction ps generalizing i with
  | nil => rfl
  | cons p ps ih =>
    show (p :: (publishEach accept (i + 1) ps).1, (publishEach accept (i + 1) ps).2) = _
    rw [ih]

/-- The records a packet publishes when nothing is refused, apart from a quorum event. -/
def records (c : Crates) (packet : Received) : List PublishCall :=
  if packet.1 = 3 then ((voteOf packet.2.2).map PublishCall.tickVote).toList
  else (recordsOf c packet.1 packet.2.1 packet.2.2).toOption.getD []

/-- The records of a packet come from its payload. -/
theorem decoded_of_mem_records {c : Crates} {packet : Received} {p : PublishCall}
    (h : p ∈ records c packet) : Decoded c packet.2.1 packet.2.2 packet.1 p := by
  obtain ⟨msgType, dejavu, w⟩ := packet
  rw [records] at h
  by_cases ht : msgType = 3
  · subst ht
    rw [if_pos rfl] at h
    obtain ⟨vote, hvote, rfl⟩ := Option.map_eq_some_iff.mp (Option.mem_toList.mp h)
    exact .tickVote hvote
  · rw [if_neg ht] at h
    cases hrecords : recordsOf c msgType dejavu w with
    | error fault => rw [hrecords] at h; cases h
    | ok ps =>
      rw [hrecords] at h
      exact decoded_of_recordsOf hrecords h

/-- A packet publishes its records, and the quorums it completes behind them. -/
theorem attempted_accept (c : Crates) (d : PacketDecoder) (packet : Received) :
    ∃ quorums : List QuorumTick,
      (d.decodeAndPublish c accept packet.1 packet.2.1 packet.2.2).attempted
        = records c packet ++ quorums.map PublishCall.quorumTick := by
  rw [decodeAndPublish, records]
  by_cases ht : packet.1 = 3
  · rw [if_pos ht, if_pos ht]
    refine ⟨(d.decodeTickVote ⟨accept 0, accept 1⟩ packet.2.2).produced.toList, ?_⟩
    show votePublications _ _ _ = _
    rw [votePublications, Option.toList_map, Option.toList_map]
  · rw [if_neg ht, if_neg ht]
    refine ⟨[], ?_⟩
    rw [List.map_nil, List.append_nil]
    cases recordsOf c packet.1 packet.2.1 packet.2.2 with
    | error fault => rfl
    | ok ps =>
      show (publishEach accept 0 ps).1 = ps
      rw [publishEach_accept]

/-- **What a sequence publishes**, apart from quorum events: the records of its packets, one
after the other. -/
theorem filterMap_publications (c : Crates) {β : Type} {f : UInt16 × PublishCall → Option β}
    (hquorum : ∀ epoch qt, f (epoch, .quorumTick qt) = none) (d : PacketDecoder)
    (packets : List (UInt16 × Received)) :
    (publications c d packets).filterMap f = packets.flatMap
      (fun packet => ((records c packet.2).map (Prod.mk packet.1)).filterMap f) := by
  induction packets generalizing d with
  | nil => rfl
  | cons packet packets ih =>
    obtain ⟨epoch, packet⟩ := packet
    obtain ⟨quorums, hattempted⟩ := attempted_accept c d packet
    have hquorums :
        ((quorums.map PublishCall.quorumTick).map (Prod.mk epoch)).filterMap f = [] := by
      rw [List.filterMap_eq_nil_iff]
      intro p hp
      obtain ⟨q, hq, rfl⟩ := List.mem_map.mp hp
      obtain ⟨qt, -, rfl⟩ := List.mem_map.mp hq
      exact hquorum epoch qt
    rw [publications, List.filterMap_append, ih, List.flatMap_cons, hattempted, List.map_append,
      List.filterMap_append, hquorums, List.append_nil]

end PacketDecoder

end Qonduit

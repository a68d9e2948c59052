import Mathlib.Data.List.Infix
import Qonduit.Processor.Fetching

/-!
# Qonduit — streams that come in order

The index of the transactions of a tick depends on the order in which they are handled, and so a
message that comes again in the same life is indexed twice. A start in catch-up mode has the durable
consumer deleted and made anew, and the new one begins with the first message of the stream.

* **`rebuilding_exec`** — along any run whose starts are all in catch-up mode, what earlier lives
  have written makes no difference to a life that comes to the end of the stream.
* **`catch_up_rebuilds`** — a task that is through has left what one uninterrupted pass leaves, the
  indexes included.
-/

namespace Qonduit

namespace Processor

open Indexer

/-! ## Lives that were cut off

A life that begins with the first message of a stream performs the log of the stream, from the store
it finds. The lives before it were cut off somewhere in that log, so that what they have written
makes no difference to a life that comes to the end. -/

/-- The position counter of the transactions is that of the messages handled in this life. -/
def CountsHandled (c : Crates) (proc : Processor) : Prop :=
  (proc.task .tx).phase ≠ none → ∀ tick,
    proc.ix.txIndex tick = position (acceptedTicks c ((proc.task .tx).handled.map Prod.fst)) tick

/-- The writes of a stream. -/
def streamWrites (c : Crates) (σ : Stream) (msgs : List JsMessage) :
    List ((Cf × Bytes) × Bytes) :=
  (streamLog c σ (msgs.map Prod.fst)).map Put.write

/-- A family is on the way to what the log of its stream makes of the store `s`. -/
structure Rebuilding (c : Crates) (σ : Stream) (cf : Cf) (log : List JsMessage) (s : WarmStorage)
    (proc : Processor) (base : Cf × Bytes → Option Bytes) : Prop where
  /-- What was written to the store before this life is absorbed by the log, -/
  before : ∀ k, WriteLog.replay (streamWrites c σ log) base (cf, k)
    = WriteLog.replay (streamWrites c σ log) s.view (cf, k)
  /-- and so is what was written to it until now. -/
  now : ∀ k, WriteLog.replay (streamWrites c σ log) proc.ix.storage.view (cf, k)
    = WriteLog.replay (streamWrites c σ log) s.view (cf, k)
  /-- This life has performed the log of what it has handled. -/
  running : (proc.task σ).phase ≠ none → ∀ k, proc.ix.storage.view (cf, k)
    = WriteLog.replay (streamWrites c σ (proc.task σ).handled) base (cf, k)

section Rebuild

variable {c : Crates} {σ : Stream} {cf : Cf} {log : List JsMessage} {s : WarmStorage}
  {proc proc' : Processor} {base : Cf × Bytes → Option Bytes}

/-- A start clears the counters, and no message has been handled. -/
theorem countsHandled_start (catchUp : Bool) (opening : Stream → Opening) :
    CountsHandled c (proc.step c (.start catchUp opening)) := by
  intro _ tick
  show (if tick ≠ 0 then (0 : UInt32) else 0) = position [] tick
  rw [ite_self]
  rfl

/-- **The counter counts**, whatever the other streams do. A message of another stream leaves it
alone, one that is cut off ends the task, and a start in between clears it. -/
theorem countsHandled_step (h : CountsHandled c proc) (hstep : Step c proc proc') :
    CountsHandled c proc' := by
  cases hstep with
  | start catchUp opening => exact countsHandled_start catchUp opening
  | loops τ task hloops =>
    by_cases hτ : Stream.tx = τ
    · subst hτ
      unfold CountsHandled
      rw [task_setTask, hloops.handled]
      exact fun hphase => h (hloops.running hphase)
    · unfold CountsHandled
      rw [task_setTask_of_ne _ hτ]
      exact h
  -- only the handler of transactions counts them
  | handles τ msg rest hphase =>
    by_cases hτ : Stream.tx = τ
    · subst hτ
      have hcounts := h (hphase ▸ Option.some_ne_none _)
      intro _ tick
      rw [task_setTask, ix_setTask]
      show (consume c proc.ix (.tx, msg.1)).txIndex tick
        = position (acceptedTicks c (((proc.task .tx).handled ++ [msg]).map Prod.fst)) tick
      rw [List.map_append, List.map_singleton]
      exact txIndex_consume_tx hcounts msg.1 tick
    · unfold CountsHandled
      rw [task_setTask_of_ne _ hτ, ix_setTask]
      exact fun hphase tick => (txIndex_consume_of_ne (fun heq => hτ heq.symm) tick).trans
        (h hphase tick)
  | cut τ writes pipeline =>
    unfold step
    by_cases hτ : Stream.tx = τ
    · subst hτ
      intro hphase
      rw [task_setTask] at hphase
      exact absurd rfl hphase
    · unfold CountsHandled
      rw [task_setTask_of_ne _ hτ]
      exact h

theorem streamWrites_append (c : Crates) (σ : Stream) (msgs : List JsMessage) (msg : JsMessage) :
    streamWrites c σ (msgs ++ [msg]) = streamWrites c σ msgs
      ++ (logStep c σ (msgs.map Prod.fst) msg.1).map Put.write := by
  rw [streamWrites, List.map_append, List.map_singleton, streamLog_append_singleton,
    List.map_append, streamWrites]

/-- The log of the first messages is the beginning of the log. -/
theorem prefix_streamWrites {msgs : List JsMessage} (h : msgs <+: log) :
    streamWrites c σ msgs <+: streamWrites c σ log := by
  obtain ⟨rest, rfl⟩ := h
  induction rest using List.reverseRecOn with
  | nil => rw [List.append_nil]
  | append_singleton rest msg ih =>
    rw [← List.append_assoc, streamWrites_append]
    exact ih.trans (List.prefix_append ..)

/-- Of an owned family, a message writes what the log has for it, if its counter is right. -/
theorem filter_puts_handled (howner : owner cf = some σ) (hcounts : CountsHandled c proc)
    (hphase : (proc.task σ).phase ≠ none) (payload : Bytes) :
    (puts c proc.ix (σ, payload)).filter (fun p => p.cf = cf)
      = (logStep c σ ((proc.task σ).handled.map Prod.fst) payload).filter (fun p => p.cf = cf) := by
  have hpos : σ = .tx → ∀ tick, proc.ix.txIndex tick
      = position (acceptedTicks c ((proc.task σ).handled.map Prod.fst)) tick := by
    rintro rfl
    exact hcounts hphase
  rw [filter_puts howner (σ, payload) hpos, if_pos rfl]

/-- The first writes of a message make no difference to the whole log. -/
theorem replay_take_handled (howner : owner cf = some σ) (hcounts : CountsHandled c proc)
    {msg : JsMessage} (hphase : (proc.task σ).phase ≠ none)
    (horder : (proc.task σ).handled ++ [msg] <+: log) (count : Nat) (k : Bytes) :
    WriteLog.replay (streamWrites c σ log)
        (proc.ix.storage.batchWrite ((puts c proc.ix (σ, msg.1)).take count)).view (cf, k)
      = WriteLog.replay (streamWrites c σ log) proc.ix.storage.view (cf, k) := by
  rw [WriteLog.replay_congr_at (view_batchWrite_filter proc.ix.storage _ cf k)]
  refine Redelivery.replay_absorbs (fun w hw => ⟨w.2, ?_⟩) _ _
  have hmem := mem_filter_take hw
  rw [filter_puts_handled howner hcounts hphase] at hmem
  have hstep : w ∈ (logStep c σ ((proc.task σ).handled.map Prod.fst) msg.1).map Put.write :=
    ((List.filter_sublist).map Put.write).subset hmem
  refine (prefix_streamWrites horder).subset ?_
  rw [streamWrites_append]
  exact List.mem_append_right _ hstep

/-- What is left to be handled comes next in the stream. -/
theorem prefix_handled {task : StreamTask} (h : Consistent task) {msg : JsMessage}
    {rest : List JsMessage} (hphase : task.phase = some (.handle (msg :: rest)))
    (horder : task.handedOut <+: log) : task.handled ++ [msg] <+: log := by
  have hhanded := h _ hphase
  refine List.IsPrefix.trans ⟨rest, ?_⟩ horder
  rw [hhanded, List.append_assoc]
  rfl

/-- What happens to the other streams, and what does not write, leaves the family alone. -/
theorem Rebuilding.of_view_eq (h : Rebuilding c σ cf log s proc base)
    (hview : ∀ k, proc'.ix.storage.view (cf, k) = proc.ix.storage.view (cf, k))
    (hrunning : (proc'.task σ).phase ≠ none → (proc.task σ).phase ≠ none)
    (hhandled : (proc'.task σ).handled = (proc.task σ).handled) :
    Rebuilding c σ cf log s proc' base := by
  refine ⟨h.before, fun k => ?_, fun hphase k => ?_⟩
  · rw [WriteLog.replay_congr_at (hview k)]
    exact h.now k
  · rw [hview, hhandled]
    exact h.running (hrunning hphase) k

/-- What leaves the family and the task as they are keeps it. -/
theorem Rebuilding.of_task_eq (h : Rebuilding c σ cf log s proc base)
    (hview : ∀ k, proc'.ix.storage.view (cf, k) = proc.ix.storage.view (cf, k))
    (htask : proc'.task σ = proc.task σ) : Rebuilding c σ cf log s proc' base := by
  refine h.of_view_eq hview ?_ ?_
  · rw [htask]
    exact id
  · rw [htask]

/-- A message of the stream is handled to the end. -/
theorem Rebuilding.handles (howner : owner cf = some σ) (h : Rebuilding c σ cf log s proc base)
    (hcounts : CountsHandled c proc) {msg : JsMessage} {rest : List JsMessage}
    (hrunning : (proc.task σ).phase ≠ none) (hnext : (proc.task σ).handled ++ [msg] <+: log) :
    Rebuilding c σ cf log s ({ proc with ix := consume c proc.ix (σ, msg.1) }.setTask σ
      { proc.task σ with
        phase := some (.ack msg rest), handled := (proc.task σ).handled ++ [msg] }) base := by
  refine ⟨h.before, fun k => ?_, fun _ k => ?_⟩
  · have hwhole := replay_take_handled howner hcounts hrunning hnext
      (puts c proc.ix (σ, msg.1)).length k
    rw [List.take_length] at hwhole
    rw [ix_setTask, storage_consume, hwhole]
    exact h.now k
  · -- its writes come behind those of the messages before it
    rw [ix_setTask, task_setTask, storage_consume, view_batchWrite_filter,
      filter_puts_handled howner hcounts hrunning, ← view_batchWrite_filter,
      WarmStorage.view_batchWrite, WriteLog.replay_congr_at (h.running hrunning k)]
    show _ = WriteLog.replay (streamWrites c σ ((proc.task σ).handled ++ [msg])) base (cf, k)
    rw [streamWrites_append, WriteLog.replay_append]

/-- The task of the stream ends, in the middle of a handler or between two. -/
theorem Rebuilding.cut (howner : owner cf = some σ) (h : Rebuilding c σ cf log s proc base)
    (hcounts : CountsHandled c proc) (hconsistent : Consistent (proc.task σ))
    (horder : (proc.task σ).handedOut <+: log) (writes : Nat) (pipeline : PipelineState) :
    Rebuilding c σ cf log s (proc.step c (.cut σ writes pipeline)) base := by
  refine ⟨h.before, fun k => ?_, fun hphase => ?_⟩
  · show WriteLog.replay (streamWrites c σ log) (proc.ix.storage.batchWrite
      (cutWrites c proc.ix σ writes (proc.task σ).phase)).view (cf, k) = _
    rcases cutWrites_cases c proc.ix σ writes (proc.task σ).phase with
      hnil | ⟨msg, rest, hphase, heq⟩
    · rw [hnil]
      exact h.now k
    · rw [heq, replay_take_handled howner hcounts (hphase ▸ Option.some_ne_none _)
        (prefix_handled hconsistent hphase horder)]
      exact h.now k
  · unfold step at hphase
    rw [task_setTask] at hphase
    exact absurd rfl hphase

/-- What another task has written when it is cut off. -/
theorem view_cutWrites_of_ne (howner : owner cf = some σ) {τ : Stream} (hσ : σ ≠ τ) (writes : Nat)
    (ix : Indexer) (phase : Option Phase) (k : Bytes) :
    (ix.storage.batchWrite (cutWrites c ix τ writes phase)).view (cf, k)
      = ix.storage.view (cf, k) := by
  rcases cutWrites_cases c ix τ writes phase with hnil | ⟨msg, rest, -, heq⟩
  · rw [hnil]
    rfl
  · rw [heq]
    exact view_batchWrite_of_filter_nil (filter_take_eq_nil
      (filter_puts_of_ne (writer_of_owner howner) (fun heq => hσ heq.symm)) writes) k

/-- **One step** of a family that is being rebuilt. The steps of the other streams do not touch the
family. Those of its own stream extend what was written in the life, or end it. -/
theorem rebuilding_step (howner : owner cf = some σ) (h : Rebuilding c σ cf log s proc base)
    (hcounts : CountsHandled c proc) (hconsistent : Consistent (proc.task σ))
    (horder : (proc.task σ).handedOut <+: log) (hstep : Step c proc proc') :
    ∃ base', Rebuilding c σ cf log s proc' base' := by
  cases hstep with
  | start catchUp opening =>
    -- a new life begins with the store that is there
    refine ⟨proc.ix.storage.view, h.now, h.now, fun _ k => ?_⟩
    have hnil : streamWrites c σ [] = [] := by cases σ <;> rfl
    show proc.ix.storage.view (cf, k)
      = WriteLog.replay (streamWrites c σ []) proc.ix.storage.view (cf, k)
    rw [hnil, WriteLog.replay_nil]
  | loops τ task hloops =>
    refine ⟨base, ?_⟩
    by_cases hσ : σ = τ
    · subst hσ
      refine h.of_view_eq (fun _ => rfl) ?_ ?_
      · rw [task_setTask]
        exact hloops.running
      · rw [task_setTask]
        exact hloops.handled
    · exact h.of_task_eq (fun _ => rfl) (task_setTask_of_ne _ hσ _)
  | handles τ msg rest hphase =>
    refine ⟨base, ?_⟩
    by_cases hσ : σ = τ
    · subst hσ
      exact h.handles howner hcounts (hphase ▸ Option.some_ne_none _)
        (prefix_handled hconsistent hphase horder)
    · refine h.of_task_eq (fun k => ?_) (task_setTask_of_ne _ hσ _)
      rw [ix_setTask, storage_consume]
      exact view_batchWrite_of_filter_nil
        (filter_puts_of_ne (writer_of_owner howner) (fun heq => hσ heq.symm)) k
  | cut τ writes pipeline =>
    refine ⟨base, ?_⟩
    by_cases hσ : σ = τ
    · subst hσ
      exact h.cut howner hcounts hconsistent horder writes pipeline
    · exact h.of_task_eq (fun k => view_cutWrites_of_ne howner hσ writes proc.ix _ k)
        (task_setTask_of_ne _ hσ _)

/-- Every start is in catch-up mode. -/
def CatchesUp (events : List ProcessorEvent) : Prop :=
  ∀ catchUp opening, .start catchUp opening ∈ events → catchUp = true

/-- A processor stays in catch-up mode unless a start ends it. -/
theorem catchUp_step {event : ProcessorEvent} (h : proc.catchUp = true)
    (hmode : ∀ catchUp opening, event = .start catchUp opening → catchUp = true) :
    (proc.step c event).catchUp = true := by
  cases event with
  | start catchUp opening => exact hmode catchUp opening rfl
  | cut σ writes pipeline => exact h
  | turn σ answer =>
    simp only [step]
    split <;> exact h

/-- So it is in catch-up mode after any run whose starts are. -/
theorem catchUp_exec {events : List ProcessorEvent} (hmode : CatchesUp events) :
    ((idle s).exec c events).catchUp = true := by
  induction events using List.reverseRecOn with
  | nil => rfl
  | append_singleton events event ih =>
    rw [exec, List.foldl_append]
    refine catchUp_step (ih fun catchUp opening hmem => ?_) (fun catchUp opening heq => ?_)
    · exact hmode catchUp opening (List.mem_append_left _ hmem)
    · exact hmode catchUp opening (List.mem_append_right _ (List.mem_singleton.mpr heq.symm))

theorem CatchesUp.init {events : List ProcessorEvent} {event : ProcessorEvent}
    (h : CatchesUp (events ++ [event])) : CatchesUp events :=
  fun catchUp opening hmem => h catchUp opening (List.mem_append_left _ hmem)

/-- **A whole run**, of which one family of a stream that comes in order is looked at. -/
theorem rebuilding_exec (howner : owner cf = some σ) {events : List ProcessorEvent}
    (hmode : CatchesUp events) {payloads : List Bytes} (hlog : log = payloads.zipIdx)
    (hserver : Always c s events
      (fun proc => proc.catchUp = true → HandsOutInOrder payloads (proc.task σ))) :
    CountsHandled c ((idle s).exec c events) ∧
      ∃ base, Rebuilding c σ cf log s ((idle s).exec c events) base := by
  induction events using List.reverseRecOn with
  | nil =>
    refine ⟨fun hphase => absurd rfl hphase, s.view, fun _ => rfl, fun _ => rfl, ?_⟩
    exact fun hphase => absurd rfl hphase
  | append_singleton events event ih =>
    obtain ⟨hcounts, base, h⟩ := ih hmode.init hserver.init
    rw [exec, List.foldl_append]
    have horder : (((idle s).exec c events).task σ).handedOut <+: log := by
      rw [hlog]
      exact hserver.init.last (catchUp_exec hmode.init)
    exact ⟨countsHandled_step hcounts (step_spec c _ event),
      rebuilding_step howner h hcounts (consistent_exec c s events σ) horder (step_spec c _ event)⟩

/-- The whole stream was handed out, and the task is back at fetching. -/
structure Through (log : List Bytes) (task : StreamTask) : Prop where
  handedOut : task.handedOut = log.zipIdx
  fetching : task.phase = some .fetch

/-- **Catch-up mode rebuilds the indexes too.** Where every start is in catch-up mode and the stream
comes in order, a task that is through has left all its families, the index of transactions
included, as one uninterrupted pass over the stream does, whatever was cut off before. -/
theorem catch_up_rebuilds {events : List ProcessorEvent} {payloads : List Bytes}
    (hmode : CatchesUp events)
    (hserver : Always c s events
      (fun proc => proc.catchUp = true → HandsOutInOrder payloads (proc.task σ)))
    (hdone : Through payloads (((idle s).exec c events).task σ)) (howner : owner cf = some σ)
    {ms : List Message} (hms : ofStream σ ms = payloads) (pl : PipelineState) :
    ((idle s).exec c events).ix.storage.db cf = (Indexer.pass c s pl ms).db cf := by
  obtain ⟨-, base, h⟩ := rebuilding_exec howner hmode rfl hserver
  have hphase := hdone.fetching
  have hhandled : (((idle s).exec c events).task σ).handled = payloads.zipIdx := by
    rw [← hdone.handedOut, consistent_exec c s events σ _ hphase]
    exact (List.append_nil _).symm
  refine WarmStorage.db_eq_of_view (fun k => ?_)
  -- this life has performed the whole log, and that makes up for all lives before
  rw [h.running (hphase ▸ Option.some_ne_none _) k, hhandled, h.before k, Indexer.pass,
    view_run howner, hms, streamWrites, map_fst_zipIdx]

end Rebuild

/-- The first life ends in the middle of the second transaction. -/
def cutShortEvents : List ProcessorEvent :=
  let first := ((sampleTx 1 7).json, 0)
  let second := ((sampleTx 2 7).json, 1)
  [.start true (fun _ => {}), .turn .tx { messages := some [some first, some second] },
    .turn .tx {}, .turn .tx {}, .cut .tx 1 {}, .start true (fun _ => {}),
    .turn .tx { messages := some [some first] }, .turn .tx {}, .turn .tx {}, .turn .tx {},
    .turn .tx { messages := some [some second] }, .turn .tx {}, .turn .tx {}, .turn .tx {}]

/-- A life that was cut off, and one that catches up. -/
theorem catch_up_rebuilds_sample :
    ((idle .empty).exec (.ofKnown sampleDocs) cutShortEvents).ix.storage.db .txByTick
      = (Indexer.pass (.ofKnown sampleDocs) .empty {} samplePass₁).db .txByTick := by
  have hmode : CatchesUp cutShortEvents := by
    intro catchUp opening hmem
    simp only [cutShortEvents, List.mem_cons, ProcessorEvent.start.injEq, List.not_mem_nil,
      reduceCtorEq, false_or, or_false] at hmem
    rcases hmem with ⟨rfl, -⟩ | ⟨rfl, -⟩ <;> rfl
  have hserver : ∀ before ∈ cutShortEvents.inits,
      (((idle .empty).exec (.ofKnown sampleDocs) before).task .tx).handedOut
        <+: sampleLog.zipIdx := by decide +kernel
  have hdone : Through sampleLog
      (((idle .empty).exec (.ofKnown sampleDocs) cutShortEvents).task .tx) := by
    constructor <;> decide +kernel
  have hms : ofStream .tx samplePass₁ = sampleLog := by decide +kernel
  refine catch_up_rebuilds hmode (fun before hbefore _ => hserver before ?_) hdone rfl hms {}
  exact (List.mem_inits before cutShortEvents).mpr hbefore
end Processor

end Qonduit

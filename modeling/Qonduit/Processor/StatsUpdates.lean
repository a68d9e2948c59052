import Qonduit.Core.Json
import Qonduit.Processor.Interleaving

/-!
# Qonduit — epoch statistics under every schedule

What the record of an epoch says of the updates completed on it, and where these come from: the
ticks counted, the one in the tick handler's hands and the accepted ones still queued are at every
moment the accepted ticks of the stream.

* **`foldl_apply_eq`** — a record folded from nothing, in closed form.
* **`tickLedger_exec`** — no tick is dropped or counted twice between the stream and the records.
* **`epoch_stats_lose_no_update`** — the stored records, under every schedule.
-/

namespace Qonduit

/-! ## Records

A record is the fold of its updates. In closed form it has the least and the greatest of the ticks,
and the numbers of the updates of each kind. -/

/-- The least of the ticks, with one more. -/
theorem min?_concat (ns : List UInt32) (n : UInt32) :
    (ns ++ [n]).min? = some (min (ns.min?.getD n) n) := by
  cases ns with
  | nil => simp [UInt32.min_eq_ite]
  | cons m ns =>
    rw [List.cons_append, List.min?_cons', List.foldl_append, List.min?_cons']
    rfl

theorem max?_concat (ns : List UInt32) (n : UInt32) :
    (ns ++ [n]).max? = some (max (ns.max?.getD n) n) := by
  cases ns with
  | nil => simp [UInt32.max_of_ge]
  | cons m ns =>
    rw [List.cons_append, List.max?_cons', List.foldl_append, List.max?_cons']
    rfl

/-- The ticks counted by a list of updates. -/
def ticksOf (evs : List StatsEvent) : List UInt32 := evs.filterMap StatsEvent.tick?

theorem ticksOf_append (evs evs' : List StatsEvent) :
    ticksOf (evs ++ evs') = ticksOf evs ++ ticksOf evs' :=
  List.filterMap_append

/-- **The record of an epoch after a list of updates on it**, in closed form: the least and the
greatest of the ticks seen, and three counters modulo their widths. -/
theorem foldl_apply_eq (epoch : UInt16) (evs : List StatsEvent) :
    evs.foldl StatsEvent.apply { epoch } =
      { epoch
        tickCount := UInt32.ofNat (ticksOf evs).length
        txCount := UInt64.ofNat (evs.count .tx)
        entityCount := UInt64.ofNat (evs.count .entity)
        firstTick := (ticksOf evs).min?
        lastTick := (ticksOf evs).max? } := by
  induction evs using List.reverseRecOn with
  | nil => rfl
  | append_singleton evs ev ih =>
    rw [List.foldl_append, ih, ticksOf_append]
    cases ev with
    | tick n =>
      have htick : ticksOf [StatsEvent.tick n] = [n] := rfl
      simp [StatsEvent.apply, Indexer.countTick, htick, min?_concat, max?_concat, UInt32.ofNat_add]
    | tx =>
      have htx : ticksOf [StatsEvent.tx] = [] := rfl
      simp [StatsEvent.apply, Indexer.countTx, htx, UInt64.ofNat_add]
    | entity =>
      have hentity : ticksOf [StatsEvent.entity] = [] := rfl
      simp [StatsEvent.apply, Indexer.countEntity, hentity, UInt64.ofNat_add]

/-- What the record of an epoch says of the updates completed on it. -/
structure Accounts (stats : EpochStats) (epoch : UInt16) (evs : List StatsEvent) : Prop where
  epoch : stats.epoch = epoch
  tickCount : stats.tickCount.toNat = (ticksOf evs).length
  txCount : stats.txCount = UInt64.ofNat (evs.count .tx)
  entityCount : stats.entityCount = UInt64.ofNat (evs.count .entity)
  firstTick : stats.firstTick = (ticksOf evs).min?
  lastTick : stats.lastTick = (ticksOf evs).max?

/-- A record accounts for its updates, if its counters did not wrap. -/
theorem accounts_foldl {epoch : UInt16} {evs : List StatsEvent}
    (h : (ticksOf evs).length < 2 ^ 32) :
    Accounts (evs.foldl StatsEvent.apply { epoch }) epoch evs := by
  rw [foldl_apply_eq]
  exact ⟨rfl, UInt32.toNat_ofNat_of_lt' h, rfl, rfl, rfl, rfl⟩

/-! ## Whose handler makes which call

A handler makes the calls of its own stream. For the tick handler it is kept track of which tick it
has in hand, so that taken, handled and counted ticks can be compared. -/

def StatsEvent.stream : StatsEvent → Stream
  | .tick _ => .tick
  | .tx => .tx
  | .entity => .entity

def Access.stream : Access → Stream
  | .tickExport .. | .tickWrite .. | .storeIndexedTick _ | .storeIndexedEpoch _
  | .countTicks _ => .tick
  | .txSlot .. | .txWrite .. | .countTxs | .txLoadEpoch => .tx
  | .entityWrite .. | .countEntities | .entityLoadEpoch => .entity

def Call.stream : Call → Stream
  | .access a => a.stream
  | .lockStats _ ev | .readStats _ ev | .writeStats _ ev _ => ev.stream

/-- The update a handler is bound to complete. A transaction or an entity has none before the load
of the indexed epoch. -/
def Access.event? : Access → Option (UInt16 × StatsEvent)
  | .tickExport tick _ | .tickWrite tick _ | .storeIndexedTick tick | .storeIndexedEpoch tick
  | .countTicks tick => some (tick.epoch, .tick tick.tick)
  | _ => none

def Call.event? : Call → Option (UInt16 × StatsEvent)
  | .access a => a.event?
  | .lockStats epoch ev | .readStats epoch ev | .writeStats epoch ev _ => some (epoch, ev)

/-- The updates of the other streams are for no tick. -/
theorem tick?_of_stream {ev : StatsEvent} (h : ev.stream ≠ .tick) : ev.tick? = none := by
  cases ev with
  | tick n => exact absurd rfl h
  | _ => rfl

/-- The first access of a message is one of its stream. -/
theorem stream_firstAccess {c : Crates} {σ : Stream} {payload : Bytes} {a : Access}
    (h : firstAccess c σ payload = some a) : a.stream = σ := by
  cases σ <;> simp only [firstAccess] at h
  case tick =>
    obtain ⟨tick, -, rfl⟩ := Option.map_eq_some_iff.mp h
    rfl
  case tx =>
    split at h
    · cases h
      rfl
    · cases h
  case entity =>
    split at h
    · obtain ⟨key, -, rfl⟩ := Option.map_eq_some_iff.mp h
      rfl
    · cases h
  all_goals cases h

/-- The update a payload of the tick stream leads to. -/
theorem event?_firstAccess (c : Crates) (payload : Bytes) :
    (firstAccess c .tick payload).bind Access.event?
      = (acceptedTick c payload).map (fun tick => (tick.epoch, StatsEvent.tick tick.tick)) := by
  simp only [firstAccess]
  cases acceptedTick c payload <;> rfl

/-- Every further access is one of the same stream. -/
theorem stream_perform {c : Crates} {ix : Indexer} {a : Access} {call : Call}
    (h : (a.perform c ix).2 = some call) : call.stream = a.stream := by
  have hcharge : ∀ ev, chargeCall ix ev = some call → call.stream = ev.stream := by
    intro ev h
    obtain ⟨x, hx, rfl⟩ := Option.map_eq_some_iff.mp h
    unfold charge at hx
    split at hx <;> cases hx
    rfl
  cases a with
  | txLoadEpoch => exact hcharge .tx h
  | entityLoadEpoch => exact hcharge .entity h
  | _ => cases h; rfl

/-- A tick handler keeps its update in hand through all of its accesses. -/
theorem event?_perform {c : Crates} {ix : Indexer} {a : Access} (h : a.stream = .tick) :
    (a.perform c ix).2.bind Call.event? = a.event? := by
  cases a <;> first | rfl | cases h

namespace System

/-- Every task runs its own stream's handler. -/
def OwnCalls (running : Stream → Option Call) : Prop :=
  ∀ σ call, running σ = some call → call.stream = σ

/-- A task that changes its own call keeps to its stream. -/
theorem OwnCalls.update {running : Stream → Option Call} (h : OwnCalls running) {σ : Stream}
    {call : Option Call} (hcall : ∀ x, call = some x → x.stream = σ) :
    OwnCalls (Function.update running σ call) :=
  (Function.forall_update_iff running (fun σ call => ∀ x, call = some x → x.stream = σ)).mpr
    ⟨hcall, fun σ' _ => h σ'⟩

/-- **So does every move.** A handler goes on with a call of its own stream or returns, and the
calls of the others are not touched. -/
theorem OwnCalls.move {c : Crates} {sys sys' : System} {σ : Stream} (h : OwnCalls sys.running)
    (hmove : Move c sys σ sys') : OwnCalls sys'.running := by
  cases hmove with
  | stay => exact h
  | take hidle hqueue =>
    unfold System.take
    split
    · refine h.update (fun x hx => ?_)
      obtain ⟨a, ha, rfl⟩ := Option.map_eq_some_iff.mp hx
      exact stream_firstAccess ha
    · exact h
  | access ha => exact h.update (fun x hx => (stream_perform hx).trans (h σ _ ha))
  | lock hcall hfree =>
    have hstream := h σ _ hcall
    refine h.update (fun x hx => ?_)
    cases hx
    exact hstream
  | read hcall =>
    have hstream := h σ _ hcall
    refine h.update (fun x hx => ?_)
    cases hx
    exact hstream
  | write hcall => exact h.update (fun x hx => nomatch hx)

/-- A task leaves the queues and the handlers of the others alone. -/
theorem Move.frame {c : Crates} {sys sys' : System} {σ σ' : Stream} (h : Move c sys σ sys')
    (hne : σ' ≠ σ) :
    sys'.queue σ' = sys.queue σ' ∧ sys'.running σ' = sys.running σ' := by
  cases h with
  | stay => exact ⟨rfl, rfl⟩
  | take hidle hqueue =>
    unfold System.take
    split
    · exact ⟨Function.update_of_ne hne _ _, Function.update_of_ne hne _ _⟩
    · exact ⟨Function.update_of_ne hne _ _, rfl⟩
  | _ => exact ⟨rfl, Function.update_of_ne hne _ _⟩

/-- A completed update is one of the handler that moved. -/
theorem Move.completed {c : Crates} {sys sys' : System} {σ : Stream} (h : Move c sys σ sys') :
    sys'.completed = sys.completed ∨
      ∃ epoch ev stats, sys.running σ = some (.writeStats epoch ev stats) ∧
        sys'.completed = sys.completed ++ [(epoch, ev)] := by
  cases h with
  | take hidle hqueue =>
    refine .inl ?_
    unfold System.take
    split <;> rfl
  | write hcall => exact .inr ⟨_, _, _, hcall, rfl⟩
  | _ => exact .inl rfl

/-- The tick update in the tick handler's hands. -/
def tickInHand (sys : System) : List (UInt16 × StatsEvent) :=
  ((sys.running .tick).bind Call.event?).toList

/-- The ticks of an epoch that are counted, in hand, and still queued. -/
def tickLedger (c : Crates) (epoch : UInt16) (sys : System) : List UInt32 :=
  ticksOf (eventsFor epoch sys.completed) ++ ticksOf (eventsFor epoch sys.tickInHand)
    ++ ticksOfEpoch c epoch (sys.queue .tick)

/-- What the tick handler takes on is what leaves the queue. -/
theorem ticksOf_firstAccess (c : Crates) (epoch : UInt16) (payload : Bytes) :
    ticksOf (eventsFor epoch ((firstAccess c .tick payload).bind Access.event?).toList)
      = ticksOfEpoch c epoch [payload] := by
  rw [event?_firstAccess]
  cases htick : acceptedTick c payload with
  | none => simp [ticksOfEpoch, htick, eventsFor, ticksOf]
  | some tick =>
    by_cases he : tick.epoch = epoch <;>
      simp [ticksOfEpoch, htick, eventsFor, ticksOf, he, StatsEvent.tick?]

theorem tickInHand_goto (sys : System) (call : Option Call) :
    (sys.goto .tick call).tickInHand = (call.bind Call.event?).toList := by
  show ((Function.update sys.running .tick call .tick).bind Call.event?).toList = _
  rw [Function.update_self]

theorem tickLedger_congr {c : Crates} {epoch : UInt16} {sys sys' : System}
    (hcompleted : sys'.completed = sys.completed) (hinHand : sys'.tickInHand = sys.tickInHand)
    (hqueue : sys'.queue .tick = sys.queue .tick) :
    tickLedger c epoch sys' = tickLedger c epoch sys := by
  rw [tickLedger, tickLedger, hcompleted, hinHand, hqueue]

/-- The tick handler takes a payload from the queue into its hands. If the payload is no accepted
tick it is dropped, and was not counted in the queue either. -/
theorem tickLedger_take (c : Crates) (epoch : UInt16) {sys : System} {payload : Bytes}
    {rest : List Bytes} (hidle : sys.running .tick = none)
    (hqueue : sys.queue .tick = payload :: rest) :
    tickLedger c epoch (sys.take c .tick payload rest) = tickLedger c epoch sys := by
  have hinHand : (sys.take c .tick payload rest).tickInHand
      = ((firstAccess c .tick payload).bind Access.event?).toList := by
    have hcharges : Stream.tick.charges := rfl
    rw [take, if_pos hcharges, tickInHand_goto]
    cases firstAccess c .tick payload <;> rfl
  have hrest : (sys.take c .tick payload rest).queue .tick = rest := by
    show Function.update sys.queue .tick rest .tick = rest
    rw [Function.update_self]
  have hcons : ticksOfEpoch c epoch (payload :: rest)
      = ticksOfEpoch c epoch [payload] ++ ticksOfEpoch c epoch rest :=
    ticksOfEpoch_append c epoch [payload] rest
  have hnone : sys.tickInHand = [] := by
    rw [tickInHand, hidle]
    rfl
  rw [tickLedger, tickLedger, hinHand, hrest, hnone, hqueue, hcons,
    ticksOf_firstAccess, List.append_assoc]
  show ticksOf (eventsFor epoch sys.completed) ++ _
    = ticksOf (eventsFor epoch sys.completed) ++ [] ++ _
  rw [List.append_nil]

/-- **One move keeps the ledger**: a tick goes from the queue into the hands of its handler, and
from there to the counted ones. -/
theorem tickLedger_move {c : Crates} {sys sys' : System} {σ : Stream} (hown : OwnCalls sys.running)
    (h : Move c sys σ sys') (epoch : UInt16) :
    tickLedger c epoch sys' = tickLedger c epoch sys := by
  by_cases hσ : σ = .tick
  · subst hσ
    cases h with
    | stay => rfl
    | take hidle hqueue => exact tickLedger_take c epoch hidle hqueue
    | access ha =>
      refine tickLedger_congr rfl ?_ rfl
      rw [tickInHand_goto, event?_perform (hown .tick _ ha), tickInHand, ha]
      rfl
    | lock hcall hfree =>
      refine tickLedger_congr rfl ?_ rfl
      rw [tickInHand_goto, tickInHand, hcall]
      rfl
    | read hcall =>
      refine tickLedger_congr rfl ?_ rfl
      rw [tickInHand_goto, tickInHand, hcall]
      rfl
    | @write epoch' ev stats hcall =>
      -- the update moves from the hands into the record
      rw [tickLedger, tickLedger, tickInHand_goto, tickInHand, hcall]
      show ticksOf (eventsFor epoch (sys.completed ++ [(epoch', ev)])) ++ [] ++ _ = _
      rw [eventsFor_append, ticksOf_append, List.append_nil]
      rfl
  · obtain ⟨hqueue, hrunning⟩ := h.frame (Ne.symm hσ)
    rw [tickLedger, tickLedger, tickInHand, tickInHand, hqueue, hrunning]
    congr 2
    rcases h.completed with hsame | ⟨epoch', ev, stats, hcall, hadd⟩
    · rw [hsame]
    · -- another stream's update counts no tick
      have hstream : ev.stream = σ := hown σ _ hcall
      have hnone : ev.tick? = none := tick?_of_stream (hstream ▸ hσ)
      rw [hadd, eventsFor_append, ticksOf_append]
      by_cases he : epoch' = epoch <;> simp [eventsFor, ticksOf, he, hnone]

theorem ownCalls_init (ix : Indexer) (queue : Stream → List Bytes) :
    OwnCalls (init ix queue).running := by
  intro σ call h
  cases h

/-- **No accepted tick is dropped or counted twice.** -/
theorem tickLedger_exec (c : Crates) (ix : Indexer) (queue : Stream → List Bytes)
    (schedule : List Stream) (epoch : UInt16) :
    tickLedger c epoch (exec c (init ix queue) schedule) = ticksOfEpoch c epoch (queue .tick) := by
  refine (exec_induction (c := c) (P := fun sys => OwnCalls sys.running ∧
    tickLedger c epoch sys = ticksOfEpoch c epoch (queue .tick)) ?_ ?_ schedule).2
  · exact ⟨ownCalls_init ix queue, rfl⟩
  · rintro sys σ sys' ⟨hown, hledger⟩ hmove
    exact ⟨hown.move hmove, (tickLedger_move hown hmove epoch).trans hledger⟩

/-! ## The stored records

The updates are made under one lock, so that each starts from the record of all before it. The
stored record is therefore the fold of those completed. -/

/-- Where nothing was stored, the stored record is the fold of the completed updates. No update is
based on an older record than the one before it has stored, as all of them hold the lock from
reading to writing. -/
theorem getEpochStats_exec {c : Crates}
    (hjson : ∀ stats, c.serde.epochStats.fromSlice (c.serde.epochStats.toVec stats) = .ok stats)
    {ix : Indexer} {epoch : UInt16} (hfresh : ix.storage.getEpochStats epoch = none)
    (queue : Stream → List Bytes) (schedule : List Stream) :
    (exec c (init ix queue) schedule).ix.storage.getEpochStats epoch
      = let evs := eventsFor epoch (exec c (init ix queue) schedule).completed
        if evs = [] then none
        else some (c.serde.epochStats.toVec (evs.foldl StatsEvent.apply { epoch })) := by
  have hcell := (inv_exec c ix queue schedule).cell epoch
  have hfold : ∀ evs : List StatsEvent, evs.foldl (applyEvent c epoch) none
      = if evs = [] then none
        else some (c.serde.epochStats.toVec (evs.foldl StatsEvent.apply { epoch })) := by
    intro evs
    induction evs using List.reverseRecOn with
    | nil => rfl
    | append_singleton evs ev ih =>
      rw [List.foldl_append, ih, List.foldl_append]
      by_cases hnil : evs = []
      · subst hnil
        rfl
      · simp [hnil, applyEvent, statsOf, hjson]
  rw [hfresh, hfold] at hcell
  exact hcell

/-- **Epoch statistics lose no update.** Whatever the schedule, the record of an epoch accounts
for exactly the calls of `update_epoch_stats` completed for it, and between two messages of the
tick consumer these have counted every accepted tick of the epoch it has taken. -/
theorem epoch_stats_lose_no_update {c : Crates}
    (hjson : ∀ stats, c.serde.epochStats.fromSlice (c.serde.epochStats.toVec stats) = .ok stats)
    {ix : Indexer} (hfresh : ∀ epoch, ix.storage.getEpochStats epoch = none)
    {queue : Stream → List Bytes} (hticks : (queue .tick).length < 2 ^ 32)
    (schedule : List Stream) (epoch : UInt16) :
    let sys := exec c (init ix queue) schedule
    let evs := eventsFor epoch sys.completed
    (sys.ix.storage.getEpochStats epoch = none ↔ evs = []) ∧
    (∀ data, sys.ix.storage.getEpochStats epoch = some data →
      ∃ stats, c.serde.epochStats.fromSlice data = .ok stats ∧ Accounts stats epoch evs) ∧
    (sys.running .tick = none →
      ticksOf evs ++ ticksOfEpoch c epoch (sys.queue .tick)
        = ticksOfEpoch c epoch (queue .tick)) := by
  intro sys evs
  have hrecord : sys.ix.storage.getEpochStats epoch = if evs = [] then none
      else some (c.serde.epochStats.toVec (evs.foldl StatsEvent.apply { epoch })) :=
    getEpochStats_exec hjson (hfresh epoch) queue schedule
  have hledger : tickLedger c epoch sys = ticksOfEpoch c epoch (queue .tick) :=
    tickLedger_exec c ix queue schedule epoch
  refine ⟨?_, ?_, ?_⟩
  · rw [hrecord]
    by_cases hnil : evs = [] <;> simp [hnil]
  · intro data hdata
    rw [hrecord] at hdata
    split at hdata
    · cases hdata
    · cases hdata
      refine ⟨_, hjson _, accounts_foldl ?_⟩
      -- the ticks counted are among those the stream delivers
      have hle : (ticksOf evs).length ≤ (ticksOfEpoch c epoch (queue .tick)).length := by
        rw [← hledger, tickLedger, List.append_assoc, List.length_append]
        exact Nat.le_add_right _ _
      exact lt_of_le_of_lt (hle.trans (List.length_filterMap_le _ _)) hticks
  · intro hidle
    rw [← hledger, tickLedger, tickInHand, hidle]
    show _ = _ ++ [] ++ _
    rw [List.append_nil]

def sampleStatsDocs : Known where
  ticks := [sampleTick 5 7]
  txs := [sampleTx 1 7]

/-- One tick and one transaction. -/
def sampleQueue : Stream → List Bytes
  | .tick => [(sampleTick 5 7).json]
  | .tx => [(sampleTx 1 7).json]
  | _ => []

/-- The transaction waits for the lock while the tick is counted. -/
def sampleSchedule : List Stream :=
  List.replicate 7 .tick ++ List.replicate 6 .tx ++ [.tick, .tick] ++ List.replicate 3 .tx

def sampleExec : System :=
  exec (.ofKnown sampleStatsDocs) (init (.new .empty {}) sampleQueue) sampleSchedule

/-- A tick and a transaction of epoch 5. -/
theorem epoch_stats_lose_no_update_sample :
    eventsFor 5 sampleExec.completed = [.tick 7, .tx] ∧
    (sampleExec.ix.storage.getEpochStats 5 = none ↔ eventsFor 5 sampleExec.completed = []) ∧
    ∀ data, sampleExec.ix.storage.getEpochStats 5 = some data →
      ∃ stats, (Crates.ofKnown sampleStatsDocs).serde.epochStats.fromSlice data = .ok stats ∧
        Accounts stats 5 (eventsFor 5 sampleExec.completed) := by
  have hjson := Crates.epochStats_ofKnown sampleStatsDocs
  have hfresh : ∀ epoch, (Indexer.new .empty {}).storage.getEpochStats epoch = none :=
    fun _ => rfl
  have hticks : (sampleQueue .tick).length < 2 ^ 32 := by decide
  have hrecord := epoch_stats_lose_no_update hjson hfresh hticks sampleSchedule 5
  have hevs : eventsFor 5 sampleExec.completed = [.tick 7, .tx] := by decide +kernel
  unfold sampleExec at hevs ⊢
  exact ⟨hevs, hrecord.1, hrecord.2.1⟩

end System

end Qonduit

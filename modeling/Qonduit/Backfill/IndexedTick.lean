import Qonduit.Backfill.Completion
import Qonduit.Processor.Indexer

/-!
# Qonduit — `indexed_tick` under backfill

`pipeline.indexed_tick` has two writers. `index_tick` stores the tick it has just written to the
warm tier; a backfill connection raises it to the tick of a payload it has only received. The
system here interleaves any number of connections with the indexer, over one pipeline state.

* **`indexTick_valid`** — the indexer always leaves `indexed_tick` at a stored tick.
* **`indexed_tick_valid_iff`** — it refers to stored data in every state of a run exactly when no
  counted answer carries a tick above it that is not stored yet.
* **`indexed_tick_ahead`** — one answer suffices.
-/

namespace Qonduit

/-! ## The indexer

`index_tick` stores the tick, sets `indexed_tick` to it and updates the statistics of its epoch, so
at the end of it the counter names a stored tick. -/

/-- `indexed_tick` is 0 or a tick for which `get_tick` returns data. -/
def IndexedTickValid (ix : Indexer) : Prop :=
  ix.pipeline.indexedTick = 0 ∨ (ix.storage.getTick ix.pipeline.indexedTick).isSome

/-- Writing statistics leaves the ticks alone. -/
theorem getTick_putEpochStats (s : WarmStorage) (epoch : UInt16) (data : Bytes) (tick : UInt32) :
    (s.putEpochStats epoch data).getTick tick = s.getTick tick := by
  show (s.batchWrite [.epochStats epoch data]).view (.tick, tick.toBeBytes)
    = s.view (.tick, tick.toBeBytes)
  refine WarmStorage.view_batchWrite_of_cf (fun p hp => ?_) _
  rw [List.mem_singleton.mp hp]
  exact nofun

/-- A batch for a tick stores it. -/
theorem getTick_batchPutTick (s : WarmStorage) (tick : UInt32) (epoch : UInt16) (data : Bytes) :
    ((s.batchWrite (WarmStorage.batchPutTick [] tick epoch data)).getTick tick).isSome := by
  show ((s.batchWrite (WarmStorage.batchPutTick [] tick epoch data)).view
    (.tick, tick.toBeBytes)).isSome
  rw [WarmStorage.view_batchWrite]
  exact WriteLog.isSome_replay_of_mem
    (List.mem_map_of_mem (f := Put.write) (List.mem_cons_self : Put.tick tick data ∈ _))

/-- **The indexer leaves `indexed_tick` at a stored tick.** A tick it accepts is stored before the
counter is set to it; one it refuses changes neither. -/
theorem indexTick_valid {c : Crates} {ix ix' : Indexer} {payload : Bytes}
    (h : ix.indexTick c payload = .ok ix') (hvalid : IndexedTickValid ix) :
    IndexedTickValid ix' := by
  unfold Indexer.indexTick withContext at h
  cases htick : c.serde.tickData.fromSlice payload with
  | error cause =>
    rw [htick] at h
    cases h
  | ok tick =>
    rw [htick] at h
    by_cases haccepts : Indexer.acceptsTick tick
    · simp only [if_pos haccepts] at h
      cases h
      refine Or.inr ?_
      show (((ix.commitTick tick payload).storage.putEpochStats _ _).getTick tick.tick).isSome
      rw [getTick_putEpochStats]
      exact getTick_batchPutTick ix.storage tick.tick tick.epoch payload
    · simp only [if_neg haccepts] at h
      cases h
      exact hvalid

/-! ## The system

The backfill connections and the indexer share the pipeline state. A read of a connection raises
`indexed_tick` to the tick its answer carries, long before the indexer sees it. -/

/-- A backfill connection, as the worker opens it. -/
structure Connection where
  link : Link
  epoch : UInt16
  currentTick : UInt32
  workerEnd : UInt32

/-- The indexer and the connections, over the pipeline state of the indexer. -/
structure BackfillSystem where
  indexer : Indexer
  sessions : Nat → Session

inductive SystemEvent where
  /-- `index_tick` handles a payload from NATS. -/
  | index (payload : Bytes)
  /-- Connection `k` takes one turn of its read loop. -/
  | read (k : Nat) (i : Incoming)

section BackfillSystem

variable (c : Crates) (connections : Nat → Connection)

def BackfillSystem.session (sys : BackfillSystem) (k : Nat) : Session :=
  { sys.sessions k with pipeline := sys.indexer.pipeline }

def BackfillSystem.step (sys : BackfillSystem) : SystemEvent → BackfillSystem
  | .index payload =>
    match sys.indexer.indexTick c payload with
    | .ok ix => { sys with indexer := ix }
    | .error _ => sys
  | .read k i =>
    let conn := connections k
    let s := readTurn c conn.link conn.epoch conn.workerEnd (sys.session k) i
    { indexer := { sys.indexer with pipeline := s.pipeline }
      sessions := Function.update sys.sessions k s }

/-- Any store, nothing indexed yet in this run of the program. -/
def BackfillSystem.start (ix : Indexer) : BackfillSystem where
  indexer := { ix with pipeline := { ix.pipeline with indexedTick := 0 } }
  sessions k :=
    openSession (connections k).link (connections k).workerEnd (connections k).currentTick
      ix.pipeline

def BackfillSystem.run (ix : Indexer) (events : List SystemEvent) : BackfillSystem :=
  events.foldl (BackfillSystem.step c connections) (BackfillSystem.start connections ix)

end BackfillSystem

section Results

variable {c : Crates} {connections : Nat → Connection} {ix : Indexer}

/-- A run that ends in an event is that event after the run before. -/
theorem run_concat (events : List SystemEvent) (e : SystemEvent) :
    BackfillSystem.run c connections ix (events ++ [e])
      = (BackfillSystem.run c connections ix events).step c connections e :=
  List.foldl_concat ..

/-- A read raises `indexed_tick` to the tick its answer carries, and leaves the store alone. A read
without an answer leaves both. -/
theorem step_read (c : Crates) (connections : Nat → Connection) (sys : BackfillSystem) (k : Nat)
    (i : Incoming) :
    (sys.step c connections (.read k i)).indexer.storage = sys.indexer.storage ∧
    (sys.step c connections (.read k i)).indexer.pipeline.indexedTick
      = (answerOf c (sys.session k) i).elim sys.indexer.pipeline.indexedTick
          (fun a => max sys.indexer.pipeline.indexedTick a.respTick) :=
  ⟨rfl, indexedTick_readTurn (sys.session k) i⟩

/-- A step of the indexer keeps the counter valid, whatever the payload. -/
theorem step_index_valid {sys : BackfillSystem} (h : IndexedTickValid sys.indexer)
    (payload : Bytes) :
    IndexedTickValid (sys.step c connections (.index payload)).indexer := by
  unfold BackfillSystem.step
  cases hindex : sys.indexer.indexTick c payload with
  | ok ix' =>
    simp only [hindex]
    exact indexTick_valid hindex h
  | error fault =>
    simp only [hindex]
    exact h

/-- A read keeps `indexed_tick` valid exactly when its answer carries no tick above it that is
not stored. -/
theorem step_read_valid_iff {sys : BackfillSystem} (h : IndexedTickValid sys.indexer) (k : Nat)
    (i : Incoming) :
    IndexedTickValid (sys.step c connections (.read k i)).indexer ↔
      ∀ a, answerOf c (sys.session k) i = some a →
        a.respTick ≤ sys.indexer.pipeline.indexedTick ∨
          (sys.indexer.storage.getTick a.respTick).isSome := by
  have htick := (step_read c connections sys k i).2
  unfold IndexedTickValid
  rw [htick, (step_read c connections sys k i).1]
  cases answerOf c (sys.session k) i with
  | none => exact iff_of_true h nofun
  | some a =>
    rw [Option.elim_some]
    -- an answer below the counter does not move it
    by_cases hle : a.respTick ≤ sys.indexer.pipeline.indexedTick
    · rw [UInt32.max_of_ge hle]
      refine iff_of_true h ?_
      rintro _ ⟨⟩
      exact Or.inl hle
    · -- one above it does, so its tick has to be stored
      have hlt := UInt32.not_le.mp hle
      have hpos : a.respTick ≠ 0 := by
        intro hzero
        rw [hzero] at hlt
        exact absurd hlt UInt32.not_lt_zero
      rw [UInt32.max_of_le (UInt32.le_of_lt hlt), or_iff_right hpos]
      constructor
      · rintro hstored _ ⟨⟩
        exact Or.inr hstored
      · intro hcond
        exact (hcond a rfl).resolve_left hle

/-- **`indexed_tick` refers to stored data throughout a run exactly when no connection runs ahead
of the indexer**: whenever a packet is counted, the tick it carries is not above `indexed_tick`,
or is stored already. -/
theorem indexed_tick_valid_iff (c : Crates) (connections : Nat → Connection) (ix : Indexer)
    (events : List SystemEvent) :
    (∀ before after, events = before ++ after →
      IndexedTickValid (BackfillSystem.run c connections ix before).indexer) ↔
    ∀ before k dejavu payload nats after,
      events = before ++ .read k (.packet 8 dejavu payload nats) :: after →
      Counted ((BackfillSystem.run c connections ix before).session k) dejavu payload →
      TickWire.tick payload
        ≤ (BackfillSystem.run c connections ix before).indexer.pipeline.indexedTick ∨
      ((BackfillSystem.run c connections ix before).indexer.storage.getTick
        (TickWire.tick payload)).isSome := by
  constructor
  · intro h before k dejavu payload nats after heq hcounted
    -- valid before the packet and after it, so the packet was no step ahead
    have hnow := h before _ heq
    have hnext := h (before ++ [.read k (.packet 8 dejavu payload nats)]) after (by simp [heq])
    rw [run_concat] at hnext
    obtain ⟨a, hanswer, htick⟩ := (counted_iff c _ dejavu payload nats).mp hcounted
    rw [← htick]
    exact (step_read_valid_iff hnow k _).mp hnext a hanswer
  · intro h before
    -- the induction is on the events so far; each step of the indexer and each read keeps the
    -- counter valid
    induction before using List.reverseRecOn with
    | nil => exact fun _ _ => Or.inl rfl
    | append_singleton before e ih =>
      intro after heq
      have hnow := ih (e :: after) (by simp [heq])
      rw [run_concat]
      cases e with
      | index payload => exact step_index_valid hnow payload
      | read k i =>
        refine (step_read_valid_iff hnow k i).mpr (fun a hanswer => ?_)
        obtain ⟨dejavu, payload, nats, entry, p, rfl, -, -, -, -, rfl⟩ := answerOf_some hanswer
        have hcounted := (counted_iff c _ dejavu payload nats).mpr ⟨_, hanswer, rfl⟩
        exact h before k dejavu payload nats after (by simp [heq]) hcounted

end Results

/-- A tick received by backfill, and not yet indexed: `indexed_tick` is 3, and the store has
nothing. -/
theorem indexed_tick_ahead :
    let sys := BackfillSystem.run (.ofKnown {}) (fun _ => ⟨.counting 7, 5, 3, 5⟩) (.new .empty {})
      [.read 0 (.packet 8 7 (tickPayload 3) (.ok ()))]
    ¬IndexedTickValid sys.indexer := by
  intro sys h
  have htick : sys.indexer.pipeline.indexedTick = 3 := by decide +kernel
  unfold IndexedTickValid at h
  rw [htick] at h
  rcases h with hzero | hstored
  · cases hzero
  · have hempty : (WarmStorage.empty.view (.tick, UInt32.toBeBytes 3)).isSome := hstored
    rw [WarmStorage.view_empty] at hempty
    cases hempty

end Qonduit

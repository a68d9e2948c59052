import Qonduit.Processor.StreamLog

/-!
# Qonduit — epoch statistics over runs

`update_epoch_stats` is a read-modify-write of the JSON record of one epoch. The calls a run
makes are determined by its messages: an accepted tick charges its own epoch, a transaction or
an entity charges the epoch of the last accepted tick before it (`statsEvents`).

* **`getEpochStats_run`** — the record of an epoch after a run is the stored one folded over
  the events charged to the epoch.
* **`foldl_apply_eq_self_iff`** — events whose ticks the record already covers leave it
  unchanged exactly when their numbers vanish in the counters' widths.
-/

namespace Qonduit

/-- One call of `update_epoch_stats`. -/
inductive StatsEvent where
  | tick (tick : UInt32)
  | tx
  | entity
  deriving DecidableEq, Repr

def StatsEvent.apply (stats : EpochStats) : StatsEvent → EpochStats
  | .tick n => Indexer.countTick n stats
  | .tx => Indexer.countTx stats
  | .entity => Indexer.countEntity stats

def StatsEvent.isTick : StatsEvent → Bool
  | .tick _ => true
  | _ => false

/-- The tick a payload of the tick stream carries, when it is accepted. -/
def acceptedTick (c : Crates) (payload : Bytes) : Option TickData :=
  match c.serde.tickData.fromSlice payload with
  | .ok tick => if Indexer.acceptsTick tick then some tick else none
  | .error _ => none

def charge (epoch : UInt16) (ev : StatsEvent) : Option (UInt16 × StatsEvent) :=
  if epoch > 0 then some (epoch, ev) else none

/-- The statistics call of a message while `epoch` is the indexed one. -/
def statsEvent (c : Crates) (epoch : UInt16) (m : Message) : Option (UInt16 × StatsEvent) :=
  match m.1 with
  | .tick => (acceptedTick c m.2).map (fun tick => (tick.epoch, .tick tick.tick))
  | .tx =>
    match c.serde.transaction.fromSlice m.2 with
    | .ok _ => charge epoch .tx
    | .error _ => none
  | .entity =>
    match c.serde.entityData.fromSlice m.2 with
    | .ok entity => (decodeBase26 c entity.identity).bind (fun _ => charge epoch .entity)
    | .error _ => none
  | _ => none

def nextEpoch (c : Crates) (epoch : UInt16) (m : Message) : UInt16 :=
  match m.1 with
  | .tick => ((acceptedTick c m.2).map (·.epoch)).getD epoch
  | _ => epoch

/-- The statistics calls of a run that starts with `epoch` indexed. -/
def statsEvents (c : Crates) (epoch : UInt16) : List Message → List (UInt16 × StatsEvent)
  | [] => []
  | m :: ms => (statsEvent c epoch m).toList ++ statsEvents c (nextEpoch c epoch m) ms

def eventsFor (epoch : UInt16) (evs : List (UInt16 × StatsEvent)) : List StatsEvent :=
  (evs.filter (fun x => x.1 = epoch)).map Prod.snd

theorem eventsFor_append (epoch : UInt16) (xs ys : List (UInt16 × StatsEvent)) :
    eventsFor epoch (xs ++ ys) = eventsFor epoch xs ++ eventsFor epoch ys := by
  simp [eventsFor]

/-- A message makes at most one statistics call. -/
theorem eventsFor_toList (epoch : UInt16) (x : Option (UInt16 × StatsEvent)) :
    eventsFor epoch x.toList = [] ∨ ∃ ev, eventsFor epoch x.toList = [ev] := by
  cases x with
  | none => exact .inl rfl
  | some x => by_cases h : x.1 = epoch <;> simp [eventsFor, h]

namespace Indexer

/-! ## One step

A message makes its statistics call on the record stored at that moment, after its other writes.
These are in other families, so the call sees the record of the messages before. -/

/-- A tick is committed, then counted for its own epoch. -/
theorem consume_tick (c : Crates) (ix : Indexer) (payload : Bytes) :
    consume c ix (.tick, payload)
      = match acceptedTick c payload with
        | some tick => (ix.commitTick tick payload).updateEpochStats c tick.epoch
            (countTick tick.tick)
        | none => ix := by
  simp only [consume, handler, indexTick, withContext, acceptedTick]
  cases c.serde.tickData.fromSlice payload with
  | error e => rfl
  | ok tick => by_cases h : acceptsTick tick <;> simp [h]

/-- The indexed epoch becomes that of an accepted tick, and nothing else changes it. Ticks of an
older epoch do so as well, as the store of the gauge is unconditional. -/
theorem indexedEpoch_consume (c : Crates) (ix : Indexer) (m : Message) :
    (consume c ix m).pipeline.indexedEpoch = nextEpoch c ix.pipeline.indexedEpoch m := by
  rw [pipeline_consume]
  obtain ⟨σ, payload⟩ := m
  cases σ with
  | tick =>
    simp only [nextPipeline, nextEpoch, acceptedTick]
    cases c.serde.tickData.fromSlice payload with
    | error e => rfl
    | ok tick => by_cases h : acceptsTick tick <;> simp [h, commitTick]
  | tx =>
    simp only [nextPipeline, nextEpoch]
    cases c.serde.transaction.fromSlice payload <;> rfl
  | entity =>
    simp only [nextPipeline, nextEpoch]
    cases c.serde.entityData.fromSlice payload with
    | error e => rfl
    | ok entity =>
      dsimp only
      cases decodeBase26 c entity.identity <;> rfl
  | _ => rfl

/-- The record `update_epoch_stats` starts from depends on `epoch_stats` only. -/
theorem loadEpochStats_batchWrite {c : Crates} {s : WarmStorage} {batch : WriteBatch}
    (h : ∀ p ∈ batch, p.cf ≠ .epochStats) (epoch : UInt16) :
    loadEpochStats c (s.batchWrite batch) epoch = loadEpochStats c s epoch := by
  have hget : (s.batchWrite batch).getEpochStats epoch = s.getEpochStats epoch :=
    WarmStorage.view_batchWrite_of_cf h epoch.toBeBytes
  simp only [loadEpochStats, hget]

/-- The statistics have no single owner. -/
theorem ne_epochStats_of_owner {p : Put} {σ : Stream} (h : owner p.cf = some σ) :
    p.cf ≠ .epochStats := by
  intro hcf
  rw [hcf] at h
  cases h

/-- Writes elsewhere make no difference to the record written. -/
theorem statsPut_batchWrite {c : Crates} {s : WarmStorage} {batch : WriteBatch}
    (h : ∀ p ∈ batch, p.cf ≠ .epochStats) (epoch : UInt16) (f : EpochStats → EpochStats) :
    statsPut c (s.batchWrite batch) epoch f = statsPut c s epoch f := by
  rw [statsPut, loadEpochStats_batchWrite h]
  rfl

/-- A charge writes one record, or none where no epoch is indexed. -/
theorem filter_chargePuts (c : Crates) (ix : Indexer) {s : WarmStorage} {batch : WriteBatch}
    (hs : ix.storage = s.batchWrite batch) (h : ∀ p ∈ batch, p.cf ≠ .epochStats)
    (ev : StatsEvent) :
    (chargePuts c ix (fun stats => ev.apply stats)).filter (fun p => p.cf = .epochStats)
      = (charge ix.pipeline.indexedEpoch ev).toList.map
          (fun x => statsPut c s x.1 (fun stats => x.2.apply stats)) := by
  rw [chargePuts, charge, hs, statsPut_batchWrite h]
  split <;> rfl

/-- The writes of a step into `epoch_stats`: its statistics call. The record is loaded behind the
other writes of the message, but none of these is in the family, so it is the one of the store
before. -/
theorem filter_puts_epochStats (c : Crates) (ix : Indexer) (m : Message) :
    (puts c ix m).filter (fun p => p.cf = .epochStats)
      = (statsEvent c ix.pipeline.indexedEpoch m).toList.map
          (fun x => statsPut c ix.storage x.1 (fun stats => x.2.apply stats)) := by
  have hpayload : (payloadPuts c m.1 m.2).filter (fun p => p.cf = .epochStats) = [] :=
    filter_eq_nil_of_owner (fun p hp => by rw [owner_of_mem_payloadPuts hp]; simp [owner])
  rw [puts, List.filter_append, hpayload, List.nil_append]
  obtain ⟨σ, payload⟩ := m
  cases σ with
  | tick =>
    simp only [statePuts, statsEvent, acceptedTick]
    cases c.serde.tickData.fromSlice payload with
    | error e => rfl
    | ok tick =>
      by_cases h : acceptsTick tick
      · simp only [if_pos h, commitTick]
        rw [statsPut_batchWrite (fun p hp => ne_epochStats_of_owner (owner_of_mem_batchPutTick hp))]
        rfl
      · simp [h]
  | tx =>
    simp only [statePuts, statsEvent]
    cases c.serde.transaction.fromSlice payload with
    | error e => rfl
    | ok tx =>
      have htx : (txPuts c tx payload (ix.txIndex tx.tick)).filter
          (fun p => p.cf = .epochStats) = [] :=
        filter_eq_nil_of_owner (fun p hp => by rw [owner_of_mem_txPuts hp]; simp [owner])
      simp only [List.filter_append, htx, List.nil_append]
      exact filter_chargePuts c (ix.commitTransaction c tx payload) rfl
        (fun p hp => ne_epochStats_of_owner (owner_of_mem_txPuts hp)) .tx
  | entity =>
    simp only [statePuts, statsEvent]
    cases c.serde.entityData.fromSlice payload with
    | error e => rfl
    | ok entity =>
      dsimp only
      cases decodeBase26 c entity.identity with
      | none => rfl
      | some key =>
        -- the statistics are read after the entity is written, into another family
        have hs : (ix.commitEntity key payload).storage
            = ix.storage.batchWrite [.entity key payload] := rfl
        exact filter_chargePuts c (ix.commitEntity key payload) hs
          (fun p hp => by rw [List.mem_singleton.mp hp]; simp [Put.entity]) .entity
  | custmsg =>
    simp only [statePuts, statsEvent]
    cases c.serde.valueFromSlice payload <;> simp [Put.customMessage]
  | oracle =>
    simp only [statePuts, statsEvent]
    cases c.serde.valueFromSlice payload <;> simp [Put.oracle]
  | _ => rfl

/-- One step, seen in the record of an epoch. -/
theorem getEpochStats_consume (c : Crates) (ix : Indexer) (m : Message) (epoch : UInt16) :
    (consume c ix m).storage.getEpochStats epoch
      = match eventsFor epoch (statsEvent c ix.pipeline.indexedEpoch m).toList with
        | [] => ix.storage.getEpochStats epoch
        | ev :: _ =>
          some (c.serde.epochStats.toVec (ev.apply (loadEpochStats c ix.storage epoch))) := by
  show (consume c ix m).storage.view (.epochStats, epoch.toBeBytes) = _
  rw [storage_consume, WarmStorage.view_batchWrite, WriteLog.replay, ← last_filter_cf,
    filter_puts_epochStats]
  cases hev : statsEvent c ix.pipeline.indexedEpoch m with
  | none => rfl
  | some x =>
    obtain ⟨e, ev⟩ := x
    by_cases he : e = epoch
    · subst he
      simp [eventsFor, statsPut, Put.write, Put.epochStats]
    · have hkey : e.toBeBytes ≠ epoch.toBeBytes := fun h => he (UInt16.toBeBytes_inj.mp h)
      simp [eventsFor, statsPut, Put.write, Put.epochStats, he, hkey]
      rfl

/-! ## Runs

Message by message the record of an epoch is changed by the updates charged to it, and read back
before the next one. -/

section Runs

variable {c : Crates}
  (hjson : ∀ stats, c.serde.epochStats.fromSlice (c.serde.epochStats.toVec stats) = .ok stats)

include hjson

/-- What was written is what is read, as statistics round-trip. -/
theorem loadEpochStats_of_get {s : WarmStorage} {epoch : UInt16} {stats : EpochStats}
    (h : s.getEpochStats epoch = some (c.serde.epochStats.toVec stats)) :
    loadEpochStats c s epoch = stats := by
  simp [loadEpochStats, h, hjson]

/-- The record a further update would start from, after one message. -/
theorem loadEpochStats_consume (ix : Indexer) (m : Message) (epoch : UInt16) :
    loadEpochStats c (consume c ix m).storage epoch
      = (eventsFor epoch (statsEvent c ix.pipeline.indexedEpoch m).toList).foldl
          StatsEvent.apply (loadEpochStats c ix.storage epoch) := by
  have hget := getEpochStats_consume c ix m epoch
  rcases eventsFor_toList epoch (statsEvent c ix.pipeline.indexedEpoch m) with hev | ⟨ev, hev⟩
  · rw [hev] at hget ⊢
    simp only [loadEpochStats, hget]
    rfl
  · rw [hev] at hget ⊢
    exact loadEpochStats_of_get hjson hget

/-- **The record of an epoch after a run**: the stored one, folded over the events charged to
the epoch. -/
theorem getEpochStats_run (ix : Indexer) (ms : List Message) (epoch : UInt16) :
    (run c ix ms).storage.getEpochStats epoch
      = if eventsFor epoch (statsEvents c ix.pipeline.indexedEpoch ms) = [] then
          ix.storage.getEpochStats epoch
        else some (c.serde.epochStats.toVec
          ((eventsFor epoch (statsEvents c ix.pipeline.indexedEpoch ms)).foldl StatsEvent.apply
            (loadEpochStats c ix.storage epoch))) := by
  induction ms generalizing ix with
  | nil => rfl
  | cons m ms ih =>
    rw [run_cons, ih, indexedEpoch_consume, loadEpochStats_consume hjson, statsEvents,
      eventsFor_append, List.foldl_append, getEpochStats_consume]
    -- the first message charges the epoch, or it leaves the record to the others
    rcases eventsFor_toList epoch (statsEvent c ix.pipeline.indexedEpoch m) with hev | ⟨ev, hev⟩
    · rw [hev]
      rfl
    · rw [hev, if_neg (List.append_ne_nil_of_left_ne_nil (List.cons_ne_nil ev []) _)]
      split
      · next hnil =>
        rw [hnil]
        rfl
      · rfl

end Runs

end Indexer

/-! ## Where the events come from

A tick names its epoch. A transaction or an entity is charged to the epoch of the last accepted tick
before it. -/

/-- The accepted ticks of an epoch in the tick stream. -/
def ticksOfEpoch (c : Crates) (e : UInt16) (payloads : List Bytes) : List UInt32 :=
  payloads.filterMap fun p =>
    match acceptedTick c p with
    | some tick => if tick.epoch = e then some tick.tick else none
    | none => none

def StatsEvent.tick? : StatsEvent → Option UInt32
  | .tick n => some n
  | _ => none

theorem ticksOfEpoch_append (c : Crates) (e : UInt16) (ps qs : List Bytes) :
    ticksOfEpoch c e (ps ++ qs) = ticksOfEpoch c e ps ++ ticksOfEpoch c e qs :=
  List.filterMap_append

/-- A charge is to the epoch in force, and never to epoch 0. -/
theorem eventsFor_charge {epoch e : UInt16} {ev ev' : StatsEvent}
    (h : ev' ∈ eventsFor e (charge epoch ev).toList) : ev' = ev ∧ e = epoch ∧ 0 < epoch := by
  unfold charge at h
  split at h
  · next hpos =>
    by_cases he : epoch = e
    · subst he
      exact ⟨by simpa [eventsFor] using h, rfl, hpos⟩
    · simp [eventsFor, he] at h
  · simp [eventsFor] at h

/-- The event a message charges to `e`: a tick of `e`, or else the epoch indexed before it
is `e`. -/
theorem mem_eventsFor_statsEvent {c : Crates} {epoch e : UInt16} {m : Message} {ev : StatsEvent}
    (h : ev ∈ eventsFor e (statsEvent c epoch m).toList) :
    (∃ tick, m.1 = .tick ∧ acceptedTick c m.2 = some tick ∧ tick.epoch = e ∧ ev = .tick tick.tick)
    ∨ (m.1 ≠ .tick ∧ ev.tick? = none ∧ e = epoch ∧ 0 < epoch) := by
  obtain ⟨σ, payload⟩ := m
  cases σ <;> simp only [statsEvent] at h
  case tick =>
    cases htick : acceptedTick c payload with
    | none => simp [htick, eventsFor] at h
    | some tick =>
      by_cases he : tick.epoch = e
      · exact .inl ⟨tick, rfl, rfl, he, by simpa [htick, eventsFor, he] using h⟩
      · simp [htick, eventsFor, he] at h
  case tx =>
    split at h
    · obtain ⟨rfl, he⟩ := eventsFor_charge h
      exact .inr ⟨by simp, rfl, he⟩
    · simp [eventsFor] at h
  -- an entity whose identity is not valid is not counted
  case entity =>
    split at h
    · next entity _ =>
      cases hkey : decodeBase26 c entity.identity with
      | none => simp [hkey, eventsFor] at h
      | some key =>
        rw [hkey] at h
        obtain ⟨rfl, he⟩ := eventsFor_charge h
        exact .inr ⟨by simp, rfl, he⟩
    · simp [eventsFor] at h
  all_goals simp [eventsFor] at h

theorem ticksOfEpoch_singleton {c : Crates} {m : Message} {tick : TickData} (hm : m.1 = .tick)
    (h : acceptedTick c m.2 = some tick) :
    ticksOfEpoch c tick.epoch (ofStream .tick [m]) = [tick.tick] := by
  simp [ofStream_singleton, hm, ticksOfEpoch, h]

/-- The ticks charged to an epoch are its accepted ticks, whatever the interleaving with the
other streams. -/
theorem filterMap_tick?_eventsFor (c : Crates) (epoch e : UInt16) (ms : List Message) :
    (eventsFor e (statsEvents c epoch ms)).filterMap StatsEvent.tick?
      = ticksOfEpoch c e (ofStream .tick ms) := by
  induction ms generalizing epoch with
  | nil => rfl
  | cons m ms ih =>
    rw [statsEvents, eventsFor_append, List.filterMap_append, ih, ← List.singleton_append,
      ofStream_append, ticksOfEpoch_append]
    congr 1
    by_cases hm : m.1 = .tick
    · rw [ofStream_singleton, if_pos hm, statsEvent, hm]
      cases htick : acceptedTick c m.2 with
      | none => simp [ticksOfEpoch, htick, eventsFor]
      | some tick =>
        by_cases he : tick.epoch = e <;>
          simp [ticksOfEpoch, htick, eventsFor, he, StatsEvent.tick?]
    · -- transactions and entities are charged, but count no tick
      rw [ofStream_singleton, if_neg hm]
      refine List.filterMap_eq_nil_iff.mpr (fun ev hev => ?_)
      rcases mem_eventsFor_statsEvent hev with ⟨_, htick, -⟩ | ⟨-, hnone, -⟩
      · exact absurd htick hm
      · exact hnone

/-- With no epoch indexed at the start, only epochs with accepted ticks are charged. A tick charges
its own epoch, and everything else the epoch of a tick before it. -/
theorem ticksOfEpoch_ne_nil {c : Crates} {epoch e : UInt16} {ms : List Message}
    (h : eventsFor e (statsEvents c epoch ms) ≠ []) :
    ticksOfEpoch c e (ofStream .tick ms) ≠ [] ∨ (e = epoch ∧ 0 < epoch) := by
  induction ms generalizing epoch with
  | nil => exact absurd rfl h
  | cons m ms ih =>
    rw [← List.singleton_append, ofStream_append, ticksOfEpoch_append]
    have hhead : ∀ tick, m.1 = .tick → acceptedTick c m.2 = some tick → tick.epoch = e →
        ticksOfEpoch c e (ofStream .tick [m]) ++ ticksOfEpoch c e (ofStream .tick ms) ≠ [] := by
      rintro tick hm htick rfl
      rw [ticksOfEpoch_singleton hm htick]
      simp
    rw [statsEvents, eventsFor_append] at h
    by_cases hfirst : eventsFor e (statsEvent c epoch m).toList = []
    · rw [hfirst, List.nil_append] at h
      rcases ih h with hrest | ⟨rfl, hpos⟩
      · exact .inl (List.append_ne_nil_of_right_ne_nil _ hrest)
      · -- the epoch in force later was set by this message or was in force before it
        by_cases hm : m.1 = .tick
        · cases htick : acceptedTick c m.2 with
          | some tick =>
            exact .inl (hhead tick hm htick (by simp [nextEpoch, hm, htick]))
          | none =>
            have hsame : nextEpoch c epoch m = epoch := by simp [nextEpoch, hm, htick]
            exact .inr ⟨hsame, hsame ▸ hpos⟩
        · have hsame : nextEpoch c epoch m = epoch := by
            unfold nextEpoch
            split
            · next h => exact absurd h hm
            · rfl
          exact .inr ⟨hsame, hsame ▸ hpos⟩
    · obtain ⟨ev, hev⟩ := List.exists_mem_of_ne_nil _ hfirst
      rcases mem_eventsFor_statsEvent hev with ⟨tick, hm, htick, he, -⟩ | ⟨-, -, he⟩
      · exact .inl (hhead tick hm htick he)
      · exact .inr he

/-! ## Repeating events

A record keeps the least and the greatest tick and counts the rest. Once the range of ticks is
covered, repeating an update only raises counters, and these are back where they were when the
number of repetitions vanishes in their width. -/

/-- The record's tick bounds enclose `n`. -/
def Covers (stats : EpochStats) (n : UInt32) : Prop :=
  ∃ a b, stats.firstTick = some a ∧ stats.lastTick = some b ∧ a ≤ n ∧ n ≤ b

/-- An update does not uncover a tick. -/
theorem covers_apply {stats : EpochStats} {n : UInt32} (h : Covers stats n) (ev : StatsEvent) :
    Covers (ev.apply stats) n := by
  obtain ⟨a, b, ha, hb, han, hnb⟩ := h
  cases ev with
  | tick k =>
    refine ⟨min a k, max b k, by simp [StatsEvent.apply, Indexer.countTick, ha],
      by simp [StatsEvent.apply, Indexer.countTick, hb], ?_, ?_⟩
    · exact UInt32.le_trans (UInt32.min_le a k).1 han
    · exact UInt32.le_trans hnb (UInt32.le_max b k).1
  | tx => exact ⟨a, b, ha, hb, han, hnb⟩
  | entity => exact ⟨a, b, ha, hb, han, hnb⟩

theorem covers_apply_self (stats : EpochStats) (n : UInt32) :
    Covers ((StatsEvent.tick n).apply stats) n :=
  ⟨_, _, rfl, rfl, (UInt32.min_le _ n).2, (UInt32.le_max _ n).2⟩

theorem covers_foldl {stats : EpochStats} {n : UInt32} (h : Covers stats n)
    (evs : List StatsEvent) : Covers (evs.foldl StatsEvent.apply stats) n := by
  induction evs generalizing stats with
  | nil => exact h
  | cons ev evs ih => exact ih (covers_apply h ev)

/-- The record covers every tick it was charged with. -/
theorem covers_foldl_of_mem {n : UInt32} {evs : List StatsEvent} (h : StatsEvent.tick n ∈ evs)
    (stats : EpochStats) : Covers (evs.foldl StatsEvent.apply stats) n := by
  induction evs generalizing stats with
  | nil => cases h
  | cons ev evs ih =>
    rcases List.mem_cons.mp h with rfl | h
    · exact covers_foldl (covers_apply_self stats n) evs
    · exact ih h _

/-- A covered tick only raises the tick count. -/
theorem countTick_of_covers {stats : EpochStats} {n : UInt32} (h : Covers stats n) :
    Indexer.countTick n stats = { stats with tickCount := stats.tickCount + 1 } := by
  obtain ⟨a, b, ha, hb, han, hnb⟩ := h
  have hmin : min a n = a := by rw [UInt32.min_eq_ite, if_pos han]
  have hmax : max b n = b := UInt32.max_of_ge hnb
  simp [Indexer.countTick, ha, hb, hmin, hmax]

theorem uint32_add_one_add (x : UInt32) (n : Nat) :
    x + 1 + UInt32.ofNat n = x + UInt32.ofNat (n + 1) := by
  rw [UInt32.add_assoc, UInt32.add_comm 1, UInt32.ofNat_add]
  rfl

theorem uint64_add_one_add (x : UInt64) (n : Nat) :
    x + 1 + UInt64.ofNat n = x + UInt64.ofNat (n + 1) := by
  rw [UInt64.add_assoc, UInt64.add_comm 1, UInt64.ofNat_add]
  rfl

/-- Events whose ticks are covered only raise the three counters. The least and the greatest tick
stay as they are, since every tick lies between them already. -/
theorem foldl_apply_of_covers {stats : EpochStats} {evs : List StatsEvent}
    (h : ∀ n, StatsEvent.tick n ∈ evs → Covers stats n) :
    evs.foldl StatsEvent.apply stats =
      { stats with
        tickCount := stats.tickCount + UInt32.ofNat (evs.countP StatsEvent.isTick)
        txCount := stats.txCount + UInt64.ofNat (evs.count .tx)
        entityCount := stats.entityCount + UInt64.ofNat (evs.count .entity) } := by
  induction evs generalizing stats with
  | nil => simp
  | cons ev evs ih =>
    rw [List.foldl_cons, ih (fun n hn => covers_apply (h n (by simp [hn])) ev)]
    cases ev with
    | tick k =>
      simp only [StatsEvent.apply, countTick_of_covers (h k (by simp)), uint32_add_one_add]
      simp [List.countP_cons, StatsEvent.isTick]
    | tx =>
      simp only [StatsEvent.apply, Indexer.countTx, uint64_add_one_add]
      simp [StatsEvent.isTick]
    | entity =>
      simp only [StatsEvent.apply, Indexer.countEntity, uint64_add_one_add]
      simp [StatsEvent.isTick]

/-- The numbers of ticks, transactions and entities vanish in the widths of their counters. -/
def Vanish (evs : List StatsEvent) : Prop :=
  evs.countP StatsEvent.isTick % 2 ^ 32 = 0 ∧ evs.count .tx % 2 ^ 64 = 0 ∧
    evs.count .entity % 2 ^ 64 = 0

/-- **Repeated events go unnoticed exactly when their numbers vanish.** -/
theorem foldl_apply_eq_self_iff {stats : EpochStats} {evs : List StatsEvent}
    (h : ∀ n, StatsEvent.tick n ∈ evs → Covers stats n) :
    evs.foldl StatsEvent.apply stats = stats ↔ Vanish evs := by
  have h32 : ∀ n : Nat, UInt32.ofNat n = 0 ↔ n % 2 ^ 32 = 0 := by
    intro n
    rw [← UInt32.toNat_inj, UInt32.toNat_ofNat']
    rfl
  have h64 : ∀ n : Nat, UInt64.ofNat n = 0 ↔ n % 2 ^ 64 = 0 := by
    intro n
    rw [← UInt64.toNat_inj, UInt64.toNat_ofNat']
    rfl
  rw [foldl_apply_of_covers h, Vanish, ← h32, ← h64, ← h64]
  constructor
  · intro heq
    exact ⟨UInt32.add_eq_left.mp (congrArg EpochStats.tickCount heq),
      UInt64.add_eq_left.mp (congrArg EpochStats.txCount heq),
      UInt64.add_eq_left.mp (congrArg EpochStats.entityCount heq)⟩
  · rintro ⟨h₁, h₂, h₃⟩
    simp [h₁, h₂, h₃]

end Qonduit

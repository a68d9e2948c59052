import Qonduit.Core.Json
import Qonduit.Processor.Attribution

/-!
# Qonduit — what all schedules agree on

The same messages, consumed to the end under two schedules. The records have the same epochs and
the same tick side. The two other counters may differ: a transaction consumed before the first
tick is charged to no epoch, one consumed after it is.

* **`agree_of_nothingToCharge`** — the records are the same when there is no epoch to charge or
  nothing to charge to it.
* **`exists_disagreement`** — and otherwise two schedules leave different ones.
* **`epoch_stats_schedule`** — both, with the tick side of all other cases.
-/

namespace Qonduit

/-- The part of a record that ticks decide. -/
def EpochStats.tickPart (stats : EpochStats) :
    UInt16 × UInt32 × Option UInt32 × Option UInt32 :=
  (stats.epoch, stats.tickCount, stats.firstTick, stats.lastTick)

/-- The tick part of the stored record of an epoch, as far as it parses. -/
def tickRecord (c : Crates) (s : WarmStorage) (epoch : UInt16) :
    Option (Option (UInt16 × UInt32 × Option UInt32 × Option UInt32)) :=
  (s.getEpochStats epoch).map
    (fun data => (c.serde.epochStats.fromSlice data).toOption.map EpochStats.tickPart)

/-- No accepted tick has an epoch that can be charged, or no transaction and no entity gets past
the checks of its handler. -/
def NothingToCharge (c : Crates) (queue : Stream → List Bytes) : Prop :=
  (∀ epoch, 0 < epoch → ticksOfEpoch c epoch (queue .tick) = []) ∨
    ¬Countable c queue .tx ∧ ¬Countable c queue .entity

/-! ## Orders of the messages

A schedule that handles one message after the other is an order of the messages. Two particular
orders are put together from the queues here, and any other one has the same messages in each
stream. -/

/-- The messages of some streams, one stream after the other. -/
def inOrder (queue : Stream → List Bytes) (streams : List Stream) : List Message :=
  streams.flatMap (fun σ => (queue σ).map (Prod.mk σ))

/-- The messages of one stream are none of another. -/
theorem ofStream_map_of_ne {σ σ' : Stream} (h : σ' ≠ σ) (payloads : List Bytes) :
    ofStream σ (payloads.map (Prod.mk σ')) = [] := by
  simp [ofStream, List.filter_map, Function.comp_def, h]

/-- Queues that are handled one after the other leave each stream as it is. -/
theorem ofStream_inOrder (queue : Stream → List Bytes) {streams : List Stream}
    (hnodup : streams.Nodup) (σ : Stream) :
    ofStream σ (inOrder queue streams) = if σ ∈ streams then queue σ else [] := by
  induction streams with
  | nil => rfl
  | cons σ' streams ih =>
    obtain ⟨hnot, hnodup⟩ := List.nodup_cons.mp hnodup
    rw [inOrder, List.flatMap_cons, ofStream_append]
    change _ ++ ofStream σ (inOrder queue streams) = _
    rw [ih hnodup]
    by_cases hσ : σ' = σ
    · subst hσ
      rw [ofStream_map, if_neg hnot, if_pos (List.mem_cons_self ..), List.append_nil]
    · rw [ofStream_map_of_ne hσ, List.nil_append]
      simp [Ne.symm hσ]

/-- The streams other than two. -/
def others (σ : Stream) : List Stream :=
  [.tick, .tx, .entity, .computors, .asset, .contract, .custmsg, .spectrum, .log, .tickvote,
    .oracle].filter (fun σ' => σ' ≠ .tick ∧ σ' ≠ σ)

/-- Where two streams are left out, the queues of the others are as they were. -/
theorem ofStream_others (queue : Stream → List Bytes) (σ σ' : Stream) :
    ofStream σ' (inOrder queue (others σ)) = if σ' = .tick ∨ σ' = σ then [] else queue σ' := by
  have hnodup : (others σ).Nodup := List.Nodup.filter _ (by decide)
  have hmem : σ' ∈ others σ ↔ ¬(σ' = .tick ∨ σ' = σ) := by
    have hall : σ' ∈ [Stream.tick, .tx, .entity, .computors, .asset, .contract, .custmsg,
        .spectrum, .log, .tickvote, .oracle] := by
      cases σ' <;> decide
    simp only [others, List.mem_filter, hall, true_and, decide_eq_true_eq, not_or]
  rw [ofStream_inOrder queue hnodup]
  by_cases h : σ' = .tick ∨ σ' = σ
  · rw [if_neg (fun hσ => hmem.mp hσ h), if_pos h]
  · rw [if_pos (hmem.mpr h), if_neg h]

/-! ## What an order charges

A message charges the epoch of the last tick before it. So the updates of a run are computed along
it, with the epoch in force passed on. -/

section Orders

variable {c : Crates}

theorem statsEvents_append (epoch : UInt16) (ms ms' : List Message) :
    statsEvents c epoch (ms ++ ms')
      = statsEvents c epoch ms ++ statsEvents c (ms.foldl (nextEpoch c) epoch) ms' := by
  induction ms generalizing epoch with
  | nil => rfl
  | cons m ms ih => rw [List.cons_append, statsEvents, ih, statsEvents, List.append_assoc]; rfl

/-- What is charged is the update, to the epoch in force. -/
theorem charge_eq_some {epoch : UInt16} {ev : StatsEvent} {x : UInt16 × StatsEvent}
    (h : charge epoch ev = some x) : x = (epoch, ev) := by
  unfold charge at h
  split at h <;> cases h
  rfl

/-- A statistics call is that of the message's own stream, past the checks of the handler. Only
ticks, transactions and entities make one. -/
theorem statsEvent_source {epoch : UInt16} {m : Message} {x : UInt16 × StatsEvent}
    (h : statsEvent c epoch m = some x) : m.1 = x.2.stream ∧ (firstAccess c m.1 m.2).isSome := by
  obtain ⟨σ, payload⟩ := m
  cases σ <;> simp only [statsEvent] at h
  case tick =>
    obtain ⟨tick, htick, rfl⟩ := Option.map_eq_some_iff.mp h
    exact ⟨rfl, by simp [firstAccess, htick]⟩
  case tx =>
    split at h
    · next tx htx =>
      cases charge_eq_some h
      exact ⟨rfl, by simp [firstAccess, htx]⟩
    · cases h
  case entity =>
    split at h
    · next entity hentity =>
      obtain ⟨key, hkey, hx⟩ := Option.bind_eq_some_iff.mp h
      cases charge_eq_some hx
      exact ⟨rfl, by simp [firstAccess, hentity, hkey]⟩
    · cases h
  all_goals cases h

/-- A message that gets past the checks of its handler charges the epoch in force. -/
theorem statsEvent_eq_charge {ev : StatsEvent} (hnone : ev.tick? = none) {payload : Bytes}
    (h : (firstAccess c ev.stream payload).isSome) (epoch : UInt16) :
    statsEvent c epoch (ev.stream, payload) = charge epoch ev := by
  cases ev with
  | tick n => cases hnone
  | tx =>
    cases htx : c.serde.transaction.fromSlice payload with
    | error e => simp [firstAccess, StatsEvent.stream, htx] at h
    | ok tx => simp only [StatsEvent.stream, statsEvent, htx]
  | entity =>
    cases hentity : c.serde.entityData.fromSlice payload with
    | error e => simp [firstAccess, StatsEvent.stream, hentity] at h
    | ok entity =>
      cases hkey : decodeBase26 c entity.identity with
      | none => simp [firstAccess, StatsEvent.stream, hentity, hkey] at h
      | some key => simp only [StatsEvent.stream, statsEvent, hentity, hkey, Option.bind_some]

/-- Every update comes from a message past the checks of its handler. -/
theorem mem_statsEvents {epoch : UInt16} {ms : List Message} {x : UInt16 × StatsEvent}
    (h : x ∈ statsEvents c epoch ms) :
    ∃ m ∈ ms, m.1 = x.2.stream ∧ (firstAccess c m.1 m.2).isSome := by
  induction ms generalizing epoch with
  | nil => cases h
  | cons m ms ih =>
    rcases List.mem_append.mp h with hx | hx
    · exact ⟨m, List.mem_cons_self .., statsEvent_source (Option.mem_toList.mp hx)⟩
    · obtain ⟨m', hm', hsource⟩ := ih hx
      exact ⟨m', List.mem_cons_of_mem m hm', hsource⟩

/-- The number of calls of a kind that a run charges to an epoch. -/
def charges (epoch : UInt16) (ev : StatsEvent) (us : List (UInt16 × StatsEvent)) : Nat :=
  (eventsFor epoch us).count ev

theorem charges_append (epoch : UInt16) (ev : StatsEvent) (us us' : List (UInt16 × StatsEvent)) :
    charges epoch ev (us ++ us') = charges epoch ev us + charges epoch ev us' := by
  rw [charges, eventsFor_append, List.count_append]
  rfl

/-- Messages that do not get past the checks charge nothing. -/
theorem charges_eq_zero {ev : StatsEvent} {ms : List Message}
    (h : ∀ m ∈ ms, m.1 = ev.stream → firstAccess c m.1 m.2 = none) (start epoch : UInt16) :
    charges epoch ev (statsEvents c start ms) = 0 := by
  refine List.count_eq_zero.mpr (fun hmem => ?_)
  obtain ⟨m, hm, hstream, hsome⟩ :=
    mem_statsEvents (System.mem_completed_of_mem_eventsFor hmem)
  rw [h m hm hstream] at hsome
  cases hsome

/-- And those of other streams do not charge this update. -/
theorem charges_of_ne {ev : StatsEvent} {ms : List Message} (h : ∀ m ∈ ms, m.1 ≠ ev.stream)
    (start epoch : UInt16) : charges epoch ev (statsEvents c start ms) = 0 :=
  charges_eq_zero (fun m hm hstream => absurd hstream (h m hm)) start epoch

/-- Before the first tick nothing is charged. The indexed epoch is 0 then, and the handlers of
transactions and entities look at it before they make their call. -/
theorem statsEvents_zero {ms : List Message} (h : ∀ m ∈ ms, m.1 ≠ .tick) :
    statsEvents c 0 ms = [] ∧ ms.foldl (nextEpoch c) 0 = 0 := by
  induction ms with
  | nil => exact ⟨rfl, rfl⟩
  | cons m ms ih =>
    have hm : m.1 ≠ .tick := h m (List.mem_cons_self ..)
    have hnext : nextEpoch c 0 m = 0 := by
      unfold nextEpoch
      split
      · next heq => exact absurd heq hm
      · rfl
    have hevent : statsEvent c 0 m = none := by
      cases hx : statsEvent c 0 m with
      | none => rfl
      | some x =>
        have hmem : x.2 ∈ eventsFor x.1 (statsEvent c 0 m).toList := by
          simp [hx, eventsFor]
        rcases mem_eventsFor_statsEvent hmem with ⟨_, htick, -⟩ | ⟨-, -, -, hpos⟩
        · exact absurd htick hm
        · exact absurd hpos (by decide)
    obtain ⟨hnil, hzero⟩ := ih (fun m' hm' => h m' (List.mem_cons_of_mem m hm'))
    rw [statsEvents, hnext, hevent, hnil, List.foldl_cons, hnext, hzero]
    exact ⟨rfl, rfl⟩

end Orders

/-! ## Two orders of the same messages

One order puts all messages of a stream in front of the ticks, so that nothing is charged, and
another puts one of them behind a tick, so that its epoch is charged. No schedule can be right about
both. -/

section TwoOrders

variable {c : Crates} {queue : Stream → List Bytes} {ev : StatsEvent}

/-- The update of a tick is that of the tick stream. -/
theorem stream_ne_tick (hnone : ev.tick? = none) : ev.stream ≠ .tick := by
  cases ev with
  | tick n => cases hnone
  | _ => simp [StatsEvent.stream]

theorem ne_of_mem_map {σ σ' : Stream} (h : σ ≠ σ') (payloads : List Bytes) :
    ∀ m ∈ payloads.map (Prod.mk σ), m.1 ≠ σ' := by
  intro m hm
  obtain ⟨payload, -, rfl⟩ := List.mem_map.mp hm
  exact h

theorem ne_of_mem_others (queue : Stream → List Bytes) (σ : Stream) :
    ∀ m ∈ inOrder queue (others σ), m.1 ≠ σ := by
  intro m hm
  obtain ⟨σ', hσ', hm⟩ := List.mem_flatMap.mp hm
  obtain ⟨payload, -, rfl⟩ := List.mem_map.mp hm
  exact (of_decide_eq_true (List.mem_filter.mp hσ').2).2

/-- All messages of one stream before the first tick: none of them is charged. The order is put
together from three parts, the stream in question, the ticks, and everything else. -/
theorem exists_uncharged (c : Crates) (queue : Stream → List Bytes) (hnone : ev.tick? = none) :
    ∃ ms, (∀ σ, ofStream σ ms = queue σ) ∧
      ∀ epoch, charges epoch ev (statsEvents c 0 ms) = 0 := by
  have htick : ev.stream ≠ .tick := stream_ne_tick hnone
  refine ⟨(queue ev.stream).map (Prod.mk ev.stream) ++ ((queue .tick).map (Prod.mk .tick)
    ++ inOrder queue (others ev.stream)), fun σ => ?_, fun epoch => ?_⟩
  · -- every stream is as it was: the one in front, the ticks, any other
    rw [ofStream_append, ofStream_append, ofStream_others]
    by_cases hσ : σ = ev.stream
    · subst hσ
      rw [ofStream_map, ofStream_map_of_ne htick.symm, if_pos (.inr rfl), List.append_nil,
        List.append_nil]
    · rw [ofStream_map_of_ne (Ne.symm hσ), List.nil_append]
      by_cases hσ' : σ = .tick
      · subst hσ'
        rw [ofStream_map, if_pos (.inl rfl), List.append_nil]
      · rw [ofStream_map_of_ne (Ne.symm hσ'), if_neg (not_or.mpr ⟨hσ', hσ⟩), List.nil_append]
  · have hrest : ∀ m ∈ (queue .tick).map (Prod.mk Stream.tick) ++ inOrder queue (others ev.stream),
        m.1 ≠ ev.stream := by
      intro m hm
      rcases List.mem_append.mp hm with hm | hm
      · exact ne_of_mem_map htick.symm _ m hm
      · exact ne_of_mem_others queue ev.stream m hm
    rw [statsEvents_append, charges_append, (statsEvents_zero (ne_of_mem_map htick _)).1,
      charges_of_ne hrest]
    rfl

/-- Some element is the last one to satisfy a predicate. -/
theorem exists_last {α : Type} {P : α → Prop} {l : List α} (h : ∃ a ∈ l, P a) :
    ∃ pre a post, l = pre ++ a :: post ∧ P a ∧ ∀ b ∈ post, ¬P b := by
  induction l with
  | nil =>
    obtain ⟨a, ha, -⟩ := h
    cases ha
  | cons b l ih =>
    by_cases hl : ∃ a ∈ l, P a
    · obtain ⟨pre, a, post, rfl, ha, hpost⟩ := ih hl
      exact ⟨b :: pre, a, post, rfl, ha, hpost⟩
    · obtain ⟨a, ha, hP⟩ := h
      rcases List.mem_cons.mp ha with rfl | ha
      · exact ⟨[], a, l, rfl, hP, fun b hb hPb => hl ⟨b, hb, hPb⟩⟩
      · exact absurd ⟨a, ha, hP⟩ hl

/-- The last message of one stream that counts right after a tick of the epoch, and those before it
ahead of all ticks: one of them is charged to the epoch. -/
theorem exists_charged {epoch : UInt16} (hnone : ev.tick? = none)
    (hcountable : Countable c queue ev.stream) (hpos : 0 < epoch)
    (hticks : ticksOfEpoch c epoch (queue .tick) ≠ []) :
    ∃ ms, (∀ σ, ofStream σ ms = queue σ) ∧ charges epoch ev (statsEvents c 0 ms) = 1 := by
  have htick : ev.stream ≠ .tick := stream_ne_tick hnone
  obtain ⟨pre, payload, post, hqueue, hsome, hpost⟩ := exists_last hcountable
  obtain ⟨n, hn⟩ := List.exists_mem_of_ne_nil _ hticks
  obtain ⟨t, ht, hn⟩ := List.mem_filterMap.mp hn
  obtain ⟨ticksPre, ticksPost, hticksQueue⟩ := List.append_of_mem ht
  have hepoch : ∃ tick, acceptedTick c t = some tick ∧ tick.epoch = epoch := by
    cases haccepted : acceptedTick c t with
    | none => simp [haccepted] at hn
    | some tick =>
      by_cases he : tick.epoch = epoch
      · exact ⟨tick, rfl, he⟩
      · simp [haccepted, he] at hn
  obtain ⟨tick, haccepted, rfl⟩ := hepoch
  -- the messages before it, the ticks up to that of the epoch, and what is left
  let early := pre.map (Prod.mk ev.stream)
  let ticks := (ticksPre ++ [t]).map (Prod.mk Stream.tick)
  let late := ticksPost.map (Prod.mk Stream.tick) ++ (post.map (Prod.mk ev.stream)
    ++ inOrder queue (others ev.stream))
  refine ⟨early ++ (ticks ++ ((ev.stream, payload) :: late)), fun σ => ?_, ?_⟩
  · have hcons : ofStream σ ((ev.stream, payload) :: late)
        = ofStream σ ([payload].map (Prod.mk ev.stream)) ++ ofStream σ late :=
      ofStream_append σ [(ev.stream, payload)] late
    rw [ofStream_append, ofStream_append, hcons, ofStream_append, ofStream_append,
      ofStream_others]
    by_cases hσ : σ = ev.stream
    · subst hσ
      rw [ofStream_map, ofStream_map, ofStream_map, ofStream_map_of_ne htick.symm,
        ofStream_map_of_ne htick.symm, if_pos (.inr rfl), hqueue]
      simp
    · rw [ofStream_map_of_ne (Ne.symm hσ), ofStream_map_of_ne (Ne.symm hσ),
        ofStream_map_of_ne (Ne.symm hσ)]
      by_cases hσ' : σ = .tick
      · subst hσ'
        rw [ofStream_map, ofStream_map, if_pos (.inl rfl), hticksQueue]
        simp
      · rw [ofStream_map_of_ne (Ne.symm hσ'), ofStream_map_of_ne (Ne.symm hσ'),
          if_neg (not_or.mpr ⟨hσ', hσ⟩)]
        rfl
  · have hlast : ticks.foldl (nextEpoch c) 0 = tick.epoch := by
      simp [ticks, nextEpoch, haccepted]
    have hlate : ∀ m ∈ late, m.1 = ev.stream → firstAccess c m.1 m.2 = none := by
      intro m hm hstream
      rcases List.mem_append.mp hm with hm | hm
      · exact absurd hstream (ne_of_mem_map htick.symm _ m hm)
      · rcases List.mem_append.mp hm with hm | hm
        · obtain ⟨p, hp, rfl⟩ := List.mem_map.mp hm
          exact Option.not_isSome_iff_eq_none.mp (hpost p hp)
        · exact absurd hstream (ne_of_mem_others queue ev.stream m hm)
    rw [statsEvents_append, statsEvents_append, charges_append, charges_append,
      (statsEvents_zero (ne_of_mem_map htick _)).1, (statsEvents_zero (ne_of_mem_map htick _)).2,
      charges_of_ne (ne_of_mem_map htick.symm _), hlast, statsEvents, charges_append,
      charges_eq_zero hlate, statsEvent_eq_charge hnone hsome, charge, if_pos hpos]
    simp [charges, eventsFor]

end TwoOrders

/-! ## The records of two schedules

Whatever the schedule, the ticks are counted for their own epochs. The other counters are charged to
the epoch in force, and this depends on the schedule. -/

namespace System

section Schedules

variable {c : Crates} {queue : Stream → List Bytes}

/-- The start of the processor over an empty store. -/
def fresh (queue : Stream → List Bytes) : System := init (Indexer.new .empty {}) queue

/-- Every schedule that consumes all messages leaves the same records. -/
def Agree (c : Crates) (queue : Stream → List Bytes) : Prop :=
  ∀ schedule schedule', Finished (exec c (fresh queue) schedule) →
    Finished (exec c (fresh queue) schedule') → ∀ epoch,
      (exec c (fresh queue) schedule).ix.storage.getEpochStats epoch
        = (exec c (fresh queue) schedule').ix.storage.getEpochStats epoch

/-- A run of all messages in some order is a finished schedule. -/
theorem exists_finished (c : Crates) {ms : List Message} (hms : ∀ σ, ofStream σ ms = queue σ) :
    ∃ schedule, Finished (exec c (fresh queue) schedule) ∧
      (exec c (fresh queue) schedule).completed = statsEvents c 0 ms := by
  obtain ⟨schedule, hexec⟩ := exists_schedule c (Indexer.new .empty {}) [] ms
  have hqueue : (fun σ => ofStream σ ms) = queue := funext hms
  rw [hqueue] at hexec
  have hfresh : exec c (fresh queue) schedule = exec c (between (Indexer.new .empty {}) queue [])
      schedule := rfl
  refine ⟨schedule, ?_, ?_⟩
  · rw [hfresh, hexec]
    exact fun σ => ⟨rfl, rfl⟩
  · rw [hfresh, hexec]
    rfl

variable
  (hjson : ∀ stats, c.serde.epochStats.fromSlice (c.serde.epochStats.toVec stats) = .ok stats)

include hjson

/-- The record of an epoch at the end of a schedule, and the updates it is the fold of. -/
theorem getEpochStats_finished {schedule : List Stream}
    (h : Finished (exec c (fresh queue) schedule)) (epoch : UInt16) :
    ∃ evs, evs = eventsFor epoch (exec c (fresh queue) schedule).completed ∧
      ticksOf evs = ticksOfEpoch c epoch (queue .tick) ∧
      (exec c (fresh queue) schedule).ix.storage.getEpochStats epoch
        = if ticksOfEpoch c epoch (queue .tick) = [] then none
          else some (c.serde.epochStats.toVec (evs.foldl StatsEvent.apply { epoch })) := by
  have hticks := ticksOf_finished schedule h epoch
  have hsourced : Sourced c queue (exec c (fresh queue) schedule) := sourced_exec rfl schedule
  have hempty : (Indexer.new .empty {}).storage.getEpochStats epoch = none := rfl
  have hrecord := getEpochStats_exec hjson hempty queue schedule
  unfold fresh at hsourced ⊢
  refine ⟨_, rfl, hticks, hrecord.trans ?_⟩
  simp only [eventsFor_eq_nil_iff hsourced hticks]

/-- **All schedules agree on the epochs and the ticks.** -/
theorem tickRecord_finished {schedule : List Stream}
    (h : Finished (exec c (fresh queue) schedule)) (epoch : UInt16) :
    tickRecord c (exec c (fresh queue) schedule).ix.storage epoch
      = let ticks := ticksOfEpoch c epoch (queue .tick)
        if ticks = [] then none
        else some (some (epoch, UInt32.ofNat ticks.length, ticks.min?, ticks.max?)) := by
  obtain ⟨evs, -, hticks, hrecord⟩ := getEpochStats_finished hjson h epoch
  rw [tickRecord, hrecord]
  split
  · next hnil => simp [hnil]
  · next hne => simp [hne, hjson, Except.toOption, foldl_apply_eq, EpochStats.tickPart, hticks]

/-- With no epoch to charge, or nothing to charge to it, only ticks are counted. The ticks of an
epoch are the same in every schedule, and the record is the fold of them. -/
theorem agree_of_nothingToCharge (h : NothingToCharge c queue) : Agree c queue := by
  have honly : ∀ {schedule}, Finished (exec c (fresh queue) schedule) → ∀ epoch,
      eventsFor epoch (exec c (fresh queue) schedule).completed
        = (ticksOfEpoch c epoch (queue .tick)).map StatsEvent.tick := by
    intro schedule hfinished epoch
    obtain ⟨evs, hevs, hticks, -⟩ := getEpochStats_finished hjson hfinished epoch
    rw [← hevs, ← hticks]
    refine eq_map_ticksOf (fun ev hev hnone => ?_)
    rw [hevs] at hev
    have hsourced : Sourced c queue (exec c (fresh queue) schedule) := sourced_exec rfl schedule
    obtain ⟨hcountable, hcharged⟩ := hsourced.completed _ (mem_completed_of_mem_eventsFor hev)
    rcases h with hzero | ⟨htx, hentity⟩
    · exact hcharged.epoch (hzero epoch (hcharged.pos hnone))
    · cases ev with
      | tick n => cases hnone
      | tx => exact htx hcountable
      | entity => exact hentity hcountable
  intro schedule schedule' hfinished hfinished' epoch
  obtain ⟨evs, rfl, -, hrecord⟩ := getEpochStats_finished hjson hfinished epoch
  obtain ⟨evs', rfl, -, hrecord'⟩ := getEpochStats_finished hjson hfinished' epoch
  rw [hrecord, hrecord', honly hfinished, honly hfinished']

/-- The counter an update raises. -/
theorem charged_of_eq_records {epoch : UInt16} {ev : StatsEvent} (hnone : ev.tick? = none)
    {schedule schedule' : List Stream} (h : Finished (exec c (fresh queue) schedule))
    (h' : Finished (exec c (fresh queue) schedule'))
    (hticks : ticksOfEpoch c epoch (queue .tick) ≠ [])
    (heq : (exec c (fresh queue) schedule).ix.storage.getEpochStats epoch
      = (exec c (fresh queue) schedule').ix.storage.getEpochStats epoch) :
    UInt64.ofNat (charges epoch ev (exec c (fresh queue) schedule).completed)
      = UInt64.ofNat (charges epoch ev (exec c (fresh queue) schedule').completed) := by
  obtain ⟨evs, rfl, -, hrecord⟩ := getEpochStats_finished hjson h epoch
  obtain ⟨evs', rfl, -, hrecord'⟩ := getEpochStats_finished hjson h' epoch
  rw [hrecord, hrecord', if_neg hticks, if_neg hticks] at heq
  have hdocs := congrArg c.serde.epochStats.fromSlice (Option.some.inj heq)
  rw [hjson, hjson, foldl_apply_eq, foldl_apply_eq] at hdocs
  have hstats := Except.ok.inj hdocs
  cases ev with
  | tick n => cases hnone
  | tx => exact congrArg EpochStats.txCount hstats
  | entity => exact congrArg EpochStats.entityCount hstats

/-- Where an epoch and a message meet, two schedules disagree. -/
theorem nothingToCharge_of_agree (h : Agree c queue) : NothingToCharge c queue := by
  have hnone : ∀ {ev : StatsEvent}, ev.tick? = none → ∀ {epoch}, 0 < epoch →
      ticksOfEpoch c epoch (queue .tick) ≠ [] → ¬Countable c queue ev.stream := by
    intro ev hev epoch hpos hticks hcountable
    obtain ⟨ms, hms, hzero⟩ := exists_uncharged c queue hev
    obtain ⟨ms', hms', hone⟩ := exists_charged hev hcountable hpos hticks
    obtain ⟨schedule, hfinished, hcompleted⟩ := exists_finished c hms
    obtain ⟨schedule', hfinished', hcompleted'⟩ := exists_finished c hms'
    have hcount := charged_of_eq_records hjson hev hfinished hfinished' hticks
      (h schedule schedule' hfinished hfinished' epoch)
    rw [hcompleted, hcompleted', hzero, hone] at hcount
    cases hcount
  by_cases hepoch : ∃ epoch, 0 < epoch ∧ ticksOfEpoch c epoch (queue .tick) ≠ []
  · obtain ⟨epoch, hpos, hticks⟩ := hepoch
    have htx : ¬Countable c queue StatsEvent.tx.stream := hnone rfl hpos hticks
    have hentity : ¬Countable c queue StatsEvent.entity.stream := hnone rfl hpos hticks
    exact .inr ⟨htx, hentity⟩
  · refine .inl (fun epoch hpos => ?_)
    by_contra hticks
    exact hepoch ⟨epoch, hpos, hticks⟩

/-- **What the statistics owe to the schedule.** All schedules of the same messages leave records
for the same epochs, with the same ticks; they leave the same records exactly when no accepted tick
has an epoch above 0, or no transaction and no entity counts. -/
theorem epoch_stats_schedule :
    (∀ schedule schedule', Finished (exec c (fresh queue) schedule) →
      Finished (exec c (fresh queue) schedule') → ∀ epoch,
        tickRecord c (exec c (fresh queue) schedule).ix.storage epoch
          = tickRecord c (exec c (fresh queue) schedule').ix.storage epoch) ∧
    (Agree c queue ↔ NothingToCharge c queue) := by
  refine ⟨fun schedule schedule' h h' epoch => ?_, ?_, ?_⟩
  · rw [tickRecord_finished hjson h, tickRecord_finished hjson h']
  · exact nothingToCharge_of_agree hjson
  · exact agree_of_nothingToCharge hjson

end Schedules

/-! ## A tick and a transaction

The smallest case: one tick of epoch 5 and one transaction, handled in either order. -/

/-- The tick first, and the transaction first. -/
def tickFirst : List Stream := List.replicate 9 .tick ++ List.replicate 8 .tx

def txFirst : List Stream := List.replicate 5 .tx ++ List.replicate 9 .tick

/-- One look at each stream tells whether a system is finished. -/
theorem finished_of_all {sys : System}
    (h : ∀ σ ∈ [.tick, .tx] ++ others .tx, sys.queue σ = [] ∧ sys.running σ = none) :
    Finished sys :=
  fun σ => h σ (by cases σ <;> decide)

theorem finished_samples :
    ∀ schedule ∈ [tickFirst, txFirst],
      Finished (exec (.ofKnown sampleStatsDocs) (fresh sampleQueue) schedule) := by
  have hall : ∀ schedule ∈ [tickFirst, txFirst], ∀ σ ∈ [.tick, .tx] ++ others .tx,
      (exec (.ofKnown sampleStatsDocs) (fresh sampleQueue) schedule).queue σ = [] ∧
        (exec (.ofKnown sampleStatsDocs) (fresh sampleQueue) schedule).running σ = none := by
    decide +kernel
  exact fun schedule hschedule => finished_of_all (hall schedule hschedule)

theorem finished_tickFirst :
    Finished (exec (.ofKnown sampleStatsDocs) (fresh sampleQueue) tickFirst) :=
  finished_samples _ (.head _)

theorem finished_txFirst :
    Finished (exec (.ofKnown sampleStatsDocs) (fresh sampleQueue) txFirst) :=
  finished_samples _ (.tail _ (.head _))

/-- Their tick records agree, and the rest does if there is nothing to charge. -/
theorem epoch_stats_schedule_sample :
    tickRecord (.ofKnown sampleStatsDocs)
        (exec (.ofKnown sampleStatsDocs) (fresh sampleQueue) tickFirst).ix.storage 5
      = tickRecord (.ofKnown sampleStatsDocs)
        (exec (.ofKnown sampleStatsDocs) (fresh sampleQueue) txFirst).ix.storage 5 ∧
    (Agree (.ofKnown sampleStatsDocs) sampleQueue ↔
      NothingToCharge (.ofKnown sampleStatsDocs) sampleQueue) := by
  have hjson := Crates.epochStats_ofKnown sampleStatsDocs
  have hschedule := @epoch_stats_schedule _ sampleQueue hjson
  exact ⟨hschedule.1 tickFirst txFirst finished_tickFirst finished_txFirst 5, hschedule.2⟩

/-- The transaction counts for epoch 5 after the tick, and for no epoch before it. -/
theorem epoch_stats_depend_on_schedule :
    (exec (.ofKnown sampleStatsDocs) (fresh sampleQueue) tickFirst).ix.storage.getEpochStats 5
      = some (EpochStats.json ⟨5, 1, 1, 0, some 7, some 7⟩) ∧
    (exec (.ofKnown sampleStatsDocs) (fresh sampleQueue) txFirst).ix.storage.getEpochStats 5
      = some (EpochStats.json ⟨5, 1, 0, 0, some 7, some 7⟩) ∧
    ¬Agree (.ofKnown sampleStatsDocs) sampleQueue := by
  obtain ⟨hafter, hbefore⟩ :
      (exec (.ofKnown sampleStatsDocs) (fresh sampleQueue) tickFirst).ix.storage.getEpochStats 5
        = some (EpochStats.json ⟨5, 1, 1, 0, some 7, some 7⟩) ∧
      (exec (.ofKnown sampleStatsDocs) (fresh sampleQueue) txFirst).ix.storage.getEpochStats 5
        = some (EpochStats.json ⟨5, 1, 0, 0, some 7, some 7⟩) := by
    decide +kernel
  refine ⟨hafter, hbefore, fun hagree => ?_⟩
  have hsame := hagree tickFirst txFirst finished_tickFirst finished_txFirst 5
  rw [hafter, hbefore] at hsame
  exact absurd hsame (by decide +kernel)

end System

end Qonduit

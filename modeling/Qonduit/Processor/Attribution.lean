import Qonduit.Processor.Scheduling

/-!
# Qonduit — what the schedule decides

A tick is counted for its own epoch. A transaction or an entity is counted for the epoch the tick
consumer has reached when its handler looks, and for none while that is 0. So the schedule of the
consumers has no say in the ticks counted, and none in which epochs have a record.

* **`Sourced`**, **`sourced_exec`** — every charge goes back to an accepted tick of the epoch and to
  a message of its stream.
* **`ticksOf_finished`**, **`eventsFor_eq_nil_iff`** — what a finished system has counted.
-/

namespace Qonduit

/-- Some message of the stream gets past the checks of its handler. -/
def Countable (c : Crates) (queue : Stream → List Bytes) (σ : Stream) : Prop :=
  ∃ payload ∈ queue σ, (firstAccess c σ payload).isSome

/-- Where an update comes from. -/
structure Charged (c : Crates) (queue : Stream → List Bytes) (x : UInt16 × StatsEvent) :
    Prop where
  epoch : ticksOfEpoch c x.1 (queue .tick) ≠ []
  pos : x.2.tick? = none → 0 < x.1

theorem ticksOfEpoch_ne_nil_of_mem {c : Crates} {payloads : List Bytes} {payload : Bytes}
    {tick : TickData} (hmem : payload ∈ payloads) (h : acceptedTick c payload = some tick) :
    ticksOfEpoch c tick.epoch payloads ≠ [] := by
  have htick : tick.tick ∈ ticksOfEpoch c tick.epoch payloads :=
    List.mem_filterMap.mpr ⟨payload, hmem, by simp [h]⟩
  exact List.ne_nil_of_mem htick

/-- Before the load of the indexed epoch only a tick has an update. -/
theorem event?_of_stream_ne {a : Access} (h : a.stream ≠ .tick) : a.event? = none := by
  cases a <;> first | rfl | exact absurd rfl h

/-- An access keeps the update in hand, or decides on one for the indexed epoch. -/
theorem event?_of_perform {c : Crates} {ix : Indexer} {a : Access} {x : UInt16 × StatsEvent}
    (h : (a.perform c ix).2.bind Call.event? = some x) :
    a.event? = some x ∨ (x.1 = ix.pipeline.indexedEpoch ∧ 0 < x.1) := by
  have hcharge : ∀ ev, (chargeCall ix ev).bind Call.event? = some x →
      x.1 = ix.pipeline.indexedEpoch ∧ 0 < x.1 := by
    intro ev h
    unfold chargeCall charge at h
    split at h
    · next hpos =>
      cases h
      exact ⟨rfl, hpos⟩
    · cases h
  cases a with
  | txLoadEpoch => exact .inr (hcharge .tx h)
  | entityLoadEpoch => exact .inr (hcharge .entity h)
  | _ => exact .inl h

/-- The indexed epoch changes to that of the tick in hand only. -/
theorem indexedEpoch_perform (c : Crates) (ix : Indexer) (a : Access) :
    (a.perform c ix).1.pipeline.indexedEpoch = ix.pipeline.indexedEpoch ∨
      ∃ n, a.event? = some ((a.perform c ix).1.pipeline.indexedEpoch, .tick n) := by
  cases a with
  | storeIndexedEpoch tick => exact .inr ⟨tick.tick, rfl⟩
  | _ => exact .inl rfl

namespace System

/-- What every state reached from the messages of `queue` has from them. -/
structure Sourced (c : Crates) (queue : Stream → List Bytes) (sys : System) : Prop where
  own : OwnCalls sys.running
  queued : ∀ σ, ∀ payload ∈ sys.queue σ, payload ∈ queue σ
  inHand : ∀ σ call, sys.running σ = some call →
    Countable c queue σ ∧ ∀ x, call.event? = some x → Charged c queue x
  epoch : 0 < sys.ix.pipeline.indexedEpoch →
    ticksOfEpoch c sys.ix.pipeline.indexedEpoch (queue .tick) ≠ []
  completed : ∀ x ∈ sys.completed, Countable c queue x.2.stream ∧ Charged c queue x

section Sourced

variable {c : Crates} {queue : Stream → List Bytes} {sys sys' : System} {σ : Stream}

/-- A system begins with every message still in its queue. -/
theorem Sourced.init {ix : Indexer} (hzero : ix.pipeline.indexedEpoch = 0) :
    Sourced c queue (init ix queue) where
  own := ownCalls_init ix queue
  queued _ _ h := h
  inHand _ _ h := nomatch h
  epoch h := absurd h (by rw [show (System.init ix queue).ix = ix from rfl, hzero]; decide)
  completed _ h := nomatch h

/-- The handler of `σ` goes on with a call of the same messages. -/
theorem Sourced.inHand_update (h : Sourced c queue sys) {call : Option Call}
    (hcall : ∀ x, call = some x → Countable c queue σ ∧
      ∀ y, x.event? = some y → Charged c queue y) :
    ∀ σ' x, Function.update sys.running σ call σ' = some x →
      Countable c queue σ' ∧ ∀ y, x.event? = some y → Charged c queue y :=
  (Function.forall_update_iff sys.running (fun σ' call => ∀ x, call = some x →
      Countable c queue σ' ∧ ∀ y, x.event? = some y → Charged c queue y)).mpr
    ⟨hcall, fun σ' _ => h.inHand σ'⟩

/-- Taking a message from its queue. What the handler decides on comes from that message, and for a
tick the epoch it will charge is that of the message itself. -/
theorem Sourced.take (h : Sourced c queue sys) {payload : Bytes} {rest : List Bytes}
    (hidle : sys.running σ = none) (hqueue : sys.queue σ = payload :: rest) :
    Sourced c queue (sys.take c σ payload rest) := by
  have hmem : payload ∈ queue σ := h.queued σ payload (by rw [hqueue]; simp)
  have hrest : ∀ σ', ∀ p ∈ Function.update sys.queue σ rest σ', p ∈ queue σ' := by
    refine (Function.forall_update_iff sys.queue (fun σ' ps => ∀ p ∈ ps, p ∈ queue σ')).mpr
      ⟨fun p hp => ?_, fun σ' _ => h.queued σ'⟩
    exact h.queued σ p (by rw [hqueue]; exact List.mem_cons_of_mem payload hp)
  have hown : OwnCalls (sys.take c σ payload rest).running :=
    h.own.move (Move.take hidle hqueue)
  unfold System.take at hown ⊢
  split
  · -- only a handler that charges an epoch has accesses left; the others are through with the
    -- message at once
    next hcharges =>
    rw [if_pos hcharges] at hown
    refine ⟨hown, hrest, h.inHand_update (fun x hx => ?_), h.epoch, h.completed⟩
    obtain ⟨a, ha, rfl⟩ := Option.map_eq_some_iff.mp hx
    refine ⟨⟨payload, hmem, by rw [ha]; rfl⟩, fun y hy => ?_⟩
    by_cases hσ : σ = .tick
    · subst hσ
      have hevent := event?_firstAccess c payload
      rw [ha] at hevent
      obtain ⟨tick, htick, rfl⟩ := Option.map_eq_some_iff.mp (hevent.symm.trans hy)
      exact ⟨ticksOfEpoch_ne_nil_of_mem hmem htick, fun hnone => nomatch hnone⟩
    · have hnone : a.event? = none := event?_of_stream_ne (stream_firstAccess ha ▸ hσ)
      exact absurd (hnone.symm.trans hy) (by simp)
  · next hcharges =>
    have hepoch : (Indexer.consume c sys.ix (σ, payload)).pipeline.indexedEpoch
        = sys.ix.pipeline.indexedEpoch := by
      rw [Indexer.indexedEpoch_consume]
      cases σ <;> first | exact absurd rfl hcharges | rfl
    refine ⟨h.own, hrest, h.inHand, ?_, h.completed⟩
    show 0 < (Indexer.consume c sys.ix (σ, payload)).pipeline.indexedEpoch → _
    rw [hepoch]
    exact h.epoch

/-- **One move** of the system. A handler that is at work keeps its message, and the epoch it
decides on is the one indexed at that moment, which was set by a tick taken before. -/
theorem Sourced.move (h : Sourced c queue sys) (hmove : Move c sys σ sys') :
    Sourced c queue sys' := by
  have hown : OwnCalls sys'.running := h.own.move hmove
  -- the accesses of a call in the order in which it makes them
  cases hmove with
  | stay => exact h
  | take hidle hqueue => exact h.take hidle hqueue
  | @access a ha =>
    obtain ⟨hcountable, hcharged⟩ := h.inHand σ _ ha
    refine ⟨hown, h.queued, h.inHand_update (fun x hx => ⟨hcountable, fun y hy => ?_⟩), ?_,
      h.completed⟩
    · rcases @event?_of_perform c sys.ix a y
        (by rw [hx]; exact hy) with hsame | ⟨hepoch, hpos⟩
      · exact hcharged y hsame
      · exact ⟨by rw [hepoch]; exact h.epoch (hepoch ▸ hpos), fun _ => hpos⟩
    · show 0 < (a.perform c sys.ix).1.pipeline.indexedEpoch →
        ticksOfEpoch c (a.perform c sys.ix).1.pipeline.indexedEpoch (queue .tick) ≠ []
      rcases indexedEpoch_perform c sys.ix a with hsame | ⟨n, hevent⟩
      · rw [hsame]
        exact h.epoch
      · exact fun _ => (hcharged _ hevent).epoch
  | lock hcall hfree =>
    obtain ⟨hcountable, hcharged⟩ := h.inHand σ _ hcall
    refine ⟨hown, h.queued, h.inHand_update (fun x hx => ⟨hcountable, ?_⟩), h.epoch, h.completed⟩
    cases hx
    exact hcharged
  | read hcall =>
    obtain ⟨hcountable, hcharged⟩ := h.inHand σ _ hcall
    refine ⟨hown, h.queued, h.inHand_update (fun x hx => ⟨hcountable, ?_⟩), h.epoch, h.completed⟩
    cases hx
    exact hcharged
  | @write epoch ev stats hcall =>
    obtain ⟨hcountable, hcharged⟩ := h.inHand σ _ hcall
    refine ⟨hown, h.queued, h.inHand_update (fun x hx => nomatch hx), h.epoch, ?_⟩
    intro x hx
    rcases List.mem_append.mp hx with hx | hx
    · exact h.completed x hx
    · cases List.mem_singleton.mp hx
      have hstream : ev.stream = σ := h.own σ _ hcall
      exact ⟨hstream ▸ hcountable, hcharged _ rfl⟩

/-- **A whole schedule**, by induction on its moves. -/
theorem sourced_exec {ix : Indexer} (hzero : ix.pipeline.indexedEpoch = 0)
    (schedule : List Stream) : Sourced c queue (exec c (init ix queue) schedule) :=
  exec_induction (Sourced.init hzero) (fun _ _ _ h hmove => h.move hmove) schedule

end Sourced

/-! ## What a finished system has stored

At the end every message has been handled. What is counted for an epoch is then to be found among
the messages, whichever order they were handled in. -/

section Finished

variable {c : Crates} {queue : Stream → List Bytes} {sys : System}

/-- Everything accepted is counted. -/
theorem ticksOf_finished (schedule : List Stream) {ix : Indexer}
    (hfinished : Finished (exec c (init ix queue) schedule)) (epoch : UInt16) :
    ticksOf (eventsFor epoch (exec c (init ix queue) schedule).completed)
      = ticksOfEpoch c epoch (queue .tick) := by
  have hledger := tickLedger_exec c ix queue schedule epoch
  obtain ⟨hqueue, hidle⟩ := hfinished .tick
  rw [tickLedger, tickInHand, hqueue, hidle] at hledger
  have hempty : ∀ xs : List UInt32, xs ++ ticksOf (eventsFor epoch []) ++ ticksOfEpoch c epoch []
      = xs := fun xs => (List.append_nil _).trans (List.append_nil xs)
  exact (hempty _).symm.trans hledger

theorem mem_completed_of_mem_eventsFor {epoch : UInt16} {ev : StatsEvent}
    {us : List (UInt16 × StatsEvent)} (h : ev ∈ eventsFor epoch us) : (epoch, ev) ∈ us := by
  obtain ⟨x, hx, rfl⟩ := List.mem_map.mp h
  obtain ⟨hmem, hepoch⟩ := List.mem_filter.mp hx
  rwa [← of_decide_eq_true hepoch]

/-- Only epochs with accepted ticks are charged. -/
theorem eventsFor_eq_nil_iff (h : Sourced c queue sys) {epoch : UInt16}
    (hticks : ticksOf (eventsFor epoch sys.completed) = ticksOfEpoch c epoch (queue .tick)) :
    eventsFor epoch sys.completed = [] ↔ ticksOfEpoch c epoch (queue .tick) = [] := by
  constructor
  · intro hnil
    rw [← hticks, hnil]
    rfl
  · intro hnil
    by_contra hne
    obtain ⟨ev, hev⟩ := List.exists_mem_of_ne_nil _ hne
    exact (h.completed _ (mem_completed_of_mem_eventsFor hev)).2.epoch hnil

/-- A list of ticks is determined by their numbers. -/
theorem eq_map_ticksOf {evs : List StatsEvent} (h : ∀ ev ∈ evs, ev.tick? ≠ none) :
    evs = (ticksOf evs).map StatsEvent.tick := by
  induction evs with
  | nil => rfl
  | cons ev evs ih =>
    have htail := ih (fun ev' hev' => h ev' (List.mem_cons_of_mem ev hev'))
    cases ev with
    | tick n =>
      show StatsEvent.tick n :: evs = StatsEvent.tick n :: (ticksOf evs).map StatsEvent.tick
      rw [← htail]
    | _ => exact absurd rfl (h _ (List.mem_cons_self ..))

end Finished

end System

end Qonduit

import Qonduit.Core.Json
import Qonduit.Processor.CustomMessages
import Qonduit.Processor.EpochStats

/-!
# Qonduit — catch-up replay

In catch-up mode every start of the processor deletes the durable consumers and replays each
stream from its beginning into the same database, with a fresh `Indexer` and `PipelineState`.
A pass is a run in which every stream delivers its payloads in order; two passes over the same
streams may interleave them differently.

* **`replay_converges`** — the families whose writes are functions of their own stream are
  the same after the second pass as after the first.
* **`replay_keeps_counts_iff`** — the two read-modify-write families, `custom_message` and
  `epoch_stats`, keep their contents only when nothing was counted (or the counts wrap).
-/

namespace Qonduit

namespace Indexer

/-- One start of the processor over a database. -/
def pass (c : Crates) (s : WarmStorage) (pl : PipelineState) (ms : List Message) : WarmStorage :=
  (run c (new s pl) ms).storage

/-! ## Payload-keyed families

Thirteen families are keyed by what a message says. Handling the message again writes the same entry
under the same key. -/

/-- The families written by one stream each, with keys taken from its payloads. -/
def payloadKeyed : List Cf :=
  [.tick, .metadata, .tx, .txByTick, .txByEntity, .entity, .spectrum, .computors, .asset,
    .entityAsset, .contractIpo, .logEvent, .tickVote]

/-- Each of them has one stream that writes it. -/
theorem owner_of_mem_payloadKeyed {cf : Cf} (h : cf ∈ payloadKeyed) :
    ∃ σ, owner cf = some σ := by
  cases cf <;> first | exact ⟨_, rfl⟩ | simp [payloadKeyed] at h

/-- **Catch-up replay converges.** Over any database, a second pass over the same streams, in
whatever interleaving, leaves every payload-keyed family as the first pass left it. -/
theorem replay_converges (c : Crates) (s : WarmStorage) (pl₁ pl₂ : PipelineState)
    (pass₁ pass₂ : List Message) (hsame : ∀ σ, ofStream σ pass₁ = ofStream σ pass₂)
    {cf : Cf} (hcf : cf ∈ payloadKeyed) :
    (pass c (pass c s pl₁ pass₁) pl₂ pass₂).db cf = (pass c s pl₁ pass₁).db cf := by
  obtain ⟨σ, hσ⟩ := owner_of_mem_payloadKeyed hcf
  refine WarmStorage.db_eq_of_view (fun k => ?_)
  have hfirst := view_run hσ c s pl₁ pass₁ k
  have hsecond := view_run hσ c (pass c s pl₁ pass₁) pl₂ pass₂ k
  rw [← hsame σ] at hsecond
  -- the second pass performs the log of the first once more
  calc (pass c (pass c s pl₁ pass₁) pl₂ pass₂).view (cf, k)
      = WriteLog.replay ((streamLog c σ (ofStream σ pass₁)).map Put.write)
          (pass c s pl₁ pass₁).view (cf, k) := hsecond
    _ = WriteLog.replay ((streamLog c σ (ofStream σ pass₁)).map Put.write)
          (WriteLog.replay ((streamLog c σ (ofStream σ pass₁)).map Put.write) s.view) (cf, k) :=
        WriteLog.replay_congr_at hfirst
    _ = (pass c s pl₁ pass₁).view (cf, k) := by rw [WriteLog.replay_replay]; exact hfirst.symm

/-- A tick of epoch 5, two transactions of that tick and a custom message. -/
def sampleDocs : Known where
  ticks := [sampleTick 5 7]
  txs := [sampleTx 1 7, sampleTx 2 7]
  values := [sampleMessage 7]
  k12 := [burnChecksum]

def samplePass₁ : List Message :=
  [(.tick, (sampleTick 5 7).json), (.tx, (sampleTx 1 7).json), (.tx, (sampleTx 2 7).json)]

def samplePass₂ : List Message :=
  [(.tx, (sampleTx 1 7).json), (.tick, (sampleTick 5 7).json), (.tx, (sampleTx 2 7).json)]

/-- Two interleavings of the same streams. -/
theorem replay_converges_sample :
    (∀ σ, ofStream σ samplePass₁ = ofStream σ samplePass₂) ∧ Cf.txByTick ∈ payloadKeyed ∧
    (pass (.ofKnown sampleDocs) (pass (.ofKnown sampleDocs) .empty {} samplePass₁) {}
        samplePass₂).db .txByTick
      = (pass (.ofKnown sampleDocs) .empty {} samplePass₁).db .txByTick := by
  have hsame : ∀ σ, ofStream σ samplePass₁ = ofStream σ samplePass₂ := by
    intro σ
    cases σ <;> rfl
  have hcf : Cf.txByTick ∈ payloadKeyed := by decide
  exact ⟨hsame, hcf, replay_converges (.ofKnown sampleDocs) .empty {} {} samplePass₁ samplePass₂
    hsame hcf⟩

/-! ## Counted families

Custom messages and statistics are not keyed so: one is appended, the other counted up. A replay
leaves them alone only where the numbers vanish. -/

/-- The condition under which repeating the custom messages of a tick goes unnoticed: there
are none, or the 2^32 indices of the tick are used up and the first holds the last message. -/
def MessagesSaturated (c : Crates) (s : WarmStorage) (ms : List Message) (t : UInt32) : Prop :=
  messagesFor c t (ofStream .custmsg ms) = [] ∨
    (s.getCustomMessagesForTick t).length = 2 ^ 32 ∧
      (s.getCustomMessagesForTick t).head? = (messagesFor c t (ofStream .custmsg ms)).getLast?

/-- The events a pass with a fresh pipeline state charges to an epoch. -/
def chargedTo (c : Crates) (ms : List Message) (e : UInt16) : List StatsEvent :=
  eventsFor e (statsEvents c 0 ms)

/-- A pass appends the messages of its stream. -/
theorem messagesAt_pass {s : WarmStorage} {t : UInt32} {L : List Bytes} (h : MessagesAt s t L)
    (c : Crates) (pl : PipelineState) (ms : List Message) :
    MessagesAt (pass c s pl ms) t
      ((messagesFor c t (ofStream .custmsg ms)).foldl appendMessage L) :=
  messagesAt_run (show MessagesAt (new s pl).storage t L from h) ms

theorem getEpochStats_pass {c : Crates}
    (hjson : ∀ stats, c.serde.epochStats.fromSlice (c.serde.epochStats.toVec stats) = .ok stats)
    (s : WarmStorage) (pl : PipelineState) (ms : List Message) (e : UInt16) :
    (pass c s pl ms).getEpochStats e
      = if eventsFor e (statsEvents c pl.indexedEpoch ms) = [] then s.getEpochStats e
        else some (c.serde.epochStats.toVec
          ((eventsFor e (statsEvents c pl.indexedEpoch ms)).foldl StatsEvent.apply
            (loadEpochStats c s e))) :=
  getEpochStats_run hjson (new s pl) ms e

/-- Replayed custom messages, tick by tick. -/
theorem replay_messages_iff {c : Crates} {ix : Indexer} (hix : Reachable c ix)
    (pl₁ pl₂ : PipelineState) (pass₁ pass₂ : List Message) (t : UInt32) :
    (pass c (pass c ix.storage pl₁ pass₁) pl₂ pass₂).getCustomMessagesForTick t
        = (pass c ix.storage pl₁ pass₁).getCustomMessagesForTick t
      ↔ MessagesSaturated c (pass c ix.storage pl₁ pass₁) pass₂ t := by
  -- the first pass ends in a reachable store, which keeps a list for the tick
  have hfirst : MessagesAt (pass c ix.storage pl₁ pass₁) t _ :=
    messagesAt_of_reachable ((Reachable.restart pl₁ hix).run pass₁) t
  rw [MessagesSaturated, (messagesAt_pass hfirst c pl₂ pass₂).getCustomMessagesForTick_eq]
  exact foldl_appendMessage_eq_self_iff hfirst.length_le _

/-- The ticks among some updates. -/
theorem mem_filterMap_tick?_iff {n : UInt32} {evs : List StatsEvent} :
    n ∈ evs.filterMap StatsEvent.tick? ↔ StatsEvent.tick n ∈ evs := by
  rw [List.mem_filterMap]
  constructor
  · rintro ⟨ev, hev, hn⟩
    cases ev with
    | tick k => cases hn; exact hev
    | tx => cases hn
    | entity => cases hn
  · intro h
    exact ⟨.tick n, h, rfl⟩

/-- Replayed statistics, epoch by epoch. The record of an epoch covers the ticks charged to it in
the first pass, so that the second pass can only raise its three counters. -/
theorem replay_stats_iff {c : Crates}
    (hjson : ∀ stats, c.serde.epochStats.fromSlice (c.serde.epochStats.toVec stats) = .ok stats)
    (s : WarmStorage) (pl₁ : PipelineState) {pass₁ pass₂ : List Message}
    (hsame : ofStream .tick pass₁ = ofStream .tick pass₂) (e : UInt16) :
    (pass c (pass c s pl₁ pass₁) {} pass₂).getEpochStats e = (pass c s pl₁ pass₁).getEpochStats e
      ↔ Vanish (chargedTo c pass₂ e) := by
  -- which ticks an epoch is charged does not depend on the interleaving; which transactions does
  have hticks : (eventsFor e (statsEvents c pl₁.indexedEpoch pass₁)).filterMap StatsEvent.tick?
      = (chargedTo c pass₂ e).filterMap StatsEvent.tick? := by
    rw [chargedTo, filterMap_tick?_eventsFor, filterMap_tick?_eventsFor, hsame]
  have hfirst := getEpochStats_pass hjson s pl₁ pass₁ e
  have hsecond := getEpochStats_pass hjson (pass c s pl₁ pass₁) {} pass₂ e
  rw [← chargedTo] at hsecond
  by_cases hnil : chargedTo c pass₂ e = []
  · rw [if_pos hnil] at hsecond
    simp [hsecond, hnil, Vanish]
  · -- the second pass charges `e`, so it saw a tick of `e`, and so did the first
    have hfirstne : eventsFor e (statsEvents c pl₁.indexedEpoch pass₁) ≠ [] := by
      intro h
      rw [h] at hticks
      rcases ticksOfEpoch_ne_nil hnil with hne | ⟨-, hpos⟩
      · rw [← filterMap_tick?_eventsFor c 0] at hne
        exact hne hticks.symm
      · exact absurd hpos (by decide)
    rw [if_neg hfirstne] at hfirst
    rw [if_neg hnil, loadEpochStats_of_get hjson hfirst] at hsecond
    rw [hsecond, hfirst, Option.some_inj]
    -- records that are read back are written differently
    have hinj : ∀ a b, c.serde.epochStats.toVec a = c.serde.epochStats.toVec b ↔ a = b := by
      intro a b
      refine ⟨fun h => ?_, fun h => by rw [h]⟩
      have := hjson a
      rw [h, hjson b] at this
      exact (Except.ok.inj this).symm
    rw [hinj]
    -- the first pass has already moved the bounds over every tick of the second
    refine foldl_apply_eq_self_iff (fun n hn => ?_)
    rw [← mem_filterMap_tick?_iff, ← hticks, mem_filterMap_tick?_iff] at hn
    exact covers_foldl_of_mem hn _

/-- **When a replay does not inflate.** Over a reachable database, the second pass leaves all
custom-message listings and all stored statistics unchanged exactly when, for every tick, no
custom message is replayed (or its indices are used up and the first holds the last one
replayed), and, for every epoch, the numbers of ticks, transactions and entities charged by the
second pass vanish in the widths of their counters. -/
theorem replay_keeps_counts_iff {c : Crates}
    (hjson : ∀ stats, c.serde.epochStats.fromSlice (c.serde.epochStats.toVec stats) = .ok stats)
    {ix : Indexer} (hix : Reachable c ix) (pl₁ : PipelineState) (pass₁ pass₂ : List Message)
    (hsame : ∀ σ, ofStream σ pass₁ = ofStream σ pass₂) :
    ((∀ t, (pass c (pass c ix.storage pl₁ pass₁) {} pass₂).getCustomMessagesForTick t
          = (pass c ix.storage pl₁ pass₁).getCustomMessagesForTick t)
      ∧ ∀ e, (pass c (pass c ix.storage pl₁ pass₁) {} pass₂).getEpochStats e
          = (pass c ix.storage pl₁ pass₁).getEpochStats e)
    ↔ (∀ t, MessagesSaturated c (pass c ix.storage pl₁ pass₁) pass₂ t)
      ∧ ∀ e, Vanish (chargedTo c pass₂ e) := by
  refine and_congr (forall_congr' fun t => ?_) (forall_congr' fun e => ?_)
  · exact replay_messages_iff hix pl₁ {} pass₁ pass₂ t
  · exact replay_stats_iff hjson ix.storage pl₁ (hsame .tick) e

/-- Transactions alone charge no epoch, and replaying them leaves both families alone. -/
theorem replay_keeps_counts_sample :
    (∀ t, (pass (.ofKnown sampleDocs) (pass (.ofKnown sampleDocs) .empty {}
          [(.tx, (sampleTx 1 7).json)]) {} [(.tx, (sampleTx 1 7).json)]).getCustomMessagesForTick t
        = (pass (.ofKnown sampleDocs) .empty {}
          [(.tx, (sampleTx 1 7).json)]).getCustomMessagesForTick t)
    ∧ ∀ e, (pass (.ofKnown sampleDocs) (pass (.ofKnown sampleDocs) .empty {}
          [(.tx, (sampleTx 1 7).json)]) {} [(.tx, (sampleTx 1 7).json)]).getEpochStats e
        = (pass (.ofKnown sampleDocs) .empty {} [(.tx, (sampleTx 1 7).json)]).getEpochStats e := by
  have hnone : statsEvents (.ofKnown sampleDocs) 0 [(.tx, (sampleTx 1 7).json)] = [] := by
    decide +kernel
  have hjson := Crates.epochStats_ofKnown sampleDocs
  refine (replay_keeps_counts_iff hjson (.init {}) {} [(.tx, (sampleTx 1 7).json)]
    [(.tx, (sampleTx 1 7).json)] (fun _ => rfl)).mpr ⟨fun t => .inl rfl, fun e => ?_⟩
  rw [chargedTo, hnone]
  exact ⟨rfl, rfl, rfl⟩

/-- One tick and one custom message, replayed once: the message is listed twice and the tick is
counted twice. -/
theorem replay_inflates :
    let ms : List Message := [(.tick, (sampleTick 5 7).json), (.custmsg, (sampleMessage 7).1)]
    let first := pass (.ofKnown sampleDocs) .empty {} ms
    let second := pass (.ofKnown sampleDocs) first {} ms
    first.getCustomMessagesForTick 7 = [(sampleMessage 7).1]
    ∧ second.getCustomMessagesForTick 7 = [(sampleMessage 7).1, (sampleMessage 7).1]
    ∧ first.getEpochStats 5 = some (EpochStats.json ⟨5, 1, 0, 0, some 7, some 7⟩)
    ∧ second.getEpochStats 5 = some (EpochStats.json ⟨5, 2, 0, 0, some 7, some 7⟩)
    ∧ ¬ ((∀ t, second.getCustomMessagesForTick t = first.getCustomMessagesForTick t)
      ∧ ∀ e, second.getEpochStats e = first.getEpochStats e) := by
  intro ms first second
  have hmessages : first.getCustomMessagesForTick 7 = [(sampleMessage 7).1]
      ∧ second.getCustomMessagesForTick 7 = [(sampleMessage 7).1, (sampleMessage 7).1] := by
    decide +kernel
  have hstats : first.getEpochStats 5 = some (EpochStats.json ⟨5, 1, 0, 0, some 7, some 7⟩)
      ∧ second.getEpochStats 5 = some (EpochStats.json ⟨5, 2, 0, 0, some 7, some 7⟩) := by
    decide +kernel
  refine ⟨hmessages.1, hmessages.2, hstats.1, hstats.2, ?_⟩
  rintro ⟨hsame, -⟩
  have := hsame 7
  rw [hmessages.1, hmessages.2] at this
  cases this

end Indexer

end Qonduit

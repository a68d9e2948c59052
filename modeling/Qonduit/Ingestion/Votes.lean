import Qonduit.Ingestion.Decoders
import Mathlib.Data.Finset.Sort

/-!
# Qonduit — tick votes and quorum detection

`decoder.rs`: the votes of the computors are counted by (epoch, tick), and the vote that
completes a quorum produces a `QuorumTick`. The aggregator is pruned at every 10,000th vote.

A hash map of vote sets is the function of its keys that is empty where there is no entry; the
iteration order of a hash set does not matter, since the computors are sorted.

* **`decodeTickVote_cases`** — all a call can do.
* **`Tracks`** — for a key that no prune removes, the aggregator knows exactly who voted, and
  marks the key once these are a quorum.
* **`quorum_exact`** — a `QuorumTick` is produced at the vote of the 451st distinct computor, once
  and with exactly these computors.
-/

namespace Qonduit

def QUORUM : Nat := NUMBER_OF_COMPUTORS * 2 / 3 + 1

abbrev VoteKey := UInt16 × UInt32

structure TickVote where
  computorIndex : UInt16
  epoch : UInt16
  tick : UInt32
  deriving DecidableEq

def TickVote.key (v : TickVote) : VoteKey := (v.epoch, v.tick)

structure QuorumTick where
  epoch : UInt16
  tick : UInt32
  voteCount : UInt16
  votedComputors : List UInt16
  deriving DecidableEq

def QuorumTick.key (qt : QuorumTick) : VoteKey := (qt.epoch, qt.tick)

structure TickVoteAggregator where
  votes : VoteKey → Finset UInt16 := fun _ => ∅
  /-- The keys whose quorum has already been published. -/
  quorumPublished : Finset VoteKey := ∅

namespace TickVoteAggregator

/-- `entry(key).or_default()` and `insert`. -/
def vote (agg : TickVoteAggregator) (v : TickVote) : Finset UInt16 :=
  insert v.computorIndex (agg.votes v.key)

def recordVote (agg : TickVoteAggregator) (v : TickVote) :
    TickVoteAggregator × Option QuorumTick :=
  let voted := agg.vote v
  let votes := fun key => if key = v.key then voted else agg.votes key
  -- the key is marked before the event is published, so a failed publish is not repeated
  if voted.card ≥ QUORUM ∧ v.key ∉ agg.quorumPublished then
    ({ votes, quorumPublished := insert v.key agg.quorumPublished },
      some {
        epoch := v.epoch
        tick := v.tick
        voteCount := UInt16.ofNat voted.card
        votedComputors := voted.sort (· ≤ ·) })
  else ({ agg with votes }, none)

/-- `prune`: entries of ticks more than `keepTicks` behind `latestTick` are removed. -/
def prune (agg : TickVoteAggregator) (latestTick keepTicks : UInt32) : TickVoteAggregator :=
  if latestTick > keepTicks then
    let cutoff := latestTick - keepTicks
    { votes := fun key => if key.2 ≥ cutoff then agg.votes key else ∅
      quorumPublished := agg.quorumPublished.filter (fun key => key.2 ≥ cutoff) }
  else agg

end TickVoteAggregator

/-- The part of `PacketDecoder` that votes go through. -/
structure PacketDecoder where
  voteAggregator : TickVoteAggregator := {}
  voteCount : UInt64 := 0

namespace PacketDecoder

def PRUNE_INTERVAL : UInt64 := 10000

def KEEP_TICKS : UInt32 := 256

/-- The vote a payload holds; one of fewer than 20 bytes is ignored. -/
def parseTickVote (payload : Bytes) : Outcome (Option TickVote) :=
  if payload.length < 20 then .ok none
  else do
    let computorIndex := UInt16.fromLeBytes (← sliceAt payload 0 2)
    let epoch := UInt16.fromLeBytes (← sliceAt payload 2 4)
    let tick := UInt32.fromLeBytes (← sliceAt payload 4 8)
    .ok (some { computorIndex, epoch, tick })

/-- Aggregation under the lock: the vote is recorded, then every 10,000th one prunes. -/
def aggregate (d : PacketDecoder) (v : TickVote) : PacketDecoder × Option QuorumTick :=
  let (agg, result) := d.voteAggregator.recordVote v
  let count := d.voteCount + 1
  ({ voteAggregator := if count % PRUNE_INTERVAL = 0 then agg.prune v.tick KEEP_TICKS else agg
     voteCount := count }, result)

/-- What the publisher returns for the vote and for the quorum event of a call. -/
structure Acks where
  vote : Outcome Unit := .ok ()
  quorum : Outcome Unit := .ok ()

/-- What a call of `decode_tick_vote` leaves: the decoder, the quorum event it handed to the
publisher, and its result. -/
structure VoteCall where
  decoder : PacketDecoder
  produced : Option QuorumTick
  result : Outcome Unit

def decodeTickVote (d : PacketDecoder) (acks : Acks) (payload : Bytes) : VoteCall :=
  match parseTickVote payload with
  | .error fault => ⟨d, none, .error fault⟩
  | .ok none => ⟨d, none, .ok ()⟩
  | .ok (some v) =>
    match acks.vote with
    -- `?` returns before the vote is aggregated
    | .error fault => ⟨d, none, .error fault⟩
    | .ok () =>
      let (d', result) := d.aggregate v
      match result with
      | some qt => ⟨d', some qt, acks.quorum⟩
      | none => ⟨d', none, .ok ()⟩

/-- A sequence of vote payloads whose publishes succeed. -/
def decodeTickVotes (d : PacketDecoder) (payloads : List Bytes) : PacketDecoder :=
  payloads.foldl (fun d p => (d.decodeTickVote {} p).decoder) d

/-- The quorum events such a sequence produces, in order. -/
def quorumTicks (d : PacketDecoder) : List Bytes → List QuorumTick
  | [] => []
  | p :: ps => (d.decodeTickVote {} p).produced.toList
      ++ quorumTicks (d.decodeTickVote {} p).decoder ps

/-- The quorum event produced by a payload that follows the given ones. -/
def producedAt (before : List Bytes) (p : Bytes) : Option QuorumTick :=
  ((decodeTickVotes {} before).decodeTickVote {} p).produced

end PacketDecoder

/-! ## Who voted

The votes in a sequence of payloads, and for a key the computors that gave them. This is what the
aggregator is compared with. -/

def voteOf (payload : Bytes) : Option TickVote :=
  if payload.length < 20 then none
  else some {
    computorIndex := UInt16.fromLeBytes (Wire.field payload 0 2)
    epoch := UInt16.fromLeBytes (Wire.field payload 2 2)
    tick := UInt32.fromLeBytes (Wire.field payload 4 4) }

def votesOf (payloads : List Bytes) : List TickVote := payloads.filterMap voteOf

/-- The distinct computors that voted for a key. -/
def votersOf (k : VoteKey) (payloads : List Bytes) : Finset UInt16 :=
  (((votesOf payloads).filter (fun v => v.key = k)).map TickVote.computorIndex).toFinset

/-- No vote that triggers a prune is more than `KEEP_TICKS` ahead of the key. -/
def NotPruned (k : VoteKey) (payloads : List Bytes) : Prop :=
  ∀ before p after v, payloads = before ++ p :: after → voteOf p = some v →
    UInt64.ofNat ((votesOf before).length + 1) % PacketDecoder.PRUNE_INTERVAL = 0 →
      v.tick.toNat ≤ k.2.toNat + PacketDecoder.KEEP_TICKS.toNat

theorem votesOf_append_singleton (payloads : List Bytes) (p : Bytes) :
    votesOf (payloads ++ [p]) = votesOf payloads ++ (voteOf p).toList := by
  cases h : voteOf p <;> simp [votesOf, h]

/-- The voters with one more vote: a vote for another key does not count. -/
theorem votersOf_append_some {k : VoteKey} {payloads : List Bytes} {p : Bytes} {v : TickVote}
    (hv : voteOf p = some v) :
    votersOf k (payloads ++ [p])
      = if v.key = k then insert v.computorIndex (votersOf k payloads)
        else votersOf k payloads := by
  rw [votersOf, votesOf_append_singleton, hv]
  by_cases h : v.key = k
  · rw [if_pos h]
    ext i
    simp [votersOf, h]
  · rw [if_neg h]
    simp [votersOf, h]

theorem votersOf_append_none {k : VoteKey} {payloads : List Bytes} {p : Bytes}
    (hv : voteOf p = none) : votersOf k (payloads ++ [p]) = votersOf k payloads := by
  rw [votersOf, votesOf_append_singleton, hv, Option.toList_none, List.append_nil]
  rfl

theorem NotPruned.of_append {k : VoteKey} {payloads : List Bytes} {p : Bytes}
    (h : NotPruned k (payloads ++ [p])) : NotPruned k payloads := by
  rintro before q after v rfl
  exact h before q (after ++ [p]) v (by simp)

/-! ## One call

A call parses its payload, records the vote, and at every `PRUNE_INTERVAL`th vote prunes. Each of
the three is described by what it does to one key. -/

namespace TickVoteAggregator

variable (agg : TickVoteAggregator) (v : TickVote)

/-- Recording a vote changes the voters of its key only. -/
theorem votes_recordVote (k : VoteKey) :
    (agg.recordVote v).1.votes k = if k = v.key then agg.vote v else agg.votes k := by
  unfold recordVote
  dsimp only
  split <;> rfl

/-- Recording a vote marks its key only, and only if it makes a quorum. -/
theorem mem_quorumPublished_recordVote (k : VoteKey) :
    k ∈ (agg.recordVote v).1.quorumPublished ↔
      k ∈ agg.quorumPublished ∨ (k = v.key ∧ QUORUM ≤ (agg.vote v).card) := by
  unfold recordVote
  dsimp only
  split
  · next h =>
    rw [Finset.mem_insert]
    constructor
    · rintro (rfl | hk)
      · exact .inr ⟨rfl, h.1⟩
      · exact .inl hk
    · rintro (hk | ⟨rfl, -⟩)
      · exact .inr hk
      · exact .inl rfl
  · next h =>
    refine ⟨.inl, ?_⟩
    rintro (hk | ⟨rfl, hcard⟩)
    · exact hk
    · exact not_not.mp (fun hk => h ⟨hcard, hk⟩)

/-- A quorum event is produced when the vote completes a quorum that is not marked yet. -/
theorem recordVote_eq_some_iff {qt : QuorumTick} :
    (agg.recordVote v).2 = some qt ↔
      (QUORUM ≤ (agg.vote v).card ∧ v.key ∉ agg.quorumPublished) ∧
      qt = ⟨v.epoch, v.tick, UInt16.ofNat (agg.vote v).card, (agg.vote v).sort (· ≤ ·)⟩ := by
  unfold recordVote
  dsimp only
  split
  · next h =>
    constructor
    · intro heq
      exact ⟨h, (Option.some_inj.mp heq).symm⟩
    · rintro ⟨-, rfl⟩
      rfl
  · next h =>
    constructor
    · intro heq
      cases heq
    · rintro ⟨hq, -⟩
      exact absurd hq h

variable {agg}

/-- A key within `keepTicks` of the latest tick survives a prune. -/
theorem prune_of_le {k : VoteKey} {latestTick keepTicks : UInt32}
    (h : latestTick.toNat ≤ k.2.toNat + keepTicks.toNat) :
    (agg.prune latestTick keepTicks).votes k = agg.votes k ∧
      (k ∈ (agg.prune latestTick keepTicks).quorumPublished ↔ k ∈ agg.quorumPublished) := by
  unfold prune
  split
  · next hgt =>
    have hcutoff : k.2 ≥ latestTick - keepTicks := by
      have hle : keepTicks ≤ latestTick := UInt32.le_of_lt hgt
      show latestTick - keepTicks ≤ k.2
      rw [UInt32.le_iff_toNat_le, UInt32.toNat_sub_of_le _ _ hle]
      omega
    exact ⟨if_pos hcutoff, by simp [hcutoff]⟩
  · exact ⟨rfl, Iff.rfl⟩

end TickVoteAggregator

namespace PacketDecoder

/-- The parser does not panic: it reads behind its check of the length. -/
theorem parseTickVote_eq (payload : Bytes) : parseTickVote payload = .ok (voteOf payload) := by
  unfold parseTickVote voteOf
  by_cases h : payload.length < 20
  · rw [if_pos h, if_pos h]
  · have hslice : ∀ {a b}, a ≤ b → b ≤ 20 →
        sliceAt payload a b = .ok (Wire.field payload a (b - a)) :=
      fun hab hb => Wire.sliceAt_eq_field hab (by omega)
    rw [if_neg h, if_neg h, hslice (by decide) (by decide), hslice (by decide) (by decide),
      hslice (by decide) (by decide)]
    rfl

/-- **All a call can do** when its publishes succeed: nothing, for a payload that is no vote;
otherwise aggregate the vote. -/
theorem decodeTickVote_cases (d : PacketDecoder) (payload : Bytes) :
    (voteOf payload = none ∧ d.decodeTickVote {} payload = ⟨d, none, .ok ()⟩) ∨
    ∃ v, voteOf payload = some v ∧
      d.decodeTickVote {} payload = ⟨(d.aggregate v).1, (d.aggregate v).2, .ok ()⟩ := by
  unfold decodeTickVote
  rw [parseTickVote_eq]
  cases voteOf payload with
  | none => exact .inl ⟨rfl, rfl⟩
  | some v =>
    refine .inr ⟨v, rfl, ?_⟩
    dsimp only
    cases (d.aggregate v).2 <;> rfl

/-! ## Whole runs

The voters and the mark of a key are followed along a run. They stay right as long as no vote of the
run prunes the key. -/

/-- The aggregator knows who voted for the key in the given payloads, and has marked the key once
these are a quorum. -/
structure Counts (k : VoteKey) (agg : TickVoteAggregator) (payloads : List Bytes) : Prop where
  votes : agg.votes k = votersOf k payloads
  published : k ∈ agg.quorumPublished ↔ QUORUM ≤ (votersOf k payloads).card

theorem Counts.nil {k : VoteKey} {agg : TickVoteAggregator} (hvotes : agg.votes k = ∅)
    (hpublished : k ∉ agg.quorumPublished) : Counts k agg [] := by
  refine ⟨hvotes, ?_⟩
  simp [hpublished, votersOf, votesOf, QUORUM, NUMBER_OF_COMPUTORS]

/-- A payload that is no vote changes nothing. -/
theorem Counts.append_none {k : VoteKey} {agg : TickVoteAggregator} {payloads : List Bytes}
    {p : Bytes} (h : Counts k agg payloads) (hv : voteOf p = none) :
    Counts k agg (payloads ++ [p]) := by
  refine ⟨?_, ?_⟩
  · rw [votersOf_append_none hv]
    exact h.votes
  · rw [votersOf_append_none hv]
    exact h.published

/-- The voters once a vote is recorded. -/
theorem Counts.vote_eq {k : VoteKey} {agg : TickVoteAggregator} {payloads : List Bytes}
    {p : Bytes} {v : TickVote} (h : Counts k agg payloads) (hv : voteOf p = some v)
    (hk : v.key = k) : agg.vote v = votersOf k (payloads ++ [p]) := by
  rw [TickVoteAggregator.vote, hk, h.votes, votersOf_append_some hv, if_pos hk]

theorem card_le_of_append (k : VoteKey) (payloads : List Bytes) (p : Bytes) :
    (votersOf k payloads).card ≤ (votersOf k (payloads ++ [p])).card := by
  refine Finset.card_le_card (fun i hi => ?_)
  simp only [votersOf, votesOf_append_singleton, List.mem_toFinset, List.filter_append,
    List.map_append, List.mem_append] at hi ⊢
  exact .inl hi

/-- Recording a vote keeps the count of every key: that of its own key goes up if the voter is new
there, and the others stay. -/
theorem Counts.recordVote {k : VoteKey} {agg : TickVoteAggregator} {payloads : List Bytes}
    {p : Bytes} {v : TickVote} (h : Counts k agg payloads) (hv : voteOf p = some v) :
    Counts k (agg.recordVote v).1 (payloads ++ [p]) := by
  refine ⟨?_, ?_⟩
  · rw [TickVoteAggregator.votes_recordVote]
    by_cases hk : v.key = k
    · rw [if_pos hk.symm, h.vote_eq hv hk]
    · rw [if_neg (fun he => hk he.symm), votersOf_append_some hv, if_neg hk, h.votes]
  · rw [TickVoteAggregator.mem_quorumPublished_recordVote, h.published]
    by_cases hk : v.key = k
    · rw [h.vote_eq hv hk]
      -- voters are never lost, so a quorum stays one
      have hle := card_le_of_append k payloads p
      constructor
      · rintro (hold | ⟨-, hnew⟩)
        · exact Nat.le_trans hold hle
        · exact hnew
      · intro hnew
        exact .inr ⟨hk.symm, hnew⟩
    · rw [votersOf_append_some hv, if_neg hk]
      constructor
      · rintro (hold | ⟨he, -⟩)
        · exact hold
        · exact absurd he.symm hk
      · exact .inl

/-- The aggregator knows who voted for the key and whether they are a quorum. -/
structure Tracks (k : VoteKey) (d : PacketDecoder) (payloads : List Bytes) : Prop where
  votes : d.voteAggregator.votes k = votersOf k payloads
  published : k ∈ d.voteAggregator.quorumPublished ↔ QUORUM ≤ (votersOf k payloads).card
  count : d.voteCount = UInt64.ofNat (votesOf payloads).length

/-- A decoder that keeps track of a key counts its voters. -/
theorem Tracks.counts {k : VoteKey} {d : PacketDecoder} {payloads : List Bytes}
    (h : Tracks k d payloads) : Counts k d.voteAggregator payloads :=
  ⟨h.votes, h.published⟩

theorem tracks_nil (k : VoteKey) : Tracks k {} [] := by
  have hcounts : Counts k {} [] := .nil rfl (by simp)
  exact ⟨hcounts.votes, hcounts.published, rfl⟩

/-- The votes are counted modulo `2 ^ 64`. -/
theorem voteCount_aggregate {d : PacketDecoder} {before : List Bytes} {p : Bytes} {v : TickVote}
    (h : d.voteCount = UInt64.ofNat (votesOf before).length) (hv : voteOf p = some v) :
    (d.aggregate v).1.voteCount = UInt64.ofNat (votesOf (before ++ [p])).length := by
  have hnext : (d.aggregate v).1.voteCount = d.voteCount + 1 := rfl
  rw [hnext, h, votesOf_append_singleton, hv, List.length_append, UInt64.ofNat_add]
  rfl

/-- **One call keeps track** of a key that it does not prune. A payload that is no vote changes
nothing; a vote is recorded, and every so often followed by a prune, which leaves this key. -/
theorem tracks_step {k : VoteKey} {d : PacketDecoder} {payloads : List Bytes} {p : Bytes}
    (h : Tracks k d payloads) (hkeep : NotPruned k (payloads ++ [p])) :
    Tracks k (d.decodeTickVote {} p).decoder (payloads ++ [p]) := by
  rcases d.decodeTickVote_cases p with ⟨hv, hcall⟩ | ⟨v, hv, hcall⟩
  · -- too short to be a vote: nothing changes on either side
    have hcounts := h.counts.append_none hv
    rw [hcall]
    refine ⟨hcounts.votes, hcounts.published, ?_⟩
    rw [votesOf_append_singleton, hv]
    simpa using h.count
  · rw [hcall]
    have hcounts := h.counts.recordVote hv
    -- the key is looked up as if there had been no prune
    have hprune : (d.aggregate v).1.voteAggregator.votes k
          = (d.voteAggregator.recordVote v).1.votes k ∧
        (k ∈ (d.aggregate v).1.voteAggregator.quorumPublished ↔
          k ∈ (d.voteAggregator.recordVote v).1.quorumPublished) := by
      unfold aggregate
      dsimp only
      split
      · next hmod =>
        rw [h.count, ← UInt64.ofNat_one, ← UInt64.ofNat_add] at hmod
        exact TickVoteAggregator.prune_of_le (hkeep payloads p [] v rfl hv hmod)
      · exact ⟨rfl, Iff.rfl⟩
    exact ⟨hprune.1.trans hcounts.votes, hprune.2.trans hcounts.published,
      voteCount_aggregate h.count hv⟩

theorem decodeTickVotes_append (d : PacketDecoder) (payloads : List Bytes) (p : Bytes) :
    decodeTickVotes d (payloads ++ [p])
      = ((decodeTickVotes d payloads).decodeTickVote {} p).decoder := by
  simp [decodeTickVotes]

/-- **A run keeps track** of a key that none of its votes prunes. -/
theorem tracks_run {k : VoteKey} {payloads : List Bytes} (hkeep : NotPruned k payloads) :
    Tracks k (decodeTickVotes {} payloads) payloads := by
  induction payloads using List.reverseRecOn with
  | nil => exact tracks_nil k
  | append_singleton payloads p ih =>
    rw [decodeTickVotes_append]
    exact tracks_step (ih hkeep.of_append) hkeep

/-! ## Quorum events

An event is produced by the call after which the voters are a quorum for the first time. So a run
produces one for a key, or none. -/

/-- The payload records the last voter a quorum for the key needs. -/
def Completes (k : VoteKey) (before : List Bytes) (p : Bytes) : Prop :=
  (votersOf k before).card + 1 = QUORUM ∧ (votersOf k (before ++ [p])).card = QUORUM

/-- A payload adds one voter at most. -/
theorem card_append_le (k : VoteKey) (payloads : List Bytes) (p : Bytes) :
    (votersOf k (payloads ++ [p])).card ≤ (votersOf k payloads).card + 1 := by
  cases hv : voteOf p with
  | none => rw [votersOf_append_none hv]; exact Nat.le_succ _
  | some v =>
    rw [votersOf_append_some hv]
    split
    · exact Finset.card_insert_le _ _
    · exact Nat.le_succ _

/-- Therefore a quorum is reached by meeting the number, not by passing it. -/
theorem completes_iff {k : VoteKey} {before : List Bytes} {p : Bytes} :
    Completes k before p ↔
      ¬ QUORUM ≤ (votersOf k before).card ∧ QUORUM ≤ (votersOf k (before ++ [p])).card := by
  have hle := card_append_le k before p
  unfold Completes
  omega

/-- **The event of one call**: produced for a key by the payload that completes its quorum, with
the voters counted so far. -/
theorem Counts.produced_iff {k : VoteKey} {d : PacketDecoder} {current : List Bytes}
    (h : Counts k d.voteAggregator current) (p : Bytes) {qt : QuorumTick} :
    ((d.decodeTickVote {} p).produced = some qt ∧ qt.key = k) ↔
      Completes k current p ∧ qt = ⟨k.1, k.2, UInt16.ofNat QUORUM,
        (votersOf k (current ++ [p])).sort (· ≤ ·)⟩ := by
  rcases d.decodeTickVote_cases p with ⟨hv, hcall⟩ | ⟨v, hv, hcall⟩
  · rw [hcall, completes_iff, votersOf_append_none hv]
    constructor
    · rintro ⟨h, -⟩
      cases h
    · rintro ⟨⟨hnot, hle⟩, -⟩
      exact absurd hle hnot
  · have hresult : (d.aggregate v).2 = (d.voteAggregator.recordVote v).2 := rfl
    rw [hcall, hresult, TickVoteAggregator.recordVote_eq_some_iff]
    -- a vote for the key, or one for another
    by_cases hk : v.key = k
    · rw [h.vote_eq hv hk, hk, h.published]
      constructor
      · rintro ⟨⟨⟨hle, hnot⟩, rfl⟩, -⟩
        have hcompletes := completes_iff.mpr ⟨hnot, hle⟩
        refine ⟨hcompletes, ?_⟩
        rw [hcompletes.2, ← hk]
        rfl
      · rintro ⟨hcompletes, rfl⟩
        obtain ⟨hnot, hle⟩ := completes_iff.mp hcompletes
        refine ⟨⟨⟨hle, hnot⟩, ?_⟩, rfl⟩
        rw [hcompletes.2, ← hk]
        rfl
    · rw [completes_iff, votersOf_append_some hv, if_neg hk]
      constructor
      · rintro ⟨⟨-, rfl⟩, hkey⟩
        exact absurd hkey hk
      · rintro ⟨⟨hnot, hle⟩, -⟩
        exact absurd hle hnot

theorem producedAt_iff {k : VoteKey} {before : List Bytes} {p : Bytes} {qt : QuorumTick}
    (hkeep : NotPruned k before) :
    (producedAt before p = some qt ∧ qt.key = k) ↔
      Completes k before p ∧ qt = ⟨k.1, k.2, UInt16.ofNat QUORUM,
        (votersOf k (before ++ [p])).sort (· ≤ ·)⟩ :=
  (tracks_run hkeep).counts.produced_iff p

theorem quorumTicks_append (d : PacketDecoder) (payloads : List Bytes) (p : Bytes) :
    quorumTicks d (payloads ++ [p])
      = quorumTicks d payloads ++
          ((decodeTickVotes d payloads).decodeTickVote {} p).produced.toList := by
  induction payloads generalizing d with
  | nil => simp [quorumTicks, decodeTickVotes]
  | cons q payloads ih =>
    rw [List.cons_append, quorumTicks, ih, quorumTicks, List.append_assoc]
    rfl

/-- One call produces one event for the key, or none. -/
theorem countP_produced {k : VoteKey} {before : List Bytes} {p : Bytes}
    (hkeep : NotPruned k before) [Decidable (Completes k before p)] :
    (producedAt before p).toList.countP (fun qt => qt.key = k)
      = if Completes k before p then 1 else 0 := by
  split
  · next h =>
    obtain ⟨hprod, hkey⟩ := (producedAt_iff hkeep).mpr ⟨h, rfl⟩
    rw [hprod]
    simpa using hkey
  · next h =>
    cases hprod : producedAt before p with
    | none => rfl
    | some qt =>
      have hkey : qt.key ≠ k := fun hk => h ((producedAt_iff hkeep).mp ⟨hprod, hk⟩).1
      simp [hkey]

/-- The events of a run for a key: one when the voters are a quorum, none otherwise. -/
theorem countP_quorumTicks {k : VoteKey} {payloads : List Bytes} (hkeep : NotPruned k payloads) :
    (quorumTicks {} payloads).countP (fun qt => qt.key = k)
      = if QUORUM ≤ (votersOf k payloads).card then 1 else 0 := by
  induction payloads using List.reverseRecOn with
  | nil => simp [quorumTicks, votersOf, votesOf, QUORUM, NUMBER_OF_COMPUTORS]
  | append_singleton payloads p ih =>
    classical
    have hle := card_le_of_append k payloads p
    rw [quorumTicks_append, List.countP_append, ih hkeep.of_append]
    show _ + (producedAt payloads p).toList.countP _ = _
    rw [countP_produced hkeep.of_append]
    simp only [completes_iff]
    by_cases hold : QUORUM ≤ (votersOf k payloads).card
    · simp [hold, Nat.le_trans hold hle]
    · simp [hold]

/-- **Quorum detection is exact.** For a key that no vote of the run prunes: its quorum event is
produced if and only if 451 distinct computors voted for it, and then once; it is produced at
the call that records the 451st of them, and carries exactly these, in strictly increasing
order. -/
theorem quorum_exact {k : VoteKey} {payloads : List Bytes} (hkeep : NotPruned k payloads) :
    ((quorumTicks {} payloads).countP (fun qt => qt.key = k)
      = if 451 ≤ (votersOf k payloads).card then 1 else 0)
    ∧ ∀ before p after, payloads = before ++ p :: after →
      ((∃ qt, producedAt before p = some qt ∧ qt.key = k) ↔
        (votersOf k before).card = 450 ∧ (votersOf k (before ++ [p])).card = 451)
      ∧ ∀ qt, producedAt before p = some qt → qt.key = k →
        qt.voteCount = 451 ∧ qt.votedComputors.Pairwise (· < ·) ∧
        ∀ i, i ∈ qt.votedComputors ↔ i ∈ votersOf k (before ++ [p]) := by
  refine ⟨countP_quorumTicks hkeep, ?_⟩
  rintro before p after rfl
  have hbefore : NotPruned k before := by
    rintro b q a v rfl
    exact hkeep b q (a ++ p :: after) v (by simp)
  refine ⟨?_, ?_⟩
  · -- the 451st of the voters
    have hcompletes : Completes k before p ↔
        (votersOf k before).card = 450 ∧ (votersOf k (before ++ [p])).card = 451 := by
      rw [Completes, show QUORUM = 450 + 1 from rfl, Nat.add_right_cancel_iff]
    rw [← hcompletes]
    constructor
    · rintro ⟨qt, h⟩
      exact ((producedAt_iff hbefore).mp h).1
    · intro h
      exact ⟨_, (producedAt_iff hbefore).mpr ⟨h, rfl⟩⟩
  · -- the event lists those counted, sorted
    intro qt hprod hkey
    obtain ⟨-, rfl⟩ := (producedAt_iff hbefore).mp ⟨hprod, hkey⟩
    refine ⟨rfl, ?_, fun i => by simp⟩
    refine ((Finset.pairwise_sort (votersOf k (before ++ [p])) (· ≤ ·)).and
      (Finset.sort_nodup _ _)).imp ?_
    rintro i j ⟨hle, hne⟩
    exact UInt16.lt_of_le_of_ne hle hne

def sampleVote (computorIndex : Nat) : Bytes :=
  [UInt8.ofNat computorIndex, UInt8.ofNat (computorIndex / 256), 5, 0, 7, 0, 0, 0]
    ++ List.replicate 12 0

/-- The sample votes are all for epoch 5 and tick 7. -/
theorem voteOf_sampleVote (i : Nat) : voteOf (sampleVote i) = some ⟨UInt16.ofNat i, 5, 7⟩ := by
  have hindex : UInt16.fromLeBytes [UInt8.ofNat i, UInt8.ofNat (i / 256)] = UInt16.ofNat i := by
    rw [← UInt16.toNat_inj]
    show (UInt16.ofNat (Positional.ofLe [UInt8.ofNat i, UInt8.ofNat (i / 256)])).toNat = _
    simp only [Positional.ofLe, List.map_cons, List.map_nil, Nat.ofDigits_cons, Nat.ofDigits_nil,
      UInt8.toNat_ofNat', UInt16.toNat_ofNat']
    omega
  have hvote : voteOf (sampleVote i)
      = some ⟨UInt16.fromLeBytes [UInt8.ofNat i, UInt8.ofNat (i / 256)], 5, 7⟩ := rfl
  rw [hvote, hindex]

/-- Their voters are their indices. -/
theorem votersOf_map_sampleVote (indices : List Nat) :
    votersOf (5, 7) (indices.map sampleVote) = (indices.map UInt16.ofNat).toFinset := by
  have hvotes : votesOf (indices.map sampleVote)
      = indices.map (fun i => ⟨UInt16.ofNat i, 5, 7⟩) := by
    rw [votesOf, List.filterMap_map, ← List.filterMap_eq_map]
    exact List.filterMap_congr (fun i _ => voteOf_sampleVote i)
  rw [votersOf, hvotes, List.filter_eq_self.mpr, List.map_map]
  · rfl
  · intro v hv
    obtain ⟨i, -, rfl⟩ := List.mem_map.mp hv
    rfl

/-- As many as there are indices, if these are distinct. -/
theorem card_votersOf_map_sampleVote {indices : List Nat} (hnd : indices.Nodup)
    (hlt : ∀ i ∈ indices, i < 65536) :
    (votersOf (5, 7) (indices.map sampleVote)).card = indices.length := by
  have hnodup : (indices.map UInt16.ofNat).Nodup := by
    refine List.Nodup.map_on (fun i hi j hj h => ?_) hnd
    rw [← UInt16.toNat_ofNat_of_lt' (hlt i hi), h, UInt16.toNat_ofNat_of_lt' (hlt j hj)]
  rw [votersOf_map_sampleVote, List.toFinset_card_of_nodup hnodup, List.length_map]

def sampleVotes : List Bytes := (List.range 451).map sampleVote

theorem card_votersOf_sampleVotes : (votersOf (5, 7) sampleVotes).card = 451 := by
  rw [sampleVotes, card_votersOf_map_sampleVote List.nodup_range, List.length_range]
  intro i hi
  exact Nat.lt_trans (List.mem_range.mp hi) (by decide)

/-- Fewer than 10,000 payloads prune nothing. -/
theorem notPruned_of_length {k : VoteKey} {payloads : List Bytes} (h : payloads.length < 10000) :
    NotPruned k payloads := by
  intro before p after v heq _ hprune
  have hlen : (votesOf before).length + 1 < 10000 := by
    have hle : (votesOf before).length ≤ before.length := List.length_filterMap_le _ _
    have := congrArg List.length heq
    rw [List.length_append, List.length_cons] at this
    omega
  have hzero := congrArg UInt64.toNat hprune
  rw [UInt64.toNat_mod, UInt64.toNat_ofNat_of_lt' (Nat.lt_trans hlen (by decide)),
    show PRUNE_INTERVAL.toNat = 10000 from rfl, Nat.mod_eq_of_lt hlen] at hzero
  cases hzero

/-- The quorum of the 451 voters is announced once. -/
theorem quorum_exact_sample :
    NotPruned (5, 7) sampleVotes ∧ (votersOf (5, 7) sampleVotes).card = 451 ∧
    (quorumTicks {} sampleVotes).countP (fun qt => qt.key = (5, 7)) = 1 := by
  have hkeep : NotPruned (5, 7) sampleVotes :=
    notPruned_of_length (by rw [sampleVotes, List.length_map, List.length_range]; decide)
  have hcount := (quorum_exact hkeep).1
  rw [card_votersOf_sampleVotes, if_pos (Nat.le_refl _)] at hcount
  exact ⟨hkeep, card_votersOf_sampleVotes, hcount⟩

end PacketDecoder

end Qonduit

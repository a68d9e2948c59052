import Qonduit.Ingestion.Votes

/-!
# Qonduit — quorum announcements across prunes

A prune removes the votes of a key together with the mark that its quorum was published. The
votes of a run fall into stretches, each ending with the vote that prunes the key; the aggregator
knows the current stretch only, and announces a quorum in each that has one.

* **`prunes`** — the vote at hand prunes the key: it is a 10,000th one, and more than
  `KEEP_TICKS` ahead.
* **`Since`** — the aggregator counts the current stretch.
* **`since_step`** — one call keeps this, and announces the key when the stretch gets its quorum.
* **`announced_once_iff`** — no key is announced twice exactly when no key has a quorum in two
  stretches.
-/

namespace Qonduit

open PacketDecoder

/-- A call of `decode_tick_vote`, with what its publishes return. -/
abbrev VoteAttempt := Acks × Bytes

/-- The quorum events a sequence of calls produces, in order. -/
def announced (d : PacketDecoder) : List VoteAttempt → List QuorumTick
  | [] => []
  | (acks, p) :: calls => (d.decodeTickVote acks p).produced.toList
      ++ announced (d.decodeTickVote acks p).decoder calls

/-- The payloads whose vote was published, so that the call went on to aggregate it. -/
def recorded (calls : List VoteAttempt) : List Bytes :=
  calls.filterMap fun call =>
    match call.1.vote with
    | .ok _ => some call.2
    | .error _ => none

/-- Calls that publish their votes record them. -/
theorem recorded_map {acks : Acks} (h : acks.vote = .ok ()) (payloads : List Bytes) :
    recorded (payloads.map (Prod.mk acks)) = payloads := by
  rw [recorded, List.filterMap_map]
  simp only [Function.comp_def, h]
  exact List.filterMap_some

/-- What the publisher returns for the quorum event changes the result of a call only. -/
theorem decodeTickVote_of_ok (d : PacketDecoder) {acks : Acks} (h : acks.vote = .ok ())
    (p : Bytes) :
    (d.decodeTickVote acks p).decoder = (d.decodeTickVote {} p).decoder ∧
      (d.decodeTickVote acks p).produced = (d.decodeTickVote {} p).produced := by
  simp only [decodeTickVote, parseTickVote_eq, h]
  cases voteOf p with
  | none => exact ⟨rfl, rfl⟩
  | some v =>
    dsimp only
    cases (d.aggregate v).2 <;> exact ⟨rfl, rfl⟩

/-- A call whose vote is not published leaves the decoder as it is. -/
theorem decodeTickVote_of_error (d : PacketDecoder) {acks : Acks} {fault : Fault}
    (h : acks.vote = .error fault) (p : Bytes) :
    (d.decodeTickVote acks p).decoder = d ∧ (d.decodeTickVote acks p).produced = none := by
  simp only [decodeTickVote, parseTickVote_eq, h]
  cases voteOf p <;> exact ⟨rfl, rfl⟩

/-- **What a sequence of calls announces** depends on the recorded votes only. -/
theorem announced_eq (d : PacketDecoder) (calls : List VoteAttempt) :
    announced d calls = quorumTicks d (recorded calls) := by
  induction calls generalizing d with
  | nil => rfl
  | cons call calls ih =>
    obtain ⟨acks, p⟩ := call
    rw [announced]
    cases hvote : acks.vote with
    | ok u =>
      obtain ⟨hdecoder, hproduced⟩ := decodeTickVote_of_ok d hvote p
      have hrecorded : recorded ((acks, p) :: calls) = p :: recorded calls :=
        List.filterMap_cons_some (by simp only [hvote])
      rw [hdecoder, hproduced, ih, hrecorded, quorumTicks]
    | error fault =>
      obtain ⟨hdecoder, hproduced⟩ := decodeTickVote_of_error d hvote p
      have hrecorded : recorded ((acks, p) :: calls) = recorded calls :=
        List.filterMap_cons_none (by simp only [hvote])
      rw [hdecoder, hproduced, ih, hrecorded]
      rfl

/-! ## Stretches

Every `PRUNE_INTERVAL` votes the aggregator forgets the keys far enough behind the vote just
recorded. For one key that cuts the votes into stretches, and between two prunes of it nothing is
forgotten. -/

/-- The payload, recorded after the given ones, prunes the key. -/
def prunes (k : VoteKey) (before : List Bytes) (p : Bytes) : Bool :=
  match voteOf p with
  | some v => UInt64.ofNat ((votesOf before).length + 1) % PRUNE_INTERVAL = 0 ∧
      k.2.toNat + KEEP_TICKS.toNat < v.tick.toNat
  | none => false

/-- The stretches of the payloads that follow `before`, the first continuing `current`. -/
def stretchesFrom (k : VoteKey) (before current : List Bytes) : List Bytes → List (List Bytes)
  | [] => [current]
  | p :: ps =>
    if prunes k before p then (current ++ [p]) :: stretchesFrom k (before ++ [p]) [] ps
    else stretchesFrom k (before ++ [p]) (current ++ [p]) ps

def stretches (k : VoteKey) (payloads : List Bytes) : List (List Bytes) :=
  stretchesFrom k [] [] payloads

/-- The stretches in which the key has a quorum of voters. -/
def quorateStretches (k : VoteKey) (payloads : List Bytes) : List (List Bytes) :=
  (stretches k payloads).filter (fun s => QUORUM ≤ (votersOf k s).card)

/-- 1 for a quorum of voters, 0 otherwise. -/
def quorate (k : VoteKey) (s : List Bytes) : Nat := if QUORUM ≤ (votersOf k s).card then 1 else 0

@[simp] theorem quorate_nil (k : VoteKey) : quorate k [] = 0 := by
  simp [quorate, votersOf, votesOf, QUORUM, NUMBER_OF_COMPUTORS]

/-! ## One call

Within a stretch the aggregator counts the voters of the key since its last prune. A call announces
the key when this count comes to the quorum for the first time. -/

/-- A prune from more than `keepTicks` ahead forgets the key. -/
theorem TickVoteAggregator.prune_of_lt {agg : TickVoteAggregator} {k : VoteKey}
    {latestTick keepTicks : UInt32} (h : k.2.toNat + keepTicks.toNat < latestTick.toNat) :
    (agg.prune latestTick keepTicks).votes k = ∅ ∧
      k ∉ (agg.prune latestTick keepTicks).quorumPublished := by
  have hgt : keepTicks < latestTick := UInt32.lt_iff_toNat_lt.mpr (by omega)
  have hcutoff : ¬ k.2 ≥ latestTick - keepTicks := by
    intro hle
    rw [ge_iff_le, UInt32.le_iff_toNat_le,
      UInt32.toNat_sub_of_le _ _ (UInt32.le_of_lt hgt)] at hle
    omega
  unfold prune
  rw [if_pos hgt]
  refine ⟨if_neg hcutoff, ?_⟩
  simp [hcutoff]

/-- Recording a vote produces the event of a key exactly when the key gets its quorum. The voters of
the stretch so far are those the aggregator holds, and its mark tells whether they were a quorum
before. -/
theorem countP_recordVote {k : VoteKey} {agg : TickVoteAggregator} {current : List Bytes}
    {p : Bytes} {v : TickVote} (h : Counts k agg current) (hv : voteOf p = some v) :
    (agg.recordVote v).2.toList.countP (fun qt => qt.key = k) + quorate k current
      = quorate k (current ++ [p]) := by
  have hle := card_le_of_append k current p
  unfold quorate
  cases hresult : (agg.recordVote v).2 with
  | some qt =>
    obtain ⟨⟨hcard, hnew⟩, rfl⟩ := (agg.recordVote_eq_some_iff v).mp hresult
    -- an event for another key does not count
    by_cases hk : v.key = k
    · rw [h.vote_eq hv hk] at hcard
      rw [hk, h.published] at hnew
      rw [if_neg hnew, if_pos hcard]
      simp [QuorumTick.key, ← hk, TickVote.key]
    · have hother : ¬ (v.epoch, v.tick) = k := hk
      rw [votersOf_append_some hv, if_neg hk]
      simp [QuorumTick.key, hother]
  | none =>
    -- no event for the key: it had its quorum before, or has none yet
    have hold : QUORUM ≤ (votersOf k (current ++ [p])).card →
        QUORUM ≤ (votersOf k current).card := by
      intro hcard
      by_cases hk : v.key = k
      · by_contra hnew
        have hsome := (agg.recordVote_eq_some_iff v).mpr ⟨⟨by rwa [h.vote_eq hv hk],
          by rwa [hk, h.published]⟩, rfl⟩
        rw [hresult] at hsome
        cases hsome
      · rwa [votersOf_append_some hv, if_neg hk] at hcard
    have hiff : QUORUM ≤ (votersOf k current).card ↔ QUORUM ≤ (votersOf k (current ++ [p])).card :=
      ⟨fun hcard => Nat.le_trans hcard hle, hold⟩
    simp [hiff]

/-- The decoder counts the votes so far, and the aggregator those of the current stretch. -/
structure Since (k : VoteKey) (d : PacketDecoder) (before current : List Bytes) : Prop where
  counts : Counts k d.voteAggregator current
  count : d.voteCount = UInt64.ofNat (votesOf before).length

theorem since_nil (k : VoteKey) : Since k {} [] [] := ⟨.nil rfl (by simp), rfl⟩

/-- **One call**: the key is announced when its stretch gets a quorum, and a prune ends the
stretch. -/
theorem since_step {k : VoteKey} {d : PacketDecoder} {before current : List Bytes}
    (h : Since k d before current) (p : Bytes) :
    (d.decodeTickVote {} p).produced.toList.countP (fun qt => qt.key = k) + quorate k current
        = quorate k (current ++ [p]) ∧
      Since k (d.decodeTickVote {} p).decoder (before ++ [p])
        (if prunes k before p then [] else current ++ [p]) := by
  rcases d.decodeTickVote_cases p with ⟨hv, hcall⟩ | ⟨v, hv, hcall⟩
  · have hkeep : prunes k before p = false := by simp only [prunes, hv]
    rw [hcall, hkeep]
    refine ⟨?_, h.counts.append_none hv, ?_⟩
    · simp [quorate, votersOf_append_none hv]
    · rw [votesOf_append_singleton, hv]
      simpa using h.count
  · rw [hcall]
    have hrecorded := h.counts.recordVote hv
    refine ⟨countP_recordVote h.counts hv, ?_, voteCount_aggregate h.count hv⟩
    have hcount : d.voteCount + 1 = UInt64.ofNat ((votesOf before).length + 1) := by
      rw [h.count, UInt64.ofNat_add]
      rfl
    simp only [prunes, hv, aggregate, hcount]
    -- a 10,000th vote forgets the keys far enough behind, and leaves the others
    by_cases hmod : UInt64.ofNat ((votesOf before).length + 1) % PRUNE_INTERVAL = 0
    · rw [if_pos hmod]
      by_cases hfar : k.2.toNat + KEEP_TICKS.toNat < v.tick.toNat
      · obtain ⟨hvotes, hpublished⟩ := (d.voteAggregator.recordVote v).1.prune_of_lt hfar
        rw [if_pos (decide_eq_true ⟨hmod, hfar⟩)]
        exact .nil hvotes hpublished
      · obtain ⟨hvotes, hpublished⟩ :=
          (d.voteAggregator.recordVote v).1.prune_of_le (Nat.not_lt.mp hfar)
        rw [if_neg (fun hc => hfar (of_decide_eq_true hc).2)]
        exact ⟨hvotes.trans hrecorded.votes, hpublished.trans hrecorded.published⟩
    · rw [if_neg hmod, if_neg (fun hc => hmod (of_decide_eq_true hc).1)]
      exact hrecorded

/-! ## Whole runs

Along a run the announcements of a key are counted stretch by stretch. A key is announced twice if
two of its stretches come to a quorum. -/

/-- **The events of a run for a key** are its stretches with a quorum, from any point of the run on.
A quorum that the current stretch has by then is announced already. -/
theorem countP_quorumTicks_from {k : VoteKey} {d : PacketDecoder} {before current : List Bytes}
    (h : Since k d before current) (payloads : List Bytes) :
    (quorumTicks d payloads).countP (fun qt => qt.key = k) + quorate k current
      = ((stretchesFrom k before current payloads).filter
          (fun s => QUORUM ≤ (votersOf k s).card)).length := by
  induction payloads generalizing d before current with
  | nil =>
    rw [quorumTicks, stretchesFrom, List.countP_nil, Nat.zero_add, quorate]
    by_cases hq : QUORUM ≤ (votersOf k current).card <;> simp [hq]
  | cons p payloads ih =>
    obtain ⟨hproduced, hnext⟩ := since_step h p
    rw [quorumTicks, List.countP_append, stretchesFrom]
    by_cases hprune : prunes k before p
    · -- the stretch ends here, and the next begins empty
      rw [if_pos hprune] at hnext ⊢
      have hrest := ih hnext
      rw [quorate_nil] at hrest
      have hcons : (((current ++ [p]) :: stretchesFrom k (before ++ [p]) [] payloads).filter
          (fun s => QUORUM ≤ (votersOf k s).card)).length
          = quorate k (current ++ [p]) + ((stretchesFrom k (before ++ [p]) [] payloads).filter
            (fun s => QUORUM ≤ (votersOf k s).card)).length := by
        rw [List.filter_cons, quorate]
        by_cases hq : QUORUM ≤ (votersOf k (current ++ [p])).card
        · simp [hq, Nat.add_comm]
        · simp [hq]
      rw [hcons]
      omega
    · rw [if_neg hprune] at hnext ⊢
      have hrest := ih hnext
      omega

theorem countP_quorumTicks (k : VoteKey) (payloads : List Bytes) :
    (quorumTicks {} payloads).countP (fun qt => qt.key = k)
      = (quorateStretches k payloads).length := by
  have hcount := countP_quorumTicks_from (since_nil k) payloads
  rw [quorate_nil, Nat.add_zero] at hcount
  exact hcount

/-- **When a quorum is announced at most once.** For every sequence of calls, whatever their
publishes return: no (epoch, tick) is announced twice if and only if none has a quorum of voters
in two of the stretches between the votes that prune it. -/
theorem announced_once_iff (calls : List VoteAttempt) :
    (∀ k, (announced {} calls).countP (fun qt => qt.key = k) ≤ 1) ↔
      ∀ k, (quorateStretches k (recorded calls)).length ≤ 1 := by
  refine forall_congr' (fun k => ?_)
  rw [announced_eq, countP_quorumTicks]

/-- Payloads of which none prunes the key continue the stretch. -/
theorem stretchesFrom_append (k : VoteKey) (before current : List Bytes) {block : List Bytes}
    (h : ∀ pre p post, block = pre ++ p :: post → prunes k (before ++ pre) p = false)
    (rest : List Bytes) :
    stretchesFrom k before current (block ++ rest)
      = stretchesFrom k (before ++ block) (current ++ block) rest := by
  induction block generalizing before current with
  | nil => simp
  | cons p block ih =>
    have hfirst : prunes k before p = false := by
      have := h [] p block rfl
      rwa [List.append_nil] at this
    rw [List.cons_append, stretchesFrom, if_neg (by simp [hfirst]), ih]
    · simp
    · rintro pre q post rfl
      have := h (p :: pre) q post rfl
      simpa using this

/-- A vote of tick 1000, far ahead of tick 7. -/
def sampleFarVote : Bytes := [0, 0, 5, 0, 232, 3, 0, 0] ++ List.replicate 12 0

/-- A quorum for tick 7, enough votes of tick 1000 to reach the 10,000th, and the votes for tick 7
once more. -/
def sampleReplay : List Bytes :=
  sampleVotes ++ (List.replicate 9548 sampleFarVote ++ (sampleFarVote :: sampleVotes))

/-- The votes of the sample are for the tick itself, and prune nothing of it. -/
theorem not_prunes_sampleVotes (before : List Bytes) {p : Bytes} (hp : p ∈ sampleVotes) :
    prunes (5, 7) before p = false := by
  obtain ⟨i, -, rfl⟩ := List.mem_map.mp hp
  simp only [prunes, voteOf_sampleVote, decide_eq_false_iff_not, not_and, Nat.not_lt]
  exact fun _ => by decide

/-- How many votes precede the one that prunes. -/
theorem length_votesOf_sampleReplay (n : Nat) :
    (votesOf (sampleVotes ++ List.replicate n sampleFarVote)).length = 451 + n := by
  have hvotes : (votesOf sampleVotes).length = 451 := by decide +kernel
  have hfar : votesOf (List.replicate n sampleFarVote)
      = List.replicate n ⟨0, 5, 1000⟩ :=
    List.filterMap_replicate_of_some (by decide)
  have happend : votesOf (sampleVotes ++ List.replicate n sampleFarVote)
      = votesOf sampleVotes ++ votesOf (List.replicate n sampleFarVote) :=
    List.filterMap_append
  rw [happend, hfar, List.length_append, hvotes, List.length_replicate]

/-- The replay has two stretches, and both begin with the votes of the quorum. The 10,000th vote is
for a tick far ahead, and prunes the key between them. -/
theorem stretches_sampleReplay :
    stretches (5, 7) sampleReplay
      = [sampleVotes ++ List.replicate 9548 sampleFarVote ++ [sampleFarVote], sampleVotes] := by
  have hquorum : ∀ before pre p post, sampleVotes = pre ++ p :: post →
      prunes (5, 7) before p = false :=
    fun before pre p post heq => not_prunes_sampleVotes before (by rw [heq]; simp)
  have hfar : voteOf sampleFarVote = some ⟨0, 5, 1000⟩ := by decide
  -- the votes of tick 1000 before the 10,000th
  have hfill : ∀ pre p post, List.replicate 9548 sampleFarVote = pre ++ p :: post →
      prunes (5, 7) (sampleVotes ++ pre) p = false := by
    intro pre p post heq
    obtain ⟨hlen, hpre, hrest⟩ := List.replicate_eq_append_iff.mp heq
    have hp : p = sampleFarVote := List.eq_of_mem_replicate (n := 9548) (by rw [heq]; simp)
    have hpost : pre.length < 9548 := by
      rw [List.length_cons] at hlen
      omega
    rw [hpre, hp]
    simp only [prunes, hfar, length_votesOf_sampleReplay, decide_eq_false_iff_not, not_and]
    intro hmod
    exfalso
    have hnat := congrArg UInt64.toNat hmod
    have hsmall : 451 + pre.length + 1 < 10000 := by omega
    rw [UInt64.toNat_mod, UInt64.toNat_ofNat_of_lt' (Nat.lt_trans hsmall (by decide)),
      show PRUNE_INTERVAL.toNat = 10000 from rfl, Nat.mod_eq_of_lt hsmall] at hnat
    cases hnat
  have hprune : prunes (5, 7) (sampleVotes ++ List.replicate 9548 sampleFarVote) sampleFarVote
      = true := by
    simp only [prunes, hfar, length_votesOf_sampleReplay, decide_eq_true_iff]
    exact ⟨by decide, by decide⟩
  have hlast := stretchesFrom_append (5, 7)
    (sampleVotes ++ List.replicate 9548 sampleFarVote ++ [sampleFarVote]) []
    (fun pre p post heq => hquorum _ pre p post heq) []
  rw [stretches, sampleReplay,
    stretchesFrom_append _ _ _ (fun pre p post heq => hquorum _ pre p post heq), List.nil_append,
    stretchesFrom_append _ _ _ hfill, stretchesFrom, if_pos hprune]
  rw [List.append_nil, stretchesFrom, List.nil_append] at hlast
  rw [hlast]

/-- The quorum of tick 7 is announced twice. -/
theorem quorum_announced_twice :
    (announced {} (sampleReplay.map (fun p => ({}, p)))).countP (fun qt => qt.key = (5, 7))
      = 2 := by
  rw [announced_eq, recorded_map rfl, countP_quorumTicks, quorateStretches, stretches_sampleReplay]
  have hcard := card_votersOf_sampleVotes
  have hfirst : QUORUM ≤ (votersOf (5, 7)
      (sampleVotes ++ List.replicate 9548 sampleFarVote ++ [sampleFarVote])).card := by
    refine Nat.le_trans (Nat.le_of_eq hcard.symm) (Finset.card_le_card (fun i hi => ?_))
    simp only [votersOf, votesOf, List.filterMap_append, List.filter_append, List.map_append,
      List.mem_toFinset, List.mem_append] at hi ⊢
    exact .inl (.inl hi)
  have hsecond : QUORUM ≤ (votersOf (5, 7) sampleVotes).card := Nat.le_of_eq hcard.symm
  rw [List.filter_cons, if_pos (decide_eq_true hfirst), List.filter_cons,
    if_pos (decide_eq_true hsecond)]
  rfl

end Qonduit

import Qonduit.Ingestion.Pruning

/-!
# Qonduit — what a quorum event says

Two readings of a quorum event that the code does not secure. The mark that a key's quorum was
published is set while the aggregator is locked, and the event is handed to the publisher
afterwards, where it can be lost. And the votes are counted by whatever index they carry.

* **`marks_published_iff`** — when a marked key has had its quorum event published.
* **`computors_only_iff`** — when every quorum event lists computors only.
-/

namespace Qonduit

open PacketDecoder

/-! ## The state after a run

A call whose vote is not published returns before it aggregates anything. The state of the decoder
is therefore that of the published votes alone. -/

/-- The decoder after a sequence of calls. -/
def decoderAfter (calls : List VoteAttempt) : PacketDecoder :=
  calls.foldl (fun d call => (d.decodeTickVote call.1 call.2).decoder) {}

theorem decoderAfter_append (calls : List VoteAttempt) (call : VoteAttempt) :
    decoderAfter (calls ++ [call])
      = ((decoderAfter calls).decodeTickVote call.1 call.2).decoder := by
  rw [decoderAfter, List.foldl_append]
  rfl

/-- A call whose vote is published adds its payload to those recorded. -/
theorem recorded_append_ok {calls : List VoteAttempt} {acks : Acks} (h : acks.vote = .ok ())
    (p : Bytes) : recorded (calls ++ [(acks, p)]) = recorded calls ++ [p] := by
  have hlast : recorded [(acks, p)] = [p] := List.filterMap_cons_some (by simp only [h])
  rw [recorded, List.filterMap_append]
  exact congrArg (recorded calls ++ ·) hlast

theorem recorded_append_error {calls : List VoteAttempt} {acks : Acks} {fault : Fault}
    (h : acks.vote = .error fault) (p : Bytes) :
    recorded (calls ++ [(acks, p)]) = recorded calls := by
  have hlast : recorded [(acks, p)] = [] := List.filterMap_cons_none (by simp only [h])
  rw [recorded, List.filterMap_append]
  exact (congrArg (recorded calls ++ ·) hlast).trans (List.append_nil _)

/-- Only the payloads whose vote was published count. -/
theorem decoderAfter_eq (calls : List VoteAttempt) :
    decoderAfter calls = decodeTickVotes {} (recorded calls) := by
  induction calls using List.reverseRecOn with
  | nil => rfl
  | append_singleton calls call ih =>
    obtain ⟨acks, p⟩ := call
    rw [decoderAfter_append]
    cases hvote : acks.vote with
    | ok u =>
      rw [recorded_append_ok hvote, decodeTickVotes_append,
        (decodeTickVote_of_ok _ hvote p).1, ih]
    | error fault =>
      rw [recorded_append_error hvote, (decodeTickVote_of_error _ hvote p).1, ih]

/-! ## Marks and publications

The aggregator marks a key as soon as its quorum is complete, before the event is published. Whether
the event gets out is up to the publisher. -/

/-- A call handed the quorum event of the key to the publisher, which took it. -/
def QuorumPublished (calls : List VoteAttempt) (k : VoteKey) : Prop :=
  ∃ before acks p after qt, calls = before ++ (acks, p) :: after ∧
    ((decoderAfter before).decodeTickVote acks p).produced = some qt ∧ qt.key = k ∧
    acks.quorum = .ok ()

/-- The call's vote, once published, makes a quorum for the key, which is not marked. -/
def ReachesQuorum (d : PacketDecoder) (call : VoteAttempt) (k : VoteKey) : Prop :=
  call.1.vote = .ok () ∧ k ∉ d.voteAggregator.quorumPublished ∧
    ∃ v, voteOf call.2 = some v ∧ v.key = k ∧ QUORUM ≤ (d.voteAggregator.vote v).card

section Marks

variable {d : PacketDecoder} {call : VoteAttempt} {k : VoteKey}

/-- **All a call can do**, whatever its publishes return: nothing, or aggregate its vote. -/
theorem attempt_cases (d : PacketDecoder) (call : VoteAttempt) :
    ((call.1.vote ≠ .ok () ∨ voteOf call.2 = none) ∧
      (d.decodeTickVote call.1 call.2).decoder = d ∧
      (d.decodeTickVote call.1 call.2).produced = none) ∨
    ∃ v, call.1.vote = .ok () ∧ voteOf call.2 = some v ∧
      (d.decodeTickVote call.1 call.2).decoder = (d.aggregate v).1 ∧
      (d.decodeTickVote call.1 call.2).produced = (d.voteAggregator.recordVote v).2 := by
  obtain ⟨acks, p⟩ := call
  cases hvote : acks.vote with
  | error fault =>
    refine .inl ⟨.inl ?_, decodeTickVote_of_error d hvote p⟩
    intro hok
    cases hok
  | ok u =>
    obtain ⟨hdecoder, hproduced⟩ := decodeTickVote_of_ok d hvote p
    rcases d.decodeTickVote_cases p with ⟨hv, hcall⟩ | ⟨v, hv, hcall⟩
    · rw [hcall] at hdecoder hproduced
      exact .inl ⟨.inr hv, hdecoder, hproduced⟩
    · rw [hcall] at hdecoder hproduced
      exact .inr ⟨v, rfl, hv, hdecoder, hproduced⟩

/-- A published vote makes a quorum for its own key, if the key is not marked yet and the vote makes
up the number. -/
theorem reachesQuorum_iff {v : TickVote} (hvote : call.1.vote = .ok ())
    (hv : voteOf call.2 = some v) :
    ReachesQuorum d call k ↔
      k ∉ d.voteAggregator.quorumPublished ∧ k = v.key ∧
        QUORUM ≤ (d.voteAggregator.vote v).card := by
  constructor
  · intro h
    obtain ⟨-, hnew, v', hv', hk, hcard⟩ := h
    obtain rfl := Option.some.inj (hv.symm.trans hv')
    exact ⟨hnew, hk.symm, hcard⟩
  · intro h
    exact ⟨hvote, h.1, v, hv, h.2.1.symm, h.2.2⟩

/-- Any other call makes none. -/
theorem not_reachesQuorum (h : call.1.vote ≠ .ok () ∨ voteOf call.2 = none) :
    ¬ReachesQuorum d call k := by
  intro hreaches
  obtain ⟨hok, -, v, hv, -⟩ := hreaches
  rcases h with hvote | hnone
  · exact hvote hok
  · cases hnone.symm.trans hv

/-- A call produces an event exactly for the key it makes a quorum for. -/
theorem produced_iff_reaches :
    (∃ qt, (d.decodeTickVote call.1 call.2).produced = some qt ∧ qt.key = k) ↔
      ReachesQuorum d call k := by
  rcases attempt_cases d call with ⟨hidle, -, hproduced⟩ | ⟨v, hvote, hv, -, hproduced⟩
  · rw [hproduced]
    refine iff_of_false ?_ (not_reachesQuorum hidle)
    intro h
    obtain ⟨qt, hqt, -⟩ := h
    cases hqt
  · rw [hproduced, reachesQuorum_iff hvote hv]
    constructor
    · intro h
      obtain ⟨qt, hqt, rfl⟩ := h
      obtain ⟨⟨hcard, hnew⟩, rfl⟩ := (d.voteAggregator.recordVote_eq_some_iff v).mp hqt
      exact ⟨hnew, rfl, hcard⟩
    · intro h
      obtain ⟨hnew, rfl, hcard⟩ := h
      exact ⟨_, (d.voteAggregator.recordVote_eq_some_iff v).mpr ⟨⟨hcard, hnew⟩, rfl⟩, rfl⟩

/-- A prune takes marks away, and never that of a key as recent as the vote. -/
theorem mem_quorumPublished_aggregate {v : TickVote} :
    (k ∈ (d.aggregate v).1.voteAggregator.quorumPublished →
      k ∈ (d.voteAggregator.recordVote v).1.quorumPublished) ∧
    (k = v.key → (k ∈ (d.aggregate v).1.voteAggregator.quorumPublished ↔
      k ∈ (d.voteAggregator.recordVote v).1.quorumPublished)) := by
  unfold aggregate
  dsimp only
  split
  · refine ⟨fun h => ?_, fun hk => ?_⟩
    · unfold TickVoteAggregator.prune at h
      split at h
      · exact (Finset.mem_filter.mp h).1
      · exact h
    · refine (TickVoteAggregator.prune_of_le ?_).2
      rw [hk]
      exact Nat.le_add_right _ _
  · exact ⟨id, fun _ => Iff.rfl⟩

/-- **What a call marks**: the key for which it makes a quorum. -/
theorem marks_step
    (h : k ∈ (d.decodeTickVote call.1 call.2).decoder.voteAggregator.quorumPublished) :
    k ∈ d.voteAggregator.quorumPublished ∨ ReachesQuorum d call k := by
  rcases attempt_cases d call with ⟨-, hdecoder, -⟩ | ⟨v, hvote, hv, hdecoder, -⟩
  · rw [hdecoder] at h
    exact .inl h
  · rw [hdecoder] at h
    by_cases hold : k ∈ d.voteAggregator.quorumPublished
    · exact .inl hold
    · have hrecorded := mem_quorumPublished_aggregate.1 h
      rw [TickVoteAggregator.mem_quorumPublished_recordVote] at hrecorded
      exact .inr ((reachesQuorum_iff hvote hv).mpr ⟨hold, hrecorded.resolve_left hold⟩)

/-- The prune behind it leaves that mark: the key is as recent as the vote. -/
theorem marks_of_reaches (h : ReachesQuorum d call k) :
    k ∈ (d.decodeTickVote call.1 call.2).decoder.voteAggregator.quorumPublished := by
  rcases attempt_cases d call with ⟨hidle, -, -⟩ | ⟨v, hvote, hv, hdecoder, -⟩
  · exact absurd h (not_reachesQuorum hidle)
  · obtain ⟨-, hk, hcard⟩ := (reachesQuorum_iff hvote hv).mp h
    rw [hdecoder, mem_quorumPublished_aggregate.2 hk,
      TickVoteAggregator.mem_quorumPublished_recordVote]
    exact .inr ⟨hk, hcard⟩

end Marks

theorem QuorumPublished.append {calls : List VoteAttempt} {k : VoteKey}
    (h : QuorumPublished calls k) (call : VoteAttempt) : QuorumPublished (calls ++ [call]) k := by
  obtain ⟨before, acks, p, after, qt, rfl, hproduced⟩ := h
  exact ⟨before, acks, p, after ++ [call], qt, by simp, hproduced⟩

/-- One call publishes the event of a key if it makes its quorum and the publisher takes it. What
earlier calls have published is not undone. -/
theorem quorumPublished_append_iff {calls : List VoteAttempt} {call : VoteAttempt} {k : VoteKey} :
    QuorumPublished (calls ++ [call]) k ↔
      QuorumPublished calls k ∨
        (ReachesQuorum (decoderAfter calls) call k ∧ call.1.quorum = .ok ()) := by
  rw [← produced_iff_reaches]
  constructor
  · intro h
    obtain ⟨before, acks, p, after, qt, heq, hproduced, hkey, hok⟩ := h
    cases after using List.reverseRecOn with
    | nil =>
      obtain ⟨rfl, hcall⟩ := List.append_inj' heq rfl
      cases hcall
      exact .inr ⟨⟨qt, hproduced, hkey⟩, hok⟩
    | append_singleton after last =>
      rw [← List.cons_append, ← List.append_assoc] at heq
      obtain ⟨rfl, -⟩ := List.append_inj' heq rfl
      exact .inl ⟨before, acks, p, after, qt, rfl, hproduced, hkey, hok⟩
  · intro h
    rcases h with hold | ⟨⟨qt, hproduced, hkey⟩, hok⟩
    · exact hold.append call
    · exact ⟨calls, call.1, call.2, [], qt, rfl, hproduced, hkey, hok⟩

/-- **When a marked key has had its quorum event published**: in every state of a run, whatever
the publishes return, if and only if a quorum event is lost only when the same key's was published
before. -/
theorem marks_published_iff (calls : List VoteAttempt) :
    (∀ before, before <+: calls →
      ∀ k ∈ (decoderAfter before).voteAggregator.quorumPublished, QuorumPublished before k) ↔
    ∀ before call k, before ++ [call] <+: calls → ReachesQuorum (decoderAfter before) call k →
      call.1.quorum ≠ .ok () → QuorumPublished before k := by
  constructor
  · intro h before call k hprefix hreaches hlost
    have hmarked : k ∈ (decoderAfter (before ++ [call])).voteAggregator.quorumPublished := by
      rw [decoderAfter_append]
      exact marks_of_reaches hreaches
    rcases quorumPublished_append_iff.mp (h _ hprefix k hmarked) with hold | ⟨-, hok⟩
    · exact hold
    · exact absurd hok hlost
  · intro h before
    induction before using List.reverseRecOn with
    | nil =>
      intro _ k hk
      exact absurd hk (Finset.notMem_empty k)
    | append_singleton before call ih =>
      intro hprefix k hk
      have hshorter : before <+: calls := (List.prefix_append before [call]).trans hprefix
      rw [quorumPublished_append_iff]
      rw [decoderAfter_append] at hk
      -- the mark is older than the call, or the call set it
      rcases marks_step hk with hold | hreaches
      · exact .inl (ih hshorter k hold)
      · by_cases hok : call.1.quorum = .ok ()
        · exact .inr ⟨hreaches, hok⟩
        · exact .inl (h before call k hprefix hreaches hok)

/-- A quorum whose event the publisher refuses leaves its key marked all the same, and no later
vote produces the event again. -/
theorem quorum_lost_of_refused {k : VoteKey} {acks : Acks} {payloads : List Bytes}
    (hvote : acks.vote = .ok ()) (hrefused : acks.quorum ≠ .ok ()) (hkeep : NotPruned k payloads)
    (hquorum : QUORUM ≤ (votersOf k payloads).card) {p : Bytes} {v : TickVote}
    (hv : voteOf p = some v) (hk : v.key = k) :
    k ∈ (decoderAfter (payloads.map (Prod.mk acks))).voteAggregator.quorumPublished ∧
    ¬QuorumPublished (payloads.map (Prod.mk acks)) k ∧
    ((decoderAfter (payloads.map (Prod.mk acks))).decodeTickVote {} p).produced = none := by
  have hmarked :
      k ∈ (decoderAfter (payloads.map (Prod.mk acks))).voteAggregator.quorumPublished := by
    -- all votes were published, so the run is one of its payloads
    rw [decoderAfter_eq, recorded_map hvote, (tracks_run hkeep).published]
    exact hquorum
  refine ⟨hmarked, ?_, ?_⟩
  · intro h
    obtain ⟨before, acks', q, after, qt, heq, -, -, hok⟩ := h
    have hmem : (acks', q) ∈ payloads.map (Prod.mk acks) := by simp [heq]
    obtain ⟨q', -, hacks⟩ := List.mem_map.mp hmem
    cases hacks
    exact hrefused hok
  · cases hproduced :
        ((decoderAfter (payloads.map (Prod.mk acks))).decodeTickVote {} p).produced with
    | none => rfl
    | some qt =>
      have hreaches : ReachesQuorum _ ({}, p) qt.key :=
        produced_iff_reaches.mp ⟨qt, hproduced, rfl⟩
      obtain ⟨hnew, hkey, -⟩ := (reachesQuorum_iff rfl hv).mp hreaches
      rw [hkey, hk] at hnew
      exact absurd hmarked hnew

/-- A publisher that takes votes and refuses quorum events. -/
def refusedQuorum : Acks where
  quorum := .error (.err ["Failed to publish to Q.5.QONDUIT.QUORUM"])

/-- The votes of 451 computors leave the key marked, though its event was not published, and the
452nd vote does not produce it again. -/
theorem quorum_event_lost :
    (5, 7) ∈ (decoderAfter (sampleVotes.map (Prod.mk refusedQuorum))).voteAggregator.quorumPublished
    ∧ ¬QuorumPublished (sampleVotes.map (Prod.mk refusedQuorum)) (5, 7) ∧
    ((decoderAfter (sampleVotes.map (Prod.mk refusedQuorum))).decodeTickVote {}
      (sampleVote 451)).produced = none := by
  have hkeep : NotPruned (5, 7) sampleVotes :=
    notPruned_of_length (by rw [sampleVotes, List.length_map, List.length_range]; decide)
  have hquorum : QUORUM ≤ (votersOf (5, 7) sampleVotes).card :=
    Nat.le_of_eq card_votersOf_sampleVotes.symm
  have hv : voteOf (sampleVote 451) = some ⟨451, 5, 7⟩ := by decide
  have hrefused : refusedQuorum.quorum ≠ .ok () := by
    intro h
    cases h
  exact quorum_lost_of_refused rfl hrefused hkeep hquorum hv rfl

/-! ## Who is in a quorum

The aggregator counts indices and does not look whether they are those of computors. So an event
lists computors only if all who voted for the key since its last prune are. -/

/-- The payloads recorded since the key was last pruned. -/
def currentStretch (k : VoteKey) (payloads : List Bytes) : List Bytes :=
  (payloads.foldl (fun (s : List Bytes × List Bytes) p =>
    (s.1 ++ [p], if prunes k s.1 p then [] else s.2 ++ [p])) ([], [])).2

/-- The stretch of a key with one more payload. -/
theorem currentStretch_append (k : VoteKey) (payloads : List Bytes) (p : Bytes) :
    currentStretch k (payloads ++ [p])
      = if prunes k payloads p then [] else currentStretch k payloads ++ [p] := by
  have hseen : ∀ payloads : List Bytes, (payloads.foldl (fun (s : List Bytes × List Bytes) p =>
      (s.1 ++ [p], if prunes k s.1 p then [] else s.2 ++ [p])) ([], [])).1 = payloads := by
    intro payloads
    induction payloads using List.reverseRecOn with
    | nil => rfl
    | append_singleton payloads p ih => rw [List.foldl_append, List.foldl_cons, List.foldl_nil, ih]
  rw [currentStretch, List.foldl_append, List.foldl_cons, List.foldl_nil, hseen]
  rfl

/-- **The aggregator counts the current stretch** of every key. -/
theorem since_run (k : VoteKey) (payloads : List Bytes) :
    Since k (decodeTickVotes {} payloads) payloads (currentStretch k payloads) := by
  induction payloads using List.reverseRecOn with
  | nil => exact since_nil k
  | append_singleton payloads p ih =>
    rw [decodeTickVotes_append, currentStretch_append]
    exact (since_step ih p).2

/-- The events of a run are those its calls produce, each behind the payloads before it. The
induction goes over the calls, and a beginning of the run is the run before its last call or
shorter. -/
theorem mem_quorumTicks {payloads : List Bytes} {qt : QuorumTick} :
    qt ∈ quorumTicks {} payloads ↔
      ∃ before p, before ++ [p] <+: payloads ∧ producedAt before p = some qt := by
  induction payloads using List.reverseRecOn with
  | nil =>
    refine iff_of_false List.not_mem_nil ?_
    intro h
    obtain ⟨before, p, hprefix, -⟩ := h
    have hlength := hprefix.length_le
    rw [List.length_append] at hlength
    simp at hlength
  | append_singleton payloads p ih =>
    rw [quorumTicks_append, List.mem_append, ih, Option.mem_toList]
    constructor
    · intro h
      rcases h with ⟨before, q, hprefix, hproduced⟩ | hproduced
      · exact ⟨before, q, hprefix.trans (List.prefix_append payloads [p]), hproduced⟩
      · exact ⟨payloads, p, List.prefix_refl _, hproduced⟩
    · intro h
      obtain ⟨before, q, hprefix, hproduced⟩ := h
      rcases List.prefix_concat_iff.mp hprefix with heq | hshorter
      · obtain ⟨rfl, hlast⟩ := List.append_inj' heq rfl
        cases hlast
        exact .inr hproduced
      · exact .inl ⟨before, q, hshorter, hproduced⟩

/-- What a quorum event is to say: a quorum of distinct computors. -/
structure ComputorsOnly (qt : QuorumTick) : Prop where
  quorum : QUORUM ≤ qt.votedComputors.length
  distinct : qt.votedComputors.Nodup
  computors : ∀ i ∈ qt.votedComputors, i.toNat < NUMBER_OF_COMPUTORS

/-- **When every quorum event lists computors only**: for every sequence of calls, whatever their
publishes return, if and only if whenever a vote completes a quorum for its key, all who voted for
the key since it was last pruned are computors. -/
theorem computors_only_iff (calls : List VoteAttempt) :
    (∀ qt ∈ announced {} calls, ComputorsOnly qt) ↔
      ∀ k before p, before ++ [p] <+: recorded calls →
        Completes k (currentStretch k before) p →
        ∀ i ∈ votersOf k (currentStretch k before ++ [p]), i.toNat < NUMBER_OF_COMPUTORS := by
  have hproduced : ∀ {k before p qt}, (producedAt before p = some qt ∧ qt.key = k) ↔
      Completes k (currentStretch k before) p ∧ qt = ⟨k.1, k.2, UInt16.ofNat QUORUM,
        (votersOf k (currentStretch k before ++ [p])).sort (· ≤ ·)⟩ :=
    fun {k before p qt} => (since_run k before).counts.produced_iff p
  -- the calls whose votes are published decide, so the claim is one about their payloads
  rw [announced_eq]
  constructor
  · intro h k before p hprefix hcompletes i hi
    obtain ⟨hqt, -⟩ := hproduced.mpr ⟨hcompletes, rfl⟩
    have honly := h _ (mem_quorumTicks.mpr ⟨before, p, hprefix, hqt⟩)
    exact honly.computors i ((Finset.mem_sort (· ≤ ·)).mpr hi)
  · intro h qt hqt
    obtain ⟨before, p, hprefix, hat⟩ := mem_quorumTicks.mp hqt
    obtain ⟨hcompletes, heq⟩ := hproduced.mp ⟨hat, rfl⟩
    have hvoters : qt.votedComputors
        = (votersOf qt.key (currentStretch qt.key before ++ [p])).sort (· ≤ ·) := by rw [heq]; rfl
    refine { quorum := ?_, distinct := ?_, computors := fun i hi => ?_ }
    · rw [hvoters, Finset.length_sort, hcompletes.2]
    · rw [hvoters]
      exact Finset.sort_nodup _ _
    · rw [hvoters, Finset.mem_sort] at hi
      exact h qt.key before p hprefix hcompletes i hi

/-- The votes of 451 indices from 676 on, which no computor has. -/
def strangers (n : Nat) : List Nat := (List.range n).map (676 + ·)

/-- As many voters as indices, none of them a computor's. -/
theorem card_strangers {n : Nat} (h : n ≤ 451) :
    (votersOf (5, 7) ((strangers n).map sampleVote)).card = n := by
  have hnd : (strangers n).Nodup := List.nodup_range.map (fun i j hij => Nat.add_left_cancel hij)
  rw [card_votersOf_map_sampleVote hnd, strangers, List.length_map, List.length_range]
  intro i hi
  obtain ⟨j, hj, rfl⟩ := List.mem_map.mp hi
  have := List.mem_range.mp hj
  omega

/-- They make a quorum, whose event lists no computor at all. The indices are in range of their type
and above those of the computors, and nothing in the aggregator looks at that. -/
theorem quorum_of_strangers :
    ∃ qt ∈ announced {} (((strangers 451).map sampleVote).map (Prod.mk {})),
      (∀ i ∈ qt.votedComputors, NUMBER_OF_COMPUTORS ≤ i.toNat) ∧ ¬ComputorsOnly qt := by
  have hsplit : (strangers 451).map sampleVote
      = (strangers 450).map sampleVote ++ [sampleVote 1126] := by
    rw [strangers, List.range_succ, List.map_append, List.map_append]
    rfl
  have hkeep : NotPruned (5, 7) ((strangers 450).map sampleVote) :=
    notPruned_of_length (by
      rw [List.length_map, strangers, List.length_map, List.length_range]
      decide)
  have hcompletes : Completes (5, 7) ((strangers 450).map sampleVote) (sampleVote 1126) := by
    unfold Completes
    rw [← hsplit, card_strangers (by decide), card_strangers (Nat.le_refl _)]
    exact ⟨rfl, rfl⟩
  obtain ⟨hproduced, -⟩ := (producedAt_iff hkeep).mpr ⟨hcompletes, rfl⟩
  have hlisted : ∀ i ∈ votersOf (5, 7) ((strangers 451).map sampleVote),
      NUMBER_OF_COMPUTORS ≤ i.toNat := by
    intro i hi
    rw [votersOf_map_sampleVote, List.mem_toFinset] at hi
    obtain ⟨n, hn, rfl⟩ := List.mem_map.mp hi
    obtain ⟨j, hj, rfl⟩ := List.mem_map.mp hn
    have hlt : j < 451 := List.mem_range.mp hj
    rw [UInt16.toNat_ofNat_of_lt' (by show 676 + j < 65536; omega)]
    exact Nat.le_add_right 676 j
  rw [← hsplit] at hproduced
  refine ⟨⟨5, 7, UInt16.ofNat QUORUM,
    (votersOf (5, 7) ((strangers 451).map sampleVote)).sort (· ≤ ·)⟩, ?_,
    fun i hi => hlisted i ((Finset.mem_sort (· ≤ ·)).mp hi), fun h => ?_⟩
  · rw [announced_eq, recorded_map rfl]
    exact mem_quorumTicks.mpr ⟨_, _, hsplit ▸ List.prefix_refl _, hproduced⟩
  · -- a quorum is not empty
    obtain ⟨i, hi⟩ := List.exists_mem_of_length_pos (Nat.lt_of_lt_of_le (by decide) h.quorum)
    have hstranger := hlisted i ((Finset.mem_sort (· ≤ ·)).mp hi)
    exact absurd (h.computors i hi) (Nat.not_lt.mpr hstranger)

end Qonduit

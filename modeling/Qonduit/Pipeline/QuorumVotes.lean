import Qonduit.Pipeline.Routing
import Qonduit.Processor.StreamLog
import Qonduit.Storage.ForwardScans

/-!
# Qonduit — the votes behind a quorum event

A vote leaves the decoder twice: at once on the stream of votes, and later, counted with those of
other computors, in a quorum event. The stored votes of a tick come the first way.

* **`quorumTick_mem`** — the quorum events among the publications are those of the vote packets.
* **`quorums_backed`** — once the votes published before a quorum event are handled, every voter
  it names has a stored vote for its tick, and they are a quorum.
-/

namespace Qonduit

/-- The payloads of the vote packets, in order. -/
def votePayloads (packets : List (UInt16 × Received)) : List Bytes :=
  packets.filterMap (fun packet => if packet.2.1 = 3 then some packet.2.2.2 else none)

/-! ## Published votes and quorums

Only vote packets go through the aggregator. What it announces along a sequence of packets is
therefore what it announces along the payloads of their votes. -/

theorem votePayloads_cons_vote {packet : UInt16 × Received} (h : packet.2.1 = 3)
    (packets : List (UInt16 × Received)) :
    votePayloads (packet :: packets) = packet.2.2.2 :: votePayloads packets :=
  List.filterMap_cons_some (if_pos h)

theorem votePayloads_cons_other {packet : UInt16 × Received} (h : packet.2.1 ≠ 3)
    (packets : List (UInt16 × Received)) :
    votePayloads (packet :: packets) = votePayloads packets :=
  List.filterMap_cons_none (if_neg h)

namespace PacketDecoder

variable {c : Crates}

/-- A vote packet is decoded by the aggregator, and publishes its vote before the quorum it may
complete. -/
theorem decodeAndPublish_vote (d : PacketDecoder) (dejavu : UInt32) (w : Bytes) :
    (d.decodeAndPublish c accept 3 dejavu w).decoder = (d.decodeTickVote {} w).decoder ∧
    (d.decodeAndPublish c accept 3 dejavu w).attempted
      = ((voteOf w).map PublishCall.tickVote).toList
        ++ ((d.decodeTickVote {} w).produced.map PublishCall.quorumTick).toList :=
  ⟨rfl, rfl⟩

/-- Any other packet leaves the votes alone. -/
theorem decoder_of_ne_vote (d : PacketDecoder) {msgType : UInt8} (h : msgType ≠ 3)
    (dejavu : UInt32) (w : Bytes) :
    (d.decodeAndPublish c accept msgType dejavu w).decoder = d := by
  rw [decodeAndPublish, if_neg h]
  cases recordsOf c msgType dejavu w <;> rfl

/-- No other packet publishes a quorum event. -/
theorem quorumTick_not_mem {d : PacketDecoder} {msgType : UInt8} (h : msgType ≠ 3)
    {dejavu : UInt32} {w : Bytes} {qt : QuorumTick} :
    PublishCall.quorumTick qt ∉ (d.decodeAndPublish c accept msgType dejavu w).attempted := by
  intro hmem
  cases decoded_of_attempted hmem
  exact h rfl

/-- What a vote packet publishes first, then the rest. -/
theorem quorumTick_mem_vote {d : PacketDecoder} {dejavu : UInt32} {w : Bytes} {qt : QuorumTick} :
    PublishCall.quorumTick qt ∈ (d.decodeAndPublish c accept 3 dejavu w).attempted ↔
      qt ∈ (d.decodeTickVote {} w).produced.toList := by
  rw [(decodeAndPublish_vote d dejavu w).2, List.mem_append]
  simp

/-- **The quorum events** are those the vote packets produce one after the other. The other packets
leave the aggregator alone, so they can be left out. -/
theorem quorumTick_mem {d : PacketDecoder} {packets : List (UInt16 × Received)}
    {qt : QuorumTick} :
    (∃ epoch, (epoch, PublishCall.quorumTick qt) ∈ d.publications c packets) ↔
      qt ∈ d.quorumTicks (votePayloads packets) := by
  induction packets generalizing d with
  | nil => simp [publications, votePayloads, quorumTicks]
  | cons packet packets ih =>
    obtain ⟨epoch, msgType, dejavu, w⟩ := packet
    have hhead : (∃ e, (e, PublishCall.quorumTick qt)
          ∈ (d.decodeAndPublish c accept msgType dejavu w).attempted.map (Prod.mk epoch)) ↔
        PublishCall.quorumTick qt ∈ (d.decodeAndPublish c accept msgType dejavu w).attempted := by
      simp
    rw [publications]
    simp only [List.mem_append, exists_or]
    rw [hhead, ih]
    by_cases h : msgType = 3
    · subst h
      rw [quorumTick_mem_vote, votePayloads_cons_vote rfl, quorumTicks, List.mem_append]
      rfl
    · rw [votePayloads_cons_other h, decoder_of_ne_vote d h]
      exact or_iff_right (quorumTick_not_mem h)

end PacketDecoder

/-! ## Voters

The voters of an event are counted along the current stretch, which is a part of all payloads. So
each of them has cast a vote that was published before. -/

/-- The current stretch is a part of the payloads. -/
theorem currentStretch_subset (k : VoteKey) (payloads : List Bytes) :
    currentStretch k payloads ⊆ payloads := by
  induction payloads using List.reverseRecOn with
  | nil => exact List.Subset.refl []
  | append_singleton payloads p ih =>
    rw [currentStretch_append]
    by_cases hprune : prunes k payloads p
    · rw [if_pos hprune]
      exact List.nil_subset _
    · rw [if_neg hprune]
      exact List.append_subset.mpr
        ⟨fun q hq => List.mem_append_left _ (ih hq), List.subset_append_right payloads [p]⟩

theorem mem_votersOf {k : VoteKey} {payloads : List Bytes} {i : UInt16} :
    i ∈ votersOf k payloads ↔ ∃ v ∈ votesOf payloads, v.key = k ∧ v.computorIndex = i := by
  simp [votersOf, and_assoc]

/-- The voters a quorum event names, a quorum of them, have all voted for its tick. -/
structure Backed (qt : QuorumTick) (votes : List TickVote) : Prop where
  quorum : QUORUM ≤ qt.votedComputors.length
  distinct : qt.votedComputors.Nodup
  voted : ∀ i ∈ qt.votedComputors, ∃ v ∈ votes, v.key = qt.key ∧ v.computorIndex = i

/-- **Every event of the aggregator is backed by votes**: the computors it names have voted for its
key, each once, and they are as many as a quorum takes. -/
theorem backed_of_mem {payloads : List Bytes} {qt : QuorumTick}
    (h : qt ∈ PacketDecoder.quorumTicks {} payloads) : Backed qt (votesOf payloads) := by
  obtain ⟨before, p, hbefore, hproduced⟩ := mem_quorumTicks.mp h
  obtain ⟨hcompletes, heq⟩ :=
    ((since_run qt.key before).counts.produced_iff p).mp ⟨hproduced, rfl⟩
  have hvoters : qt.votedComputors
      = (votersOf qt.key (currentStretch qt.key before ++ [p])).sort (· ≤ ·) := by
    rw [heq]
    rfl
  refine ⟨?_, ?_, fun i hi => ?_⟩
  · rw [hvoters, Finset.length_sort, hcompletes.2]
  · rw [hvoters]
    exact Finset.sort_nodup _ _
  · rw [hvoters, Finset.mem_sort] at hi
    obtain ⟨v, hv, hvoter⟩ := mem_votersOf.mp hi
    -- the current stretch is a part of what has been recorded
    have hsub : currentStretch qt.key before ++ [p] ⊆ payloads := by
      intro q hq
      refine hbefore.subset ?_
      rcases List.mem_append.mp hq with hq | hq
      · exact List.mem_append_left _ (currentStretch_subset qt.key before hq)
      · exact List.mem_append_right _ hq
    obtain ⟨q, hq, hvote⟩ := List.mem_filterMap.mp hv
    exact ⟨v, List.mem_filterMap.mpr ⟨q, hsub hq, hvote⟩, hvoter⟩

/-! ## Stored votes

A vote is stored under its tick and its computor, so that a further vote of the same computor
replaces it. Replaced or not, there is an entry. -/

section

variable {c : Crates} {j : PublisherJson}

/-- The handler of votes is given every vote. The quorum events go to another stream. -/
theorem inbox_tickvote (n : Nats) (d : PacketDecoder) (packets : List (UInt16 × Received)) :
    inbox n .tickvote (busLog c j (d.publications c packets))
      = (votesOf (votePayloads packets)).map j.tickVote := by
  rw [inbox_publications, votesOf, votePayloads, List.filterMap_filterMap, List.map_filterMap,
    List.filterMap_eq_flatMap_toList]
  refine List.flatMap_congr (fun packet _ => ?_)
  by_cases h : packet.2.1 = 3
  · have hrecords : PacketDecoder.records c packet.2
        = ((voteOf packet.2.2.2).map PublishCall.tickVote).toList := if_pos h
    rw [hrecords, if_pos h]
    cases hv : voteOf packet.2.2.2 with
    | none => simp [hv]
    | some v => simp [hv, PublishCall.stream, PublishCall.payload]
  · rw [if_neg h]
    -- no decoder of another type makes a vote
    have hnone : (PacketDecoder.records c packet.2).filter (fun p => p.stream = some .tickvote)
        = [] := by
      rw [List.filter_eq_nil_iff]
      intro p hp heq
      have heq := of_decide_eq_true heq
      have hdecoded := PacketDecoder.decoded_of_mem_records hp
      generalize packet.2.1 = msgType at h hdecoded
      cases hdecoded with
      | tickVote => exact h rfl
      | _ => cases heq
    rw [hnone]
    rfl

/-- A vote that was handled has an entry under its tick and its voter. -/
theorem mem_votes_of_handled {v : TickVote} {ms : List Message}
    (hpayload : j.tickVote v ∈ ofStream .tickvote ms)
    (hread : (PublishCall.tickVote v).Readable c j) (s : WarmStorage) (pl : PipelineState) :
    ∃ data, (v.computorIndex, data)
      ∈ (Indexer.run c (Indexer.new s pl) ms).storage.getVotesForTick v.tick := by
  obtain ⟨doc, hdoc, htick, hindex⟩ := hread
  have hput : Put.tickVote v.tick v.computorIndex (j.tickVote v)
      ∈ streamLog c .tickvote (ofStream .tickvote ms) := by
    refine List.mem_flatMap.mpr ⟨j.tickVote v, hpayload, ?_⟩
    simp only [Indexer.payloadPuts, hdoc, htick, hindex, List.mem_singleton]
  have hsome : (WriteLog.replay ((streamLog c .tickvote (ofStream .tickvote ms)).map Put.write)
      s.view (.tickVote, v.tick.toBeBytes ++ v.computorIndex.toBeBytes)).isSome :=
    WriteLog.isSome_replay_of_mem (List.mem_map_of_mem hput)
  rw [← Indexer.view_run (show owner .tickVote = some .tickvote from rfl) c s pl ms] at hsome
  obtain ⟨data, hdata⟩ := Option.isSome_iff_exists.mp hsome
  exact ⟨data, ((WarmStorage.getVotesForTick_enumerates _ v.tick).mem_iff _ _).mpr hdata⟩

/-- The votes of the packets can be read back. -/
def VotesReadable (c : Crates) (j : PublisherJson) (packets : List (UInt16 × Received)) : Prop :=
  ∀ v ∈ votesOf (votePayloads packets), (PublishCall.tickVote v).Readable c j

/-- What the store has of a quorum event. -/
structure Stored (s : WarmStorage) (qt : QuorumTick) : Prop where
  voters : ∀ i ∈ qt.votedComputors, ∃ data, (i, data) ∈ s.getVotesForTick qt.tick
  quorum : QUORUM ≤ s.countVotesForTick qt.tick

/-- **Every announced quorum is backed by stored votes.** Once a processor, started over any
database, has handled the votes published up to a quorum event, and whatever else, in any
interleaving, each voter the event names has a stored vote for its tick, and the votes counted
for the tick are a quorum. -/
theorem quorums_backed (n : Nats) {packets : List (UInt16 × Received)}
    (hread : VotesReadable c j packets) {epoch : UInt16} {qt : QuorumTick}
    (hqt : (epoch, PublishCall.quorumTick qt) ∈ PacketDecoder.publications c {} packets)
    {ms : List Message}
    (hhandled : inbox n .tickvote (busLog c j (PacketDecoder.publications c {} packets))
      <+: ofStream .tickvote ms) (s : WarmStorage) (pl : PipelineState) :
    Stored (Indexer.run c (Indexer.new s pl) ms).storage qt := by
  have hbacked := backed_of_mem (PacketDecoder.quorumTick_mem.mp ⟨epoch, hqt⟩)
  rw [inbox_tickvote] at hhandled
  have hvoters : ∀ i ∈ qt.votedComputors, ∃ data,
      (i, data) ∈ (Indexer.run c (Indexer.new s pl) ms).storage.getVotesForTick qt.tick := by
    intro i hi
    obtain ⟨v, hv, hkey, rfl⟩ := hbacked.voted i hi
    have htick : v.tick = qt.tick := (Prod.mk.inj hkey).2
    rw [← htick]
    exact mem_votes_of_handled (hhandled.subset (List.mem_map_of_mem hv)) (hread v hv) s pl
  refine ⟨hvoters, ?_⟩
  -- distinct voters have distinct entries
  have hsub : qt.votedComputors ⊆
      ((Indexer.run c (Indexer.new s pl) ms).storage.getVotesForTick qt.tick).map Prod.fst := by
    intro i hi
    obtain ⟨data, hdata⟩ := hvoters i hi
    exact List.mem_map.mpr ⟨(i, data), hdata, rfl⟩
  have hlength := (List.subperm_of_subset hbacked.distinct hsub).length_le
  rw [List.length_map] at hlength
  rw [(WarmStorage.scansExact _).votes_count qt.tick]
  exact Nat.le_trans hbacked.quorum hlength

end

/-! ## Votes as documents

A codec for votes: it writes the three numbers of a vote and reads back what it has written. -/

def TickVote.json (v : TickVote) : Bytes :=
  jsonObject [("computor_index", jsonNat v.computorIndex.toNat), ("epoch", jsonNat v.epoch.toNat),
    ("tick", jsonNat v.tick.toNat)]

def TickVote.document (v : TickVote) : Value :=
  .object [("computor_index", .number (.posInt v.computorIndex.toUInt64)),
    ("epoch", .number (.posInt v.epoch.toUInt64)), ("tick", .number (.posInt v.tick.toUInt64))]

def TickVote.ofJson (bs : Bytes) : Option TickVote := do
  let bs ← readLit (123 :: jsonKey "computor_index") bs
  let (computorIndex, bs) ← readUInt 16 bs
  let bs ← readLit (44 :: jsonKey "epoch") bs
  let (epoch, bs) ← readUInt 16 bs
  let bs ← readLit (44 :: jsonKey "tick") bs
  let (tick, bs) ← readUInt 32 bs
  let bs ← readLit [125] bs
  if bs = [] then some ⟨UInt16.ofNat computorIndex, UInt16.ofNat epoch, UInt32.ofNat tick⟩
  else none

theorem TickVote.json_eq (v : TickVote) :
    v.json = (123 :: jsonKey "computor_index") ++ (jsonNat v.computorIndex.toNat
      ++ ((44 :: jsonKey "epoch") ++ (jsonNat v.epoch.toNat
      ++ ((44 :: jsonKey "tick") ++ (jsonNat v.tick.toNat ++ ([125] ++ [])))))) := by
  simp [TickVote.json, jsonObject, List.intercalate]

/-- Votes round-trip. -/
theorem TickVote.ofJson_json (v : TickVote) : ofJson v.json = some v := by
  have hcomma : ∀ name rest, NoDigit ((44 :: jsonKey name) ++ rest) :=
    fun name rest => noDigit_cons (by decide) _
  have hclose : NoDigit ([125] ++ []) := noDigit_cons (by decide) _
  rw [TickVote.json_eq, ofJson]
  -- a literal and a value for each of the three fields, then the closing brace
  refine (bind_of_some (readLit_append _ _) _).trans ?_
  refine (bind_of_some (readUInt_jsonNat v.computorIndex.toNat_lt (hcomma _ _)) _).trans ?_
  refine (bind_of_some (readLit_append _ _) _).trans ?_
  refine (bind_of_some (readUInt_jsonNat v.epoch.toNat_lt (hcomma _ _)) _).trans ?_
  refine (bind_of_some (readLit_append _ _) _).trans ?_
  refine (bind_of_some (readUInt_jsonNat v.tick.toNat_lt hclose) _).trans ?_
  refine (bind_of_some (readLit_append _ _) _).trans ?_
  rw [if_pos rfl, UInt16.ofNat_toNat, UInt16.ofNat_toNat, UInt32.ofNat_toNat]

/-- `serde_json` on votes. -/
def readVote (b : Bytes) : Except String Value :=
  match TickVote.ofJson b with
  | some v => .ok v.document
  | none => .error "expected value at line 1 column 1"

def voteCrates : Crates :=
  { Crates.ofKnown {} with serde := { (Crates.ofKnown {}).serde with valueFromSlice := readVote } }

def voteJson : PublisherJson := { PublisherJson.silent with tickVote := TickVote.json }

/-- The values of the sample are read by the reader of votes. -/
theorem serde_voteCrates : voteCrates.serde.valueFromSlice = readVote := rfl

theorem readable_vote (v : TickVote) : (PublishCall.tickVote v).Readable voteCrates voteJson := by
  refine ⟨v.document, ?_, ?_, ?_⟩
  · rw [serde_voteCrates, voteJson, readVote, TickVote.ofJson_json]
  · show v.tick.toUInt64.toUInt32 = v.tick
    exact UInt32.toUInt32_toUInt64 v.tick
  · show v.computorIndex.toUInt64.toUInt16 = v.computorIndex
    exact UInt16.toUInt16_toUInt64 v.computorIndex

/-- The votes of 451 computors for tick 7 of epoch 5 make its quorum event; their messages store
it. -/
theorem quorums_backed_sample :
    let packets : List (UInt16 × Received) := PacketDecoder.sampleVotes.map (fun w => (5, 3, 0, w))
    let payloads := (votesOf PacketDecoder.sampleVotes).map TickVote.json
    ∃ epoch qt,
      (epoch, PublishCall.quorumTick qt) ∈ PacketDecoder.publications voteCrates {} packets ∧
      qt.key = (5, 7) ∧
      Stored (Indexer.run voteCrates (Indexer.new .empty {})
        (payloads.map (Prod.mk .tickvote))).storage qt := by
  intro packets payloads
  have hpayloads : votePayloads packets = PacketDecoder.sampleVotes := by
    show List.filterMap _ (PacketDecoder.sampleVotes.map _) = _
    rw [List.filterMap_map]
    exact List.filterMap_some
  -- too few votes for a prune, so the key is announced once
  have hlength : PacketDecoder.sampleVotes.length < 10000 := by
    rw [PacketDecoder.sampleVotes, List.length_map, List.length_range]
    decide
  have hcount := PacketDecoder.countP_quorumTicks
    (PacketDecoder.notPruned_of_length (k := (5, 7)) hlength)
  rw [PacketDecoder.card_votersOf_sampleVotes, if_pos (show QUORUM ≤ 451 from Nat.le_refl _)]
    at hcount
  obtain ⟨qt, hqt, hkey⟩ := List.countP_pos_iff.mp (Nat.lt_of_lt_of_eq Nat.zero_lt_one hcount.symm)
  obtain ⟨epoch, hpublished⟩ :=
    PacketDecoder.quorumTick_mem.mpr (show qt ∈ PacketDecoder.quorumTicks {} (votePayloads packets)
      from hpayloads.symm ▸ hqt)
  refine ⟨epoch, qt, hpublished, of_decide_eq_true hkey, ?_⟩
  have hread : VotesReadable voteCrates voteJson packets := fun v _ => readable_vote v
  refine quorums_backed .literal hread hpublished ?_ .empty {}
  rw [inbox_tickvote, hpayloads, ofStream_map]
  exact List.prefix_refl _

end Qonduit

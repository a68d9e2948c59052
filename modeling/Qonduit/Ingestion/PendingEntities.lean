import Qonduit.Ingestion.Client

/-!
# Qonduit — the bound on pending entities

`read_loop` remembers the source and the destination of every transaction and asks the node for
them, ten at a time. While fewer than `MAX_PENDING_ENTITIES` identities are pending both are
inserted, so that the second may come on top of the bound.

* **`pending_step_cases`** — what an event does to the pending set.
* **`pending_bounded_iff`** — the runs that respect the bound.
* **`pending_at_most_one_over`** — no run exceeds it by more than one.
* **`pending_exceeds_bound`** — a run that exceeds it.
-/

namespace Qonduit

namespace IngestionClient

/-- A transaction of two identities that are both new comes when there is room for one. -/
structure Overfills (client : IngestionClient) (packet : Received) : Prop where
  room : client.pendingEntities.card + 1 = MAX_PENDING_ENTITIES
  transaction : packet.1 = 24 ∧ 64 ≤ packet.2.2.length
  source : keyOf (packet.2.2.take 32) ∉ client.pendingEntities
  destination : keyOf ((packet.2.2.drop 32).take 32) ∉ client.pendingEntities
  distinct : keyOf (packet.2.2.take 32) ≠ keyOf ((packet.2.2.drop 32).take 32)

theorem pendingEntities_updateTick (client : IngestionClient) (payload : Bytes) :
    (client.updateTick payload).pendingEntities = client.pendingEntities := by
  unfold updateTick
  dsimp only
  split
  · rfl
  · rfl

/-- Only a transaction, and only where there is room, adds to the pending set. It adds both of its
parties after one look at the size. -/
theorem pendingEntities_handlePacket (client : IngestionClient) (packet : Received) :
    (client.handlePacket packet).pendingEntities =
      if (packet.1 = 24 ∧ 64 ≤ packet.2.2.length) ∧
          client.pendingEntities.card < MAX_PENDING_ENTITIES then
        insert (keyOf ((packet.2.2.drop 32).take 32))
          (insert (keyOf (packet.2.2.take 32)) client.pendingEntities)
      else client.pendingEntities := by
  rcases packet with ⟨msgType, dejavu, payload⟩
  show (if msgType = 28 ∧ payload.length ≥ 8 then client.updateTick payload
    else if msgType = 32 then client
    else if msgType = 24 ∧ payload.length ≥ 64 then client.rememberEntities payload
    else client).pendingEntities = _
  -- the types in the order in which the source tests them
  by_cases htick : msgType = 28 ∧ payload.length ≥ 8
  · rw [if_pos htick, pendingEntities_updateTick, if_neg]
    rintro ⟨⟨htx, -⟩, -⟩
    rw [show msgType = 24 from htx] at htick
    exact absurd htick.1 (by decide)
  · rw [if_neg htick]
    by_cases hentity : msgType = 32
    · rw [if_pos hentity, if_neg]
      rintro ⟨⟨htx, -⟩, -⟩
      rw [show msgType = 24 from htx] at hentity
      exact absurd hentity (by decide)
    · rw [if_neg hentity]
      by_cases htx : msgType = 24 ∧ payload.length ≥ 64
      · rw [if_pos htx, rememberEntities]
        by_cases hroom : client.pendingEntities.card < MAX_PENDING_ENTITIES
        · rw [if_pos hroom, if_pos ⟨htx, hroom⟩]
        · rw [if_neg hroom, if_neg (fun h => hroom h.2)]
      · rw [if_neg htx, if_neg (fun h => htx h.1)]

/-- **One packet** keeps a set within the bound there, unless it overfills it: a transaction between
two new identities at 499 of them. At 500 nothing is added any more. -/
theorem card_handlePacket_iff {client : IngestionClient}
    (h : client.pendingEntities.card ≤ MAX_PENDING_ENTITIES) (packet : Received) :
    (client.handlePacket packet).pendingEntities.card ≤ MAX_PENDING_ENTITIES ↔
      ¬client.Overfills packet := by
  rw [pendingEntities_handlePacket]
  split
  · next hadd =>
    -- how many of the two identities are new decides
    by_cases hsource : keyOf (packet.2.2.take 32) ∈ client.pendingEntities
    · rw [Finset.insert_eq_of_mem hsource]
      have hle := Finset.card_insert_le (keyOf ((packet.2.2.drop 32).take 32))
        client.pendingEntities
      exact iff_of_true (by omega) (fun hover => hover.source hsource)
    · have hone := Finset.card_insert_of_notMem hsource
      by_cases hdestination : keyOf ((packet.2.2.drop 32).take 32) ∈
          insert (keyOf (packet.2.2.take 32)) client.pendingEntities
      · rw [Finset.insert_eq_of_mem hdestination]
        refine iff_of_true (by omega) (fun hover => ?_)
        rcases Finset.mem_insert.mp hdestination with heq | hmem
        · exact hover.distinct heq.symm
        · exact hover.destination hmem
      · rw [Finset.card_insert_of_notMem hdestination, hone]
        rw [Finset.mem_insert, not_or] at hdestination
        constructor
        · intro hle hover
          have := hover.room
          omega
        · intro hover
          by_contra hgt
          exact hover ⟨by omega, hadd.1, hsource, hdestination.2, Ne.symm hdestination.1⟩
  · next hkept =>
    refine iff_of_true h (fun hover => hkept ⟨hover.transaction, ?_⟩)
    have := hover.room
    omega

/-- A packet never takes the set further than one over the bound. -/
theorem card_handlePacket_le {client : IngestionClient}
    (h : client.pendingEntities.card ≤ MAX_PENDING_ENTITIES + 1) (packet : Received) :
    (client.handlePacket packet).pendingEntities.card ≤ MAX_PENDING_ENTITIES + 1 := by
  rw [pendingEntities_handlePacket]
  split
  · next hadd =>
    have hsource := Finset.card_insert_le (keyOf (packet.2.2.take 32)) client.pendingEntities
    have hdestination := Finset.card_insert_le (keyOf ((packet.2.2.drop 32).take 32))
      (insert (keyOf (packet.2.2.take 32)) client.pendingEntities)
    omega
  · exact h

end IngestionClient

namespace ReadLoop

/-- An event that brings no packet adds nothing to the pending set. -/
theorem pending_step_cases {s s' : ReadLoop} {ev : LoopEvent} (h : s.step ev = some s') :
    (s.receives ev = none ∧ s'.client.pendingEntities ⊆ s.client.pendingEntities) ∨
    ∃ packet, s.receives ev = some packet ∧ s'.client = s.client.handlePacket packet := by
  cases (step_cases h).2 with
  | moves hnone _ _ _ _ hclient => exact .inl ⟨hnone, hclient ▸ Finset.Subset.refl _⟩
  | handles packet _ hsome _ _ _ _ _ hclient => exact .inr ⟨packet, hsome, hclient⟩
  | drops batch hnone _ _ _ _ hclient => exact .inl ⟨hnone, hclient ▸ Finset.sdiff_subset⟩
  | ends hnone _ _ _ hclient => exact .inl ⟨hnone, hclient ▸ Finset.Subset.refl _⟩

/-- At most `MAX_PENDING_ENTITIES` identities are pending. -/
def PendingBounded (s : ReadLoop) : Prop := s.client.pendingEntities.card ≤ MAX_PENDING_ENTITIES

/-- The event does not bring a packet that overfills the pending set. -/
def Spares (s : ReadLoop) (ev : LoopEvent) : Prop :=
  ∀ packet, s.receives ev = some packet → ¬s.client.Overfills packet

/-- **When one event keeps the bound.** -/
theorem pendingBounded_step_iff {s : ReadLoop} {ev : LoopEvent} {s' : ReadLoop}
    (h : s.PendingBounded) (hstep : s.step ev = some s') : s'.PendingBounded ↔ s.Spares ev := by
  rcases pending_step_cases hstep with ⟨hnone, hsub⟩ | ⟨packet, hsome, hclient⟩
  · refine iff_of_true (Nat.le_trans (Finset.card_le_card hsub) h) (fun packet hsome => ?_)
    rw [hnone] at hsome
    cases hsome
  · rw [PendingBounded, hclient, IngestionClient.card_handlePacket_iff h, Spares, hsome]
    constructor
    · intro hover packet' hpacket
      cases hpacket
      exact hover
    · intro hspares
      exact hspares packet rfl

/-- **When the bound is respected.** For every node and every sequence of chunks, packets and
timers, from an empty pending set: at most `MAX_PENDING_ENTITIES` identities are pending in every
state the loop passes through, if and only if no packet overfills the set. -/
theorem pending_bounded_iff (client : IngestionClient) (stream : Bytes) (evs : List LoopEvent) :
    (∀ p, p <+: evs → ∀ s,
      runEvents (enter { client with pendingEntities := ∅ } stream) p = some s →
        s.PendingBounded) ↔
      GuardedRun.Guarded step Spares (enter { client with pendingEntities := ∅ } stream) evs :=
  GuardedRun.forall_reached_iff pendingBounded_step_iff (Nat.zero_le _)

/-- Whatever arrives, the set is at most one over the bound. -/
theorem pending_at_most_one_over (client : IngestionClient) (stream : Bytes)
    (evs : List LoopEvent) {s : ReadLoop}
    (hrun : runEvents (enter { client with pendingEntities := ∅ } stream) evs = some s) :
    s.client.pendingEntities.card ≤ MAX_PENDING_ENTITIES + 1 := by
  have hstep : ∀ {s : ReadLoop} {ev : LoopEvent} {s' : ReadLoop},
      s.client.pendingEntities.card ≤ MAX_PENDING_ENTITIES + 1 → s.step ev = some s' →
        s'.client.pendingEntities.card ≤ MAX_PENDING_ENTITIES + 1 := by
    intro s ev s' h hstep
    rcases pending_step_cases hstep with ⟨-, hsub⟩ | ⟨packet, -, hclient⟩
    · exact Nat.le_trans (Finset.card_le_card hsub) h
    · rw [hclient]
      exact IngestionClient.card_handlePacket_le h packet
  exact GuardedRun.run_induction hstep (Nat.zero_le _) hrun

/-! ## A run over the bound

A set with 499 identities has room for one more, and a transaction between two new ones then makes
it 501. The run that does it delivers its packets in one chunk. -/

/-- Packets that have arrived are handled one poll at a time. The induction is on the packets that
are left in the socket, and the future is back at its start after each. -/
theorem runEvents_polls {s : ReadLoop} (hrunning : s.finished = false) (hfuture : s.future = .start)
    {sent : List Packet} (hsocket : s.socket = sent.flatMap Packet.encode) :
    ∃ s', s.runEvents (List.replicate sent.length .poll) = some s' ∧
      s'.client = (sent.map Packet.received).foldl IngestionClient.handlePacket s.client := by
  induction sent generalizing s with
  | nil => exact ⟨s, rfl, rfl⟩
  | cons p sent ih =>
    rw [List.flatMap_cons] at hsocket
    have hfront := recognises.exact p (sent.flatMap Packet.encode)
    have hpoll : s.future.poll s.socket = (.ready p.received, sent.flatMap Packet.encode) := by
      rcases s.future.poll_spec s.socket with ⟨packet, left, hread, hpoll⟩ | ⟨future, hcons, -⟩
      · rw [hfuture, hsocket] at hread
        rw [show ReadPacket.start.consumed = [] from rfl, List.nil_append, hfront] at hread
        cases hread
        exact hpoll
      · -- a future that is pending holds no packet
        have hnone := future.readPacket_consumed
        rw [hcons, hfuture, hsocket] at hnone
        rw [show ReadPacket.start.consumed = [] from rfl, List.nil_append, hfront] at hnone
        cases hnone
    have hstep : s.step .poll
        = some (handle { s with socket := sent.flatMap Packet.encode } p.received) := by
      rw [step, if_neg (by rw [hrunning]; exact Bool.false_ne_true), hpoll]
    obtain ⟨s', hrun, hclient⟩ := ih (s := handle { s with socket := sent.flatMap Packet.encode }
      p.received) hrunning rfl rfl
    refine ⟨s', ?_, hclient⟩
    rw [List.length_cons, List.replicate_succ, runEvents, GuardedRun.run_cons _ hstep]
    exact hrun

/-- The packets of a node arrive at once and are handled before any timer fires. -/
def deliver (sent : List Packet) : List LoopEvent :=
  .arrive (sent.flatMap Packet.encode).length :: List.replicate sent.length .poll

/-- A loop that is not disturbed handles all packets sent, in order. -/
theorem runEvents_deliver (client : IngestionClient) (sent : List Packet) :
    ∃ s, runEvents (enter client (sent.flatMap Packet.encode)) (deliver sent) = some s ∧
      s.client = (sent.map Packet.received).foldl IngestionClient.handlePacket client := by
  have harrive : (enter client (sent.flatMap Packet.encode)).step
      (.arrive (sent.flatMap Packet.encode).length)
        = some { enter client [] with socket := sent.flatMap Packet.encode } := by
    generalize sent.flatMap Packet.encode = stream
    show (if stream.length ≤ stream.length then
      some { enter client (stream.drop stream.length) with
        socket := [] ++ stream.take stream.length } else none) = _
    rw [if_pos (Nat.le_refl _), List.drop_length, List.take_length, List.nil_append]
  rw [deliver, runEvents, GuardedRun.run_cons _ harrive]
  exact runEvents_polls rfl rfl rfl

/-- The identity of a number. -/
def numberKey (n : Nat) : Key32 := keyOf (Positional.leBytes 32 n)

/-- A transaction packet between two numbered identities. -/
def transferPacket (a b : Nat) : Packet where
  msgType := 24
  dejavu := 0
  payload := Positional.leBytes 32 a ++ Positional.leBytes 32 b
  fits := by simp

/-- One transfer of 0 to itself, then from 1 to 2, from 3 to 4 and so on. -/
def sampleTransfers (n : Nat) : List Packet :=
  (List.range n).map fun k => transferPacket (2 * k - 1) (2 * k)

/-- The identities of the sample are numbers, in 32 bytes each. -/
theorem toList_numberKey (n : Nat) : (numberKey n).toList = Positional.leBytes 32 n :=
  toList_keyOf (by simp)

/-- Different numbers are different identities. -/
theorem numberKey_injOn {m n : Nat} (hm : m < 256 ^ 32) (hn : n < 256 ^ 32)
    (h : numberKey m = numberKey n) : m = n := by
  have hbytes := congrArg List.Vector.toList h
  rw [toList_numberKey, toList_numberKey] at hbytes
  rw [← Positional.ofLe_leBytes_of_lt hm, hbytes, Positional.ofLe_leBytes_of_lt hn]

/-- A transfer adds its two parties while there is room. -/
theorem pendingEntities_transfer {client : IngestionClient}
    (h : client.pendingEntities.card < MAX_PENDING_ENTITIES) (a b : Nat) :
    (client.handlePacket (transferPacket a b).received).pendingEntities
      = insert (numberKey b) (insert (numberKey a) client.pendingEntities) := by
  have hlen : 64 ≤ (transferPacket a b).payload.length := by simp [transferPacket]
  have hsource : (transferPacket a b).payload.take 32 = Positional.leBytes 32 a :=
    List.take_left' (by simp)
  have hdestination : ((transferPacket a b).payload.drop 32).take 32 = Positional.leBytes 32 b := by
    rw [transferPacket, List.drop_left' (by simp), List.take_of_length_le (by simp)]
  rw [IngestionClient.pendingEntities_handlePacket, if_pos ⟨⟨rfl, hlen⟩, h⟩]
  show insert (keyOf (((transferPacket a b).payload.drop 32).take 32))
    (insert (keyOf ((transferPacket a b).payload.take 32)) _) = _
  rw [hsource, hdestination]
  rfl

/-- The identities of the first transfers: one of the first, two of each later one. The transfers
are numbered so that no identity occurs in two of them. -/
theorem pendingEntities_transfers {n : Nat} (h : n ≤ 251) :
    (((sampleTransfers n).map Packet.received).foldl
      IngestionClient.handlePacket {}).pendingEntities
      = (Finset.range (2 * n - 1)).image numberKey := by
  induction n with
  | zero => rfl
  | succ n ih =>
    have hprev := ih (by omega)
    -- before the last of them there is room
    have hcard : ((Finset.range (2 * n - 1)).image numberKey).card < MAX_PENDING_ENTITIES := by
      have hle := Finset.card_image_le (s := Finset.range (2 * n - 1)) (f := numberKey)
      rw [Finset.card_range] at hle
      have : MAX_PENDING_ENTITIES = 500 := rfl
      omega
    rw [sampleTransfers, List.range_succ, List.map_append, List.map_append, List.foldl_append]
    show (IngestionClient.handlePacket (((sampleTransfers n).map Packet.received).foldl
      IngestionClient.handlePacket {})
      (transferPacket (2 * n - 1) (2 * n)).received).pendingEntities = _
    rw [pendingEntities_transfer (by rw [hprev]; exact hcard), hprev]
    cases n with
    | zero => rfl
    | succ n =>
      have htwo : 2 * (n + 1 + 1) - 1 = 2 * (n + 1) - 1 + 1 + 1 := by omega
      have hnext : 2 * (n + 1) = 2 * (n + 1) - 1 + 1 := by omega
      rw [htwo, Finset.range_add_one, Finset.range_add_one, Finset.image_insert,
        Finset.image_insert, ← hnext]

/-- After 251 transfers there is one identity too many. -/
theorem card_transfers :
    (((sampleTransfers 251).map Packet.received).foldl IngestionClient.handlePacket
      {}).pendingEntities.card = 501 := by
  rw [pendingEntities_transfers (Nat.le_refl _), Finset.card_image_of_injOn, Finset.card_range]
  intro m hm n hn heq
  rw [Finset.mem_coe, Finset.mem_range] at hm hn
  exact numberKey_injOn (by omega) (by omega) heq

/-- A node sends 251 transfers, one of an identity to itself and the others between new ones: the
loop handles them before the entity timer fires, and 501 identities are pending. -/
theorem pending_exceeds_bound :
    ∃ s, runEvents (enter {} ((sampleTransfers 251).flatMap Packet.encode))
        (deliver (sampleTransfers 251)) = some s ∧
      s.client.pendingEntities.card = 501 ∧ ¬s.PendingBounded := by
  obtain ⟨s, hrun, hclient⟩ := runEvents_deliver {} (sampleTransfers 251)
  have hcard : s.client.pendingEntities.card = 501 := by
    rw [hclient]
    exact card_transfers
  refine ⟨s, hrun, hcard, ?_⟩
  rw [PendingBounded, hcard]
  decide

end ReadLoop

end Qonduit

import Qonduit.Core.Structs
import Qonduit.Ingestion.Protocol
import Qonduit.Lib.GuardedRun
import Mathlib.Data.Finset.Card

/-!
# Qonduit — the live read loop

`client.rs`: `read_loop` races `read_packet` against four timers in one `select!`. The branch
that is ready first runs; the futures of the others are dropped and made anew in the next turn.
A dropped `read_packet` takes with it the bytes it has already read.

The node's bytes are first in flight, then in the socket, then in the future of `read_packet`.
An event is the arrival of a chunk, a poll of `read_packet`, or a branch that wins.

* **`step`** — one event; `runEvents` — a sequence of them.
* **`step_cases`** — what an event can do.
* **`framed_step_iff`** — the framing survives every event, except a timer that interrupts a
  future holding bytes.
* **`framing_kept_iff`** — over a run, exactly the runs without such an interruption keep it.
-/

namespace Qonduit

def MAX_PENDING_ENTITIES : Nat := 500

def ENTITY_BATCH_SIZE : Nat := 10

/-- What the read loop keeps in the client. -/
structure IngestionClient where
  currentEpoch : UInt16 := 0
  currentTick : UInt32 := 0
  pendingEntities : Finset Key32 := ∅
  pipeline : PipelineState := {}

namespace IngestionClient

/-- A `CurrentTickInfo` response: tick duration, epoch and tick. -/
def updateTick (client : IngestionClient) (payload : Bytes) : IngestionClient :=
  let epoch := UInt16.fromLeBytes ((payload.drop 2).take 2)
  let tick := UInt32.fromLeBytes ((payload.drop 4).take 4)
  if epoch ≠ client.currentEpoch ∨ tick ≠ client.currentTick then
    { client with
      currentEpoch := epoch
      currentTick := tick
      pipeline := { client.pipeline with
        nodeTick := max client.pipeline.nodeTick tick
        nodeEpoch := max client.pipeline.nodeEpoch epoch } }
  else client

/-- The source and destination of a transaction are remembered while there is room. -/
def rememberEntities (client : IngestionClient) (payload : Bytes) : IngestionClient :=
  if client.pendingEntities.card < MAX_PENDING_ENTITIES then
    { client with
      pendingEntities := insert (keyOf ((payload.drop 32).take 32))
        (insert (keyOf (payload.take 32)) client.pendingEntities) }
  else client

/-- What the loop does with a packet, apart from handing it to the decoder: a tick response is
handled inline and not decoded. -/
def handlePacket (client : IngestionClient) (packet : Received) : IngestionClient :=
  let (msgType, _, payload) := packet
  if msgType = 28 ∧ payload.length ≥ 8 then client.updateTick payload
  -- an entity response goes to the decoder only
  else if msgType = 32 then client
  else if msgType = 24 ∧ payload.length ≥ 64 then client.rememberEntities payload
  else client

end IngestionClient

/-- The loop between two events. -/
structure ReadLoop where
  client : IngestionClient
  /-- Bytes of the node that have not reached the socket. -/
  inFlight : Bytes
  /-- Bytes that have arrived and have not been read. -/
  socket : Bytes := []
  /-- The `read_packet` future of the current turn. -/
  future : ReadPacket := .start
  packetsSinceLastStats : UInt64 := 0
  /-- The packets handled so far. -/
  handled : List Received := []
  /-- The loop has returned. -/
  finished : Bool := false

/-- What can happen next. -/
inductive LoopEvent where
  /-- A chunk of the given length reaches the socket. -/
  | arrive (n : Nat)
  /-- The `read_packet` branch is polled. -/
  | poll
  /-- The read fails: the connection was closed or reset. -/
  | readError
  /-- The tick request timer wins; `sent` is false when sending the request fails. -/
  | tickTimer (sent : Bool)
  /-- The entity request timer wins; the batch is what iterating over the hash set yields first. -/
  | entityTimer (batch : Finset Key32)
  /-- The statistics timer wins; `silent` when the node has not broadcast for too long. -/
  | statsTimer (silent : Bool)
  | rotationTimer

namespace ReadLoop

def enter (client : IngestionClient) (stream : Bytes) : ReadLoop := { client, inFlight := stream }

def handle (s : ReadLoop) (packet : Received) : ReadLoop :=
  { s with
    client := s.client.handlePacket packet
    future := .start
    packetsSinceLastStats := s.packetsSinceLastStats + 1
    handled := s.handled ++ [packet] }

/-- The effect of an event, where it can happen. -/
def step (s : ReadLoop) (ev : LoopEvent) : Option ReadLoop :=
  if s.finished then none
  else
    match ev with
    | .arrive n =>
      if n ≤ s.inFlight.length then
        some { s with inFlight := s.inFlight.drop n, socket := s.socket ++ s.inFlight.take n }
      else none
    | .poll =>
      match s.future.poll s.socket with
      | (.ready packet, left) => some (handle { s with socket := left } packet)
      | (.pending future, left) => some { s with socket := left, future }
    | .readError => some { s with future := .start, finished := true }
    | .tickTimer sent => some { s with future := .start, finished := !sent }
    | .entityTimer batch =>
      if batch ⊆ s.client.pendingEntities ∧
          batch.card = min ENTITY_BATCH_SIZE s.client.pendingEntities.card then
        some { s with
          future := .start
          client := { s.client with pendingEntities := s.client.pendingEntities \ batch } }
      else none
    | .statsTimer silent =>
      if silent ∧ s.packetsSinceLastStats > 0 then
        some { s with future := .start, finished := true }
      else some { s with future := .start, packetsSinceLastStats := 0 }
    | .rotationTimer => some { s with future := .start, finished := true }

/-- The packet an event hands to the loop: the one at the front of what has been read. -/
def receives (s : ReadLoop) : LoopEvent → Option Received
  | .poll => (readPacket (s.future.consumed ++ s.socket)).map Prod.fst
  | _ => none

def runEvents (s : ReadLoop) (evs : List LoopEvent) : Option ReadLoop := evs.foldlM step s

/-- The event is a timer that wins the turn, and the loop goes on to the next one. -/
def interrupts (s : ReadLoop) : LoopEvent → Bool
  | .tickTimer sent => sent
  | .entityTimer _ => true
  | .statsTimer silent => !decide (silent ∧ s.packetsSinceLastStats > 0)
  | _ => false

/-- No timer of the run interrupts a `read_packet` that holds bytes. -/
def Undisturbed : ReadLoop → List LoopEvent → Prop
  | _, [] => True
  | s, ev :: evs => ∀ s', s.step ev = some s' →
    (s.interrupts ev → s.future.consumed = []) ∧ Undisturbed s' evs

/-! ## Framing

The node's stream is in three places at a time: what the future has read, what waits in the socket,
and what has not arrived. Put together they have to begin where a packet begins, and every event is
looked at for whether it leaves them so. -/

/-- The bytes the loop has not handled yet, wherever they are. -/
def ahead (s : ReadLoop) : Bytes := s.future.consumed ++ s.socket ++ s.inFlight

/-- The packets handled are the first of those sent and, as long as the loop runs, the bytes
ahead are the others. -/
def Framed (sent : List Packet) (s : ReadLoop) : Prop :=
  s.handled <+: sent.map Packet.received ∧
    (s.finished = false →
      Framing.Framed Packet.encode Packet.received sent s.handled s.ahead)

/-- All an event can do: move bytes along, handle the packet at the front, drop what the future
holds and go on, or end the loop. A timer that goes on may take a batch of identities away. -/
inductive StepCases (s : ReadLoop) (ev : LoopEvent) (s' : ReadLoop) : Prop
  | moves (receives : s.receives ev = none) (interrupts : s.interrupts ev = false)
      (finished : s'.finished = false) (handled : s'.handled = s.handled)
      (ahead : s'.ahead = s.ahead) (client : s'.client = s.client)
  | handles (packet : Received) (left : Bytes) (receives : s.receives ev = some packet)
      (interrupts : s.interrupts ev = false) (finished : s'.finished = false)
      (read : readPacket (s.future.consumed ++ s.socket) = some (packet, left))
      (handled : s'.handled = s.handled ++ [packet]) (ahead : s'.ahead = left ++ s.inFlight)
      (client : s'.client = s.client.handlePacket packet)
  | drops (batch : Finset Key32) (receives : s.receives ev = none)
      (interrupts : s.interrupts ev = true) (finished : s'.finished = false)
      (handled : s'.handled = s.handled) (ahead : s'.ahead = s.socket ++ s.inFlight)
      (client : s'.client
        = { s.client with pendingEntities := s.client.pendingEntities \ batch })
  | ends (receives : s.receives ev = none) (interrupts : s.interrupts ev = false)
      (finished : s'.finished = true) (handled : s'.handled = s.handled)
      (client : s'.client = s.client)

/-- **One event** of a loop that runs. It moves bytes on, completes a packet, drops the pending
read, or ends the loop. In each case it is said what becomes of the future, the socket and the
packets handled. -/
theorem step_cases {s s' : ReadLoop} {ev : LoopEvent} (h : s.step ev = some s') :
    s.finished = false ∧ s.StepCases ev s' := by
  have hnone : s.client = { s.client with pendingEntities := s.client.pendingEntities \ ∅ } := by
    rw [Finset.sdiff_empty]
  unfold step at h
  split at h
  · cases h
  · next hrunning =>
    have hrun : s.finished = false := Bool.eq_false_iff.mpr hrunning
    refine ⟨hrun, ?_⟩
    cases ev with
    | arrive n =>
      dsimp only at h
      split at h
      · cases h
        refine .moves rfl rfl hrun rfl ?_ rfl
        simp [ahead, List.append_assoc]
      · cases h
    | poll =>
      dsimp only at h
      rcases s.future.poll_spec s.socket with ⟨packet, left, hread, hpoll⟩ | ⟨future, hcons, hpoll⟩
      · rw [hpoll] at h
        cases h
        refine .handles packet left ?_ rfl hrun hread rfl rfl rfl
        rw [receives, hread]
        rfl
      · rw [hpoll] at h
        cases h
        refine .moves ?_ rfl hrun rfl ?_ rfl
        · -- a future that is pending holds no packet
          rw [receives, ← hcons, future.readPacket_consumed]
          rfl
        · simp [ahead, hcons]
    | readError =>
      cases h
      exact .ends rfl rfl rfl rfl rfl
    | tickTimer sent =>
      cases h
      cases sent with
      | true => exact .drops ∅ rfl rfl rfl rfl rfl hnone
      | false => exact .ends rfl rfl rfl rfl rfl
    | entityTimer batch =>
      dsimp only at h
      split at h
      · cases h
        exact .drops batch rfl rfl hrun rfl rfl rfl
      · cases h
    | statsTimer silent =>
      -- a silent node is left, with any other the loop goes on
      dsimp only at h
      split at h
      · next hsilent =>
        cases h
        exact .ends rfl (by simp only [interrupts, hsilent]; rfl) rfl rfl rfl
      · next hsilent =>
        cases h
        exact .drops ∅ rfl (by simp only [interrupts, hsilent]; rfl) hrun rfl rfl hnone
    | rotationTimer =>
      cases h
      exact .ends rfl rfl rfl rfl rfl

/-- **When one event keeps the framing**: exactly when it drops nothing between two turns. A turn
that is interrupted by a timer drops the future, and with it what the future has read. -/
theorem framed_step_iff {sent : List Packet} {s s' : ReadLoop} {ev : LoopEvent}
    (h : Framed sent s) (hstep : s.step ev = some s') :
    Framed sent s' ↔ (s.interrupts ev → s.future.consumed = []) := by
  obtain ⟨hrun, hcases⟩ := step_cases hstep
  have hahead := h.2 hrun
  cases hcases with
  -- the bytes ahead move on, and stay the same
  | moves _ hev _ hhandled hsame _ =>
    rw [Framed, hhandled, hsame, hev]
    simpa using ⟨h.1, fun _ => hahead⟩
  | handles packet left _ hev _ hread hhandled hleft _ =>
    -- whatever is complete at the front of the bytes is the next packet sent
    have hnext := hahead.read_frame recognises hread
    rw [Framed, hhandled, hleft, hev]
    simpa using ⟨hnext.isPrefix, fun _ => hnext⟩
  | drops _ _ hev hrun' hhandled hdrop _ =>
    rw [Framed, hhandled, hdrop]
    constructor
    · -- the bytes ahead determine what is still to come, so none can be missing
      intro h' _
      have hsame : s.future.consumed ++ (s.socket ++ s.inFlight) = s.socket ++ s.inFlight := by
        rw [← List.append_assoc]
        exact hahead.ahead_eq (h'.2 hrun')
      exact List.append_left_eq_self.mp hsame
    · intro hquiet
      rw [ahead, hquiet hev] at hahead
      exact ⟨h.1, fun _ => hahead⟩
  -- nothing is owed behind the end of the loop
  | ends _ hev hend hhandled _ =>
    rw [Framed, hhandled, hend, hev]
    simpa using h.1

/-- The condition of `framed_step_iff`, all along a run. -/
theorem undisturbed_iff (s : ReadLoop) (evs : List LoopEvent) :
    Undisturbed s evs ↔
      GuardedRun.Guarded step (fun s ev => s.interrupts ev → s.future.consumed = []) s evs := by
  induction evs generalizing s with
  | nil => exact Iff.rfl
  | cons ev evs ih =>
    refine forall_congr' fun s' => imp_congr_right fun _ => ?_
    exact and_congr_right fun _ => ih s'

/-- A loop begins with the whole stream ahead of it. -/
theorem framed_enter (client : IngestionClient) (sent : List Packet) :
    Framed sent (enter client (sent.flatMap Packet.encode)) :=
  ⟨List.nil_prefix, fun _ => Framing.framed_start _ _ sent⟩

/-- **When the live reader keeps its framing.** For every sequence of packets a node sends, every
chunking and every interleaving: in every state the run reaches, the packets handled are the
first of those sent and, while the loop runs, no byte of the others is lost, if and only if no
timer interrupts a pending read that holds bytes. -/
theorem framing_kept_iff (client : IngestionClient) (sent : List Packet) (evs : List LoopEvent) :
    (∀ p, p <+: evs → ∀ s,
      runEvents (enter client (sent.flatMap Packet.encode)) p = some s → Framed sent s)
      ↔ Undisturbed (enter client (sent.flatMap Packet.encode)) evs := by
  rw [undisturbed_iff]
  exact GuardedRun.forall_reached_iff framed_step_iff (framed_enter client sent)

def samplePacket : Packet where
  msgType := 24
  dejavu := 0x05000008
  payload := [1, 2, 3, 4]
  fits := by decide

/-- Its first four bytes arrive and are read, the tick request timer fires, the rest arrives: the
loop takes the dejavu for a header and handles a packet that was never sent. -/
theorem timer_breaks_framing :
    ∃ s, runEvents (enter {} ([samplePacket].flatMap Packet.encode))
        [.arrive 4, .poll, .tickTimer true, .arrive 8, .poll] = some s
      ∧ s.handled = [(5, 0x04030201, [])]
      ∧ ¬ s.handled <+: [samplePacket].map Packet.received := by
  have hrun : (runEvents (enter {} ([samplePacket].flatMap Packet.encode))
      [.arrive 4, .poll, .tickTimer true, .arrive 8, .poll]).map ReadLoop.handled
        = some [(5, 0x04030201, [])] := by decide +kernel
  obtain ⟨s, hs, hhandled⟩ := Option.map_eq_some_iff.mp hrun
  refine ⟨s, hs, hhandled, ?_⟩
  rw [hhandled]
  decide

end ReadLoop

end Qonduit

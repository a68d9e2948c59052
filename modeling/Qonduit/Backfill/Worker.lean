import Qonduit.Backfill.Window

/-!
# Qonduit — a backfill worker over its connections

`backfill.rs`: `BackfillWorker::run` and `connect_and_process`. A worker opens connection after
connection until one of them returns `Ok`. The cursor of a connection reaches `current_tick` only
then; a connection that ends in an error leaves `current_tick` as it was, and the next one starts
over.

* **`worker_starts_over`** — every connection of a run starts at `worker_start`.
* **`backfill_resumes`** — a run that never opens a connection once it has completed a tick, and
  whose cursors never wrap around, repeats no work.
* **`backfill_repeats`** — a run that does, does.
-/

namespace Qonduit

/-- Maximum number of peers to try per worker connection cycle. -/
def MAX_PEERS_PER_WORKER : Nat := 8

/-- One turn of the loop of `connect_and_process`: there is no peer, the peer cannot be reached
(or the handshake fails), or a session runs. -/
inductive Attempt where
  | noPeers
  | unreachable
  | connected (link : Link) (epoch : UInt16) (pipeline : PipelineState) (incoming : List Incoming)

/-- The locals of `run` and `connect_and_process`, and the sessions so far. A run is over when it
has returned or panicked; it is also over, for the attempts it has not reached, while its last
session is still reading. -/
structure WorkerRun where
  currentTick : UInt32
  attempts : Nat := 0
  sessions : List Session := []
  isOver : Bool

def WorkerRun.log (w : WorkerRun) : List Effect := w.sessions.flatMap Session.log

/-- The worker's contribution to `ticks_completed`. -/
def WorkerRun.ticksCompleted (w : WorkerRun) : Nat := (w.sessions.map Session.ticksCompleted).sum

/-- After the last peer of a cycle `run` waits and begins another. -/
def WorkerRun.failedAttempt (w : WorkerRun) : WorkerRun :=
  { w with attempts := if w.attempts + 1 < MAX_PEERS_PER_WORKER then w.attempts + 1 else 0 }

/-- The outcome of `try_peer`. -/
def WorkerRun.tried (w : WorkerRun) (s : Session) : WorkerRun :=
  let w := { w with sessions := w.sessions ++ [s] }
  match s.ended with
  | some (.ok currentTick) => { w with currentTick, isOver := true }
  | some (.error (.err _)) => w.failedAttempt
  | some (.error (.panic _)) => { w with isOver := true }
  | none => { w with isOver := true }

section Run

variable (c : Crates) (workerStart workerEnd : UInt32)

def attemptTurn (w : WorkerRun) : Attempt → WorkerRun
  | .noPeers => if w.isOver then w else { w with attempts := 0 }
  | .unreachable => if w.isOver then w else w.failedAttempt
  | .connected link epoch pipeline incoming =>
    if w.isOver then w
    else w.tried (tryPeer c link epoch workerEnd w.currentTick pipeline incoming)

/-- `BackfillWorker::run` after the given attempts. -/
def runWorker (attempts : List Attempt) : WorkerRun :=
  attempts.foldl (attemptTurn c workerEnd)
    { currentTick := workerStart, isOver := ¬workerStart < workerEnd }

end Run

section Results

variable {c : Crates} {workerStart workerEnd : UInt32}

theorem runWorker_concat (attempts : List Attempt) (a : Attempt) :
    runWorker c workerStart workerEnd (attempts ++ [a])
      = attemptTurn c workerEnd (runWorker c workerStart workerEnd attempts) a :=
  List.foldl_concat ..

/-- **What an attempt does**: nothing to the sessions and the cursor, or one more session from the
cursor. -/
theorem attemptTurn_cases (c : Crates) (workerEnd : UInt32) (w : WorkerRun) (a : Attempt) :
    (∃ attempts, attemptTurn c workerEnd w a = { w with attempts }) ∨
    ∃ link epoch pipeline incoming, a = .connected link epoch pipeline incoming ∧
      w.isOver = false ∧ attemptTurn c workerEnd w a
        = w.tried (tryPeer c link epoch workerEnd w.currentTick pipeline incoming) := by
  by_cases hover : w.isOver = true
  · -- a run that is over stays as it is
    refine Or.inl ⟨w.attempts, ?_⟩
    cases a with
    | noPeers => exact if_pos hover
    | unreachable => exact if_pos hover
    | connected link epoch pipeline incoming => exact if_pos hover
  · cases a with
    | noPeers => exact Or.inl ⟨0, if_neg hover⟩
    | unreachable => exact Or.inl ⟨_, if_neg hover⟩
    | connected link epoch pipeline incoming =>
      exact Or.inr ⟨link, epoch, pipeline, incoming, rfl, eq_false_of_ne_true hover,
        if_neg hover⟩

/-- A session that was tried is recorded, however it ended. -/
theorem tried_sessions (w : WorkerRun) (s : Session) :
    (w.tried s).sessions = w.sessions ++ [s] := by
  unfold WorkerRun.tried
  split
  · rfl
  · rfl
  · rfl
  · rfl

/-- A session that lets the run go on leaves the cursor where it was. -/
theorem tried_currentTick {w : WorkerRun} {s : Session} (h : (w.tried s).isOver = false) :
    (w.tried s).currentTick = w.currentTick := by
  unfold WorkerRun.tried at h ⊢
  split at h
  · cases h
  · simp only [WorkerRun.failedAttempt]
  · cases h
  · cases h

/-- **Every connection starts over**: until the run is over its cursor has not moved. Only an `Ok`
moves it, and that ends the run. -/
theorem worker_starts_over (attempts : List Attempt)
    (h : (runWorker c workerStart workerEnd attempts).isOver = false) :
    (runWorker c workerStart workerEnd attempts).currentTick = workerStart ∧
      workerStart < workerEnd := by
  induction attempts using List.reverseRecOn with
  | nil => exact ⟨rfl, by simpa [runWorker] using h⟩
  | append_singleton attempts a ih =>
    rw [runWorker_concat] at h ⊢
    generalize runWorker c workerStart workerEnd attempts = w at h ih ⊢
    rcases attemptTurn_cases c workerEnd w a with
      ⟨n, hsame⟩ | ⟨link, epoch, pipeline, incoming, -, hover, htried⟩
    · rw [hsame] at h ⊢
      exact ih h
    · rw [htried] at h ⊢
      rw [tried_currentTick h]
      exact ih hover

/-- No connection is opened once the worker has completed a tick. -/
def OpensFresh (c : Crates) (workerStart workerEnd : UInt32) (attempts : List Attempt) : Prop :=
  ∀ before link epoch pipeline incoming after,
    attempts = before ++ .connected link epoch pipeline incoming :: after →
    (runWorker c workerStart workerEnd before).isOver = false →
    (runWorker c workerStart workerEnd before).ticksCompleted = 0

/-- No read of a connection finds it where one more failed request makes its cursor wrap
around. -/
def NeverWraps (c : Crates) (workerStart workerEnd : UInt32) (attempts : List Attempt) : Prop :=
  ∀ before link epoch pipeline incoming after,
    attempts = before ++ .connected link epoch pipeline incoming :: after →
    (runWorker c workerStart workerEnd before).isOver = false →
    ∀ reads i later, incoming = reads ++ i :: later →
      (tryPeer c link epoch workerEnd (runWorker c workerStart workerEnd before).currentTick
        pipeline reads).RefusalFits workerEnd

/-- The session an attempt of a run opens keeps the window of the whole range. -/
theorem tryPeer_window {attempts before after : List Attempt} {link : Link} {epoch : UInt16}
    {pipeline : PipelineState} {incoming : List Incoming}
    (hwraps : NeverWraps c workerStart workerEnd attempts)
    (heq : attempts = before ++ .connected link epoch pipeline incoming :: after)
    (hover : (runWorker c workerStart workerEnd before).isOver = false) :
    Window workerStart workerEnd
      (tryPeer c link epoch workerEnd workerStart pipeline incoming) := by
  obtain ⟨hcurrent, hlt⟩ := worker_starts_over before hover
  have hreads := hwraps before link epoch pipeline incoming after heq hover
  rw [hcurrent] at hreads
  exact (tryPeer_sound (UInt32.le_of_lt hlt) pipeline incoming
    (fun reads i later hincoming _ => hreads reads i later hincoming)).window

/-- Leaving out the last attempt changes nothing for those before it. -/
theorem OpensFresh.of_append {attempts : List Attempt} {a : Attempt}
    (h : OpensFresh c workerStart workerEnd (attempts ++ [a])) :
    OpensFresh c workerStart workerEnd attempts := by
  intro before link epoch pipeline incoming after heq
  exact h before link epoch pipeline incoming (after ++ [a]) (by simp [heq])

/-- Leaving out the last attempt changes nothing for those before it. -/
theorem NeverWraps.of_append {attempts : List Attempt} {a : Attempt}
    (h : NeverWraps c workerStart workerEnd (attempts ++ [a])) :
    NeverWraps c workerStart workerEnd attempts := by
  intro before link epoch pipeline incoming after heq
  exact h before link epoch pipeline incoming (after ++ [a]) (by simp [heq])

/-- Up to `u32::MAX - FAILURE_SKIP_MAX` no run wraps. -/
theorem neverWraps_of_le (hmax : workerEnd ≤ 4294967295 - 1000000) (attempts : List Attempt) :
    NeverWraps c workerStart workerEnd attempts := by
  intro before link epoch pipeline incoming after _ hover reads i later _
  obtain ⟨hcurrent, hlt⟩ := worker_starts_over before hover
  rw [hcurrent]
  exact (tryPeer_sound (UInt32.le_of_lt hlt) pipeline reads
    (fun _ _ _ _ hsound => hsound.window.refusalFits hmax)).window.refusalFits hmax

/-- Every session of a run keeps the window of the whole range, as each begins at its start. -/
theorem sessions_window {attempts : List Attempt}
    (hwraps : NeverWraps c workerStart workerEnd attempts) :
    ∀ s ∈ (runWorker c workerStart workerEnd attempts).sessions,
      Window workerStart workerEnd s := by
  induction attempts using List.reverseRecOn with
  | nil => exact nofun
  | append_singleton attempts a ih =>
    rw [runWorker_concat]
    rcases attemptTurn_cases c workerEnd (runWorker c workerStart workerEnd attempts) a with
      ⟨n, hsame⟩ | ⟨link, epoch, pipeline, incoming, rfl, hover, htried⟩
    · rw [hsame]
      exact ih hwraps.of_append
    · rw [htried, tried_sessions, (worker_starts_over attempts hover).1]
      intro s hs
      rcases List.mem_append.mp hs with hold | hnew
      · exact ih hwraps.of_append s hold
      · rw [List.mem_singleton.mp hnew]
        exact tryPeer_window hwraps rfl hover

/-- Where nothing was counted as completed, nothing in the log is. -/
theorem not_completed_of_zero {w : WorkerRun}
    (hwindow : ∀ s ∈ w.sessions, Window workerStart workerEnd s) (hzero : w.ticksCompleted = 0)
    (t : UInt32) (p : Option Publication) : Effect.completed t p ∉ w.log := by
  intro hmem
  obtain ⟨s, hs, hlog⟩ := List.mem_flatMap.mp hmem
  have hpos : 0 < (completions s.log).length :=
    List.length_pos_of_mem (mem_completions.mpr hlog : (t, p) ∈ completions s.log)
  have hnone : s.ticksCompleted = 0 :=
    List.sum_eq_zero_iff_forall_eq_nat.mp hzero _ (List.mem_map_of_mem hs)
  rw [(hwindow s hs).completed, hnone] at hpos
  exact Nat.lt_irrefl 0 hpos

/-- **Backfill resumes without repeating work, when no connection is opened after a completed tick**
and no cursor wraps: then no tick is requested after an answer to it, and the worker completes at
most as many ticks as it has. The induction goes over the attempts. -/
theorem backfill_resumes (attempts : List Attempt)
    (hfresh : OpensFresh c workerStart workerEnd attempts)
    (hwraps : NeverWraps c workerStart workerEnd attempts) :
    NoRepeat (runWorker c workerStart workerEnd attempts).log ∧
    (runWorker c workerStart workerEnd attempts).ticksCompleted
      ≤ workerEnd.toNat - workerStart.toNat := by
  induction attempts using List.reverseRecOn with
  | nil => exact ⟨List.Pairwise.nil, Nat.zero_le _⟩
  | append_singleton attempts a ih =>
    obtain ⟨hnoRepeat, hbound⟩ := ih hfresh.of_append hwraps.of_append
    rcases attemptTurn_cases c workerEnd (runWorker c workerStart workerEnd attempts) a with
      ⟨n, hsame⟩ | ⟨link, epoch, pipeline, incoming, rfl, hover, htried⟩
    · rw [runWorker_concat, hsame]
      exact ⟨hnoRepeat, hbound⟩
    · -- the sessions before this one completed nothing, so only this one counts
      have hzero := hfresh attempts link epoch pipeline incoming [] rfl hover
      have hnone := not_completed_of_zero (sessions_window hwraps.of_append) hzero
      have hwindow := tryPeer_window hwraps rfl hover
      obtain ⟨hcurrent, hlt⟩ := worker_starts_over attempts hover
      rw [runWorker_concat, htried, hcurrent]
      generalize tryPeer c link epoch workerEnd workerStart pipeline incoming = s at hwindow
      generalize runWorker c workerStart workerEnd attempts = w at hnoRepeat hzero hnone
      constructor
      · rw [WorkerRun.log, tried_sessions, List.flatMap_append, List.flatMap_singleton]
        refine List.pairwise_append.mpr ⟨hnoRepeat, hwindow.noRepeat, fun e he e' _ => ?_⟩
        -- an effect of an earlier session, followed by one of this session
        cases e with
        | completed t p => exact absurd he (hnone t p)
        | requested t => rfl
        | skipped lo hi => rfl
        | refused t => rfl
      · have hcompleted : (w.tried s).ticksCompleted = w.ticksCompleted + s.ticksCompleted := by
          simp [WorkerRun.ticksCompleted, tried_sessions]
        have h₁ := hwindow.room
        have h₂ := hwindow.span
        have h₃ : s.nextTickToRequest.toNat ≤ workerEnd.toNat := hwindow.le_end
        omega

end Results

/-- A refused connection, then one that answers: nothing is lost or repeated. -/
theorem backfill_resumes_sample :
    let attempts : List Attempt :=
      [.connected (.counting 7) 5 {} [.packet 35 7 [] (.ok ()), .timeout],
       .connected (.counting 9) 5 {} [.packet 8 9 (tickPayload 3) (.ok ())]]
    OpensFresh (.ofKnown {}) 3 5 attempts ∧
      NoRepeat (runWorker (.ofKnown {}) 3 5 attempts).log ∧
      (runWorker (.ofKnown {}) 3 5 attempts).ticksCompleted ≤ 2 := by
  intro attempts
  have hfresh : OpensFresh (.ofKnown {}) 3 5 attempts := by
    intro before link epoch pipeline incoming after heq _
    rcases before with _ | ⟨a, _ | ⟨b, rest⟩⟩
    · rfl
    · obtain ⟨rfl, -⟩ := List.cons.inj heq
      decide +kernel
    · simp [attempts] at heq
  exact ⟨hfresh, backfill_resumes attempts hfresh (neverWraps_of_le (by decide) attempts)⟩

/-- A connection that breaks after one answer: its tick is requested, received and published
again, and a worker with two ticks counts three as completed. -/
theorem backfill_repeats :
    let w := runWorker (.ofKnown {}) 3 5
      [.connected (.counting 7) 5 {} [.packet 8 7 (tickPayload 3) (.ok ()), .readError "reset"],
       .connected (.counting 9) 5 {}
        [.packet 8 9 (tickPayload 3) (.ok ()), .packet 8 10 (tickPayload 4) (.ok ())]]
    (completions w.log).all (fun a => a.2.isSome) ∧ ¬NoRepeat w.log ∧ w.ticksCompleted = 3 := by
  decide +kernel

end Qonduit

import Mathlib.Data.List.MinMax
import Qonduit.Backfill.Partition
import Qonduit.Backfill.Worker
import Qonduit.Ingestion.Handshake
import Qonduit.Ingestion.PeerRanking

/-!
# Qonduit — a run of the backfill

`BackfillClient::run` (`backfill.rs`) from entry to return: peers, end tick, start tick, and the
two phases of the workers. The answers of the discovery API and of the peers, the clock, the cached
epoch ranges and what the workers count are input.

* **`run`** — the body, and the two flags that say that a backfill is running.
* **`resolveEndTick_ok_iff`** — the tick of the first peer that answers, of at most eight.
* **`startTick_lt_iff`** — when there is something to do.
* **`flags_cleared_iff`** — the runs that clear both flags.
-/

namespace Qonduit

structure BackfillConfig where
  nodeAddr : Option SocketAddr := none
  bootstrapAddrs : List SocketAddr := []
  workers : Nat := 4
  startTick : UInt32 := 0
  endTick : UInt32 := 0

structure BackfillCounters where
  ticksCompleted : UInt64 := 0
  txsDiscovered : UInt64 := 0
  ticksDiscovered : UInt64 := 0
  ticksFailed : UInt64 := 0
  deriving DecidableEq

structure BackfillShared where
  running : Bool := false
  counters : BackfillCounters := {}
  startTick : UInt32 := 0
  endTick : UInt32 := 0
  deriving DecidableEq

/-- The fields of `PipelineState` about the backfill. -/
structure BackfillProgress where
  backfillRunning : Bool := false
  counters : BackfillCounters := {}
  startTick : UInt32 := 0
  endTick : UInt32 := 0
  deriving DecidableEq

/-- What is decided outside during a run. -/
structure BackfillInputs where
  /-- The answer of the discovery API. -/
  response : Option RandomPeersResponse := none
  /-- The peers asked for their tick. -/
  attempts : List PeerAttempt := []
  /-- The cached epoch ranges. -/
  ranges : List EpochRange := []
  /-- The counters once the workers of these ranges have ended, if they all do. -/
  tickPhase : List (UInt32 × UInt32) → Option BackfillCounters
  txPhase : List (UInt32 × UInt32) → Option BackfillCounters

namespace BackfillClient

/-! ## The end tick

Without a configured end tick the bootstrap peers are asked one after another. A peer that fails is
marked, so that the next choice may fall on another one, and after `MAX_PEERS_PER_WORKER` of them
the run gives up. -/

/-- Nothing while the peer still has to answer. -/
def tryResolveFromPeer (a : PeerAttempt) : Option (Outcome UInt32) :=
  match a.dial with
  | .failed cause => some (bail s!"TCP connect failed: {cause}")
  | .timedOut => some (bail "TCP connect timed out")
  | .connected =>
    match (exchangePublicPeers noPeers a.draw a.link a.reads).waited with
    | .waiting => none
    | .returned (.error fault) _ => some (.error fault)
    | .returned (.ok _) _ =>
      match (requestCurrentTickInfo a.tickDraw a.tickLink a.tickReads).waited with
      | .waiting => none
      | .returned (.error fault) _ => some (.error fault)
      | .returned (.ok data) _ =>
        if data.length ≥ 8 then some (.ok (UInt32.fromLeBytes ((data.drop 4).take 4)))
        else some (bail s!"CurrentTickInfo response too short: {data.length} bytes")

def resolveEndTick (m : PeerManager) (attempts : Nat) :
    List PeerAttempt → Option (Outcome UInt32)
  | [] =>
    if attempts < MAX_PEERS_PER_WORKER then none
    else some (bail s!"Failed to resolve end tick after {attempts} peer attempts")
  | a :: rest =>
    if attempts < MAX_PEERS_PER_WORKER then
      match m.bestPeer a.now a.pick with
      | none => some (bail "No peers available to resolve end tick")
      | some addr =>
        match tryResolveFromPeer a with
        | none => none
        | some (.ok tick) => some (.ok tick)
        | some (.error _) => resolveEndTick (m.markFailure a.markedAt addr) (attempts + 1) rest
    else some (bail s!"Failed to resolve end tick after {attempts} peer attempts")

/-- The tick a peer gives. -/
def tickOf (a : PeerAttempt) : Option UInt32 :=
  match tryResolveFromPeer a with
  | some (.ok tick) => some tick
  | _ => none

/-- A peer gives a tick if it answers with one. -/
theorem tickOf_eq_some_iff {a : PeerAttempt} {tick : UInt32} :
    tickOf a = some tick ↔ tryResolveFromPeer a = some (.ok tick) := by
  unfold tickOf
  cases tryResolveFromPeer a with
  | none => exact iff_of_false nofun nofun
  | some answer =>
    cases answer with
    | ok first =>
      exact ⟨fun h => congrArg (some ∘ Except.ok) (Option.some.inj h),
        fun h => congrArg some (Except.ok.inj (Option.some.inj h))⟩
    | error fault => exact iff_of_false nofun nofun

/-- **The end tick** is that of the first peer to give one, of those still to be tried. The
induction goes over the attempts; a failed one marks its peer, and the list of peers stays. -/
theorem resolveEndTick_ok_iff {m : PeerManager} {k : Nat} {attempts : List PeerAttempt}
    {outcome : Outcome UInt32} (h : resolveEndTick m k attempts = some outcome) {tick : UInt32} :
    outcome = .ok tick ↔ m.peers ≠ [] ∧
      (attempts.take (MAX_PEERS_PER_WORKER - k)).findSome? tickOf = some tick := by
  induction attempts generalizing m k with
  | nil =>
    rw [List.take_nil]
    rw [resolveEndTick] at h
    split at h
    · exact nomatch h
    · rw [← Option.some.inj h]
      exact iff_of_false nofun (fun hx => nomatch hx.2)
  | cons a rest ih =>
    rw [resolveEndTick] at h
    by_cases hmore : k < MAX_PEERS_PER_WORKER
    · have hroom : MAX_PEERS_PER_WORKER - k = MAX_PEERS_PER_WORKER - (k + 1) + 1 := by omega
      rw [if_pos hmore] at h
      -- one of the peers still to be tried is this one
      rw [hroom, List.take_succ_cons, List.findSome?_cons]
      cases hbest : m.bestPeer a.now a.pick with
      | none =>
        rw [hbest] at h
        rw [← Option.some.inj h]
        exact iff_of_false nofun (fun hx => hx.1 (PeerManager.bestPeer_eq_none_iff.mp hbest))
      | some addr =>
        have hpeers : m.peers ≠ [] := by
          rw [← PeerManager.bestPeer_eq_none_iff.ne, hbest]
          exact nofun
        rw [hbest] at h
        dsimp only at h
        rw [and_iff_right hpeers]
        -- it gives its tick, or the next one is asked; marking it removes no peer
        cases htry : tryResolveFromPeer a with
        | none =>
          rw [htry] at h
          exact nomatch h
        | some answer =>
          rw [htry] at h
          cases answer with
          | ok first =>
            rw [← Option.some.inj h, tickOf_eq_some_iff.mpr htry]
            exact ⟨fun hok => congrArg some (Except.ok.inj hok),
              fun hsome => congrArg Except.ok (Option.some.inj hsome)⟩
          | error fault =>
            have htick : tickOf a = none := by rw [tickOf, htry]
            rw [ih h, htick, and_iff_right (mt PeerManager.peers_markFailure_eq_nil_iff.mp hpeers)]
    · rw [if_neg hmore] at h
      rw [← Option.some.inj h, Nat.sub_eq_zero_of_le (Nat.not_lt.mp hmore), List.take_zero]
      exact iff_of_false nofun (fun hx => nomatch hx.2)

/-! ## The start tick

Without a configured start tick the run goes back to the beginning of the epoch that the end tick
falls into. Where no cached epoch has begun by then, it goes back by two million ticks, unless the
end tick is a small one. -/

/-- `max_by_key` keeps the last of several. -/
def currentRange (ranges : List EpochRange) (endTick : UInt32) : Option EpochRange :=
  (ranges.filter (endTick ≥ ·.firstTick)).reverse.argmax (·.firstTick.toNat)

def resolveStartTick (configured : UInt32) (ranges : List EpochRange) (endTick : UInt32) : UInt32 :=
  if configured = 0 then
    match currentRange ranges endTick with
    | some range => range.firstTick
    | none => if endTick > 100000 then endTick.saturatingSub 2000000 else configured
  else configured

/-- There is something to do below an end tick. -/
def Pending (configured : UInt32) (ranges : List EpochRange) (endTick : UInt32) : Prop :=
  if configured = 0 then endTick ≠ 0 ∧ ∀ r ∈ ranges, r.firstTick ≠ endTick
  else configured < endTick

/-- There is no current range only if every epoch begins after the end. -/
theorem of_currentRange_eq_none {ranges : List EpochRange} {endTick : UInt32}
    (h : currentRange ranges endTick = none) : ∀ r ∈ ranges, endTick < r.firstTick := by
  have hnil := List.reverse_eq_nil_iff.mp (List.argmax_eq_none.mp h)
  intro r hr
  have hnot := List.filter_eq_nil_iff.mp hnil r hr
  rw [decide_eq_true_iff] at hnot
  exact UInt32.not_le.mp hnot

/-- The current range begins last of those that begin at or before the end. -/
theorem of_currentRange_eq_some {ranges : List EpochRange} {endTick : UInt32} {range : EpochRange}
    (h : currentRange ranges endTick = some range) :
    range ∈ ranges ∧ range.firstTick ≤ endTick ∧
      ∀ r ∈ ranges, r.firstTick ≤ endTick → r.firstTick ≤ range.firstTick := by
  have hmem := List.mem_filter.mp (List.mem_reverse.mp (List.argmax_mem h))
  refine ⟨hmem.1, of_decide_eq_true hmem.2, fun r hr hle => ?_⟩
  have hr : r ∈ (ranges.filter (endTick ≥ ·.firstTick)).reverse :=
    List.mem_reverse.mpr (List.mem_filter.mpr ⟨hr, decide_eq_true hle⟩)
  exact List.le_of_mem_argmax (f := fun r : EpochRange => r.firstTick.toNat) hr h

/-- Taking something from a number that is not zero makes it smaller, also where it stops at
zero. -/
theorem saturatingSub_lt {m n : UInt32} (hm : 0 < m.toNat) (hn : 0 < n.toNat) :
    m.saturatingSub n < m := by
  rw [UInt32.lt_iff_toNat_lt, UInt32.toNat_saturatingSub]
  omega

/-- **Something to do**: the configured start lies below the end, or, where none is configured, no
cached epoch begins right at the end and the end is not zero. -/
theorem startTick_lt_iff (configured : UInt32) (ranges : List EpochRange) (endTick : UInt32) :
    resolveStartTick configured ranges endTick < endTick ↔ Pending configured ranges endTick := by
  have hpos : endTick ≠ 0 ↔ 0 < endTick.toNat := by
    rw [← UInt32.toNat_inj.ne, UInt32.toNat_zero, Nat.pos_iff_ne_zero]
  unfold resolveStartTick Pending
  by_cases hzero : configured = 0
  · rw [if_pos hzero, if_pos hzero]
    cases hrange : currentRange ranges endTick with
    | none =>
      have hlater := of_currentRange_eq_none hrange
      have hranges : ∀ r ∈ ranges, r.firstTick ≠ endTick := fun r hr =>
        (UInt32.ne_of_lt (hlater r hr)).symm
      rw [and_iff_left hranges, hpos]
      show (if endTick > 100000 then endTick.saturatingSub 2000000 else configured) < endTick ↔ _
      split
      · rename_i hlarge
        have hend : 0 < endTick.toNat := Nat.zero_lt_of_lt (UInt32.lt_iff_toNat_lt.mp hlarge)
        exact iff_of_true (saturatingSub_lt hend (by decide)) hend
      · rw [hzero]
        exact UInt32.lt_iff_toNat_lt
    | some range =>
      -- the range that begins last starts the run; it is empty if it begins right at the end
      rcases of_currentRange_eq_some hrange with ⟨hmem, hle, hlast⟩
      refine ⟨fun hlt => ⟨?_, fun r hr heq => ?_⟩, fun h => ?_⟩
      · rw [hpos]
        exact Nat.zero_lt_of_lt (UInt32.lt_iff_toNat_lt.mp hlt)
      · have hreach := hlast r hr (UInt32.le_of_eq heq)
        rw [heq] at hreach
        exact UInt32.not_lt.mpr hreach hlt
      · exact UInt32.lt_of_le_of_ne hle (h.2 range hmem)
  · rw [if_neg hzero, if_neg hzero]

/-! ## The run -/

/-- With the explicit node behind the others. -/
def bootstrapAddrs (config : BackfillConfig) : List SocketAddr :=
  match config.nodeAddr with
  | some addr =>
    if addr ∈ config.bootstrapAddrs then config.bootstrapAddrs
    else config.bootstrapAddrs ++ [addr]
  | none => config.bootstrapAddrs

section Run

variable (config : BackfillConfig) (inputs : BackfillInputs)

/-- The peers known when the run asks for its end tick. -/
def bootstrapPeers : PeerManager :=
  (PeerManager.new (bootstrapAddrs config)).bootstrapFromApi inputs.response

/-- Phase 2, if phase 1 found ticks. -/
def fetchTransactions (startTick endTick : UInt32) (counters : BackfillCounters) :
    Option BackfillCounters :=
  let ticksDone := counters.ticksDiscovered.toNat
  if ticksDone > 0 then inputs.txPhase (txRanges startTick endTick config.workers ticksDone)
  else some counters

/-- The run behind the early exits. -/
def runWorkers (startTick endTick : UInt32) (shared : BackfillShared)
    (pipeline : BackfillProgress) : Option (Outcome Unit × BackfillShared × BackfillProgress) := do
  let shared := { shared with startTick, endTick }
  let pipeline := { pipeline with startTick, endTick }
  let counters ← inputs.tickPhase (tickRanges startTick endTick config.workers)
  let counters ← fetchTransactions config inputs startTick endTick counters
  return (.ok (), { shared with running := false, counters },
    { pipeline with backfillRunning := false, counters })

/-- Nothing while the run has not returned. -/
def run (shared : BackfillShared) (pipeline : BackfillProgress) :
    Option (Outcome Unit × BackfillShared × BackfillProgress) :=
  let shared := { shared with running := true }
  let pipeline := { pipeline with backfillRunning := true }
  let endTick :=
    if config.endTick = 0 then resolveEndTick (bootstrapPeers config inputs) 0 inputs.attempts
    else some (.ok config.endTick)
  match endTick with
  | none => none
  | some (.error fault) => some (.error fault, shared, pipeline)
  | some (.ok endTick) =>
    let startTick := resolveStartTick config.startTick inputs.ranges endTick
    if startTick ≥ endTick then some (.ok (), { shared with running := false }, pipeline)
    else runWorkers config inputs startTick endTick shared pipeline

/-- The configured end tick, or the first that a known peer gives. -/
def endTick? : Option UInt32 :=
  if config.endTick = 0 then
    if (bootstrapPeers config inputs).peers = [] then none
    else (inputs.attempts.take MAX_PEERS_PER_WORKER).findSome? tickOf
  else some config.endTick

/-- The run has an end tick, and there is something to do below it. -/
def HasWork : Prop :=
  ∃ endTick, endTick? config inputs = some endTick ∧
    Pending config.startTick inputs.ranges endTick

end Run

/-! ## The flags on return

Both flags are set when the run starts. The early exit for an empty range clears the one of the
shared state only, and the exit for want of an end tick clears none. -/

section Flags

variable {config : BackfillConfig} {inputs : BackfillInputs}
  {shared shared' : BackfillShared} {pipeline pipeline' : BackfillProgress}
  {outcome : Outcome Unit}

/-- The end tick of the run, as its two sources give it. -/
theorem endTick?_eq_some_iff {answer : Outcome UInt32} {tick : UInt32}
    (h : (if config.endTick = 0 then
        resolveEndTick (bootstrapPeers config inputs) 0 inputs.attempts
      else some (.ok config.endTick)) = some answer) :
    endTick? config inputs = some tick ↔ answer = .ok tick := by
  unfold endTick?
  by_cases hzero : config.endTick = 0
  · rw [if_pos hzero] at h
    rw [if_pos hzero, resolveEndTick_ok_iff h]
    by_cases hpeers : (bootstrapPeers config inputs).peers = []
    · rw [if_pos hpeers]
      exact iff_of_false nofun (fun hx => hx.1 hpeers)
    · rw [if_neg hpeers, and_iff_right hpeers]
      rfl
  · rw [if_neg hzero] at h
    rw [if_neg hzero, ← Option.some.inj h]
    exact ⟨fun heq => congrArg Except.ok (Option.some.inj heq),
      fun heq => congrArg some (Except.ok.inj heq)⟩

/-- Behind the early exits both flags are cleared. -/
theorem flags_runWorkers {startTick endTick : UInt32}
    (h : runWorkers config inputs startTick endTick shared pipeline
      = some (outcome, shared', pipeline')) :
    shared'.running = false ∧ pipeline'.backfillRunning = false := by
  rcases Option.bind_eq_some_iff.mp h with ⟨counters, -, h⟩
  rcases Option.bind_eq_some_iff.mp h with ⟨counters', -, h⟩
  cases h
  exact ⟨rfl, rfl⟩

/-- **The flags on return.** Whatever the configuration, the cached ranges, the peers and the
workers, a run that returns has cleared both flags if and only if it had work to do. -/
theorem flags_cleared_iff
    (h : run config inputs shared pipeline = some (outcome, shared', pipeline')) :
    shared'.running = false ∧ pipeline'.backfillRunning = false ↔ HasWork config inputs := by
  unfold run at h
  dsimp only at h
  generalize hend : (if config.endTick = 0 then
      resolveEndTick (bootstrapPeers config inputs) 0 inputs.attempts
    else some (.ok config.endTick)) = answer at h
  -- the run waits for a peer, fails for want of an end tick, or has one
  cases answer with
  | none => exact nomatch h
  | some answer =>
    cases answer with
    | error fault =>
      cases h
      refine iff_of_false (fun hflags => nomatch hflags.1) (fun hwork => ?_)
      rcases hwork with ⟨endTick, hsome, -⟩
      exact nomatch (endTick?_eq_some_iff hend).mp hsome
    | ok endTick =>
      have hwork : HasWork config inputs ↔
          Pending config.startTick inputs.ranges endTick := by
        refine ⟨fun hx => ?_, fun hx => ⟨endTick, (endTick?_eq_some_iff hend).mpr rfl, hx⟩⟩
        rcases hx with ⟨endTick', hsome, hpending⟩
        rw [Except.ok.inj ((endTick?_eq_some_iff hend).mp hsome)]
        exact hpending
      rw [hwork, ← startTick_lt_iff]
      dsimp only at h
      split at h
      · -- the empty range leaves the flag of the pipeline set
        rename_i hge
        cases h
        exact iff_of_false (fun hflags => nomatch hflags.2) (UInt32.not_lt.mpr hge)
      · rename_i hlt
        exact iff_of_true (flags_runWorkers h) (UInt32.not_le.mp hlt)

end Flags

/-! ## Runs that return

The early exits are taken here by two small configurations, and the workers are reached by a
third. -/

/-- A peer that answers nothing, and workers that find nothing. -/
def idleInputs : BackfillInputs where
  attempts := [Connecting.silentAttempt .timeout]
  tickPhase _ := some {}
  txPhase _ := some {}

theorem flags_cleared_sample :
    let shared : BackfillShared := { startTick := 5, endTick := 9 }
    let pipeline : BackfillProgress := { startTick := 5, endTick := 9 }
    run { startTick := 5, endTick := 9 } idleInputs {} {} = some (.ok (), shared, pipeline) ∧
      HasWork { startTick := 5, endTick := 9 } idleInputs :=
  have hrun : run { startTick := 5, endTick := 9 } idleInputs {} {}
    = some (.ok (), { startTick := 5, endTick := 9 }, { startTick := 5, endTick := 9 }) := rfl
  ⟨hrun, (flags_cleared_iff hrun).mp ⟨rfl, rfl⟩⟩

/-- The two flags a run returns with. -/
def flagsOnReturn (config : BackfillConfig) : Option (Bool × Bool) :=
  (run config idleInputs {} {}).map fun r => (r.2.1.running, r.2.2.backfillRunning)

/-- A run whose range is empty leaves the flag of the pipeline set, and one without a peer to ask
for the end tick leaves both. -/
theorem early_return_keeps_flags :
    flagsOnReturn { startTick := 9, endTick := 9 } = some (false, true) ∧
    flagsOnReturn {} = some (true, true) := by
  refine ⟨by decide, by decide⟩

end BackfillClient

end Qonduit

import Qonduit.Ingestion.RecordDecoders

/-!
# Qonduit — one backfill connection

`backfill.rs`: `BackfillWorker::try_peer` behind its handshake. The connection keeps a window of
type 16 requests in flight: `fill_pipeline` sends requests while there is room, and the read loop
takes packets that answer one of them, count it and refill the window. What the node and the
transport decide (packets, read errors, timeouts, random draws, failing sends and publishes) is
input.

* **`fillPipeline_eq`** — `fill_pipeline` is the `while` loop of the source.
* A session keeps a log of what it did, in order: the requests it sent, the ranges it skipped, the
  answers it counted as completed ticks and those it counted as failures in a row.
-/

namespace Qonduit

/-- Maximum consecutive tick-data failures before skipping ahead. -/
def MAX_CONSECUTIVE_FAILURES : Nat := 30

/-- Number of tick data requests to keep in flight. -/
def PIPELINE_DEPTH : Nat := 20

def FAILURE_SKIP_INITIAL : UInt32 := 10000

def FAILURE_SKIP_MAX : UInt32 := 1000000

inductive ExpectedResponse where
  | tickData (tick dejavu : UInt32)
  | transactionEnd (tick dejavu : UInt32)
  deriving DecidableEq

def ExpectedResponse.dejavu : ExpectedResponse → UInt32
  | .tickData _ dejavu => dejavu
  | .transactionEnd _ dejavu => dejavu

def ExpectedResponse.tick : ExpectedResponse → UInt32
  | .tickData tick _ => tick
  | .transactionEnd tick _ => tick

/-! ## Publishing -/

/-- What is handed to NATS. -/
inductive Publication where
  | tick (epoch : UInt16) (data : TickData)
  | tx (epoch : UInt16) (data : Transaction)
  deriving DecidableEq

/-- The large fields are stripped from a published tick. -/
def publishTick (epoch : UInt16) (tick : TickData) (nats : Except String Unit) :
    Outcome Publication :=
  let slim :=
    { tick with transactionDigestsHex := [], contractFeesHex := [], signatureHex := [] }
  withContext s!"Failed to publish to Q.{epoch}.QONDUIT.TICK" nats
    (fun _ => .ok (.tick epoch slim))

def publishTx (epoch : UInt16) (tx : Transaction) (nats : Except String Unit) :
    Outcome Publication :=
  withContext s!"Failed to publish to Q.{epoch}.QONDUIT.TX" nats (fun _ => .ok (.tx epoch tx))

def decodeAndPublish (c : Crates) (msgType : UInt8) (payload : Bytes) (epoch : UInt16)
    (nats : Except String Unit) : Outcome (Option Publication) :=
  if msgType = 8 then do
    let tick ← decodeTick c payload
    .ok (some (← publishTick epoch tick nats))
  else if msgType = 24 then do
    let tx ← decodeTransaction c payload
    .ok (some (← publishTx epoch tx nats))
  else .ok none

/-! ## The session -/

/-- What a session did. -/
inductive Effect where
  /-- A type 16 request went out. -/
  | requested (tick : UInt32)
  /-- `lo..hi` was skipped after too many failures. -/
  | skipped (lo hi : UInt32)
  /-- `ticks_completed` was incremented for the request of `tick`; `published` is what was handed
  to NATS in its course. -/
  | completed (tick : UInt32) (published : Option Publication)
  /-- `consecutive_failures` was incremented for the request of `tick`. -/
  | refused (tick : UInt32)
  deriving DecidableEq

def Effect.request? : Effect → Option UInt32
  | .requested tick => some tick
  | _ => none

def Effect.completion? : Effect → Option (UInt32 × Option Publication)
  | .completed tick published => some (tick, published)
  | _ => none

def requests (log : List Effect) : List UInt32 := log.filterMap Effect.request?

def completions (log : List Effect) : List (UInt32 × Option Publication) :=
  log.filterMap Effect.completion?

/-- The locals of `try_peer`, its own increments of the shared counters, the pipeline state it
shares with the rest of the program, its log, and how it returned: `Ok` with the tick it copies
back to `current_tick`, or not. -/
structure Session where
  nextTickToRequest : UInt32
  expected : List ExpectedResponse := []
  consecutiveFailures : Nat := 0
  skipSize : UInt32 := FAILURE_SKIP_INITIAL
  ticksCompleted : Nat := 0
  ticksFailed : Nat := 0
  ticksDiscovered : Nat := 0
  txsDiscovered : Nat := 0
  pipeline : PipelineState := {}
  log : List Effect := []
  ended : Option (Outcome UInt32) := none

/-- What the outside decides about the requests of a session: the random draw and the fate of the
`i`-th. -/
structure Link where
  draw : Nat → UInt32
  send : Nat → Except String Unit

/-- A link whose draws count up from `first` and whose sends succeed. -/
def Link.counting (first : Nat) : Link where
  draw i := UInt32.ofNat (first + i)
  send _ := .ok ()

/-! ## Filling the window

The loop requests ticks until the window is full or the range is used up. It skips at most once, as
a skip sets the failures in a row back to zero, so the number of its turns is known when it
starts. -/

/-- Jump over a range the node does not have; the sum is that of a build without overflow
checks. -/
def Session.skipAhead (workerEnd : UInt32) (s : Session) : Session :=
  let skipTo := min (s.nextTickToRequest + s.skipSize) workerEnd
  { s with
    nextTickToRequest := skipTo
    consecutiveFailures := 0
    skipSize := min (s.skipSize * 2) FAILURE_SKIP_MAX
    log := s.log ++ [.skipped s.nextTickToRequest skipTo] }

def Session.pushRequest (draw : UInt32) (s : Session) : Session :=
  { s with
    expected := s.expected ++ [.tickData s.nextTickToRequest (max draw 1)]
    nextTickToRequest := s.nextTickToRequest + 1
    log := s.log ++ [.requested s.nextTickToRequest] }

def Session.fail (s : Session) (fault : Fault) : Session := { s with ended := some (.error fault) }

/-- The loop condition of `fill_pipeline`. -/
def Session.Wants (workerEnd : UInt32) (s : Session) : Prop :=
  s.nextTickToRequest < workerEnd ∧ s.expected.length < PIPELINE_DEPTH

instance (workerEnd : UInt32) (s : Session) : Decidable (s.Wants workerEnd) :=
  inferInstanceAs (Decidable (_ ∧ _))

/-- The turns the loop can take: one per free slot, and one skip. -/
def Session.fillTurns (s : Session) : Nat :=
  (PIPELINE_DEPTH - s.expected.length) +
    if s.consecutiveFailures ≥ MAX_CONSECUTIVE_FAILURES then 1 else 0

def fillLoop (link : Link) (workerEnd : UInt32) : Nat → Session → Session
  | 0, s => s
  | turns + 1, s =>
    if s.Wants workerEnd then
      if s.consecutiveFailures ≥ MAX_CONSECUTIVE_FAILURES then
        fillLoop link workerEnd turns (s.skipAhead workerEnd)
      else
        match link.send (requests s.log).length with
        | .ok () =>
          fillLoop link workerEnd turns (s.pushRequest (link.draw (requests s.log).length))
        | .error e => s.fail (.err [e])
    else s

def fillPipeline (link : Link) (workerEnd : UInt32) (s : Session) : Session :=
  fillLoop link workerEnd s.fillTurns s

section Fill

variable (link : Link) (workerEnd : UInt32) (s : Session)

theorem fillTurns_skipAhead (h : s.consecutiveFailures ≥ MAX_CONSECUTIVE_FAILURES) :
    s.fillTurns = (s.skipAhead workerEnd).fillTurns + 1 := by
  have hzero : ¬(s.skipAhead workerEnd).consecutiveFailures ≥ MAX_CONSECUTIVE_FAILURES := by
    show ¬(0 ≥ 30)
    omega
  rw [Session.fillTurns, Session.fillTurns, if_pos h, if_neg hzero]
  rfl

theorem fillTurns_pushRequest (h : s.expected.length < PIPELINE_DEPTH) (draw : UInt32) :
    s.fillTurns = (s.pushRequest draw).fillTurns + 1 := by
  have hlen : (s.pushRequest draw).expected.length = s.expected.length + 1 := by
    simp [Session.pushRequest]
  have hsame : (s.pushRequest draw).consecutiveFailures = s.consecutiveFailures := rfl
  rw [Session.fillTurns, Session.fillTurns, hlen, hsame]
  omega

/-- **The loop of `fill_pipeline`**: while there is room and something left to request, skip after
too many failures, or else send. The turns given to the loop are never used up before it stops by
itself. -/
theorem fillPipeline_eq :
    fillPipeline link workerEnd s =
      if s.Wants workerEnd then
        if s.consecutiveFailures ≥ MAX_CONSECUTIVE_FAILURES then
          fillPipeline link workerEnd (s.skipAhead workerEnd)
        else
          match link.send (requests s.log).length with
          | .ok () =>
            fillPipeline link workerEnd (s.pushRequest (link.draw (requests s.log).length))
          | .error e => s.fail (.err [e])
      else s := by
  by_cases hwants : s.Wants workerEnd
  · rw [if_pos hwants]
    by_cases hskip : s.consecutiveFailures ≥ MAX_CONSECUTIVE_FAILURES
    · rw [if_pos hskip]
      unfold fillPipeline
      rw [fillTurns_skipAhead workerEnd s hskip, fillLoop, if_pos hwants, if_pos hskip]
    · rw [if_neg hskip]
      unfold fillPipeline
      rw [fillTurns_pushRequest s hwants.2 (link.draw (requests s.log).length), fillLoop,
        if_pos hwants, if_neg hskip]
  · rw [if_neg hwants]
    unfold fillPipeline
    -- where nothing is wanted the loop stops, with turns left or not
    cases s.fillTurns with
    | zero => rfl
    | succ turns => rw [fillLoop, if_neg hwants]

end Fill

/-! ## Reading -/

/-- What one turn of the read loop sees: a packet (with what NATS would answer to a publish it
causes), a read error, or nothing within the timeout. -/
inductive Incoming where
  | packet (msgType : UInt8) (dejavu : UInt32) (payload : Bytes) (nats : Except String Unit)
  | readError (e : String)
  | timeout

/-- `expected.iter().position(|e| e.dejavu() == dejavu)`. -/
def Session.find (s : Session) (dejavu : UInt32) : Option ExpectedResponse :=
  s.expected.find? (fun e => e.dejavu == dejavu)

/-- `expected.remove(idx)` of the entry found. -/
def Session.remove (s : Session) (dejavu : UInt32) : Session :=
  { s with expected := s.expected.eraseP (fun e => e.dejavu == dejavu) }

/-- Count an answered request as completed. -/
def Session.complete (s : Session) (tick : UInt32) (published : Option Publication)
    (respTick : UInt32) : Session :=
  { s with
    ticksDiscovered := s.ticksDiscovered + if published.isSome then 1 else 0
    ticksCompleted := s.ticksCompleted + 1
    pipeline := { s.pipeline with indexedTick := max s.pipeline.indexedTick respTick }
    log := s.log ++ [.completed tick published] }

section Read

variable (c : Crates) (link : Link) (epoch : UInt16) (workerEnd : UInt32)

/-- Type 8, tick data. -/
def onTickData (s : Session) (dejavu : UInt32) (payload : Bytes) (nats : Except String Unit) :
    Session :=
  match s.find dejavu with
  | none => s
  | some entry =>
    if payload.length ≥ 8 then
      let respTick := TickWire.tick payload
      let tickEpoch := if payload.length ≥ 4 then TickWire.epoch payload else epoch
      let s := { s.remove dejavu with
        consecutiveFailures := 0
        skipSize := FAILURE_SKIP_INITIAL }
      match decodeAndPublish c 8 payload tickEpoch nats with
      | .error (.panic what) => s.fail (.panic what)
      -- a decode or publish error is logged, and the tick counts as completed all the same
      | .error (.err _) => fillPipeline link workerEnd (s.complete entry.tick none respTick)
      | .ok published => fillPipeline link workerEnd (s.complete entry.tick published respTick)
    else
      fillPipeline link workerEnd
        { s.remove dejavu with ticksFailed := s.ticksFailed + 1 }

/-- Type 35, end response, and type 54, try again: the node does not have the tick. -/
def onRefusal (s : Session) (dejavu : UInt32) : Session :=
  match s.find dejavu with
  | none => s
  | some (.transactionEnd _ _) => s.remove dejavu
  | some (.tickData tick _) =>
    fillPipeline link workerEnd
      { s.remove dejavu with
        consecutiveFailures := s.consecutiveFailures + 1
        ticksFailed := s.ticksFailed + 1
        log := s.log ++ [.refused tick] }

/-- Type 24, a transaction. -/
def onTransaction (s : Session) (payload : Bytes) (nats : Except String Unit) : Session :=
  match decodeAndPublish c 24 payload epoch nats with
  | .error (.panic what) => s.fail (.panic what)
  | .error (.err _) => s
  | .ok _ => { s with txsDiscovered := s.txsDiscovered + 1 }

def onPacket (s : Session) (msgType : UInt8) (dejavu : UInt32) (payload : Bytes)
    (nats : Except String Unit) : Session :=
  if msgType = 8 then onTickData c link epoch workerEnd s dejavu payload nats
  else if msgType = 35 then onRefusal link workerEnd s dejavu
  else if msgType = 24 then onTransaction c epoch s payload nats
  else if msgType = 54 then onRefusal link workerEnd s dejavu
  else s

/-- Every pending tick request counts as failed. -/
def onTimeout (s : Session) : Session :=
  let pending := s.expected.length
  { s with
    ticksFailed := s.ticksFailed + s.expected.countP (· matches .tickData _ _)
    ended := some (bail s!"Pipeline timeout with {pending} pending requests") }

def onIncoming (s : Session) : Incoming → Session
  | .packet msgType dejavu payload nats =>
    onPacket c link epoch workerEnd s msgType dejavu payload nats
  | .readError e => s.fail (.err ["Read error in sliding-window pipeline", e])
  | .timeout => onTimeout s

/-- The loop ends when nothing is pending, and copies its cursor back. -/
def Session.exitIfEmpty (s : Session) : Session :=
  if s.ended.isNone ∧ s.expected = [] then { s with ended := some (.ok s.nextTickToRequest) }
  else s

/-- One turn of the read loop. -/
def readTurn (s : Session) (i : Incoming) : Session :=
  if s.ended.isSome then s else (onIncoming c link epoch workerEnd s i).exitIfEmpty

/-- The session before its first read. -/
def openSession (currentTick : UInt32) (pipeline : PipelineState) : Session :=
  (fillPipeline link workerEnd { nextTickToRequest := currentTick, pipeline }).exitIfEmpty

/-- `try_peer` after the given packets, errors and timeouts. -/
def tryPeer (currentTick : UInt32) (pipeline : PipelineState) (incoming : List Incoming) :
    Session :=
  incoming.foldl (readTurn c link epoch workerEnd) (openSession link workerEnd currentTick pipeline)

end Read

end Qonduit

import Qonduit.Ingestion.Protocol
import Mathlib.Data.List.TakeWhile

/-!
# Qonduit — requests that wait for their answer

`protocol.rs`: `request_current_tick_info`, `request_computors`, `request_entity`,
`request_tick_data`, `request_log` and `request_tick_transactions`. Each draws a dejavu, sends a
packet under it and reads packets until one of its types decides; the dejavu of what it reads is
bound to `_dejavu` and dropped. What the node and the transport decide (the draw, the fate of the
send, packets, read errors, timeouts) is input.

* **`Exchange.await_ok_iff`**, **`collectTransactions_ok_iff`** — the reads behind an `Ok`.
* **`Exchange.matched_iff`** — a payload belongs to the request exactly when the packet that ends
  the wait does, or repeats one that does.
* **`matchedTransactions_iff`** — the same for the transactions of a tick, where every packet
  collected counts.
* **`responses_matched_iff`** — the six requests together.
-/

namespace Qonduit

/-! ## What a wait reads

After a request the client reads packet after packet. What comes is given as a list of reads, of
which the last may be the end of the wait. -/

/-- What one turn of a read loop sees; its deadline can pass before a read or during it. -/
inductive ResponseRead where
  | packet (received : Received)
  | readError (cause : String)
  | deadline
  | timeout
  deriving DecidableEq

/-- A read loop that leaves on packets of the `last` types leaves on this read. -/
def ResponseRead.ends (last : UInt8 → Bool) : ResponseRead → Bool
  | .packet (msgType, _, _) => last msgType
  | .readError _ => true
  | .deadline => true
  | .timeout => true

/-- A request function still reads, or has returned and left the rest of the reads. -/
inductive Waited (α : Type) where
  | waiting
  | returned (outcome : Outcome α) (rest : List ResponseRead)
  deriving DecidableEq

/-- A call of a request function: the dejavu it drew, the packet it sent under it, and how it
waited. -/
structure RequestCall (α : Type) where
  dejavu : UInt32
  sent : Bytes
  waited : Waited α
  deriving DecidableEq

/-- `send_raw(..).await?` before a wait. -/
def RequestCall.send {α : Type} (msgType : UInt8) (body : Bytes) (draw : UInt32)
    (link : Except String Unit) (wait : List ResponseRead → Waited α)
    (reads : List ResponseRead) : RequestCall α :=
  let dejavu := max draw 1 -- avoid 0
  let sent := sendRaw msgType body dejavu
  match link with
  | .error cause => { dejavu, sent, waited := .returned (.error (.err [cause])) reads }
  | .ok () => { dejavu, sent, waited := wait reads }

/-! ## Requests with one answer

Five of the six requests wait for a packet of one type and return its payload, whatever its dejavu.
They differ in the types only. -/

/-- What the five functions that return a payload differ in. -/
structure Exchange where
  requestType : UInt8
  body : Bytes
  answerType : UInt8
  refusal : UInt8 → Option String
  deadline : String
  timeout : String
  readError : String

namespace Exchange

def await (e : Exchange) : List ResponseRead → Waited Bytes
  | [] => .waiting
  | .deadline :: rest => .returned (bail e.deadline) rest
  | .timeout :: rest => .returned (bail e.timeout) rest
  | .readError cause :: rest => .returned (.error (.err [e.readError, cause])) rest
  | .packet (msgType, _dejavu, payload) :: rest =>
    if msgType = e.answerType then .returned (.ok payload) rest
    else
      match e.refusal msgType with
      | some message => .returned (bail message) rest
      | none => e.await rest

def request (e : Exchange) (draw : UInt32) (link : Except String Unit)
    (reads : List ResponseRead) : RequestCall Bytes :=
  .send e.requestType e.body draw link e.await reads

def currentTickInfo : Exchange where
  requestType := 27
  body := []
  answerType := 28
  refusal msgType :=
    if msgType = 35 then some "Node sent EndResponse for CurrentTickInfo request"
    else if msgType = 54 then some "Node returned TryAgain"
    else none
  deadline := "Timeout waiting for CurrentTickInfo response"
  timeout := "Timeout waiting for CurrentTickInfo response"
  readError := "Read error waiting for CurrentTickInfo"

def computors : Exchange where
  requestType := 11
  body := []
  answerType := 2
  refusal msgType :=
    if msgType = 35 ∨ msgType = 54 then some "Node error while waiting for Computors" else none
  deadline := "Timeout waiting for Computors response"
  timeout := "Timeout waiting for Computors response"
  readError := "Read error waiting for Computors"

def entity (identity : Key32) : Exchange where
  requestType := 31
  body := identity.toList
  answerType := 32
  refusal msgType :=
    if msgType = 35 ∨ msgType = 54 then some "Node error while waiting for Entity" else none
  deadline := "Timeout waiting for Entity response"
  timeout := "Timeout waiting for Entity response"
  readError := "Read error waiting for Entity"

def tickData (tick : UInt32) : Exchange where
  requestType := 16
  body := tick.toLeBytes
  answerType := 8
  refusal msgType :=
    if msgType = 35 then some s!"Node returned EndResponse for TickData request (tick {tick})"
    else if msgType = 54 then some s!"Node returned TryAgain for TickData request (tick {tick})"
    else none
  deadline := s!"Timeout waiting for TickData response for tick {tick}"
  timeout := s!"Timeout waiting for TickData response (tick {tick})"
  readError := "Read error waiting for TickData"

def log (tick : UInt32) : Exchange where
  requestType := 44
  body := tick.toLeBytes
  answerType := 45
  refusal msgType :=
    if msgType = 35 then some s!"Node returned EndResponse for Log request (tick {tick})"
    else if msgType = 54 then some s!"Node returned TryAgain for Log request (tick {tick})"
    else none
  deadline := s!"Timeout waiting for Log response (tick {tick})"
  timeout := s!"Timeout waiting for Log response (tick {tick})"
  readError := "Read error waiting for Log"

end Exchange

section Requests

variable (draw : UInt32) (link : Except String Unit)

def requestCurrentTickInfo (reads : List ResponseRead) : RequestCall Bytes :=
  Exchange.currentTickInfo.request draw link reads

def requestComputors (reads : List ResponseRead) : RequestCall Bytes :=
  Exchange.computors.request draw link reads

def requestEntity (identity : Key32) (reads : List ResponseRead) : RequestCall Bytes :=
  (Exchange.entity identity).request draw link reads

def requestTickData (tick : UInt32) (reads : List ResponseRead) : RequestCall Bytes :=
  (Exchange.tickData tick).request draw link reads

def requestLog (tick : UInt32) (reads : List ResponseRead) : RequestCall Bytes :=
  (Exchange.log tick).request draw link reads

/-! ## The transactions of a tick

The sixth collects every transaction until an end response. It compares no dejavu either. -/

/-- The loop of `request_tick_transactions`. -/
def collectTransactions (tick : UInt32) :
    List ResponseRead → List Bytes → Waited (List Bytes)
  | [], _ => .waiting
  | .deadline :: rest, _ =>
    .returned (bail s!"Timeout waiting for TickTransactions response (tick {tick})") rest
  | .timeout :: rest, _ =>
    .returned (bail s!"Timeout waiting for TickTransactions (tick {tick})") rest
  | .readError cause :: rest, _ =>
    .returned (.error (.err ["Read error waiting for TickTransactions", cause])) rest
  | .packet (msgType, _dejavu, payload) :: rest, transactions =>
    let transactions := if msgType = 24 then transactions ++ [payload] else transactions
    if msgType = 35 then .returned (.ok transactions) rest
    else if msgType = 54 then
      .returned (bail s!"Node returned TryAgain for TickTransactions (tick {tick})") rest
    else collectTransactions tick rest transactions

def requestTickTransactions (tick : UInt32) (reads : List ResponseRead) :
    RequestCall (List Bytes) :=
  .send 29 tick.toLeBytes draw link (collectTransactions tick · []) reads

end Requests

/-! ## Where a wait ends

The reads of a wait are those it skips and the one that ends it, and neither depends on the
request's dejavu. -/

section Ending

variable (last : UInt8 → Bool) (reads : List ResponseRead)

/-- The reads a wait skips. -/
def skipped : List ResponseRead := reads.takeWhile (!·.ends last)

/-- The read that ends a wait, and those it leaves. -/
def ending : List ResponseRead := reads.dropWhile (!·.ends last)

/-- The reads are those skipped, and the ones from the end of the wait on. -/
theorem skipped_append_ending : skipped last reads ++ ending last reads = reads :=
  List.takeWhile_append_dropWhile

end Ending

section Ends

variable {last : UInt8 → Bool} {r : ResponseRead}

/-- A wait has received what it skipped and the read that ended it. -/
theorem eq_received_append {reads rest : List ResponseRead} (h : ending last reads = r :: rest) :
    reads = skipped last reads ++ [r] ++ rest := by
  have hreads := skipped_append_ending last reads
  rw [h, List.append_cons] at hreads
  exact hreads.symm

/-- What a wait has received, where its end is known. -/
theorem received_eq {reads rest received : List ResponseRead}
    (h : ending last reads = r :: rest) (hreceived : reads = received ++ rest) :
    received = skipped last reads ++ [r] := by
  have hreads := eq_received_append h
  exact List.append_cancel_right (hreceived.symm.trans hreads)

theorem ending_of_ends (h : r.ends last = true) (reads : List ResponseRead) :
    ending last (r :: reads) = r :: reads := by
  unfold ending
  rw [List.dropWhile_cons_of_neg]
  rw [h]
  decide

theorem ending_of_not_ends (h : r.ends last = false) (reads : List ResponseRead) :
    ending last (r :: reads) = ending last reads := by
  unfold ending
  rw [List.dropWhile_cons_of_pos]
  rw [h]
  rfl

/-- In front of the end nothing is left to skip. -/
theorem skipped_of_ends (h : r.ends last = true) (reads : List ResponseRead) :
    skipped last (r :: reads) = [] := by
  unfold skipped
  rw [List.takeWhile_cons_of_neg]
  rw [h]
  decide

theorem skipped_of_not_ends (h : r.ends last = false) (reads : List ResponseRead) :
    skipped last (r :: reads) = r :: skipped last reads := by
  unfold skipped
  rw [List.takeWhile_cons_of_pos]
  rw [h]
  rfl

/-- Only a packet is skipped. -/
theorem packet_of_not_ends (h : r.ends last = false) : ∃ msgType dejavu payload,
    r = .packet (msgType, dejavu, payload) ∧ last msgType = false := by
  cases r with
  | deadline => cases h
  | timeout => cases h
  | readError cause => cases h
  | packet received => exact ⟨received.1, received.2.1, received.2.2, rfl, h⟩

theorem ends_of_mem_skipped {reads : List ResponseRead} (h : r ∈ skipped last reads) :
    r.ends last = false := by
  have hr := List.mem_takeWhile_imp h
  rw [Bool.not_eq_true'] at hr
  exact hr

end Ends

namespace RequestCall

variable {α : Type} {msgType : UInt8} {body : Bytes} {draw : UInt32}
  {link : Except String Unit} {wait : List ResponseRead → Waited α} {reads : List ResponseRead}

@[simp] theorem dejavu_send :
    (RequestCall.send msgType body draw link wait reads).dejavu = max draw 1 := by
  cases link with
  | error cause => rfl
  | ok _ => rfl

/-- Nothing is returned with `Ok` unless the request went out. -/
theorem send_ok_iff {a : α} {rest : List ResponseRead} :
    (RequestCall.send msgType body draw link wait reads).waited = .returned (.ok a) rest ↔
      link = .ok () ∧ wait reads = .returned (.ok a) rest := by
  cases link with
  | error cause =>
    refine ⟨fun h => ?_, fun h => ?_⟩
    · cases h
    · cases h.1
  | ok _ => exact ⟨fun h => ⟨rfl, h⟩, fun h => h.2⟩

end RequestCall

/-! ## Whose answer is returned

An answer is recognised by its type. So a payload is that of the request if the read that ends the
wait has its dejavu, or a packet with the dejavu and this payload was skipped before. -/

/-- A payload that the call returned was carried by a packet with the dejavu of its request,
among those it had received. -/
def Matched (call : RequestCall Bytes) (reads : List ResponseRead) : Prop :=
  ∀ payload rest, call.waited = .returned (.ok payload) rest →
    ∃ received msgType, reads = received ++ rest ∧
      .packet (msgType, call.dejavu, payload) ∈ received

namespace Exchange

variable {e : Exchange}

/-- The types that end the wait. -/
def last (e : Exchange) (msgType : UInt8) : Bool :=
  msgType == e.answerType || (e.refusal msgType).isSome

/-- A read that does not end the wait makes no difference. -/
theorem await_of_not_ends {r : ResponseRead} (h : r.ends e.last = false)
    (reads : List ResponseRead) : e.await (r :: reads) = e.await reads := by
  obtain ⟨msgType, dejavu, payload, rfl, hlast⟩ := packet_of_not_ends h
  unfold last at hlast
  rw [Bool.or_eq_false_iff, beq_eq_false_iff_ne, Option.isSome_eq_false_iff,
    Option.isNone_iff_eq_none] at hlast
  rw [await, if_neg hlast.1, hlast.2]

/-- A read that ends the wait ends it with `Ok` if it is an answer, of whatever dejavu. The other
ways to end are the deadline, the timeout, a read error, and the packets that stand for a
refusal. -/
theorem await_of_ends {r : ResponseRead} (h : r.ends e.last = true)
    {reads rest : List ResponseRead} {payload : Bytes} :
    e.await (r :: reads) = .returned (.ok payload) rest ↔
      ∃ dejavu, r :: reads = .packet (e.answerType, dejavu, payload) :: rest := by
  cases r with
  | deadline => exact iff_of_false (by intro h; cases h) (by intro ⟨_, h⟩; cases h)
  | timeout => exact iff_of_false (by intro h; cases h) (by intro ⟨_, h⟩; cases h)
  | readError cause => exact iff_of_false (by intro h; cases h) (by intro ⟨_, h⟩; cases h)
  | packet received =>
    obtain ⟨msgType, dejavu, p⟩ := received
    by_cases hanswer : msgType = e.answerType
    · rw [await, if_pos hanswer, hanswer]
      refine ⟨fun h => ⟨dejavu, ?_⟩, fun ⟨d, h⟩ => ?_⟩
      · cases h
        rfl
      · cases h
        rfl
    · have hlast : e.last msgType = true := h
      unfold last at hlast
      rw [Bool.or_eq_true, beq_iff_eq, or_iff_right hanswer, Option.isSome_iff_exists] at hlast
      obtain ⟨message, hmessage⟩ := hlast
      rw [await, if_neg hanswer, hmessage]
      refine ⟨fun h => ?_, fun ⟨d, h⟩ => ?_⟩
      · cases h
      · cases h
        exact absurd rfl hanswer

/-- **The reads behind an `Ok`**: the first that ends the wait is an answer. -/
theorem await_ok_iff {reads rest : List ResponseRead} {payload : Bytes} :
    e.await reads = .returned (.ok payload) rest ↔
      ∃ dejavu, ending e.last reads = .packet (e.answerType, dejavu, payload) :: rest := by
  induction reads with
  | nil =>
    refine ⟨fun h => ?_, fun ⟨_, h⟩ => ?_⟩
    · cases h
    · cases h
  | cons r reads ih =>
    cases hr : r.ends e.last with
    | false => rw [await_of_not_ends hr, ending_of_not_ends hr, ih]
    | true => rw [ending_of_ends hr, await_of_ends hr]

/-- The wait ends with an answer under the dejavu of its request, or one that repeats the payload
of a packet under it; or with no answer. -/
def AnswersOwn (e : Exchange) (dejavu : UInt32) (reads : List ResponseRead) : Prop :=
  ∀ d payload rest, ending e.last reads = .packet (e.answerType, d, payload) :: rest →
    d = dejavu ∨ ∃ msgType, .packet (msgType, dejavu, payload) ∈ skipped e.last reads

/-- **A payload returned belongs to the request exactly when the wait ends so.** The dejavu of the
request is compared with nothing, so whether the answer is its own is up to what comes first. -/
theorem matched_iff (e : Exchange) (draw : UInt32) (link : Except String Unit)
    (reads : List ResponseRead) :
    Matched (e.request draw link reads) reads ↔
      (link = .ok () → e.AnswersOwn (max draw 1) reads) := by
  constructor
  · -- the request got through and the wait ended with an answer, so its payload was returned
    intro h hlink d payload rest hending
    have hwait := await_ok_iff.mpr ⟨d, hending⟩
    obtain ⟨received, msgType, hreceived, hmem⟩ :=
      h payload rest (RequestCall.send_ok_iff.mpr ⟨hlink, hwait⟩)
    rw [request, RequestCall.dejavu_send] at hmem
    rw [received_eq hending hreceived, List.mem_append, List.mem_singleton] at hmem
    rcases hmem with hskipped | hanswer
    · exact .inr ⟨msgType, hskipped⟩
    · cases hanswer
      exact .inl rfl
  · -- what was returned is the answer that ended the wait
    intro h payload rest hwaited
    obtain ⟨hlink, hwait⟩ := RequestCall.send_ok_iff.mp hwaited
    obtain ⟨d, hending⟩ := await_ok_iff.mp hwait
    have hreads := eq_received_append hending
    rw [request, RequestCall.dejavu_send]
    rcases h hlink d payload rest hending with rfl | ⟨msgType, hskipped⟩
    · exact ⟨_, e.answerType, hreads, List.mem_append_right _ (List.mem_singleton_self _)⟩
    · exact ⟨_, msgType, hreads, List.mem_append_left _ hskipped⟩

end Exchange

/-! ## Whose transactions are collected

Every transaction before the end is collected, broadcasts among them. The end may be that of another
request, and then transactions are missing. -/

/-- The dejavu and payload of a transaction packet. -/
def ResponseRead.transaction? : ResponseRead → Option (UInt32 × Bytes)
  | .packet (msgType, dejavu, payload) => if msgType = 24 then some (dejavu, payload) else none
  | .readError _ => none
  | .deadline => none
  | .timeout => none

/-- An end response to the request of this dejavu. -/
def ResponseRead.endsRequest (dejavu : UInt32) : ResponseRead → Bool
  | .packet (msgType, d, _) => msgType == 35 && d == dejavu
  | .readError _ => false
  | .deadline => false
  | .timeout => false

/-- The payloads of the transaction packets of the request that precede its end response. -/
def ownTransactions (dejavu : UInt32) (received : List ResponseRead) : List Bytes :=
  let own := (received.takeWhile (!·.endsRequest dejavu)).filterMap ResponseRead.transaction?
  (own.filter (·.1 = dejavu)).map Prod.snd

/-- What the call returned are the transactions of its request, up to its end response, of what it
had received. -/
def MatchedTransactions (call : RequestCall (List Bytes)) (reads : List ResponseRead) : Prop :=
  ∀ payloads rest, call.waited = .returned (.ok payloads) rest →
    ∃ received, reads = received ++ rest ∧ (∃ r ∈ received, r.endsRequest call.dejavu = true) ∧
      payloads = ownTransactions call.dejavu received

/-- The types that end the collection. -/
def lastOfTick (msgType : UInt8) : Bool := msgType == 35 || msgType == 54

/-- The collection ends with the end response to its request, if it ends with an end response, and
skips no transaction of another. -/
def CollectsOwn (dejavu : UInt32) (reads : List ResponseRead) : Prop :=
  ∀ d payload rest, ending lastOfTick reads = .packet (35, d, payload) :: rest →
    d = dejavu ∧
      ∀ t ∈ (skipped lastOfTick reads).filterMap ResponseRead.transaction?, t.1 = dejavu

section Collect

variable {tick : UInt32}

/-- A transaction is collected, and any other read that does not end the wait is passed over. -/
theorem collectTransactions_of_not_ends {r : ResponseRead} (h : r.ends lastOfTick = false)
    (reads : List ResponseRead) (transactions : List Bytes) :
    collectTransactions tick (r :: reads) transactions
      = collectTransactions tick reads
          (transactions ++ ([r].filterMap ResponseRead.transaction?).map Prod.snd) := by
  obtain ⟨msgType, dejavu, payload, rfl, hlast⟩ := packet_of_not_ends h
  unfold lastOfTick at hlast
  rw [Bool.or_eq_false_iff, beq_eq_false_iff_ne, beq_eq_false_iff_ne] at hlast
  rw [collectTransactions, if_neg hlast.1, if_neg hlast.2]
  by_cases h24 : msgType = 24
  · subst h24
    rfl
  · have hnone : (ResponseRead.packet (msgType, dejavu, payload)).transaction? = none :=
      if_neg h24
    rw [if_neg h24, List.filterMap_cons_none hnone, List.filterMap_nil, List.map_nil,
      List.append_nil]

/-- The collection ends with `Ok` at an end response only, and then it returns what was collected
before. A packet of type 54 ends it with an error. -/
theorem collectTransactions_of_ends {r : ResponseRead} (h : r.ends lastOfTick = true)
    {reads rest : List ResponseRead} {transactions payloads : List Bytes} :
    collectTransactions tick (r :: reads) transactions = .returned (.ok payloads) rest ↔
      payloads = transactions ∧
        ∃ dejavu payload, r :: reads = .packet (35, dejavu, payload) :: rest := by
  cases r with
  | deadline => exact iff_of_false (by intro h; cases h) (by intro ⟨_, _, _, h⟩; cases h)
  | timeout => exact iff_of_false (by intro h; cases h) (by intro ⟨_, _, _, h⟩; cases h)
  | readError cause => exact iff_of_false (by intro h; cases h) (by intro ⟨_, _, _, h⟩; cases h)
  | packet received =>
    obtain ⟨msgType, dejavu, payload⟩ := received
    have hlast : lastOfTick msgType = true := h
    unfold lastOfTick at hlast
    rw [Bool.or_eq_true, beq_iff_eq, beq_iff_eq] at hlast
    -- an end response, or a packet of type 54
    rcases hlast with rfl | rfl
    · show Waited.returned (.ok transactions) reads = _ ↔ _
      refine ⟨fun h => ?_, fun ⟨hpayloads, d, p, h⟩ => ?_⟩
      · cases h
        exact ⟨rfl, dejavu, payload, rfl⟩
      · cases h
        rw [hpayloads]
    · refine iff_of_false (fun h => ?_) (fun ⟨_, d, p, h⟩ => ?_)
      · cases h
      · cases h

/-- **The reads behind an `Ok`**: the first that ends the collection is an end response, of
whatever dejavu, and the payloads are those of all transactions skipped. -/
theorem collectTransactions_ok_iff {reads rest : List ResponseRead}
    {transactions payloads : List Bytes} :
    collectTransactions tick reads transactions = .returned (.ok payloads) rest ↔
      payloads = transactions
          ++ ((skipped lastOfTick reads).filterMap ResponseRead.transaction?).map Prod.snd ∧
        ∃ dejavu payload, ending lastOfTick reads = .packet (35, dejavu, payload) :: rest := by
  induction reads generalizing transactions with
  | nil => exact iff_of_false (by intro h; cases h) (by intro ⟨_, _, _, h⟩; cases h)
  | cons r reads ih =>
    cases hr : r.ends lastOfTick with
    | false =>
      have hcons : (r :: skipped lastOfTick reads).filterMap ResponseRead.transaction?
          = [r].filterMap ResponseRead.transaction?
            ++ (skipped lastOfTick reads).filterMap ResponseRead.transaction? :=
        List.filterMap_append (l := [r])
      rw [collectTransactions_of_not_ends hr, ending_of_not_ends hr, skipped_of_not_ends hr, ih,
        hcons, List.map_append, List.append_assoc]
    | true =>
      rw [ending_of_ends hr, skipped_of_ends hr, collectTransactions_of_ends hr,
        List.filterMap_nil, List.map_nil, List.append_nil]

end Collect

/-- An end response ends the collection. -/
theorem not_endsRequest_of_mem_skipped {dejavu : UInt32} {reads : List ResponseRead}
    {r : ResponseRead} (h : r ∈ skipped lastOfTick reads) : r.endsRequest dejavu = false := by
  have hr := ends_of_mem_skipped h
  cases r with
  | deadline => rfl
  | timeout => rfl
  | readError cause => rfl
  | packet received =>
    obtain ⟨msgType, d, payload⟩ := received
    have hlast : (msgType == 35 || msgType == 54) = false := hr
    show (msgType == 35 && d == dejavu) = false
    rw [(Bool.or_eq_false_iff.mp hlast).1, Bool.false_and]

/-- An end response is the request's own if it has its dejavu. -/
theorem endsRequest_iff {dejavu d : UInt32} {payload : Bytes} :
    (ResponseRead.packet (35, d, payload)).endsRequest dejavu = true ↔ d = dejavu := by
  show (true && d == dejavu) = true ↔ _
  rw [Bool.true_and, beq_iff_eq]

/-- The own transactions before an end response of the request: nothing skipped is one. -/
theorem ownTransactions_of_end (dejavu : UInt32) (reads : List ResponseRead) (payload : Bytes) :
    ownTransactions dejavu (skipped lastOfTick reads ++ [.packet (35, dejavu, payload)])
      = (((skipped lastOfTick reads).filterMap ResponseRead.transaction?).filter
          (·.1 = dejavu)).map Prod.snd := by
  have hskips : ∀ r ∈ skipped lastOfTick reads, (!r.endsRequest dejavu) = true := by
    intro r hr
    rw [not_endsRequest_of_mem_skipped hr]
    rfl
  unfold ownTransactions
  rw [List.takeWhile_append_of_pos hskips, List.takeWhile_cons_of_neg, List.append_nil]
  rw [endsRequest_iff.mpr rfl]
  decide

/-- **The transactions returned are those of the request exactly when the wait ends with its own
end response and skips no other transaction.** -/
theorem matchedTransactions_iff (draw : UInt32) (link : Except String Unit) (tick : UInt32)
    (reads : List ResponseRead) :
    MatchedTransactions (requestTickTransactions draw link tick reads) reads ↔
      (link = .ok () → CollectsOwn (max draw 1) reads) := by
  constructor
  · intro h hlink d payload rest hending
    have hwait : collectTransactions tick reads [] = .returned (.ok _) rest :=
      collectTransactions_ok_iff.mpr ⟨rfl, d, payload, hending⟩
    obtain ⟨received, hreceived, ⟨r, hr, hend⟩, hpayloads⟩ :=
      h _ rest (RequestCall.send_ok_iff.mpr ⟨hlink, hwait⟩)
    rw [requestTickTransactions, RequestCall.dejavu_send] at hend hpayloads
    rw [received_eq hending hreceived] at hr hpayloads
    -- the only end response received is the last read
    have hdejavu : d = max draw 1 := by
      rcases List.mem_append.mp hr with hskipped | hlast
      · rw [not_endsRequest_of_mem_skipped hskipped] at hend
        cases hend
      · rw [List.mem_singleton.mp hlast] at hend
        exact endsRequest_iff.mp hend
    refine ⟨hdejavu, ?_⟩
    -- the own transactions are as many as all of them
    rw [hdejavu, ownTransactions_of_end, List.nil_append] at hpayloads
    have hlength := congrArg List.length hpayloads
    rw [List.length_map, List.length_map] at hlength
    intro t ht
    exact of_decide_eq_true (List.length_filter_eq_length_iff.mp hlength.symm t ht)
  · intro h payloads rest hwaited
    obtain ⟨hlink, hwait⟩ := RequestCall.send_ok_iff.mp hwaited
    obtain ⟨hpayloads, d, payload, hending⟩ := collectTransactions_ok_iff.mp hwait
    obtain ⟨rfl, htransactions⟩ := h hlink d payload rest hending
    rw [requestTickTransactions, RequestCall.dejavu_send]
    refine ⟨_, eq_received_append hending,
      ⟨_, List.mem_append_right _ (List.mem_singleton_self _), endsRequest_iff.mpr rfl⟩, ?_⟩
    rw [ownTransactions_of_end, hpayloads, List.nil_append, List.filter_eq_self.mpr]
    intro t ht
    exact decide_eq_true (htransactions t ht)

/-- **Each of the six requests returns what belongs to it exactly when the read that ends its wait
does**: the answer, or the end response with all transactions before it. -/
theorem responses_matched_iff (draw : UInt32) (link : Except String Unit) (identity : Key32)
    (tick : UInt32) (reads : List ResponseRead) :
    (Matched (requestCurrentTickInfo draw link reads) reads ↔
      (link = .ok () → Exchange.currentTickInfo.AnswersOwn (max draw 1) reads)) ∧
    (Matched (requestComputors draw link reads) reads ↔
      (link = .ok () → Exchange.computors.AnswersOwn (max draw 1) reads)) ∧
    (Matched (requestEntity draw link identity reads) reads ↔
      (link = .ok () → (Exchange.entity identity).AnswersOwn (max draw 1) reads)) ∧
    (Matched (requestTickData draw link tick reads) reads ↔
      (link = .ok () → (Exchange.tickData tick).AnswersOwn (max draw 1) reads)) ∧
    (Matched (requestLog draw link tick reads) reads ↔
      (link = .ok () → (Exchange.log tick).AnswersOwn (max draw 1) reads)) ∧
    (MatchedTransactions (requestTickTransactions draw link tick reads) reads ↔
      (link = .ok () → CollectsOwn (max draw 1) reads)) :=
  ⟨Exchange.matched_iff _ draw link reads, Exchange.matched_iff _ draw link reads,
    Exchange.matched_iff _ draw link reads, Exchange.matched_iff _ draw link reads,
    Exchange.matched_iff _ draw link reads, matchedTransactions_iff draw link tick reads⟩

/-- Broadcast tick data before the answer. -/
def broadcastTickData : List ResponseRead := [.packet (8, 0, [1]), .packet (8, 7, [2])]

/-- A broadcast transaction before the one asked for and the end response. -/
def broadcastTransaction : List ResponseRead :=
  [.packet (24, 0, [1]), .packet (24, 7, [2]), .packet (35, 7, [])]

/-- The first tick data broadcast is returned for the request of dejavu 7, which no packet with
that dejavu carries; and a broadcast transaction among those of a request. -/
theorem broadcasts_returned :
    (requestTickData 7 (.ok ()) 5 broadcastTickData).waited
      = .returned (.ok [1]) [.packet (8, 7, [2])] ∧
    (∀ msgType, .packet (msgType, 7, [1]) ∉ broadcastTickData) ∧
    ¬ Matched (requestTickData 7 (.ok ()) 5 broadcastTickData) broadcastTickData ∧
    (requestTickTransactions 7 (.ok ()) 5 broadcastTransaction).waited
      = .returned (.ok [[1], [2]]) [] ∧
    ¬ MatchedTransactions (requestTickTransactions 7 (.ok ()) 5 broadcastTransaction)
      broadcastTransaction := by
  have hnone : ∀ msgType, .packet (msgType, 7, [1]) ∉ broadcastTickData := by
    intro msgType hmem
    rcases List.mem_cons.mp hmem with h | hmem
    · cases h
    · cases List.mem_singleton.mp hmem
  refine ⟨by decide, hnone, fun h => ?_, by decide, fun h => ?_⟩
  · obtain ⟨received, msgType, hreceived, hmem⟩ := h [1] [.packet (8, 7, [2])] (by decide)
    exact hnone msgType (hreceived ▸ List.mem_append_left _ hmem)
  · obtain ⟨received, hreceived, -, hpayloads⟩ := h [[1], [2]] [] (by decide)
    rw [List.append_nil] at hreceived
    rw [← hreceived] at hpayloads
    exact absurd hpayloads (by decide)

end Qonduit

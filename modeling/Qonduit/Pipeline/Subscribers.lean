import Qonduit.Lib.Utf8
import Qonduit.Pipeline.Routing

/-!
# Qonduit — WebSocket subscribers

`ws.rs`: a client of a route subscribes to the subject of the route. Two branches race in the loop
of its task: a message from the bus is sent on as a text, and a ping of the client is answered. The
loop breaks where the bus or the client has closed, or where a text does not reach the client.

* **`textsOf_forward`**, **`pongsOf_forward`** — what a client is sent until the loop breaks.
* **`subscribers_served`** — the texts of a client are the messages of its topic and no others.
-/

namespace Qonduit

/-- What a client sends. -/
inductive WsMessage
  | text (text : Str)
  | binary (data : Bytes)
  | ping (data : Bytes)
  | pong (data : Bytes)
  | close

/-- What a client is sent. -/
inductive WsFrame
  | text (text : Str)
  | pong (data : Bytes)
  deriving DecidableEq

/-- A turn of the loop: the branch of `select!` that is ready first, and whether what it sends, if
it sends anything, reaches the client. -/
inductive WsTurn
  /-- `sub.next()`: a payload, or none once the subscription is closed. -/
  | bus (payload : Option Bytes) (reached : Bool)
  /-- `socket.recv()` -/
  | client (msg : Option (Except String WsMessage)) (reached : Bool)

namespace WsTurn

def frames : WsTurn → List WsFrame
  | bus (some payload) true => [.text (Utf8.lossy payload)]
  | client (some (.ok (.ping data))) true => [.pong data]
  | _ => []

def breaks : WsTurn → Bool
  | bus (some _) reached => !reached
  | bus none _ => true
  | client none _ => true
  | client (some (.ok .close)) _ => true
  -- a pong that does not reach the client is not noticed
  | client (some _) _ => false

/-- What the bus hands over in a turn. -/
def payload : WsTurn → Option Bytes
  | bus payload _ => payload
  | client _ _ => none

/-- A ping whose answer reaches the client. -/
def ping : WsTurn → Option Bytes
  | client (some (.ok (.ping data))) true => some data
  | _ => none

end WsTurn

/-- The loop of `handle_ws_subscription`. -/
def forward : List WsTurn → List WsFrame
  | [] => []
  | turn :: turns => turn.frames ++ if turn.breaks then [] else forward turns

def subscribeFailed (e : Str) : Str :=
  ascii "\x7b\"error\": \"subscribe failed: " ++ e ++ ascii "\"\x7d"

def connected (subject : Str) : Str :=
  jsonObject [("status", jsonString (ascii "connected")), ("subject", jsonString subject)]

/-- What a client is sent. `reached` tells of the first text; the task does not ask for it. -/
def handleWsSubscription (subject : Str) (subscribed : Except Str Unit) (reached : Bool)
    (turns : List WsTurn) : List WsFrame :=
  let first (text : Str) : List WsFrame := if reached then [.text text] else []
  match subscribed with
  | .error e => first (subscribeFailed e)
  | .ok () => first (connected subject) ++ forward turns

/-! ## The loop

In each turn one branch is ready: a message of the bus, or something the client did. A turn may
break the loop, and the turns from that one on do nothing. -/

def WsFrame.asText : WsFrame → Option Str
  | .text t => some t
  | .pong _ => none

def WsFrame.asPong : WsFrame → Option Bytes
  | .text _ => none
  | .pong data => some data

def textsOf (frames : List WsFrame) : List Str := frames.filterMap WsFrame.asText

def pongsOf (frames : List WsFrame) : List Bytes := frames.filterMap WsFrame.asPong

/-- The turns before the one in which the loop breaks. -/
def goingOn (turns : List WsTurn) : List WsTurn := turns.takeWhile (fun turn => !turn.breaks)

theorem goingOn_cons (turn : WsTurn) (turns : List WsTurn) :
    goingOn (turn :: turns) = if turn.breaks then [] else turn :: goingOn turns := by
  rw [goingOn, List.takeWhile_cons]
  cases turn.breaks <;> rfl

/-- A turn that breaks the loop has sent nothing. -/
theorem WsTurn.frames_of_breaks {turn : WsTurn} (h : turn.breaks = true) : turn.frames = [] := by
  unfold WsTurn.breaks at h
  split at h <;> simp_all [WsTurn.frames]

/-- A turn that goes on has sent what the bus handed over, or has answered a ping. No turn that goes
on withholds a message. -/
theorem WsTurn.frames_of_goes_on {turn : WsTurn} (h : turn.breaks = false) :
    turn.frames.filterMap WsFrame.asText = turn.payload.toList.map Utf8.lossy ∧
      turn.frames.filterMap WsFrame.asPong = turn.ping.toList := by
  unfold WsTurn.frames
  split
  · exact ⟨rfl, rfl⟩
  · exact ⟨rfl, rfl⟩
  · next hbus hping =>
    cases turn with
    | bus payload reached =>
      cases payload with
      | none => cases h
      | some payload =>
        cases reached with
        | false => cases h
        | true => exact absurd rfl (hbus payload)
    | client msg reached =>
      refine ⟨rfl, ?_⟩
      unfold WsTurn.ping
      split
      · next data heq => exact absurd heq (hping data)
      · rfl

/-- What is sent is what the turns before the break send. -/
theorem forward_eq (turns : List WsTurn) :
    forward turns = (goingOn turns).flatMap WsTurn.frames := by
  induction turns with
  | nil => rfl
  | cons turn turns ih =>
    rw [forward, goingOn_cons, ih]
    by_cases h : turn.breaks = true
    · rw [if_pos h, if_pos h, WsTurn.frames_of_breaks h]
      rfl
    · rw [if_neg h, if_neg h, List.flatMap_cons]

theorem goes_on_of_mem {turns : List WsTurn} {turn : WsTurn} (h : turn ∈ goingOn turns) :
    turn.breaks = false := by
  have hgoes := List.mem_takeWhile_imp h
  simpa using hgoes

/-- **The texts are what the bus hands over**, in order, until the loop breaks. -/
theorem textsOf_forward (turns : List WsTurn) :
    textsOf (forward turns) = ((goingOn turns).filterMap WsTurn.payload).map Utf8.lossy := by
  rw [textsOf, forward_eq, List.filterMap_flatMap, List.filterMap_eq_flatMap_toList,
    List.map_flatMap]
  exact List.flatMap_congr (fun turn hturn => (WsTurn.frames_of_goes_on (goes_on_of_mem hturn)).1)

/-- **The pongs answer the pings**, in order, until the loop breaks. -/
theorem pongsOf_forward (turns : List WsTurn) :
    pongsOf (forward turns) = (goingOn turns).filterMap WsTurn.ping := by
  rw [pongsOf, forward_eq, List.filterMap_flatMap, List.filterMap_eq_flatMap_toList]
  exact List.flatMap_congr (fun turn hturn => (WsTurn.frames_of_goes_on (goes_on_of_mem hturn)).2)

/-- Where no turn breaks the loop, all of them go on. -/
theorem goingOn_eq_self {turns : List WsTurn} (h : ∀ turn ∈ turns, turn.breaks = false) :
    goingOn turns = turns := by
  rw [goingOn, List.takeWhile_eq_self_iff]
  intro turn hturn
  rw [h turn hturn]
  rfl

/-! ## The routes

A route subscribes to the pattern of its topic. What the bus hands over to it are the messages of
the topic from some moment on, and the loop sends these on. -/

/-- What NATS hands to a subscriber: messages its subject captures, in order. Of a subscriber that
is slow it drops some. -/
def HandsOver (n : Nats) (subject : Str) (log : List (Str × Bytes)) (turns : List WsTurn) : Prop :=
  (turns.filterMap WsTurn.payload).Sublist
    ((log.filter (fun m => n.captures subject m.1)).map Prod.snd)

/-- Of the messages on the bus a client of a topic is handed some, and is sent those that were
handed over before the loop broke: in a turn in which the subscription was closed, a text did not
reach the client, or the client was gone. -/
structure Served (c : Crates) (j : PublisherJson) (topic : String)
    (log : List (UInt16 × PublishCall)) (turns : List WsTurn) (texts : List Str)
    (handed sent : List (UInt16 × PublishCall)) : Prop where
  ofTopic : handed.Sublist (log.filter (fun p => p.2.topic = topic))
  payloads : turns.filterMap WsTurn.payload = handed.map (fun p => p.2.payload c j)
  inOrder : sent <+: handed
  /-- Every turn up to the break counts, and none from there on. -/
  upToBreak : sent.map (fun p => p.2.payload c j) = (goingOn turns).filterMap WsTurn.payload
  /-- No message is left out as long as the loop goes on. -/
  all : (∀ turn ∈ turns, turn.breaks = false) → sent = handed
  lossy : texts = sent.map (fun p => Utf8.lossy (p.2.payload c j))
  /-- What is UTF-8 arrives as it was published. -/
  verbatim : (∀ p ∈ sent, Utf8.WellFormed (p.2.payload c j)) →
    texts = sent.map (fun p => p.2.payload c j)

section

variable {c : Crates} {j : PublisherJson} {n : Nats}

/-- What a loop sends on is that of a served client. What was handed over comes from the bus in
order, and what was sent are the texts of the turns before the break. -/
theorem served_forward {topic : String} (htopic : topic ∈ topics)
    {log : List (UInt16 × PublishCall)} {turns : List WsTurn}
    (hturns : HandsOver n (patternOf topic) (busLog c j log) turns) :
    ∃ handed sent, Served c j topic log turns (textsOf (forward turns)) handed sent := by
  rw [HandsOver, filter_busLog n htopic, List.sublist_map_iff] at hturns
  obtain ⟨handed, hof, hhanded⟩ := hturns
  have hbefore : (goingOn turns).filterMap WsTurn.payload
      <+: handed.map (fun p => p.2.payload c j) := by
    rw [← hhanded]
    exact (List.takeWhile_prefix _).filterMap _
  rw [← List.filterMap_eq_map'] at hbefore
  obtain ⟨sent, hsent, hgoing, hall⟩ := exists_prefix_filterMap hbefore
  rw [List.filterMap_eq_map'] at hgoing hall
  have htexts : textsOf (forward turns)
      = sent.map (fun p => Utf8.lossy (p.2.payload c j)) := by
    rw [textsOf_forward, hgoing, List.map_map]
    rfl
  refine ⟨handed, sent, hof, hhanded, hsent, hgoing.symm, fun hgoes => ?_, htexts,
    fun hutf8 => ?_⟩
  · exact hall (by rw [goingOn_eq_self hgoes, hhanded])
  · rw [htexts]
    exact List.map_congr_left (fun p hp => Utf8.lossy_of_wellFormed (hutf8 p hp))

/-- The confirmation is UTF-8, since subjects are ASCII. -/
theorem wellFormed_connected {path : String} {subject : Str} (h : (path, subject) ∈ wsRoutes) :
    Utf8.WellFormed (connected subject) := by
  have hascii : wsRoutes.all (fun r => (connected r.2).all (fun b => b < 0x80)) = true := by
    decide +kernel
  have hroute := List.all_eq_true.mp hascii (path, subject) h
  exact Utf8.wellFormed_of_lt (fun b hb => of_decide_eq_true (List.all_eq_true.mp hroute b hb))

/-- **Every client is served the messages of its topic.** Whatever is published and in whatever
order the branches of the loop are ready: after a confirmation the texts of a client are the
messages of the topic of its route that NATS hands over, in order and without a gap, until the loop
breaks; all of them are UTF-8, and up to the same turn its pings are answered. -/
theorem subscribers_served {path : String} {subject : Str} (hroute : (path, subject) ∈ wsRoutes)
    {log : List (UInt16 × PublishCall)} {turns : List WsTurn}
    (hturns : HandsOver n subject (busLog c j log) turns) (reached : Bool) :
    ∃ topic texts handed sent, (path, topic) ∈ wsTopics ∧
      Served c j topic log turns texts handed sent ∧
      textsOf (handleWsSubscription subject (.ok ()) reached turns)
        = (if reached then [connected subject] else []) ++ texts ∧
      (∀ text ∈ textsOf (handleWsSubscription subject (.ok ()) reached turns),
        Utf8.WellFormed text) ∧
      pongsOf (handleWsSubscription subject (.ok ()) reached turns)
        = (goingOn turns).filterMap WsTurn.ping := by
  have hconnected := wellFormed_connected hroute
  rw [wsRoutes_eq, List.mem_map] at hroute
  obtain ⟨⟨path', topic⟩, hmem, heq⟩ := hroute
  obtain ⟨rfl, rfl⟩ := Prod.mk.inj heq
  have htopic : topic ∈ topics := by
    have hall : ∀ r ∈ wsTopics, r.2 ∈ topics := by decide
    exact hall _ hmem
  obtain ⟨handed, sent, hserved⟩ := served_forward htopic hturns
  have htexts : textsOf (handleWsSubscription (patternOf topic) (.ok ()) reached turns)
      = (if reached then [connected (patternOf topic)] else []) ++ textsOf (forward turns) := by
    cases reached <;> rfl
  refine ⟨topic, textsOf (forward turns), handed, sent, hmem, hserved, htexts, ?_, ?_⟩
  · intro text htext
    rw [htexts, List.mem_append] at htext
    rcases htext with htext | htext
    · cases reached with
      | false => cases htext
      | true =>
        rw [List.mem_singleton.mp htext]
        exact hconnected
    · rw [hserved.lossy] at htext
      obtain ⟨p, -, rfl⟩ := List.mem_map.mp htext
      exact Utf8.wellFormed_lossy _
  · -- the confirmation is a text
    rw [← pongsOf_forward]
    cases reached <;> rfl

end

/-- Two entities with a state digest between them, in different epochs. -/
def sampleLog : List (UInt16 × PublishCall) :=
  [(9, .entity idleEntity), (9, .logStateDigest ⟨[]⟩), (10, .entity idleEntity)]

/-- A ping comes between the entities, and the client closes before the second one. -/
def sampleTurns : List WsTurn :=
  [.bus (some idleEntity.json) true, .client (some (.ok (.ping [1]))) true,
    .client (some (.ok .close)) true, .bus (some idleEntity.json) true]

/-- A client of the entity route. -/
theorem subscribers_served_entity :
    ∃ topic texts handed sent, ("/ws/entity", topic) ∈ wsTopics ∧
      Served entityCrates .silent topic sampleLog sampleTurns texts handed sent ∧
      textsOf (handleWsSubscription (ascii "Q.*.QONDUIT.ENTITY") (.ok ()) true sampleTurns)
        = (if true then [connected (ascii "Q.*.QONDUIT.ENTITY")] else []) ++ texts ∧
      (∀ text ∈ textsOf (handleWsSubscription (ascii "Q.*.QONDUIT.ENTITY") (.ok ()) true
        sampleTurns), Utf8.WellFormed text) ∧
      pongsOf (handleWsSubscription (ascii "Q.*.QONDUIT.ENTITY") (.ok ()) true sampleTurns)
        = (goingOn sampleTurns).filterMap WsTurn.ping := by
  have hroute : ("/ws/entity", ascii "Q.*.QONDUIT.ENTITY") ∈ wsRoutes := by decide +kernel
  have hturns : HandsOver .literal (ascii "Q.*.QONDUIT.ENTITY")
      (busLog entityCrates .silent sampleLog) sampleTurns := by
    unfold HandsOver
    decide +kernel
  exact subscribers_served hroute hturns true

end Qonduit

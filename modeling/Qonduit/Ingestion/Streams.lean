import Mathlib.Data.List.AList
import Qonduit.Core.Json
import Qonduit.Lib.Reconcile
import Qonduit.Lib.Subjects

/-!
# Qonduit — the streams of the bus

`nats_setup.rs`: fifteen JetStream streams, each with the subjects it captures. `ensure_streams`
goes through them at start: a missing stream is created, one with outdated subjects is deleted and
created anew, and whatever the server refuses is logged and left for the next start.

The server refuses a new stream whose subjects overlap those of another one. A stream that is
still outdated may therefore stand in the way of one that is created before its turn comes, and one
of another program stands there for good.

* **`JetStream`** — what the program relies on of the server.
* **`get_ensureStreams_of_rightful`** — whatever fails, a stream with the right subjects keeps its
  messages.
* **`ensure_streams_settles`** — after any starts, two in which no call fails leave all streams
  in place, unless a foreign stream is in the way, and no later start changes anything.
-/

namespace Qonduit

/-- Subjects of the bus: tokens between dots, `*` for any one token. -/
def natsGrammar : Subjects.Grammar UInt8 where
  sep := 46
  star := [42]

/-- What the NATS server does with subjects. A pattern without the wildcard `>` captures token by
token; two patterns overlap only where they capture a common subject. -/
structure Nats where
  captures : Str → Str → Bool
  captures_iff : ∀ {pattern subject : Str}, 62 ∉ pattern →
    (captures pattern subject = true ↔ natsGrammar.Takes pattern subject)
  overlaps : Str → Str → Bool
  captured_of_overlaps : ∀ {p q : Str}, overlaps p q = true →
    ∃ subject, captures p subject = true ∧ captures q subject = true

structure StreamDef where
  name : String
  subjects : List Str
  deriving DecidableEq

def streamDefinitions : List StreamDef :=
  [{ name := "QONDUIT_TICK", subjects := [ascii "Q.*.QONDUIT.TICK"] },
    { name := "QONDUIT_TX", subjects := [ascii "Q.*.QONDUIT.TX"] },
    { name := "QONDUIT_ENTITY", subjects := [ascii "Q.*.QONDUIT.ENTITY"] },
    { name := "QONDUIT_COMPUTORS", subjects := [ascii "Q.*.QONDUIT.COMPUTORS"] },
    { name := "QONDUIT_CUSTMSG", subjects := [ascii "Q.*.QONDUIT.CUSTMSG"] },
    { name := "QONDUIT_ORACLE", subjects := [ascii "Q.*.QONDUIT.ORACLE"] },
    { name := "QONDUIT_ASSET", subjects := [ascii "Q.*.QONDUIT.ASSET"] },
    { name := "QONDUIT_CONTRACT", subjects := [ascii "Q.*.QONDUIT.CONTRACT"] },
    { name := "QONDUIT_TICKVOTE", subjects := [ascii "Q.*.QONDUIT.TICKVOTE"] },
    { name := "QONDUIT_CFNR", subjects := [ascii "Q.*.QONDUIT.CFNR"] },
    { name := "QONDUIT_QUORUM", subjects := [ascii "Q.*.QONDUIT.QUORUM"] },
    { name := "QONDUIT_LOG", subjects := [ascii "Q.*.QONDUIT.LOG"] },
    { name := "QONDUIT_LOGDIGEST", subjects := [ascii "Q.*.QONDUIT.LOGDIGEST"] },
    { name := "QONDUIT_MINING", subjects := [ascii "Q.*.QONDUIT.MINING"] },
    { name := "QONDUIT_SPECTRUM", subjects := [ascii "Q.*.QONDUIT.SPECTRUM"] }]

/-! ## The server

The server is not part of the program. What `ensure_streams` relies on are the laws of its three
calls, as far as they can be seen through the lookup of a stream. -/

structure StreamState where
  subjects : List Str
  messages : List Bytes := []
  deriving DecidableEq

/-- A JetStream server. A refusal for want of space or of rights is not a law of the server but a
failed call. -/
structure JetStream (n : Nats) where
  State : Type
  getStream : State → String → Option StreamState
  deleteStream : String → State → State
  createStream : StreamDef → State → State
  get_delete_self : ∀ s name, getStream (deleteStream name s) name = none
  get_delete_of_ne : ∀ s name other, other ≠ name →
    getStream (deleteStream name s) other = getStream s other
  /-- A name in use is refused. -/
  get_create_of_used : ∀ s d state, getStream s d.name = some state →
    getStream (createStream d s) d.name = some state
  get_create_of_ne : ∀ s d other, other ≠ d.name →
    getStream (createStream d s) other = getStream s other
  /-- A new stream has the subjects it was created with. -/
  get_created : ∀ s d, getStream s d.name = none →
    getStream (createStream d s) d.name = none ∨
      getStream (createStream d s) d.name = some { subjects := d.subjects }
  /-- Subjects are refused only where a stream of another name captures some of them. -/
  refused : ∀ s d, getStream s d.name = none → getStream (createStream d s) d.name = none →
    ∃ name state, name ≠ d.name ∧ getStream s name = some state ∧
      ∃ p ∈ state.subjects, ∃ q ∈ d.subjects, n.overlaps p q = true

/-- How the calls for one definition fare. A reply can be lost after the server has acted. -/
structure Calls where
  get : Bool := true
  info : Bool := true
  deleteActs : Bool := true
  deleteReplies : Bool := true
  createActs : Bool := true

/-- The body of the loop of `ensure_streams`. -/
def ensureStream {n : Nats} (js : JetStream n) (calls : Calls) (d : StreamDef) (s : js.State) :
    js.State :=
  let created (s : js.State) := if calls.createActs then js.createStream d s else s
  match if calls.get then js.getStream s d.name else none with
  | some state =>
    if calls.info then
      if state.subjects ≠ d.subjects then
        let s := if calls.deleteActs then js.deleteStream d.name s else s
        -- `continue` after a failed delete
        if calls.deleteReplies then created s else s
      else s
    else s
  | none => created s

/-- One start. The function itself never fails. -/
def ensureStreams {n : Nats} (js : JetStream n) (calls : StreamDef → Calls) (s : js.State) :
    js.State :=
  Reconcile.pass (fun d => ensureStream js (calls d) d) streamDefinitions s

/-- A start in which no call fails. -/
def faultless : StreamDef → Calls := fun _ => {}

def starts {n : Nats} (js : JetStream n) (history : List (StreamDef → Calls)) (s : js.State) :
    js.State :=
  history.foldl (fun s calls => ensureStreams js calls s) s

/-! ## One definition

What a step does to the stream of its own definition, and that it leaves all others. -/

/-- The stream of a definition is there, with its subjects. -/
def Rightful (d : StreamDef) (v : Option StreamState) : Prop :=
  ∃ state, v = some state ∧ state.subjects = d.subjects

section Step

variable {n : Nats} {js : JetStream n} {calls : Calls} {d : StreamDef} {s : js.State}

theorem get_created_of_ne {other : String} (h : other ≠ d.name) (s : js.State) :
    js.getStream (if calls.createActs then js.createStream d s else s) other
      = js.getStream s other := by
  cases calls.createActs with
  | false => rfl
  | true => exact js.get_create_of_ne s d other h

/-- Another stream is left alone. The calls of a step name the stream of its definition, and a law
of the server says that they touch no other. -/
theorem get_ensureStream_of_ne {other : String} (h : other ≠ d.name) :
    js.getStream (ensureStream js calls d s) other = js.getStream s other := by
  have hdeleted : js.getStream (if calls.deleteActs then js.deleteStream d.name s else s) other
      = js.getStream s other := by
    cases calls.deleteActs with
    | false => rfl
    | true => exact js.get_delete_of_ne s d.name other h
  rw [ensureStream]
  cases (if calls.get then js.getStream s d.name else none) with
  | none => exact get_created_of_ne h s
  | some state =>
    dsimp only
    cases calls.info with
    | false => rfl
    | true =>
      by_cases hsubjects : state.subjects = d.subjects
      · simp [hsubjects]
      · simp only [if_true, ne_eq, hsubjects, not_false_eq_true]
        cases calls.deleteReplies with
        | false => exact hdeleted
        | true => exact (get_created_of_ne h _).trans hdeleted

/-- **A stream with the right subjects is left alone**, whatever fails: the most that is tried is to
create it once more. -/
theorem get_ensureStream_of_rightful (h : Rightful d (js.getStream s d.name)) (name : String) :
    js.getStream (ensureStream js calls d s) name = js.getStream s name := by
  by_cases hname : name = d.name
  · subst hname
    obtain ⟨state, hget, hsubjects⟩ := h
    have hcreated : js.getStream (if calls.createActs then js.createStream d s else s) d.name
        = js.getStream s d.name := by
      cases calls.createActs with
      | false => rfl
      | true => exact (js.get_create_of_used s d state hget).trans hget.symm
    rw [ensureStream]
    cases calls.get with
    | false => exact hcreated
    | true => simp only [if_true, hget, hsubjects, ne_eq, not_true_eq_false, if_false, ite_self]
  · exact get_ensureStream_of_ne hname

/-- A creation that is called for leaves the stream absent or right. -/
theorem create_settles (h : js.getStream s d.name = none) :
    js.getStream (js.createStream d s) d.name = none ∨
      Rightful d (js.getStream (js.createStream d s) d.name) := by
  rcases js.get_created s d h with hnone | hsome
  · exact .inl hnone
  · exact .inr ⟨_, hsome, rfl⟩

/-- A faultless step creates a stream that is absent. -/
theorem ensureStream_of_absent (h : js.getStream s d.name = none) :
    ensureStream js {} d s = js.createStream d s := by
  simp only [ensureStream, if_true, h]

/-- Without a failing call a stream is afterwards absent or right. -/
theorem ensureStream_settles :
    js.getStream (ensureStream js {} d s) d.name = none ∨
      Rightful d (js.getStream (ensureStream js {} d s) d.name) := by
  cases hget : js.getStream s d.name with
  | none =>
    rw [ensureStream_of_absent hget]
    exact create_settles hget
  | some state =>
    by_cases hsubjects : state.subjects = d.subjects
    · have hright : Rightful d (js.getStream s d.name) := ⟨state, hget, hsubjects⟩
      rw [get_ensureStream_of_rightful hright]
      exact .inr hright
    · have hstep : ensureStream js {} d s = js.createStream d (js.deleteStream d.name s) := by
        simp only [ensureStream, if_true, hget, ne_eq, hsubjects, not_false_eq_true]
      rw [hstep]
      exact create_settles (js.get_delete_self s d.name)

end Step

/-! ## The patterns

The subjects of the streams are one pattern for each topic. No two of them match a common subject,
and that follows from the topics being different words without a dot or a wildcard. -/

def topics : List String :=
  ["TICK", "TX", "ENTITY", "COMPUTORS", "CUSTMSG", "ORACLE", "ASSET", "CONTRACT", "TICKVOTE",
    "CFNR", "QUORUM", "LOG", "LOGDIGEST", "MINING", "SPECTRUM"]

/-- `Q.*.QONDUIT.{topic}`. -/
def patternOf (topic : String) : Str :=
  natsGrammar.join ([ascii "Q", natsGrammar.star, ascii "QONDUIT"] ++ [ascii topic])

def StreamDef.of (topic : String) : StreamDef where
  name := "QONDUIT_" ++ topic
  subjects := [patternOf topic]

/-- The definitions are one for each topic. -/
theorem streamDefinitions_eq : streamDefinitions = topics.map StreamDef.of := by
  decide +kernel

theorem nodup_streamDefinitions : (streamDefinitions.map StreamDef.name).Nodup := by
  decide +kernel

/-- A text that can be the last token of a subject. -/
def IsTopic (topic : String) : Prop := 46 ∉ ascii topic ∧ 62 ∉ ascii topic ∧ ascii topic ≠ [42]

instance (topic : String) : Decidable (IsTopic topic) := inferInstanceAs (Decidable (_ ∧ _ ∧ _))

/-- The topics have neither a dot nor a wildcard in them. -/
theorem isTopic_of_mem : ∀ topic ∈ topics, IsTopic topic := by decide +kernel

theorem ascii_topics : ∀ t ∈ topics, ∀ u ∈ topics, ascii t = ascii u → t = u := by decide +kernel

theorem proper_patternOf {topic : String} (h : IsTopic topic) :
    natsGrammar.Proper ([ascii "Q", natsGrammar.star, ascii "QONDUIT"] ++ [ascii topic]) :=
  .concat (by decide) h.1

/-- A pattern is the common beginning and the topic. -/
theorem patternOf_eq (topic : String) :
    patternOf topic = ascii "Q.*.QONDUIT." ++ ascii topic := by
  have hstem : ascii "Q.*.QONDUIT."
      = ascii "Q" ++ (46 :: 42 :: 46 :: (ascii "QONDUIT" ++ [46])) := by decide
  rw [hstem]
  simp [patternOf, Subjects.Grammar.join, List.intercalate, natsGrammar]

/-- None has the wildcard for the rest of a subject. -/
theorem not_mem_patternOf {topic : String} (h : IsTopic topic) : 62 ∉ patternOf topic := by
  rw [patternOf_eq, List.mem_append, not_or]
  exact ⟨by decide, h.2.1⟩

/-- Two of the streams capture no common subject. -/
theorem overlaps_topics (n : Nats) {t u : String} (ht : IsTopic t) (hu : IsTopic u)
    (hne : ascii t ≠ ascii u) : n.overlaps (patternOf t) (patternOf u) = false := by
  cases hoverlaps : n.overlaps (patternOf t) (patternOf u) with
  | false => rfl
  | true =>
    obtain ⟨subject, hleft, hright⟩ := n.captured_of_overlaps hoverlaps
    have hleft := (n.captures_iff (not_mem_patternOf ht)).mp hleft
    have hright := (n.captures_iff (not_mem_patternOf hu)).mp hright
    exact absurd hright (Subjects.Grammar.not_takes_both (proper_patternOf ht)
      (proper_patternOf hu) ht.2.2 hu.2.2 hne hleft)

/-! ## All definitions

One faultless start can leave a stream absent, where one that is still outdated stood in its way.
The second finds nothing outdated any more. -/

section Pass

variable {n : Nats} {js : JetStream n} {s : js.State}

/-- Streams of other programs stay out of the way: none captures what a definition captures. -/
def Unobstructed (js : JetStream n) (s : js.State) : Prop :=
  ∀ name state, js.getStream s name = some state →
    name ∉ streamDefinitions.map StreamDef.name →
    ∀ d ∈ streamDefinitions, ∀ p ∈ state.subjects, ∀ q ∈ d.subjects, n.overlaps p q = false

/-- No stream of the program is outdated. -/
def Cleared (js : JetStream n) (s : js.State) : Prop :=
  ∀ d ∈ streamDefinitions, js.getStream s d.name = none ∨ Rightful d (js.getStream s d.name)

def Settled (js : JetStream n) (s : js.State) : Prop :=
  ∀ d ∈ streamDefinitions, Rightful d (js.getStream s d.name)

/-- Subjects of two definitions do not overlap. -/
theorem overlaps_definitions (n : Nats) {d e : StreamDef} (hd : d ∈ streamDefinitions)
    (he : e ∈ streamDefinitions) (hne : d.name ≠ e.name) {p q : Str} (hp : p ∈ d.subjects)
    (hq : q ∈ e.subjects) : n.overlaps p q = false := by
  rw [streamDefinitions_eq] at hd he
  obtain ⟨t, ht, rfl⟩ := List.mem_map.mp hd
  obtain ⟨u, hu, rfl⟩ := List.mem_map.mp he
  rw [List.mem_singleton.mp hp, List.mem_singleton.mp hq]
  refine overlaps_topics n (isTopic_of_mem t ht) (isTopic_of_mem u hu) (fun heq => hne ?_)
  rw [ascii_topics t ht u hu heq]

theorem local_ensureStream (js : JetStream n) (calls : StreamDef → Calls) :
    Reconcile.Local js.getStream StreamDef.name (fun d => ensureStream js (calls d) d) :=
  fun _ _ _ h => get_ensureStream_of_ne h

/-- No step puts a foreign stream in the way. -/
theorem unobstructed_ensureStream {calls : Calls} {d : StreamDef} (hd : d ∈ streamDefinitions)
    (h : Unobstructed js s) : Unobstructed js (ensureStream js calls d s) := by
  intro name state hget hname
  have hne : name ≠ d.name := fun heq => hname (heq ▸ List.mem_map_of_mem hd)
  rw [get_ensureStream_of_ne hne] at hget
  exact h name state hget hname

/-- The name of a definition tells which it is. -/
theorem eq_of_name {d e : StreamDef} (hd : d ∈ streamDefinitions) (he : e ∈ streamDefinitions)
    (h : d.name = e.name) : d = e :=
  List.inj_on_of_nodup_map nodup_streamDefinitions hd he h

/-- A faultless step leaves no stream outdated that was not. -/
theorem cleared_ensureStream {d : StreamDef} (hd : d ∈ streamDefinitions) (h : Cleared js s) :
    Cleared js (ensureStream js {} d s) := by
  intro e he
  by_cases hname : e.name = d.name
  · rw [eq_of_name he hd hname]
    exact ensureStream_settles
  · rw [get_ensureStream_of_ne hname]
    exact h e he

/-- Nothing stands in the way of a stream once no definition is outdated. -/
theorem get_create_of_cleared {d : StreamDef} (hd : d ∈ streamDefinitions)
    (hforeign : Unobstructed js s) (hcleared : Cleared js s)
    (hget : js.getStream s d.name = none) :
    js.getStream (js.createStream d s) d.name ≠ none := by
  intro hrefused
  obtain ⟨name, state, hne, hstate, p, hp, q, hq, hoverlaps⟩ := js.refused s d hget hrefused
  by_cases hname : name ∈ streamDefinitions.map StreamDef.name
  · -- a stream of another definition: it has the subjects of that definition
    obtain ⟨e, he, rfl⟩ := List.mem_map.mp hname
    rcases hcleared e he with hnone | ⟨state', hsome, hsubjects⟩
    · rw [hstate] at hnone
      cases hnone
    · obtain rfl : state = state' := Option.some.inj (hstate.symm.trans hsome)
      rw [hsubjects] at hp
      rw [overlaps_definitions n he hd hne hp hq] at hoverlaps
      cases hoverlaps
  · rw [hforeign name state hstate hname d hd p hp q hq] at hoverlaps
    cases hoverlaps

/-- With nothing in its way, a faultless step leaves its stream right. -/
theorem rightful_ensureStream {d : StreamDef} (hd : d ∈ streamDefinitions)
    (hforeign : Unobstructed js s) (hcleared : Cleared js s) :
    Rightful d (js.getStream (ensureStream js {} d s) d.name) := by
  rcases hcleared d hd with hnone | hright
  · rw [ensureStream_of_absent hnone]
    exact (create_settles hnone).resolve_left (get_create_of_cleared hd hforeign hcleared hnone)
  · rw [get_ensureStream_of_rightful hright]
    exact hright

/-- No start puts a foreign stream in the way. -/
theorem unobstructed_ensureStreams (calls : StreamDef → Calls) (h : Unobstructed js s) :
    Unobstructed js (ensureStreams js calls s) :=
  Reconcile.invariant_pass (fun _ hd _ h => unobstructed_ensureStream hd h) h

/-- One faultless start leaves no stream outdated. -/
theorem cleared_faultless : Cleared js (ensureStreams js faultless s) := by
  have hstep : ∀ d ∈ streamDefinitions, ∀ s : js.State, True → True ∧
      (js.getStream (ensureStream js {} d s) d.name = none ∨
        Rightful d (js.getStream (ensureStream js {} d s) d.name)) :=
    fun _ _ _ _ => ⟨trivial, ensureStream_settles⟩
  exact Reconcile.pass_establishes (P := fun d v => v = none ∨ Rightful d v)
    (local_ensureStream js faultless) nodup_streamDefinitions hstep trivial

/-- A faultless start after which nothing was outdated leaves every stream in place. -/
theorem settled_faultless (hforeign : Unobstructed js s) (hcleared : Cleared js s) :
    Settled js (ensureStreams js faultless s) := by
  have hstep : ∀ d ∈ streamDefinitions, ∀ s : js.State, (Unobstructed js s ∧ Cleared js s) →
      (Unobstructed js (ensureStream js {} d s) ∧ Cleared js (ensureStream js {} d s)) ∧
        Rightful d (js.getStream (ensureStream js {} d s) d.name) :=
    fun d hd s h => ⟨⟨unobstructed_ensureStream hd h.1, cleared_ensureStream hd h.2⟩,
      rightful_ensureStream hd h.1 h.2⟩
  exact Reconcile.pass_establishes (P := Rightful) (local_ensureStream js faultless)
    nodup_streamDefinitions hstep ⟨hforeign, hcleared⟩

/-- **A stream with the right subjects is left alone** by any start, with its messages. -/
theorem get_ensureStreams_of_rightful {d : StreamDef} (hd : d ∈ streamDefinitions)
    (h : Rightful d (js.getStream s d.name)) (calls : StreamDef → Calls) :
    js.getStream (ensureStreams js calls s) d.name = js.getStream s d.name := by
  refine Reconcile.invariant_pass
    (I := fun s' : js.State => js.getStream s' d.name = js.getStream s d.name) ?_ rfl
  intro e he s' hget
  by_cases hname : d.name = e.name
  · rw [← eq_of_name hd he hname, get_ensureStream_of_rightful (hget ▸ h)]
    exact hget
  · rw [get_ensureStream_of_ne hname]
    exact hget

/-- A start does not touch a stream of another name. -/
theorem get_ensureStreams_of_foreign {name : String}
    (h : name ∉ streamDefinitions.map StreamDef.name) (calls : StreamDef → Calls) :
    js.getStream (ensureStreams js calls s) name = js.getStream s name :=
  Reconcile.get_pass_of_not_mem (local_ensureStream js calls) h s

end Pass

/-! ## Any history of starts

A start may fail at any of its calls, and may be followed by any others. What one start keeps, every
history keeps, by induction on the starts. -/

section Runs

variable {n : Nats} {js : JetStream n} {s : js.State} (history : List (StreamDef → Calls))

@[simp] theorem starts_nil : starts js [] s = s := rfl

theorem starts_cons (calls : StreamDef → Calls) :
    starts js (calls :: history) s = starts js history (ensureStreams js calls s) := rfl

theorem starts_append (later : List (StreamDef → Calls)) :
    starts js (history ++ later) s = starts js later (starts js history s) :=
  List.foldl_append

/-- No history puts a foreign stream in the way. -/
theorem unobstructed_starts (h : Unobstructed js s) : Unobstructed js (starts js history s) := by
  induction history generalizing s with
  | nil => exact h
  | cons calls history ih =>
    rw [starts_cons]
    exact ih (unobstructed_ensureStreams calls h)

/-- A stream with the right subjects is left alone by every history. -/
theorem get_starts_of_rightful {d : StreamDef} (hd : d ∈ streamDefinitions)
    (h : Rightful d (js.getStream s d.name)) :
    js.getStream (starts js history s) d.name = js.getStream s d.name := by
  induction history generalizing s with
  | nil => rfl
  | cons calls history ih =>
    have hstep := get_ensureStreams_of_rightful hd h calls
    rw [starts_cons, ih (hstep ▸ h), hstep]

theorem get_starts_of_foreign {name : String} (h : name ∉ streamDefinitions.map StreamDef.name) :
    js.getStream (starts js history s) name = js.getStream s name := by
  induction history generalizing s with
  | nil => rfl
  | cons calls history ih =>
    rw [starts_cons, ih]
    exact get_ensureStreams_of_foreign h calls

/-- A settled server stays as it is: each stream is one of the program or a foreign one. -/
theorem get_starts_of_settled (h : Settled js s) (name : String) :
    js.getStream (starts js history s) name = js.getStream s name := by
  by_cases hname : name ∈ streamDefinitions.map StreamDef.name
  · obtain ⟨d, hd, rfl⟩ := List.mem_map.mp hname
    exact get_starts_of_rightful history hd (h d hd)
  · exact get_starts_of_foreign history hname

end Runs

/-- What repeated starts do to a server. -/
structure Reconciles {n : Nats} (js : JetStream n) (s : js.State)
    (history : List (StreamDef → Calls)) : Prop where
  /-- A stream once right is never touched again. -/
  kept : ∀ before after, history = before ++ after → ∀ d ∈ streamDefinitions,
    Rightful d (js.getStream (starts js before s) d.name) →
      js.getStream (starts js history s) d.name = js.getStream (starts js before s) d.name
  /-- The streams of other programs are never touched. -/
  foreign : ∀ name, name ∉ streamDefinitions.map StreamDef.name →
    js.getStream (starts js history s) name = js.getStream s name
  /-- Two starts in which no call fails bring every stream into place, unless a stream of another
  program is in the way. -/
  settled : Unobstructed js s → Settled js (starts js (history ++ [faultless, faultless]) s)
  /-- Once every stream is in place a start changes nothing, whatever fails. -/
  stable : Settled js (starts js history s) → ∀ later name,
    js.getStream (starts js (history ++ later) s) name = js.getStream (starts js history s) name

/-- **Starts reconcile.** Whatever calls fail, no start ever drops a message of a stream that is
right or touches a foreign one; and where no foreign stream is in the way, two starts without a
failure settle the streams, for good. -/
theorem ensure_streams_settles {n : Nats} (js : JetStream n) (s : js.State)
    (history : List (StreamDef → Calls)) : Reconciles js s history := by
  refine ⟨?_, fun name => get_starts_of_foreign history, fun hforeign => ?_, ?_⟩
  · intro before after heq d hd hright
    rw [heq, starts_append]
    exact get_starts_of_rightful after hd hright
  · -- the first clears what is outdated, the second finds nothing in its way
    rw [starts_append, starts_cons, starts_cons, starts_nil]
    exact settled_faultless
      (unobstructed_ensureStreams faultless (unobstructed_starts history hforeign))
      cleared_faultless
  · intro hsettled later name
    rw [starts_append]
    exact get_starts_of_settled later hsettled name

/-! ## A server

A server with the laws above: it keeps its streams in a list and refuses to create one whose
subjects overlap those of another. -/

/-- The bus on which only equal patterns overlap. -/
def Nats.literal : Nats where
  captures pattern subject := decide (natsGrammar.Takes pattern subject)
  captures_iff _ := decide_eq_true_iff
  overlaps p q := p == q
  captured_of_overlaps := by
    intro p q h
    obtain rfl := eq_of_beq h
    have hself : natsGrammar.Takes p p := List.forall₂_same.mpr (fun _ _ => Or.inr rfl)
    exact ⟨p, decide_eq_true hself, decide_eq_true hself⟩

/-- A server that keeps its streams by name. It refuses a name in use and, where another stream has
a subject that overlaps, the subjects. -/
def Nats.server (n : Nats) : JetStream n where
  State := AList (fun _ : String => StreamState)
  getStream s name := s.lookup name
  deleteStream name s := s.erase name
  createStream d s :=
    if d.name ∈ s then s
    else if s.entries.any (fun e => e.2.subjects.any fun p => d.subjects.any (n.overlaps p)) then s
    else s.insert d.name { subjects := d.subjects }
  get_delete_self s name := AList.lookup_erase name s
  get_delete_of_ne s name other h := AList.lookup_erase_ne h
  get_create_of_used s d state h := by
    have hmem : d.name ∈ s := AList.lookup_isSome.mp (by rw [h]; rfl)
    rw [if_pos hmem]
    exact h
  get_create_of_ne s d other h := by
    split
    · rfl
    · split
      · rfl
      · exact AList.lookup_insert_ne h
  get_created s d h := by
    split
    · exact .inl h
    · split
      · exact .inl h
      · exact .inr (AList.lookup_insert s)
  refused s d h hrefused := by
    rw [if_neg (AList.lookup_eq_none.mp h)] at hrefused
    split at hrefused
    · next hany =>
      obtain ⟨e, he, hany⟩ := List.any_eq_true.mp hany
      obtain ⟨p, hp, hany⟩ := List.any_eq_true.mp hany
      obtain ⟨q, hq, hoverlaps⟩ := List.any_eq_true.mp hany
      have hget : s.lookup e.1 = some e.2 := AList.mem_lookup_iff.mpr he
      refine ⟨e.1, e.2, fun hname => ?_, hget, p, hp, q, hq, hoverlaps⟩
      rw [hname, h] at hget
      cases hget
    · rw [AList.lookup_insert] at hrefused
      cases hrefused

/-- The stream of transactions still holds the subjects of the ticks. -/
def outdatedStreams : AList (fun _ : String => StreamState) :=
  AList.insert "QONDUIT_TX" { subjects := [patternOf "TICK"], messages := [[1]] } ∅

/-- Two starts settle the streams of a server that has an outdated one. -/
theorem ensure_streams_settles_outdated :
    Settled (Nats.server .literal)
      (starts (Nats.server .literal) [faultless, faultless] outdatedStreams) := by
  have hforeign : Unobstructed (Nats.server .literal) outdatedStreams := by
    intro name state hget hname
    have hlookup : outdatedStreams.lookup name = some state := hget
    have hmem : name ∈ outdatedStreams := AList.lookup_isSome.mp (by rw [hlookup]; rfl)
    rcases (AList.mem_insert _).mp hmem with rfl | hmem
    · exact absurd (by decide +kernel) hname
    · exact absurd hmem (AList.notMem_empty name)
  exact (ensure_streams_settles (Nats.server .literal) outdatedStreams []).settled hforeign

/-- One start does not settle it: the outdated stream keeps that of the ticks from being made. -/
example : (Nats.server .literal).getStream
    (starts (Nats.server .literal) [faultless] outdatedStreams) "QONDUIT_TICK" = none := by
  decide +kernel

end Qonduit

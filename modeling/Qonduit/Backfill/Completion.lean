import Qonduit.Backfill.Window

/-!
# Qonduit — what a completed tick stands for

`try_peer` counts a request as completed for any type 8 answer of eight bytes or more, whether or
not the payload decodes, whichever tick it carries and whether or not NATS takes it.

* **`mem_completions_tryPeer`** — the completed ticks of a session, by the reads that counted them.
* **`completed_ingested_iff`** — they were all ingested exactly when every answer that is counted
  passes the checks of `decode_tick`, carries the tick of its request and is published.
* **`completed_without_data`** — a zeroed payload is counted.
-/

namespace Qonduit

/-! ## The answers that are counted

A read completes a request if it is a packet of tick data under the dejavu of a pending request and
decoding it does not panic. What the session then shows is the tick of the request, what was
published and the tick the packet itself carries. -/

/-- What the read loop goes on with after `decode_and_publish`: an error is dropped, a panic is
not survived. -/
def survived {α : Type} : Outcome (Option α) → Option (Option α)
  | .error (.panic _) => none
  | .error (.err _) => some none
  | .ok published => some published

/-- An answer that is counted: the tick of its request, what was published for it, and the tick
its payload carries. -/
structure Answer where
  tick : UInt32
  published : Option Publication
  respTick : UInt32

/-- What a read counts as completed. -/
def answerOf (c : Crates) (s : Session) : Incoming → Option Answer
  | .packet msgType dejavu payload nats =>
    if s.ended = none ∧ msgType = 8 ∧ payload.length ≥ 8 then
      (s.find dejavu).bind fun entry =>
        (survived (decodeAndPublish c 8 payload (TickWire.epoch payload) nats)).map
          fun published => ⟨entry.tick, published, TickWire.tick payload⟩
    else none
  | .readError _ => none
  | .timeout => none

/-- What the rest of the program sees of a session: its completed ticks and the pipeline state. -/
def Session.observed (s : Session) : List (UInt32 × Option Publication) × PipelineState :=
  (completions s.log, s.pipeline)

/-- Counting an answer. -/
def Answer.count (a : Answer) (o : List (UInt32 × Option Publication) × PipelineState) :
    List (UInt32 × Option Publication) × PipelineState :=
  (o.1 ++ [(a.tick, a.published)],
   { o.2 with indexedTick := max o.2.indexedTick a.respTick })

section Completions

variable {c : Crates} {link : Link} {epoch : UInt16} {workerEnd : UInt32}

/-- While the session runs, the answer of a packet depends on the request found for its dejavu. -/
theorem answerOf_live {s : Session} {dejavu : UInt32} {payload : Bytes}
    {nats : Except String Unit} (hlive : s.ended = none) (hlen : payload.length ≥ 8) :
    answerOf c s (.packet 8 dejavu payload nats) = (s.find dejavu).bind fun entry =>
      (survived (decodeAndPublish c 8 payload (TickWire.epoch payload) nats)).map
        fun published => ⟨entry.tick, published, TickWire.tick payload⟩ :=
  if_pos ⟨hlive, rfl, hlen⟩

/-- **What makes a read count.** Every read that counts is such a packet, with its request and what
came of decoding it. -/
theorem answerOf_some {s : Session} {i : Incoming} {a : Answer} (h : answerOf c s i = some a) :
    ∃ dejavu payload nats entry published, i = .packet 8 dejavu payload nats ∧ s.ended = none ∧
      payload.length ≥ 8 ∧ s.find dejavu = some entry ∧
      survived (decodeAndPublish c 8 payload (TickWire.epoch payload) nats) = some published ∧
      a = ⟨entry.tick, published, TickWire.tick payload⟩ := by
  cases i with
  | readError e => cases h
  | timeout => cases h
  | packet msgType dejavu payload nats =>
    by_cases hcounts : s.ended = none ∧ msgType = 8 ∧ payload.length ≥ 8
    · obtain ⟨hlive, rfl, hlen⟩ := hcounts
      rw [answerOf_live hlive hlen, Option.bind_eq_some_iff] at h
      obtain ⟨entry, hfind, hmap⟩ := h
      obtain ⟨published, hsurvived, rfl⟩ := Option.map_eq_some_iff.mp hmap
      exact ⟨dejavu, payload, nats, entry, published, rfl, hlive, hlen, hfind, hsurvived, rfl⟩
    · have hnone : answerOf c s (.packet msgType dejavu payload nats) = none := if_neg hcounts
      rw [hnone] at h
      cases h

/-- Filling the pipeline sends requests and shows nothing. -/
@[simp] theorem observed_fillPipeline (s : Session) :
    (fillPipeline link workerEnd s).observed = s.observed :=
  fillPipeline_keeps (P := fun s' => s'.observed = s.observed)
    (fun s' hs _ _ => by
      rw [← hs]
      exact Prod.ext completions_append_skipped rfl)
    (fun s' _ hs _ _ => by
      rw [← hs]
      exact Prod.ext completions_append_requested rfl)
    (fun _ _ hs => hs) rfl

/-- Leaving the loop shows nothing either. -/
@[simp] theorem observed_exitIfEmpty (s : Session) : s.exitIfEmpty.observed = s.observed := by
  unfold Session.exitIfEmpty
  split
  · rfl
  · rfl

/-- Completing a request shows just its answer. -/
theorem observed_complete (s : Session) (a : Answer) :
    (s.complete a.tick a.published a.respTick).observed = a.count s.observed :=
  Prod.ext completions_append_completed rfl

/-- Tick data shows its answer if it has one, whatever decoding it does, and nothing otherwise. The
answer is counted also where the decoder or NATS fails. -/
theorem observed_onTickData {s : Session} (hlive : s.ended = none) (dejavu : UInt32)
    (payload : Bytes) (nats : Except String Unit) :
    (onTickData c link epoch workerEnd s dejavu payload nats).observed
      = (answerOf c s (.packet 8 dejavu payload nats)).elim s.observed
          (fun a => a.count s.observed) := by
  -- shorter payloads are decoded too, but complete nothing
  by_cases hlen : payload.length ≥ 8
  · have hepoch : payload.length ≥ 4 := by omega
    rw [answerOf_live hlive hlen]
    unfold onTickData
    cases s.find dejavu with
    | none => rfl
    | some entry =>
      simp only [if_pos hlen, if_pos hepoch]
      cases decodeAndPublish c 8 payload (TickWire.epoch payload) nats with
      | ok published =>
        exact (observed_fillPipeline _).trans
          (observed_complete _ ⟨entry.tick, published, TickWire.tick payload⟩)
      | error fault =>
        cases fault with
        | err chain =>
          exact (observed_fillPipeline _).trans
            (observed_complete _ ⟨entry.tick, none, TickWire.tick payload⟩)
        -- a panic ends the task before anything is completed
        | panic what => rfl
  · have hnone : answerOf c s (.packet 8 dejavu payload nats) = none :=
      if_neg (fun h => hlen h.2.2)
    rw [hnone]
    unfold onTickData
    cases s.find dejavu with
    | none => rfl
    | some entry =>
      simp only [if_neg hlen]
      exact observed_fillPipeline _

theorem observed_onRefusal (s : Session) (dejavu : UInt32) :
    (onRefusal link workerEnd s dejavu).observed = s.observed := by
  unfold onRefusal
  split
  · rfl
  · rfl
  · rw [observed_fillPipeline]
    exact Prod.ext completions_append_refused rfl

theorem observed_onTransaction (s : Session) (payload : Bytes) (nats : Except String Unit) :
    (onTransaction c epoch s payload nats).observed = s.observed := by
  unfold onTransaction
  split
  · rfl
  · rfl
  · rfl

/-- **A read counts its answer, and shows nothing else.** Every other kind of read leaves what is
shown as it is, and after the end of the session nothing is read. -/
theorem observed_readTurn (s : Session) (i : Incoming) :
    (readTurn c link epoch workerEnd s i).observed
      = (answerOf c s i).elim s.observed (fun a => a.count s.observed) := by
  by_cases hlive : s.ended = none
  · have hrun : ¬s.ended.isSome = true := by rw [hlive]; exact nofun
    rw [readTurn, if_neg hrun, observed_exitIfEmpty]
    cases i with
    | readError e => rfl
    | timeout => rfl
    | packet msgType dejavu payload nats =>
      show (onPacket c link epoch workerEnd s msgType dejavu payload nats).observed = _
      unfold onPacket
      -- only packets of type 8 have an answer
      by_cases h8 : msgType = 8
      · subst h8
        exact observed_onTickData hlive dejavu payload nats
      · have hnone : answerOf c s (.packet msgType dejavu payload nats) = none :=
          if_neg (fun h => h8 h.2.1)
        rw [if_neg h8, hnone]
        split
        · exact observed_onRefusal s dejavu
        · split
          · exact observed_onTransaction s payload nats
          · split
            · exact observed_onRefusal s dejavu
            · rfl
  · -- a session that has ended does not turn any more
    have hover : s.ended.isSome = true := Option.isSome_iff_ne_none.mpr hlive
    have hnone : answerOf c s i = none := by
      cases i with
      | readError e => rfl
      | timeout => rfl
      | packet msgType dejavu payload nats => exact if_neg (fun h => hlive h.1)
    rw [readTurn, if_pos hover, hnone]
    rfl

/-- Seen in the log: a read adds the completion of its answer. -/
theorem completions_readTurn (s : Session) (i : Incoming) :
    completions (readTurn c link epoch workerEnd s i).log
      = completions s.log ++ ((answerOf c s i).map (fun a => (a.tick, a.published))).toList := by
  have hobserved : (readTurn c link epoch workerEnd s i).observed = _ := observed_readTurn s i
  have hfirst := congrArg Prod.fst hobserved
  cases hanswer : answerOf c s i with
  | none =>
    rw [hanswer] at hfirst
    exact hfirst.trans (List.append_nil _).symm
  | some a =>
    rw [hanswer] at hfirst
    exact hfirst

/-- A read raises `indexed_tick` to the tick its answer carries. -/
theorem indexedTick_readTurn (s : Session) (i : Incoming) :
    (readTurn c link epoch workerEnd s i).pipeline.indexedTick
      = (answerOf c s i).elim s.pipeline.indexedTick
          (fun a => max s.pipeline.indexedTick a.respTick) := by
  have hobserved : (readTurn c link epoch workerEnd s i).observed = _ := observed_readTurn s i
  have hsecond := congrArg (fun o => o.2.indexedTick) hobserved
  cases hanswer : answerOf c s i with
  | none =>
    rw [hanswer] at hsecond
    exact hsecond
  | some a =>
    rw [hanswer] at hsecond
    exact hsecond

variable {start : UInt32} {pipeline : PipelineState}

/-- **The completed ticks of a session are the answers its reads counted.** The induction is on the
reads from the last one; every completion has the read it came from, with the session as it was
before. -/
theorem mem_completions_tryPeer {incoming : List Incoming} {a : UInt32 × Option Publication} :
    a ∈ completions (tryPeer c link epoch workerEnd start pipeline incoming).log ↔
      ∃ before i after answer, incoming = before ++ i :: after ∧
        answerOf c (tryPeer c link epoch workerEnd start pipeline before) i = some answer ∧
        a = (answer.tick, answer.published) := by
  induction incoming using List.reverseRecOn with
  | nil =>
    -- a session that has only been opened shows nothing
    have hopen : (openSession link workerEnd start pipeline).observed = ([], pipeline) := by
      rw [openSession, observed_exitIfEmpty, observed_fillPipeline]
      rfl
    have hnone : completions (openSession link workerEnd start pipeline).log = [] :=
      congrArg Prod.fst hopen
    rw [tryPeer, List.foldl_nil, hnone]
    constructor
    · exact nofun
    · rintro ⟨before, i, after, answer, heq, -⟩
      cases before with
      | nil => cases heq
      | cons j before => cases heq
  | append_singleton incoming i ih =>
    rw [tryPeer_concat, completions_readTurn, List.mem_append, ih, Option.mem_toList,
      Option.map_eq_some_iff]
    constructor
    · rintro (⟨before, j, after, answer, rfl, hanswer⟩ | ⟨answer, hanswer, rfl⟩)
      · exact ⟨before, j, after ++ [i], answer, by simp, hanswer⟩
      · exact ⟨incoming, i, [], answer, rfl, hanswer, rfl⟩
    · -- the read is the new one or stands among the earlier ones
      rintro ⟨before, j, after, answer, heq, hanswer, rfl⟩
      rcases List.eq_nil_or_concat after with rfl | ⟨init, last, rfl⟩
      · obtain ⟨rfl, hlast⟩ := List.append_inj' heq rfl
        cases hlast
        exact Or.inr ⟨answer, hanswer, rfl⟩
      · refine Or.inl ⟨before, j, init, answer, ?_, hanswer, rfl⟩
        rw [List.concat_eq_append, ← List.cons_append, ← List.append_assoc] at heq
        exact (List.append_inj' heq rfl).1

end Completions

/-- A type 8 packet that is counted: eight bytes or more, under the dejavu of a pending request of
a session that still reads, and no panic in `decode_tick`. -/
def Counted (s : Session) (dejavu : UInt32) (payload : Bytes) : Prop :=
  s.ended = none ∧ (s.find dejavu).isSome ∧ payload.length ≥ 8 ∧
    ¬(TickWire.PassesChecks payload ∧ 13 < TickWire.month payload)

/-- **How `decode_and_publish` of a tick ends**: a month past the table is not survived, a failed
check or a refusal of NATS is dropped, and everything else is published under the tick it
carries. -/
theorem survived_cases (c : Crates) (payload : Bytes) (epoch : UInt16)
    (nats : Except String Unit) :
    ((TickWire.PassesChecks payload ∧ 13 < TickWire.month payload) ∧
      survived (decodeAndPublish c 8 payload epoch nats) = none) ∨
    (¬(TickWire.PassesChecks payload ∧ 13 < TickWire.month payload) ∧
      ¬(TickWire.PassesChecks payload ∧ nats = .ok ()) ∧
      survived (decodeAndPublish c 8 payload epoch nats) = some none) ∨
    (¬(TickWire.PassesChecks payload ∧ 13 < TickWire.month payload) ∧
      (TickWire.PassesChecks payload ∧ nats = .ok ()) ∧
      ∃ data, data.tick = TickWire.tick payload ∧
        survived (decodeAndPublish c 8 payload epoch nats) = some (some (.tick epoch data))) := by
  have hpublish : decodeAndPublish c 8 payload epoch nats
      = decodeTick c payload >>= fun data =>
          publishTick epoch data nats >>= fun p => .ok (some p) := rfl
  rw [hpublish]
  rcases decodeTick_cases c payload with ⟨hfails, msg, hbail⟩ | ⟨hp, hmonth, hpanic⟩ |
    ⟨hp, hmonth, d, hok, htick, -⟩
  · -- one of the checks fails: logged and dropped
    rw [hbail]
    exact Or.inr (Or.inl ⟨fun h => hfails h.1, fun h => hfails h.1, rfl⟩)
  · -- the month is past the table
    rw [hpanic]
    exact Or.inl ⟨⟨hp, hmonth⟩, rfl⟩
  · -- it decodes, and NATS has the last word
    have hsafe : ¬(TickWire.PassesChecks payload ∧ 13 < TickWire.month payload) :=
      fun h => UInt8.not_lt.mpr hmonth h.2
    rw [hok, ok_bind]
    cases nats with
    | ok _ =>
      refine Or.inr (Or.inr ⟨hsafe, ⟨hp, rfl⟩, ?_⟩)
      exact ⟨{ d with transactionDigestsHex := [], contractFeesHex := [], signatureHex := [] },
        htick, rfl⟩
    | error cause => exact Or.inr (Or.inl ⟨hsafe, nofun, rfl⟩)

/-- Decoding survives except for a month past the table in a payload that passes the checks
before. -/
theorem survived_isSome_iff (c : Crates) (payload : Bytes) (epoch : UInt16)
    (nats : Except String Unit) :
    (survived (decodeAndPublish c 8 payload epoch nats)).isSome ↔
      ¬(TickWire.PassesChecks payload ∧ 13 < TickWire.month payload) := by
  rcases survived_cases c payload epoch nats with ⟨hpanics, h⟩ | ⟨hsafe, -, h⟩ |
    ⟨hsafe, -, data, -, h⟩
  · rw [h]
    exact iff_of_false nofun (fun hsafe => hsafe hpanics)
  · rw [h]
    exact iff_of_true rfl hsafe
  · rw [h]
    exact iff_of_true rfl hsafe

/-- **The packets that are counted**: while the session runs, under a pending dejavu, of eight bytes
or more, and such that decoding does not panic. -/
theorem counted_iff (c : Crates) (s : Session) (dejavu : UInt32) (payload : Bytes)
    (nats : Except String Unit) :
    Counted s dejavu payload ↔
      ∃ a, answerOf c s (.packet 8 dejavu payload nats) = some a ∧
        a.respTick = TickWire.tick payload := by
  constructor
  · -- such a packet finds its request and is decoded
    rintro ⟨hlive, hfind, hlen, hsafe⟩
    obtain ⟨entry, hentry⟩ := Option.isSome_iff_exists.mp hfind
    obtain ⟨p, hp⟩ := Option.isSome_iff_exists.mp
      ((survived_isSome_iff c payload (TickWire.epoch payload) nats).mpr hsafe)
    refine ⟨⟨entry.tick, p, TickWire.tick payload⟩, ?_, rfl⟩
    rw [answerOf_live hlive hlen, hentry, Option.bind_some, hp, Option.map_some]
  · -- an answer can only have come from such a packet
    rintro ⟨a, hanswer, -⟩
    obtain ⟨d, w, n, entry, p, heq, hlive, hlen, hfind, hp, -⟩ := answerOf_some hanswer
    cases heq
    have hsome :
        (survived (decodeAndPublish c 8 payload (TickWire.epoch payload) nats)).isSome := by
      rw [hp]
      rfl
    refine ⟨hlive, ?_, hlen, (survived_isSome_iff c payload _ nats).mp hsome⟩
    rw [hfind]
    rfl

/-! ## Completed and ingested -/

/-- The tick data published for a completed request is that of the requested tick. -/
def Ingested (a : UInt32 × Option Publication) : Prop :=
  ∃ epoch data, a.2 = some (.tick epoch data) ∧ data.tick = a.1

/-- A payload that passes the checks of `decode_tick`, carries the tick and is taken by NATS. -/
def Faithful (tick : UInt32) (payload : Bytes) (nats : Except String Unit) : Prop :=
  TickWire.PassesChecks payload ∧ TickWire.tick payload = tick ∧ nats = .ok ()

/-- A packet that is decoded leaves its tick ingested exactly if it passes the checks, carries the
requested tick and NATS takes it. -/
theorem survived_ingested_iff (c : Crates) (tick : UInt32) (payload : Bytes)
    (nats : Except String Unit) :
    (∀ p, survived (decodeAndPublish c 8 payload (TickWire.epoch payload) nats) = some p →
      Ingested (tick, p)) ↔
    (¬(TickWire.PassesChecks payload ∧ 13 < TickWire.month payload) →
      Faithful tick payload nats) := by
  rcases survived_cases c payload (TickWire.epoch payload) nats with ⟨hpanics, h⟩ |
    ⟨hsafe, hrejected, h⟩ | ⟨hsafe, ⟨hp, hnats⟩, data, htick, h⟩
  · rw [h]
    exact iff_of_true nofun (fun hsafe => absurd hpanics hsafe)
  · rw [h]
    -- the error is dropped and nothing was published
    refine iff_of_false (fun hall => ?_) (fun hfaithful => ?_)
    · obtain ⟨e, d, hnone, -⟩ := hall none rfl
      cases hnone
    · exact hrejected ⟨(hfaithful hsafe).1, (hfaithful hsafe).2.2⟩
  · rw [h]
    constructor
    · intro hall _
      obtain ⟨e, d, hdata, hsame⟩ := hall _ rfl
      cases hdata
      exact ⟨hp, htick.symm.trans hsame, hnats⟩
    · intro hfaithful p hsome
      cases hsome
      exact ⟨_, data, rfl, htick.trans (hfaithful hsafe).2.1⟩

/-- **A completed tick was ingested exactly when the node and NATS see to it.** Every tick a
session counts as completed has its own data decoded and published if and only if every type 8
packet of eight bytes or more under the dejavu of a pending request (one that does not make
`decode_tick` panic) passes the checks and carries the requested tick, and NATS takes it. -/
theorem completed_ingested_iff (c : Crates) (link : Link) (epoch : UInt16)
    (start workerEnd : UInt32) (pipeline : PipelineState) (incoming : List Incoming) :
    (∀ a ∈ completions (tryPeer c link epoch workerEnd start pipeline incoming).log,
      Ingested a) ↔
    ∀ before dejavu payload nats after,
      incoming = before ++ .packet 8 dejavu payload nats :: after →
      (tryPeer c link epoch workerEnd start pipeline before).ended = none →
      ∀ entry, (tryPeer c link epoch workerEnd start pipeline before).find dejavu = some entry →
        payload.length ≥ 8 → ¬(TickWire.PassesChecks payload ∧ 13 < TickWire.month payload) →
        Faithful entry.tick payload nats := by
  constructor
  · -- a packet under a pending dejavu completes its tick, which was ingested only if the packet is
    -- faithful
    intro h before dejavu payload nats after heq hlive entry hfind hlen
    refine (survived_ingested_iff c entry.tick payload nats).mp (fun p hp => ?_)
    refine h _ (mem_completions_tryPeer.mpr
      ⟨before, _, after, ⟨entry.tick, p, TickWire.tick payload⟩, heq, ?_, rfl⟩)
    rw [answerOf_live hlive hlen, hfind, Option.bind_some, hp, Option.map_some]
  · -- every completion comes from such a packet
    intro h a ha
    obtain ⟨before, i, after, answer, heq, hanswer, rfl⟩ := mem_completions_tryPeer.mp ha
    obtain ⟨dejavu, payload, nats, entry, p, rfl, hlive, hlen, hfind, hp, rfl⟩ :=
      answerOf_some hanswer
    have hfaithful := h before dejavu payload nats after heq hlive entry hfind hlen
    exact (survived_ingested_iff c entry.tick payload nats).mpr hfaithful p hp

/-- Eight zero bytes under the dejavu of a request: nothing decodes, and the tick is completed. -/
theorem completed_without_data :
    ¬∀ a ∈ completions (tryPeer (.ofKnown {}) (.counting 7) 5 5 3 {}
      [.packet 8 7 (List.replicate 8 0) (.ok ())]).log, Ingested a := by
  have hcompleted : (3, none) ∈ completions (tryPeer (.ofKnown {}) (.counting 7) 5 5 3 {}
      [.packet 8 7 (List.replicate 8 0) (.ok ())]).log := by decide +kernel
  intro h
  obtain ⟨e, d, hnone, -⟩ := h _ hcompleted
  cases hnone

end Qonduit

import Qonduit.Processor.Consumer

/-!
# Qonduit — every stream writes its own families

Thirteen of the sixteen column families are each written by one stream only (`owner`), and
what a stream writes there is a function of its own payloads: for a transaction the slot
within its tick is the number of transactions of the same tick right before it, the `position`.

* **`txIndex_run`** — the shared counter pair computes `position`.
* **`view_run`** — after any run of a fresh indexer, an owned family holds the replay of its
  owner's log, whatever the interleaving with the other streams.
-/

namespace Qonduit

/-- The stream whose handler writes a family, when its writes do not depend on the store. -/
def owner : Cf → Option Stream
  | .tick => some .tick
  | .metadata => some .tick
  | .tx => some .tx
  | .txByTick => some .tx
  | .txByEntity => some .tx
  | .entity => some .entity
  | .spectrum => some .spectrum
  | .asset => some .asset
  | .entityAsset => some .asset
  | .computors => some .computors
  | .contractIpo => some .contract
  | .logEvent => some .log
  | .tickVote => some .tickvote
  | .customMessage => none
  | .oracle => none
  | .epochStats => none

/-! ## Placements

A transaction is placed at an index in its tick: the number of transactions of this tick right
before it. That number can be computed from the transactions alone. -/

/-- The slot a transaction of `tick` gets after transactions of the given ticks: the length
of the run of `tick` they end in, as a `u32`. -/
def position (ticks : List UInt32) (tick : UInt32) : UInt32 :=
  UInt32.ofNat (ticks.reverse.takeWhile (· = tick)).length

/-- The position after one more transaction. -/
theorem position_append_singleton (ticks : List UInt32) (t tick : UInt32) :
    position (ticks ++ [t]) tick = if t = tick then position ticks tick + 1 else 0 := by
  rw [position, List.reverse_append, List.reverse_singleton, List.singleton_append]
  by_cases h : t = tick
  · rw [List.takeWhile_cons_of_pos (by simpa using h), List.length_cons, if_pos h,
      UInt32.ofNat_add]
    rfl
  · rw [List.takeWhile_cons_of_neg (by simpa using h), if_neg h]
    rfl

/-- A transaction that deserialized, with its payload. -/
abbrev Delivery := Transaction × Bytes

/-- The payloads of the transaction stream that deserialize. -/
def accepted (c : Crates) (payloads : List Bytes) : List Delivery :=
  payloads.filterMap fun p =>
    match c.serde.transaction.fromSlice p with
    | .ok tx => some (tx, p)
    | .error _ => none

/-- A delivered transaction and its slot within its tick. -/
structure Placement where
  tx : Transaction
  payload : Bytes
  index : UInt32

namespace Placement

/-- Its slot in `tx_by_tick`. -/
def slot (a : Placement) : UInt32 × UInt32 := (a.tx.tick, a.index)

def puts (c : Crates) (a : Placement) : WriteBatch := Indexer.txPuts c a.tx a.payload a.index

end Placement

/-- The placements of deliveries that follow earlier ones of the given ticks. -/
def placeAfter (ticks : List UInt32) : List Delivery → List Placement
  | [] => []
  | d :: ds => ⟨d.1, d.2, position ticks d.1.tick⟩ :: placeAfter (ticks ++ [d.1.tick]) ds

/-- The placements of a transaction stream. -/
def placements (c : Crates) (payloads : List Bytes) : List Placement :=
  placeAfter [] (accepted c payloads)

theorem placeAfter_append (ticks : List UInt32) (ds ds' : List Delivery) :
    placeAfter ticks (ds ++ ds')
      = placeAfter ticks ds ++ placeAfter (ticks ++ ds.map (·.1.tick)) ds' := by
  induction ds generalizing ticks with
  | nil => simp [placeAfter]
  | cons d ds ih => simp [placeAfter, ih]

/-- The ticks of the accepted transactions. -/
def acceptedTicks (c : Crates) (payloads : List Bytes) : List UInt32 :=
  (accepted c payloads).map (·.1.tick)

/-- The transactions of two lists of payloads. -/
theorem accepted_append (c : Crates) (ps qs : List Bytes) :
    accepted c (ps ++ qs) = accepted c ps ++ accepted c qs :=
  List.filterMap_append

theorem accepted_singleton_ok {c : Crates} {p : Bytes} {tx : Transaction}
    (h : c.serde.transaction.fromSlice p = .ok tx) : accepted c [p] = [(tx, p)] := by
  simp [accepted, h]

theorem accepted_singleton_error {c : Crates} {p : Bytes} {e : String}
    (h : c.serde.transaction.fromSlice p = .error e) : accepted c [p] = [] := by
  simp [accepted, h]

/-- One more transaction is placed at its position. -/
theorem placements_append_ok {c : Crates} {ps : List Bytes} {p : Bytes} {tx : Transaction}
    (h : c.serde.transaction.fromSlice p = .ok tx) :
    placements c (ps ++ [p])
      = placements c ps ++ [⟨tx, p, position (acceptedTicks c ps) tx.tick⟩] := by
  rw [placements, accepted_append, accepted_singleton_ok h, placeAfter_append]
  rfl

theorem placements_append_error {c : Crates} {ps : List Bytes} {p : Bytes} {e : String}
    (h : c.serde.transaction.fromSlice p = .error e) :
    placements c (ps ++ [p]) = placements c ps := by
  rw [placements, accepted_append, accepted_singleton_error h, List.append_nil]
  rfl

/-! ## The log of a stream

The writes a stream makes into the families it owns, whatever the others do in between. -/

/-- Everything a stream writes into the families it owns. -/
def streamLog (c : Crates) (σ : Stream) (payloads : List Bytes) : WriteBatch :=
  match σ with
  | .tx => (placements c payloads).flatMap (Placement.puts c)
  | _ => payloads.flatMap (Indexer.payloadPuts c σ)

/-- What one more payload adds to the log of its stream. -/
def logStep (c : Crates) (σ : Stream) (before : List Bytes) (p : Bytes) : WriteBatch :=
  match σ with
  | .tx =>
    match c.serde.transaction.fromSlice p with
    | .ok tx => Indexer.txPuts c tx p (position (acceptedTicks c before) tx.tick)
    | .error _ => []
  | _ => Indexer.payloadPuts c σ p

theorem streamLog_append_singleton (c : Crates) (σ : Stream) (ps : List Bytes) (p : Bytes) :
    streamLog c σ (ps ++ [p]) = streamLog c σ ps ++ logStep c σ ps p := by
  by_cases hσ : σ = .tx
  · subst hσ
    cases h : c.serde.transaction.fromSlice p with
    | ok tx => simp [streamLog, logStep, placements_append_ok h, h, Placement.puts]
    | error e => simp [streamLog, logStep, placements_append_error h, h]
  · cases σ <;> first | exact absurd rfl hσ | simp [streamLog, logStep]

theorem ofStream_append (σ : Stream) (ms ms' : List Message) :
    ofStream σ (ms ++ ms') = ofStream σ ms ++ ofStream σ ms' := by
  simp [ofStream]

@[simp] theorem ofStream_singleton (σ : Stream) (m : Message) :
    ofStream σ [m] = if m.1 = σ then [m.2] else [] := by
  by_cases h : m.1 = σ <;> simp [ofStream, h]

theorem ofStream_map (σ : Stream) (payloads : List Bytes) :
    ofStream σ (payloads.map (Prod.mk σ)) = payloads := by
  simp [ofStream, List.filter_map, Function.comp_def]

/-! ## Who writes where

Thirteen families are written by one stream each, with writes that do not depend on the store. This
is read off the batches, write by write. -/

namespace Indexer

theorem owner_of_mem_batchPutTick {tick : UInt32} {epoch : UInt16} {data : Bytes} {p : Put}
    (h : p ∈ WarmStorage.batchPutTick [] tick epoch data) : owner p.cf = some .tick := by
  simp only [WarmStorage.batchPutTick, List.nil_append, List.mem_cons, List.not_mem_nil,
    or_false] at h
  rcases h with rfl | rfl | rfl <;> rfl

/-- The batch of a transaction: the payload, the tick index, and the index of each entity it
involves. -/
theorem mem_txPuts {c : Crates} {tx : Transaction} {payload : Bytes} {i : UInt32} {p : Put} :
    p ∈ txPuts c tx payload i ↔
      p = .tx (tx.hashBytes c) payload ∨ p = .txForTick tx.tick i (tx.hashBytes c) ∨
      ∃ e, (tx.source c = some e ∨ tx.destination c = some e) ∧
        p = .txForEntity e tx.tick i (tx.hashBytes c) := by
  simp only [txPuts, WarmStorage.batchPutTx, List.nil_append, List.mem_append, List.mem_cons,
    List.not_mem_nil, or_false, Option.mem_toList, Option.map_eq_some_iff]
  constructor
  · rintro (((h | h) | ⟨e, he, h⟩) | ⟨e, he, h⟩)
    · exact .inl h
    · exact .inr (.inl h)
    · exact .inr (.inr ⟨e, .inl he, h.symm⟩)
    · exact .inr (.inr ⟨e, .inr he, h.symm⟩)
  · rintro (h | h | ⟨e, he | he, h⟩)
    · exact .inl (.inl (.inl h))
    · exact .inl (.inl (.inr h))
    · exact .inl (.inr ⟨e, he, h.symm⟩)
    · exact .inr ⟨e, he, h.symm⟩

/-- All of these are in the families of its stream. -/
theorem owner_of_mem_txPuts {c : Crates} {tx : Transaction} {payload : Bytes} {i : UInt32}
    {p : Put} (h : p ∈ txPuts c tx payload i) : owner p.cf = some .tx := by
  rcases mem_txPuts.mp h with rfl | rfl | ⟨e, -, rfl⟩ <;> rfl

/-- The writes that depend on the payload only are all in families that their stream owns. One case
for each stream, and in it one for each entry of the batch. -/
theorem owner_of_mem_payloadPuts {c : Crates} {σ : Stream} {payload : Bytes} {p : Put}
    (h : p ∈ payloadPuts c σ payload) : owner p.cf = some σ := by
  cases σ <;> simp only [payloadPuts] at h
  case tick =>
    split at h
    · split at h
      · exact owner_of_mem_batchPutTick h
      · cases h
    · cases h
  case entity =>
    split at h
    · obtain ⟨key, -, rfl⟩ := Option.map_eq_some_iff.mp (Option.mem_toList.mp h)
      rfl
    · cases h
  case spectrum =>
    split at h
    · obtain ⟨key, -, rfl⟩ := Option.map_eq_some_iff.mp (Option.mem_toList.mp h)
      rfl
    · cases h
  case asset =>
    split at h
    · rcases List.mem_cons.mp h with rfl | h
      · rfl
      · obtain ⟨key, -, rfl⟩ := List.mem_map.mp h
        rfl
    · cases h
  case log =>
    split at h
    · obtain ⟨event, -, rfl⟩ := List.mem_map.mp h
      rfl
    · cases h
  case tx | custmsg | oracle => cases h
  -- the other streams write one entry, or none when the payload does not parse
  all_goals
    split at h
    · rw [List.mem_singleton.mp h]; rfl
    · cases h

theorem cf_of_mem_chargePuts {c : Crates} {ix : Indexer} {f : EpochStats → EpochStats}
    {p : Put} (h : p ∈ chargePuts c ix f) : p.cf = .epochStats := by
  unfold chargePuts at h
  split at h
  · rw [List.mem_singleton.mp h]; rfl
  · cases h

/-- The writes that depend on the state: statistics, the families of a transaction, a custom
message, oracle data. -/
theorem mem_statePuts {c : Crates} {ix : Indexer} {m : Message} {p : Put}
    (h : p ∈ statePuts c ix m) :
    p.cf = .epochStats
    ∨ (m.1 = .tx ∧ ∃ tx, c.serde.transaction.fromSlice m.2 = .ok tx ∧
        p ∈ txPuts c tx m.2 (ix.txIndex tx.tick))
    ∨ (m.1 = .custmsg ∧ ∃ msg, c.serde.valueFromSlice m.2 = .ok msg ∧
        p = .customMessage msg.tick
          (UInt32.ofNat (ix.storage.countCustomMessagesForTick msg.tick)) m.2)
    ∨ (m.1 = .oracle ∧ p.cf = .oracle) := by
  obtain ⟨σ, payload⟩ := m
  cases σ <;> simp only [statePuts] at h
  case tick =>
    split at h
    · split at h
      · rw [List.mem_singleton.mp h]; exact .inl rfl
      · cases h
    · cases h
  case tx =>
    split at h
    · next tx htx =>
      rcases List.mem_append.mp h with h | h
      · exact .inr (.inl ⟨rfl, tx, htx, h⟩)
      · exact .inl (cf_of_mem_chargePuts h)
    · cases h
  case entity =>
    split at h
    · split at h
      · exact .inl (cf_of_mem_chargePuts h)
      · cases h
    · cases h
  case custmsg =>
    split at h
    · next msg hmsg => exact .inr (.inr (.inl ⟨rfl, msg, hmsg, List.mem_singleton.mp h⟩))
    · cases h
  case oracle =>
    split at h
    · rw [List.mem_singleton.mp h]; exact .inr (.inr (.inr ⟨rfl, rfl⟩))
    · cases h
  all_goals cases h

/-! ## The counters compute positions

The indexer keeps the last tick and a counter. What they give for a tick is its position, after any
messages. -/

/-- The index in a tick, as the two counters give it. -/
theorem txIndex_eq (ix : Indexer) (tick : UInt32) :
    ix.txIndex tick = if tick ≠ (ix.txLastTick, ix.txCounter).1 then 0
      else (ix.txLastTick, ix.txCounter).2 := rfl

/-- A transaction of the tick raises it, and one of another tick resets it. -/
theorem txIndex_consume_ok {c : Crates} {ix : Indexer} {payload : Bytes} {tx : Transaction}
    (h : c.serde.transaction.fromSlice payload = .ok tx) (tick : UInt32) :
    (consume c ix (.tx, payload)).txIndex tick
      = if tx.tick = tick then ix.txIndex tick + 1 else 0 := by
  rw [txIndex_eq, counters_consume]
  simp only [nextCounters, h]
  by_cases ht : tx.tick = tick
  · subst ht
    simp
  · rw [if_neg ht, if_pos (fun h' => ht h'.symm)]

theorem txIndex_consume_of_ne {c : Crates} {ix : Indexer} {m : Message} (h : m.1 ≠ .tx)
    (tick : UInt32) : (consume c ix m).txIndex tick = ix.txIndex tick := by
  obtain ⟨σ, payload⟩ := m
  rw [txIndex_eq, counters_consume]
  cases σ <;> first | exact absurd rfl h | rfl

/-- A payload that does not parse changes nothing. -/
theorem consume_tx_error {c : Crates} {ix : Indexer} {payload : Bytes} {e : String}
    (h : c.serde.transaction.fromSlice payload = .error e) :
    consume c ix (.tx, payload) = ix := by
  simp [consume, handler, indexTransaction, h, bail]

/-- A transaction moves the counters on, unless it does not parse. -/
theorem txIndex_consume_tx {c : Crates} {ix : Indexer} {payloads : List Bytes}
    (h : ∀ tick, ix.txIndex tick = position (acceptedTicks c payloads) tick) (payload : Bytes)
    (tick : UInt32) : (consume c ix (.tx, payload)).txIndex tick
      = position (acceptedTicks c (payloads ++ [payload])) tick := by
  rw [acceptedTicks, accepted_append]
  cases htx : c.serde.transaction.fromSlice payload with
  | ok tx =>
    rw [txIndex_consume_ok htx, h, accepted_singleton_ok htx, List.map_append]
    exact (position_append_singleton _ _ _).symm
  | error e =>
    rw [consume_tx_error htx, accepted_singleton_error htx, List.append_nil]
    exact h tick

/-- **The shared counter pair computes positions**: after any run of a fresh indexer the next
transaction of a tick gets the position after the transactions accepted so far. -/
theorem txIndex_run (c : Crates) (s : WarmStorage) (pl : PipelineState) (ms : List Message)
    (tick : UInt32) :
    (run c (new s pl) ms).txIndex tick = position (acceptedTicks c (ofStream .tx ms)) tick := by
  induction ms using List.reverseRecOn generalizing tick with
  | nil =>
    -- tick 0 is not the last tick seen, but the counter is at 0 all the same
    show (if tick ≠ 0 then (0 : UInt32) else 0) = position [] tick
    rw [ite_self]
    rfl
  | append_singleton ms m ih =>
    rw [run_append, run_cons, run_nil, ofStream_append, ofStream_singleton]
    by_cases hm : m.1 = .tx
    · obtain ⟨σ, payload⟩ := m
      cases hm
      rw [if_pos rfl]
      exact txIndex_consume_tx ih payload tick
    · rw [if_neg hm, List.append_nil, txIndex_consume_of_ne hm, ih]

/-! ## The store after a run

The store keeps under every key the last write. In an owned family these are the writes of one
stream, so the order between the streams makes no difference. -/

theorem filter_eq_nil_of_owner {l : List Put} {cf : Cf} (h : ∀ p ∈ l, owner p.cf ≠ owner cf) :
    l.filter (fun p => p.cf = cf) = [] := by
  rw [List.filter_eq_nil_iff]
  intro p hp heq
  exact h p hp (congrArg owner (of_decide_eq_true heq))

/-- The stream whose messages write into a family; the statistics are written by several. -/
def writer : Cf → Option Stream
  | .customMessage => some .custmsg
  | .oracle => some .oracle
  | cf => owner cf

theorem writer_of_owner {cf : Cf} {σ : Stream} (h : owner cf = some σ) : writer cf = some σ := by
  cases cf <;> first | exact h | cases h

/-- **No other stream writes into a family**, whatever the state of the indexer. For the writes that
depend on the state this is a matter of which families they are in. -/
theorem filter_puts_of_ne {c : Crates} {ix : Indexer} {cf : Cf} {σ : Stream}
    (hcf : writer cf = some σ) {m : Message} (hm : m.1 ≠ σ) :
    (puts c ix m).filter (fun p => p.cf = cf) = [] := by
  have hwriter : ∀ {p : Put} {τ : Stream}, owner p.cf = some τ → m.1 = τ → p.cf ≠ cf := by
    intro p τ howner hτ heq
    have hp := writer_of_owner howner
    rw [heq, hcf] at hp
    exact hm (hτ.trans (Option.some.inj hp).symm)
  rw [List.filter_eq_nil_iff]
  intro p hp heq
  have heq : p.cf = cf := of_decide_eq_true heq
  rcases List.mem_append.mp hp with hp | hp
  · exact hwriter (owner_of_mem_payloadPuts hp) rfl heq
  · rcases mem_statePuts hp with h | ⟨htx, tx, -, h⟩ | ⟨hmsg, msg, -, rfl⟩ | ⟨horacle, h⟩
    · rw [← heq, h] at hcf
      cases hcf
    · exact hwriter (owner_of_mem_txPuts h) htx heq
    · rw [← heq] at hcf
      exact hm (hmsg.trans (Option.some.inj hcf))
    · rw [← heq, h] at hcf
      exact hm (horacle.trans (Option.some.inj hcf))

/-- The writes of a step into an owned family are those its stream's log records. Only a
transaction looks at the messages before, through the counters. -/
theorem filter_puts {c : Crates} {ix : Indexer} {before : List Bytes} {cf : Cf} {σ : Stream}
    (hcf : owner cf = some σ) (m : Message)
    (hpos : m.1 = .tx → ∀ tick, ix.txIndex tick = position (acceptedTicks c before) tick) :
    (puts c ix m).filter (fun p => p.cf = cf)
      = (if m.1 = σ then logStep c σ before m.2 else []).filter (fun p => p.cf = cf) := by
  by_cases hσ : m.1 = σ
  · rw [if_pos hσ]
    subst hσ
    obtain ⟨τ, payload⟩ := m
    by_cases htx : τ = .tx
    · subst htx
      have hpos := hpos rfl
      -- a transaction writes nothing but its own families and the statistics
      cases h : c.serde.transaction.fromSlice payload with
      | error e => simp only [puts, payloadPuts, statePuts, logStep, h, List.nil_append]
      | ok tx =>
        simp only [puts, payloadPuts, statePuts, logStep, h, hpos, List.nil_append,
          List.filter_append]
        rw [filter_eq_nil_of_owner (l := chargePuts c _ _), List.append_nil]
        intro p hp
        rw [cf_of_mem_chargePuts hp, hcf]
        simp [owner]
    · -- every other stream writes owned families through `payloadPuts` alone
      have hstate : (statePuts c ix (τ, payload)).filter (fun p => p.cf = cf) = [] := by
        refine filter_eq_nil_of_owner (fun p hp => ?_)
        rw [hcf]
        rcases mem_statePuts hp with h | ⟨h, -⟩ | ⟨-, msg, -, rfl⟩ | ⟨-, h⟩
        · simp [h, owner]
        · exact absurd h htx
        · simp [Put.customMessage, owner]
        · simp [h, owner]
      rw [puts, List.filter_append, hstate, List.append_nil]
      cases τ <;> first | exact absurd rfl htx | rfl
  · rw [if_neg hσ, filter_puts_of_ne (writer_of_owner hcf) hσ]
    rfl

/-- What a batch leaves in a family depends on its writes into that family only. -/
theorem last_filter_cf (l : List Put) (cf : Cf) (k : Bytes) :
    WriteLog.last ((l.filter (fun p => p.cf = cf)).map Put.write) (cf, k)
      = WriteLog.last (l.map Put.write) (cf, k) := by
  have hmap : (l.filter (fun p => p.cf = cf)).map Put.write
      = (l.map Put.write).filter (fun w => w.1.1 = cf) := by
    rw [List.filter_map]
    rfl
  rw [hmap]
  refine WriteLog.last_filter ?_
  intro w _ hw
  simp [hw]

/-- **Every owned family is the replay of its owner's log**, in any run of a fresh indexer
over any store. -/
theorem view_run {cf : Cf} {σ : Stream} (hcf : owner cf = some σ) (c : Crates)
    (s : WarmStorage) (pl : PipelineState) (ms : List Message) (k : Bytes) :
    (run c (new s pl) ms).storage.view (cf, k)
      = WriteLog.replay ((streamLog c σ (ofStream σ ms)).map Put.write) s.view (cf, k) := by
  induction ms using List.reverseRecOn with
  | nil =>
    have hnil : streamLog c σ (ofStream σ []) = [] := by cases σ <;> rfl
    rw [hnil, run_nil, List.map_nil, WriteLog.replay_nil]
    rfl
  | append_singleton ms m ih =>
    rw [run_append, run_cons, run_nil, storage_consume, WarmStorage.view_batchWrite,
      WriteLog.replay, ih, ← last_filter_cf, filter_puts hcf m (fun _ => txIndex_run c s pl ms),
      last_filter_cf, ofStream_append, ofStream_singleton]
    by_cases hm : m.1 = σ
    · subst hm
      rw [if_pos rfl, if_pos rfl, streamLog_append_singleton, List.map_append,
        WriteLog.replay_append]
      -- only the log of transactions looks back, and then at its own stream
      have hback : logStep c m.1 (ofStream .tx ms) m.2 = logStep c m.1 (ofStream m.1 ms) m.2 := by
        cases m.1 <;> rfl
      rw [hback]
      rfl
    · rw [if_neg hm, if_neg hm, List.map_nil, WriteLog.last_nil, Option.none_or, List.append_nil]

end Indexer

end Qonduit

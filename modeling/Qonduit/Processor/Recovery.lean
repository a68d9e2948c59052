import Qonduit.Lib.Redelivery
import Qonduit.Processor.MessageListing
import Qonduit.Processor.Replay
import Qonduit.Processor.TxIndex

/-!
# Qonduit — messages that come again

A message of the bus may be handled several times, behind others that came later, and in part, if
the processor is killed between two writes of its handler. What such a history leaves behind differs
from family to family.

* **`Survives`** — a relation of the handled messages of a stream and the store that any handling
  keeps.
* **`survives_records`** — where the entry of a message depends on the message alone, every message
  leaves it or that of another one for the same key.
* **`survives_messages`** — a custom message is appended each time, so none is lost, but some are
  listed again.
* **`survives_oracle`** — a data point may land under another tick each time, but it leaves a record
  of the stream there.
-/

namespace Qonduit

/-- A message of a stream: its payload, and its place in the stream. -/
abbrev JsMessage := Bytes × Nat

namespace Indexer

/-- The families whose entries do not depend on the messages before. -/
def recordFamilies : List Cf :=
  payloadKeyed.filter (fun cf => cf ≠ .txByTick ∧ cf ≠ .txByEntity)

/-- The writes of a message into a family of records. -/
def recordWrites (c : Crates) (σ : Stream) (cf : Cf) (payload : Bytes) :
    List ((Cf × Bytes) × Bytes) :=
  ((logStep c σ [] payload).filter (fun p => p.cf = cf)).map Put.write

/-! ## Logs of records

The writes of a stream into such a family, message by message, whatever came before. -/

section Logs

variable {c : Crates} {σ : Stream} {cf : Cf}

/-- Of the writes of a transaction only its record is in such a family. -/
theorem filter_txPuts_record (hcf : cf ∈ recordFamilies) (tx : Transaction) (payload : Bytes)
    (index : UInt32) : (txPuts c tx payload index).filter (fun p => p.cf = cf)
      = if cf = .tx then [.tx (tx.hashBytes c) payload] else [] := by
  by_cases heq : cf = .tx
  · subst heq
    exact filter_txPuts_tx c ⟨tx, payload, index⟩
  · rw [if_neg heq, List.filter_eq_nil_iff]
    intro p hp hpcf
    have hpcf := of_decide_eq_true hpcf
    have howner := owner_of_mem_txPuts hp
    rw [hpcf] at howner
    cases cf <;> first | exact heq rfl | exact absurd hcf (by decide) | cases howner

/-- What a message writes into such a family does not depend on those before it. -/
theorem filter_logStep (hcf : cf ∈ recordFamilies) (before : List Bytes) (payload : Bytes) :
    (logStep c σ before payload).filter (fun p => p.cf = cf)
      = (logStep c σ [] payload).filter (fun p => p.cf = cf) := by
  by_cases hσ : σ = .tx
  · subst hσ
    simp only [logStep]
    cases c.serde.transaction.fromSlice payload with
    | error e => rfl
    | ok tx =>
      dsimp only
      rw [filter_txPuts_record hcf, filter_txPuts_record hcf]
  · have hkeyed : ∀ before, logStep c σ before payload = payloadPuts c σ payload := by
      intro before
      cases σ <;> first | exact absurd rfl hσ | rfl
    rw [hkeyed, hkeyed]

/-- **The log of a family of records** comes apart into messages. -/
theorem filter_streamLog (hcf : cf ∈ recordFamilies) (payloads : List Bytes) :
    ((streamLog c σ payloads).filter (fun p => p.cf = cf)).map Put.write
      = payloads.flatMap (recordWrites c σ cf) := by
  induction payloads using List.reverseRecOn with
  | nil =>
    have hnil : streamLog c σ [] = [] := by cases σ <;> rfl
    rw [hnil]
    rfl
  | append_singleton payloads payload ih =>
    rw [streamLog_append_singleton, List.filter_append, List.map_append, ih, filter_logStep hcf,
      List.flatMap_append, List.flatMap_singleton, recordWrites]

/-- A pass leaves of a family of records what its messages write. -/
theorem view_pass (hcf : cf ∈ recordFamilies) (howner : owner cf = some σ)
    (s : WarmStorage) (pl : PipelineState) (ms : List Message) (k : Bytes) :
    (pass c s pl ms).view (cf, k)
      = WriteLog.replay ((ofStream σ ms).flatMap (recordWrites c σ cf)) s.view (cf, k) := by
  rw [pass, view_run howner, WriteLog.replay, ← last_filter_cf, filter_streamLog hcf]
  rfl

/-- What a message writes into such a family does not depend on the state of the indexer. So it
makes no difference how often the message was handled before, and in which life. -/
theorem filter_puts_record (hcf : cf ∈ recordFamilies) (howner : owner cf = some σ)
    (ix : Indexer) (payload : Bytes) :
    ((puts c ix (σ, payload)).filter (fun p => p.cf = cf)).map Put.write
      = recordWrites c σ cf payload := by
  by_cases htx : σ = .tx
  · -- the slot of a transaction does depend on it, but not its record
    subst htx
    simp only [recordWrites, puts, payloadPuts, statePuts, logStep, List.nil_append]
    cases c.serde.transaction.fromSlice payload with
    | error e => rfl
    | ok tx =>
      have hcharge : (chargePuts c (ix.commitTransaction c tx payload) countTx).filter
          (fun p => p.cf = cf) = [] := by
        refine filter_eq_nil_of_owner (fun p hp => ?_)
        rw [cf_of_mem_chargePuts hp, howner]
        decide
      dsimp only
      rw [List.filter_append, hcharge, List.append_nil, filter_txPuts_record hcf,
        filter_txPuts_record hcf]
  · rw [@filter_puts c ix [] cf σ howner (σ, payload) (fun h => absurd h htx), if_pos rfl,
      recordWrites]

end Logs

/-! ## Handling again

What is known of a stream and the store does not depend on how often and in which order the messages
were handled, only on which ones were. The relation counts the handlings all the same, since the
slots of the custom messages are numbered, and there are 2^32 of them. -/

/-- A relation between the number of handlings, the store and the messages of a stream that were
handled to the end. Every handling keeps it: that of a message of another stream, and that of one
of its own messages, to the end or only for some of the writes. -/
structure Survives (c : Crates) (σ : Stream) (log : List JsMessage)
    (R : Nat → WarmStorage → List JsMessage → Prop) : Prop where
  skip : ∀ n s given, R n s given → R (n + 1) s given
  other : ∀ n (ix : Indexer) m count given, m.1 ≠ σ → R n ix.storage given →
    R (n + 1) (ix.storage.batchWrite ((puts c ix m).take count)) given
  part : ∀ n (ix : Indexer) (msg : JsMessage) count given, msg ∈ log → R n ix.storage given →
    R (n + 1) (ix.storage.batchWrite ((puts c ix (σ, msg.1)).take count)) given
  whole : ∀ n (ix : Indexer) (msg : JsMessage) given, msg ∈ log → R n ix.storage given →
    R (n + 1) (ix.storage.batchWrite (puts c ix (σ, msg.1))) (given ++ [msg])

/-- What a batch leaves in a family, by its writes into the family. -/
theorem view_batchWrite_filter (s : WarmStorage) (batch : WriteBatch) (cf : Cf) (k : Bytes) :
    (s.batchWrite batch).view (cf, k)
      = WriteLog.replay ((batch.filter (fun p => p.cf = cf)).map Put.write) s.view (cf, k) := by
  rw [WarmStorage.view_batchWrite, WriteLog.replay, WriteLog.replay, last_filter_cf]

theorem view_batchWrite_of_filter_nil {s : WarmStorage} {batch : WriteBatch} {cf : Cf}
    (h : batch.filter (fun p => p.cf = cf) = []) (k : Bytes) :
    (s.batchWrite batch).view (cf, k) = s.view (cf, k) := by
  rw [view_batchWrite_filter, h, List.map_nil, WriteLog.replay_nil]

/-- The first writes of a batch into a family are writes of the batch into the family. -/
theorem mem_filter_take {batch : WriteBatch} {count : Nat} {cf : Cf} {w : (Cf × Bytes) × Bytes}
    (h : w ∈ ((batch.take count).filter (fun p => p.cf = cf)).map Put.write) :
    w ∈ (batch.filter (fun p => p.cf = cf)).map Put.write :=
  (((List.take_sublist count batch).filter _).map _).subset h

/-- Nor does a beginning of such a batch write into it. -/
theorem filter_take_eq_nil {batch : WriteBatch} {cf : Cf}
    (h : batch.filter (fun p => p.cf = cf) = []) (count : Nat) :
    (batch.take count).filter (fun p => p.cf = cf) = [] := by
  have hsub := (List.take_sublist count batch).filter (fun p => p.cf = cf)
  rw [h] at hsub
  exact List.sublist_nil.mp hsub

/-- Of one write, the first ones of the batch contain it or not. -/
theorem filter_take_singleton {batch : WriteBatch} {cf : Cf} {p : Put}
    (h : batch.filter (fun p => p.cf = cf) = [p]) (count : Nat) :
    (batch.take count).filter (fun p => p.cf = cf) = [] ∨
      (batch.take count).filter (fun p => p.cf = cf) = [p] := by
  have hsub := (List.take_sublist count batch).filter (fun p => p.cf = cf)
  rw [h] at hsub
  exact List.sublist_singleton.mp hsub

/-! ## Records -/

/-- **A family of records** holds for each key the entry of some message, of any one that was
handled to the end or in part. -/
theorem survives_records {c : Crates} {σ : Stream} {cf : Cf} (hcf : cf ∈ recordFamilies)
    (howner : owner cf = some σ) (log : List JsMessage) (m₀ : Cf × Bytes → Option Bytes)
    (k : Bytes) :
    Survives c σ log (fun _ s given =>
      Redelivery.Covers (log.flatMap (fun msg => recordWrites c σ cf msg.1))
        (given.flatMap (fun msg => recordWrites c σ cf msg.1)) m₀ s.view (cf, k)) where
  skip _ _ _ h := h
  other _ ix m count _ hm h := by
    have hnone : (puts c ix m).filter (fun p => p.cf = cf) = [] :=
      filter_puts_of_ne (writer_of_owner howner) hm
    exact h.congr (view_batchWrite_of_filter_nil (filter_take_eq_nil hnone count) k)
  part _ ix msg count _ hmsg h := by
    -- some of its writes are performed, and it does not count as handled
    refine Redelivery.Covers.of_append ((h.replay (fun w hw => ?_)).congr
      (view_batchWrite_filter ix.storage _ cf k))
    have hmem := mem_filter_take hw
    rw [filter_puts_record hcf howner] at hmem
    exact List.mem_flatMap.mpr ⟨msg, hmsg, hmem⟩
  whole _ ix msg _ hmsg h := by
    rw [List.flatMap_append, List.flatMap_singleton]
    refine (h.replay (fun w hw => ?_)).congr ?_
    · exact List.mem_flatMap.mpr ⟨msg, hmsg, hw⟩
    · rw [view_batchWrite_filter, filter_puts_record hcf howner]

/-! ## Custom messages

A message is stored behind those that are already there, and so a second time if it is handled
again. -/

/-- The payload is a message for the tick. -/
def IsFor (c : Crates) (t : UInt32) (payload : Bytes) : Prop :=
  ∃ msg, c.serde.valueFromSlice payload = .ok msg ∧ msg.tick = t

/-- The messages for a tick are those of the payloads that are for it. -/
theorem mem_messagesFor {c : Crates} {t : UInt32} {payload : Bytes} {payloads : List Bytes} :
    payload ∈ messagesFor c t payloads ↔ payload ∈ payloads ∧ IsFor c t payload := by
  rw [messagesFor, List.mem_filter, IsFor]
  refine and_congr_right (fun _ => ?_)
  cases c.serde.valueFromSlice payload with
  | error e => simp
  | ok msg => simp

section Messages

variable {c : Crates} {t : UInt32}

/-- The lists of a tick before and after a batch that may append a message to it. -/
def Appends (s s' : WarmStorage) (t : UInt32) (payload : Bytes) : Prop :=
  ∀ L, MessagesAt s t L → MessagesAt s' t (appendMessage L payload)

/-- The list of a tick is the same before and after. -/
def Keeps (s s' : WarmStorage) (t : UInt32) : Prop :=
  ∀ L, MessagesAt s t L → MessagesAt s' t L

theorem keeps_of_filter_nil {s : WarmStorage} {batch : WriteBatch}
    (h : batch.filter (fun p => p.cf = .customMessage) = []) : Keeps s (s.batchWrite batch) t :=
  fun _ hL => messagesAt_congr hL (fun _ => view_batchWrite_of_filter_nil h _)

/-- A write of the family is one for a tick, and the lists of the others stay. -/
theorem appends_of_filter_singleton {s : WarmStorage} {batch : WriteBatch} {tick : UInt32}
    {payload : Bytes} (h : batch.filter (fun p => p.cf = .customMessage)
      = [.customMessage tick (UInt32.ofNat (s.countCustomMessagesForTick tick)) payload]) :
    if tick = t then Appends s (s.batchWrite batch) t payload
    else Keeps s (s.batchWrite batch) t := by
  have hview : ∀ k, (s.batchWrite batch).view (.customMessage, k)
      = (s.batchWrite [.customMessage tick (UInt32.ofNat (s.countCustomMessagesForTick tick))
          payload]).view (.customMessage, k) := by
    intro k
    rw [view_batchWrite_filter, h, WarmStorage.view_batchWrite]
  by_cases ht : tick = t
  · subst ht
    rw [if_pos rfl]
    exact fun L hL => messagesAt_congr (hL.put payload) (fun _ => hview _)
  · rw [if_neg ht]
    refine fun L hL => messagesAt_congr hL (fun i => ?_)
    rw [hview, WarmStorage.view_batchWrite, List.map_singleton, WriteLog.replay_singleton, if_neg]
    intro heq
    exact ht (WarmStorage.tickIndexKey_inj.mp (Prod.mk.inj heq).2).1

/-- The write of a custom message into its family. -/
theorem filter_puts_custmsg {payload : Bytes} {msg : Value}
    (h : c.serde.valueFromSlice payload = .ok msg) (ix : Indexer) :
    (puts c ix (.custmsg, payload)).filter (fun p => p.cf = .customMessage)
      = [.customMessage msg.tick
          (UInt32.ofNat (ix.storage.countCustomMessagesForTick msg.tick)) payload] := by
  simp only [puts, payloadPuts, statePuts, h]
  rfl

theorem filter_puts_custmsg_error {payload : Bytes} {e : String}
    (h : c.serde.valueFromSlice payload = .error e) (ix : Indexer) :
    (puts c ix (.custmsg, payload)).filter (fun p => p.cf = .customMessage) = [] := by
  simp only [puts, payloadPuts, statePuts, h]
  rfl

/-- **The first writes of a custom message** append it to the messages of its tick, or not yet. -/
theorem appends_take (ix : Indexer) (payload : Bytes) (count : Nat) :
    Keeps ix.storage (ix.storage.batchWrite ((puts c ix (.custmsg, payload)).take count)) t ∨
      IsFor c t payload ∧ Appends ix.storage
        (ix.storage.batchWrite ((puts c ix (.custmsg, payload)).take count)) t payload := by
  cases hmsg : c.serde.valueFromSlice payload with
  | error e =>
    exact .inl (keeps_of_filter_nil (filter_take_eq_nil (filter_puts_custmsg_error hmsg ix) count))
  | ok msg =>
    rcases filter_take_singleton (filter_puts_custmsg hmsg ix) count with hnil | hone
    · exact .inl (keeps_of_filter_nil hnil)
    · have hput := appends_of_filter_singleton (t := t) hone
      by_cases ht : msg.tick = t
      · rw [if_pos ht] at hput
        exact .inr ⟨⟨msg, hmsg, ht⟩, hput⟩
      · rw [if_neg ht] at hput
        exact .inl hput

/-- All its writes append it, if it is a message for the tick. -/
theorem appends_whole (ix : Indexer) {payload : Bytes} (hfor : IsFor c t payload) :
    Appends ix.storage (ix.storage.batchWrite (puts c ix (.custmsg, payload))) t payload := by
  obtain ⟨msg, hmsg, ht⟩ := hfor
  have hput := appends_of_filter_singleton (t := t) (filter_puts_custmsg hmsg ix)
  rwa [if_pos ht] at hput

end Messages

/-- What is known of the messages of a tick after some handlings: behind those that were there
before come messages of the stream, and among them every one that was handled to the end. -/
def Appended (c : Crates) (log : List JsMessage) (t : UInt32) (L : List Bytes) (n : Nat)
    (s : WarmStorage) (given : List JsMessage) : Prop :=
  ∃ performed : List JsMessage, performed.length ≤ n ∧
    MessagesAt s t ((performed.map Prod.fst).foldl appendMessage L) ∧
    (∀ msg ∈ performed, msg ∈ log ∧ IsFor c t msg.1) ∧
    ∀ msg ∈ given, IsFor c t msg.1 → msg ∈ performed

section Appended

variable {c : Crates} {log : List JsMessage} {t : UInt32} {L : List Bytes} {n : Nat}
  {s s' : WarmStorage} {given : List JsMessage}

/-- Handling a message that writes nothing here keeps the list. -/
theorem Appended.keep (h : Appended c log t L n s given) (hs : Keeps s s' t) :
    Appended c log t L (n + 1) s' given := by
  obtain ⟨performed, hlength, hat, hlog, hgiven⟩ := h
  exact ⟨performed, Nat.le_succ_of_le hlength, hs _ hat, hlog, hgiven⟩

/-- Of the messages that were handled, fewer need be known. -/
theorem Appended.sub (h : Appended c log t L n s given) {given' : List JsMessage}
    (hsub : ∀ msg ∈ given', IsFor c t msg.1 → msg ∈ given) : Appended c log t L n s given' := by
  obtain ⟨performed, hlength, hat, hlog, hgiven⟩ := h
  exact ⟨performed, hlength, hat, hlog, fun msg hmsg hfor => hgiven msg (hsub msg hmsg hfor) hfor⟩

/-- One more message at the end of the list. -/
theorem Appended.append (h : Appended c log t L n s given) {msg : JsMessage} (hmsg : msg ∈ log)
    (hfor : IsFor c t msg.1) (hs : Appends s s' t msg.1) :
    Appended c log t L (n + 1) s' (given ++ [msg]) := by
  obtain ⟨performed, hlength, hat, hlog, hgiven⟩ := h
  refine ⟨performed ++ [msg], ?_, ?_, fun m hm => ?_, fun m hm hmfor => ?_⟩
  · rw [List.length_append, List.length_singleton]
    omega
  · rw [List.map_append, List.map_singleton, List.foldl_append]
    exact hs _ hat
  · rcases List.mem_append.mp hm with hm | hm
    · exact hlog m hm
    · rw [List.mem_singleton.mp hm]
      exact ⟨hmsg, hfor⟩
  · rcases List.mem_append.mp hm with hm | hm
    · exact List.mem_append_left _ (hgiven m hm hmfor)
    · exact List.mem_append_right _ hm

/-- In the end none of the messages of the stream is missing, two of one text included. The messages
handled are told apart by their places in the stream, not by their texts. -/
theorem Appended.listed (h : Appended c log t L n s given) (hdone : ∀ msg ∈ log, msg ∈ given)
    (hnodup : log.Nodup) (hroom : L.length + n ≤ messageSlots) :
    ∃ more, s.getCustomMessagesForTick t = L ++ more ∧
      (messagesFor c t (log.map Prod.fst)).Subperm more ∧
      ∀ payload ∈ more, payload ∈ messagesFor c t (log.map Prod.fst) := by
  obtain ⟨performed, hlength, hat, hlog, hgiven⟩ := h
  refine ⟨performed.map Prod.fst, ?_, ?_, fun payload hpayload => ?_⟩
  · rw [foldl_appendMessage_of_le (by rw [List.length_map]; omega)] at hat
    exact hat.getCustomMessagesForTick_eq
  · rw [messagesFor, List.filter_map]
    -- the messages of the stream differ by their places, and so are among the performed ones
    obtain ⟨l, hperm, hsub⟩ : (log.filter _).Subperm performed :=
      List.subperm_of_subset (hnodup.filter _) (fun msg hmsg => by
        obtain ⟨hmsg, hpred⟩ := List.mem_filter.mp hmsg
        have hmem : msg.1 ∈ messagesFor c t [msg.1] :=
          List.mem_filter.mpr ⟨List.mem_singleton_self _, hpred⟩
        exact hgiven msg (hdone msg hmsg) (mem_messagesFor.mp hmem).2)
    exact ⟨l.map Prod.fst, hperm.map _, hsub.map _⟩
  · obtain ⟨msg, hmsg, rfl⟩ := List.mem_map.mp hpayload
    obtain ⟨hmem, hfor⟩ := hlog msg hmsg
    exact mem_messagesFor.mpr ⟨List.mem_map_of_mem hmem, hfor⟩

end Appended

/-- **The custom messages of a tick** keep what was there before, and behind it come messages of
the stream, among them every one that was handled to the end. -/
theorem survives_messages (c : Crates) (log : List JsMessage) (t : UInt32) (L : List Bytes) :
    Survives c .custmsg log (Appended c log t L) where
  skip _ _ _ h := h.keep (fun _ hat => hat)
  other _ ix m count _ hm h :=
    h.keep (keeps_of_filter_nil (filter_take_eq_nil (filter_puts_of_ne rfl hm) count))
  part n ix msg count given hmsg h := by
    rcases appends_take (c := c) (t := t) ix msg.1 count with hkeep | ⟨hfor, hput⟩
    · exact h.keep hkeep
    · -- it is in the list, though it does not count as handled
      exact (h.append hmsg hfor hput).sub (fun _ hm _ => List.mem_append_left _ hm)
  whole n ix msg given hmsg h := by
    by_cases hfor : IsFor c t msg.1
    · exact h.append hmsg hfor (appends_whole ix hfor)
    · have htake := appends_take (c := c) (t := t) ix msg.1 (puts c ix (.custmsg, msg.1)).length
      rw [List.take_length] at htake
      refine (h.keep (htake.resolve_right (fun hput => hfor hput.1))).sub (fun m hm hmfor => ?_)
      rcases List.mem_append.mp hm with hm | hm
      · exact hm
      · rw [List.mem_singleton.mp hm] at hmfor
        exact absurd hmfor hfor

/-! ## Oracle data

A data point that names no tick is filed under the one indexed last, which may be another one each
time it is handled. -/

/-- A data point that reads as JSON has one write, under its tick or that of the indexer. -/
theorem filter_puts_oracle {c : Crates} {payload : Bytes} {entry : Value}
    (h : c.serde.valueFromSlice payload = .ok entry) (ix : Indexer) :
    (puts c ix (.oracle, payload)).filter (fun p => p.cf = .oracle)
      = [.oracle (if entry.tick = 0 then ix.pipeline.indexedTick else entry.tick) payload] := by
  simp only [puts, payloadPuts, statePuts, h]
  rfl

theorem filter_puts_oracle_error {c : Crates} {payload : Bytes} {e : String}
    (h : c.serde.valueFromSlice payload = .error e) (ix : Indexer) :
    (puts c ix (.oracle, payload)).filter (fun p => p.cf = .oracle) = [] := by
  simp only [puts, payloadPuts, statePuts, h]
  rfl

/-- What is known of the oracle records after some handlings: they are data points of the stream,
or were there before, and each data point that was handled to the end has left one under its tick
if it names one, and otherwise under some tick. -/
structure Filed (c : Crates) (log : List JsMessage) (s₀ s : WarmStorage) (given : List JsMessage) :
    Prop where
  held : ∀ k v, s.view (.oracle, k) = some v →
    (∃ msg ∈ log, v = msg.1) ∨ s₀.view (.oracle, k) = some v
  filed : ∀ msg ∈ given, ∀ entry, c.serde.valueFromSlice msg.1 = .ok entry →
    ∃ tick : UInt32, (entry.tick ≠ 0 → tick = entry.tick) ∧
      ∃ msg' ∈ log, s.view (.oracle, tick.toBeBytes) = some msg'.1

section Filed

variable {c : Crates} {log : List JsMessage} {s₀ s : WarmStorage} {given : List JsMessage}
  {batch : WriteBatch}

/-- A batch without such a write keeps the records. -/
theorem Filed.keep (h : Filed c log s₀ s given)
    (hnil : batch.filter (fun p => p.cf = .oracle) = []) :
    Filed c log s₀ (s.batchWrite batch) given := by
  refine ⟨fun k v hv => ?_, fun msg hmsg entry hentry => ?_⟩
  · rw [view_batchWrite_of_filter_nil hnil] at hv
    exact h.held k v hv
  · obtain ⟨tick, htick, msg', hmsg', hview⟩ := h.filed msg hmsg entry hentry
    refine ⟨tick, htick, msg', hmsg', ?_⟩
    rw [view_batchWrite_of_filter_nil hnil]
    exact hview

/-- A data point makes way for another one at most. It is filed under its own tick, or under the one
indexed last, and what was there before was a data point too. -/
theorem Filed.put (h : Filed c log s₀ s given) {msg : JsMessage} (hmsg : msg ∈ log)
    {tick : UInt32} (hone : batch.filter (fun p => p.cf = .oracle) = [.oracle tick msg.1]) :
    Filed c log s₀ (s.batchWrite batch) given ∧
      (s.batchWrite batch).view (.oracle, tick.toBeBytes) = some msg.1 := by
  have hview : ∀ k, (s.batchWrite batch).view (.oracle, k)
      = if tick.toBeBytes = k then some msg.1 else s.view (.oracle, k) := by
    intro k
    rw [view_batchWrite_filter, hone, List.map_singleton, WriteLog.replay_singleton]
    simp only [Put.write, Put.oracle, Prod.mk.injEq, true_and]
  refine ⟨⟨fun k v hv => ?_, fun m hm entry hentry => ?_⟩, ?_⟩
  · rw [hview] at hv
    split at hv
    · exact .inl ⟨msg, hmsg, (Option.some.inj hv).symm⟩
    · exact h.held k v hv
  · obtain ⟨tick', htick', msg', hmsg', hheld⟩ := h.filed m hm entry hentry
    refine ⟨tick', htick', ?_⟩
    rw [hview]
    split
    · exact ⟨msg, hmsg, rfl⟩
    · exact ⟨msg', hmsg', hheld⟩
  · rw [hview, if_pos rfl]

end Filed

/-- **The oracle records** are data points of the stream, and every data point that was handled to
the end has left one. -/
theorem survives_oracle (c : Crates) (log : List JsMessage) (s₀ : WarmStorage) :
    Survives c .oracle log (fun _ s given => Filed c log s₀ s given) where
  skip _ _ _ h := h
  other _ ix m count _ hm h := h.keep (filter_take_eq_nil (filter_puts_of_ne rfl hm) count)
  part _ ix msg count _ hmsg h := by
    cases hentry : c.serde.valueFromSlice msg.1 with
    | error e => exact h.keep (filter_take_eq_nil (filter_puts_oracle_error hentry ix) count)
    | ok entry =>
      rcases filter_take_singleton (filter_puts_oracle hentry ix) count with hnil | hone
      · exact h.keep hnil
      · exact (h.put hmsg hone).1
  whole _ ix msg given hmsg h := by
    cases hentry : c.serde.valueFromSlice msg.1 with
    | error e =>
      have hkeep := h.keep (filter_puts_oracle_error hentry ix)
      refine ⟨hkeep.held, fun m hm entry hm' => ?_⟩
      rcases List.mem_append.mp hm with hm | hm
      · exact hkeep.filed m hm entry hm'
      · -- the data point just handled is the one just written
        rw [List.mem_singleton.mp hm, hentry] at hm'
        cases hm'
    | ok entry =>
      obtain ⟨hput, hview⟩ := h.put hmsg (filter_puts_oracle hentry ix)
      refine ⟨hput.held, fun m hm entry' hm' => ?_⟩
      rcases List.mem_append.mp hm with hm | hm
      · exact hput.filed m hm entry' hm'
      · rw [List.mem_singleton.mp hm, hentry] at hm'
        obtain rfl := Except.ok.inj hm'
        exact ⟨_, fun hne => if_neg hne, msg, hmsg, hview⟩

end Indexer

end Qonduit

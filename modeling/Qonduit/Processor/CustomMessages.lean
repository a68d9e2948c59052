import Qonduit.Processor.StreamLog
import Qonduit.Storage.WarmScan

/-!
# Qonduit — custom messages

`index_custom_message` stores a message at the number of messages already under its tick.
Seen from outside, the `custom_message` family keeps one list per tick, and the handler is
`appendMessage` on it: an append until the 2^32 indices of the tick are used up, from then on
an overwrite of the first message.

* **`MessagesAt`** — the store holds the list `L` for tick `t`.
* **`messagesAt_consume`**, **`messagesAt_run`** — the handler refines `appendMessage`, and
  no other handler touches the list.
* **`messagesAt_of_reachable`** — every reachable store holds such a list for every tick.
-/

namespace Qonduit

def messageSlots : Nat := 2 ^ 32

/-- The effect of one more message on the messages of its tick. -/
def appendMessage (L : List Bytes) (payload : Bytes) : List Bytes :=
  if L.length < messageSlots then L ++ [payload] else L.set 0 payload

/-- The store holds the messages `L` of tick `t`, at the indices from 0 on. -/
structure MessagesAt (s : WarmStorage) (t : UInt32) (L : List Bytes) : Prop where
  length_le : L.length ≤ messageSlots
  slot : ∀ i < messageSlots, s.messageSlot t i = L[i]?

/-- The payloads of the custom-message stream that belong to a tick. -/
def messagesFor (c : Crates) (t : UInt32) (payloads : List Bytes) : List Bytes :=
  payloads.filter fun p =>
    match c.serde.valueFromSlice p with
    | .ok msg => msg.tick == t
    | .error _ => false

/-- Looking up the first slots of a list gives the beginning of the list. -/
theorem filterMap_range_getElem? (L : List Bytes) (n : Nat) :
    (List.range n).filterMap (fun i => L[i]?) = L.take n := by
  induction n with
  | zero => simp
  | succ n ih =>
    have hlast : [n].filterMap (fun i => L[i]?) = L[n]?.toList := by
      cases h : L[n]? <;> simp [h]
    rw [List.range_succ, List.filterMap_append, ih, List.take_add_one, hlast]

namespace MessagesAt

variable {s : WarmStorage} {t : UInt32} {L : List Bytes}

/-- The messages of a tick are listed in the order of their slots. -/
theorem getCustomMessagesForTick_eq (h : MessagesAt s t L) : s.getCustomMessagesForTick t = L := by
  rw [WarmStorage.getCustomMessagesForTick_eq]
  have hslots : ∀ i ∈ List.range (2 ^ 32), s.messageSlot t i = L[i]? :=
    fun i hi => h.slot i (List.mem_range.mp hi)
  rw [List.filterMap_congr hslots, filterMap_range_getElem?]
  exact List.take_of_length_le h.length_le

theorem empty (t : UInt32) : MessagesAt .empty t [] :=
  ⟨Nat.zero_le _, fun i _ => by simp [WarmStorage.messageSlot]⟩

/-- The write of `index_custom_message` appends. The index is the number of entries, in 32 bits:
below the last slot it is a new one, and on a full list it is 0, so that the first entry is
replaced. -/
theorem put (h : MessagesAt s t L) (payload : Bytes) :
    MessagesAt (s.batchWrite [.customMessage t (UInt32.ofNat (s.countCustomMessagesForTick t))
      payload]) t (appendMessage L payload) := by
  have hcount : s.countCustomMessagesForTick t = L.length := by
    rw [WarmStorage.countCustomMessagesForTick_eq, h.getCustomMessagesForTick_eq]
  have hslot : ∀ i < messageSlots,
      (s.batchWrite [.customMessage t (UInt32.ofNat L.length) payload]).messageSlot t i
        = if UInt32.ofNat L.length = UInt32.ofNat i then some payload else L[i]? := by
    intro i hi
    rw [WarmStorage.messageSlot, WarmStorage.view_batchWrite, List.map_singleton,
      WriteLog.replay_singleton]
    simp only [Put.write, Put.customMessage, Prod.mk.injEq, WarmStorage.tickIndexKey_inj, true_and]
    rw [← h.slot i hi]
    rfl
  have hofNat : ∀ i < messageSlots, ∀ j < messageSlots,
      UInt32.ofNat i = UInt32.ofNat j ↔ i = j := by
    intro i hi j hj
    rw [← UInt32.toNat_inj, UInt32.toNat_ofNat_of_lt' hi, UInt32.toNat_ofNat_of_lt' hj]
  rw [hcount]
  unfold appendMessage
  split
  · next hlt =>
    -- the slot written is the first one behind the list
    refine ⟨by simpa using hlt, fun i hi => ?_⟩
    rw [hslot i hi, List.getElem?_append]
    simp only [hofNat _ hlt i hi]
    rcases Nat.lt_trichotomy i L.length with h | h | h
    · rw [if_neg (by omega), if_pos h]
    · subst h
      simp
    · rw [if_neg (by omega), if_neg (by omega), List.getElem?_eq_none (by omega),
        List.getElem?_eq_none (by simp; omega)]
  · next hge =>
    -- all indices are used: the count wraps to index 0
    have hfull : L.length = messageSlots := Nat.le_antisymm h.length_le (Nat.not_lt.mp hge)
    refine ⟨by simpa using h.length_le, fun i hi => ?_⟩
    rw [hslot i hi, hfull, show UInt32.ofNat messageSlots = UInt32.ofNat 0 from by decide,
      List.getElem?_set]
    simp only [hofNat 0 (by decide) i hi]
    by_cases hi0 : 0 = i
    · subst hi0
      simp [hfull, messageSlots]
    · rw [if_neg hi0, if_neg hi0]

end MessagesAt

namespace Indexer

/-! ## Steps and runs

The list of a tick changes only by a message for this tick. Each step is compared with an operation
on the list, and a run with the repetition of it. -/

/-- A message for a tick writes one entry, in the slot that the number of entries gives. -/
theorem filter_puts_customMessage (c : Crates) (ix : Indexer) (m : Message) :
    (puts c ix m).filter (fun p => p.cf = .customMessage)
      = if m.1 = .custmsg then
          match c.serde.valueFromSlice m.2 with
          | .ok msg => [.customMessage msg.tick
              (UInt32.ofNat (ix.storage.countCustomMessagesForTick msg.tick)) m.2]
          | .error _ => []
        else [] := by
  by_cases hm : m.1 = .custmsg
  · obtain ⟨σ, payload⟩ := m
    cases hm
    rw [if_pos rfl]
    simp only [puts, payloadPuts, statePuts, List.nil_append]
    cases c.serde.valueFromSlice payload with
    | ok msg => exact List.filter_cons_of_pos (by simp [Put.customMessage])
    | error e => rfl
  · rw [if_neg hm, filter_puts_of_ne rfl hm]

/-- What a step leaves in `custom_message` is the effect of those writes. -/
theorem view_consume_customMessage (c : Crates) (ix : Indexer) (m : Message) (k : Bytes) :
    (consume c ix m).storage.view (.customMessage, k)
      = (ix.storage.batchWrite ((puts c ix m).filter (fun p => p.cf = .customMessage))).view
          (.customMessage, k) := by
  rw [storage_consume, WarmStorage.view_batchWrite, WarmStorage.view_batchWrite,
    WriteLog.replay, WriteLog.replay, last_filter_cf]

theorem messagesAt_congr {s s' : WarmStorage} {t : UInt32} {L : List Bytes}
    (hL : MessagesAt s t L) (h : ∀ i, s'.view (.customMessage, tickIndexKey t i)
      = s.view (.customMessage, tickIndexKey t i)) : MessagesAt s' t L :=
  ⟨hL.length_le, fun i hi => (h _).trans (hL.slot i hi)⟩

/-- **A step refines `appendMessage`** on the list of every tick. A message for the tick is appended
to it, a message for another tick changes the list of that one, and the other streams do not write
the family. -/
theorem messagesAt_consume {c : Crates} {ix : Indexer} {t : UInt32} {L : List Bytes}
    (hL : MessagesAt ix.storage t L) (m : Message) :
    MessagesAt (consume c ix m).storage t
      ((messagesFor c t (ofStream .custmsg [m])).foldl appendMessage L) := by
  have hview := view_consume_customMessage c ix m
  rw [filter_puts_customMessage] at hview
  rw [ofStream_singleton]
  by_cases hm : m.1 = .custmsg
  · rw [if_pos hm]
    rw [if_pos hm] at hview
    cases hmsg : c.serde.valueFromSlice m.2 with
    | error e =>
      rw [hmsg] at hview
      simp only [messagesFor, List.filter_cons, hmsg]
      exact messagesAt_congr hL (fun i => hview _)
    | ok msg =>
      rw [hmsg] at hview
      simp only [messagesFor, List.filter_cons, List.filter_nil, hmsg, beq_iff_eq]
      -- a message of another tick is written under another key
      by_cases ht : msg.tick = t
      · subst ht
        rw [if_pos rfl]
        exact messagesAt_congr (hL.put m.2) (fun i => hview _)
      · rw [if_neg ht]
        refine messagesAt_congr hL (fun i => ?_)
        rw [hview, WarmStorage.view_batchWrite, List.map_singleton, WriteLog.replay_singleton,
          if_neg]
        intro h
        exact ht (WarmStorage.tickIndexKey_inj.mp (Prod.mk.inj h).2).1
  · rw [if_neg hm]
    rw [if_neg hm] at hview
    exact messagesAt_congr hL (fun i => hview _)

theorem messagesFor_append (c : Crates) (t : UInt32) (ps qs : List Bytes) :
    messagesFor c t (ps ++ qs) = messagesFor c t ps ++ messagesFor c t qs :=
  List.filter_append ..

/-- **A run appends** the messages for the tick, one after the other. -/
theorem messagesAt_run {c : Crates} {ix : Indexer} {t : UInt32} {L : List Bytes}
    (hL : MessagesAt ix.storage t L) (ms : List Message) :
    MessagesAt (run c ix ms).storage t
      ((messagesFor c t (ofStream .custmsg ms)).foldl appendMessage L) := by
  induction ms generalizing ix L with
  | nil => exact hL
  | cons m ms ih =>
    rw [← List.singleton_append, ofStream_append, messagesFor_append, List.foldl_append]
    exact ih (messagesAt_consume hL m)

/-- **Every reachable store keeps one message list per tick.** -/
theorem messagesAt_of_reachable {c : Crates} {ix : Indexer} (h : Reachable c ix) (t : UInt32) :
    MessagesAt ix.storage t (ix.storage.getCustomMessagesForTick t) := by
  -- some list, by induction; it is the one the query returns
  have hex : ∃ L, MessagesAt ix.storage t L := by
    induction h with
    | init pl => exact ⟨[], .empty t⟩
    | step σ payload _ hok ih =>
      obtain ⟨L, hL⟩ := ih
      rw [← consume_of_ok hok]
      exact ⟨_, messagesAt_consume hL (σ, payload)⟩
    | restart pl _ ih => exact ih
  obtain ⟨L, hL⟩ := hex
  rwa [hL.getCustomMessagesForTick_eq]

end Indexer

/-! ## Replaying the messages of a tick

A replay appends what is there already. The list therefore grows until its slots are used up, and
from then on its first entry is replaced. -/

/-- It grows up to the number of slots. -/
theorem length_foldl_appendMessage {L : List Bytes} (hL : L.length ≤ messageSlots)
    (ps : List Bytes) :
    (ps.foldl appendMessage L).length = min (L.length + ps.length) messageSlots := by
  induction ps generalizing L with
  | nil => simp [hL]
  | cons p ps ih =>
    have hlen : (appendMessage L p).length = min (L.length + 1) messageSlots := by
      unfold appendMessage
      split <;> simp <;> omega
    rw [List.foldl_cons, ih (by omega), hlen, List.length_cons]
    omega

/-- On a full list every message replaces the first one. -/
theorem foldl_appendMessage_full {L : List Bytes} (hL : L.length = messageSlots)
    (ps : List Bytes) (p : Bytes) : (ps ++ [p]).foldl appendMessage L = L.set 0 p := by
  induction ps generalizing L with
  | nil => simp [appendMessage, hL]
  | cons q ps ih =>
    have hq : appendMessage L q = L.set 0 q := by simp [appendMessage, hL]
    rw [List.cons_append, List.foldl_cons, hq, ih (by simpa using hL)]
    simp

/-- Appending a batch leaves the list as it is exactly when the batch is empty, or the list
is full and begins with the last message of the batch. -/
theorem foldl_appendMessage_eq_self_iff {L : List Bytes} (hL : L.length ≤ messageSlots)
    (ps : List Bytes) :
    ps.foldl appendMessage L = L ↔
      ps = [] ∨ L.length = messageSlots ∧ L.head? = ps.getLast? := by
  rcases List.eq_nil_or_concat ps with rfl | ⟨qs, p, rfl⟩
  · simp
  · rw [List.concat_eq_append]
    constructor
    · intro h
      -- a list that is not full would have grown
      have hlen := length_foldl_appendMessage hL (qs ++ [p])
      rw [h] at hlen
      have hfull : L.length = messageSlots := by
        simp only [List.length_append, List.length_singleton] at hlen
        omega
      refine .inr ⟨hfull, ?_⟩
      rw [foldl_appendMessage_full hfull] at h
      cases L with
      | nil => simp [messageSlots] at hfull
      | cons x L => simpa using (List.cons.inj h).1.symm
    · rintro (h | ⟨hfull, hhead⟩)
      · simp at h
      · rw [foldl_appendMessage_full hfull]
        cases L with
        | nil => rfl
        | cons x L =>
          have hx : x = p := by simpa using hhead
          rw [hx]
          rfl

end Qonduit

import Qonduit.Processor.TxIndex

/-!
# Qonduit — duplicate deliveries

JetStream redelivers, peers broadcast the same transaction, live ingestion and backfill both
publish it. The secondary indexes are keyed by the position of the delivery, so a repetition is
harmless only if it falls on the slots of the first delivery.

* **`Distinct`** — the listings hold no hash twice and `count_entity_transactions` is the number
  of distinct transactions of the entity.
* **`index_distinct_iff`** — the listings stay distinct through a whole sequence of deliveries
  exactly when repetitions fall on the same slots (`SameSlots`), a condition on the sequence.
-/

namespace Qonduit

def Transaction.Involves (c : Crates) (tx : Transaction) (e : Key32) : Prop :=
  tx.source c = some e ∨ tx.destination c = some e

instance (c : Crates) (tx : Transaction) (e : Key32) : Decidable (tx.Involves c e) :=
  inferInstanceAs (Decidable (_ ∨ _))

/-- The hashes of the distinct transactions of an entity among the deliveries. -/
def distinctHashes (c : Crates) (e : Key32) (ds : List Delivery) : List Key32 :=
  ((ds.filter (fun d => d.1.Involves c e)).map (fun d => d.1.hashBytes c)).dedup

/-- No listing of the store holds a hash twice, and the entity counts are those of the distinct
transactions delivered. -/
structure Distinct (c : Crates) (s : WarmStorage) (ds : List Delivery) : Prop where
  tick : ∀ t hs, s.getTxHashesForTick t = .ok hs → hs.Nodup
  entity : ∀ e limit hs, s.getTxHashesForEntity e limit = .ok hs → hs.Nodup
  count : ∀ e, s.countEntityTransactions e = (distinctHashes c e ds).length

/-- Two deliveries of an entity have one hash exactly when they have one slot; and a hash
delivered twice for a tick at different positions has its first position taken over by another
transaction in between. -/
def SameSlots (c : Crates) (ps : List Placement) : Prop :=
  (∀ t, WriteLog.OverwrittenBetween (tickLog c t ps)) ∧ ∀ e, WriteLog.Bijective (entityLog c e ps)

/-! ## Prefixes

A claim about every state reached is one about all initial parts of the sequence. Deliveries that
are no transaction place nothing, so several initial parts of the sequence may have one log. -/

/-- The first placements are those of the first deliveries. -/
theorem take_placeAfter (before : List UInt32) (ds : List Delivery) (n : Nat) :
    (placeAfter before ds).take n = placeAfter before (ds.take n) := by
  induction ds generalizing before n with
  | nil => simp [placeAfter]
  | cons d ds ih =>
    cases n with
    | zero => rfl
    | succ n => simp [placeAfter, ih]

/-- An initial part of the placements is that of some initial part of the payloads. -/
theorem isPrefix_placements_iff {c : Crates} {payloads : List Bytes} {ps : List Placement} :
    ps <+: placements c payloads ↔ ∃ q, q <+: payloads ∧ ps = placements c q := by
  constructor
  · intro h
    rw [List.prefix_iff_eq_take, placements, take_placeAfter] at h
    obtain ⟨q, hq, heq⟩ := List.prefix_filterMap_iff.mp (List.take_prefix ps.length
      (accepted c payloads))
    exact ⟨q, hq, by rw [h, heq]; rfl⟩
  · rintro ⟨q, hq, rfl⟩
    obtain ⟨rest, rfl⟩ := hq
    rw [placements, placements, accepted_append, placeAfter_append]
    exact List.prefix_append _ _

/-- The initial parts of a log taken from the placements are the logs of the initial parts of
the sequence. -/
theorem isPrefix_log_iff {β : Type} {c : Crates} {payloads : List Bytes} {p : Placement → Bool}
    {f : Placement → β} {log : List β} :
    log <+: ((placements c payloads).filter p).map f ↔
      ∃ q, q <+: payloads ∧ log = ((placements c q).filter p).map f := by
  rw [List.prefix_map_iff]
  constructor
  · rintro ⟨l, hl, rfl⟩
    obtain ⟨ps, hps, rfl⟩ := List.prefix_filter_iff.mp hl
    obtain ⟨q, hq, rfl⟩ := isPrefix_placements_iff.mp hps
    exact ⟨q, hq, rfl⟩
  · rintro ⟨q, hq, rfl⟩
    exact ⟨_, (isPrefix_placements_iff.mpr ⟨q, hq, rfl⟩).filter _, rfl⟩

/-- A property of all initial parts of the log is a property of all initial sequences. -/
theorem forall_isPrefix_log_iff {β : Type} {c : Crates} {payloads : List Bytes}
    {p : Placement → Bool} {f : Placement → β} {P : List β → Prop} :
    (∀ log, log <+: ((placements c payloads).filter p).map f → P log) ↔
      ∀ q, q <+: payloads → P (((placements c q).filter p).map f) := by
  constructor
  · intro h q hq
    exact h _ (isPrefix_log_iff.mpr ⟨q, hq, rfl⟩)
  · intro h log hlog
    obtain ⟨q, hq, rfl⟩ := isPrefix_log_iff.mp hlog
    exact h q hq

/-! ## Listings and logs

A listing has the last hash of each slot. It repeats a hash where two slots hold the same one, and
that depends on the log of the slots alone. -/

/-- What a tick slot holds is a key. -/
theorem exists_key_of_mem_tickLog {c : Crates} {t : UInt32} {ps : List Placement} {i : UInt32}
    {v : Bytes} (h : WriteLog.last (tickLog c t ps) i = some v) : ∃ k : Key32, v = k.toList := by
  obtain ⟨a, -, heq⟩ := List.mem_map.mp (WriteLog.mem_of_last h)
  exact ⟨a.hash c, (Prod.mk.inj heq).2.symm⟩

/-- And what an entity slot holds is the key of a transaction of the entity. -/
theorem exists_key_of_mem_entityLog {c : Crates} {e : Key32} {ps : List Placement}
    {slot : UInt32 × UInt32} {v : Bytes}
    (h : WriteLog.last (entityLog c e ps) slot = some v) :
    ∃ a ∈ ofEntity c e ps, v = (a.hash c).toList := by
  obtain ⟨a, ha, heq⟩ := List.mem_map.mp (WriteLog.mem_of_last h)
  exact ⟨a, ha, (Prod.mk.inj heq).2.symm⟩

/-- A list of the slots of a log has no repetition exactly when the log is injective. -/
theorem nodup_iff_injective {A : Type} [DecidableEq A] {log : List (A × Bytes)}
    {hs : List Key32} (hlists : WarmStorage.Lists (WriteLog.last log) hs)
    (hkeys : ∀ a v, WriteLog.last log a = some v → ∃ k : Key32, v = k.toList) :
    hs.Nodup ↔ WriteLog.Injective log := by
  rw [hlists.nodup_iff]
  constructor
  · intro h a b v ha hb
    obtain ⟨k, rfl⟩ := hkeys a v ha
    exact h a b k ha hb
  · intro h i j k hi hj
    exact h i j k.toList hi hj

/-- Two repetition-free lists, one within the other, have one length exactly when the other is
within the one. -/
theorem length_eq_iff_subset {α : Type} {l l' : List α} (hl : l.Nodup) (hl' : l'.Nodup)
    (hsub : l ⊆ l') : l.length = l'.length ↔ l' ⊆ l := by
  constructor
  · intro h
    have hperm := (List.subperm_of_subset hl hsub).perm_of_length_le h.ge
    exact hperm.symm.subset
  · intro h
    exact ((List.perm_ext_iff_of_nodup hl hl').mpr (fun x => ⟨fun hx => hsub hx,
      fun hx => h hx⟩)).length_eq

theorem mem_distinctHashes_iff {c : Crates} {e : Key32} {payloads : List Bytes} {h : Key32} :
    h ∈ distinctHashes c e (accepted c payloads) ↔
      ∃ a ∈ ofEntity c e (placements c payloads), a.hash c = h := by
  rw [distinctHashes, List.mem_dedup, ← map_delivery_placements, List.filter_map, List.map_map,
    List.mem_map]
  rfl

theorem nodup_distinctHashes (c : Crates) (e : Key32) (ds : List Delivery) :
    (distinctHashes c e ds).Nodup :=
  List.nodup_dedup _

namespace Indexer

variable (c : Crates) (pl : PipelineState) (payloads : List Bytes)

/-- The tick listings repeat nothing if no two slots hold one hash. -/
theorem tick_distinct_iff :
    (∀ t hs, (indexTransactions c (new .empty pl) payloads).storage.getTxHashesForTick t = .ok hs →
        hs.Nodup)
      ↔ ∀ t, WriteLog.Injective (tickLog c t (placements c payloads)) := by
  refine forall_congr' (fun t => ?_)
  obtain ⟨hs, hok, hlists⟩ :=
    (indexTransactions c (new .empty pl) payloads).storage.getTxHashesForTick_ok t
  have hslot : (indexTransactions c (new .empty pl) payloads).storage.tickSlot t
      = WriteLog.last (tickLog c t (placements c payloads)) :=
    funext (tickSlot_indexTransactions c pl payloads t)
  rw [hslot] at hlists
  rw [← nodup_iff_injective hlists (fun _ _ h => exists_key_of_mem_tickLog h), hok]
  constructor
  · intro h
    exact h hs rfl
  · rintro h _ ⟨⟩
    exact h

/-- The entity listings repeat nothing and their counts are right if in addition no slot has lost
its hash. -/
theorem entity_distinct_iff :
    ((∀ e limit hs, (indexTransactions c (new .empty pl) payloads).storage.getTxHashesForEntity e
          limit = .ok hs → hs.Nodup)
      ∧ ∀ e, (indexTransactions c (new .empty pl) payloads).storage.countEntityTransactions e
          = (distinctHashes c e (accepted c payloads)).length)
      ↔ ∀ e, WriteLog.Faithful (entityLog c e (placements c payloads)) := by
  rw [← forall_and]
  refine forall_congr' (fun e => ?_)
  obtain ⟨hs, hok, hlists, hcount⟩ :=
    (indexTransactions c (new .empty pl) payloads).storage.getTxHashesForEntity_ok e
  have hslot : (indexTransactions c (new .empty pl) payloads).storage.entitySlot e
      = WriteLog.last (entityLog c e (placements c payloads)) :=
    funext (entitySlot_indexTransactions c pl payloads e)
  rw [hslot] at hlists
  have hnodup : (∀ limit hs', (indexTransactions c (new .empty pl)
      payloads).storage.getTxHashesForEntity e limit = .ok hs' → hs'.Nodup) ↔ hs.Nodup := by
    constructor
    · -- a limit that covers the whole listing
      intro h
      have := h hs.length _ (hok hs.length)
      rwa [List.take_length] at this
    · intro h limit hs' hok'
      rw [hok limit] at hok'
      cases hok'
      exact h.sublist (List.take_sublist _ _)
  rw [hnodup, WriteLog.Faithful, hcount]
  have hinj := nodup_iff_injective hlists (fun _ _ h => by
    obtain ⟨a, -, rfl⟩ := exists_key_of_mem_entityLog h
    exact ⟨a.hash c, rfl⟩)
  rw [← hinj]
  -- without repetitions, the count is right when no transaction delivered is missing
  refine and_congr_right (fun hnd => ?_)
  have hsub : hs ⊆ distinctHashes c e (accepted c payloads) := by
    intro h hh
    obtain ⟨slot, hlast⟩ := (hlists.mem_iff h).mp hh
    obtain ⟨a, ha, heq⟩ := exists_key_of_mem_entityLog hlast
    exact mem_distinctHashes_iff.mpr ⟨a, ha, (WarmStorage.toList_injective heq).symm⟩
  rw [length_eq_iff_subset hnd (nodup_distinctHashes c e _) hsub]
  constructor
  · intro h w hw
    obtain ⟨a, ha, rfl⟩ := List.mem_map.mp hw
    exact (hlists.mem_iff _).mp (h (mem_distinctHashes_iff.mpr ⟨a, ha, rfl⟩))
  · intro h k hk
    obtain ⟨a, ha, rfl⟩ := mem_distinctHashes_iff.mp hk
    exact (hlists.mem_iff _).mpr (h _ (List.mem_map.mpr ⟨a, ha, rfl⟩))

/-- **When the indexes stay free of duplicates.** Through a sequence of deliveries into an empty
database, every state reached has distinct listings and right entity counts if and only if
repeated deliveries fall on the same slots. -/
theorem index_distinct_iff :
    (∀ q, q <+: payloads →
        Distinct c (indexTransactions c (new .empty pl) q).storage (accepted c q))
      ↔ SameSlots c (placements c payloads) := by
  have htick : (∀ t, WriteLog.OverwrittenBetween (tickLog c t (placements c payloads))) ↔
      ∀ t q, q <+: payloads → WriteLog.Injective (tickLog c t (placements c q)) :=
    forall_congr' (fun t => WriteLog.injective_prefixes_iff.symm.trans forall_isPrefix_log_iff)
  have hentity : (∀ e, WriteLog.Bijective (entityLog c e (placements c payloads))) ↔
      ∀ e q, q <+: payloads → WriteLog.Faithful (entityLog c e (placements c q)) :=
    forall_congr' (fun e => WriteLog.faithful_prefixes_iff.symm.trans forall_isPrefix_log_iff)
  rw [SameSlots, htick, hentity]
  constructor
  · intro h
    exact ⟨fun t q hq => (tick_distinct_iff c pl q).mp (h q hq).tick t,
      fun e q hq => (entity_distinct_iff c pl q).mp ⟨(h q hq).entity, (h q hq).count⟩ e⟩
  · rintro ⟨ht, he⟩ q hq
    obtain ⟨hent, hcnt⟩ := (entity_distinct_iff c pl q).mpr (fun e => he e q hq)
    exact ⟨(tick_distinct_iff c pl q).mpr (fun t => ht t q hq), hent, hcnt⟩

/-- One transaction of tick 1, delivered twice in a row: it is listed twice under its tick and
counted twice for its entity. -/
theorem index_duplicates :
    let payloads := [(sampleTx 1 1).json, (sampleTx 1 1).json]
    let s := (indexTransactions (.ofKnown sampleTxs) (new .empty {}) payloads).storage
    let h := (sampleTx 1 1).hashBytes (.ofKnown sampleTxs)
    s.getTxHashesForTick 1 = .ok [h, h]
    ∧ s.getTxHashesForEntity zeroKey 10 = .ok [h, h]
    ∧ s.countEntityTransactions zeroKey = 2
    ∧ (distinctHashes (.ofKnown sampleTxs) zeroKey
        (accepted (.ofKnown sampleTxs) payloads)).length = 1
    ∧ ¬ [h, h].Nodup := by
  decide +kernel

end Indexer

end Qonduit

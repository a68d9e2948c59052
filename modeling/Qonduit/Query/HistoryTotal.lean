import Qonduit.Query.History
import Qonduit.Query.Rpc

/-!
# Qonduit — the total of a history

The entity-history endpoints answer with a page of transactions and a total. The page is within the
epoch asked for, while `count_entity_transactions` takes the entity alone and counts every index
entry of it.

* **`historyRows`** — what all pages together contain.
* **`history_total_iff`** — the total is the number of these transactions if every index entry of
  the entity lies in the epoch and its payload parses, and only then.
* **`history_total_unfiltered`** — a filter that leaves out a transaction is not in the total.
-/

namespace Qonduit

namespace WarmStorage

/-- The total counts the entries of the history without a filter. -/
theorem countEntityTransactions_eq (s : WarmStorage) (ranges : List EpochRange) (key : Key32) :
    s.countEntityTransactions key = (s.historyEntries ranges key none).length := by
  have hkeys : ∀ k ∈ s.db .txByEntity, k.length = 40 := s.length_of_mem rfl
  rw [countEntityTransactions, scanUnder_eq_select hkeys, historyEntries]
  refine congrArg List.length (OrderedScan.select_congr (fun k _ => ?_))
  show isUnder 40 key.toList k = (isUnder 40 key.toList k && true)
  exact (Bool.and_true _).symm

/-- The entries within an epoch are picked from those of the entity. -/
theorem historyEntries_eq_filter (s : WarmStorage) (ranges : List EpochRange) (key : Key32)
    (epoch : Option UInt16) :
    s.historyEntries ranges key epoch = (s.historyEntries ranges key none).filter
      (fun x => inEpoch ranges epoch (UInt32.fromBeBytes ((x.1.drop 32).take 4))) := by
  unfold historyEntries
  rw [OrderedScan.filter_select _ _
    (fun k : Bytes => inEpoch ranges epoch (UInt32.fromBeBytes ((k.drop 32).take 4)))]
  refine OrderedScan.select_congr (fun k _ => ?_)
  have hall : inEpoch ranges none (UInt32.fromBeBytes ((k.drop 32).take 4)) = true := rfl
  rw [hall, Bool.and_true, Bool.and_comm]

/-- The entries of the history without a filter are the slots of the entity. -/
theorem mem_historyEntries_none {s : WarmStorage} {ranges : List EpochRange} {key : Key32}
    {x : Bytes × Bytes} :
    x ∈ s.historyEntries ranges key none ↔
      ∃ p, x.1 = slotKey key p ∧ s.entitySlot key p = some x.2 := by
  rw [historyEntries, ← Prod.mk.eta (p := x), OrderedScan.mem_select]
  refine ⟨fun h => ?_, fun h => ?_⟩
  · rcases h with ⟨hget, hin⟩
    rcases isUnder_slotKey_iff.mp (Bool.and_eq_true_iff.mp hin).1 with ⟨p, hp⟩
    refine ⟨p, hp, ?_⟩
    rw [hp, slotKey_eq] at hget
    exact hget
  · rcases h with ⟨p, hkey, hslot⟩
    have hkey : x.1 = slotKey key p := hkey
    refine ⟨?_, ?_⟩
    · rw [hkey, slotKey_eq]
      exact hslot
    · exact Bool.and_eq_true_iff.mpr ⟨isUnder_slotKey_iff.mpr ⟨p, hkey⟩, rfl⟩

/-- The document of a stored transaction. -/
def txDocument (c : Crates) (s : WarmStorage) (hash : Bytes) : Option Value :=
  (s.view (.tx, hash)).bind fun data => (c.serde.valueFromSlice data).toOption

/-- A transaction has a document if it is stored and parses. -/
theorem isSome_txDocument_iff {c : Crates} {s : WarmStorage} {hash : Bytes} :
    (txDocument c s hash).isSome ↔ ∃ payload doc, s.view (.tx, hash) = some payload ∧
      c.serde.valueFromSlice payload = .ok doc := by
  rw [txDocument]
  cases s.view (.tx, hash) with
  | none => simp
  | some payload =>
    cases hread : c.serde.valueFromSlice payload <;> simp [hread, Except.toOption]

/-- The transactions on all pages of a history. -/
def historyRows (c : Crates) (s : WarmStorage) (ranges : List EpochRange) (key : Key32)
    (epoch : Option UInt16) : List Value :=
  (s.historyEntries ranges key epoch).filterMap fun x => txDocument c s x.2

/-- **No filter in the total**: it is the number of transactions on all pages if each slot of the
entity lies in the epoch and has a document, and only then. -/
theorem countEntityTransactions_eq_iff (c : Crates) (s : WarmStorage) (ranges : List EpochRange)
    (key : Key32) (epoch : Option UInt16) :
    s.countEntityTransactions key = (historyRows c s ranges key epoch).length ↔
      ∀ p hash, s.entitySlot key p = some hash →
        inEpoch ranges epoch p.1 ∧ (txDocument c s hash).isSome := by
  have hrows : historyRows c s ranges key epoch
      = (s.historyEntries ranges key none).filterMap (fun x =>
          if inEpoch ranges epoch (UInt32.fromBeBytes ((x.1.drop 32).take 4))
          then txDocument c s x.2 else none) := by
    rw [historyRows, historyEntries_eq_filter, List.filterMap_filter]
  rw [countEntityTransactions_eq s ranges, hrows, eq_comm, List.filterMap_length_eq_length]
  refine ⟨fun h p hash hslot => ?_, fun h x hx => ?_⟩
  · have hentry := h (slotKey key p, hash) (mem_historyEntries_none.mpr ⟨p, rfl, hslot⟩)
    rw [tick_slotKey] at hentry
    split at hentry
    · exact ⟨by assumption, hentry⟩
    · exact absurd hentry Bool.false_ne_true
  · rcases mem_historyEntries_none.mp hx with ⟨p, hp, hslot⟩
    rw [hp, tick_slotKey, if_pos (h p x.2 hslot).1]
    exact (h p x.2 hslot).2

/-- The window of a page over the entries within the epoch, with the count of all entries. -/
def historyPage (c : Crates) (s : WarmStorage) (ranges : List EpochRange) (key : Key32)
    (epoch : Option UInt16) (offset limit : Nat) : HistoryPage where
  transactions := (((s.historyEntries ranges key epoch).drop offset).take
    (min limit 500)).filterMap fun x => txDocument c s x.2
  total := s.countEntityTransactions key
  offset := offset
  limit := min limit 500

/-- A page in closed form: where the indexes resolve, the loop returns a window of the entries. -/
theorem entityHistoryPage_eq (c : Crates) {s : WarmStorage} (hs : Resolves s)
    (ranges : List EpochRange) (key : Key32) (epoch : Option UInt16) (offset limit : Nat) :
    entityHistoryPage c s ranges key epoch offset limit
      = .ok (historyPage c s ranges key epoch offset limit) := by
  have hdocument : ∀ x ∈ ((s.historyEntries ranges key epoch).drop offset).take (min limit 500),
      (c.serde.valueFromSlice (s.historyRow x).2).toOption = txDocument c s x.2 := by
    intro x hx
    have hmem := OrderedScan.mem_select.mp (List.mem_of_mem_drop (List.mem_of_mem_take hx))
    have hsome := (hs .txByEntity (by simp [hashFamilies]) x.1 x.2 hmem.1).2
    rcases Option.isSome_iff_exists.mp hsome with ⟨data, hdata⟩
    rw [historyRow, txDocument, hdata]
    rfl
  simp only [entityHistoryPage, getEntityHistory_eq hs, ok_bind, List.filterMap_map,
    Function.comp_def]
  rw [List.filterMap_congr hdocument]
  rfl

/-- Pages of any size, read beyond the last entry, are the transactions of the history. -/
theorem flatMap_historyPage (c : Crates) (s : WarmStorage) (ranges : List EpochRange)
    (key : Key32) (epoch : Option UInt16) {limit m : Nat} (hlimit : 1 ≤ limit)
    (hm : (s.historyEntries ranges key epoch).length ≤ m) :
    (List.range m).flatMap (fun k =>
        (historyPage c s ranges key epoch (k * min limit 500) limit).transactions)
      = historyRows c s ranges key epoch := by
  have hsize : 1 ≤ min limit 500 := by omega
  have hend : (s.historyEntries ranges key epoch).length ≤ m * min limit 500 :=
    Nat.le_trans hm (Nat.le_mul_of_pos_right m hsize)
  have hpages := Paging.flatMap_window (s.historyEntries ranges key epoch) (min limit 500) m
  rw [List.take_of_length_le hend] at hpages
  rw [historyRows, ← hpages, List.filterMap_flatMap]
  rfl

end WarmStorage

/-- The parameters of `qonduit_getEntityHistory`. -/
def historyParams (id : Str) (limit offset : UInt32) (epoch : Option UInt16) : Value :=
  .array ([.string id, .nat limit.toUInt64, .nat offset.toUInt64]
    ++ (epoch.map fun e => Value.nat e.toUInt64).toList)

/-- The arguments reach the body of the endpoint unchanged. They are numbers in range, so that
reading them in 64 bits and cutting them to 32 gives them back. -/
theorem Rpc.getEntityHistory_historyParams (c : Crates) (s : WarmStorage)
    (ranges : List EpochRange) {id : Str} {key : Key32} (hid : decodeBase26 c id = some key)
    (limit offset : UInt32) (epoch : Option UInt16) :
    Rpc.getEntityHistory c s ranges (some (historyParams id limit offset epoch))
      = (do
          let page ← entityHistoryPage c s ranges key epoch offset.toNat limit.toNat
          .ok page.document) := by
  have hlimit : extractU32Param (some (historyParams id limit offset epoch)) 1 = .ok limit := by
    show Except.ok limit.toUInt64.toUInt32 = _
    rw [UInt32.toUInt32_toUInt64]
  have hoffset : extractU32Param (some (historyParams id limit offset epoch)) 2 = .ok offset := by
    show Except.ok offset.toUInt64.toUInt32 = _
    rw [UInt32.toUInt32_toUInt64]
  have hepoch : extractOptionalU16Param (some (historyParams id limit offset epoch)) 3
      = .ok epoch := by
    cases epoch with
    | none => rfl
    | some e =>
      show Except.ok (some e.toUInt64.toUInt16) = _
      rw [UInt16.toUInt16_toUInt64]
  have hstring : extractStringParam (some (historyParams id limit offset epoch)) 0 = .ok id := rfl
  simp only [Rpc.getEntityHistory, hstring, hlimit, hoffset, hepoch, ok_bind, hid,
    Except.toOption, Option.getD_some]

namespace Indexer

open WarmStorage

/-- **When the total matches the listing.** In every reachable store the pages of a history, by
REST and by RPC, read with any limit up to the end, are the same transactions; and the total of
every page is their number if and only if each index entry of the entity lies in the epoch asked
for and its stored payload parses. -/
theorem history_total_iff {c : Crates} {ix : Indexer} (hix : Reachable c ix)
    (ranges : List EpochRange) {id : Str} {key : Key32} (hid : decodeBase26 c id = some key)
    (epoch : Option UInt16) :
    ∃ (page : Nat → Nat → HistoryPage) (rows : List Value),
      (∀ offset limit, Rest.getEntityHistory c ix.storage ranges id ⟨offset, limit, epoch⟩
        = .ok (.json (page offset limit).document)) ∧
      (∀ offset limit : UInt32,
        Rpc.getEntityHistory c ix.storage ranges (some (historyParams id limit offset epoch))
          = .ok (page offset.toNat limit.toNat).document) ∧
      (∀ limit, 1 ≤ limit → ∃ n, ∀ m ≥ n,
        (List.range m).flatMap (fun k => (page (k * min limit 500) limit).transactions) = rows) ∧
      ((∀ offset limit, (page offset limit).total = rows.length) ↔
        ∀ p hash, ix.storage.entitySlot key p = some hash → inEpoch ranges epoch p.1 ∧
          ∃ payload doc, ix.storage.view (.tx, hash) = some payload ∧
            c.serde.valueFromSlice payload = .ok doc) := by
  have hs := resolves_of_reachable hix
  refine ⟨historyPage c ix.storage ranges key epoch, historyRows c ix.storage ranges key epoch,
    fun offset limit => ?_, fun offset limit => ?_, fun limit hlimit => ?_, ?_⟩
  · simp only [Rest.getEntityHistory, hid]
    rw [entityHistoryPage_eq c hs]
    rfl
  · rw [Rpc.getEntityHistory_historyParams c ix.storage ranges hid, entityHistoryPage_eq c hs]
    rfl
  · exact ⟨_, fun m hm => flatMap_historyPage c ix.storage ranges key epoch hlimit hm⟩
  · simp only [← isSome_txDocument_iff]
    rw [← countEntityTransactions_eq_iff]
    exact ⟨fun h => h 0 0, fun h _ _ => h⟩

/-! ## Two transactions, one of them in the epoch

Both transactions involve the zero key. Without a filter the pages have both of them, and with one
the pages have the second, while the total stays 2. -/

/-- The documents of two transactions of the same entity, of ticks 3 and 4. -/
def sampleTotal : Known where
  txs := [sampleTx 1 3, sampleTx 2 4]
  values := [((sampleTx 1 3).json, (sampleTx 1 3).document),
    ((sampleTx 2 4).json, (sampleTx 2 4).document)]
  k12 := [burnChecksum]

def sampleTotalStore : Indexer :=
  run (.ofKnown sampleTotal) (new .empty {})
    [(.tx, (sampleTx 1 3).json), (.tx, (sampleTx 2 4).json)]

/-- The sample store is reached by two messages. -/
theorem reachable_sampleTotalStore : Reachable (.ofKnown sampleTotal) sampleTotalStore :=
  .run (.init {}) _

/-- The identity asked for is that of the zero key. -/
theorem decodeBase26_burnIdentity :
    decodeBase26 (.ofKnown sampleTotal) burnIdentity = some zeroKey := by decide +kernel

theorem valueFromSlice_first : (Crates.ofKnown sampleTotal).serde.valueFromSlice
    (sampleTx 1 3).json = .ok (sampleTx 1 3).document :=
  Crates.valueFromSlice_ofKnown List.lookup_cons_self

theorem valueFromSlice_second : (Crates.ofKnown sampleTotal).serde.valueFromSlice
    (sampleTx 2 4).json = .ok (sampleTx 2 4).document := by
  have hne : ((sampleTx 2 4).json == (sampleTx 1 3).json) = false := by decide +kernel
  refine Crates.valueFromSlice_ofKnown ?_
  rw [sampleTotal, List.lookup_cons, hne]
  exact List.lookup_cons_self

/-- What the sample store holds: both transactions, two index entries of the entity, of which the
one of tick 4 lies in epoch 7. -/
theorem sampleTotalStore_holds :
    let s := sampleTotalStore.storage
    s.view (.tx, List.replicate 32 1) = some (sampleTx 1 3).json ∧
    s.view (.tx, List.replicate 32 2) = some (sampleTx 2 4).json ∧
    s.countEntityTransactions zeroKey = 2 ∧
    s.historyEntries [] zeroKey none = [(slotKey zeroKey (3, 0), List.replicate 32 1),
      (slotKey zeroKey (4, 0), List.replicate 32 2)] ∧
    s.historyEntries [⟨7, 4, 9, 6⟩] zeroKey (some 7)
      = [(slotKey zeroKey (4, 0), List.replicate 32 2)] := by
  decide +kernel

theorem txDocument_second : txDocument (.ofKnown sampleTotal) sampleTotalStore.storage
    (List.replicate 32 2) = some (sampleTx 2 4).document := by
  rw [txDocument, sampleTotalStore_holds.2.1, Option.bind_some, valueFromSlice_second,
    Except.toOption]

/-- Without a filter both transactions are listed and counted. -/
theorem history_total_sample :
    ∃ (page : Nat → Nat → HistoryPage) (rows : List Value),
      (∀ offset limit, Rest.getEntityHistory (.ofKnown sampleTotal) sampleTotalStore.storage []
        burnIdentity ⟨offset, limit, none⟩ = .ok (.json (page offset limit).document)) ∧
      (∀ limit, 1 ≤ limit → ∃ n, ∀ m ≥ n,
        (List.range m).flatMap (fun k => (page (k * min limit 500) limit).transactions) = rows) ∧
      ∀ offset limit, (page offset limit).total = rows.length := by
  rcases history_total_iff reachable_sampleTotalStore [] decodeBase26_burnIdentity none
    with ⟨page, rows, hrest, -, hpages, htotal⟩
  refine ⟨page, rows, hrest, hpages, htotal.mpr (fun p hash hslot => ⟨rfl, ?_⟩)⟩
  have hmem : (slotKey zeroKey p, hash)
      ∈ sampleTotalStore.storage.historyEntries [] zeroKey none :=
    mem_historyEntries_none.mpr ⟨p, rfl, hslot⟩
  obtain ⟨hfirst, hsecond, -, hentries, -⟩ := sampleTotalStore_holds
  rw [hentries, List.mem_pair, Prod.mk.injEq, Prod.mk.injEq] at hmem
  rcases hmem with ⟨-, rfl⟩ | ⟨-, rfl⟩
  · exact ⟨_, _, hfirst, valueFromSlice_first⟩
  · exact ⟨_, _, hsecond, valueFromSlice_second⟩

/-- Epoch 7 begins at tick 4. Its history is the second transaction, on the first page; every page
after it is empty; the total is 2. -/
theorem history_total_unfiltered :
    let c := Crates.ofKnown sampleTotal
    let s := sampleTotalStore.storage
    (Rest.getEntityHistory c s [⟨7, 4, 9, 6⟩] burnIdentity ⟨0, 50, some 7⟩
      = .ok (.json (HistoryPage.document ⟨[(sampleTx 2 4).document], 2, 0, 50⟩))) ∧
    (∀ offset, 1 ≤ offset → Rest.getEntityHistory c s [⟨7, 4, 9, 6⟩] burnIdentity
        ⟨offset, 50, some 7⟩
      = .ok (.json (HistoryPage.document ⟨[], 2, offset, 50⟩))) ∧
    Rpc.getEntityHistory c s [⟨7, 4, 9, 6⟩] (some (historyParams burnIdentity 50 0 (some 7)))
      = .ok (HistoryPage.document ⟨[(sampleTx 2 4).document], 2, 0, 50⟩) := by
  intro c s
  have hs : Resolves s := resolves_of_reachable reachable_sampleTotalStore
  obtain ⟨-, -, hcount, -, hentries⟩ := sampleTotalStore_holds
  have hdocument : txDocument c s (List.replicate 32 2) = some (sampleTx 2 4).document :=
    txDocument_second
  -- the first page has the one entry of the epoch
  have hfirst : entityHistoryPage c s [⟨7, 4, 9, 6⟩] zeroKey (some 7) 0 50
      = .ok ⟨[(sampleTx 2 4).document], 2, 0, 50⟩ := by
    rw [entityHistoryPage_eq c hs, historyPage, hentries, hcount, List.drop_zero,
      List.take_of_length_le (by decide), List.filterMap_cons, hdocument, List.filterMap_nil]
    rfl
  have hlater : ∀ offset, 1 ≤ offset →
      entityHistoryPage c s [⟨7, 4, 9, 6⟩] zeroKey (some 7) offset 50
        = .ok ⟨[], 2, offset, 50⟩ := by
    intro offset hoffset
    rw [entityHistoryPage_eq c hs, historyPage, hentries, hcount,
      List.drop_of_length_le hoffset, List.take_nil, List.filterMap_nil]
    rfl
  have hid : decodeBase26 c burnIdentity = some zeroKey := decodeBase26_burnIdentity
  refine ⟨?_, fun offset hoffset => ?_, ?_⟩
  · simp only [Rest.getEntityHistory, hid, hfirst, orStorageErr]
  · simp only [Rest.getEntityHistory, hid, hlater offset hoffset, orStorageErr]
  · rw [Rpc.getEntityHistory_historyParams c s _ hid]
    show (do
      let page ← entityHistoryPage c s [⟨7, 4, 9, 6⟩] zeroKey (some 7) 0 50
      Except.ok page.document) = _
    rw [hfirst]
    rfl

end Indexer

end Qonduit

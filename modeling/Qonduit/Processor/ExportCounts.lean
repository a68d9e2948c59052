import Qonduit.Core.Json
import Qonduit.Processor.Integrity
import Qonduit.Storage.ColdRows

/-!
# Qonduit — transaction counts in exports

`export_ticks` takes the count of a tick from the field `transaction_count` of the stored document,
0 where there is none, and `export_transactions` writes a row for every payload indexed under the
tick. The decoder publishes no such field.

* **`countsAgree_iff`** — the two files agree if every stored count is that of the rows.
* **`export_counts_agree_iff`** — in a reachable store that is the number of the indexed hashes.
* **`countsAgree_decoded_iff`** — for documents as the decoder publishes them, no transaction may be
  indexed under any of their ticks.
* **`export_count_zero`** — a tick with a transaction, exported with count 0.
-/

namespace Qonduit

/-- The count a stored document announces. -/
def storedCount (c : Crates) (data : Bytes) : UInt16 :=
  match c.serde.valueFromSlice data with
  | .ok v => ((v.field "transaction_count").asU64.getD 0).toUInt16
  | .error _ => 0

/-- A published tick announces no count. -/
theorem storedCount_document {c : Crates} {data : Bytes} {tick : TickData}
    (h : c.serde.valueFromSlice data = .ok tick.document) : storedCount c data = 0 := by
  have hnull : tick.document.field "transaction_count" = .null := by
    simp only [Value.field, TickData.document, List.filterMap_cons]
    cases tick.transactionDigestsHex.isEmpty <;> cases tick.contractFeesHex.isEmpty <;>
      cases tick.signatureHex.isEmpty <;> rfl
  simp only [storedCount, h, hnull]
  rfl

/-- Among the pairs of distinct heads, those of one head are as many as its tails. So the rows of a
tick are counted without looking at those of the other ticks. -/
theorem countP_flatMap_pairs {α β : Type} [DecidableEq α] (f : α → List β) {ns : List α}
    (hns : ns.Nodup) {n : α} (hn : n ∈ ns) :
    (ns.flatMap (fun m => (f m).map (Prod.mk m))).countP (fun r => r.1 = n) = (f n).length := by
  induction ns with
  | nil => cases hn
  | cons m ns ih =>
    rcases List.nodup_cons.mp hns with ⟨hm, hns⟩
    rw [List.flatMap_cons, List.countP_append, List.countP_map]
    by_cases hmn : m = n
    · subst hmn
      have hrest : (ns.flatMap (fun k => (f k).map (Prod.mk k))).countP (fun r => r.1 = m) = 0 := by
        rw [List.countP_eq_zero]
        intro r hr hrm
        rcases List.mem_flatMap.mp hr with ⟨k, hk, hmem⟩
        rcases List.mem_map.mp hmem with ⟨b, -, rfl⟩
        exact hm (of_decide_eq_true hrm ▸ hk)
      have hhead : (f m).countP ((fun r : α × β => decide (r.1 = m)) ∘ Prod.mk m)
          = (f m).length := List.countP_eq_length.mpr (fun b _ => decide_eq_true rfl)
      rw [hrest, hhead, Nat.add_zero]
    · have hhead : (f m).countP ((fun r : α × β => decide (r.1 = n)) ∘ Prod.mk m) = 0 :=
        List.countP_eq_zero.mpr (fun b _ h => hmn (of_decide_eq_true h))
      rw [hhead, Nat.zero_add]
      exact ih hns ((List.mem_cons.mp hn).resolve_left (fun h => hmn h.symm))

namespace ColdStorage

variable {c : Crates} {s : WarmStorage} {range : UInt32 × UInt32} {epoch : UInt16}

/-- The count of a row is what the stored tick announces. -/
theorem tickRow_count {tick : UInt32} {data : Bytes} {r : TickRow}
    (h : tickRow c tick data = .ok r) :
    (r.tick, r.transactionCount) = (tick, storedCount c data) := by
  rw [tickRow, parseDocument] at h
  rw [storedCount]
  cases hread : c.serde.valueFromSlice data with
  | error e =>
    rw [hread] at h
    cases h
  | ok v =>
    rw [hread] at h
    cases h
    rfl

/-- The counts of `ticks.parquet` are those the stored ticks announce. -/
theorem exportTicks_counts {ticks : List TickRow} (h : exportTicks c s range = .ok ticks) :
    ticks.map (fun r => (r.tick, r.transactionCount))
      = (s.getTickRange range.1 range.2).map (fun r => (r.1, storedCount c r.2)) :=
  Fallible.map_mapM (fun _ _ => tickRow_count) h

/-- The rows of a tick of the range in `transactions.parquet` are its payloads. -/
theorem exportTransactions_count {rows : List TxRow}
    (h : exportTransactions c s range = .ok rows) {n : UInt32}
    (hn : range.1 ≤ n ∧ n ≤ range.2) :
    rows.countP (fun r => r.tick = n) = (payloadsUnder s n).length := by
  have hticks : (ticksBetween range.1 range.2).Nodup :=
    (ticksBetween_increasing range.1 range.2).imp
      (fun {a b} hlt heq => Nat.ne_of_lt hlt (congrArg UInt32.toNat heq))
  have hpairs := congrArg (List.countP (fun r : UInt32 × Str => decide (r.1 = n)))
    (exportTransactions_rows h)
  rw [countP_flatMap_pairs _ hticks (mem_ticksBetween.mpr hn), List.countP_map] at hpairs
  exact hpairs

/-- Each row of `ticks.parquet` counts the rows of its tick in `transactions.parquet`. -/
def CountsAgree (x : EpochExport) : Prop :=
  ∀ row ∈ x.ticks, row.transactionCount.toNat
    = x.transactions.countP (fun r => r.tick = row.tick)

/-- The counts of an export are right if every stored tick of the range announces the number of
payloads under it, and only then. -/
theorem countsAgree_iff {x : EpochExport} (hx : exportEpoch c s epoch range = .ok x) :
    CountsAgree x ↔ ∀ n data, range.1 ≤ n → n ≤ range.2 → s.getTick n = some data →
      (storedCount c data).toNat = (payloadsUnder s n).length := by
  rcases exportEpoch_eq_ok.mp hx with ⟨hticks, htransactions⟩
  have hcount : ∀ row ∈ x.ticks, x.transactions.countP (fun r => r.tick = row.tick)
      = (payloadsUnder s row.tick).length := by
    intro row hrow
    have hpair := List.mem_map_of_mem (f := fun r : TickRow => (r.tick, r.dataJson)) hrow
    rw [exportTicks_rows hticks] at hpair
    exact exportTransactions_count htransactions (s.mem_getTickRange.mp hpair).1
  -- both sides are about the pairs of a tick and its count
  have hpairs : CountsAgree x ↔ ∀ p ∈ x.ticks.map (fun r => (r.tick, r.transactionCount)),
      p.2.toNat = (payloadsUnder s p.1).length := by
    rw [List.forall_mem_map]
    exact forall₂_congr (fun row hrow => by rw [hcount row hrow])
  rw [hpairs, exportTicks_counts hticks, List.forall_mem_map]
  refine ⟨fun h n data hlow hhigh hdata => ?_, fun h r hr => ?_⟩
  · exact h (n, data) (s.mem_getTickRange.mpr ⟨⟨hlow, hhigh⟩, hdata⟩)
  · rcases s.mem_getTickRange.mp hr with ⟨⟨hlow, hhigh⟩, hdata⟩
    exact h r.1 r.2 hlow hhigh hdata

/-- Of ticks as the decoder publishes them the counts are right if no transaction is indexed under
any, and only then. -/
theorem countsAgree_decoded_iff {x : EpochExport} (hx : exportEpoch c s epoch range = .ok x)
    (hdecoded : ∀ n data, range.1 ≤ n → n ≤ range.2 → s.getTick n = some data →
      ∃ tick : TickData, c.serde.valueFromSlice data = .ok tick.document) :
    CountsAgree x ↔ ∀ n data, range.1 ≤ n → n ≤ range.2 → s.getTick n = some data →
      payloadsUnder s n = [] := by
  rw [countsAgree_iff hx]
  refine forall₂_congr (fun n data => forall_congr' (fun hlow => forall_congr' (fun hhigh =>
    forall_congr' (fun hdata => ?_))))
  rcases hdecoded n data hlow hhigh hdata with ⟨tick, hread⟩
  rw [storedCount_document hread, ← List.length_eq_zero_iff]
  exact eq_comm

end ColdStorage

namespace Indexer

open ColdStorage

/-- In a store that resolves every hash of a tick has its payload. -/
theorem length_payloadsUnder {s : WarmStorage} (hs : Resolves s) {n : UInt32}
    {hashes : List Key32} (hok : s.getTxHashesForTick n = .ok hashes) :
    (payloadsUnder s n).length = hashes.length := by
  rcases s.getTxHashesForTick_ok n with ⟨hashes', hok', hlists⟩
  rw [hok] at hok'
  cases hok'
  rw [payloadsUnder, hok]
  refine List.filterMap_length_eq_length.mpr (fun h hh => ?_)
  rcases (hlists.mem_iff h).mp hh with ⟨i, hi⟩
  exact (hs .txByTick (by simp [hashFamilies]) _ h.toList hi).2

/-- **When the exported counts are right.** In every reachable store an export of any range agrees
in its two files if and only if the document of every stored tick of the range announces, modulo
2^16, as many transactions as are indexed under the tick. -/
theorem export_counts_agree_iff {c : Crates} {ix : Indexer} (hix : Reachable c ix)
    {epoch : UInt16} {range : UInt32 × UInt32} {x : EpochExport}
    (hx : exportEpoch c ix.storage epoch range = .ok x) :
    CountsAgree x ↔ ∀ n data hashes, range.1 ≤ n → n ≤ range.2 →
      ix.storage.getTick n = some data → ix.storage.getTxHashesForTick n = .ok hashes →
        (storedCount c data).toNat = hashes.length := by
  have hs := resolves_of_reachable hix
  rw [countsAgree_iff hx]
  refine ⟨fun h n data hashes hlow hhigh hdata hok => ?_, fun h n data hlow hhigh hdata => ?_⟩
  · rw [h n data hlow hhigh hdata, length_payloadsUnder hs hok]
  · rcases ix.storage.getTxHashesForTick_ok n with ⟨hashes, hok, -⟩
    rw [h n data hashes hlow hhigh hdata hok, length_payloadsUnder hs hok]

/-! ## A tick with a transaction

Ticks are published without their digests and without the number of these, so that the count
announced is 0. -/

def sampleCounted : Known where
  ticks := [sampleTick 5 3]
  txs := [sampleTx 1 3]
  values := [((sampleTick 5 3).json, (sampleTick 5 3).document),
    ((sampleTx 1 3).json, (sampleTx 1 3).document)]
  k12 := [burnChecksum]

/-- The store after these messages. -/
def countedStore (ms : List Message) : Indexer := run (.ofKnown sampleCounted) (new .empty {}) ms

/-- The export of ticks 2 to 4 after these messages. -/
def exportAfter (ms : List Message) : Outcome EpochExport :=
  exportEpoch (.ofKnown sampleCounted) (countedStore ms).storage 5 (2, 4)

def countedTick : Message := (.tick, (sampleTick 5 3).json)

def countedTx : Message := (.tx, (sampleTx 1 3).json)

theorem valueFromSlice_countedTick : (Crates.ofKnown sampleCounted).serde.valueFromSlice
    (sampleTick 5 3).json = .ok (sampleTick 5 3).document :=
  Crates.valueFromSlice_ofKnown List.lookup_cons_self

/-- An export that has these columns returns. -/
theorem exists_export {r : Outcome EpochExport} {α : Type} {f : EpochExport → α} {a : α}
    (h : r.toOption.map f = some a) : ∃ x, r = .ok x ∧ f x = a := by
  cases r with
  | error e => exact nomatch h
  | ok x => exact ⟨x, rfl, Option.some.inj h⟩

/-- The tick alone is counted right. -/
theorem export_counts_sample : ∃ x, exportAfter [countedTick] = .ok x ∧ CountsAgree x := by
  have hrows : (exportAfter [countedTick]).toOption.map (fun x => x.transactions) = some [] := by
    decide +kernel
  rcases exists_export hrows with ⟨x, hx, -⟩
  refine ⟨x, hx, (export_counts_agree_iff (.run (.init {}) [countedTick]) hx).mpr ?_⟩
  intro n data hashes hlow hhigh hdata hok
  have hmem := ((countedStore [countedTick]).storage.mem_getTickRange).mpr
    ⟨⟨hlow, hhigh⟩, hdata⟩
  have hticks : (countedStore [countedTick]).storage.getTickRange 2 4
      = [(3, (sampleTick 5 3).json)] := by decide +kernel
  have hnone : (countedStore [countedTick]).storage.getTxHashesForTick 3 = .ok [] := by
    decide +kernel
  rw [hticks, List.mem_singleton, Prod.mk.injEq] at hmem
  rcases hmem with ⟨rfl, rfl⟩
  rw [storedCount_document valueFromSlice_countedTick, ← Except.ok.inj (hnone.symm.trans hok)]
  rfl

/-- With a transaction of the tick the export has a row for it, and the count stays 0. -/
theorem export_count_zero :
    ∃ x, exportAfter [countedTick, countedTx] = .ok x ∧
      x.ticks.map (fun r => (r.tick, r.transactionCount)) = [(3, 0)] ∧
      x.transactions.map (fun r => r.tick) = [3] ∧ ¬CountsAgree x := by
  have hrows : (exportAfter [countedTick, countedTx]).toOption.map
      (fun x => (x.ticks.map (fun r => (r.tick, r.transactionCount)),
        x.transactions.map (fun r => r.tick))) = some ([(3, 0)], [3]) := by
    decide +kernel
  rcases exists_export hrows with ⟨x, hx, hcolumns⟩
  rcases Prod.mk.inj hcolumns with ⟨hticks, htransactions⟩
  refine ⟨x, hx, hticks, htransactions, fun h => ?_⟩
  rcases List.map_eq_singleton_iff.mp hticks with ⟨row, hrow, hpair⟩
  rcases Prod.mk.inj hpair with ⟨htick, hcount⟩
  have hone := h row (hrow ▸ List.mem_singleton_self row)
  have hsame := List.countP_map (p := fun n : UInt32 => decide (n = row.tick))
    (f := fun r : TxRow => r.tick) (l := x.transactions)
  rw [htransactions, htick] at hsame
  rw [hcount, htick] at hone
  exact absurd (hone.trans hsame.symm) (by decide)

end Indexer

end Qonduit

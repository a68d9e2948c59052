import Qonduit.Lib.Totality
import Qonduit.Storage.Cold
import Qonduit.Storage.ForwardScans

/-!
# Qonduit — the rows of an export

What `export_epoch` makes of a range that starts at 0, against what the export of an epoch is to
contain: the stored ticks of the epoch and the transactions indexed under them.

* **`exportTicks_rows`**, **`exportTransactions_rows`** — the rows are those of the range.
* **`exportEpoch_containsEpoch_iff`** — they are those of the epoch exactly when the range is cut
  where the epoch is.
-/

namespace Qonduit

/-- The epoch in a stored tick. -/
def epochOf (c : Crates) (data : Bytes) : Option UInt16 :=
  match c.serde.tickData.fromSlice data with
  | .ok tick => some tick.epoch
  | .error _ => none

/-- The stored ticks of an epoch, by increasing number. -/
def storedTicks (c : Crates) (s : WarmStorage) (epoch : UInt16) : List (UInt32 × Bytes) :=
  (s.getTickRange 0 0xFFFFFFFF).filter (fun r => epochOf c r.2 = some epoch)

/-- The payloads of the transactions indexed under a tick, by increasing slot. -/
def payloadsUnder (s : WarmStorage) (tick : UInt32) : List Bytes :=
  ((s.getTxHashesForTick tick).toOption.getD []).filterMap s.getTx

/-- The rows are the stored ticks of the epoch, and the transactions indexed under these. -/
structure EpochExport.ContainsEpoch (x : EpochExport) (c : Crates) (s : WarmStorage)
    (epoch : UInt16) : Prop where
  ticks : x.ticks.map (fun r => (r.tick, r.dataJson)) = storedTicks c s epoch
  transactions : x.transactions.map (fun r => (r.tick, r.dataJson))
    = (storedTicks c s epoch).flatMap (fun t => (payloadsUnder s t.1).map (Prod.mk t.1))

/-- A document reads as untyped JSON. -/
def Reads (c : Crates) (data : Bytes) : Prop := ∃ v, c.serde.valueFromSlice data = .ok v

/-- The range from 0 to `last` is cut where the epoch is. -/
structure ExportReady (c : Crates) (s : WarmStorage) (epoch : UInt16) (last : UInt32) :
    Prop where
  /-- The ticks of the range are those of the epoch. -/
  ticks : ∀ n data, s.getTick n = some data → (n ≤ last ↔ epochOf c data = some epoch)
  /-- Transactions in the range are indexed under ticks that are stored. -/
  indexed : ∀ n ≤ last, payloadsUnder s n ≠ [] → (s.getTick n).isSome
  ticksRead : ∀ n ≤ last, ∀ data, s.getTick n = some data → Reads c data
  transactionsRead : ∀ n ≤ last, ∀ data ∈ payloadsUnder s n, Reads c data

/-- The ticks of the loop are those from its first to its last, both included. -/
theorem mem_ticksBetween {fromTick toTick n : UInt32} :
    n ∈ ticksBetween fromTick toTick ↔ fromTick ≤ n ∧ n ≤ toTick := by
  have hto := toTick.toNat_lt
  simp only [ticksBetween, List.mem_map, List.mem_range'_1, UInt32.le_iff_toNat_le]
  constructor
  · rintro ⟨k, hk, rfl⟩
    rw [UInt32.toNat_ofNat_of_lt' (by rw [UInt32.size]; omega)]
    omega
  · intro h
    exact ⟨n.toNat, by omega, UInt32.ofNat_toNat⟩

/-- They come in ascending order, each once. -/
theorem ticksBetween_increasing (fromTick toTick : UInt32) :
    (ticksBetween fromTick toTick).Pairwise (fun a b => a.toNat < b.toNat) := by
  have hto := toTick.toNat_lt
  rw [ticksBetween, List.pairwise_map]
  refine List.Pairwise.imp_of_mem (fun {a b} ha hb hlt => ?_) (List.pairwise_lt_range' 1)
  rw [List.mem_range'_1] at ha hb
  rwa [UInt32.toNat_ofNat_of_lt' (by rw [UInt32.size]; omega),
    UInt32.toNat_ofNat_of_lt' (by rw [UInt32.size]; omega)]

namespace WarmStorage

variable (s : WarmStorage)

/-- A range scan finds the stored ticks of the range, with what is stored for them. -/
theorem mem_getTickRange {fromTick toTick n : UInt32} {data : Bytes} :
    (n, data) ∈ s.getTickRange fromTick toTick
      ↔ (fromTick ≤ n ∧ n ≤ toTick) ∧ s.getTick n = some data := by
  rw [(s.getTickRange_enumerates fromTick toTick).mem_iff, Option.ite_none_right_eq_some]
  rfl

/-- The stored ticks of an epoch are those whose document names it. -/
theorem mem_storedTicks {c : Crates} {epoch : UInt16} {n : UInt32} {data : Bytes} :
    (n, data) ∈ storedTicks c s epoch
      ↔ s.getTick n = some data ∧ epochOf c data = some epoch := by
  have hall : (0 : UInt32) ≤ n ∧ n ≤ 0xFFFFFFFF := by
    have := n.toNat_lt
    simp only [UInt32.le_iff_toNat_le]
    exact ⟨Nat.zero_le _, by simpa using Nat.lt_succ_iff.mp this⟩
  rw [storedTicks, List.mem_filter, s.mem_getTickRange, decide_eq_true_eq]
  exact ⟨fun h => ⟨h.1.2, h.2⟩, fun h => ⟨⟨hall, h.1⟩, h.2⟩⟩

/-- They are listed in ascending order. -/
theorem storedTicks_increasing (c : Crates) (epoch : UInt16) :
    (storedTicks c s epoch).Pairwise (fun a b => a.1.toNat < b.1.toNat) :=
  (s.getTickRange_enumerates 0 0xFFFFFFFF).increasing.filter _

/-- The hashes of a tick are always served. -/
theorem exists_getTxHashesForTick (tick : UInt32) :
    ∃ hashes, s.getTxHashesForTick tick = .ok hashes ∧
      payloadsUnder s tick = hashes.filterMap s.getTx := by
  obtain ⟨hashes, -, hok, -⟩ := s.scansExact.txHashes tick
  exact ⟨hashes, hok, by rw [payloadsUnder, hok]; rfl⟩

end WarmStorage

namespace ColdStorage

variable {c : Crates} {s : WarmStorage}

/-! ## One row

A row of the tick table or of the transaction table is made from one stored document. Making it
fails only if the document is no JSON, and it keeps the document as it is beside the columns read
off it. -/

section Row

variable {α : Type} {row : Value → α} {data : Bytes}

/-- A row fails only where the document does not parse. -/
theorem exists_row_iff :
    (∃ r, (parseDocument c data >>= fun v => .ok (row v)) = .ok r) ↔ Reads c data := by
  simp only [parseDocument, Reads]
  cases c.serde.valueFromSlice data with
  | error e => exact ⟨fun h => (nomatch h.choose_spec), fun h => (nomatch h.choose_spec)⟩
  | ok v => exact ⟨fun _ => ⟨v, rfl⟩, fun _ => ⟨row v, rfl⟩⟩

/-- A row that was made comes from a document that parses. -/
theorem row_of_ok {r : α} (h : (parseDocument c data >>= fun v => .ok (row v)) = .ok r) :
    ∃ v, r = row v := by
  simp only [parseDocument] at h
  cases hv : c.serde.valueFromSlice data with
  | error e =>
    rw [hv] at h
    cases h
  | ok v =>
    rw [hv] at h
    cases h
    exact ⟨v, rfl⟩

end Row

/-- A tick row keeps its tick and its document. -/
theorem tickRow_source {tick : UInt32} {data : Bytes} {r : TickRow}
    (h : tickRow c tick data = .ok r) : (r.tick, r.dataJson) = (tick, data) := by
  obtain ⟨v, rfl⟩ := row_of_ok h
  rfl

/-- So does a transaction row, under the tick it was listed for. -/
theorem txRow_source {tick : UInt32} {data : Bytes} {r : TxRow}
    (h : txRow c tick data = .ok r) : (r.tick, r.dataJson) = (tick, data) := by
  obtain ⟨v, rfl⟩ := row_of_ok h
  rfl

/-! ## All rows

An export is a traversal: it fails at the first document that does not parse, and otherwise has one
row for each document it met, in order. So its rows can be read off the store. -/

section Rows

variable {range : UInt32 × UInt32}

/-- The tick table is written exactly if every stored tick of the range parses. -/
theorem exists_exportTicks_iff :
    (∃ ticks, exportTicks c s range = .ok ticks) ↔
      ∀ r ∈ s.getTickRange range.1 range.2, Reads c r.2 :=
  Fallible.exists_mapM_iff.trans (forall₂_congr (fun _ _ => exists_row_iff))

/-- Its rows are the stored ticks of the range. -/
theorem exportTicks_rows {ticks : List TickRow} (h : exportTicks c s range = .ok ticks) :
    ticks.map (fun r => (r.tick, r.dataJson)) = s.getTickRange range.1 range.2 :=
  (Fallible.map_mapM (h := id) (fun _ _ => tickRow_source) h).trans (List.map_id _)

/-- The transactions of one tick are exported exactly if all those that its entries lead to
parse. -/
theorem exists_exportTransactionsOf_iff {tick : UInt32} :
    (∃ rows, exportTransactionsOf c s tick = .ok rows) ↔
      ∀ data ∈ payloadsUnder s tick, Reads c data := by
  obtain ⟨hashes, hok, hpayloads⟩ := s.exists_getTxHashesForTick tick
  rw [exportTransactionsOf, hok, hpayloads]
  exact Fallible.exists_mapM_iff.trans (forall₂_congr (fun _ _ => exists_row_iff))

/-- Their rows are these transactions, under the tick. -/
theorem exportTransactionsOf_rows {tick : UInt32} {rows : List TxRow}
    (h : exportTransactionsOf c s tick = .ok rows) :
    rows.map (fun r => (r.tick, r.dataJson)) = (payloadsUnder s tick).map (Prod.mk tick) := by
  obtain ⟨hashes, hok, hpayloads⟩ := s.exists_getTxHashesForTick tick
  rw [exportTransactionsOf, hok] at h
  rw [hpayloads]
  exact Fallible.map_mapM (fun _ _ => txRow_source) h

/-- The transaction table is that of the ticks one after the other. -/
theorem exportTransactions_eq_ok {rows : List TxRow} :
    exportTransactions c s range = .ok rows ↔
      ∃ turns, (ticksBetween range.1 range.2).mapM (exportTransactionsOf c s) = .ok turns ∧
        rows = turns.flatten := by
  rw [exportTransactions]
  cases (ticksBetween range.1 range.2).mapM (exportTransactionsOf c s) with
  | error e => exact ⟨fun h => (nomatch h), fun h => (nomatch h.choose_spec.1)⟩
  | ok turns =>
    rw [ok_bind]
    constructor
    · intro h
      exact ⟨turns, rfl, (Except.ok.inj h).symm⟩
    · rintro ⟨turns', hturns, rfl⟩
      rw [Except.ok.inj hturns]

/-- It is written exactly if the transactions under every tick of the range parse. -/
theorem exists_exportTransactions_iff :
    (∃ rows, exportTransactions c s range = .ok rows) ↔
      ∀ n ∈ ticksBetween range.1 range.2, ∀ data ∈ payloadsUnder s n, Reads c data := by
  rw [← forall₂_congr (fun n _ => @exists_exportTransactionsOf_iff c s n),
    ← Fallible.exists_mapM_iff]
  constructor
  · rintro ⟨rows, h⟩
    obtain ⟨turns, hturns, -⟩ := exportTransactions_eq_ok.mp h
    exact ⟨turns, hturns⟩
  · rintro ⟨turns, hturns⟩
    exact ⟨turns.flatten, exportTransactions_eq_ok.mpr ⟨turns, hturns, rfl⟩⟩

/-- Its rows are the transactions of the ticks in order. -/
theorem exportTransactions_rows {rows : List TxRow} (h : exportTransactions c s range = .ok rows) :
    rows.map (fun r => (r.tick, r.dataJson))
      = (ticksBetween range.1 range.2).flatMap
          (fun n => (payloadsUnder s n).map (Prod.mk n)) := by
  obtain ⟨turns, hturns, rfl⟩ := exportTransactions_eq_ok.mp h
  rw [List.map_flatten, Fallible.map_mapM (fun _ _ => exportTransactionsOf_rows) hturns,
    List.flatMap_def]

/-- An export succeeds if both tables do. -/
theorem exportEpoch_eq_ok {epoch : UInt16} {x : EpochExport} :
    exportEpoch c s epoch range = .ok x ↔
      exportTicks c s range = .ok x.ticks ∧
        exportTransactions c s range = .ok x.transactions := by
  rw [exportEpoch]
  cases exportTicks c s range with
  | error e => exact ⟨fun h => (nomatch h), fun h => (nomatch h.1)⟩
  | ok ticks =>
    rw [ok_bind]
    cases exportTransactions c s range with
    | error e => exact ⟨fun h => (nomatch h), fun h => (nomatch h.2)⟩
    | ok transactions =>
      rw [ok_bind, Except.ok.injEq, Except.ok.injEq, Except.ok.injEq]
      constructor
      · rintro rfl
        exact ⟨rfl, rfl⟩
      · rintro ⟨rfl, rfl⟩
        rfl

end Rows

/-! ## The rows of an epoch

The range that is exported begins at tick 0, whatever the epoch. Whether it is the range of the
epoch depends on what is stored: no stored tick up to its end may belong to another epoch, none
behind it to this one. -/

section Epoch

variable {epoch : UInt16} {last : UInt32}

theorem zero_le_tick (n : UInt32) : (0 : UInt32) ≤ n :=
  UInt32.le_iff_toNat_le.mpr (Nat.zero_le _)

/-- An export of a range from 0 returns when all documents it meets parse, those of the ticks and
those of the transactions listed under them. -/
theorem exists_exportEpoch_iff :
    (∃ x, exportEpoch c s epoch (0, last) = .ok x) ↔
      (∀ n ≤ last, ∀ data, s.getTick n = some data → Reads c data) ∧
        ∀ n ≤ last, ∀ data ∈ payloadsUnder s n, Reads c data := by
  have hsplit : (∃ x, exportEpoch c s epoch (0, last) = .ok x) ↔
      (∃ ticks, exportTicks c s (0, last) = .ok ticks) ∧
        ∃ rows, exportTransactions c s (0, last) = .ok rows := by
    simp only [exportEpoch_eq_ok]
    constructor
    · rintro ⟨x, hticks, hrows⟩
      exact ⟨⟨_, hticks⟩, ⟨_, hrows⟩⟩
    · rintro ⟨⟨ticks, hticks⟩, ⟨rows, hrows⟩⟩
      exact ⟨⟨ticks, rows⟩, hticks, hrows⟩
  rw [hsplit, exists_exportTicks_iff, exists_exportTransactions_iff]
  simp only [Prod.forall, s.mem_getTickRange, mem_ticksBetween, zero_le_tick, true_and, and_imp]
  exact and_congr_left' ⟨fun h n hn data hdata => h n data hn hdata,
    fun h n data hn hdata => h n hn data hdata⟩

/-- Turns without transactions can be left out. The loop runs over all ticks of the range, most of
which are not stored. -/
theorem flatMap_filter_of_nil {α β : Type} {p : α → Bool} {f : α → List β} {xs : List α}
    (h : ∀ a ∈ xs, ¬p a → f a = []) : (xs.filter p).flatMap f = xs.flatMap f := by
  induction xs with
  | nil => rfl
  | cons a xs ih =>
    have hxs := ih (fun b hb => h b (List.mem_cons_of_mem a hb))
    by_cases ha : p a
    · rw [List.filter_cons_of_pos ha, List.flatMap_cons, List.flatMap_cons, hxs]
    · rw [List.filter_cons_of_neg ha, List.flatMap_cons, h a (List.mem_cons_self ..) ha, hxs]
      rfl

/-- The numbers of the stored ticks of the epoch, when these are the ticks of the range. Both lists
ascend and have the same members. -/
theorem map_fst_storedTicks
    (hticks : ∀ n data, s.getTick n = some data → (n ≤ last ↔ epochOf c data = some epoch)) :
    (storedTicks c s epoch).map Prod.fst
      = (ticksBetween 0 last).filter (fun n => (s.getTick n).isSome) := by
  -- being stored in the range and being stored for the epoch are the same
  have hmem : ∀ n, n ∈ (storedTicks c s epoch).map Prod.fst ↔
      n ∈ (ticksBetween 0 last).filter (fun n => (s.getTick n).isSome) := by
    intro n
    rw [List.mem_map, List.mem_filter, mem_ticksBetween, Option.isSome_iff_exists]
    constructor
    · rintro ⟨⟨n, data⟩, hmem, rfl⟩
      obtain ⟨hdata, hepoch⟩ := s.mem_storedTicks.mp hmem
      exact ⟨⟨zero_le_tick n, (hticks n data hdata).mpr hepoch⟩, data, hdata⟩
    · rintro ⟨⟨-, hle⟩, data, hdata⟩
      exact ⟨(n, data), s.mem_storedTicks.mpr ⟨hdata, (hticks n data hdata).mp hle⟩, rfl⟩
  have hleft : ((storedTicks c s epoch).map Prod.fst).Pairwise
      (fun a b => a.toNat < b.toNat) :=
    List.pairwise_map.mpr (s.storedTicks_increasing c epoch)
  have hright := (ticksBetween_increasing 0 last).filter (fun n => (s.getTick n).isSome)
  -- two ascending lists with the same members are one
  have hnodup : ∀ {l : List UInt32}, l.Pairwise (fun a b => a.toNat < b.toNat) → l.Nodup := by
    intro l h
    refine h.imp (fun {a b} hlt hab => ?_)
    subst hab
    exact Nat.lt_irrefl _ hlt
  refine List.Perm.eq_of_pairwise (fun a b _ _ hab hba => absurd hba (Nat.lt_asymm hab))
    hleft hright ?_
  exact (List.perm_ext_iff_of_nodup (hnodup hleft) (hnodup hright)).mpr hmem

/-- If the range is that of the epoch and every tick of it lists its transactions, the two tables
are those of the epoch. -/
theorem containsEpoch_of_ready (h : ExportReady c s epoch last) {x : EpochExport}
    (hx : exportEpoch c s epoch (0, last) = .ok x) : x.ContainsEpoch c s epoch := by
  obtain ⟨hticks, htransactions⟩ := exportEpoch_eq_ok.mp hx
  constructor
  · rw [exportTicks_rows hticks]
    -- both lists enumerate the stored ticks of the range
    refine (s.getTickRange_enumerates 0 last).unique
      ⟨fun n data => ?_, s.storedTicks_increasing c _⟩
    rw [s.mem_storedTicks, ← (s.getTickRange_enumerates 0 last).mem_iff, s.mem_getTickRange]
    constructor
    · rintro ⟨hdata, hepoch⟩
      exact ⟨⟨zero_le_tick n, (h.ticks n data hdata).mpr hepoch⟩, hdata⟩
    · rintro ⟨⟨-, hle⟩, hdata⟩
      exact ⟨hdata, (h.ticks n data hdata).mp hle⟩
  · have hnil : ∀ n ∈ ticksBetween 0 last, ¬(s.getTick n).isSome →
        (payloadsUnder s n).map (Prod.mk n) = [] := by
      intro n hn hnone
      by_contra hne
      exact hnone (h.indexed n (mem_ticksBetween.mp hn).2 (fun hnil => hne (by rw [hnil]; rfl)))
    rw [exportTransactions_rows htransactions, ← flatMap_filter_of_nil hnil,
      ← map_fst_storedTicks h.ticks, List.flatMap_map]

/-- Conversely a table that is that of the epoch has no row of a tick outside of it and misses none,
which says where the stored ticks of the epoch are. -/
theorem ready_of_containsEpoch {x : EpochExport} (h : x.ContainsEpoch c s epoch)
    (hx : exportEpoch c s epoch (0, last) = .ok x) : ExportReady c s epoch last := by
  obtain ⟨hticks, htransactions⟩ := exportEpoch_eq_ok.mp hx
  obtain ⟨hticksRead, htransactionsRead⟩ := exists_exportEpoch_iff.mp ⟨x, hx⟩
  refine ⟨fun n data hdata => ?_, fun n hn hne => ?_, hticksRead, htransactionsRead⟩
  · have hrows : s.getTickRange 0 last = storedTicks c s epoch :=
      (exportTicks_rows hticks).symm.trans h.ticks
    have hmem : (n, data) ∈ s.getTickRange 0 last ↔ (n, data) ∈ storedTicks c s epoch := by
      rw [hrows]
    rw [s.mem_getTickRange, s.mem_storedTicks] at hmem
    exact ⟨fun hle => (hmem.mp ⟨⟨zero_le_tick n, hle⟩, hdata⟩).2,
      fun hepoch => (hmem.mpr ⟨hdata, hepoch⟩).1.2⟩
  · -- a row of the turn is a row of a stored tick
    obtain ⟨data, hdata⟩ := List.exists_mem_of_ne_nil _ hne
    have hrow : (n, data) ∈ x.transactions.map (fun r => (r.tick, r.dataJson)) := by
      rw [exportTransactions_rows htransactions]
      exact List.mem_flatMap.mpr ⟨n, mem_ticksBetween.mpr ⟨zero_le_tick n, hn⟩,
        List.mem_map.mpr ⟨data, hdata, rfl⟩⟩
    rw [h.transactions] at hrow
    obtain ⟨⟨n', data'⟩, hmem, hrow⟩ := List.mem_flatMap.mp hrow
    obtain ⟨_, -, heq⟩ := List.mem_map.mp hrow
    cases heq
    rw [(s.mem_storedTicks.mp hmem).1]
    rfl

/-- **When an export contains its epoch.** The condition is on the store alone, before anything is
exported. -/
theorem exportEpoch_containsEpoch_iff :
    (∃ x, exportEpoch c s epoch (0, last) = .ok x ∧ x.ContainsEpoch c s epoch) ↔
      ExportReady c s epoch last := by
  constructor
  · rintro ⟨x, hx, hcontains⟩
    exact ready_of_containsEpoch hcontains hx
  · intro h
    obtain ⟨x, hx⟩ := exists_exportEpoch_iff.mpr ⟨h.ticksRead, h.transactionsRead⟩
    exact ⟨x, hx, containsEpoch_of_ready h hx⟩

end Epoch

end ColdStorage

end Qonduit

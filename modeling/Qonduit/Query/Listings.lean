import Qonduit.Core.Json
import Qonduit.Processor.Integrity
import Qonduit.Query.Rest
import Qonduit.Storage.WarmScan

/-!
# Qonduit — transaction listings

The listings of REST and RPC scan an index for hashes and look each of them up
(`listTransactions`). A hash without a transaction would be left out without a word; in a store
that resolves there is none.

* **`Listed`** — a scan returns, and the listing shows the transaction of every hash.
* **`indexes_resolve`** — in every reachable store this holds of every tick and every entity.
-/

namespace Qonduit

/-- The scan returns without a panic, every hash has its transaction, and the listing shows all
of these, as far as they parse. -/
def Listed (c : Crates) (s : WarmStorage) (scan : Outcome (List Key32)) : Prop :=
  ∃ (hashes : List Key32) (stored : List Bytes), scan = .ok hashes ∧
    hashes.map s.getTx = stored.map some ∧
    listTransactions c s hashes
      = stored.filterMap (fun data => (c.serde.valueFromSlice data).toOption)

/-- Hashes that all have a transaction are all listed. -/
theorem listed_of_getTx (c : Crates) {s : WarmStorage} {hashes : List Key32}
    (h : ∀ hash ∈ hashes, ∃ data, s.getTx hash = some data) : Listed c s (.ok hashes) := by
  refine ⟨hashes, ?_⟩
  -- `listTransactions` drops a hash in two places; only the parser can still do so
  induction hashes with
  | nil => exact ⟨[], rfl, rfl, rfl⟩
  | cons hash hashes ih =>
    obtain ⟨data, hdata⟩ := h hash (by simp)
    obtain ⟨stored, -, hstored, hlist⟩ := ih (fun x hx => h x (by simp [hx]))
    refine ⟨data :: stored, rfl, ?_, ?_⟩
    · rw [List.map_cons, List.map_cons, hdata, hstored]
    · rw [listTransactions] at hlist ⊢
      rw [List.filterMap_cons, List.filterMap_cons, hlist, hdata]

namespace Resolves

variable {s : WarmStorage} (hs : Resolves s)

include hs

/-- A hash held in a slot has its transaction. -/
theorem getTx_of_slot {cf : Cf} (hcf : cf ∈ hashFamilies) {k : Bytes} {h : Key32}
    (hslot : s.view (cf, k) = some h.toList) : ∃ data, s.getTx h = some data :=
  Option.isSome_iff_exists.mp (hs cf hcf k h.toList hslot).2

/-- So are those of a tick. -/
theorem tick_listing (c : Crates) (t : UInt32) : Listed c s (s.getTxHashesForTick t) := by
  obtain ⟨hashes, hok, hlists⟩ := s.getTxHashesForTick_ok t
  rw [hok]
  refine listed_of_getTx c (fun h hh => ?_)
  obtain ⟨i, hi⟩ := (hlists.mem_iff h).mp hh
  exact hs.getTx_of_slot (by simp [hashFamilies]) hi

theorem entity_listing (c : Crates) (e : Key32) (limit : Nat) :
    Listed c s (s.getTxHashesForEntity e limit) := by
  obtain ⟨hashes, hok, hlists, -⟩ := s.getTxHashesForEntity_ok e
  rw [hok limit]
  refine listed_of_getTx c (fun h hh => ?_)
  -- the limit takes the first hashes of the scan
  obtain ⟨p, hp⟩ := (hlists.mem_iff h).mp (List.mem_of_mem_take hh)
  exact hs.getTx_of_slot (by simp [hashFamilies]) hp

end Resolves

namespace Indexer

/-- **The indexes do not dangle.** In every reachable store each value of `tx_by_tick` and
`tx_by_entity` is a 32-byte key of `tx`; the scans of every tick and of every entity, with any
limit, return without a panic; and their listings leave out no hash for want of a
transaction. -/
theorem indexes_resolve {c : Crates} {ix : Indexer} (hix : Reachable c ix) :
    Resolves ix.storage
    ∧ (∀ t, Listed c ix.storage (ix.storage.getTxHashesForTick t))
    ∧ ∀ e limit, Listed c ix.storage (ix.storage.getTxHashesForEntity e limit) := by
  have hs := resolves_of_reachable hix
  exact ⟨hs, hs.tick_listing c, hs.entity_listing c⟩

/-- A transaction whose hash text is not a key, which is stored under the all-zero key. -/
def sampleUnhashed : Transaction := { sampleTx 0 3 with hash := ascii "no hash" }

def sampleFallback : Known where
  txs := [sampleUnhashed, sampleTx 1 3]
  k12 := [burnChecksum]

/-- The reachable store of two transactions of tick 3, one of them under the fallback key. -/
theorem indexes_resolve_sample :
    let ix := run (.ofKnown sampleFallback) (new .empty {})
      [(.tx, sampleUnhashed.json), (.tx, (sampleTx 1 3).json)]
    ix.storage.getTxHashesForTick 3
        = .ok [zeroKey, (sampleTx 1 3).hashBytes (.ofKnown sampleFallback)]
    ∧ Resolves ix.storage
    ∧ (∀ t, Listed (.ofKnown sampleFallback) ix.storage (ix.storage.getTxHashesForTick t))
    ∧ ∀ e limit,
        Listed (.ofKnown sampleFallback) ix.storage (ix.storage.getTxHashesForEntity e limit) :=
  ⟨by decide +kernel, indexes_resolve (.run (.init {}) _)⟩

end Indexer

end Qonduit

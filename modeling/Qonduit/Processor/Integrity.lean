import Qonduit.Processor.StreamLog

/-!
# Qonduit — the transaction indexes do not dangle

`tx_by_tick` and `tx_by_entity` hold keys of `tx`. Only `index_transaction` writes them, and
its batch writes the payload under the very hash it indexes, whatever key that hash fell back
to; nothing is ever deleted.

* **`Resolves`** — every index entry is a 32-byte key of a stored transaction.
* **`resolves_consume`** — one message keeps it, whatever the stream.
* **`resolves_of_reachable`** — it holds of every reachable store.
-/

namespace Qonduit

/-- The families whose values are transaction hashes. -/
def hashFamilies : List Cf := [.txByTick, .txByEntity]

/-- Every index entry is a 32-byte key of a stored transaction. -/
def Resolves (s : WarmStorage) : Prop :=
  ∀ cf ∈ hashFamilies, ∀ k v, s.view (cf, k) = some v →
    v.length = 32 ∧ (s.view (.tx, v)).isSome

namespace Indexer

variable {c : Crates}

theorem resolves_empty : Resolves .empty := by
  intro cf _ k v h
  rw [WarmStorage.view_empty] at h
  cases h

/-- The batch of a transaction stores the payload under every hash it indexes. -/
theorem exists_txPut_of_mem_txPuts {tx : Transaction} {payload : Bytes} {i : UInt32} {p : Put}
    (hp : p ∈ txPuts c tx payload i) (hcf : p.cf ∈ hashFamilies) :
    ∃ q ∈ txPuts c tx payload i, (q.cf, q.key) = (.tx, p.value) := by
  refine ⟨.tx (tx.hashBytes c) payload, mem_txPuts.mpr (.inl rfl), ?_⟩
  rcases mem_txPuts.mp hp with rfl | rfl | ⟨e, -, rfl⟩
  · simp [Put.tx, hashFamilies] at hcf
  · rfl
  · rfl

/-- So does the batch of every message. Only transactions write the two indexes, and each writes its
payload in the same batch. -/
theorem exists_txPut_of_mem_puts {ix : Indexer} {m : Message} {p : Put} (hp : p ∈ puts c ix m)
    (hcf : p.cf ∈ hashFamilies) : ∃ q ∈ puts c ix m, (q.cf, q.key) = (.tx, p.value) := by
  have howner : owner p.cf = some .tx := by
    rcases List.mem_cons.mp hcf with h | h
    · rw [h]; rfl
    · rw [List.mem_singleton.mp h]; rfl
  rcases List.mem_append.mp hp with hp | hp
  · -- the payload-keyed writes of the transaction stream are none
    have hσ : m.1 = .tx := by
      rw [owner_of_mem_payloadPuts hp] at howner
      exact Option.some_inj.mp howner
    rw [hσ] at hp
    cases hp
  · rcases mem_statePuts hp with h | ⟨hσ, tx, htx, h⟩ | ⟨-, msg, -, rfl⟩ | ⟨-, h⟩
    · rw [h] at howner
      cases howner
    · obtain ⟨q, hq, hkey⟩ := exists_txPut_of_mem_txPuts h hcf
      refine ⟨q, List.mem_append.mpr (.inr ?_), hkey⟩
      obtain ⟨σ, payload⟩ := m
      cases hσ
      simp only [statePuts, htx]
      exact List.mem_append.mpr (.inl hq)
    · cases howner
    · rw [h] at howner
      cases howner

/-- **One message keeps the indexes resolving.** An entry is old or of this message. The payload
under the hash of an old one may be replaced, but it stays there. -/
theorem resolves_consume {ix : Indexer} (h : Resolves ix.storage) (m : Message) :
    Resolves (consume c ix m).storage := by
  intro cf hcf k v hv
  refine ⟨?_, ?_⟩
  · refine WarmStorage.valueLength_of_view hv ?_
    rcases List.mem_cons.mp hcf with rfl | hcf
    · rfl
    · rw [List.mem_singleton.mp hcf]; rfl
  · rw [storage_consume, WarmStorage.view_batchWrite] at hv ⊢
    rcases WriteLog.mem_or_of_replay hv with hw | hold
    · -- an entry of this batch: its transaction is in the batch too
      obtain ⟨p, hp, heq⟩ := List.mem_map.mp hw
      obtain ⟨haddr, rfl⟩ := Prod.mk.inj heq
      obtain ⟨rfl, rfl⟩ := Prod.mk.inj haddr
      obtain ⟨q, hq, hkey⟩ := exists_txPut_of_mem_puts hp hcf
      have := WriteLog.isSome_replay_of_mem (m := ix.storage.view)
        (List.mem_map_of_mem (f := Put.write) hq)
      rw [← hkey]
      exact this
    · -- an older entry: nothing is ever deleted
      exact WriteLog.isSome_replay (h cf hcf k v hold).2

/-- **The indexes resolve in every reachable state**, by induction on the messages. -/
theorem resolves_of_reachable {ix : Indexer} (hix : Reachable c ix) : Resolves ix.storage := by
  induction hix with
  | init pl => exact resolves_empty
  | step σ payload _ hok ih =>
    rw [← consume_of_ok hok]
    exact resolves_consume ih (σ, payload)
  | restart pl _ ih => exact ih

end Indexer

end Qonduit

import Qonduit.Storage.ReverseScans

/-!
# Qonduit — scans of a whole family

Some readers walk through a family from a key on, pass over keys of a foreign length and stop
after a number of entries: the listings of assets, contract IPOs, spectrum entries and entity keys.
The listing of the epoch statistics has no limit. Beside them stand the lookups of single records
that no scan above needs.

* **`page_least`** — such a scan returns the least keys from its start on, whatever the family.
* **`limitedScansExact`** — all of them, by the bytes that a store holds.
* **`limited_scans_exact`** — the same after any run of the writers, by the arguments of its calls.
-/

namespace Qonduit

/-- A 32-byte key, as the number it spells big-endian. -/
def numberKey32 : IndexNumbering Key32 32 where
  number key := Positional.ofBe key.toList
  ofNumber n := keyOf (Positional.beBytes 32 n)
  number_lt key := by
    have := Positional.ofLe_lt key.toList.reverse
    rwa [List.length_reverse, List.Vector.toList_length] at this
  ofNumber_number key := by
    refine List.Vector.toList_injective ?_
    have hbytes := Positional.beBytes_ofBe key.toList
    rw [List.Vector.toList_length] at hbytes
    rw [toList_keyOf (Positional.length_beBytes ..), hbytes]
  number_ofNumber n h := by
    rw [toList_keyOf (Positional.length_beBytes ..), Positional.ofBe_beBytes_of_lt h]

/-- The keys of 32 bytes are numbered as big-endian numbers, so they stand for themselves. -/
theorem bytes_numberKey32 (key : Key32) : numberKey32.bytes key = key.toList := by
  have hbytes := Positional.beBytes_ofBe key.toList
  rwa [List.Vector.toList_length] at hbytes

theorem read_numberKey32 (bs : Bytes) (h : bs.length = 32) : numberKey32.read bs = keyOf bs := by
  have hbytes := Positional.beBytes_ofBe bs
  rw [h] at hbytes
  show keyOf (Positional.beBytes 32 (Positional.ofBe bs)) = keyOf bs
  rw [hbytes]

namespace WarmStorage

/-! ## Lookups -/

def getEntity (s : WarmStorage) (identity : Key32) : Option Bytes :=
  (s.db .entity)[identity.toList]?

def getSpectrumEntry (s : WarmStorage) (identity : Key32) : Option Bytes :=
  (s.db .spectrum)[identity.toList]?

def getComputors (s : WarmStorage) (epoch : UInt16) : Option Bytes :=
  (s.db .computors)[epoch.toBeBytes]?

def getOracle (s : WarmStorage) (tick : UInt32) : Option Bytes :=
  (s.db .oracle)[tick.toBeBytes]?

/-! ## Pages

A scan with a limit starts at a key, takes what comes, and stops after so many rows. Some of the
loops leave out rows whose key has an unexpected length before they count. -/

/-- The loop that starts at a key, passes over keys of another length and breaks at the limit. -/
def page (f : Family) (start : Bytes) (keyLen limit : Nat) : List (Bytes × Bytes) :=
  ((OrderedScan.seek f start).filter (fun e => e.1.length == keyLen)).take limit

def getAllContractIpos (s : WarmStorage) (limit : Nat) : List (UInt32 × Bytes) :=
  (page (s.db .contractIpo) (List.replicate 4 0) 4 limit).map
    (fun e => (UInt32.fromBeBytes e.1, e.2))

/-- The spectrum entries from an identity on, at most `count`. -/
def getSpectrumRange (s : WarmStorage) (start : Key32) (count : Nat) :
    Outcome (List (Key32 × Bytes)) :=
  (page (s.db .spectrum) start.toList 32 count).mapM fun e => do
    let identity ← copyFromSlice e.1
    .ok (identity, e.2)

/-- `IteratorMode::Start` is below every key. -/
def getAllEntityKeys (s : WarmStorage) (limit : Nat) : Outcome (List Key32) :=
  (page (s.db .entity) [] 32 limit).mapM (fun e => copyFromSlice e.1)

def listEpochStats (s : WarmStorage) : List (UInt16 × Bytes) :=
  ((s.db .epochStats).toList.filter (fun e => e.1.length == 2)).map
    (fun e => (UInt16.fromBeBytes e.1, e.2))

/-- What the entries from `start` on hold. -/
def fromKey (start : Bytes) (entry : Bytes → Option Bytes) (k : Bytes) : Option Bytes :=
  if compare k start = .lt then none else entry k

/-- The entries of a family from a key on, enumerated. Keys of another length are left out, so that
every key that is left is that of an index. -/
theorem seek_enumerates (s : WarmStorage) {I : Type} {size : Nat} (N : IndexNumbering I size)
    (cf : Cf) (start : Bytes) :
    OrderedScan.Enumerates N.number
      (fun i => fromKey start (fun k => s.view (cf, k)) (N.bytes i))
      (((OrderedScan.seek (s.db cf) start).filter (fun e => e.1.length == size)).map
        (fun e => (N.read e.1, e.2))) := by
  rw [OrderedScan.seek_eq_select,
    OrderedScan.filter_select (q := fun k : Bytes => k.length == size)]
  refine OrderedScan.enumerates_select N.bytes N.read ?_ N.read_bytes ?_ ?_
  · -- a key of the right length is that of the index it is read as
    intro k _ hk
    have hlen : k.length = size := by
      rw [Bool.and_eq_true, beq_iff_eq] at hk
      exact hk.1
    exact ⟨N.read k, (N.bytes_read hlen).symm⟩
  · -- the order of the keys is that of the indices
    intro i j hlt
    have hlt : compare ([] ++ N.bytes i) ([] ++ N.bytes j) = .lt := hlt
    exact N.number_lt_of_compare hlt
  · -- what the family holds from the start on, and nothing before it
    intro i v
    have hlen : ((N.bytes i).length == size) = true := by simp
    simp only [fromKey, hlen, Bool.true_and, Bool.not_eq_true', beq_eq_false_iff_ne]
    by_cases hlt : compare (N.bytes i) start = .lt
    · simp [hlt]
    · rw [if_neg hlt]
      exact (and_iff_left hlt).symm

/-- **A page holds the least keys from its start on.** It is a beginning of the enumeration, as long
as the limit allows. -/
theorem page_least (s : WarmStorage) {I : Type} {size : Nat} (N : IndexNumbering I size)
    (cf : Cf) (start : Bytes) (limit : Nat) :
    OrderedScan.Least N.number
      (fun i => fromKey start (fun k => s.view (cf, k)) (N.bytes i)) limit
      ((page (s.db cf) start size limit).map (fun e => (N.read e.1, e.2))) := by
  rw [page, List.map_take]
  exact (s.seek_enumerates N cf start).least limit

/-! ## What a store holds -/

/-- No key of four bytes is before four zero bytes, so a scan from there meets them all. -/
theorem fromKey_zeros (i : UInt32) (entry : Bytes → Option Bytes) :
    fromKey (List.replicate 4 0) entry i.toBeBytes = entry i.toBeBytes := by
  refine if_neg (fun hlt => ?_)
  have hzeros : List.replicate 4 0 = (0 : UInt32).toBeBytes := by decide
  rw [hzeros, UInt32.compare_toBeBytes, Nat.compare_eq_lt] at hlt
  exact absurd hlt (Nat.not_lt_zero _)

theorem fromKey_nil (k : Bytes) (entry : Bytes → Option Bytes) : fromKey [] entry k = entry k := by
  refine if_neg (fun hlt => ?_)
  cases k with
  | nil => cases hlt
  | cons b k => cases hlt

/-- A scan whose entries are keyed by 32 bytes copies each key whole. -/
theorem mapM_key {α : Type} {l : List (Bytes × Bytes)} (h : ∀ e ∈ l, e.1.length = 32)
    (f : Key32 → Bytes → α) :
    l.mapM (fun e => do
      let key ← copyFromSlice e.1
      .ok (f key e.2)) = (.ok (l.map (fun e => f (keyOf e.1) e.2)) : Outcome (List α)) := by
  induction l with
  | nil => rfl
  | cons e l ih =>
    have hl : ∀ x ∈ l, x.1.length = 32 := fun x hx => h x (List.mem_cons_of_mem _ hx)
    rw [List.mapM_cons, copyFromSlice_eq_keyOf (h e List.mem_cons_self), ih hl]
    rfl

theorem length_of_mem_page {f : Family} {start : Bytes} {keyLen limit : Nat} {e : Bytes × Bytes}
    (h : e ∈ page f start keyLen limit) : e.1.length = keyLen :=
  beq_iff_eq.mp (List.mem_filter.mp (List.mem_of_mem_take h)).2

/-- What the scans of whole families return, given the entry under each key. -/
structure LimitedScansExact (s : WarmStorage) (entry : Cf → Bytes → Option Bytes) : Prop where
  assets : ∀ limit, OrderedScan.Least UInt32.toNat (fun i => entry .asset i.toBeBytes) limit
    (s.getAllAssets limit)
  contractIpos : ∀ limit, OrderedScan.Least UInt32.toNat
    (fun i => entry .contractIpo i.toBeBytes) limit (s.getAllContractIpos limit)
  spectrum : ∀ start count, ∃ entries, s.getSpectrumRange start count = .ok entries ∧
    OrderedScan.Least numberKey32.number
      (fun e => fromKey start.toList (entry .spectrum) e.toList) count entries
  entityKeys : ∀ limit, ∃ l, s.getAllEntityKeys limit = .ok (l.map Prod.fst) ∧
    OrderedScan.Least numberKey32.number (fun e => entry .entity e.toList) limit l
  epochStats : OrderedScan.Enumerates UInt16.toNat (fun e => entry .epochStats e.toBeBytes)
    s.listEpochStats

/-- The family scans over numbered records, with their numbers read off the keys. -/
theorem page_u32_least (s : WarmStorage) (cf : Cf) (limit : Nat) :
    OrderedScan.Least UInt32.toNat (fun i => s.view (cf, i.toBeBytes)) limit
      ((page (s.db cf) (List.replicate 4 0) 4 limit).map
        (fun e => (UInt32.fromBeBytes e.1, e.2))) := by
  have h := s.page_least numberU32 cf (List.replicate 4 0) limit
  have hentry : (fun i => fromKey (List.replicate 4 0) (fun k => s.view (cf, k))
      (numberU32.bytes i)) = fun i : UInt32 => s.view (cf, i.toBeBytes) :=
    funext fun i => fromKey_zeros i _
  rw [hentry] at h
  exact h

/-- The spectrum from an identity on: at most as many entries as asked for, those of least
identity. -/
theorem getSpectrumRange_least (s : WarmStorage) (start : Key32) (count : Nat) :
    ∃ entries, s.getSpectrumRange start count = .ok entries ∧
      OrderedScan.Least numberKey32.number
        (fun e => fromKey start.toList (fun k => s.view (.spectrum, k)) e.toList) count
        entries := by
  have h := s.page_least numberKey32 .spectrum start.toList count
  have hread : (page (s.db .spectrum) start.toList 32 count).map
      (fun e => (numberKey32.read e.1, e.2))
      = (page (s.db .spectrum) start.toList 32 count).map (fun e => (keyOf e.1, e.2)) := by
    refine List.map_congr_left (fun e he => ?_)
    rw [read_numberKey32 _ (length_of_mem_page he)]
  rw [hread] at h
  simp only [bytes_numberKey32] at h
  exact ⟨_, mapM_key (fun e he => length_of_mem_page he) Prod.mk, h⟩

/-- The identities of the stored entities, without their records. -/
theorem getAllEntityKeys_least (s : WarmStorage) (limit : Nat) :
    ∃ l, s.getAllEntityKeys limit = .ok (l.map Prod.fst) ∧
      OrderedScan.Least numberKey32.number (fun e => s.view (.entity, e.toList)) limit l := by
  have h := s.page_least numberKey32 .entity [] limit
  simp only [fromKey_nil, bytes_numberKey32] at h
  refine ⟨_, ?_, h⟩
  have hkeys := mapM_key (l := page (s.db .entity) [] 32 limit)
    (fun e he => length_of_mem_page he) (fun key _ => key)
  have hread : ((page (s.db .entity) [] 32 limit).map
      (fun e => (numberKey32.read e.1, e.2))).map Prod.fst
      = (page (s.db .entity) [] 32 limit).map (fun e => keyOf e.1) := by
    rw [List.map_map]
    exact List.map_congr_left (fun e he => read_numberKey32 _ (length_of_mem_page he))
  rw [hread, ← hkeys, getAllEntityKeys]
  congr 1
  funext e
  cases copyFromSlice e.1 <;> rfl

/-- The statistics of all epochs, which have no limit. -/
theorem listEpochStats_enumerates (s : WarmStorage) :
    OrderedScan.Enumerates UInt16.toNat (fun e => s.view (.epochStats, e.toBeBytes))
      s.listEpochStats := by
  have h := s.seek_enumerates numberU16 .epochStats []
  simp only [fromKey_nil] at h
  have hseek : OrderedScan.seek (s.db .epochStats) [] = (s.db .epochStats).toList := by
    rw [OrderedScan.seek_eq_select, OrderedScan.select, List.filter_eq_self]
    intro e _
    cases e.1 <;> rfl
  rw [hseek] at h
  exact h

/-- The seven scans together, in terms of the bytes a store holds. -/
theorem limitedScansExact (s : WarmStorage) :
    LimitedScansExact s (fun cf k => s.view (cf, k)) where
  assets := s.page_u32_least .asset
  contractIpos := s.page_u32_least .contractIpo
  spectrum := s.getSpectrumRange_least
  entityKeys := s.getAllEntityKeys_least
  epochStats := s.listEpochStats_enumerates

/-! ## Every run of the writers -/

/-- What the scans of whole families return, given the calls that filled the store. -/
structure FamilyScansExact (s : WarmStorage) (calls : List PutCall) : Prop where
  assets : ∀ limit, OrderedScan.Least UInt32.toNat (lastPut PutCall.assets calls) limit
    (s.getAllAssets limit)
  contractIpos : ∀ limit, OrderedScan.Least UInt32.toNat (lastPut PutCall.contractIpos calls) limit
    (s.getAllContractIpos limit)
  /-- The entries below the start are passed over. -/
  spectrum : ∀ start count, ∃ entries, s.getSpectrumRange start count = .ok entries ∧
    OrderedScan.Least numberKey32.number
      (fun e => if compare e.toList start.toList = .lt then none
        else lastPut PutCall.spectrumEntries calls e) count entries
  entityKeys : ∀ limit, ∃ l, s.getAllEntityKeys limit = .ok (l.map Prod.fst) ∧
    OrderedScan.Least numberKey32.number (lastPut PutCall.entities calls) limit l
  epochStats : OrderedScan.Enumerates UInt16.toNat (lastPut PutCall.epochStats calls)
    s.listEpochStats

/-- **The scans of whole families are exact and ordered** after any run of the writers: each
returns the entries of least key from its start on, as many as its limit allows. -/
theorem limited_scans_exact (calls : List PutCall) :
    FamilyScansExact (empty.perform calls) calls := by
  have h := limitedScansExact (empty.perform calls)
  have hassets := funext (view_perform_id PutCall.records_assets calls)
  have hipos := funext (view_perform_id PutCall.records_contractIpos calls)
  have hspectrum := view_perform_id PutCall.records_spectrumEntries calls
  have hentities := funext (view_perform_id PutCall.records_entities calls)
  have hstats := funext (view_perform_id PutCall.records_epochStats calls)
  refine ⟨?_, ?_, ?_, ?_, ?_⟩
  · rw [← hassets]
    exact h.assets
  · rw [← hipos]
    exact h.contractIpos
  · simp only [← hspectrum]
    exact h.spectrum
  · rw [← hentities]
    exact h.entityKeys
  · rw [← hstats]
    exact h.epochStats

end WarmStorage

end Qonduit

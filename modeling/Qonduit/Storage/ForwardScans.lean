import Qonduit.Lib.CompositeKey
import Qonduit.Storage.PutCalls

/-!
# Qonduit — the forward scans of the warm tier

Seven families have composite keys: a stem (a tick or an entity) and big-endian numbers behind it.
A scan that seeks to a stem and breaks at the first foreign key lists what was put under the stem,
once each, by increasing number.

* **`scanUnder_enumerates`** — one such scan, for any family and any numbering of its keys.
* **`scansExact`** — all of them, and the counts and the reverse listing of holders, by the bytes
  that a store holds.
* **`forward_scans_exact`** — the same after any run of the writers, by the arguments of its calls.
-/

namespace Qonduit

/-! ## Numberings

The last part of a key is a number or a pair of numbers, big-endian, so that the keys under one stem
sort as these. -/

/-- A slot, a message index or an asset index: four bytes. -/
def numberU32 : IndexNumbering UInt32 4 where
  number := UInt32.toNat
  ofNumber := UInt32.ofNat
  number_lt i := i.toNat_lt
  ofNumber_number _ := UInt32.ofNat_toNat
  number_ofNumber _ h := UInt32.toNat_ofNat_of_lt' h

/-- A computor index: two bytes. -/
def numberU16 : IndexNumbering UInt16 2 where
  number := UInt16.toNat
  ofNumber := UInt16.ofNat
  number_lt i := i.toNat_lt
  ofNumber_number _ := UInt16.ofNat_toNat
  number_ofNumber _ h := UInt16.toNat_ofNat_of_lt' h

/-- A transaction index and an event type: five bytes. -/
def numberEvent : IndexNumbering (UInt32 × UInt8) 5 where
  number p := p.1.toNat * 256 + p.2.toNat
  ofNumber n := (UInt32.ofNat (n / 256), UInt8.ofNat (n % 256))
  number_lt p := by
    have h₁ := p.1.toNat_lt
    have h₂ := p.2.toNat_lt
    omega
  ofNumber_number p := by
    have h₂ := p.2.toNat_lt
    have hdiv : (p.1.toNat * 256 + p.2.toNat) / 256 = p.1.toNat := by omega
    have hmod : (p.1.toNat * 256 + p.2.toNat) % 256 = p.2.toNat := by omega
    rw [hdiv, hmod, UInt32.ofNat_toNat, UInt8.ofNat_toNat]
  number_ofNumber n h := by
    have hdiv : n / 256 < UInt32.size := Nat.div_lt_of_lt_mul h
    have hmod : n % 256 < UInt8.size := Nat.mod_lt _ (by decide)
    rw [UInt32.toNat_ofNat_of_lt' hdiv, UInt8.toNat_ofNat_of_lt' hmod, Nat.div_add_mod']

/-- A tick and a slot within it: eight bytes. -/
def numberSlot : IndexNumbering (UInt32 × UInt32) 8 where
  number p := p.1.toNat * 256 ^ 4 + p.2.toNat
  ofNumber n := (UInt32.ofNat (n / 256 ^ 4), UInt32.ofNat (n % 256 ^ 4))
  number_lt p := by
    have h₁ := p.1.toNat_lt
    have h₂ := p.2.toNat_lt
    omega
  ofNumber_number p := by
    have h₂ := p.2.toNat_lt
    have hdiv : (p.1.toNat * 256 ^ 4 + p.2.toNat) / 256 ^ 4 = p.1.toNat := by omega
    have hmod : (p.1.toNat * 256 ^ 4 + p.2.toNat) % 256 ^ 4 = p.2.toNat := by omega
    rw [hdiv, hmod, UInt32.ofNat_toNat, UInt32.ofNat_toNat]
  number_ofNumber n h := by
    have hdiv : n / 256 ^ 4 < UInt32.size := Nat.div_lt_of_lt_mul h
    have hmod : n % 256 ^ 4 < UInt32.size := Nat.mod_lt _ (by decide)
    rw [UInt32.toNat_ofNat_of_lt' hdiv, UInt32.toNat_ofNat_of_lt' hmod, Nat.div_add_mod']

/-- The number of a log event is its transaction slot and its position there. -/
theorem bytes_numberEvent (p : UInt32 × UInt8) :
    numberEvent.bytes p = p.1.toBeBytes ++ [p.2] := by
  have h₂ := p.2.toNat_lt
  have hdiv : (p.1.toNat * 256 + p.2.toNat) / 256 = p.1.toNat := by omega
  have hmod : (p.1.toNat * 256 + p.2.toNat) % 256 = p.2.toNat := by omega
  show Positional.beBytes (4 + 1) (p.1.toNat * 256 + p.2.toNat) = _
  rw [Positional.beBytes_succ, hdiv, hmod, UInt8.ofNat_toNat]
  rfl

/-- The number of an entity entry is its tick and its slot there. -/
theorem bytes_numberSlot (p : UInt32 × UInt32) : numberSlot.bytes p = tickIndexKey p.1 p.2 :=
  (Positional.beBytes_append 4 4 p.1.toNat p.2.toNat p.2.toNat_lt).symm

/-! ## Scans under a stem

All prefix reads share one loop: seek to the stem, take while the key begins with it. The families
differ in the stem and in the numbering behind it. -/

namespace WarmStorage

/-- **A scan under a stem** enumerates what its slots hold. The slots are numbered so that a greater
number stands for a later key, and every key under the stem is that of a slot. -/
theorem scanUnder_enumerates (s : WarmStorage) {I : Type} {size n : Nat} (N : IndexNumbering I size)
    (cf : Cf) (hcf : cf.keyLength = some n) (stem : Bytes) (hn : n = stem.length + size) :
    OrderedScan.Enumerates N.number (fun i => s.view (cf, N.key stem i))
      ((scanUnder (s.db cf) n stem).map (fun e => (N.read (e.1.drop stem.length), e.2))) := by
  have hunder : ∀ i, isUnder n stem (N.key stem i) = true := by
    intro i
    rw [isUnder_iff, hn]
    exact ⟨by simp [IndexNumbering.key], N.bytes i, rfl⟩
  rw [scanUnder_eq_select (s.length_of_mem hcf)]
  refine OrderedScan.enumerates_select (N.key stem) (fun k => N.read (k.drop _))
    ?_ ?_ ?_ ?_
  · intro k _ hk
    obtain ⟨hlen, rest, rfl⟩ := isUnder_iff.mp hk
    rw [List.length_append, hn, Nat.add_left_cancel_iff] at hlen
    exact ⟨N.read rest, by rw [IndexNumbering.key, N.bytes_read hlen]⟩
  · intro i
    rw [IndexNumbering.key, List.drop_left, N.read_bytes]
  · intro i j
    exact N.number_lt_of_compare
  · intro i v
    exact ⟨fun h => ⟨h, hunder i⟩, And.left⟩

/-- The ticks of a range. The scan seeks the first of them and stops behind the last, and as the
keys are the tick numbers in big-endian order nothing of the range is passed over in between. -/
theorem getTickRange_enumerates (s : WarmStorage) (fromTick toTick : UInt32) :
    OrderedScan.Enumerates UInt32.toNat
      (fun t => if fromTick ≤ t ∧ t ≤ toTick then s.view (.tick, t.toBeBytes) else none)
      (s.getTickRange fromTick toTick) := by
  have hlength : ∀ t : UInt32, (t.toBeBytes.length == 4) = true := fun t => by simp
  -- the loop stops at a tick beyond the range, and every later tick is beyond it too
  have hstop : ∀ x y : Bytes, compare x y = .lt → x.length = 4 → y.length = 4 →
      UInt32.fromBeBytes y ≤ toTick → UInt32.fromBeBytes x ≤ toTick := by
    intro x y hxy hx hy hle
    rw [← UInt32.toBeBytes_fromBeBytes hx, ← UInt32.toBeBytes_fromBeBytes hy,
      UInt32.compare_toBeBytes, Nat.compare_eq_lt] at hxy
    exact UInt32.le_trans (UInt32.le_of_lt (UInt32.lt_iff_toNat_lt.mpr hxy)) hle
  rw [getTickRange, OrderedScan.seek_eq_select,
    OrderedScan.filter_select (q := fun k : Bytes => k.length == 4), List.takeWhile_map]
  simp only [Function.comp_def]
  rw [OrderedScan.takeWhile_select (q := fun k : Bytes => decide (UInt32.fromBeBytes k ≤ toTick))]
  · refine OrderedScan.enumerates_select UInt32.toBeBytes _ ?_ ?_ ?_ ?_
    · intro k _ hk
      simp only [Bool.and_eq_true, beq_iff_eq] at hk
      exact exists_toBeBytes k hk.2.1
    · exact UInt32.fromBeBytes_toBeBytes
    · intro i j hij
      rw [UInt32.compare_toBeBytes] at hij
      exact Nat.compare_eq_lt.mp hij
    · intro t v
      have hlow : compare t.toBeBytes fromTick.toBeBytes ≠ .lt ↔ fromTick ≤ t := by
        rw [UInt32.compare_toBeBytes, Ne, Nat.compare_eq_lt, Nat.not_lt, UInt32.le_iff_toNat_le]
      simp only [Option.ite_none_right_eq_some, Bool.and_eq_true, Bool.not_eq_true',
        beq_eq_false_iff_ne, decide_eq_true_eq, UInt32.fromBeBytes_toBeBytes, hlength, hlow,
        true_and]
      exact ⟨fun h => ⟨h.2, h.1.2, h.1.1⟩, fun h => ⟨⟨h.2.2, h.2.1⟩, h.1⟩⟩
  · intro x _ y _ hxy hx hy hle
    simp only [Bool.and_eq_true, beq_iff_eq, decide_eq_true_eq] at hx hy hle ⊢
    exact hstop x y hxy hx.1 hy.1 hle

/-! ## The listings

What each getter makes of its scan: the values alone, the numbers alone, or both, decoded or
counted. -/

/-- The values under a stem, in the order of their numbers. -/
theorem scanUnder_values (s : WarmStorage) {I : Type} {size n : Nat} (N : IndexNumbering I size)
    (cf : Cf) (hcf : cf.keyLength = some n) (stem : Bytes) (hn : n = stem.length + size) :
    ∃ l, OrderedScan.Enumerates N.number (fun i => s.view (cf, N.key stem i)) l ∧
      (scanUnder (s.db cf) n stem).map Prod.snd = l.map Prod.snd := by
  refine ⟨_, s.scanUnder_enumerates N cf hcf stem hn, ?_⟩
  rw [List.map_map]
  rfl

/-- The votes of a tick, with their computors, by ascending computor. -/
theorem getVotesForTick_enumerates (s : WarmStorage) (t : UInt32) :
    OrderedScan.Enumerates UInt16.toNat
      (fun i => s.view (.tickVote, t.toBeBytes ++ i.toBeBytes)) (s.getVotesForTick t) := by
  have h := s.scanUnder_enumerates numberU16 .tickVote rfl t.toBeBytes (by simp)
  rw [UInt32.length_toBeBytes] at h
  exact h

/-- The asset indices wired to an entity are those its entries spell. -/
theorem getAssetsForEntity_spec (s : WarmStorage) (e : Key32) :
    (s.getAssetsForEntity e).Pairwise (· < ·) ∧
    ∀ a, a ∈ s.getAssetsForEntity e ↔
      (s.view (.entityAsset, e.toList ++ a.toBeBytes)).isSome := by
  have h := s.scanUnder_enumerates numberU32 .entityAsset rfl e.toList (by simp)
  rw [e.toList_length] at h
  have hassets : s.getAssetsForEntity e
      = ((scanUnder (s.db .entityAsset) 36 e.toList).map
          (fun x => (numberU32.read (x.1.drop 32), x.2))).map Prod.fst := by
    rw [getAssetsForEntity, List.map_map]
    rfl
  rw [hassets]
  refine ⟨?_, h.mem_indices_iff⟩
  rw [List.pairwise_map]
  exact h.increasing.imp UInt32.lt_iff_toNat_lt.mpr

/-- The holders of an asset are found by a scan over all entity entries, so they are the entities
with an entry that spells it. -/
theorem getHoldersForAsset_spec (s : WarmStorage) (a : UInt32) :
    ∃ es, s.getHoldersForAsset a = .ok es ∧ ∀ e, e ∈ es ↔ a ∈ s.getAssetsForEntity e := by
  -- the entries the loop copies from, each with its head as the value
  let l := (((s.db .entityAsset).toList.filter (fun x => x.1.length == 36)).filter
    (fun x => x.1.drop 32 == a.toBeBytes)).map (fun x => (x.1, x.1.take 32))
  have hmem : ∀ k v, (k, v) ∈ l ↔
      (s.view (.entityAsset, k)).isSome ∧ k.length = 36 ∧ k.drop 32 = a.toBeBytes ∧
        v = k.take 32 := by
    intro k v
    simp only [l, List.mem_map, List.mem_filter, beq_iff_eq, Prod.exists, Prod.mk.injEq,
      Std.ExtTreeMap.mem_toList_iff_getElem?_eq_some, Option.isSome_iff_exists, view]
    constructor
    · rintro ⟨k', u, ⟨⟨hget, hlen⟩, hdrop⟩, rfl, rfl⟩
      exact ⟨⟨u, hget⟩, hlen, hdrop, rfl⟩
    · rintro ⟨⟨u, hget⟩, hlen, hdrop, rfl⟩
      exact ⟨k, u, ⟨⟨hget, hlen⟩, hdrop⟩, rfl, rfl⟩
  have hlen : ∀ x ∈ l, x.2.length = 32 := by
    rintro ⟨k, v⟩ hx
    obtain ⟨-, hlen, -, rfl⟩ := (hmem k v).mp hx
    simp [hlen]
  obtain ⟨es, hok, hval⟩ := mapM_copyFromSlice hlen
  refine ⟨es, ?_, fun e => ?_⟩
  · rw [List.mapM_map] at hok
    exact hok
  · rw [(s.getAssetsForEntity_spec e).2, ← List.mem_map_of_injective toList_injective, hval,
      List.mem_map]
    constructor
    · rintro ⟨⟨k, v⟩, hx, heq⟩
      obtain ⟨hget, -, hdrop, rfl⟩ := (hmem k v).mp hx
      have hkey : e.toList ++ a.toBeBytes = k := by
        rw [← heq, ← hdrop, List.take_append_drop]
      rw [hkey]
      exact hget
    · intro hget
      refine ⟨(e.toList ++ a.toBeBytes, e.toList), (hmem _ _).mpr ⟨hget, by simp, ?_, ?_⟩, rfl⟩
      · exact List.drop_left' e.toList_length
      · exact (List.take_left' e.toList_length).symm

/-! ## What a store holds

Every listing in terms of the bytes stored under each key. -/

/-- What the forward scans of a store return, given the entry under each key. -/
structure ScansExact (s : WarmStorage) (entry : Cf → Bytes → Option Bytes) : Prop where
  tickRange : ∀ fromTick toTick, OrderedScan.Enumerates UInt32.toNat
    (fun t => if fromTick ≤ t ∧ t ≤ toTick then entry .tick t.toBeBytes else none)
    (s.getTickRange fromTick toTick)
  tickRange_empty : ∀ fromTick toTick, toTick < fromTick → s.getTickRange fromTick toTick = []
  txHashes : ∀ t, ∃ hashes l, s.getTxHashesForTick t = .ok hashes ∧
    OrderedScan.Enumerates UInt32.toNat (fun i => entry .txByTick (tickIndexKey t i)) l ∧
    hashes.map List.Vector.toList = l.map Prod.snd
  customMessages : ∀ t, ∃ l,
    OrderedScan.Enumerates UInt32.toNat (fun i => entry .customMessage (tickIndexKey t i)) l ∧
    s.getCustomMessagesForTick t = l.map Prod.snd
  /-- An event is numbered by its transaction index and then its type. -/
  logEvents : ∀ t, ∃ l,
    OrderedScan.Enumerates (fun p : UInt32 × UInt8 => p.1.toNat * 256 + p.2.toNat)
      (fun p => entry .logEvent (tickIndexKey t p.1 ++ [p.2])) l ∧
    s.getLogEventsForTick t = l.map Prod.snd
  votes : ∀ t, OrderedScan.Enumerates UInt16.toNat
    (fun i => entry .tickVote (t.toBeBytes ++ i.toBeBytes)) (s.getVotesForTick t)
  assets_increasing : ∀ e, (s.getAssetsForEntity e).Pairwise (· < ·)
  mem_assets_iff : ∀ e a, a ∈ s.getAssetsForEntity e ↔
    (entry .entityAsset (e.toList ++ a.toBeBytes)).isSome
  customMessages_count : ∀ t,
    s.countCustomMessagesForTick t = (s.getCustomMessagesForTick t).length
  votes_count : ∀ t, s.countVotesForTick t = (s.getVotesForTick t).length
  /-- The listing of an entity's transactions is cut at a limit, the count is not. -/
  entity_count : ∀ e, ∃ hashes : List Key32,
    (∀ limit, s.getTxHashesForEntity e limit = .ok (hashes.take limit)) ∧
    s.countEntityTransactions e = hashes.length
  holders : ∀ a, ∃ es, s.getHoldersForAsset a = .ok es ∧ ∀ e, e ∈ es ↔ a ∈ s.getAssetsForEntity e

theorem scansExact (s : WarmStorage) : ScansExact s (fun cf k => s.view (cf, k)) where
  tickRange := s.getTickRange_enumerates
  tickRange_empty fromTick toTick hlt := by
    have h := s.getTickRange_enumerates fromTick toTick
    refine List.eq_nil_iff_forall_not_mem.mpr ?_
    rintro ⟨t, v⟩ ht
    have hsome := (h.mem_iff t v).mp ht
    obtain ⟨⟨hlow, hhigh⟩, -⟩ := Option.ite_none_right_eq_some.mp hsome
    exact UInt32.not_lt.mpr (UInt32.le_trans hlow hhigh) hlt
  -- a listing of hashes also decodes its values, which cannot fail as they have 32 bytes
  txHashes t := by
    obtain ⟨l, hl, hval⟩ := s.scanUnder_values numberU32 .txByTick rfl t.toBeBytes
      (by simp)
    have hlen : ∀ x ∈ scanUnder (s.db .txByTick) 8 t.toBeBytes, x.2.length = 32 :=
      s.valueLength_of_mem_scanUnder rfl rfl
    obtain ⟨hashes, hok, hhashes⟩ := mapM_copyFromSlice hlen
    exact ⟨hashes, l, hok, hl, hhashes.trans hval⟩
  customMessages t := s.scanUnder_values numberU32 .customMessage rfl t.toBeBytes (by simp)
  -- the numbers of log events are pairs, their bytes those of the tick's stem
  logEvents t := by
    obtain ⟨l, hl, hval⟩ := s.scanUnder_values numberEvent .logEvent rfl t.toBeBytes
      (by simp)
    refine ⟨l, hl.congr (fun p => ?_), hval⟩
    rw [IndexNumbering.key, bytes_numberEvent, tickIndexKey, List.append_assoc]
  votes := s.getVotesForTick_enumerates
  assets_increasing e := (s.getAssetsForEntity_spec e).1
  mem_assets_iff e := (s.getAssetsForEntity_spec e).2
  customMessages_count := s.countCustomMessagesForTick_eq
  votes_count t := by rw [countVotesForTick, getVotesForTick, List.length_map]
  entity_count e := by
    obtain ⟨hashes, hok, -, hcount⟩ := s.getTxHashesForEntity_ok e
    exact ⟨hashes, hok, hcount⟩
  holders := s.getHoldersForAsset_spec

/-! ## Every run of the writers

The same in terms of the calls that were made: no key and no encoded value is left. -/

/-- What the forward scans of a store return, given the calls that filled it. An index that was put
several times holds what the last call put there. -/
structure ForwardScansExact (s : WarmStorage) (calls : List PutCall) : Prop where
  tickRange : ∀ fromTick toTick, OrderedScan.Enumerates UInt32.toNat
    (fun t => if fromTick ≤ t ∧ t ≤ toTick then lastPut PutCall.ticks calls t else none)
    (s.getTickRange fromTick toTick)
  tickRange_empty : ∀ fromTick toTick, toTick < fromTick → s.getTickRange fromTick toTick = []
  txHashes : ∀ t, ∃ l, s.getTxHashesForTick t = .ok (l.map Prod.snd) ∧
    OrderedScan.Enumerates UInt32.toNat (fun i => lastPut PutCall.txsForTick calls (t, i)) l
  customMessages : ∀ t, ∃ l, s.getCustomMessagesForTick t = l.map Prod.snd ∧
    OrderedScan.Enumerates UInt32.toNat (fun i => lastPut PutCall.customMessages calls (t, i)) l
  /-- An event is numbered by its transaction index and then its type. -/
  logEvents : ∀ t, ∃ l, s.getLogEventsForTick t = l.map Prod.snd ∧
    OrderedScan.Enumerates (fun p : UInt32 × UInt8 => p.1.toNat * 256 + p.2.toNat)
      (fun p => lastPut PutCall.logEvents calls (t, p.1, p.2)) l
  votes : ∀ t, OrderedScan.Enumerates UInt16.toNat
    (fun i => lastPut PutCall.tickVotes calls (t, i)) (s.getVotesForTick t)
  assets_increasing : ∀ e, (s.getAssetsForEntity e).Pairwise (· < ·)
  mem_assets_iff : ∀ e a, a ∈ s.getAssetsForEntity e ↔ PutCall.putEntityAsset e a ∈ calls
  customMessages_count : ∀ t,
    s.countCustomMessagesForTick t = (s.getCustomMessagesForTick t).length
  votes_count : ∀ t, s.countVotesForTick t = (s.getVotesForTick t).length
  /-- The listing of an entity's transactions is cut at a limit, the count is not. -/
  entity_count : ∀ e, ∃ hashes : List Key32,
    (∀ limit, s.getTxHashesForEntity e limit = .ok (hashes.take limit)) ∧
    s.countEntityTransactions e = hashes.length
  holders : ∀ a, ∃ es, s.getHoldersForAsset a = .ok es ∧ ∀ e, e ∈ es ↔ a ∈ s.getAssetsForEntity e

/-- A family whose values are not encoded holds what was put there. -/
theorem view_perform_id {A : Type} [DecidableEq A] {entries : PutCall → List (A × Bytes)} {cf : Cf}
    {key : A → Bytes} (h : PutCall.Records entries cf key id) (calls : List PutCall) (a : A) :
    (empty.perform calls).view (cf, key a) = lastPut entries calls a := by
  rw [h.view_perform, Option.map_id_fun, id]

/-- The listing of a tick, as hashes. -/
theorem getTxHashesForTick_enumerates (calls : List PutCall) (t : UInt32) :
    ∃ l, (empty.perform calls).getTxHashesForTick t = .ok (l.map Prod.snd) ∧
      OrderedScan.Enumerates UInt32.toNat (fun i => lastPut PutCall.txsForTick calls (t, i)) l := by
  obtain ⟨hashes, l, hok, hl, hval⟩ := (scansExact (empty.perform calls)).txHashes t
  have hentries := hl.congr (fun i => PutCall.records_txsForTick.view_perform calls (t, i))
  -- the values are the bytes of the hashes, and are read back
  refine ⟨_, ?_, hentries.map_value keyOf_toList⟩
  rw [hok, eq_map_keyOf hval, List.map_map, List.map_map]
  rfl

/-- The assets of an entity are those it was wired to. -/
theorem mem_getAssetsForEntity_iff (calls : List PutCall) (e : Key32) (a : UInt32) :
    a ∈ (empty.perform calls).getAssetsForEntity e ↔ PutCall.putEntityAsset e a ∈ calls := by
  rw [(scansExact (empty.perform calls)).mem_assets_iff,
    PutCall.records_entityAssets.view_perform calls (e, a), Option.isSome_map, lastPut,
    WriteLog.isSome_last_iff]
  constructor
  · rintro ⟨u, hu⟩
    obtain ⟨call, hcall, hmem⟩ := List.mem_flatMap.mp hu
    cases call with
    | putEntityAsset entity assetIndex =>
      cases List.mem_singleton.mp hmem
      exact hcall
    | _ => cases hmem
  · intro hcall
    exact ⟨(), List.mem_flatMap.mpr ⟨_, hcall, List.mem_singleton_self _⟩⟩

/-- **The forward scans are exact and ordered** after any run of the writers. -/
theorem forward_scans_exact (calls : List PutCall) :
    ForwardScansExact (empty.perform calls) calls := by
  have h := scansExact (empty.perform calls)
  refine ⟨fun fromTick toTick => (h.tickRange fromTick toTick).congr (fun t => ?_),
    h.tickRange_empty, getTxHashesForTick_enumerates calls, fun t => ?_, fun t => ?_,
    fun t => (h.votes t).congr (fun i => ?_), h.assets_increasing,
    mem_getAssetsForEntity_iff calls, h.customMessages_count, h.votes_count, h.entity_count,
    h.holders⟩
  · show (if _ then (empty.perform calls).view (.tick, t.toBeBytes) else none) = _
    rw [view_perform_id PutCall.records_ticks]
  · obtain ⟨l, hl, hval⟩ := h.customMessages t
    refine ⟨l, hval, hl.congr (fun i => ?_)⟩
    exact view_perform_id PutCall.records_customMessages calls (t, i)
  · obtain ⟨l, hl, hval⟩ := h.logEvents t
    refine ⟨l, hval, hl.congr (fun p => ?_)⟩
    exact view_perform_id PutCall.records_logEvents calls (t, p.1, p.2)
  · exact view_perform_id PutCall.records_tickVotes calls (t, i)

end WarmStorage

end Qonduit

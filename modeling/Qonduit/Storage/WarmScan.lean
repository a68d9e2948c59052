import Qonduit.Storage.Warm

/-!
# Qonduit — what the scans of the warm tier return

A `get_*` loop seeks to a key stem and breaks at the first key that does not belong. Because
every key of a family has the family's length, the loop visits exactly the entries under the
stem:

* **`scanUnder_eq_select`**, **`seekBack_eq_select`** — the forward and the reverse loop.
* **`getTxHashesForTick_ok`**, **`getTxHashesForEntity_ok`** — the listings return (their
  `copy_from_slice` meets 32-byte values only), with the values of the slots
  `tick || index` and `entity || tick || index`.
-/

namespace Qonduit

namespace WarmStorage

def isUnder (keyLen : Nat) (stem k : Bytes) : Bool :=
  k.length == keyLen && k.take stem.length == stem

/-- A key is under a stem if it has the full length and begins with it. -/
theorem isUnder_iff {keyLen : Nat} {stem k : Bytes} :
    isUnder keyLen stem k ↔ k.length = keyLen ∧ ∃ rest, k = stem ++ rest := by
  simp only [isUnder, Bool.and_eq_true, beq_iff_eq, and_congr_right_iff]
  intro _
  constructor
  · intro h
    exact ⟨k.drop stem.length, by nth_rewrite 1 [← h]; rw [List.take_append_drop]⟩
  · rintro ⟨rest, rfl⟩
    simp

/-! ## The two loops

The forward loop seeks the stem and stops at the first key that does not begin with it. The reverse
loop seeks the stem followed by `0xFF` bytes and stops likewise. Over keys of one length both visit
what is under the stem, one way and the other. -/

theorem compare_self_bytes (a : Bytes) : compare a a = .eq := Std.ReflCmp.compare_self

/-- The last string of a given length is the one of `0xFF` bytes. -/
theorem compare_replicate_ne_gt (l : Bytes) :
    compare l (List.replicate l.length 0xFF) ≠ .gt := by
  induction l with
  | nil => decide
  | cons b l ih =>
    have hcons : compare (b :: l) (0xFF :: List.replicate l.length 0xFF)
        = (compare b 0xFF).then (compare l (List.replicate l.length 0xFF)) :=
      List.compareLex_cons_cons
    have hb : compare b 0xFF ≠ .gt := by
      have hle : b.toNat ≤ 255 := Nat.lt_succ_iff.mp b.toNat_lt
      simp only [compare, compareOfLessAndEq, UInt8.lt_iff_toNat_lt, ← UInt8.toNat_inj]
      rw [show (0xFF : UInt8).toNat = 255 from rfl]
      rcases Nat.lt_or_eq_of_le hle with h | h <;> simp [h]
    rw [List.length_cons, List.replicate_succ, hcons]
    cases hc : compare b 0xFF with
    | lt => simp
    | eq => simpa using ih
    | gt => exact absurd hc hb

/-- Comparing a key with one under a stem: first the heads, then what follows them. -/
theorem compare_append_right {stem x : Bytes} (h : stem.length ≤ x.length) (t : Bytes) :
    compare x (stem ++ t)
      = (compare (x.take stem.length) stem).then (compare (x.drop stem.length) t) := by
  rw [← Positional.compare_append_of_length_eq (List.length_take_of_le h), List.take_append_drop]

/-- A key of full length that is neither below a stem nor above a key under it is under it: keys
with one beginning stand together. -/
theorem isUnder_of_between {keyLen : Nat} {stem pad x y : Bytes} (hx : x.length = keyLen)
    (hlow : compare x (stem ++ pad) ≠ .lt) (hxy : compare x y = .lt)
    (hy : isUnder keyLen stem y) : isUnder keyLen stem x := by
  obtain ⟨hylen, rest, rfl⟩ := isUnder_iff.mp hy
  have hle : stem.length ≤ x.length := by
    rw [List.length_append] at hylen
    omega
  -- the head of `x` is neither below the stem nor above it
  rw [compare_append_right hle] at hlow hxy
  cases hc : compare (x.take stem.length) stem with
  | lt => simp [hc] at hlow
  | gt => simp [hc] at hxy
  | eq => simpa [isUnder, hx] using Std.LawfulEqCmp.eq_of_compare hc

/-- Over keys of one length the forward loop visits exactly the entries under its stem. -/
theorem scanUnder_eq_select {f : Family} {keyLen : Nat} (hlen : ∀ k ∈ f, k.length = keyLen)
    (stem : Bytes) :
    scanUnder f keyLen stem = OrderedScan.select f (isUnder keyLen stem) := by
  refine OrderedScan.seek_takeWhile f stem (isUnder keyLen stem) ?_ ?_
  · -- a key under the stem is not below it
    intro x _ hx
    obtain ⟨-, rest, rfl⟩ := isUnder_iff.mp hx
    have h : compare (stem ++ rest) (stem ++ []) = compare rest [] := by
      rw [Positional.compare_append_of_length_eq rfl, compare_self_bytes]; rfl
    rw [List.append_nil] at h
    rw [h]
    cases rest <;> simp [compare, List.compareLex]
  · intro x hx y _ hxk hxy hyp
    rw [← List.append_nil stem] at hxk
    exact isUnder_of_between (hlen x hx) hxk hxy hyp

/-- Over keys of one length the reverse loop from `stem || 0xFF…` visits exactly the entries
under its stem, greatest key first. -/
theorem seekBack_eq_select {f : Family} {n : Nat} (stem : Bytes)
    (hlen : ∀ k ∈ f, k.length = stem.length + n) :
    (OrderedScan.seekBack f (stem ++ List.replicate n 0xFF)).takeWhile
        (fun e => e.1.length == stem.length + n && e.1.take stem.length == stem)
      = (OrderedScan.select f (isUnder (stem.length + n) stem)).reverse := by
  refine OrderedScan.seekBack_takeWhile f _ (isUnder (stem.length + n) stem) ?_ ?_
  · -- no key under the stem is above the one that continues it with `0xFF`
    intro x _ hx
    obtain ⟨hxlen, rest, rfl⟩ := isUnder_iff.mp hx
    have hrest : rest.length = n := by simpa using hxlen
    rw [Positional.compare_append_of_length_eq rfl, compare_self_bytes, ← hrest]
    exact compare_replicate_ne_gt rest
  · intro x hx y hy hxk hxy hyp
    obtain ⟨hylen, rest, rfl⟩ := isUnder_iff.mp hyp
    have hxlen := hlen x hx
    have hle : stem.length ≤ x.length := by omega
    rw [compare_append_right hle] at hxk hxy
    cases hc : compare (x.take stem.length) stem with
    | lt => simp [hc] at hxy
    | gt => simp [hc] at hxk
    | eq => simpa [isUnder, hxlen] using Std.LawfulEqCmp.eq_of_compare hc

/-- All keys of a family have one length, which the two loops rely on. -/
theorem length_of_mem (s : WarmStorage) {cf : Cf} {n : Nat} (hn : cf.keyLength = some n) :
    ∀ k ∈ s.db cf, k.length = n := by
  intro k hk
  obtain ⟨v, hv⟩ := Option.isSome_iff_exists.mp (Std.ExtTreeMap.mem_iff_isSome_getElem?.mp hk)
  exact s.keyLength_of_view hv hn

/-! ## Slots

A key of eight or forty bytes spells a tick and an index, behind an entity in the second case.
Different slots have different keys, and every key under a stem is that of a slot. -/

/-- A key determines its tick and its index. -/
theorem tickIndexKey_inj {t t' i i' : UInt32} :
    tickIndexKey t i = tickIndexKey t' i' ↔ t = t' ∧ i = i' := by
  constructor
  · intro h
    obtain ⟨h₁, h₂⟩ := List.append_inj h (by simp)
    exact ⟨UInt32.toBeBytes_inj.mp h₁, UInt32.toBeBytes_inj.mp h₂⟩
  · rintro ⟨rfl, rfl⟩
    rfl

/-- A longer key determines its entity, tick and index, all three of fixed width. -/
theorem entityTickIndexKey_inj {e e' : Key32} {t t' i i' : UInt32} :
    entityTickIndexKey e t i = entityTickIndexKey e' t' i' ↔ e = e' ∧ t = t' ∧ i = i' := by
  constructor
  · intro h
    obtain ⟨h₁, h₂⟩ := List.append_inj h (by simp)
    exact ⟨List.Vector.eq _ _ h₁, tickIndexKey_inj.mp h₂⟩
  · rintro ⟨rfl, rfl, rfl⟩
    rfl

/-- For one entity the slots are numbered by tick and index. -/
theorem entityTickIndexKey_injective (e : Key32) :
    Function.Injective (fun p : UInt32 × UInt32 => entityTickIndexKey e p.1 p.2) := by
  intro p q h
  obtain ⟨-, h₁, h₂⟩ := entityTickIndexKey_inj.mp h
  exact Prod.ext h₁ h₂

/-- Four bytes are always those of a number. -/
theorem exists_toBeBytes (bs : Bytes) (h : bs.length = 4) : ∃ n : UInt32, bs = n.toBeBytes :=
  ⟨UInt32.fromBeBytes bs, (UInt32.toBeBytes_fromBeBytes h).symm⟩

/-- Eight bytes are always those of a slot. -/
theorem exists_tickIndexKey (bs : Bytes) (h : bs.length = 8) :
    ∃ t i : UInt32, bs = tickIndexKey t i := by
  obtain ⟨t, ht⟩ := exists_toBeBytes (bs.take 4) (by simp [h])
  obtain ⟨i, hi⟩ := exists_toBeBytes (bs.drop 4) (by simp [h])
  exact ⟨t, i, by rw [tickIndexKey, ← ht, ← hi, List.take_append_drop]⟩

/-- The eight-byte keys under a tick are its slots. -/
theorem isUnder_tick_iff {t : UInt32} {k : Bytes} :
    isUnder 8 t.toBeBytes k ↔ ∃ i : UInt32, k = tickIndexKey t i := by
  rw [isUnder_iff]
  constructor
  · rintro ⟨hlen, rest, rfl⟩
    obtain ⟨i, rfl⟩ := exists_toBeBytes rest (by simp at hlen; omega)
    exact ⟨i, rfl⟩
  · rintro ⟨i, rfl⟩
    exact ⟨by simp, i.toBeBytes, rfl⟩

/-- The forty-byte keys under an entity are its slots. -/
theorem isUnder_entity_iff {e : Key32} {k : Bytes} :
    isUnder 40 e.toList k ↔
      ∃ p : UInt32 × UInt32, k = entityTickIndexKey e p.1 p.2 := by
  rw [isUnder_iff]
  constructor
  · rintro ⟨hlen, rest, rfl⟩
    obtain ⟨t, i, rfl⟩ := exists_tickIndexKey rest (by simp at hlen; omega)
    exact ⟨(t, i), rfl⟩
  · rintro ⟨⟨t, i⟩, rfl⟩
    exact ⟨by simp, tickIndexKey t i, rfl⟩

/-! ## Listings

What the getters of hashes do with the rows they visit: each value is copied into a key of 32 bytes,
which would panic at another length. The families store no other. -/

/-- `hs` lists the hashes held in the slots, one for each slot that holds one. -/
structure Lists {I : Type} (slot : I → Option Bytes) (hs : List Key32) : Prop where
  mem_iff : ∀ h : Key32, h ∈ hs ↔ ∃ i, slot i = some h.toList
  nodup_iff : hs.Nodup ↔
    ∀ i j (h : Key32), slot i = some h.toList → slot j = some h.toList → i = j
  count_eq_one_iff : ∀ h : Key32, hs.count h = 1 ↔ ∃! i, slot i = some h.toList

def tickSlot (s : WarmStorage) (t i : UInt32) : Option Bytes :=
  s.view (.txByTick, tickIndexKey t i)

def entitySlot (s : WarmStorage) (e : Key32) (p : UInt32 × UInt32) : Option Bytes :=
  s.view (.txByEntity, entityTickIndexKey e p.1 p.2)

/-- A listing loop over 32-byte values does not panic and copies every value. -/
theorem mapM_copyFromSlice {l : List (Bytes × Bytes)} (h : ∀ e ∈ l, e.2.length = 32) :
    ∃ hs : List Key32, l.mapM (fun e => copyFromSlice e.2) = .ok hs ∧
      hs.map List.Vector.toList = l.map Prod.snd := by
  induction l with
  | nil => exact ⟨[], rfl, rfl⟩
  | cons e l ih =>
    obtain ⟨hs, hok, hval⟩ := ih (fun x hx => h x (by simp [hx]))
    obtain ⟨k, hk⟩ : ∃ k : Key32, k.toList = e.2 := ⟨⟨e.2, h e (by simp)⟩, rfl⟩
    refine ⟨k :: hs, ?_, by rw [List.map_cons, List.map_cons, hval, hk]⟩
    rw [List.mapM_cons, ← hk, copyFromSlice_toList, hok]
    rfl

/-- Copied values are the keys that the copied bytes spell. -/
theorem eq_map_keyOf {hashes : List Key32} {values : List Bytes}
    (h : hashes.map List.Vector.toList = values) : hashes = values.map keyOf := by
  rw [← h, List.map_map]
  refine (List.map_id hashes).symm.trans (List.map_congr_left (fun hash _ => ?_))
  exact (keyOf_toList hash).symm

theorem toList_injective : Function.Injective (List.Vector.toList : Key32 → Bytes) :=
  fun a b => List.Vector.eq a b

/-- The copied values of the entries under a stem, in any order, list its slots. -/
theorem lists_of_select {I : Type} {f : Family} {p : Bytes → Bool} {mk : I → Bytes}
    (hinj : Function.Injective mk) (hp : ∀ k, p k ↔ ∃ i, k = mk i) {hs : List Key32}
    (hval : (hs.map List.Vector.toList).Perm ((OrderedScan.select f p).map Prod.snd)) :
    Lists (fun i => f[mk i]?) hs := by
  have hmk : ∀ i, p (mk i) := fun i => (hp _).mpr ⟨i, rfl⟩
  have hmem : ∀ v, v ∈ (OrderedScan.select f p).map Prod.snd ↔ ∃ i, f[mk i]? = some v :=
    fun v => OrderedScan.mem_values_select_iff (fun k _ => hp k) hmk
  refine ⟨fun h => ?_, ?_, fun h => ?_⟩
  · rw [← List.mem_map_of_injective toList_injective, hval.mem_iff, hmem]
  · rw [← List.nodup_map_iff toList_injective, hval.nodup_iff,
      OrderedScan.nodup_values_select_iff (m := f) hinj (fun k _ => hp k) hmk]
    refine ⟨fun h i j x => h i j x.toList, fun h i j v hi hj => ?_⟩
    -- a value the scan yields is one of the copied keys
    obtain ⟨x, -, rfl⟩ := List.mem_map.mp (hval.mem_iff.mpr ((hmem v).mpr ⟨i, hi⟩))
    exact h i j x hi hj
  · rw [← List.count_map_of_injective hs _ toList_injective h, hval.count_eq]
    exact OrderedScan.count_values_select_eq_one_iff (m := f) hinj (fun k _ => hp k) hmk h.toList

/-- What a scan finds has the value length of the family. -/
theorem valueLength_of_mem_scanUnder (s : WarmStorage) {cf : Cf} {n m : Nat} {stem : Bytes}
    (hkey : cf.keyLength = some n) (hvalue : cf.valueLength = some m) :
    ∀ e ∈ scanUnder (s.db cf) n stem, e.2.length = m := by
  rintro ⟨k, v⟩ he
  rw [scanUnder_eq_select (s.length_of_mem hkey)] at he
  exact s.valueLength_of_view (OrderedScan.mem_select.mp he).1 hvalue

/-- The loop of `get_tx_hashes_for_entity` is the forward scan of the entity backwards. -/
theorem getTxHashesForEntity_eq (s : WarmStorage) (e : Key32) (limit : Nat) :
    s.getTxHashesForEntity e limit
      = ((scanUnder (s.db .txByEntity) 40 e.toList).reverse.take limit).mapM
          (fun x => copyFromSlice x.2) := by
  have hkeys : ∀ k ∈ s.db .txByEntity, k.length = 40 := s.length_of_mem rfl
  have hback := seekBack_eq_select (f := s.db .txByEntity) (n := 8) e.toList
    (by simpa using hkeys)
  rw [e.toList_length] at hback
  rw [getTxHashesForEntity, hback, scanUnder_eq_select hkeys]

/-- **`get_tx_hashes_for_tick` returns**, listing the slots of the tick. -/
theorem getTxHashesForTick_ok (s : WarmStorage) (t : UInt32) :
    ∃ hs, s.getTxHashesForTick t = .ok hs ∧ Lists (s.tickSlot t) hs := by
  have hkeys : ∀ k ∈ s.db .txByTick, k.length = 8 := s.length_of_mem rfl
  have hlen : ∀ x ∈ scanUnder (s.db .txByTick) 8 t.toBeBytes, x.2.length = 32 :=
    s.valueLength_of_mem_scanUnder rfl rfl
  obtain ⟨hs, hok, hval⟩ := mapM_copyFromSlice hlen
  rw [scanUnder_eq_select hkeys] at hval
  refine ⟨hs, hok, ?_⟩
  exact lists_of_select (fun i j h => (tickIndexKey_inj.mp h).2) (fun k => isUnder_tick_iff)
    (List.Perm.of_eq hval)

/-- **`get_tx_hashes_for_entity` returns**: there is one list of the entity's slots of which
every limit gives an initial part, and `count_entity_transactions` is its length. -/
theorem getTxHashesForEntity_ok (s : WarmStorage) (e : Key32) :
    ∃ hs, (∀ limit, s.getTxHashesForEntity e limit = .ok (hs.take limit)) ∧
      Lists (s.entitySlot e) hs ∧ s.countEntityTransactions e = hs.length := by
  have hkeys : ∀ k ∈ s.db .txByEntity, k.length = 40 := s.length_of_mem rfl
  have hlen : ∀ x ∈ (scanUnder (s.db .txByEntity) 40 e.toList).reverse, x.2.length = 32 :=
    fun x hx => s.valueLength_of_mem_scanUnder rfl rfl x (List.mem_reverse.mp hx)
  obtain ⟨hs, -, hval⟩ := mapM_copyFromSlice hlen
  refine ⟨hs, fun limit => ?_, ?_, ?_⟩
  · -- the loop stops at the limit, so it copies an initial part of the values
    obtain ⟨hs', hok', hval'⟩ :=
      mapM_copyFromSlice (fun x hx => hlen x (List.mem_of_mem_take (i := limit) hx))
    rw [getTxHashesForEntity_eq, hok']
    rw [List.map_take, ← hval, ← List.map_take] at hval'
    rw [List.map_injective_iff.mpr toList_injective hval']
  · refine lists_of_select (f := s.db .txByEntity) (entityTickIndexKey_injective e)
      (fun k => isUnder_entity_iff) ?_
    rw [hval, List.map_reverse, scanUnder_eq_select hkeys]
    exact List.reverse_perm _
  · rw [countEntityTransactions, ← List.length_map List.Vector.toList, hval, List.length_map,
      List.length_reverse]

/-! ## Custom messages

The messages of a tick are numbered from 0 on, as each is put at the count of those before. A scan
under the tick lists what is stored at the numbers in order. -/

def messageSlot (s : WarmStorage) (t : UInt32) (i : Nat) : Option Bytes :=
  s.view (.customMessage, tickIndexKey t (UInt32.ofNat i))

/-- Keys of one tick compare as their indices. -/
theorem compare_tickIndexKey_lt {t : UInt32} {i j : Nat} (hij : i < j) (hj : j < 2 ^ 32) :
    compare (tickIndexKey t (UInt32.ofNat i)) (tickIndexKey t (UInt32.ofNat j)) = .lt := by
  rw [tickIndexKey, tickIndexKey, Positional.compare_append_of_length_eq rfl, compare_self_bytes,
    Ordering.then, UInt32.compare_toBeBytes, UInt32.toNat_ofNat_of_lt' (Nat.lt_trans hij hj),
    UInt32.toNat_ofNat_of_lt' hj]
  exact Nat.compare_eq_lt.mpr hij

/-- The entries under a tick, by index. Looking up the indices one after the other gives the same
list as the scan, as the keys of one tick compare as their indices. -/
theorem scanUnder_customMessage (s : WarmStorage) (t : UInt32) :
    scanUnder (s.db .customMessage) 8 t.toBeBytes
      = (List.range (2 ^ 32)).filterMap (fun i =>
          (s.messageSlot t i).map (fun v => (tickIndexKey t (UInt32.ofNat i), v))) := by
  have hkeys : ∀ k ∈ s.db .customMessage, k.length = 8 := s.length_of_mem rfl
  rw [scanUnder_eq_select hkeys]
  refine OrderedScan.select_eq_of_pairwise ?_ ?_
  · -- the keys increase with the index
    rw [List.pairwise_filterMap]
    refine List.pairwise_lt_range.imp_of_mem ?_
    intro i j _ hj hij a ha b hb
    obtain ⟨_, -, rfl⟩ := Option.map_eq_some_iff.mp ha
    obtain ⟨_, -, rfl⟩ := Option.map_eq_some_iff.mp hb
    exact compare_tickIndexKey_lt hij (List.mem_range.mp hj)
  · intro k v
    rw [List.mem_filterMap, isUnder_tick_iff]
    constructor
    · rintro ⟨i, -, h⟩
      obtain ⟨u, hu, heq⟩ := Option.map_eq_some_iff.mp h
      cases heq
      exact ⟨hu, _, rfl⟩
    · rintro ⟨hv, i, rfl⟩
      refine ⟨i.toNat, List.mem_range.mpr i.toNat_lt, ?_⟩
      rw [messageSlot, UInt32.ofNat_toNat]
      exact Option.map_eq_some_iff.mpr ⟨v, hv, rfl⟩

/-- The listing of a tick, number by number. -/
theorem getCustomMessagesForTick_eq (s : WarmStorage) (t : UInt32) :
    s.getCustomMessagesForTick t = (List.range (2 ^ 32)).filterMap (s.messageSlot t) := by
  rw [getCustomMessagesForTick, scanUnder_customMessage, List.map_filterMap]
  congr 1
  funext i
  cases s.messageSlot t i <;> rfl

/-- The count is the length of the listing, as both run over the same rows. -/
theorem countCustomMessagesForTick_eq (s : WarmStorage) (t : UInt32) :
    s.countCustomMessagesForTick t = (s.getCustomMessagesForTick t).length := by
  rw [countCustomMessagesForTick, getCustomMessagesForTick, List.length_map]

end WarmStorage

end Qonduit

import Qonduit.Core.Basic
import Qonduit.Lib.Recency

/-!
# Qonduit — the hot tier

`hot.rs`: the current tick and epoch, the computors of an epoch, and two caches of the ticks and
entities put last, with a capacity each. A cache is a hash map; the order in which it hands out its
entries is input, and so is the clock.

* **`CacheMap.entries_put`**, **`CacheMap.entries_evictStale`** — a cache that holds the beginning
  of a table without a bound does so after a put and after an eviction by age.
-/

namespace Qonduit

/-- `CachedTick` and `CachedEntity`. -/
structure Cached where
  data : Bytes
  cachedAt : Instant
  deriving DecidableEq

abbrev CacheMap (κ : Type) := Recency.Table κ Cached

namespace CacheMap

variable {κ : Type} [DecidableEq κ]

def get (cache : CacheMap κ) (key : κ) : Option Bytes := (cache.lookup key).map (·.data)

/-- `min_by_key(|(_, v)| v.cached_at)`: the first of the entries with the least time. -/
def oldestKey (iter : IterOrder (Σ _ : κ, Cached)) (cache : CacheMap κ) : Option κ :=
  ((iter.order cache.entries).argmin (fun entry => entry.2.cachedAt)).map Sigma.fst

/-- A new key in a full cache takes the place of the oldest. -/
def put (iter : IterOrder (Σ _ : κ, Cached)) (max : Nat) (now : Instant) (key : κ) (data : Bytes)
    (cache : CacheMap κ) : CacheMap κ :=
  let cache :=
    if cache.entries.length ≥ max ∧ key ∉ cache then
      match oldestKey iter cache with
      | some oldest => cache.erase oldest
      | none => cache
    else cache
  cache.insert key { data, cachedAt := now }

/-- `retain`. -/
def retain (keep : Cached → Bool) (cache : CacheMap κ) : CacheMap κ where
  entries := cache.entries.filter (fun entry => keep entry.2)
  nodupKeys := cache.nodupKeys.sublist List.filter_sublist

def evictStale (now : Instant) (maxAge : Nat) (cache : CacheMap κ) : CacheMap κ :=
  cache.retain (fun entry => now - entry.cachedAt < maxAge)

end CacheMap

structure HotCache where
  currentTick : Option UInt32 := none
  currentEpoch : Option UInt16 := none
  tickCache : CacheMap UInt32 := ∅
  entityCache : CacheMap Key32 := ∅
  /-- An epoch and its computors. -/
  computorsCache : Option (UInt16 × Bytes) := none
  maxTicks : Nat
  maxEntities : Nat

namespace HotCache

def new (maxTicks maxEntities : Nat) : HotCache := { maxTicks, maxEntities }

def getCurrentTick (cache : HotCache) : Option UInt32 := cache.currentTick

def setCurrentTick (tick : UInt32) (cache : HotCache) : HotCache :=
  { cache with currentTick := some tick }

def getCurrentEpoch (cache : HotCache) : Option UInt16 := cache.currentEpoch

def setCurrentEpoch (epoch : UInt16) (cache : HotCache) : HotCache :=
  { cache with currentEpoch := some epoch }

def getTick (cache : HotCache) (tick : UInt32) : Option Bytes := cache.tickCache.get tick

def putTick (iter : IterOrder (Σ _ : UInt32, Cached)) (now : Instant) (tick : UInt32)
    (data : Bytes) (cache : HotCache) : HotCache :=
  { cache with tickCache := cache.tickCache.put iter cache.maxTicks now tick data }

def getEntity (cache : HotCache) (identity : Key32) : Option Bytes :=
  cache.entityCache.get identity

def putEntity (iter : IterOrder (Σ _ : Key32, Cached)) (now : Instant) (identity : Key32)
    (data : Bytes) (cache : HotCache) : HotCache :=
  { cache with entityCache := cache.entityCache.put iter cache.maxEntities now identity data }

def getComputors (cache : HotCache) : Option (UInt16 × Bytes) := cache.computorsCache

def putComputors (epoch : UInt16) (data : Bytes) (cache : HotCache) : HotCache :=
  { cache with computorsCache := some (epoch, data) }

def evictStale (now : Instant) (maxAge : Nat) (cache : HotCache) : HotCache :=
  { cache with
    tickCache := cache.tickCache.evictStale now maxAge
    entityCache := cache.entityCache.evictStale now maxAge }

end HotCache

/-! ## One call

A cache is compared with a table without a bound, the newest entry first. The cache holds a
beginning of it: a put evicts the entry with the least time, which is the last one, and an eviction
by age drops what stands behind the first stale entry. -/

namespace CacheMap

open Recency

variable {κ : Type} [DecidableEq κ] {cache table : CacheMap κ} {max : Nat}

omit [DecidableEq κ] in
/-- The oldest entry is the one put first, in whatever order the map is traversed. `min_by_key`
takes the first of several least entries, but with strictly increasing times there is one. -/
theorem oldestKey_eq (h : NewestFirst Cached.cachedAt cache.entries)
    (iter : IterOrder (Σ _ : κ, Cached)) :
    oldestKey iter cache = cache.entries.getLast?.map Sigma.fst := by
  rw [oldestKey, argmin_of_newestFirst Cached.cachedAt h (iter.perm cache.entries)]

/-- Evicting the oldest entry leaves those in front of it, since it is the last of them. -/
theorem entries_erase_oldest (h : NewestFirst Cached.cachedAt cache.entries)
    (iter : IterOrder (Σ _ : κ, Cached)) {oldest : κ}
    (holdest : oldestKey iter cache = some oldest) :
    (cache.erase oldest).entries = cache.entries.dropLast := by
  rw [oldestKey_eq h] at holdest
  obtain ⟨e, he, rfl⟩ := Option.map_eq_some_iff.mp holdest
  obtain ⟨init, hinit⟩ := List.getLast?_eq_some_iff.mp he
  have hnodup := cache.nodupKeys
  rw [hinit] at hnodup
  show cache.entries.kerase e.1 = _
  rw [hinit, kerase_last hnodup, List.dropLast_concat]

/-- **One put.** A cache that holds the beginning of a table does so after the put. There are three
cases: the key is there already, there is room, or the oldest entry has to go. -/
theorem entries_put (hmax : 1 ≤ max) (h : NewestFirst Cached.cachedAt table.entries)
    (hcache : cache.entries = table.entries.take max) (iter : IterOrder (Σ _ : κ, Cached))
    (now : Instant) (key : κ) (data : Bytes) :
    (cache.put iter max now key data).entries
      = (table.insert key { data, cachedAt := now }).entries.take max := by
  obtain ⟨n, rfl⟩ : ∃ n, max = n + 1 := ⟨max - 1, by omega⟩
  have hnewest : NewestFirst Cached.cachedAt cache.entries := by
    rw [hcache]
    exact h.sublist (List.take_sublist _ _)
  have hlen : cache.entries.length ≤ n + 1 := by
    rw [hcache]
    exact List.length_take_le _ _
  -- behind the new entry, `n` entries of the old cache without the key
  have hrest : (table.insert key { data, cachedAt := now }).entries.take (n + 1)
      = ⟨key, { data, cachedAt := now }⟩ :: (cache.entries.kerase key).take n := by
    rw [AList.entries_insert, List.take_succ_cons, hcache, take_kerase]
  rw [hrest, put]
  by_cases hfull : cache.entries.length ≥ n + 1 ∧ key ∉ cache
  · rw [if_pos hfull]
    have hkerase : cache.entries.kerase key = cache.entries := List.kerase_of_notMem_keys hfull.2
    cases holdest : oldestKey iter cache with
    | none =>
      -- a full cache has an oldest entry
      rw [oldestKey_eq hnewest, Option.map_eq_none_iff, List.getLast?_eq_none_iff] at holdest
      rw [holdest] at hfull
      exact absurd hfull.1 (Nat.not_succ_le_zero n)
    | some oldest =>
      have hdrop := entries_erase_oldest hnewest iter holdest
      have hnew : key ∉ cache.erase oldest := fun hmem => hfull.2 (AList.mem_erase.mp hmem).2
      rw [AList.entries_insert_of_notMem hnew, hdrop, hkerase, List.dropLast_eq_take,
        show cache.entries.length - 1 = n from by omega]
  · rw [if_neg hfull, AList.entries_insert, List.take_of_length_le]
    -- there is room, or the key makes some
    have hlength : (cache.entries.kerase key).length = (cache.keys.erase key).length := by
      rw [← AList.keys_erase]
      exact (List.length_map Sigma.fst).symm
    have hkeys : cache.keys.length = cache.entries.length := List.length_map Sigma.fst
    rw [hlength]
    by_cases hmem : key ∈ cache
    · have herase := List.length_erase_of_mem (AList.mem_keys.mp hmem)
      omega
    · have hroom : cache.entries.length ≤ n := by
        by_contra hgt
        exact hfull ⟨by omega, hmem⟩
      have herase : (cache.keys.erase key).length ≤ cache.keys.length := List.length_erase_le
      omega

/-- A stamp after all those before leaves the newest entry in front. -/
theorem newestFirst_insert (h : NewestFirst Cached.cachedAt table.entries) {now : Instant}
    (hnow : ∀ e ∈ table.entries, e.2.cachedAt < now) (key : κ) (data : Bytes) :
    NewestFirst Cached.cachedAt (table.insert key { data, cachedAt := now }).entries := by
  rw [AList.entries_insert]
  refine List.Pairwise.cons (fun e he => ?_) (h.sublist (List.kerase_sublist key _))
  exact hnow e ((List.kerase_sublist key _).subset he)

omit [DecidableEq κ] in

/-- Dropping entries keeps the rest in the order of their times. -/
theorem newestFirst_evictStale (h : NewestFirst Cached.cachedAt table.entries) (now : Instant)
    (maxAge : Nat) : NewestFirst Cached.cachedAt (table.evictStale now maxAge).entries :=
  h.sublist List.filter_sublist

omit [DecidableEq κ] in
/-- **One eviction by age.** What follows a stale entry is stale, so the cache still holds the
beginning of the table. -/
theorem entries_evictStale (h : NewestFirst Cached.cachedAt table.entries)
    (hcache : cache.entries = table.entries.take max) (now : Instant) (maxAge : Nat) :
    (cache.evictStale now maxAge).entries = (table.evictStale now maxAge).entries.take max := by
  show cache.entries.filter _ = (table.entries.filter _).take max
  rw [hcache]
  refine filter_take (h.imp fun {a b} hlt hfresh => ?_) max
  rw [decide_eq_true_iff] at hfresh ⊢
  exact Nat.lt_of_le_of_lt (Nat.sub_le_sub_left (Nat.le_of_lt hlt) now) hfresh

end CacheMap

end Qonduit

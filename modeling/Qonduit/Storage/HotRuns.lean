import Qonduit.Storage.Hot

/-!
# Qonduit — runs of the hot tier

Any sequence of calls, each at a time of the monotone clock. Beside each cache runs the table that
never evicts for want of room.

* **`CacheMap.entries_run`** — the cache holds the beginning of that table, over any run.
* **`CacheMap.unbounded_eq_build`** — without eviction by age the table holds every key put, the
  latest first.
* **`HotCache.slots_run`** — what was set last is what is read.
* **`HotCache.hot_caches_recent`** — so the cache holds the keys put last.
-/

namespace Qonduit

open Recency

/-- A call that changes a cache. -/
inductive CacheOp (κ : Type) where
  | put (iter : IterOrder (Σ _ : κ, Cached)) (key : κ) (data : Bytes)
  | evictStale (maxAge : Nat)

def CacheOp.evicts {κ : Type} : CacheOp κ → Bool
  | .evictStale _ => true
  | .put _ _ _ => false

namespace CacheMap

variable {κ : Type} [DecidableEq κ] {max : Nat}

def apply (max : Nat) (cache : CacheMap κ) : Instant × CacheOp κ → CacheMap κ
  | (now, .put iter key data) => cache.put iter max now key data
  | (now, .evictStale maxAge) => cache.evictStale now maxAge

def run (max : Nat) (ops : List (Instant × CacheOp κ)) : CacheMap κ := ops.foldl (apply max) ∅

/-- The same call on a table that has room for everything. -/
def applyUnbounded (table : CacheMap κ) : Instant × CacheOp κ → CacheMap κ
  | (now, .put _ key data) => table.insert key { data, cachedAt := now }
  | (now, .evictStale maxAge) => table.evictStale now maxAge

def unbounded (ops : List (Instant × CacheOp κ)) : CacheMap κ := ops.foldl applyUnbounded ∅

def put? : Instant × CacheOp κ → Option (κ × Cached)
  | (now, .put _ key data) => some (key, { data, cachedAt := now })
  | (_, .evictStale _) => none

/-- What was put, in order. -/
def puts (ops : List (Instant × CacheOp κ)) : List (κ × Cached) := ops.filterMap put?

omit [DecidableEq κ] in

/-- A put is one more entry of the history of puts. -/
theorem puts_put (ops : List (Instant × CacheOp κ)) (now : Instant)
    (iter : IterOrder (Σ _ : κ, Cached)) (key : κ) (data : Bytes) :
    puts (ops ++ [(now, .put iter key data)])
      = puts ops ++ [(key, { data, cachedAt := now })] := by
  rw [puts, List.filterMap_append]
  rfl

omit [DecidableEq κ] in

theorem puts_evictStale (ops : List (Instant × CacheOp κ)) (now : Instant) (maxAge : Nat) :
    puts (ops ++ [(now, .evictStale maxAge)]) = puts ops := by
  rw [puts, List.filterMap_append]
  exact List.append_nil _

/-- A run that ends in a call is that call on the cache before it. -/
theorem run_concat (ops : List (Instant × CacheOp κ)) (op : Instant × CacheOp κ) :
    run max (ops ++ [op]) = (run max ops).apply max op := List.foldl_append

theorem unbounded_concat (ops : List (Instant × CacheOp κ)) (op : Instant × CacheOp κ) :
    unbounded (ops ++ [op]) = (unbounded ops).applyUnbounded op := List.foldl_append

/-- Each put comes after those before it. -/
def Ticking (puts : List (κ × Cached)) : Prop :=
  (puts.map (fun w => w.2.cachedAt)).Pairwise (· < ·)

instance (puts : List (κ × Cached)) : Decidable (Ticking puts) :=
  inferInstanceAs (Decidable (List.Pairwise _ _))

/-- The table has its newest entries in front, and each of them was put. -/
structure Ordered (ops : List (Instant × CacheOp κ)) : Prop where
  newestFirst : NewestFirst Cached.cachedAt (unbounded ops).entries
  put : ∀ e ∈ (unbounded ops).entries, ∃ w ∈ puts ops, w.2 = e.2

omit [DecidableEq κ] in

/-- Before a put at a later time the times were increasing too, and all below it. -/
theorem Ticking.init {past : List (κ × Cached)} {w : κ × Cached} (h : Ticking (past ++ [w])) :
    Ticking past ∧ ∀ w' ∈ past, w'.2.cachedAt < w.2.cachedAt := by
  rw [Ticking, List.map_append, List.pairwise_append] at h
  refine ⟨h.1, fun w' hw' => ?_⟩
  exact h.2.2 _ (List.mem_map_of_mem hw') _ (List.mem_map_of_mem (List.mem_singleton_self w))

variable {ops : List (Instant × CacheOp κ)}

/-- A run whose puts are in order stays so with a put at a time after all others. -/
theorem Ordered.concat_put (h : Ordered ops) {now : Instant}
    (hnow : ∀ w ∈ puts ops, w.2.cachedAt < now) (iter : IterOrder (Σ _ : κ, Cached)) (key : κ)
    (data : Bytes) : Ordered (ops ++ [(now, .put iter key data)]) := by
  refine ⟨?_, fun e he => ?_⟩
  · have hbefore : ∀ e ∈ (unbounded ops).entries, e.2.cachedAt < now := by
      intro e he
      obtain ⟨w, hw, heq⟩ := h.put e he
      rw [← heq]
      exact hnow w hw
    rw [unbounded_concat]
    exact newestFirst_insert h.newestFirst hbefore key data
  · rw [unbounded_concat, applyUnbounded, AList.entries_insert] at he
    rw [puts_put]
    rcases List.mem_cons.mp he with rfl | hold
    · exact ⟨_, List.mem_append_right _ (List.mem_singleton_self _), rfl⟩
    · obtain ⟨w, hw, heq⟩ := h.put e ((List.kerase_sublist key _).subset hold)
      exact ⟨w, List.mem_append_left _ hw, heq⟩

/-- And with any eviction by age, as that adds no time. -/
theorem Ordered.concat_evictStale (h : Ordered ops) (now : Instant) (maxAge : Nat) :
    Ordered (ops ++ [(now, .evictStale maxAge)]) := by
  refine ⟨?_, fun e he => ?_⟩
  · rw [unbounded_concat]
    exact newestFirst_evictStale h.newestFirst now maxAge
  · rw [unbounded_concat] at he
    rw [puts_evictStale]
    exact h.put e (List.mem_of_mem_filter he)

/-- **Over a run** whose puts are at strictly increasing times, whatever else is evicted by age, the
cache holds the beginning of the table without a bound. -/
theorem entries_run (hmax : 1 ≤ max) (h : Ticking (puts ops)) :
    Ordered ops ∧ (run max ops).entries = (unbounded ops).entries.take max := by
  induction ops using List.reverseRecOn with
  | nil => exact ⟨⟨List.Pairwise.nil, fun e he => absurd he List.not_mem_nil⟩, List.take_nil.symm⟩
  | append_singleton ops op ih =>
    rw [run_concat, unbounded_concat]
    rcases op with ⟨now, op⟩
    cases op with
    | put iter key data =>
      rw [puts_put] at h
      obtain ⟨hpast, hnow⟩ := h.init
      obtain ⟨hordered, hentries⟩ := ih hpast
      exact ⟨hordered.concat_put hnow iter key data,
        entries_put hmax hordered.newestFirst hentries iter now key data⟩
    | evictStale maxAge =>
      rw [puts_evictStale] at h
      obtain ⟨hordered, hentries⟩ := ih h
      exact ⟨hordered.concat_evictStale now maxAge,
        entries_evictStale hordered.newestFirst hentries now maxAge⟩

/-- Where nothing is evicted by age the table without a bound is the one of all puts. -/
theorem unbounded_eq_build (h : ∀ op ∈ ops, op.2.evicts = false) :
    unbounded ops = build (puts ops) := by
  induction ops using List.reverseRecOn with
  | nil => rfl
  | append_singleton ops op ih =>
    have hops := ih (fun op' hop' => h op' (List.mem_append_left [op] hop'))
    have hop := h op (List.mem_append_right ops (List.mem_singleton_self op))
    rcases op with ⟨now, op⟩
    cases op with
    | put iter key data =>
      rw [puts_put, build_concat, unbounded_concat, hops]
      rfl
    | evictStale maxAge => cases hop

/-- The keys of the last puts, at most `max` of them. -/
def recentKeys (max : Nat) (puts : List (κ × Cached)) : List κ :=
  (recent (puts.map Prod.fst)).take max

/-- A cache holds the keys put last, with what was put last under each, and nothing else. -/
structure HoldsRecent (max : Nat) (puts : List (κ × Cached)) (keys : List κ)
    (get : κ → Option Bytes) : Prop where
  keys : keys.Perm (recentKeys max puts)
  get : ∀ key, get key =
    if key ∈ recentKeys max puts then (WriteLog.last puts key).map (·.data) else none

/-- So the cache holds the keys put last, as many as it has room for, with the data of their last
puts. -/
theorem holdsRecent_run (hmax : 1 ≤ max) (h : Ticking (puts ops))
    (hkept : ∀ op ∈ ops, op.2.evicts = false) :
    HoldsRecent max (puts ops) (run max ops).keys (run max ops).get := by
  have hentries := (entries_run hmax h).2
  rw [unbounded_eq_build hkept] at hentries
  have hkeys : (run max ops).keys = recentKeys max (puts ops) := by
    rw [recentKeys, ← keys_build]
    show (run max ops).entries.map Sigma.fst = ((build (puts ops)).entries.map Sigma.fst).take max
    rw [hentries, List.map_take]
  refine ⟨hkeys ▸ List.Perm.refl _, fun key => ?_⟩
  rw [get, ← hkeys]
  by_cases hmem : key ∈ (run max ops).keys
  · rw [if_pos hmem, ← lookup_build, lookup_of_isPrefix (hentries ▸ List.take_prefix _ _) hmem]
  · rw [if_neg hmem, AList.lookup_eq_none.mpr hmem]
    rfl

end CacheMap

/-! ## The two caches -/

/-- A call of the hot cache. A get leaves it as it is. -/
inductive HotOp where
  | setCurrentTick (tick : UInt32)
  | setCurrentEpoch (epoch : UInt16)
  | getTick (tick : UInt32)
  | putTick (iter : IterOrder (Σ _ : UInt32, Cached)) (tick : UInt32) (data : Bytes)
  | getEntity (identity : Key32)
  | putEntity (iter : IterOrder (Σ _ : Key32, Cached)) (identity : Key32) (data : Bytes)
  | putComputors (epoch : UInt16) (data : Bytes)
  | evictStale (maxAge : Nat)

def HotOp.evicts : HotOp → Bool
  | .evictStale _ => true
  | _ => false

namespace HotCache

def apply (cache : HotCache) : Instant × HotOp → HotCache
  | (_, .setCurrentTick tick) => cache.setCurrentTick tick
  | (_, .setCurrentEpoch epoch) => cache.setCurrentEpoch epoch
  | (_, .getTick _) => cache
  | (now, .putTick iter tick data) => cache.putTick iter now tick data
  | (_, .getEntity _) => cache
  | (now, .putEntity iter identity data) => cache.putEntity iter now identity data
  | (_, .putComputors epoch data) => cache.putComputors epoch data
  | (now, .evictStale maxAge) => cache.evictStale now maxAge

def run (maxTicks maxEntities : Nat) (ops : List (Instant × HotOp)) : HotCache :=
  ops.foldl apply (new maxTicks maxEntities)

/-- What a call does to the tick cache. -/
def tickOp? : Instant × HotOp → Option (Instant × CacheOp UInt32)
  | (now, .putTick iter tick data) => some (now, .put iter tick data)
  | (now, .evictStale maxAge) => some (now, .evictStale maxAge)
  | _ => none

/-- What a call does to the entity cache. -/
def entityOp? : Instant × HotOp → Option (Instant × CacheOp Key32)
  | (now, .putEntity iter identity data) => some (now, .put iter identity data)
  | (now, .evictStale maxAge) => some (now, .evictStale maxAge)
  | _ => none

/-- The caches evolve apart: each sees the calls for it, in order, and nothing of the others. So
what is shown of one cache under its own calls holds in any run of all of them. -/
theorem caches_run (maxTicks maxEntities : Nat) (ops : List (Instant × HotOp)) :
    (run maxTicks maxEntities ops).maxTicks = maxTicks ∧
    (run maxTicks maxEntities ops).maxEntities = maxEntities ∧
    (run maxTicks maxEntities ops).tickCache
      = CacheMap.run maxTicks (ops.filterMap tickOp?) ∧
    (run maxTicks maxEntities ops).entityCache
      = CacheMap.run maxEntities (ops.filterMap entityOp?) := by
  induction ops using List.reverseRecOn with
  | nil => exact ⟨rfl, rfl, rfl, rfl⟩
  | append_singleton ops op ih =>
    have hrun : run maxTicks maxEntities (ops ++ [op]) = (run maxTicks maxEntities ops).apply op :=
      List.foldl_append
    obtain ⟨hmaxTicks, hmaxEntities, hticks, hentities⟩ := ih
    rw [hrun, List.filterMap_append, List.filterMap_append, CacheMap.run, CacheMap.run,
      List.foldl_append, List.foldl_append, ← CacheMap.run, ← CacheMap.run, ← hticks, ← hentities]
    rcases op with ⟨now, op⟩
    cases op with
    -- the bound is read from the cache at the time of the put, and never changes
    | putTick iter tick data =>
      refine ⟨hmaxTicks, hmaxEntities, ?_, rfl⟩
      show CacheMap.put iter (run maxTicks maxEntities ops).maxTicks now tick data _ = _
      rw [hmaxTicks]
      rfl
    | putEntity iter identity data =>
      refine ⟨hmaxTicks, hmaxEntities, rfl, ?_⟩
      show CacheMap.put iter (run maxTicks maxEntities ops).maxEntities now identity data _ = _
      rw [hmaxEntities]
      rfl
    | setCurrentTick tick => exact ⟨hmaxTicks, hmaxEntities, rfl, rfl⟩
    | setCurrentEpoch epoch => exact ⟨hmaxTicks, hmaxEntities, rfl, rfl⟩
    | getTick tick => exact ⟨hmaxTicks, hmaxEntities, rfl, rfl⟩
    | getEntity identity => exact ⟨hmaxTicks, hmaxEntities, rfl, rfl⟩
    | putComputors epoch data => exact ⟨hmaxTicks, hmaxEntities, rfl, rfl⟩
    | evictStale maxAge => exact ⟨hmaxTicks, hmaxEntities, rfl, rfl⟩

/-! ## The single slots

The current tick, the current epoch and the computors have no capacity and no age. -/

def currentTick? : Instant × HotOp → Option UInt32
  | (_, .setCurrentTick tick) => some tick
  | _ => none

def currentEpoch? : Instant × HotOp → Option UInt16
  | (_, .setCurrentEpoch epoch) => some epoch
  | _ => none

def computors? : Instant × HotOp → Option (UInt16 × Bytes)
  | (_, .putComputors epoch data) => some (epoch, data)
  | _ => none

/-- **Each slot holds what was set last**, over any run; an eviction by age leaves it alone. -/
theorem slots_run (maxTicks maxEntities : Nat) (ops : List (Instant × HotOp)) :
    (run maxTicks maxEntities ops).getCurrentTick = (ops.filterMap currentTick?).getLast? ∧
    (run maxTicks maxEntities ops).getCurrentEpoch = (ops.filterMap currentEpoch?).getLast? ∧
    (run maxTicks maxEntities ops).getComputors = (ops.filterMap computors?).getLast? := by
  induction ops using List.reverseRecOn with
  | nil => exact ⟨rfl, rfl, rfl⟩
  | append_singleton ops op ih =>
    have hrun : run maxTicks maxEntities (ops ++ [op]) = (run maxTicks maxEntities ops).apply op :=
      List.foldl_append
    rw [hrun, List.filterMap_append, List.filterMap_append, List.filterMap_append,
      List.getLast?_append, List.getLast?_append, List.getLast?_append, ← ih.1, ← ih.2.1,
      ← ih.2.2]
    rcases op with ⟨now, op⟩
    cases op <;> exact ⟨rfl, rfl, rfl⟩

def tickPuts (ops : List (Instant × HotOp)) : List (UInt32 × Cached) :=
  CacheMap.puts (ops.filterMap tickOp?)

def entityPuts (ops : List (Instant × HotOp)) : List (Key32 × Cached) :=
  CacheMap.puts (ops.filterMap entityOp?)

/-- A call that concerns the ticks evicts by age exactly if it did so as a call of the whole
cache. -/
theorem evicts_tickOp {op : Instant × HotOp} {op' : Instant × CacheOp UInt32}
    (h : tickOp? op = some op') : op'.2.evicts = op.2.evicts := by
  rcases op with ⟨now, call⟩
  cases call <;> cases h <;> rfl

theorem evicts_entityOp {op : Instant × HotOp} {op' : Instant × CacheOp Key32}
    (h : entityOp? op = some op') : op'.2.evicts = op.2.evicts := by
  rcases op with ⟨now, call⟩
  cases call <;> cases h <;> rfl

/-- **The caches keep the most recent writes.** After any sequence of calls that evicts nothing by
age, a cache with room whose puts were at strictly increasing times holds the keys put last. -/
theorem hot_caches_recent (maxTicks maxEntities : Nat) (ops : List (Instant × HotOp))
    (hkept : ∀ op ∈ ops, op.2.evicts = false) :
    (1 ≤ maxTicks → CacheMap.Ticking (tickPuts ops) →
      CacheMap.HoldsRecent maxTicks (tickPuts ops) (run maxTicks maxEntities ops).tickCache.keys
        (run maxTicks maxEntities ops).getTick) ∧
    (1 ≤ maxEntities → CacheMap.Ticking (entityPuts ops) →
      CacheMap.HoldsRecent maxEntities (entityPuts ops)
        (run maxTicks maxEntities ops).entityCache.keys
        (run maxTicks maxEntities ops).getEntity) := by
  obtain ⟨-, -, hticks, hentities⟩ := caches_run maxTicks maxEntities ops
  constructor
  · intro hmax hticking
    -- none of the calls that concern the ticks evicts by age
    have hkeptTicks : ∀ op ∈ ops.filterMap tickOp?, op.2.evicts = false := by
      intro op hop
      obtain ⟨call, hcall, heq⟩ := List.mem_filterMap.mp hop
      rw [evicts_tickOp heq, hkept call hcall]
    show CacheMap.HoldsRecent maxTicks _ (run maxTicks maxEntities ops).tickCache.keys
      (run maxTicks maxEntities ops).tickCache.get
    rw [hticks]
    exact CacheMap.holdsRecent_run hmax hticking hkeptTicks
  · intro hmax hticking
    -- and none of those that concern the entities
    have hkeptEntities : ∀ op ∈ ops.filterMap entityOp?, op.2.evicts = false := by
      intro op hop
      obtain ⟨call, hcall, heq⟩ := List.mem_filterMap.mp hop
      rw [evicts_entityOp heq, hkept call hcall]
    show CacheMap.HoldsRecent maxEntities _ (run maxTicks maxEntities ops).entityCache.keys
      (run maxTicks maxEntities ops).entityCache.get
    rw [hentities]
    exact CacheMap.holdsRecent_run hmax hticking hkeptEntities

def storedOrder {α : Type} : IterOrder α := { order := id, perm := fun _ => .rfl }

/-- With room for two ticks the second is evicted, since the first was put again. -/
def sampleCalls : List (Instant × HotOp) :=
  [(0, .putTick storedOrder 1 [10]), (1, .putTick storedOrder 2 [20]), (2, .getTick 1),
    (3, .putTick storedOrder 1 [11]), (3, .putEntity storedOrder zeroKey [7]),
    (4, .putTick storedOrder 3 [30]), (5, .getTick 2)]

theorem hot_caches_recent_sample :
    CacheMap.HoldsRecent 2 (tickPuts sampleCalls) (run 2 1 sampleCalls).tickCache.keys
      (run 2 1 sampleCalls).getTick ∧
    CacheMap.HoldsRecent 1 (entityPuts sampleCalls) (run 2 1 sampleCalls).entityCache.keys
      (run 2 1 sampleCalls).getEntity ∧
    CacheMap.recentKeys 2 (tickPuts sampleCalls) = [3, 1] ∧
    CacheMap.recentKeys 1 (entityPuts sampleCalls) = [zeroKey] := by
  have h := hot_caches_recent 2 1 sampleCalls (by decide)
  exact ⟨h.1 (by decide) (by decide), h.2 (by decide) (by decide), by decide, by decide⟩

end HotCache

end Qonduit

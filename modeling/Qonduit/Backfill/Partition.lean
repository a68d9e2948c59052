import Qonduit.Core.Basic
import Qonduit.Lib.Blocks

/-!
# Qonduit — the ranges of the backfill workers

`run` cuts the range of a backfill into one range a worker, first for the ticks and then again for
their transactions. The two differ in the size of a chunk only: the second takes it from the number
of ticks found, which may have little to do with the length of the range.

* **`workerRanges_partition`** — whatever the chunk, the ranges partition the whole, as long as the
  products stay within 32 bits.
* **`backfill_ranges_partition`** — the ranges of both phases.
-/

namespace Qonduit

/-! ## The loops of `run` -/

/-- `worker_id` and the chunk are cast to `u32`, and the arithmetic is that of a build without
overflow checks. -/
def workerStart (startTick : UInt32) (chunk workerId : Nat) : UInt32 :=
  startTick + UInt32.ofNat workerId * UInt32.ofNat chunk

def workerStop (startTick endTick : UInt32) (workers chunk workerId : Nat) : UInt32 :=
  if workerId = workers - 1 then endTick
  else min (startTick + (UInt32.ofNat workerId + 1) * UInt32.ofNat chunk) endTick

/-- The ranges of the workers that are not skipped. -/
def workerRanges (startTick endTick : UInt32) (workers chunk : Nat) : List (UInt32 × UInt32) :=
  (List.range workers).filterMap fun workerId =>
    let lo := workerStart startTick chunk workerId
    let hi := workerStop startTick endTick workers chunk workerId
    if lo ≥ hi then none else some (lo, hi)

def tickChunk (startTick endTick : UInt32) (workers : Nat) : Nat :=
  max ((endTick - startTick).toNat / workers) 1

/-- Phase 1, the tick data; `configured` is the number of workers of the configuration. -/
def tickRanges (startTick endTick : UInt32) (configured : Nat) : List (UInt32 × UInt32) :=
  let workers := max configured 1
  workerRanges startTick endTick workers (tickChunk startTick endTick workers)

def txChunk (ticksDone workers : Nat) : Nat := max (ticksDone / workers) 1

/-- Phase 2, the transactions, which starts only when phase 1 found ticks. -/
def txRanges (startTick endTick : UInt32) (configured ticksDone : Nat) :
    List (UInt32 × UInt32) :=
  if ticksDone > 0 then
    let workers := max configured 1
    workerRanges startTick endTick workers (txChunk ticksDone workers)
  else []

/-! ## What they cover -/

/-- Non-empty ranges in order, one ending before the next starts, that make up `[lo, hi)`. -/
structure Partitions (lo hi : UInt32) (ranges : List (UInt32 × UInt32)) : Prop where
  nonempty : ∀ r ∈ ranges, r.1 < r.2
  disjoint : ranges.Pairwise (fun r r' => r.2 ≤ r'.1)
  within : ∀ r ∈ ranges, lo ≤ r.1 ∧ r.2 ≤ hi
  covers : ∀ t, lo ≤ t → t < hi → ∃ r ∈ ranges, r.1 ≤ t ∧ t < r.2

section Ranges

variable {startTick endTick : UInt32} {workers chunk workerId : Nat}

/-- The start of the `k`-th chunk does not wrap around while the last chunk ends within 32 bits. -/
theorem toNat_offset {k : Nat} (hchunk : 0 < chunk) (hk : k ≤ workers)
    (hfits : startTick.toNat + workers * chunk ≤ 4294967295) :
    (startTick + UInt32.ofNat k * UInt32.ofNat chunk).toNat = startTick.toNat + k * chunk := by
  have hle : k * chunk ≤ workers * chunk := Nat.mul_le_mul_right chunk hk
  have hk' : k ≤ k * chunk := Nat.le_mul_of_pos_right k hchunk
  rcases Nat.eq_zero_or_pos k with rfl | hpos
  · simp
  · have hc : chunk ≤ k * chunk := Nat.le_mul_of_pos_left chunk hpos
    have hprod : (UInt32.ofNat k * UInt32.ofNat chunk).toNat = k * chunk := by
      rw [UInt32.toNat_mul, UInt32.toNat_ofNat_of_lt' (by show k < 2 ^ 32; omega),
        UInt32.toNat_ofNat_of_lt' (by show chunk < 2 ^ 32; omega)]
      exact Nat.mod_eq_of_lt (by omega)
    rw [UInt32.toNat_add_of_lt (by omega), hprod]

/-- The first tick of a worker is the beginning of its block. -/
theorem toNat_workerStart (hchunk : 0 < chunk) (hid : workerId < workers)
    (hfits : startTick.toNat + workers * chunk ≤ 4294967295) :
    (workerStart startTick chunk workerId).toNat = Blocks.lo startTick.toNat chunk workerId :=
  toNat_offset hchunk (Nat.le_of_lt hid) hfits

/-- Its end is that of the block, cut off at the end of the range; for the last worker it is the end
of the range by definition. -/
theorem toNat_workerStop (hchunk : 0 < chunk) (hid : workerId < workers)
    (hfits : startTick.toNat + workers * chunk ≤ 4294967295) :
    (workerStop startTick endTick workers chunk workerId).toNat
      = Blocks.hi startTick.toNat endTick.toNat chunk workers workerId := by
  have hsucc : UInt32.ofNat workerId + 1 = UInt32.ofNat (workerId + 1) := by
    rw [UInt32.ofNat_add]
    rfl
  unfold workerStop Blocks.hi
  split
  · rfl
  · rw [UInt32.toNat_min, hsucc, toNat_offset hchunk hid hfits]

/-- The range of a worker that is not skipped: one whose first tick is not before its end gets
none. -/
theorem range_eq_some_iff {r : UInt32 × UInt32} :
    (if workerStart startTick chunk workerId ≥ workerStop startTick endTick workers chunk workerId
      then none
      else some (workerStart startTick chunk workerId,
        workerStop startTick endTick workers chunk workerId)) = some r ↔
      (workerStart startTick chunk workerId,
        workerStop startTick endTick workers chunk workerId) = r ∧ r.1 < r.2 := by
  rw [Option.ite_none_left_eq_some, Option.some_inj, ge_iff_le, UInt32.not_le]
  constructor
  · intro h
    exact ⟨h.2, h.2 ▸ h.1⟩
  · intro h
    obtain ⟨rfl, hlt⟩ := h
    exact ⟨hlt, rfl⟩

/-- **The ranges of the workers partition the range**, whatever the chunk, because they are blocks
of it. Wrap-around is kept out by the bound. -/
theorem workerRanges_partition (hworkers : 0 < workers) (hchunk : 0 < chunk)
    (hfits : startTick.toNat + workers * chunk ≤ 4294967295) :
    Partitions startTick endTick (workerRanges startTick endTick workers chunk) := by
  refine { nonempty := ?_, disjoint := ?_, within := ?_, covers := ?_ }
  · intro r hr
    obtain ⟨workerId, -, hrange⟩ := List.mem_filterMap.mp hr
    exact (range_eq_some_iff.mp hrange).2
  · -- workers with greater numbers begin where others have ended
    refine List.pairwise_filterMap.mpr ?_
    refine List.pairwise_lt_range.imp_of_mem (fun {i j} hi hj hij r hr r' hr' => ?_)
    obtain ⟨rfl, -⟩ := range_eq_some_iff.mp hr
    obtain ⟨rfl, -⟩ := range_eq_some_iff.mp hr'
    rw [UInt32.le_iff_toNat_le, toNat_workerStop hchunk (List.mem_range.mp hi) hfits,
      toNat_workerStart hchunk (List.mem_range.mp hj) hfits]
    exact Blocks.hi_le_lo hij (List.mem_range.mp hj)
  · intro r hr
    obtain ⟨workerId, hid, hrange⟩ := List.mem_filterMap.mp hr
    obtain ⟨rfl, -⟩ := range_eq_some_iff.mp hrange
    rw [UInt32.le_iff_toNat_le, UInt32.le_iff_toNat_le,
      toNat_workerStart hchunk (List.mem_range.mp hid) hfits,
      toNat_workerStop hchunk (List.mem_range.mp hid) hfits]
    exact ⟨Blocks.le_lo, Blocks.hi_le⟩
  · intro t hlo hhi
    -- the block of a position names the worker that gets it
    have hid := Blocks.index_lt (a := startTick.toNat) (c := chunk) (t := t.toNat) hworkers
    obtain ⟨hstart, hstop⟩ := Blocks.mem_index (n := workers) (t := t.toNat) hchunk
      (UInt32.le_iff_toNat_le.mp hlo) (UInt32.lt_iff_toNat_lt.mp hhi)
    rw [← toNat_workerStart hchunk hid hfits] at hstart
    rw [← toNat_workerStop hchunk hid hfits] at hstop
    refine ⟨_, List.mem_filterMap.mpr
      ⟨_, List.mem_range.mpr hid, range_eq_some_iff.mpr ⟨rfl, ?_⟩⟩, hstart, hstop⟩
    exact UInt32.lt_of_le_of_lt hstart hstop

end Ranges

/-- **The worker ranges of both phases partition the backfill range**, whatever the number of
workers and of ticks found, as long as their products stay within 32 bits. -/
theorem backfill_ranges_partition (startTick endTick : UInt32) {workers : Nat}
    (hworkers : 1 ≤ workers) :
    (startTick.toNat + workers * tickChunk startTick endTick workers ≤ 4294967295 →
      Partitions startTick endTick (tickRanges startTick endTick workers)) ∧
    ∀ ticksDone, 1 ≤ ticksDone →
      startTick.toNat + workers * txChunk ticksDone workers ≤ 4294967295 →
      Partitions startTick endTick (txRanges startTick endTick workers ticksDone) := by
  have hmax : max workers 1 = workers := Nat.max_eq_left hworkers
  constructor
  · intro hfits
    unfold tickRanges
    rw [hmax]
    exact workerRanges_partition hworkers (Nat.le_max_right _ 1) hfits
  · intro ticksDone hdone hfits
    unfold txRanges
    rw [if_pos (show ticksDone > 0 from hdone), hmax]
    exact workerRanges_partition hworkers (Nat.le_max_right _ 1) hfits

/-- Ten ticks, three workers, one of them with nothing left to do in phase 2. -/
theorem backfill_ranges_partition_sample :
    Partitions 5 15 (tickRanges 5 15 3) ∧ Partitions 5 15 (txRanges 5 15 3 18) ∧
    tickRanges 5 15 3 = [(5, 8), (8, 11), (11, 15)] ∧
    txRanges 5 15 3 18 = [(5, 11), (11, 15)] := by
  have h := backfill_ranges_partition 5 15 (show 1 ≤ 3 by decide)
  exact ⟨h.1 (by decide), h.2 18 (by decide) (by decide), by decide, by decide⟩

end Qonduit

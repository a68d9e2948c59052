import Mathlib.Data.List.Basic
import Mathlib.Tactic.Common

/-!
# Paging

A list served in pages of `size` items: page `k` skips `k * size` items and takes the next `size`.
A reader asks for pages until one is empty.

* **`readsAll_of_windows`** — it has then read the list, each item once and in order.
-/

namespace Paging

variable {ε α : Type}

/-- Page `k` of a list. -/
def window (l : List α) (size k : Nat) : List α := (l.drop (k * size)).take size

/-- Reading pages up to the first empty one, without an error, yields `l`. -/
def ReadsAll (page : Nat → Except ε (List α)) (l : List α) : Prop :=
  ∃ n, ∃ pages : Nat → List α, (∀ k, k < n → page k = .ok (pages k) ∧ pages k ≠ []) ∧
    page n = .ok [] ∧ (List.range n).flatMap pages = l

/-- The first windows together are a beginning of the list. -/
theorem flatMap_window (l : List α) (size n : Nat) :
    (List.range n).flatMap (window l size) = l.take (n * size) := by
  induction n with
  | zero => simp
  | succ n ih =>
    rw [List.range_succ, List.flatMap_append, ih, Nat.succ_mul, List.take_add]
    simp [window]

/-- A window is empty only if the list ends before it, so the first empty page tells that everything
was read. -/
theorem window_eq_nil_iff {l : List α} {size k : Nat} (hsize : 1 ≤ size) :
    window l size k = [] ↔ l.length ≤ k * size := by
  rw [window, ← List.length_eq_zero_iff, List.length_take, List.length_drop]
  omega

/-- **Windows tile the list.** A client that asks for one window after the other until one is empty
has then read the list, in order and nothing twice. -/
theorem readsAll_of_windows {page : Nat → Except ε (List α)} {l : List α} {size : Nat}
    (hsize : 1 ≤ size) (hpage : ∀ k, page k = .ok (window l size k)) : ReadsAll page l := by
  -- the number of pages, the last one possibly not full
  let n := (l.length + (size - 1)) / size
  have hlow : ∀ k, k < n ↔ k * size < l.length := by
    intro k
    rw [← Nat.succ_le_iff, Nat.le_div_iff_mul_le hsize, Nat.succ_mul]
    omega
  have hend : l.length ≤ n * size := Nat.not_lt.mp (fun h => Nat.lt_irrefl n ((hlow n).mpr h))
  refine ⟨n, window l size, fun k hk => ⟨hpage k, ?_⟩, ?_, ?_⟩
  · rw [Ne, window_eq_nil_iff hsize, Nat.not_le]
    exact (hlow k).mp hk
  · rw [hpage, (window_eq_nil_iff hsize).mpr hend]
  · rw [flatMap_window, List.take_of_length_le hend]

end Paging

import Mathlib.Algebra.Order.Ring.Nat
import Mathlib.Tactic.Common

/-!
# An interval cut into blocks

The interval `[a, b)` is cut into `n` blocks of `c` positions each, from `a` on. A block that
reaches `b` ends there, and the last takes whatever the others leave. With more blocks than `b`
leaves room for some are empty.

* **`hi_le_lo`** — a block ends before any later one starts.
* **`mem_index`** — every position lies in a block.
-/

namespace Blocks

/-- Where block `i` starts. -/
def lo (a c i : Nat) : Nat := a + i * c

/-- Where block `i` of `n` ends. -/
def hi (a b c n i : Nat) : Nat := if i = n - 1 then b else min (a + (i + 1) * c) b

/-- The block a position lies in. -/
def index (a c n t : Nat) : Nat := min ((t - a) / c) (n - 1)

variable {a b c n i j t : Nat}

/-- The first block begins with the range, and no block before it. -/
theorem le_lo : a ≤ lo a c i := Nat.le_add_right a _

/-- No block reaches beyond the range, although the last one may be cut short. -/
theorem hi_le : hi a b c n i ≤ b := by
  unfold hi
  split
  · exact Nat.le_refl b
  · exact Nat.min_le_right _ b

/-- Blocks with smaller numbers lie before those with greater ones, so no position lies in two. -/
theorem hi_le_lo (hij : i < j) (hj : j < n) : hi a b c n i ≤ lo a c j := by
  have hnext : (i + 1) * c ≤ j * c := Nat.mul_le_mul_right c hij
  unfold hi lo
  rw [if_neg (by omega)]
  omega

/-- The number of the block a position lies in is one of those in use, because the blocks together
are at least as long as the range. -/
theorem index_lt (hn : 0 < n) : index a c n t < n := by
  unfold index
  omega

/-- Every position lies in a block. -/
theorem mem_index (hc : 0 < c) (ha : a ≤ t) (hb : t < b) :
    lo a c (index a c n t) ≤ t ∧ t < hi a b c n (index a c n t) := by
  have hbelow : (t - a) / c * c ≤ t - a := Nat.div_mul_le_self (t - a) c
  have habove : t - a < ((t - a) / c + 1) * c := Nat.lt_mul_of_div_lt (Nat.lt_succ_self _) hc
  have hindex : index a c n t * c ≤ (t - a) / c * c :=
    Nat.mul_le_mul_right c (Nat.min_le_left _ _)
  unfold lo hi
  refine ⟨by omega, ?_⟩
  split
  · exact hb
  · next hlast =>
    have hquot : index a c n t = (t - a) / c := by
      unfold index at hlast ⊢
      omega
    rw [hquot]
    omega

end Blocks

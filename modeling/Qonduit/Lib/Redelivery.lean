import Qonduit.Lib.WriteLog

/-!
# Redelivery

Messages that are handled at least once: some again, some late, and some in part, where the one who
handles them stops half way. Of the writes of all messages, each is then performed at least once,
in any order, and no other one is.

* **`Covers`** — what an address holds while that goes on: nothing new, or something that one of the
  messages writes there.
* **`Covers.eq_replay`** — in the end, where the messages agree on an address, it holds what they
  leave there when each of them is handled once.
* **`replay_absorbs`** — a log that is performed as a whole makes up for any writes to its
  addresses.
-/

namespace Redelivery

variable {A V : Type*}

/-- The writes give an address at most one value. -/
def Agree (all : List (A × V)) (a : A) : Prop :=
  ∀ w ∈ all, ∀ w' ∈ all, w.1 = a → w'.1 = a → w.2 = w'.2

/-- Of the writes in `all` some were performed, and those in `done` among them: the address holds
what it held before, or what one of the writes puts there. -/
structure Covers (all done : List (A × V)) (m₀ m : A → Option V) (a : A) : Prop where
  held : m a = m₀ a ∨ ∃ v, (a, v) ∈ all ∧ m a = some v
  done : ∀ v, (a, v) ∈ done → ∃ u, (a, u) ∈ all ∧ m a = some u

/-- Before anything is performed the store is as it was, whatever there is to perform. -/
theorem Covers.refl (all : List (A × V)) (m : A → Option V) (a : A) : Covers all [] m m a :=
  ⟨.inl rfl, fun _ h => absurd h List.not_mem_nil⟩

/-- Less need be known to be done: covering more writes covers fewer. -/
theorem Covers.of_append {all done more : List (A × V)} {m₀ m : A → Option V} {a : A}
    (h : Covers all (done ++ more) m₀ m a) : Covers all done m₀ m a :=
  ⟨h.held, fun v hv => h.done v (List.mem_append_left more hv)⟩

/-- Only what the address holds matters. -/
theorem Covers.congr {all done : List (A × V)} {m₀ m m' : A → Option V} {a : A}
    (h : Covers all done m₀ m a) (hm : m' a = m a) : Covers all done m₀ m' a := by
  refine ⟨?_, fun v hv => ?_⟩
  · rw [hm]
    exact h.held
  · rw [hm]
    exact h.done v hv

variable [DecidableEq A]

/-- **Performing some more of the writes**, again or for the first time. If one of them is for the
address it holds what that wrote; if none is, it holds what it did. -/
theorem Covers.replay {all done ws : List (A × V)} {m₀ m : A → Option V} {a : A}
    (h : Covers all done m₀ m a) (hws : ∀ w ∈ ws, w ∈ all) :
    Covers all (done ++ ws) m₀ (WriteLog.replay ws m) a := by
  cases hlast : WriteLog.last ws a with
  | some u =>
    -- the last of them is what the address holds
    have hu : (a, u) ∈ all := hws _ (WriteLog.mem_of_last hlast)
    have hm : WriteLog.replay ws m a = some u := by rw [WriteLog.replay, hlast, Option.some_or]
    exact ⟨.inr ⟨u, hu, hm⟩, fun _ _ => ⟨u, hu, hm⟩⟩
  | none =>
    have hnone := WriteLog.last_eq_none_iff.mp hlast
    have hm : WriteLog.replay ws m a = m a := WriteLog.replay_of_not_mem hnone
    refine ⟨?_, fun v hv => ?_⟩
    · rw [hm]
      exact h.held
    · rw [hm]
      rcases List.mem_append.mp hv with hv | hv
      · exact h.done v hv
      · exact absurd rfl (hnone _ hv)

/-- **Where the writes agree**, performing all of them in any way is performing them once: an
address then holds what any of its writes wrote. -/
theorem Covers.eq_replay {all done : List (A × V)} {m₀ m : A → Option V} {a : A}
    (h : Covers all done m₀ m a) (hall : ∀ w ∈ all, w ∈ done) (hagree : Agree all a) :
    m a = WriteLog.replay all m₀ a := by
  cases hlast : WriteLog.last all a with
  | some u =>
    have hu := WriteLog.mem_of_last hlast
    obtain ⟨v, hv, hm⟩ := h.done u (hall _ hu)
    have huv : v = u := hagree _ hv _ hu rfl rfl
    rw [hm, huv, WriteLog.replay, hlast, Option.some_or]
  | none =>
    have hnone := WriteLog.last_eq_none_iff.mp hlast
    rw [WriteLog.replay_of_not_mem hnone]
    rcases h.held with heq | ⟨v, hv, -⟩
    · exact heq
    · exact absurd rfl (hnone _ hv)

/-- **A whole log absorbs** what was written to its addresses before, because the last write of each
address is behind everything of an earlier time. -/
theorem replay_absorbs {log ws : List (A × V)} (h : ∀ w ∈ ws, ∃ v, (w.1, v) ∈ log)
    (m : A → Option V) (a : A) :
    WriteLog.replay log (WriteLog.replay ws m) a = WriteLog.replay log m a := by
  cases hlast : WriteLog.last log a with
  | some u => simp only [WriteLog.replay, hlast, Option.some_or]
  | none =>
    refine WriteLog.replay_congr_at (WriteLog.replay_of_not_mem ?_)
    intro w hw heq
    obtain ⟨v, hv⟩ := h w hw
    exact WriteLog.last_eq_none_iff.mp hlast _ hv heq

end Redelivery

import Mathlib.Data.List.Induction
import Mathlib.Tactic.Common

/-!
# Cross-indexed events

A sequence of events, each written into two tables at once: under its slot, if it has one, a
reference to its key, and under its key the event itself. Both tables keep the last write, so a
slot may end up referring to a later event that reused the key. When does every reference, at
every moment, lead to an event that will do?

* **`lastWhere`** — the event a table holds.
* **`resolvesBy_prefixes_iff`** — at every moment every reference leads to an acceptable event,
  exactly when each reuse of a key is acceptable or finds the slot taken over in between.
-/

namespace CrossIndex

variable {X S K : Type*}

def lastWhere (p : X → Bool) (xs : List X) : Option X := xs.reverse.find? p

/-- The last element with a property is one that has it and behind which no other does. -/
theorem lastWhere_eq_some_iff {p : X → Bool} {xs : List X} {a : X} :
    lastWhere p xs = some a ↔ p a ∧ ∃ pre post, xs = pre ++ a :: post ∧ ∀ x ∈ post, ¬ p x := by
  rw [lastWhere, List.find?_eq_some_iff_append]
  refine and_congr_right (fun _ => ?_)
  constructor
  · rintro ⟨pre, post, hxs, hpre⟩
    refine ⟨post.reverse, pre.reverse, ?_, by simpa using hpre⟩
    rw [← List.reverse_reverse xs, hxs]
    simp
  · rintro ⟨pre, post, rfl, hpost⟩
    exact ⟨post.reverse, pre.reverse, by simp, by simpa using hpost⟩

/-- A list with an element of the property has a last one. -/
theorem exists_lastWhere {p : X → Bool} {xs : List X} {a : X} (ha : a ∈ xs) (hp : p a) :
    ∃ b, lastWhere p xs = some b := by
  rw [← Option.isSome_iff_exists, lastWhere, List.find?_isSome]
  exact ⟨a, List.mem_reverse.mpr ha, hp⟩

variable [DecidableEq S] [DecidableEq K] {slot : X → Option S} {key : X → K} {R : X → X → Prop}

/-- Every slot that an event holds leads, through the event's key, to an acceptable one. -/
def ResolvesBy (slot : X → Option S) (key : X → K) (R : X → X → Prop) (xs : List X) : Prop :=
  ∀ s a b, lastWhere (fun x => slot x = some s) xs = some a →
    lastWhere (fun x => key x = key a) xs = some b → R a b

/-- The second lookup never fails. -/
theorem resolvesBy_iff {xs : List X} :
    ResolvesBy slot key R xs ↔
      ∀ s a, lastWhere (fun x => slot x = some s) xs = some a →
        ∃ b, lastWhere (fun x => key x = key a) xs = some b ∧ R a b := by
  constructor
  · intro h s a ha
    obtain ⟨-, pre, post, rfl, -⟩ := lastWhere_eq_some_iff.mp ha
    obtain ⟨b, hb⟩ := exists_lastWhere (p := fun x => key x = key a)
      (show a ∈ pre ++ a :: post by simp) (by simp)
    exact ⟨b, hb, h s a b ha hb⟩
  · intro h s a b ha hb
    obtain ⟨b', hb', hR⟩ := h s a ha
    rw [hb] at hb'
    cases hb'
    exact hR

/-- A key that is used again is acceptable for its first user, or that one's slot has been
taken over in between. -/
def TakenOver (slot : X → Option S) (key : X → K) (R : X → X → Prop) (xs : List X) : Prop :=
  ∀ pre a mid b post, xs = pre ++ a :: (mid ++ b :: post) → key a = key b → (slot a).isSome →
    R a b ∨ ∃ k ∈ mid, slot k = slot a

/-- The hard direction: if every reuse of a key is acceptable, or comes after the slot was taken
over, then the entry that a slot leads to stands in the relation. The last write of the key is
compared with the write of the slot, and whichever came later decides. -/
theorem resolvesBy_of_takenOver (hslot : ∀ a b, key a = key b → slot a = slot b →
    (slot a).isSome → R a b) {xs : List X} (h : TakenOver slot key R xs) :
    ResolvesBy slot key R xs := by
  intro s a b ha hb
  obtain ⟨has, P, P', hP, hPlast⟩ := lastWhere_eq_some_iff.mp ha
  obtain ⟨hkey, Q, Q', hQ, hQlast⟩ := lastWhere_eq_some_iff.mp hb
  have has : slot a = some s := of_decide_eq_true has
  have hkey : key b = key a := of_decide_eq_true hkey
  have hsome : (slot a).isSome := by rw [has]; rfl
  -- compare the positions of the holder of the slot and of the holder of the key
  rcases List.append_eq_append_iff.mp (hP.symm.trans hQ) with ⟨mid, hQP, hmid⟩ | ⟨mid, hPQ, hmid⟩
  · -- the key was used again after the slot was filled
    cases mid with
    | nil =>
      obtain ⟨rfl, -⟩ := List.cons.inj hmid
      exact hslot a a rfl rfl hsome
    | cons x mid =>
      obtain ⟨rfl, hP'⟩ := List.cons.inj hmid
      subst hP'
      rcases h P a mid b Q' hP hkey.symm hsome with hR | ⟨k, hk, hks⟩
      · exact hR
      · exact absurd (by simp [hks, has]) (hPlast k (by simp [hk]))
  · cases mid with
    | nil =>
      obtain ⟨rfl, -⟩ := List.cons.inj hmid
      exact hslot b b rfl rfl hsome
    | cons x mid =>
      -- the holder of the slot would be a later user of the key
      obtain ⟨rfl, hQ'⟩ := List.cons.inj hmid
      exact absurd (by simp) (hQlast a (by rw [hQ']; simp))

/-- **References resolve at every moment** exactly when every reuse of a key is acceptable or
comes after the slot was taken over. -/
theorem resolvesBy_prefixes_iff (hslot : ∀ a b, key a = key b → slot a = slot b →
    (slot a).isSome → R a b) {xs : List X} :
    (∀ p, p <+: xs → ResolvesBy slot key R p) ↔ TakenOver slot key R xs := by
  constructor
  · rintro h pre a mid b post rfl hkey hsome
    by_contra hnone
    obtain ⟨hR, hmid⟩ := not_or.mp hnone
    obtain ⟨s, hs⟩ := Option.isSome_iff_exists.mp hsome
    -- the moment right after `b`: the slot still belongs to `a`, the key to `b`
    have hp : pre ++ a :: (mid ++ [b]) <+: pre ++ a :: (mid ++ b :: post) := ⟨post, by simp⟩
    have ha : lastWhere (fun x => slot x = some s) (pre ++ a :: (mid ++ [b])) = some a := by
      refine lastWhere_eq_some_iff.mpr ⟨by simp [hs], pre, mid ++ [b], rfl, ?_⟩
      intro x hx hxs
      have hxs : slot x = slot a := (of_decide_eq_true hxs).trans hs.symm
      rcases List.mem_append.mp hx with hx | hx
      · exact hmid ⟨x, hx, hxs⟩
      · rw [List.mem_singleton.mp hx] at hxs
        exact hR (hslot a b hkey hxs.symm hsome)
    have hb : lastWhere (fun x => key x = key a) (pre ++ a :: (mid ++ [b])) = some b :=
      lastWhere_eq_some_iff.mpr ⟨by simp [hkey], pre ++ a :: mid, [], by simp, by simp⟩
    exact hR (h _ hp s a b ha hb)
  · rintro h p ⟨rest, rfl⟩
    refine resolvesBy_of_takenOver hslot ?_
    rintro pre a mid b post rfl
    exact h pre a mid b (post ++ rest) (by simp)

end CrossIndex

import Mathlib.Data.List.Forall2

/-!
# Subjects and wildcard patterns

Messages on a bus go to a subject, a text of tokens between separators. A subscriber names a
pattern, a subject in which a token may be the wildcard, which stands for any one token.

* **`takes_join_iff`** — a pattern takes a subject token by token.
* **`takes_last_iff`** — where all but the last tokens agree, the last one decides.
* **`not_takes_both`** — two patterns that spell different last tokens share no subject.
-/

namespace Subjects

/-- What separates the tokens, and the token that stands for any other. -/
structure Grammar (α : Type) where
  sep : α
  star : List α

namespace Grammar

section

variable {α : Type} (g : Grammar α)

/-- Tokens that can stand in a subject. -/
def Proper (ts : List (List α)) : Prop := ts ≠ [] ∧ ∀ t ∈ ts, g.sep ∉ t

/-- Tokens without separators make up a subject together with one more. -/
theorem Proper.concat {g : Grammar α} {ts : List (List α)} {t : List α}
    (h : ∀ t ∈ ts, g.sep ∉ t) (ht : g.sep ∉ t) : g.Proper (ts ++ [t]) := by
  refine ⟨by simp, fun u hu => ?_⟩
  rcases List.mem_append.mp hu with hu | hu
  · exact h u hu
  · rw [List.mem_singleton.mp hu]
    exact ht

end

variable {α : Type} [DecidableEq α] (g : Grammar α)

def tokens (s : List α) : List (List α) := s.splitOn g.sep

def join (ts : List (List α)) : List α := [g.sep].intercalate ts

/-- A token of a pattern takes a token of a subject. -/
def TakesToken (p t : List α) : Prop := p = g.star ∨ p = t

instance (p t : List α) : Decidable (g.TakesToken p t) := inferInstanceAs (Decidable (_ ∨ _))

def Takes (pattern subject : List α) : Prop :=
  List.Forall₂ g.TakesToken (g.tokens pattern) (g.tokens subject)

instance (pattern subject : List α) : Decidable (g.Takes pattern subject) :=
  inferInstanceAs (Decidable (List.Forall₂ _ _ _))

variable {g}

/-- What was joined comes apart into the same tokens, as none of them holds a separator and there is
at least one. -/
theorem tokens_join {ts : List (List α)} (h : g.Proper ts) : g.tokens (g.join ts) = ts :=
  List.splitOn_intercalate g.sep h.2 h.1

/-- A pattern takes a subject if it has as many tokens and each takes its own. -/
theorem takes_join_iff {ps ts : List (List α)} (hp : g.Proper ps) (ht : g.Proper ts) :
    g.Takes (g.join ps) (g.join ts) ↔ List.Forall₂ g.TakesToken ps ts := by
  rw [Takes, tokens_join hp, tokens_join ht]

/-- Lists related one by one stay so with one more pair exactly if that pair is related. -/
theorem forall₂_concat {β γ : Type} {R : β → γ → Prop} {xs : List β} {ys : List γ} {x : β} {y : γ}
    (h : List.Forall₂ R xs ys) : List.Forall₂ R (xs ++ [x]) (ys ++ [y]) ↔ R x y := by
  induction h with
  | nil => simp
  | cons hab _ ih =>
    rw [List.cons_append, List.cons_append, List.forall₂_cons]
    exact (and_iff_right hab).trans ih

/-- **The last token decides**, where the others agree. A family of subjects that differ in their
last token only is told apart by it. -/
theorem takes_last_iff {ps ts : List (List α)} {p t : List α} (hp : g.Proper (ps ++ [p]))
    (ht : g.Proper (ts ++ [t])) (h : List.Forall₂ g.TakesToken ps ts) :
    g.Takes (g.join (ps ++ [p])) (g.join (ts ++ [t])) ↔ p = g.star ∨ p = t := by
  rw [takes_join_iff hp ht]
  exact forall₂_concat h

/-- A subject that a pattern takes ends in a token that its last one takes. -/
theorem Takes.getLast? {ps : List (List α)} {p : List α} (hp : g.Proper (ps ++ [p]))
    {subject : List α} (h : g.Takes (g.join (ps ++ [p])) subject) :
    ∃ t, (g.tokens subject).getLast? = some t ∧ g.TakesToken p t := by
  rw [Takes, tokens_join hp] at h
  have hrev := List.rel_reverse h
  rw [List.reverse_append] at hrev
  cases hsubject : (g.tokens subject).reverse with
  | nil => rw [hsubject] at hrev; cases hrev
  | cons t rest =>
    rw [hsubject] at hrev
    refine ⟨t, ?_, (List.forall₂_cons.mp hrev).1⟩
    rw [← List.head?_reverse, hsubject]
    rfl

/-- **Patterns that spell different last tokens share no subject.** -/
theorem not_takes_both {ps qs : List (List α)} {p q : List α} (hp : g.Proper (ps ++ [p]))
    (hq : g.Proper (qs ++ [q])) (hpstar : p ≠ g.star) (hqstar : q ≠ g.star) (hne : p ≠ q)
    {subject : List α} (h : g.Takes (g.join (ps ++ [p])) subject) :
    ¬g.Takes (g.join (qs ++ [q])) subject := by
  intro h'
  obtain ⟨t, ht, htoken⟩ := h.getLast? hp
  obtain ⟨u, hu, hutoken⟩ := h'.getLast? hq
  obtain rfl : t = u := Option.some.inj (ht.symm.trans hu)
  exact hne ((htoken.resolve_left hpstar).trans (hutoken.resolve_left hqstar).symm)

end Grammar

end Subjects

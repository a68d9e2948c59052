import Mathlib.Data.List.Induction
import Mathlib.Data.List.Nodup
import Mathlib.Data.List.Perm.Subperm
import Mathlib.Tactic.Common

/-!
# Write logs

A store seen as a partial function from addresses to values, and a *log*: the list of
writes performed on it, oldest first. A write replaces whatever its address held, so the
log is determined by its last write to each address (`last`), and performing the log on a
store (`replay`) overlays these on the store's old contents.

* **`replay_append`** — logs compose.
* **`replay_replay`** — performing a log twice in a row is performing it once: the second
  pass finds every address it writes already holding the value it leaves.
* **`perm_values_iff`** — when a listing of the store misses no write.
* **`injective_prefixes_iff`**, **`faithful_prefixes_iff`** — when, at every moment of a log, no
  value is held at two addresses, and when besides none that was written is lost.
* **`last_filter`** — the part of a log outside a region of addresses is irrelevant to the
  region, which is what lets writers of disjoint regions interleave freely.
-/

namespace WriteLog

variable {A V : Type*} [DecidableEq A]

/-- The value the log leaves at `a`: that of its last write there, if it has one. -/
def last (log : List (A × V)) (a : A) : Option V :=
  (log.reverse.find? (fun w => w.1 = a)).map Prod.snd

/-- The store after performing the log on `m`. -/
def replay (log : List (A × V)) (m : A → Option V) : A → Option V :=
  fun a => (last log a).or (m a)

@[simp] theorem last_nil (a : A) : last ([] : List (A × V)) a = none := rfl

/-- The later log has the say, and the earlier one where that is silent. -/
theorem last_append (log log' : List (A × V)) (a : A) :
    last (log ++ log') a = (last log' a).or (last log a) := by
  simp only [last, List.reverse_append, List.find?_append]
  cases List.find? (fun w : A × V => w.1 = a) log'.reverse <;> rfl

@[simp] theorem last_singleton (w : A × V) (a : A) :
    last [w] a = if w.1 = a then some w.2 else none := by
  by_cases h : w.1 = a <;> simp [last, h]

/-- The first write counts only if no later one is for its address. -/
theorem last_cons (w : A × V) (log : List (A × V)) (a : A) :
    last (w :: log) a = (last log a).or (if w.1 = a then some w.2 else none) := by
  rw [← List.singleton_append, last_append, last_singleton]

/-- The last write to an address is one of the log. -/
theorem mem_of_last {log : List (A × V)} {a : A} {v : V} (h : last log a = some v) :
    (a, v) ∈ log := by
  obtain ⟨w, hw, rfl⟩ := Option.map_eq_some_iff.mp h
  have hmem := List.mem_of_find?_eq_some hw
  have haddr : w.1 = a := by simpa using List.find?_some hw
  subst haddr
  exact List.mem_reverse.mp hmem

/-- The log leaves an address alone exactly if no write is for it. -/
theorem last_eq_none_iff {log : List (A × V)} {a : A} :
    last log a = none ↔ ∀ w ∈ log, w.1 ≠ a := by
  simp [last]

/-- The last write to `a` is `v` exactly when the log ends in a write of `v` to `a`
followed by writes to other addresses only. -/
theorem last_eq_some_iff {log : List (A × V)} {a : A} {v : V} :
    last log a = some v ↔
      ∃ pre post, log = pre ++ (a, v) :: post ∧ ∀ w ∈ post, w.1 ≠ a := by
  constructor
  · intro h
    induction log with
    | nil => simp at h
    | cons w log ih =>
      rw [last_cons] at h
      cases hlog : last log a with
      | some u =>
        -- a later write to `a` hides this one
        rw [hlog] at h
        obtain ⟨pre, post, rfl, hpost⟩ := ih (by simpa using hlog.trans (by simpa using h))
        exact ⟨w :: pre, post, rfl, hpost⟩
      | none =>
        rw [hlog, Option.none_or] at h
        split at h
        · next haddr =>
          cases h
          refine ⟨[], log, ?_, last_eq_none_iff.mp hlog⟩
          rw [← haddr]; rfl
        · exact absurd h (by simp)
  · rintro ⟨pre, post, rfl, hpost⟩
    rw [last_append, last_cons, last_eq_none_iff.mpr hpost]
    simp

/-- Where no address is written twice every write is the last of its own. -/
theorem last_of_mem_of_nodup {log : List (A × V)} (hnd : (log.map Prod.fst).Nodup)
    {a : A} {v : V} (h : (a, v) ∈ log) : last log a = some v := by
  obtain ⟨pre, post, rfl⟩ := List.append_of_mem h
  refine last_eq_some_iff.mpr ⟨pre, post, rfl, ?_⟩
  intro w hw haddr
  have hnd' : (a :: post.map Prod.fst).Nodup := by
    rw [List.map_append] at hnd
    exact (List.nodup_append.mp hnd).2.1
  exact (List.nodup_cons.mp hnd').1 (List.mem_map.mpr ⟨w, hw, haddr⟩)

/-- A listing of what the log leaves has the value of every write exactly when no address is
written twice. -/
theorem perm_values_iff {log l : List (A × V)} (hnd : (l.map Prod.fst).Nodup)
    (hl : ∀ a v, (a, v) ∈ l ↔ last log a = some v) :
    (l.map Prod.snd).Perm (log.map Prod.snd) ↔ (log.map Prod.fst).Nodup := by
  constructor
  · intro h
    have hlength : log.length = l.length := by simpa using h.length_eq.symm
    have hsub : l.map Prod.fst ⊆ log.map Prod.fst := by
      intro a ha
      obtain ⟨w, hw, rfl⟩ := List.mem_map.mp ha
      exact List.mem_map.mpr ⟨w, mem_of_last ((hl w.1 w.2).mp hw), rfl⟩
    -- distinct addresses, as many as there are writes: the writes have no others
    have hperm : (l.map Prod.fst).Perm (log.map Prod.fst) :=
      (List.subperm_of_subset hnd hsub).perm_of_length_le (by simp [hlength])
    exact hperm.nodup_iff.mp hnd
  · intro h
    refine List.Perm.map Prod.snd ?_
    refine (List.perm_ext_iff_of_nodup (List.Nodup.of_map _ hnd) (List.Nodup.of_map _ h)).mpr ?_
    rintro ⟨a, v⟩
    rw [hl]
    exact ⟨mem_of_last, last_of_mem_of_nodup h⟩

/-- Dropping writes to other addresses does not change what the log leaves at `a`. -/
theorem last_filter {log : List (A × V)} {a : A} {p : A × V → Bool}
    (hp : ∀ w ∈ log, w.1 = a → p w) : last (log.filter p) a = last log a := by
  induction log with
  | nil => rfl
  | cons w log ih =>
    have ih := ih (fun u hu => hp u (by simp [hu]))
    rw [last_cons]
    by_cases hpw : p w
    · rw [List.filter_cons_of_pos hpw, last_cons, ih]
    · have hne : w.1 ≠ a := fun h => hpw (hp w (by simp) h)
      rw [List.filter_cons_of_neg hpw, ih, if_neg hne, Option.or_none]

/-- Addresses may be renamed, as long as different ones stay different. -/
theorem last_map_injective {B : Type*} [DecidableEq B] {g : A → B} (hg : Function.Injective g)
    (log : List (A × V)) (a : A) :
    last (log.map (fun w => (g w.1, w.2))) (g a) = last log a := by
  induction log with
  | nil => rfl
  | cons w log ih => simp only [List.map_cons, last_cons, ih, hg.eq_iff]

/-- Values may be encoded: the last write is still the last. -/
theorem last_map_value {W : Type*} (g : V → W) (log : List (A × V)) (a : A) :
    last (log.map (fun w => (w.1, g w.2))) a = (last log a).map g := by
  induction log with
  | nil => rfl
  | cons w log ih =>
    rw [List.map_cons, last_cons, last_cons, ih]
    cases last log a with
    | some v => rfl
    | none => by_cases h : w.1 = a <;> simp [h]

/-- An address holds something exactly when it was written. Writes only put values there, none takes
one away. -/
theorem isSome_last_iff {log : List (A × V)} {a : A} :
    (last log a).isSome ↔ ∃ v, (a, v) ∈ log := by
  rw [Option.isSome_iff_exists]
  constructor
  · rintro ⟨v, hv⟩
    exact ⟨v, mem_of_last hv⟩
  · rintro ⟨v, hv⟩
    cases hlast : last log a with
    | some u => exact ⟨u, rfl⟩
    | none => exact absurd rfl (last_eq_none_iff.mp hlast (a, v) hv)

@[simp] theorem replay_nil (m : A → Option V) : replay [] m = m := by
  funext a; simp [replay]

theorem replay_append (log log' : List (A × V)) (m : A → Option V) :
    replay (log ++ log') m = replay log' (replay log m) := by
  funext a
  simp only [replay, last_append, Option.or_assoc]

/-- What a log leaves at an address depends on what the store held there only. -/
theorem replay_congr_at {log : List (A × V)} {m m' : A → Option V} {a : A} (h : m a = m' a) :
    replay log m a = replay log m' a := by
  rw [replay, replay, h]

/-- Performing a log a second time changes nothing: every address already holds what its last write
wrote. -/
theorem replay_replay (log : List (A × V)) (m : A → Option V) :
    replay log (replay log m) = replay log m := by
  funext a
  cases h : last log a <;> simp [replay, h]

/-- One write changes its own address and no other. -/
theorem replay_singleton (w : A × V) (m : A → Option V) (a : A) :
    replay [w] m a = if w.1 = a then some w.2 else m a := by
  by_cases h : w.1 = a <;> simp [replay, h]

/-- An address no write is for keeps what it held. -/
theorem replay_of_not_mem {log : List (A × V)} {m : A → Option V} {a : A}
    (h : ∀ w ∈ log, w.1 ≠ a) : replay log m a = m a := by
  rw [replay, last_eq_none_iff.mpr h, Option.none_or]

/-- What an address holds at the end was written to it or was there before. -/
theorem mem_or_of_replay {log : List (A × V)} {m : A → Option V} {a : A} {v : V}
    (h : replay log m a = some v) : (a, v) ∈ log ∨ m a = some v := by
  cases hlast : last log a with
  | some u =>
    have hu : u = v := by simpa [replay, hlast] using h
    exact .inl (hu ▸ mem_of_last hlast)
  | none => exact .inr (by simpa [replay, hlast] using h)

/-- A written address holds a value from then on. -/
theorem isSome_replay_of_mem {log : List (A × V)} {m : A → Option V} {w : A × V} (h : w ∈ log) :
    (replay log m w.1).isSome := by
  cases hlast : last log w.1 with
  | some u => simp [replay, hlast]
  | none => exact absurd rfl (last_eq_none_iff.mp hlast w h)

/-- Nothing is ever removed. -/
theorem isSome_replay {log : List (A × V)} {m : A → Option V} {a : A} (h : (m a).isSome) :
    (replay log m a).isSome := by
  cases hlast : last log a <;> simp [replay, hlast, h]

/-- What a log assembled from blocks leaves at an address, read off another log block by
block. -/
theorem last_flatMap_congr {X B : Type*} [DecidableEq B] {xs : List X} {f : X → List (A × V)}
    {g : X → List (B × V)} {a : A} {b : B} (h : ∀ x ∈ xs, last (f x) a = last (g x) b) :
    last (xs.flatMap f) a = last (xs.flatMap g) b := by
  induction xs with
  | nil => rfl
  | cons x xs ih =>
    rw [List.flatMap_cons, List.flatMap_cons, last_append, last_append, h x (by simp),
      ih (fun y hy => h y (by simp [hy]))]

/-! ## Distinct values

A store lists its values. When does no value appear at two addresses, and when is none
missing, at every moment of a log? -/

/-- No value is held at two addresses. -/
def Injective (log : List (A × V)) : Prop :=
  ∀ a b v, last log a = some v → last log b = some v → a = b

/-- No value is held at two addresses, and every value written is held. -/
def Faithful (log : List (A × V)) : Prop :=
  Injective log ∧ ∀ w ∈ log, ∃ a, last log a = some w.2

/-- A value written anew at another address first has its old address overwritten. -/
def OverwrittenBetween (log : List (A × V)) : Prop :=
  ∀ pre w mid w' post, log = pre ++ w :: (mid ++ w' :: post) → w.2 = w'.2 → w.1 ≠ w'.1 →
    ∃ k ∈ mid, k.1 = w.1

omit [DecidableEq A] in
/-- A beginning of the log has fewer repeated values, each between the same writes. -/
theorem OverwrittenBetween.mono {log p : List (A × V)} (h : OverwrittenBetween log)
    (hp : p <+: log) : OverwrittenBetween p := by
  obtain ⟨rest, rfl⟩ := hp
  rintro pre w mid w' post rfl
  exact h pre w mid w' (post ++ rest) (by simp)

omit [DecidableEq A] in
/-- The later of two addresses that hold one value was written while the earlier held it. That
cannot be if the earlier was overwritten between the two. -/
theorem not_held_of_overwrittenBetween {log : List (A × V)} (h : OverwrittenBetween log)
    {pre mid post : List (A × V)} {w w' : A × V} (hlog : log = pre ++ w :: (mid ++ w' :: post))
    (hv : w.2 = w'.2) (ha : w.1 ≠ w'.1) : ¬ ∀ k ∈ mid ++ w' :: post, k.1 ≠ w.1 := by
  intro hlast
  obtain ⟨k, hk, hka⟩ := h pre w mid w' post hlog hv ha
  exact hlast k (by simp [hk]) hka

/-- So at the end no value is at two addresses. Of the two writes one came later, and it is the case
above. -/
theorem injective_of_overwrittenBetween {log : List (A × V)} (h : OverwrittenBetween log) :
    Injective log := by
  intro a b v ha hb
  by_contra hne
  obtain ⟨P, P', hP, hPlast⟩ := last_eq_some_iff.mp ha
  obtain ⟨Q, Q', hQ, hQlast⟩ := last_eq_some_iff.mp hb
  -- compare the positions of the two surviving writes
  rcases List.append_eq_append_iff.mp (hP.symm.trans hQ) with ⟨mid, hQP, hmid⟩ | ⟨mid, hPQ, hmid⟩
  · cases mid with
    | nil => exact hne (congrArg (fun w => w.1) (List.cons.inj hmid).1)
    | cons x mid =>
      obtain ⟨rfl, hP'⟩ := List.cons.inj hmid
      subst hP'
      exact not_held_of_overwrittenBetween h hP rfl hne hPlast
  · cases mid with
    | nil => exact hne (congrArg (fun w => w.1) (List.cons.inj hmid).1.symm)
    | cons x mid =>
      obtain ⟨rfl, hQ'⟩ := List.cons.inj hmid
      subst hQ'
      exact not_held_of_overwrittenBetween h hQ rfl (fun he => hne he.symm) hQlast

/-- **No value is ever held twice** exactly when each repeated value finds its old address
overwritten. -/
theorem injective_prefixes_iff {log : List (A × V)} :
    (∀ p, p <+: log → Injective p) ↔ OverwrittenBetween log := by
  constructor
  · rintro h pre w mid w' post rfl hv ha
    by_contra hnone
    -- right after the second write both addresses hold the value
    have hp : pre ++ w :: (mid ++ [w']) <+: pre ++ w :: (mid ++ w' :: post) := ⟨post, by simp⟩
    have hw : last (pre ++ w :: (mid ++ [w'])) w.1 = some w.2 := by
      refine last_eq_some_iff.mpr ⟨pre, mid ++ [w'], rfl, ?_⟩
      intro k hk hka
      rcases List.mem_append.mp hk with hk | hk
      · exact hnone ⟨k, hk, hka⟩
      · rw [List.mem_singleton.mp hk] at hka
        exact ha hka.symm
    have hw' : last (pre ++ w :: (mid ++ [w'])) w'.1 = some w.2 := by
      refine last_eq_some_iff.mpr ⟨pre ++ w :: mid, [], by simp [hv], by simp⟩
    exact ha (h _ hp _ _ _ hw hw')
  · intro h p hp
    exact injective_of_overwrittenBetween (h.mono hp)

/-- Address and value of the writes determine each other. -/
def Bijective (log : List (A × V)) : Prop :=
  log.Pairwise (fun w w' => w.1 = w'.1 ↔ w.2 = w'.2)

omit [DecidableEq A] in
/-- The same, for any two writes of the log. -/
theorem Bijective.forall {log : List (A × V)} (h : Bijective log) :
    ∀ w ∈ log, ∀ w' ∈ log, w.1 = w'.1 ↔ w.2 = w'.2 := by
  intro w hw w' hw'
  exact h.forall_of_forall_of_flip (fun x _ => by simp) (h.imp (fun hxy => by
    rw [flip, eq_comm, hxy, eq_comm])) hw hw'

/-- Then every write is still in place at the end: a later write to its address would be of the same
value. -/
theorem Bijective.last_eq {log : List (A × V)} (h : Bijective log) {w : A × V} (hw : w ∈ log) :
    last log w.1 = some w.2 := by
  cases hlast : last log w.1 with
  | none => exact absurd rfl (last_eq_none_iff.mp hlast w hw)
  | some v =>
    have := (h.forall w hw (w.1, v) (mem_of_last hlast)).mp rfl
    rw [this]

/-- Then the log leaves every value it wrote, and each at one address. -/
theorem Bijective.faithful {log : List (A × V)} (h : Bijective log) : Faithful log := by
  refine ⟨fun a b v ha hb => ?_, fun w hw => ⟨w.1, h.last_eq hw⟩⟩
  exact (h.forall (a, v) (mem_of_last ha) (b, v) (mem_of_last hb)).mpr rfl

/-- **Every value written is held exactly once, at every moment**, exactly when the addresses
and values of the writes determine each other. -/
theorem faithful_prefixes_iff {log : List (A × V)} :
    (∀ p, p <+: log → Faithful p) ↔ Bijective log := by
  constructor
  · intro h
    induction log using List.reverseRecOn with
    | nil => exact List.Pairwise.nil
    | append_singleton log x ih =>
      -- the earlier writes are settled; the last one is compared with each of them
      have hlog : Bijective log := ih (fun p hp => h p (hp.trans (List.prefix_append log [x])))
      obtain ⟨hinj, hheld⟩ := h (log ++ [x]) (List.prefix_refl _)
      have hx : last (log ++ [x]) x.1 = some x.2 := by simp [last_append]
      refine List.pairwise_append.mpr ⟨hlog, List.pairwise_singleton _ _, ?_⟩
      intro y hy z hz
      rw [List.mem_singleton.mp hz]
      constructor
      · -- overwriting a different value would lose it
        intro haddr
        obtain ⟨a, ha⟩ := hheld y (by simp [hy])
        by_cases hax : a = x.1
        · rw [hax, hx] at ha
          exact (Option.some_inj.mp ha).symm
        · have ha' : last log a = some y.2 := by
            simpa [last_append, Ne.symm hax] using ha
          have := (hlog.forall (a, y.2) (mem_of_last ha') y hy).mpr rfl
          exact absurd (this.trans haddr) hax
      · -- a second address for the value would duplicate it
        intro hval
        by_contra hne
        have hy' : last (log ++ [x]) y.1 = some x.2 := by
          rw [last_append, last_singleton, if_neg (fun he => hne he.symm), Option.none_or,
            hlog.last_eq hy, hval]
        exact hne (hinj _ _ _ hy' hx)
  · intro h p hp
    exact Bijective.faithful (h.sublist hp.sublist)

end WriteLog

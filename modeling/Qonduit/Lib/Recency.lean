import Mathlib.Data.List.AList
import Mathlib.Data.List.Dedup
import Mathlib.Data.List.MinMax
import Qonduit.Lib.WriteLog

/-!
# Recency

A table that keeps for each key what was put last. As an association list that inserts in front, it
has its keys in the order of their last puts, the newest first; the entry with the least stamp is at
its end. A table of bounded capacity holds a beginning of it.

* **`recent_concat`** — the distinct keys of a history, by their last occurrence.
* **`keys_build`**, **`lookup_build`** — a history of puts, read off the table it leaves.
* **`argmin_of_newestFirst`** — the least stamp is the last entry, however the table is traversed.
* **`take_kerase`**, **`filter_take`** — a beginning of the table is enough to know its beginning
  after the next put, and after its last entries are dropped.
-/

namespace Recency

variable {κ ν : Type*} [DecidableEq κ]

/-! ## Distinct keys -/

/-- The distinct keys of a history, that of the last occurrence first. -/
def recent (l : List κ) : List κ := l.dedup.reverse

/-- A key that occurs again at the end moves there: its earlier occurrence no longer counts. -/
theorem dedup_concat (l : List κ) (k : κ) : (l ++ [k]).dedup = l.dedup.erase k ++ [k] := by
  induction l with
  | nil => rfl
  | cons a l ih =>
    rw [List.cons_append]
    by_cases hmem : a ∈ l
    · rw [List.dedup_cons_of_mem (List.mem_append_left [k] hmem), List.dedup_cons_of_mem hmem, ih]
    · rw [List.dedup_cons_of_notMem hmem]
      by_cases hk : a = k
      · subst hk
        -- the occurrence in front gives way to the one at the end
        have hnew : a ∉ l.dedup := fun h => hmem (List.mem_dedup.mp h)
        rw [List.dedup_cons_of_mem (List.mem_append_right l (List.mem_singleton_self a)), ih,
          List.erase_cons_head, List.erase_of_not_mem hnew]
      · have hnew : a ∉ l ++ [k] := by
          rw [List.mem_append, List.mem_singleton]
          exact not_or.mpr ⟨hmem, hk⟩
        rw [List.dedup_cons_of_notMem hnew, ih, List.erase_cons_tail (by simpa using hk),
          List.cons_append]

/-- In a list without repetitions it does not matter from which end a key is erased. -/
theorem reverse_erase {l : List κ} (h : l.Nodup) (k : κ) :
    (l.erase k).reverse = l.reverse.erase k := by
  rw [h.erase_eq_filter, (List.nodup_reverse.mpr h).erase_eq_filter, List.filter_reverse]

theorem recent_concat (l : List κ) (k : κ) : recent (l ++ [k]) = k :: (recent l).erase k := by
  rw [recent, dedup_concat, List.reverse_append, reverse_erase (List.nodup_dedup l)]
  rfl

/-! ## Tables

A table inserts in front and erases the entry its key had, so its keys are the distinct keys of the
history by their last puts, and each has the value of its last put. -/

abbrev Table (κ ν : Type*) := AList fun _ : κ => ν

/-- The table a history of puts leaves. -/
def build (puts : List (κ × ν)) : Table κ ν := puts.foldl (fun m w => m.insert w.1 w.2) ∅

/-- One put more inserts into the table so far. -/
theorem build_concat (puts : List (κ × ν)) (w : κ × ν) :
    build (puts ++ [w]) = (build puts).insert w.1 w.2 := by
  rw [build, List.foldl_append]
  rfl

/-- The keys of the table stand in the order of their last puts, the newest first. -/
theorem keys_build (puts : List (κ × ν)) : (build puts).keys = recent (puts.map Prod.fst) := by
  induction puts using List.reverseRecOn with
  | nil => rfl
  | append_singleton puts w ih =>
    rw [build_concat, AList.keys_insert, ih, List.map_append, List.map_singleton, recent_concat]

/-- A key has the value of its last put, as in any log in which the last write wins. -/
theorem lookup_build (puts : List (κ × ν)) (k : κ) :
    (build puts).lookup k = WriteLog.last puts k := by
  induction puts using List.reverseRecOn with
  | nil => rfl
  | append_singleton puts w ih =>
    rw [build_concat, WriteLog.last_append, WriteLog.last_singleton]
    by_cases hk : w.1 = k
    · rw [if_pos hk, ← hk, AList.lookup_insert]
      rfl
    · rw [if_neg hk, AList.lookup_insert_ne (Ne.symm hk), ih]
      rfl

/-- A beginning of a table answers for the keys it has as the table does. -/
theorem lookup_of_isPrefix {m m' : Table κ ν} (h : m.entries <+: m'.entries) {k : κ}
    (hk : k ∈ m) : m.lookup k = m'.lookup k := by
  obtain ⟨v, hv⟩ := Option.isSome_iff_exists.mp (AList.lookup_isSome.mpr hk)
  have hmem : (⟨k, v⟩ : Σ _ : κ, ν) ∈ m'.entries := h.subset (AList.mem_lookup_iff.mp hv)
  rw [hv]
  exact (AList.mem_lookup_iff.mpr hmem).symm

/-! ## Beginnings of a table

A table that may hold only so many entries keeps a beginning of the unbounded one. The facts below
let it be computed from that beginning alone. -/

/-- Without some key, the first `n` entries are found among the first `n + 1`. -/
theorem take_kerase (l : List (Σ _ : κ, ν)) (k : κ) (n : Nat) :
    ((l.take (n + 1)).kerase k).take n = (l.kerase k).take n := by
  induction l generalizing n with
  | nil => rfl
  | cons e l ih =>
    rw [List.take_succ_cons]
    by_cases he : k = e.1
    · rw [List.kerase_cons_eq he, List.kerase_cons_eq he, List.take_take, Nat.min_self]
    · rw [List.kerase_cons_ne he, List.kerase_cons_ne he]
      cases n with
      | zero => rfl
      | succ n => rw [List.take_succ_cons, List.take_succ_cons, ih]

/-- Without its last entry a table is without the key of that entry, since no other entry has it. -/
theorem kerase_last {l : List (Σ _ : κ, ν)} {e : Σ _ : κ, ν} (h : (l ++ [e]).NodupKeys) :
    (l ++ [e]).kerase e.1 = l := by
  have hfront : (e :: (l ++ [])).NodupKeys := List.nodupKeys_middle.mp h
  rw [List.append_nil] at hfront
  rw [List.kerase_append_right (List.notMem_keys_of_nodupKeys_cons hfront), List.kerase_cons_eq rfl,
    List.append_nil]

/-- Where the entries kept come first, the beginning of what is kept is what is kept of the
beginning. -/
theorem filter_take {α : Type*} {keep : α → Bool} {l : List α}
    (h : l.Pairwise fun a b => keep b = true → keep a = true) (n : Nat) :
    (l.take n).filter keep = (l.filter keep).take n := by
  induction l generalizing n with
  | nil => simp
  | cons a l ih =>
    rw [List.pairwise_cons] at h
    cases n with
    | zero => rfl
    | succ n =>
      rw [List.take_succ_cons, List.filter_cons, List.filter_cons]
      split
      · rw [List.take_succ_cons, ih h.2]
      · next hdrop =>
        -- nothing behind `a` is kept
        have hrest : ∀ b ∈ l, ¬keep b = true := fun b hb hkeep => hdrop (h.1 b hb hkeep)
        rw [List.filter_eq_nil_iff.mpr hrest, List.take_nil, List.filter_eq_nil_iff]
        exact fun b hb => hrest b (List.mem_of_mem_take hb)

/-! ## Stamps -/

section Stamps

variable {τ : Type*} [LinearOrder τ] (stamp : ν → τ)

/-- Each entry was stamped after those behind it. -/
def NewestFirst (l : List (Σ _ : κ, ν)) : Prop := l.Pairwise fun a b => stamp b.2 < stamp a.2

omit [DecidableEq κ] in
/-- The entry with the least stamp is the last one, and it is the only one with that stamp. So it is
found in whatever order the entries are visited. -/
theorem argmin_of_newestFirst {l l' : List (Σ _ : κ, ν)} (h : NewestFirst stamp l)
    (hp : l'.Perm l) : l'.argmin (fun e => stamp e.2) = l.getLast? := by
  rcases List.eq_nil_or_concat l with rfl | ⟨init, e, rfl⟩
  · rw [hp.eq_nil]
    rfl
  · rw [List.concat_eq_append] at h hp ⊢
    rw [List.getLast?_concat]
    cases hmin : l'.argmin (fun e => stamp e.2) with
    | none =>
      rw [List.argmin_eq_none.mp hmin] at hp
      exact absurd hp.nil_eq (by simp)
    | some m =>
      have hle := List.le_of_mem_argmin (f := fun e : (Σ _ : κ, ν) => stamp e.2)
        (hp.mem_iff.mpr (List.mem_append_right init (List.mem_singleton_self e))) hmin
      rcases List.mem_append.mp (hp.mem_iff.mp (List.argmin_mem hmin)) with hm | hm
      · -- an entry before the last one has a later stamp
        have hlt := (List.pairwise_append.mp h).2.2 m hm e (List.mem_singleton_self e)
        exact absurd hle (not_le.mpr hlt)
      · rw [List.mem_singleton.mp hm]

end Stamps

end Recency

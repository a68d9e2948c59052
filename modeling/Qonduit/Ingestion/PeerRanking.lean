import Mathlib.Order.Lex
import Qonduit.Ingestion.PeerManager
import Qonduit.Lib.FloatOrder
import Qonduit.Lib.TopRanked

/-!
# Qonduit — who is picked

`best_peer` sorts its candidates by score and then by the time since they were seen, and picks one
of the first three at random. A score is never NaN, so that the order is total.

* **`Peer.isNumber_score`** — every score is a number.
* **`comparePeers_eq`** — the comparison is that of two ranks.
* **`bestPeer_picks_iff`** — an address can be picked exactly if one of its candidates has fewer
  than three ahead.
-/

namespace Qonduit

open FloatOrder

/-! ## Scores

The scores are computed with floating-point numbers. All that is needed of them is that none is NaN:
then comparing them is comparing their keys. -/

/-- The smaller of two numbers is a number. -/
theorem isNumber_min {x y : Float} (hx : IsNumber x) (hy : IsNumber y) : IsNumber (min x y) := by
  show IsNumber (if x ≤ y then x else y)
  split
  · exact hx
  · exact hy

namespace Peer

/-- **A score** is never NaN. -/
theorem isNumber_score (p : Peer) : IsNumber p.score := by
  unfold score
  split
  · -- every divisor is a constant or a count that is not zero
    have htenth : IsNonzero (10.0 : Float) := ⟨_, _, _, by decide, rfl⟩
    have hshare : IsNonzero (0.3 : Float) := ⟨_, _, _, by decide, rfl⟩
    have hbase : IsNonzero (0.7 : Float) := ⟨_, _, _, by decide, rfl⟩
    exact hbase.add (((isNumber_min (isNumber_toFloat _) htenth.isNumber).div htenth).mul hshare)
  · have hhalf : IsNonzero (0.5 : Float) := ⟨_, _, _, by decide, rfl⟩
    show IsNumber (if p.successCount + p.failureCount = 0 then (0.3 : Float) else _)
    by_cases htotal : p.successCount + p.failureCount = 0
    · rw [if_pos htotal]
      have hfresh : IsNonzero (0.3 : Float) := ⟨_, _, _, by decide, rfl⟩
      exact hfresh.isNumber
    · rw [if_neg htotal]
      exact ((isNumber_toFloat _).div (isNonzero_toFloat htotal)).mul hhalf

end Peer

namespace PeerManager

/-! ## The order

Peers are sorted by their scores and, where these are equal, by how recently they were seen. That is
a linear order of ranks, though different peers may have the same rank. -/

/-- What a peer is ranked by: its score, then the time since it was seen. -/
def rank (now : Instant) (p : Peer) : (Int ×ₗ Int ×ₗ Int) ×ₗ Nat :=
  toLex (key p.score.toModel.unpack, sinceSeen now p)

/-- **Peers are compared by their ranks**, the higher one first. -/
theorem comparePeers_eq (now : Instant) (a b : Peer) :
    comparePeers now a b = compare (rank now b) (rank now a) := by
  have hscore : partialCmp b.score a.score = some (compare (key b.score.toModel.unpack)
      (key a.score.toModel.unpack)) := compare_eq_key b.isNumber_score a.isNumber_score
  rw [comparePeers, hscore]
  rfl

/-- `a` may stand before `b`. -/
def Precedes (now : Instant) (a b : Peer) : Prop := comparePeers now a b ≠ .gt

instance (now : Instant) : DecidableRel (Precedes now) :=
  fun a b => inferInstanceAs (Decidable (comparePeers now a b ≠ .gt))

/-- A peer may stand before another if its rank is not lower. -/
theorem precedes_iff {now : Instant} {a b : Peer} :
    Precedes now a b ↔ rank now b ≤ rank now a := by
  rw [Precedes, comparePeers_eq]
  exact compare_le_iff_le

instance (now : Instant) : Std.Total (Precedes now) where
  total a b := by
    rw [precedes_iff, precedes_iff]
    exact le_total (rank now b) (rank now a)

instance (now : Instant) : IsTrans Peer (Precedes now) where
  trans a b c hab hbc := by
    rw [precedes_iff] at hab hbc ⊢
    exact hbc.trans hab

/-! ## The first three

One of the first three candidates is drawn. As the sort is stable, the place of a candidate is the
number of those with a higher rank, or with the same one and in front of it in the list. -/

/-- A peer is among the candidates. -/
def contends (m : PeerManager) (p : Peer) : Bool := qualifies p || !m.peers.any qualifies

/-- The candidates are the peers that qualify, or all where none does. The code filters the list and
falls back to it if nothing is left. -/
theorem candidates_eq (m : PeerManager) : m.candidates = m.peers.filter m.contends := by
  show (if (m.peers.filter qualifies).isEmpty then m.peers else m.peers.filter qualifies) = _
  -- whether some peer qualifies decides which of the two
  cases hany : m.peers.any qualifies with
  | false =>
    have hnone : m.peers.filter qualifies = [] :=
      List.filter_eq_nil_iff.mpr (List.any_eq_false.mp hany)
    have hall : m.peers.filter m.contends = m.peers := by
      refine List.filter_eq_self.mpr (fun p _ => ?_)
      rw [contends, hany]
      exact Bool.or_true _
    rw [hnone, hall]
    rfl
  | true =>
    rcases List.any_eq_true.mp hany with ⟨p, hp, hq⟩
    have hne : m.peers.filter qualifies ≠ [] :=
      List.ne_nil_of_mem (List.mem_filter.mpr ⟨hp, hq⟩)
    rw [if_neg (fun h => hne (List.isEmpty_iff.mp h))]
    refine List.filter_congr (fun q _ => ?_)
    rw [contends, hany]
    exact (Bool.or_false _).symm

/-- The candidates ahead of an entry, of those that stand before it in the list and behind it. -/
def rivals (m : PeerManager) (now : Instant) (p : Peer) (before behind : List Peer) : List Peer :=
  TopRanked.ahead (Precedes now) p (before.filter m.contends) (behind.filter m.contends)

/-- A peer is among the first ones of the ranking if few enough are ahead of it. -/
theorem mem_take_ranked_iff {m : PeerManager} {now : Instant} {p : Peer} {k : Nat} :
    p ∈ (m.ranked now).take k ↔ ∃ before behind, m.peers = before ++ p :: behind ∧
      m.contends p ∧ (m.rivals now p before behind).length < k := by
  show p ∈ (m.candidates.insertionSort (Precedes now)).take k ↔ _
  rw [TopRanked.mem_take_insertionSort_iff, candidates_eq]
  refine ⟨fun h => ?_, fun h => ?_⟩
  · rcases h with ⟨before', behind', hsplit, hlt⟩
    rcases List.filter_eq_append_iff.mp hsplit with ⟨front, back, hpeers, rfl, hback⟩
    rcases List.filter_eq_cons_iff.mp hback with ⟨skipped, behind, rfl, hskipped, hp, rfl⟩
    refine ⟨front ++ skipped, behind, by rw [hpeers, List.append_assoc], hp, ?_⟩
    have hnone : skipped.filter m.contends = [] := List.filter_eq_nil_iff.mpr hskipped
    rw [rivals, List.filter_append, hnone, List.append_nil]
    exact hlt
  · rcases h with ⟨before, behind, hsplit, hp, hlt⟩
    refine ⟨before.filter m.contends, behind.filter m.contends, ?_, hlt⟩
    rw [hsplit, List.filter_append, List.filter_cons_of_pos hp]

/-- The draw is taken modulo the number of candidates, and modulo three where there are more. -/
theorem bestPeer_eq (m : PeerManager) (now : Instant) (pick : Nat) :
    m.bestPeer now pick = if (m.ranked now).isEmpty then none
      else ((m.ranked now)[pick % min (m.ranked now).length 3]?).map (·.addr) := rfl

/-- Where there are peers, one is picked. -/
theorem bestPeer_of_nonempty {m : PeerManager} (h : m.peers ≠ []) (now : Instant) (pick : Nat) :
    ∃ addr, m.bestPeer now pick = some addr := by
  have hcandidates : m.candidates ≠ [] := by
    show (if (m.peers.filter qualifies).isEmpty then m.peers else m.peers.filter qualifies) ≠ []
    split
    · exact h
    · rename_i hsome
      exact fun hnil => hsome (List.isEmpty_iff.mpr hnil)
  have hlen : 0 < (m.ranked now).length := by
    show 0 < (m.candidates.insertionSort (Precedes now)).length
    rw [List.length_insertionSort]
    exact List.length_pos_of_ne_nil hcandidates
  have hpick : pick % min (m.ranked now).length 3 < (m.ranked now).length :=
    Nat.lt_of_lt_of_le (Nat.mod_lt _ (by omega)) (Nat.min_le_left _ 3)
  rw [bestPeer_eq, if_neg (fun hempty => List.length_pos_iff.mp hlen (List.isEmpty_iff.mp hempty)),
    List.getElem?_eq_getElem hpick]
  exact ⟨_, rfl⟩

/-- So each of the first three can be drawn, and no other. A draw below the number of candidates is
not changed by the modulus, so it can be the place of any of them. -/
theorem exists_bestPeer_iff {m : PeerManager} {now : Instant} {addr : SocketAddr} :
    (∃ pick, m.bestPeer now pick = some addr) ↔ ∃ p ∈ (m.ranked now).take 3, p.addr = addr := by
  refine ⟨fun h => ?_, fun h => ?_⟩
  · rcases h with ⟨pick, h⟩
    rw [bestPeer_eq] at h
    split at h
    · exact nomatch h
    · rename_i hsome
      rcases Option.map_eq_some_iff.mp h with ⟨p, hp, haddr⟩
      have hlen : 0 < (m.ranked now).length :=
        List.length_pos_of_ne_nil (fun hnil => hsome (List.isEmpty_iff.mpr hnil))
      rcases List.getElem?_eq_some_iff.mp hp with ⟨hlt, rfl⟩
      have htop : pick % min (m.ranked now).length 3 < min 3 (m.ranked now).length := by
        rw [Nat.min_comm]
        exact Nat.mod_lt _ (by omega)
      exact ⟨_, List.mem_take_iff_getElem.mpr ⟨_, htop, rfl⟩, haddr⟩
  · rcases h with ⟨p, hp, haddr⟩
    rcases List.mem_take_iff_getElem.mp hp with ⟨i, hi, rfl⟩
    have hlt : i < (m.ranked now).length := by omega
    -- the draw is the place itself
    refine ⟨i, ?_⟩
    rw [bestPeer_eq, if_neg, Nat.mod_eq_of_lt (by omega), List.getElem?_eq_getElem hlt]
    · exact congrArg some haddr
    · intro hempty
      rw [List.isEmpty_iff.mp hempty] at hlt
      exact Nat.not_lt_zero i hlt

/-- **Who can be picked**: an address with a candidate that fewer than three are ahead of. -/
theorem bestPeer_picks_iff {m : PeerManager} {now : Instant} {addr : SocketAddr} :
    (∃ pick, m.bestPeer now pick = some addr) ↔ ∃ before p behind,
      m.peers = before ++ p :: behind ∧ p.addr = addr ∧ m.contends p ∧
      (m.rivals now p before behind).length < 3 := by
  rw [exists_bestPeer_iff]
  refine ⟨fun h => ?_, fun h => ?_⟩
  · rcases h with ⟨p, hp, haddr⟩
    rcases mem_take_ranked_iff.mp hp with ⟨before, behind, hsplit, hcontends, hlt⟩
    exact ⟨before, p, behind, hsplit, haddr, hcontends, hlt⟩
  · rcases h with ⟨before, p, behind, hsplit, haddr, hcontends, hlt⟩
    exact ⟨p, mem_take_ranked_iff.mpr ⟨before, behind, hsplit, hcontends, hlt⟩, haddr⟩

/-- Only known peers are picked. -/
theorem known_of_bestPeer {m : PeerManager} {now : Instant} {pick : Nat} {addr : SocketAddr}
    (h : m.bestPeer now pick = some addr) : addr ∈ m.peers.map (·.addr) := by
  rcases bestPeer_picks_iff.mp ⟨pick, h⟩ with ⟨before, p, behind, hpeers, rfl, -⟩
  rw [hpeers]
  exact List.mem_map_of_mem (List.mem_append_right _ List.mem_cons_self)

/-- None is picked only where no peer is known. -/
theorem bestPeer_eq_none_iff {m : PeerManager} {now : Instant} {pick : Nat} :
    m.bestPeer now pick = none ↔ m.peers = [] := by
  refine ⟨fun hnone => ?_, fun hnil => ?_⟩
  · by_contra hpeers
    rcases bestPeer_of_nonempty hpeers now pick with ⟨addr, hsome⟩
    rw [hnone] at hsome
    exact nomatch hsome
  · cases hbest : m.bestPeer now pick with
    | none => rfl
    | some addr =>
      have hknown := known_of_bestPeer hbest
      rw [hnil] at hknown
      exact nomatch hknown

end PeerManager

end Qonduit

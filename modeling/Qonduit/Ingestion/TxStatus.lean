import Qonduit.Core.Json
import Qonduit.Ingestion.RecordDecoders

/-!
# Qonduit — the digest count of a transaction status

`decode_tx_status` reads the number of digests from the payload, reserves room for that many, and
then looks whether the payload holds them. A payload that does not is accepted with its count and
no digest.

* **`decodeTxStatusReserving`** — the decoder with what it reserves, as `decodeTxStatus` otherwise.
* **`tx_status_bounded_iff`** — decoding is bounded by the payload if it holds what it announces.
* **`tx_status_overcommits`** — 524 bytes that announce a digest, and hold none.
-/

namespace Qonduit

/-- A call together with the capacities it reserves, oldest first, however it ends. -/
abbrev Reserving := ExceptT Fault (StateM (List Nat))

namespace Reserving

variable {α β : Type}

def lift (x : Outcome α) : Reserving α := fun reserved => (x, reserved)

/-- `Vec::with_capacity(n)`. -/
def withCapacity (n : Nat) : Reserving Unit := fun reserved => (.ok (), reserved ++ [n])

/-- What does not reserve goes on at once. -/
theorem lift_ok_bind (a : α) (k : α → Reserving β) : (lift (.ok a) >>= k) = k a := rfl

/-- A reservation is recorded before what follows it. -/
theorem withCapacity_bind (n : Nat) (k : Unit → Reserving β) (reserved : List Nat) :
    (withCapacity n >>= k) reserved = k () (reserved ++ [n]) := rfl

/-- What has been reserved before does not show in the outcome of a call. -/
theorem fst_lift_bind (x : Outcome α) (k : α → Reserving β) (reserved : List Nat) :
    ((lift x >>= k) reserved).1 = x >>= fun a => (k a reserved).1 := by
  cases x with
  | ok a => rfl
  | error e => rfl

def outcome (x : Reserving α) : Outcome α := (x []).1

def reserved (x : Reserving α) : List Nat := (x []).2

end Reserving

open Reserving in
def decodeTxStatusReserving (c : Crates) (payload : Bytes) (_tick : UInt32) :
    Reserving TxStatusResponse :=
  if payload.length < 524 then
    lift (bail s!"TxStatus payload too small: {payload.length} < 524")
  else do
    let currentTickOfNode := UInt32.fromLeBytes (← lift (sliceAt payload 0 4))
    let respTick := UInt32.fromLeBytes (← lift (sliceAt payload 4 8))
    let txCount := UInt32.fromLeBytes (← lift (sliceAt payload 8 12))
    let moneyFlewHex := c.hex.encode (← lift (sliceAt payload 12 524))
    let digestsStart := 524
    let digestsEnd := digestsStart + txCount.toNat * 32
    -- the count of the peer, before anything is compared with it
    withCapacity txCount.toNat
    let txDigests ← lift
      (if digestsEnd ≤ payload.length then pushEach txCount.toNat (txDigest c payload)
      else .ok [])
    lift (.ok { currentTickOfNode, tick := respTick, txCount, moneyFlewHex, txDigests })

/-! ## The fields of a transaction status

The decoder reserves room for as many digests as the payload announces, before it looks whether they
are there. -/

namespace TxStatusWire

def txCount (w : Bytes) : UInt32 := UInt32.fromLeBytes (Wire.field w 8 4)

/-- The payload holds the digests it announces. -/
def Holds (w : Bytes) : Prop := 524 + 32 * (txCount w).toNat ≤ w.length

instance (w : Bytes) : Decidable (Holds w) := inferInstanceAs (Decidable (_ ≤ _))

/-- The hex digits of digest `i`. -/
def digestHex (c : Crates) (w : Bytes) (i : Nat) : Str :=
  c.hex.encode (Wire.field w (524 + 32 * i) 32)

/-- The record the fields of a payload spell, without digests where there are too few. -/
def txStatusOf (c : Crates) (w : Bytes) : TxStatusResponse where
  currentTickOfNode := UInt32.fromLeBytes (Wire.field w 0 4)
  tick := UInt32.fromLeBytes (Wire.field w 4 4)
  txCount := txCount w
  moneyFlewHex := c.hex.encode (Wire.field w 12 512)
  txDigests := if Holds w then (List.range (txCount w).toNat).map (digestHex c w) else []

end TxStatusWire

open TxStatusWire

variable (c : Crates) {w : Bytes}

theorem txDigest_eq {i : Nat} (h : 524 + 32 * i + 32 ≤ w.length) :
    txDigest c w i = .ok (some (digestHex c w i)) := by
  rw [txDigest, show 524 + i * 32 = 524 + 32 * i from by omega,
    Wire.sliceAt_eq_field (Nat.le_add_right _ _) h, Nat.add_sub_cancel_left]
  rfl

/-- The digest loop reads nothing out of range: it runs only where all digests are there. -/
theorem txDigests_eq :
    (if 524 + (txCount w).toNat * 32 ≤ w.length then
        pushEach (txCount w).toNat (txDigest c w) else .ok [])
      = .ok (txStatusOf c w).txDigests := by
  by_cases h : Holds w
  · have hend : 524 + 32 * (txCount w).toNat ≤ w.length := h
    rw [if_pos (by omega)]
    refine (pushEach_items List.length_range (g := digestHex c w) (fun i x hx => ?_)).trans ?_
    · obtain ⟨hi, rfl⟩ := List.getElem?_eq_some_iff.mp hx
      rw [List.length_range] at hi
      rw [List.getElem_range]
      exact txDigest_eq c (by omega)
    · exact congrArg Except.ok (if_pos h).symm
  · have hend : ¬524 + 32 * (txCount w).toNat ≤ w.length := h
    rw [if_neg (by omega)]
    exact congrArg Except.ok (if_neg h).symm

/-- **A payload of at least 524 bytes decodes**, and its count is reserved. -/
theorem decodeTxStatusReserving_eq (h : 524 ≤ w.length) (tick : UInt32) :
    decodeTxStatusReserving c w tick [] = (.ok (txStatusOf c w), [(txCount w).toNat]) := by
  have hslice : ∀ {a b}, a ≤ b → b ≤ 524 → sliceAt w a b = .ok (Wire.field w a (b - a)) :=
    fun hab hb => Wire.sliceAt_eq_field hab (Nat.le_trans hb h)
  have hcount : UInt32.fromLeBytes (Wire.field w 8 (12 - 8)) = txCount w := rfl
  have hdigests := txDigests_eq c (w := w)
  rw [decodeTxStatusReserving, if_neg (Nat.not_lt.mpr h), hslice (by decide) (by decide),
    hslice (by decide) (by decide), hslice (by decide) (by decide),
    hslice (by decide) (by decide)]
  simp only [Reserving.lift_ok_bind, hcount, Reserving.withCapacity_bind, hdigests]
  rfl

/-- The reservations are beside the outcome: what is returned is what `decodeTxStatus` returns. -/
theorem outcome_decodeTxStatusReserving (tick : UInt32) :
    (decodeTxStatusReserving c w tick).outcome = decodeTxStatus c w tick := by
  rw [Reserving.outcome, decodeTxStatusReserving, decodeTxStatus]
  by_cases h : w.length < 524
  · rw [if_pos h, if_pos h]
    rfl
  · rw [if_neg h, if_neg h]
    simp only [Reserving.fst_lift_bind, Reserving.withCapacity_bind]
    refine bind_congr fun _ => bind_congr fun _ => bind_congr fun count => bind_congr fun _ => ?_
    by_cases hend : 524 + (UInt32.fromLeBytes count).toNat * 32 ≤ w.length
    · rw [if_pos hend, if_pos hend]
      rfl
    · rw [if_neg hend, if_neg hend]
      rfl

theorem decodeTxStatus_eq (h : 524 ≤ w.length) (tick : UInt32) :
    decodeTxStatus c w tick = .ok (txStatusOf c w) := by
  rw [← outcome_decodeTxStatusReserving, Reserving.outcome, decodeTxStatusReserving_eq c h]

/-! ## What the payload bounds

Everything is bounded by the payload if it holds what it announces. Where it does not, the digests
are left out and the count stays, and so does the reservation. -/

/-- Decoding reads nothing out of range, reserves room for no more digests than the payload can
hold, returns the digests it counts, and refuses a payload that ends before them. -/
structure TxStatusBounded (c : Crates) (w : Bytes) (tick : UInt32) : Prop where
  inRange : ∀ what, decodeTxStatus c w tick ≠ .error (.panic what)
  reserved : ∀ n ∈ (decodeTxStatusReserving c w tick).reserved, n ≤ (w.length - 524) / 32
  digests : ∀ r, decodeTxStatus c w tick = .ok r → r.txDigests.length = r.txCount.toNat ∧
    ∀ i < r.txCount.toNat, r.txDigests[i]? = some (digestHex c w i)
  short : ¬Holds w → ∃ chain, decodeTxStatus c w tick = .error (.err chain)

/-- No payload, whatever its count, is read out of range. -/
theorem decodeTxStatus_ne_panic (h : 524 ≤ w.length) (tick : UInt32) (what : String) :
    decodeTxStatus c w tick ≠ .error (.panic what) := by
  rw [decodeTxStatus_eq c h]
  intro hpanic
  cases hpanic

/-- The reservation is within the payload if the digests are. -/
theorem reserved_le_iff (h : 524 ≤ w.length) (tick : UInt32) :
    (∀ n ∈ (decodeTxStatusReserving c w tick).reserved, n ≤ (w.length - 524) / 32) ↔ Holds w := by
  rw [Reserving.reserved, decodeTxStatusReserving_eq c h, List.forall_mem_singleton]
  show (txCount w).toNat ≤ (w.length - 524) / 32 ↔ 524 + 32 * (txCount w).toNat ≤ w.length
  omega

/-- If the digests are there, all of them are returned. -/
theorem digests_of_holds (h : Holds w) :
    (txStatusOf c w).txDigests.length = (txCount w).toNat ∧
    ∀ i < (txCount w).toNat, (txStatusOf c w).txDigests[i]? = some (digestHex c w i) := by
  have hdigests : (txStatusOf c w).txDigests
      = (List.range (txCount w).toNat).map (digestHex c w) := if_pos h
  rw [hdigests]
  refine ⟨by rw [List.length_map, List.length_range], fun i hi => ?_⟩
  rw [List.getElem?_map, List.getElem?_range hi]
  rfl

/-- A payload that ends before its digests is accepted with the count and without the digests. -/
theorem decodeTxStatus_of_not_holds (h : 524 ≤ w.length) (hshort : ¬Holds w) (tick : UInt32) :
    ∃ r, decodeTxStatus c w tick = .ok r ∧ r.txCount = txCount w ∧ r.txDigests = [] :=
  ⟨txStatusOf c w, decodeTxStatus_eq c h tick, rfl, if_neg hshort⟩

/-- **When decoding is bounded by the payload**: if and only if the payload holds all the digests
it announces. -/
theorem tx_status_bounded_iff (h : 524 ≤ w.length) (tick : UInt32) :
    TxStatusBounded c w tick ↔ 524 + 32 * (txCount w).toNat ≤ w.length := by
  constructor
  · intro hbounded
    exact (reserved_le_iff c h tick).mp hbounded.reserved
  · intro hholds
    refine ⟨decodeTxStatus_ne_panic c h tick, (reserved_le_iff c h tick).mpr hholds, ?_, ?_⟩
    · intro r hr
      rw [decodeTxStatus_eq c h] at hr
      cases hr
      exact digests_of_holds c hholds
    · intro hshort
      exact absurd hholds hshort

/-- A payload of 524 bytes with a digest count, all other fields zero. -/
def statusWithCount (txCount : UInt32) : Bytes :=
  List.replicate 8 0 ++ txCount.toLeBytes ++ List.replicate 512 0

theorem length_statusWithCount (n : UInt32) : (statusWithCount n).length = 524 := by
  rw [statusWithCount, List.length_append, List.length_append, List.length_replicate,
    List.length_replicate, UInt32.length_toLeBytes]

theorem txCount_statusWithCount (n : UInt32) : txCount (statusWithCount n) = n := by
  have hfield : Wire.field (statusWithCount n) 8 4 = n.toLeBytes := by
    rw [statusWithCount, Wire.field, List.append_assoc, List.drop_left' List.length_replicate,
      List.take_left' (UInt32.length_toLeBytes n)]
  rw [txCount, hfield, UInt32.fromLeBytes_toLeBytes]

/-- A status of no transactions. -/
theorem tx_status_bounded_sample : TxStatusBounded (Crates.ofKnown {}) (statusWithCount 0) 0 :=
  (tx_status_bounded_iff _ (Nat.le_of_eq (length_statusWithCount 0).symm) 0).mpr
    (by rw [txCount_statusWithCount, length_statusWithCount]; decide)

/-- 524 bytes that announce one digest: room for it is reserved, and the payload is accepted without
it. -/
theorem tx_status_overcommits :
    let w := statusWithCount 1
    (decodeTxStatusReserving (Crates.ofKnown {}) w 0).reserved = [1] ∧
    (∃ r, decodeTxStatus (Crates.ofKnown {}) w 0 = .ok r ∧ r.txCount = 1 ∧ r.txDigests = []) ∧
    ¬TxStatusBounded (Crates.ofKnown {}) w 0 := by
  intro w
  have hlen : w.length = 524 := length_statusWithCount _
  have hcount : txCount w = 1 := txCount_statusWithCount _
  have hlong : 524 ≤ w.length := Nat.le_of_eq hlen.symm
  have hshort : ¬Holds w := by
    rw [Holds, hcount, hlen]
    decide
  refine ⟨?_, ?_, fun hbounded => hshort ((reserved_le_iff _ hlong 0).mp hbounded.reserved)⟩
  · rw [Reserving.reserved, decodeTxStatusReserving_eq _ hlong, hcount]
    rfl
  · obtain ⟨r, hr, hannounced, hdigests⟩ :=
      decodeTxStatus_of_not_holds (Crates.ofKnown {}) hlong hshort 0
    exact ⟨r, hr, hannounced.trans hcount, hdigests⟩

end Qonduit

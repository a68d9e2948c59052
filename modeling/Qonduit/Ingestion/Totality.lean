import Qonduit.Lib.Totality
import Qonduit.Core.Json
import Qonduit.Ingestion.LogDecoders

/-!
# Qonduit — the decoders on network input

Which payloads a decoder of `decoders.rs` rejects, which it accepts, and whether any makes it
panic.

* **`decoders_reject_short_payloads`** — all decoders but that of ticks reject exactly the
  payloads below their minimum and accept every other.
* **`decodeTick_returns_iff`** — `decode_tick` does the like unless the month of a payload that
  passes its checks runs past the table of months.
-/

namespace Qonduit

open Fallible

/-- The call returns: with an `anyhow` error when `bad` holds, with a value otherwise. -/
def RejectsExactly {α : Type} (r : Outcome α) (bad : Prop) : Prop :=
  (bad → ∃ chain, r = .error (.err chain)) ∧ (¬bad → ∃ a, r = .ok a)

/-- A decoder that opens with a check of the length, and returns once it is passed. -/
theorem rejectsExactly_of_check {α : Type} {n : Nat} {w : Bytes} {msg : String} {r : Outcome α}
    {P : α → Prop} (h : n ≤ w.length → Returns r P) :
    RejectsExactly (if w.length < n then bail msg else r) (w.length < n) := by
  constructor
  · intro hshort
    exact ⟨[msg], if_pos hshort⟩
  · intro hlong
    rw [if_neg hlong]
    exact (h (Nat.not_lt.mp hlong)).value

/-! ## Reads in range

A decoder panics where it reads behind the end. Behind its check of the length each read is shown to
be in range, so that what is left is the check. -/

theorem sliceAt_returns {w : Bytes} {a b : Nat} (hab : a ≤ b) (hb : b ≤ w.length) :
    Returns (sliceAt w a b) (fun s => s.length = b - a) := by
  rw [Wire.sliceAt_eq_field hab hb]
  exact Returns.ok (Wire.length_field (by omega))

theorem byteAt_returns {w : Bytes} {i : Nat} (h : i < w.length) :
    Returns (byteAt w i) (fun _ => True) := by
  rw [byteAt_of_lt h]
  exact Returns.ok trivial

theorem copyFromSlice_returns {s : Bytes} (h : s.length = 32) :
    Returns (copyFromSlice s) (fun _ => True) := by
  rw [copyFromSlice_eq_keyOf h]
  exact Returns.ok trivial

theorem pushEach_returns {α : Type} {n : Nat} {turn : Nat → Outcome (Option α)}
    (h : ∀ i < n, Returns (turn i) (fun _ => True)) :
    Returns (pushEach n turn) (fun _ => True) := by
  refine Returns.foldlM (fun i hi items _ => ?_) trivial
  refine Returns.bind (h i (List.mem_range.mp hi)) (fun item _ => ?_)
  cases item with
  | some item => exact Returns.ok trivial
  | none => exact Returns.ok trivial

theorem copyFromSlice_field {w : Bytes} {a n : Nat} (hn : n = 32) (h : a + n ≤ w.length) :
    copyFromSlice (Wire.field w a n) = .ok (keyOf (Wire.field w a n)) :=
  copyFromSlice_eq_keyOf (hn ▸ Wire.length_field h)

/-! ## Records of fixed layout

Each of these decoders checks the length once, in front of all its reads. What differs is the
number. -/

section FixedLayout

variable (c : Crates) (w : Bytes)

/-- `decode_transaction`, from 80 bytes on. -/
theorem decodeTransaction_total : RejectsExactly (decodeTransaction c w) (w.length < 80) := by
  constructor
  · intro hshort
    obtain ⟨msg, hmsg⟩ := decodeTransaction_short c hshort
    exact ⟨[msg], hmsg⟩
  · intro hlong
    exact ⟨_, decodeTransaction_eq c (Nat.not_lt.mp hlong)⟩

theorem decodeEntity_total : RejectsExactly (decodeEntity c w) (w.length < 64) := by
  refine rejectsExactly_of_check (P := fun _ => True) (fun h => ?_)
  simp (disch := omega) only [Wire.sliceAt_eq_field, copyFromSlice_field, ok_bind]
  exact Returns.ok trivial

/-- `decode_current_tick_info`, from 16 bytes on. -/
theorem decodeCurrentTickInfo_total :
    RejectsExactly (decodeCurrentTickInfo w) (w.length < 16) := by
  refine rejectsExactly_of_check (P := fun _ => True) (fun h => ?_)
  simp (disch := omega) only [Wire.sliceAt_eq_field, ok_bind]
  -- the two optional fields check the length themselves
  split
  · rw [Wire.sliceAt_eq_field (by decide) (by omega), ok_bind]
    split
    · rw [Wire.sliceAt_eq_field (by decide) (by omega)]
      exact Returns.ok trivial
    · exact Returns.ok trivial
  · split
    · rw [Wire.sliceAt_eq_field (by decide) (by omega)]
      exact Returns.ok trivial
    · exact Returns.ok trivial

/-- `decode_system_info`, from 128 bytes on. -/
theorem decodeSystemInfo_total : RejectsExactly (decodeSystemInfo c w) (w.length < 128) := by
  refine rejectsExactly_of_check (P := fun _ => True) (fun h => ?_)
  simp (disch := omega) only [Wire.sliceAt_eq_field, byteAt_of_lt, ok_bind]
  exact Returns.ok trivial

/-- `decode_oracle_data`, from 4 bytes on. -/
theorem decodeOracleData_total : RejectsExactly (decodeOracleData c w) (w.length < 4) := by
  refine rejectsExactly_of_check (P := fun _ => True) (fun h => ?_)
  simp (disch := omega) only [Wire.sliceAt_eq_field, ok_bind]
  exact .ite (fun _ => Returns.ok trivial) (fun _ => Returns.ok trivial)

/-- `decode_oracle_query_metadata`, from 72 bytes on. -/
theorem decodeOracleQueryMetadata_total :
    RejectsExactly (decodeOracleQueryMetadata c w) (w.length < 72) := by
  refine rejectsExactly_of_check (n := 72) (P := fun _ => True) (fun h => ?_)
  simp (disch := omega) only [Wire.sliceAt_eq_field, byteAt_of_lt, ok_bind]
  exact Returns.ok trivial

/-- `decode_custom_mining_task`, from 233 bytes on. -/
theorem decodeCustomMiningTask_total :
    RejectsExactly (decodeCustomMiningTask c w) (w.length < 233) := by
  refine rejectsExactly_of_check (P := fun _ => True) (fun h => ?_)
  simp (disch := omega) only [Wire.sliceAt_eq_field, byteAt_of_lt, ok_bind]
  exact Returns.ok trivial

/-- `decode_custom_mining_solution`, from 201 bytes on. -/
theorem decodeCustomMiningSolution_total :
    RejectsExactly (decodeCustomMiningSolution c w) (w.length < 201) := by
  refine rejectsExactly_of_check (P := fun _ => True) (fun h => ?_)
  simp (disch := omega) only [Wire.sliceAt_eq_field, byteAt_of_lt, ok_bind]
  exact Returns.ok trivial

/-- The response to a pruning request, from 8 bytes on. -/
theorem decodePruningLogResponse_total :
    RejectsExactly (decodePruningLogResponse w) (w.length < 8) := by
  refine rejectsExactly_of_check (P := fun _ => True) (fun h => ?_)
  rw [Wire.sliceAt_eq_field (by decide) h]
  exact Returns.ok trivial

/-- `decode_log_state_digest`, from 32 bytes on. -/
theorem decodeLogStateDigest_total :
    RejectsExactly (decodeLogStateDigest c w) (w.length < 32) := by
  refine rejectsExactly_of_check (P := fun _ => True) (fun h => ?_)
  rw [Wire.sliceAt_eq_field (by decide) h]
  exact Returns.ok trivial

end FixedLayout

/-! ## Records that hold arrays

The offsets are computed from the number of the turn. The check in front of the loop covers the last
of them. -/

section Arrays

variable (c : Crates) (w : Bytes)

/-- A turn takes the key it finds, if the payload still holds one. -/
theorem computorKey_returns (i : Nat) : Returns (computorKey w i) (fun _ => True) := by
  unfold computorKey
  dsimp only
  split
  · next hkey =>
    refine Returns.bind (sliceAt_returns (Nat.le_add_right _ _) hkey) (fun key hlen => ?_)
    rw [Nat.add_sub_cancel_left] at hlen
    exact Returns.bind (copyFromSlice_returns hlen) (fun _ _ => Returns.ok trivial)
  · exact Returns.ok trivial

/-- `decode_computors`, from 21634 bytes on. -/
theorem decodeComputors_total : RejectsExactly (decodeComputors c w) (w.length < 21634) := by
  refine rejectsExactly_of_check (P := fun _ => True) (fun h => ?_)
  refine Returns.bind (sliceAt_returns (by decide) (by omega)) (fun _ _ => ?_)
  refine Returns.bind (pushEach_returns (fun i _ => computorKey_returns w i)) (fun _ _ => ?_)
  exact Returns.ok trivial

/-- Both arrays of a contract IPO lie within its 27048 bytes. -/
theorem contractBid_returns (h : 27048 ≤ w.length) {i : Nat} (hi : i < NUMBER_OF_COMPUTORS) :
    Returns (contractBid c w i) (fun _ => True) := by
  unfold contractBid
  simp only [NUMBER_OF_COMPUTORS, PUBLIC_KEY_SIZE] at hi ⊢
  refine Returns.bind (sliceAt_returns (by omega) (by omega)) (fun key hlen => ?_)
  refine Returns.bind (copyFromSlice_returns (by omega)) (fun _ _ => ?_)
  refine Returns.bind (sliceAt_returns (by omega) (by omega)) (fun _ _ => Returns.ok trivial)

/-- `decode_contract_ipo`, from 27048 bytes on. -/
theorem decodeContractIpo_total : RejectsExactly (decodeContractIpo c w) (w.length < 27048) := by
  refine rejectsExactly_of_check (P := fun _ => True) (fun h => ?_)
  refine Returns.bind (sliceAt_returns (by decide) (by omega)) (fun _ _ => ?_)
  refine Returns.bind (pushEach_returns (fun i hi => contractBid_returns c w h hi)) (fun _ _ => ?_)
  exact Returns.ok trivial

theorem logI64_returns {offset i : Nat} (h : offset + i * 8 + 8 ≤ w.length) :
    Returns (logI64 w offset i) (fun _ => True) :=
  Returns.bind (sliceAt_returns (Nat.le_add_right _ _) h) (fun _ _ => Returns.ok trivial)

/-- `decode_all_log_id_ranges`, from 65632 bytes on. -/
theorem decodeAllLogIdRanges_total (tick : UInt32) :
    RejectsExactly (decodeAllLogIdRanges w tick) (w.length < 65632) := by
  refine rejectsExactly_of_check (P := fun _ => True) (fun h => ?_)
  have hsize : LOG_TX_PER_TICK = 4102 := rfl
  refine Returns.bind (pushEach_returns (fun i hi => logI64_returns w ?_)) (fun _ _ => ?_)
  · omega
  · refine Returns.bind (pushEach_returns (fun i hi => logI64_returns w ?_)) (fun _ _ => ?_)
    · omega
    · exact Returns.ok trivial

end Arrays

/-! ## Log events

The size of an event is taken from the event itself, so the reads of a turn can not be covered by
one check. Each is preceded by its own. -/

section LogEvents

variable {w : Bytes}

/-- The length is read only where its two bytes are there. -/
theorem lengthPrefixed_returns (dataStart : Nat) :
    Returns (lengthPrefixed w dataStart) (fun _ => True) := by
  unfold lengthPrefixed
  split
  · next hlen =>
    exact Returns.bind (sliceAt_returns (Nat.le_add_right _ _) hlen) (fun _ _ => Returns.ok trivial)
  · exact Returns.ok trivial

/-- So the size of an event is found or not, but never read out of range. -/
theorem logDataSize_returns (offset : Nat) (eventType : UInt8) :
    Returns (logDataSize w offset eventType) (fun _ => True) := by
  unfold logDataSize
  -- every type decides at once, but for the lengths read from the data
  have hsize : ∀ n, Returns (.ok (some n) : Outcome (Option Nat)) (fun _ => True) :=
    fun _ => Returns.ok trivial
  have hprefix := lengthPrefixed_returns (w := w) (offset + LOG_HEADER_SIZE)
  refine .ite (fun _ => hsize _) (fun _ => .ite (fun _ => hsize _) (fun _ =>
    .ite (fun _ => hsize _) (fun _ => .ite (fun _ => hsize _) (fun _ =>
    .ite (fun _ => hprefix) (fun _ => .ite (fun _ => hsize _) (fun _ =>
    .ite (fun _ => hsize _) (fun _ => .ite (fun _ => hsize _) (fun _ =>
    .ite (fun _ => hsize _) (fun _ => .ite (fun _ => hsize _) (fun _ =>
    .ite (fun _ => hsize _) (fun _ => .ite (fun _ => hsize _) (fun _ =>
    .ite (fun _ => hprefix) (fun _ => .ite (fun _ => hprefix) (fun _ =>
    .ite (fun hbyte => ?_) (fun _ => Returns.ok trivial)))))))))))))))
  refine Returns.bind (byteAt_returns hbyte) (fun _ _ => ?_)
  exact .ite (fun _ => hsize _) (fun _ => Returns.ok trivial)

/-- Where a whole header fits, the turn returns: `data` are sliced after a check of their end. -/
theorem logEventAt_returns {offset : Nat} (h : offset + LOG_HEADER_SIZE ≤ w.length) :
    Returns (logEventAt w offset) (fun _ => True) := by
  have hsize : LOG_HEADER_SIZE = 26 := rfl
  unfold logEventAt
  simp (disch := omega) only [Wire.sliceAt_eq_field, byteAt_of_lt, ok_bind]
  refine Returns.bind (logDataSize_returns _ _) (fun dataSize _ => ?_)
  cases dataSize with
  | none => exact Returns.ok trivial
  | some dataSize =>
    dsimp only
    split
    · exact Returns.ok trivial
    · rw [Wire.sliceAt_eq_field (Nat.le_add_right _ _) (by omega)]
      exact Returns.ok trivial

/-- The loop returns: each turn leaves fewer bytes behind its offset. -/
theorem logEventsFrom_returns (offset : Nat) (events : List LogEvent) :
    Returns (logEventsFrom w offset events) (fun _ => True) := by
  induction offset, events using logEventsFrom.induct w with
  | case1 offset events hfit ih =>
    rw [logEventsFrom, if_pos hfit]
    refine Returns.bind (logEventAt_returns hfit) (fun turn _ => ?_)
    cases turn with
    | none => exact Returns.ok trivial
    | some turn => exact ih turn.1 turn.2
  | case2 offset events hfit =>
    rw [logEventsFrom, if_neg hfit]
    exact Returns.ok trivial

theorem decodeLogEvents_total (w : Bytes) : RejectsExactly (decodeLogEvents w) (w.length < 8) :=
  rejectsExactly_of_check (fun _ => logEventsFrom_returns 8 [])

end LogEvents

/-! ## All decoders -/

/-- **No payload makes these decoders panic**: each rejects the payloads below its minimum and
accepts every other. -/
theorem decoders_reject_short_payloads (c : Crates) (w : Bytes) (tick : UInt32) :
    RejectsExactly (decodeTransaction c w) (w.length < 80) ∧
    RejectsExactly (decodeComputors c w) (w.length < 21634) ∧
    RejectsExactly (decodeEntity c w) (w.length < 64) ∧
    RejectsExactly (decodeCurrentTickInfo w) (w.length < 16) ∧
    RejectsExactly (decodeSystemInfo c w) (w.length < 128) ∧
    RejectsExactly (decodeContractIpo c w) (w.length < 27048) ∧
    RejectsExactly (decodeLogEvents w) (w.length < 8) ∧
    RejectsExactly (decodeOracleData c w) (w.length < 4) ∧
    RejectsExactly (decodeOracleQueryMetadata c w) (w.length < 72) ∧
    RejectsExactly (decodeCustomMiningTask c w) (w.length < 233) ∧
    RejectsExactly (decodeCustomMiningSolution c w) (w.length < 201) ∧
    RejectsExactly (decodePruningLogResponse w) (w.length < 8) ∧
    RejectsExactly (decodeLogStateDigest c w) (w.length < 32) ∧
    RejectsExactly (decodeAllLogIdRanges w tick) (w.length < 65632) :=
  ⟨decodeTransaction_total c w, decodeComputors_total c w, decodeEntity_total c w,
    decodeCurrentTickInfo_total w, decodeSystemInfo_total c w, decodeContractIpo_total c w,
    decodeLogEvents_total w, decodeOracleData_total c w, decodeOracleQueryMetadata_total c w,
    decodeCustomMiningTask_total c w, decodeCustomMiningSolution_total c w,
    decodePruningLogResponse_total w, decodeLogStateDigest_total c w,
    decodeAllLogIdRanges_total w tick⟩

open TickWire

/-- A tick is refused for its length, its epoch or its computor index. -/
theorem not_passesChecks {w : Bytes} :
    ¬PassesChecks w ↔ w.length < 48 ∨ epoch w > 1000 ∨ computorIndex w > 1000 := by
  simp only [PassesChecks, not_and_or, Nat.not_le, UInt16.not_le, gt_iff_lt]

/-- **When `decode_tick` returns as its checks announce**: unless the month of a payload that
passes them runs past the table of months. -/
theorem decodeTick_returns_iff (c : Crates) (w : Bytes) :
    RejectsExactly (decodeTick c w) (w.length < 48 ∨ epoch w > 1000 ∨ computorIndex w > 1000) ↔
      (w.length < 48 ∨ epoch w > 1000 ∨ computorIndex w > 1000) ∨ month w ≤ 13 := by
  rw [← not_passesChecks]
  obtain ⟨hbad, msg, hmsg⟩ | ⟨hpass, hmonth, hpanic⟩ | ⟨hpass, hmonth, d, hd, -⟩ :=
    decodeTick_cases c w
  · rw [hmsg]
    exact ⟨fun _ => .inl hbad, fun _ => ⟨fun _ => ⟨_, rfl⟩, fun hgood => absurd hbad hgood⟩⟩
  · rw [hpanic]
    constructor
    · intro h
      obtain ⟨d, hd⟩ := h.2 (not_not_intro hpass)
      cases hd
    · rintro (hbad | hle)
      · exact absurd hpass hbad
      · exact absurd hmonth (UInt8.not_lt.mpr hle)
  · rw [hd]
    exact ⟨fun _ => .inr hmonth, fun _ => ⟨fun hbad => absurd hpass hbad, fun _ => ⟨d, rfl⟩⟩⟩

/-- A payload of 48 bytes, all zero but for the month. -/
def monthFourteen : Bytes := List.replicate 14 0 ++ 14 :: List.replicate 33 0

/-- Month 14 passes every check and panics on the table of months. -/
theorem decodeTick_panics_on_month_fourteen :
    decodeTick (Crates.ofKnown {}) monthFourteen = .error (.panic "index out of bounds") ∧
    ¬RejectsExactly (decodeTick (Crates.ofKnown {}) monthFourteen)
      (monthFourteen.length < 48 ∨ epoch monthFourteen > 1000 ∨
        computorIndex monthFourteen > 1000) := by
  have hpass : PassesChecks monthFourteen := by decide
  have hpanic : decodeTick (Crates.ofKnown {}) monthFourteen
      = .error (.panic "index out of bounds") := by
    rw [decodeTick_of_passesChecks _ hpass, qubicDateToUnix_panics _ (by decide)]
    rfl
  refine ⟨hpanic, fun h => ?_⟩
  obtain ⟨d, hd⟩ := h.2 (fun hbad => not_passesChecks.mpr hbad hpass)
  rw [hpanic] at hd
  cases hd

end Qonduit

import Qonduit.Core.Json
import Qonduit.Processor.Consumer
import Qonduit.Query.Rpc
import Qonduit.Storage.WarmScan

/-!
# Qonduit — numeric arguments

A REST path holds the decimal text of a number, parsed into the exact width. A JSON-RPC parameter
is a 64-bit number, narrowed to the width of the key. The two front ends answer alike below the
width, and beyond it RPC answers for another number.

* **`parseU32_jsonNat`**, **`parseU16_jsonNat`** — the text of a number parses if it is in range.
* **`numeric_params_agree_iff`** — where the front ends agree, method by method.
* **`numeric_param_wraps`** — the tick RPC serves for 2^32 + 5.
-/

namespace Qonduit

/-! ## The text of a number

REST gets a number as decimal digits and parses them, so that a number out of range is an error
there. -/

theorem foldl_jsonNat (n : Nat) :
    (jsonNat n).foldl (fun n b => 10 * n + (b.toNat - 48)) 0 = n := by
  rw [jsonNat, List.foldl_map]
  refine (List.foldl_ext _ _ _ (fun sofar ch hch => ?_)).trans Nat.ofDigitChars_ten_toDigits
  have hval := (toNat_of_isDigit (isDigit_toDigits hch)).2.2
  show 10 * sofar + ((UInt8.ofNat ch.toNat).toNat - 48) = 10 * sofar + (ch.toNat - 48)
  rw [hval]

/-- They are parsed in 32 bits if the number is in range. -/
theorem parseU32_jsonNat (n : Nat) :
    parseU32 (jsonNat n) = if n < 2 ^ 32 then some (UInt32.ofNat n) else none := by
  have hall : ∀ b ∈ jsonNat n, 48 ≤ b ∧ b ≤ 57 := fun b hb =>
    of_decide_eq_true (isDigit_of_mem_jsonNat hb)
  have hplus : (jsonNat n).head? ≠ some 43 := by
    intro hhead
    have hdigit := (hall 43 (List.mem_of_mem_head? hhead)).1
    exact absurd hdigit (by decide)
  have hdigits : jsonNat n ≠ [] ∧ (jsonNat n).all (fun b => 48 ≤ b ∧ b ≤ 57) :=
    ⟨jsonNat_ne_nil n, List.all_eq_true.mpr (fun b hb => decide_eq_true (hall b hb))⟩
  simp only [parseU32, if_neg hplus, if_pos hdigits, foldl_jsonNat]

/-- They are parsed in 16 bits likewise. -/
theorem parseU16_jsonNat (n : Nat) :
    parseU16 (jsonNat n) = if n < 2 ^ 16 then some (UInt16.ofNat n) else none := by
  rw [parseU16, parseU32_jsonNat]
  by_cases hwide : n < 2 ^ 32
  · have hval : (UInt32.ofNat n).toNat = n := UInt32.toNat_ofNat_of_lt' hwide
    rw [if_pos hwide, Option.bind_some, hval]
    by_cases hn : n < 2 ^ 16
    · rw [if_pos hn, if_pos hn]
      refine congrArg some (UInt16.toNat_inj.mp ?_)
      rw [UInt32.toNat_toUInt16, hval, UInt16.toNat_ofNat']
    · rw [if_neg hn, if_neg hn]
  · rw [if_neg hwide, if_neg (by omega)]
    rfl

/-! ## The answers of the front ends

REST passes stored bytes on as they are, and the RPC parses them. Where they do not parse, the one
answers with the bytes and the other one with an error. -/

/-- A REST response and an RPC result say the same: the data, that there is none, or that the
argument is invalid. -/
inductive SameOutcome (c : Crates) : Response → Outcome Value → Prop
  | data {json : Bytes} {v : Value} (h : c.serde.valueFromSlice json = .ok v) :
    SameOutcome c (.raw json) (.ok v)
  | document (v : Value) : SameOutcome c (.json v) (.ok v)
  | notFound : SameOutcome c .notFound (.ok .null)
  | invalid {error : String} {chain : List String}
      (h : Rpc.errorCode (chain.headD "") = -32602) :
    SameOutcome c (.badRequest error) (.error (.err chain))

/-- What is stored, if anything, parses as JSON. -/
def Readable (c : Crates) (stored : Option Bytes) : Prop :=
  ∀ json, stored = some json → ∃ v, c.serde.valueFromSlice json = .ok v

/-- No message of `serde_json` looks like that of a missing parameter. -/
def SerdeErrors (c : Crates) : Prop :=
  ∀ json error, c.serde.valueFromSlice json = .error error → Rpc.errorCode error ≠ -32602

/-- The two agree on stored bytes that parse, and where there are none. -/
theorem sameOutcome_stored_iff {c : Crates} {stored : Option Bytes} :
    SameOutcome c (jsonOr404 stored) (Rpc.parseStored c stored) ↔ Readable c stored := by
  cases stored with
  | none => exact ⟨fun _ _ h => (nomatch h), fun _ => .notFound⟩
  | some json =>
    cases hread : c.serde.valueFromSlice json with
    | ok v =>
      rw [Rpc.parseStored, hread]
      refine ⟨fun _ json' h => ⟨v, ?_⟩, fun _ => .data hread⟩
      rw [← Option.some.inj h, hread]
    | error e =>
      rw [Rpc.parseStored, hread]
      refine ⟨fun h => (nomatch h), fun h => ?_⟩
      rcases h json rfl with ⟨v, hv⟩
      rw [hread] at hv
      exact nomatch hv

/-- No answer of the RPC to a stored document is a rejection of the argument. -/
theorem not_sameOutcome_badRequest {c : Crates} (hserde : SerdeErrors c) (stored : Option Bytes)
    (error : String) : ¬SameOutcome c (.badRequest error) (Rpc.parseStored c stored) := by
  intro h
  cases stored with
  | none => exact nomatch h
  | some json =>
    rw [Rpc.parseStored] at h
    cases hread : c.serde.valueFromSlice json with
    | ok v =>
      rw [hread] at h
      exact nomatch h
    | error e =>
      rw [hread] at h
      cases h with
      | invalid hcode => exact hserde json e hread hcode

/-- A lookup that REST rejects and RPC answers for another number agrees within the range. -/
theorem sameOutcome_lookup_iff {c : Crates} (hserde : SerdeErrors c) {inRange : Prop}
    [Decidable inRange] {stored : Option Bytes} {error : String} :
    SameOutcome c (if inRange then jsonOr404 stored else .badRequest error)
        (Rpc.parseStored c stored) ↔ inRange ∧ Readable c stored := by
  by_cases hin : inRange
  · rw [if_pos hin, sameOutcome_stored_iff]
    exact (and_iff_right hin).symm
  · rw [if_neg hin]
    exact ⟨fun h => absurd h (not_sameOutcome_badRequest hserde stored error),
      fun h => absurd h.1 hin⟩

/-! ## One number, read twice

The RPC gets a number of 64 bits and cuts it to the width of the key. Out of range it therefore
answers for another number, where REST refuses. -/

/-- `[n]`. -/
def numericParams (n : UInt64) : Option Value := some (.array [.nat n])

namespace Rpc

theorem extractU32Param_numericParams (n : UInt64) :
    extractU32Param (numericParams n) 0 = .ok n.toUInt32 := rfl

theorem extractU16Param_numericParams (n : UInt64) :
    extractU16Param (numericParams n) 0 = .ok n.toUInt16 := rfl

theorem extractOptionalU16Param_numericParams (n : UInt64) :
    extractOptionalU16Param (numericParams n) 0 = .ok (some n.toUInt16) := rfl

end Rpc

/-- A number in range is the same through either front end. -/
theorem ofNat_toNat_eq_toUInt32 (n : UInt64) : UInt32.ofNat n.toNat = n.toUInt32 := by
  refine UInt32.toNat_inj.mp ?_
  rw [UInt32.toNat_ofNat', UInt64.toNat_toUInt32]

theorem ofNat_toNat_eq_toUInt16 (n : UInt64) : UInt16.ofNat n.toNat = n.toUInt16 := by
  refine UInt16.toNat_inj.mp ?_
  rw [UInt16.toNat_ofNat', UInt64.toNat_toUInt16]

theorem Rest.getTick_jsonNat (s : WarmStorage) (n : UInt64) :
    Rest.getTick s (jsonNat n.toNat)
      = if n.toNat < 2 ^ 32 then jsonOr404 (s.getTick n.toUInt32)
        else .badRequest "Invalid tick: must be a valid u32" := by
  rw [Rest.getTick, parseU32_jsonNat, ofNat_toNat_eq_toUInt32]
  by_cases hn : n.toNat < 2 ^ 32
  · simp only [if_pos hn]
  · simp only [if_neg hn]

theorem Rest.getContractIpo_jsonNat (s : WarmStorage) (n : UInt64) :
    Rest.getContractIpo s (jsonNat n.toNat)
      = if n.toNat < 2 ^ 32 then jsonOr404 (s.getContractIpo n.toUInt32)
        else .badRequest "Invalid contract IPO index: must be a valid u32" := by
  rw [Rest.getContractIpo, parseU32_jsonNat, ofNat_toNat_eq_toUInt32]
  by_cases hn : n.toNat < 2 ^ 32
  · simp only [if_pos hn]
  · simp only [if_neg hn]

theorem Rest.getEpoch_jsonNat (s : WarmStorage) (n : UInt64) :
    Rest.getEpoch s (jsonNat n.toNat)
      = if n.toNat < 2 ^ 16 then jsonOr404 (s.getEpochStats n.toUInt16)
        else .badRequest "Invalid epoch: must be a valid u16" := by
  rw [Rest.getEpoch, parseU16_jsonNat, ofNat_toNat_eq_toUInt16]
  by_cases hn : n.toNat < 2 ^ 16
  · simp only [if_pos hn]
  · simp only [if_neg hn]

/-- The listing of a tick is the same document through either front end, and never an error. -/
theorem sameOutcome_tickTransactions_iff (c : Crates) (s : WarmStorage) (n : UInt64) :
    (∃ r, Rest.getTickTransactions c s (jsonNat n.toNat) = .ok r ∧
        SameOutcome c r (Rpc.getTickTransactions c s (numericParams n))) ↔ n.toNat < 2 ^ 32 := by
  rcases s.getTxHashesForTick_ok n.toUInt32 with ⟨hashes, hhashes, -⟩
  have hrpc : Rpc.getTickTransactions c s (numericParams n)
      = .ok (.array (listTransactions c s hashes)) := by
    rw [Rpc.getTickTransactions, Rpc.extractU32Param_numericParams]
    simp only [ok_bind, hhashes]
  by_cases hn : n.toNat < 2 ^ 32
  · refine iff_of_true ⟨.json (.array (listTransactions c s hashes)), ?_, ?_⟩ hn
    · simp only [Rest.getTickTransactions, parseU32_jsonNat, if_pos hn, ofNat_toNat_eq_toUInt32,
        hhashes, orStorageErr]
    · rw [hrpc]
      exact .document _
  · refine iff_of_false (fun h => ?_) hn
    rcases h with ⟨r, hrest, hsame⟩
    simp only [Rest.getTickTransactions, parseU32_jsonNat, if_neg hn] at hrest
    rw [← Except.ok.inj hrest, hrpc] at hsame
    exact nomatch hsame

/-- **Where RPC and REST agree on a number.** For every store and every 64-bit `n`: the lookups of
a tick, of a contract IPO and of an epoch agree if `n` is in the range of the key and the document
under it parses, the listings of a tick if `n` is in range, and the extraction helpers return `n`
itself if it is in range; each only then. -/
theorem numeric_params_agree_iff {c : Crates} (hserde : SerdeErrors c) (s : WarmStorage)
    (n : UInt64) :
    (SameOutcome c (Rest.getTick s (jsonNat n.toNat)) (Rpc.getBlock c s (numericParams n)) ↔
      n.toNat < 2 ^ 32 ∧ Readable c (s.getTick n.toUInt32)) ∧
    ((∃ r, Rest.getTickTransactions c s (jsonNat n.toNat) = .ok r ∧
        SameOutcome c r (Rpc.getTickTransactions c s (numericParams n))) ↔ n.toNat < 2 ^ 32) ∧
    (SameOutcome c (Rest.getContractIpo s (jsonNat n.toNat))
        (Rpc.getContractIpo c s (numericParams n)) ↔
      n.toNat < 2 ^ 32 ∧ Readable c (s.getContractIpo n.toUInt32)) ∧
    (SameOutcome c (Rest.getEpoch s (jsonNat n.toNat)) (Rpc.getEpochStats c s (numericParams n)) ↔
      n.toNat < 2 ^ 16 ∧ Readable c (s.getEpochStats n.toUInt16)) ∧
    ((∀ v, Rpc.extractU32Param (numericParams n) 0 = .ok v → v.toNat = n.toNat) ↔
      n.toNat < 2 ^ 32) ∧
    ((∀ v, Rpc.extractU16Param (numericParams n) 0 = .ok v → v.toNat = n.toNat) ↔
      n.toNat < 2 ^ 16) ∧
    ((∀ v, Rpc.extractOptionalU16Param (numericParams n) 0 = .ok (some v) → v.toNat = n.toNat) ↔
      n.toNat < 2 ^ 16) := by
  -- cutting keeps the numbers in range, and no other
  have h32 : n.toUInt32.toNat = n.toNat ↔ n.toNat < 2 ^ 32 := by
    rw [UInt64.toNat_toUInt32]
    omega
  have h16 : n.toUInt16.toNat = n.toNat ↔ n.toNat < 2 ^ 16 := by
    rw [UInt64.toNat_toUInt16]
    omega
  refine ⟨?_, sameOutcome_tickTransactions_iff c s n, ?_, ?_, ?_, ?_, ?_⟩
  · rw [Rest.getTick_jsonNat]
    exact sameOutcome_lookup_iff hserde
  · rw [Rest.getContractIpo_jsonNat]
    exact sameOutcome_lookup_iff hserde
  · rw [Rest.getEpoch_jsonNat]
    exact sameOutcome_lookup_iff hserde
  · rw [Rpc.extractU32Param_numericParams, ← h32]
    exact ⟨fun h => h _ rfl, fun h v hv => Except.ok.inj hv ▸ h⟩
  · rw [Rpc.extractU16Param_numericParams, ← h16]
    exact ⟨fun h => h _ rfl, fun h v hv => Except.ok.inj hv ▸ h⟩
  · rw [Rpc.extractOptionalU16Param_numericParams, ← h16]
    exact ⟨fun h => h _ rfl, fun h v hv => Option.some.inj (Except.ok.inj hv) ▸ h⟩

/-! ## A stored tick

One tick, asked for by its number and by a number that is cut to it. -/

def sampleStoredTick : Known where
  ticks := [sampleTick 7 5]
  values := [((sampleTick 7 5).json, (sampleTick 7 5).document)]

def sampleTickStore : WarmStorage :=
  (Indexer.run (.ofKnown sampleStoredTick) (Indexer.new .empty {})
    [(.tick, (sampleTick 7 5).json)]).storage

/-- The sample codec gives no such message either. -/
theorem serdeErrors_ofKnown (known : Known) : SerdeErrors (.ofKnown known) := by
  intro json error h
  have herror : error = "expected value at line 1 column 1" := by
    simp only [Crates.ofKnown] at h
    split at h
    · cases h
    · exact (Except.error.inj h).symm
  rw [herror]
  decide

theorem getTick_sampleTickStore :
    sampleTickStore.getTick 5 = some (sampleTick 7 5).json := by decide +kernel

theorem valueFromSlice_sampleTick : (Crates.ofKnown sampleStoredTick).serde.valueFromSlice
    (sampleTick 7 5).json = .ok (sampleTick 7 5).document :=
  Crates.valueFromSlice_ofKnown List.lookup_cons_self

/-- Tick 5 is the same through both. -/
theorem numeric_params_sample :
    SameOutcome (.ofKnown sampleStoredTick) (Rest.getTick sampleTickStore (ascii "5"))
      (Rpc.getBlock (.ofKnown sampleStoredTick) sampleTickStore (numericParams 5)) := by
  have h := numeric_params_agree_iff (serdeErrors_ofKnown sampleStoredTick) sampleTickStore 5
  refine h.1.mpr ⟨by decide, fun json hjson => ⟨(sampleTick 7 5).document, ?_⟩⟩
  have hstored : sampleTickStore.getTick (5 : UInt64).toUInt32 = some (sampleTick 7 5).json :=
    getTick_sampleTickStore
  rw [← Option.some.inj (hstored.symm.trans hjson)]
  exact valueFromSlice_sampleTick

/-- REST rejects 2^32 + 5, RPC answers with tick 5. The tick is stored and its document parses, so
both are answers of the code to a well-formed request. -/
theorem numeric_param_wraps :
    let c := Crates.ofKnown sampleStoredTick
    let n : UInt64 := 0x100000005
    Rest.getTick sampleTickStore (jsonNat n.toNat)
      = .badRequest "Invalid tick: must be a valid u32" ∧
    Rpc.getBlock c sampleTickStore (numericParams n) = .ok (sampleTick 7 5).document ∧
    ¬SameOutcome c (Rest.getTick sampleTickStore (jsonNat n.toNat))
      (Rpc.getBlock c sampleTickStore (numericParams n)) ∧
    Rpc.extractU32Param (numericParams n) 0 = .ok 5 := by
  intro c n
  have hn : n.toUInt32 = 5 := by decide
  have hrest : Rest.getTick sampleTickStore (jsonNat n.toNat)
      = .badRequest "Invalid tick: must be a valid u32" := by
    rw [Rest.getTick_jsonNat]
    exact if_neg (by decide)
  have hrpc : Rpc.getBlock c sampleTickStore (numericParams n)
      = .ok (sampleTick 7 5).document := by
    rw [Rpc.getBlock, Rpc.extractU32Param_numericParams, hn, ok_bind, getTick_sampleTickStore,
      Rpc.parseStored, valueFromSlice_sampleTick]
  refine ⟨hrest, hrpc, ?_, ?_⟩
  · rw [hrest, hrpc]
    exact fun h => nomatch h
  · rw [Rpc.extractU32Param_numericParams, hn]

end Qonduit

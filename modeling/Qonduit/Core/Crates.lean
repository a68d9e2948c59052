import Qonduit.Core.Structs

/-!
# Qonduit — third-party crates

The pipeline calls four crates whose code is not part of the repository: `serde_json`,
`hex`, `sha2` and `kangarootwelve`. They enter the model as one parameter, `Crates`. Of
the hash functions nothing is assumed. Of `hex` the structure carries the two documented
laws the code relies on. Of `serde_json` a result states what it needs.
-/

namespace Qonduit

structure JsonCodec (α : Type) where
  toVec : α → Bytes
  fromSlice : Bytes → Except String α

/-- `serde_json` at the types the pipeline moves. -/
structure SerdeJson where
  tickData : JsonCodec TickData
  transaction : JsonCodec Transaction
  entityData : JsonCodec EntityData
  computors : JsonCodec Computors
  assetRecord : JsonCodec AssetRecord
  contractIpo : JsonCodec ContractIpo
  logEvent : JsonCodec LogEvent
  logEvents : JsonCodec (List LogEvent)
  epochStats : JsonCodec EpochStats
  valueFromSlice : Bytes → Except String Value

/-- The `hex` crate: `decode` undoes `encode` and halves the length; `error` is the text of
the error a failing `decode` returns. -/
structure HexCrate where
  encode : Bytes → Str
  decode : Str → Option Bytes
  error : Str → String
  decode_encode : ∀ bs, decode (encode bs) = some bs
  length_of_decode : ∀ {s bs}, decode s = some bs → s.length = 2 * bs.length

/-- Two characters for each byte. -/
theorem HexCrate.length_encode (h : HexCrate) (bs : Bytes) :
    (h.encode bs).length = 2 * bs.length :=
  h.length_of_decode (h.decode_encode bs)

structure Crates where
  serde : SerdeJson
  hex : HexCrate
  /-- The first three bytes squeezed from `KangarooTwelve::hash(key, b"")`. -/
  k12 : Key32 → UInt8 × UInt8 × UInt8
  sha256 : Bytes → Key32

/-! ## Lower-case hexadecimal -/

def hexDigit (n : Nat) : UInt8 :=
  if n < 10 then 48 + UInt8.ofNat n else 87 + UInt8.ofNat n

def hexNibble (ch : UInt8) : Option Nat :=
  if 48 ≤ ch ∧ ch ≤ 57 then some (ch.toNat - 48)
  else if 97 ≤ ch ∧ ch ≤ 102 then some (ch.toNat - 87)
  else if 65 ≤ ch ∧ ch ≤ 70 then some (ch.toNat - 55)
  else none

def hexEncode (bs : Bytes) : Str :=
  bs.flatMap (fun b => [hexDigit (b.toNat / 16), hexDigit (b.toNat % 16)])

def hexDecode : Str → Option Bytes
  | [] => some []
  | [_] => none
  | hi :: lo :: rest => do
    let h ← hexNibble hi
    let l ← hexNibble lo
    let bs ← hexDecode rest
    some (UInt8.ofNat (16 * h + l) :: bs)

theorem hexNibble_hexDigit : ∀ n < 16, hexNibble (hexDigit n) = some n := by
  decide

/-- Bytes come back from their digits. -/
theorem hexDecode_hexEncode (bs : Bytes) : hexDecode (hexEncode bs) = some bs := by
  induction bs with
  | nil => rfl
  | cons b bs ih =>
    have hb : b.toNat < 256 := b.toNat_lt
    have hsplit : 16 * (b.toNat / 16) + b.toNat % 16 = b.toNat := Nat.div_add_mod _ _
    show hexDecode (hexDigit (b.toNat / 16) :: hexDigit (b.toNat % 16) :: hexEncode bs) = _
    rw [hexDecode, hexNibble_hexDigit _ (by omega), hexNibble_hexDigit _ (by omega), ih]
    simp only [Option.bind_eq_bind, Option.bind_some, hsplit, UInt8.ofNat_toNat]

/-- What decodes had two digits for each byte; an odd number of them is refused. -/
theorem length_of_hexDecode {s : Str} {bs : Bytes} (h : hexDecode s = some bs) :
    s.length = 2 * bs.length := by
  induction s using hexDecode.induct generalizing bs with
  | case1 => cases h; rfl
  | case2 _ => cases h
  | case3 hi lo rest ih =>
    rw [hexDecode] at h
    simp only [Option.bind_eq_bind, Option.bind_eq_some_iff] at h
    obtain ⟨_, -, _, -, bs', hrest, hbs⟩ := h
    cases hbs
    have := ih hrest
    simp only [List.length_cons]
    omega

/-- The error of a text that is not hexadecimal. -/
def hexError (s : Str) : String :=
  if s.length % 2 ≠ 0 then "Odd number of digits"
  else
    match s.findIdx? (fun ch => (hexNibble ch).isNone) with
    | some i => s!"Invalid character {(Char.ofNat (s[i]!).toNat).quote} at position {i}"
    | none => "Invalid string length"

/-- The `hex` crate's own behaviour. -/
def HexCrate.lower : HexCrate where
  encode := hexEncode
  decode := hexDecode
  error := hexError
  decode_encode := hexDecode_hexEncode
  length_of_decode := length_of_hexDecode

end Qonduit

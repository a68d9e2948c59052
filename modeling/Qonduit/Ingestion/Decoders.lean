import Qonduit.Core.Identity

/-!
# Qonduit — wire decoders

`decoders.rs`: raw payloads to typed records, and the transaction hash of `hash.rs`. A decoder
reads its payload through slices that panic out of range.

* **`decodeTransaction_eq`** — a payload of at least 80 bytes decodes, to the record its fields
  spell (`transactionOf`), whatever its length beyond.
* A payload that ends before its announced input is still accepted: its hash, input and
  signature are then empty strings.
-/

namespace Qonduit

def TX_HEADER_SIZE : Nat := 80

def SIGNATURE_SIZE : Nat := 64

def PUBLIC_KEY_SIZE : Nat := 32

def NUMBER_OF_COMPUTORS : Nat := 676

/-! ## Transaction hash -/

/-- The bytes a transaction hash covers: everything before the signature. -/
def txHashInput (txBytes : Bytes) (inputSize : UInt16) : Bytes :=
  let hashLen := 80 + inputSize.toNat
  -- the fallback is dead in `decode_transaction`, which hashes complete payloads only
  if txBytes.length ≥ hashLen then txBytes.take hashLen else txBytes

def computeTxHash (c : Crates) (txBytes : Bytes) (inputSize : UInt16) : Key32 :=
  c.sha256 (txHashInput txBytes inputSize)

def hashToHex (c : Crates) (hash : Key32) : Str := c.hex.encode hash.toList

/-! ## Transaction

The decoder of type 24 packets. The hash and the fields behind the header are there only as far as
the payload is. -/

/-- `if present { hex::encode(&payload[a..b]) } else { String::new() }`. -/
def hexSliceIf (c : Crates) (present : Prop) [Decidable present] (payload : Bytes) (a b : Nat) :
    Outcome Str :=
  if present then do
    .ok (c.hex.encode (← sliceAt payload a b))
  else .ok []

def decodeTransaction (c : Crates) (payload : Bytes) : Outcome Transaction :=
  let len := payload.length
  if len < TX_HEADER_SIZE then
    bail s!"Transaction payload too small: {len} < {TX_HEADER_SIZE}"
  else do
    let source ← copyFromSlice (← sliceAt payload 0 32)
    let destination ← copyFromSlice (← sliceAt payload 32 64)
    let amount := Int64.fromLeBytes (← sliceAt payload 64 72)
    let tick := UInt32.fromLeBytes (← sliceAt payload 72 76)
    let inputType := UInt16.fromLeBytes (← sliceAt payload 76 78)
    let inputSize := UInt16.fromLeBytes (← sliceAt payload 78 80)
    -- a payload that ends before its input or signature is accepted, with the field empty
    let inputEnd := TX_HEADER_SIZE + inputSize.toNat
    let inputHex ← hexSliceIf c (inputSize > 0 ∧ len ≥ inputEnd) payload TX_HEADER_SIZE inputEnd
    let sigStart := inputEnd
    let sigEnd := sigStart + SIGNATURE_SIZE
    let signatureHex ← hexSliceIf c (len ≥ sigEnd) payload sigStart sigEnd
    let hash := if len ≥ inputEnd then hashToHex c (computeTxHash c payload inputSize) else []
    .ok {
      hash
      sourceHex := c.hex.encode source.toList
      sourceIdentity := encodeBase26 c source
      destinationHex := c.hex.encode destination.toList
      destinationIdentity := encodeBase26 c destination
      amount
      tick
      inputType
      inputSize
      inputHex
      inputTypeName := (InputType.classify inputType).label
      signatureHex }

/-! ## The fields of a transaction payload

A transaction is read at fixed offsets, and its input and its signature behind the header at offsets
that the size of the input determines. Every slice the decoder takes is shown to be one of these
fields, as far as the payload reaches. -/

namespace Wire

def field (w : Bytes) (offset size : Nat) : Bytes := (w.drop offset).take size

def source (w : Bytes) : Key32 := keyOf (field w 0 32)

def destination (w : Bytes) : Key32 := keyOf (field w 32 32)

def tick (w : Bytes) : UInt32 := UInt32.fromLeBytes (field w 72 4)

def inputSize (w : Bytes) : UInt16 := UInt16.fromLeBytes (field w 78 2)

/-- Where the input ends and the signature starts. -/
def inputEnd (w : Bytes) : Nat := TX_HEADER_SIZE + (inputSize w).toNat

/-- The payload holds the input its header announces. -/
def Complete (w : Bytes) : Prop := inputEnd w ≤ w.length

instance (w : Bytes) : Decidable (Complete w) := inferInstanceAs (Decidable (_ ≤ _))

def hashInput (w : Bytes) : Bytes := w.take (inputEnd w)

/-- The record the fields of a payload spell. -/
def transactionOf (c : Crates) (w : Bytes) : Transaction where
  hash := if Complete w then hashToHex c (c.sha256 (hashInput w)) else []
  sourceHex := c.hex.encode (source w).toList
  sourceIdentity := encodeBase26 c (source w)
  destinationHex := c.hex.encode (destination w).toList
  destinationIdentity := encodeBase26 c (destination w)
  amount := Int64.fromLeBytes (field w 64 8)
  tick := tick w
  inputType := UInt16.fromLeBytes (field w 76 2)
  inputSize := inputSize w
  inputHex := if inputSize w > 0 ∧ Complete w
    then c.hex.encode (field w TX_HEADER_SIZE (inputSize w).toNat) else []
  inputTypeName := (InputType.classify (UInt16.fromLeBytes (field w 76 2))).label
  signatureHex := if inputEnd w + SIGNATURE_SIZE ≤ w.length
    then c.hex.encode (field w (inputEnd w) SIGNATURE_SIZE) else []

theorem length_field {w : Bytes} {offset size : Nat} (h : offset + size ≤ w.length) :
    (field w offset size).length = size := by
  simp only [field, List.length_take, List.length_drop]
  omega

/-- A slice that ends in the payload does not panic. -/
theorem sliceAt_eq_field {w : Bytes} {a b : Nat} (hab : a ≤ b) (hb : b ≤ w.length) :
    sliceAt w a b = .ok (field w a (b - a)) :=
  sliceAt_ok hab hb

theorem toList_source {w : Bytes} (h : TX_HEADER_SIZE ≤ w.length) :
    (source w).toList = field w 0 32 :=
  toList_keyOf (length_field (Nat.le_trans (by decide) h))

theorem toList_destination {w : Bytes} (h : TX_HEADER_SIZE ≤ w.length) :
    (destination w).toList = field w 32 32 :=
  toList_keyOf (length_field (Nat.le_trans (by decide) h))

/-- A slice that is taken under a condition is one that the condition puts inside the payload. -/
theorem hexSliceIf_eq (c : Crates) {p : Prop} [Decidable p] {w : Bytes} {a n : Nat}
    (h : p → a + n ≤ w.length) :
    hexSliceIf c p w a (a + n) = .ok (if p then c.hex.encode (field w a n) else []) := by
  unfold hexSliceIf
  by_cases hp : p
  · rw [if_pos hp, if_pos hp, sliceAt_eq_field (Nat.le_add_right a n) (h hp),
      Nat.add_sub_cancel_left]
    rfl
  · rw [if_neg hp, if_neg hp]

/-- The hash is that of the payload up to the end of the input, and is left empty where the payload
ends before. -/
theorem hash_eq (c : Crates) (w : Bytes) :
    (if w.length ≥ inputEnd w then hashToHex c (computeTxHash c w (inputSize w)) else [])
      = (transactionOf c w).hash := by
  by_cases h : w.length ≥ inputEnd w
  · have htake : txHashInput w (inputSize w) = hashInput w := if_pos h
    rw [if_pos h, computeTxHash, htake]
    exact (if_pos h).symm
  · rw [if_neg h]
    exact (if_neg h).symm

end Wire

open Wire in
/-- **A payload of at least 80 bytes decodes** to the record its fields spell. Input and signature
may be cut off: they are left empty then. -/
theorem decodeTransaction_eq (c : Crates) {w : Bytes} (h : TX_HEADER_SIZE ≤ w.length) :
    decodeTransaction c w = .ok (transactionOf c w) := by
  -- no slice of the header can panic
  have hslice : ∀ {a b}, a ≤ b → b ≤ TX_HEADER_SIZE → sliceAt w a b = .ok (field w a (b - a)) :=
    fun hab hb => sliceAt_eq_field hab (Nat.le_trans hb h)
  have hsource : copyFromSlice (field w 0 32) = .ok (source w) :=
    copyFromSlice_eq_keyOf (length_field (Nat.le_trans (by decide) h))
  have hdestination : copyFromSlice (field w 32 32) = .ok (destination w) :=
    copyFromSlice_eq_keyOf (length_field (Nat.le_trans (by decide) h))
  have hsize : UInt16.fromLeBytes (field w 78 2) = inputSize w := rfl
  have hend : TX_HEADER_SIZE + (inputSize w).toNat = inputEnd w := rfl
  -- nor can those behind it, each guarded by a length check of its own
  have hinput := hexSliceIf_eq c (p := inputSize w > 0 ∧ w.length ≥ inputEnd w) (w := w)
    (a := TX_HEADER_SIZE) (n := (inputSize w).toNat) (fun hc => hc.2)
  have hsignature := hexSliceIf_eq c (p := w.length ≥ inputEnd w + SIGNATURE_SIZE) (w := w)
    (a := inputEnd w) (n := SIGNATURE_SIZE) id
  rw [hend] at hinput
  rw [decodeTransaction, if_neg (Nat.not_lt.mpr h), hslice (by decide) (by decide),
    hslice (by decide) (by decide), hslice (by decide) (by decide),
    hslice (by decide) (by decide), hslice (by decide) (by decide),
    hslice (by decide) (by decide)]
  simp only [bind, Except.bind, hsource, hdestination, Nat.reduceSub, hsize, hend, hinput,
    hsignature, hash_eq c w]
  rfl

theorem decodeTransaction_short (c : Crates) {w : Bytes} (h : w.length < TX_HEADER_SIZE) :
    ∃ msg, decodeTransaction c w = bail msg :=
  ⟨_, if_pos h⟩

end Qonduit

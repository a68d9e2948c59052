import Qonduit.Ingestion.Decoders
import Qonduit.Lib.CrossIndex
import Qonduit.Processor.TxIndex

/-!
# Qonduit — index entries and the transactions they lead to

The path of a transaction from the wire to the indexes: `decode_transaction`, the published
JSON, `index_transaction`. The indexes refer to a transaction by its storage key, which is the
SHA-256 of the payload up to its signature. A payload that ends before its announced input has
no hash; its storage key is all zero, the same for every such payload.

* **`hashBytes_transactionOf`**, **`source_transactionOf`** — the keys the indexer reads back
  from a decoded transaction.
* **`resolves_right_iff`** — through a whole sequence of payloads every index entry leads to a
  transaction of its tick and entity, exactly when two payloads under the zero key agree
  (`ZeroKeysAgree`): a condition on the payloads and their order.
-/

namespace Qonduit

/-! ## Keys of a decoded transaction

The key of a transaction is recovered from the text of its hash. A transaction whose hash was left
empty has the zero key instead, and so has every other one that was cut short. -/

theorem hexKey_encode (c : Crates) (k : Key32) : hexKey c (c.hex.encode k.toList) = some k := by
  rw [hexKey, c.hex.decode_encode]
  exact dif_pos k.toList_length

theorem hexKey_nil (c : Crates) : hexKey c [] = none := by
  unfold hexKey
  split
  · next b hb =>
    have hlen : b.length = 0 := by simpa using c.hex.length_of_decode hb
    exact dif_neg (by omega)
  · rfl

/-- The key of an identity the decoder wrote. -/
theorem source_transactionOf (c : Crates) (w : Bytes) :
    (Wire.transactionOf c w).source c = some (Wire.source w) := by
  rw [Transaction.source, Wire.transactionOf, decodeBase26_encodeBase26, Option.some_or]

theorem destination_transactionOf (c : Crates) (w : Bytes) :
    (Wire.transactionOf c w).destination c = some (Wire.destination w) := by
  rw [Transaction.destination, Wire.transactionOf, decodeBase26_encodeBase26, Option.some_or]

/-- The storage key of a decoded transaction: its hash as hex, whose 64 characters are no
identity, or all zero when the payload is cut short. -/
theorem hashBytes_transactionOf (c : Crates) (w : Bytes) :
    (Wire.transactionOf c w).hashBytes c
      = if Wire.Complete w then c.sha256 (Wire.hashInput w) else zeroKey := by
  -- base-26 is tried first and never applies: a hash has 64 characters, or none
  have hne : (Wire.transactionOf c w).hash.length ≠ IDENTITY_LENGTH := by
    simp only [Wire.transactionOf]
    split
    · rw [hashToHex, c.hex.length_encode, List.Vector.toList_length]
      decide
    · decide
  rw [Transaction.hashBytes, decodeBase26_of_length_ne c hne, Option.getD_none]
  by_cases h : Wire.Complete w
  · simp only [Wire.transactionOf, if_pos h, hashToHex, hexKey_encode, Option.getD_some]
  · simp only [Wire.transactionOf, if_neg h, hexKey_nil, Option.getD_none]

/-! ## Arrivals

An arrival is a payload off the wire with the index it gets in its tick. The store is described by
the arrivals, without the documents in between. -/

/-- The JSON documents published for a sequence of transaction payloads. -/
def published (c : Crates) (ws : List Bytes) : List Bytes :=
  ws.filterMap fun w =>
    match decodeTransaction c w with
    | .ok tx => some (c.serde.transaction.toVec tx)
    | .error _ => none

/-- `serde_json` reads back the transactions decoded from the payloads. -/
def RoundTrips (c : Crates) (ws : List Bytes) : Prop :=
  ∀ w ∈ ws, c.serde.transaction.fromSlice (c.serde.transaction.toVec (Wire.transactionOf c w))
    = .ok (Wire.transactionOf c w)

/-- SHA-256 does not collide on what the hashes of the payloads cover. -/
def CollisionFree (c : Crates) (ws : List Bytes) : Prop :=
  ∀ w ∈ ws, ∀ w' ∈ ws, Wire.Complete w → Wire.Complete w' →
    c.sha256 (Wire.hashInput w) = c.sha256 (Wire.hashInput w') →
      Wire.hashInput w = Wire.hashInput w'

/-- An accepted payload and its position in the run of payloads of its tick. -/
structure Arrival where
  wire : Bytes
  index : UInt32
  deriving DecidableEq

namespace Arrival

def slot (a : Arrival) : UInt32 × UInt32 := (Wire.tick a.wire, a.index)

/-- The payload names the key as source or destination. -/
def Involves (a : Arrival) (e : Key32) : Prop :=
  Wire.source a.wire = e ∨ Wire.destination a.wire = e

instance (a : Arrival) (e : Key32) : Decidable (a.Involves e) :=
  inferInstanceAs (Decidable (_ ∨ _))

/-- The payload is cut short, or its hash happens to be zero. -/
def ZeroKeyed (c : Crates) (a : Arrival) : Prop :=
  ¬ Wire.Complete a.wire ∨ c.sha256 (Wire.hashInput a.wire) = zeroKey

instance (c : Crates) (a : Arrival) : Decidable (a.ZeroKeyed c) :=
  inferInstanceAs (Decidable (_ ∨ _))

/-- Its storage key. -/
def key (c : Crates) (a : Arrival) : Key32 := (Wire.transactionOf c a.wire).hashBytes c

/-- Its slot in the index of an entity. -/
def slotFor (e : Key32) (a : Arrival) : Option (UInt32 × UInt32) :=
  if a.Involves e then some a.slot else none

/-- What the indexer makes of it. -/
def placement (c : Crates) (a : Arrival) : Placement :=
  ⟨Wire.transactionOf c a.wire, c.serde.transaction.toVec (Wire.transactionOf c a.wire), a.index⟩

@[simp] theorem slot_placement (c : Crates) (a : Arrival) : (a.placement c).slot = a.slot := rfl

@[simp] theorem hash_placement (c : Crates) (a : Arrival) : (a.placement c).hash c = a.key c := rfl

theorem involves_placement {c : Crates} {a : Arrival} {e : Key32} :
    (a.placement c).Involves c e ↔ a.Involves e := by
  simp only [Placement.Involves, placement, source_transactionOf, destination_transactionOf,
    Option.some_inj, Involves]

end Arrival

/-- The arrivals that follow payloads of the given ticks. -/
def arriveAfter (ticks : List UInt32) : List Bytes → List Arrival
  | [] => []
  | w :: ws =>
    ⟨w, position ticks (Wire.tick w)⟩ :: arriveAfter (ticks ++ [Wire.tick w]) ws

/-- The arrivals of a sequence of payloads; one shorter than a header is not accepted. -/
def arrivals (ws : List Bytes) : List Arrival :=
  arriveAfter [] (ws.filter (fun w => TX_HEADER_SIZE ≤ w.length))

/-- Two payloads under the zero key have the same tick, and each entity of the first is one of
the second, unless the entry of the first has been overwritten before the second arrives. -/
def ZeroKeysAgree (c : Crates) (ws : List Bytes) : Prop :=
  ∀ pre a mid b post, arrivals ws = pre ++ a :: (mid ++ b :: post) →
    a.ZeroKeyed c → b.ZeroKeyed c →
    (Wire.tick b.wire = Wire.tick a.wire ∨ ∃ k ∈ mid, k.slot = a.slot) ∧
    ∀ e, a.Involves e →
      (Wire.tick b.wire = Wire.tick a.wire ∧ b.Involves e) ∨
        ∃ k ∈ mid, k.Involves e ∧ k.slot = a.slot

/-- Every index entry leads through `tx` to a transaction of its tick, and of its entity. -/
structure ResolvesRight (c : Crates) (s : WarmStorage) : Prop where
  tick : ∀ t i h, s.tickSlot t i = some (List.Vector.toList h) → ∃ data tx,
    s.getTx h = some data ∧ c.serde.transaction.fromSlice data = .ok tx ∧ tx.tick = t
  entity : ∀ e t i h, s.entitySlot e (t, i) = some (List.Vector.toList h) → ∃ data tx,
    s.getTx h = some data ∧ c.serde.transaction.fromSlice data = .ok tx ∧ tx.tick = t ∧
      (tx.source c = some e ∨ tx.destination c = some e)

/-! ## From payloads to placements

Decoding, publishing and indexing take each payload to a placement, and drop those that are too
short for a header. -/

/-- The published documents are those of the payloads long enough. -/
theorem published_eq (c : Crates) (ws : List Bytes) :
    published c ws = (ws.filter (fun w => TX_HEADER_SIZE ≤ w.length)).map
      (fun w => c.serde.transaction.toVec (Wire.transactionOf c w)) := by
  induction ws with
  | nil => rfl
  | cons w ws ih =>
    rw [published] at ih
    by_cases h : TX_HEADER_SIZE ≤ w.length
    · rw [published, List.filterMap_cons, decodeTransaction_eq c h,
        List.filter_cons_of_pos (by simpa using h), List.map_cons, ih]
    · obtain ⟨msg, hmsg⟩ := decodeTransaction_short c (Nat.lt_of_not_le h)
      rw [published, List.filterMap_cons, hmsg, List.filter_cons_of_neg (by simpa using h)]
      exact ih

/-- All of them are accepted. -/
theorem accepted_map_toVec {c : Crates} {ws : List Bytes} (hjson : RoundTrips c ws) :
    accepted c (ws.map (fun w => c.serde.transaction.toVec (Wire.transactionOf c w)))
      = ws.map (fun w => (Wire.transactionOf c w,
          c.serde.transaction.toVec (Wire.transactionOf c w))) := by
  induction ws with
  | nil => rfl
  | cons w ws ih =>
    rw [List.map_cons, List.map_cons, ← ih (fun x hx => hjson x (by simp [hx])), accepted,
      List.filterMap_cons, hjson w (by simp)]
    rfl

theorem placeAfter_map_toVec (c : Crates) (ticks : List UInt32) (ws : List Bytes) :
    placeAfter ticks (ws.map (fun w => (Wire.transactionOf c w,
        c.serde.transaction.toVec (Wire.transactionOf c w))))
      = (arriveAfter ticks ws).map (Arrival.placement c) := by
  induction ws generalizing ticks with
  | nil => rfl
  | cons w ws ih =>
    rw [List.map_cons, placeAfter, ih, arriveAfter, List.map_cons]
    rfl

/-- **The placements of the published documents are those of the arrivals.** -/
theorem placements_published {c : Crates} {ws : List Bytes} (hjson : RoundTrips c ws) :
    placements c (published c ws) = (arrivals ws).map (Arrival.placement c) := by
  rw [placements, published_eq, accepted_map_toVec, placeAfter_map_toVec, arrivals]
  exact fun w hw => hjson w (List.mem_filter.mp hw).1

theorem arriveAfter_append (ticks : List UInt32) (ws ws' : List Bytes) :
    arriveAfter ticks (ws ++ ws')
      = arriveAfter ticks ws ++ arriveAfter (ticks ++ ws.map Wire.tick) ws' := by
  induction ws generalizing ticks with
  | nil => simp [arriveAfter]
  | cons w ws ih => simp [arriveAfter, ih]

/-- The first arrivals are those of the first payloads. -/
theorem take_arriveAfter (ticks : List UInt32) (ws : List Bytes) (n : Nat) :
    (arriveAfter ticks ws).take n = arriveAfter ticks (ws.take n) := by
  induction ws generalizing ticks n with
  | nil => simp [arriveAfter]
  | cons w ws ih =>
    cases n with
    | zero => rfl
    | succ n => simp [arriveAfter, ih]

/-- The initial parts of the arrivals are the arrivals of the initial sequences. -/
theorem forall_isPrefix_arrivals_iff {ws : List Bytes} {P : List Arrival → Prop} :
    (∀ p, p <+: arrivals ws → P p) ↔ ∀ q, q <+: ws → P (arrivals q) := by
  constructor
  · rintro h q ⟨rest, rfl⟩
    refine h _ ?_
    rw [arrivals, arrivals, List.filter_append, arriveAfter_append]
    exact List.prefix_append _ _
  · intro h p hp
    rw [List.prefix_iff_eq_take, arrivals, take_arriveAfter] at hp
    obtain ⟨q, hq, heq⟩ := List.prefix_filter_iff.mp (List.take_prefix p.length
      (ws.filter (fun w => TX_HEADER_SIZE ≤ w.length)))
    rw [hp, heq]
    exact h q hq

/-- An arrival comes from one of the payloads. -/
theorem wire_mem_of_arriveAfter {ticks : List UInt32} {ws : List Bytes} {a : Arrival}
    (h : a ∈ arriveAfter ticks ws) : a.wire ∈ ws := by
  induction ws generalizing ticks with
  | nil => cases h
  | cons w ws ih =>
    rcases List.mem_cons.mp h with rfl | h
    · simp
    · exact List.mem_cons_of_mem _ (ih h)

theorem wire_mem {ws : List Bytes} {a : Arrival} (h : a ∈ arrivals ws) : a.wire ∈ ws :=
  (List.mem_filter.mp (wire_mem_of_arriveAfter h)).1

/-! ## Which arrivals share a key

The hash covers everything the indexes go by. So without collisions two arrivals with one key agree
in it, except for the ones under the zero key. -/

namespace Wire

/-- A field of what the hash covers is a field of the payload. -/
theorem field_take {w : Bytes} {a n m : Nat} (h : a + n ≤ m) :
    field (w.take m) a n = field w a n := by
  rw [field, field, List.drop_take, List.take_take, Nat.min_eq_left (by omega)]

/-- The header lies within what the hash covers. -/
theorem field_hashInput (w : Bytes) {a n : Nat} (h : a + n ≤ TX_HEADER_SIZE) :
    field (hashInput w) a n = field w a n :=
  field_take (Nat.le_trans h (Nat.le_add_right _ _))

/-- Payloads with the same hash input have the same header. -/
theorem header_eq_of_hashInput_eq {w w' : Bytes} (h : hashInput w = hashInput w') :
    tick w = tick w' ∧ source w = source w' ∧ destination w = destination w' := by
  have hfield : ∀ {a n}, a + n ≤ TX_HEADER_SIZE → field w a n = field w' a n := fun han => by
    rw [← field_hashInput w han, h, field_hashInput w' han]
  refine ⟨?_, ?_, ?_⟩
  · rw [tick, tick, hfield (by decide)]
  · rw [source, source, hfield (by decide)]
  · rw [destination, destination, hfield (by decide)]

end Wire

namespace Arrival

/-- Arrivals that were cut short have the zero key. -/
theorem key_of_zeroKeyed {c : Crates} {a : Arrival} (h : a.ZeroKeyed c) : a.key c = zeroKey := by
  rw [key, hashBytes_transactionOf]
  by_cases hc : Wire.Complete a.wire
  · rw [if_pos hc, h.resolve_left (not_not_intro hc)]
  · rw [if_neg hc]

/-- Without collisions, two payloads share a storage key only if both are under the zero key or
their hashes cover the same bytes. -/
theorem zeroKeyed_or_of_key_eq {c : Crates} {ws : List Bytes} (hsha : CollisionFree c ws)
    {a b : Arrival} (ha : a.wire ∈ ws) (hb : b.wire ∈ ws) (h : a.key c = b.key c) :
    (a.ZeroKeyed c ∧ b.ZeroKeyed c) ∨ Wire.hashInput a.wire = Wire.hashInput b.wire := by
  rw [key, key, hashBytes_transactionOf, hashBytes_transactionOf] at h
  by_cases hac : Wire.Complete a.wire
  · by_cases hbc : Wire.Complete b.wire
    · rw [if_pos hac, if_pos hbc] at h
      exact .inr (hsha a.wire ha b.wire hb hac hbc h)
    · rw [if_pos hac, if_neg hbc] at h
      exact .inl ⟨.inr h, .inl hbc⟩
  · by_cases hbc : Wire.Complete b.wire
    · rw [if_neg hac, if_pos hbc] at h
      exact .inl ⟨.inl hac, .inr h.symm⟩
    · exact .inl ⟨.inl hac, .inl hbc⟩

/-- The slot of an arrival for an entity it involves. -/
theorem slotFor_eq_some_iff {e : Key32} {a : Arrival} {slot : UInt32 × UInt32} :
    a.slotFor e = some slot ↔ a.Involves e ∧ a.slot = slot := by
  by_cases h : a.Involves e <;> simp [slotFor, h]

/-- An arrival may stand for another in the index of its tick. -/
def SameTick (a b : Arrival) : Prop := Wire.tick b.wire = Wire.tick a.wire

/-- An arrival may stand for another in the index of an entity. -/
def SameFor (e : Key32) (a b : Arrival) : Prop := SameTick a b ∧ b.Involves e

theorem sameTick_of_slot (c : Crates) (a b : Arrival) (_ : a.key c = b.key c)
    (h : some a.slot = some b.slot) (_ : (some a.slot).isSome) : SameTick a b :=
  (congrArg Prod.fst (Option.some_inj.mp h)).symm

theorem sameFor_of_slot (c : Crates) (e : Key32) (a b : Arrival) (_ : a.key c = b.key c)
    (h : a.slotFor e = b.slotFor e) (hsome : (a.slotFor e).isSome) : SameFor e a b := by
  obtain ⟨slot, ha⟩ := Option.isSome_iff_exists.mp hsome
  obtain ⟨-, haslot⟩ := slotFor_eq_some_iff.mp ha
  obtain ⟨hb, hbslot⟩ := slotFor_eq_some_iff.mp (h.symm.trans ha)
  exact ⟨congrArg Prod.fst (hbslot.trans haslot.symm), hb⟩

end Arrival

/-- With collision-free hashes, keys are taken over rightly in both indexes exactly when the
payloads under the zero key agree. -/
theorem takenOver_iff {c : Crates} {ws : List Bytes} (hsha : CollisionFree c ws) :
    (CrossIndex.TakenOver (fun a => some a.slot) (Arrival.key c) Arrival.SameTick (arrivals ws)
      ∧ ∀ e, CrossIndex.TakenOver (Arrival.slotFor e) (Arrival.key c) (Arrival.SameFor e)
          (arrivals ws))
      ↔ ZeroKeysAgree c ws := by
  constructor
  · rintro ⟨htick, hentity⟩ pre a mid b post heq ha hb
    have hkey : a.key c = b.key c := by
      rw [Arrival.key_of_zeroKeyed ha, Arrival.key_of_zeroKeyed hb]
    refine ⟨?_, fun e he => ?_⟩
    · rcases htick pre a mid b post heq hkey rfl with h | ⟨k, hk, hslot⟩
      · exact .inl h
      · exact .inr ⟨k, hk, Option.some_inj.mp hslot⟩
    · have hsome : a.slotFor e = some a.slot := Arrival.slotFor_eq_some_iff.mpr ⟨he, rfl⟩
      rcases hentity e pre a mid b post heq hkey (by rw [hsome]; rfl) with h | ⟨k, hk, hslot⟩
      · exact .inl h
      · exact .inr ⟨k, hk, Arrival.slotFor_eq_some_iff.mp (hslot.trans hsome)⟩
  · intro h
    -- a key that is not the zero key is shared by payloads with the same header only
    have hcases : ∀ {pre a mid b post}, arrivals ws = pre ++ a :: (mid ++ b :: post) →
        a.key c = b.key c →
        (a.ZeroKeyed c ∧ b.ZeroKeyed c) ∨ Wire.hashInput a.wire = Wire.hashInput b.wire := by
      intro pre a mid b post heq hkey
      exact Arrival.zeroKeyed_or_of_key_eq hsha (wire_mem (by rw [heq]; simp))
        (wire_mem (by rw [heq]; simp)) hkey
    refine ⟨?_, ?_⟩
    · intro pre a mid b post heq hkey _
      rcases hcases heq hkey with ⟨ha, hb⟩ | hsame
      · rcases (h pre a mid b post heq ha hb).1 with ht | ⟨k, hk, hslot⟩
        · exact .inl ht
        · exact .inr ⟨k, hk, congrArg some hslot⟩
      · exact .inl (Wire.header_eq_of_hashInput_eq hsame).1.symm
    · intro e pre a mid b post heq hkey hsome
      obtain ⟨slot, hslotFor⟩ := Option.isSome_iff_exists.mp hsome
      obtain ⟨he, rfl⟩ := Arrival.slotFor_eq_some_iff.mp hslotFor
      rcases hcases heq hkey with ⟨ha, hb⟩ | hsame
      · rcases (h pre a mid b post heq ha hb).2 e he with hR | ⟨k, hk, hinv⟩
        · exact .inl hR
        · exact .inr ⟨k, hk, (Arrival.slotFor_eq_some_iff.mpr hinv).trans hslotFor.symm⟩
      · obtain ⟨ht, hsource, hdestination⟩ := Wire.header_eq_of_hashInput_eq hsame
        refine .inl ⟨ht.symm, ?_⟩
        rw [Arrival.Involves, ← hsource, ← hdestination]
        exact he

/-! ## The store as tables of arrivals

Each table has, under each of its keys, what the last arrival with the key has put there. -/

namespace Indexer

section Published

variable {c : Crates} {ws : List Bytes} (hjson : RoundTrips c ws) (pl : PipelineState)

include hjson

/-- The slots of the ticks. -/
theorem tickSlot_published (t i : UInt32) :
    (indexTransactions c (new .empty pl) (published c ws)).storage.tickSlot t i
      = (CrossIndex.lastWhere (fun a => some a.slot = some (t, i)) (arrivals ws)).map
          (fun a => (a.key c).toList) := by
  rw [tickSlot_indexTransactions, placements_published hjson, tickLog, ofTick, WriteLog.last,
    CrossIndex.lastWhere, List.filter_map, List.map_map, ← List.map_reverse, List.find?_map,
    ← List.filter_reverse, List.find?_filter, Option.map_map]
  refine congrArg (fun p => ((arrivals ws).reverse.find? p).map (fun a => (a.key c).toList))
    (funext fun a => ?_)
  simp [Arrival.slot, Arrival.placement, Wire.transactionOf]

/-- The slots of the entities. -/
theorem entitySlot_published (e : Key32) (slot : UInt32 × UInt32) :
    (indexTransactions c (new .empty pl) (published c ws)).storage.entitySlot e slot
      = (CrossIndex.lastWhere (fun a => a.slotFor e = some slot) (arrivals ws)).map
          (fun a => (a.key c).toList) := by
  rw [entitySlot_indexTransactions, placements_published hjson, entityLog, ofEntity,
    WriteLog.last, CrossIndex.lastWhere, List.filter_map, List.map_map, ← List.map_reverse,
    List.find?_map, ← List.filter_reverse, List.find?_filter, Option.map_map]
  refine congrArg (fun p => ((arrivals ws).reverse.find? p).map (fun a => (a.key c).toList))
    (funext fun a => Bool.eq_iff_iff.mpr ?_)
  simp only [Function.comp_apply, decide_eq_true_eq]
  by_cases h : a.Involves e <;> simp [Arrival.slotFor, h, Arrival.involves_placement]

theorem getTx_published (h : Key32) :
    (indexTransactions c (new .empty pl) (published c ws)).storage.getTx h
      = (CrossIndex.lastWhere (fun a => a.key c = h) (arrivals ws)).map
          (fun a => c.serde.transaction.toVec (Wire.transactionOf c a.wire)) := by
  rw [getTx_indexTransactions, placements_published hjson, hashLog, WriteLog.last,
    CrossIndex.lastWhere, List.map_map, ← List.map_reverse, List.find?_map, Option.map_map]
  rfl

/-! ## Which transaction an entry leads to

An entry holds a key, and the table of transactions has the last arrival with this key. The entry
leads right if that arrival agrees with the one that made the entry. -/

omit hjson in

theorem mem_of_lastWhere {p : Arrival → Bool} {b : Arrival}
    (hb : CrossIndex.lastWhere p (arrivals ws) = some b) : b ∈ arrivals ws := by
  obtain ⟨-, pre, post, heq, -⟩ := CrossIndex.lastWhere_eq_some_iff.mp hb
  rw [heq]
  simp

/-- What is stored under a key, read back: the transaction of the last arrival with the key. -/
theorem exists_getTx_iff {h : Key32} {P : Transaction → Prop} :
    (∃ data tx, (indexTransactions c (new .empty pl) (published c ws)).storage.getTx h = some data
        ∧ c.serde.transaction.fromSlice data = .ok tx ∧ P tx) ↔
      ∃ b, CrossIndex.lastWhere (fun a => a.key c = h) (arrivals ws) = some b
        ∧ P (Wire.transactionOf c b.wire) := by
  simp only [getTx_published hjson, Option.map_eq_some_iff]
  constructor
  · rintro ⟨_, tx, ⟨b, hb, rfl⟩, htx, hP⟩
    rw [hjson b.wire (wire_mem (mem_of_lastWhere hb))] at htx
    cases htx
    exact ⟨b, hb, hP⟩
  · rintro ⟨b, hb, hP⟩
    exact ⟨_, _, ⟨b, hb, rfl⟩, hjson b.wire (wire_mem (mem_of_lastWhere hb)), hP⟩

omit hjson in

/-- The arrival in a tick slot is of that tick. -/
theorem tick_of_lastWhere {t i : UInt32} {a : Arrival} (h : CrossIndex.lastWhere
    (fun a => some (Arrival.slot a) = some (t, i)) (arrivals ws) = some a) :
    Wire.tick a.wire = t :=
  congrArg Prod.fst
    (Option.some_inj.mp (of_decide_eq_true (CrossIndex.lastWhere_eq_some_iff.mp h).1))

omit hjson in

theorem tick_of_lastWhere_slotFor {e : Key32} {t i : UInt32} {a : Arrival}
    (h : CrossIndex.lastWhere (fun a => a.slotFor e = some (t, i)) (arrivals ws) = some a) :
    Wire.tick a.wire = t :=
  congrArg Prod.fst
    (Arrival.slotFor_eq_some_iff.mp (of_decide_eq_true (CrossIndex.lastWhere_eq_some_iff.mp h).1)).2

/-- The tick index leads right if keys are taken over within a tick only. -/
theorem tick_resolves_iff :
    (∀ t i h, (indexTransactions c (new .empty pl) (published c ws)).storage.tickSlot t i
        = some (List.Vector.toList h) → ∃ data tx,
      (indexTransactions c (new .empty pl) (published c ws)).storage.getTx h = some data ∧
        c.serde.transaction.fromSlice data = .ok tx ∧ tx.tick = t) ↔
    CrossIndex.ResolvesBy (fun a => some a.slot) (Arrival.key c) Arrival.SameTick
      (arrivals ws) := by
  simp only [CrossIndex.resolvesBy_iff, exists_getTx_iff hjson, tickSlot_published hjson,
    Option.map_eq_some_iff]
  constructor
  · rintro hstore ⟨t, i⟩ a ha
    obtain ⟨b, hb, hP⟩ := hstore t i (a.key c) ⟨a, ha, rfl⟩
    exact ⟨b, hb, hP.trans (tick_of_lastWhere ha).symm⟩
  · rintro harrivals t i h ⟨a, ha, hkey⟩
    obtain ⟨b, hb, hP⟩ := harrivals (t, i) a ha
    -- the entry holds the key of `a`, so it is looked up where `a` was stored
    rw [WarmStorage.toList_injective hkey] at hb
    exact ⟨b, hb, Eq.trans hP (tick_of_lastWhere ha)⟩

/-- The entity index does so under the like condition. -/
theorem entity_resolves_iff (e : Key32) :
    (∀ t i h, (indexTransactions c (new .empty pl) (published c ws)).storage.entitySlot e (t, i)
        = some (List.Vector.toList h) → ∃ data tx,
      (indexTransactions c (new .empty pl) (published c ws)).storage.getTx h = some data ∧
        c.serde.transaction.fromSlice data = .ok tx ∧ tx.tick = t ∧
        (tx.source c = some e ∨ tx.destination c = some e)) ↔
    CrossIndex.ResolvesBy (Arrival.slotFor e) (Arrival.key c) (Arrival.SameFor e)
      (arrivals ws) := by
  simp only [CrossIndex.resolvesBy_iff, exists_getTx_iff hjson, entitySlot_published hjson,
    Option.map_eq_some_iff, source_transactionOf, destination_transactionOf, Option.some_inj]
  constructor
  · rintro hstore ⟨t, i⟩ a ha
    obtain ⟨b, hb, ht, hinv⟩ := hstore t i (a.key c) ⟨a, ha, rfl⟩
    exact ⟨b, hb, ht.trans (tick_of_lastWhere_slotFor ha).symm, hinv⟩
  · rintro harrivals t i h ⟨a, ha, hkey⟩
    obtain ⟨b, hb, ht, hinv⟩ := harrivals (t, i) a ha
    rw [WarmStorage.toList_injective hkey] at hb
    exact ⟨b, hb, Eq.trans ht (tick_of_lastWhere_slotFor ha), hinv⟩

/-- **The store resolves right** exactly when the arrivals do. -/
theorem resolvesRight_iff :
    ResolvesRight c (indexTransactions c (new .empty pl) (published c ws)).storage ↔
      CrossIndex.ResolvesBy (fun a => some a.slot) (Arrival.key c) Arrival.SameTick (arrivals ws)
      ∧ ∀ e, CrossIndex.ResolvesBy (Arrival.slotFor e) (Arrival.key c) (Arrival.SameFor e)
          (arrivals ws) := by
  rw [← tick_resolves_iff hjson pl]
  simp only [← entity_resolves_iff hjson pl]
  exact ⟨fun h => ⟨h.tick, h.entity⟩, fun h => ⟨h.1, h.2⟩⟩

/-- **When index entries lead to the right transactions.** For payloads on which SHA-256 does
not collide, every state reached while they are decoded, published and indexed into an empty
database resolves right if and only if the payloads under the zero key agree. -/
theorem resolves_right_iff (hsha : CollisionFree c ws) :
    (∀ q, q <+: ws →
      ResolvesRight c (indexTransactions c (new .empty pl) (published c q)).storage)
      ↔ ZeroKeysAgree c ws := by
  have hstates : (∀ q, q <+: ws →
      ResolvesRight c (indexTransactions c (new .empty pl) (published c q)).storage) ↔
      ∀ q, q <+: ws →
        CrossIndex.ResolvesBy (fun a => some a.slot) (Arrival.key c) Arrival.SameTick (arrivals q)
        ∧ ∀ e, CrossIndex.ResolvesBy (Arrival.slotFor e) (Arrival.key c) (Arrival.SameFor e)
            (arrivals q) :=
    forall₂_congr (fun q hq => resolvesRight_iff (fun w hw => hjson w (hq.subset hw)) pl)
  -- through all prefixes, an index resolves exactly when every later payload under a key takes
  -- over the entries of the earlier ones
  rw [hstates, ← takenOver_iff hsha,
    ← CrossIndex.resolvesBy_prefixes_iff (Arrival.sameTick_of_slot c)]
  simp only [← CrossIndex.resolvesBy_prefixes_iff (Arrival.sameFor_of_slot c _),
    forall_isPrefix_arrivals_iff]
  exact ⟨fun h => ⟨fun q hq => (h q hq).1, fun e q hq => (h q hq).2 e⟩,
    fun h q hq => ⟨h.1 q hq, fun e => h.2 e q hq⟩⟩

end Published

/-- A payload of a transfer of one unit from the burn address to itself, which ends with its
header: complete when the announced input is empty, cut short otherwise. -/
def sampleWire (tick inputSize : UInt8) : Bytes :=
  List.replicate 64 0 ++ [1, 0, 0, 0, 0, 0, 0, 0] ++ [tick, 0, 0, 0] ++ [0, 0] ++ [inputSize, 0]

/-- The SHA-256 of the complete payload of tick 1. -/
def sampleDigest : Key32 :=
  keyOf [226, 35, 17, 183, 240, 220, 187, 22, 125, 97, 106, 82, 235, 166, 65, 134, 19, 95, 231,
    94, 214, 39, 13, 44, 31, 231, 179, 208, 55, 178, 192, 176]

def sampleHashes : Known where
  k12 := [burnChecksum]
  sha256 := [(sampleWire 1 0, sampleDigest)]

/-- The transactions decoded from a complete payload of tick 1 and from payloads of ticks 1 and 2
that are cut short. -/
def sampleDecoded : Known :=
  { sampleHashes with
    txs := [sampleWire 1 0, sampleWire 1 1, sampleWire 2 1].map
      (Wire.transactionOf (.ofKnown sampleHashes)) }

/-- One payload under the zero key, after a complete one. With a single payload there the entries
that hold the zero key all lead to it. -/
theorem resolves_right_sample :
    ResolvesRight (.ofKnown sampleDecoded) (indexTransactions (.ofKnown sampleDecoded)
      (new .empty {}) (published (.ofKnown sampleDecoded)
        [sampleWire 1 0, sampleWire 2 1])).storage := by
  obtain ⟨hjson, hsha, harrivals, hcomplete⟩ :
      RoundTrips (.ofKnown sampleDecoded) [sampleWire 1 0, sampleWire 2 1] ∧
      CollisionFree (.ofKnown sampleDecoded) [sampleWire 1 0, sampleWire 2 1] ∧
      arrivals [sampleWire 1 0, sampleWire 2 1]
        = [⟨sampleWire 1 0, 0⟩, ⟨sampleWire 2 1, 0⟩] ∧
      ¬ Arrival.ZeroKeyed (.ofKnown sampleDecoded) ⟨sampleWire 1 0, 0⟩ := by
    unfold RoundTrips CollisionFree
    decide +kernel
  have hagree : ZeroKeysAgree (.ofKnown sampleDecoded) [sampleWire 1 0, sampleWire 2 1] := by
    intro pre a mid b post heq ha hb
    rw [harrivals] at heq
    cases pre with
    | nil =>
      -- the earlier one would have to be the complete payload
      obtain ⟨rfl, -⟩ := List.cons.inj heq
      exact absurd ha hcomplete
    | cons p pre =>
      have hlen := congrArg List.length heq
      simp only [List.length_cons, List.length_append, List.length_nil] at hlen
      omega
  exact (resolves_right_iff hjson {} hsha).mpr hagree _ List.prefix_rfl

/-- Two payloads cut short, of ticks 1 and 2: the entry of tick 1 leads to the transaction of
tick 2. -/
theorem truncated_resolves_wrong :
    let s := (indexTransactions (.ofKnown sampleDecoded) (new .empty {})
      (published (.ofKnown sampleDecoded) [sampleWire 1 1, sampleWire 2 1])).storage
    s.tickSlot 1 0 = some zeroKey.toList
    ∧ s.getTx zeroKey = some (Wire.transactionOf (.ofKnown sampleDecoded) (sampleWire 2 1)).json
    ∧ (Wire.transactionOf (.ofKnown sampleDecoded) (sampleWire 2 1)).tick = 2
    ∧ ¬ ResolvesRight (.ofKnown sampleDecoded) s := by
  intro s
  obtain ⟨hslot, hstored, htick, hread⟩ : s.tickSlot 1 0 = some zeroKey.toList ∧
      s.getTx zeroKey
        = some (Wire.transactionOf (.ofKnown sampleDecoded) (sampleWire 2 1)).json ∧
      (Wire.transactionOf (.ofKnown sampleDecoded) (sampleWire 2 1)).tick = 2 ∧
      (Crates.ofKnown sampleDecoded).serde.transaction.fromSlice
          (Wire.transactionOf (.ofKnown sampleDecoded) (sampleWire 2 1)).json
        = .ok (Wire.transactionOf (.ofKnown sampleDecoded) (sampleWire 2 1)) := by
    decide +kernel
  refine ⟨hslot, hstored, htick, fun hright => ?_⟩
  obtain ⟨data, tx, hdata, htx, ht⟩ := hright.tick 1 0 zeroKey hslot
  rw [hstored, Option.some_inj] at hdata
  rw [← hdata, hread] at htx
  cases htx
  rw [htick] at ht
  exact absurd ht (by decide)

end Indexer

end Qonduit

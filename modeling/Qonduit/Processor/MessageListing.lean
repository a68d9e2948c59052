import Qonduit.Core.Json
import Qonduit.Processor.CustomMessages

/-!
# Qonduit — the messages of a tick

`index_custom_message` counts the messages under a tick to find the next free index, and casts the
count to `u32`. A sequence of calls on an empty family leaves every payload in its place, in the
order of arrival, until the indices of a tick are used up.

* **`messages_appended_iff`** — the lists are exact if no tick receives more than 2^32 messages,
  and only then.
* **`message_overwritten`** — one message more replaces the first.
-/

namespace Qonduit

/-- The messages stored under a tick are `L`, at the indices from 0 on. -/
structure HoldsMessages (s : WarmStorage) (t : UInt32) (L : List Bytes) : Prop where
  listed : s.getCustomMessagesForTick t = L
  indices : ∀ i : UInt32,
    (s.view (.customMessage, tickIndexKey t i)).isSome ↔ i.toNat < L.length

/-- Where there is room every message is appended. -/
theorem foldl_appendMessage_of_le {L ps : List Bytes} (h : L.length + ps.length ≤ messageSlots) :
    ps.foldl appendMessage L = L ++ ps := by
  induction ps generalizing L with
  | nil => exact (List.append_nil L).symm
  | cons p ps ih =>
    rw [List.length_cons] at h
    have hstep : appendMessage L p = L ++ [p] := if_pos (by omega)
    have hlen : (L ++ [p]).length + ps.length ≤ messageSlots := by
      rw [List.length_append, List.length_singleton]
      omega
    rw [List.foldl_cons, hstep, ih hlen, List.append_assoc]
    rfl

/-- The messages of a tick are listed in order, each at its index. -/
theorem MessagesAt.holds {s : WarmStorage} {t : UInt32} {L : List Bytes} (h : MessagesAt s t L) :
    HoldsMessages s t L := by
  refine ⟨h.getCustomMessagesForTick_eq, fun i => ?_⟩
  have hslot := h.slot i.toNat i.toNat_lt
  rw [WarmStorage.messageSlot, UInt32.ofNat_toNat] at hslot
  rw [hslot, Option.isSome_iff_ne_none, ne_eq, List.getElem?_eq_none_iff, Nat.not_le]

namespace Indexer

/-- A sequence of `index_custom_message` calls. -/
def indexCustomMessages (c : Crates) (ix : Indexer) (payloads : List Bytes) : Indexer :=
  run c ix (payloads.map (Prod.mk .custmsg))

theorem ofStream_map_custmsg (payloads : List Bytes) :
    ofStream .custmsg (payloads.map (Prod.mk .custmsg)) = payloads := by
  induction payloads with
  | nil => rfl
  | cons p ps ih =>
    show p :: ofStream .custmsg (ps.map (Prod.mk .custmsg)) = p :: ps
    rw [ih]

/-- What the calls leave under a tick. -/
theorem messagesAt_indexCustomMessages (c : Crates) {ix : Indexer}
    (hempty : ∀ k, ix.storage.view (.customMessage, k) = none) (payloads : List Bytes)
    (t : UInt32) :
    MessagesAt (indexCustomMessages c ix payloads).storage t
      ((messagesFor c t payloads).foldl appendMessage []) := by
  have hnil : MessagesAt ix.storage t [] := ⟨Nat.zero_le _, fun i _ => hempty _⟩
  have hrun := messagesAt_run (c := c) hnil (payloads.map (Prod.mk .custmsg))
  rwa [ofStream_map_custmsg] at hrun

/-- **When custom messages are appended.** After any calls on an empty family, every tick lists the
payloads indexed for it in the order of arrival, at the indices from 0 on, if and only if no tick
has more payloads than there are indices. -/
theorem messages_appended_iff (c : Crates) {ix : Indexer}
    (hempty : ∀ k, ix.storage.view (.customMessage, k) = none) (payloads : List Bytes) :
    (∀ t, HoldsMessages (indexCustomMessages c ix payloads).storage t (messagesFor c t payloads)) ↔
      ∀ t, (messagesFor c t payloads).length ≤ 2 ^ 32 := by
  refine forall_congr' (fun t => ?_)
  have hrun := messagesAt_indexCustomMessages c hempty payloads t
  refine ⟨fun h => ?_, fun h => ?_⟩
  · have hlist := h.listed
    rw [hrun.getCustomMessagesForTick_eq] at hlist
    have hle := hrun.length_le
    rwa [hlist] at hle
  · have hfold : (messagesFor c t payloads).foldl appendMessage [] = messagesFor c t payloads :=
      foldl_appendMessage_of_le (L := []) (by rw [List.length_nil, Nat.zero_add]; exact h)
    rw [hfold] at hrun
    exact hrun.holds

/-- One payload more than there are indices replaces the first. -/
theorem listed_beyond_slots (c : Crates) {ix : Indexer}
    (hempty : ∀ k, ix.storage.view (.customMessage, k) = none) {payloads : List Bytes}
    {payload : Bytes} {t : UInt32} (hfull : payloads.length = messageSlots)
    (hfor : messagesFor c t (payloads ++ [payload]) = payloads ++ [payload]) :
    (indexCustomMessages c ix (payloads ++ [payload])).storage.getCustomMessagesForTick t
      = payloads.set 0 payload := by
  have hrun := messagesAt_indexCustomMessages c hempty (payloads ++ [payload]) t
  have hfirst : payloads.foldl appendMessage [] = payloads := by
    rw [foldl_appendMessage_of_le (by rw [List.length_nil, Nat.zero_add, hfull]),
      List.nil_append]
  have hnext : appendMessage payloads payload = payloads.set 0 payload :=
    if_neg (by rw [hfull]; exact Nat.lt_irrefl _)
  rw [hfor, List.foldl_append, hfirst, List.foldl_cons, List.foldl_nil, hnext] at hrun
  exact hrun.getCustomMessagesForTick_eq

/-! ## Messages of one tick without end

The messages of the sample are numbered, and their numbers are at a fixed place in the text. So they
are different, and every one of them is read as a message of tick 5. -/

/-- The text of a message before its payload, and after it. -/
def messageFrame : Bytes × Bytes :=
  ([123] ++ jsonKey "tick" ++ jsonNat 5 ++ [44] ++ jsonKey "message_type" ++ jsonNat 1 ++ [44]
    ++ jsonKey "payload_hex" ++ [34], [34, 125])

/-- A message for tick 5 with the payload `n`, in hexadecimal. -/
def numberedMessage (n : Nat) : Bytes :=
  messageFrame.1 ++ hexEncode (Positional.beBytes 8 n) ++ messageFrame.2

/-- `serde_json` on these messages. -/
def readNumbered (b : Bytes) : Except String Value :=
  let payload := (b.drop messageFrame.1.length).take 16
  if b = messageFrame.1 ++ payload ++ messageFrame.2 then
    .ok (.object [("tick", .number (.posInt 5)), ("message_type", .number (.posInt 1)),
      ("payload_hex", .string payload)])
  else .error "expected value at line 1 column 1"

def numberedCrates : Crates :=
  { Crates.ofKnown {} with serde := { (Crates.ofKnown {}).serde with
      valueFromSlice := readNumbered } }

/-- A number takes sixteen hex digits. -/
theorem length_hex_number (n : Nat) : (hexEncode (Positional.beBytes 8 n)).length = 16 := by
  have hlen := HexCrate.lower.length_encode (Positional.beBytes 8 n)
  rw [Positional.length_beBytes] at hlen
  exact hlen

/-- It stands behind the beginning of the frame. -/
theorem payload_numberedMessage (n : Nat) :
    ((numberedMessage n).drop messageFrame.1.length).take 16
      = hexEncode (Positional.beBytes 8 n) := by
  rw [numberedMessage, List.append_assoc, List.drop_left, List.take_left' (length_hex_number n)]

/-- So different numbers make different messages. -/
theorem numberedMessage_injOn {m n : Nat} (hm : m < 256 ^ 8) (hn : n < 256 ^ 8)
    (h : numberedMessage m = numberedMessage n) : m = n := by
  have hpayload := payload_numberedMessage m
  rw [h, payload_numberedMessage] at hpayload
  have hbytes := congrArg hexDecode hpayload
  rw [hexDecode_hexEncode, hexDecode_hexEncode, Option.some_inj] at hbytes
  exact (Positional.beBytes_injOn hn hm hbytes).symm

/-- All of them are messages of tick 5. -/
theorem messagesFor_numbered (ns : List Nat) :
    messagesFor numberedCrates 5 (ns.map numberedMessage) = ns.map numberedMessage := by
  refine List.filter_eq_self.mpr (fun b hb => ?_)
  rcases List.mem_map.mp hb with ⟨n, -, rfl⟩
  have hframe : numberedMessage n
      = messageFrame.1 ++ hexEncode (Positional.beBytes 8 n) ++ messageFrame.2 := rfl
  have hread : numberedCrates.serde.valueFromSlice (numberedMessage n)
      = .ok (.object [("tick", .number (.posInt 5)), ("message_type", .number (.posInt 1)),
          ("payload_hex", .string (hexEncode (Positional.beBytes 8 n)))]) := by
    show readNumbered (numberedMessage n) = _
    rw [readNumbered, payload_numberedMessage, if_pos hframe]
  rw [hread]
  rfl

/-- 2^32 + 1 different messages for tick 5: the last one replaces the first. None of this is
evaluated: the list is full after 2^32 of them, whatever they are, and one more is put at index
0. -/
theorem message_overwritten :
    let payloads := (List.range (messageSlots + 1)).map numberedMessage
    let s := (indexCustomMessages numberedCrates (new .empty {}) payloads).storage
    payloads.Nodup ∧
    s.getCustomMessagesForTick 5
      = ((List.range messageSlots).map numberedMessage).set 0 (numberedMessage messageSlots) ∧
    ¬∀ t, HoldsMessages s t (messagesFor numberedCrates t payloads) := by
  show List.Nodup ((List.range (messageSlots + 1)).map numberedMessage) ∧ _ ∧ _
  have hlast : (List.range (messageSlots + 1)).map numberedMessage
      = (List.range messageSlots).map numberedMessage ++ [numberedMessage messageSlots] := by
    rw [List.range_succ, List.map_append, List.map_singleton]
  have hfull : ((List.range messageSlots).map numberedMessage).length = messageSlots := by
    rw [List.length_map, List.length_range]
  have hfor := messagesFor_numbered (List.range (messageSlots + 1))
  have hempty : ∀ k, (new .empty {}).storage.view (.customMessage, k) = none :=
    fun k => WarmStorage.view_empty _
  rw [hlast] at hfor
  -- the list is full when the last message comes
  have hlisted := listed_beyond_slots numberedCrates hempty hfull hfor
  refine ⟨?_, ?_, fun h => ?_⟩
  · refine List.nodup_range.map_on (fun m hm n hn heq => ?_)
    have hslots : messageSlots + 1 < 256 ^ 8 := by decide
    have hm := List.mem_range.mp hm
    have hn := List.mem_range.mp hn
    exact numberedMessage_injOn (by omega) (by omega) heq
  · rw [hlast]
    exact hlisted
  · have hlength := congrArg List.length (h 5).listed
    rw [hlast, hlisted, hfor, List.length_set, List.length_append, List.length_singleton]
      at hlength
    omega

/-- Two messages of tick 5 around one of tick 6. -/
theorem messages_appended_sample :
    let c := Crates.ofKnown { values := [sampleMessage 5, sampleMessage 6] }
    let payloads := [(sampleMessage 5).1, (sampleMessage 6).1, (sampleMessage 5).1]
    ∀ t, HoldsMessages (indexCustomMessages c (new .empty {}) payloads).storage t
      (messagesFor c t payloads) := by
  intro c payloads
  refine (messages_appended_iff c (fun k => WarmStorage.view_empty _) payloads).mpr (fun t => ?_)
  have hle : (messagesFor c t payloads).length ≤ payloads.length := List.length_filter_le _ _
  have hthree : payloads.length = 3 := rfl
  omega

end Indexer

end Qonduit

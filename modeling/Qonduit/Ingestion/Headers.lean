import Qonduit.Ingestion.Protocol

/-!
# Qonduit — malformed headers

`header.rs` reads three size bytes: `size()` turns 0 into `u32::MAX` for a broken packet, and
`payload_size()` subtracts the header with saturation. `read_packet` asks its socket for as many
bytes as that says and returns what it gets, so no size is refused.

* **`Socket.readPacket`** — `read_packet` on a socket that records what `read_exact` was asked for.
* **`Socket.readPacket_ok_iff`** — it returns what `readPacket` reads off the bytes to come.
* **`payloadSize_eq`** — the payload announced by each of the 2^24 sizes.
* **`honoursSize_iff`** — a call respects the size field exactly for sizes from 8 on.
-/

namespace Qonduit

/-- Maximum packet size (3 bytes in header = 16 MB - 1). -/
def maxMessageSize : UInt32 := 0x00FFFFFF

/-! ## The size field

Three bytes of the header give the size of the whole packet. Two sizes do not mean what they say: 0
stands for a size of 4 GiB, and those below 8 are shorter than the header itself. -/

namespace RequestResponseHeader

/-- The 24-bit size field. -/
def sizeField (h : RequestResponseHeader) : Nat := Positional.ofLe [h.size0, h.size1, h.size2]

theorem sizeField_lt (h : RequestResponseHeader) : h.sizeField < 2 ^ 24 := by
  have hlt := Positional.ofLe_lt [h.size0, h.size1, h.size2]
  rw [List.length_cons, List.length_cons, List.length_cons, List.length_nil] at hlt
  unfold sizeField
  omega

/-- `size()` before the sentinel is put in place of 0. -/
theorem raw_toNat (h : RequestResponseHeader) :
    (UInt32.fromLeBytes [h.size0, h.size1, h.size2, 0]).toNat = h.sizeField := by
  have htop : Positional.ofLe [h.size0, h.size1, h.size2, 0] = h.sizeField := by
    unfold sizeField Positional.ofLe
    rw [List.map_cons, List.map_cons, List.map_cons, List.map_cons, List.map_nil]
    show Nat.ofDigits 256 ([h.size0.toNat, h.size1.toNat, h.size2.toNat] ++ [0]) = _
    rw [Nat.ofDigits_append_zero]
    rfl
  rw [UInt32.fromLeBytes, htop]
  exact UInt32.toNat_ofNat_of_lt' (Nat.lt_trans h.sizeField_lt (by decide))

/-- The size is the size field, and the greatest number of 32 bits where the field is zero. -/
theorem size_eq (h : RequestResponseHeader) :
    h.size.toNat = if h.sizeField = 0 then 2 ^ 32 - 1 else h.sizeField := by
  have hraw := h.raw_toNat
  unfold size
  dsimp only
  by_cases hzero : UInt32.fromLeBytes [h.size0, h.size1, h.size2, 0] = 0
  · have h0 : h.sizeField = 0 := by
      rw [← hraw, hzero]
      rfl
    rw [if_pos hzero, if_pos h0]
    rfl
  · have hne : h.sizeField ≠ 0 := by
      intro h0
      exact hzero (UInt32.toNat_inj.mp (hraw.trans h0))
    rw [if_neg hzero, if_neg hne, hraw]

/-- A size of 0 announces 4 GiB, a size below the header's own nothing. -/
theorem payloadSize_eq (h : RequestResponseHeader) :
    h.payloadSize.toNat = if h.sizeField = 0 then 4294967287 else h.sizeField - 8 := by
  have hsize := h.size_eq
  -- the subtraction stops at zero
  have hmin : h.payloadSize.toNat = h.size.toNat - 8 := by
    unfold payloadSize
    by_cases hlt : h.size < 8
    · rw [if_pos hlt]
      rw [UInt32.lt_iff_toNat_lt] at hlt
      exact (Nat.sub_eq_zero_of_le (Nat.le_of_lt hlt)).symm
    · rw [if_neg hlt]
      rw [UInt32.lt_iff_toNat_lt, Nat.not_lt] at hlt
      exact UInt32.toNat_sub_of_le _ _ (UInt32.le_iff_toNat_le.mpr hlt)
  rw [hmin, hsize]
  split
  · rfl
  · rfl

end RequestResponseHeader

/-! ## `read_packet` on a socket

What `read_packet` asks of the socket is recorded along with what it returns, so that a request for
more bytes than a packet has can be seen. -/

/-- A peer's stream: the bytes still to come before it closes, and the lengths `read_exact` was
asked for so far. -/
structure Socket where
  bytes : Bytes
  asked : List Nat := []
  deriving DecidableEq

namespace Socket

/-- `stream.read_exact(&mut buf).await` with a buffer of `n` bytes. A stream that closes before
has been read to its end. -/
def readExact (n : Nat) (s : Socket) : Outcome Bytes × Socket :=
  if s.bytes.length < n then (.error (.err ["early eof"]), ⟨[], s.asked ++ [n]⟩)
  else (.ok (s.bytes.take n), ⟨s.bytes.drop n, s.asked ++ [n]⟩)

def readPacket (s : Socket) : Outcome Received × Socket :=
  match s.readExact 8 with
  | (.error e, s) => (.error e, s)
  | (.ok headerBuf, s) =>
    let header := RequestResponseHeader.ofBytes headerBuf
    let payloadSize := header.payloadSize.toNat
    if payloadSize > 0 then
      match s.readExact payloadSize with
      | (.error e, s) => (.error e, s)
      | (.ok buf, s) => (.ok (header.msgType, header.dejavu, buf), s)
    else (.ok (header.msgType, header.dejavu, []), s)

/-- A stream that closes too early is an error. -/
theorem readExact_of_lt {n : Nat} {s : Socket} (h : s.bytes.length < n) :
    s.readExact n = (.error (.err ["early eof"]), ⟨[], s.asked ++ [n]⟩) := if_pos h

/-- One that is long enough gives the bytes asked for. -/
theorem readExact_of_le {n : Nat} {s : Socket} (h : n ≤ s.bytes.length) :
    s.readExact n = (.ok (s.bytes.take n), ⟨s.bytes.drop n, s.asked ++ [n]⟩) :=
  if_neg (Nat.not_lt.mpr h)

theorem readExact_append {buf rest : Bytes} {asked : List Nat} {n : Nat} (h : buf.length = n) :
    (Socket.mk (buf ++ rest) asked).readExact n = (.ok buf, ⟨rest, asked ++ [n]⟩) := by
  have hle : n ≤ (buf ++ rest).length := by
    rw [List.length_append, h]
    exact Nat.le_add_right n rest.length
  rw [readExact_of_le hle]
  show (Except.ok ((buf ++ rest).take n), Socket.mk ((buf ++ rest).drop n) (asked ++ [n])) = _
  rw [List.take_left' h, List.drop_left' h]

/-- The three ways a call behind a complete header ends: without a payload, in the middle of one, or
with it. -/
theorem readPacket_of_header {header : Bytes} (full : header.length = 8) (rest : Bytes) :
    let h := RequestResponseHeader.ofBytes header
    let n := h.payloadSize.toNat
    readPacket ⟨header ++ rest, []⟩ =
      if n = 0 then (.ok (h.msgType, h.dejavu, []), ⟨rest, [8]⟩)
      else if rest.length < n then (.error (.err ["early eof"]), ⟨[], [8, n]⟩)
      else (.ok (h.msgType, h.dejavu, rest.take n), ⟨rest.drop n, [8, n]⟩) := by
  intro h n
  rw [readPacket, readExact_append full]
  by_cases hzero : n = 0
  · show (if n > 0 then _ else _) = _
    rw [if_pos hzero, if_neg (by omega)]
    rfl
  · show (if n > 0 then _ else _) = _
    rw [if_neg hzero, if_pos (Nat.pos_of_ne_zero hzero)]
    by_cases hshort : rest.length < n
    · rw [readExact_of_lt (s := ⟨rest, [] ++ [8]⟩) hshort, if_pos hshort]
      rfl
    · rw [readExact_of_le (s := ⟨rest, [] ++ [8]⟩) (Nat.not_lt.mp hshort), if_neg hshort]
      rfl

/-- On a stream that closes, `read_packet` returns what `readPacket` reads off its front. So the two
models of it agree. -/
theorem readPacket_ok_iff {stream : Bytes} {packet : Received} {rest : Bytes} :
    (∃ asked, readPacket ⟨stream, []⟩ = (.ok packet, ⟨rest, asked⟩)) ↔
      Qonduit.readPacket stream = some (packet, rest) := by
  by_cases hlen : stream.length < 8
  · have hnone : Qonduit.readPacket stream = none := if_pos hlen
    rw [hnone, readPacket, readExact_of_lt hlen]
    refine ⟨fun ⟨asked, h⟩ => ?_, fun h => ?_⟩
    · cases h
    · cases h
  · have full : (stream.take 8).length = 8 := by
      rw [List.length_take]
      omega
    have hread := readPacket_of_header full (stream.drop 8)
    have hpure := ReadPacket.readPacket_of_header full (stream.drop 8)
    -- with a complete header both go by the same number
    rw [List.take_append_drop] at hread hpure
    rw [hpure, hread]
    generalize (RequestResponseHeader.ofBytes (stream.take 8)).payloadSize.toNat = n
    by_cases hzero : n = 0
    · rw [if_pos hzero, hzero, if_neg (Nat.not_lt_zero _)]
      refine ⟨fun ⟨asked, h⟩ => ?_, fun h => ⟨[8], ?_⟩⟩
      · cases h
        rfl
      · cases h
        rfl
    · rw [if_neg hzero]
      by_cases hshort : (stream.drop 8).length < n
      · rw [if_pos hshort, if_pos hshort]
        refine ⟨fun ⟨asked, h⟩ => ?_, fun h => ?_⟩
        · cases h
        · cases h
      · rw [if_neg hshort, if_neg hshort]
        refine ⟨fun ⟨asked, h⟩ => ?_, fun h => ⟨[8, n], ?_⟩⟩
        · cases h
          rfl
        · cases h
          rfl

end Socket

/-! ## Respecting the size field

What a call owes to the size field is stated for the stream behind the header, whatever it is. A
size from 8 on is kept to, and for each smaller one there is something it does that the size does
not allow. -/

/-- What a call that meets `header` followed by `stream` owes to the header's size field. -/
structure HonoursSize (header stream : Bytes) : Prop where
  /-- A packet returned was as long as its header says, the header included. -/
  consumes : ∀ packet socket, Socket.readPacket ⟨header ++ stream, []⟩ = (.ok packet, socket) →
    8 ≤ (RequestResponseHeader.ofBytes header).sizeField ∧
    ∃ taken, header ++ stream = taken ++ socket.bytes ∧
      taken.length = (RequestResponseHeader.ofBytes header).sizeField
  /-- A size that does not even cover the header is an error. -/
  rejects : (RequestResponseHeader.ofBytes header).sizeField < 8 →
    ∃ e, (Socket.readPacket ⟨header ++ stream, []⟩).1 = .error e
  /-- After the header's 8 bytes, no buffer is longer than the largest packet's payload. -/
  bounded : ∀ n ∈ (Socket.readPacket ⟨header ++ stream, []⟩).2.asked.tail,
    n ≤ maxMessageSize.toNat - 8

namespace HonoursSize

/-- A size from 8 on is the number of bytes taken. The header takes eight of them and the payload
the rest, and a stream that closes before is an error. -/
theorem of_le {header stream : Bytes} (full : header.length = 8)
    (h8 : 8 ≤ (RequestResponseHeader.ofBytes header).sizeField) : HonoursSize header stream := by
  have hread := Socket.readPacket_of_header full stream
  have hsize := (RequestResponseHeader.ofBytes header).payloadSize_eq
  have hlt := (RequestResponseHeader.ofBytes header).sizeField_lt
  rw [if_neg (by omega)] at hsize
  dsimp only at hread
  rw [hsize] at hread
  have hmax : maxMessageSize.toNat = 2 ^ 24 - 1 := rfl
  refine ⟨fun packet socket h => ⟨h8, ?_⟩, fun h => absurd h8 (Nat.not_le.mpr h), ?_⟩
  all_goals generalize (RequestResponseHeader.ofBytes header).sizeField = size at *
  · -- what a call returns is what the pure reading takes off the front
    have hpure := Socket.readPacket_ok_iff.mp ⟨socket.asked, h⟩
    rw [ReadPacket.readPacket_of_header full, hsize] at hpure
    by_cases hshort : stream.length < size - 8
    · rw [if_pos hshort] at hpure
      cases hpure
    · rw [if_neg hshort] at hpure
      have hrest : stream.drop (size - 8) = socket.bytes :=
        congrArg Prod.snd (Option.some.inj hpure)
      refine ⟨header ++ stream.take (size - 8), ?_, ?_⟩
      · rw [List.append_assoc, ← hrest, List.take_append_drop]
      · rw [List.length_append, List.length_take]
        omega
  · rw [hread]
    split
    · intro n hn
      cases hn
    · split
      · intro n hn
        rw [List.mem_singleton.mp hn]
        omega
      · intro n hn
        rw [List.mem_singleton.mp hn]
        omega

/-- A size of 0 asks for 4 GiB, and a size from 1 to 7 is taken for an empty payload. The first is a
request for more bytes than a packet can have, the second a packet longer than its size says. -/
theorem le_of {header stream : Bytes} (full : header.length = 8) (h : HonoursSize header stream) :
    8 ≤ (RequestResponseHeader.ofBytes header).sizeField := by
  apply Nat.not_lt.mp
  intro hlt
  have hread := Socket.readPacket_of_header full stream
  have hsize := (RequestResponseHeader.ofBytes header).payloadSize_eq
  dsimp only at hread
  -- 4 GiB are asked for, or a packet is returned that is not as long as its header says
  by_cases h0 : (RequestResponseHeader.ofBytes header).sizeField = 0
  · rw [if_pos h0] at hsize
    rw [hsize, if_neg (by decide)] at hread
    have hasked : (Socket.readPacket ⟨header ++ stream, []⟩).2.asked = [8, 4294967287] := by
      rw [hread]
      split
      · rfl
      · rfl
    have hle := h.bounded 4294967287 (by rw [hasked]; exact List.mem_singleton_self _)
    exact absurd hle (by decide)
  · rw [if_neg h0, Nat.sub_eq_zero_of_le (Nat.le_of_lt hlt)] at hsize
    rw [hsize, if_pos rfl] at hread
    obtain ⟨e, he⟩ := h.rejects hlt
    rw [hread] at he
    cases he

end HonoursSize

/-- **A call respects the size field of its header exactly when that is at least 8**, whatever the
other header bytes and the stream. -/
theorem honoursSize_iff {header stream : Bytes} (full : header.length = 8) :
    HonoursSize header stream ↔ 8 ≤ (RequestResponseHeader.ofBytes header).sizeField :=
  ⟨HonoursSize.le_of full, HonoursSize.of_le full⟩

/-- A header of size 11 before three payload bytes and one that is not the packet's. -/
theorem honoursSize_eleven : HonoursSize [11, 0, 0, 24, 7, 0, 0, 0] [1, 2, 3, 9] :=
  (honoursSize_iff (by decide)).mpr (by decide)

/-- A header of size 3 is returned as a packet of eight bytes, and one of size 0 makes
`read_packet` ask for 4 GiB of the packets behind it. -/
theorem malformed_header_accepted :
    Socket.readPacket ⟨[3, 0, 0, 24, 7, 0, 0, 0], []⟩ = (.ok (24, 7, []), ⟨[], [8]⟩) ∧
    Socket.readPacket ⟨[0, 0, 0, 24, 7, 0, 0, 0] ++ [8, 0, 0, 35, 7, 0, 0, 0], []⟩
      = (.error (.err ["early eof"]), ⟨[], [8, 4294967287]⟩) ∧
    ¬ HonoursSize [3, 0, 0, 24, 7, 0, 0, 0] [] ∧
    ¬ HonoursSize [0, 0, 0, 24, 7, 0, 0, 0] [8, 0, 0, 35, 7, 0, 0, 0] := by
  refine ⟨by decide, by decide, fun h => ?_, fun h => ?_⟩
  · exact absurd (h.le_of (by decide)) (by decide)
  · exact absurd (h.le_of (by decide)) (by decide)

end Qonduit

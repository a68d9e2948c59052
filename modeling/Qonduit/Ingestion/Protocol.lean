import Qonduit.Core.Basic
import Qonduit.Lib.Framing

/-!
# Qonduit — packets on the wire

`header.rs` and `protocol.rs`: a packet is an eight-byte header (24-bit total size, message
type, dejavu) and a payload. `read_packet` awaits two `read_exact` calls, so it is a future with
a state: the bytes it has already taken off the socket live in its buffers, and nowhere else.

* **`readPacket`** — a packet off the front of a byte stream.
* **`recognises`** — on the encodings of packets it is a frame reader.
* **`ReadPacket.poll_spec`** — polling the future with what has arrived reads off its own bytes
  followed by these: it is ready with that packet, or has consumed everything and holds it.
* **`packets_round_trip`** — successive reads of what `send_raw` wrote for a list of packets give
  back the list, and leave what follows it.
-/

namespace Qonduit

/-! ## Header

Eight bytes: the size of the packet in three bytes with the least significant one first, its type,
and its dejavu. -/

structure RequestResponseHeader where
  size0 : UInt8
  size1 : UInt8
  size2 : UInt8
  msgType : UInt8
  dejavu : UInt32
  deriving DecidableEq

namespace RequestResponseHeader

/-- Total packet size including the header; 0 marks a broken packet. -/
def size (h : RequestResponseHeader) : UInt32 :=
  let raw := UInt32.fromLeBytes [h.size0, h.size1, h.size2, 0]
  -- `u32::MAX`
  if raw = 0 then 0xFFFFFFFF else raw

/-- `size().saturating_sub(8)`. -/
def payloadSize (h : RequestResponseHeader) : UInt32 := if h.size < 8 then 0 else h.size - 8

def newRequest (msgType : UInt8) (payloadSize dejavu : UInt32) : RequestResponseHeader :=
  let s := (payloadSize + 8).toLeBytes
  { size0 := s.getD 0 0, size1 := s.getD 1 0, size2 := s.getD 2 0, msgType, dejavu }

def toBytes (h : RequestResponseHeader) : Bytes :=
  [h.size0, h.size1, h.size2, h.msgType] ++ h.dejavu.toLeBytes

/-- Eight bytes seen as a header. -/
def ofBytes (bs : Bytes) : RequestResponseHeader where
  size0 := bs.getD 0 0
  size1 := bs.getD 1 0
  size2 := bs.getD 2 0
  msgType := bs.getD 3 0
  dejavu := UInt32.fromLeBytes ((bs.drop 4).take 4)

@[simp] theorem length_toBytes (h : RequestResponseHeader) : h.toBytes.length = 8 := by
  simp [toBytes]

@[simp] theorem ofBytes_toBytes (h : RequestResponseHeader) : ofBytes h.toBytes = h := by
  have hdejavu : UInt32.fromLeBytes (((h.toBytes).drop 4).take 4) = h.dejavu := by
    show UInt32.fromLeBytes (h.dejavu.toLeBytes.take 4) = _
    rw [List.take_of_length_le (by simp), UInt32.fromLeBytes_toLeBytes]
  rw [ofBytes, hdejavu]
  rfl

/-- The top byte of a number below 2^24 is zero, so its other three spell it. -/
theorem fromLeBytes_low {n : UInt32} (h : n.toNat < 2 ^ 24) :
    UInt32.fromLeBytes [n.toLeBytes.getD 0 0, n.toLeBytes.getD 1 0, n.toLeBytes.getD 2 0, 0]
      = n := by
  have htop : UInt8.ofNat (n.toNat / 256 / 256 / 256 % 256) = 0 := by
    have hzero : n.toNat / 256 / 256 / 256 = 0 := by omega
    rw [hzero]
    rfl
  have hbytes : n.toLeBytes = [n.toLeBytes.getD 0 0, n.toLeBytes.getD 1 0,
      n.toLeBytes.getD 2 0, UInt8.ofNat (n.toNat / 256 / 256 / 256 % 256)] := rfl
  rw [htop] at hbytes
  rw [← hbytes, UInt32.fromLeBytes_toLeBytes]

/-- The size field of a packet that fits its 24 bits gives the length of its payload. The size
counts the header as well, which is why the bound is on the whole packet. -/
theorem payloadSize_newRequest (msgType : UInt8) (dejavu : UInt32) {n : Nat}
    (h : n + 8 < 2 ^ 24) :
    (newRequest msgType (UInt32.ofNat n) dejavu).payloadSize.toNat = n := by
  have hlt : n + 8 < 2 ^ 32 := Nat.lt_trans h (by decide)
  have hn : (UInt32.ofNat n).toNat = n := UInt32.toNat_ofNat_of_lt' (Nat.lt_of_add_right_lt hlt)
  have htotal : (UInt32.ofNat n + 8).toNat = n + 8 := by
    rw [UInt32.toNat_add_of_lt (by rw [hn]; exact hlt), hn]
    rfl
  have hraw : (newRequest msgType (UInt32.ofNat n) dejavu).size = UInt32.ofNat n + 8 := by
    -- the three bytes hold the size, and it is not the zero that marks a broken packet
    have hlow := fromLeBytes_low (n := UInt32.ofNat n + 8) (by omega)
    unfold size newRequest
    dsimp only
    rw [hlow, if_neg]
    intro hzero
    have := congrArg UInt32.toNat hzero
    rw [htotal] at this
    cases this
  rw [payloadSize, hraw, if_neg, UInt32.add_sub_cancel, hn]
  rw [UInt32.lt_iff_toNat_lt, htotal]
  exact Nat.not_lt.mpr (Nat.le_add_left 8 n)

end RequestResponseHeader

/-! ## Packets

A packet that fits the size field is read back whole, and a part of one is no packet. These two
facts are all that the streams need. -/

/-- (message type, dejavu, payload), as `read_packet` returns it. -/
abbrev Received := UInt8 × UInt32 × Bytes

/-- A packet a node can send: its total size fits the header. -/
structure Packet where
  msgType : UInt8
  dejavu : UInt32
  payload : Bytes
  fits : payload.length + 8 < 2 ^ 24

/-- The bytes `send_raw` writes. -/
def sendRaw (msgType : UInt8) (payload : Bytes) (dejavu : UInt32) : Bytes :=
  (RequestResponseHeader.newRequest msgType (UInt32.ofNat payload.length) dejavu).toBytes ++ payload

namespace Packet

def encode (p : Packet) : Bytes := sendRaw p.msgType p.payload p.dejavu

def received (p : Packet) : Received := (p.msgType, p.dejavu, p.payload)

end Packet

/-- `read_packet` on a stream: the packet at its front and the rest, or nothing while the stream
holds less than a packet. -/
def readPacket (stream : Bytes) : Option (Received × Bytes) :=
  if stream.length < 8 then none
  else
    let header := RequestResponseHeader.ofBytes (stream.take 8)
    let n := header.payloadSize.toNat
    let rest := stream.drop 8
    if rest.length < n then none
    else some ((header.msgType, header.dejavu, rest.take n), rest.drop n)

/-- The bytes of a packet are recognised as that packet, and as no other: `readPacket` returns it
with whatever stands behind it, and waits while any of its bytes is missing. -/
theorem recognises : Framing.Recognises Packet.encode Packet.received readPacket where
  exact p rest := by
    have hlen : ¬ (p.encode ++ rest).length < 8 := by
      simp [Packet.encode, sendRaw]
    have htake : (p.encode ++ rest).take 8 = (RequestResponseHeader.newRequest p.msgType
        (UInt32.ofNat p.payload.length) p.dejavu).toBytes := by
      rw [Packet.encode, sendRaw, List.append_assoc, List.take_left' (by simp)]
    have hdrop : (p.encode ++ rest).drop 8 = p.payload ++ rest := by
      rw [Packet.encode, sendRaw, List.append_assoc, List.drop_left' (by simp)]
    rw [readPacket, if_neg hlen, htake, hdrop]
    simp only [RequestResponseHeader.ofBytes_toBytes,
      RequestResponseHeader.payloadSize_newRequest p.msgType p.dejavu p.fits]
    rw [if_neg (by simp), List.take_left' rfl, List.drop_left' rfl]
    rfl
  patient p arrived rest hsplit hrest := by
    have hlen : arrived.length < p.encode.length := by
      rw [hsplit, List.length_append]
      have := List.length_pos_iff.mpr hrest
      omega
    rw [readPacket]
    split
    · rfl
    · next h8 =>
      -- the header has arrived, and announces more than there is
      have htake : arrived.take 8 = (RequestResponseHeader.newRequest p.msgType
          (UInt32.ofNat p.payload.length) p.dejavu).toBytes := by
        have h := congrArg (List.take 8) hsplit
        rw [List.take_append_of_le_length (by omega), Packet.encode, sendRaw,
          List.take_left' (by simp)] at h
        exact h.symm
      have hencode : p.encode.length = 8 + p.payload.length := by
        simp [Packet.encode, sendRaw]
      simp only [htake, RequestResponseHeader.ofBytes_toBytes,
        RequestResponseHeader.payloadSize_newRequest p.msgType p.dejavu p.fits]
      rw [if_pos (by rw [List.length_drop]; omega)]
  empty := rfl

/-! ## The future of `read_packet`

The future may be suspended in the header or in the payload, and it keeps what it has read so far.
So polling it is the same as reading off what it holds together with what has arrived. -/

/-- Where `read_packet` is suspended: in the `read_exact` of the header or in that of the
payload, with the bytes it has taken off the socket so far. -/
inductive ReadPacket where
  | header (buf : Bytes) (short : buf.length < 8)
  | payload (headerBuf : Bytes) (full : headerBuf.length = 8) (buf : Bytes)
      (short : buf.length < (RequestResponseHeader.ofBytes headerBuf).payloadSize.toNat)

inductive Poll where
  | ready (packet : Received)
  | pending (future : ReadPacket)

namespace ReadPacket

def start : ReadPacket := .header [] (by decide)

def consumed : ReadPacket → Bytes
  | .header buf _ => buf
  | .payload headerBuf _ buf _ => headerBuf ++ buf

/-- Polling the second `read_exact`; `socket` is what has arrived, the second component what is
left of it. -/
def pollPayload (headerBuf : Bytes) (full : headerBuf.length = 8) (buf socket : Bytes) :
    Poll × Bytes :=
  let header := RequestResponseHeader.ofBytes headerBuf
  let n := header.payloadSize.toNat - buf.length
  let buf' := buf ++ socket.take n
  if short : buf'.length < header.payloadSize.toNat then
    (.pending (.payload headerBuf full buf' short), socket.drop n)
  else (.ready (header.msgType, header.dejavu, buf'), socket.drop n)

def poll (future : ReadPacket) (socket : Bytes) : Poll × Bytes :=
  match future with
  | .header buf _ =>
    let n := 8 - buf.length
    let headerBuf := buf ++ socket.take n
    if short : headerBuf.length < 8 then (.pending (.header headerBuf short), socket.drop n)
    else
      have full : headerBuf.length = 8 := by
        have hle : headerBuf.length ≤ 8 := by
          simp only [headerBuf, n, List.length_append, List.length_take]
          omega
        omega
      let header := RequestResponseHeader.ofBytes headerBuf
      -- the second `read_exact` starts in the same poll
      if header.payloadSize > 0 then pollPayload headerBuf full [] (socket.drop n)
      else (.ready (header.msgType, header.dejavu, []), socket.drop n)
  | .payload headerBuf full buf _ => pollPayload headerBuf full buf socket

/-- The stream behind a complete header. -/
theorem readPacket_of_header {headerBuf : Bytes} (full : headerBuf.length = 8) (rest : Bytes) :
    readPacket (headerBuf ++ rest)
      = if rest.length < (RequestResponseHeader.ofBytes headerBuf).payloadSize.toNat then none
        else some (((RequestResponseHeader.ofBytes headerBuf).msgType,
            (RequestResponseHeader.ofBytes headerBuf).dejavu,
            rest.take (RequestResponseHeader.ofBytes headerBuf).payloadSize.toNat),
          rest.drop (RequestResponseHeader.ofBytes headerBuf).payloadSize.toNat) := by
  have hlen : ¬ (headerBuf ++ rest).length < 8 := by
    rw [List.length_append]
    omega
  rw [readPacket, if_neg hlen, List.take_left' full, List.drop_left' full]

/-- `read_exact` fills its buffer up to `n` bytes: the buffer and the socket behind it make up
what there was, and the buffer stays short only if the socket is used up. -/
theorem readExact_spec {n : Nat} {buf : Bytes} (hbuf : buf.length ≤ n) (socket : Bytes) :
    buf ++ socket.take (n - buf.length) = (buf ++ socket).take n ∧
      socket.drop (n - buf.length) = (buf ++ socket).drop n := by
  rw [List.take_append, List.drop_append, List.take_of_length_le hbuf,
    List.drop_eq_nil_of_le hbuf, List.nil_append]
  exact ⟨rfl, rfl⟩

/-- **Polling for the payload**, with the header complete. The size in the header tells how much is
missing, and either the socket has it or all of it is taken. -/
theorem pollPayload_spec {headerBuf : Bytes} (full : headerBuf.length = 8) {buf : Bytes}
    (hbuf : buf.length ≤ (RequestResponseHeader.ofBytes headerBuf).payloadSize.toNat)
    (socket : Bytes) :
    (∃ packet left, readPacket (headerBuf ++ buf ++ socket) = some (packet, left) ∧
      pollPayload headerBuf full buf socket = (.ready packet, left)) ∨
    ∃ future', consumed future' = headerBuf ++ buf ++ socket ∧
      pollPayload headerBuf full buf socket = (.pending future', []) := by
  obtain ⟨htake, hdrop⟩ := readExact_spec hbuf socket
  rw [List.append_assoc, readPacket_of_header full, pollPayload]
  by_cases hshort : (buf ++ socket).length
      < (RequestResponseHeader.ofBytes headerBuf).payloadSize.toNat
  · -- everything there is goes into the buffer
    have hall : (buf ++ socket).take
        (RequestResponseHeader.ofBytes headerBuf).payloadSize.toNat = buf ++ socket :=
      List.take_of_length_le (Nat.le_of_lt hshort)
    have hnone : (buf ++ socket).drop
        (RequestResponseHeader.ofBytes headerBuf).payloadSize.toNat = [] :=
      List.drop_eq_nil_of_le (Nat.le_of_lt hshort)
    have hlen : (buf ++ socket.take ((RequestResponseHeader.ofBytes headerBuf).payloadSize.toNat
        - buf.length)).length < (RequestResponseHeader.ofBytes headerBuf).payloadSize.toNat := by
      rw [htake, hall]
      exact hshort
    rw [dif_pos hlen, hdrop, hnone]
    refine .inr ⟨_, ?_, rfl⟩
    rw [consumed, htake, hall]
  · have hlen : ¬ (buf ++ socket.take ((RequestResponseHeader.ofBytes headerBuf).payloadSize.toNat
        - buf.length)).length < (RequestResponseHeader.ofBytes headerBuf).payloadSize.toNat := by
      rw [htake, List.length_take]
      omega
    rw [dif_neg hlen, if_neg hshort, htake, hdrop]
    exact .inl ⟨_, _, rfl, rfl⟩

/-- **Polling reads off what the future holds followed by what has arrived**: it is ready with the
packet there, or it has taken everything and holds it. -/
theorem poll_spec (future : ReadPacket) (socket : Bytes) :
    (∃ packet left, readPacket (future.consumed ++ socket) = some (packet, left) ∧
      future.poll socket = (.ready packet, left)) ∨
    ∃ future', consumed future' = future.consumed ++ socket ∧
      future.poll socket = (.pending future', []) := by
  cases future with
  | payload headerBuf full buf short => exact pollPayload_spec full (Nat.le_of_lt short) socket
  | header buf short =>
    obtain ⟨htake, hdrop⟩ := readExact_spec (Nat.le_of_lt short) socket
    simp only [poll, consumed]
    by_cases hshort : (buf ++ socket).length < 8
    · -- suspended in the header
      have hall : (buf ++ socket).take 8 = buf ++ socket :=
        List.take_of_length_le (Nat.le_of_lt hshort)
      have hnone : (buf ++ socket).drop 8 = [] := List.drop_eq_nil_of_le (Nat.le_of_lt hshort)
      have hlen : (buf ++ socket.take (8 - buf.length)).length < 8 := by
        rw [htake, hall]
        exact hshort
      rw [dif_pos hlen, hdrop, hnone]
      exact .inr ⟨.header _ hlen, htake.trans hall, rfl⟩
    · -- the header is complete, and the payload is read from what is left
      have hlen : ¬ (buf ++ socket.take (8 - buf.length)).length < 8 := by
        rw [htake, List.length_take]
        omega
      have full : (buf ++ socket.take (8 - buf.length)).length = 8 := by
        rw [htake, List.length_take]
        omega
      have hsplit : buf ++ socket
          = buf ++ socket.take (8 - buf.length) ++ ([] ++ socket.drop (8 - buf.length)) := by
        rw [List.nil_append, List.append_assoc, List.take_append_drop]
      rw [dif_neg hlen]
      split
      · rw [hsplit, ← List.append_assoc]
        exact pollPayload_spec full (Nat.zero_le _) _
      · next hempty =>
        have hzero : (RequestResponseHeader.ofBytes
            (buf ++ socket.take (8 - buf.length))).payloadSize.toNat = 0 := by
          rw [gt_iff_lt, UInt32.lt_iff_toNat_lt] at hempty
          exact Nat.eq_zero_of_not_pos hempty
        refine .inl ⟨_, _, ?_, rfl⟩
        rw [hsplit, readPacket_of_header full, hzero, if_neg (Nat.not_lt_zero _)]
        rfl

/-! ## Successive packets of a stream

One call of `read_packet` after another, each starting where the one before it left the stream. The
chunks the bytes come in play no part in what they return. -/

/-- `read_packet(stream).await`: the future is polled as the chunks arrive; the stream may end
before the packet does. A poll that is pending has taken its whole chunk. -/
def await (future : ReadPacket) : List Bytes → Option (Received × List Bytes)
  | [] => none
  | chunk :: chunks =>
    match future.poll chunk with
    | (.ready packet, left) => some (packet, left :: chunks)
    | (.pending future', _) => await future' chunks

/-- A suspended future does not hold a packet. -/
theorem readPacket_consumed (future : ReadPacket) : readPacket future.consumed = none := by
  cases future with
  | header buf short => exact if_pos short
  | payload headerBuf full buf short =>
    rw [consumed, readPacket_of_header full, if_pos short]

/-- **A packet at the front of the stream is what `read_packet` returns**, whatever has been read
of it and however the rest arrives. -/
theorem await_eq (future : ReadPacket) {chunks : List Bytes} {p : Packet} {more : Bytes}
    (h : future.consumed ++ chunks.flatten = p.encode ++ more) :
    ∃ left, future.await chunks = some (p.received, left) ∧ left.flatten = more := by
  induction chunks generalizing future with
  | nil =>
    rw [List.flatten_nil, List.append_nil] at h
    have hnone := future.readPacket_consumed
    rw [h, recognises.exact] at hnone
    cases hnone
  | cons chunk chunks ih =>
    rw [List.flatten_cons, ← List.append_assoc] at h
    rcases future.poll_spec chunk with ⟨packet, left, hread, hpoll⟩ | ⟨future', hcons, hpoll⟩
    · -- the packet is complete with this chunk
      obtain ⟨rfl, hleft⟩ := recognises.front h hread
      refine ⟨left :: chunks, ?_, hleft⟩
      rw [await, hpoll]
    · -- or the future holds the chunk and waits for the next one
      rw [← hcons] at h
      obtain ⟨left, hawait, hleft⟩ := ih future' h
      refine ⟨left, ?_, hleft⟩
      rw [await, hpoll]
      exact hawait

end ReadPacket

/-- `n` successive `read_packet` calls. -/
def readPackets : Nat → List Bytes → Option (List Received × List Bytes)
  | 0, chunks => some ([], chunks)
  | n + 1, chunks => do
    let (packet, chunks) ← ReadPacket.start.await chunks
    let (packets, chunks) ← readPackets n chunks
    some (packet :: packets, chunks)

/-- **Packet framing round-trips on streams.** However the bytes of the packets sent, followed by
any further bytes, arrive in chunks: as many `read_packet` calls return exactly these packets in
order, and leave exactly the further bytes. -/
theorem packets_round_trip (sent : List Packet) (more : Bytes) {chunks : List Bytes}
    (h : chunks.flatten = sent.flatMap Packet.encode ++ more) :
    ∃ left, readPackets sent.length chunks = some (sent.map Packet.received, left)
      ∧ left.flatten = more := by
  induction sent generalizing chunks with
  | nil => exact ⟨chunks, rfl, h⟩
  | cons p sent ih =>
    rw [List.flatMap_cons, List.append_assoc] at h
    obtain ⟨left, hawait, hleft⟩ := ReadPacket.await_eq .start h
    obtain ⟨left', hrest, hmore⟩ := ih hleft
    refine ⟨left', ?_, hmore⟩
    rw [List.length_cons, readPackets, hawait]
    simp only [Option.bind_eq_bind, Option.bind_some, hrest, List.map_cons]

/-- Two packets, one of them empty, and a further byte, in chunks that cut through a header. -/
theorem packets_round_trip_sample :
    let sent : List Packet := [⟨35, 7, [], by decide⟩, ⟨24, 8, [1, 2, 3], by decide⟩]
    ∃ left, readPackets 2 [[8, 0, 0, 35, 7], [0, 0, 0, 11, 0], [0, 24, 8, 0, 0, 0, 1, 2, 3, 9]]
        = some (sent.map Packet.received, left) ∧ left.flatten = [9] := by
  intro sent
  exact packets_round_trip sent [9] (by decide)

end Qonduit

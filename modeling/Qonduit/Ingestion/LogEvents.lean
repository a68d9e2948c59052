import Qonduit.Lib.Tiling
import Qonduit.Ingestion.Records
import Qonduit.Ingestion.Totality

/-!
# Qonduit — the log events of a broadcast message

A broadcast message is a stream of self-delimiting records behind its first 8 bytes. What a record
is, and where none can start, is said here by the format alone; the loop of `decode_log_events` is
then shown to find the one tiling that cannot be continued, and encoded events to be one.

* **`decodeLogEvents_parses_maximal_prefix`** — the events returned tile the longest prefix of the
  payload that records tile.
* **`decodeLogEvents_encoded`** — encoded events, up to 25 bytes of trail, decode to themselves.
-/

namespace Qonduit

open Tiling

/-! ## The format

A payload of events is a sequence of records without separators: a header of 26 bytes, then data
whose size depends on the type of the event. The relation below says what a record at a position is,
and does not say how it is found. -/

/-- How the size of an event's data is announced. -/
inductive LogSizing where
  | fixed (size : Nat)
  | lengthPrefixed
  | sizeByte

/-- The event types with a size of their own; every other type is unknown. -/
def logSizings : List (UInt8 × LogSizing) :=
  [(0, .fixed 64), (1, .fixed 816), (2, .fixed 64), (3, .fixed 64),
   (4, .lengthPrefixed), (5, .lengthPrefixed), (6, .lengthPrefixed), (7, .lengthPrefixed),
   (8, .fixed 8), (9, .fixed 8), (10, .fixed 224), (11, .fixed 64), (12, .fixed 64),
   (13, .fixed 8), (14, .fixed 8), (15, .lengthPrefixed), (255, .lengthPrefixed)]

def logSizing (eventType : UInt8) : LogSizing := (logSizings.lookup eventType).getD .sizeByte

/-- The event type of the header at `o`. -/
def typeAt (w : Bytes) (o : Nat) : UInt8 := w.getD (o + 18) 0

/-- The size of the data that the header at `o` announces: `none` where the payload ends before the
length, and where the size byte of an unknown type is zero. -/
def announcedSize (w : Bytes) (o : Nat) : Option Nat :=
  match logSizing (typeAt w o) with
  | .fixed size => some size
  | .lengthPrefixed =>
    if o + LOG_HEADER_SIZE + 2 ≤ w.length then
      some ((UInt16.fromLeBytes (Wire.field w (o + LOG_HEADER_SIZE) 2)).toNat + 2)
    else none
  | .sizeByte => if w.getD (o + 19) 0 = 0 then none else some (w.getD (o + 19) 0).toNat

/-- The record of `event` starts at `o` and ends at `stop`. -/
structure LogRecordAt (w : Bytes) (o : Nat) (event : LogEvent) (stop : Nat) : Prop where
  tick : event.tick = UInt32.fromLeBytes (Wire.field w o 4)
  txIndex : event.txIndex = UInt32.fromLeBytes (Wire.field w (o + 4) 4)
  epoch : event.epoch = UInt16.fromLeBytes (Wire.field w (o + 8) 2)
  amount : event.amount = Int64.fromLeBytes (Wire.field w (o + 10) 8)
  eventType : event.eventType = typeAt w o
  size : announcedSize w o = some event.data.length
  data : event.data = Wire.field w (o + LOG_HEADER_SIZE) event.data.length
  stop_eq : stop = o + LOG_HEADER_SIZE + event.data.length
  fits : stop ≤ w.length

/-- Why no record starts at `o`. -/
inductive LogStop (w : Bytes) (o : Nat) : Prop
  | header (hshort : w.length < o + LOG_HEADER_SIZE)
  | length (hheader : o + LOG_HEADER_SIZE ≤ w.length)
      (hsizing : logSizing (typeAt w o) = .lengthPrefixed)
      (hshort : w.length < o + LOG_HEADER_SIZE + 2)
  | data (hheader : o + LOG_HEADER_SIZE ≤ w.length) {size : Nat}
      (hsize : announcedSize w o = some size)
      (hshort : w.length < o + LOG_HEADER_SIZE + size)
  | unsized (hheader : o + LOG_HEADER_SIZE ≤ w.length)
      (hsizing : logSizing (typeAt w o) = .sizeByte) (hzero : w.getD (o + 19) 0 = 0)

variable {w : Bytes} {o stop : Nat} {event : LogEvent}

/-- A record decides its event: the header by its fields, the data by the size it announces. -/
theorem logRecordAt_selfDelimiting (w : Bytes) : SelfDelimiting (LogRecordAt w) := by
  have hlength : ∀ {o stop stop' : Nat} {event event' : LogEvent}, LogRecordAt w o event stop →
      LogRecordAt w o event' stop' → event.data.length = event'.data.length :=
    fun h h' => Option.some.inj (h.size.symm.trans h'.size)
  refine ⟨fun {o event event' stop stop'} h h' => ?_, fun {o event event' stop stop'} h h' => ?_⟩
  · -- the fields are those at the same offsets
    have hdata : event.data = event'.data := by rw [h.data, h'.data, hlength h h']
    obtain ⟨tick, txIndex, epoch, amount, eventType, data⟩ := event
    obtain ⟨tick', txIndex', epoch', amount', eventType', data'⟩ := event'
    simp only [LogEvent.mk.injEq]
    exact ⟨h.tick.trans h'.tick.symm, h.txIndex.trans h'.txIndex.symm, h.epoch.trans h'.epoch.symm,
      h.amount.trans h'.amount.symm, h.eventType.trans h'.eventType.symm, hdata⟩
  · rw [h.stop_eq, h'.stop_eq, hlength h h']

/-- Where one of these reasons applies no record starts. -/
theorem LogStop.stuck (h : LogStop w o) : Stuck (LogRecordAt w) o := by
  intro event stop hrec
  have hsize : announcedSize w o = some event.data.length := hrec.size
  have hstop : stop = o + LOG_HEADER_SIZE + event.data.length := hrec.stop_eq
  have hfits : stop ≤ w.length := hrec.fits
  cases h with
  | header hshort => omega
  | length _ hsizing hshort =>
    rw [announcedSize, hsizing] at hsize
    simp only [Nat.not_le.mpr hshort, if_false, reduceCtorEq] at hsize
  | data _ hsize' hshort =>
    have := Option.some.inj (hsize.symm.trans hsize')
    omega
  | unsized _ hsizing hzero =>
    rw [announcedSize, hsizing] at hsize
    simp only [hzero, if_true, reduceCtorEq] at hsize

/-! ## The loop

The decoder reads record after record and stops where it finds none. Each turn is compared with the
relation, and the whole loop with a tiling by it. -/

/-- The four types of contract messages carry their length. -/
theorem logSizing_lengthPrefixed {t : UInt8}
    (h : LOG_CONTRACT_ERROR_MESSAGE ≤ t ∧ t ≤ LOG_CONTRACT_DEBUG_MESSAGE) :
    logSizing t = .lengthPrefixed := by
  obtain ⟨hlo, hhi⟩ := h
  have hlo' : 4 ≤ t.toNat := UInt8.le_iff_toNat_le.mp hlo
  have hhi' : t.toNat ≤ 7 := UInt8.le_iff_toNat_le.mp hhi
  have ht : t = UInt8.ofNat t.toNat := (UInt8.ofNat_toNat).symm
  have hcases : t.toNat = 4 ∨ t.toNat = 5 ∨ t.toNat = 6 ∨ t.toNat = 7 := by omega
  rcases hcases with h | h | h | h
  all_goals
    rw [ht, h]
    rfl

/-- A type that is not in the table takes its size from the header. -/
theorem logSizing_sizeByte {t : UInt8} (hnone : ∀ p ∈ logSizings, t ≠ p.1) :
    logSizing t = .sizeByte := by
  rw [logSizing, List.lookup_eq_none_iff.mpr (fun p hp => by simpa using hnone p hp)]
  rfl

/-- The size of a length-prefixed event. -/
theorem lengthPrefixed_eq (hsizing : logSizing (typeAt w o) = .lengthPrefixed) :
    lengthPrefixed w (o + LOG_HEADER_SIZE) = .ok (announcedSize w o) := by
  unfold lengthPrefixed
  rw [announcedSize, hsizing]
  dsimp only
  split
  · next hfits =>
    rw [Wire.sliceAt_eq_field (Nat.le_add_right _ _) hfits, ok_bind, Nat.add_sub_cancel_left]
  · rfl

/-- The chain of cases in the code is the table. Each case is passed on with what it excludes, and
behind the last one the type is in no row. -/
theorem logDataSize_eq (hheader : o + LOG_HEADER_SIZE ≤ w.length) :
    logDataSize w o (typeAt w o) = .ok (announcedSize w o) := by
  have hfixed : ∀ {t : UInt8} {n : Nat}, logSizing t = .fixed n → typeAt w o = t →
      (.ok (some n) : Outcome (Option Nat)) = .ok (announcedSize w o) := by
    intro t n hsizing ht
    rw [announcedSize, ht, hsizing]
  unfold logDataSize
  refine ite_eq_iff'.mpr ⟨hfixed rfl, fun h0 => ?_⟩
  refine ite_eq_iff'.mpr ⟨hfixed rfl, fun h1 => ?_⟩
  refine ite_eq_iff'.mpr ⟨hfixed rfl, fun h2 => ?_⟩
  refine ite_eq_iff'.mpr ⟨hfixed rfl, fun h3 => ?_⟩
  refine ite_eq_iff'.mpr ⟨fun h => lengthPrefixed_eq (logSizing_lengthPrefixed h), fun h47 => ?_⟩
  refine ite_eq_iff'.mpr ⟨hfixed rfl, fun h8 => ?_⟩
  refine ite_eq_iff'.mpr ⟨hfixed rfl, fun h9 => ?_⟩
  refine ite_eq_iff'.mpr ⟨hfixed rfl, fun h10 => ?_⟩
  refine ite_eq_iff'.mpr ⟨hfixed rfl, fun h11 => ?_⟩
  refine ite_eq_iff'.mpr ⟨hfixed rfl, fun h12 => ?_⟩
  refine ite_eq_iff'.mpr ⟨hfixed rfl, fun h13 => ?_⟩
  refine ite_eq_iff'.mpr ⟨hfixed rfl, fun h14 => ?_⟩
  refine ite_eq_iff'.mpr ⟨fun h => lengthPrefixed_eq (h ▸ rfl), fun h15 => ?_⟩
  refine ite_eq_iff'.mpr ⟨fun h => lengthPrefixed_eq (h ▸ rfl), fun h255 => ?_⟩
  -- one case covers the four types of contract messages
  have hrange : ∀ {t : UInt8}, 4 ≤ t ∧ t ≤ 7 → typeAt w o ≠ t := fun ht h => h47 (h ▸ ht)
  have hnone : ∀ p ∈ logSizings, typeAt w o ≠ p.1 := by
    simp only [logSizings, List.forall_mem_cons]
    exact ⟨h0, h1, h2, h3, hrange (by decide), hrange (by decide), hrange (by decide),
      hrange (by decide), h8, h9, h10, h11, h12, h13, h14, h15, h255,
      fun _ hmem => absurd hmem List.not_mem_nil⟩
  have hbyte : o + 19 < w.length := by
    have : LOG_HEADER_SIZE = 26 := rfl
    omega
  rw [if_pos hbyte, byteAt_of_lt hbyte, ok_bind, announcedSize, logSizing_sizeByte hnone]
  dsimp only
  by_cases hzero : w.getD (o + 19) 0 = 0
  · rw [if_neg (by rw [hzero]; decide), if_pos hzero]
  · rw [if_pos (UInt8.pos_iff_ne_zero.mpr hzero), if_neg hzero]

/-- The event whose header is at `o`, with data of this size. -/
def eventAt (w : Bytes) (o size : Nat) : LogEvent where
  tick := UInt32.fromLeBytes (Wire.field w o 4)
  txIndex := UInt32.fromLeBytes (Wire.field w (o + 4) 4)
  epoch := UInt16.fromLeBytes (Wire.field w (o + 8) 2)
  amount := Int64.fromLeBytes (Wire.field w (o + 10) 8)
  eventType := typeAt w o
  data := Wire.field w (o + LOG_HEADER_SIZE) size

/-- The event read at a position is a record there, if its data are inside the payload. -/
theorem logRecordAt_eventAt {size : Nat} (hsize : announcedSize w o = some size)
    (hfits : o + LOG_HEADER_SIZE + size ≤ w.length) :
    LogRecordAt w o (eventAt w o size) (o + LOG_HEADER_SIZE + size) := by
  have hlength : (eventAt w o size).data.length = size := Wire.length_field hfits
  exact {
    tick := rfl
    txIndex := rfl
    epoch := rfl
    amount := rfl
    eventType := rfl
    size := by rw [hlength, hsize]
    data := by rw [hlength]; rfl
    stop_eq := by rw [hlength]
    fits := hfits }

/-- A turn of the loop takes a record, or stands where there is none. The size decides: where none
is announced, the type says why. -/
theorem logEventAt_cases (hheader : o + LOG_HEADER_SIZE ≤ w.length) :
    (∃ event size, logEventAt w o = .ok (some (event, size)) ∧
      LogRecordAt w o event (o + LOG_HEADER_SIZE + size)) ∨
    (logEventAt w o = .ok none ∧ LogStop w o) := by
  have hsize : LOG_HEADER_SIZE = 26 := rfl
  have htype : byteAt w (o + 18) = .ok (typeAt w o) := byteAt_of_lt (by omega)
  unfold logEventAt
  simp (disch := omega) only [Wire.sliceAt_eq_field, htype, ok_bind, logDataSize_eq hheader]
  cases hannounced : announcedSize w o with
  | none =>
    refine .inr ⟨rfl, ?_⟩
    cases hsizing : logSizing (typeAt w o) with
    | fixed size =>
      rw [announcedSize, hsizing] at hannounced
      cases hannounced
    | lengthPrefixed =>
      refine .length hheader hsizing (Nat.not_le.mp fun hfits => ?_)
      rw [announcedSize, hsizing] at hannounced
      simp only [hfits, if_true, reduceCtorEq] at hannounced
    | sizeByte =>
      refine .unsized hheader hsizing (by_contra fun hpos => ?_)
      rw [announcedSize, hsizing] at hannounced
      simp only [hpos, if_false, reduceCtorEq] at hannounced
  | some size =>
    dsimp only
    by_cases hend : o + LOG_HEADER_SIZE + size > w.length
    · rw [if_pos hend]
      exact .inr ⟨rfl, .data hheader hannounced hend⟩
    · have hfits : o + LOG_HEADER_SIZE + size ≤ w.length := Nat.not_lt.mp hend
      refine .inl ⟨eventAt w o size, size, ?_, logRecordAt_eventAt hannounced hfits⟩
      rw [if_neg hend, Wire.sliceAt_eq_field (Nat.le_add_right _ _) hfits, ok_bind]
      simp only [Nat.add_sub_cancel_left, Nat.add_sub_add_left, Nat.reduceSub, eventAt]

/-- **The loop tiles the payload** from where it starts to where it stops. -/
theorem logEventsFrom_tiles (o : Nat) (events : List LogEvent) :
    ∃ found stop, logEventsFrom w o events = .ok (events ++ found) ∧
      Tiles (LogRecordAt w) o found stop ∧ LogStop w stop := by
  induction o, events using logEventsFrom.induct w with
  | case1 o events hheader ih =>
    rw [logEventsFrom, if_pos hheader]
    -- the record of this turn, in front of those found behind it
    obtain ⟨event, size, hturn, hrec⟩ | ⟨hturn, hstop⟩ := logEventAt_cases hheader
    · obtain ⟨found, stop, hfound, htiles, hstop⟩ := ih event size
      refine ⟨event :: found, stop, ?_, .cons hrec htiles, hstop⟩
      rw [hturn, ok_bind]
      rw [List.append_assoc] at hfound
      exact hfound
    · refine ⟨[], o, ?_, .nil o, hstop⟩
      rw [hturn, ok_bind, List.append_nil]
  | case2 o events hshort =>
    refine ⟨[], o, ?_, .nil o, .header (Nat.not_le.mp hshort)⟩
    rw [logEventsFrom, if_neg hshort, List.append_nil]

theorem decodeLogEvents_tiles (h : 8 ≤ w.length) :
    ∃ events stop, decodeLogEvents w = .ok events ∧ Tiles (LogRecordAt w) 8 events stop ∧
      LogStop w stop := by
  rw [decodeLogEvents, if_neg (Nat.not_lt.mpr h)]
  exact logEventsFrom_tiles 8 []

/-- **`decode_log_events` parses a maximal prefix**: on every payload of 8 bytes or more it
returns, the events tile the payload from byte 8 on up to a position where no record can start,
and whatever else tiles it from there is a part of them. -/
theorem decodeLogEvents_parses_maximal_prefix (h : 8 ≤ w.length) :
    ∃ events stop, decodeLogEvents w = .ok events ∧
      Tiles (LogRecordAt w) 8 events stop ∧ LogStop w stop ∧
      ∀ events' stop', Tiles (LogRecordAt w) 8 events' stop' → events' <+: events := by
  obtain ⟨events, stop, hdecode, htiles, hstop⟩ := decodeLogEvents_tiles h
  refine ⟨events, stop, hdecode, htiles, hstop, fun events' stop' htiles' => ?_⟩
  exact htiles.prefix_of_stuck (logRecordAt_selfDelimiting w) hstop.stuck htiles'

/-- A message with one event of type 8, all its other bytes zero. -/
def burningPayload : Bytes := List.replicate 26 0 ++ 8 :: List.replicate 15 0

theorem decodeLogEvents_parses_burningPayload :
    8 ≤ burningPayload.length ∧ ∃ events stop, decodeLogEvents burningPayload = .ok events ∧
      Tiles (LogRecordAt burningPayload) 8 events stop ∧ LogStop burningPayload stop ∧
      ∀ events' stop', Tiles (LogRecordAt burningPayload) 8 events' stop' → events' <+: events :=
  ⟨by decide, decodeLogEvents_parses_maximal_prefix (w := burningPayload) (by decide)⟩

/-! ## Encoded events

A record is written with the size byte and the reserved bytes the node chooses. Wherever it stands
in a payload, the decoder finds each of its fields at its offset. -/

/-- The data have the size the event's type prescribes: its own, that of the message behind its
length, or the one the size byte of the header announces. -/
def LogEvent.WellSized (e : LogEvent) (sizeByte : UInt8) : Prop :=
  match logSizing e.eventType with
  | .fixed size => e.data.length = size
  | .lengthPrefixed =>
    ∃ (length : UInt16) (message : Bytes),
      e.data = length.toLeBytes ++ message ∧ message.length = length.toNat
  | .sizeByte => sizeByte ≠ 0 ∧ e.data.length = sizeByte.toNat

/-- A log event as a node sends it, with the header bytes behind its type. -/
structure LogRecord where
  event : LogEvent
  sizeByte : UInt8
  reserved : List.Vector UInt8 6
  wellSized : event.WellSized sizeByte

def LogRecord.bytes (r : LogRecord) : Bytes :=
  [r.event.tick.toLeBytes, r.event.txIndex.toLeBytes, r.event.epoch.toLeBytes,
   r.event.amount.toLeBytes, [r.event.eventType], [r.sizeByte], r.reserved.toList,
   r.event.data].flatten

/-- An encoded event is as long as its header and its data. -/
theorem LogRecord.length_bytes (r : LogRecord) :
    r.bytes.length = LOG_HEADER_SIZE + r.event.data.length := by
  simp only [LogRecord.bytes, List.length_flatten, List.map_cons, List.map_nil, List.sum_cons,
    List.sum_nil, UInt32.length_toLeBytes, UInt16.length_toLeBytes, Int64.length_toLeBytes,
    List.length_singleton, List.Vector.toList_length, LOG_HEADER_SIZE]
  omega

/-- A field is the part that stands at its offset. -/
theorem field_of_at {f : Bytes} {a n : Nat} (h : Layout.At w a f) (hn : f.length = n) :
    Wire.field w a n = f := hn ▸ h.slice_eq

theorem getD_of_at {x : UInt8} {i : Nat} (h : Layout.At w i [x]) : w.getD i 0 = x := by
  obtain ⟨pre, post, rfl, rfl⟩ := h
  rw [List.getD_eq_getElem?_getD, List.getElem?_append_right (Nat.le_refl _), Nat.sub_self]
  rfl

/-- The header of an encoded event announces the size of its data. It is found in three ways, by the
type alone, in front of the message, or in the size byte of the header. -/
theorem LogEvent.WellSized.announced {sizeByte : UInt8} (hwell : event.WellSized sizeByte)
    (htype : typeAt w o = event.eventType) (hbyte : w.getD (o + 19) 0 = sizeByte)
    (hdata : Layout.At w (o + LOG_HEADER_SIZE) event.data) :
    announcedSize w o = some event.data.length := by
  have hfits : o + LOG_HEADER_SIZE + event.data.length ≤ w.length := hdata.le_length
  unfold LogEvent.WellSized at hwell
  rw [announcedSize, htype]
  -- by the row of the table its type is in
  cases hsizing : logSizing event.eventType with
  | fixed size =>
    rw [hsizing] at hwell
    exact congrArg some hwell.symm
  | lengthPrefixed =>
    rw [hsizing] at hwell
    obtain ⟨length, message, hsplit, hmessage⟩ := hwell
    have hlength : event.data.length = length.toNat + 2 := by
      rw [hsplit, List.length_append, UInt16.length_toLeBytes, hmessage, Nat.add_comm]
    have hprefix : Wire.field w (o + LOG_HEADER_SIZE) 2 = length.toLeBytes :=
      field_of_at (hsplit ▸ hdata).left (UInt16.length_toLeBytes length)
    dsimp only
    rw [if_pos (by omega), hprefix, UInt16.fromLeBytes_toLeBytes, hlength]
  | sizeByte =>
    rw [hsizing] at hwell
    dsimp only
    rw [hbyte, if_neg hwell.1, hwell.2]

/-- A record is read where its encoding stands. Each field is found at its offset, and the size byte
and the reserved bytes make no difference to the event. -/
theorem LogRecord.at_bytes (r : LogRecord) (h : Layout.At w o r.bytes) :
    LogRecordAt w o r.event (o + r.bytes.length) := by
  have hfits : o + r.bytes.length ≤ w.length := h.le_length
  rw [r.length_bytes, ← Nat.add_assoc] at hfits ⊢
  -- where its parts stand
  have htick : Layout.At w o r.event.tick.toLeBytes := h.trans (Layout.At.flatten (i := 0) rfl rfl)
  have htxIndex : Layout.At w (o + 4) r.event.txIndex.toLeBytes :=
    h.trans (Layout.At.flatten (i := 1) rfl (by simp))
  have hepoch : Layout.At w (o + 8) r.event.epoch.toLeBytes :=
    h.trans (Layout.At.flatten (i := 2) rfl (by simp))
  have hamount : Layout.At w (o + 10) r.event.amount.toLeBytes :=
    h.trans (Layout.At.flatten (i := 3) rfl (by simp))
  have heventType : Layout.At w (o + 18) [r.event.eventType] :=
    h.trans (Layout.At.flatten (i := 4) rfl (by simp))
  have hsizeByte : Layout.At w (o + 19) [r.sizeByte] :=
    h.trans (Layout.At.flatten (i := 5) rfl (by simp))
  have hdata : Layout.At w (o + LOG_HEADER_SIZE) r.event.data :=
    h.trans (Layout.At.flatten (i := 7) rfl (by simp [LOG_HEADER_SIZE]))
  have htype : typeAt w o = r.event.eventType := getD_of_at heventType
  exact {
    tick := by rw [field_of_at htick (by simp), UInt32.fromLeBytes_toLeBytes]
    txIndex := by rw [field_of_at htxIndex (by simp), UInt32.fromLeBytes_toLeBytes]
    epoch := by rw [field_of_at hepoch (by simp), UInt16.fromLeBytes_toLeBytes]
    amount := by rw [field_of_at hamount (by simp), Int64.fromLeBytes_toLeBytes]
    eventType := htype.symm
    size := r.wellSized.announced htype (getD_of_at hsizeByte) hdata
    data := (field_of_at hdata rfl).symm
    stop_eq := rfl
    fits := hfits }

/-- **Log events round-trip**: behind any 8 bytes, and in front of a trail too short for a header,
encoded events decode to themselves. -/
theorem decodeLogEvents_encoded {front trail : Bytes} (records : List LogRecord)
    (hfront : front.length = 8) (htrail : trail.length < LOG_HEADER_SIZE) :
    decodeLogEvents (front ++ records.flatMap LogRecord.bytes ++ trail)
      = .ok (records.map LogRecord.event) := by
  have hat : Layout.At (front ++ records.flatMap LogRecord.bytes ++ trail) 8
      (records.flatMap LogRecord.bytes) :=
    ⟨front, trail, List.append_assoc _ _ _, hfront⟩
  have hwritten := Tiles.of_encodings (fun r _ o h => LogRecord.at_bytes r h) hat
  have hstuck : LogStop (front ++ records.flatMap LogRecord.bytes ++ trail)
      (8 + (records.flatMap LogRecord.bytes).length) := by
    refine .header ?_
    simp only [List.length_append, hfront]
    omega
  obtain ⟨events, stop, hdecode, htiles, hstop⟩ := decodeLogEvents_tiles
    (w := front ++ records.flatMap LogRecord.bytes ++ trail)
    (by simp only [List.length_append]; omega)
  rw [hdecode, htiles.unique (logRecordAt_selfDelimiting _) hstop.stuck hwritten hstuck.stuck]

/-- An event of each kind: of fixed size, behind a length, and of an unknown type. -/
def sampleRecords : List LogRecord :=
  [{ event := ⟨7, 0, 150, -3, 8, List.replicate 8 1⟩, sizeByte := 0,
     reserved := ⟨List.replicate 6 0, rfl⟩, wellSized := by show List.length _ = _; rfl },
   { event := ⟨7, 1, 150, 0, 255, [2, 0, 104, 105]⟩, sizeByte := 9,
     reserved := ⟨List.replicate 6 5, rfl⟩, wellSized := ⟨2, [104, 105], by decide, by decide⟩ },
   { event := ⟨8, 0, 150, 12, 77, [1, 2, 3]⟩, sizeByte := 3,
     reserved := ⟨List.replicate 6 0, rfl⟩, wellSized := ⟨by decide, by decide⟩ }]

/-- An event of each kind, and a short trail. -/
theorem decodeLogEvents_encoded_sampleRecords :
    (List.replicate 8 (1 : UInt8)).length = 8 ∧ ([1, 2, 3] : Bytes).length < LOG_HEADER_SIZE ∧
    decodeLogEvents (List.replicate 8 1 ++ sampleRecords.flatMap LogRecord.bytes ++ [1, 2, 3])
      = .ok (sampleRecords.map LogRecord.event) :=
  ⟨by decide, by decide, decodeLogEvents_encoded sampleRecords (by decide) (by decide)⟩

end Qonduit

import Qonduit.Ingestion.Decoders

/-!
# Qonduit — decoders of the other wire records

`decoders.rs`: tick data, computors, entity, current tick info, system info, contract IPO, oracle
query metadata, custom mining, transaction status and log id ranges. Each checks a minimum length
and then reads fields at fixed offsets.

* **`decodeTick_cases`** — the outcomes of `decode_tick`, by the header of the payload.
* **`pushEach_items`** — what a loop over an array of items collects.
-/

namespace Qonduit

/-- A `Vec` filled by a loop `for i in 0..n`, whose turns push an item or do not. -/
def pushEach {α : Type} (n : Nat) (turn : Nat → Outcome (Option α)) : Outcome (List α) :=
  (List.range n).foldlM
    (fun items i => do
      match ← turn i with
      | some item => .ok (items ++ [item])
      | none => .ok items)
    []

/-- A loop whose turns read the items of an array collects their images. -/
theorem pushEach_items {α β : Type} {xs : List α} {n : Nat} {turn : Nat → Outcome (Option β)}
    {g : α → β} (hn : xs.length = n)
    (h : ∀ i x, xs[i]? = some x → turn i = .ok (some (g x))) :
    pushEach n turn = .ok (xs.map g) := by
  subst hn
  unfold pushEach
  -- the turns are taken from the front, so the array is built up from its end
  induction xs using List.reverseRecOn with
  | nil => rfl
  | append_singleton xs x ih =>
    have hlast : turn xs.length = .ok (some (g x)) := h _ x (List.getElem?_concat_length ..)
    have hinit := ih (fun i y hy => h i y (by
      rw [List.getElem?_append_left (List.getElem?_eq_some_iff.mp hy).1, hy]))
    rw [List.length_append, List.length_singleton, List.range_succ, List.foldlM_append, hinit,
      ok_bind, List.foldlM_cons, hlast, ok_bind, List.map_append]
    rfl

/-! ## Tick data

The decoder checks two of its fields: an epoch and a computor index above 1000 are refused. Behind
the checks the date is converted, and that is where it can panic. -/

def isLeapYear (year : Nat) : Bool := (year % 4 = 0 ∧ year % 100 ≠ 0) ∨ year % 400 = 0

/-- Days per month of a non-leap year, from month 1 on. -/
def daysInMonth : List Nat := [0, 31, 28, 31, 30, 31, 30, 31, 31, 30, 31, 30, 31]

/-- The turn of month `m`: the table has entries up to month 12 only. -/
def addMonth (year total m : Nat) : Outcome Nat :=
  match daysInMonth[m]? with
  | some days => .ok (total + days + if m = 2 ∧ isLeapYear year then 1 else 0)
  | none => .error (.panic "index out of bounds")

/-- Days from the start of 1970 to that of `year`. -/
def yearDays (year : Nat) : Nat :=
  ((List.range' 1970 (year - 1970)).map (fun y => if isLeapYear y then 366 else 365)).sum

def qubicDateToUnix (year : Nat) (month day hour minute second : UInt8) : Outcome UInt64 := do
  let totalDays ← (List.range' 1 (month.toNat - 1)).foldlM (addMonth year) (yearDays year)
  let totalDays := totalDays + (day.toNat - 1)
  .ok (UInt64.ofNat
    (totalDays * 86400 + hour.toNat * 3600 + minute.toNat * 60 + second.toNat))

/-- The optional tail of a tick: digests, fees and signature of a full payload, and whatever there
is of a shorter one. -/
def tickTail (c : Crates) (payload : Bytes) : Outcome (Str × Str × Str) :=
  if payload.length ≥ 139376 then do
    let transactionDigests ← sliceAt payload 48 131120
    let contractFees ← sliceAt payload 131120 139312
    let signature ← sliceAt payload 139312 139376
    .ok (c.hex.encode transactionDigests, c.hex.encode contractFees, c.hex.encode signature)
  else if payload.length > 48 then .ok (c.hex.encode (payload.drop 48), [], [])
  else .ok ([], [], [])

def decodeTick (c : Crates) (payload : Bytes) : Outcome TickData :=
  if payload.length < 48 then bail s!"TickData payload too small: {payload.length} < 48"
  else do
    let computorIndex := UInt16.fromLeBytes (← sliceAt payload 0 2)
    let epoch := UInt16.fromLeBytes (← sliceAt payload 2 4)
    let tick := UInt32.fromLeBytes (← sliceAt payload 4 8)
    if epoch > 1000 then bail s!"Invalid epoch {epoch} (likely corrupted payload)"
    else if computorIndex > 1000 then
      bail s!"Invalid computor_index {computorIndex} (likely corrupted payload)"
    else do
      let second ← byteAt payload 10
      let minute ← byteAt payload 11
      let hour ← byteAt payload 12
      let day ← byteAt payload 13
      let month ← byteAt payload 14
      let year ← byteAt payload 15
      let fullYear := 2000 + year.toNat
      let timestamp ← qubicDateToUnix fullYear month day hour minute second
      let timeLock ← copyFromSlice (← sliceAt payload 16 48)
      let (transactionDigestsHex, contractFeesHex, signatureHex) ← tickTail c payload
      .ok {
        computorIndex
        epoch
        tick
        timestamp
        timeLock
        transactionDigestsHex
        contractFeesHex
        signatureHex }

/-! The header of a tick payload decides how `decode_tick` ends. -/

namespace TickWire

def computorIndex (w : Bytes) : UInt16 := UInt16.fromLeBytes (Wire.field w 0 2)

def epoch (w : Bytes) : UInt16 := UInt16.fromLeBytes (Wire.field w 2 2)

def tick (w : Bytes) : UInt32 := UInt32.fromLeBytes (Wire.field w 4 4)

def month (w : Bytes) : UInt8 := w.getD 14 0

/-- The payload passes the checks of `decode_tick`. -/
def PassesChecks (w : Bytes) : Prop := 48 ≤ w.length ∧ epoch w ≤ 1000 ∧ computorIndex w ≤ 1000

instance (w : Bytes) : Decidable (PassesChecks w) := inferInstanceAs (Decidable (_ ∧ _))

end TickWire

/-- Reading a byte inside the payload does not panic. -/
theorem byteAt_of_lt {w : Bytes} {i : Nat} (h : i < w.length) : byteAt w i = .ok (w.getD i 0) := by
  rw [byteAt, List.getD_eq_getElem?_getD, List.getElem?_eq_getElem h]
  rfl

/-- The table of months has thirteen entries. -/
theorem addMonth_ok (year total : Nat) {m : Nat} (h : m < 13) :
    ∃ days, addMonth year total m = .ok days := by
  unfold addMonth
  cases hdays : daysInMonth[m]? with
  | some days => exact ⟨_, rfl⟩
  | none => exact absurd (List.getElem?_eq_none_iff.mp hdays) (Nat.not_le.mpr h)

/-- So the loop over the months before the given one returns. -/
theorem addMonths_ok (year : Nat) (months : List Nat) (h : ∀ m ∈ months, m < 13) (total : Nat) :
    ∃ days, months.foldlM (addMonth year) total = .ok days := by
  induction months generalizing total with
  | nil => exact ⟨total, rfl⟩
  | cons m months ih =>
    obtain ⟨days, hdays⟩ := addMonth_ok year total (h m (by simp))
    rw [List.foldlM_cons, hdays, ok_bind]
    exact ih (fun m' hm' => h m' (by simp [hm'])) days

/-- The conversion of a date returns for months up to the thirteenth, whatever the other fields
are. -/
theorem qubicDateToUnix_ok (year : Nat) {month : UInt8} (h : month ≤ 13)
    (day hour minute second : UInt8) :
    ∃ t, qubicDateToUnix year month day hour minute second = .ok t := by
  have hmonths : ∀ m ∈ List.range' 1 (month.toNat - 1), m < 13 := by
    intro m hm
    have h13 : month.toNat ≤ 13 := h
    rw [List.mem_range'_1] at hm
    omega
  obtain ⟨days, hdays⟩ := addMonths_ok year _ hmonths (yearDays year)
  unfold qubicDateToUnix
  rw [hdays, ok_bind]
  exact ⟨_, rfl⟩

/-- Month 14 and later run past the table of months. -/
theorem qubicDateToUnix_panics (year : Nat) {month : UInt8} (h : 13 < month)
    (day hour minute second : UInt8) :
    qubicDateToUnix year month day hour minute second = .error (.panic "index out of bounds") := by
  have h13 : 13 < month.toNat := h
  have hsplit : List.range' 1 (month.toNat - 1)
      = List.range' 1 12 ++ 13 :: List.range' 14 (month.toNat - 14) := by
    have hcount : month.toNat - 1 = 12 + (month.toNat - 14 + 1) := by omega
    rw [hcount, ← List.range'_append_1, List.range'_succ (s := 1 + 12)]
  obtain ⟨days, hdays⟩ := addMonths_ok year (List.range' 1 12) (by decide) (yearDays year)
  unfold qubicDateToUnix
  rw [hsplit, List.foldlM_append, hdays, ok_bind, List.foldlM_cons]
  rfl

/-- What stands behind the header is read as far as it is there. -/
theorem tickTail_ok (c : Crates) (w : Bytes) : ∃ tail, tickTail c w = .ok tail := by
  unfold tickTail
  split
  · next hfull =>
    rw [sliceAt_ok (by decide) (by omega), sliceAt_ok (by decide) (by omega),
      sliceAt_ok (by decide) (by omega)]
    exact ⟨_, rfl⟩
  · split
    · exact ⟨_, rfl⟩
    · exact ⟨_, rfl⟩

section DecodeTick

open TickWire

variable (c : Crates) {w : Bytes}

/-- The record the fields of a payload spell, given its date and its tail. -/
def tickOf (w : Bytes) (timestamp : UInt64) (tail : Str × Str × Str) : TickData where
  computorIndex := computorIndex w
  epoch := epoch w
  tick := tick w
  timestamp := timestamp
  timeLock := keyOf (Wire.field w 16 32)
  transactionDigestsHex := tail.1
  contractFeesHex := tail.2.1
  signatureHex := tail.2.2

/-- Slices of the header are in range. -/
theorem sliceAt_header (h : 48 ≤ w.length) {a b : Nat} (hab : a ≤ b) (hb : b ≤ 48) :
    sliceAt w a b = .ok (Wire.field w a (b - a)) :=
  Wire.sliceAt_eq_field hab (Nat.le_trans hb h)

/-- A payload whose header passes the checks is read up to its date. -/
theorem decodeTick_of_passesChecks (h : PassesChecks w) :
    decodeTick c w = (qubicDateToUnix (2000 + (w.getD 15 0).toNat) (month w) (w.getD 13 0)
      (w.getD 12 0) (w.getD 11 0) (w.getD 10 0) >>= fun timestamp =>
        tickTail c w >>= fun tail => .ok (tickOf w timestamp tail)) := by
  obtain ⟨hlen, hepoch, hindex⟩ := h
  have hkey : copyFromSlice (Wire.field w 16 32) = .ok (keyOf (Wire.field w 16 32)) :=
    copyFromSlice_eq_keyOf (Wire.length_field hlen)
  rw [decodeTick, if_neg (Nat.not_lt.mpr hlen), sliceAt_header hlen (by decide) (by decide),
    sliceAt_header hlen (by decide) (by decide), sliceAt_header hlen (by decide) (by decide),
    sliceAt_header hlen (by decide) (by decide), byteAt_of_lt (by omega), byteAt_of_lt (by omega),
    byteAt_of_lt (by omega), byteAt_of_lt (by omega), byteAt_of_lt (by omega),
    byteAt_of_lt (by omega)]
  simp only [ok_bind, Nat.reduceSub, hkey]
  exact (if_neg (UInt16.not_lt.mpr hepoch)).trans (if_neg (UInt16.not_lt.mpr hindex))

/-- **How `decode_tick` ends**: a header that fails a check is an error, a month past the table a
panic, and everything else decodes. -/
theorem decodeTick_cases (w : Bytes) :
    (¬PassesChecks w ∧ ∃ msg, decodeTick c w = bail msg) ∨
    (PassesChecks w ∧ 13 < month w ∧ decodeTick c w = .error (.panic "index out of bounds")) ∨
    (PassesChecks w ∧ month w ≤ 13 ∧
      ∃ d, decodeTick c w = .ok d ∧ d.tick = tick w ∧ d.epoch = epoch w) := by
  by_cases h : PassesChecks w
  · rw [decodeTick_of_passesChecks c h]
    -- behind the checks the month decides
    by_cases hmonth : 13 < month w
    · refine Or.inr (Or.inl ⟨h, hmonth, ?_⟩)
      rw [qubicDateToUnix_panics _ hmonth]
      rfl
    · have hle : month w ≤ 13 := UInt8.not_lt.mp hmonth
      obtain ⟨timestamp, htimestamp⟩ := qubicDateToUnix_ok (2000 + (w.getD 15 0).toNat) hle
        (w.getD 13 0) (w.getD 12 0) (w.getD 11 0) (w.getD 10 0)
      obtain ⟨tail, htail⟩ := tickTail_ok c w
      refine Or.inr (Or.inr ⟨h, hle, ?_⟩)
      rw [htimestamp, ok_bind, htail, ok_bind]
      exact ⟨_, rfl, rfl, rfl⟩
  · refine Or.inl ⟨h, ?_⟩
    unfold decodeTick
    by_cases hlen : w.length < 48
    · rw [if_pos hlen]
      exact ⟨_, rfl⟩
    · -- a header that is complete fails by its epoch or by its computor index
      have hheader : 48 ≤ w.length := Nat.not_lt.mp hlen
      rw [if_neg hlen, sliceAt_header hheader (by decide) (by decide),
        sliceAt_header hheader (by decide) (by decide),
        sliceAt_header hheader (by decide) (by decide)]
      simp only [ok_bind, Nat.reduceSub]
      by_cases hepoch : epoch w > 1000
      · exact ⟨_, if_pos hepoch⟩
      · have hindex : computorIndex w > 1000 := by
          refine UInt16.not_le.mp (fun hle => h ⟨by omega, UInt16.not_lt.mp hepoch, hle⟩)
        exact ⟨_, (if_neg hepoch).trans (if_pos hindex)⟩

end DecodeTick

/-! ## Computors and entities -/

/-- The turn of the key loop for computor `i`. -/
def computorKey (payload : Bytes) (i : Nat) : Outcome (Option Key32) :=
  let keysStart := 2
  let offset := keysStart + i * PUBLIC_KEY_SIZE
  if offset + PUBLIC_KEY_SIZE ≤ payload.length then do
    let key ← copyFromSlice (← sliceAt payload offset (offset + PUBLIC_KEY_SIZE))
    .ok (some key)
  else .ok none

def decodeComputors (c : Crates) (payload : Bytes) : Outcome Computors :=
  if payload.length < 21634 then bail s!"Computors payload too small: {payload.length} < 21634"
  else do
    let epoch := UInt16.fromLeBytes (← sliceAt payload 0 2)
    let publicKeys ← pushEach NUMBER_OF_COMPUTORS (computorKey payload)
    .ok { epoch, publicKeys, publicKeyIdentities := publicKeys.map (encodeBase26 c) }

def decodeEntity (c : Crates) (payload : Bytes) : Outcome EntityData :=
  if payload.length < 64 then bail s!"Entity payload too small: {payload.length} < 64"
  else do
    let pubKey ← copyFromSlice (← sliceAt payload 0 32)
    let incoming := Int64.fromLeBytes (← sliceAt payload 32 40)
    let outgoing := Int64.fromLeBytes (← sliceAt payload 40 48)
    let numberOfIncomingTransfers := UInt32.fromLeBytes (← sliceAt payload 48 52)
    let numberOfOutgoingTransfers := UInt32.fromLeBytes (← sliceAt payload 52 56)
    let latestIncomingTransferTick := UInt32.fromLeBytes (← sliceAt payload 56 60)
    let latestOutgoingTransferTick := UInt32.fromLeBytes (← sliceAt payload 60 64)
    .ok {
      identity := encodeBase26 c pubKey
      incoming
      outgoing
      numberOfIncomingTransfers
      numberOfOutgoingTransfers
      latestIncomingTransferTick
      latestOutgoingTransferTick }

/-! ## Current tick and system info -/

def decodeCurrentTickInfo (payload : Bytes) : Outcome CurrentTickInfo :=
  if payload.length < 16 then bail s!"CurrentTickInfo payload too small: {payload.length} < 16"
  else do
    let epoch := UInt16.fromLeBytes (← sliceAt payload 2 4)
    let tick := UInt32.fromLeBytes (← sliceAt payload 4 8)
    let numberOfAlignedVotes := UInt16.fromLeBytes (← sliceAt payload 8 10)
    let numberOfMisalignedVotes := UInt16.fromLeBytes (← sliceAt payload 10 12)
    let initialTick := UInt32.fromLeBytes (← sliceAt payload 12 16)
    -- the last two fields are absent in older protocol versions
    let latestVotingTick ←
      if payload.length ≥ 20 then do .ok (UInt32.fromLeBytes (← sliceAt payload 16 20)) else .ok 0
    let timeSinceLastVotingTick ←
      if payload.length ≥ 28 then do .ok (UInt64.fromLeBytes (← sliceAt payload 20 28)) else .ok 0
    .ok {
      epoch
      tick
      numberOfAlignedVotes
      numberOfMisalignedVotes
      initialTick
      latestVotingTick
      timeSinceLastVotingTick }

def decodeSystemInfo (c : Crates) (payload : Bytes) : Outcome SystemInfoReply :=
  if payload.length < 128 then bail s!"SystemInfo payload too small: {payload.length} < 128"
  else do
    let version := Int16.fromLeBytes (← sliceAt payload 0 2)
    let epoch := UInt16.fromLeBytes (← sliceAt payload 2 4)
    let tick := UInt32.fromLeBytes (← sliceAt payload 4 8)
    let initialTick := UInt32.fromLeBytes (← sliceAt payload 8 12)
    let latestCreatedTick := UInt32.fromLeBytes (← sliceAt payload 12 16)
    let initialMillisecond := UInt16.fromLeBytes (← sliceAt payload 16 18)
    let initialSecond ← byteAt payload 18
    let initialMinute ← byteAt payload 19
    let initialHour ← byteAt payload 20
    let initialDay ← byteAt payload 21
    let initialMonth ← byteAt payload 22
    let initialYear ← byteAt payload 23
    let numberOfEntities := UInt32.fromLeBytes (← sliceAt payload 24 28)
    let numberOfTransactions := UInt32.fromLeBytes (← sliceAt payload 28 32)
    let randomMiningSeedHex := c.hex.encode (← sliceAt payload 32 64)
    let solutionThreshold := Int32.fromLeBytes (← sliceAt payload 64 68)
    let totalSpectrumAmount := UInt64.fromLeBytes (← sliceAt payload 68 76)
    let currentEntityBalanceDustThreshold := UInt64.fromLeBytes (← sliceAt payload 76 84)
    let targetTickVoteSignature := UInt32.fromLeBytes (← sliceAt payload 84 88)
    let computorPacketSignature := UInt64.fromLeBytes (← sliceAt payload 88 96)
    let solutionAdditionalThreshold := UInt64.fromLeBytes (← sliceAt payload 96 104)
    .ok {
      version
      epoch
      tick
      initialTick
      latestCreatedTick
      initialMillisecond
      initialSecond
      initialMinute
      initialHour
      initialDay
      initialMonth
      initialYear
      numberOfEntities
      numberOfTransactions
      randomMiningSeedHex
      solutionThreshold
      totalSpectrumAmount
      currentEntityBalanceDustThreshold
      targetTickVoteSignature
      computorPacketSignature
      solutionAdditionalThreshold }

/-! ## Contract IPO -/

/-- The turn of the bid loop for bidder `i`: a key and a price from two parallel arrays. -/
def contractBid (c : Crates) (payload : Bytes) (i : Nat) : Outcome (Option ContractBid) := do
  let keysOffset := 8
  let pricesOffset := 8 + NUMBER_OF_COMPUTORS * PUBLIC_KEY_SIZE
  let keyOff := keysOffset + i * PUBLIC_KEY_SIZE
  let identityBytes ← copyFromSlice (← sliceAt payload keyOff (keyOff + PUBLIC_KEY_SIZE))
  let priceOff := pricesOffset + i * 8
  let bidAmount := Int64.fromLeBytes (← sliceAt payload priceOff (priceOff + 8))
  .ok (some { identity := encodeBase26 c identityBytes, bidAmount })

def decodeContractIpo (c : Crates) (payload : Bytes) : Outcome ContractIpo :=
  if payload.length < 27048 then bail s!"ContractIpo payload too small: {payload.length} < 27048"
  else do
    let contractIndex := UInt32.fromLeBytes (← sliceAt payload 0 4)
    let bids ← pushEach NUMBER_OF_COMPUTORS (contractBid c payload)
    .ok { contractIndex, bids }

/-! ## Oracle query metadata -/

def ORACLE_QUERY_METADATA_SIZE : Nat := 72

def decodeOracleQueryMetadata (c : Crates) (payload : Bytes) : Outcome OracleQueryMetadata :=
  if payload.length < ORACLE_QUERY_METADATA_SIZE then
    bail s!"OracleQueryMetadata payload too small: {payload.length} < {ORACLE_QUERY_METADATA_SIZE}"
  else do
    let queryId := Int64.fromLeBytes (← sliceAt payload 0 8)
    let queryType ← byteAt payload 8
    let status ← byteAt payload 9
    let statusFlags := UInt16.fromLeBytes (← sliceAt payload 10 12)
    let queryTick := UInt32.fromLeBytes (← sliceAt payload 12 16)
    let queryingEntityHex := c.hex.encode (← sliceAt payload 16 48)
    let timeout := UInt64.fromLeBytes (← sliceAt payload 48 56)
    let interfaceIndex := UInt32.fromLeBytes (← sliceAt payload 56 60)
    let subscriptionId := Int32.fromLeBytes (← sliceAt payload 60 64)
    let revealTick := UInt32.fromLeBytes (← sliceAt payload 64 68)
    let totalCommits := UInt16.fromLeBytes (← sliceAt payload 68 70)
    let agreeingCommits := UInt16.fromLeBytes (← sliceAt payload 70 72)
    .ok {
      queryId
      queryType
      status
      statusFlags
      queryTick
      queryingEntityHex
      timeout
      interfaceIndex
      subscriptionId
      revealTick
      totalCommits
      agreeingCommits }

/-! ## Custom mining -/

def decodeCustomMiningTask (c : Crates) (payload : Bytes) : Outcome CustomMiningTask :=
  if payload.length < 233 then bail s!"CustomMiningTask payload too small: {payload.length} < 233"
  else do
    let sourcePublicKeyHex := c.hex.encode (← sliceAt payload 0 32)
    let codeFileTrailerDigestHex := c.hex.encode (← sliceAt payload 96 128)
    let dataFileTrailerDigestHex := c.hex.encode (← sliceAt payload 128 160)
    let jobId := UInt64.fromLeBytes (← sliceAt payload 160 168)
    let customMiningType ← byteAt payload 168
    let sigStart := payload.length - 64
    let payloadHex := c.hex.encode (← sliceAt payload 169 sigStart)
    let signatureHex := c.hex.encode (← sliceAt payload sigStart payload.length)
    .ok {
      sourcePublicKeyHex
      codeFileTrailerDigestHex
      dataFileTrailerDigestHex
      jobId
      customMiningType
      payloadHex
      signatureHex }

def decodeCustomMiningSolution (c : Crates) (payload : Bytes) : Outcome CustomMiningSolution :=
  if payload.length < 201 then
    bail s!"CustomMiningSolution payload too small: {payload.length} < 201"
  else do
    let sourcePublicKeyHex := c.hex.encode (← sliceAt payload 0 32)
    let minerPublicKeyHex := c.hex.encode (← sliceAt payload 96 128)
    let jobId := UInt64.fromLeBytes (← sliceAt payload 128 136)
    let customMiningType ← byteAt payload 136
    let sigStart := payload.length - 64
    let payloadHex := c.hex.encode (← sliceAt payload 137 sigStart)
    let signatureHex := c.hex.encode (← sliceAt payload sigStart payload.length)
    .ok {
      sourcePublicKeyHex
      minerPublicKeyHex
      jobId
      customMiningType
      payloadHex
      signatureHex }

/-! ## Transaction status and log id ranges -/

/-- The turn of the digest loop for transaction `i`. -/
def txDigest (c : Crates) (payload : Bytes) (i : Nat) : Outcome (Option Str) := do
  let digestsStart := 524
  let off := digestsStart + i * 32
  .ok (some (c.hex.encode (← sliceAt payload off (off + 32))))

/-- The tick argument is not used. -/
def decodeTxStatus (c : Crates) (payload : Bytes) (_tick : UInt32) : Outcome TxStatusResponse :=
  if payload.length < 524 then bail s!"TxStatus payload too small: {payload.length} < 524"
  else do
    let currentTickOfNode := UInt32.fromLeBytes (← sliceAt payload 0 4)
    let respTick := UInt32.fromLeBytes (← sliceAt payload 4 8)
    let txCount := UInt32.fromLeBytes (← sliceAt payload 8 12)
    let moneyFlewHex := c.hex.encode (← sliceAt payload 12 524)
    let digestsStart := 524
    let digestsEnd := digestsStart + txCount.toNat * 32
    let txDigests ←
      -- a payload without its digests is accepted
      if digestsEnd ≤ payload.length then pushEach txCount.toNat (txDigest c payload)
      else .ok []
    .ok { currentTickOfNode, tick := respTick, txCount, moneyFlewHex, txDigests }

def NUMBER_OF_TRANSACTIONS_PER_TICK : Nat := 4096

def NUMBER_OF_SPECIAL_EVENT_PER_TICK : Nat := 6

def LOG_TX_PER_TICK : Nat := NUMBER_OF_TRANSACTIONS_PER_TICK + NUMBER_OF_SPECIAL_EVENT_PER_TICK

/-- The turn of a loop over one of the two arrays of `i64`. -/
def logI64 (payload : Bytes) (offset i : Nat) : Outcome (Option Int64) := do
  let off := offset + i * 8
  .ok (some (Int64.fromLeBytes (← sliceAt payload off (off + 8))))

def decodeAllLogIdRanges (payload : Bytes) (tick : UInt32) : Outcome LogIdRangesResponse :=
  let expectedSize := LOG_TX_PER_TICK * 8 * 2
  if payload.length < expectedSize then
    bail s!"LogIdRanges payload too small: {payload.length} < {expectedSize}"
  else do
    let fromLogIds ← pushEach LOG_TX_PER_TICK (logI64 payload 0)
    let lengthsOffset := LOG_TX_PER_TICK * 8
    let lengths ← pushEach LOG_TX_PER_TICK (logI64 payload lengthsOffset)
    .ok { tick, txCount := LOG_TX_PER_TICK, fromLogIds, lengths }

end Qonduit

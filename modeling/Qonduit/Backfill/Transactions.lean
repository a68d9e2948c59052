import Qonduit.Core.Json
import Qonduit.Backfill.TryPeer

/-!
# Qonduit — transaction backfill

`backfill.rs`: `BackfillClient::fetch_txs_for_range` behind its handshake. For each tick it sends
a type 29 request and reads until something ends the tick: a type 35 packet of any request, a
type 54 packet, the tick's deadline, or a timeout. It then goes on to the next tick.

* **`collect_next`** — what the inner loop consumes and records for a tick it moves on from.
* **`tx_backfill_complete_iff`** — an `Ok` leaves no tick out exactly when the first read that
  ends each tick is its own end response and NATS takes every transaction before it.
* **`tx_backfill_skips`** — a timeout drops a tick.
-/

namespace Qonduit

/-- What one turn of the inner loop sees; the deadline of the tick can pass before a read or
during it. -/
inductive TxRead where
  | packet (msgType : UInt8) (dejavu : UInt32) (payload : Bytes) (nats : Except String Unit)
  | readError (e : String)
  | deadline
  | timeout

/-- A packet read while a tick was being fetched, and what was handed to NATS for it. -/
structure TxReceived where
  msgType : UInt8
  dejavu : UInt32
  payload : Bytes
  published : Option Publication
  deriving DecidableEq

/-- A tick: the dejavu of its request and what was received before the next request. -/
structure TickFetch where
  tick : UInt32
  dejavu : UInt32
  received : List TxReceived
  deriving DecidableEq

/-- How the inner loop leaves a tick: for the next one, with an error, or not yet. -/
inductive Collected where
  | next (received : List TxReceived) (rest : List TxRead)
  | failed (fault : Fault)
  | waiting

section Fetch

variable (c : Crates) (link : Link) (epoch : UInt16)

/-- The inner loop: collect type 24 responses until type 35. -/
def collect : List TxRead → List TxReceived → Collected
  | [], _ => .waiting
  | .deadline :: rest, received => .next received rest
  | .timeout :: rest, received => .next received rest
  | .readError e :: _, _ => .failed (.err [s!"Read error: {e}"])
  | .packet msgType dejavu payload nats :: rest, received =>
    if msgType = 24 then
      match decodeTransaction c payload with
      | .error fault => .failed fault
      | .ok tx =>
        -- a publish error is logged and the transaction dropped
        let published := (publishTx epoch tx nats).toOption
        collect rest (received ++ [{ msgType, dejavu, payload, published }])
    else
      let received := received ++ [{ msgType, dejavu, payload, published := none }]
      if msgType = 35 ∨ msgType = 54 then .next received rest
      else collect rest received

/-- `fetch_txs_for_range` after the given reads: the ticks it moved on from, and what it returned
unless it is still waiting. -/
structure TxFetch where
  fetches : List TickFetch
  returned : Option (Outcome UInt32)

/-- The loop over the remaining `n` ticks from `tick`, the `i`-th request being next. -/
def fetchTicks : (n i : Nat) → (tick : UInt32) → List TxRead → TxFetch
  | 0, _, tick, _ => { fetches := [], returned := some (.ok tick) }
  | n + 1, i, tick, reads =>
    match link.send i with
    | .error e => { fetches := [], returned := some (.error (.err [e])) }
    | .ok () =>
      match collect c epoch reads [] with
      | .waiting => { fetches := [], returned := none }
      | .failed fault => { fetches := [], returned := some (.error fault) }
      | .next received rest =>
        let later := fetchTicks n (i + 1) (tick + 1) rest
        { later with
          fetches := { tick, dejavu := max (link.draw i) 1, received } :: later.fetches }

def fetchTxsForRange (rangeStart rangeEnd : UInt32) (reads : List TxRead) : TxFetch :=
  fetchTicks c link epoch (rangeEnd.toNat - rangeStart.toNat) 0 rangeStart reads

end Fetch

/-! ## What a tick ends with

The inner loop of a tick reads until an end response, a type 54 packet, a timeout or the deadline.
It does not look at the dejavu of what ends it, so what is read has to be compared with what was
asked. -/

/-- The read makes the inner loop leave for the next tick. -/
def TxRead.ends : TxRead → Bool
  | .packet msgType _ _ _ => msgType == 35 || msgType == 54
  | .readError _ => false
  | .deadline => true
  | .timeout => true

/-- NATS takes the transaction the read carries, if it carries one. -/
def TxRead.Taken : TxRead → Prop
  | .packet msgType _ _ nats => msgType = 24 → nats = .ok ()
  | _ => True

/-- The packet received by a read. -/
def received? (c : Crates) (epoch : UInt16) : TxRead → Option TxReceived
  | .packet msgType dejavu payload nats =>
    some {
      msgType
      dejavu
      payload
      published := if msgType = 24
        then (decodeTransaction c payload >>= fun tx => publishTx epoch tx nats).toOption
        else none }
  | _ => none

/-- A tick is drained when its own end response came, and every transaction before it was
published. -/
def Drained (f : TickFetch) : Prop :=
  (∃ r ∈ f.received, r.msgType = 35 ∧ r.dejavu = f.dejavu) ∧
  ∀ r ∈ f.received, r.msgType = 24 → r.published.isSome

/-- The reads that fetch `n` ticks from the `i`-th request on: for each, nothing that ends a tick
and no transaction that NATS refuses before the end response of its own request. -/
def Orderly (link : Link) : (n i : Nat) → List TxRead → Prop
  | 0, _, _ => True
  | n + 1, i, reads =>
    (∀ r ∈ reads.takeWhile (fun r => !r.ends), r.Taken) ∧
    ∃ payload nats rest,
      reads.dropWhile (fun r => !r.ends) = .packet 35 (max (link.draw i) 1) payload nats :: rest ∧
      Orderly link n (i + 1) rest

section Collect

variable {c : Crates} {link : Link} {epoch : UInt16}

/-- A packet ends the tick or is recorded, and a transaction that gets recorded decodes. One that
does not decode ends the whole fetch with an error. -/
theorem collect_packet {msgType : UInt8} {dejavu : UInt32} {payload : Bytes}
    {nats : Except String Unit} {reads rest : List TxRead} {before received : List TxReceived}
    (h : collect c epoch (.packet msgType dejavu payload nats :: reads) before
      = .next received rest) :
    ∃ x, received? c epoch (.packet msgType dejavu payload nats) = some x ∧
      (((TxRead.packet msgType dejavu payload nats).ends = true ∧
          received = before ++ [x] ∧ rest = reads) ∨
        ((TxRead.packet msgType dejavu payload nats).ends = false ∧
          (msgType = 24 → ∃ tx, decodeTransaction c payload = .ok tx) ∧
          collect c epoch reads (before ++ [x]) = .next received rest)) := by
  refine ⟨_, rfl, ?_⟩
  unfold collect at h
  by_cases h24 : msgType = 24
  · subst h24
    rw [if_pos rfl] at h
    -- one that does not decode ends the fetch
    cases hdecode : decodeTransaction c payload with
    | error fault =>
      rw [hdecode] at h
      cases h
    | ok tx =>
      rw [hdecode] at h
      exact Or.inr ⟨rfl, fun _ => ⟨tx, rfl⟩, h⟩
  · simp only [if_neg h24] at h ⊢
    -- neither type 35 nor 54 is a transaction
    by_cases hends : msgType = 35 ∨ msgType = 54
    · rw [if_pos hends] at h
      cases h
      exact Or.inl ⟨by simpa [TxRead.ends] using hends, rfl, rfl⟩
    · rw [if_neg hends] at h
      exact Or.inr ⟨by simpa [TxRead.ends] using hends, fun h' => absurd h' h24, h⟩

/-- **What the inner loop consumes**: the reads up to the first that ends a tick. It records their
packets, and every transaction among them decoded. -/
theorem collect_next {reads rest : List TxRead} {before received : List TxReceived}
    (h : collect c epoch reads before = .next received rest) :
    ∃ seen ending, reads = seen ++ ending :: rest ∧
      (∀ r ∈ seen, r.ends = false) ∧ ending.ends = true ∧
      received = before ++ (seen ++ [ending]).filterMap (received? c epoch) ∧
      ∀ dejavu payload nats, .packet 24 dejavu payload nats ∈ seen →
        ∃ tx, decodeTransaction c payload = .ok tx := by
  induction reads generalizing before with
  | nil => cases h
  | cons r reads ih =>
    cases r with
    | deadline =>
      cases h
      exact ⟨[], .deadline, rfl, nofun, rfl, (List.append_nil _).symm, nofun⟩
    | timeout =>
      cases h
      exact ⟨[], .timeout, rfl, nofun, rfl, (List.append_nil _).symm, nofun⟩
    | readError e => cases h
    -- a packet that ends nothing is put before what the rest of the loop reads
    | packet msgType dejavu payload nats =>
      obtain ⟨x, hx, ⟨hends, rfl, rfl⟩ | ⟨hends, hdecodes, hlater⟩⟩ := collect_packet h
      · exact ⟨[], _, rfl, nofun, hends, by simp [hx], nofun⟩
      · obtain ⟨seen, ending, rfl, hseen, hending, hreceived, hdecoded⟩ := ih hlater
        refine ⟨_ :: seen, ending, rfl, ?_, hending, by simp [hx, hreceived], ?_⟩
        · intro r hr
          rcases List.mem_cons.mp hr with rfl | hlater
          · exact hends
          · exact hseen r hlater
        · intro d p n hmem
          rcases List.mem_cons.mp hmem with heq | hlater
          · cases heq
            exact hdecodes rfl
          · exact hdecoded d p n hlater

/-- Whatever was recorded came with a packet, and a transaction was published if it decoded and NATS
took it. -/
theorem packet_of_mem_received {reads : List TxRead} {x : TxReceived}
    (h : x ∈ reads.filterMap (received? c epoch)) :
    ∃ nats, .packet x.msgType x.dejavu x.payload nats ∈ reads ∧
      (x.msgType = 24 → x.published
        = (decodeTransaction c x.payload >>= fun tx => publishTx epoch tx nats).toOption) := by
  obtain ⟨r, hr, hx⟩ := List.mem_filterMap.mp h
  cases r with
  | packet msgType dejavu payload nats =>
    cases hx
    exact ⟨nats, hr, fun h24 => if_pos h24⟩
  | readError e => cases hx
  | deadline => cases hx
  | timeout => cases hx

theorem mem_received_of_packet {reads : List TxRead} {msgType : UInt8} {dejavu : UInt32}
    {payload : Bytes} {nats : Except String Unit}
    (h : .packet msgType dejavu payload nats ∈ reads) :
    ∃ x ∈ reads.filterMap (received? c epoch), x.msgType = msgType ∧ x.dejavu = dejavu ∧
      (msgType = 24 → x.published
        = (decodeTransaction c payload >>= fun tx => publishTx epoch tx nats).toOption) :=
  ⟨_, List.mem_filterMap.mpr ⟨_, h, rfl⟩, rfl, rfl, fun h24 => if_pos h24⟩

/-- A transaction that decodes is published when NATS takes it. -/
theorem published_isSome_iff (epoch : UInt16) {payload : Bytes} {tx : Transaction}
    {nats : Except String Unit} (h : decodeTransaction c payload = .ok tx) :
    (decodeTransaction c payload >>= fun tx => publishTx epoch tx nats).toOption.isSome ↔
      nats = .ok () := by
  rw [h, ok_bind]
  cases nats with
  | ok _ => exact iff_of_true rfl rfl
  | error e => exact iff_of_false nofun nofun

/-- A tick the loop moved on from is drained exactly when it ended with its own end response,
after transactions that NATS took. -/
theorem drained_iff {seen : List TxRead} {ending : TxRead} (epoch : UInt16)
    (tick dejavu : UInt32)
    (hseen : ∀ r ∈ seen, r.ends = false) (hending : ending.ends = true)
    (hdecoded : ∀ d payload nats, .packet 24 d payload nats ∈ seen →
      ∃ tx, decodeTransaction c payload = .ok tx) :
    Drained { tick, dejavu, received := (seen ++ [ending]).filterMap (received? c epoch) } ↔
      (∀ r ∈ seen, r.Taken) ∧ ∃ payload nats, ending = .packet 35 dejavu payload nats := by
  constructor
  · -- the end response that was recorded can only be the read that ended the tick
    rintro ⟨⟨x, hx, h35, hdejavu⟩, hpublished⟩
    obtain ⟨nats, hread, -⟩ := packet_of_mem_received hx
    rw [h35, hdejavu] at hread
    refine ⟨fun r hr => ?_, x.payload, nats, ?_⟩
    · cases r with
      | packet msgType d payload n =>
        rintro rfl
        obtain ⟨tx, htx⟩ := hdecoded d payload n hr
        obtain ⟨y, hy, h24, -, hpublish⟩ :=
          mem_received_of_packet (List.mem_append_left [ending] hr)
        have hsome := hpublished y hy h24
        rw [hpublish rfl] at hsome
        exact (published_isSome_iff epoch htx).mp hsome
      | readError e => trivial
      | deadline => trivial
      | timeout => trivial
    · -- an end response among the earlier reads would have ended the tick
      rcases List.mem_append.mp hread with hseen' | hlast
      · exact absurd (hseen _ hseen') nofun
      · exact (List.mem_singleton.mp hlast).symm
  · -- and the one that ended it was recorded
    rintro ⟨htaken, payload, nats, rfl⟩
    obtain ⟨y, hy, h35, hdejavu, -⟩ :=
      mem_received_of_packet (List.mem_append_right seen List.mem_cons_self)
    refine ⟨⟨y, hy, h35, hdejavu⟩, fun x hx h24 => ?_⟩
    obtain ⟨n, hread, hpublish⟩ := packet_of_mem_received hx
    rw [hpublish h24]
    rw [h24] at hread
    rcases List.mem_append.mp hread with hseen' | hlast
    · obtain ⟨tx, htx⟩ := hdecoded _ _ _ hseen'
      exact (published_isSome_iff epoch htx).mpr (htaken _ hseen' rfl)
    · cases List.mem_singleton.mp hlast

/-- The reads up to the first that ends a tick, and the rest. -/
theorem takeWhile_dropWhile_ends {seen : List TxRead} {ending : TxRead} (rest : List TxRead)
    (hseen : ∀ r ∈ seen, r.ends = false) (hending : ending.ends = true) :
    (seen ++ ending :: rest).takeWhile (fun r => !r.ends) = seen ∧
      (seen ++ ending :: rest).dropWhile (fun r => !r.ends) = ending :: rest := by
  have hall : ∀ r ∈ seen, (!r.ends) = true := fun r hr => by rw [hseen r hr]; rfl
  constructor
  · rw [List.takeWhile_append_of_pos hall, List.takeWhile_cons_of_neg (by simp [hending]),
      List.append_nil]
  · rw [List.dropWhile_append_of_pos hall, List.dropWhile_cons_of_neg (by simp [hending])]

end Collect

/-! ## Whole ranges

The reads of a fetch fall into those of its ticks, one after another. What the network owes a fetch
is therefore stated along the reads, tick by tick, and compared with what the fetch recorded. -/

section Range

variable {c : Crates} {link : Link} {epoch : UInt16}

/-- A fetch that returns `Ok` moved on from each of its ticks, in order, and each was drained
exactly when the reads were orderly. The induction is on the ticks left; `fits` keeps the cursor
from wrapping. -/
theorem fetchTicks_ok {n i : Nat} {tick last : UInt32} {reads : List TxRead}
    (hfits : tick.toNat + n < 2 ^ 32)
    (hok : (fetchTicks c link epoch n i tick reads).returned = some (.ok last)) :
    last.toNat = tick.toNat + n ∧
    (fetchTicks c link epoch n i tick reads).fetches.map (fun f => f.tick.toNat)
      = List.range' tick.toNat n ∧
    ((∀ f ∈ (fetchTicks c link epoch n i tick reads).fetches, Drained f) ↔
      Orderly link n i reads) := by
  induction n generalizing i tick reads with
  | zero =>
    cases hok
    exact ⟨rfl, rfl, iff_of_true nofun trivial⟩
  | succ n ih =>
    unfold fetchTicks at hok ⊢
    cases hsend : link.send i with
    | error e =>
      rw [hsend] at hok
      cases hok
    | ok _ =>
      rw [hsend] at hok
      cases hcollect : collect c epoch reads [] with
      | waiting =>
        rw [hcollect] at hok
        cases hok
      | failed fault =>
        rw [hcollect] at hok
        cases hok
      | next received rest =>
        rw [hcollect] at hok
        have hnext : (tick + 1).toNat = tick.toNat + 1 :=
          UInt32.toNat_add_of_lt (by show tick.toNat + 1 < 2 ^ 32; omega)
        obtain ⟨hlast, hticks, hdrained⟩ := ih (by omega) hok
        -- the reads of this tick end with the first that ends a tick
        obtain ⟨seen, ending, rfl, hseen, hending, hreceived, hdecoded⟩ :=
          collect_next hcollect
        obtain ⟨htake, hdrop⟩ := takeWhile_dropWhile_ends rest hseen hending
        refine ⟨by omega, ?_, ?_⟩
        · show tick.toNat :: (fetchTicks c link epoch n (i + 1) (tick + 1) rest).fetches.map _ = _
          rw [hticks, hnext, List.range'_succ]
        · -- this tick by what it ended with, the later ones by induction
          have hfirst := drained_iff epoch tick (max (link.draw i) 1) hseen hending hdecoded
          rw [List.nil_append] at hreceived
          rw [← hreceived] at hfirst
          show (∀ f ∈ _ :: (fetchTicks c link epoch n (i + 1) (tick + 1) rest).fetches,
            Drained f) ↔ _
          rw [List.forall_mem_cons, hfirst, hdrained, Orderly, htake, hdrop]
          constructor
          · rintro ⟨⟨htaken, payload, nats, rfl⟩, hrest⟩
            exact ⟨htaken, payload, nats, rest, rfl, hrest⟩
          · rintro ⟨htaken, payload, nats, rest', heq, hrest⟩
            obtain ⟨rfl, rfl⟩ := List.cons.inj heq
            exact ⟨⟨htaken, payload, nats, rfl⟩, hrest⟩

/-- **An `Ok` leaves no tick out exactly when the reads were orderly.** Every tick of the range
had its own end response before the next request, and every transaction received in between
published, if and only if for each tick the first read that ends it is a type 35 packet with its
dejavu, and NATS took each transaction before that. -/
theorem tx_backfill_complete_iff (rangeStart rangeEnd last : UInt32) (reads : List TxRead)
    (hok : (fetchTxsForRange c link epoch rangeStart rangeEnd reads).returned
      = some (.ok last)) :
    (∀ t, rangeStart ≤ t → t < last →
      ∃ f ∈ (fetchTxsForRange c link epoch rangeStart rangeEnd reads).fetches,
        f.tick = t ∧ Drained f) ↔
    Orderly link (rangeEnd.toNat - rangeStart.toNat) 0 reads := by
  have hfits : rangeStart.toNat + (rangeEnd.toNat - rangeStart.toNat) < 2 ^ 32 := by
    have hstart := rangeStart.toNat_lt
    have hend := rangeEnd.toNat_lt
    omega
  unfold fetchTxsForRange at hok ⊢
  obtain ⟨hlast, hticks, hdrained⟩ := fetchTicks_ok hfits hok
  rw [← hdrained]
  generalize fetchTicks c link epoch (rangeEnd.toNat - rangeStart.toNat) 0 rangeStart reads = s
    at hticks
  constructor
  · intro h f hf
    have hrange : f.tick.toNat ∈ s.fetches.map (fun f => f.tick.toNat) := List.mem_map_of_mem hf
    rw [hticks, List.mem_range'_1] at hrange
    obtain ⟨g, hg, htick, hg'⟩ := h f.tick hrange.1 (by
      rw [UInt32.lt_iff_toNat_lt]
      omega)
    -- a tick is fetched once
    have hnodup : (s.fetches.map (fun f => f.tick.toNat)).Nodup := by
      rw [hticks]
      exact List.nodup_range'
    have hsame : g = f := List.inj_on_of_nodup_map hnodup hg hf (congrArg UInt32.toNat htick)
    exact hsame ▸ hg'
  · intro h t hstart hlt
    rw [UInt32.lt_iff_toNat_lt] at hlt
    have hmem : t.toNat ∈ s.fetches.map (fun f => f.tick.toNat) := by
      rw [hticks, List.mem_range'_1]
      exact ⟨hstart, by omega⟩
    obtain ⟨f, hf, htick⟩ := List.mem_map.mp hmem
    exact ⟨f, hf, UInt32.toNat_inj.mp htick, h f hf⟩

end Range

/-- A transaction and the end responses of both requests. -/
theorem tx_backfill_complete_sample :
    let reads : List TxRead :=
      [.packet 24 7 (List.replicate 80 0) (.ok ()), .packet 35 7 [] (.ok ()),
       .packet 35 8 [] (.ok ())]
    (fetchTxsForRange (.ofKnown {}) (.counting 7) 5 3 5 reads).returned = some (.ok 5) ∧
      ∀ t, 3 ≤ t → t < 5 →
        ∃ f ∈ (fetchTxsForRange (.ofKnown {}) (.counting 7) 5 3 5 reads).fetches,
          f.tick = t ∧ Drained f := by
  intro reads
  have hok : (fetchTxsForRange (.ofKnown {}) (.counting 7) 5 3 5 reads).returned
      = some (.ok 5) := by decide +kernel
  refine ⟨hok, (tx_backfill_complete_iff 3 5 5 reads hok).mpr ⟨?_, [], .ok (), _, rfl, ?_⟩⟩
  · intro r hr
    cases List.mem_singleton.mp hr
    exact fun _ => rfl
  · exact ⟨nofun, [], .ok (), [], rfl, trivial⟩

/-- The end response of tick 3 comes after its timeout and ends tick 4: both are reported done,
and neither was. -/
theorem tx_backfill_skips :
    let reads : List TxRead := [.timeout, .packet 35 7 [] (.ok ())]
    (fetchTxsForRange (.ofKnown {}) (.counting 7) 5 3 5 reads).returned = some (.ok 5) ∧
      ¬∀ t, 3 ≤ t → t < 5 →
        ∃ f ∈ (fetchTxsForRange (.ofKnown {}) (.counting 7) 5 3 5 reads).fetches,
          f.tick = t ∧ Drained f := by
  intro reads
  have hfetches : (fetchTxsForRange (.ofKnown {}) (.counting 7) 5 3 5 reads).fetches
      = [⟨3, 7, []⟩, ⟨4, 8, [⟨35, 7, [], none⟩]⟩] := by decide +kernel
  refine ⟨by decide +kernel, fun h => ?_⟩
  obtain ⟨f, hf, htick, ⟨r, hr, -⟩, -⟩ := h 3 (by decide) (by decide)
  rw [hfetches] at hf
  rcases List.mem_cons.mp hf with rfl | hlater
  · cases hr
  · cases List.mem_singleton.mp hlater
    cases htick

end Qonduit

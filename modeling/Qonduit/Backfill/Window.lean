import Qonduit.Core.Json
import Qonduit.Backfill.TryPeer

/-!
# Qonduit — the sliding window

What `try_peer` keeps true for any node, any dejavu draws and any packet order.

* **`turn_cases`** — what one read can do: nothing, end the session, or answer one pending request
  (as failed, with or without a failure in a row, or as completed) and refill.
* **`Window`** — the invariant of the queue, the cursor and the log; every fill and every read
  keeps it.
* **`tryPeer_skips`** — every skip obeys the rule for failures in a row, read off the log before it.
* **`sliding_window_accounting`** — requests are completed, failed or pending, at every read, and
  an `Ok` leaves nothing out of the range.
-/

namespace Qonduit

/-! ## What one read can do

A session sends type 16 requests only, so its queue never holds anything but tick requests. Under
that assumption every read ends in one of five ways, and what follows argues about these instead of
the branches of `on_packet`. -/

section Turns

variable {c : Crates} {link : Link} {epoch : UInt16} {workerEnd : UInt32} {s : Session}

/-- The outcomes of a read when only tick requests are pending. -/
inductive Turn (link : Link) (workerEnd : UInt32) (s : Session) : Session → Prop where
  | idle (txs : Nat) : Turn link workerEnd s { s with txsDiscovered := txs }
  | lost {pending : List ExpectedResponse} (hpending : pending.Sublist s.expected)
      (failures failed : Nat) {skipSize : UInt32} (hskip : skipSize ≤ FAILURE_SKIP_MAX)
      (fault : Fault) :
      Turn link workerEnd s
        { s with
          expected := pending
          consecutiveFailures := failures
          skipSize := skipSize
          ticksFailed := failed
          ended := some (.error fault) }
  /-- An answer too short for its tick; the failures in a row stay as they are. -/
  | unreadable {dejavu t d : UInt32} (hfind : s.find dejavu = some (.tickData t d)) :
      Turn link workerEnd s (fillPipeline link workerEnd
        { s.remove dejavu with ticksFailed := s.ticksFailed + 1 })
  | refused {dejavu t d : UInt32} (hfind : s.find dejavu = some (.tickData t d)) :
      Turn link workerEnd s (fillPipeline link workerEnd
        { s.remove dejavu with
          consecutiveFailures := s.consecutiveFailures + 1
          ticksFailed := s.ticksFailed + 1
          log := s.log ++ [.refused t] })
  | answered {dejavu t d : UInt32} (hfind : s.find dejavu = some (.tickData t d))
      (published : Option Publication) (respTick : UInt32) :
      Turn link workerEnd s (fillPipeline link workerEnd
        ({ s.remove dejavu with
          consecutiveFailures := 0
          skipSize := FAILURE_SKIP_INITIAL }.complete t published respTick))

/-- The first step of a skip is within the bound of all steps. -/
theorem skip_initial_le : FAILURE_SKIP_INITIAL ≤ FAILURE_SKIP_MAX := by decide

/-- Taking the entry of an answer off the queue keeps the others in their order. -/
theorem eraseP_sublist (s : Session) (dejavu : UInt32) :
    (s.remove dejavu).expected.Sublist s.expected :=
  List.eraseP_sublist

/-- A type 8 packet is for no pending request, is too short, or answers one. Only a panic of the
decoder ends the session here: an error of the decoder or of NATS is logged, and the tick counts as
completed. -/
theorem onTickData_turn (honly : ∀ e ∈ s.expected, ∃ t d, e = .tickData t d) (dejavu : UInt32)
    (payload : Bytes) (nats : Except String Unit) :
    Turn link workerEnd s (onTickData c link epoch workerEnd s dejavu payload nats) := by
  unfold onTickData
  cases hfind : s.find dejavu with
  | none => exact .idle s.txsDiscovered
  | some entry =>
    obtain ⟨t, d, rfl⟩ := honly entry (List.mem_of_find?_eq_some hfind)
    by_cases hlen : payload.length ≥ 8
    · simp only [if_pos hlen]
      split
      · exact .lost (eraseP_sublist s dejavu) 0 s.ticksFailed skip_initial_le _
      · exact .answered hfind none _
      · exact .answered hfind _ _
    · simp only [if_neg hlen]
      exact .unreadable hfind

/-- An end response, or a type 54 packet, is for no pending request or fails one. -/
theorem onRefusal_turn (honly : ∀ e ∈ s.expected, ∃ t d, e = .tickData t d) (dejavu : UInt32) :
    Turn link workerEnd s (onRefusal link workerEnd s dejavu) := by
  unfold onRefusal
  cases hfind : s.find dejavu with
  | none => exact .idle s.txsDiscovered
  | some entry =>
    obtain ⟨t, d, rfl⟩ := honly entry (List.mem_of_find?_eq_some hfind)
    exact .refused hfind

/-- A transaction answers no request of a session, and only a panic of the decoder ends one here. -/
theorem onTransaction_turn (hskip : s.skipSize ≤ FAILURE_SKIP_MAX) (payload : Bytes)
    (nats : Except String Unit) :
    Turn link workerEnd s (onTransaction c epoch s payload nats) := by
  unfold onTransaction
  split
  · exact .lost (List.Sublist.refl _) s.consecutiveFailures s.ticksFailed hskip _
  · exact .idle s.txsDiscovered
  · exact .idle (s.txsDiscovered + 1)

/-- **What a read can do**, when only tick requests are pending: nothing, end the session, or take
one entry off the queue as unreadable, refused or answered and fill up again. -/
theorem turn_cases (honly : ∀ e ∈ s.expected, ∃ t d, e = .tickData t d)
    (hskip : s.skipSize ≤ FAILURE_SKIP_MAX) (i : Incoming) :
    Turn link workerEnd s (onIncoming c link epoch workerEnd s i) := by
  cases i with
  | readError e =>
    exact .lost (List.Sublist.refl _) s.consecutiveFailures s.ticksFailed hskip _
  | timeout => exact .lost (List.Sublist.refl _) s.consecutiveFailures _ hskip _
  -- the types in the order in which the source tests them
  | packet msgType dejavu payload nats =>
    show Turn link workerEnd s (onPacket c link epoch workerEnd s msgType dejavu payload nats)
    unfold onPacket
    split
    · exact onTickData_turn honly dejavu payload nats
    · split
      · exact onRefusal_turn honly dejavu
      · split
        · exact onTransaction_turn hskip payload nats
        · split
          · exact onRefusal_turn honly dejavu
          · exact .idle s.txsDiscovered

end Turns

/-! ## The window invariant

The log says what was requested, skipped and completed, in this order. The window ties the queue and
the cursor to it: the pending ticks are a part of the requested ones, and the requests and the
skipped ranges together cover the ticks from the start to the cursor, each once. -/

/-- A skipped range holds `t`. -/
def Skipped (log : List Effect) (t : UInt32) : Prop :=
  ∃ lo hi, Effect.skipped lo hi ∈ log ∧ lo ≤ t ∧ t < hi

/-- `later` requests again the tick that `earlier` completed. -/
def Effect.repeats : Effect → Effect → Bool
  | .completed t _, .requested u => t == u
  | _, _ => false

/-- No tick is requested after an answer to a request of it was counted as completed. -/
def NoRepeat (log : List Effect) : Prop :=
  log.Pairwise (fun earlier later => earlier.repeats later = false)

instance (log : List Effect) : Decidable (NoRepeat log) :=
  inferInstanceAs (Decidable (List.Pairwise _ log))

/-- The queue holds requests of the log, the log covers the range up to the cursor in order, and
nothing in it twice. -/
structure Window (start workerEnd : UInt32) (s : Session) : Prop where
  onlyTicks : ∀ e ∈ s.expected, ∃ t d, e = .tickData t d
  depth : s.expected.length ≤ PIPELINE_DEPTH
  pending : (s.expected.map ExpectedResponse.tick).Sublist (requests s.log)
  ordered : (requests s.log).Pairwise (· < ·)
  requested : ∀ t ∈ requests s.log, start ≤ t ∧ t < s.nextTickToRequest
  skipped : ∀ lo hi, Effect.skipped lo hi ∈ s.log → hi ≤ s.nextTickToRequest
  covered : ∀ t, start ≤ t → t < s.nextTickToRequest →
    (t ∈ requests s.log ↔ ¬Skipped s.log t)
  start_le : start ≤ s.nextTickToRequest
  le_end : s.nextTickToRequest ≤ workerEnd
  skip_le : s.skipSize ≤ FAILURE_SKIP_MAX
  completed : (completions s.log).length = s.ticksCompleted
  answered : ∀ a ∈ completions s.log, a.1 ∈ requests s.log
  noRepeat : NoRepeat s.log
  room : s.ticksCompleted + s.expected.length ≤ (requests s.log).length
  span : start.toNat + (requests s.log).length ≤ s.nextTickToRequest.toNat

/-- A skip from here stays below `2 ^ 32`. -/
def Session.SkipFits (s : Session) : Prop := s.nextTickToRequest.toNat + s.skipSize.toNat < 2 ^ 32

/-- One more failed request does not make the cursor wrap around. -/
def Session.RefusalFits (workerEnd : UInt32) (s : Session) : Prop :=
  s.nextTickToRequest < workerEnd → s.consecutiveFailures + 1 ≥ MAX_CONSECUTIVE_FAILURES →
    s.SkipFits

/-- Every request is completed, failed or pending. -/
def Accounted (s : Session) : Prop :=
  (requests s.log).length = s.ticksCompleted + s.ticksFailed + s.expected.length

section Log

variable {log : List Effect} {t : UInt32}

@[simp] theorem requests_append_requested :
    requests (log ++ [.requested t]) = requests log ++ [t] := by
  simp [requests, Effect.request?]

@[simp] theorem requests_append_skipped {lo hi : UInt32} :
    requests (log ++ [.skipped lo hi]) = requests log := by
  simp [requests, Effect.request?]

@[simp] theorem requests_append_completed {p : Option Publication} :
    requests (log ++ [.completed t p]) = requests log := by
  simp [requests, Effect.request?]

@[simp] theorem requests_append_refused : requests (log ++ [.refused t]) = requests log := by
  simp [requests, Effect.request?]

@[simp] theorem completions_append_refused :
    completions (log ++ [.refused t]) = completions log := by
  simp [completions, Effect.completion?]

@[simp] theorem completions_append_requested :
    completions (log ++ [.requested t]) = completions log := by
  simp [completions, Effect.completion?]

@[simp] theorem completions_append_skipped {lo hi : UInt32} :
    completions (log ++ [.skipped lo hi]) = completions log := by
  simp [completions, Effect.completion?]

@[simp] theorem completions_append_completed {p : Option Publication} :
    completions (log ++ [.completed t p]) = completions log ++ [(t, p)] := by
  simp [completions, Effect.completion?]

/-- A tick is among the completions with what was published for it if its effect is in the log. -/
theorem mem_completions {a : UInt32 × Option Publication} :
    a ∈ completions log ↔ Effect.completed a.1 a.2 ∈ log := by
  unfold completions
  rw [List.mem_filterMap]
  constructor
  · rintro ⟨e, he, hcompletion⟩
    cases e with
    | completed t p => cases hcompletion; exact he
    | requested t => cases hcompletion
    | skipped lo hi => cases hcompletion
    | refused t => cases hcompletion
  · exact fun he => ⟨_, he, rfl⟩

/-- A log grows by a request for a tick it has not completed. -/
theorem NoRepeat.append_requested (h : NoRepeat log) (hfresh : ∀ a ∈ completions log, a.1 ≠ t) :
    NoRepeat (log ++ [.requested t]) := by
  refine List.pairwise_append.mpr ⟨h, List.pairwise_singleton _ _, fun e he e' he' => ?_⟩
  rw [List.mem_singleton.mp he']
  cases e with
  | completed u p => exact beq_false_of_ne (hfresh (u, p) (mem_completions.mpr he))
  | requested u => rfl
  | skipped lo hi => rfl
  | refused u => rfl

/-- A log grows by anything but a request. -/
theorem NoRepeat.append_other (h : NoRepeat log) {e : Effect} (he : e.request? = none) :
    NoRepeat (log ++ [e]) := by
  refine List.pairwise_append.mpr ⟨h, List.pairwise_singleton _ _, fun e₁ _ e₂ he₂ => ?_⟩
  rw [List.mem_singleton.mp he₂]
  cases e with
  | requested t => cases he
  | completed t p => cases e₁ <;> rfl
  | skipped lo hi => cases e₁ <;> rfl
  | refused t => cases e₁ <;> rfl

@[simp] theorem skipped_append_requested {u : UInt32} :
    Skipped (log ++ [.requested u]) t ↔ Skipped log t := by
  simp [Skipped]

@[simp] theorem skipped_append_completed {u : UInt32} {p : Option Publication} :
    Skipped (log ++ [.completed u p]) t ↔ Skipped log t := by
  simp [Skipped]

@[simp] theorem skipped_append_refused {u : UInt32} :
    Skipped (log ++ [.refused u]) t ↔ Skipped log t := by
  simp [Skipped]

/-- One more skipped range adds its own ticks. -/
theorem skipped_append_skipped {lo hi : UInt32} :
    Skipped (log ++ [.skipped lo hi]) t ↔ Skipped log t ∨ (lo ≤ t ∧ t < hi) := by
  constructor
  · rintro ⟨a, b, hmem, hin⟩
    rcases List.mem_append.mp hmem with hold | hnew
    · exact Or.inl ⟨a, b, hold, hin⟩
    · cases List.mem_singleton.mp hnew
      exact Or.inr hin
  · rintro (⟨a, b, hmem, hin⟩ | hin)
    · exact ⟨a, b, List.mem_append_left _ hmem, hin⟩
    · exact ⟨lo, hi, by simp, hin⟩

end Log

section Steps

variable {start workerEnd : UInt32} {s : Session}

theorem toNat_succ {a b : UInt32} (h : a < b) : (a + 1).toNat = a.toNat + 1 := by
  have hlt : a.toNat < b.toNat := h
  have hb := b.toNat_lt
  exact UInt32.toNat_add_of_lt (by show a.toNat + 1 < 2 ^ 32; omega)

theorem lt_succ_iff {a b t : UInt32} (h : a < b) : t < a + 1 ↔ t < a ∨ t = a := by
  rw [UInt32.lt_iff_toNat_lt, UInt32.lt_iff_toNat_lt, ← UInt32.toNat_inj, toNat_succ h]
  omega

/-- Sending one request. The cursor moves past a tick that no skipped range holds, as all of them
end at the cursor or before it. -/
theorem Window.pushRequest (h : Window start workerEnd s) (hwants : s.Wants workerEnd)
    (draw : UInt32) : Window start workerEnd (s.pushRequest draw) := by
  have hlt := hwants.1
  have hfresh : ¬Skipped s.log s.nextTickToRequest := by
    rintro ⟨lo, hi, hmem, -, hhi⟩
    exact UInt32.not_lt.mpr (h.skipped lo hi hmem) hhi
  have hnext : (s.pushRequest draw).nextTickToRequest.toNat = s.nextTickToRequest.toNat + 1 :=
    toNat_succ hlt
  have hrequests : requests (s.pushRequest draw).log = requests s.log ++ [s.nextTickToRequest] :=
    requests_append_requested
  have hcompletions : completions (s.pushRequest draw).log = completions s.log :=
    completions_append_requested
  refine
    { onlyTicks := ?_, depth := ?_, pending := ?_, ordered := ?_, requested := ?_, skipped := ?_,
      covered := ?_, start_le := ?_, le_end := ?_, skip_le := h.skip_le, completed := ?_,
      answered := ?_, noRepeat := ?_, room := ?_, span := ?_ }
  · intro e he
    rcases List.mem_append.mp he with hold | hnew
    · exact h.onlyTicks e hold
    · exact ⟨_, _, List.mem_singleton.mp hnew⟩
  · show (s.expected ++ [_]).length ≤ PIPELINE_DEPTH
    rw [List.length_append, List.length_singleton]
    exact hwants.2
  · show ((s.expected ++ [_]).map ExpectedResponse.tick).Sublist _
    rw [hrequests, List.map_append]
    exact h.pending.append (List.Sublist.refl _)
  · rw [hrequests, List.pairwise_append]
    refine ⟨h.ordered, List.pairwise_singleton _ _, fun t ht u hu => ?_⟩
    rw [List.mem_singleton.mp hu]
    exact (h.requested t ht).2
  · intro t ht
    rw [hrequests] at ht
    rcases List.mem_append.mp ht with hold | hnew
    · exact ⟨(h.requested t hold).1, (lt_succ_iff hlt).mpr (Or.inl (h.requested t hold).2)⟩
    · rw [List.mem_singleton.mp hnew]
      exact ⟨h.start_le, (lt_succ_iff hlt).mpr (Or.inr rfl)⟩
  · intro lo hi hmem
    have hold : Effect.skipped lo hi ∈ s.log := by
      simpa [Session.pushRequest] using hmem
    have hle : hi ≤ s.nextTickToRequest := h.skipped lo hi hold
    rw [UInt32.le_iff_toNat_le] at hle ⊢
    omega
  · -- the ticks covered are those from before and the one just requested
    intro t hstart ht
    rw [hrequests, Session.pushRequest, skipped_append_requested, List.mem_append,
      List.mem_singleton]
    rcases (lt_succ_iff hlt).mp ht with hold | rfl
    · rw [← h.covered t hstart hold]
      have hne : t ≠ s.nextTickToRequest := UInt32.ne_of_lt hold
      exact or_iff_left hne
    · exact iff_of_true (Or.inr rfl) hfresh
  · have hle := h.start_le
    rw [UInt32.le_iff_toNat_le] at hle ⊢
    omega
  · have hlt' : s.nextTickToRequest.toNat < workerEnd.toNat := hlt
    rw [UInt32.le_iff_toNat_le]
    omega
  · rw [hcompletions]
    exact h.completed
  · intro a ha
    rw [hcompletions] at ha
    rw [hrequests]
    exact List.mem_append_left _ (h.answered a ha)
  · -- whatever was completed was requested before, so it lies below the cursor
    refine h.noRepeat.append_requested (fun a ha => ?_)
    exact UInt32.ne_of_lt (h.requested a.1 (h.answered a ha)).2
  · have hroom := h.room
    have hlength : (s.pushRequest draw).expected.length = s.expected.length + 1 :=
      List.length_append
    rw [hrequests, hlength, List.length_append, List.length_singleton]
    show s.ticksCompleted + _ ≤ _
    omega
  · have hspan := h.span
    rw [hrequests, List.length_append, List.length_singleton]
    omega

/-- A skip whose sum fits 32 bits is clamped to the end of the range. -/
theorem toNat_skipAhead (workerEnd : UInt32) (hfits : s.SkipFits) :
    (s.skipAhead workerEnd).nextTickToRequest.toNat
      = min (s.nextTickToRequest.toNat + s.skipSize.toNat) workerEnd.toNat := by
  show (min (s.nextTickToRequest + s.skipSize) workerEnd).toNat = _
  rw [UInt32.toNat_min, UInt32.toNat_add_of_lt hfits]

/-- Skipping ahead. The cursor moves on without a request, and the ticks between are skipped instead
of requested. -/
theorem Window.skipAhead (h : Window start workerEnd s) (hwants : s.Wants workerEnd)
    (hfits : s.SkipFits) : Window start workerEnd (s.skipAhead workerEnd) := by
  have hlt : s.nextTickToRequest.toNat < workerEnd.toNat := hwants.1
  have hle : s.nextTickToRequest ≤ (s.skipAhead workerEnd).nextTickToRequest := by
    rw [UInt32.le_iff_toNat_le, toNat_skipAhead workerEnd hfits]
    omega
  have hend : (s.skipAhead workerEnd).nextTickToRequest ≤ workerEnd :=
    (UInt32.min_le (s.nextTickToRequest + s.skipSize) workerEnd).2
  have hlog : (s.skipAhead workerEnd).log = s.log ++
      [.skipped s.nextTickToRequest (s.skipAhead workerEnd).nextTickToRequest] := rfl
  have hrequests : requests (s.skipAhead workerEnd).log = requests s.log := by
    rw [hlog, requests_append_skipped]
  refine
    { onlyTicks := h.onlyTicks, depth := h.depth, pending := ?_, ordered := ?_, requested := ?_,
      skipped := ?_, covered := ?_, start_le := UInt32.le_trans h.start_le hle, le_end := hend,
      skip_le := (UInt32.min_le (s.skipSize * 2) FAILURE_SKIP_MAX).2, completed := ?_,
      answered := ?_, noRepeat := h.noRepeat.append_other rfl, room := ?_, span := ?_ }
  · rw [hrequests]
    exact h.pending
  · rw [hrequests]
    exact h.ordered
  · intro t ht
    rw [hrequests] at ht
    exact ⟨(h.requested t ht).1, UInt32.lt_of_lt_of_le (h.requested t ht).2 hle⟩
  · intro lo hi hmem
    rw [hlog] at hmem
    rcases List.mem_append.mp hmem with hold | hnew
    · exact UInt32.le_trans (h.skipped lo hi hold) hle
    · cases List.mem_singleton.mp hnew
      exact UInt32.le_refl _
  · intro t hstart ht
    rw [hrequests, hlog, skipped_append_skipped]
    by_cases hold : t < s.nextTickToRequest
    · rw [h.covered t hstart hold]
      have hbefore : ¬(s.nextTickToRequest ≤ t ∧ t < (s.skipAhead workerEnd).nextTickToRequest) :=
        fun hin => UInt32.not_lt.mpr hin.1 hold
      rw [or_iff_left hbefore]
    · have hin : s.nextTickToRequest ≤ t := UInt32.not_lt.mp hold
      refine iff_of_false (fun hmem => hold (h.requested t hmem).2) ?_
      exact fun hnot => hnot (Or.inr ⟨hin, ht⟩)
  · rw [hlog, completions_append_skipped]
    exact h.completed
  · rw [hlog, completions_append_skipped, requests_append_skipped]
    exact h.answered
  · rw [hrequests]
    exact h.room
  · rw [hrequests]
    exact Nat.le_trans h.span hle

/-- Fields the invariant does not read may change, and the queue may shrink. -/
theorem Window.shrink {s' : Session} (h : Window start workerEnd s)
    (hnext : s'.nextTickToRequest = s.nextTickToRequest)
    (hexpected : s'.expected.Sublist s.expected) (hskip : s'.skipSize ≤ FAILURE_SKIP_MAX)
    (hlog : s'.log = s.log) (hcompleted : s'.ticksCompleted = s.ticksCompleted) :
    Window start workerEnd s' where
  onlyTicks e he := h.onlyTicks e (hexpected.mem he)
  depth := Nat.le_trans hexpected.length_le h.depth
  pending := hlog ▸ (hexpected.map _).trans h.pending
  ordered := hlog ▸ h.ordered
  requested := hlog ▸ hnext ▸ h.requested
  skipped := hlog ▸ hnext ▸ h.skipped
  covered := hlog ▸ hnext ▸ h.covered
  start_le := hnext ▸ h.start_le
  le_end := hnext ▸ h.le_end
  skip_le := hskip
  completed := hlog ▸ hcompleted ▸ h.completed
  answered := hlog ▸ h.answered
  noRepeat := hlog ▸ h.noRepeat
  room := hlog ▸ hcompleted ▸ Nat.le_trans (Nat.add_le_add_left hexpected.length_le _) h.room
  span := hlog ▸ hnext ▸ h.span

/-- Logging a failure. It is an entry of the log that neither requests, skips nor completes a tick,
so all that is read off the log stays as it was. -/
theorem Window.refuse (h : Window start workerEnd s) (t : UInt32) :
    Window start workerEnd { s with log := s.log ++ [.refused t] } := by
  have hrequests : requests (s.log ++ [.refused t]) = requests s.log := requests_append_refused
  have hcompletions : completions (s.log ++ [.refused t]) = completions s.log :=
    completions_append_refused
  refine
    { onlyTicks := h.onlyTicks, depth := h.depth, pending := ?_, ordered := ?_, requested := ?_,
      skipped := ?_, covered := ?_, start_le := h.start_le, le_end := h.le_end,
      skip_le := h.skip_le, completed := ?_, answered := ?_,
      noRepeat := h.noRepeat.append_other rfl, room := ?_, span := ?_ }
  · exact hrequests ▸ h.pending
  · exact hrequests ▸ h.ordered
  · exact hrequests ▸ h.requested
  · intro lo hi hmem
    exact h.skipped lo hi (by simpa using hmem)
  · -- a failure is neither a request nor a skip, so it covers nothing
    intro u hstart hu
    rw [hrequests, skipped_append_refused]
    exact h.covered u hstart hu
  · exact hcompletions ▸ h.completed
  · intro a ha
    rw [hcompletions] at ha
    rw [hrequests]
    exact h.answered a ha
  · exact hrequests ▸ h.room
  · exact hrequests ▸ h.span

/-- Counting a request that left the queue as completed. The count can not pass that of the
requests, since the queue has become shorter by one. -/
theorem Window.complete (h : Window start workerEnd s) {t : UInt32} (ht : t ∈ requests s.log)
    (hroom : s.ticksCompleted + s.expected.length < (requests s.log).length)
    (published : Option Publication) (respTick : UInt32) :
    Window start workerEnd (s.complete t published respTick) := by
  have hrequests : requests (s.complete t published respTick).log = requests s.log :=
    requests_append_completed
  refine
    { onlyTicks := h.onlyTicks, depth := h.depth, pending := ?_, ordered := ?_, requested := ?_,
      skipped := ?_, covered := ?_, start_le := h.start_le, le_end := h.le_end,
      skip_le := h.skip_le, completed := ?_, answered := ?_,
      noRepeat := h.noRepeat.append_other rfl, room := ?_, span := ?_ }
  · rw [hrequests]
    exact h.pending
  · rw [hrequests]
    exact h.ordered
  · rw [hrequests]
    exact h.requested
  · intro lo hi hmem
    exact h.skipped lo hi (by simpa [Session.complete] using hmem)
  · intro u hstart hu
    rw [hrequests]
    show _ ↔ ¬Skipped (s.log ++ [.completed t published]) u
    rw [skipped_append_completed]
    exact h.covered u hstart hu
  · show (completions (s.log ++ [.completed t published])).length = s.ticksCompleted + 1
    rw [completions_append_completed, List.length_append, h.completed]
    rfl
  · -- the tick now completed was requested, as were the earlier ones
    intro a ha
    rw [Session.complete, completions_append_completed] at ha
    rw [hrequests]
    rcases List.mem_append.mp ha with hold | hnew
    · exact h.answered a hold
    · rw [List.mem_singleton.mp hnew]
      exact ht
  · rw [hrequests]
    show s.ticksCompleted + 1 + s.expected.length ≤ _
    omega
  · rw [hrequests]
    exact h.span

/-- A found entry leaves the queue, and only it. -/
theorem length_remove {dejavu : UInt32} {e : ExpectedResponse} (hfind : s.find dejavu = some e) :
    s.expected.length = (s.remove dejavu).expected.length + 1 := by
  have hmem : e ∈ s.expected := List.mem_of_find?_eq_some hfind
  unfold Session.find at hfind
  have hhit := List.find?_some hfind
  have hpos := List.length_pos_of_mem hmem
  have hlen : (s.remove dejavu).expected.length = s.expected.length - 1 :=
    List.length_eraseP_of_mem hmem hhit
  omega

/-- A found tick request was sent. -/
theorem Window.found (h : Window start workerEnd s) {dejavu t d : UInt32}
    (hfind : s.find dejavu = some (.tickData t d)) : t ∈ requests s.log :=
  h.pending.mem (List.mem_map_of_mem (List.mem_of_find?_eq_some hfind))

theorem Accounted.pushRequest (h : Accounted s) (draw : UInt32) :
    Accounted (s.pushRequest draw) := by
  unfold Accounted at h ⊢
  simp only [Session.pushRequest, requests_append_requested, List.length_append,
    List.length_singleton]
  omega

/-- A skip sends nothing and fails nothing. -/
theorem Accounted.skipAhead (h : Accounted s) : Accounted (s.skipAhead workerEnd) := by
  unfold Accounted at h ⊢
  simp only [Session.skipAhead, requests_append_skipped]
  exact h

/-- A failed request, whatever becomes of the failures in a row and of the rest of the log. -/
theorem Accounted.refuse (h : Accounted s) {dejavu : UInt32} {e : ExpectedResponse}
    (hfind : s.find dejavu = some e) (failures : Nat) {log : List Effect}
    (hlog : requests log = requests s.log) :
    Accounted { s.remove dejavu with
      consecutiveFailures := failures
      ticksFailed := s.ticksFailed + 1
      log := log } := by
  unfold Accounted at h ⊢
  rw [length_remove hfind] at h
  show (requests log).length
    = s.ticksCompleted + (s.ticksFailed + 1) + (s.remove dejavu).expected.length
  rw [hlog]
  omega

/-- An answered request is no longer pending but completed. -/
theorem Accounted.answer (h : Accounted s) {dejavu : UInt32} {e : ExpectedResponse}
    (hfind : s.find dejavu = some e) (failures : Nat) (skipSize t respTick : UInt32)
    (published : Option Publication) :
    Accounted ({ s.remove dejavu with
      consecutiveFailures := failures
      skipSize := skipSize }.complete t published respTick) := by
  unfold Accounted at h ⊢
  rw [length_remove hfind] at h
  show (requests (s.log ++ [.completed t published])).length
    = s.ticksCompleted + 1 + s.ticksFailed + (s.remove dejavu).expected.length
  rw [requests_append_completed]
  omega

end Steps

/-! ## Filling keeps the window, and fills it

`fill_pipeline` repeats two steps, a skip and a request, and stops at the first request it can not
send. A property that both keep, and that does not depend on how the session ended, holds after the
whole loop. -/

section Filling

variable {link : Link} {start workerEnd : UInt32}

/-- What sending, skipping and failing keep, filling keeps. The induction is on the turns the loop
has left. -/
theorem fillPipeline_keeps {P : Session → Prop}
    (hskip : ∀ s, P s → s.Wants workerEnd → s.consecutiveFailures ≥ MAX_CONSECUTIVE_FAILURES →
      P (s.skipAhead workerEnd))
    (hpush : ∀ s draw, P s → s.Wants workerEnd →
      ¬s.consecutiveFailures ≥ MAX_CONSECUTIVE_FAILURES → P (s.pushRequest draw))
    (hfail : ∀ s fault, P s → P (s.fail fault)) {s : Session} (h : P s) :
    P (fillPipeline link workerEnd s) := by
  unfold fillPipeline
  generalize s.fillTurns = turns
  induction turns generalizing s with
  | zero => exact h
  | succ turns ih =>
    unfold fillLoop
    by_cases hwants : s.Wants workerEnd
    · rw [if_pos hwants]
      by_cases hfailures : s.consecutiveFailures ≥ MAX_CONSECUTIVE_FAILURES
      · rw [if_pos hfailures]
        exact ih (hskip s h hwants hfailures)
      · rw [if_neg hfailures]
        split
        · exact ih (hpush s _ h hwants hfailures)
        · exact hfail s _ h
    · rw [if_neg hwants]
      exact h

/-- A fill that does not fail leaves no room, or nothing to request. The induction is on the turns
left: the loop stops before they are used up, since each fills a slot or is the one skip. -/
theorem fillPipeline_full {s : Session} (h : (fillPipeline link workerEnd s).ended = none) :
    ¬(fillPipeline link workerEnd s).Wants workerEnd := by
  unfold fillPipeline at h ⊢
  generalize hturns : s.fillTurns = turns at h ⊢
  induction turns generalizing s with
  | zero =>
    intro hwants
    have hroom := hwants.2
    unfold Session.fillTurns at hturns
    -- no turn is left, so the queue is full
    show False
    change s.expected.length < PIPELINE_DEPTH at hroom
    omega
  | succ turns ih =>
    unfold fillLoop at h ⊢
    by_cases hwants : s.Wants workerEnd
    · rw [if_pos hwants] at h ⊢
      by_cases hfailures : s.consecutiveFailures ≥ MAX_CONSECUTIVE_FAILURES
      · rw [if_pos hfailures] at h ⊢
        -- each turn uses up one of those that were left
        have hless := fillTurns_skipAhead workerEnd s hfailures
        exact ih (by omega) h
      · rw [if_neg hfailures] at h ⊢
        cases hsend : link.send (requests s.log).length with
        | ok _ =>
          simp only [hsend] at h ⊢
          have hless := fillTurns_pushRequest s hwants.2 (link.draw (requests s.log).length)
          exact ih (by omega) h
        | error e =>
          simp only [hsend] at h
          cases h
    · rw [if_neg hwants]
      exact hwants

/-- A fill skips at most once, from where it starts. -/
theorem Window.fill {s : Session} (h : Window start workerEnd s)
    (hfits : s.nextTickToRequest < workerEnd →
      s.consecutiveFailures ≥ MAX_CONSECUTIVE_FAILURES → s.SkipFits) :
    Window start workerEnd (fillPipeline link workerEnd s) := by
  refine (fillPipeline_keeps (P := fun s => Window start workerEnd s ∧
    (s.nextTickToRequest < workerEnd → s.consecutiveFailures ≥ MAX_CONSECUTIVE_FAILURES →
      s.SkipFits)) ?_ ?_ ?_ ⟨h, hfits⟩).1
  · rintro s ⟨hs, hs'⟩ hwants hfailures
    refine ⟨hs.skipAhead hwants (hs' hwants.1 hfailures), fun _ hzero => ?_⟩
    exact absurd hzero (by decide : ¬0 ≥ MAX_CONSECUTIVE_FAILURES)
  · rintro s draw ⟨hs, -⟩ hwants hfailures
    exact ⟨hs.pushRequest hwants draw, fun _ hmany => absurd hmany hfailures⟩
  · rintro s fault ⟨hs, hs'⟩
    exact ⟨hs.shrink rfl (List.Sublist.refl _) hs.skip_le rfl rfl, hs'⟩

theorem Accounted.fill {s : Session} (h : Accounted s) :
    Accounted (fillPipeline link workerEnd s) :=
  fillPipeline_keeps (P := Accounted) (fun _ hs _ _ => hs.skipAhead)
    (fun _ draw hs _ _ => hs.pushRequest draw) (fun _ _ hs => hs) h

end Filling

/-! ## The rule for failures in a row

A range is skipped after `MAX_CONSECUTIVE_FAILURES` failures in a row, counted from the last answer
or the last skip on. The first skip covers `FAILURE_SKIP_INITIAL` ticks, and each further one
without an answer between them twice as many, up to `FAILURE_SKIP_MAX`. Both numbers are read off
the log here, and the locals of `try_peer` are shown to be these numbers. -/

def Effect.nextStreak (failures : Nat) : Effect → Nat
  | .requested _ => failures
  | .refused _ => failures + 1
  | .skipped _ _ => 0
  | .completed _ _ => 0

/-- The failures since the last answer or skip. -/
def streak (log : List Effect) : Nat := log.foldl Effect.nextStreak 0

def Effect.nextSkip (size : UInt32) : Effect → UInt32
  | .requested _ => size
  | .refused _ => size
  | .skipped _ _ => min (size * 2) FAILURE_SKIP_MAX
  | .completed _ _ => FAILURE_SKIP_INITIAL

/-- How many ticks the next skip covers. -/
def skipStep (log : List Effect) : UInt32 := log.foldl Effect.nextSkip FAILURE_SKIP_INITIAL

/-- Every range skipped in the log was skipped by the rule: after enough failures in a row, and as
far as the step reaches in the range of the worker. -/
def SkipsByRule (workerEnd : UInt32) (log : List Effect) : Prop :=
  ∀ before lo hi after, log = before ++ .skipped lo hi :: after →
    MAX_CONSECUTIVE_FAILURES ≤ streak before ∧ hi = min (lo + skipStep before) workerEnd

/-- The locals of a session are what its log says. -/
structure Ruled (workerEnd : UInt32) (s : Session) : Prop where
  rule : SkipsByRule workerEnd s.log
  failures : s.consecutiveFailures = streak s.log
  size : s.skipSize = skipStep s.log

section Rule

variable {c : Crates} {link : Link} {epoch : UInt16} {workerEnd : UInt32} {s : Session}
  {log : List Effect}

theorem streak_concat (e : Effect) : streak (log ++ [e]) = e.nextStreak (streak log) :=
  List.foldl_concat ..

theorem skipStep_concat (e : Effect) : skipStep (log ++ [e]) = e.nextSkip (skipStep log) :=
  List.foldl_concat ..

/-- A log grows by an effect that keeps the rule. -/
theorem SkipsByRule.concat (h : SkipsByRule workerEnd log) {e : Effect}
    (he : ∀ lo hi, e = .skipped lo hi →
      MAX_CONSECUTIVE_FAILURES ≤ streak log ∧ hi = min (lo + skipStep log) workerEnd) :
    SkipsByRule workerEnd (log ++ [e]) := by
  intro before lo hi after heq
  rcases List.eq_nil_or_concat after with rfl | ⟨front, last, rfl⟩
  · -- the skip is the new effect
    obtain ⟨rfl, hlast⟩ := List.append_inj' heq rfl
    exact he lo hi (List.cons.inj hlast).1
  · rw [List.concat_eq_append, ← List.cons_append, ← List.append_assoc] at heq
    obtain ⟨hlog, -⟩ := List.append_inj' heq rfl
    exact h before lo hi front hlog

/-- The skip of the loop is one of the rule: it is taken after enough failures, and its step is that
of the log. -/
theorem Ruled.skipAhead (h : Ruled workerEnd s)
    (hmany : s.consecutiveFailures ≥ MAX_CONSECUTIVE_FAILURES) :
    Ruled workerEnd (s.skipAhead workerEnd) where
  rule := by
    refine h.rule.concat (fun lo hi heq => ?_)
    obtain ⟨rfl, rfl⟩ := Effect.skipped.inj heq
    rw [← h.failures, ← h.size]
    exact ⟨hmany, rfl⟩
  failures := by
    show 0 = streak (s.log ++ [_])
    rw [streak_concat]
    rfl
  size := by
    show min (s.skipSize * 2) FAILURE_SKIP_MAX = skipStep (s.log ++ [_])
    rw [skipStep_concat, h.size]
    rfl

theorem Ruled.other (h : Ruled workerEnd s) {s' : Session} (e : Effect)
    (he : ∀ lo hi, .skipped lo hi ≠ e) (hlog : s'.log = s.log ++ [e])
    (hfailures : s'.consecutiveFailures = e.nextStreak s.consecutiveFailures)
    (hsize : s'.skipSize = e.nextSkip s.skipSize) : Ruled workerEnd s' where
  rule := by
    rw [hlog]
    exact h.rule.concat (fun lo hi heq => absurd heq.symm (he lo hi))
  failures := by rw [hlog, streak_concat, hfailures, h.failures]
  size := by rw [hlog, skipStep_concat, hsize, h.size]

theorem Ruled.fill (h : Ruled workerEnd s) : Ruled workerEnd (fillPipeline link workerEnd s) :=
  fillPipeline_keeps (P := Ruled workerEnd) (fun _ hs _ hmany => hs.skipAhead hmany)
    (fun s _ hs _ _ => hs.other (.requested s.nextTickToRequest) (fun _ _ => nofun) rfl rfl rfl)
    (fun _ _ hs => ⟨hs.rule, hs.failures, hs.size⟩) h

/-- What a read keeps of the rule. A session that has ended no longer skips, so its locals do not
matter. -/
structure Ruling (workerEnd : UInt32) (s : Session) : Prop where
  rule : SkipsByRule workerEnd s.log
  live : s.ended = none → Ruled workerEnd s

/-- A session that keeps to the rule while it runs has skipped by it. -/
theorem Ruled.ruling (h : Ruled workerEnd s) : Ruling workerEnd s := ⟨h.rule, fun _ => h⟩

/-- **One read keeps to the rule.** A refusal counts as a failure and an answer starts the count
over; an answer too short does neither. -/
theorem Ruled.turn (h : Ruled workerEnd s) {s' : Session} (hturn : Turn link workerEnd s s') :
    Ruling workerEnd s' := by
  cases hturn with
  | idle txs => exact Ruled.ruling ⟨h.rule, h.failures, h.size⟩
  | lost hpending failures failed hskip fault => exact ⟨h.rule, nofun⟩
  | unreadable hfind =>
    refine (Ruled.fill ?_).ruling
    exact ⟨h.rule, h.failures, h.size⟩
  | @refused dejavu t d hfind =>
    refine (Ruled.fill ?_).ruling
    exact h.other (.refused t) (fun _ _ => nofun) rfl rfl rfl
  | @answered dejavu t d hfind published respTick =>
    refine (Ruled.fill ?_).ruling
    exact h.other (.completed t published) (fun _ _ => nofun) rfl rfl rfl

/-- Leaving the loop changes neither the log nor the locals. -/
theorem Ruling.exitIfEmpty (h : Ruling workerEnd s) : Ruling workerEnd s.exitIfEmpty := by
  unfold Session.exitIfEmpty
  split
  · exact ⟨h.rule, nofun⟩
  · exact h

end Rule

/-! ## Whole sessions

Between two reads everything sent is accounted for and the window is full, as every turn that
changes the queue fills it again. So a session that leaves the loop with an empty queue has come to
the end of its range. -/

section Sessions

variable {c : Crates} {link : Link} {epoch : UInt16} {start workerEnd : UInt32} {s : Session}

/-- The state of a session between two reads, and after an `Ok`. -/
structure Sound (start workerEnd : UInt32) (s : Session) : Prop where
  window : Window start workerEnd s
  live : s.ended = none → Accounted s ∧ ¬s.Wants workerEnd
  ok : ∀ t, s.ended = some (.ok t) →
    Accounted s ∧ s.expected = [] ∧ s.nextTickToRequest = workerEnd ∧ t = workerEnd

/-- The loop is left with `Ok` where nothing is pending. As the window was full before, there was
nothing left to request. -/
theorem Sound.exitIfEmpty (h : Sound start workerEnd s) :
    Sound start workerEnd s.exitIfEmpty := by
  unfold Session.exitIfEmpty
  by_cases hexit : s.ended.isNone ∧ s.expected = []
  · rw [if_pos hexit]
    obtain ⟨haccounted, hfull⟩ := h.live (Option.isNone_iff_eq_none.mp hexit.1)
    -- nothing pending and no request left to send
    have hdone : s.nextTickToRequest = workerEnd := by
      refine UInt32.le_antisymm h.window.le_end (UInt32.not_lt.mp (fun hlt => hfull ⟨hlt, ?_⟩))
      rw [hexit.2]
      decide
    refine ⟨h.window.shrink rfl (List.Sublist.refl _) h.window.skip_le rfl rfl, nofun, ?_⟩
    rintro t ⟨⟩
    exact ⟨haccounted, hexit.2, hdone, hdone⟩
  · rw [if_neg hexit]
    exact h

/-- Filling never ends a session with `Ok`. -/
theorem fillPipeline_not_ok (h : s.ended = none) (t : UInt32) :
    (fillPipeline link workerEnd s).ended ≠ some (.ok t) := by
  refine fillPipeline_keeps (P := fun s => s.ended ≠ some (.ok t)) (fun _ hs _ _ => hs)
    (fun _ _ hs _ _ => hs) (fun _ _ _ => nofun) ?_
  rw [h]
  exact nofun

/-- A fill of a live window is sound. -/
theorem Sound.of_fill (hwindow : Window start workerEnd s) (haccounted : Accounted s)
    (hlive : s.ended = none)
    (hfits : s.nextTickToRequest < workerEnd →
      s.consecutiveFailures ≥ MAX_CONSECUTIVE_FAILURES → s.SkipFits) :
    Sound start workerEnd (fillPipeline link workerEnd s) where
  window := hwindow.fill hfits
  live hended := ⟨haccounted.fill, fillPipeline_full hended⟩
  ok t hended := absurd hended (fillPipeline_not_ok hlive t)

/-- **One read keeps a session sound**, unless a failed request makes the cursor wrap around. Each
of the five turns takes one entry off the queue or none, and the ones that take one fill up
again. -/
theorem Sound.turn (h : Sound start workerEnd s) (hlive : s.ended = none)
    (hfits : s.RefusalFits workerEnd) {s' : Session} (hturn : Turn link workerEnd s s') :
    Sound start workerEnd s' := by
  obtain ⟨haccounted, hfull⟩ := h.live hlive
  cases hturn with
  | idle txs =>
    refine ⟨h.window.shrink rfl (List.Sublist.refl _) h.window.skip_le rfl rfl,
      fun _ => ⟨haccounted, hfull⟩, fun t hended => ?_⟩
    rw [show _ = none from hlive] at hended
    cases hended
  | lost hpending failures failed hskip fault =>
    exact ⟨h.window.shrink rfl hpending hskip rfl rfl, nofun, nofun⟩
  -- the failures stay as they were, so the skip that may follow is one a refusal would allow
  | unreadable hfind =>
    refine Sound.of_fill ?_ (haccounted.refuse hfind _ rfl) hlive (fun hlt hmany => ?_)
    · exact h.window.shrink rfl (eraseP_sublist s _) h.window.skip_le rfl rfl
    · exact hfits hlt (Nat.le_succ_of_le hmany)
  | @refused dejavu t d hfind =>
    refine Sound.of_fill ?_ (haccounted.refuse hfind _ requests_append_refused) hlive hfits
    have hshrunk : Window start workerEnd
        { s.remove dejavu with
          consecutiveFailures := s.consecutiveFailures + 1
          ticksFailed := s.ticksFailed + 1 } :=
      h.window.shrink rfl (eraseP_sublist s dejavu) h.window.skip_le rfl rfl
    exact hshrunk.refuse t
  -- the failures start over, so no skip follows
  | answered hfind published respTick =>
    refine Sound.of_fill (Window.complete ?_ ?_ ?_ published respTick)
      (haccounted.answer hfind _ _ _ _ _) hlive (fun _ hzero => ?_)
    · exact h.window.shrink rfl (eraseP_sublist s _) skip_initial_le rfl rfl
    · exact h.window.found hfind
    · have hroom := h.window.room
      rw [length_remove hfind] at hroom
      exact hroom
    · exact absurd hzero (by decide : ¬0 ≥ MAX_CONSECUTIVE_FAILURES)

/-- So does a turn of the loop, which leaves it where nothing is pending. -/
theorem Sound.readTurn (h : Sound start workerEnd s) (hfits : s.RefusalFits workerEnd)
    (i : Incoming) : Sound start workerEnd (readTurn c link epoch workerEnd s i) := by
  unfold Qonduit.readTurn
  cases hended : s.ended with
  | some o => exact h
  | none =>
    have hturn : Turn link workerEnd s (onIncoming c link epoch workerEnd s i) :=
      turn_cases h.window.onlyTicks h.window.skip_le i
    exact (h.turn hended hfits hturn).exitIfEmpty

/-- A session begins with an empty log at the start of its range. -/
theorem Window.nil {pipeline : PipelineState} (hstart : start ≤ workerEnd) :
    Window start workerEnd { nextTickToRequest := start, pipeline } where
  onlyTicks := nofun
  depth := Nat.zero_le _
  pending := List.Sublist.refl _
  ordered := List.Pairwise.nil
  requested := nofun
  skipped := nofun
  covered _ hle hlt := absurd hlt (UInt32.not_lt.mpr hle)
  start_le := UInt32.le_refl _
  le_end := hstart
  skip_le := skip_initial_le
  completed := rfl
  answered := nofun
  noRepeat := List.Pairwise.nil
  room := Nat.le_refl _
  span := Nat.le_refl _

theorem tryPeer_concat (pipeline : PipelineState) (incoming : List Incoming) (i : Incoming) :
    tryPeer c link epoch workerEnd start pipeline (incoming ++ [i])
      = Qonduit.readTurn c link epoch workerEnd
          (tryPeer c link epoch workerEnd start pipeline incoming) i :=
  List.foldl_concat ..

/-- **Every skip obeys the rule**, after any packets. The induction goes over the reads, and each of
them is one of the five turns because the queue holds tick requests only. -/
theorem tryPeer_skips (pipeline : PipelineState)
    (incoming : List Incoming)
    (hsound : ∀ before, before <+: incoming →
      Sound start workerEnd (tryPeer c link epoch workerEnd start pipeline before)) :
    Ruling workerEnd (tryPeer c link epoch workerEnd start pipeline incoming) := by
  induction incoming using List.reverseRecOn with
  | nil =>
    have hopen : Ruled workerEnd { nextTickToRequest := start, pipeline } := by
      refine ⟨fun before lo hi after heq => ?_, rfl, rfl⟩
      cases before <;> cases heq
    exact hopen.fill.ruling.exitIfEmpty
  | append_singleton incoming i ih =>
    have hruling := ih (fun before hbefore => hsound before (hbefore.trans (List.prefix_append ..)))
    have hwindow := (hsound incoming (List.prefix_append ..)).window
    rw [tryPeer_concat]
    unfold Qonduit.readTurn
    cases hended : (tryPeer c link epoch workerEnd start pipeline incoming).ended with
    | some o => exact hruling
    | none =>
      have hlive := hruling.live hended
      exact (hlive.turn (turn_cases hwindow.onlyTicks hwindow.skip_le i)).exitIfEmpty

/-- A session is sound after any packets, if no failed request makes its cursor wrap around. The
assumption is about the sound states the session passes through. -/
theorem tryPeer_sound (hstart : start ≤ workerEnd) (pipeline : PipelineState)
    (incoming : List Incoming)
    (hfits : ∀ before i after, incoming = before ++ i :: after →
      Sound start workerEnd (tryPeer c link epoch workerEnd start pipeline before) →
      (tryPeer c link epoch workerEnd start pipeline before).RefusalFits workerEnd) :
    Sound start workerEnd (tryPeer c link epoch workerEnd start pipeline incoming) := by
  induction incoming using List.reverseRecOn with
  | nil =>
    have hfill : Sound start workerEnd
        (fillPipeline link workerEnd { nextTickToRequest := start, pipeline }) :=
      Sound.of_fill (Window.nil hstart) rfl rfl
        (fun _ hzero => absurd hzero (by decide : ¬0 ≥ MAX_CONSECUTIVE_FAILURES))
    exact hfill.exitIfEmpty
  | append_singleton incoming i ih =>
    have hsound := ih (fun before j after heq =>
      hfits before j (after ++ [i]) (by simp [heq]))
    rw [tryPeer_concat]
    exact hsound.readTurn (hfits incoming i [] rfl hsound) i

end Sessions

/-- Up to `u32::MAX - FAILURE_SKIP_MAX` no skip can wrap. -/
theorem Window.refusalFits {start workerEnd : UInt32} {s : Session}
    (h : Window start workerEnd s) (hmax : workerEnd ≤ 4294967295 - 1000000) :
    s.RefusalFits workerEnd := by
  intro hnext _
  have hle : workerEnd.toNat ≤ 4293967295 := hmax
  have hlt : s.nextTickToRequest.toNat < workerEnd.toNat := hnext
  have hskip : s.skipSize.toNat ≤ 1000000 := h.skip_le
  show s.nextTickToRequest.toNat + s.skipSize.toNat < 2 ^ 32
  omega

/-- The requests are in strictly increasing order, so no tick is requested twice. -/
theorem Window.count_requests {start workerEnd : UInt32} {s : Session}
    (h : Window start workerEnd s) (t : UInt32) :
    (requests s.log).count t = if t ∈ requests s.log then 1 else 0 :=
  List.Nodup.count (h.ordered.imp (fun hlt => UInt32.ne_of_lt hlt))

/-- **Sliding-window accounting.** Before every read, and at an `Ok`, each request sent is counted
as completed or failed or is pending, and at most `PIPELINE_DEPTH` distinct ticks below the cursor
are. Whatever is skipped at any time, is skipped by the rule for failures in a row. An `Ok` means
that every tick of the range was requested once, or so skipped. -/
theorem sliding_window_accounting (c : Crates) (link : Link) (epoch : UInt16)
    (start workerEnd : UInt32) (pipeline : PipelineState) (incoming : List Incoming)
    (hstart : start ≤ workerEnd) (hmax : workerEnd ≤ 4294967295 - 1000000) :
    let s := tryPeer c link epoch workerEnd start pipeline incoming
    ((s.ended = none ∨ ∃ t, s.ended = some (.ok t)) →
      (requests s.log).length = s.ticksCompleted + s.ticksFailed + s.expected.length ∧
      s.expected.length ≤ PIPELINE_DEPTH ∧
      (s.expected.map ExpectedResponse.tick).Nodup ∧
      (∀ e ∈ s.expected, e.tick < s.nextTickToRequest) ∧
      s.nextTickToRequest ≤ workerEnd) ∧
    SkipsByRule workerEnd s.log ∧
    (∀ currentTick, s.ended = some (.ok currentTick) →
      s.expected = [] ∧ currentTick = workerEnd ∧
      ∀ t, start ≤ t → t < workerEnd →
        ((requests s.log).count t = 1 ∧ ¬Skipped s.log t) ∨
        ((requests s.log).count t = 0 ∧ Skipped s.log t)) := by
  intro s
  have hsound : ∀ incoming, Sound start workerEnd
      (tryPeer c link epoch workerEnd start pipeline incoming) := fun incoming =>
    tryPeer_sound hstart pipeline incoming (fun _ _ _ _ hsound => hsound.window.refusalFits hmax)
  have h : Sound start workerEnd s := hsound incoming
  have hw := h.window
  have hrule : SkipsByRule workerEnd s.log :=
    (tryPeer_skips pipeline incoming (fun before _ => hsound before)).rule
  refine ⟨fun hended => ⟨?_, hw.depth, ?_, fun e he => ?_, hw.le_end⟩, hrule, fun t hended => ?_⟩
  · rcases hended with hnone | ⟨t, hok⟩
    · exact (h.live hnone).1
    · exact (h.ok t hok).1
  · exact (hw.ordered.imp (fun hlt => UInt32.ne_of_lt hlt)).sublist hw.pending
  · exact (hw.requested e.tick (hw.pending.mem (List.mem_map_of_mem he))).2
  · -- at an `Ok` the cursor is at the end, so what it covers is the whole range
    obtain ⟨-, hempty, hnext, hend⟩ := h.ok t hended
    refine ⟨hempty, hend, fun u hle hlt => ?_⟩
    have hcovered := hw.covered u hle (hnext ▸ hlt)
    rw [hw.count_requests u]
    by_cases hmem : u ∈ requests s.log
    · exact Or.inl ⟨if_pos hmem, hcovered.mp hmem⟩
    · exact Or.inr ⟨if_neg hmem, not_not.mp (fun hnot => hmem (hcovered.mpr hnot))⟩

/-- The header and timelock of a tick of epoch 5. -/
def tickPayload (tick : UInt32) : Bytes :=
  UInt16.toLeBytes 0 ++ UInt16.toLeBytes 5 ++ tick.toLeBytes ++ List.replicate 40 0

/-- Two ticks, one answered and one refused. -/
theorem sliding_window_accounting_sample :
    let s := tryPeer (.ofKnown {}) (.counting 7) 5 5 3 {}
      [.packet 8 7 (tickPayload 3) (.ok ()), .packet 35 8 [] (.ok ())]
    s.ended = some (.ok 5) ∧ s.expected = [] ∧
      ((requests s.log).count 4 = 1 ∧ ¬Skipped s.log 4 ∨
        (requests s.log).count 4 = 0 ∧ Skipped s.log 4) := by
  intro s
  have hended : s.ended = some (.ok 5) := by decide +kernel
  obtain ⟨-, -, hok⟩ := sliding_window_accounting (.ofKnown {}) (.counting 7) 5 3 5 {}
    [.packet 8 7 (tickPayload 3) (.ok ()), .packet 35 8 [] (.ok ())] (by decide) (by decide)
  obtain ⟨hempty, -, hcovered⟩ := hok 5 hended
  exact ⟨hended, hempty, hcovered 4 (by decide) (by decide)⟩

end Qonduit

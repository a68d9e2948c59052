import Qonduit.Backfill.Window

/-!
# Qonduit — the cursor of a fill

`fill_pipeline` on any queue, any failure count and any cursor up to the end of the range, without
the invariant a session keeps around it. A skip adds to the cursor first and clamps the sum to the
end of the range after, in 32 bits.

* **`fill_forward_iff`** — a fill moves the cursor forward, within the range, exactly when a skip
  it takes does not run past the last `u32`.
* **`fill_moves_back`** — a fill that wraps.
-/

namespace Qonduit

/-- The cursor of `s'` is between that of `s` and the end of the range, and so are the ticks it has
in the queue behind those of `s`. -/
structure Ahead (workerEnd : UInt32) (s s' : Session) : Prop where
  forward : s.nextTickToRequest ≤ s'.nextTickToRequest
  le_end : s'.nextTickToRequest ≤ workerEnd
  added : ∃ sent, s'.expected = s.expected ++ sent ∧
    ∀ e ∈ sent, s.nextTickToRequest ≤ e.tick ∧ e.tick < workerEnd

/-- What a fill from `s` on is to do: end, with the loop condition false unless a send failed, and
move only forward. -/
structure FillsForward (link : Link) (workerEnd : UInt32) (s : Session) : Prop where
  ends : (fillPipeline link workerEnd s).ended = none →
    ¬(fillPipeline link workerEnd s).Wants workerEnd
  ahead : Ahead workerEnd s (fillPipeline link workerEnd s)

section Cursor

variable {link : Link} {workerEnd : UInt32} {s s' : Session}

theorem Ahead.refl (h : s.nextTickToRequest ≤ workerEnd) : Ahead workerEnd s s where
  forward := UInt32.le_refl _
  le_end := h
  added := ⟨[], (List.append_nil _).symm, fun _ he => absurd he List.not_mem_nil⟩

/-- A request moves the cursor to the next tick, still within the range, because it is made only
while the cursor is below the end. -/
theorem Ahead.pushRequest (h : Ahead workerEnd s s') (hwants : s'.Wants workerEnd)
    (draw : UInt32) : Ahead workerEnd s (s'.pushRequest draw) := by
  have hlt : s'.nextTickToRequest.toNat < workerEnd.toNat := hwants.1
  have hsucc : (s'.pushRequest draw).nextTickToRequest.toNat = s'.nextTickToRequest.toNat + 1 :=
    toNat_succ hwants.1
  have hle : s.nextTickToRequest.toNat ≤ s'.nextTickToRequest.toNat := h.forward
  obtain ⟨sent, hsent, hrange⟩ := h.added
  refine
    { forward := ?_
      le_end := ?_
      added := ⟨sent ++ [.tickData s'.nextTickToRequest (max draw 1)], ?_, fun e he => ?_⟩ }
  · rw [UInt32.le_iff_toNat_le, hsucc]
    omega
  · rw [UInt32.le_iff_toNat_le, hsucc]
    omega
  · show s'.expected ++ [_] = s.expected ++ (sent ++ [_])
    rw [hsent, List.append_assoc]
  · rcases List.mem_append.mp he with hold | hnew
    · exact hrange e hold
    · rw [List.mem_singleton.mp hnew]
      exact ⟨h.forward, hwants.1⟩

/-- A skip within 32 bits moves it forward, cut off at the end of the range. -/
theorem Ahead.skipAhead (h : Ahead workerEnd s s') (hfits : s'.SkipFits) :
    Ahead workerEnd s (s'.skipAhead workerEnd) := by
  have hskip := toNat_skipAhead workerEnd hfits
  have hle : s.nextTickToRequest.toNat ≤ s'.nextTickToRequest.toNat := h.forward
  have hend : s'.nextTickToRequest.toNat ≤ workerEnd.toNat := h.le_end
  refine { forward := ?_, le_end := ?_, added := h.added }
  · rw [UInt32.le_iff_toNat_le, hskip]
    omega
  · rw [UInt32.le_iff_toNat_le, hskip]
    omega

/-- A skip within 32 bits, the only one a fill takes, keeps it ahead. After the skip the failures
are counted from zero again, so there is no second one. -/
theorem fillPipeline_ahead (hnext : s.nextTickToRequest ≤ workerEnd)
    (hfits : s.Wants workerEnd → s.consecutiveFailures ≥ MAX_CONSECUTIVE_FAILURES → s.SkipFits) :
    Ahead workerEnd s (fillPipeline link workerEnd s) := by
  refine (fillPipeline_keeps (P := fun s' => Ahead workerEnd s s' ∧
    (s'.Wants workerEnd → s'.consecutiveFailures ≥ MAX_CONSECUTIVE_FAILURES → s'.SkipFits))
    ?_ ?_ ?_ ⟨.refl hnext, hfits⟩).1
  · intro s' h hwants hfailures
    refine ⟨h.1.skipAhead (h.2 hwants hfailures), fun _ hmany => ?_⟩
    exact absurd hmany (by decide : ¬0 ≥ MAX_CONSECUTIVE_FAILURES)
  · intro s' draw h hwants hfailures
    exact ⟨h.1.pushRequest hwants draw, fun _ hmany => absurd hmany hfailures⟩
  · intro s' fault h
    exact ⟨⟨h.1.forward, h.1.le_end, h.1.added⟩, h.2⟩

/-- A fill from `s` reached `s'` and no skip is due: each step of the cursor took a free slot. -/
structure Near (s s' : Session) : Prop where
  few : ¬s'.consecutiveFailures ≥ MAX_CONSECUTIVE_FAILURES
  moved : s'.nextTickToRequest.toNat + (PIPELINE_DEPTH - s'.expected.length)
    ≤ s.nextTickToRequest.toNat + PIPELINE_DEPTH

/-- A request takes a slot and moves the cursor by one. -/
theorem Near.pushRequest (h : Near s s') (hwants : s'.Wants workerEnd) (draw : UInt32) :
    Near s (s'.pushRequest draw) := by
  have hsucc : (s'.pushRequest draw).nextTickToRequest.toNat
      = s'.nextTickToRequest.toNat + 1 := toNat_succ hwants.1
  have hlength : (s'.pushRequest draw).expected.length = s'.expected.length + 1 :=
    List.length_append
  have hroom : s'.expected.length < PIPELINE_DEPTH := hwants.2
  have hmoved := h.moved
  refine ⟨h.few, ?_⟩
  rw [hsucc, hlength]
  omega

/-- Without a skip a fill moves the cursor by its free slots at most, as many as it pushes
requests. -/
theorem fillPipeline_near (link : Link) (workerEnd : UInt32)
    (hfew : ¬s.consecutiveFailures ≥ MAX_CONSECUTIVE_FAILURES) :
    (fillPipeline link workerEnd s).nextTickToRequest.toNat
      ≤ s.nextTickToRequest.toNat + PIPELINE_DEPTH := by
  have hkept : Near s (fillPipeline link workerEnd s) := by
    refine fillPipeline_keeps ?_ ?_ ?_ ⟨hfew, by omega⟩
    · intro s' h _ hfailures
      exact absurd hfailures h.few
    · intro s' draw h hwants _
      exact h.pushRequest hwants draw
    · intro s' fault h
      exact ⟨h.few, h.moved⟩
  have hmoved := hkept.moved
  omega

/-- A skip past the last `u32` leaves the cursor behind where it was, whatever follows it: the sum
wraps around by more than the requests after it can make up for. -/
theorem fillPipeline_back (hskip : s.skipSize ≤ FAILURE_SKIP_MAX) (hwants : s.Wants workerEnd)
    (hfailures : s.consecutiveFailures ≥ MAX_CONSECUTIVE_FAILURES) (hwraps : ¬s.SkipFits) :
    (fillPipeline link workerEnd s).nextTickToRequest < s.nextTickToRequest := by
  have hmax : s.skipSize.toNat ≤ 1000000 := hskip
  have hsum : (s.nextTickToRequest + s.skipSize).toNat
      = (s.nextTickToRequest.toNat + s.skipSize.toNat) % 2 ^ 32 := UInt32.toNat_add _ _
  have hmin := (UInt32.min_le (s.nextTickToRequest + s.skipSize) workerEnd).1
  have hback : (s.skipAhead workerEnd).nextTickToRequest.toNat
      ≤ (s.nextTickToRequest + s.skipSize).toNat := hmin
  have hnear := fillPipeline_near link workerEnd (s := s.skipAhead workerEnd)
    (by show ¬0 ≥ 30; omega)
  rw [fillPipeline_eq, if_pos hwants, if_pos hfailures, UInt32.lt_iff_toNat_lt]
  have hdepth : PIPELINE_DEPTH = 20 := rfl
  unfold Session.SkipFits at hwraps
  have := s.nextTickToRequest.toNat_lt
  omega

end Cursor

/-- **When a fill only moves forward.** For any queue and failure count, a cursor within the range
and a skip size the code can reach: unless the fill starts with a skip whose sum passes the last
`u32`. -/
theorem fill_forward_iff (link : Link) {workerEnd : UInt32} {s : Session}
    (hnext : s.nextTickToRequest ≤ workerEnd) (hskip : s.skipSize ≤ FAILURE_SKIP_MAX) :
    FillsForward link workerEnd s ↔
      (s.Wants workerEnd → s.consecutiveFailures ≥ MAX_CONSECUTIVE_FAILURES →
        s.nextTickToRequest.toNat + s.skipSize.toNat < 2 ^ 32) := by
  constructor
  · intro h hwants hfailures
    by_contra hwraps
    exact UInt32.not_lt.mpr h.ahead.forward (fillPipeline_back hskip hwants hfailures hwraps)
  · intro hfits
    exact ⟨fillPipeline_full, fillPipeline_ahead hnext hfits⟩

/-- Thirty failures, the next tick close to the last `u32`. -/
def sampleLateSession : Session where
  nextTickToRequest := 4294967000
  consecutiveFailures := 30

/-- Where the range ends well below, a fill is a skip to the end. -/
theorem fill_forward_sample :
    ({ sampleLateSession with nextTickToRequest := 100 } : Session).nextTickToRequest ≤ 5000 ∧
    sampleLateSession.skipSize ≤ FAILURE_SKIP_MAX ∧
    FillsForward (.counting 1) 5000 { sampleLateSession with nextTickToRequest := 100 } :=
  ⟨by decide, by decide,
    (fill_forward_iff (.counting 1) (by decide) (by decide)).mpr (fun _ _ => by decide)⟩

/-- The skip wraps: the worker goes on with ticks from 9704 on. -/
theorem fill_moves_back :
    sampleLateSession.nextTickToRequest ≤ 4294967295 ∧
    (fillPipeline (.counting 1) 4294967295 sampleLateSession).nextTickToRequest = 9724 ∧
    ¬FillsForward (.counting 1) 4294967295 sampleLateSession := by
  have hcursor : (fillPipeline (.counting 1) 4294967295 sampleLateSession).nextTickToRequest
      = 9724 := by decide +kernel
  refine ⟨by decide, hcursor, fun h => ?_⟩
  have hforward := h.ahead.forward
  rw [hcursor] at hforward
  exact absurd hforward (by decide)

end Qonduit

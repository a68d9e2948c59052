import Qonduit.Ingestion.Handshake
import Qonduit.Ingestion.PeerRanking

/-!
# Qonduit — failover

One call of `connect_and_read` picks up to eight peers. A failed attempt only counts against the
peer's score, which decides whether it is picked again.

* **`turn_next_iff`** — the turns behind which the loop goes on.
* **`Trying`**, **`Trying.connectAndRead`** — what holds between the attempts of a call.
* **`failover_iff`** — a failed peer is never tried again before the others, exactly if it always
  has three candidates ahead of it while one is left.
-/

namespace Qonduit

namespace Connecting

/-! ## Between two attempts

A call of `connect_and_read` leaves its loop with the first peer it can send a request to, however
the exchange with that peer ends. Until then every attempt has failed and each has left a mark. -/

/-- **The loop goes on** behind an attempt that could not connect or send, and only there. The
attempt is counted and its address marked as failed. -/
theorem turn_next_iff {s s' : Connecting} {a : PeerAttempt} :
    s.turn a = .next s' ↔ s.attempts < MAX_PEERS_PER_ATTEMPT ∧
      (a.dial ≠ .connected ∨ a.link ≠ .ok ()) ∧
      ∃ addr, s.peerManager.bestPeer a.now a.pick = some addr ∧
        s' = fail { s with attempts := s.attempts + 1 } a.markedAt addr := by
  have hcases := turn_cases s a
  generalize s.turn a = t at hcases
  cases hcases with
  | exhausted fault spent => exact iff_of_false nofun (fun h => spent h.1)
  | noPeers fault none_left =>
    refine iff_of_false nofun (fun h => ?_)
    rcases h with ⟨-, -, addr, hbest, -⟩
    rw [none_left] at hbest
    exact nomatch hbest
  -- the one case that goes on
  | refused addr more best broken =>
    refine ⟨fun h => ⟨more, broken, addr, best, (PeerTurn.next.inj h).symm⟩, fun h => ?_⟩
    rcases h with ⟨-, -, addr', hbest, rfl⟩
    rw [best] at hbest
    rw [Option.some.inj hbest]
  | awaiting addr dial link => exact iff_of_false nofun (fun h => h.2.1.elim (· dial) (· link))
  | exchanged addr dial link remotePeers rest ended =>
    exact iff_of_false (bootstrapTick_ne_next _ a addr s') (fun h => h.2.1.elim (· dial) (· link))

/-- The addresses attempted in the call. -/
def attempted (s : Connecting) : List SocketAddr := s.marked.map (·.1)

/-- The addresses whose attempt failed in the call. -/
def failed (s : Connecting) : List SocketAddr :=
  (s.marked.filter (·.2 = .failure)).map (·.1)

/-- A call over the peers of `m` between two attempts: every attempt made has failed and is marked,
and the peers are still those of `m`. -/
structure Trying (m : PeerManager) (s : Connecting) : Prop where
  failed : ∀ x ∈ s.marked, x.2 = .failure
  counted : s.marked.length = s.attempts
  peers : s.peerManager.peers.map (·.addr) = m.peers.map (·.addr)
  known : ∀ addr ∈ s.attempted, addr ∈ m.peers.map (·.addr)

/-- A call begins without marks. -/
theorem trying_enter (client : IngestionClient) (m : PeerManager) (connected : Bool) :
    Trying m (enter client m connected) :=
  ⟨fun _ hx => (nomatch hx), rfl, rfl, fun _ haddr => nomatch haddr⟩

/-- **One more attempt** of the call. Its peer was picked among the known ones and is marked as
failed, which adds and removes no peer. -/
theorem Trying.turn {m : PeerManager} {s s' : Connecting} {a : PeerAttempt} (h : Trying m s)
    (hturn : s.turn a = .next s') : Trying m s' := by
  rcases turn_next_iff.mp hturn with ⟨-, -, addr, hbest, rfl⟩
  refine ⟨?_, ?_, ?_, ?_⟩
  · intro x hx
    rcases List.mem_append.mp hx with hx | hx
    · exact h.failed x hx
    · rw [List.mem_singleton.mp hx]
  · show (s.marked ++ [(addr, Mark.failure)]).length = s.attempts + 1
    rw [List.length_append, h.counted]
    rfl
  · exact (s.peerManager.addrs_markFailure a.markedAt addr).trans h.peers
  · -- an attempted address is an old one, or the one just picked
    intro addr' haddr
    have hmarked : addr' ∈ (s.marked ++ [(addr, Mark.failure)]).map (·.1) := haddr
    rw [List.map_append, List.mem_append] at hmarked
    rcases hmarked with hold | hnew
    · exact h.known addr' hold
    · rw [List.mem_singleton.mp hnew, ← h.peers]
      exact PeerManager.known_of_bestPeer hbest

/-- A call goes on behind its attempts if the first goes on and the rest does behind it. -/
theorem connectAndRead_cons_next {s s' : Connecting} {a : PeerAttempt}
    {attempts : List PeerAttempt} :
    s.connectAndRead (a :: attempts) = .next s' ↔
      ∃ s₁, s.turn a = .next s₁ ∧ s₁.connectAndRead attempts = .next s' := by
  by_cases hnext : ∃ s₁, s.turn a = .next s₁
  · rcases hnext with ⟨s₁, hturn⟩
    rw [connectAndRead, hturn]
    refine ⟨fun h => ⟨s₁, rfl, h⟩, fun h => ?_⟩
    rcases h with ⟨s₂, hs₂, hrest⟩
    rw [PeerTurn.next.inj hs₂]
    exact hrest
  · have hne : ∀ s₁, s.turn a ≠ .next s₁ := fun s₁ h => hnext ⟨s₁, h⟩
    rw [connectAndRead_of_ne_next rfl hne]
    exact iff_of_false (hne s') (fun h => hnext ⟨_, h.choose_spec.1⟩)

/-- **A call** between two attempts, by induction on the attempts made. -/
theorem Trying.connectAndRead {m : PeerManager} {s s' : Connecting} {attempts : List PeerAttempt}
    (h : Trying m s) (hcall : s.connectAndRead attempts = .next s') : Trying m s' := by
  induction attempts generalizing s with
  | nil =>
    rw [← PeerTurn.next.inj hcall]
    exact h
  | cons a attempts ih =>
    rcases connectAndRead_cons_next.mp hcall with ⟨s₁, hturn, hrest⟩
    exact ih (h.turn hturn) hrest

/-! ## Trying a failed peer again

A failure does not take a peer off the list, and one of the best three is drawn. So a failed peer
may be drawn again while another has not been tried at all. The clock of the draw is any that does
not run backwards. -/

/-- A known peer has not been attempted yet. -/
def Untried (s : Connecting) : Prop := ∃ p ∈ s.peerManager.peers, p.addr ∉ s.attempted

/-- The clock does not run backwards: no peer was marked after this moment. -/
def MarkedBy (s : Connecting) (now : Instant) : Prop :=
  ∀ p ∈ s.peerManager.peers,
    (∀ seen ∈ p.lastSeen, seen ≤ now) ∧ ∀ failure ∈ p.lastFailure, failure ≤ now

/-- The next attempt goes to an address that has failed, while a known peer is untried. -/
def Retries (s : Connecting) (a : PeerAttempt) : Prop :=
  s.attempts < MAX_PEERS_PER_ATTEMPT ∧ s.Untried ∧ s.MarkedBy a.now ∧
    ∃ addr ∈ s.failed, s.peerManager.bestPeer a.now a.pick = some addr

/-- While a known peer is untried, three candidates are always ahead of each candidate whose
address has failed. -/
def Outranked (s : Connecting) : Prop :=
  s.attempts < MAX_PEERS_PER_ATTEMPT → s.Untried → ∀ now, s.MarkedBy now → ∀ before p behind,
    s.peerManager.peers = before ++ p :: behind → p.addr ∈ s.failed → s.peerManager.contends p →
      3 ≤ (s.peerManager.rivals now p before behind).length

/-- The peer refuses the connection. -/
def refusedAttempt (now : Instant) (pick : Nat) : PeerAttempt where
  now
  pick
  dial := .failed "Connection refused"
  draw := 1
  link := .ok ()
  stream := []
  waits := []
  markedAt := now
  tickDraw := 1
  tickLink := .ok ()
  tickReads := []

/-- Some clock that does not run backwards and some draw lead back to a failed peer, unless all of
them are outranked. A peer can be drawn if fewer than three candidates are ahead of it. -/
theorem outranked_iff {s : Connecting} : s.Outranked ↔ ∀ a, ¬s.Retries a := by
  refine ⟨fun h a hretry => ?_, fun h hmore huntried => ?_⟩
  · rcases hretry with ⟨hmore, huntried, hclock, addr, hfailed, hbest⟩
    rcases PeerManager.bestPeer_picks_iff.mp ⟨a.pick, hbest⟩
      with ⟨before, p, behind, hpeers, rfl, hcontends, hlt⟩
    have hahead := h hmore huntried a.now hclock before p behind hpeers hfailed hcontends
    omega
  · intro now hclock before p behind hpeers hfailed hcontends
    by_contra hlt
    rcases PeerManager.bestPeer_picks_iff.mpr
      ⟨before, p, behind, hpeers, rfl, hcontends, Nat.not_le.mp hlt⟩ with ⟨pick, hbest⟩
    exact h (refusedAttempt now pick) ⟨hmore, huntried, hclock, p.addr, hfailed, hbest⟩

/-- The state before, between or behind the attempts of a call, where the loop goes on. -/
def Between (s₀ : Connecting) (attempts : List PeerAttempt) (s : Connecting) : Prop :=
  ∃ made, made <+: attempts ∧ s₀.connectAndRead made = .next s

/-- **Failover.** In every call of `connect_and_read`, over any peers with any marks, every attempt
so far has failed and is marked, and only known peers were attempted. Nowhere in the call can a
draw, under a clock that does not run backwards, lead to a failed address while a known peer is
untried, if and only if everywhere the failed candidates are outranked then. -/
theorem failover_iff (client : IngestionClient) (m : PeerManager) (connected : Bool)
    (attempts : List PeerAttempt) :
    let s₀ := enter client m connected
    (∀ s, Between s₀ attempts s → Trying m s) ∧
    ((∀ s, Between s₀ attempts s → ∀ a, ¬s.Retries a) ↔
      ∀ s, Between s₀ attempts s → s.Outranked) := by
  intro s₀
  refine ⟨fun s hs => ?_, forall_congr' fun s => imp_congr_right fun _ => outranked_iff.symm⟩
  rcases hs with ⟨made, -, hcall⟩
  exact (trying_enter client m connected).connectAndRead hcall

/-! ## A peer that once broadcast

A broadcast raises the score of a peer, and a failure to connect does not count against it. -/

def freshAddr : SocketAddr := .v4 (127, 0, 0, 2) QUBIC_PORT

/-- A peer that sent a broadcast, and one that was never tried. -/
def broadcasterAndFresh : PeerManager :=
  (PeerManager.new [localAddr, freshAddr]).markBroadcast 0 localAddr

/-- The broadcaster refuses a connection and is tried again before the other peer. -/
theorem failed_peer_retried :
    ∃ s, (enter {} broadcasterAndFresh false).connectAndRead [refusedAttempt (secs 60) 0] = .next s
      ∧ s.attempted = [localAddr] ∧ s.Retries (refusedAttempt (secs 61) 0) := by
  refine ⟨_, rfl, by decide +kernel, by decide +kernel, ?_, ?_, localAddr, ?_, ?_⟩
  · exact ⟨.new freshAddr, by decide +kernel, by decide +kernel⟩
  · unfold MarkedBy
    decide +kernel
  · decide +kernel
  · decide +kernel

end Connecting

end Qonduit

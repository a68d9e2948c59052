import Qonduit.Ingestion.PeerManager

/-!
# Qonduit — pruning

`prune_stale` looks at a peer's counters and at `last_seen`, which a failure does not set. The
entries of a run are followed together with the marks they were given, so that what a peer did is
said without its counters.

* **`peers_run`** — the followed entries are the peers of the manager.
* **`isStale_iff`** — what the prune test says of the marks.
* **`failed_pruned_iff`** — failed peers are pruned if every one of them has once sent a broadcast.
* **`failed_peer_kept`** — a peer that only ever failed.
-/

namespace Qonduit

/-- An operation on the manager after `new`. -/
inductive PeerOp where
  | bootstrapFromApi (response : Option RandomPeersResponse)
  | addPeersFromExchange (rawPeers : List Ipv4)
  | mark (addr : SocketAddr) (mark : Mark)
  | pruneStale

namespace PeerManager

def apply (m : PeerManager) : Instant × PeerOp → PeerManager
  | (_, .bootstrapFromApi response) => m.bootstrapFromApi response
  | (_, .addPeersFromExchange rawPeers) => m.addPeersFromExchange rawPeers
  | (now, .mark addr .broadcast) => m.markBroadcast now addr
  | (now, .mark addr .success) => m.markSuccess now addr
  | (now, .mark addr .failure) => m.markFailure now addr
  | (now, .pruneStale) => m.pruneStale now

def run (bootstrapAddrs : List SocketAddr) (ops : List (Instant × PeerOp)) : PeerManager :=
  ops.foldl apply (new bootstrapAddrs)

end PeerManager

/-! ## Followed entries

The entry of a peer holds counters but not what they count. Each is therefore followed by the marks
it was given, and the manager is shown to be the image of these histories. -/

/-- An entry of the list with the marks it was given, oldest first. -/
structure Followed where
  addr : SocketAddr
  marks : List (Instant × Mark)
  deriving DecidableEq

namespace Followed

def new (addr : SocketAddr) : Followed where
  addr
  marks := []

def peer (t : Followed) : Peer := t.marks.foldl Peer.mark (.new t.addr)

def mark (x : Instant × Mark) (t : Followed) : Followed := { t with marks := t.marks ++ [x] }

def addPeer (ts : List Followed) (addr : SocketAddr) : List Followed :=
  if ts.any (·.addr = addr) then ts else ts ++ [new addr]

def addPeers (ts : List Followed) (addrs : List SocketAddr) : List Followed :=
  addrs.foldl addPeer ts

def apply (ts : List Followed) : Instant × PeerOp → List Followed
  | (_, .bootstrapFromApi (some body)) =>
    addPeers (addPeers ts (body.litePeers.filterMap (parsePeerAddr · QUBIC_PORT)))
      (body.bobPeers.filterMap (parsePeerAddr · BOB_PORT))
  | (_, .bootstrapFromApi none) => ts
  | (_, .addPeersFromExchange rawPeers) =>
    addPeers ts ((rawPeers.filter (· ≠ (0, 0, 0, 0))).map (SocketAddr.v4 · QUBIC_PORT))
  | (now, .mark addr .success) =>
    if ts.any (·.addr = addr) then FirstMatch.update (·.addr = addr) (mark (now, .success)) ts
    else ts ++ [(new addr).mark (now, .success)]
  | (now, .mark addr m) => FirstMatch.update (·.addr = addr) (mark (now, m)) ts
  | (now, .pruneStale) => ts.filter (!·.peer.isStale now)

def run (bootstrapAddrs : List SocketAddr) (ops : List (Instant × PeerOp)) : List Followed :=
  ops.foldl apply (bootstrapAddrs.map new)

theorem peer_mark (t : Followed) (x : Instant × Mark) : (t.mark x).peer = t.peer.mark x := by
  show (t.marks ++ [x]).foldl Peer.mark (.new t.addr) = t.peer.mark x
  rw [List.foldl_append]
  rfl

theorem addr_foldl_mark (marks : List (Instant × Mark)) (p : Peer) :
    (marks.foldl Peer.mark p).addr = p.addr := by
  induction marks generalizing p with
  | nil => rfl
  | cons x marks ih =>
    rw [List.foldl_cons, ih]
    rcases x with ⟨now, m⟩
    cases m <;> rfl

theorem addr_peer (t : Followed) : t.peer.addr = t.addr := addr_foldl_mark t.marks (.new t.addr)

/-- The followed entries are the peers of the manager. -/
def Follows (ts : List Followed) (m : PeerManager) : Prop := m.peers = ts.map peer

/-- An address is known if a history has it. -/
theorem Follows.known {ts : List Followed} {m : PeerManager} (h : Follows ts m)
    (addr : SocketAddr) : m.known addr = ts.any (·.addr = addr) := by
  rw [PeerManager.known, h, List.any_map]
  refine congrArg ts.any (funext fun t => ?_)
  show decide (t.peer.addr = addr) = decide (t.addr = addr)
  rw [addr_peer]

theorem Follows.addPeer {ts : List Followed} {m : PeerManager} (h : Follows ts m)
    (addr : SocketAddr) : Follows (addPeer ts addr) (m.addPeer addr) := by
  rw [Followed.addPeer, PeerManager.addPeer, h.known]
  split
  · exact h
  · show m.peers ++ [Peer.new addr] = (ts ++ [new addr]).map peer
    rw [h, List.map_append]
    rfl

theorem Follows.addPeers {ts : List Followed} {m : PeerManager} (h : Follows ts m)
    (addrs : List SocketAddr) :
    Follows (addPeers ts addrs) (addrs.foldl PeerManager.addPeer m) := by
  induction addrs generalizing ts m with
  | nil => exact h
  | cons addr addrs ih => exact ih (h.addPeer addr)

/-- A mark goes to the first entry with its address, and to the history of that entry. -/
theorem Follows.update {ts : List Followed} {m : PeerManager} (h : Follows ts m)
    (addr : SocketAddr) (x : Instant × Mark) :
    Follows (FirstMatch.update (·.addr = addr) (mark x) ts) (m.update addr (·.mark x)) := by
  show FirstMatch.update (·.addr = addr) (·.mark x) m.peers
    = (FirstMatch.update (·.addr = addr) (mark x) ts).map peer
  rw [h, FirstMatch.map_update (q := fun p : Peer => decide (p.addr = addr)) (g := (·.mark x))]
  · intro t
    show decide (t.peer.addr = addr) = decide (t.addr = addr)
    rw [addr_peer]
  · exact fun t => peer_mark t x

/-- **One operation** on the entries is the operation on the manager. They agree on which addresses
are known and on which entries are stale, as both read the entry only. -/
theorem Follows.apply {ts : List Followed} {m : PeerManager} (h : Follows ts m)
    (x : Instant × PeerOp) : Follows (apply ts x) (m.apply x) := by
  rcases x with ⟨now, op⟩
  cases op with
  | bootstrapFromApi response =>
    cases response with
    | none => exact h
    | some body => exact (h.addPeers _).addPeers _
  | addPeersFromExchange rawPeers => exact h.addPeers _
  | mark addr m' =>
    cases m' with
    | broadcast => exact h.update addr (now, .broadcast)
    | failure => exact h.update addr (now, .failure)
    | success =>
      show Follows (if ts.any (·.addr = addr) then _ else _) (if m.known addr then _ else _)
      -- a success adds the peer where it is not known
      rw [h.known]
      split
      · exact h.update addr (now, .success)
      · show m.peers ++ [(Peer.new addr).success now]
          = (ts ++ [(new addr).mark (now, .success)]).map peer
        rw [h, List.map_append]
        rfl
  | pruneStale =>
    show m.peers.filter (!·.isStale now) = (ts.filter (!·.peer.isStale now)).map peer
    rw [h, List.filter_map]
    rfl

/-- **So is a run.** Every entry of the manager has a history. -/
theorem peers_run (bootstrapAddrs : List SocketAddr) (ops : List (Instant × PeerOp)) :
    (PeerManager.run bootstrapAddrs ops).peers = (run bootstrapAddrs ops).map peer := by
  have hnew : Follows (bootstrapAddrs.map new) (.new bootstrapAddrs) := by
    show bootstrapAddrs.map Peer.new = (bootstrapAddrs.map new).map peer
    rw [List.map_map]
    rfl
  have hrun : ∀ {ts : List Followed} {m : PeerManager}, Follows ts m →
      Follows (ops.foldl apply ts) (ops.foldl PeerManager.apply m) := by
    induction ops with
    | nil => exact fun h => h
    | cons x ops ih => exact fun h => ih (h.apply x)
  exact hrun hnew

/-! ## Counters and marks

The prune test reads three fields of an entry. Each says something about the marks: how many
failures, whether there was a success, and the last mark that was not a failure. -/

/-- The times a peer failed. -/
def failures (t : Followed) : List Instant :=
  t.marks.filterMap fun x => if x.2 = .failure then some x.1 else none

/-- The times a peer was seen. -/
def seen (t : Followed) : List Instant :=
  t.marks.filterMap fun x => if x.2 = .failure then none else some x.1

/-- A peer never succeeded. -/
def NeverSucceeded (t : Followed) : Prop := ∀ x ∈ t.marks, x.2 ≠ .success

instance (t : Followed) : Decidable t.NeverSucceeded :=
  inferInstanceAs (Decidable (∀ x ∈ t.marks, x.2 ≠ .success))

/-- What the counters of a peer say of its marks. -/
structure Counts (t : Followed) (p : Peer) : Prop where
  failures : p.failureCount.toNat = min t.failures.length 0xFFFFFFFF
  successes : p.successCount = 0 ↔ t.NeverSucceeded
  lastSeen : p.lastSeen = t.seen.getLast?

/-- One mark, and whether it was a failure. -/
theorem failures_mark (t : Followed) (x : Instant × Mark) :
    (t.mark x).failures = t.failures ++ if x.2 = .failure then [x.1] else [] := by
  show (t.marks ++ [x]).filterMap _ = _
  rw [List.filterMap_append]
  refine congrArg (t.failures ++ ·) ?_
  split <;> simp [*]

/-- One mark, and whether the peer was seen by it. -/
theorem seen_mark (t : Followed) (x : Instant × Mark) :
    (t.mark x).seen = t.seen ++ if x.2 = .failure then [] else [x.1] := by
  show (t.marks ++ [x]).filterMap _ = _
  rw [List.filterMap_append]
  refine congrArg (t.seen ++ ·) ?_
  split <;> simp [*]

theorem saturatingAdd_one_ne_zero (n : UInt32) : n.saturatingAdd 1 ≠ 0 := by
  intro h
  have hnat := congrArg UInt32.toNat h
  rw [UInt32.toNat_saturatingAdd] at hnat
  simp at hnat

/-- A peer never succeeded if none of its marks is a success. -/
theorem neverSucceeded_mark (t : Followed) (x : Instant × Mark) :
    (t.mark x).NeverSucceeded ↔ t.NeverSucceeded ∧ x.2 ≠ .success := by
  show (∀ y ∈ t.marks ++ [x], y.2 ≠ .success) ↔ _
  rw [List.forall_mem_append, List.forall_mem_singleton]
  rfl

/-- **One mark** moves the counters as it moves what they count. A broadcast counts neither as a
success nor as a failure, but the peer was seen by it. -/
theorem Counts.mark {t : Followed} {p : Peer} (h : Counts t p) (x : Instant × Mark) :
    Counts (t.mark x) (p.mark x) := by
  rcases x with ⟨now, m⟩
  have hfailures := failures_mark t (now, m)
  have hseen := seen_mark t (now, m)
  cases m with
  | broadcast =>
    -- the failures, the successes, the last time seen
    refine ⟨?_, ?_, ?_⟩
    · rw [hfailures, if_neg nofun, List.append_nil]
      exact h.failures
    · rw [neverSucceeded_mark]
      exact h.successes.trans (and_iff_left nofun).symm
    · rw [hseen, if_neg nofun, List.getLast?_concat]
      rfl
  | success =>
    refine ⟨?_, ?_, ?_⟩
    · rw [hfailures, if_neg nofun, List.append_nil]
      exact h.failures
    · rw [neverSucceeded_mark]
      exact iff_of_false (saturatingAdd_one_ne_zero p.successCount) (fun hx => hx.2 rfl)
    · rw [hseen, if_neg nofun, List.getLast?_concat]
      rfl
  | failure =>
    refine ⟨?_, ?_, ?_⟩
    · rw [hfailures, if_pos rfl, List.length_append, List.length_singleton]
      show (p.failureCount.saturatingAdd 1).toNat = _
      rw [UInt32.toNat_saturatingAdd, h.failures, UInt32.toNat_one]
      omega
    · rw [neverSucceeded_mark]
      exact h.successes.trans (and_iff_left nofun).symm
    · rw [hseen, if_pos rfl, List.append_nil]
      exact h.lastSeen

/-- The fields of an entry count its marks. -/
theorem counts (t : Followed) : Counts t t.peer := by
  rcases t with ⟨addr, marks⟩
  induction marks using List.reverseRecOn with
  | nil => exact ⟨rfl, iff_of_true rfl (fun x hx => nomatch hx), rfl⟩
  | append_singleton marks x ih =>
    have hmark := ih.mark x
    rw [← peer_mark] at hmark
    exact hmark

/-- **The prune test**: a peer is stale if it never succeeded, failed five times, was seen, and the
last time it was is ten minutes ago. -/
theorem isStale_iff (t : Followed) (now : Instant) :
    t.peer.isStale now ↔ t.NeverSucceeded ∧ 5 ≤ t.failures.length ∧
      ∃ last, t.seen.getLast? = some last ∧ STALE_THRESHOLD ≤ now - last := by
  have hcounts := counts t
  have hfive : t.peer.failureCount ≥ PRUNE_FAILURE_THRESHOLD ↔ 5 ≤ t.failures.length := by
    rw [ge_iff_le, UInt32.le_iff_toNat_le, hcounts.failures]
    show 5 ≤ _ ↔ _
    omega
  rw [Peer.isStale, hcounts.lastSeen]
  cases t.seen.getLast? with
  | none =>
    exact iff_of_false Bool.false_ne_true (fun h => nomatch h.2.2.choose_spec.1)
  | some last =>
    show decide _ = true ↔ _
    rw [decide_eq_true_iff, hfive, hcounts.successes]
    refine ⟨fun h => ⟨h.2.1, h.1, last, rfl, h.2.2⟩, fun h => ?_⟩
    rcases h with ⟨hnever, hfailed, last', hlast, hold⟩
    rw [← Option.some.inj hlast] at hold
    exact ⟨hfailed, hnever, hold⟩

/-! ## Failed peers

A peer has failed if it never succeeded, failed five times, ten minutes ago for the first time, and
was not seen since. To be stale it must have been seen at all, and without a success only a
broadcast counts as that. -/

/-- A peer that never succeeded, failed at least five times, the first time at least ten minutes
ago, and was not seen within the last ten minutes. -/
structure Failed (now : Instant) (t : Followed) : Prop where
  never : t.NeverSucceeded
  failures : 5 ≤ t.failures.length
  first : ∀ first, t.failures.head? = some first → first + STALE_THRESHOLD ≤ now
  unseen : ∀ at' ∈ t.seen, STALE_THRESHOLD ≤ now - at'

/-- A failed peer is stale if it was ever seen. -/
theorem Failed.isStale_iff {now : Instant} {t : Followed} (h : t.Failed now) :
    t.peer.isStale now ↔ t.seen ≠ [] := by
  rw [Followed.isStale_iff, and_iff_right h.never, and_iff_right h.failures]
  refine ⟨fun hlast hnil => ?_, fun hne => ?_⟩
  · rw [hnil] at hlast
    exact nomatch hlast.choose_spec.1
  · have hlast := List.getLast?_eq_getLast_of_ne_nil hne
    exact ⟨_, hlast, h.unseen _ (List.getLast_mem hne)⟩

/-- A failed peer was seen if it once broadcast. -/
theorem mem_seen_of_failed {now : Instant} {t : Followed} (h : t.Failed now) :
    t.seen ≠ [] ↔ ∃ x ∈ t.marks, x.2 = .broadcast := by
  refine ⟨fun hseen => ?_, fun hmark => ?_⟩
  · rcases List.exists_mem_of_ne_nil t.seen hseen with ⟨at', hat⟩
    rcases List.mem_filterMap.mp hat with ⟨⟨now', m⟩, hx, hsome⟩
    cases m with
    | broadcast => exact ⟨_, hx, rfl⟩
    | success => exact absurd rfl (h.never _ hx)
    | failure => exact nomatch hsome
  · rcases hmark with ⟨⟨now', m⟩, hx, rfl⟩
    exact List.ne_nil_of_mem (List.mem_filterMap.mpr ⟨_, hx, rfl⟩)

/-- **When failed peers are pruned.** In every run of the manager, from any bootstrap addresses,
no failed peer is left after `prune_stale` if and only if each one there was before it has once
been marked as broadcasting. -/
theorem failed_pruned_iff (bootstrapAddrs : List SocketAddr) (ops : List (Instant × PeerOp))
    (now : Instant) :
    let before := run bootstrapAddrs ops
    let after := run bootstrapAddrs (ops ++ [(now, .pruneStale)])
    (PeerManager.run bootstrapAddrs ops).peers = before.map peer ∧
    ((PeerManager.run bootstrapAddrs ops).pruneStale now).peers = after.map peer ∧
    ((∀ t ∈ after, ¬t.Failed now) ↔
      ∀ t ∈ before, t.Failed now → ∃ x ∈ t.marks, x.2 = .broadcast) := by
  intro before after
  have hafter : after = before.filter (!·.peer.isStale now) := List.foldl_append
  have hpruned := peers_run bootstrapAddrs (ops ++ [(now, .pruneStale)])
  rw [PeerManager.run, List.foldl_append] at hpruned
  refine ⟨peers_run bootstrapAddrs ops, hpruned, ?_⟩
  rw [hafter]
  refine ⟨fun h t ht hfailed => ?_, fun h t ht hfailed => ?_⟩
  · rw [← mem_seen_of_failed hfailed, ← hfailed.isStale_iff]
    cases hstale : t.peer.isStale now with
    | true => rfl
    | false => exact absurd hfailed (h t (List.mem_filter.mpr ⟨ht, by rw [hstale]; rfl⟩))
  · rcases List.mem_filter.mp ht with ⟨hmem, hkept⟩
    have hstale := hfailed.isStale_iff.mpr ((mem_seen_of_failed hfailed).mpr (h t hmem hfailed))
    rw [hstale] at hkept
    exact Bool.false_ne_true hkept

/-! ## A peer that cannot be reached

A peer that is never reached is never seen, and the test does not let it go. -/

/-- Five failed attempts, five seconds apart. -/
def sampleFailures : List (Instant × PeerOp) :=
  [0, 5, 10, 15, 20].map fun n => (secs n, .mark localAddr .failure)

/-- A bootstrap peer that fails five times is not pruned twenty minutes later. -/
theorem failed_peer_kept :
    let before := run [localAddr] sampleFailures
    let after := run [localAddr] (sampleFailures ++ [(secs 1200, .pruneStale)])
    ((PeerManager.run [localAddr] sampleFailures).pruneStale (secs 1200)).peers.map (·.addr)
      = [localAddr] ∧
    after = before ∧ ∃ t ∈ after, t.Failed (secs 1200) := by
  intro before after
  have hmarks : after = [⟨localAddr, [0, 5, 10, 15, 20].map fun n => (secs n, .failure)⟩] := by
    decide
  refine ⟨by decide, by decide, _, by rw [hmarks]; exact List.mem_singleton_self _, ?_⟩
  refine ⟨by decide, by decide, fun first hfirst => ?_, by decide⟩
  rw [← Option.some.inj hfirst]
  decide

end Followed

end Qonduit

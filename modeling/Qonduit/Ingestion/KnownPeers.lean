import Qonduit.Ingestion.StalePeers

/-!
# Qonduit — one entry for each known peer

Every operation that adds a peer to the list of `peer_manager.rs` looks for its address first, but
for `new`, which takes the bootstrap addresses as they come. A mark changes the first entry with the
address it is given.

* **`nodup_apply`** — no operation lists an address twice.
* **`known_peers_unique_iff`** — the managers whose entries stay apart are those that start from
  distinct addresses.
* **`bootstrap_peer_twice`** — a bootstrap address given twice.
-/

namespace Qonduit

/-- The addresses of a config of the live client. -/
structure IngestionConfig where
  nodeAddr : Option SocketAddr := none
  bootstrapAddrs : List SocketAddr := []

/-- The addresses `IngestionClient::new` starts the manager with. -/
def IngestionClient.bootstrap (config : IngestionConfig) : List SocketAddr :=
  match config.nodeAddr with
  | some addr =>
    if addr ∈ config.bootstrapAddrs then config.bootstrapAddrs
    else config.bootstrapAddrs ++ [addr]
  | none => config.bootstrapAddrs

/-- The node address is looked for, the bootstrap addresses are not. -/
theorem IngestionClient.nodup_bootstrap_iff (config : IngestionConfig) :
    (bootstrap config).Nodup ↔ config.bootstrapAddrs.Nodup := by
  unfold bootstrap
  cases config.nodeAddr with
  | none => exact Iff.rfl
  | some addr =>
    dsimp only
    split
    · exact Iff.rfl
    · next hnew =>
      rw [← List.concat_eq_append, List.nodup_concat]
      exact and_iff_right hnew

namespace PeerManager

def addrs (m : PeerManager) : List SocketAddr := m.peers.map (·.addr)

/-- A new manager has the bootstrap addresses as they are. -/
theorem addrs_new (bootstrapAddrs : List SocketAddr) :
    (new bootstrapAddrs).addrs = bootstrapAddrs := by
  show (bootstrapAddrs.map Peer.new).map (·.addr) = bootstrapAddrs
  rw [List.map_map]
  exact List.map_id bootstrapAddrs

theorem known_eq_false_iff {m : PeerManager} {addr : SocketAddr} :
    m.known addr = false ↔ addr ∉ m.addrs := by
  rw [known, addrs, List.any_eq_false]
  simp [List.mem_map]

/-- A peer with a new address may join the list. -/
theorem nodup_append {m : PeerManager} (h : m.addrs.Nodup) {peer : Peer}
    (hnew : m.known peer.addr = false) : ((m.peers ++ [peer]).map (·.addr)).Nodup := by
  rw [List.map_append, List.map_singleton, ← List.concat_eq_append, List.nodup_concat]
  exact ⟨known_eq_false_iff.mp hnew, h⟩

/-- A peer is added under a new address only. -/
theorem nodup_addPeer {m : PeerManager} (h : m.addrs.Nodup) (addr : SocketAddr) :
    (m.addPeer addr).addrs.Nodup := by
  unfold addPeer
  split
  · exact h
  · next hnew => exact nodup_append h (Bool.eq_false_iff.mpr hnew)

theorem nodup_addPeers {m : PeerManager} (h : m.addrs.Nodup) (new : List SocketAddr) :
    (new.foldl addPeer m).addrs.Nodup := by
  induction new generalizing m with
  | nil => exact h
  | cons addr new ih => exact ih (nodup_addPeer h addr)

theorem addrs_update (m : PeerManager) (addr : SocketAddr) (x : Instant × Mark) :
    (m.update addr (·.mark x)).addrs = m.addrs := by
  show (FirstMatch.update (·.addr = addr) (·.mark x) m.peers).map (·.addr) = m.peers.map (·.addr)
  exact FirstMatch.map_update_of_eq (fun peer => Followed.addr_foldl_mark [x] peer) m.peers

/-- **No operation** lists an address twice. Whatever adds a peer looks for its address first, and a
mark or a prune adds none. -/
theorem nodup_apply {m : PeerManager} (h : m.addrs.Nodup) (x : Instant × PeerOp) :
    (m.apply x).addrs.Nodup := by
  rcases x with ⟨now, op⟩
  -- a mark of a known peer keeps the addresses
  have hmark : ∀ addr mark, (m.update addr (·.mark (now, mark))).addrs.Nodup := by
    intro addr mark
    rw [addrs_update]
    exact h
  -- what adds peers looks for their addresses first, and the prune removes some
  cases op with
  | bootstrapFromApi response =>
    cases response with
    | none => exact h
    | some body => exact nodup_addPeers (nodup_addPeers h _) _
  | addPeersFromExchange rawPeers => exact nodup_addPeers h _
  | mark addr mark =>
    cases mark with
    | broadcast => exact hmark addr .broadcast
    | failure => exact hmark addr .failure
    | success =>
      show (m.markSuccess now addr).addrs.Nodup
      unfold markSuccess
      split
      · exact hmark addr .success
      · next hnew => exact nodup_append h (Bool.eq_false_iff.mpr hnew)
  | pruneStale => exact h.sublist (List.filter_sublist.map _)

/-- So no sequence of operations does, if the bootstrap addresses are distinct. -/
theorem nodup_run {bootstrapAddrs : List SocketAddr} (h : bootstrapAddrs.Nodup)
    (ops : List (Instant × PeerOp)) : (run bootstrapAddrs ops).addrs.Nodup := by
  induction ops using List.reverseRecOn with
  | nil =>
    show (new bootstrapAddrs).addrs.Nodup
    rw [addrs_new]
    exact h
  | append_singleton ops x ih =>
    rw [run, List.foldl_append]
    exact nodup_apply ih x

/-! ## Entries and marks

Operations find a peer by its address. With one entry for each address a mark reaches the entry it
is meant for; with two it reaches the first, and the other stays as it was. -/

/-- No two entries have the same address, and a mark with the address of an entry changes that
entry and no other. -/
structure UniquePeers (m : PeerManager) : Prop where
  addrs : m.addrs.Nodup
  marks : ∀ i peer, m.peers[i]? = some peer → ∀ now mark,
    (m.apply (now, .mark peer.addr mark)).peers = m.peers.set i (peer.mark (now, mark))

/-- A mark of a known peer is an update, whichever it is. -/
theorem apply_mark {m : PeerManager} {addr : SocketAddr} (h : m.known addr) (now : Instant)
    (mark : Mark) : m.apply (now, .mark addr mark) = m.update addr (·.mark (now, mark)) := by
  cases mark with
  | broadcast => rfl
  | failure => rfl
  | success => exact if_pos h

/-- With distinct addresses a mark finds the entry whose address it has. -/
theorem UniquePeers.of_nodup {m : PeerManager} (h : m.addrs.Nodup) : m.UniquePeers := by
  refine ⟨h, fun i peer hi now mark => ?_⟩
  have hknown : m.known peer.addr :=
    List.any_eq_true.mpr ⟨peer, List.mem_of_getElem? hi, decide_eq_true rfl⟩
  rw [apply_mark hknown]
  exact FirstMatch.update_eq_set h hi _

/-- **When known peers are unique.** For every list of bootstrap addresses, also as the live client
completes it, and every sequence of operations: each state the manager passes through has one entry
for each address, if and only if the bootstrap addresses are distinct. -/
theorem known_peers_unique_iff (bootstrapAddrs : List SocketAddr) (nodeAddr : Option SocketAddr)
    (ops : List (Instant × PeerOp)) :
    ((∀ p, p <+: ops → (run bootstrapAddrs p).UniquePeers) ↔ bootstrapAddrs.Nodup) ∧
    ((∀ p, p <+: ops →
        (run (IngestionClient.bootstrap { nodeAddr, bootstrapAddrs }) p).UniquePeers) ↔
      bootstrapAddrs.Nodup) := by
  have hiff : ∀ addrs : List SocketAddr,
      (∀ p, p <+: ops → (run addrs p).UniquePeers) ↔ addrs.Nodup := by
    intro addrs
    refine ⟨fun h => ?_, fun h p _ => .of_nodup (nodup_run h p)⟩
    -- the manager that `new` returns lists the addresses themselves
    have hstart : (new addrs).addrs.Nodup := (h [] List.nil_prefix).addrs
    rw [addrs_new] at hstart
    exact hstart
  exact ⟨hiff bootstrapAddrs, (hiff _).trans (IngestionClient.nodup_bootstrap_iff _)⟩

/-- A bootstrap address given twice is listed twice, and a failure is recorded in one of the two
entries: the other still stands for a peer that was never tried. -/
theorem bootstrap_peer_twice :
    ¬(run [localAddr, localAddr] []).UniquePeers ∧
    (run [localAddr, localAddr] [(0, .mark localAddr .failure)]).peers
      = [(Peer.new localAddr).failure 0, Peer.new localAddr] := by
  refine ⟨fun h => ?_, by decide⟩
  exact absurd h.addrs (by decide)

end PeerManager

end Qonduit

import Mathlib.Data.List.Sort
import Qonduit.Core.Basic
import Qonduit.Lib.FirstMatch

/-!
# Qonduit — known peers

`peer_manager.rs`: the list of known peers with the counters that decide which one to connect to
next. The clock, the answer of the discovery API and the random draws are input. A time is a number
of nanoseconds on the monotone clock.

* **`Peer.score`** — `f64`, in Lean's own model of binary64.
* **`PeerManager.bestPeer`** — the candidates in order, and a pick among the first three.
-/

namespace Qonduit

abbrev Ipv4 := UInt8 × UInt8 × UInt8 × UInt8

inductive SocketAddr where
  | v4 (ip : Ipv4) (port : UInt16)
  | v6 (ip : List.Vector UInt8 16) (port : UInt16) (flowinfo scopeId : UInt32)
  deriving DecidableEq

/-- Default Qubic protocol port. -/
def QUBIC_PORT : UInt16 := 21841

/-- Bob node P2P port. -/
def BOB_PORT : UInt16 := 21842

/-- A node on this host. -/
def localAddr : SocketAddr := .v4 (127, 0, 0, 1) QUBIC_PORT

/-- Peers not seen within this duration and meeting failure criteria are pruned. -/
def STALE_THRESHOLD : Nat := secs 600

def PRUNE_FAILURE_THRESHOLD : UInt32 := 5

/-- What a caller reports of a peer. -/
inductive Mark where
  | broadcast
  | success
  | failure
  deriving DecidableEq

structure Peer where
  addr : SocketAddr
  lastSeen : Option Instant
  lastFailure : Option Instant
  successCount : UInt32
  failureCount : UInt32
  broadcastCount : UInt32
  deriving DecidableEq

namespace Peer

def new (addr : SocketAddr) : Peer where
  addr
  lastSeen := none
  lastFailure := none
  successCount := 0
  failureCount := 0
  broadcastCount := 0

/-- The total is a `u32` sum that wraps. -/
def score (p : Peer) : Float :=
  if p.broadcastCount > 0 then
    let broadcastBonus := min p.broadcastCount.toFloat 10.0 / 10.0 * 0.3
    0.7 + broadcastBonus
  else
    let total := p.successCount + p.failureCount
    if total = 0 then 0.3
    else p.successCount.toFloat / total.toFloat * 0.5

def isStale (now : Instant) (p : Peer) : Bool :=
  match p.lastSeen with
  | some lastSeen =>
    p.failureCount ≥ PRUNE_FAILURE_THRESHOLD ∧ p.successCount = 0
      ∧ now - lastSeen ≥ STALE_THRESHOLD
  | none => false

/-! ## Marks -/

def broadcast (now : Instant) (p : Peer) : Peer :=
  { p with broadcastCount := p.broadcastCount.saturatingAdd 1, lastSeen := some now }

def success (now : Instant) (p : Peer) : Peer :=
  { p with successCount := p.successCount.saturatingAdd 1, lastSeen := some now }

def failure (now : Instant) (p : Peer) : Peer :=
  { p with failureCount := p.failureCount.saturatingAdd 1, lastFailure := some now }

def mark (p : Peer) : Instant × Mark → Peer
  | (now, .broadcast) => p.broadcast now
  | (now, .success) => p.success now
  | (now, .failure) => p.failure now

end Peer

/-! ## Addresses of the discovery API -/

/-- `char::is_whitespace`, the characters `trim` removes. -/
def isWhitespace (ch : Char) : Bool :=
  let n := ch.toNat
  (9 ≤ n ∧ n ≤ 13) || (0x2000 ≤ n ∧ n ≤ 0x200A)
    || [0x20, 0x85, 0xA0, 0x1680, 0x2028, 0x2029, 0x202F, 0x205F, 0x3000].contains n

def trim (s : List Char) : List Char :=
  ((s.dropWhile isWhitespace).reverse.dropWhile isWhitespace).reverse

/-- One to three digits, without a leading zero, up to 255. -/
def parseOctet (s : List Char) : Option UInt8 :=
  let n := Nat.ofDigitChars 10 s 0
  if 1 ≤ s.length ∧ s.length ≤ 3 ∧ s.all Char.isDigit ∧ (s.head? = some '0' → s.length = 1)
      ∧ n ≤ 255 then some (UInt8.ofNat n)
  else none

/-- `str::parse::<Ipv4Addr>`. -/
def parseIpv4 (s : List Char) : Option Ipv4 :=
  match s.splitOn '.' with
  | [a, b, c, d] => do
    let a ← parseOctet a
    let b ← parseOctet b
    let c ← parseOctet c
    let d ← parseOctet d
    some (a, b, c, d)
  | _ => none

def parsePeerAddr (ipStr : List Char) (port : UInt16) : Option SocketAddr :=
  (parseIpv4 (trim ipStr)).map (SocketAddr.v4 · port)

structure RandomPeersResponse where
  litePeers : List (List Char) := []
  bobPeers : List (List Char) := []

/-! ## The manager -/

structure PeerManager where
  peers : List Peer
  deriving DecidableEq

namespace PeerManager

def new (bootstrapAddrs : List SocketAddr) : PeerManager where
  peers := bootstrapAddrs.map Peer.new

def known (m : PeerManager) (addr : SocketAddr) : Bool := m.peers.any (·.addr = addr)

/-- An address that is not known yet joins the list. -/
def addPeer (m : PeerManager) (addr : SocketAddr) : PeerManager :=
  if m.known addr then m else { m with peers := m.peers ++ [.new addr] }

/-- `bootstrap_from_api`, with the answer of the API, if it has one that parses. -/
def bootstrapFromApi (m : PeerManager) (response : Option RandomPeersResponse) : PeerManager :=
  match response with
  | some body =>
    let lite := body.litePeers.filterMap (parsePeerAddr · QUBIC_PORT)
    let bob := body.bobPeers.filterMap (parsePeerAddr · BOB_PORT)
    bob.foldl addPeer (lite.foldl addPeer m)
  | none => m

def addPeersFromExchange (m : PeerManager) (rawPeers : List Ipv4) :
    PeerManager :=
  ((rawPeers.filter (· ≠ (0, 0, 0, 0))).map (SocketAddr.v4 · QUBIC_PORT)).foldl addPeer m

/-- The first peer with an address is changed. -/
def update (m : PeerManager) (addr : SocketAddr) (f : Peer → Peer) : PeerManager where
  peers := FirstMatch.update (·.addr = addr) f m.peers

def markBroadcast (m : PeerManager) (now : Instant) (addr : SocketAddr) : PeerManager :=
  m.update addr (Peer.broadcast now)

/-- An unknown peer joins the list with one success. -/
def markSuccess (m : PeerManager) (now : Instant) (addr : SocketAddr) : PeerManager :=
  if m.known addr then m.update addr (Peer.success now)
  else { m with peers := m.peers ++ [(Peer.new addr).success now] }

def markFailure (m : PeerManager) (now : Instant) (addr : SocketAddr) : PeerManager :=
  m.update addr (Peer.failure now)

/-- A failure leaves the addresses as they are. -/
theorem addrs_markFailure (m : PeerManager) (now : Instant) (addr : SocketAddr) :
    (m.markFailure now addr).peers.map (·.addr) = m.peers.map (·.addr) :=
  FirstMatch.map_update_of_eq (f := Peer.failure now) (fun _ => rfl) m.peers

/-- A failure neither adds nor removes a peer. -/
theorem peers_markFailure_eq_nil_iff {m : PeerManager} {now : Instant} {addr : SocketAddr} :
    (m.markFailure now addr).peers = [] ↔ m.peers = [] := by
  rw [← List.map_eq_nil_iff (f := Peer.addr), addrs_markFailure, List.map_eq_nil_iff]

def pruneStale (m : PeerManager) (now : Instant) : PeerManager where
  peers := m.peers.filter (!·.isStale now)

/-! ## Selection -/

/-- `f64::partial_cmp`. -/
def partialCmp (x y : Float) : Option Ordering := x.toModel.compare y.toModel

/-- Whole seconds since a peer was seen, and `u64::MAX` for one that never was. -/
def sinceSeen (now : Instant) (p : Peer) : Nat :=
  match p.lastSeen with
  | some t => (now - t) / 1000000000
  | none => 2 ^ 64 - 1

/-- Highest score first, then least recently seen first. -/
def comparePeers (now : Instant) (a b : Peer) : Ordering :=
  ((partialCmp b.score a.score).getD .eq).then (compare (sinceSeen now b) (sinceSeen now a))

def qualifies (p : Peer) : Bool := p.score ≥ 0.2

/-- The peers that qualify, or all where none does. -/
def candidates (m : PeerManager) : List Peer :=
  let qualifying := m.peers.filter qualifies
  if qualifying.isEmpty then m.peers else qualifying

/-- `sort_by` is stable. -/
def ranked (m : PeerManager) (now : Instant) : List Peer :=
  m.candidates.insertionSort fun a b => comparePeers now a b ≠ .gt

/-- `draw` is `rand::random::<usize>()`. -/
def bestPeer (m : PeerManager) (now : Instant) (draw : Nat) : Option SocketAddr :=
  let candidates := m.ranked now
  if candidates.isEmpty then none
  else
    let topN := min candidates.length 3
    (candidates[draw % topN]?).map (·.addr)

end PeerManager

end Qonduit

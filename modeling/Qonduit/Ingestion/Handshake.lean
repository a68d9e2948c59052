import Qonduit.Ingestion.Client
import Qonduit.Ingestion.Headers
import Qonduit.Ingestion.PeerManager
import Qonduit.Ingestion.Requests

/-!
# Qonduit — connecting to a peer

`exchange_public_peers` (`protocol.rs`) and `connect_and_read` (`client.rs`) up to its read loop.
What the peer sends, how a connection or a read fails, the clock and the random draws are input.

* **`Connecting.turn`** — one turn of the loop over the peers; `connectAndRead` — the loop.
* **`awaitPeers_returned`** — the exchange ends with the first read that is not skipped.
* **`turn_cases`** — the outcomes of a turn.
* **`handshake_marks`** — what stands behind the mark that an attempt leaves.
-/

namespace Qonduit

/-! ## The exchange

Behind its request the client reads until it has a peer list, or no time is left, or a read fails.
In the last two cases it goes on with four zero addresses instead of an error. -/

/-- `[[0u8; 4]; 4]`. -/
def noPeers : List Ipv4 := List.replicate 4 (0, 0, 0, 0)

/-- The four addresses in the first 16 bytes. -/
def peersOf (payload : Bytes) : List Ipv4 :=
  (List.range 4).map fun i =>
    let chunk := (payload.drop (4 * i)).take 4
    (chunk.getD 0 0, chunk.getD 1 0, chunk.getD 2 0, chunk.getD 3 0)

def awaitPeers : List ResponseRead → Waited (List Ipv4)
  | [] => .waiting
  | .deadline :: rest => .returned (.ok noPeers) rest -- proceeding anyway
  | .timeout :: rest => .returned (.ok noPeers) rest -- proceeding anyway
  | .readError _ :: rest => .returned (.ok noPeers) rest
  | .packet (msgType, _dejavu, payload) :: rest =>
    if msgType = 0 ∧ payload.length ≥ 16 then .returned (.ok (peersOf payload)) rest
    else awaitPeers rest

/-- Unlike a request, it does not avoid the dejavu 0. -/
def exchangePublicPeers (localPeers : List Ipv4) (draw : UInt32) (link : Except String Unit)
    (reads : List ResponseRead) : RequestCall (List Ipv4) :=
  let payload := localPeers.flatMap fun (a, b, c, d) => [a, b, c, d]
  let sent := sendRaw 0 payload draw
  match link with
  | .error cause => { dejavu := draw, sent, waited := .returned (.error (.err [cause])) reads }
  | .ok () => { dejavu := draw, sent, waited := awaitPeers reads }

/-- The peers with which a read ends the exchange. -/
def ResponseRead.peers? : ResponseRead → Option (List Ipv4)
  | .packet (msgType, _dejavu, payload) =>
    if msgType = 0 ∧ payload.length ≥ 16 then some (peersOf payload) else none
  | .readError _ => some noPeers
  | .deadline => some noPeers
  | .timeout => some noPeers

/-- The read the exchange ends with. -/
def exchangeEnd (reads : List ResponseRead) : Option ResponseRead :=
  reads.find? (·.peers?.isSome)

/-- **The exchange ends** with the first read that is not skipped, and never with an error. The
induction is on the reads. -/
theorem awaitPeers_returned {reads rest : List ResponseRead} {outcome : Outcome (List Ipv4)}
    (h : awaitPeers reads = .returned outcome rest) :
    ∃ r peers, exchangeEnd reads = some r ∧ r.peers? = some peers ∧ outcome = .ok peers := by
  induction reads with
  | nil => exact nomatch h
  | cons r reads ih =>
    cases r with
    | deadline =>
      cases h
      exact ⟨.deadline, noPeers, rfl, rfl, rfl⟩
    | timeout =>
      cases h
      exact ⟨.timeout, noPeers, rfl, rfl, rfl⟩
    | readError cause =>
      cases h
      exact ⟨.readError cause, noPeers, rfl, rfl, rfl⟩
    | packet received =>
      -- a packet ends it if it is a peer list, and is skipped otherwise
      rcases received with ⟨msgType, dejavu, payload⟩
      by_cases hpeers : msgType = 0 ∧ payload.length ≥ 16
      · rw [awaitPeers, if_pos hpeers] at h
        cases h
        have hend : (ResponseRead.packet (msgType, dejavu, payload)).peers?
            = some (peersOf payload) := if_pos hpeers
        refine ⟨.packet (msgType, dejavu, payload), peersOf payload, ?_, hend, rfl⟩
        exact List.find?_cons_of_pos (by rw [hend]; rfl)
      · rw [awaitPeers, if_neg hpeers] at h
        have hskip : (ResponseRead.packet (msgType, dejavu, payload)).peers? = none :=
          if_neg hpeers
        have hend : exchangeEnd (.packet (msgType, dejavu, payload) :: reads)
            = exchangeEnd reads := List.find?_cons_of_neg (by rw [hskip]; exact Bool.false_ne_true)
        rw [hend]
        exact ih h

/-! ## One attempt

An attempt dials, sends its request and waits for the answer. What the peer and the network do is
given with the attempt, so that all of them are covered. -/

/-- How `TcpStream::connect` under its timeout ends. -/
inductive Dial where
  | connected
  | failed (cause : String)
  | timedOut
  deriving DecidableEq

/-- A turn of the exchange's read loop: `read_packet` runs to its end, the transport fails, or the
time is up before the read or during it. -/
inductive Wait where
  | read
  | readError (cause : String)
  | deadline
  | timeout

/-- What the turns of the loop see of a peer's stream. -/
def readsOf : Bytes → List Wait → List ResponseRead
  | _, [] => []
  | stream, .read :: waits =>
    match (Socket.mk stream []).readPacket with
    | (.ok packet, socket) => .packet packet :: readsOf socket.bytes waits
    | (.error _, socket) => .readError "early eof" :: readsOf socket.bytes waits
  | stream, .readError cause :: waits => .readError cause :: readsOf stream waits
  | stream, .deadline :: waits => .deadline :: readsOf stream waits
  | stream, .timeout :: waits => .timeout :: readsOf stream waits

/-- What the clock, the random draws, the network and the peer decide in one turn. -/
structure PeerAttempt where
  /-- For `best_peer`. -/
  now : Instant
  pick : Nat
  dial : Dial
  /-- For the exchange: its dejavu, the fate of the send, and what there is to read. -/
  draw : UInt32
  link : Except String Unit
  stream : Bytes
  waits : List Wait
  markedAt : Instant
  /-- For the tick request behind it. -/
  tickDraw : UInt32
  tickLink : Except String Unit
  tickReads : List ResponseRead

namespace PeerAttempt

def reads (a : PeerAttempt) : List ResponseRead := readsOf a.stream a.waits

/-- A complete packet of type 0 with 16 bytes came before the deadline. -/
def Answered (a : PeerAttempt) : Prop :=
  ∃ dejavu payload, exchangeEnd a.reads = some (.packet (0, dejavu, payload)) ∧
    payload.length ≥ 16

/-- The deadline passed before such a packet came. -/
def Expired (a : PeerAttempt) : Prop :=
  exchangeEnd a.reads = some .deadline ∨ exchangeEnd a.reads = some .timeout

/-- The connection was closed or failed before such a packet came. -/
def ReadFailed (a : PeerAttempt) : Prop := ∃ cause, exchangeEnd a.reads = some (.readError cause)

end PeerAttempt

/-! ## The loop over the peers

Each turn picks a peer and tries it. The loop goes on behind a peer that could not be reached, up to
`MAX_PEERS_PER_ATTEMPT` of them. -/

/-- Maximum number of peers to try per reconnection cycle. -/
def MAX_PEERS_PER_ATTEMPT : Nat := 8

/-- A call of `connect_and_read` between two turns. -/
structure Connecting where
  client : IngestionClient := {}
  peerManager : PeerManager
  ingestionConnected : Bool := false
  attempts : Nat := 0
  /-- The attempts that have ended, with the mark each left. -/
  marked : List (SocketAddr × Mark) := []

/-- How a turn of the loop goes on. -/
inductive PeerTurn where
  | next (s : Connecting)
  /-- The exchange or the tick request still waits. -/
  | waiting (s : Connecting) (addr : SocketAddr)
  /-- The read loop is entered. -/
  | reading (s : Connecting) (addr : SocketAddr)
  | failed (s : Connecting) (fault : Fault)

def PeerTurn.state : PeerTurn → Connecting
  | .next s => s
  | .waiting s _ => s
  | .reading s _ => s
  | .failed s _ => s

namespace Connecting

/-- `mark_failure(&addr)` and on to the next turn. -/
def fail (s : Connecting) (now : Instant) (addr : SocketAddr) : Connecting :=
  { s with
    peerManager := s.peerManager.markFailure now addr
    marked := s.marked ++ [(addr, .failure)] }

/-- The peers the node named join the list, and it is marked. -/
def succeed (s : Connecting) (now : Instant) (addr : SocketAddr) (remotePeers : List Ipv4) :
    Connecting :=
  { s with
    peerManager := (s.peerManager.addPeersFromExchange remotePeers).markSuccess now addr
    ingestionConnected := true
    marked := s.marked ++ [(addr, .success)] }

/-- The answer to the tick request, if it is long enough. -/
def setTick (s : Connecting) (data : Bytes) : Connecting :=
  if data.length ≥ 8 then
    let epoch := UInt16.fromLeBytes ((data.drop 2).take 2)
    let tick := UInt32.fromLeBytes ((data.drop 4).take 4)
    { s with
      client := { s.client with
        currentEpoch := epoch
        currentTick := tick
        pipeline := { s.client.pipeline with
          nodeTick := max s.client.pipeline.nodeTick tick
          nodeEpoch := max s.client.pipeline.nodeEpoch epoch } } }
  else s

/-- The tick request behind a handshake; its failure is not fatal. -/
def bootstrapTick (s : Connecting) (a : PeerAttempt) (addr : SocketAddr) : PeerTurn :=
  match (requestCurrentTickInfo a.tickDraw a.tickLink a.tickReads).waited with
  | .waiting => .waiting s addr
  | .returned (.ok data) _ => .reading (s.setTick data) addr
  | .returned (.error _) _ => .reading s addr

/-- One turn of the `while` loop. -/
def turn (s : Connecting) (a : PeerAttempt) : PeerTurn :=
  if s.attempts < MAX_PEERS_PER_ATTEMPT then
    match s.peerManager.bestPeer a.now a.pick with
    | none =>
      if s.attempts = 0 then .failed s (.err ["No peers available for connection"])
      else .failed s (.err [s!"Exhausted all peer candidates ({s.attempts} attempted)"])
    | some addr =>
      let s := { s with attempts := s.attempts + 1 }
      match a.dial with
      | .failed _ => .next (s.fail a.markedAt addr)
      | .timedOut => .next (s.fail a.markedAt addr)
      | .connected =>
        match (exchangePublicPeers noPeers a.draw a.link a.reads).waited with
        | .waiting => .waiting s addr
        | .returned (.error _) _ => .next (s.fail a.markedAt addr)
        | .returned (.ok remotePeers) _ =>
          (s.succeed a.markedAt addr remotePeers).bootstrapTick a addr
  else .failed s (.err [s!"Failed to connect after {s.attempts} peer attempts"])

/-- `connect_and_read` up to its read loop. -/
def connectAndRead (s : Connecting) : List PeerAttempt → PeerTurn
  | [] => .next s
  | a :: attempts =>
    match s.turn a with
    | .next s => s.connectAndRead attempts
    | turn => turn

/-- The outcomes of a turn. -/
inductive TurnCases (s : Connecting) (a : PeerAttempt) : PeerTurn → Prop where
  | exhausted (fault : Fault) (spent : ¬s.attempts < MAX_PEERS_PER_ATTEMPT) :
      TurnCases s a (.failed s fault)
  | noPeers (fault : Fault) (none_left : s.peerManager.bestPeer a.now a.pick = none) :
      TurnCases s a (.failed s fault)
  | refused (addr : SocketAddr) (more : s.attempts < MAX_PEERS_PER_ATTEMPT)
      (best : s.peerManager.bestPeer a.now a.pick = some addr)
      (broken : a.dial ≠ .connected ∨ a.link ≠ .ok ()) :
      TurnCases s a (.next (fail { s with attempts := s.attempts + 1 } a.markedAt addr))
  | awaiting (addr : SocketAddr) (dial : a.dial = .connected) (link : a.link = .ok ()) :
      TurnCases s a (.waiting { s with attempts := s.attempts + 1 } addr)
  | exchanged (addr : SocketAddr) (dial : a.dial = .connected) (link : a.link = .ok ())
      (remotePeers : List Ipv4) (rest : List ResponseRead)
      (ended : awaitPeers a.reads = .returned (.ok remotePeers) rest) :
      TurnCases s a (bootstrapTick
        (succeed { s with attempts := s.attempts + 1 } a.markedAt addr remotePeers) a addr)

/-- **One turn** of the loop: the turns are used up, there is no peer, the peer can not be reached,
it still has to answer, or the exchange with it has ended. -/
theorem turn_cases (s : Connecting) (a : PeerAttempt) : TurnCases s a (s.turn a) := by
  unfold turn
  by_cases hmore : s.attempts < MAX_PEERS_PER_ATTEMPT
  · rw [if_pos hmore]
    cases hbest : s.peerManager.bestPeer a.now a.pick with
    | none =>
      dsimp only
      split <;> exact .noPeers _ hbest
    | some addr =>
      dsimp only
      -- a peer that was picked is dialled, then sent the request
      cases hdial : a.dial with
      | failed cause => exact .refused addr hmore hbest (.inl (by rw [hdial]; exact nofun))
      | timedOut => exact .refused addr hmore hbest (.inl (by rw [hdial]; exact nofun))
      | connected =>
        cases hlink : a.link with
        | error cause => exact .refused addr hmore hbest (.inr (by rw [hlink]; exact nofun))
        | ok _ =>
          show TurnCases s a (match awaitPeers a.reads with
            | .waiting => _
            | .returned (.error _) _ => _
            | .returned (.ok remotePeers) _ => _)
          cases hwait : awaitPeers a.reads with
          | waiting => exact .awaiting addr hdial hlink
          | returned outcome rest =>
            rcases awaitPeers_returned hwait with ⟨r, peers, -, -, rfl⟩
            exact .exchanged addr hdial hlink peers rest hwait
  · rw [if_neg hmore]
    exact .exhausted _ hmore

/-- The tick request ends the call, whatever comes of it. -/
theorem bootstrapTick_ne_next (s : Connecting) (a : PeerAttempt) (addr : SocketAddr)
    (s' : Connecting) : s.bootstrapTick a addr ≠ .next s' := by
  unfold bootstrapTick
  split <;> exact nofun

/-- The tick request leaves the marks, their number and the flag as they are. -/
theorem bootstrapTick_record (s : Connecting) (a : PeerAttempt) (addr : SocketAddr) :
    (s.bootstrapTick a addr).state.marked = s.marked ∧
    (s.bootstrapTick a addr).state.ingestionConnected = s.ingestionConnected ∧
    (s.bootstrapTick a addr).state.attempts = s.attempts := by
  unfold bootstrapTick
  split
  · exact ⟨rfl, rfl, rfl⟩
  · unfold setTick
    split <;> exact ⟨rfl, rfl, rfl⟩
  · exact ⟨rfl, rfl, rfl⟩

/-- A turn behind which the loop does not go on ends the call. -/
theorem connectAndRead_of_ne_next {s : Connecting} {a : PeerAttempt} {t : PeerTurn}
    (hturn : s.turn a = t) (h : ∀ s', t ≠ .next s') (attempts : List PeerAttempt) :
    s.connectAndRead (a :: attempts) = t := by
  rw [connectAndRead, hturn]
  cases t with
  | next s' => exact absurd rfl (h s')
  | waiting s' addr => rfl
  | reading s' addr => rfl
  | failed s' fault => rfl

end Connecting

/-! ## Marks and handshakes

A mark is left right behind the exchange, before the tick request. The record of a call pairs each
mark with the attempt that left it, and it is built from the last turn backwards. -/

/-- What an attempt owes to the mark it leaves. -/
structure PeerAttempt.Leaves (a : PeerAttempt) (mark : Mark) : Prop where
  /-- A success stands for a handshake, if no read of it failed. -/
  success : mark = .success → a.dial = .connected ∧ a.link = .ok () ∧
    (¬a.ReadFailed → a.Answered ∨ a.Expired)
  /-- A connection that fails before there is anything to read is a failure. -/
  failure : a.dial ≠ .connected ∨ a.link ≠ .ok () → mark = .failure

/-- A packet that gives peers is of type 0 and holds four addresses. -/
theorem ResponseRead.peers?_packet {msgType : UInt8} {dejavu : UInt32} {payload : Bytes}
    (h : (ResponseRead.packet (msgType, dejavu, payload)).peers?.isSome) :
    msgType = 0 ∧ payload.length ≥ 16 := by
  by_contra hno
  rw [peers?, if_neg hno] at h
  exact Bool.false_ne_true h

/-- An exchange that returns was answered, ran out of time, or a read of it failed. -/
theorem PeerAttempt.exchange_ended {a : PeerAttempt} {outcome : Outcome (List Ipv4)}
    {rest : List ResponseRead} (h : awaitPeers a.reads = .returned outcome rest) :
    ¬a.ReadFailed → a.Answered ∨ a.Expired := by
  rcases awaitPeers_returned h with ⟨r, peers, hend, hpeers, -⟩
  intro hread
  cases r with
  | deadline => exact .inr (.inl hend)
  | timeout => exact .inr (.inr hend)
  | readError cause => exact absurd ⟨cause, hend⟩ hread
  | packet received =>
    rcases received with ⟨msgType, dejavu, payload⟩
    rcases ResponseRead.peers?_packet (by rw [hpeers]; rfl) with ⟨rfl, hlen⟩
    exact .inl ⟨dejavu, payload, hend, hlen⟩

namespace Connecting

/-- The record of a call: its first attempts have left the marks, and there is at most one more,
whose peer still has to answer. -/
structure Accounted (s : Connecting) (attempts : List PeerAttempt) (t : PeerTurn)
    (tried : List PeerAttempt) (left : List (SocketAddr × Mark)) : Prop where
  prefix' : tried <+: attempts
  record : t.state.marked = s.marked ++ left
  leaves : List.Forall₂ (fun a x => PeerAttempt.Leaves a x.2) tried left
  connected : t.state.ingestionConnected = (s.ingestionConnected || left.any (·.2 = .success))
  counted : t.state.attempts = s.attempts + left.length ∨
    t.state.attempts = s.attempts + left.length + 1 ∧
      ∃ a, tried ++ [a] <+: attempts ∧ a.dial = .connected ∧ a.link = .ok ()

/-- A call that ends at once leaves no mark. -/
theorem Accounted.nil {s : Connecting} {attempts : List PeerAttempt} {t : PeerTurn}
    (h : t.state = s) : Accounted s attempts t [] [] where
  prefix' := List.nil_prefix
  record := by rw [h, List.append_nil]
  leaves := .nil
  connected := by rw [h]; exact (Bool.or_false _).symm
  counted := .inl (by rw [h]; rfl)

/-- A marked turn in front of what follows it: the marks, the flag and the count of the rest are put
behind its own. -/
theorem Accounted.cons {s s' : Connecting} {a : PeerAttempt}
    {attempts tried : List PeerAttempt} {t : PeerTurn} {left : List (SocketAddr × Mark)}
    {addr : SocketAddr} {mark : Mark}
    (h : Accounted s' attempts t tried left) (hleaves : a.Leaves mark)
    (hmarked : s'.marked = s.marked ++ [(addr, mark)])
    (hconnected : s'.ingestionConnected = (s.ingestionConnected || mark = .success))
    (hcounted : s'.attempts = s.attempts + 1) :
    Accounted s (a :: attempts) t (a :: tried) ((addr, mark) :: left) where
  prefix' := (List.prefix_cons_inj a).mpr h.prefix'
  record := by rw [h.record, hmarked, List.append_assoc]; rfl
  leaves := .cons hleaves h.leaves
  connected := by rw [h.connected, hconnected, Bool.or_assoc]; rfl
  counted := by
    rw [List.length_cons]
    rcases h.counted with hall | ⟨hwait, a', hnext, hopen⟩
    · exact .inl (by omega)
    · exact .inr ⟨by omega, a', (List.prefix_cons_inj a).mpr hnext, hopen⟩

/-- **A call** accounts for every mark it leaves. The induction is on the attempts, from any state
of the loop. -/
theorem connectAndRead_accounted (s : Connecting) (attempts : List PeerAttempt) :
    ∃ tried left, Accounted s attempts (s.connectAndRead attempts) tried left := by
  induction attempts generalizing s with
  | nil => exact ⟨[], [], .nil rfl⟩
  | cons a attempts ih =>
    have hcases := turn_cases s a
    generalize hturn : s.turn a = t at hcases
    cases hcases with
    | exhausted fault spent =>
      rw [connectAndRead_of_ne_next hturn nofun]
      exact ⟨[], [], .nil rfl⟩
    | noPeers fault none_left =>
      rw [connectAndRead_of_ne_next hturn nofun]
      exact ⟨[], [], .nil rfl⟩
    | refused addr more best broken =>
      rw [connectAndRead, hturn]
      rcases ih (fail { s with attempts := s.attempts + 1 } a.markedAt addr) with ⟨tried, left, h⟩
      have hleaves : a.Leaves .failure := ⟨nofun, fun _ => rfl⟩
      exact ⟨_, _, h.cons hleaves rfl (Bool.or_false _).symm rfl⟩
    -- counted already, but not marked
    | awaiting addr dial link =>
      rw [connectAndRead_of_ne_next hturn nofun]
      refine ⟨[], [], List.nil_prefix, (List.append_nil _).symm, .nil, (Bool.or_false _).symm, ?_⟩
      exact .inr ⟨rfl, a, ⟨attempts, rfl⟩, dial, link⟩
    -- marked as a success, whatever the tick request comes to
    | exchanged addr dial link remotePeers rest ended =>
      rw [connectAndRead_of_ne_next hturn (bootstrapTick_ne_next _ a addr)]
      have hleaves : a.Leaves .success := by
        refine ⟨fun _ => ⟨dial, link, PeerAttempt.exchange_ended ended⟩, fun h => ?_⟩
        rcases h with h | h
        · exact absurd dial h
        · exact absurd link h
      rcases bootstrapTick_record
        (succeed { s with attempts := s.attempts + 1 } a.markedAt addr remotePeers) a addr
        with ⟨hmarked, hconnected, hattempts⟩
      exact ⟨_, _, (Accounted.nil rfl).cons hleaves hmarked
        (hconnected.trans (Bool.or_true _).symm) hattempts⟩

/-- A call begins with no attempt made. -/
def enter (client : IngestionClient) (peerManager : PeerManager) (ingestionConnected : Bool) :
    Connecting where
  client
  peerManager
  ingestionConnected

/-- **Marks and handshakes.** In every call, whatever the peers send and however connections and
reads fail, the attempts made have left one mark each, but for a last one whose peer still has to
answer. A success stands for a connection on which a peer response was received before the
deadline or the deadline passed, unless a read failed; `ingestion_connected` is set only with such
a mark; an attempt that cannot connect or send is marked as a failure. -/
theorem handshake_marks (client : IngestionClient) (m : PeerManager) (connected : Bool)
    (attempts : List PeerAttempt) :
    let s := ((enter client m connected).connectAndRead attempts).state
    ∃ tried, tried <+: attempts ∧
      List.Forall₂ (fun a x => PeerAttempt.Leaves a x.2) tried s.marked ∧
      s.ingestionConnected = (connected || s.marked.any (·.2 = .success)) ∧
      (s.attempts = s.marked.length ∨ s.attempts = s.marked.length + 1 ∧
        ∃ a, tried ++ [a] <+: attempts ∧ a.dial = .connected ∧ a.link = .ok ()) := by
  intro s
  rcases connectAndRead_accounted (enter client m connected) attempts with ⟨tried, left, h⟩
  have hrecord : s.marked = left := h.record
  have hcounted := h.counted
  rw [show (enter client m connected).attempts = 0 from rfl, Nat.zero_add] at hcounted
  rw [hrecord]
  exact ⟨tried, h.prefix', h.leaves, h.connected, hcounted⟩

/-! ## A silent peer

Whether a peer said anything is not asked before it is marked. -/

/-- A peer that accepts the connection and sends nothing. -/
def silentAttempt (wait : Wait) : PeerAttempt where
  now := 0
  pick := 0
  dial := .connected
  draw := 1
  link := .ok ()
  stream := []
  waits := [wait]
  markedAt := secs 5
  tickDraw := 1
  tickLink := .ok ()
  tickReads := [.timeout]

/-- The only known peer is silent. -/
def silentCall (wait : Wait) : Connecting :=
  ((enter {} (.new [localAddr]) false).connectAndRead [silentAttempt wait]).state

/-- A peer that sends nothing until the deadline, or closes the connection at once, is marked as a
success. -/
theorem silent_peer_marked :
    ((silentCall .timeout).marked = [(localAddr, .success)] ∧
      (silentCall .timeout).ingestionConnected = true ∧ ¬(silentAttempt .timeout).Answered) ∧
    (silentCall .read).marked = [(localAddr, .success)] ∧
      (silentCall .read).ingestionConnected = true ∧ ¬(silentAttempt .read).Answered := by
  refine ⟨⟨by decide +kernel, by decide +kernel, ?_⟩, by decide +kernel, by decide +kernel, ?_⟩
  · exact fun h => nomatch h.choose_spec.choose_spec.1
  · exact fun h => nomatch h.choose_spec.choose_spec.1

end Connecting

end Qonduit

import Reminisce.Library.Runs
import Reminisce.PeerRegistry

namespace Reminisce

def secs (n : Nat) : Time := n * nanosPerSec

/-- `UPDATE p2p_nodes SET is_active = FALSE WHERE last_seen < NOW() - INTERVAL '10 minutes'`. -/
def Database.markInactive (db : Database) (now : Time) : Database :=
  { db with p2pNodes := db.p2pNodes.map fun row =>
      if row.lastSeen + secs 600 < now then { row with isActive := false } else row }

/-- The rows of `p2p_nodes` with `is_active = true`, as far as their address parses. -/
def Database.activeRows (db : Database) : List (NodeId × SocketAddr) :=
  (db.p2pNodes.filter (·.isActive)).filterMap fun row => row.publicAddr.map (row.nodeId, ·)

/-- The `active_nodes` of a rebalance cycle, on which shards are placed. -/
def Database.placementTargets (db : Database) (now : Time) : List (NodeId × SocketAddr) :=
  ((db.p2pNodes.filter fun row => row.isActive ∧ now < row.lastSeen + secs 600).mergeSort
    fun a b => decide (a.nodeId ≤ b.nodeId)).filterMap fun row => row.publicAddr.map (row.nodeId, ·)

/-- `SELECT public_addr FROM p2p_nodes WHERE node_id = $1 AND is_active = true`. -/
def Database.nodeAddr (db : Database) (nodeId : NodeId) : Option SocketAddr :=
  (db.p2pNodes.find? fun row => row.nodeId = nodeId ∧ row.isActive).bind (·.publicAddr)

/-- The registry first, then the database, whose answer goes into the registry. The last
argument says whether the database answers. -/
def lookupNodeAddr (registry : PeerRegistry) (db : Database) (nodeId : NodeId) (now : Time)
    (dbUp : Bool) : Option SocketAddr × PeerRegistry :=
  match registry.get nodeId with
  | some peer => (some peer.addr, registry)
  | none =>
    match if dbUp then db.nodeAddr nodeId else none with
    | some addr => (some addr, registry.upsert nodeId addr now)
    | none => (none, registry)

/-- Who runs a pass over the nodes: the rebalance cycle, the status endpoint, the audit. -/
inductive Worker
  | rebalance
  | status
  | audit
  deriving DecidableEq, Repr

/-- Where such a pass stands: in `ensure_peers_registered`, before the query and in the loop of
`sync_db_nodes_to_registry`, or on to the placement. -/
inductive PassPhase
  | register (nodes : List (NodeId × SocketAddr))
  | query
  | sync (rows : List (NodeId × SocketAddr))
  | place (activeNodes : List (NodeId × SocketAddr))
  deriving DecidableEq, Repr

structure Pass where
  worker : Worker
  phase : PassPhase
  deriving DecidableEq, Repr

/-- Registry and database with the passes under way. `lastAnnounced` and `lastSweep` record
what happened and are read by no code. -/
structure PeerSystem where
  now : Time
  registry : PeerRegistry
  db : Database
  passes : List Pass
  lastAnnounced : NodeId → Option Time
  lastSweep : Option Time

inductive PeerEvent
  | announce (nodeId : NodeId) (addr : SocketAddr)
  | contact (nodeId : NodeId)
  | recordContact (nodeId : NodeId) (addr : SocketAddr)
  | sweep
  | start (worker : Worker)
  | advance (i : Nat)
  | dbError (i : Nat)
  | lookup (nodeId : NodeId) (dbUp : Bool)
  | restart
  | tick (nanos : Nat)

namespace PeerSystem

/-- The start of a server over a database that knows no node yet. -/
def init (db : Database) (admission : AdmissionPolicy) (now : Time) : PeerSystem :=
  { now, registry := PeerRegistry.new admission, db := { db with p2pNodes := [] }, passes := []
    lastAnnounced := fun _ => none, lastSweep := none }

def hear (s : PeerSystem) (nodeId : NodeId) : PeerSystem :=
  { s with lastAnnounced := fun n => if n = nodeId then some s.now else s.lastAnnounced n }

def discovered (s : PeerSystem) : List (NodeId × SocketAddr) :=
  s.registry.peers.map fun p => (p.nodeId, p.addr)

/-- The phase a worker begins in. Only one rebalance runs at a time, and the status endpoint
skips an empty registry. -/
def firstPhase (s : PeerSystem) : Worker → Option PassPhase
  | .rebalance =>
    if s.passes.any (·.worker = .rebalance) then none else some (.register s.discovered)
  | .status => if s.discovered = [] then none else some (.register s.discovered)
  | .audit => some .query

/-- One statement of a pass and the phase it goes on to. -/
def advance (s : PeerSystem) (worker : Worker) : PassPhase → PeerSystem × Option PassPhase
  | .register ((nodeId, addr) :: rest) =>
    ({ s with db := s.db.upsertNode nodeId addr s.now }, some (.register rest))
  | .register [] =>
    ({ s with db := s.db.markInactive s.now }, if worker = .rebalance then some .query else none)
  | .query => (s, some (.sync s.db.activeRows))
  | .sync ((nodeId, addr) :: rest) =>
    ({ s with registry := s.registry.upsert nodeId addr s.now }, some (.sync rest))
  | .sync [] =>
    (s, if worker = .rebalance then some (.place (s.db.placementTargets s.now)) else none)
  | .place _ => (s, none)

def setPhase (s : PeerSystem) (i : Nat) (worker : Worker) : Option PassPhase → PeerSystem
  | some phase => { s with passes := s.passes.set i ⟨worker, phase⟩ }
  | none => { s with passes := s.passes.eraseIdx i }

end PeerSystem

/-- One step of the system: a discovery packet or an entry of a coordinator's peer list, a
successful contact and its record in `p2p_nodes`, the hourly eviction, the passes, a lookup,
a restart of the server, the clock. -/
def peerStep (s : PeerSystem) : PeerEvent → Option PeerSystem
  | .announce nodeId addr =>
    some { s.hear nodeId with registry := s.registry.upsert nodeId addr s.now }
  | .contact nodeId => some (s.hear nodeId)
  | .recordContact nodeId addr => some { s with db := s.db.upsertNode nodeId addr s.now }
  | .sweep =>
    some { s with registry := s.registry.removeStale 3600 s.now, lastSweep := some s.now }
  | .start worker =>
    match s.firstPhase worker with
    | some phase => some { s with passes := s.passes ++ [⟨worker, phase⟩] }
    | none => none
  | .advance i =>
    match s.passes[i]? with
    | some pass =>
      let (after, next) := s.advance pass.worker pass.phase
      some (after.setPhase i pass.worker next)
    | none => none
  | .dbError i =>
    match s.passes[i]? with
    | some _ => some { s with passes := s.passes.eraseIdx i }
    | none => none
  | .lookup nodeId dbUp =>
    some { s with registry := (lookupNodeAddr s.registry s.db nodeId s.now dbUp).2 }
  | .restart =>
    some { s with registry := PeerRegistry.new s.registry.admission, passes := [] }
  | .tick nanos => some { s with now := s.now + nanos }

def PassPhase.restamps (admission : AdmissionPolicy) : PassPhase → Option NodeId
  | .register ((nodeId, _) :: _) => some nodeId
  | .sync ((nodeId, _) :: _) => if admission.allows nodeId then some nodeId else none
  | _ => none

/-- The node whose `last_seen` a step sets to the present without an announcement. -/
def restamped (s : PeerSystem) : PeerEvent → Option NodeId
  | .recordContact nodeId _ => some nodeId
  | .advance i => s.passes[i]?.bind fun pass => pass.phase.restamps s.registry.admission
  | .lookup nodeId dbUp =>
    if s.registry.get nodeId = none ∧ dbUp ∧ (s.db.nodeAddr nodeId).isSome ∧
      s.registry.admission.allows nodeId then some nodeId else none
  | _ => none

/-- A node is only re-stamped at an instant at which it announced itself. -/
def RestampsAnnounced (s : PeerSystem) (e : PeerEvent) : Prop :=
  ∀ nodeId, restamped s e = some nodeId → s.lastAnnounced nodeId = some s.now

/-- The node announced itself at the given time or later. -/
def PeerSystem.HeardSince (s : PeerSystem) (nodeId : NodeId) (time : Time) : Prop :=
  ∃ heard, s.lastAnnounced nodeId = some heard ∧ time ≤ heard

/-- No `last_seen` is later than the last announcement of its node. -/
structure LastSeenBounded (s : PeerSystem) : Prop where
  peers : ∀ p ∈ s.registry.peers, s.HeardSince p.nodeId p.lastSeen
  nodes : ∀ row ∈ s.db.p2pNodes, s.HeardSince row.nodeId row.lastSeen

end Reminisce

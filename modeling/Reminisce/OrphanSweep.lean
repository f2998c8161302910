import Reminisce.Fleet

namespace Reminisce

/-- The name a store is noted under: the node registered at the address, or the address. -/
inductive StoreOwner
  | node (nodeId : NodeId)
  | addr (addr : SocketAddr)
  deriving DecidableEq, Repr

abbrev RecentMap := List ((StoreOwner × List Char) × Time)

/-- `note_recent_store` and `is_recently_stored` each have a `static RECENT` of their own:
`noted` belongs to the first function, `checked` to the second. -/
structure RecentStores where
  noted : RecentMap
  checked : RecentMap
  deriving DecidableEq, Repr

/-- `GRACE`, fifteen minutes. -/
def grace : Time := secs (15 * 60)

def noteRecentStore (recent : RecentStores) (owner : StoreOwner) (shardHash : List Char)
    (now : Time) : RecentStores :=
  let kept := recent.noted.filter fun entry => now - entry.2 < grace
  if 50000 < kept.length then { recent with noted := kept }
  else
    { recent with
      noted := kept.filter (·.1 ≠ (owner, shardHash)) ++ [((owner, shardHash), now)] }

def isRecentlyStored (recent : RecentStores) (nodeId : NodeId) (shardHash : List Char)
    (now : Time) : Bool :=
  match recent.checked.find? (·.1 = (.node nodeId, shardHash)) with
  | some entry => now - entry.2 < grace
  | none => false

/-- The three ways a shard is sent to a node. -/
inductive UploadPath
  | storeShard
  | streamOneShard
  | uploadShardToNode
  deriving DecidableEq, Repr

/-- An acknowledged shard whose row is not committed yet. `swept` records that the sweep has
deleted it meanwhile. -/
structure PendingStore where
  path : UploadPath
  addr : SocketAddr
  shardHash : Digest
  ackedAt : Time
  swept : Bool
  deriving DecidableEq

/-- Where `sweep_storage_node_orphans` stands: before the next node, before the listing of
prefix `i` of a node, before the query for the listed shards, in the loop over them. -/
inductive SweepPhase
  | idle
  | nodes (todo : List NodeId)
  | list (nodeId : NodeId) (addr : SocketAddr) (i : Nat) (todo : List NodeId)
  | query (nodeId : NodeId) (addr : SocketAddr) (i : Nat) (hexShards : List (List Char))
    (todo : List NodeId)
  | prune (nodeId : NodeId) (addr : SocketAddr) (i : Nat) (hexShards validSet : List (List Char))
    (todo : List NodeId)

/-- Uploads and the sweep. `referenced` is the `shard_hash` column of `p2p_shards` and
`db_backup_shards`; `lost` collects the commits of shards that were swept before. -/
structure SweepState where
  now : Time
  registry : PeerRegistry
  db : Database
  fleet : Fleet
  referenced : List (List Char)
  recent : RecentStores
  pending : List PendingStore
  phase : SweepPhase
  lost : List PendingStore

inductive SweepEvent
  | acknowledge (path : UploadPath) (addr : SocketAddr) (data : Bytes)
  | receive (i : Nat)
  | commit (i : Nat)
  | abandon (i : Nat)
  | unreference (shardHash : List Char)
  | tick (nanos : Nat)
  | startSweep
  | visit (lookupUp : Bool)
  | list (answer : Option (List Digest))
  | query (succeeds : Bool)
  | prune (arrives : Bool)

/-- `format!("{:02x}", i)`. -/
def prefixHex (i : Nat) : List Char := [Hex.digit (i / 16), Hex.digit (i % 16)]

namespace SweepState

def init (registry : PeerRegistry) (db : Database) (fleet : Fleet) (referenced : List (List Char))
    (now : Time) : SweepState :=
  { now, registry, db, fleet, referenced, recent := ⟨[], []⟩, pending := [], phase := .idle
    lost := [] }

def ownerOf (s : SweepState) (addr : SocketAddr) : StoreOwner :=
  match s.registry.peers.find? (·.addr = addr) with
  | some peer => .node peer.nodeId
  | none => .addr addr

/-- Only `store_shard` notes the stores it hears an acknowledgement of. -/
def receive (s : SweepState) (store : PendingStore) : SweepState :=
  match store.path with
  | .storeShard =>
    { s with recent := noteRecentStore s.recent (s.ownerOf store.addr) (toHex store.shardHash) s.now }
  | _ => s

/-- The next of the 256 prefixes, or the next node. -/
def nextPrefix (nodeId : NodeId) (addr : SocketAddr) (i : Nat) (todo : List NodeId) : SweepPhase :=
  if i < 255 then .list nodeId addr (i + 1) todo else .nodes todo

/-- A delete that reaches the server. -/
def deleteShard (s : SweepState) (addr : SocketAddr) (shardHash : Digest) : SweepState :=
  { s with
    fleet := s.fleet.remove addr shardHash
    pending := s.pending.map fun p =>
      if p.addr = addr ∧ p.shardHash = shardHash then { p with swept := true } else p }

/-- One turn of the innermost loop of the sweep. -/
def pruneStep (s : SweepState) (nodeId : NodeId) (addr : SocketAddr) (i : Nat)
    (validSet : List (List Char)) (todo : List NodeId) (arrives : Bool) :
    List (List Char) → SweepState
  | [] => { s with phase := nextPrefix nodeId addr i todo }
  | hex :: rest =>
    let s := { s with phase := .prune nodeId addr i rest validSet todo }
    if hex ∈ validSet ∨ isRecentlyStored s.recent nodeId hex s.now then s
    else
      match parseShardHash hex with
      | none => s
      | some shardHash =>
        if arrives ∧ s.fleet.reachable s.registry addr then s.deleteShard addr shardHash else s

end SweepState

/-- One step of the uploads, the clock or the sweep. A listing names shards that the node
stores under the prefix, and a row is committed within the grace period. -/
def sweepStep (P : Primitives) (s : SweepState) : SweepEvent → Option SweepState
  | .acknowledge path addr data =>
    if s.fleet.reachable s.registry addr ∧ data.length ≤ maxShardBytes then
      some { s with
        fleet := s.fleet.put addr (P.blake3 data) data
        pending := s.pending ++ [⟨path, addr, P.blake3 data, s.now, false⟩] }
    else none
  | .receive i => s.pending[i]?.map s.receive
  | .commit i =>
    match s.pending[i]? with
    | some store =>
      if s.now - store.ackedAt < grace then
        some { s with
          referenced := s.referenced ++ [toHex store.shardHash]
          pending := s.pending.eraseIdx i
          lost := if store.swept then s.lost ++ [store] else s.lost }
      else none
    | none => none
  | .abandon i => some { s with pending := s.pending.eraseIdx i }
  | .unreference shardHash => some { s with referenced := s.referenced.filter (· ≠ shardHash) }
  | .tick nanos => some { s with now := s.now + nanos }
  | .startSweep =>
    match s.phase with
    | .idle =>
      some { s with phase := .nodes ((s.db.p2pNodes.filter (·.isActive)).map (·.nodeId)) }
    | _ => none
  | .visit lookupUp =>
    match s.phase with
    | .nodes [] => some { s with phase := .idle }
    | .nodes (nodeId :: todo) =>
      match lookupNodeAddr s.registry s.db nodeId s.now lookupUp with
      | (some addr, registry) => some { s with registry, phase := .list nodeId addr 0 todo }
      | (none, registry) => some { s with registry, phase := .nodes todo }
    | _ => none
  | .list answer =>
    match s.phase with
    | .list nodeId addr i todo =>
      match answer with
      | none => some { s with phase := SweepState.nextPrefix nodeId addr i todo }
      | some shards =>
        if shards.all fun h => (s.fleet.shards addr h).isSome ∧ (toHex h).take 2 = prefixHex i then
          some { s with
            phase := if shards = [] then SweepState.nextPrefix nodeId addr i todo
              else .query nodeId addr i (shards.map toHex) todo }
        else none
    | _ => none
  | .query succeeds =>
    match s.phase with
    | .query nodeId addr i hexShards todo =>
      if succeeds then
        some { s with
          phase := .prune nodeId addr i hexShards (hexShards.filter (· ∈ s.referenced)) todo }
      else some { s with phase := .idle }
    | _ => none
  | .prune arrives =>
    match s.phase with
    | .prune nodeId addr i hexShards validSet todo =>
      some (s.pruneStep nodeId addr i validSet todo arrives hexShards)
    | _ => none

/-- The sweep and an upload keep out of each other's way: when the sweep asks which of the
listed shards are referenced, none of the others is an uncommitted upload to that server; and
no shard that it is about to delete there is acknowledged meanwhile. -/
def SweepExcludesUploads (P : Primitives) (s : SweepState) : SweepEvent → Prop
  | .query true =>
    match s.phase with
    | .query _ addr _ hexShards _ => ∀ p ∈ s.pending, p.addr = addr →
      toHex p.shardHash ∈ hexShards → toHex p.shardHash ∈ s.referenced
    | _ => True
  | .acknowledge _ addr data =>
    match s.phase with
    | .prune _ swept _ hexShards validSet _ => addr = swept →
      toHex (P.blake3 data) ∈ hexShards → toHex (P.blake3 data) ∈ validSet
    | _ => True
  | _ => True

end Reminisce

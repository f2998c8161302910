import Reminisce.PeerSync
import Reminisce.Restore

namespace Reminisce

/-- The storage servers, by the address they listen on: the file at each shard path and the
node id in the certificate. -/
structure Fleet where
  shards : SocketAddr → Digest → Option Bytes
  identityAt : SocketAddr → Option NodeId

namespace Fleet

def put (fleet : Fleet) (addr : SocketAddr) (shardHash : Digest) (data : Bytes) : Fleet :=
  { fleet with shards := fun a h => if a = addr ∧ h = shardHash then some data else fleet.shards a h }

def remove (fleet : Fleet) (addr : SocketAddr) (shardHash : Digest) : Fleet :=
  { fleet with shards := fun a h => if a = addr ∧ h = shardHash then none else fleet.shards a h }

/-- `connect_to_addr` can succeed: it takes some registered node id at the address and binds
the connection to that certificate. -/
def reachable (fleet : Fleet) (registry : PeerRegistry) (addr : SocketAddr) : Bool :=
  registry.peers.any fun p => p.addr = addr ∧ fleet.identityAt addr = some p.nodeId

/-- The server at the address holds bytes with the recorded hash. -/
def holds (P : Primitives) (fleet : Fleet) (addr : SocketAddr) (shardHash : List Char) : Bool :=
  match parseShardHash shardHash with
  | none => false
  | some h => (fleet.shards addr h).any fun bytes => toHex (P.blake3 bytes) = shardHash

end Fleet

/-- The address `lookup_node_addr` gives when the database answers. -/
def nodeAddrOf (registry : PeerRegistry) (db : Database) (nodeId : NodeId) : Option SocketAddr :=
  match registry.get nodeId with
  | some peer => some peer.addr
  | none => db.nodeAddr nodeId

/-- The node that the row names holds bytes with the recorded hash. -/
def shardRetrievable (P : Primitives) (registry : PeerRegistry) (db : Database) (fleet : Fleet)
    (row : ShardRow) : Bool :=
  (nodeAddrOf registry db row.nodeId).any fun addr => fleet.holds P addr row.shardHash

/-- The errors of `p2p_error.rs` that a retrieval can end in. -/
inductive P2pError
  | connect (addr : SocketAddr)
  | openBidirectional (addr : SocketAddr)
  | receive
  | shardNotFound
  | invalidShardHash (hash : List Char)
  deriving DecidableEq, Repr

/-- Which of the exchanges of one retrieval get through. A streamed exchange that does not, or
that an older node does not know, leaves the connection open for the single frame. -/
structure RetrieveFaults where
  connected : Bool
  streamed : Bool
  singleFrame : Bool
  deriving DecidableEq, Repr

/-- The legacy `RetrieveShardRequest`, whose bytes nobody checks. -/
def retrieveSingleFrame (faults : RetrieveFaults) (held : Option Bytes) : Except P2pError Bytes :=
  if faults.singleFrame then
    match held with
    | some data => .ok data
    | none => .error .shardNotFound
  else .error .receive

/-- `retrieve_shard` against a server that holds `held` at the shard path. The stream is
checked against the requested hash; a mismatch closes the connection, so that the single
frame cannot be tried any more. -/
def retrieveShard (P : Primitives) (faults : RetrieveFaults) (addr : SocketAddr)
    (shardHashHex : List Char) (held : Digest → Option Bytes) : Except P2pError Bytes :=
  match parseShardHash shardHashHex with
  | none => .error (.invalidShardHash shardHashHex)
  | some shardHash =>
    if faults.connected then
      if faults.streamed then
        match held shardHash with
        | none => .error .shardNotFound
        | some data =>
          if P.blake3 data = shardHash then .ok data else .error (.openBidirectional addr)
      else retrieveSingleFrame faults (held shardHash)
    else .error (.connect addr)

/-- `retrieve_shard` from the server at the address. -/
def Fleet.retrieve (P : Primitives) (fleet : Fleet) (registry : PeerRegistry) (addr : SocketAddr)
    (shardHashHex : List Char) (faults : RetrieveFaults) : Except P2pError Bytes :=
  retrieveShard P { faults with connected := faults.connected && fleet.reachable registry addr }
    addr shardHashHex (fleet.shards addr)

/-- What becomes of an upload: the node may have stored the shard although no answer arrives. -/
inductive UploadOutcome
  | failed
  | unacknowledged
  | acknowledged
  deriving DecidableEq, Repr

/-- `upload_shard_to_node`: the servers afterwards, and the hash when the node answers. -/
def uploadShardToNode (P : Primitives) (fleet : Fleet) (registry : PeerRegistry)
    (addr : SocketAddr) (shardData : Bytes) (outcome : UploadOutcome) :
    Fleet × Option (List Char) :=
  if outcome = .failed ∨ ¬fleet.reachable registry addr ∨ maxShardBytes < shardData.length then
    (fleet, none)
  else
    (fleet.put addr (P.blake3 shardData) shardData,
      if outcome = .acknowledged then some (toHex (P.blake3 shardData)) else none)

namespace Fleet

variable {P : Primitives} {fleet : Fleet} {addr other : SocketAddr} {shardHash : List Char}
  {h : Digest}

theorem holds_iff : fleet.holds P addr shardHash ↔ ∃ bytes,
    fleet.shards addr (P.blake3 bytes) = some bytes ∧ toHex (P.blake3 bytes) = shardHash := by
  constructor
  · intro hheld
    unfold holds at hheld
    split at hheld
    next => simp at hheld
    next h hparse =>
      obtain ⟨bytes, hbytes, heq⟩ := (Option.any_eq_true _ _).mp hheld
      have hhex : toHex (P.blake3 bytes) = shardHash := of_decide_eq_true heq
      rw [← hhex, parseShardHash_toHex] at hparse
      exact ⟨bytes, by rw [Option.some.inj hparse, hbytes], hhex⟩
  · rintro ⟨bytes, hbytes, rfl⟩
    simp [holds, hbytes]

theorem holds_put_self {data : Bytes} :
    (fleet.put addr (P.blake3 data) data).holds P addr (toHex (P.blake3 data)) :=
  holds_iff.mpr ⟨data, by simp [put], rfl⟩

/-- Storing bytes under their own hash takes no held shard away. -/
theorem holds_put {data : Bytes} (hheld : fleet.holds P other shardHash) :
    (fleet.put addr (P.blake3 data) data).holds P other shardHash := by
  obtain ⟨bytes, hbytes, rfl⟩ := holds_iff.mp hheld
  by_cases hsame : other = addr ∧ P.blake3 bytes = P.blake3 data
  · rw [hsame.1, hsame.2]
    exact holds_put_self
  · exact holds_iff.mpr ⟨bytes, by simp only [put, if_neg hsame, hbytes], rfl⟩

theorem holds_remove : (fleet.remove addr h).holds P other shardHash ↔
    fleet.holds P other shardHash ∧ ¬(other = addr ∧ shardHash = toHex h) := by
  simp only [holds_iff, remove]
  constructor
  · rintro ⟨bytes, hbytes, rfl⟩
    split at hbytes
    next => simp at hbytes
    next hne =>
      refine ⟨⟨bytes, hbytes, rfl⟩, fun hsame => hne ⟨hsame.1, toHex_injective hsame.2⟩⟩
  · rintro ⟨⟨bytes, hbytes, rfl⟩, hne⟩
    exact ⟨bytes, by rw [if_neg fun hsame => hne ⟨hsame.1, congrArg toHex hsame.2⟩, hbytes], rfl⟩

end Fleet

theorem shardRetrievable_iff {P : Primitives} {registry : PeerRegistry} {db : Database}
    {fleet : Fleet} {row : ShardRow} : shardRetrievable P registry db fleet row ↔ ∃ addr,
    nodeAddrOf registry db row.nodeId = some addr ∧ fleet.holds P addr row.shardHash := by
  simp [shardRetrievable, Option.any_eq_true]

/-- An upload takes no held shard away, and an acknowledged one is held. -/
theorem uploadShardToNode_spec {P : Primitives} {fleet : Fleet} {registry : PeerRegistry}
    {addr : SocketAddr} {shardData : Bytes} {outcome : UploadOutcome} {after : Fleet}
    {answer : Option (List Char)}
    (h : uploadShardToNode P fleet registry addr shardData outcome = (after, answer)) :
    (∀ other shardHash, fleet.holds P other shardHash → after.holds P other shardHash) ∧
      ∀ newShardHash, answer = some newShardHash →
        newShardHash = toHex (P.blake3 shardData) ∧ after.holds P addr newShardHash := by
  unfold uploadShardToNode at h
  split at h
  next =>
    cases h
    exact ⟨fun _ _ hheld => hheld, by simp⟩
  next =>
    cases h
    refine ⟨fun _ _ hheld => Fleet.holds_put hheld, fun newShardHash hanswer => ?_⟩
    split at hanswer
    next =>
      cases Option.some.inj hanswer
      exact ⟨rfl, Fleet.holds_put_self⟩
    next => simp at hanswer

theorem lookupNodeAddr_fst {registry : PeerRegistry} {db : Database} {nodeId : NodeId} {now : Time}
    {dbUp : Bool} {addr : SocketAddr}
    (h : (lookupNodeAddr registry db nodeId now dbUp).1 = some addr) :
    nodeAddrOf registry db nodeId = some addr := by
  unfold lookupNodeAddr at h
  cases hget : registry.get nodeId with
  | some peer => simpa [nodeAddrOf, hget] using h
  | none =>
    simp only [nodeAddrOf, hget] at h ⊢
    split at h
    next found hfound =>
      cases Option.some.inj h
      cases dbUp with
      | false => simp at hfound
      | true => exact hfound
    next => simp at h

/-- A lookup changes the address of no node. -/
theorem nodeAddrOf_lookup (registry : PeerRegistry) (db : Database) (nodeId other : NodeId)
    (now : Time) (dbUp : Bool) :
    nodeAddrOf (lookupNodeAddr registry db nodeId now dbUp).2 db other =
      nodeAddrOf registry db other := by
  unfold lookupNodeAddr
  split
  next => rfl
  next hget =>
    split
    next addr haddr =>
      have hdb : db.nodeAddr nodeId = some addr := by
        cases dbUp with
        | false => simp at haddr
        | true => exact haddr
      simp only [PeerRegistry.upsert, hget]
      split
      next =>
        by_cases hid : other = nodeId
        · rw [hid]
          simp only [nodeAddrOf, hget, hdb]
          rw [PeerRegistry.get_insert_self registry ⟨nodeId, addr, now⟩]
        · unfold nodeAddrOf
          rw [PeerRegistry.get_insert_ne hid]
      next => rfl
    next => rfl

end Reminisce

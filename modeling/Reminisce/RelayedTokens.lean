import Reminisce.Library.Overwrites
import Reminisce.StorageNode

namespace Reminisce

open Overwrites

/-- A place of the shard map, or of the pinned map, whose objects are kept by the hash of their
name. -/
inductive MapKey
  | shard (shardHash : Digest)
  | pinned (nameHash : Digest)
  deriving DecidableEq

abbrev NodeMaps := MapKey → Option Bytes

/-- What a node receives on one stream: the first message and the frames after it. -/
structure NodeMessage where
  request : NodeRequest
  frames : List NodeFrame

/-- The shard that a streamed upload ends with. Without a chunk there is no temporary file to
finalize. -/
def receivedShard (cfg : NodeConfig) : Option Bytes → List NodeFrame → Option (Digest × Bytes)
  | received, .chunk data :: frames =>
    if maxShardBytes < (received.getD [] ++ data).length then none
    else receivedShard cfg (some (received.getD [] ++ data)) frames
  | some received, .final shardHash :: _ =>
    if cfg.blake3 received = shardHash then some (shardHash, received) else none
  | _, _ => none

/-- The entry that a message sets in the maps when the disk serves the task it is handed to. -/
def messageWrite (cfg : NodeConfig) (env : NodeEnv) (msg : NodeMessage) :
    Option (MapKey × Option Bytes) :=
  match (handleRequest cfg env (List.Vector.replicate 16 0) msg.request).1 with
  | some (.storePrepare shardHash data) => some (.shard shardHash, some data)
  | some (.receiving _ _) =>
    (receivedShard cfg none msg.frames).map fun stored => (.shard stored.1, some stored.2)
  | some (.deleteCheck shardHash) => some (.shard shardHash, none)
  | some (.pinnedCreate name data) => some (.pinned (cfg.blake3 (utf8 name)), some data)
  | _ => none

/-- What the owner asks of a node. -/
inductive OwnerRequest
  | storeShard (data : Bytes)
  | storeShardStream (fileHash : Digest) (shardIndex : UInt8) (totalShardBytes : UInt64)
      (chunks : List Bytes)
  | retrieveShard (shardHash : Digest)
  | retrieveShardStream (shardHash : Digest)
  | deleteShard (shardHash : Digest)
  | storePinnedObject (name : String) (data : Bytes)
  | getPinnedObject (name : String)
  | listShards (dir : Option String)
  deriving DecidableEq

structure OwnerMessage where
  request : OwnerRequest
  timestamp : UInt64
  deriving DecidableEq

def OwnerRequest.op : OwnerRequest → ShardOp
  | .storeShard _ => .store
  | .storeShardStream _ _ _ _ => .store
  | .retrieveShard _ => .retrieve
  | .retrieveShardStream _ => .retrieve
  | .deleteShard _ => .delete
  | .storePinnedObject _ _ => .store
  | .getPinnedObject _ => .retrieve
  | .listShards _ => .list

/-- The hash that the token of a request is made for. -/
def OwnerRequest.target (cfg : NodeConfig) : OwnerRequest → Digest
  | .storeShard data => cfg.blake3 data
  | .storeShardStream fileHash shardIndex _ _ => streamBinding cfg fileHash shardIndex
  | .retrieveShard shardHash => shardHash
  | .retrieveShardStream shardHash => shardHash
  | .deleteShard shardHash => shardHash
  | .storePinnedObject name _ => cfg.blake3 (utf8 name)
  | .getPinnedObject name => cfg.blake3 (utf8 name)
  | .listShards dir => cfg.blake3 (utf8 (dir.getD ""))

/-- The frames of an honest upload: the chunks and the hash of them all. -/
def uploadFrames (cfg : NodeConfig) (chunks : List Bytes) : List NodeFrame :=
  chunks.map .chunk ++ [.final (cfg.blake3 chunks.flatten)]

def OwnerRequest.message (cfg : NodeConfig) (token : ShardToken) : OwnerRequest → NodeMessage
  | .storeShard data => ⟨.storeShard (cfg.blake3 data) data token, []⟩
  | .storeShardStream fileHash shardIndex totalShardBytes chunks =>
    ⟨.storeShardStreamInit fileHash shardIndex totalShardBytes token, uploadFrames cfg chunks⟩
  | .retrieveShard shardHash => ⟨.retrieveShard shardHash token, []⟩
  | .retrieveShardStream shardHash => ⟨.retrieveShardStreamInit shardHash token, []⟩
  | .deleteShard shardHash => ⟨.deleteShard shardHash token, []⟩
  | .storePinnedObject name data => ⟨.storePinnedObject name data token, []⟩
  | .getPinnedObject name => ⟨.getPinnedObject name token, []⟩
  | .listShards dir => ⟨.listShards dir token, []⟩

/-- The node belongs to the owner of the key. -/
def NodeConfig.ownedBy (cfg : NodeConfig) (key : Digest) : NodeConfig :=
  { cfg with allowedOwnerId := some (cfg.scheme.publicKey key) }

def OwnerMessage.token (cfg : NodeConfig) (key : Digest) (m : OwnerMessage) : ShardToken :=
  createShardToken cfg.scheme key m.request.op (m.request.target cfg) m.timestamp

def OwnerMessage.message (cfg : NodeConfig) (key : Digest) (m : OwnerMessage) : NodeMessage :=
  m.request.message cfg (m.token cfg key)

/-- The node at the second of a token. -/
def envAt (timestamp : UInt64) : NodeEnv :=
  { now := timestamp.toNat * 10 ^ 9, pid := 0, seq := 0, space := .ok 0 }

/-- What a message of the owner sets when it comes in time. -/
def ownerWrite (cfg : NodeConfig) (key : Digest) (m : OwnerMessage) :
    Option (MapKey × Option Bytes) :=
  messageWrite (cfg.ownedBy key) (envAt m.timestamp) (m.message cfg key)

/-- Some of the owner's messages, in some order, lead from the maps `before` to `after`. -/
def Producible (cfg : NodeConfig) (key : Digest) (sent : List OwnerMessage)
    (before after : NodeMaps) : Prop :=
  ∃ chosen : List OwnerMessage, chosen.Subperm sent ∧
    after = runWrites (ownerWrite cfg key) before chosen

/-- A message as the relay hands it to the node, at a time of its choice. -/
structure Delivery where
  env : NodeEnv
  message : NodeMessage

def afterDeliveries (cfg : NodeConfig) (key : Digest) (maps : NodeMaps)
    (deliveries : List Delivery) : NodeMaps :=
  runWrites (fun d : Delivery => messageWrite (cfg.ownedBy key) d.env d.message) maps deliveries

/-- The operation, the hash and the token that the handler of a request checks. -/
def NodeRequest.authority (cfg : NodeConfig) : NodeRequest → Option (ShardOp × Digest × ShardToken)
  | .storeShard shardHash _ token => some (.store, shardHash, token)
  | .storeShardStreamInit fileHash shardIndex _ token =>
    some (.store, streamBinding cfg fileHash shardIndex, token)
  | .retrieveShard shardHash token => some (.retrieve, shardHash, token)
  | .retrieveShardStreamInit shardHash token => some (.retrieve, shardHash, token)
  | .deleteShard shardHash token => some (.delete, shardHash, token)
  | .storePinnedObject name _ token => some (.store, cfg.blake3 (utf8 name), token)
  | .getPinnedObject name token => some (.retrieve, cfg.blake3 (utf8 name), token)
  | .listShards dir token => some (.list, cfg.blake3 (utf8 (dir.getD "")), token)
  | _ => none

/-- The owner signed a token for the operation on the hash at that time. -/
def Issued (cfg : NodeConfig) (sent : List OwnerMessage) (op : ShardOp) (hash : Digest)
    (timestamp : UInt64) : Prop :=
  ∃ m ∈ sent, m.request.op = op ∧ m.request.target cfg = hash ∧ m.timestamp = timestamp

/-- No signature of the owner under a token message that the owner has not signed. -/
def Unforged (cfg : NodeConfig) (key : Digest) (sent : List OwnerMessage)
    (deliveries : List Delivery) : Prop :=
  ∀ d ∈ deliveries, ∀ op hash token, d.message.request.authority cfg = some (op, hash, token) →
    verifySignature cfg.scheme (cfg.scheme.publicKey key) (tokenMessage op hash token.timestamp)
      token.signature = true → Issued cfg sent op hash token.timestamp

/-- No two different shards of the owner and the relay have one hash. -/
def ShardsApart (cfg : NodeConfig) (sent : List OwnerMessage) (deliveries : List Delivery) : Prop :=
  ∀ d ∈ deliveries, ∀ m ∈ sent, ∀ shardHash data token data',
    d.message.request = .storeShard shardHash data token → m.request = .storeShard data' →
      cfg.blake3 data = cfg.blake3 data' → data = data'

/-- The message is of the kind of the owner's request; a pinned object is the owner's, and a
streamed upload within the cap ends with the shard of an upload that the owner declared within the
cap, or with none. -/
def SameUse (cfg : NodeConfig) (msg : NodeMessage) : OwnerRequest → Prop
  | .storeShard _ => ∃ shardHash data token, msg.request = .storeShard shardHash data token
  | .storeShardStream _ _ declared chunks =>
    ∃ fileHash shardIndex total token,
      msg.request = .storeShardStreamInit fileHash shardIndex total token ∧
      (maxRetrievable < total.toNat ∨ receivedShard cfg none msg.frames = none ∨
        declared.toNat ≤ maxRetrievable ∧
          receivedShard cfg none msg.frames = receivedShard cfg none (uploadFrames cfg chunks))
  | .storePinnedObject _ data => ∃ name token, msg.request = .storePinnedObject name data token
  | _ => False

/-- A store token that the node accepts is used as one of the messages it was issued for. -/
def UsedAsIssued (cfg : NodeConfig) (key : Digest) (sent : List OwnerMessage) (d : Delivery) :
    Prop :=
  ∀ hash token, d.message.request.authority cfg = some (.store, hash, token) →
    (cfg.ownedBy key).allows d.env token .store hash = true →
      ∃ m ∈ sent, m.request.target cfg = hash ∧ SameUse cfg d.message m.request

end Reminisce

import Reminisce.Identity
import Reminisce.ShardMap
import Reminisce.Upload

namespace Reminisce

open FileSystem

def protocolVersion : String := "0.3.0"

def maxMessageLen : Nat := 128 * 1024 * 1024

/-- What a storage node is started with. -/
structure NodeConfig where
  blake3 : Bytes → Digest
  scheme : SigningScheme
  nodeId : Digest
  allowedOwnerId : Option Digest

/-- The first message of a stream; `other` is any message without a handler. -/
inductive NodeRequest
  | handshake (nodeId : Digest) (version : String)
  | storeShard (shardHash : Digest) (data : Bytes) (token : ShardToken)
  | storeShardStreamInit (fileHash : Digest) (shardIndex : UInt8) (totalShardBytes : UInt64)
      (token : ShardToken)
  | retrieveShard (shardHash : Digest) (token : ShardToken)
  | retrieveShardStreamInit (shardHash : Digest) (token : ShardToken)
  | heartbeat (availableSpaceBytes : UInt64)
  | deleteShard (shardHash : Digest) (token : ShardToken)
  | storePinnedObject (name : String) (data : Bytes) (token : ShardToken)
  | getPinnedObject (name : String) (token : ShardToken)
  | listShards (dir : Option String) (token : ShardToken)
  | other

/-- What a node sends. `retrieveShardStream` stands for the chunks of a streamed retrieval
and the hash that ends them. -/
inductive NodeReply
  | handshakeAck (nodeId : Digest)
  | storeShardResponse (shardHash : Digest) (success : Bool) (availableSpaceBytes : Nat)
  | storeShardStreamAck (ready : Bool)
  | storeShardStreamResponse (success : Bool) (availableSpaceBytes : Nat)
  | retrieveShardResponse (shardHash : Digest) (data : Option Bytes)
  | retrieveShardStreamAck (found : Bool) (totalBytes : Nat)
  | retrieveShardStream (requested : Digest) (chunks : List Bytes) (shardHash : Digest)
  | deleteShardResponse (shardHash : Digest) (success : Bool)
  | storePinnedResponse (success : Bool)
  | pinnedObjectResponse (data : Option Bytes)
  | listShardsResponse (dir : Option String) (shards : List Digest) (availableSpaceBytes : Nat)
  | error (code : Nat) (message : String)
  deriving DecidableEq

/-- What a streamed upload waits for; `broken` is any other message or a failed receive. -/
inductive NodeFrame
  | chunk (data : Bytes)
  | final (shardHash : Digest)
  | broken
  | timeout

inductive ReadTarget
  | shard (shardHash : Digest)
  | shardStream (shardHash : Digest)
  | pinned (name : String)

/-- One `handle_stream` between two effects. A task that writes has its file open under the
number `ino`; `received` are the bytes the hasher has seen. -/
inductive NodeTask
  | storePrepare (shardHash : Digest) (data : Bytes)
  | storeCreate (shardHash : Digest) (data : Bytes) (tmp : DiskPath)
  | storeWrite (shardHash : Digest) (tmp : DiskPath) (ino : Nat) (todo : Bytes)
  | storeCleanup (shardHash : Digest) (tmp : DiskPath)
  | receiving (tmp : DiskPath) (received : Bytes)
  | chunkOpen (tmp : DiskPath) (received data : Bytes)
  | chunkWrite (tmp : DiskPath) (received : Bytes) (ino : Nat) (todo : Bytes)
  | streamDiscard (tmp : DiskPath) (answer : Bool)
  | finalizeOpen (tmp : DiskPath) (received : Bytes) (shardHash : Digest)
  | finalizeRename (tmp : DiskPath) (shardHash : Digest)
  | readCheck (target : ReadTarget)
  | readMetadata (shardHash : Digest)
  | readOpen (target : ReadTarget) (totalBytes : Nat)
  | reading (target : ReadTarget) (ino : Nat) (chunks : List Bytes)
  | deleteCheck (shardHash : Digest)
  | deleteRemove (shardHash : Digest)
  | pinnedCreate (name : String) (data : Bytes)
  | pinnedWrite (name : String) (ino offset : Nat) (todo : Bytes)
  | listing (dir : Option String) (todo : List (List Char)) (found : List Digest)

/-- How the next effect of a task goes: a message arrives, an operation succeeds (a write or
a read moves `n + 1` bytes or what is left), or it returns an error. -/
inductive TaskInput
  | frame (frame : NodeFrame)
  | io (n : Nat)
  | fail

/-- The clock in nanoseconds, the process and its `SEQ` counter, and the free space. -/
structure NodeEnv where
  now : Nat
  pid : Nat
  seq : Nat
  space : Except String Nat

/-- What a task does in one step. Without a next task it is over. -/
structure TaskOutcome where
  disk : ShardDisk
  seq : Nat
  next : Option NodeTask
  sent : List NodeReply
  op : Option StoreOp

def ReadTarget.path (cfg : NodeConfig) : ReadTarget → DiskPath
  | .shard shardHash => getShardPath shardHash
  | .shardStream shardHash => getShardPath shardHash
  | .pinned name => pinnedPath cfg.blake3 name

def ReadTarget.missing : ReadTarget → NodeReply
  | .shard shardHash => .retrieveShardResponse shardHash none
  | .shardStream _ => .retrieveShardStreamAck false 0
  | .pinned _ => .pinnedObjectResponse none

def ReadTarget.answer (cfg : NodeConfig) (chunks : List Bytes) : ReadTarget → NodeReply
  | .shard shardHash => .retrieveShardResponse shardHash (some chunks.flatten)
  | .shardStream shardHash =>
    .retrieveShardStream shardHash chunks (cfg.blake3 chunks.flatten)
  | .pinned _ => .pinnedObjectResponse (some chunks.flatten)

/-- What a retrieval asks of the map; pinned objects are not in it. -/
def ReadTarget.op (result : Option Bytes) : ReadTarget → Option StoreOp
  | .shard shardHash => some (.get shardHash result)
  | .shardStream shardHash => some (.get shardHash result)
  | .pinned _ => none

section Outcomes

variable (env : NodeEnv) (d : ShardDisk)

def goOn (task : NodeTask) : TaskOutcome :=
  { disk := d, seq := env.seq, next := some task, sent := [], op := none }

def finish (sent : List NodeReply) : TaskOutcome :=
  { disk := d, seq := env.seq, next := none, sent, op := none }

def storeAnswer (shardHash : Digest) (success : Bool) : TaskOutcome :=
  finish env d [.storeShardResponse shardHash success (availableSpace env.space)]

def streamAnswer (success : Bool) : TaskOutcome :=
  finish env d [.storeShardStreamResponse success (availableSpace env.space)]

/-- `DiskStorage::store`. -/
def storeTaskStep : NodeTask → TaskInput → Option TaskOutcome
  | .storePrepare shardHash data, .io _ =>
    match ensureSufficientSpace env.space with
    | .error _ => some (storeAnswer env d shardHash false)
    | .ok () =>
      let tmp := uniqueTempSibling (getShardPath shardHash) env.pid env.now env.seq
      some { goOn env d (.storeCreate shardHash data tmp) with seq := env.seq + 1 }
  | .storePrepare shardHash _, .fail => some (storeAnswer env d shardHash false)
  | .storeCreate shardHash data tmp, .io _ =>
    let opened := d.create tmp env.now
    some (goOn env opened.1 (.storeWrite shardHash tmp opened.2 data))
  | .storeCreate shardHash _ tmp, .fail => some (goOn env d (.storeCleanup shardHash tmp))
  | .storeWrite shardHash tmp ino todo, .io n =>
    match todo with
    | [] =>
      match d.names.lookup tmp with
      | some i =>
        some { storeAnswer env (d.rename tmp (getShardPath shardHash)) shardHash true with
          op := some (.put shardHash (d.inodes i).bytes) }
      | none => some (goOn env d (.storeCleanup shardHash tmp))
    | _ :: _ =>
      some (goOn env (d.append ino (todo.take (n + 1)) env.now)
        (.storeWrite shardHash tmp ino (todo.drop (n + 1))))
  | .storeWrite shardHash tmp _ _, .fail => some (goOn env d (.storeCleanup shardHash tmp))
  | .storeCleanup shardHash tmp, .io _ => some (storeAnswer env (d.remove tmp) shardHash false)
  | .storeCleanup shardHash _, .fail => some (storeAnswer env d shardHash false)
  | _, _ => none

/-- The loop of `StoreShardStreamInit` with `store_stream_chunk`. -/
def streamTaskStep (cfg : NodeConfig) : NodeTask → TaskInput → Option TaskOutcome
  | .receiving tmp received, .frame (.chunk data) =>
    if maxShardBytes < (received ++ data).length then some (goOn env d (.streamDiscard tmp true))
    else some (goOn env d (.chunkOpen tmp (received ++ data) data))
  | .receiving tmp received, .frame (.final shardHash) =>
    if cfg.blake3 received = shardHash then
      some (goOn env d (.finalizeOpen tmp received shardHash))
    else some (goOn env d (.streamDiscard tmp true))
  | .receiving tmp _, .frame .timeout => some (goOn env d (.streamDiscard tmp true))
  | .receiving tmp _, .frame .broken => some (goOn env d (.streamDiscard tmp false))
  | .chunkOpen tmp received data, .io _ =>
    if maxShardBytes < data.length then some (goOn env d (.streamDiscard tmp true))
    else
      match ensureSufficientSpace env.space with
      | .error _ => some (goOn env d (.streamDiscard tmp true))
      | .ok () =>
        let opened := d.openAppend tmp env.now
        some (goOn env opened.1 (.chunkWrite tmp received opened.2 data))
  | .chunkOpen tmp _ _, .fail => some (goOn env d (.streamDiscard tmp true))
  | .chunkWrite tmp received ino todo, .io n =>
    match todo with
    | [] => some (goOn env d (.receiving tmp received))
    | _ :: _ =>
      some (goOn env (d.append ino (todo.take (n + 1)) env.now)
        (.chunkWrite tmp received ino (todo.drop (n + 1))))
  | .chunkWrite tmp _ _ _, .fail => some (goOn env d (.streamDiscard tmp true))
  | .streamDiscard tmp answer, .io _ =>
    let removed := d.remove tmp
    some (if answer then streamAnswer env removed false else finish env removed [])
  | .streamDiscard _ answer, .fail =>
    some (if answer then streamAnswer env d false else finish env d [])
  | _, _ => none

/-- `finalize_stream_temp`: the file has to be there when it is opened and when it is
renamed, and it stays when one of them fails. -/
def finalizeTaskStep : NodeTask → TaskInput → Option TaskOutcome
  | .finalizeOpen tmp _ shardHash, .io _ =>
    match d.names.lookup tmp with
    | some _ => some (goOn env d (.finalizeRename tmp shardHash))
    | none => some (streamAnswer env d false)
  | .finalizeRename tmp shardHash, .io _ =>
    match d.names.lookup tmp with
    | some i =>
      some { streamAnswer env (d.rename tmp (getShardPath shardHash)) true with
        op := some (.put shardHash (d.inodes i).bytes) }
    | none => some (streamAnswer env d false)
  | .finalizeOpen _ _ _, .fail => some (streamAnswer env d false)
  | .finalizeRename _ _, .fail => some (streamAnswer env d false)
  | _, _ => none

/-- `get`, `get_pinned` and `open_shard_file` with the loop that reads the file. Once it is
open, the inode is read, whatever happens to the name. -/
def readTaskStep (cfg : NodeConfig) : NodeTask → TaskInput → Option TaskOutcome
  | .readCheck target, .io _ =>
    match d.names.lookup (target.path cfg) with
    | none => some { finish env d [target.missing] with op := target.op none }
    | some _ =>
      match target with
      | .shardStream shardHash => some (goOn env d (.readMetadata shardHash))
      | target => some (goOn env d (.readOpen target 0))
  | .readMetadata shardHash, .io _ =>
    match d.names.lookup (getShardPath shardHash) with
    | none => some (finish env d [])
    | some i => some (goOn env d (.readOpen (.shardStream shardHash) (d.inodes i).bytes.length))
  | .readMetadata _, .fail => some (finish env d [])
  | .readOpen target totalBytes, .io _ =>
    match d.names.lookup (target.path cfg) with
    | none => some (finish env d [])
    | some i =>
      some { goOn env d (.reading target i []) with
        op := target.op (some (d.inodes i).bytes)
        sent := match target with
          | .shardStream _ => [.retrieveShardStreamAck true totalBytes]
          | _ => [] }
  | .readOpen _ _, .fail => some (finish env d [])
  | .reading target ino chunks, .io n =>
    match (d.inodes ino).bytes.drop chunks.flatten.length with
    | [] => some (finish env d [target.answer cfg chunks])
    | b :: rest =>
      some (goOn env d (.reading target ino (chunks ++ [(b :: rest).take (n + 1)])))
  | .reading _ _ _, .fail => some (finish env d [])
  | _, _ => none

/-- `delete`. -/
def deleteTaskStep : NodeTask → TaskInput → Option TaskOutcome
  | .deleteCheck shardHash, .io _ =>
    match d.names.lookup (getShardPath shardHash) with
    | none =>
      some { finish env d [.deleteShardResponse shardHash true] with
        op := some (.delete shardHash) }
    | some _ => some (goOn env d (.deleteRemove shardHash))
  | .deleteRemove shardHash, .io _ =>
    match d.names.lookup (getShardPath shardHash) with
    | none => some (finish env d [.deleteShardResponse shardHash false])
    | some _ =>
      some { finish env (d.remove (getShardPath shardHash))
          [.deleteShardResponse shardHash true] with op := some (.delete shardHash) }
  | .deleteRemove shardHash, .fail => some (finish env d [.deleteShardResponse shardHash false])
  | _, _ => none

/-- `store_pinned`: the object is emptied and written in place. -/
def pinnedTaskStep (cfg : NodeConfig) : NodeTask → TaskInput → Option TaskOutcome
  | .pinnedCreate name data, .io _ =>
    let opened := d.create (pinnedPath cfg.blake3 name) env.now
    some (goOn env opened.1 (.pinnedWrite name opened.2 0 data))
  | .pinnedCreate _ _, .fail => some (finish env d [.storePinnedResponse false])
  | .pinnedWrite name ino offset todo, .io n =>
    match todo with
    | [] => some (finish env d [.storePinnedResponse true])
    | _ :: _ =>
      let piece := todo.take (n + 1)
      some (goOn env (d.writeAt 0 ino offset piece env.now)
        (.pinnedWrite name ino (offset + piece.length) (todo.drop (n + 1))))
  | .pinnedWrite _ _ _ _, .fail => some (finish env d [.storePinnedResponse false])
  | _, _ => none

/-- `list_shards`, one directory at a time; one that cannot be read is passed over. -/
def listingTaskStep : NodeTask → TaskInput → Option TaskOutcome
  | .listing dir [] found, .io _ =>
    some (finish env d [.listShardsResponse dir (sortHashes found) (availableSpace env.space)])
  | .listing dir (next :: todo) found, .io _ =>
    some { goOn env d (.listing dir todo (found ++ scanDir d next)) with
      op := some (.scan next (scanDir d next)) }
  | .listing dir (_ :: todo) found, .fail => some (goOn env d (.listing dir todo found))
  | _, _ => none

end Outcomes

end Reminisce

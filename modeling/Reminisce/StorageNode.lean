import Reminisce.Library.Runs
import Reminisce.NodeTasks

namespace Reminisce

open FileSystem

/-- One effect of a running `handle_stream`. -/
def taskStep (cfg : NodeConfig) (env : NodeEnv) (d : ShardDisk) (task : NodeTask)
    (input : TaskInput) : Option TaskOutcome :=
  match task with
  | .storePrepare .. | .storeCreate .. | .storeWrite .. | .storeCleanup .. =>
    storeTaskStep env d task input
  | .receiving .. | .chunkOpen .. | .chunkWrite .. | .streamDiscard .. =>
    streamTaskStep env d cfg task input
  | .finalizeOpen .. | .finalizeRename .. => finalizeTaskStep env d task input
  | .readCheck .. | .readMetadata .. | .readOpen .. | .reading .. =>
    readTaskStep env d cfg task input
  | .deleteCheck .. | .deleteRemove .. => deleteTaskStep env d task input
  | .pinnedCreate .. | .pinnedWrite .. => pinnedTaskStep env d cfg task input
  | .listing .. => listingTaskStep env d task input

abbrev Salt := List.Vector UInt8 16

/-- What the temporary file of a streamed upload is named after. -/
def tempIdInput (fileHash : Digest) (shardIndex : UInt8) (salt : Salt) : Bytes :=
  fileHash.toList ++ (shardIndex :: salt.toList)

def streamBinding (cfg : NodeConfig) (fileHash : Digest) (shardIndex : UInt8) : Digest :=
  cfg.blake3 (fileHash.toList ++ [shardIndex])

def maxRetrievable : Nat := maxMessageLen - 1024

def NodeConfig.allows (cfg : NodeConfig) (env : NodeEnv) (token : ShardToken) (op : ShardOp)
    (hash : Digest) : Bool :=
  verifyShardToken cfg.scheme token op hash cfg.allowedOwnerId (UInt64.ofNat (env.now / 10 ^ 9))

/-- `handle_stream` up to the first effect on the disk: the task that goes on, if any, and
what is sent before. -/
def handleRequest (cfg : NodeConfig) (env : NodeEnv) (salt : Salt) :
    NodeRequest → Option NodeTask × List NodeReply
  | .handshake _ version =>
    if version ≠ protocolVersion then
      (none, [.error 426 s!"Protocol version mismatch: peer {version}, local {protocolVersion}"])
    else (none, [.handshakeAck cfg.nodeId])
  | .storeShard shardHash data token =>
    if cfg.blake3 data ≠ shardHash then
      (none, [.storeShardResponse shardHash false (availableSpace env.space)])
    else if cfg.allows env token .store shardHash then (some (.storePrepare shardHash data), [])
    else (none, [.storeShardResponse shardHash false (availableSpace env.space)])
  | .storeShardStreamInit fileHash shardIndex totalShardBytes token =>
    if maxRetrievable < totalShardBytes.toNat then
      (none, [.error 413
        s!"Shard exceeds retrievable size cap ({maxRetrievable / (1024 * 1024)} MB)"])
    else if cfg.allows env token .store (streamBinding cfg fileHash shardIndex) then
      (some (.receiving (tempPath (cfg.blake3 (tempIdInput fileHash shardIndex salt))) []),
        [.storeShardStreamAck true])
    else (none, [.error 401 "Unauthorized shard stream"])
  | .retrieveShard shardHash token =>
    if cfg.allows env token .retrieve shardHash then (some (.readCheck (.shard shardHash)), [])
    else (none, [.error 401 "Unauthorized shard retrieval"])
  | .retrieveShardStreamInit shardHash token =>
    if cfg.allows env token .retrieve shardHash then
      (some (.readCheck (.shardStream shardHash)), [])
    else (none, [.error 401 "Unauthorized shard retrieval"])
  | .heartbeat _ => (none, [])
  | .deleteShard shardHash token =>
    if cfg.allows env token .delete shardHash then (some (.deleteCheck shardHash), [])
    else (none, [.deleteShardResponse shardHash false])
  | .storePinnedObject name data token =>
    if cfg.allows env token .store (cfg.blake3 (utf8 name)) then (some (.pinnedCreate name data), [])
    else (none, [.storePinnedResponse false])
  | .getPinnedObject name token =>
    if cfg.allows env token .retrieve (cfg.blake3 (utf8 name)) then
      (some (.readCheck (.pinned name)), [])
    else (none, [.error 401 "Unauthorized pinned object access"])
  | .listShards dir token =>
    if cfg.allows env token .list (cfg.blake3 (utf8 (dir.getD ""))) then
      (some (.listing dir (listedDirs (dir.map String.toList)) []), [])
    else (none, [.error 401 "Unauthorized shard listing"])
  | .other => (none, [.error 400 "Unhandled message type"])

/-- A storage node: its disk, the streams it handles, what it has sent, and the operations
on the map of shards that have taken effect. -/
structure NodeState where
  disk : ShardDisk
  tasks : List NodeTask
  now : Nat
  pid : Nat
  seq : Nat
  sent : List NodeReply
  ops : List StoreOp

def NodeState.init (pid : Nat) : NodeState :=
  { disk := Disk.empty, tasks := [], now := 0, pid, seq := 0, sent := [], ops := [] }

/-- A request may come, a stream may move on or be dropped, in any order. `restart` is a
crash at this point with the start of the next process; `removable` says which of its
removals succeed. -/
inductive NodeEvent
  | request (salt : Salt) (space : Except String Nat) (req : NodeRequest)
  | step (i : Nat) (space : Except String Nat) (input : TaskInput)
  | cancel (i : Nat)
  | restart (pid : Nat) (removable : DiskPath → Bool)
  | clock (now : Nat)

def NodeState.env (s : NodeState) (space : Except String Nat) : NodeEnv :=
  { now := s.now, pid := s.pid, seq := s.seq, space }

def resume (tasks : List NodeTask) (i : Nat) : Option NodeTask → List NodeTask
  | some task => tasks.set i task
  | none => tasks.eraseIdx i

def NodeState.after (s : NodeState) (i : Nat) (o : TaskOutcome) : NodeState :=
  { s with
    disk := o.disk, seq := o.seq, tasks := resume s.tasks i o.next, sent := s.sent ++ o.sent
    ops := s.ops ++ o.op.toList }

/-- One hour in nanoseconds. -/
def staleAge : Nat := 3600 * 10 ^ 9

def nodeStep (cfg : NodeConfig) (s : NodeState) : NodeEvent → Option NodeState
  | .request salt space req =>
    let handled := handleRequest cfg (s.env space) salt req
    some { s with tasks := s.tasks ++ handled.1.toList, sent := s.sent ++ handled.2 }
  | .step i space input =>
    (s.tasks[i]?).bind fun task =>
      (taskStep cfg (s.env space) s.disk task input).map fun o => s.after i o
  | .cancel i => if i < s.tasks.length then some { s with tasks := s.tasks.eraseIdx i } else none
  | .restart pid removable =>
    some { s with
      disk := (cleanupStaleTempFiles s.disk s.now staleAge removable).1, tasks := [], pid, seq := 0 }
  | .clock now => some { s with now }

/-- The salt that a streamed upload draws. -/
def NodeEvent.salt : NodeEvent → Option Salt
  | .request salt _ (.storeShardStreamInit _ _ _ _) => some salt
  | _ => none

def NodeEvent.tempInput : NodeEvent → Option Bytes
  | .request salt _ (.storeShardStreamInit fileHash shardIndex _ _) =>
    some (tempIdInput fileHash shardIndex salt)
  | _ => none

theorem tempIdInput_salt {fileHash fileHash' : Digest} {i i' : UInt8} {salt salt' : Salt}
    (h : tempIdInput fileHash i salt = tempIdInput fileHash' i' salt') : salt = salt' := by
  have hlen : fileHash.toList.length = fileHash'.toList.length := by simp
  exact List.Vector.toList_injective (List.cons.inj (List.append_inj_right h hlen)).2

/-- An input that was used before has its salt among the salts drawn before. -/
theorem salt_mem_of_tempInput {past : List NodeEvent} {fileHash : Digest} {i : UInt8} {salt : Salt}
    (h : tempIdInput fileHash i salt ∈ past.filterMap NodeEvent.tempInput) :
    salt ∈ past.filterMap NodeEvent.salt := by
  obtain ⟨e, he, hin⟩ := List.mem_filterMap.mp h
  refine List.mem_filterMap.mpr ⟨e, he, ?_⟩
  unfold NodeEvent.tempInput at hin
  split at hin
  next => rw [← tempIdInput_salt (Option.some.inj hin)]; rfl
  next => simp at hin

end Reminisce

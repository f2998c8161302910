import Reminisce.Fleet

namespace Reminisce

structure FileInfo where
  ext : String
  key : Option Bytes
  encSize : Option Int
  dataShards : Nat
  parityShards : Nat
  deriving DecidableEq, Repr

def fileInfoOf (P : Primitives) (apiSecret : String) (row : MediaRow) : Except String FileInfo := do
  let key ← match row.p2pEncryptionKey with
    | some wrapped => (decryptKey P wrapped apiSecret).map some
    | none => pure none
  pure { ext := row.ext, key, encSize := row.p2pEncryptedSize
         dataShards := asUsize (row.p2pDataShards.getD 3)
         parityShards := asUsize (row.p2pParityShards.getD 2) }

def findFileInfo (P : Primitives) (db : Database) (fileHash apiSecret : String) :
    Except String (Option FileInfo) :=
  match db.images.find? (·.hash = fileHash) with
  | some row => (fileInfoOf P apiSecret row).map some
  | none =>
    match db.videos.find? (·.hash = fileHash) with
    | some row => (fileInfoOf P apiSecret row).map some
    | none => .ok none

/-- One shard made anew from the file on the local disk, which is given when it is there. The
slices of the hash panic on a hash that is too short. -/
def reshardFromLocal (P : Primitives) (fileHash : String) (encryptionKey : Bytes)
    (shardIndex dataShards parityShards : Nat) (localFile : Option Bytes) : Except Failure Bytes :=
  if fileHash.utf8ByteSize < 2 then .error .panic
  else
    match localFile with
    | none => .error (.error s!"Local file not found for hash {fileHash}")
    | some fileData =>
      if toHex (P.blake3 fileData) ≠ fileHash.toList then
        let actual := String.ofList ((toHex (P.blake3 fileData)).take 16)
        let expected := String.ofList (fileHash.toList.take 16)
        if fileHash.utf8ByteSize < 16 then .error .panic
        else .error (.error (s!"Local file hash mismatch ({actual} != {expected}): " ++
          "refusing to migrate from a modified file"))
      else
        match processForBackup P fileData encryptionKey encryptionKey dataShards parityShards with
        | .error e => .error (.error e.text)
        | .ok (shards, _) =>
          match shards[shardIndex]? with
          | none => .error (.error s!"Shard index {shardIndex} out of range ({shards.length})")
          | some shard => .ok shard

structure RebalanceJob where
  fileHash : String
  activeNodes : List (NodeId × SocketAddr)
  apiSecret : String
  now : Time

/-- Where `rebalance_file` stands: at the head of its loop, or before the upload, the update of
the row or the delete of one migration. -/
inductive RebalancePhase
  | next (todo : List ShardRow)
  | upload (row : ShardRow) (target : NodeId × SocketAddr) (data : Bytes) (todo : List ShardRow)
  | update (row : ShardRow) (target : NodeId × SocketAddr) (newShardHash : List Char)
    (todo : List ShardRow)
  | delete (row : ShardRow) (todo : List ShardRow)
  | stopped

structure RebalanceState where
  registry : PeerRegistry
  db : Database
  fleet : Fleet
  idealNodes : List (NodeId × SocketAddr)
  phase : RebalancePhase

/-- What the environment answers while the data of one shard is obtained. -/
structure SourceIo where
  infoUp : Bool
  localFile : Option Bytes
  lookupUp : Bool
  faults : RetrieveFaults

inductive RebalanceEvent
  | consider (io : SourceIo)
  | upload (outcome : UploadOutcome)
  | update (succeeds : Bool)
  | delete (lookupUp arrives : Bool)
  | finish (succeeds : Bool)

/-- The queries before the loop; an error of the file's key ends the pass. -/
def RebalanceState.start (P : Primitives) (job : RebalanceJob) (registry : PeerRegistry)
    (db : Database) (fleet : Fleet) : RebalanceState :=
  match findFileInfo P db job.fileHash job.apiSecret with
  | .error _ => { registry, db, fleet, idealNodes := [], phase := .stopped }
  | .ok info =>
    let totalShards := match info with
      | some info => (info.dataShards + info.parityShards) % 2 ^ 64
      | none => 5
    { registry, db, fleet, phase := .next (db.shardsOf job.fileHash)
      idealNodes := rendezvousSelect P job.fileHash job.activeNodes
        (min totalShards job.activeNodes.length) }

/-- `UPDATE p2p_shards SET node_id, shard_hash WHERE file_hash AND shard_index`. -/
def Database.moveShard (db : Database) (fileHash : String) (shardIndex : Int) (nodeId : NodeId)
    (shardHash : List Char) : Database :=
  { db with p2pShards := db.p2pShards.map fun row =>
      if row.fileHash = fileHash ∧ row.shardIndex = shardIndex then { row with nodeId, shardHash }
      else row }

/-- `UPDATE p2p_shards SET last_checked_at = NOW() WHERE file_hash = $1`. -/
def Database.touchShards (db : Database) (fileHash : String) (now : Time) : Database :=
  { db with p2pShards := db.p2pShards.map fun row =>
      if row.fileHash = fileHash then { row with lastCheckedAt := some now } else row }

variable (P : Primitives) (job : RebalanceJob)

def retrieveShardFromOldNode (s : RebalanceState) (row : ShardRow) (io : SourceIo) :
    Except Failure Bytes × PeerRegistry :=
  match lookupNodeAddr s.registry s.db row.nodeId job.now io.lookupUp with
  | (none, registry) => (.error (.error "Cannot migrate: old node addr unknown"), registry)
  | (some addr, registry) =>
    match s.fleet.retrieve P registry addr row.shardHash io.faults with
    | .ok data => (.ok data, registry)
    | .error _ => (.error (.error "Cannot migrate: old node unreachable"), registry)

/-- The bytes that `migrate_shard` is about to upload, before its integrity check. -/
def migrationSource (s : RebalanceState) (row : ShardRow) (io : SourceIo) :
    Except Failure Bytes × PeerRegistry :=
  if io.infoUp then
    match findFileInfo P s.db job.fileHash job.apiSecret with
    | .error e => (.error (.error e), s.registry)
    | .ok (some ⟨_, some key, _, dataShards, parityShards⟩) =>
      match reshardFromLocal P job.fileHash key (asUsize row.shardIndex) dataShards parityShards
        io.localFile with
      | .ok data => (.ok data, s.registry)
      | .error .panic => (.error .panic, s.registry)
      | .error (.error _) => retrieveShardFromOldNode P job s row io
    | .ok _ => retrieveShardFromOldNode P job s row io
  else (.error (.error "database unavailable"), s.registry)

def considerShard (s : RebalanceState) (row : ShardRow) (todo : List ShardRow) (io : SourceIo) :
    RebalanceState :=
  match s.idealNodes[asUsize row.shardIndex % s.idealNodes.length]? with
  | none => { s with phase := .stopped }
  | some target =>
    if row.nodeId = target.1 then { s with phase := .next todo }
    else
      match migrationSource P job s row io with
      | (.error .panic, registry) => { s with registry, phase := .stopped }
      | (.error (.error _), registry) => { s with registry, phase := .next todo }
      | (.ok data, registry) =>
        if toHex (P.blake3 data) = row.shardHash then
          { s with registry, phase := .upload row target data todo }
        else { s with registry, phase := .next todo }

def uploadStep (s : RebalanceState) (row : ShardRow) (target : NodeId × SocketAddr) (data : Bytes)
    (todo : List ShardRow) (outcome : UploadOutcome) : RebalanceState :=
  match uploadShardToNode P s.fleet s.registry target.2 data outcome with
  | (fleet, some newShardHash) => { s with fleet, phase := .update row target newShardHash todo }
  | (fleet, none) => { s with fleet, phase := .next todo }

def updateStep (s : RebalanceState) (row : ShardRow) (target : NodeId × SocketAddr)
    (newShardHash : List Char) (todo : List ShardRow) (succeeds : Bool) : RebalanceState :=
  if succeeds then
    { s with
      db := s.db.moveShard job.fileHash row.shardIndex target.1 newShardHash
      phase := .delete row todo }
  else { s with phase := .stopped }

/-- `lookup_node_addr` of the old node and `delete_shard_remote`, whose answer is ignored. -/
def deleteStep (s : RebalanceState) (row : ShardRow) (todo : List ShardRow)
    (lookupUp arrives : Bool) : RebalanceState :=
  match lookupNodeAddr s.registry s.db row.nodeId job.now lookupUp with
  | (none, registry) => { s with registry, phase := .next todo }
  | (some addr, registry) =>
    match parseShardHash row.shardHash with
    | none => { s with registry, phase := .next todo }
    | some shardHash =>
      if arrives ∧ s.fleet.reachable registry addr then
        { s with registry, fleet := s.fleet.remove addr shardHash, phase := .next todo }
      else { s with registry, phase := .next todo }

/-- One operation of `rebalance_file` and what it meets. -/
def rebalanceStep (s : RebalanceState) : RebalanceEvent → Option RebalanceState
  | .consider io =>
    match s.phase with
    | .next (row :: todo) => some (considerShard P job s row todo io)
    | _ => none
  | .upload outcome =>
    match s.phase with
    | .upload row target data todo => some (uploadStep P s row target data todo outcome)
    | _ => none
  | .update succeeds =>
    match s.phase with
    | .update row target newShardHash todo =>
      some (updateStep job s row target newShardHash todo succeeds)
    | _ => none
  | .delete lookupUp arrives =>
    match s.phase with
    | .delete row todo => some (deleteStep job s row todo lookupUp arrives)
    | _ => none
  | .finish succeeds =>
    match s.phase with
    | .next [] => some
      { s with
        db := if succeeds then s.db.touchShards job.fileHash job.now else s.db
        phase := .stopped }
    | _ => none

end Reminisce

import Reminisce.DbSnapshot

namespace Reminisce

/-- A manifest as it is published, with its time stamp. -/
structure StampedManifest extends DbBackupManifest where
  createdAt : String
  deriving DecidableEq, Repr

/-- `serde_json::to_vec` and `from_slice` for manifests. -/
structure ManifestJson where
  toVec : StampedManifest → Bytes
  fromSlice : Bytes → Except String StampedManifest

def meshLatestManifest : String := "reminisce:db-manifest:latest"

def meshManifestName (backupHash : String) : String := s!"reminisce:db-manifest:{backupHash}"

def meshKey (P : Primitives) (apiSecret : String) : Bytes :=
  (P.blake3 (utf8 s!"reminisce-db-manifest-mesh:{apiSecret}")).toList

def encryptForMesh (P : Primitives) (json : Bytes) (apiSecret : String) (nonceCtx : Bytes) :
    Except String Bytes :=
  (encrypt P json (meshKey P apiSecret) nonceCtx).mapError Np2pError.text

def decryptFromMesh (P : Primitives) (data : Bytes) (apiSecret : String) : Except String Bytes :=
  (decrypt P data (meshKey P apiSecret)).mapError Np2pError.text

/-- What `fetch_manifest_from_mesh` makes of an answer. -/
def readMeshManifest (P : Primitives) (json : ManifestJson) (apiSecret : String) (data : Bytes) :
    Except String StampedManifest := do
  let bytes ← decryptFromMesh P data apiSecret
  (json.fromSlice bytes).mapError fun e => s!"failed to parse mesh manifest: {e}"

/-- The loop over the peers: the first answer with data decides. -/
def firstManifest (P : Primitives) (json : ManifestJson) (apiSecret : String)
    (ask : NodeId → Option Bytes) : List NodeId → Option (Except String StampedManifest)
  | [] => none
  | peer :: rest =>
    match ask peer with
    | some data => some (readMeshManifest P json apiSecret data)
    | none => firstManifest P json apiSecret ask rest

/-- `ask` is the pinned object that a peer returns for the name, if it answers with one. -/
def fetchManifestFromMesh (P : Primitives) (json : ManifestJson) (apiSecret name : String)
    (peers : List NodeId) (ask : NodeId → Option Bytes) : Except String StampedManifest :=
  if peers.isEmpty then
    .error ("no storage nodes discovered on the LAN — use --node node_id=host:port to " ++
      "specify one")
  else
    match firstManifest P json apiSecret ask peers with
    | some read => read
    | none =>
      .error s!"manifest '{name}' not found on any of the {peers.length} discovered node(s)"

/-- A row of `db_backups` with its shard rows, and the dump and the shards it stands for. -/
structure Snapshot where
  manifest : StampedManifest
  dump : Bytes
  shards : List Bytes
  deriving DecidableEq, Repr

/-- The database rows of the snapshots, in the order they were stored, the manifest that is
being published, the `shard_hash` column of `p2p_shards`, and what the nodes hold. -/
structure MeshState where
  backups : List Snapshot
  publishing : Option StampedManifest
  p2pShardHashes : List (List Char)
  pinned : NodeId → String → Option Bytes
  stored : NodeId → Digest → Option Bytes

inductive MeshEvent
  | backup (dataShards parityShards : Nat) (createdAt : String) (dump : Bytes)
    (run : ReplicationRun)
  | store (nodeId : NodeId) (data : Bytes)
  | publish (nodeId : NodeId) (latest : Bool)
  | deleteShard (backupHash : String) (i : Nat)
  | dropSnapshot (backupHash : String)
  | setMediaShards (shardHashes : List (List Char))
  | sweep (nodeId : NodeId) (shardHash : Digest)
  | damage (nodeId : NodeId) (name : String) (data : Option Bytes)
  | lose (nodeId : NodeId) (shardHash : Digest)

structure MeshConfig where
  apiSecret : String
  retention : Nat
  deriving DecidableEq, Repr

namespace MeshState

def start : MeshState :=
  { backups := [], publishing := none, p2pShardHashes := []
    pinned := fun _ _ => none, stored := fun _ _ => none }

def put (s : MeshState) (nodeId : NodeId) (shardHash : Digest) (data : Option Bytes) : MeshState :=
  { s with stored := fun n h => if n = nodeId ∧ h = shardHash then data else s.stored n h }

def pin (s : MeshState) (nodeId : NodeId) (name : String) (data : Option Bytes) : MeshState :=
  { s with pinned := fun n o => if n = nodeId ∧ o = name then data else s.pinned n o }

/-- The nodes store the shards whose placement the manifest records. -/
def putShards (P : Primitives) (shards : List Bytes) (s : MeshState)
    (placement : List ManifestShard) : MeshState :=
  placement.foldl (fun s shard =>
    match shards[shard.index]? with
    | some data => s.put shard.nodeId (P.blake3 data) (some data)
    | none => s) s

/-- `SELECT backup_hash FROM db_backups ORDER BY created_at DESC OFFSET $1`. -/
def expired (s : MeshState) (retention : Nat) : List Snapshot :=
  s.backups.reverse.drop (max retention 1)

/-- The shard hashes that a sweep finds in the database. -/
def references (s : MeshState) (shardHash : List Char) : Bool :=
  s.p2pShardHashes.any (· = shardHash) ||
    s.backups.any fun snapshot => snapshot.manifest.shards.any (·.shardHash = shardHash)

end MeshState

/-- One operation of the backup worker, the retention or the sweep, or of what befalls the
nodes. A delete or a publication that does not arrive is none. -/
def meshStep (P : Primitives) (json : ManifestJson) (config : MeshConfig) (s : MeshState) :
    MeshEvent → Option MeshState
  | .backup dataShards parityShards createdAt dump run =>
    match backupDumpFile P segmentThreshold (s.backups.map (·.manifest.backupHash)) dump
        config.apiSecret dataShards parityShards run,
      backupShards P segmentThreshold dump run.encryptionKey.toList dataShards parityShards with
    | .ok (some manifest), .ok shards => some
      { (s.putShards P shards manifest.shards) with
        backups := s.backups ++ [⟨{ manifest with createdAt }, dump, shards⟩]
        publishing := some { manifest with createdAt } }
    | _, _ => none
  | .store nodeId data => some (s.put nodeId (P.blake3 data) (some data))
  | .publish nodeId latest =>
    match s.publishing with
    | some manifest =>
      match encryptForMesh P (json.toVec manifest) config.apiSecret (utf8 manifest.backupHash) with
      | .ok encrypted => some (s.pin nodeId
          (if latest then meshLatestManifest else meshManifestName manifest.backupHash)
          (some encrypted))
      | .error _ => none
    | none => none
  | .deleteShard backupHash i =>
    match (s.expired config.retention).find? (·.manifest.backupHash = backupHash) with
    | some snapshot =>
      match snapshot.manifest.shards[i]? with
      | some shard =>
        match parseShardHash shard.shardHash with
        | some shardHash => some (s.put shard.nodeId shardHash none)
        | none => none
      | none => none
    | none => none
  | .dropSnapshot backupHash =>
    if (s.expired config.retention).any (·.manifest.backupHash = backupHash) then
      some { s with backups := s.backups.filter (·.manifest.backupHash ≠ backupHash) }
    else none
  | .setMediaShards shardHashes => some { s with p2pShardHashes := shardHashes }
  | .sweep nodeId shardHash =>
    if s.references (toHex shardHash) then none else some (s.put nodeId shardHash none)
  | .damage nodeId name data => some (s.pin nodeId name data)
  | .lose nodeId shardHash => some (s.put nodeId shardHash none)

/-- Who is found and who answers when the server is recovered. -/
structure MeshRecovery where
  peers : List NodeId
  answers : NodeId → Bool
  delivers : NodeId → Digest → Bool

namespace MeshState

/-- The answers to `GetPinnedObject`. -/
def ask (s : MeshState) (r : MeshRecovery) (name : String) (nodeId : NodeId) : Option Bytes :=
  if r.answers nodeId then s.pinned nodeId name else none

def fetch (s : MeshState) (r : MeshRecovery) : Fetch :=
  fun _ nodeId shardHash => if r.delivers nodeId shardHash then s.stored nodeId shardHash else none

/-- `restore_db_common` without a manifest on disk and without a given hash. -/
def recover (P : Primitives) (json : ManifestJson) (apiSecret : String) (s : MeshState)
    (r : MeshRecovery) : Except Failure (StampedManifest × Bytes) := do
  let manifest ← (fetchManifestFromMesh P json apiSecret meshLatestManifest r.peers
    (s.ask r meshLatestManifest)).mapError .error
  let dump ← restoreDbSnapshot P manifest.toDbBackupManifest apiSecret (s.fetch r)
  pure (manifest, dump)

/-- The node of a shard delivers bytes with the recorded hash. -/
def reachable (P : Primitives) (s : MeshState) (r : MeshRecovery) (shard : ManifestShard) : Bool :=
  match parseShardHash shard.shardHash with
  | some shardHash =>
    (s.fetch r 0 shard.nodeId shardHash).any fun data => toHex (P.blake3 data) = shard.shardHash
  | none => false

/-- The node answers with a manifest of a retained snapshot of which three shards are
reachable. -/
def GoodLatest (P : Primitives) (json : ManifestJson) (apiSecret : String) (s : MeshState)
    (r : MeshRecovery) (nodeId : NodeId) : Prop :=
  ∃ data, s.ask r meshLatestManifest nodeId = some data ∧
    ∃ snapshot ∈ s.backups, readMeshManifest P json apiSecret data = .ok snapshot.manifest ∧
      3 ≤ (snapshot.manifest.shards.filter (s.reachable P r)).length

/-- The recovery yields a retained snapshot as soon as some node has a good manifest. -/
def Recovers (P : Primitives) (json : ManifestJson) (apiSecret : String) (s : MeshState)
    (r : MeshRecovery) : Prop :=
  (∃ nodeId ∈ r.peers, s.GoodLatest P json apiSecret r nodeId) →
    ∃ snapshot ∈ s.backups, s.recover P json apiSecret r = .ok (snapshot.manifest, snapshot.dump)

/-- No node has a good manifest, or the first that answers with one at all has. -/
def FirstAnswerGood (P : Primitives) (json : ManifestJson) (apiSecret : String) (s : MeshState)
    (r : MeshRecovery) : Prop :=
  (∃ nodeId ∈ r.peers, s.GoodLatest P json apiSecret r nodeId) →
    ∃ nodeId, r.peers.find? (fun n => (s.ask r meshLatestManifest n).isSome) = some nodeId ∧
      s.GoodLatest P json apiSecret r nodeId

end MeshState

/-- The snapshots are stored with three data and two parity shards. -/
def StandardGeometry : MeshState → MeshEvent → Prop
  | _, .backup dataShards parityShards .. => dataShards = 3 ∧ parityShards = 2
  | _, _ => True

end Reminisce

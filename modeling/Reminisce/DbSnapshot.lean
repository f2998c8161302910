import Reminisce.Restore
import Reminisce.Replication

namespace Reminisce

open Slices Results

/-- The part of the configuration that backups read. -/
structure Config where
  apiSecretKey : Option String
  p2pDataShards : Nat
  p2pParityShards : Nat
  deriving DecidableEq, Repr

/-- The YAML file after parsing; absent shard counts take the serde defaults. -/
structure ConfigFile where
  apiSecretKey : Option String
  p2pDataShards : Option Nat
  p2pParityShards : Option Nat
  deriving DecidableEq, Repr

def Config.getApiKey (config : Config) : Except String String :=
  match config.apiSecretKey with
  | none => .error "API secret key is not configured — authentication is disabled"
  | some secret =>
    if secret.isEmpty then
      .error "API secret key is not configured — authentication is disabled"
    else .ok secret

/-- Nothing but the presence of an API key is validated. -/
def Config.fromFile (file : ConfigFile) (envSecret : Option String) : Except String Config := do
  let config : Config :=
    { apiSecretKey := (envSecret.filter fun s => !s.isEmpty) <|> file.apiSecretKey
      p2pDataShards := file.p2pDataShards.getD 3
      p2pParityShards := file.p2pParityShards.getD 2 }
  let _ ← config.getApiKey
  pure config

structure ManifestShard where
  index : Nat
  nodeId : NodeId
  addr : SocketAddr
  shardHash : List Char
  deriving DecidableEq, Repr

structure DbBackupManifest where
  backupHash : String
  sizeBytes : Int
  encryptedSize : Int
  dataShards : Int
  parityShards : Int
  segmentCount : Int
  segmentEncSizes : Option (List Int)
  encryptionKeyHex : List Char
  shards : List ManifestShard
  deriving DecidableEq, Repr

/-- The shard placement as a row of the fetch loop, which the two restores share. -/
def ManifestShard.toRow (s : ManifestShard) : ShardRow :=
  { id := 0, fileHash := "", shardIndex := s.index, nodeId := s.nodeId, shardHash := s.shardHash
    lastCheckedAt := none }

def UploadedShard.toManifest (s : UploadedShard) : ManifestShard :=
  { index := s.idx, nodeId := s.nodeId, addr := s.addr, shardHash := s.shardHashHex }

def uploadDump (P : Primitives) (segmentSize : Nat) (backupHash : String) (data : Bytes)
    (dataShards parityShards : Nat) (run : ReplicationRun) :
    Except Failure (List UploadedShard × Int × Int × Option (List Int)) := do
  if segmentSize < data.length then
    let (uploaded, sizes) ← uploadSegmented P segmentSize run.nodes backupHash data
      run.encryptionKey.toList dataShards parityShards run.acks
    pure (uploaded, 0, asI32 sizes.length, some sizes)
  else
    let (shards, encSize) ← (processForBackup P data run.encryptionKey.toList
      run.encryptionKey.toList dataShards parityShards).mapError fun e => .error e.text
    let uploaded ← uploadInmemory P run.nodes backupHash shards run.acks
    pure (uploaded, asI64 encSize, 1, none)

/-- The upload of one dump, with the hashes already in `db_backups`. The result is the
manifest that restore starts from, or nothing when the dump is stored already. -/
def backupDumpFile (P : Primitives) (segmentSize : Nat) (stored : List String)
    (data : Bytes) (apiSecret : String) (dataShards parityShards : Nat) (run : ReplicationRun) :
    Except Failure (Option DbBackupManifest) := do
  let backupHash := String.ofList (toHex (P.blake3 data))
  if data.isEmpty then .error (.error "pg_dump produced an empty file")
  else if backupHash ∈ stored then pure none
  else
    let (uploaded, encSize, segmentCount, segmentEncSizes) ← uploadDump P segmentSize backupHash
      data dataShards parityShards run
    if uploaded.length < dataShards then
      .error (.error (s!"Only {uploaded.length}/{Erasure.totalShards} shards stored for DB " ++
        s!"snapshot. Minimum {dataShards} required for reconstruction."))
    else
      let encryptedKey ← (encryptKey P run.encryptionKey.toList apiSecret
        run.wrapNonce.toList).mapError .error
      if run.commits then
        pure (some
          { backupHash := backupHash, sizeBytes := asI64 data.length, encryptedSize := encSize
            dataShards := asI32 dataShards, parityShards := asI32 parityShards
            segmentCount := segmentCount, segmentEncSizes := segmentEncSizes
            encryptionKeyHex := Hex.encode encryptedKey
            shards := uploaded.map UploadedShard.toManifest })
      else .error (.error "db error")

def restoreDbSnapshot (P : Primitives) (manifest : DbBackupManifest) (apiSecret : String)
    (fetch : Fetch) : Except Failure Bytes :=
  match Hex.decode manifest.encryptionKeyHex with
  | none => .error (.error "invalid encryption_key_hex: Invalid character")
  | some encryptedKey =>
    match decryptKey P encryptedKey apiSecret with
    | .error e => .error (.error e)
    | .ok key =>
      let fullShards := fetchShards P fetch 0 (List.replicate Erasure.totalShards none)
        (manifest.shards.map ManifestShard.toRow)
      let present := fullShards.countP Option.isSome
      if present < Erasure.dataShards then
        .error (.error (s!"Only {present}/{Erasure.totalShards} shards available for snapshot " ++
          s!"{manifest.backupHash} — cannot restore (need ≥{Erasure.dataShards})"))
      else if manifest.segmentCount ≤ 1 then
        (restoreFromBackup P fullShards (asUsize manifest.encryptedSize) key
          (asUsize (max manifest.dataShards 1)) (asUsize (max manifest.parityShards 0))).mapError
            fun e => .error s!"Snapshot restore failed: {e.text}"
      else
        match manifest.segmentEncSizes with
        | none => .error (.error "segment_enc_sizes missing for multi-segment snapshot")
        | some encSizes => restoreSegmented P fullShards key 0 encSizes

/-- The manifest of an uploaded dump describes the backup whose shards are `shards`. -/
inductive DbBackupManifest.Describes (P : Primitives) (segmentSize dataShards parityShards : Nat)
    (data key : Bytes) (manifest : DbBackupManifest) : List Bytes → Prop
  | single {shards : List Bytes} {size : Nat} (small : ¬ segmentSize < data.length)
      (process : processForBackup P data key key dataShards parityShards = .ok (shards, size))
      (count : manifest.segmentCount = 1) (encSize : manifest.encryptedSize = asI64 size) :
      Describes P segmentSize dataShards parityShards data key manifest shards
  | segmented {segs : List (List Bytes × Nat)} (large : segmentSize < data.length)
      (process : shardSegments P key dataShards parityShards 0 (readSegments segmentSize data) =
        .ok segs)
      (count : manifest.segmentCount = asI32 segs.length)
      (encSizes : manifest.segmentEncSizes = some (segs.map fun seg => asI64 seg.2)) :
      Describes P segmentSize dataShards parityShards data key manifest
        ((List.range (dataShards + parityShards)).map (streamedShard segs))

/-- What a stored snapshot's manifest holds. -/
structure SnapshotStored (P : Primitives) (segmentSize dataShards parityShards : Nat)
    (data : Bytes) (apiSecret : String) (run : ReplicationRun) (manifest : DbBackupManifest)
    (shards : List Bytes) (uploaded : List UploadedShard) (wrapped : Bytes) : Prop where
  describes : manifest.Describes P segmentSize dataShards parityShards data
    run.encryptionKey.toList shards
  uploads : StoredShards P shards run.acks uploaded
  enough : dataShards ≤ uploaded.length
  wrap : encryptKey P run.encryptionKey.toList apiSecret run.wrapNonce.toList = .ok wrapped
  keyHex : manifest.encryptionKeyHex = Hex.encode wrapped
  geometry : manifest.dataShards = asI32 dataShards ∧ manifest.parityShards = asI32 parityShards
  placement : manifest.shards = uploaded.map UploadedShard.toManifest

theorem uploadDump_ok {P : Primitives} {segmentSize k m : Nat} {backupHash : String}
    {data : Bytes} {run : ReplicationRun} {uploaded : List UploadedShard} {encSize count : Int}
    {sizes : Option (List Int)}
    (h : uploadDump P segmentSize backupHash data k m run = .ok (uploaded, encSize, count, sizes)) :
    ∃ shards, StoredShards P shards run.acks uploaded ∧
      ∀ manifest : DbBackupManifest, manifest.encryptedSize = encSize →
        manifest.segmentCount = count → manifest.segmentEncSizes = sizes →
        manifest.Describes P segmentSize k m data run.encryptionKey.toList shards := by
  unfold uploadDump at h
  split at h
  next large =>
    obtain ⟨⟨up, segSizes⟩, hup, h⟩ := bind_ok h
    cases Except.ok.inj h
    obtain ⟨⟨shards, sizes⟩, hseg, hup⟩ := bind_ok hup
    obtain ⟨results, hrun, hup⟩ := bind_ok hup
    cases Except.ok.inj hup
    obtain ⟨segs, hsegs, rfl, rfl⟩ := segmentedShards_ok (mapError_ok hseg)
    refine ⟨_, storedShards_of_runUploads hrun (List.nodup_range.filter _) (by simp) ?_, ?_⟩
    · intro idx hi hlt
      simpa [hi] using hlt
    · intro manifest _ hcount hsizes
      refine .segmented large hsegs ?_ ?_
      · simpa using hcount
      · simpa [Function.comp_def] using hsizes
  next small =>
    obtain ⟨⟨shards, size⟩, hproc, h⟩ := bind_ok h
    obtain ⟨results, hrun, h⟩ := bind_ok h
    cases Except.ok.inj h
    refine ⟨shards, storedShards_of_runUploads hrun run.acks.nodup (fun _ hi => hi)
      (fun _ hi _ => hi), fun manifest hsize hcount _ => ?_⟩
    exact .single small (mapError_ok hproc) hcount hsize

theorem backupDumpFile_ok {P : Primitives} {segmentSize k m : Nat} {stored : List String}
    {data : Bytes} {apiSecret : String} {run : ReplicationRun} {manifest : DbBackupManifest}
    (h : backupDumpFile P segmentSize stored data apiSecret k m run = .ok (some manifest)) :
    ∃ shards uploaded wrapped, SnapshotStored P segmentSize k m data apiSecret run manifest shards
      uploaded wrapped := by
  unfold backupDumpFile at h
  simp only at h
  split at h
  next => simp at h
  next =>
    split at h
    next => simp at h
    next =>
      obtain ⟨⟨uploaded, encSize, count, sizes⟩, hup, h⟩ := bind_ok h
      simp only at h
      split at h
      next => simp at h
      next henough =>
        obtain ⟨wrapped, hwrap, h⟩ := bind_ok h
        split at h
        next =>
          cases Option.some.inj (Except.ok.inj h)
          obtain ⟨shards, hstored, hdesc⟩ := uploadDump_ok hup
          exact ⟨shards, uploaded, wrapped, hdesc _ rfl rfl rfl, hstored, by omega,
            mapError_ok hwrap, rfl, ⟨rfl, rfl⟩, rfl⟩
        next => simp at h

end Reminisce

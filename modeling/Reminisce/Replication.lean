import Reminisce.Encryption
import Reminisce.Upload

namespace Reminisce

open Slices Results

/-- What one replication of a file draws and meets: the nodes of the registry, the file on
disk, the fresh key and nonce, the acknowledged uploads, the fate of the transaction. -/
structure ReplicationRun where
  nodes : List (NodeId × SocketAddr)
  fileData : Option Bytes
  encryptionKey : List.Vector UInt8 32
  wrapNonce : List.Vector UInt8 12
  acks : Acks
  commits : Bool
  now : Time

def registerNodes (db : Database) (uploaded : List UploadedShard) (now : Time) : Database :=
  uploaded.foldl (fun db s => db.upsertNode s.nodeId s.addr now) db

def upsertShards (db : Database) (fileHash : String) (uploaded : List UploadedShard) : Database :=
  uploaded.foldl (fun db s =>
    db.upsertShard fileHash (asI32 s.idx) s.nodeId s.shardHashHex none) db

def markAttempt (db : Database) (table : MediaTable) (fileHash : String) (now : Time) : Database :=
  db.updateMedia table fileHash fun row => { row with p2pLastAttemptAt := some now }

/-- BLAKE3 over the stored shard hashes, in the order the uploads ended. -/
def manifestHash (P : Primitives) (uploaded : List UploadedShard) : List Char :=
  toHex (P.blake3 (uploaded.flatMap fun s => utf8 (String.ofList s.shardHashHex)))

def markSingle (manifest : List Char) (encryptedKey : Bytes) (encSize dataShards parityShards : Nat)
    (now : Time) (row : MediaRow) : MediaRow :=
  { row with
    p2pSyncedAt := some now, p2pLastAttemptAt := some now, p2pShardHash := some manifest
    p2pEncryptionKey := some encryptedKey, p2pEncryptedSize := some (asI32 encSize)
    p2pDataShards := some (asI32 dataShards), p2pParityShards := some (asI32 parityShards) }

def markSegmented (encryptedKey : Bytes) (segmentEncSizes : List Int)
    (dataShards parityShards : Nat) (now : Time) (row : MediaRow) : MediaRow :=
  { row with
    p2pSyncedAt := some now, p2pLastAttemptAt := some now
    p2pEncryptionKey := some encryptedKey, p2pEncryptedSize := some 0
    p2pSegmentCount := asI32 segmentEncSizes.length, p2pSegmentEncSizes := some segmentEncSizes
    p2pDataShards := some (asI32 dataShards), p2pParityShards := some (asI32 parityShards) }

def replicateLargeFile (P : Primitives) (segmentSize : Nat) (db : Database) (table : MediaTable)
    (fileHash : String) (file : Bytes) (apiSecret : String) (dataShards parityShards : Nat)
    (run : ReplicationRun) : Except Failure Unit × Database :=
  match uploadSegmented P segmentSize run.nodes fileHash file run.encryptionKey.toList dataShards
    parityShards run.acks with
  | .error f => (.error f, db)
  | .ok (shardResults, segmentEncSizes) =>
    if shardResults.length < dataShards then
      (.error (.error (s!"Only {shardResults.length}/{dataShards + parityShards} shards stored " ++
        s!"for large file {fileHash}. Minimum {dataShards} required.")), db)
    else
      match encryptKey P run.encryptionKey.toList apiSecret run.wrapNonce.toList with
      | .error e => (.error (.error e), db)
      | .ok encryptedKey =>
        let registered := registerNodes db shardResults run.now
        if run.commits then
          (.ok (), (upsertShards registered fileHash shardResults).updateMedia table fileHash
            (markSegmented encryptedKey segmentEncSizes dataShards parityShards run.now))
        else (.error (.error "db error"), registered)

def replicateSingleFile (P : Primitives) (segmentSize : Nat) (db : Database) (table : MediaTable)
    (fileHash : String) (apiSecret : String) (dataShards parityShards : Nat)
    (run : ReplicationRun) : Except Failure Unit × Database :=
  match run.fileData with
  | none => (.ok (), markAttempt db table fileHash run.now)
  | some fileData =>
    if segmentSize < fileData.length then
      replicateLargeFile P segmentSize db table fileHash fileData apiSecret dataShards
        parityShards run
    else
      match processForBackup P fileData run.encryptionKey.toList run.encryptionKey.toList
        dataShards parityShards with
      | .error e => (.error (.error e.text), db)
      | .ok (shards, encSize) =>
        match uploadInmemory P run.nodes fileHash shards run.acks with
        | .error f => (.error f, db)
        | .ok finalResults =>
          if finalResults.length < dataShards then
            (.error (.error (s!"Only {finalResults.length}/{dataShards + parityShards} shards " ++
              s!"stored. Minimum {dataShards} required (for reconstruction).")), db)
          else
            let registered := registerNodes db finalResults run.now
            match encryptKey P run.encryptionKey.toList apiSecret run.wrapNonce.toList with
            | .error e => (.error (.error e), registered)
            | .ok encryptedKey =>
              if run.commits then
                (.ok (), (upsertShards registered fileHash finalResults).updateMedia table fileHash
                  (markSingle (manifestHash P finalResults) encryptedKey encSize dataShards
                    parityShards run.now))
              else (.error (.error "db error"), registered)

/-- The body of `replicate_batch`: a failed file is put off by a stamp. -/
def replicateFile (P : Primitives) (segmentSize : Nat) (db : Database) (table : MediaTable)
    (fileHash : String) (apiSecret : String) (dataShards parityShards : Nat)
    (run : ReplicationRun) : Database :=
  match replicateSingleFile P segmentSize db table fileHash apiSecret dataShards parityShards
    run with
  | (.ok (), db) => db
  | (.error .panic, db) => db
  | (.error (.error _), db) => markAttempt db table fileHash run.now

@[simp] theorem registerNodes_p2pShards (db : Database) (uploaded : List UploadedShard)
    (now : Time) : (registerNodes db uploaded now).p2pShards = db.p2pShards := by
  unfold registerNodes
  induction uploaded generalizing db with
  | nil => rfl
  | cons s uploaded ih =>
    rw [List.foldl_cons, ih]
    simp

@[simp] theorem registerNodes_media (db : Database) (uploaded : List UploadedShard) (now : Time)
    (table : MediaTable) : (registerNodes db uploaded now).media table = db.media table := by
  unfold registerNodes
  induction uploaded generalizing db with
  | nil => rfl
  | cons s uploaded ih =>
    rw [List.foldl_cons, ih]
    simp

@[simp] theorem upsertShards_media (db : Database) (fileHash : String)
    (uploaded : List UploadedShard) (table : MediaTable) :
    (upsertShards db fileHash uploaded).media table = db.media table := by
  unfold upsertShards
  induction uploaded generalizing db with
  | nil => rfl
  | cons s uploaded ih =>
    rw [List.foldl_cons, ih]
    simp

@[simp] theorem markAttempt_p2pShards (db : Database) (table : MediaTable) (fileHash : String)
    (now : Time) : (markAttempt db table fileHash now).p2pShards = db.p2pShards := by
  simp [markAttempt]

/-- The shard rows are the same, and the media rows are the same but for attempt stamps. -/
def Unrecorded (before after : Database) : Prop :=
  after.p2pShards = before.p2pShards ∧ ∀ table, ∀ new ∈ after.media table,
    ∃ old ∈ before.media table, ∃ stamp, new = { old with p2pLastAttemptAt := stamp }

theorem unrecorded_of_eq {before after : Database} (hs : after.p2pShards = before.p2pShards)
    (hm : ∀ table, after.media table = before.media table) : Unrecorded before after := by
  refine ⟨hs, fun table new hnew => ⟨new, ?_, new.p2pLastAttemptAt, rfl⟩⟩
  rwa [← hm table]

theorem unrecorded_markAttempt {before after : Database} (h : Unrecorded before after)
    (table : MediaTable) (fileHash : String) (now : Time) :
    Unrecorded before (markAttempt after table fileHash now) := by
  refine ⟨by rw [markAttempt_p2pShards, h.1], fun other new hnew => ?_⟩
  by_cases hne : other = table
  · subst hne
    rw [markAttempt, Database.updateMedia_same] at hnew
    obtain ⟨mid, hmid, rfl⟩ := List.mem_map.mp hnew
    obtain ⟨old, hold, stamp, rfl⟩ := h.2 other mid hmid
    split
    · exact ⟨old, hold, some now, rfl⟩
    · exact ⟨old, hold, stamp, rfl⟩
  · rw [markAttempt, Database.updateMedia_other _ hne] at hnew
    exact h.2 other new hnew

/-- The change of a media row that records a backup, with the shards of that backup. -/
inductive MarksBackup (P : Primitives) (segmentSize dataShards parityShards : Nat)
    (key file wrapped : Bytes) (now : Time) : (MediaRow → MediaRow) → List Bytes → Prop
  | single {shards : List Bytes} {size : Nat} (manifest : List Char)
      (small : ¬ segmentSize < file.length)
      (process : processForBackup P file key key dataShards parityShards = .ok (shards, size)) :
      MarksBackup P segmentSize dataShards parityShards key file wrapped now
        (markSingle manifest wrapped size dataShards parityShards now) shards
  | segmented {shards : List Bytes} {sizes : List Nat} (large : segmentSize < file.length)
      (process : segmentedShards P segmentSize file key dataShards parityShards =
        .ok (shards, sizes)) :
      MarksBackup P segmentSize dataShards parityShards key file wrapped now
        (markSegmented wrapped (sizes.map asI64) dataShards parityShards now) shards

/-- The uploads that a commit records are acknowledged shards of the backup, one for each
index. -/
structure StoredShards (P : Primitives) (shards : List Bytes) (acks : Acks)
    (uploaded : List UploadedShard) : Prop where
  acked : ∀ s ∈ uploaded, s.idx ∈ acks.order
  stored : ∀ s ∈ uploaded, ∃ data, shards[s.idx]? = some data ∧ data.length ≤ maxShardBytes ∧
    s.shardHashHex = toHex (P.blake3 data)
  complete : ∀ idx ∈ acks.order, ∀ data, shards[idx]? = some data →
    data.length ≤ maxShardBytes → ∃ s ∈ uploaded, s.idx = idx
  distinct : (uploaded.map (·.idx)).Nodup

variable {P : Primitives} {segmentSize k m : Nat} {db : Database} {table : MediaTable}
  {fileHash apiSecret : String} {run : ReplicationRun}

theorem storedShards_of_runUploads {nodes : List (NodeId × SocketAddr)} {shards : List Bytes}
    {order : List Nat} {uploaded : List UploadedShard} {acks : Acks}
    (h : runUploads P nodes fileHash shards order = .ok uploaded) (hn : order.Nodup)
    (hsub : ∀ idx ∈ order, idx ∈ acks.order)
    (hall : ∀ idx ∈ acks.order, idx < shards.length → idx ∈ order) :
    StoredShards P shards acks uploaded where
  acked _ hs := hsub _ (runUploads_mem h hs).1
  stored _ hs := (runUploads_mem h hs).2
  complete idx hi data hd hle := by
    obtain ⟨hlt, _⟩ := List.getElem?_eq_some_iff.mp hd
    exact runUploads_complete h (hall idx hi hlt) hd hle
  distinct := runUploads_indices h hn

/-- What a commit writes: the rows of the uploaded shards and the mark on the media rows. -/
structure Committed (P : Primitives) (segmentSize dataShards parityShards : Nat)
    (table : MediaTable) (fileHash apiSecret : String) (run : ReplicationRun)
    (before after : Database) (file : Bytes) (shards : List Bytes) (uploaded : List UploadedShard)
    (wrapped : Bytes) (mark : MediaRow → MediaRow) : Prop where
  fileData : run.fileData = some file
  marks : MarksBackup P segmentSize dataShards parityShards run.encryptionKey.toList file wrapped
    run.now mark shards
  uploads : StoredShards P shards run.acks uploaded
  enough : dataShards ≤ uploaded.length
  commits : run.commits = true
  wrap : encryptKey P run.encryptionKey.toList apiSecret run.wrapNonce.toList = .ok wrapped
  after_eq : after = (upsertShards (registerNodes before uploaded run.now) fileHash
    uploaded).updateMedia table fileHash mark

theorem replicateLargeFile_cases {file : Bytes} (hfile : run.fileData = some file)
    (large : segmentSize < file.length) {res : Except Failure Unit} {after : Database}
    (h : replicateLargeFile P segmentSize db table fileHash file apiSecret k m run =
      (res, after)) :
    (res ≠ .ok () ∧ Unrecorded db after) ∨ (res = .ok () ∧ ∃ shards uploaded wrapped mark,
      Committed P segmentSize k m table fileHash apiSecret run db after file shards uploaded
        wrapped mark) := by
  have same : Unrecorded db db := unrecorded_of_eq rfl fun _ => rfl
  unfold replicateLargeFile at h
  split at h
  next => cases h; exact Or.inl ⟨by simp, same⟩
  next shardResults encSizes hup =>
    split at h
    next => cases h; exact Or.inl ⟨by simp, same⟩
    next henough =>
      split at h
      next => cases h; exact Or.inl ⟨by simp, same⟩
      next wrapped hwrap =>
        simp only at h
        split at h
        next hcommit =>
          cases h
          obtain ⟨⟨shards, sizes⟩, hseg, hup⟩ := bind_ok hup
          obtain ⟨uploaded, hrun, hup⟩ := bind_ok hup
          cases Except.ok.inj hup
          refine Or.inr ⟨rfl, shards, shardResults, wrapped, _, hfile,
            .segmented large (mapError_ok hseg), ?_, by omega, hcommit, hwrap, rfl⟩
          have hlen : shards.length = k + m := by
            obtain ⟨_, _, rfl, _⟩ := segmentedShards_ok (mapError_ok hseg)
            simp
          exact storedShards_of_runUploads hrun (List.nodup_range.filter _) (by simp)
            fun idx hi hlt => by simpa [hi, ← hlen] using hlt
        next =>
          cases h
          exact Or.inl ⟨by simp, unrecorded_of_eq (by simp) (by simp)⟩

/-- A replication either records a backup of the file as a whole or leaves the shard rows
and the backup columns alone. -/
theorem replicateSingleFile_cases {res : Except Failure Unit} {after : Database}
    (h : replicateSingleFile P segmentSize db table fileHash apiSecret k m run = (res, after)) :
    ((res ≠ .ok () ∨ run.fileData = none) ∧ Unrecorded db after) ∨
      (res = .ok () ∧ ∃ file shards uploaded wrapped mark,
        Committed P segmentSize k m table fileHash apiSecret run db after file shards uploaded
          wrapped mark) := by
  have same : Unrecorded db db := unrecorded_of_eq rfl fun _ => rfl
  unfold replicateSingleFile at h
  split at h
  next hnone =>
    cases h
    exact Or.inl ⟨Or.inr hnone, unrecorded_markAttempt same _ _ _⟩
  next file hfile =>
    split at h
    next large =>
      rcases replicateLargeFile_cases hfile large h with ⟨hres, hun⟩ | ⟨hres, hcom⟩
      · exact Or.inl ⟨Or.inl hres, hun⟩
      · exact Or.inr ⟨hres, file, hcom⟩
    next small =>
      split at h
      next => cases h; exact Or.inl ⟨by simp, same⟩
      next shards size hproc =>
        split at h
        next => cases h; exact Or.inl ⟨by simp, same⟩
        next uploaded hup =>
          split at h
          next => cases h; exact Or.inl ⟨by simp, same⟩
          next henough =>
            simp only at h
            split at h
            next =>
              cases h
              exact Or.inl ⟨by simp, unrecorded_of_eq (by simp) (by simp)⟩
            next wrapped hwrap =>
              split at h
              next hcommit =>
                cases h
                refine Or.inr ⟨rfl, file, shards, uploaded, wrapped, _, hfile,
                  .single _ small hproc, ?_, by omega, hcommit, hwrap, rfl⟩
                exact storedShards_of_runUploads hup run.acks.nodup (fun _ hi => hi)
                  fun _ hi _ => hi
              next =>
                cases h
                exact Or.inl ⟨by simp, unrecorded_of_eq (by simp) (by simp)⟩

theorem replicateFile_cases :
    Unrecorded db (replicateFile P segmentSize db table fileHash apiSecret k m run) ∨
      ∃ file shards uploaded wrapped mark, Committed P segmentSize k m table fileHash apiSecret
        run db (replicateFile P segmentSize db table fileHash apiSecret k m run) file shards
        uploaded wrapped mark := by
  unfold replicateFile
  split
  next after h =>
    rcases replicateSingleFile_cases h with ⟨_, hun⟩ | ⟨_, hcom⟩
    · exact Or.inl hun
    · exact Or.inr hcom
  next after h =>
    rcases replicateSingleFile_cases h with ⟨_, hun⟩ | ⟨hres, _⟩
    · exact Or.inl hun
    · simp at hres
  next after h =>
    rcases replicateSingleFile_cases h with ⟨_, hun⟩ | ⟨hres, _⟩
    · exact Or.inl (unrecorded_markAttempt hun _ _ _)
    · simp at hres

end Reminisce

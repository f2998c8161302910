import Reminisce.Library.Runs
import Reminisce.PeerSync
import Reminisce.RestoreUploaded

namespace Reminisce

open Slices Results

/-- The number of shards of a file on nodes that are active and seen in the last ten minutes. -/
def reachableShards (db : Database) (now : Time) (fileHash : String) : Nat :=
  db.p2pShards.countP fun row => row.fileHash = fileHash ∧
    ∃ node ∈ db.p2pNodes, node.nodeId = row.nodeId ∧ node.isActive ∧ now < node.lastSeen + secs 600

def cooledDown (now : Time) (row : MediaRow) : Prop :=
  ∀ attempt ∈ row.p2pLastAttemptAt, attempt + secs 600 < now

instance (now : Time) (row : MediaRow) : Decidable (cooledDown now row) :=
  inferInstanceAs (Decidable (∀ attempt ∈ row.p2pLastAttemptAt, attempt + secs 600 < now))

/-- One table of `requeue_under_replicated`; `oldest` are the hashes that the `ORDER BY
created_at LIMIT` of the inner query lets through. -/
def requeueTable (db : Database) (now : Time) (targetShards : Nat) (oldest : List String)
    (rows : List MediaRow) : List MediaRow :=
  rows.map fun row =>
    if row.deletedAt = none ∧ row.p2pSyncedAt ≠ none ∧ cooledDown now row ∧ row.hash ∈ oldest ∧
      reachableShards db now row.hash < targetShards then { row with p2pSyncedAt := none }
    else row

def requeueUnderReplicated (db : Database) (now : Time) (targetShards : Nat)
    (oldest : MediaTable → List String) : Database :=
  { db with
    images := requeueTable db now targetShards (oldest .images) db.images
    videos := requeueTable db now targetShards (oldest .videos) db.videos }

/-- The row that ingest inserts; the backup columns have their defaults. -/
def ingestedRow (userId : UserId) (hash name ext : String) : MediaRow :=
  { userId, hash, name, ext, deletedAt := none
    p2pSyncedAt := none, p2pLastAttemptAt := none, p2pShardHash := none, p2pEncryptionKey := none
    p2pEncryptedSize := none, p2pSegmentCount := 1, p2pSegmentEncSizes := none
    p2pDataShards := none, p2pParityShards := none }

/-- `INSERT ... ON CONFLICT (user_id, hash) DO UPDATE SET deleted_at = NULL`. -/
def ingestInto (userId : UserId) (hash name ext : String) (rows : List MediaRow) :
    List MediaRow :=
  if rows.any fun row => row.userId = userId ∧ row.hash = hash then
    rows.map fun row =>
      if row.userId = userId ∧ row.hash = hash then { row with deletedAt := none } else row
  else rows ++ [ingestedRow userId hash name ext]

def markDeleted (userId : UserId) (hash : String) (deletedAt : Option Time)
    (rows : List MediaRow) : List MediaRow :=
  rows.map fun row => if row.userId = userId ∧ row.hash = hash then { row with deletedAt } else row

def Database.mapMedia (db : Database) (table : MediaTable)
    (change : List MediaRow → List MediaRow) : Database :=
  match table with
  | .images => { db with images := change db.images }
  | .videos => { db with videos := change db.videos }

/-- What happens to the tables between two restores. -/
inductive BackupEvent
  | ingest (table : MediaTable) (userId : UserId) (hash name ext : String)
  | setDeleted (table : MediaTable) (userId : UserId) (hash : String) (deletedAt : Option Time)
  | requeue (now : Time) (oldest : MediaTable → List String)
  | replicate (table : MediaTable) (hash : String) (run : ReplicationRun)

/-- One event; a replication reads the local original of its hash or finds none. -/
def backupStep (P : Primitives) (original : String → Bytes) (apiSecret : String) (db : Database) :
    BackupEvent → Option Database
  | .ingest table userId hash name ext => some (db.mapMedia table (ingestInto userId hash name ext))
  | .setDeleted table userId hash deletedAt =>
    some (db.mapMedia table (markDeleted userId hash deletedAt))
  | .requeue now oldest => some (requeueUnderReplicated db now Erasure.dataShards oldest)
  | .replicate table hash run =>
    if run.fileData = none ∨ run.fileData = some (original hash) then
      some (replicateFile P segmentThreshold db table hash apiSecret Erasure.dataShards
        Erasure.parityShards run)
    else none

/-- Every recorded shard belongs to the key that restore reads for the file. -/
def ShardsMatchKey (P : Primitives) (original : String → Bytes) (apiSecret : String)
    (db : Database) : Prop :=
  ∀ hash owner rec, queryFileRecord P db hash owner apiSecret = .ok (some rec) →
    ∀ row ∈ db.p2pShards, row.fileHash = hash →
      ∃ shards, backupShards P segmentThreshold (original hash) rec.encryptionKey 3 2 =
        .ok shards ∧ row.Names P shards

/-- Three intact shards are enough to get the original back. -/
def RestoresOriginals (P : Primitives) (original : String → Bytes) (apiSecret : String)
    (db : Database) : Prop :=
  ∀ hash owner rec shards fetch (calls : Finset Nat),
    queryFileRecord P db hash owner apiSecret = .ok (some rec) →
    backupShards P segmentThreshold (original hash) rec.encryptionKey 3 2 = .ok shards →
    CollisionFree P shards fetch → 3 ≤ calls.card →
    (∀ p ∈ calls, Intact P fetch (db.shardsOf hash) shards p) →
      ∃ filename mediaType, restoreFileWithFetcher P db hash owner fetch apiSecret =
        .ok { data := original hash, filename, mediaType }

/-- A commit replaces every recorded shard of its hash, and the other table holds no key
for the hash. -/
def ReplacesGeneration (db : Database) : BackupEvent → Prop
  | .replicate table hash run =>
    run.commits = true → run.fileData ≠ none →
      Erasure.dataShards ≤ (run.acks.order.filter (· < Erasure.totalShards)).length →
      (∀ row ∈ db.p2pShards, row.fileHash = hash →
        ∃ idx ∈ run.acks.order, idx < Erasure.totalShards ∧ row.shardIndex = idx) ∧
      ∀ other ≠ table, ∀ row ∈ db.media other, row.hash = hash → row.p2pEncryptionKey = none
  | _ => True

/-- One generation of shards for each file: what every conforming run keeps. -/
structure OneGeneration (P : Primitives) (original : String → Bytes) (apiSecret : String)
    (db : Database) : Prop where
  unique : db.shardKeys.Nodup
  count : ∀ table, ∀ row ∈ db.media table, ¬ segmentThreshold < (original row.hash).length →
    row.p2pSegmentCount = 1
  described : ∀ table, ∀ row ∈ db.media table, ∀ rec, fileRecordOf P apiSecret table row = .ok rec →
    ∃ shards, rec.Describes P segmentThreshold 3 2 (original row.hash) shards ∧
      (∃ s ∈ shards, s.length ≤ maxShardBytes) ∧
      ∀ shardRow ∈ db.p2pShards, shardRow.fileHash = row.hash → shardRow.Names P shards

/-- A row as far as restore reads it. -/
def SameBackup (old new : MediaRow) : Prop :=
  ∃ deletedAt syncedAt attemptAt, new = { old with
    deletedAt := deletedAt, p2pSyncedAt := syncedAt, p2pLastAttemptAt := attemptAt }

theorem sameBackup_refl (row : MediaRow) : SameBackup row row :=
  ⟨row.deletedAt, row.p2pSyncedAt, row.p2pLastAttemptAt, rfl⟩

variable {P : Primitives} {original : String → Bytes} {apiSecret : String} {db after : Database}

/-- Events that write no backup: each row has the backup columns of an old row or none. -/
theorem oneGeneration_of_same (hinv : OneGeneration P original apiSecret db)
    (hshards : after.p2pShards = db.p2pShards)
    (hrows : ∀ table, ∀ new ∈ after.media table, (∃ old ∈ db.media table, SameBackup old new) ∨
      (new.p2pEncryptionKey = none ∧ new.p2pSegmentCount = 1)) :
    OneGeneration P original apiSecret after where
  unique := by
    rw [Database.shardKeys, hshards]
    exact hinv.unique
  count := by
    intro table row hrow hsmall
    rcases hrows table row hrow with ⟨old, hold, _, _, _, rfl⟩ | ⟨_, hcount⟩
    · exact hinv.count table old hold hsmall
    · exact hcount
  described := by
    intro table row hrow rec hrec
    rcases hrows table row hrow with ⟨old, hold, _, _, _, rfl⟩ | ⟨hkey, _⟩
    · rw [hshards]
      exact hinv.described table old hold rec hrec
    · obtain ⟨w, _, hw, _⟩ := fileRecordOf_ok hrec
      rw [hkey] at hw
      simp at hw

@[simp] theorem Database.mapMedia_p2pShards (db : Database) (table : MediaTable)
    (change : List MediaRow → List MediaRow) :
    (db.mapMedia table change).p2pShards = db.p2pShards := by
  cases table <;> rfl

theorem Database.mapMedia_mem {table other : MediaTable}
    {change : List MediaRow → List MediaRow} {row : MediaRow}
    (h : row ∈ (db.mapMedia table change).media other) :
    (other = table ∧ row ∈ change (db.media other)) ∨ row ∈ db.media other := by
  cases table <;> cases other <;> first | exact Or.inl ⟨rfl, h⟩ | exact Or.inr h

theorem mem_ingestInto {userId : UserId} {hash name ext : String} {rows : List MediaRow}
    {new : MediaRow} (h : new ∈ ingestInto userId hash name ext rows) :
    (∃ old ∈ rows, SameBackup old new) ∨
      (new.p2pEncryptionKey = none ∧ new.p2pSegmentCount = 1) := by
  unfold ingestInto at h
  split at h
  next =>
    obtain ⟨old, hold, rfl⟩ := List.mem_map.mp h
    refine Or.inl ⟨old, hold, ?_⟩
    split
    · exact ⟨none, old.p2pSyncedAt, old.p2pLastAttemptAt, rfl⟩
    · exact sameBackup_refl old
  next =>
    rcases List.mem_append.mp h with hold | hnew
    · exact Or.inl ⟨new, hold, sameBackup_refl new⟩
    · rw [List.mem_singleton.mp hnew]
      exact Or.inr ⟨rfl, rfl⟩

theorem mem_markDeleted {userId : UserId} {hash : String} {deletedAt : Option Time}
    {rows : List MediaRow} {new : MediaRow} (h : new ∈ markDeleted userId hash deletedAt rows) :
    ∃ old ∈ rows, SameBackup old new := by
  obtain ⟨old, hold, rfl⟩ := List.mem_map.mp h
  refine ⟨old, hold, ?_⟩
  split
  · exact ⟨deletedAt, old.p2pSyncedAt, old.p2pLastAttemptAt, rfl⟩
  · exact sameBackup_refl old

theorem mem_requeueTable {now : Time} {target : Nat} {oldest : List String}
    {rows : List MediaRow} {new : MediaRow}
    (h : new ∈ requeueTable db now target oldest rows) : ∃ old ∈ rows, SameBackup old new := by
  obtain ⟨old, hold, rfl⟩ := List.mem_map.mp h
  refine ⟨old, hold, ?_⟩
  split
  · exact ⟨old.deletedAt, none, old.p2pLastAttemptAt, rfl⟩
  · exact sameBackup_refl old

theorem requeue_mem {now : Time} {target : Nat} {oldest : MediaTable → List String}
    {table : MediaTable} {new : MediaRow}
    (h : new ∈ (requeueUnderReplicated db now target oldest).media table) :
    ∃ old ∈ db.media table, SameBackup old new := by
  cases table with
  | images => exact mem_requeueTable h
  | videos => exact mem_requeueTable h

/-- What a commit under the condition does to the one generation: it becomes the new one. -/
theorem oneGeneration_commit (hinv : OneGeneration P original apiSecret db) {table : MediaTable}
    {hash : String} {run : ReplicationRun} {shards : List Bytes} {uploaded : List UploadedShard}
    {wrapped : Bytes} {mark : MediaRow → MediaRow}
    (hc : Committed P segmentThreshold 3 2 table hash apiSecret run db after (original hash) shards
      uploaded wrapped mark)
    (hcover : ∀ row ∈ db.p2pShards, row.fileHash = hash →
      ∃ idx ∈ run.acks.order, idx < 3 + 2 ∧ row.shardIndex = idx)
    (hother : ∀ other ≠ table, ∀ row ∈ db.media other, row.hash = hash →
      row.p2pEncryptionKey = none) :
    OneGeneration P original apiSecret after where
  unique := hc.unique hinv.unique
  count := by
    intro found row hrow hsmall
    by_cases hh : row.hash = hash
    · rcases hc.row_cases hrow hh with ⟨rfl, old, hold, hoh, rfl⟩ | ⟨_, hold⟩
      · have hsame := (hc.marks.identity old).1
        rw [hsame] at hsmall
        have hcount := hinv.count found old hold hsmall
        cases hc.marks with
        | single => exact hcount
        | segmented large =>
          rw [hoh] at hsmall
          exact absurd large hsmall
      · exact hinv.count found row hold hsmall
    · exact hinv.count found row (hc.row_kept hrow hh) hsmall
  described := by
    intro found row hrow rec hrec
    by_cases hh : row.hash = hash
    · rw [hh]
      rcases hc.row_cases hrow hh with ⟨rfl, old, hold, hoh, rfl⟩ | ⟨hne, hold⟩
      · refine ⟨shards, hc.marks.describes hc.unwraps (fun hsmall => ?_) hrec, ?_,
          hc.names (by omega) (by omega) hcover⟩
        · exact hinv.count found old hold (by rwa [hoh])
        · have hlen := length_backupShards hc.marks.backup
          exact ⟨shards[0], List.getElem_mem _, hc.shard_fits (by omega) _ (List.getElem_mem _)⟩
      · obtain ⟨w, _, hw, _⟩ := fileRecordOf_ok hrec
        rw [hother found hne row hold hh] at hw
        simp at hw
    · obtain ⟨shards', hdesc, hfits, hnames⟩ :=
        hinv.described found row (hc.row_kept hrow hh) rec hrec
      refine ⟨shards', hdesc, hfits, fun shardRow hs hf => ?_⟩
      refine hnames shardRow (hc.shard_kept hs ?_) hf
      rw [hf]
      exact hh

end Reminisce

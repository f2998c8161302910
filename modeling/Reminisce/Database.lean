import Reminisce.Library.Keyed
import Reminisce.Primitives

namespace Reminisce

abbrev NodeId := String

abbrev Time := Nat

inductive IpAddr
  | v4 (a b c d : UInt8)
  | v6 (segments : List UInt16)
  deriving DecidableEq, Repr

structure SocketAddr where
  ip : IpAddr
  port : UInt16
  deriving DecidableEq, Repr

/-- The media tables, named by the `table` argument of the workers. -/
inductive MediaTable
  | images
  | videos
  deriving DecidableEq, Repr

/-- A row of `images` or `videos`; the columns the backup code does not touch are left out. -/
structure MediaRow where
  userId : UserId
  hash : String
  name : String
  ext : String
  deletedAt : Option Time
  p2pSyncedAt : Option Time
  p2pLastAttemptAt : Option Time
  p2pShardHash : Option (List Char)
  p2pEncryptionKey : Option Bytes
  p2pEncryptedSize : Option Int
  p2pSegmentCount : Int
  p2pSegmentEncSizes : Option (List Int)
  p2pDataShards : Option Int
  p2pParityShards : Option Int
  deriving DecidableEq, Repr

structure ShardRow where
  id : Nat
  fileHash : String
  shardIndex : Int
  nodeId : NodeId
  shardHash : List Char
  lastCheckedAt : Option Time
  deriving DecidableEq, Repr

/-- A row of `p2p_nodes`; `publicAddr` is `none` when the stored text is no socket address. -/
structure NodeRow where
  nodeId : NodeId
  publicAddr : Option SocketAddr
  lastSeen : Time
  isActive : Bool
  deriving DecidableEq, Repr

structure Database where
  images : List MediaRow
  videos : List MediaRow
  p2pShards : List ShardRow
  p2pNodes : List NodeRow
  nextShardId : Nat
  deriving DecidableEq, Repr

def Database.media (db : Database) : MediaTable → List MediaRow
  | .images => db.images
  | .videos => db.videos

/-- `UPDATE table SET ... WHERE hash = $1`. -/
def Database.updateMedia (db : Database) (table : MediaTable) (hash : String)
    (change : MediaRow → MediaRow) : Database :=
  let update := List.map fun row : MediaRow => if row.hash = hash then change row else row
  match table with
  | .images => { db with images := update db.images }
  | .videos => { db with videos := update db.videos }

/-- `INSERT INTO p2p_nodes ... ON CONFLICT (node_id) DO UPDATE SET public_addr, is_active,
last_seen`. -/
def Database.upsertNode (db : Database) (nodeId : NodeId) (addr : SocketAddr) (now : Time) :
    Database :=
  if db.p2pNodes.any (·.nodeId = nodeId) then
    { db with p2pNodes := db.p2pNodes.map fun row =>
        if row.nodeId = nodeId then
          { row with publicAddr := some addr, isActive := true, lastSeen := now } else row }
  else { db with p2pNodes := db.p2pNodes ++ [⟨nodeId, some addr, now, true⟩] }

/-- `INSERT INTO p2p_shards ... ON CONFLICT (file_hash, shard_index) DO UPDATE SET node_id,
shard_hash`, with the change of `last_checked_at` that the statement makes. -/
def Database.upsertShard (db : Database) (fileHash : String) (shardIndex : Int)
    (nodeId : NodeId) (shardHash : List Char) (checked : Option Time) : Database :=
  if db.p2pShards.any fun row => row.fileHash = fileHash ∧ row.shardIndex = shardIndex then
    { db with p2pShards := db.p2pShards.map fun row =>
        if row.fileHash = fileHash ∧ row.shardIndex = shardIndex then
          { row with nodeId, shardHash, lastCheckedAt := checked <|> row.lastCheckedAt }
        else row }
  else
    { db with
      p2pShards := db.p2pShards ++
        [⟨db.nextShardId, fileHash, shardIndex, nodeId, shardHash, checked⟩]
      nextShardId := db.nextShardId + 1 }

/-- `SELECT ... FROM p2p_shards WHERE file_hash = $1 ORDER BY shard_index`. -/
def Database.shardsOf (db : Database) (fileHash : String) : List ShardRow :=
  (db.p2pShards.filter (·.fileHash = fileHash)).mergeSort
    fun a b => decide (a.shardIndex ≤ b.shardIndex)

theorem Database.mem_shardsOf {db : Database} {fileHash : String} {row : ShardRow} :
    row ∈ db.shardsOf fileHash ↔ row ∈ db.p2pShards ∧ row.fileHash = fileHash := by
  simp [shardsOf]

@[simp] theorem Database.upsertNode_p2pShards (db : Database) (nodeId : NodeId)
    (addr : SocketAddr) (now : Time) : (db.upsertNode nodeId addr now).p2pShards = db.p2pShards := by
  unfold upsertNode
  split <;> rfl

@[simp] theorem Database.upsertNode_media (db : Database) (nodeId : NodeId) (addr : SocketAddr)
    (now : Time) (table : MediaTable) : (db.upsertNode nodeId addr now).media table = db.media table := by
  unfold upsertNode
  cases table <;> split <;> rfl

@[simp] theorem Database.upsertShard_media (db : Database) (fileHash : String) (shardIndex : Int)
    (nodeId : NodeId) (shardHash : List Char) (checked : Option Time) (table : MediaTable) :
    (db.upsertShard fileHash shardIndex nodeId shardHash checked).media table = db.media table := by
  unfold upsertShard
  cases table <;> split <;> rfl

@[simp] theorem Database.updateMedia_p2pShards (db : Database) (table : MediaTable)
    (hash : String) (change : MediaRow → MediaRow) :
    (db.updateMedia table hash change).p2pShards = db.p2pShards := by
  cases table <;> rfl

@[simp] theorem Database.updateMedia_same (db : Database) (table : MediaTable) (hash : String)
    (change : MediaRow → MediaRow) : (db.updateMedia table hash change).media table =
      (db.media table).map fun row => if row.hash = hash then change row else row := by
  cases table <;> rfl

theorem Database.updateMedia_other (db : Database) {table other : MediaTable} (hne : other ≠ table)
    (hash : String) (change : MediaRow → MediaRow) :
    (db.updateMedia table hash change).media other = db.media other := by
  cases table <;> cases other <;> first | rfl | exact absurd rfl hne

/-- What a row written by `upsertShard` can be. -/
theorem Database.mem_upsertShard {db : Database} {fileHash : String} {shardIndex : Int}
    {nodeId : NodeId} {shardHash : List Char} {checked : Option Time} {row : ShardRow}
    (h : row ∈ (db.upsertShard fileHash shardIndex nodeId shardHash checked).p2pShards) :
    (row.fileHash = fileHash ∧ row.shardIndex = shardIndex ∧ row.nodeId = nodeId ∧
        row.shardHash = shardHash) ∨
      (row ∈ db.p2pShards ∧ ¬(row.fileHash = fileHash ∧ row.shardIndex = shardIndex)) := by
  unfold upsertShard at h
  split at h
  next =>
    obtain ⟨old, hold, rfl⟩ := List.mem_map.mp h
    by_cases hkey : old.fileHash = fileHash ∧ old.shardIndex = shardIndex
    · left
      simp [hkey]
    · right
      simp [hkey, hold]
  next hnone =>
    rcases List.mem_append.mp h with h | h
    · right
      refine ⟨h, fun hkey => hnone ?_⟩
      exact List.any_eq_true.mpr ⟨row, h, by simpa using hkey⟩
    · left
      have : row = ⟨db.nextShardId, fileHash, shardIndex, nodeId, shardHash, checked⟩ := by
        simpa using h
      simp [this]

/-- The uniqueness constraint of `p2p_shards`. -/
def Database.shardKeys (db : Database) : List (String × Int) :=
  db.p2pShards.map fun row => (row.fileHash, row.shardIndex)

theorem Database.upsertShard_nodup {db : Database} (hn : db.shardKeys.Nodup) (fileHash : String)
    (shardIndex : Int) (nodeId : NodeId) (shardHash : List Char) (checked : Option Time) :
    (db.upsertShard fileHash shardIndex nodeId shardHash checked).shardKeys.Nodup := by
  unfold upsertShard
  split
  next =>
    have hsame : ∀ row ∈ db.p2pShards, ((fun row : ShardRow => (row.fileHash, row.shardIndex)) ∘
        fun row : ShardRow => if row.fileHash = fileHash ∧ row.shardIndex = shardIndex then
          { row with nodeId, shardHash, lastCheckedAt := checked <|> row.lastCheckedAt }
        else row) row = (row.fileHash, row.shardIndex) := by
      intro row _
      simp only [Function.comp_apply]
      split <;> rfl
    simp only [shardKeys, List.map_map]
    rwa [List.map_congr_left hsame]
  next hnone =>
    refine Keyed.nodup_append hn fun row hrow heq => ?_
    refine hnone (List.any_eq_true.mpr ⟨row, hrow, ?_⟩)
    simpa using heq

/-- The row that `upsertShard` writes is there afterwards. -/
theorem Database.exists_upsertShard (db : Database) (fileHash : String) (shardIndex : Int)
    (nodeId : NodeId) (shardHash : List Char) (checked : Option Time) :
    ∃ row ∈ (db.upsertShard fileHash shardIndex nodeId shardHash checked).p2pShards,
      row.fileHash = fileHash ∧ row.shardIndex = shardIndex := by
  unfold upsertShard
  split
  next hany =>
    obtain ⟨row, hrow, hkey⟩ := List.any_eq_true.mp hany
    have hkey' : row.fileHash = fileHash ∧ row.shardIndex = shardIndex := by simpa using hkey
    refine ⟨_, List.mem_map.mpr ⟨row, hrow, rfl⟩, ?_⟩
    simp [hkey']
  next => exact ⟨_, List.mem_append_right _ (List.mem_singleton_self _), rfl, rfl⟩

/-- No key disappears. -/
theorem Database.upsertShard_keeps {db : Database} {row : ShardRow} (h : row ∈ db.p2pShards)
    (fileHash : String) (shardIndex : Int) (nodeId : NodeId) (shardHash : List Char)
    (checked : Option Time) :
    ∃ new ∈ (db.upsertShard fileHash shardIndex nodeId shardHash checked).p2pShards,
      new.fileHash = row.fileHash ∧ new.shardIndex = row.shardIndex := by
  unfold upsertShard
  split
  next =>
    refine ⟨_, List.mem_map.mpr ⟨row, h, rfl⟩, ?_⟩
    split <;> simp
  next => exact ⟨row, List.mem_append_left _ h, rfl, rfl⟩

end Reminisce

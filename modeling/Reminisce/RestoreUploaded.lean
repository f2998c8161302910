import Reminisce.ReferencePrimitives
import Reminisce.CommittedUpload

namespace Reminisce

section

open Slices Results

variable {P : Primitives} {segmentSize k m : Nat} {table : MediaTable}
  {fileHash apiSecret : String} {run : ReplicationRun} {before after db : Database} {file : Bytes}
  {shards : List Bytes} {uploaded : List UploadedShard} {wrapped : Bytes}
  {mark : MediaRow → MediaRow}

/-- The fetcher of nodes that hold the shards of a backup. -/
def honestFetch (P : Primitives) (shards : List Bytes) : Fetch :=
  fun _ _ digest => shards.find? fun s => P.blake3 s = digest

theorem honestFetch_mem {n : Nat} {node : NodeId} {digest : Digest} {b : Bytes}
    (h : honestFetch P shards n node digest = some b) : b ∈ shards :=
  List.mem_of_find?_eq_some h

theorem collisionFree_honestFetch (h : Set.InjOn P.blake3 {b | b ∈ shards}) :
    CollisionFree P shards (honestFetch P shards) := by
  refine h.mono ?_
  rintro b (hb | ⟨_, _, _, hb⟩)
  · exact hb
  · exact honestFetch_mem hb

/-- Honest nodes answer every row of the backup rightly. -/
theorem intact_honestFetch (h : Set.InjOn P.blake3 {b | b ∈ shards}) (hlen : shards.length = 5)
    {rows : List ShardRow} (hrows : ∀ row ∈ rows, row.Names P shards) {p : Nat}
    (hp : p < rows.length) : Intact P (honestFetch P shards) rows shards p := by
  obtain ⟨data, _, _, hd, _⟩ := (hrows rows[p] (List.getElem_mem _)).index hlen
  refine ⟨rows[p], data, List.getElem?_eq_getElem hp, hd, ?_⟩
  have hmem := List.mem_of_getElem? hd
  have hex : ∃ s, shards.find? (fun s => decide (P.blake3 s = P.blake3 data)) = some s :=
    Option.isSome_iff_exists.mp (List.find?_isSome.mpr ⟨data, hmem, by simp⟩)
  obtain ⟨s, hs⟩ := hex
  have hsame : P.blake3 s = P.blake3 data := by simpa using List.find?_some hs
  rw [honestFetch, hs, h (List.mem_of_find?_eq_some hs) hmem hsame]

theorem runUploads_exists (P : Primitives) {nodes : List (NodeId × SocketAddr)} (hn : nodes ≠ [])
    (fileHash : String) (shards : List Bytes) (order : List Nat) :
    ∃ uploaded, runUploads P nodes fileHash shards order = .ok uploaded := by
  unfold runUploads
  have hne : rendezvousSelect P fileHash nodes (max (min shards.length nodes.length) 1) ≠ [] :=
    rendezvousSelect_ne_nil hn (by omega)
  simp [hne]

/-- The results of an upload whose shards fit on the nodes are as many as the acknowledged
indices. -/
theorem runUploads_enough {nodes : List (NodeId × SocketAddr)} {order : List Nat}
    (hup : runUploads P nodes fileHash shards order = .ok uploaded) (hn : order.Nodup)
    (hfits : ∀ s ∈ shards, s.length ≤ maxShardBytes)
    (hacks : k ≤ (order.filter (· < shards.length)).length) : k ≤ uploaded.length := by
  have hsub : order.filter (· < shards.length) ⊆ uploaded.map (·.idx) := by
    intro idx hidx
    obtain ⟨hack, hbound⟩ := List.mem_filter.mp hidx
    have hlt : idx < shards.length := by simpa using hbound
    obtain ⟨s, hs, rfl⟩ := runUploads_complete hup hack (List.getElem?_eq_getElem hlt)
      (hfits _ (List.getElem_mem _))
    exact List.mem_map.mpr ⟨s, hs, rfl⟩
  have hle := ((hn.filter _).subperm hsub).length_le
  rw [List.length_map] at hle
  omega

theorem encryptKey_exists (P : Primitives) (apiSecret : String) (run : ReplicationRun) :
    ∃ wrapped, encryptKey P run.encryptionKey.toList apiSecret run.wrapNonce.toList =
      .ok wrapped := by
  obtain ⟨c, hc⟩ := P.aead.encrypt_total (P.keywrapMasterKeyV1 apiSecret).toList
    run.wrapNonce.toList run.encryptionKey.toList (by simp)
  exact ⟨1 :: (run.wrapNonce.toList ++ c), by simp [encryptKey, hc]⟩

theorem acked_range {order : List Nat} {n : Nat} :
    ((List.range n).filter (· ∈ order)).filter (· < n) = (List.range n).filter (· ∈ order) := by
  rw [List.filter_eq_self]
  intro idx hidx
  have := List.mem_range.mp (List.mem_filter.mp hidx).1
  simpa using this

theorem length_acked_range {order : List Nat} (hn : order.Nodup) (n : Nat) :
    (order.filter (· < n)).length ≤ ((List.range n).filter (· ∈ order)).length := by
  refine ((hn.filter _).subperm fun idx hidx => ?_).length_le
  obtain ⟨hmem, hlt⟩ := List.mem_filter.mp hidx
  exact List.mem_filter.mpr ⟨List.mem_range.mpr (by simpa using hlt), by simpa using hmem⟩

/-- A replication succeeds when the file can be sharded into shards that fit on the nodes,
the registry has a node, and enough shards are acknowledged. -/
theorem replicateSingleFile_succeeds (db : Database) (table : MediaTable) (apiSecret : String)
    (hnodes : run.nodes ≠ []) (hfile : run.fileData = some file)
    (hshards : backupShards P segmentSize file run.encryptionKey.toList k m = .ok shards)
    (hfits : ∀ s ∈ shards, s.length ≤ maxShardBytes)
    (hacks : k ≤ (run.acks.order.filter (· < k + m)).length) (hcommit : run.commits = true) :
    ∃ after, replicateSingleFile P segmentSize db table fileHash apiSecret k m run =
      (.ok (), after) := by
  have hlen := length_backupShards hshards
  obtain ⟨wrapped, hwrap⟩ := encryptKey_exists P apiSecret run
  unfold backupShards at hshards
  split at hshards
  next large =>
    obtain ⟨⟨ss, sizes⟩, hseg, rfl⟩ := map_ok hshards
    obtain ⟨uploaded, hup⟩ := runUploads_exists P hnodes fileHash ss
      ((List.range (k + m)).filter (· ∈ run.acks.order))
    have hmany : ¬ uploaded.length < k := Nat.not_lt.mpr
      (runUploads_enough hup (List.nodup_range.filter _) hfits (by
        rw [hlen, acked_range]
        exact hacks.trans (length_acked_range run.acks.nodup _)))
    simp only [replicateSingleFile, hfile, large, if_true, replicateLargeFile, uploadSegmented,
      hseg, mapError_ok_eq, ok_bind, hup, pure_eq_ok, hmany, if_false, hwrap, hcommit]
    exact ⟨_, rfl⟩
  next small =>
    obtain ⟨⟨ss, size⟩, hproc, rfl⟩ := map_ok hshards
    obtain ⟨uploaded, hup⟩ := runUploads_exists P hnodes fileHash ss run.acks.order
    have hmany : ¬ uploaded.length < k := Nat.not_lt.mpr
      (runUploads_enough hup run.acks.nodup hfits (by rw [hlen]; exact hacks))
    simp only [replicateSingleFile, hfile, small, if_false, hproc, uploadInmemory, hup, hmany,
      hwrap, hcommit, if_true]
    exact ⟨_, rfl⟩

end

open Slices Results

variable {P : Primitives} {segmentSize k m : Nat} {table : MediaTable}
  {fileHash apiSecret : String} {run : ReplicationRun} {before after db : Database} {file : Bytes}
  {shards : List Bytes} {uploaded : List UploadedShard} {wrapped : Bytes}
  {mark : MediaRow → MediaRow}

/-- No backup of the file has been recorded yet, as after its upload by the user. -/
structure Fresh (db : Database) (fileHash : String) : Prop where
  unique : db.shardKeys.Nodup
  noShards : ∀ row ∈ db.p2pShards, row.fileHash ≠ fileHash
  noKey : ∀ table, ∀ row ∈ db.media table, row.hash = fileHash →
    row.p2pEncryptionKey = none ∧ row.p2pSegmentCount = 1

theorem fileRecordOf_exists (table : MediaTable) {row : MediaRow} {key : Bytes} {size : Int}
    (hk : row.p2pEncryptionKey = some wrapped) (hs : row.p2pEncryptedSize = some size)
    (hw : decryptKey P wrapped apiSecret = .ok key) :
    ∃ rec, fileRecordOf P apiSecret table row = .ok rec ∧ rec.name = row.name ∧
      rec.ext = row.ext ∧ rec.mediaType = table.mediaType := by
  simp [fileRecordOf, hk, hs, hw]

theorem fileRecordOf_no_panic {row : MediaRow}
    (h : row.p2pEncryptionKey ≠ none → row.p2pEncryptedSize ≠ none) :
    fileRecordOf P apiSecret table row ≠ .error .panic := by
  intro hp
  unfold fileRecordOf at hp
  split at hp
  next => simp at hp
  next wrapped hw =>
    split at hp
    next => simp at hp
    next =>
      split at hp
      next hsize => exact h (by simp [hw]) hsize
      next => simp at hp

theorem queryOpt_no_panic {α : Type} (rows : List α) : queryOpt rows ≠ .error .panic := by
  unfold queryOpt
  split <;> simp

theorem queryFileRecord_no_panic {owner : Option String}
    (h : ∀ table, ∀ row ∈ db.media table, row.hash = fileHash → row.p2pEncryptionKey ≠ none →
      row.p2pEncryptedSize ≠ none) :
    queryFileRecord P db fileHash owner apiSecret ≠ .error .panic := by
  have read : ∀ {table : MediaTable} {row : MediaRow},
      queryOpt (db.visible table fileHash (owner.bind P.parseUuid)) = .ok (some row) →
      (fileRecordOf P apiSecret table row).map some ≠ .error .panic := by
    intro table row hq hp
    have hmem : row ∈ db.visible table fileHash (owner.bind P.parseUuid) := by
      rw [queryOpt_some hq]
      exact List.mem_singleton_self _
    obtain ⟨hin, hhash, _⟩ := Database.mem_visible.mp hmem
    cases hr : fileRecordOf P apiSecret table row with
    | ok rec => simp [hr, Except.map] at hp
    | error f =>
      simp only [hr, Except.map, Except.error.injEq] at hp
      exact fileRecordOf_no_panic (h table row hin hhash) (hp ▸ hr)
  intro hp
  unfold queryFileRecord at hp
  cases hi : queryOpt (db.visible .images fileHash (owner.bind P.parseUuid)) with
  | error f =>
    simp only [hi, error_bind, Except.error.injEq] at hp
    exact queryOpt_no_panic _ (hp ▸ hi)
  | ok image =>
    simp only [hi, ok_bind] at hp
    cases image with
    | some row => exact read hi hp
    | none =>
      cases hv : queryOpt (db.visible .videos fileHash (owner.bind P.parseUuid)) with
      | error f =>
        simp only [hv, error_bind, Except.error.injEq] at hp
        exact queryOpt_no_panic _ (hp ▸ hv)
      | ok video =>
        simp only [hv, ok_bind] at hp
        cases video with
        | some row => exact read hv hp
        | none => simp at hp

/-- The outcome of a restore: the bytes of the file, or an error message. -/
def ErrorOrFile (file : Bytes) (outcome : Except Failure RestoredFile) : Prop :=
  (∃ message, outcome = .error (.error message)) ∨
    ∃ filename mediaType, outcome = .ok { data := file, filename, mediaType }

theorem Committed.describes (hc : Committed P segmentSize k m table fileHash apiSecret run before
    after file shards uploaded wrapped mark) (hfresh : Fresh before fileHash)
    {owner : Option String} {rec : FileRecord}
    (hq : queryFileRecord P after fileHash owner apiSecret = .ok (some rec)) :
    rec.Describes P segmentSize k m file shards := by
  obtain ⟨found, row, hrow, hhash, hrec⟩ := queryFileRecord_some hq
  rcases hc.row_cases hrow hhash with ⟨rfl, old, hold, hh, rfl⟩ | ⟨_, hold⟩
  · have hcount := (hfresh.noKey found old hold hh).2
    exact hc.marks.describes hc.unwraps (fun _ => hcount) hrec
  · obtain ⟨w, _, hw, _⟩ := fileRecordOf_ok hrec
    rw [(hfresh.noKey found row hold hhash).1] at hw
    simp at hw

theorem Committed.no_panic (hc : Committed P segmentSize k m table fileHash apiSecret run before
    after file shards uploaded wrapped mark) (hfresh : Fresh before fileHash)
    {owner : Option String} : queryFileRecord P after fileHash owner apiSecret ≠ .error .panic := by
  refine queryFileRecord_no_panic fun found row hrow hhash hkey => ?_
  rcases hc.row_cases hrow hhash with ⟨_, old, _, _, rfl⟩ | ⟨_, hold⟩
  · obtain ⟨_, size, hsize⟩ := hc.marks.key old
    simp [hsize]
  · exact absurd (hfresh.noKey found row hold hhash).1 hkey

theorem Committed.found (hc : Committed P segmentSize k m table fileHash apiSecret run before
    after file shards uploaded wrapped mark) {owner : Option String} {row : MediaRow}
    (hf : Found P before table fileHash owner row) :
    Found P after table fileHash owner (mark row) := by
  refine ⟨by rw [hc.visible, hf.one, List.map_singleton], ?_⟩
  rintro rfl
  have hsame : after.media .images = before.media .images := hc.media_other (by simp)
  have hnone := hf.first rfl
  unfold Database.visible at hnone ⊢
  rwa [hsame]

theorem committed_of_upload (hfile : run.fileData = some file)
    (hup : replicateSingleFile P segmentSize before table fileHash apiSecret k m run =
      (.ok (), after))
    (hshards : backupShards P segmentSize file run.encryptionKey.toList k m = .ok shards) :
    ∃ uploaded wrapped mark, Committed P segmentSize k m table fileHash apiSecret run before after
      file shards uploaded wrapped mark := by
  rcases replicateSingleFile_cases hup with ⟨hbad, _⟩ | ⟨_, file', shards', uploaded, wrapped, mark,
    hc⟩
  · simp [hfile] at hbad
  · cases Option.some.inj (hfile.symm.trans hc.fileData)
    cases Except.ok.inj (hshards.symm.trans hc.marks.backup)
    exact ⟨uploaded, wrapped, mark, hc⟩

theorem Committed.fresh_names (hc : Committed P segmentSize k m table fileHash apiSecret run before
    after file shards uploaded wrapped mark) (hfresh : Fresh before fileHash) (hk : 0 < k)
    (hkm : k + m < 2 ^ 31) : ∀ row ∈ after.shardsOf fileHash, row.Names P shards := by
  intro row hrow
  obtain ⟨hmem, hf⟩ := Database.mem_shardsOf.mp hrow
  refine hc.names hk hkm (fun old hold hf => ?_) row hmem hf
  exact absurd hf (hfresh.noShards old hold)

theorem restore_no_record {owner : Option String} {fetch : Fetch}
    (hp : queryFileRecord P db fileHash owner apiSecret ≠ .error .panic)
    (hn : ∀ rec, queryFileRecord P db fileHash owner apiSecret ≠ .ok (some rec)) :
    ∃ message, restoreFileWithFetcher P db fileHash owner fetch apiSecret =
      .error (.error message) := by
  unfold restoreFileWithFetcher
  cases hq : queryFileRecord P db fileHash owner apiSecret with
  | error f =>
    cases f with
    | error message => exact ⟨message, rfl⟩
    | panic => exact absurd hq hp
  | ok found =>
    cases found with
    | none => exact ⟨_, rfl⟩
    | some rec => exact absurd hq (hn rec)

theorem Committed.shards_fit (hc : Committed P segmentSize 3 2 table fileHash apiSecret run before
    after file shards uploaded wrapped mark) : ∃ s ∈ shards, s.length ≤ maxShardBytes := by
  have hlen := length_backupShards hc.marks.backup
  exact ⟨shards[0], List.getElem_mem _, hc.shard_fits (by omega) _ (List.getElem_mem _)⟩

/-- A committed upload is restored as soon as three fetches are right. -/
theorem Committed.restores (hc : Committed P segmentSize 3 2 table fileHash apiSecret run before
    after file shards uploaded wrapped mark) (hseg : 0 < segmentSize)
    (hfit : file.length ≤ segmentSize → file.length + 28 < 2 ^ 31)
    (hfresh : Fresh before fileHash) {fetch : Fetch} (hcf : CollisionFree P shards fetch)
    {owner : Option String} {row : MediaRow} (hfound : Found P before table fileHash owner row)
    {calls : Finset Nat} (hcard : 3 ≤ calls.card)
    (hcalls : ∀ p ∈ calls, Intact P fetch (after.shardsOf fileHash) shards p) :
    restoreFileWithFetcher P after fileHash owner fetch apiSecret =
      .ok { data := file, filename := s!"{row.name}.{row.ext}", mediaType := table.mediaType } := by
  have hnames := hc.fresh_names hfresh (by omega) (by omega)
  obtain ⟨hkey, size, hsize⟩ := hc.marks.key row
  obtain ⟨_, _, _, hname, hext⟩ := hc.marks.identity row
  obtain ⟨rec, hrec, hn, he, ht⟩ := fileRecordOf_exists table hkey hsize hc.unwraps
  have hq := queryFileRecord_found (hc.found hfound) hrec
  have h := restoreFileWithFetcher_described hq (hc.describes hfresh hq) hseg hfit hc.shards_fit
    hnames hcf
  have hunique := Database.shardsOf_nodup (hc.unique hfresh.unique) fileHash
  have hcount := fetchShards_count hnames (length_backupShards hc.marks.backup) hunique hcalls
  have hmany : ¬ (gotShards P after fileHash fetch).countP Option.isSome < 3 :=
    Nat.not_lt.mpr (hcard.trans hcount)
  rw [if_neg hmany] at h
  rw [h, hn, he, ht, hname, hext]

def sampleRow : MediaRow :=
  { userId := 7, hash := "ab", name := "holiday", ext := "jpg", deletedAt := none
    p2pSyncedAt := none, p2pLastAttemptAt := none, p2pShardHash := none, p2pEncryptionKey := none
    p2pEncryptedSize := none, p2pSegmentCount := 1, p2pSegmentEncSizes := none
    p2pDataShards := none, p2pParityShards := none }

def sampleDatabase : Database :=
  { images := [sampleRow], videos := [], p2pShards := [], p2pNodes := [], nextShardId := 1 }

def sampleKey (seed : UInt8) : Bytes := seed :: List.replicate 31 0

/-- A run that meets one node; `seed` is the first byte of its key. -/
def sampleRun (seed : UInt8) (acks : Acks) (now : Time) : ReplicationRun :=
  { nodes := [("node", ⟨.v4 10 0 0 1, 5050⟩)], fileData := some [1, 2, 3]
    encryptionKey := ⟨sampleKey seed, rfl⟩, wrapNonce := List.Vector.replicate 12 0
    acks, commits := true, now }

theorem sampleDatabase_fresh : Fresh sampleDatabase "ab" where
  unique := by simp [Database.shardKeys, sampleDatabase]
  noShards := by simp [sampleDatabase]
  noKey := by
    intro table row hrow _
    cases table <;> simp_all [sampleDatabase, Database.media, sampleRow]

theorem sampleRun_backup (k m : Nat) (seed : UInt8) (hnew : referencePrimitives.rs.new k m = .ok ()) :
    ∃ shards, backupShards referencePrimitives segmentThreshold [1, 2, 3]
      (sampleKey seed) k m = .ok shards ∧
      ∀ s ∈ shards, s.length = divCeil 31 k := by
  obtain ⟨shards, size, hp⟩ : ∃ shards size, processForBackup referencePrimitives [1, 2, 3]
      (sampleKey seed) (sampleKey seed) k m = .ok (shards, size) :=
    processForBackup_exists _ rfl (by simp) hnew
  have hsmall : ¬ segmentThreshold < ([1, 2, 3] : Bytes).length := by decide
  refine ⟨shards, by rw [backupShards, if_neg hsmall, hp]; rfl, fun s hs => ?_⟩
  rw [processForBackup_shard_length hp hs, processForBackup_size hp]
  rfl

def allAcks : Acks := ⟨[0, 1, 2, 3, 4], by decide⟩

/-- The sample file is uploaded from any database. -/
theorem sampleRun_succeeds (db : Database) (seed : UInt8) (acks : Acks) (now : Time) {k m : Nat}
    (hnew : referencePrimitives.rs.new k m = .ok ())
    (hacks : k ≤ (acks.order.filter (· < k + m)).length) :
    ∃ after, replicateSingleFile referencePrimitives segmentThreshold db .images "ab" "secret" k m
      (sampleRun seed acks now) = (.ok (), after) := by
  have hk := ((referencePrimitives.rs.new_ok k m).mp hnew).1
  obtain ⟨shards, hshards, hlens⟩ := sampleRun_backup k m seed hnew
  refine replicateSingleFile_succeeds db .images "secret" (by simp [sampleRun]) rfl hshards
    (fun s hs => ?_) hacks rfl
  rw [hlens s hs]
  exact (divCeil_le 31 hk).trans (by decide)

/-- The sample file, uploaded with every shard acknowledged; honest nodes hold the shards. -/
theorem sample_uploaded : ∃ after shards,
    replicateSingleFile referencePrimitives segmentThreshold sampleDatabase .images "ab" "secret"
      3 2 (sampleRun 9 allAcks 100) = (.ok (), after) ∧
    backupShards referencePrimitives segmentThreshold [1, 2, 3] (sampleKey 9) 3 2 = .ok shards ∧
    CollisionFree referencePrimitives shards (honestFetch referencePrimitives shards) ∧
    ∀ p ∈ Finset.range 3, Intact referencePrimitives (honestFetch referencePrimitives shards)
      (after.shardsOf "ab") shards p := by
  have hnew : referencePrimitives.rs.new 3 2 = .ok () :=
    (referencePrimitives.rs.new_ok 3 2).mpr (by decide)
  obtain ⟨after, hup⟩ : ∃ after, replicateSingleFile referencePrimitives segmentThreshold
      sampleDatabase .images "ab" "secret" 3 2 (sampleRun 9 allAcks 100) = (.ok (), after) :=
    sampleRun_succeeds sampleDatabase 9 allAcks 100 hnew (by decide)
  obtain ⟨shards, hshards, hlens⟩ := sampleRun_backup 3 2 9 hnew
  have hinj : Set.InjOn referencePrimitives.blake3 {b | b ∈ shards} :=
    (referenceHash_injOn 11 (by decide)).mono fun s hs => hlens s hs
  obtain ⟨uploaded, wrapped, mark, hc⟩ := committed_of_upload rfl hup hshards
  have hnames := hc.fresh_names sampleDatabase_fresh (by decide) (by decide)
  have hrows : 3 ≤ (after.shardsOf "ab").length := hc.rows_enough (by decide)
  refine ⟨after, shards, hup, hshards, collisionFree_honestFetch hinj, fun p hp => ?_⟩
  exact intact_honestFetch hinj (length_backupShards hshards) hnames
    (Nat.lt_of_lt_of_le (Finset.mem_range.mp hp) hrows)

end Reminisce

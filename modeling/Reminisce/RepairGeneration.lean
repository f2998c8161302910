import Reminisce.GenerationRuns
import Reminisce.RepairSources

namespace Reminisce

open Slices Results

variable {P : Primitives} {job : AuditJob} {s : AuditState} {db : Database} {fileHash : String}
  {apiSecret : String} {file : Bytes} {shards : List Bytes} {shardIndex : Nat} {row : MediaRow}
  {io : RepairIo} {owner : Option String}

theorem visible_congr {after : Database} (h : ∀ table, after.media table = db.media table)
    (table : MediaTable) (ownerUuid : Option UserId) :
    after.visible table fileHash ownerUuid = db.visible table fileHash ownerUuid := by
  unfold Database.visible
  rw [h]

theorem queryFileRecord_congr {after : Database}
    (h : ∀ table, after.media table = db.media table) :
    queryFileRecord P after fileHash owner apiSecret =
      queryFileRecord P db fileHash owner apiSecret := by
  simp only [queryFileRecord, visible_congr h]

theorem repairFile_media (P : Primitives) (job : AuditJob) (s : AuditState) (fileHash : String)
    (shardIndex : Nat) (io : RepairIo) (table : MediaTable) :
    (repairFile P job s fileHash shardIndex io).db.media table = s.db.media table := by
  rcases repairFile_writes P job s fileHash shardIndex io with
    heq | ⟨_, _, _, _, inserts, _, _, heq⟩
  · rw [heq]
  · rw [heq]
    cases inserts with
    | true => exact Database.upsertShard_media _ _ _ _ _ _ _
    | false => cases table <;> rfl

/-- Shards of the generation are what a restore needs. -/
theorem OfGeneration.keeps (h : OfGeneration P db fileHash owner apiSecret file shards) :
    KeepsGeneration P db fileHash owner apiSecret file shards where
  recorded := h.recorded
  restores := by
    intro fetch ⟨hcf, calls, hcard, hcalls⟩
    obtain ⟨rec, hq, hdesc⟩ := h.described
    have hunique := Database.shardsOf_nodup h.valid.keys fileHash
    have hcount := fetchShards_count h.recorded hdesc.length hunique hcalls
    have hrestore := restoreFileWithFetcher_described hq hdesc (by decide)
      (fun hle => by simp only [segmentThreshold] at hle; omega) h.stored h.recorded hcf
    have hmany : ¬ (gotShards P db fileHash fetch).countP Option.isSome < 3 :=
      Nat.not_lt.mpr (hcard.trans hcount)
    rw [if_neg hmany] at hrestore
    exact ⟨_, _, hrestore⟩

/-- A repair from the recorded backup leaves rows of the generation only. -/
theorem recorded_of_repairsFromBackup (h : OfGeneration P db fileHash owner apiSecret file shards)
    (hfrom : RepairsFromBackup P db fileHash apiSecret file shards) (hsecret : job.apiSecret = apiSecret)
    (hdb : s.db = db)
    (hlocal : ∀ found ∈ io.localFile, P.blake3 found = P.blake3 file → found = file) :
    ∀ row ∈ (repairFile P job s fileHash shardIndex io).db.shardsOf fileHash, row.Names P shards := by
  intro row hrow
  obtain ⟨hrow, hhash⟩ := Database.mem_shardsOf.mp hrow
  have hold : ∀ old ∈ db.p2pShards, old.fileHash = fileHash → old.Names P shards :=
    fun old hmem hf => h.recorded old (Database.mem_shardsOf.mpr ⟨hmem, hf⟩)
  rcases repairFile_writes P job s fileHash shardIndex io with
    heq | ⟨registry, nodes, target, data, inserts, hsource, hfits, heq⟩
  · rw [heq, hdb] at hrow
    exact hold row hrow hhash
  · rw [heq] at hrow
    cases inserts with
    | true =>
      obtain ⟨source, made, hpicked, hmade, hdata, hne⟩ := repairSource_made h.hash hlocal hsource
      rw [hsecret] at hmade
      simp only [hdb] at hpicked
      obtain ⟨right, hright, hsame⟩ := hfrom source hpicked made hmade shardIndex data hdata hne hfits
      have hbound := backupOf_index hmade hdata hne
      simp only [if_true, hdb] at hrow
      rcases Database.mem_upsertShard hrow with ⟨_, hidx, _, hshard⟩ | ⟨hmem, _⟩
      · refine ⟨shardIndex, right, ?_, hright, by rw [hshard, hsame]⟩
        rw [hidx, asI32_of_lt (by omega)]
      · exact hold row hmem hhash
    | false =>
      obtain ⟨source, hsrc, hsf, hsi, hsh⟩ := repairSource_copied hsource
      simp only [hdb] at hsrc
      simp only [Bool.false_eq_true, if_false, Database.replaceShard, hdb] at hrow
      obtain ⟨old, hmem, hreplaced⟩ := List.mem_map.mp hrow
      split at hreplaced
      next hkey =>
        have hsameKey : (old.fileHash, old.shardIndex) = (source.fileHash, source.shardIndex) := by
          rw [hkey.1, hkey.2, hsf, hsi]
        obtain rfl := List.inj_on_of_nodup_map h.valid.keys hmem hsrc hsameKey
        obtain ⟨j, right, hj, hright, hname⟩ := hold old hmem hkey.1
        subst hreplaced
        exact ⟨j, right, hj, hright, hsh.symm.trans hname⟩
      next =>
        subst hreplaced
        exact hold old hmem hhash

theorem keeps_of_repairsFromBackup (h : OfGeneration P db fileHash owner apiSecret file shards)
    (hfrom : RepairsFromBackup P db fileHash apiSecret file shards) :
    RepairsKeepGeneration P db fileHash owner apiSecret file shards := by
  intro job s shardIndex io hsecret hdb hlocal
  refine OfGeneration.keeps ⟨?_, h.hash, ?_, h.stored, ?_⟩
  · exact (repairFile_effect fileHash shardIndex io).valid (hdb ▸ h.valid)
  · rw [queryFileRecord_congr fun table => (repairFile_media P job s fileHash shardIndex io table)]
    rw [hdb]
    exact h.described
  · exact recorded_of_repairsFromBackup h hfrom hsecret hdb hlocal

/-- A repair that goes by another backup records a shard that is none of the generation. -/
theorem repairsFromBackup_of_keeps (h : OfGeneration P db fileHash owner apiSecret file shards)
    (hkeeps : RepairsKeepGeneration P db fileHash owner apiSecret file shards) :
    RepairsFromBackup P db fileHash apiSecret file shards := by
  intro row hrow made hmade idx data hdata hne hfits
  have hafter := hkeeps ⟨apiSecret, 0⟩ (undisturbedRepair db) idx (undisturbedIo file) rfl rfl
    (fun found hfound _ => (Option.some.inj hfound).symm)
  have hwrites := undisturbedRepair_writes h.hash hrow hmade hdata hne hfits
  obtain ⟨new, hnew, hf, hi⟩ := db.exists_upsertShard fileHash (asI32 idx) repairHost.1
    (toHex (P.blake3 data)) (some 0)
  rcases Database.mem_upsertShard hnew with ⟨_, _, _, hhash⟩ | ⟨_, hother⟩
  · rw [← hwrites] at hnew
    obtain ⟨j, right, hj, hright, hname⟩ :=
      hafter.recorded new (Database.mem_shardsOf.mpr ⟨hnew, hf⟩)
    have hbound := backupOf_index hmade hdata hne
    rw [hi, asI32_of_lt (by omega)] at hj
    have hj' : j = idx := by omega
    exact ⟨right, hj' ▸ hright, toHex_injective (hhash.symm.trans hname)⟩
  · exact absurd ⟨hf, hi⟩ hother

/-- A row with the geometry of the code records the backup that a restore reads from it. -/
theorem backupOf_of_described {table : MediaTable} {rec : FileRecord}
    (hrec : fileRecordOf P apiSecret table row = .ok rec)
    (hd : rec.Describes P segmentThreshold 3 2 file shards)
    (hstored : ∃ s ∈ shards, s.length ≤ maxShardBytes)
    (hk : asUsize (row.p2pDataShards.getD 3) = 3) (hm : asUsize (row.p2pParityShards.getD 2) = 2) :
    row.backupOf P apiSecret file = some shards := by
  obtain ⟨wrapped, encSize, hw, _, hunwrap, heq⟩ := fileRecordOf_ok hrec
  have hkey : row.backupKey P apiSecret = some rec.encryptionKey := by
    simp [MediaRow.backupKey, hw, hunwrap, Except.toOption]
  have hcount : rec.segmentCount = row.p2pSegmentCount := by rw [heq]
  simp only [MediaRow.backupOf, hkey, Option.bind_some, hk, hm]
  cases hd with
  | single _ process count =>
    have hone : ¬ 1 < row.p2pSegmentCount := by omega
    rw [if_neg hone, process]
    rfl
  | segmented large process count =>
    obtain ⟨s, hs, hmax⟩ := hstored
    obtain ⟨idx, hidx, rfl⟩ := List.mem_map.mp hs
    have hmany := segmentCount_gt_one process (by decide) large (List.mem_range.mp hidx) hmax
    rw [if_pos (by omega), segmentedShards, process]
    rfl

/-- A repair that goes by the row of the restore, or by one that records the same backup. -/
theorem repairsFromBackup_of_same (hsame : ∀ picked, db.repairRow fileHash = some picked →
      picked.backupOf P apiSecret file = row.backupOf P apiSecret file)
    (hback : row.backupOf P apiSecret file = some shards) :
    RepairsFromBackup P db fileHash apiSecret file shards := by
  intro picked hpicked made hmade idx data hdata _ _
  rw [hsame picked hpicked, hback] at hmade
  cases Option.some.inj hmade
  exact ⟨data, hdata, rfl⟩

/-- A repair keeps the generation of a file, and three shards keep restoring it, exactly when
the row that the repair goes by records the same backup. -/
theorem repairs_keep_generation_iff
    (h : OfGeneration P db fileHash owner apiSecret file shards) :
    RepairsKeepGeneration P db fileHash owner apiSecret file shards ↔
      RepairsFromBackup P db fileHash apiSecret file shards :=
  ⟨repairsFromBackup_of_keeps h, keeps_of_repairsFromBackup h⟩

def repairedHash : String := String.ofList (toHex (referenceHash [1, 2, 3]))

/-- A row of the sample file that records a backup under a key kept as it is. -/
def repairedRow (seed : UInt8) (deletedAt : Option Time) : MediaRow :=
  { sampleRow with
    hash := repairedHash
    deletedAt
    p2pEncryptionKey := some (sampleKey seed)
    p2pEncryptedSize := some 31
    p2pDataShards := some 3
    p2pParityShards := some 2 }

def repairedShardRow (shards : List Bytes) (j : Nat) : ShardRow :=
  { id := j, fileHash := repairedHash, shardIndex := j, nodeId := "node"
    shardHash := toHex (referenceHash (shards[j]?.getD [])), lastCheckedAt := none }

def repairedDatabase (images videos : List MediaRow) (shards : List Bytes) : Database :=
  { images, videos, p2pShards := (List.range 5).map (repairedShardRow shards), nextShardId := 5
    p2pNodes := [⟨"node", some ⟨.v4 10 0 0 1, 5050⟩, 0, true⟩] }

theorem repairedDatabase_valid (images videos : List MediaRow) (shards : List Bytes) :
    (repairedDatabase images videos shards).Valid := by
  refine ⟨?_, ?_, ?_, ?_⟩
  · have hids : ((List.range 5).map (repairedShardRow shards)).map (·.id) = List.range 5 := by
      simp [Function.comp_def, repairedShardRow]
    exact hids ▸ List.nodup_range
  · simp only [repairedDatabase, List.forall_mem_map, List.mem_range]
    exact fun j hj => hj
  · simp only [Database.shardKeys, repairedDatabase, List.map_map]
    refine List.nodup_range.map fun i j hij => ?_
    have heq : (i : Int) = j := (Prod.mk.inj hij).2
    omega
  · simp only [repairedDatabase, List.forall_mem_map, List.mem_range]
    intro j hj
    simp only [repairedShardRow]
    omega

/-- The shards of the sample file under a key, and the backup that a row with it records. -/
theorem repairedRow_backup (seed : UInt8) (deletedAt : Option Time) :
    ∃ shards, processForBackup referencePrimitives [1, 2, 3] (sampleKey seed) (sampleKey seed) 3 2 =
        .ok (shards, 31) ∧
      (repairedRow seed deletedAt).backupOf referencePrimitives "secret" [1, 2, 3] = some shards ∧
      (∀ s ∈ shards, s.length = 11) ∧
      ∃ data, shards[0]? = some data ∧ (referenceHash data).toList.head? = some seed := by
  obtain ⟨shards, hshards, hlens⟩ := sampleRun_backup 3 2 seed referencePrimitives_new
  have hsmall : ¬ segmentThreshold < ([1, 2, 3] : Bytes).length := by decide
  have hback := hshards
  rw [backupShards, if_neg hsmall] at hback
  obtain ⟨⟨ss, size⟩, hp, rfl⟩ := map_ok hback
  have hsize : size = 31 := processForBackup_size hp
  subst hsize
  refine ⟨ss, hp, ?_, hlens, sampleRun_shard_head hshards⟩
  have hkey : (repairedRow seed deletedAt).backupKey referencePrimitives "secret" =
      some (sampleKey seed) := by
    simp [MediaRow.backupKey, repairedRow, decryptKey, sampleKey, Except.toOption]
  have hcount : ¬ 1 < (repairedRow seed deletedAt).p2pSegmentCount := Int.lt_irrefl 1
  have hk : asUsize ((repairedRow seed deletedAt).p2pDataShards.getD 3) = 3 :=
    asUsize_natCast (n := 3) (by decide)
  have hm : asUsize ((repairedRow seed deletedAt).p2pParityShards.getD 2) = 2 :=
    asUsize_natCast (n := 2) (by decide)
  simp only [MediaRow.backupOf, hkey, Option.bind_some, if_neg hcount, hk, hm, hp]
  rfl

theorem repairedDatabase_ofGeneration {images videos : List MediaRow} {table : MediaTable}
    (hp : processForBackup referencePrimitives [1, 2, 3] (sampleKey 9) (sampleKey 9) 3 2 =
      .ok (shards, 31)) (hlens : ∀ s ∈ shards, s.length = 11)
    (hfound : Found referencePrimitives (repairedDatabase images videos shards) table repairedHash none
      (repairedRow 9 none)) :
    OfGeneration referencePrimitives (repairedDatabase images videos shards) repairedHash none
      "secret" [1, 2, 3] shards where
  valid := repairedDatabase_valid images videos shards
  hash := String.toList_ofList
  described := by
    have hunwrap : decryptKey referencePrimitives (sampleKey 9) "secret" = .ok (sampleKey 9) := by
      simp [decryptKey, sampleKey]
    have hkey : (repairedRow 9 none).p2pEncryptionKey = some (sampleKey 9) := rfl
    obtain ⟨rec, hrec, _⟩ := fileRecordOf_exists table hkey rfl hunwrap
    obtain ⟨w, size, hw, hsize, hclear, heq⟩ := fileRecordOf_ok hrec
    cases Option.some.inj hw
    have hsame : rec.encryptionKey = sampleKey 9 := (Except.ok.inj (hunwrap.symm.trans hclear)).symm
    refine ⟨rec, queryFileRecord_found hfound hrec, ?_⟩
    rw [← hsame] at hp
    refine .single (by decide) hp ?_ ?_ ?_ ?_
    · rw [heq]
      rfl
    · rw [heq, asI32_of_lt (by decide)]
      exact (Option.some.inj hsize).symm
    · rw [heq, asI32_of_lt (by decide)]
      rfl
    · rw [heq, asI32_of_lt (by decide)]
      rfl
  stored := by
    have hlen := processForBackup_length hp
    refine ⟨shards[0], List.getElem_mem _, ?_⟩
    rw [hlens _ (List.getElem_mem _)]
    decide
  recorded := by
    intro row hrow
    have hlen := processForBackup_length hp
    obtain ⟨hmem, _⟩ := Database.mem_shardsOf.mp hrow
    obtain ⟨j, hj, rfl⟩ := List.mem_map.mp hmem
    have hj' := List.mem_range.mp hj
    have hget : shards[j]? = some shards[j] := List.getElem?_eq_getElem (by omega)
    refine ⟨j, shards[j], rfl, hget, ?_⟩
    simp only [repairedShardRow, hget, Option.getD_some]
    rfl

/-- The row of the one owner is the row of both the restore and the repair. -/
theorem repairs_keep_generation_one_owner : ∃ shards,
    OfGeneration referencePrimitives (repairedDatabase [repairedRow 9 none] [] shards) repairedHash
      none "secret" [1, 2, 3] shards ∧
    RepairsKeepGeneration referencePrimitives (repairedDatabase [repairedRow 9 none] [] shards)
      repairedHash none "secret" [1, 2, 3] shards := by
  obtain ⟨shards, hp, hback, hlens, _⟩ := repairedRow_backup 9 none
  have hfound : Found referencePrimitives (repairedDatabase [repairedRow 9 none] [] shards) .images
      repairedHash none (repairedRow 9 none) :=
    ⟨by simp [Database.visible, Database.media, repairedDatabase, repairedRow], by simp⟩
  have hgen := repairedDatabase_ofGeneration hp hlens hfound
  have hpicked : (repairedDatabase [repairedRow 9 none] [] shards).repairRow repairedHash =
      some (repairedRow 9 none) := by
    simp [Database.repairRow, repairedDatabase, repairedRow, sampleRow]
  refine ⟨shards, hgen, (repairs_keep_generation_iff hgen).mpr ?_⟩
  refine repairsFromBackup_of_same (fun picked hrow => ?_) hback
  cases Option.some.inj (hpicked.symm.trans hrow)
  rfl

/-- A deleted image with an older key comes before the live video whose key restores the
shards. -/
theorem repair_from_deleted_row_mixes_generations :
    ¬ ∀ db shards, OfGeneration referencePrimitives db repairedHash none "secret" [1, 2, 3] shards →
      RepairsKeepGeneration referencePrimitives db repairedHash none "secret" [1, 2, 3] shards := by
  intro h
  obtain ⟨shards, hp, _, hlens, first, hfirst, hhead⟩ := repairedRow_backup 9 none
  obtain ⟨stale, hstaleProcess, hstale, hstaleLens, other, hother, hotherHead⟩ :=
    repairedRow_backup 8 (some 5)
  let db := repairedDatabase [repairedRow 8 (some 5)] [repairedRow 9 none] shards
  have hfound : Found referencePrimitives db .videos repairedHash none (repairedRow 9 none) :=
    ⟨by simp [db, Database.visible, Database.media, repairedDatabase, repairedRow],
      by simp [db, Database.visible, Database.media, repairedDatabase, repairedRow]⟩
  have hgen := repairedDatabase_ofGeneration hp hlens hfound
  have hpicked : db.repairRow repairedHash = some (repairedRow 8 (some 5)) := by
    simp [db, Database.repairRow, repairedDatabase, repairedRow, sampleRow]
  have hwithin := repairsFromBackup_of_keeps hgen (h db shards hgen) _ hpicked stale hstale
  have hlen := hstaleLens other (List.mem_of_getElem? hother)
  obtain ⟨right, hright, hsame⟩ := hwithin 0 other hother
    (fun hnil => by rw [hnil] at hlen; simp at hlen) (by rw [hlen]; decide)
  cases Option.some.inj (hfirst.symm.trans hright)
  have heq : referenceHash other = referenceHash first := hsame
  rw [heq, hhead] at hotherHead
  exact absurd hotherHead (by decide)

end Reminisce

import Reminisce.Generations

namespace Reminisce

open Slices Results

variable {P : Primitives} {original : String → Bytes} {apiSecret : String} {db after : Database}

theorem Committed.enough_acks {table : MediaTable} {hash : String} {run : ReplicationRun}
    {file : Bytes} {shards : List Bytes} {uploaded : List UploadedShard} {wrapped : Bytes}
    {mark : MediaRow → MediaRow} {segmentSize k m : Nat}
    (hc : Committed P segmentSize k m table hash apiSecret run db after file shards uploaded wrapped
      mark) : k ≤ (run.acks.order.filter (· < k + m)).length := by
  have hsub : uploaded.map (·.idx) ⊆ run.acks.order.filter (· < k + m) := by
    intro idx hidx
    obtain ⟨s, hs, rfl⟩ := List.mem_map.mp hidx
    obtain ⟨data, hd, _⟩ := hc.uploads.stored s hs
    obtain ⟨hlt, _⟩ := List.getElem?_eq_some_iff.mp hd
    rw [length_backupShards hc.marks.backup] at hlt
    exact List.mem_filter.mpr ⟨hc.uploads.acked s hs, by simpa using hlt⟩
  have hle := (hc.uploads.distinct.subperm hsub).length_le
  rw [List.length_map] at hle
  exact hc.enough.trans hle

theorem oneGeneration_step {e : BackupEvent} (hinv : OneGeneration P original apiSecret db)
    (hcond : ReplacesGeneration db e) (hstep : backupStep P original apiSecret db e = some after) :
    OneGeneration P original apiSecret after := by
  cases e with
  | ingest table userId hash name ext =>
    cases Option.some.inj hstep
    refine oneGeneration_of_same hinv (by simp) fun other new hnew => ?_
    rcases Database.mapMedia_mem hnew with ⟨_, hmem⟩ | hmem
    · exact mem_ingestInto hmem
    · exact Or.inl ⟨new, hmem, sameBackup_refl new⟩
  | setDeleted table userId hash deletedAt =>
    cases Option.some.inj hstep
    refine oneGeneration_of_same hinv (by simp) fun other new hnew => Or.inl ?_
    rcases Database.mapMedia_mem hnew with ⟨_, hmem⟩ | hmem
    · exact mem_markDeleted hmem
    · exact ⟨new, hmem, sameBackup_refl new⟩
  | requeue now oldest =>
    cases Option.some.inj hstep
    exact oneGeneration_of_same hinv rfl fun table new hnew => Or.inl (requeue_mem hnew)
  | replicate table hash run =>
    simp only [backupStep] at hstep
    split at hstep
    next hfile =>
      cases Option.some.inj hstep
      rcases replicateFile_cases with hun | ⟨file, shards, uploaded, wrapped, mark, hc⟩
      · refine oneGeneration_of_same hinv hun.1 fun found new hnew => Or.inl ?_
        obtain ⟨old, hold, stamp, rfl⟩ := hun.2 found new hnew
        exact ⟨old, hold, old.deletedAt, old.p2pSyncedAt, stamp, rfl⟩
      · have hne : run.fileData ≠ none := by simp [hc.fileData]
        have heq := hfile.resolve_left hne
        cases Option.some.inj (hc.fileData.symm.trans heq)
        obtain ⟨hcover, hother⟩ := hcond hc.commits hne hc.enough_acks
        exact oneGeneration_commit hinv hc hcover hother
    next => simp at hstep

theorem OneGeneration.describes (hinv : OneGeneration P original apiSecret db) {hash : String}
    {owner : Option String} {rec : FileRecord}
    (hq : queryFileRecord P db hash owner apiSecret = .ok (some rec)) :
    ∃ shards, rec.Describes P segmentThreshold 3 2 (original hash) shards ∧
      (∃ s ∈ shards, s.length ≤ maxShardBytes) ∧
      ∀ row ∈ db.p2pShards, row.fileHash = hash → row.Names P shards := by
  obtain ⟨table, row, hrow, rfl, hrec⟩ := queryFileRecord_some hq
  exact hinv.described table row hrow rec hrec

theorem OneGeneration.shardsMatchKey (hinv : OneGeneration P original apiSecret db) :
    ShardsMatchKey P original apiSecret db := by
  intro hash owner rec hq row hrow hf
  obtain ⟨shards, hdesc, _, hnames⟩ := hinv.describes hq
  exact ⟨shards, hdesc.backup, hnames row hrow hf⟩

theorem OneGeneration.restoresOriginals (hinv : OneGeneration P original apiSecret db) :
    RestoresOriginals P original apiSecret db := by
  intro hash owner rec shards fetch calls hq hshards hcf hcard hcalls
  obtain ⟨shards', hdesc, hfits, hnames⟩ := hinv.describes hq
  cases Except.ok.inj (hshards.symm.trans hdesc.backup)
  have hrows : ∀ row ∈ db.shardsOf hash, row.Names P shards := by
    intro row hrow
    obtain ⟨hmem, hf⟩ := Database.mem_shardsOf.mp hrow
    exact hnames row hmem hf
  have hcount := fetchShards_count hrows hdesc.length
    (Database.shardsOf_nodup hinv.unique hash) hcalls
  have h := restoreFileWithFetcher_described hq hdesc (by decide) (fun hle => ?_) hfits hrows hcf
  · have hmany : ¬ (gotShards P db hash fetch).countP Option.isSome < 3 :=
      Nat.not_lt.mpr (hcard.trans hcount)
    rw [if_neg hmany] at h
    exact ⟨_, _, h⟩
  · simp only [segmentThreshold] at hle
    omega

def Database.empty : Database :=
  { images := [], videos := [], p2pShards := [], p2pNodes := [], nextShardId := 1 }

theorem oneGeneration_empty : OneGeneration P original apiSecret Database.empty where
  unique := by simp [Database.shardKeys, Database.empty]
  count := by
    intro table row hrow
    cases table <;> simp [Database.empty, Database.media] at hrow
  described := by
    intro table row hrow
    cases table <;> simp [Database.empty, Database.media] at hrow

/-- In every run whose commits replace the generation before them, the recorded shards are
those of the key that restore reads, and three of them restore the file. -/
theorem shards_match_key_of_replaced_generations {es : List BackupEvent}
    (hcond : Runs.Meets (backupStep P original apiSecret) ReplacesGeneration Database.empty es)
    (hrun : Runs.exec (backupStep P original apiSecret) Database.empty es = some db) :
    ShardsMatchKey P original apiSecret db ∧ RestoresOriginals P original apiSecret db := by
  have hinv : OneGeneration P original apiSecret db :=
    Runs.exec_invariant (fun _ _ _ hs hc hstep => oneGeneration_step hs hc hstep)
      oneGeneration_empty hcond hrun
  exact ⟨hinv.shardsMatchKey, hinv.restoresOriginals⟩

def sampleOriginal (_ : String) : Bytes := [1, 2, 3]

theorem referencePrimitives_new : referencePrimitives.rs.new 3 2 = .ok () :=
  (referencePrimitives.rs.new_ok 3 2).mpr (by decide)

/-- A sample replication commits from any database. -/
theorem sampleRun_committed (db : Database) (seed : UInt8) (acks : Acks) (now : Time)
    (hacks : 3 ≤ (acks.order.filter (· < 3 + 2)).length) :
    ∃ shards uploaded wrapped mark,
      Committed referencePrimitives segmentThreshold 3 2 .images "ab" "secret"
        (sampleRun seed acks now) db (replicateFile referencePrimitives segmentThreshold db .images
          "ab" "secret" 3 2 (sampleRun seed acks now)) [1, 2, 3] shards uploaded wrapped mark := by
  obtain ⟨after, hup⟩ : ∃ after, replicateSingleFile referencePrimitives segmentThreshold db
      .images "ab" "secret" 3 2 (sampleRun seed acks now) = (.ok (), after) :=
    sampleRun_succeeds db seed acks now referencePrimitives_new hacks
  obtain ⟨shards, hshards, _⟩ := sampleRun_backup 3 2 seed referencePrimitives_new
  obtain ⟨uploaded, wrapped, mark, hc⟩ := committed_of_upload rfl hup hshards
  refine ⟨shards, uploaded, wrapped, mark, ?_⟩
  simp only [replicateFile, hup]
  exact hc

theorem sampleRun_commits (db : Database) (seed : UInt8) (acks : Acks) (now : Time)
    (hacks : 3 ≤ (acks.order.filter (· < 3 + 2)).length) :
    ∃ after shards uploaded wrapped mark,
      backupStep referencePrimitives sampleOriginal "secret" db
        (.replicate .images "ab" (sampleRun seed acks now)) = some after ∧
      Committed referencePrimitives segmentThreshold 3 2 .images "ab" "secret"
        (sampleRun seed acks now) db after [1, 2, 3] shards uploaded wrapped mark := by
  obtain ⟨shards, uploaded, wrapped, mark, hc⟩ := sampleRun_committed db seed acks now hacks
  refine ⟨_, shards, uploaded, wrapped, mark, ?_, hc⟩
  have hfile : (sampleRun seed acks now).fileData = some (sampleOriginal "ab") := rfl
  simp only [backupStep, hfile, or_true, if_true, Erasure.dataShards, Erasure.parityShards]

def sampleIngest : BackupEvent := .ingest .images 7 "ab" "holiday" "jpg"

theorem sampleIngest_step : backupStep referencePrimitives sampleOriginal "secret" Database.empty
    sampleIngest = some sampleDatabase := rfl

theorem shards_match_key_sample :
    ∃ db, Runs.exec (backupStep referencePrimitives sampleOriginal "secret") Database.empty
        [sampleIngest, .replicate .images "ab" (sampleRun 9 allAcks 100)] = some db ∧
      3 ≤ (db.shardsOf "ab").length ∧
      ShardsMatchKey referencePrimitives sampleOriginal "secret" db ∧
      RestoresOriginals referencePrimitives sampleOriginal "secret" db := by
  obtain ⟨db, shards, uploaded, wrapped, mark, hstep, hc⟩ :=
    sampleRun_commits sampleDatabase 9 allAcks 100 (by decide)
  have hrun : Runs.exec (backupStep referencePrimitives sampleOriginal "secret") Database.empty
      [sampleIngest, .replicate .images "ab" (sampleRun 9 allAcks 100)] = some db := by
    simp only [Runs.exec, sampleIngest_step, hstep, Option.bind_some]
  have hmeets : Runs.Meets (backupStep referencePrimitives sampleOriginal "secret")
      ReplacesGeneration Database.empty
      [sampleIngest, .replicate .images "ab" (sampleRun 9 allAcks 100)] := by
    refine ⟨trivial, fun t ht => ⟨?_, fun _ _ => trivial⟩⟩
    cases Option.some.inj (sampleIngest_step.symm.trans ht)
    intro _ _ _
    refine ⟨by simp [sampleDatabase], fun other hne row hrow _ => ?_⟩
    cases other with
    | images => exact absurd rfl hne
    | videos => simp [sampleDatabase, Database.media] at hrow
  exact ⟨db, hrun, hc.rows_enough (by decide),
    shards_match_key_of_replaced_generations hmeets hrun⟩

/-- The first byte of the key is the first byte of the nonce, hence of data shard 0. -/
theorem sampleRun_shard_head {seed : UInt8} {shards : List Bytes}
    (h : backupShards referencePrimitives segmentThreshold [1, 2, 3]
      (sampleKey seed) 3 2 = .ok shards) :
    ∃ data, shards[0]? = some data ∧ (referenceHash data).toList.head? = some seed := by
  have hsmall : ¬ segmentThreshold < ([1, 2, 3] : Bytes).length := by decide
  rw [backupShards, if_neg hsmall] at h
  obtain ⟨⟨ss, size⟩, hp, rfl⟩ := map_ok h
  obtain ⟨enc, henc, hsh, _⟩ := processForBackup_ok hp
  obtain ⟨_, _, _, parity, rfl, _⟩ := shard_ok hsh
  obtain ⟨_, c, _, rfl⟩ := encrypt_ok henc
  have hlen := length_encrypt henc
  have hhead : (dataPiece (encryptionNonce referencePrimitives [1, 2, 3] (sampleKey seed)
      (sampleKey seed) ++ c) 3 0).head? = some seed := by
    rw [head_dataPiece (by omega) (by decide)]
    rfl
  refine ⟨_, rfl, ?_⟩
  rw [head_referenceHash, hhead]
  intro hnil
  rw [hnil] at hhead
  simp at hhead

theorem found_requeued {db : Database} {now : Time} {target : Nat} {oldest : List String}
    {row : MediaRow} {videos : List MediaRow} {p2pShards : List ShardRow} {p2pNodes : List NodeRow}
    {nextShardId : Nat} (hhash : row.hash = "ab") (hlive : row.deletedAt = none) :
    ∃ image, Found P ⟨requeueTable db now target oldest [row], videos, p2pShards, p2pNodes,
      nextShardId⟩ .images "ab" none image := by
  have hone : ∀ image : MediaRow, image.hash = "ab" → image.deletedAt = none →
      Found P ⟨[image], videos, p2pShards, p2pNodes, nextShardId⟩ .images "ab" none image :=
    fun image h h' => ⟨by simp [Database.visible, Database.media, h, h'], by simp⟩
  unfold requeueTable
  rw [List.map_singleton]
  split
  · exact ⟨_, hone _ hhash hlive⟩
  · exact ⟨_, hone _ hhash hlive⟩

def someAcks : Acks := ⟨[1, 2, 3], by decide⟩

section Mixed

variable {db last : Database} {shards : List Bytes} {uploaded : List UploadedShard} {wrapped : Bytes}
  {mark : MediaRow → MediaRow}

/-- A replication that stores every shard records shard 0. -/
theorem sampleRun_row_zero (hc : Committed referencePrimitives segmentThreshold 3 2 .images "ab"
      "secret" (sampleRun 9 allAcks 100) sampleDatabase db [1, 2, 3] shards uploaded wrapped mark) :
    ∃ row ∈ db.p2pShards, row.fileHash = "ab" ∧ row.shardIndex = 0 := by
  have hlen := length_backupShards hc.marks.backup
  obtain ⟨data, hd, hle⟩ : ∃ data, shards[0]? = some data ∧ data.length ≤ maxShardBytes :=
    ⟨shards[0], List.getElem?_eq_getElem _, hc.shard_fits (by decide) _ (List.getElem_mem _)⟩
  obtain ⟨s, hs, hidx⟩ := hc.uploads.complete 0 (by decide) data hd hle
  obtain ⟨row, hrow, hf, hi⟩ := exists_upsertShards (registerNodes sampleDatabase uploaded 100)
    "ab" hs
  refine ⟨row, hc.p2pShards_eq ▸ hrow, hf, ?_⟩
  rw [hi, hidx, asI32_of_lt (by decide)]
  rfl

/-- Another replication keeps a row for every shard that had one. -/
theorem sampleRun_keeps_row {seed : UInt8} {acks : Acks} {now : Time} {row : ShardRow}
    (hc : Committed referencePrimitives segmentThreshold 3 2 .images "ab" "secret"
      (sampleRun seed acks now) db last [1, 2, 3] shards uploaded wrapped mark)
    (hrow : row ∈ db.p2pShards) (hfile : row.fileHash = "ab") :
    ∃ new ∈ last.shardsOf "ab", new.shardIndex = row.shardIndex := by
  have hold : row ∈ (registerNodes db uploaded now).p2pShards := by
    rw [registerNodes_p2pShards]
    exact hrow
  obtain ⟨new, hnew, hf, hi⟩ := upsertShards_keeps hold "ab" uploaded
  exact ⟨new, Database.mem_shardsOf.mpr ⟨hc.p2pShards_eq ▸ hnew, hf.trans hfile⟩, hi⟩

/-- After a replication the file is found under the key of that replication. -/
theorem sampleRun_record {seed : UInt8} {acks : Acks} {now : Time} {image : MediaRow}
    (hc : Committed referencePrimitives segmentThreshold 3 2 .images "ab" "secret"
      (sampleRun seed acks now) db last [1, 2, 3] shards uploaded wrapped mark)
    (hfound : Found referencePrimitives db .images "ab" none image) :
    ∃ rec, queryFileRecord referencePrimitives last "ab" none "secret" = .ok (some rec) ∧
      rec.encryptionKey = sampleKey seed := by
  obtain ⟨hkey, size, hsize⟩ := hc.marks.key image
  obtain ⟨rec, hrec, _⟩ := fileRecordOf_exists .images hkey hsize hc.unwraps
  refine ⟨rec, queryFileRecord_found (hc.found hfound) hrec, ?_⟩
  obtain ⟨w, _, hw, _, hunwrap, _⟩ := fileRecordOf_ok hrec
  cases Option.some.inj (hkey.symm.trans hw)
  exact (Except.ok.inj (hc.unwraps.symm.trans hunwrap)).symm

end Mixed

/-- A second replication that stores shards 1, 2 and 3 only leaves shards 0 and 4 of the
first key beside the second key. -/
theorem partial_rereplication_mixes_generations :
    ¬ ∀ es db, Runs.exec (backupStep referencePrimitives sampleOriginal "secret") Database.empty es =
      some db → ShardsMatchKey referencePrimitives sampleOriginal "secret" db := by
  intro h
  obtain ⟨db, shards, uploaded, wrapped, mark, hstep, hc⟩ :=
    sampleRun_commits sampleDatabase 9 allAcks 100 (by decide)
  let requeued := requeueUnderReplicated db (secs 800) Erasure.dataShards fun _ => ["ab"]
  obtain ⟨last, shards', uploaded', wrapped', mark', hstep', hc'⟩ :=
    sampleRun_commits requeued 8 someAcks (secs 800) (by decide)
  have hrun : Runs.exec (backupStep referencePrimitives sampleOriginal "secret") Database.empty
      [sampleIngest, .replicate .images "ab" (sampleRun 9 allAcks 100),
        .requeue (secs 800) fun _ => ["ab"],
        .replicate .images "ab" (sampleRun 8 someAcks (secs 800))] =
      some last := by
    simp only [Runs.exec, sampleIngest_step, hstep, Option.bind_some]
    exact Option.bind_eq_some_iff.mpr ⟨requeued, rfl, by rw [hstep']; rfl⟩
  obtain ⟨old, hold, hfile, hzero⟩ := sampleRun_row_zero hc
  have hkept : old ∈ requeued.p2pShards := hold
  obtain ⟨row, hrow, hindex⟩ := sampleRun_keeps_row hc' hkept hfile
  rw [hzero] at hindex
  obtain ⟨hmem, hf⟩ := Database.mem_shardsOf.mp hrow
  have hstale : row ∈ db.p2pShards := hc'.stale_row (by decide) hmem (by
    rw [hindex]
    decide)
  obtain ⟨j, data, hj, hd, hhash⟩ := hc.fresh_names sampleDatabase_fresh (by decide) (by decide) row
    (Database.mem_shardsOf.mpr ⟨hstale, hf⟩)
  have hj0 : j = 0 := by omega
  subst hj0
  obtain ⟨image, hfound⟩ : ∃ image, Found referencePrimitives requeued .images "ab" none image := by
    have himages : db.images = [mark sampleRow] := hc.media_same
    obtain ⟨hsame, hlive, _⟩ := hc.marks.identity sampleRow
    simp only [requeued, requeueUnderReplicated, himages]
    exact found_requeued hsame hlive
  obtain ⟨rec, hrec, hkey⟩ := sampleRun_record hc' hfound
  obtain ⟨shards'', hbackup, hnames⟩ := h _ last hrun "ab" none rec hrec row hmem hf
  rw [hkey] at hbackup
  obtain ⟨j, data', hj', hd', hhash'⟩ := hnames
  have hj0' : j = 0 := by omega
  subst hj0'
  obtain ⟨first, hfirst, hhead⟩ := sampleRun_shard_head hc.marks.backup
  obtain ⟨second, hsecond, hhead'⟩ := sampleRun_shard_head hbackup
  rw [Option.some.inj (hfirst.symm.trans hd)] at hhead
  rw [Option.some.inj (hsecond.symm.trans hd')] at hhead'
  have heq : referenceHash data = referenceHash data' :=
    toHex_injective (hhash.symm.trans hhash')
  rw [heq, hhead'] at hhead
  exact absurd hhead (by decide)

end Reminisce

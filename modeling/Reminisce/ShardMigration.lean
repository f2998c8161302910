import Reminisce.RepairSources

namespace Reminisce

open Results

/-- `migrate_shard`: the servers afterwards, and the hash when the migration succeeds. -/
def migrateShard (P : Primitives) (job : RebalanceJob) (s : RebalanceState) (row : ShardRow)
    (io : SourceIo) (newNodeAddr : SocketAddr) (outcome : UploadOutcome) :
    Fleet × Option (List Char) :=
  match migrationSource P job s row io with
  | (.error _, _) => (s.fleet, none)
  | (.ok shardData, registry) =>
    if toHex (P.blake3 shardData) = row.shardHash then
      uploadShardToNode P s.fleet registry newNodeAddr shardData outcome
    else (s.fleet, none)

/-- The media row whose key `find_file_info` reads. -/
def Database.infoRow (db : Database) (fileHash : String) : Option MediaRow :=
  (db.images ++ db.videos).find? (·.hash = fileHash)

/-- The shard of a file that is encrypted and sharded in one piece. -/
def onePieceShard (P : Primitives) (media : MediaRow) (key file : Bytes) (shardIndex : Nat) :
    Option Bytes :=
  (processForBackup P file key key (asUsize (media.p2pDataShards.getD 3))
    (asUsize (media.p2pParityShards.getD 2))).toOption.bind (·.1[shardIndex]?)

variable {P : Primitives} {job : RebalanceJob} {s : RebalanceState} {row : ShardRow}
  {io : SourceIo} {addr : SocketAddr} {outcome : UploadOutcome}

section Obtainable

variable (P : Primitives) (job : RebalanceJob) (s : RebalanceState) (row : ShardRow) (io : SourceIo)

/-- The local original is intact, its key is known, and the shard is one of its backup. -/
def LocalShard : Prop :=
  ∃ media file made data, s.db.infoRow job.fileHash = some media ∧ io.localFile = some file ∧
    toHex (P.blake3 file) = job.fileHash.toList ∧
    media.backupOf P job.apiSecret file = some made ∧
    made[asUsize row.shardIndex]? = some data ∧ toHex (P.blake3 data) = row.shardHash

/-- The old node returns bytes with the recorded hash. -/
def OldNodeShard : Prop :=
  ∃ data, (retrieveShardFromOldNode P job s row io).1 = .ok data ∧
    toHex (P.blake3 data) = row.shardHash

/-- The target is reached over the connections that the source leaves, takes a shard of that size
and answers. -/
structure TargetAccepts (newNodeAddr : SocketAddr) (outcome : UploadOutcome) : Prop where
  acknowledged : outcome = .acknowledged
  reachable : s.fleet.reachable (migrationSource P job s row io).2 newNodeAddr = true
  fits : ∀ data, (migrationSource P job s row io).1 = .ok data →
    toHex (P.blake3 data) = row.shardHash → data.length ≤ maxShardBytes

/-- The database answers, the stored key is unwrapped, and where the original is intact and its
key known, the recorded shard is that of the file in one piece, or there is none of that kind
and the old node has it. -/
structure MigratesRecorded : Prop where
  answered : io.infoUp = true
  unwraps : ∀ media wrapped, s.db.infoRow job.fileHash = some media →
    media.p2pEncryptionKey = some wrapped → ∃ key, decryptKey P wrapped job.apiSecret = .ok key
  recorded : ∀ media key file, s.db.infoRow job.fileHash = some media →
    media.backupKey P job.apiSecret = some key → io.localFile = some file →
    toHex (P.blake3 file) = job.fileHash.toList →
    match onePieceShard P media key file (asUsize row.shardIndex) with
    | some data => toHex (P.blake3 data) = row.shardHash
    | none => OldNodeShard P job s row io

/-- The migration succeeds and leaves the recorded shard on the target. -/
def Migrates (newNodeAddr : SocketAddr) (outcome : UploadOutcome) : Prop :=
  (migrateShard P job s row io newNodeAddr outcome).2 = some row.shardHash ∧
    (migrateShard P job s row io newNodeAddr outcome).1.holds P newNodeAddr row.shardHash

end Obtainable

theorem findFileInfo_infoRow (db : Database) (fileHash apiSecret : String) :
    findFileInfo P db fileHash apiSecret =
      match db.infoRow fileHash with
      | some media => (fileInfoOf P apiSecret media).map some
      | none => .ok none := by
  unfold findFileInfo Database.infoRow
  rw [List.find?_append]
  cases db.images.find? (·.hash = fileHash) with
  | some image => rfl
  | none =>
    cases db.videos.find? (·.hash = fileHash) <;> rfl

/-- Obtained bytes with the recorded hash reach a target that takes them. -/
theorem migrates_of_source {data : Bytes} {registry : PeerRegistry}
    (hsource : migrationSource P job s row io = (.ok data, registry))
    (hhash : toHex (P.blake3 data) = row.shardHash)
    (haccepts : TargetAccepts P job s row io addr outcome) :
    Migrates P job s row io addr outcome := by
  have hreach := haccepts.reachable
  have hfits := haccepts.fits data (by rw [hsource]) hhash
  rw [hsource] at hreach
  unfold Migrates migrateShard
  simp only [hsource, hhash, if_true, haccepts.acknowledged]
  cases hupload : uploadShardToNode P s.fleet registry addr data .acknowledged with
  | mk after answer =>
    have hanswer : answer = some row.shardHash := by
      simpa [uploadShardToNode, hreach, Nat.not_lt.mpr hfits, hhash] using
        (congrArg Prod.snd hupload).symm
    exact ⟨hanswer, ((uploadShardToNode_spec hupload).2 row.shardHash hanswer).2⟩

theorem source_of_migrates (h : Migrates P job s row io addr outcome) :
    ∃ data registry, migrationSource P job s row io = (.ok data, registry) ∧
      toHex (P.blake3 data) = row.shardHash := by
  have hsome := h.1
  unfold migrateShard at hsome
  split at hsome
  next => simp at hsome
  next data registry hsource =>
    split at hsome
    next hhash => exact ⟨data, registry, hsource, hhash⟩
    next => simp at hsome

/-- A migration from the old node succeeds exactly when that node returns the shard. -/
theorem migrates_iff_oldNode (hsource : migrationSource P job s row io =
      retrieveShardFromOldNode P job s row io)
    (haccepts : TargetAccepts P job s row io addr outcome) :
    Migrates P job s row io addr outcome ↔ OldNodeShard P job s row io := by
  constructor
  · intro h
    obtain ⟨data, registry, hdata, hhash⟩ := source_of_migrates h
    rw [hsource] at hdata
    exact ⟨data, by rw [hdata], hhash⟩
  · rintro ⟨data, hdata, hhash⟩
    have hpair : migrationSource P job s row io =
        (.ok data, (retrieveShardFromOldNode P job s row io).2) := by
      rw [hsource, ← hdata]
    exact migrates_of_source hpair hhash haccepts

/-- An intact local file is sharded in one piece. -/
theorem reshardFromLocal_intact {fileHash : String} (media : MediaRow) (key : Bytes) {file : Bytes} (i : Nat)
    (hname : 16 ≤ fileHash.utf8ByteSize) (hintact : toHex (P.blake3 file) = fileHash.toList) :
    match onePieceShard P media key file i with
    | some data => reshardFromLocal P fileHash key i (asUsize (media.p2pDataShards.getD 3))
        (asUsize (media.p2pParityShards.getD 2)) (some file) = .ok data
    | none => ∃ message, reshardFromLocal P fileHash key i (asUsize (media.p2pDataShards.getD 3))
        (asUsize (media.p2pParityShards.getD 2)) (some file) = .error (.error message) := by
  unfold onePieceShard reshardFromLocal
  rw [if_neg (by omega)]
  simp only [hintact, ne_eq, not_true_eq_false, if_false]
  cases processForBackup P file key key (asUsize (media.p2pDataShards.getD 3))
      (asUsize (media.p2pParityShards.getD 2)) with
  | error e => exact ⟨_, rfl⟩
  | ok made =>
    obtain ⟨shards, size⟩ := made
    simp only [Except.toOption, Option.bind_some]
    cases shards[i]? with
    | none => exact ⟨_, rfl⟩
    | some data => rfl

theorem reshardFromLocal_changed {fileHash : String} {localFile : Option Bytes} (key : Bytes)
    (k m i : Nat) (hname : 16 ≤ fileHash.utf8ByteSize)
    (hchanged : ∀ file, localFile = some file → toHex (P.blake3 file) ≠ fileHash.toList) :
    ∃ message, reshardFromLocal P fileHash key i k m localFile = .error (.error message) := by
  unfold reshardFromLocal
  rw [if_neg (by omega)]
  cases localFile with
  | none => exact ⟨_, rfl⟩
  | some file =>
    simp only [hchanged file rfl, ne_eq, not_false_eq_true, if_true]
    rw [if_neg (by omega)]
    exact ⟨_, rfl⟩

/-- The first media row of the file with its key, as `migrate_shard` takes it. -/
theorem migrationSource_key (row : ShardRow) {media : MediaRow} {wrapped key : Bytes} (hup : io.infoUp = true)
    (hmedia : s.db.infoRow job.fileHash = some media) (hwrapped : media.p2pEncryptionKey = some wrapped)
    (hkey : decryptKey P wrapped job.apiSecret = .ok key) :
    migrationSource P job s row io =
      match reshardFromLocal P job.fileHash key (asUsize row.shardIndex)
        (asUsize (media.p2pDataShards.getD 3)) (asUsize (media.p2pParityShards.getD 2))
        io.localFile with
      | .ok data => (.ok data, s.registry)
      | .error .panic => (.error .panic, s.registry)
      | .error (.error _) => retrieveShardFromOldNode P job s row io := by
  have hinfo : fileInfoOf P job.apiSecret media = .ok
      { ext := media.ext, key := some key, encSize := media.p2pEncryptedSize
        dataShards := asUsize (media.p2pDataShards.getD 3)
        parityShards := asUsize (media.p2pParityShards.getD 2) } := by
    simp only [fileInfoOf, hwrapped, hkey]
    rfl
  unfold migrationSource
  rw [if_pos hup, findFileInfo_infoRow, hmedia]
  simp only [hinfo]
  rfl

theorem migrationSource_noKey (hup : io.infoUp = true)
    (hno : ∀ media, s.db.infoRow job.fileHash = some media → media.p2pEncryptionKey = none) :
    migrationSource P job s row io = retrieveShardFromOldNode P job s row io := by
  unfold migrationSource
  rw [if_pos hup, findFileInfo_infoRow]
  cases hmedia : s.db.infoRow job.fileHash with
  | none => rfl
  | some media =>
    simp only [fileInfoOf, hno media hmedia]
    rfl

theorem migrationSource_wrongKey (row : ShardRow) (io : SourceIo) {media : MediaRow}
    {wrapped : Bytes} {e : String}
    (hmedia : s.db.infoRow job.fileHash = some media) (hwrapped : media.p2pEncryptionKey = some wrapped)
    (hkey : decryptKey P wrapped job.apiSecret = .error e) :
    ∃ failure, (migrationSource P job s row io).1 = .error failure := by
  unfold migrationSource
  rw [findFileInfo_infoRow, hmedia]
  simp only [fileInfoOf, hwrapped, hkey]
  split <;> exact ⟨_, rfl⟩

/-- A shard that the local original gives has a key that is unwrapped. -/
theorem LocalShard.key (h : LocalShard P job s row io) :
    ∃ media wrapped key, s.db.infoRow job.fileHash = some media ∧
      media.p2pEncryptionKey = some wrapped ∧ decryptKey P wrapped job.apiSecret = .ok key ∧
      ∃ file, io.localFile = some file ∧ toHex (P.blake3 file) = job.fileHash.toList := by
  obtain ⟨media, file, made, data, hmedia, hfile, hintact, hbackup, _, _⟩ := h
  obtain ⟨wrapped, key, hwrapped, hkey, _⟩ := backupOf_some hbackup
  exact ⟨media, wrapped, key, hmedia, hwrapped, hkey, file, hfile, hintact⟩

/-- The case of a known key: the file in one piece comes before the old node. -/
theorem migrates_iff_of_key {media : MediaRow} {wrapped key : Bytes}
    (hname : 16 ≤ job.fileHash.utf8ByteSize) (haccepts : TargetAccepts P job s row io addr outcome)
    (hobtainable : LocalShard P job s row io ∨ OldNodeShard P job s row io) (hup : io.infoUp = true)
    (hmedia : s.db.infoRow job.fileHash = some media) (hwrapped : media.p2pEncryptionKey = some wrapped)
    (hkey : decryptKey P wrapped job.apiSecret = .ok key) :
    Migrates P job s row io addr outcome ↔ ∀ file, io.localFile = some file →
      toHex (P.blake3 file) = job.fileHash.toList →
      match onePieceShard P media key file (asUsize row.shardIndex) with
      | some data => toHex (P.blake3 data) = row.shardHash
      | none => OldNodeShard P job s row io := by
  have hsource := migrationSource_key row hup hmedia hwrapped hkey
  by_cases hintact : ∃ file, io.localFile = some file ∧ toHex (P.blake3 file) = job.fileHash.toList
  · obtain ⟨file, hfile, hhash⟩ := hintact
    have hreshard := reshardFromLocal_intact media key (asUsize row.shardIndex) hname hhash
    rw [hfile] at hsource
    simp only [hfile, Option.some.injEq, forall_eq', hhash, true_implies]
    cases hpiece : onePieceShard P media key file (asUsize row.shardIndex) with
    | some data =>
      rw [hpiece] at hreshard
      simp only at hreshard
      rw [hreshard] at hsource
      constructor
      · intro h
        obtain ⟨found, registry, hfound, hrecorded⟩ := source_of_migrates h
        rw [hsource] at hfound
        cases hfound
        exact hrecorded
      · exact fun hrecorded => migrates_of_source hsource hrecorded haccepts
    | none =>
      rw [hpiece] at hreshard
      obtain ⟨message, hreshard⟩ := hreshard
      rw [hreshard] at hsource
      exact migrates_iff_oldNode hsource haccepts
  · have hchanged : ∀ file, io.localFile = some file → toHex (P.blake3 file) ≠ job.fileHash.toList :=
      fun file hfile hhash => hintact ⟨file, hfile, hhash⟩
    have hold : OldNodeShard P job s row io := by
      refine hobtainable.resolve_left fun hlocal => ?_
      obtain ⟨_, _, _, _, _, _, hfile⟩ := hlocal.key
      exact hintact hfile
    obtain ⟨message, hreshard⟩ := reshardFromLocal_changed key
      (asUsize (media.p2pDataShards.getD 3)) (asUsize (media.p2pParityShards.getD 2))
      (asUsize row.shardIndex) hname hchanged
    rw [hreshard] at hsource
    refine ⟨fun _ file hfile hhash => absurd hhash (hchanged file hfile), fun _ => ?_⟩
    exact (migrates_iff_oldNode hsource haccepts).mpr hold

/-- A shard that can be obtained is migrated exactly when the source that `migrate_shard` comes
to first has the recorded one. -/
theorem migrateShard_succeeds_iff (P : Primitives) (job : RebalanceJob) (s : RebalanceState)
    (row : ShardRow) (io : SourceIo) (addr : SocketAddr) (outcome : UploadOutcome)
    (hname : 16 ≤ job.fileHash.utf8ByteSize) (haccepts : TargetAccepts P job s row io addr outcome)
    (hobtainable : LocalShard P job s row io ∨ OldNodeShard P job s row io) :
    Migrates P job s row io addr outcome ↔ MigratesRecorded P job s row io := by
  by_cases hup : io.infoUp = true
  · by_cases hkeyed : ∃ media wrapped, s.db.infoRow job.fileHash = some media ∧
        media.p2pEncryptionKey = some wrapped
    · obtain ⟨media, wrapped, hmedia, hwrapped⟩ := hkeyed
      cases hkey : decryptKey P wrapped job.apiSecret with
      | error e =>
        obtain ⟨failure, hfailure⟩ := migrationSource_wrongKey row io hmedia hwrapped hkey
        refine ⟨fun h => ?_, fun h => ?_⟩
        · obtain ⟨data, registry, hsource, _⟩ := source_of_migrates h
          rw [hsource] at hfailure
          cases hfailure
        · obtain ⟨key, hok⟩ := h.unwraps media wrapped hmedia hwrapped
          rw [hkey] at hok
          cases hok
      | ok key =>
        have hbackupKey : media.backupKey P job.apiSecret = some key := by
          rw [MediaRow.backupKey, hwrapped, Option.bind_some, hkey]
          rfl
        rw [migrates_iff_of_key hname haccepts hobtainable hup hmedia hwrapped hkey]
        refine ⟨fun h => ⟨hup, ?_, ?_⟩, fun h file => h.recorded media key file hmedia hbackupKey⟩
        · intro other stored hother hstored
          cases Option.some.inj (hmedia.symm.trans hother)
          cases Option.some.inj (hwrapped.symm.trans hstored)
          exact ⟨key, hkey⟩
        · intro other found file hother hfound
          cases Option.some.inj (hmedia.symm.trans hother)
          cases Option.some.inj (hbackupKey.symm.trans hfound)
          exact h file
    · have hno : ∀ media, s.db.infoRow job.fileHash = some media → media.p2pEncryptionKey = none :=
        fun media hmedia => Option.eq_none_iff_forall_not_mem.mpr
          fun wrapped hwrapped => hkeyed ⟨media, wrapped, hmedia, hwrapped⟩
      have hold : OldNodeShard P job s row io := by
        refine hobtainable.resolve_left fun hlocal => ?_
        obtain ⟨media, wrapped, _, hmedia, hwrapped, _⟩ := hlocal.key
        exact hkeyed ⟨media, wrapped, hmedia, hwrapped⟩
      refine ⟨fun _ => ⟨hup, ?_, ?_⟩, fun _ =>
        (migrates_iff_oldNode (migrationSource_noKey hup hno) haccepts).mpr hold⟩
      · intro media wrapped hmedia hwrapped
        exact absurd ⟨media, wrapped, hmedia, hwrapped⟩ hkeyed
      · intro media key _ hmedia hkey
        rw [MediaRow.backupKey, hno media hmedia] at hkey
        cases hkey
  · refine ⟨fun h => ?_, fun h => absurd h.answered hup⟩
    obtain ⟨data, registry, hsource, _⟩ := source_of_migrates h
    unfold migrationSource at hsource
    rw [if_neg hup] at hsource
    cases hsource

/-- The shard of a file that was backed up in one piece is migrated from whichever source has
it. -/
theorem migratesRecorded_of_onePiece {media : MediaRow} {made : List Bytes} {file data : Bytes}
    (hup : io.infoUp = true) (hmedia : s.db.infoRow job.fileHash = some media)
    (hsingle : ¬ 1 < media.p2pSegmentCount) (hfile : ∀ found, io.localFile = some found →
      toHex (P.blake3 found) = job.fileHash.toList → found = file)
    (hbackup : media.backupOf P job.apiSecret file = some made)
    (hdata : made[asUsize row.shardIndex]? = some data) (hrecorded : toHex (P.blake3 data) = row.shardHash) :
    MigratesRecorded P job s row io := by
  obtain ⟨wrapped, key, hwrapped, hkey, hsharding⟩ := backupOf_some hbackup
  obtain ⟨_, size, hprocess⟩ := hsharding.resolve_left fun hsegmented => hsingle hsegmented.1
  refine ⟨hup, fun other stored hother hstored => ?_, fun other found local' hother hfound hlocal hhash => ?_⟩
  · cases Option.some.inj (hmedia.symm.trans hother)
    cases Option.some.inj (hwrapped.symm.trans hstored)
    exact ⟨key, hkey⟩
  · cases Option.some.inj (hmedia.symm.trans hother)
    rw [MediaRow.backupKey, hwrapped, Option.bind_some, hkey] at hfound
    cases Option.some.inj hfound
    obtain rfl := hfile local' hlocal hhash
    simp only [onePieceShard, hprocess, Except.toOption, Option.bind_some, hdata]
    exact hrecorded

end Reminisce

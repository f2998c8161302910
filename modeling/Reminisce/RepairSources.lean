import Mathlib.Data.String.Basic
import Reminisce.AuditRuns
import Reminisce.SharedHashes

namespace Reminisce

open Slices Results

/-- The row whose key, geometry and segment count `repair_file` goes by: one with more than
one segment before any other, images before videos, whoever owns it, deleted or not. -/
def Database.repairRow (db : Database) (fileHash : String) : Option MediaRow :=
  ((db.images ++ db.videos).find? fun row => row.hash = fileHash ∧ 1 < row.p2pSegmentCount) <|>
    (db.images ++ db.videos).find? (·.hash = fileHash)

/-- The key of the backup that a row records. -/
def MediaRow.backupKey (P : Primitives) (apiSecret : String) (row : MediaRow) : Option Bytes :=
  row.p2pEncryptionKey.bind fun wrapped => (decryptKey P wrapped apiSecret).toOption

/-- The shards of the backup that a row records for the file. -/
def MediaRow.backupOf (P : Primitives) (apiSecret : String) (row : MediaRow) (file : Bytes) :
    Option (List Bytes) :=
  (row.backupKey P apiSecret).bind fun key =>
    let dataShards := asUsize (row.p2pDataShards.getD 3)
    let parityShards := asUsize (row.p2pParityShards.getD 2)
    if 1 < row.p2pSegmentCount then
      (segmentedShards P segmentThreshold file key dataShards parityShards).toOption.map (·.1)
    else (processForBackup P file key key dataShards parityShards).toOption.map (·.1)

/-- What a node can take of `made` is at its index in `shards`. -/
def WithinBackup (P : Primitives) (made shards : List Bytes) : Prop :=
  ∀ (idx : Nat) data, made[idx]? = some data → data ≠ [] → data.length ≤ maxShardBytes →
    ∃ s, shards[idx]? = some s ∧ P.blake3 data = P.blake3 s

/-- The row that a repair goes by records no other backup than the given one. -/
def RepairsFromBackup (P : Primitives) (db : Database) (fileHash apiSecret : String) (file : Bytes)
    (shards : List Bytes) : Prop :=
  ∀ row, db.repairRow fileHash = some row → ∀ made, row.backupOf P apiSecret file = some made →
    WithinBackup P made shards

/-- The recorded shards are shards of the backup that the row of a restore describes. -/
structure OfGeneration (P : Primitives) (db : Database) (fileHash : String) (owner : Option String)
    (apiSecret : String) (file : Bytes) (shards : List Bytes) : Prop where
  valid : db.Valid
  hash : fileHash.toList = toHex (P.blake3 file)
  described : ∃ rec, queryFileRecord P db fileHash owner apiSecret = .ok (some rec) ∧
    rec.Describes P segmentThreshold 3 2 file shards
  stored : ∃ s ∈ shards, s.length ≤ maxShardBytes
  recorded : ∀ row ∈ db.shardsOf fileHash, row.Names P shards

/-- The shards are of the generation, and any three of them restore the file. -/
structure KeepsGeneration (P : Primitives) (db : Database) (fileHash : String)
    (owner : Option String) (apiSecret : String) (file : Bytes) (shards : List Bytes) : Prop where
  recorded : ∀ row ∈ db.shardsOf fileHash, row.Names P shards
  restores : ∀ fetch, Retrievable P db fileHash shards fetch → ∃ filename mediaType,
    restoreFileWithFetcher P db fileHash owner fetch apiSecret =
      .ok { data := file, filename, mediaType }

/-- Whatever a repair meets, it keeps the generation. The local file is the original, or its
hash tells it from the original. -/
def RepairsKeepGeneration (P : Primitives) (db : Database) (fileHash : String)
    (owner : Option String) (apiSecret : String) (file : Bytes) (shards : List Bytes) : Prop :=
  ∀ (job : AuditJob) (s : AuditState) (shardIndex : Nat) (io : RepairIo),
    job.apiSecret = apiSecret → s.db = db →
    (∀ found ∈ io.localFile, P.blake3 found = P.blake3 file → found = file) →
    KeepsGeneration P (repairFile P job s fileHash shardIndex io).db fileHash owner apiSecret file
      shards

variable {P : Primitives} {job : AuditJob} {s : AuditState} {db : Database} {fileHash : String}
  {apiSecret : String} {file : Bytes} {shards made : List Bytes} {shardIndex : Nat}
  {row : MediaRow}

theorem toOption_some {ε α : Type} {x : Except ε α} {a : α} (h : x.toOption = some a) : x = .ok a := by
  cases x with
  | error e => simp [Except.toOption] at h
  | ok b =>
    have heq : b = a := Option.some.inj h
    rw [heq]

/-- The key, the geometry and the sharding behind a recorded backup. -/
theorem backupOf_some (h : row.backupOf P apiSecret file = some made) :
    ∃ wrapped key, row.p2pEncryptionKey = some wrapped ∧
      decryptKey P wrapped apiSecret = .ok key ∧
      ((1 < row.p2pSegmentCount ∧ ∃ sizes, segmentedShards P segmentThreshold file key
          (asUsize (row.p2pDataShards.getD 3)) (asUsize (row.p2pParityShards.getD 2)) =
            .ok (made, sizes)) ∨
        (¬ 1 < row.p2pSegmentCount ∧ ∃ size, processForBackup P file key key
          (asUsize (row.p2pDataShards.getD 3)) (asUsize (row.p2pParityShards.getD 2)) =
            .ok (made, size))) := by
  obtain ⟨key, hkey, h⟩ := Option.bind_eq_some_iff.mp h
  obtain ⟨wrapped, hwrapped, hkey⟩ := Option.bind_eq_some_iff.mp hkey
  refine ⟨wrapped, key, hwrapped, toOption_some hkey, ?_⟩
  simp only at h
  split at h
  next hseg =>
    obtain ⟨⟨ss, sizes⟩, hss, heq⟩ := Option.map_eq_some_iff.mp h
    have hmade : ss = made := heq
    exact Or.inl ⟨hseg, sizes, hmade ▸ toOption_some hss⟩
  next hseg =>
    obtain ⟨⟨ss, size⟩, hss, heq⟩ := Option.map_eq_some_iff.mp h
    have hmade : ss = made := heq
    exact Or.inr ⟨hseg, size, hmade ▸ toOption_some hss⟩

theorem segmentedShards_index {k m : Nat} {key : Bytes} {sizes : List Nat}
    (h : segmentedShards P segmentThreshold file key k m = .ok (made, sizes)) {idx : Nat}
    {data : Bytes} (hd : made[idx]? = some data) (hne : data ≠ []) : idx < 256 := by
  obtain ⟨segs, hsegs, rfl, _⟩ := segmentedShards_ok h
  obtain ⟨hlt, hdata⟩ := List.getElem?_eq_some_iff.mp hd
  simp only [List.length_map, List.length_range] at hlt
  cases hparts : readSegments segmentThreshold file with
  | nil =>
    rw [hparts] at hsegs
    cases Except.ok.inj hsegs
    simp [streamedShard] at hdata
    exact absurd hdata hne
  | cons segment parts =>
    rw [hparts] at hsegs
    obtain ⟨sub, size, later, _, hp, _⟩ := shardSegments_cons hsegs
    obtain ⟨enc, _, hsh, _⟩ := processForBackup_ok hp
    obtain ⟨_, hnew, _⟩ := shard_ok hsh
    obtain ⟨_, _, hkm⟩ := (P.rs.new_ok k m).mp hnew
    omega

/-- A shard that is not empty has an index that fits its column. -/
theorem backupOf_index (h : row.backupOf P apiSecret file = some made) {idx : Nat} {data : Bytes}
    (hd : made[idx]? = some data) (hne : data ≠ []) : idx < 256 := by
  obtain ⟨wrapped, key, _, _, ⟨_, sizes, hseg⟩ | ⟨_, size, hp⟩⟩ := backupOf_some h
  · exact segmentedShards_index hseg hd hne
  · obtain ⟨hlt, _⟩ := List.getElem?_eq_some_iff.mp hd
    rw [processForBackup_length hp] at hlt
    obtain ⟨enc, _, hsh, _⟩ := processForBackup_ok hp
    obtain ⟨_, hnew, _⟩ := shard_ok hsh
    obtain ⟨_, _, hkm⟩ := (P.rs.new_ok _ _).mp hnew
    omega

variable {activeNodes : List (NodeId × SocketAddr)} {target : NodeId × SocketAddr}
  {io : RepairIo} {data : Bytes} {owner : Option String}

theorem reshardSegmented_some
    (h : reshardSegmented P fileHash apiSecret row shardIndex io.localFile = some data) :
    ∃ found key made sizes, io.localFile = some found ∧ row.backupKey P apiSecret = some key ∧
      segmentedShards P segmentThreshold found key (asUsize (row.p2pDataShards.getD 3))
        (asUsize (row.p2pParityShards.getD 2)) = .ok (made, sizes) ∧
      made[shardIndex]? = some data ∧ data ≠ [] ∧ toHex (P.blake3 found) = fileHash.toList := by
  unfold reshardSegmented at h
  obtain ⟨wrapped, hwrapped, h⟩ := Option.bind_eq_some_iff.mp h
  obtain ⟨key, hkey, h⟩ := Option.bind_eq_some_iff.mp h
  obtain ⟨found, hfound, h⟩ := Option.bind_eq_some_iff.mp h
  obtain ⟨⟨made, sizes⟩, hmade, h⟩ := Option.bind_eq_some_iff.mp h
  obtain ⟨shard, hshard, h⟩ := Option.bind_eq_some_iff.mp h
  split at h
  next hcheck =>
    cases Option.some.inj h
    refine ⟨found, key, made, sizes, hfound, ?_, toOption_some hmade, hshard, hcheck⟩
    rw [MediaRow.backupKey, hwrapped]
    exact hkey
  next => simp at h

theorem reshardFromLocal_ok {key : Bytes} {k m : Nat}
    (h : reshardFromLocal P fileHash key shardIndex k m io.localFile = .ok data) :
    ∃ found made size, io.localFile = some found ∧
      processForBackup P found key key k m = .ok (made, size) ∧
      made[shardIndex]? = some data ∧ toHex (P.blake3 found) = fileHash.toList := by
  unfold reshardFromLocal at h
  split at h
  next => simp at h
  next =>
    split at h
    next => simp at h
    next found hfound =>
      split at h
      next => split at h <;> simp at h
      next hhash =>
        split at h
        next => simp at h
        next made size hmade =>
          split at h
          next => simp at h
          next shard hshard =>
            cases Except.ok.inj h
            exact ⟨found, made, size, hfound, hmade, hshard, not_not.mp hhash⟩

theorem findFileInfo_some {info : FileInfo}
    (h : findFileInfo P db fileHash apiSecret = .ok (some info)) :
    ∃ row, (db.images ++ db.videos).find? (·.hash = fileHash) = some row ∧
      fileInfoOf P apiSecret row = .ok info := by
  unfold findFileInfo at h
  rw [List.find?_append]
  split at h
  next row hrow =>
    obtain ⟨found, hfound, heq⟩ := map_ok h
    cases Option.some.inj heq
    exact ⟨row, by simp [hrow], hfound⟩
  next hnone =>
    split at h
    next row hrow =>
      obtain ⟨found, hfound, heq⟩ := map_ok h
      cases Option.some.inj heq
      exact ⟨row, by simp [hnone, hrow], hfound⟩
    next => simp at h

theorem fileInfoOf_key {info : FileInfo} {key : Bytes} (h : fileInfoOf P apiSecret row = .ok info)
    (hkey : info.key = some key) :
    row.backupKey P apiSecret = some key ∧ info.dataShards = asUsize (row.p2pDataShards.getD 3) ∧
      info.parityShards = asUsize (row.p2pParityShards.getD 2) := by
  unfold fileInfoOf at h
  simp only at h
  split at h
  next wrapped hwrapped =>
    obtain ⟨found, hfound, h⟩ := bind_ok h
    cases Except.ok.inj h
    obtain ⟨unwrapped, hunwrap, rfl⟩ := map_ok hfound
    cases Option.some.inj hkey
    refine ⟨?_, rfl, rfl⟩
    simp [MediaRow.backupKey, hwrapped, hunwrap, Except.toOption]
  next =>
    obtain ⟨found, hfound, h⟩ := bind_ok h
    cases Except.ok.inj h
    cases Except.ok.inj hfound
    simp at hkey

/-- A shard that a repair makes anew is a shard of the backup that its row records. -/
theorem repairSource_made (hfile : fileHash.toList = toHex (P.blake3 file))
    (hlocal : ∀ found ∈ io.localFile, P.blake3 found = P.blake3 file → found = file)
    (h : repairSource P job s fileHash shardIndex activeNodes target io = some (data, true)) :
    ∃ row made, s.db.repairRow fileHash = some row ∧
      row.backupOf P job.apiSecret file = some made ∧ made[shardIndex]? = some data ∧ data ≠ [] := by
  have horiginal : ∀ found, io.localFile = some found → toHex (P.blake3 found) = fileHash.toList →
      found = file := fun found hfound hhash =>
    hlocal found hfound (toHex_injective (hhash.trans hfile))
  unfold repairSource at h
  split at h
  next =>
    split at h
    next row hrow =>
      obtain ⟨shard, hshard, heq⟩ := Option.map_eq_some_iff.mp h
      cases heq
      obtain ⟨found, key, made, sizes, hfound, hkey, hmade, hidx, hne, hhash⟩ :=
        reshardSegmented_some hshard
      obtain rfl := horiginal found hfound hhash
      have hcount : row.hash = fileHash ∧ 1 < row.p2pSegmentCount := by
        simpa using List.find?_some hrow
      refine ⟨row, made, by rw [Database.repairRow, hrow]; rfl, ?_, hidx, hne⟩
      simp [MediaRow.backupOf, hkey, hcount.2, hmade, Except.toOption]
    next hnone =>
      split at h
      next => simp at h
      next key _ k m hinfo =>
        obtain ⟨shard, hshard, heq⟩ := Option.map_eq_some_iff.mp h
        cases heq
        obtain ⟨row, hrow, hrowInfo⟩ := findFileInfo_some hinfo
        obtain ⟨hkey, hk, hm⟩ := fileInfoOf_key hrowInfo rfl
        obtain ⟨found, made, size, hfound, hmade, hidx, hhash⟩ :=
          reshardFromLocal_ok (toOption_some hshard)
        obtain rfl := horiginal found hfound hhash
        have hcount : ¬ 1 < row.p2pSegmentCount := by
          intro hmany
          have hhere : row.hash = fileHash := by simpa using List.find?_some hrow
          have hno := List.find?_eq_none.mp hnone row (List.mem_of_find?_eq_some hrow)
          simp [hhere, hmany] at hno
        refine ⟨row, made, by rw [Database.repairRow, hnone, hrow]; rfl, ?_, hidx, ?_⟩
        · simp only at hk hm
          simp [MediaRow.backupOf, hkey, hcount, ← hk, ← hm, hmade, Except.toOption]
        · intro hnil
          have hlen := processForBackup_shard_length hmade (List.mem_of_getElem? hidx)
          obtain ⟨enc, _, hsh, hsize⟩ := processForBackup_ok hmade
          obtain ⟨hpos, hnew, _⟩ := shard_ok hsh
          obtain ⟨hkpos, _⟩ := (P.rs.new_ok _ _).mp hnew
          have := divCeil_pos (hsize ▸ hpos) hkpos
          rw [hnil] at hlen
          simp only [List.length_nil] at hlen
          omega
      next =>
        split at h
        next => simp at h
        next =>
          obtain ⟨_, _, heq⟩ := Option.map_eq_some_iff.mp h
          simp at heq
  next => simp at h

/-- A shard that a repair copies from another node has the recorded hash. -/
theorem repairSource_copied
    (h : repairSource P job s fileHash shardIndex activeNodes target io = some (data, false)) :
    ∃ row ∈ s.db.p2pShards, row.fileHash = fileHash ∧ row.shardIndex = asI32 shardIndex ∧
      row.shardHash = toHex (P.blake3 data) := by
  unfold repairSource at h
  split at h
  next =>
    split at h
    next =>
      obtain ⟨_, _, heq⟩ := Option.map_eq_some_iff.mp h
      simp at heq
    next =>
      split at h
      next => simp at h
      next =>
        obtain ⟨_, _, heq⟩ := Option.map_eq_some_iff.mp h
        simp at heq
      next =>
        split at h
        next => simp at h
        next row hrow =>
          obtain ⟨copied, hcopied, heq⟩ := Option.map_eq_some_iff.mp h
          cases heq
          obtain ⟨node, _, hnode⟩ := List.exists_of_findSome?_eq_some hcopied
          have hkey : row.fileHash = fileHash ∧ row.shardIndex = asI32 shardIndex := by
            simpa using List.find?_some hrow
          refine ⟨row, List.mem_of_find?_eq_some hrow, hkey.1, hkey.2, ?_⟩
          simp only at hnode
          split at hnode
          next => simp at hnode
          next =>
            split at hnode
            next =>
              split at hnode
              next hhash =>
                cases Option.some.inj hnode
                exact hhash.symm
              next => simp at hnode
            next => simp at hnode
  next => simp at h

/-- What a repair does to the shard rows. -/
theorem repairFile_writes (P : Primitives) (job : AuditJob) (s : AuditState) (fileHash : String)
    (shardIndex : Nat) (io : RepairIo) :
    (repairFile P job s fileHash shardIndex io).db = s.db ∨
      ∃ registry activeNodes target data inserts,
        repairSource P job { s with registry } fileHash shardIndex activeNodes target io =
          some (data, inserts) ∧ data.length ≤ maxShardBytes ∧
        (repairFile P job s fileHash shardIndex io).db =
          if inserts then
            s.db.upsertShard fileHash (asI32 shardIndex) target.1 (toHex (P.blake3 data))
              (some job.now)
          else s.db.replaceShard fileHash (asI32 shardIndex) target.1 (toHex (P.blake3 data))
            job.now := by
  unfold repairFile
  simp only
  split
  next => exact Or.inl rfl
  next target hideal =>
    split
    next => exact Or.inl rfl
    next data inserts hsource =>
      unfold recordRepair
      split
      next => exact Or.inl rfl
      next fleet newShardHash hup =>
        obtain ⟨-, hnew⟩ := uploadShardToNode_spec hup
        have hhash := (hnew _ rfl).1
        subst hhash
        split
        next =>
          refine Or.inr ⟨_, _, target, data, inserts, hsource, ?_, rfl⟩
          unfold uploadShardToNode at hup
          split at hup
          next => simp at hup
          next hfits => exact Nat.not_lt.mp fun hlong => hfits (Or.inr (Or.inr hlong))
        next => exact Or.inl rfl

theorem length_le_utf8Len (cs : List Char) : cs.length ≤ String.utf8Len cs := by
  induction cs with
  | nil => simp
  | cons c cs ih =>
    have hpos := Char.utf8Size_pos c
    simp only [List.length_cons, String.utf8Len_cons]
    omega

theorem length_le_utf8ByteSize (text : String) : text.toList.length ≤ text.utf8ByteSize := by
  rw [← String.utf8Len_toList]
  exact length_le_utf8Len _

/-- A repair of a file that is there makes its shard from the recorded backup. -/
theorem repairSource_of_backup (hfile : fileHash.toList = toHex (P.blake3 file))
    (hup : io.recordsUp = true) (hlocal : io.localFile = some file)
    (hrow : s.db.repairRow fileHash = some row)
    (hmade : row.backupOf P job.apiSecret file = some made) (hdata : made[shardIndex]? = some data)
    (hne : data ≠ []) :
    repairSource P job s fileHash shardIndex activeNodes target io = some (data, true) := by
  obtain ⟨wrapped, key, hwrapped, hkey, hsharding⟩ := backupOf_some hmade
  unfold Database.repairRow at hrow
  unfold repairSource
  rw [if_pos hup]
  cases hseg : (s.db.images ++ s.db.videos).find? fun row =>
      row.hash = fileHash ∧ 1 < row.p2pSegmentCount with
  | some first =>
    rw [hseg] at hrow
    cases Option.some.inj hrow
    have hcount : row.hash = fileHash ∧ 1 < row.p2pSegmentCount := by
      simpa using List.find?_some hseg
    obtain ⟨_, sizes, hmade⟩ := hsharding.resolve_right fun hsingle => hsingle.1 hcount.2
    simp [reshardSegmented, hwrapped, hkey, hlocal, hmade, hdata, hne, hfile, Except.toOption]
  | none =>
    rw [hseg] at hrow
    have hfind : (s.db.images ++ s.db.videos).find? (·.hash = fileHash) = some row := hrow
    have hcount : ¬ 1 < row.p2pSegmentCount := by
      intro hmany
      have hhere : row.hash = fileHash := by simpa using List.find?_some hfind
      have hno := List.find?_eq_none.mp hseg row (List.mem_of_find?_eq_some hfind)
      simp [hhere, hmany] at hno
    obtain ⟨_, size, hmade⟩ := hsharding.resolve_left fun hsegs => hcount hsegs.1
    have hinfo : findFileInfo P s.db fileHash job.apiSecret = .ok (some
        { ext := row.ext, key := some key, encSize := row.p2pEncryptedSize
          dataShards := asUsize (row.p2pDataShards.getD 3)
          parityShards := asUsize (row.p2pParityShards.getD 2) }) := by
      have hof : fileInfoOf P job.apiSecret row = .ok
          { ext := row.ext, key := some key, encSize := row.p2pEncryptedSize
            dataShards := asUsize (row.p2pDataShards.getD 3)
            parityShards := asUsize (row.p2pParityShards.getD 2) } := by
        simp only [fileInfoOf, hwrapped, hkey]
        rfl
      rw [List.find?_append] at hfind
      unfold findFileInfo
      cases himage : s.db.images.find? (·.hash = fileHash) with
      | some image =>
        rw [himage] at hfind
        cases Option.some.inj hfind
        simp [hof, Except.map]
      | none =>
        rw [himage] at hfind
        have hvideo : s.db.videos.find? (·.hash = fileHash) = some row := hfind
        simp [hvideo, hof, Except.map]
    have hsize : 64 ≤ fileHash.utf8ByteSize := by
      have hlen := congrArg List.length hfile
      rw [length_toHex] at hlen
      have hle := length_le_utf8ByteSize fileHash
      omega
    simp only [hinfo]
    have hreshard : reshardFromLocal P fileHash key shardIndex (asUsize (row.p2pDataShards.getD 3))
        (asUsize (row.p2pParityShards.getD 2)) io.localFile = .ok data := by
      unfold reshardFromLocal
      rw [if_neg (by omega), hlocal]
      simp [hfile, hmade, hdata]
    simp [hreshard, Except.toOption]

/-- The one node that takes part in a repair. -/
def repairHost : NodeId × SocketAddr := ("node", ⟨.v4 10 0 0 1, 5050⟩)

def repairRegistry : PeerRegistry :=
  { peers := [⟨repairHost.1, repairHost.2, 0⟩], admission := .open, nodup := by simp }

/-- A repair with one node, where nothing goes wrong. -/
def undisturbedRepair (db : Database) : AuditState :=
  { registry := repairRegistry, db
    fleet := { shards := fun _ _ => none, identityAt := fun _ => some repairHost.1 }
    consistencyCheck := true, todo := [], verdicts := [] }

def undisturbedIo (file : Bytes) : RepairIo :=
  { nodesUp := true, lookupUp := fun _ => true, recordsUp := true, localFile := some file
    fetch := fun _ => ⟨false, false, false⟩, upload := .acknowledged, writeUp := true }

theorem undisturbedRepair_writes (hfile : fileHash.toList = toHex (P.blake3 file))
    (hrow : db.repairRow fileHash = some row)
    (hmade : row.backupOf P apiSecret file = some made) (hdata : made[shardIndex]? = some data)
    (hne : data ≠ []) (hfits : data.length ≤ maxShardBytes) :
    (repairFile P ⟨apiSecret, 0⟩ (undisturbedRepair db) fileHash shardIndex
      (undisturbedIo file)).db = db.upsertShard fileHash (asI32 shardIndex) repairHost.1
        (toHex (P.blake3 data)) (some 0) := by
  have hnodes : repairNodes (undisturbedRepair db) 0 (undisturbedIo file) =
      ([repairHost], repairRegistry) := rfl
  have hselect : rendezvousSelect P fileHash [repairHost] (min 5 [repairHost].length) =
      [repairHost] := by simp [rendezvousSelect]
  have hsource : ∀ target, repairSource P ⟨apiSecret, 0⟩
      { undisturbedRepair db with registry := repairRegistry } fileHash shardIndex [repairHost]
        target (undisturbedIo file) = some (data, true) := fun target =>
    repairSource_of_backup hfile rfl rfl hrow hmade hdata hne
  have hupload : ∃ fleet, uploadShardToNode P (undisturbedRepair db).fleet repairRegistry
      repairHost.2 data .acknowledged = (fleet, some (toHex (P.blake3 data))) := by
    have hreach : (undisturbedRepair db).fleet.reachable repairRegistry repairHost.2 = true := by
      simp [Fleet.reachable, repairRegistry, undisturbedRepair]
    refine ⟨(undisturbedRepair db).fleet.put repairHost.2 (P.blake3 data) data, ?_⟩
    simp [uploadShardToNode, hreach, Nat.not_lt.mpr hfits]
  obtain ⟨fleet, hupload⟩ := hupload
  have htarget : [repairHost][shardIndex % [repairHost].length]? = some repairHost := by
    simp [Nat.mod_one]
  simp only [repairFile, hnodes, hselect, htarget, hsource, recordRepair]
  have hacked : (undisturbedIo file).upload = .acknowledged := rfl
  have hwrite : (undisturbedIo file).writeUp = true := rfl
  simp only [hacked, hwrite, if_true]
  rw [hupload]
  rfl

end Reminisce

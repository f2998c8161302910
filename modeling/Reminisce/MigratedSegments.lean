import Reminisce.ShardMigration
import Reminisce.RepairGeneration
import Reminisce.RestoredSegments

namespace Reminisce

open Slices Results

def oldNode : NodeId × SocketAddr := ("old", ⟨.v4 10 0 0 1, 5050⟩)

def newNode : NodeId × SocketAddr := ("new", ⟨.v4 10 0 0 2, 5050⟩)

/-- The two nodes of a migration; the old one holds a shard under the given path. -/
def migrationFleet (path : Digest) (shard : Bytes) : Fleet where
  shards addr h := if addr = oldNode.2 ∧ h = path then some shard else none
  identityAt addr := if addr = oldNode.2 then some oldNode.1 else some newNode.1

def migrationRow (fileHash : String) (path : Digest) : ShardRow :=
  { id := 0, fileHash, shardIndex := 0, nodeId := oldNode.1, shardHash := toHex path
    lastCheckedAt := none }

def migrationState (media : MediaRow) (path : Digest) (shard : Bytes) : RebalanceState :=
  { registry := ⟨[⟨oldNode.1, oldNode.2, 0⟩, ⟨newNode.1, newNode.2, 0⟩], .open, by decide⟩
    db := ⟨[media], [], [migrationRow media.hash path],
      [⟨oldNode.1, some oldNode.2, 0, true⟩, ⟨newNode.1, some newNode.2, 0, true⟩], 1⟩
    fleet := migrationFleet path shard
    idealNodes := []
    phase := .stopped }

def migrationIo (file : Bytes) : SourceIo :=
  { infoUp := true, localFile := some file, lookupUp := true, faults := ⟨true, true, true⟩ }

def migrationJob (fileHash : String) : RebalanceJob :=
  { fileHash, activeNodes := [oldNode, newNode], apiSecret := "secret", now := 0 }

variable {P : Primitives} {media : MediaRow} {fileHash : String} {file shard data : Bytes}

theorem migrationState_lookup (media : MediaRow) (path : Digest) (shard : Bytes) :
    lookupNodeAddr (migrationState media path shard).registry (migrationState media path shard).db
      oldNode.1 0 true = (some oldNode.2, (migrationState media path shard).registry) := rfl

theorem migrationState_reachable (media : MediaRow) (path : Digest) (shard : Bytes) :
    (migrationState media path shard).fleet.reachable (migrationState media path shard).registry
      oldNode.2 = true ∧
    (migrationState media path shard).fleet.reachable (migrationState media path shard).registry
      newNode.2 = true := by
  constructor <;> rfl

/-- The old node hands out the recorded shard. -/
theorem retrieve_migrationState (media : MediaRow) (fileHash : String) (file shard : Bytes) :
    retrieveShardFromOldNode P (migrationJob fileHash) (migrationState media (P.blake3 shard) shard)
      (migrationRow fileHash (P.blake3 shard)) (migrationIo file) =
        (.ok shard, (migrationState media (P.blake3 shard) shard).registry) := by
  have hreach := (migrationState_reachable media (P.blake3 shard) shard).1
  have hheld : (migrationState media (P.blake3 shard) shard).fleet.shards oldNode.2
      (P.blake3 shard) = some shard := by
    simp [migrationState, migrationFleet]
  unfold retrieveShardFromOldNode
  simp only [migrationRow, migrationJob, migrationIo, migrationState_lookup, Fleet.retrieve,
    retrieveShard, parseShardHash_toHex, hreach, Bool.and_self, if_true, hheld]

theorem migrationState_infoRow (hhash : media.hash = fileHash) (path : Digest) (shard : Bytes) :
    (migrationState media path shard).db.infoRow fileHash = some media := by
  simp [Database.infoRow, migrationState, hhash]

theorem migrationState_indexed (fileHash : String) (path : Digest) :
    asUsize (migrationRow fileHash path).shardIndex = 0 :=
  asUsize_natCast (n := 0) (by decide)

theorem hexName_size (h : Digest) : 16 ≤ (String.ofList (toHex h)).utf8ByteSize := by
  have hle := length_le_utf8ByteSize (String.ofList (toHex h))
  rw [String.toList_ofList, length_toHex] at hle
  omega

/-- The local file in one piece is the source of the migration. -/
theorem migrationSource_onePiece {wrapped key : Bytes} (path : Digest) (shard : Bytes)
    (hhash : media.hash = fileHash) (hfile : toHex (P.blake3 file) = fileHash.toList)
    (hwrapped : media.p2pEncryptionKey = some wrapped) (hkey : decryptKey P wrapped "secret" = .ok key)
    (hpiece : onePieceShard P media key file 0 = some data) :
    migrationSource P (migrationJob fileHash) (migrationState media path shard)
      (migrationRow fileHash path) (migrationIo file) =
        (.ok data, (migrationState media path shard).registry) := by
  have hname : 16 ≤ fileHash.utf8ByteSize := by
    have hle := length_le_utf8ByteSize fileHash
    rw [← hfile, length_toHex] at hle
    omega
  have hreshard := reshardFromLocal_intact media key 0 hname hfile
  rw [hpiece] at hreshard
  rw [migrationSource_key (migrationRow fileHash path) rfl (migrationState_infoRow hhash path shard)
    hwrapped hkey, migrationState_indexed]
  simp only [migrationJob, migrationIo] at hreshard ⊢
  rw [hreshard]

/-- A row that keeps the sample key, and the geometry of three and two shards. -/
theorem onePieceShard_sample {size : Nat} {made : List Bytes} (hk : media.p2pDataShards = some 3)
    (hm : media.p2pParityShards = some 2)
    (hprocess : processForBackup P file (sampleKey 9) (sampleKey 9) 3 2 = .ok (made, size))
    (hdata : made[0]? = some data) : onePieceShard P media (sampleKey 9) file 0 = some data := by
  have hthree : asUsize 3 = 3 := asUsize_natCast (n := 3) (by decide)
  have htwo : asUsize 2 = 2 := asUsize_natCast (n := 2) (by decide)
  simp [onePieceShard, hk, hm, hthree, htwo, hprocess, Except.toOption, hdata]

theorem sampleKey_unwrapped (P : Primitives) :
    decryptKey P (sampleKey 9) "secret" = .ok (sampleKey 9) := by
  simp [decryptKey, sampleKey]

/-- A file that was backed up in one piece is migrated. -/
theorem migrateShard_succeeds_example :
    ∃ shard, Migrates referencePrimitives (migrationJob repairedHash)
      (migrationState (repairedRow 9 none) (referencePrimitives.blake3 shard) shard)
      (migrationRow repairedHash (referencePrimitives.blake3 shard)) (migrationIo [1, 2, 3]) newNode.2
      .acknowledged := by
  obtain ⟨shards, hprocess, hbackup, hlens, shard, hshard, -⟩ := repairedRow_backup 9 none
  have hnamed : (repairedRow 9 none).hash = repairedHash := rfl
  have hfile : toHex (referencePrimitives.blake3 [1, 2, 3]) = repairedHash.toList :=
    String.toList_ofList.symm
  have hpiece : onePieceShard referencePrimitives (repairedRow 9 none) (sampleKey 9) [1, 2, 3] 0 =
      some shard := onePieceShard_sample rfl rfl hprocess hshard
  have hsource := migrationSource_onePiece (referencePrimitives.blake3 shard) shard hnamed hfile rfl
    (sampleKey_unwrapped _) hpiece
  refine ⟨shard, (migrateShard_succeeds_iff referencePrimitives (migrationJob repairedHash)
    (migrationState (repairedRow 9 none) (referencePrimitives.blake3 shard) shard)
    (migrationRow repairedHash (referencePrimitives.blake3 shard)) (migrationIo [1, 2, 3]) newNode.2
    .acknowledged (hexName_size _) ⟨rfl, ?_, ?_⟩ (Or.inr ?_)).mpr ?_⟩
  · rw [hsource]
    exact (migrationState_reachable _ _ _).2
  · intro data hdata _
    rw [hsource] at hdata
    cases Except.ok.inj hdata
    rw [hlens shard (List.mem_of_getElem? hshard)]
    decide
  · exact ⟨shard, by rw [retrieve_migrationState], rfl⟩
  · refine migratesRecorded_of_onePiece rfl (migrationState_infoRow hnamed _ _) (Int.lt_irrefl 1) ?_
      hbackup ?_ rfl
    · intro found hfound _
      exact (Option.some.inj hfound).symm
    · rw [migrationState_indexed]
      exact hshard

/-- A digest of the length and the first bytes. -/
def sizedHash (data : Bytes) : Digest :=
  ⟨resize 32 0 (UInt8.ofNat data.length :: data), length_resize _ _ _⟩

theorem sizedHash_ne {a b : Bytes} (h : UInt8.ofNat a.length ≠ UInt8.ofNat b.length) :
    sizedHash a ≠ sizedHash b := by
  intro heq
  have hres := congrArg (fun digest => digest.toList.head?) heq
  simp only [sizedHash, List.Vector.toList] at hres
  rw [head_resize (by decide) (by simp), head_resize (by decide) (by simp)] at hres
  exact h (Option.some.inj hres)

noncomputable def sizedPrimitives : Primitives := { referencePrimitives with blake3 := sizedHash }

theorem sizedPrimitives_new : sizedPrimitives.rs.new 3 2 = .ok () :=
  (sizedPrimitives.rs.new_ok 3 2).mpr (by decide)

/-- The first shard of the data under the sample key. -/
theorem sized_first_shard (ctx : Bytes) (hdata : data.length < 2 ^ 38 - 64) :
    ∃ made size shard, processForBackup sizedPrimitives data (sampleKey 9) ctx 3 2 = .ok (made, size) ∧
      made[0]? = some shard ∧ shard.length = divCeil (data.length + 28) 3 := by
  obtain ⟨made, size, hmade⟩ := processForBackup_exists ctx
    (rfl : (sampleKey 9).length = keySize) hdata sizedPrimitives_new
  have hlength := processForBackup_length hmade
  have hget : made[0]? = some made[0] := List.getElem?_eq_getElem (by omega)
  refine ⟨made, size, made[0], hmade, hget, ?_⟩
  rw [processForBackup_shard_length hmade (List.getElem_mem _), processForBackup_size hmade]

/-- The row of a file that was backed up in two segments. -/
def largeRow (file : Bytes) : MediaRow :=
  { repairedRow 9 none with
    hash := String.ofList (toHex (sizedHash file)), p2pEncryptedSize := some 0
    p2pSegmentCount := 2 }

section Large

variable {first : Bytes} (hfirst : first.length = segmentThreshold)

include hfirst

/-- The shards of the file in two segments are longer than those of the file in one piece. -/
theorem large_segmented : ∃ made sizes shard,
    segmentedShards sizedPrimitives segmentThreshold (first ++ [0]) (sampleKey 9) 3 2 =
      .ok (made, sizes) ∧ sizes.length = 2 ∧ made[0]? = some shard ∧ shard.length = 89478505 := by
  have hfull : first.length < 2 ^ 38 - 64 := by
    rw [hfirst]
    decide
  obtain ⟨sub, subSize, s, hsub, hs, hslen⟩ :=
    sized_first_shard (sampleKey 9 ++ toLeBytes32 0) hfull
  obtain ⟨last, lastSize, t, hlast, ht, htlen⟩ :=
    sized_first_shard (sampleKey 9 ++ toLeBytes32 1) (by decide : ([0] : Bytes).length < 2 ^ 38 - 64)
  have hsegs : shardSegments sizedPrimitives (sampleKey 9) 3 2 0 [first, [0]] =
      .ok [(sub, subSize), (last, lastSize)] := by
    simp [shardSegments, hsub, hlast]
  refine ⟨(List.range 5).map (streamedShard [(sub, subSize), (last, lastSize)]),
    [subSize, lastSize], s ++ t, ?_, rfl, ?_, ?_⟩
  · unfold segmentedShards
    rw [readSegments_two hfirst, hsegs]
    rfl
  · simp [streamedShard, hs, ht]
  · rw [List.length_append, hslen, htlen, hfirst]
    decide

theorem large_onePiece : ∃ made size shard,
    processForBackup sizedPrimitives (first ++ [0]) (sampleKey 9) (sampleKey 9) 3 2 = .ok (made, size) ∧
      made[0]? = some shard ∧ shard.length = 89478495 := by
  have hlength : (first ++ [0]).length = segmentThreshold + 1 := by
    rw [List.length_append, hfirst]
    rfl
  have hlarge : (first ++ [0]).length < 2 ^ 38 - 64 := by
    rw [hlength]
    decide
  obtain ⟨made, size, shard, hmade, hget, hshard⟩ := sized_first_shard (sampleKey 9) hlarge
  rw [hlength] at hshard
  exact ⟨made, size, shard, hmade, hget, hshard⟩

end Large

theorem largeRow_backup {made : List Bytes} {sizes : List Nat}
    (h : segmentedShards sizedPrimitives segmentThreshold file (sampleKey 9) 3 2 = .ok (made, sizes)) :
    (largeRow file).backupOf sizedPrimitives "secret" file = some made := by
  have hkey : (largeRow file).backupKey sizedPrimitives "secret" = some (sampleKey 9) := by
    simp [MediaRow.backupKey, largeRow, repairedRow, sampleKey_unwrapped, Except.toOption]
  have hk : asUsize ((largeRow file).p2pDataShards.getD 3) = 3 :=
    asUsize_natCast (n := 3) (by decide)
  have hm : asUsize ((largeRow file).p2pParityShards.getD 2) = 2 :=
    asUsize_natCast (n := 2) (by decide)
  have hcount : 1 < (largeRow file).p2pSegmentCount := by
    show (1 : Int) < 2
    decide
  unfold MediaRow.backupOf
  simp only [hkey, Option.bind_some, if_pos hcount, hk, hm, h]
  rfl

/-- The local original of a segmented file is intact, its key is known and the old node has the
shard as well; the bytes of the file in one piece are taken and refused. -/
theorem segmented_shard_not_migrated :
    ∃ first shard path, first = List.replicate segmentThreshold 0 ∧
      path = sizedPrimitives.blake3 shard ∧
      LocalShard sizedPrimitives (migrationJob (largeRow (first ++ [0])).hash)
        (migrationState (largeRow (first ++ [0])) path shard)
        (migrationRow (largeRow (first ++ [0])).hash path) (migrationIo (first ++ [0])) ∧
      OldNodeShard sizedPrimitives (migrationJob (largeRow (first ++ [0])).hash)
        (migrationState (largeRow (first ++ [0])) path shard)
        (migrationRow (largeRow (first ++ [0])).hash path) (migrationIo (first ++ [0])) ∧
      TargetAccepts sizedPrimitives (migrationJob (largeRow (first ++ [0])).hash)
        (migrationState (largeRow (first ++ [0])) path shard)
        (migrationRow (largeRow (first ++ [0])).hash path) (migrationIo (first ++ [0])) newNode.2
        .acknowledged ∧
      ¬ Migrates sizedPrimitives (migrationJob (largeRow (first ++ [0])).hash)
        (migrationState (largeRow (first ++ [0])) path shard)
        (migrationRow (largeRow (first ++ [0])).hash path) (migrationIo (first ++ [0])) newNode.2
        .acknowledged := by
  have hfirst : (List.replicate segmentThreshold (0 : UInt8)).length = segmentThreshold :=
    List.length_replicate
  generalize List.replicate segmentThreshold (0 : UInt8) = first at hfirst ⊢
  obtain ⟨made, sizes, shard, hmade, -, hshard, hlength⟩ := large_segmented hfirst
  obtain ⟨whole, size, piece, hwhole, hpiece, hpieceLength⟩ := large_onePiece hfirst
  refine ⟨first, shard, sizedPrimitives.blake3 shard, rfl, rfl, ?_⟩
  have hbackup := largeRow_backup hmade
  generalize first ++ [0] = file at *
  have hfile : toHex (sizedPrimitives.blake3 file) = (largeRow file).hash.toList :=
    String.toList_ofList.symm
  have hsource : migrationSource sizedPrimitives (migrationJob (largeRow file).hash)
      (migrationState (largeRow file) (sizedPrimitives.blake3 shard) shard)
      (migrationRow (largeRow file).hash (sizedPrimitives.blake3 shard)) (migrationIo file) =
        (.ok piece, (migrationState (largeRow file) (sizedPrimitives.blake3 shard) shard).registry) :=
    migrationSource_onePiece _ shard rfl hfile rfl (sampleKey_unwrapped _)
      (onePieceShard_sample rfl rfl hwhole hpiece)
  have hdiffers : toHex (sizedPrimitives.blake3 piece) ≠ toHex (sizedPrimitives.blake3 shard) := by
    intro heq
    refine sizedHash_ne ?_ (toHex_injective heq)
    rw [hlength, hpieceLength]
    decide
  refine ⟨⟨largeRow file, file, made, shard, migrationState_infoRow rfl _ _, rfl, hfile, hbackup, ?_,
    rfl⟩, ⟨shard, by rw [retrieve_migrationState], rfl⟩, ⟨rfl, ?_, ?_⟩, ?_⟩
  · rw [migrationState_indexed]
    exact hshard
  · rw [hsource]
    exact (migrationState_reachable _ _ _).2
  · intro data hdata hhash
    rw [hsource] at hdata
    cases Except.ok.inj hdata
    exact absurd hhash hdiffers
  · intro h
    obtain ⟨data, registry, hdata, hhash⟩ := source_of_migrates h
    rw [hsource] at hdata
    cases Except.ok.inj (Prod.mk.inj hdata).1
    exact hdiffers hhash

end Reminisce

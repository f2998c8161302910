import Reminisce.DbSnapshot
import Reminisce.RestoreUploaded

namespace Reminisce

open Slices Results

variable {P : Primitives} {segmentSize k m : Nat} {fileHash apiSecret : String}
  {run : ReplicationRun} {db : Database} {file : Bytes} {shards : List Bytes}
  {rows : List ShardRow} {fetch : Fetch}

/-- When every call is answered with the shard of its row, the loop keeps those shards. -/
theorem fetchShards_intact {call : Nat} {full : List (Option Bytes)}
    (hrows : ∀ row ∈ rows, row.Names P shards) (hlen : shards.length = 5)
    (hfetch : ∀ (p : Nat) row data, rows[p]? = some row →
      shards[asUsize row.shardIndex]? = some data →
        fetch (call + p) row.nodeId (P.blake3 data) = some data) {j : Nat} {s : Bytes}
    (h : (fetchShards P fetch call full rows)[j]? = some (some s)) :
    full[j]? = some (some s) ∨ shards[j]? = some s := by
  induction rows generalizing call full with
  | nil => exact Or.inl h
  | cons row rows ih =>
    obtain ⟨data, hlt, _, hd, hh⟩ := (hrows row (by simp)).index hlen
    have hrows' := fun r hr => hrows r (List.mem_cons_of_mem _ hr)
    have hfetch' : ∀ (p : Nat) row' data', rows[p]? = some row' →
        shards[asUsize row'.shardIndex]? = some data' →
          fetch (call + 1 + p) row'.nodeId (P.blake3 data') = some data' := by
      intro p row' data' hp hd'
      rw [Nat.add_assoc, Nat.add_comm 1 p]
      exact hfetch (p + 1) row' data' hp hd'
    have hanswer := hfetch 0 row data rfl hd
    rw [Nat.add_zero] at hanswer
    have hin : ¬ Erasure.totalShards ≤ asUsize row.shardIndex := Nat.not_le.mpr hlt
    unfold fetchShards at h
    simp only [hin, if_false, hh, parseShardHash_toHex, hanswer, if_true] at h
    rcases ih hrows' hfetch' h with hset | hright
    · rw [List.getElem?_set] at hset
      split at hset
      next hj =>
        split at hset
        next =>
          cases Option.some.inj (Option.some.inj hset)
          exact Or.inr (hj ▸ hd)
        next => simp at hset
      next => exact Or.inl hset
    · exact Or.inr hright

/-- Given all uploaded shards of the code's geometry, the loop ends with right shards only,
and with at least three. -/
theorem fetchShards_complete (hrows : ∀ row ∈ rows, row.Names P shards)
    (hlen : shards.length = 5) (hnodup : (rows.map (·.shardIndex)).Nodup)
    (hall : ∀ p < rows.length, Intact P fetch rows shards p) :
    (∀ (j : Nat) s, (fetchShards P fetch 0 (List.replicate 5 none) rows)[j]? = some (some s) →
      shards[j]? = some s) ∧
    rows.length ≤ (fetchShards P fetch 0 (List.replicate 5 none) rows).countP Option.isSome := by
  constructor
  · intro j s hj
    have hanswers : ∀ (p : Nat) row data, rows[p]? = some row →
        shards[asUsize row.shardIndex]? = some data →
          fetch (0 + p) row.nodeId (P.blake3 data) = some data := by
      intro p row data hp hd
      obtain ⟨hlt, _⟩ := List.getElem?_eq_some_iff.mp hp
      obtain ⟨row', data', hp', hd', hf⟩ := hall p hlt
      cases Option.some.inj (hp.symm.trans hp')
      cases Option.some.inj (hd.symm.trans hd')
      rwa [Nat.zero_add]
    rcases fetchShards_intact hrows hlen hanswers hj with hnone | hright
    · have hmem : some s ∈ List.replicate 5 (none : Option Bytes) := List.mem_of_getElem? hnone
      simp at hmem
    · exact hright
  · have h := fetchShards_count hrows hlen hnodup
      (fun p (hp : p ∈ Finset.range rows.length) => hall p (Finset.mem_range.mp hp))
    rwa [Finset.card_range] at h

/-- Media restore of a completely uploaded file, given its shards, returns the file. -/
def MediaRestoresExactly (P : Primitives) (dataShards parityShards : Nat) : Prop :=
  ∀ file fileHash apiSecret table before run after shards fetch owner row,
    Fresh before fileHash → Found P before table fileHash owner row → run.fileData = some file →
    (∀ idx < dataShards + parityShards, idx ∈ run.acks.order) →
    replicateSingleFile P segmentThreshold before table fileHash apiSecret dataShards parityShards
      run = (.ok (), after) →
    backupShards P segmentThreshold file run.encryptionKey.toList dataShards parityShards =
      .ok shards →
    (∀ p < (after.shardsOf fileHash).length, Intact P fetch (after.shardsOf fileHash) shards p) →
      ∃ filename mediaType, restoreFileWithFetcher P after fileHash owner fetch apiSecret =
        .ok { data := file, filename, mediaType }

/-- Snapshot restore of a completely uploaded dump, given its shards, returns the dump. -/
def SnapshotRestoresExactly (P : Primitives) (dataShards parityShards : Nat) : Prop :=
  ∀ data stored apiSecret run manifest shards fetch,
    (∀ idx < dataShards + parityShards, idx ∈ run.acks.order) →
    backupDumpFile P segmentThreshold stored data apiSecret dataShards parityShards run =
      .ok (some manifest) →
    backupShards P segmentThreshold data run.encryptionKey.toList dataShards parityShards =
      .ok shards →
    (∀ p < manifest.shards.length,
      Intact P fetch (manifest.shards.map ManifestShard.toRow) shards p) →
      restoreDbSnapshot P manifest apiSecret fetch = .ok data

theorem mediaRestoresExactly_code : MediaRestoresExactly P 3 2 := by
  intro file fileHash apiSecret table before run after shards fetch owner row hfresh hfound hfile _
    hup hshards hall
  obtain ⟨uploaded, wrapped, mark, hc⟩ := committed_of_upload hfile hup hshards
  obtain ⟨hkey, size, hsize⟩ := hc.marks.key row
  obtain ⟨rec, hrec, _⟩ := fileRecordOf_exists table hkey hsize hc.unwraps
  have hq := queryFileRecord_found (hc.found hfound) hrec
  have hdesc := hc.describes hfresh hq
  obtain ⟨hright, hmany⟩ := fetchShards_complete
    (hc.fresh_names hfresh (by decide) (by decide)) hdesc.length
    (Database.shardsOf_nodup (hc.unique hfresh.unique) fileHash) hall
  have hrows : 3 ≤ (after.shardsOf fileHash).length := hc.rows_enough (by decide)
  have hfits : ∃ s ∈ shards, s.length ≤ maxShardBytes := by
    have hlen : shards.length = 5 := hdesc.length
    exact ⟨shards[0], List.getElem_mem _, hc.shard_fits (by decide) _ (List.getElem_mem _)⟩
  have hfit : file.length ≤ segmentThreshold → file.length + 28 < 2 ^ 31 := by
    simp only [segmentThreshold]
    omega
  have hdecode := hdesc.decode (by decide) hfit hfits (length_fetchShards.trans rfl) hright
    (hrows.trans hmany)
  exact ⟨_, _, restoreFileWithFetcher_enough hq (Nat.not_lt.mpr (hrows.trans hmany)) hdecode⟩

theorem SnapshotStored.names {data : Bytes} {manifest : DbBackupManifest}
    {uploaded : List UploadedShard} {wrapped : Bytes}
    (hs : SnapshotStored P segmentSize k m data apiSecret run manifest shards uploaded wrapped) :
    ∀ row ∈ manifest.shards.map ManifestShard.toRow, row.Names P shards := by
  intro row hrow
  rw [hs.placement, List.map_map] at hrow
  obtain ⟨s, hmem, rfl⟩ := List.mem_map.mp hrow
  obtain ⟨bytes, hd, _, hh⟩ := hs.uploads.stored s hmem
  exact ⟨s.idx, bytes, rfl, hd, hh⟩

theorem SnapshotStored.unique {data : Bytes} {manifest : DbBackupManifest}
    {uploaded : List UploadedShard} {wrapped : Bytes}
    (hs : SnapshotStored P segmentSize k m data apiSecret run manifest shards uploaded wrapped) :
    ((manifest.shards.map ManifestShard.toRow).map (·.shardIndex)).Nodup := by
  have hindices : (manifest.shards.map ManifestShard.toRow).map (·.shardIndex) =
      (uploaded.map (·.idx)).map fun i : Nat => (i : Int) := by
    rw [hs.placement]
    simp [ManifestShard.toRow, UploadedShard.toManifest, Function.comp_def]
  rw [hindices]
  exact hs.uploads.distinct.map fun a b h => Int.ofNat.inj h

theorem SnapshotStored.shard_fits {data : Bytes} {manifest : DbBackupManifest}
    {uploaded : List UploadedShard} {wrapped : Bytes}
    (hs : SnapshotStored P segmentSize k m data apiSecret run manifest shards uploaded wrapped)
    (hk : 0 < k) : ∃ s ∈ shards, s.length ≤ maxShardBytes := by
  have hpos : 0 < uploaded.length := Nat.lt_of_lt_of_le hk hs.enough
  obtain ⟨bytes, hd, hle, _⟩ := hs.uploads.stored _ (List.getElem_mem hpos)
  exact ⟨bytes, List.mem_of_getElem? hd, hle⟩

theorem DbBackupManifest.Describes.backup {data key : Bytes} {manifest : DbBackupManifest}
    (h : manifest.Describes P segmentSize k m data key shards) :
    backupShards P segmentSize data key k m = .ok shards := by
  cases h with
  | single small process => simp [backupShards, small, process, Except.map]
  | segmented large process => simp [backupShards, segmentedShards, large, process, Except.map]

/-- A snapshot of the code's geometry is restored from three right shards. -/
theorem SnapshotStored.restores {data : Bytes} {manifest : DbBackupManifest}
    {uploaded : List UploadedShard} {wrapped : Bytes}
    (hs : SnapshotStored P segmentThreshold 3 2 data apiSecret run manifest shards uploaded wrapped)
    (hright : ∀ (j : Nat) s, (fetchShards P fetch 0 (List.replicate 5 none)
      (manifest.shards.map ManifestShard.toRow))[j]? = some (some s) → shards[j]? = some s)
    (hmany : 3 ≤ (fetchShards P fetch 0 (List.replicate 5 none)
      (manifest.shards.map ManifestShard.toRow)).countP Option.isSome) :
    restoreDbSnapshot P manifest apiSecret fetch = .ok data := by
  have hunwrap : decryptKey P wrapped apiSecret = .ok run.encryptionKey.toList :=
    decryptKey_encryptKey (by simp [keySize]) (by simp [nonceSize]) hs.wrap
  have hcount : ¬ (fetchShards P fetch 0 (List.replicate Erasure.totalShards none)
      (manifest.shards.map ManifestShard.toRow)).countP Option.isSome < Erasure.dataShards :=
    Nat.not_lt.mpr hmany
  have hgotlen : (fetchShards P fetch 0 (List.replicate Erasure.totalShards none)
      (manifest.shards.map ManifestShard.toRow)).length = 5 := length_fetchShards.trans rfl
  unfold restoreDbSnapshot
  simp only [hs.keyHex, Hex.decode_encode, hunwrap, hcount, if_false]
  cases hs.describes with
  | single small process count encSize =>
    have hsize := processForBackup_size process
    have hfit : data.length ≤ 2 ^ 28 := by
      simp only [segmentThreshold] at small
      omega
    have hdata : asUsize (max manifest.dataShards 1) = 3 := by
      rw [hs.geometry.1, asI32_of_lt (by decide)]
      exact asUsize_natCast (by decide)
    have hparity : asUsize (max manifest.parityShards 0) = 2 := by
      rw [hs.geometry.2, asI32_of_lt (by decide)]
      exact asUsize_natCast (by decide)
    rw [if_pos (by omega), encSize, asUsize_asI64 (by omega), hdata, hparity,
      restoreFromBackup_process process hgotlen hright hmany]
    rfl
  | segmented large process count encSizes =>
    obtain ⟨s, hmem, hmax⟩ := hs.shard_fits (by decide)
    obtain ⟨idx, hidx, rfl⟩ := List.mem_map.mp hmem
    have hidx' := List.mem_range.mp hidx
    have hcnt := segmentCount_gt_one process (by decide) large hidx' hmax
    rw [← count] at hcnt
    rw [if_neg hcnt, encSizes]
    exact restoreSegmented_uploaded process (by decide) hidx' hmax hgotlen hright hmany

theorem snapshotRestoresExactly_code : SnapshotRestoresExactly P 3 2 := by
  intro data stored apiSecret run manifest shards fetch _ hup hshards hall
  obtain ⟨shards', uploaded, wrapped, hs⟩ := backupDumpFile_ok hup
  cases Except.ok.inj (hshards.symm.trans hs.describes.backup)
  have hlen : shards.length = 5 := length_backupShards hshards
  obtain ⟨hright, hmany⟩ := fetchShards_complete hs.names hlen hs.unique
    (fun p hp => hall p (by simpa using hp))
  have hrows : 3 ≤ (manifest.shards.map ManifestShard.toRow).length := by
    rw [List.length_map, hs.placement, List.length_map]
    exact hs.enough
  exact hs.restores hright (hrows.trans hmany)

end Reminisce

import Reminisce.RestoreRecorded

namespace Reminisce

open Slices Results

variable {P : Primitives} {segmentSize k m : Nat} {table : MediaTable}
  {fileHash apiSecret : String} {run : ReplicationRun} {before after db : Database} {file : Bytes}
  {shards : List Bytes} {uploaded : List UploadedShard} {wrapped : Bytes}
  {mark : MediaRow → MediaRow}

theorem Committed.shard_fits (hc : Committed P segmentSize k m table fileHash apiSecret run before
    after file shards uploaded wrapped mark) (hk : 0 < k) :
    ∀ s ∈ shards, s.length ≤ maxShardBytes := by
  have hpos : 0 < uploaded.length := Nat.lt_of_lt_of_le hk hc.enough
  obtain ⟨data, hd, hle, _⟩ := hc.uploads.stored _ (List.getElem_mem hpos)
  obtain ⟨len, hlen⟩ := backupShards_lengths hc.marks.backup
  intro s hs
  rw [hlen s hs, ← hlen data (List.mem_of_getElem? hd)]
  exact hle

theorem Committed.p2pShards_eq (hc : Committed P segmentSize k m table fileHash apiSecret run
    before after file shards uploaded wrapped mark) :
    after.p2pShards =
      (upsertShards (registerNodes before uploaded run.now) fileHash uploaded).p2pShards := by
  rw [hc.after_eq, Database.updateMedia_p2pShards]

/-- A commit whose acknowledgements cover the recorded indices leaves rows of its own backup
only. -/
theorem Committed.names (hc : Committed P segmentSize k m table fileHash apiSecret run before
    after file shards uploaded wrapped mark) (hk : 0 < k) (hkm : k + m < 2 ^ 31)
    (hcover : ∀ row ∈ before.p2pShards, row.fileHash = fileHash →
      ∃ idx ∈ run.acks.order, idx < k + m ∧ row.shardIndex = idx) :
    ∀ row ∈ after.p2pShards, row.fileHash = fileHash → row.Names P shards := by
  have hlen := length_backupShards hc.marks.backup
  intro row hrow hf
  rw [hc.p2pShards_eq] at hrow
  rcases mem_upsertShards hrow with ⟨_, s, hs, hi, hh⟩ | ⟨hold, hnot⟩
  · obtain ⟨data, hd, _, hhash⟩ := hc.uploads.stored s hs
    obtain ⟨hlt, _⟩ := List.getElem?_eq_some_iff.mp hd
    exact ⟨s.idx, data, by rw [hi, asI32_of_lt (by omega)], hd, hh.trans hhash⟩
  · rw [registerNodes_p2pShards] at hold
    obtain ⟨idx, hack, hlt, hidx⟩ := hcover row hold hf
    have hd : shards[idx]? = some shards[idx] := List.getElem?_eq_getElem (by omega)
    obtain ⟨s, hs, rfl⟩ := hc.uploads.complete idx hack _ hd
      (hc.shard_fits hk _ (List.getElem_mem _))
    exact absurd (by rw [hidx, asI32_of_lt (by omega)]) (hnot hf s hs)

theorem Committed.unwraps (hc : Committed P segmentSize k m table fileHash apiSecret run before
    after file shards uploaded wrapped mark) :
    decryptKey P wrapped apiSecret = .ok run.encryptionKey.toList :=
  decryptKey_encryptKey (by simp [keySize]) (by simp [nonceSize]) hc.wrap

theorem Committed.media_same (hc : Committed P segmentSize k m table fileHash apiSecret run before
    after file shards uploaded wrapped mark) :
    after.media table =
      (before.media table).map fun row => if row.hash = fileHash then mark row else row := by
  rw [hc.after_eq, Database.updateMedia_same, upsertShards_media, registerNodes_media]

theorem Committed.media_other (hc : Committed P segmentSize k m table fileHash apiSecret run before
    after file shards uploaded wrapped mark) {other : MediaTable} (hne : other ≠ table) :
    after.media other = before.media other := by
  rw [hc.after_eq, Database.updateMedia_other _ hne, upsertShards_media, registerNodes_media]

/-- What the mark of a backup leaves as it was. -/
theorem MarksBackup.identity {key : Bytes} {now : Time}
    (hm : MarksBackup P segmentSize k m key file wrapped now mark shards) (row : MediaRow) :
    (mark row).hash = row.hash ∧ (mark row).deletedAt = row.deletedAt ∧
      (mark row).userId = row.userId ∧ (mark row).name = row.name ∧ (mark row).ext = row.ext := by
  cases hm <;> exact ⟨rfl, rfl, rfl, rfl, rfl⟩

theorem MarksBackup.key {key : Bytes} {now : Time}
    (hm : MarksBackup P segmentSize k m key file wrapped now mark shards) (row : MediaRow) :
    (mark row).p2pEncryptionKey = some wrapped ∧ ∃ size, (mark row).p2pEncryptedSize = some size := by
  cases hm with
  | single => exact ⟨rfl, _, rfl⟩
  | segmented => exact ⟨rfl, _, rfl⟩

theorem Committed.visible (hc : Committed P segmentSize k m table fileHash apiSecret run before
    after file shards uploaded wrapped mark) (ownerUuid : Option UserId) :
    after.visible table fileHash ownerUuid = (before.visible table fileHash ownerUuid).map mark := by
  have hsame := hc.marks.identity
  unfold Database.visible
  rw [hc.media_same, List.filter_map]
  have hfilter : (before.media table).filter ((fun row : MediaRow => decide (row.hash = fileHash ∧
      row.deletedAt = none ∧ ∀ uid ∈ ownerUuid, row.userId = uid)) ∘
        fun row => if row.hash = fileHash then mark row else row) =
      (before.media table).filter fun row : MediaRow => decide (row.hash = fileHash ∧
        row.deletedAt = none ∧ ∀ uid ∈ ownerUuid, row.userId = uid) := by
    refine List.filter_congr fun row _ => ?_
    simp only [Function.comp_apply]
    split
    · obtain ⟨h1, h2, h3, _⟩ := hsame row
      rw [h1, h2, h3]
    · rfl
  rw [hfilter]
  refine List.map_congr_left fun row hrow => ?_
  have hhash : row.hash = fileHash := by
    have := (List.mem_filter.mp hrow).2
    simp only [decide_eq_true_eq] at this
    exact this.1
  rw [if_pos hhash]

/-- Where a row with the hash of a committed file comes from. -/
theorem Committed.row_cases (hc : Committed P segmentSize k m table fileHash apiSecret run before
    after file shards uploaded wrapped mark) {found : MediaTable} {row : MediaRow}
    (hrow : row ∈ after.media found) (hhash : row.hash = fileHash) :
    (found = table ∧ ∃ old ∈ before.media table, old.hash = fileHash ∧ row = mark old) ∨
      (found ≠ table ∧ row ∈ before.media found) := by
  by_cases hne : found = table
  · subst hne
    rw [hc.media_same] at hrow
    obtain ⟨old, hold, heq⟩ := List.mem_map.mp hrow
    split at heq
    next hh => exact Or.inl ⟨rfl, old, hold, hh, heq.symm⟩
    next hh =>
      subst heq
      exact absurd hhash hh
  · rw [hc.media_other hne] at hrow
    exact Or.inr ⟨hne, hrow⟩

theorem Committed.row_kept (hc : Committed P segmentSize k m table fileHash apiSecret run before
    after file shards uploaded wrapped mark) {found : MediaTable} {row : MediaRow}
    (hrow : row ∈ after.media found) (hhash : row.hash ≠ fileHash) : row ∈ before.media found := by
  by_cases hne : found = table
  · subst hne
    rw [hc.media_same] at hrow
    obtain ⟨old, hold, heq⟩ := List.mem_map.mp hrow
    split at heq
    next hh =>
      rw [← heq, (hc.marks.identity old).1] at hhash
      exact absurd hh hhash
    next => rwa [← heq]
  · rwa [hc.media_other hne] at hrow

theorem Committed.shard_kept (hc : Committed P segmentSize k m table fileHash apiSecret run before
    after file shards uploaded wrapped mark) {row : ShardRow} (hrow : row ∈ after.p2pShards)
    (hhash : row.fileHash ≠ fileHash) : row ∈ before.p2pShards := by
  rw [hc.p2pShards_eq] at hrow
  rcases mem_upsertShards hrow with ⟨hf, _⟩ | ⟨hold, _⟩
  · exact absurd hf hhash
  · rwa [registerNodes_p2pShards] at hold

/-- A shard row whose index is not acknowledged stays as it was. -/
theorem Committed.stale_row (hc : Committed P segmentSize k m table fileHash apiSecret run before
    after file shards uploaded wrapped mark) (hkm : k + m < 2 ^ 31) {row : ShardRow}
    (hrow : row ∈ after.p2pShards) (hnot : ∀ idx ∈ run.acks.order, row.shardIndex ≠ idx) :
    row ∈ before.p2pShards := by
  rw [hc.p2pShards_eq] at hrow
  rcases mem_upsertShards hrow with ⟨_, s, hs, hi, _⟩ | ⟨hold, _⟩
  · obtain ⟨data, hd, _⟩ := hc.uploads.stored s hs
    obtain ⟨hlt, _⟩ := List.getElem?_eq_some_iff.mp hd
    rw [length_backupShards hc.marks.backup] at hlt
    rw [asI32_of_lt (by omega)] at hi
    exact absurd hi (hnot s.idx (hc.uploads.acked s hs))
  · rwa [registerNodes_p2pShards] at hold

theorem Committed.unique (hc : Committed P segmentSize k m table fileHash apiSecret run before
    after file shards uploaded wrapped mark) (hn : before.shardKeys.Nodup) :
    after.shardKeys.Nodup := by
  have hreg : (registerNodes before uploaded run.now).shardKeys.Nodup := by
    rwa [Database.shardKeys, registerNodes_p2pShards]
  have hup := upsertShards_nodup hreg fileHash uploaded
  rwa [Database.shardKeys, ← hc.p2pShards_eq] at hup

theorem exists_upsertShards (db : Database) (fileHash : String) {s : UploadedShard} (h : s ∈ uploaded) :
    ∃ row ∈ (upsertShards db fileHash uploaded).p2pShards, row.fileHash = fileHash ∧
      row.shardIndex = asI32 s.idx := by
  induction uploaded generalizing db with
  | nil => simp at h
  | cons first uploaded ih =>
    rcases List.mem_cons.mp h with rfl | h
    · obtain ⟨row, hrow, hf, hi⟩ := Database.exists_upsertShard db fileHash (asI32 s.idx) s.nodeId
        s.shardHashHex none
      obtain ⟨new, hnew, hf', hi'⟩ := upsertShards_keeps hrow fileHash uploaded
      exact ⟨new, hnew, hf'.trans hf, hi'.trans hi⟩
    · exact ih _ h

/-- A commit leaves a row for each upload. -/
theorem Committed.rows_uploaded (hc : Committed P segmentSize k m table fileHash apiSecret run
    before after file shards uploaded wrapped mark) (hkm : k + m < 2 ^ 31) :
    uploaded.length ≤ (after.shardsOf fileHash).length := by
  have hlt : ∀ s ∈ uploaded, s.idx < 2 ^ 31 := by
    intro s hs
    obtain ⟨data, hd, _⟩ := hc.uploads.stored s hs
    obtain ⟨hlt, _⟩ := List.getElem?_eq_some_iff.mp hd
    have hlen := length_backupShards hc.marks.backup
    omega
  have hindices : (uploaded.map fun s => asI32 s.idx) =
      (uploaded.map (·.idx)).map fun i : Nat => (i : Int) := by
    rw [List.map_map]
    exact List.map_congr_left fun s hs => asI32_of_lt (hlt s hs)
  have hnodup : (uploaded.map fun s => asI32 s.idx).Nodup := by
    rw [hindices]
    exact hc.uploads.distinct.map fun a b h => Int.ofNat.inj h
  have hsub : (uploaded.map fun s => asI32 s.idx) ⊆
      (after.shardsOf fileHash).map (·.shardIndex) := by
    intro i hi
    obtain ⟨s, hs, rfl⟩ := List.mem_map.mp hi
    obtain ⟨row, hrow, hf, hidx⟩ := exists_upsertShards (registerNodes before uploaded run.now)
      fileHash hs
    rw [← hc.p2pShards_eq] at hrow
    exact List.mem_map.mpr ⟨row, Database.mem_shardsOf.mpr ⟨hrow, hf⟩, hidx⟩
  have hle := (hnodup.subperm hsub).length_le
  rwa [List.length_map, List.length_map] at hle

theorem Committed.rows_enough (hc : Committed P segmentSize k m table fileHash apiSecret run before
    after file shards uploaded wrapped mark) (hkm : k + m < 2 ^ 31) :
    k ≤ (after.shardsOf fileHash).length :=
  hc.enough.trans (hc.rows_uploaded hkm)

/-- A complete upload leaves a row for each shard. -/
theorem Committed.rows_complete (hc : Committed P segmentSize k m table fileHash apiSecret run
    before after file shards uploaded wrapped mark) (hk : 0 < k) (hkm : k + m < 2 ^ 31)
    (hacks : ∀ idx < k + m, idx ∈ run.acks.order) :
    k + m ≤ (after.shardsOf fileHash).length := by
  have hlen := length_backupShards hc.marks.backup
  have hsub : List.range (k + m) ⊆ uploaded.map (·.idx) := by
    intro idx hidx
    have hlt := List.mem_range.mp hidx
    have hd : shards[idx]? = some shards[idx] := List.getElem?_eq_getElem (by omega)
    obtain ⟨s, hs, rfl⟩ := hc.uploads.complete idx (hacks idx hlt) _ hd
      (hc.shard_fits hk _ (List.getElem_mem _))
    exact List.mem_map.mpr ⟨s, hs, rfl⟩
  have hle := (List.nodup_range.subperm hsub).length_le
  rw [List.length_range, List.length_map] at hle
  exact hle.trans (hc.rows_uploaded hkm)

end Reminisce

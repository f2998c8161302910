import Reminisce.Replication
import Reminisce.Restore

namespace Reminisce

open Slices Results

theorem mem_upsertShards {db : Database} {fileHash : String} {uploaded : List UploadedShard}
    {row : ShardRow} (h : row ∈ (upsertShards db fileHash uploaded).p2pShards) :
    (row.fileHash = fileHash ∧ ∃ s ∈ uploaded, row.shardIndex = asI32 s.idx ∧
        row.shardHash = s.shardHashHex) ∨
      (row ∈ db.p2pShards ∧
        (row.fileHash = fileHash → ∀ s ∈ uploaded, row.shardIndex ≠ asI32 s.idx)) := by
  induction uploaded generalizing db with
  | nil => exact Or.inr ⟨h, by simp⟩
  | cons s uploaded ih =>
    rcases ih h with ⟨hf, t, ht, hrest⟩ | ⟨hmem, hnot⟩
    · exact Or.inl ⟨hf, t, List.mem_cons_of_mem _ ht, hrest⟩
    · rcases Database.mem_upsertShard hmem with ⟨hf, hi, -, hh⟩ | ⟨hold, hkey⟩
      · exact Or.inl ⟨hf, s, by simp, hi, hh⟩
      · refine Or.inr ⟨hold, fun hf t ht => ?_⟩
        rcases List.mem_cons.mp ht with rfl | ht
        · exact fun hi => hkey ⟨hf, hi⟩
        · exact hnot hf t ht

theorem upsertShards_nodup {db : Database} (hn : db.shardKeys.Nodup) (fileHash : String)
    (uploaded : List UploadedShard) : (upsertShards db fileHash uploaded).shardKeys.Nodup := by
  induction uploaded generalizing db with
  | nil => exact hn
  | cons s uploaded ih => exact ih (Database.upsertShard_nodup hn _ _ _ _ _)

theorem upsertShards_keeps {db : Database} {row : ShardRow} (h : row ∈ db.p2pShards)
    (fileHash : String) (uploaded : List UploadedShard) :
    ∃ new ∈ (upsertShards db fileHash uploaded).p2pShards,
      new.fileHash = row.fileHash ∧ new.shardIndex = row.shardIndex := by
  induction uploaded generalizing db row with
  | nil => exact ⟨row, h, rfl, rfl⟩
  | cons s uploaded ih =>
    obtain ⟨mid, hmid, hf, hi⟩ := Database.upsertShard_keeps h fileHash (asI32 s.idx) s.nodeId
      s.shardHashHex none
    obtain ⟨new, hnew, hf', hi'⟩ := ih hmid
    exact ⟨new, hnew, hf'.trans hf, hi'.trans hi⟩

/-- The record read by restore describes a backup of `file` whose shards are `shards`. -/
inductive FileRecord.Describes (P : Primitives) (segmentSize dataShards parityShards : Nat)
    (file : Bytes) (rec : FileRecord) : List Bytes → Prop
  | single {shards : List Bytes} {size : Nat} (small : ¬ segmentSize < file.length)
      (process : processForBackup P file rec.encryptionKey rec.encryptionKey dataShards
        parityShards = .ok (shards, size))
      (count : rec.segmentCount = 1) (encSize : rec.encryptedSize = asI32 size)
      (data : rec.dataShards = some (asI32 dataShards))
      (parity : rec.parityShards = some (asI32 parityShards)) :
      Describes P segmentSize dataShards parityShards file rec shards
  | segmented {segs : List (List Bytes × Nat)} (large : segmentSize < file.length)
      (process : shardSegments P rec.encryptionKey dataShards parityShards 0
        (readSegments segmentSize file) = .ok segs)
      (count : rec.segmentCount = asI32 segs.length)
      (encSizes : rec.segmentEncSizes = some (segs.map fun seg => asI64 seg.2)) :
      Describes P segmentSize dataShards parityShards file rec
        ((List.range (dataShards + parityShards)).map (streamedShard segs))

section Record

variable {P : Primitives} {segmentSize k m : Nat} {file : Bytes} {rec : FileRecord}
  {shards : List Bytes} {got : List (Option Bytes)}

theorem FileRecord.Describes.length (h : rec.Describes P segmentSize k m file shards) :
    shards.length = k + m := by
  cases h with
  | single _ process => exact processForBackup_length process
  | segmented => simp

theorem FileRecord.Describes.backup (h : rec.Describes P segmentSize k m file shards) :
    backupShards P segmentSize file rec.encryptionKey k m = .ok shards := by
  cases h with
  | single small process => simp [backupShards, small, process, Except.map]
  | segmented large process => simp [backupShards, segmentedShards, large, process, Except.map]

theorem FileRecord.Describes.large (h : rec.Describes P segmentSize k m file shards)
    (large : segmentSize < file.length) :
    ∃ segs, shardSegments P rec.encryptionKey k m 0 (readSegments segmentSize file) = .ok segs ∧
      rec.segmentCount = asI32 segs.length ∧
      rec.segmentEncSizes = some (segs.map fun seg => asI64 seg.2) := by
  cases h with
  | single small => exact absurd large small
  | segmented _ process count encSizes => exact ⟨_, process, count, encSizes⟩

/-- The single-shot decoder, for any geometry that fits the integer columns. -/
theorem decodeShards_single {size : Nat} (hk : k < 2 ^ 31) (hm : m < 2 ^ 31)
    (hfit : size < 2 ^ 31) (count : rec.segmentCount = 1)
    (encSize : rec.encryptedSize = asI32 size) (data : rec.dataShards = some (asI32 k))
    (parity : rec.parityShards = some (asI32 m)) :
    decodeShards P rec got = (restoreFromBackup P got size rec.encryptionKey k m).mapError
      fun e => .error s!"Restore failed: {e.text}" := by
  have hone : rec.segmentCount ≤ 1 := by omega
  unfold decodeShards
  rw [if_pos hone, encSize, data, parity, Option.getD_some, Option.getD_some, asUsize_asI32 hk,
    asUsize_asI32 hm, asUsize_asI32 hfit]

theorem length_segment_lt {segs : List (List Bytes × Nat)} {parts : List Bytes} {key : Bytes}
    {segIdx : Nat} (h : shardSegments P key k m segIdx parts = .ok segs) (hkm : 0 < k)
    {idx : Nat} (hidx : idx < k + m)
    (hlen : (streamedShard segs idx).length ≤ maxShardBytes) (hk : k ≤ 256) :
    ∀ seg ∈ segs, seg.2 < 2 ^ 63 := by
  induction parts generalizing segIdx segs with
  | nil => cases Except.ok.inj h; simp
  | cons segment parts ih =>
    obtain ⟨sub, size, later, rfl, hp, hl⟩ := shardSegments_cons h
    have hsublen := processForBackup_length hp
    have hget : sub[idx]? = some sub[idx] := List.getElem?_eq_getElem (by omega)
    have hsub := processForBackup_shard_length hp (List.getElem_mem (by omega : idx < sub.length))
    simp only [streamedShard, List.map_cons, List.flatten_cons, List.length_append, hget,
      Option.getD_some, maxShardBytes] at hlen
    intro seg hseg
    rcases List.mem_cons.mp hseg with rfl | hseg
    · have hle := le_divCeil_mul size hkm
      have : divCeil size k * k ≤ 8 * 2 ^ 30 * 256 := Nat.mul_le_mul (by omega) hk
      simp only
      omega
    · refine ih hl ?_ seg hseg
      simp only [streamedShard, maxShardBytes]
      omega

/-- A segmented upload with the code's own geometry is decoded from any three of its
streams. -/
theorem restoreSegmented_uploaded {segs : List (List Bytes × Nat)} {key : Bytes}
    (process : shardSegments P key 3 2 0 (readSegments segmentSize file) = .ok segs)
    (hseg : 0 < segmentSize) {idx : Nat} (hidx : idx < 3 + 2)
    (hmax : (streamedShard segs idx).length ≤ maxShardBytes) (hlen : got.length = 5)
    (hgot : ∀ (j : Nat) s, got[j]? = some (some s) →
      ((List.range (3 + 2)).map (streamedShard segs))[j]? = some s)
    (hcount : 3 ≤ got.countP Option.isSome) :
    restoreSegmented P got key 0 (segs.map fun seg => asI64 seg.2) = .ok file := by
  have hsizes := length_segment_lt process (by omega) hidx hmax (by omega)
  have hstreams : ∀ (j : Nat) s, got[j]? = some (some s) →
      ∃ before : Bytes, before.length = 0 ∧ s = before ++ streamedShard segs j := by
    intro j s hj
    have hs' := hgot j s hj
    rw [List.getElem?_map] at hs'
    obtain ⟨i, hi, rfl⟩ := Option.map_eq_some_iff.mp hs'
    obtain ⟨hlt, hij⟩ := List.getElem?_eq_some_iff.mp hi
    rw [List.getElem_range] at hij
    exact ⟨[], rfl, by simp [hij]⟩
  rw [restoreSegmented_shardSegments process hsizes hlen hstreams hcount,
    readSegments_flatten hseg file]

/-- A file above the threshold has more than one segment, and the count fits its column. -/
theorem segmentCount_gt_one {segs : List (List Bytes × Nat)} {key : Bytes}
    (process : shardSegments P key 3 2 0 (readSegments segmentSize file) = .ok segs)
    (hseg : 0 < segmentSize) (large : segmentSize < file.length) {idx : Nat} (hidx : idx < 3 + 2)
    (hmax : (streamedShard segs idx).length ≤ maxShardBytes) : ¬ asI32 segs.length ≤ 1 := by
  have hmany := shardSegments_length process
  have hstream := shardSegments_stream_length process hidx
  have htwo : 1 < (readSegments segmentSize file).length :=
    one_lt_length_chunks hseg (by omega) large
  simp only [maxShardBytes] at hmax
  rw [asI32_of_lt (by omega)]
  omega

/-- With the code's own geometry a described backup is decoded from any three of its
shards. -/
theorem FileRecord.Describes.decode (h : rec.Describes P segmentSize 3 2 file shards)
    (hseg : 0 < segmentSize) (hfit : file.length ≤ segmentSize → file.length + 28 < 2 ^ 31)
    (hstored : ∃ s ∈ shards, s.length ≤ maxShardBytes) (hlen : got.length = 5)
    (hgot : ∀ (j : Nat) s, got[j]? = some (some s) → shards[j]? = some s)
    (hcount : 3 ≤ got.countP Option.isSome) : decodeShards P rec got = .ok file := by
  cases h with
  | single small process count encSize data parity =>
    have hsize := processForBackup_size process
    have hfit' := hfit (by omega)
    rw [decodeShards_single (by omega) (by omega) (by omega) count encSize data parity,
      restoreFromBackup_process process hlen hgot hcount]
    rfl
  | segmented large process count encSizes =>
    obtain ⟨s, hs, hmax⟩ := hstored
    obtain ⟨idx, hidx, rfl⟩ := List.mem_map.mp hs
    have hidx' := List.mem_range.mp hidx
    have hcnt := segmentCount_gt_one process hseg large hidx' hmax
    rw [← count] at hcnt
    simp only [decodeShards, hcnt, if_false, encSizes,
      restoreSegmented_uploaded process hseg hidx' hmax hlen hgot hcount]

end Record

variable {P : Primitives} {db : Database} {fileHash apiSecret : String} {owner : Option String}
  {segmentSize k m : Nat} {file key wrapped : Bytes} {rec : FileRecord} {shards : List Bytes}

theorem queryOpt_some {α : Type} {rows : List α} {row : α} (h : queryOpt rows = .ok (some row)) :
    rows = [row] := by
  unfold queryOpt at h
  split at h
  next => simp at h
  next => simpa using h
  next => simp at h

theorem queryOpt_none {α : Type} {rows : List α} (h : queryOpt rows = .ok none) : rows = [] := by
  unfold queryOpt at h
  split at h
  next => rfl
  next => simp at h
  next => simp at h

theorem Database.mem_visible {table : MediaTable} {ownerUuid : Option UserId} {row : MediaRow} :
    row ∈ db.visible table fileHash ownerUuid ↔ row ∈ db.media table ∧ row.hash = fileHash ∧
      row.deletedAt = none ∧ ∀ uid ∈ ownerUuid, row.userId = uid := by
  simp [visible]

/-- The rows by which a caller finds the file: one in the given table, and none in the table
that is looked up before it. -/
structure Found (P : Primitives) (db : Database) (table : MediaTable) (fileHash : String)
    (owner : Option String) (row : MediaRow) : Prop where
  one : db.visible table fileHash (owner.bind P.parseUuid) = [row]
  first : table = .videos → db.visible .images fileHash (owner.bind P.parseUuid) = []

theorem queryFileRecord_found {table : MediaTable} {row : MediaRow}
    (hf : Found P db table fileHash owner row)
    (hr : fileRecordOf P apiSecret table row = .ok rec) :
    queryFileRecord P db fileHash owner apiSecret = .ok (some rec) := by
  cases table with
  | images =>
    simp only [queryFileRecord, hf.one, queryOpt, ok_bind, hr, Except.map]
  | videos =>
    simp only [queryFileRecord, hf.first rfl, hf.one, queryOpt, ok_bind, hr, Except.map]

/-- The record that restore reads is that of the one row by which the caller finds the file. -/
theorem found_of_queryFileRecord
    (h : queryFileRecord P db fileHash owner apiSecret = .ok (some rec)) :
    ∃ table row, Found P db table fileHash owner row ∧
      fileRecordOf P apiSecret table row = .ok rec := by
  obtain ⟨image, hi, h⟩ := bind_ok h
  cases image with
  | some row =>
    obtain ⟨found, hfound, heq⟩ := map_ok h
    cases Option.some.inj heq
    exact ⟨.images, row, ⟨queryOpt_some hi, by simp⟩, hfound⟩
  | none =>
    obtain ⟨video, hv, h⟩ := bind_ok h
    cases video with
    | some row =>
      obtain ⟨found, hfound, heq⟩ := map_ok h
      cases Option.some.inj heq
      exact ⟨.videos, row, ⟨queryOpt_some hv, fun _ => queryOpt_none hi⟩, hfound⟩
    | none => simp at h

theorem Found.mem {table : MediaTable} {row : MediaRow} (hf : Found P db table fileHash owner row) :
    row ∈ db.media table ∧ row.hash = fileHash ∧ row.deletedAt = none ∧
      ∀ uid ∈ owner.bind P.parseUuid, row.userId = uid := by
  apply Database.mem_visible.mp
  rw [hf.one]
  exact List.mem_singleton_self row

theorem queryFileRecord_some
    (h : queryFileRecord P db fileHash owner apiSecret = .ok (some rec)) :
    ∃ table row, row ∈ db.media table ∧ row.hash = fileHash ∧
      fileRecordOf P apiSecret table row = .ok rec := by
  obtain ⟨table, row, hf, hrec⟩ := found_of_queryFileRecord h
  obtain ⟨hin, hhash, _⟩ := hf.mem
  exact ⟨table, row, hin, hhash, hrec⟩

theorem fileRecordOf_ok {table : MediaTable} {row : MediaRow}
    (h : fileRecordOf P apiSecret table row = .ok rec) :
    ∃ wrapped encSize, row.p2pEncryptionKey = some wrapped ∧ row.p2pEncryptedSize = some encSize ∧
      decryptKey P wrapped apiSecret = .ok rec.encryptionKey ∧
      rec = { name := row.name, ext := row.ext, mediaType := table.mediaType
              encryptionKey := rec.encryptionKey, encryptedSize := encSize
              segmentCount := row.p2pSegmentCount, segmentEncSizes := row.p2pSegmentEncSizes
              dataShards := row.p2pDataShards, parityShards := row.p2pParityShards } := by
  unfold fileRecordOf at h
  split at h
  next => simp at h
  next wrapped hw =>
    split at h
    next => simp at h
    next key hkey =>
      split at h
      next => simp at h
      next encSize hsize =>
        cases Except.ok.inj h
        exact ⟨wrapped, encSize, hw, hsize, hkey, rfl⟩

/-- The marked row is read back as a description of the backup that was marked. -/
theorem MarksBackup.describes {now : Time} {mark : MediaRow → MediaRow}
    (hm : MarksBackup P segmentSize k m key file wrapped now mark shards)
    (hunwrap : decryptKey P wrapped apiSecret = .ok key) {table : MediaTable} {row : MediaRow}
    (hcount : ¬ segmentSize < file.length → row.p2pSegmentCount = 1)
    (h : fileRecordOf P apiSecret table (mark row) = .ok rec) :
    rec.Describes P segmentSize k m file shards := by
  obtain ⟨w, encSize, hw, hsize, hkey, hrec⟩ := fileRecordOf_ok h
  cases hm with
  | single manifest small process =>
    cases Option.some.inj hw
    cases Option.some.inj hsize
    have heq : rec.encryptionKey = key := by
      rw [hunwrap] at hkey
      exact (Except.ok.inj hkey).symm
    rw [heq] at hrec
    subst hrec
    refine .single small process (hcount small) ?_ ?_ ?_ <;> simp [markSingle]
  | segmented large process =>
    cases Option.some.inj hw
    have heq : rec.encryptionKey = key := by
      rw [hunwrap] at hkey
      exact (Except.ok.inj hkey).symm
    obtain ⟨segs, hsegs, rfl, rfl⟩ := segmentedShards_ok process
    rw [heq] at hrec
    subst hrec
    refine .segmented large hsegs ?_ ?_
    · simp [markSegmented]
    · simp [markSegmented, Function.comp_def]

theorem MarksBackup.backup {now : Time} {mark : MediaRow → MediaRow}
    (hm : MarksBackup P segmentSize k m key file wrapped now mark shards) :
    backupShards P segmentSize file key k m = .ok shards := by
  cases hm with
  | single _ small process => simp [backupShards, small, process, Except.map]
  | segmented large process => simp [backupShards, large, process, Except.map]

/-- A shard row that names shard `shardIndex` of the given backup. -/
def ShardRow.Names (P : Primitives) (shards : List Bytes) (row : ShardRow) : Prop :=
  ∃ (j : Nat) (data : Bytes), row.shardIndex = j ∧ shards[j]? = some data ∧
    row.shardHash = toHex (P.blake3 data)

/-- The answer to fetch call `p` is the uploaded shard that row `p` stands for. -/
def Intact (P : Primitives) (fetch : Fetch) (rows : List ShardRow) (shards : List Bytes)
    (p : Nat) : Prop :=
  ∃ row data, rows[p]? = some row ∧ shards[asUsize row.shardIndex]? = some data ∧
    fetch p row.nodeId (P.blake3 data) = some data

/-- BLAKE3 tells apart the uploaded shards and whatever the fetcher answers. -/
def CollisionFree (P : Primitives) (shards : List Bytes) (fetch : Fetch) : Prop :=
  Set.InjOn P.blake3 {b | b ∈ shards ∨ ∃ n node digest, fetch n node digest = some b}

variable {fetch : Fetch} {rows : List ShardRow}

theorem ShardRow.Names.index {row : ShardRow} (h : row.Names P shards) (hlen : shards.length = 5) :
    ∃ data, asUsize row.shardIndex < 5 ∧ row.shardIndex = asUsize row.shardIndex ∧
      shards[asUsize row.shardIndex]? = some data ∧ row.shardHash = toHex (P.blake3 data) := by
  obtain ⟨j, data, hj, hd, hh⟩ := h
  obtain ⟨hlt, _⟩ := List.getElem?_eq_some_iff.mp hd
  rw [hj, asUsize_natCast (by omega)]
  exact ⟨data, by omega, rfl, hd, hh⟩

/-- With rows that name the shards, the loop keeps right shards only. -/
theorem fetchShards_right (hrows : ∀ row ∈ rows, row.Names P shards) (hlen : shards.length = 5)
    (hcf : CollisionFree P shards fetch) {j : Nat} {s : Bytes}
    (h : (fetchShards P fetch 0 (List.replicate 5 none) rows)[j]? = some (some s)) :
    shards[j]? = some s := by
  rcases fetchShards_some h with hnone | ⟨row, hrow, rfl, hhash, n, digest, hfetch⟩
  · have hmem : some s ∈ List.replicate 5 (none : Option Bytes) := List.mem_of_getElem? hnone
    simp at hmem
  · obtain ⟨data, _, _, hd, hh⟩ := (hrows row hrow).index hlen
    have heq : P.blake3 s = P.blake3 data := toHex_injective (hhash.trans hh)
    have hs := hcf (Or.inr ⟨n, _, digest, hfetch⟩) (Or.inl (List.mem_of_getElem? hd)) heq
    rw [hs, hd]

/-- The place that the answer for a row goes to. -/
def rowPlace (rows : List ShardRow) (p : Nat) : Nat :=
  (rows[p]?.map fun row => asUsize row.shardIndex).getD 0

theorem rowPlace_eq {p : Nat} {row : ShardRow} (h : rows[p]? = some row) :
    rowPlace rows p = asUsize row.shardIndex := by
  simp [rowPlace, h]

/-- Right answers for different rows fill different places. -/
theorem fetchShards_count (hrows : ∀ row ∈ rows, row.Names P shards) (hlen : shards.length = 5)
    (hnodup : (rows.map (·.shardIndex)).Nodup) {calls : Finset Nat}
    (hcalls : ∀ p ∈ calls, Intact P fetch rows shards p) :
    calls.card ≤ (fetchShards P fetch 0 (List.replicate 5 none) rows).countP Option.isSome := by
  have hinj : Set.InjOn (rowPlace rows) calls := by
    intro p hp q hq hpq
    obtain ⟨row, _, hrow, _⟩ := hcalls p hp
    obtain ⟨row', _, hrow', _⟩ := hcalls q hq
    rw [rowPlace_eq hrow, rowPlace_eq hrow'] at hpq
    obtain ⟨_, _, hi, _⟩ := (hrows row (List.mem_of_getElem? hrow)).index hlen
    obtain ⟨_, _, hi', _⟩ := (hrows row' (List.mem_of_getElem? hrow')).index hlen
    have hsame : (rows.map (·.shardIndex))[p]? = (rows.map (·.shardIndex))[q]? := by
      rw [List.getElem?_map, List.getElem?_map, hrow, hrow', Option.map_some, Option.map_some,
        hi, hi', hpq]
    obtain ⟨hlt, _⟩ := List.getElem?_eq_some_iff.mp hrow
    exact (List.getElem?_inj (by simpa using hlt) hnodup).mp hsame
  rw [← Finset.card_image_of_injOn hinj]
  refine card_le_countP fun j hj => ?_
  obtain ⟨p, hp, rfl⟩ := Finset.mem_image.mp hj
  obtain ⟨row, data, hrow, hd, hfetch⟩ := hcalls p hp
  obtain ⟨data', _, _, hd', hh⟩ := (hrows row (List.mem_of_getElem? hrow)).index hlen
  have hdata : data' = data := Option.some.inj (hd'.symm.trans hd)
  subst hdata
  rw [rowPlace_eq hrow]
  refine fetchShards_present (by simp [Erasure.totalShards, Erasure.dataShards,
    Erasure.parityShards]) ?_ hrow hh rfl (by simpa using hfetch)
  intro r hr
  obtain ⟨d, hlt, _, _, hhash⟩ := (hrows r hr).index hlen
  exact ⟨by simpa [Erasure.totalShards, Erasure.dataShards, Erasure.parityShards] using hlt,
    _, hhash⟩

theorem Database.shardsOf_nodup (hn : db.shardKeys.Nodup) (fileHash : String) :
    ((db.shardsOf fileHash).map (·.shardIndex)).Nodup := by
  have hrows : (db.p2pShards.filter (·.fileHash = fileHash)).map
      (fun row => (row.fileHash, row.shardIndex)) =
      ((db.p2pShards.filter (·.fileHash = fileHash)).map (·.shardIndex)).map
        fun idx => (fileHash, idx) := by
    rw [List.map_map]
    refine List.map_congr_left fun row hrow => ?_
    have : row.fileHash = fileHash := by simpa using (List.mem_filter.mp hrow).2
    simp [this]
  have hsub := hn.sublist ((List.filter_sublist (p := (·.fileHash = fileHash))).map
    fun row : ShardRow => (row.fileHash, row.shardIndex))
  rw [hrows] at hsub
  exact (List.Perm.map _ (List.mergeSort_perm _ _)).nodup_iff.mpr (List.Nodup.of_map _ hsub)

/-- The shards that restore holds after its fetches. -/
def gotShards (P : Primitives) (db : Database) (fileHash : String) (fetch : Fetch) :
    List (Option Bytes) :=
  fetchShards P fetch 0 (List.replicate Erasure.totalShards none) (db.shardsOf fileHash)

theorem restoreFileWithFetcher_few
    (hq : queryFileRecord P db fileHash owner apiSecret = .ok (some rec))
    (hfew : (gotShards P db fileHash fetch).countP Option.isSome < Erasure.dataShards) :
    ∃ message, restoreFileWithFetcher P db fileHash owner fetch apiSecret =
      .error (.error message) := by
  unfold restoreFileWithFetcher
  rw [hq, ok_bind]
  simp only
  split
  next => exact ⟨_, rfl⟩
  next =>
    rw [← gotShards, if_pos hfew]
    exact ⟨_, rfl⟩

theorem restoreFileWithFetcher_enough
    (hq : queryFileRecord P db fileHash owner apiSecret = .ok (some rec))
    (henough : ¬ (gotShards P db fileHash fetch).countP Option.isSome < Erasure.dataShards)
    (hdecode : decodeShards P rec (gotShards P db fileHash fetch) = .ok file) :
    restoreFileWithFetcher P db fileHash owner fetch apiSecret =
      .ok { data := file, filename := s!"{rec.name}.{rec.ext}", mediaType := rec.mediaType } := by
  have hsome : ¬ (db.shardsOf fileHash).isEmpty := by
    intro hempty
    rw [gotShards, List.isEmpty_iff.mp hempty, fetchShards] at henough
    exact henough (by decide)
  unfold restoreFileWithFetcher
  rw [hq, ok_bind]
  simp only
  rw [if_neg hsome, ← gotShards, if_neg henough, hdecode]
  rfl

/-- What restore returns for a described backup whose rows name its shards: the file when
three shards came back right, an error otherwise. -/
theorem restoreFileWithFetcher_described
    (hq : queryFileRecord P db fileHash owner apiSecret = .ok (some rec))
    (hd : rec.Describes P segmentSize 3 2 file shards) (hseg : 0 < segmentSize)
    (hfit : file.length ≤ segmentSize → file.length + 28 < 2 ^ 31)
    (hstored : ∃ s ∈ shards, s.length ≤ maxShardBytes)
    (hrows : ∀ row ∈ db.shardsOf fileHash, row.Names P shards)
    (hcf : CollisionFree P shards fetch) :
    if (gotShards P db fileHash fetch).countP Option.isSome < 3 then
      ∃ message, restoreFileWithFetcher P db fileHash owner fetch apiSecret =
        .error (.error message)
    else restoreFileWithFetcher P db fileHash owner fetch apiSecret =
      .ok { data := file, filename := s!"{rec.name}.{rec.ext}", mediaType := rec.mediaType } := by
  split
  next hfew => exact restoreFileWithFetcher_few hq hfew
  next henough =>
    refine restoreFileWithFetcher_enough hq henough (hd.decode hseg hfit hstored ?_ ?_ (by omega))
    · exact length_fetchShards.trans rfl
    · exact fun j s hj => fetchShards_right hrows hd.length hcf hj

end Reminisce

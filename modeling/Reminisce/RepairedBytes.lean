import Reminisce.SegmentLoops
import Reminisce.MigratedSegments

namespace Reminisce

open Slices Results

variable {P : Primitives} {reads : Reads} {file key : Bytes} {k m i : Nat} {shards : List Bytes}
  {count : Int} {fileHash : String} {data : Bytes}

/-- The segmented upload sends the shards of `segmentedShards`. -/
theorem backupUpload_segmented (hlarge : segmentThreshold < file.length)
    (h : backupUpload P reads file key k m = .ok (shards, count)) :
    ∃ sizes, segmentedShards P segmentThreshold file key k m = .ok (shards, sizes) ∧
      count = asI32 sizes.length := by
  unfold backupUpload at h
  rw [if_pos hlarge] at h
  obtain ⟨⟨sizes, sent⟩, hloop, h⟩ := bind_ok h
  cases Except.ok.inj h
  obtain ⟨segs, hsegs, hsizes, hlength, hstreams⟩ := uploadLoop_ok (by simp) hloop
  rw [List.nil_append] at hsizes
  refine ⟨sizes, ?_, rfl⟩
  have hsent : sent.map List.flatten = (List.range (k + m)).map (streamedShard segs) := by
    refine List.ext_getElem? fun idx => ?_
    by_cases hidx : idx < k + m
    · obtain ⟨after, hafter, hflat⟩ := hstreams idx [] (by simp [hidx])
      simp [hafter, hflat, hidx]
    · rw [List.getElem?_eq_none (by simp; omega), List.getElem?_eq_none (by simp; omega)]
  simp only [segmentedShards, readSegments]
  rw [List.length_nil] at hsegs
  simp only [OpenFile.start] at hsegs
  rw [hsegs, hsent, hsizes]
  rfl

theorem backupUpload_exists (hreads : ∀ n, (reads n).isSome) (hlarge : segmentThreshold < file.length)
    {sizes : List Nat}
    (h : segmentedShards P segmentThreshold file key k m = .ok (shards, sizes)) :
    backupUpload P reads file key k m = .ok (shards, asI32 sizes.length) := by
  obtain ⟨segs, hsegs, -, -⟩ := segmentedShards_ok h
  obtain ⟨⟨sent, streams⟩, hloop⟩ :=
    (uploadLoop_exists hreads hsegs (List.replicate (k + m) []) :
      ∃ result, uploadLoop P reads key k m (file.length + 1) (OpenFile.start file) []
        (List.replicate (k + m) []) = .ok result)
  have hup : backupUpload P reads file key k m =
      .ok (streams.map List.flatten, asI32 sent.length) := by
    unfold backupUpload
    rw [if_pos hlarge, hloop]
    rfl
  obtain ⟨sizes', hsegmented, hcount⟩ := backupUpload_segmented hlarge hup
  obtain ⟨hshards, hsizes⟩ := Prod.mk.inj (Except.ok.inj (h.symm.trans hsegmented))
  rw [hup, hcount, hshards, hsizes]

/-- The segmented repair makes the shard of `segmentedShards`. -/
theorem repairSegmented_ok
    (h : repairSegmented P reads fileHash file key k m i = .ok data) :
    ∃ shards sizes, segmentedShards P segmentThreshold file key k m = .ok (shards, sizes) ∧
      shards[i]? = some data := by
  unfold repairSegmented at h
  split at h
  next => cases h
  next hindex =>
    obtain ⟨⟨full, hashed⟩, hloop, h⟩ := bind_ok h
    obtain ⟨segs, hsegs, rfl, -⟩ := repairLoop_ok hloop
    simp only at h
    split at h
    next => cases h
    next =>
      split at h
      next => cases h
      next =>
        cases Except.ok.inj h
        refine ⟨(List.range (k + m)).map (streamedShard segs), segs.map (·.2), ?_, ?_⟩
        · simp only [segmentedShards, readSegments]
          simp only [OpenFile.start] at hsegs
          rw [hsegs]
          rfl
        · rw [List.getElem?_map, List.getElem?_range (by omega)]
          rfl

/-- The shards of a segmented backup hold the file between them. -/
theorem shardSegments_covers {segIdx : Nat} {parts : List Bytes} {segs : List (List Bytes × Nat)}
    (h : shardSegments P key k m segIdx parts = .ok segs) (hi : i < k + m) (hk : 0 < k) :
    parts.flatten.length ≤ (streamedShard segs i).length * k := by
  induction parts generalizing segIdx segs with
  | nil => simp
  | cons segment parts ih =>
    obtain ⟨sub, size, later, rfl, hp, hl⟩ := shardSegments_cons h
    have hsublen := processForBackup_length hp
    have hget : sub[i]? = some sub[i] := List.getElem?_eq_getElem (by omega)
    have hsub := processForBackup_shard_length hp (List.getElem_mem (by omega : i < sub.length))
    have hsize := processForBackup_size hp
    have hcover := le_divCeil_mul size hk
    have hrest := ih hl
    rw [streamedShard_cons hget, List.flatten_cons, List.length_append, List.length_append,
      Nat.add_mul, hsub]
    omega

theorem dataShards_pos {ctx : Bytes} {size : Nat}
    (h : processForBackup P data key ctx k m = .ok (shards, size)) : 0 < k ∧ k + m ≤ 256 := by
  obtain ⟨enc, _, hsh, _⟩ := processForBackup_ok h
  obtain ⟨_, hnew, _⟩ := shard_ok hsh
  obtain ⟨hk, _, hkm⟩ := (P.rs.new_ok k m).mp hnew
  exact ⟨hk, hkm⟩

/-- A segmented file that has a shard on a node has few segments. -/
theorem segmentCount_of_stored {sizes : List Nat} {idx : Nat}
    (hlarge : segmentThreshold < file.length)
    (h : segmentedShards P segmentThreshold file key k m = .ok (shards, sizes))
    (hdata : shards[idx]? = some data) (hstored : data.length ≤ maxShardBytes) :
    1 < asI32 sizes.length := by
  obtain ⟨segs, hsegs, rfl, rfl⟩ := segmentedShards_ok h
  obtain ⟨hidx, hget⟩ := List.getElem?_eq_some_iff.mp hdata
  rw [List.length_map, List.length_range] at hidx
  rw [List.getElem_map, List.getElem_range] at hget
  have hcount := shardSegments_length hsegs
  have hmany : 1 < (chunks segmentThreshold (file.length + 1) file).length :=
    one_lt_length_chunks (by decide) (by omega) hlarge
  have hfew := length_chunks_mul (n := segmentThreshold) (by decide) (file.length + 1) file
  obtain ⟨first, rest, hparts⟩ : ∃ first rest, readSegments segmentThreshold file = first :: rest :=
    List.exists_cons_of_length_pos (by unfold readSegments; omega)
  have hk : 0 < k ∧ k + m ≤ 256 := by
    rw [hparts] at hsegs
    obtain ⟨_, _, _, _, hp, _⟩ := shardSegments_cons hsegs
    exact dataShards_pos hp
  have hcovers := shardSegments_covers hsegs hidx hk.1
  rw [readSegments_flatten (by decide), hget] at hcovers
  have hbound : data.length * k ≤ maxShardBytes * 256 := Nat.mul_le_mul hstored (by omega)
  unfold readSegments at hcount
  unfold segmentThreshold at hfew
  unfold maxShardBytes at hbound
  have hlt : segs.length < 2 ^ 31 := by
    rw [hcount]
    unfold segmentThreshold
    omega
  rw [List.length_map, asI32_of_lt hlt]
  omega

theorem repairSingle_eq {size : Nat} (hhash : fileHash.toList = toHex (P.blake3 file))
    (h : processForBackup P file key key k m = .ok (shards, size)) (hi : shards[i]? = some data) :
    repairSingle P fileHash file key k m i = .ok data := by
  unfold repairSingle
  rw [if_neg (not_not.mpr hhash.symm), h]
  simp [hi]

theorem repairSegmented_exists (hreads : ∀ n, (reads n).isSome) {sizes : List Nat}
    (hhash : fileHash.toList = toHex (P.blake3 file)) (hfile : 0 < file.length) (hi : i < k + m)
    (h : segmentedShards P segmentThreshold file key k m = .ok (shards, sizes)) :
    ∃ data, repairSegmented P reads fileHash file key k m i = .ok data := by
  obtain ⟨segs, hsegs, -, -⟩ := segmentedShards_ok h
  obtain ⟨⟨full, hashed⟩, hloop⟩ :=
    (repairLoop_exists hreads hi hsegs [] [] : ∃ result, repairLoop P reads key k m i
      (file.length + 1) (OpenFile.start file) 0 [] [] = .ok result)
  obtain ⟨segs', hsegs', hfull, hhashed⟩ := repairLoop_ok hloop
  cases Except.ok.inj (hsegs.symm.trans hsegs')
  obtain ⟨first, rest, hparts⟩ : ∃ first rest, readSegments segmentThreshold file = first :: rest := by
    cases hcut : readSegments segmentThreshold file with
    | nil =>
      have hflat := readSegments_flatten (by decide : 0 < segmentThreshold) file
      rw [hcut] at hflat
      rw [← hflat] at hfile
      simp at hfile
    | cons first rest => exact ⟨first, rest, rfl⟩
  have hk : 0 < k := by
    rw [hparts] at hsegs
    obtain ⟨_, _, _, _, hp, _⟩ := shardSegments_cons hsegs
    exact (dataShards_pos hp).1
  have hcovers := shardSegments_covers hsegs hi hk
  rw [readSegments_flatten (by decide)] at hcovers
  have hnonempty : full.length ≠ 0 := by
    rw [hfull, List.nil_append]
    intro hzero
    rw [hzero] at hcovers
    omega
  have hall : hashed = file := by
    rw [hhashed, List.nil_append]
    exact readSegments_flatten (by decide) file
  refine ⟨full, ?_⟩
  unfold repairSegmented
  rw [if_neg (by omega), hloop]
  simp only [ok_bind, hnonempty, if_false, hall, hhash, ne_eq, not_true_eq_false, pure_eq_ok]

/-- With reads that do not fail the loop gives what `reshardSegmented` gives. -/
theorem repairSegmented_toOption (hreads : ∀ n, (reads n).isSome) (apiSecret : String) {row : MediaRow}
    (hkey : row.backupKey P apiSecret = some key) (i : Nat) :
    (repairSegmented P reads fileHash file key (asUsize (row.p2pDataShards.getD 3))
      (asUsize (row.p2pParityShards.getD 2)) i).toOption =
        reshardSegmented P fileHash apiSecret row i (some file) := by
  obtain ⟨wrapped, hwrapped, hunwrap⟩ := Option.bind_eq_some_iff.mp hkey
  unfold reshardSegmented
  simp only [hwrapped, hunwrap, Option.bind_eq_bind, Option.bind_some]
  generalize asUsize (row.p2pDataShards.getD 3) = k
  generalize asUsize (row.p2pParityShards.getD 2) = m
  cases hmade : segmentedShards P segmentThreshold file key k m with
  | error e =>
    cases hrepair : repairSegmented P reads fileHash file key k m i with
    | error _ => rfl
    | ok data =>
      obtain ⟨_, _, hok, _⟩ := repairSegmented_ok hrepair
      rw [hmade] at hok
      cases hok
  | ok made =>
    obtain ⟨shards, sizes⟩ := made
    obtain ⟨segs, hsegs, rfl, rfl⟩ := segmentedShards_ok hmade
    have hopt : (Except.ok ((List.range (k + m)).map (streamedShard segs), segs.map (·.2)) :
        Except Np2pError (List Bytes × List Nat)).toOption =
          some ((List.range (k + m)).map (streamedShard segs), segs.map (·.2)) := rfl
    rw [hopt, Option.bind_some]
    unfold repairSegmented
    by_cases hi : i < k + m
    · obtain ⟨⟨full, hashed⟩, hloop⟩ :=
        (repairLoop_exists hreads hi hsegs [] [] : ∃ result, repairLoop P reads key k m i
          (file.length + 1) (OpenFile.start file) 0 [] [] = .ok result)
      obtain ⟨segs', hsegs', hfull, hhashed⟩ := repairLoop_ok hloop
      cases Except.ok.inj (hsegs.symm.trans hsegs')
      have hall : hashed = file := by
        rw [hhashed, List.nil_append]
        exact readSegments_flatten (by decide) file
      rw [List.nil_append] at hfull
      rw [if_neg (by omega), hloop]
      simp only [ok_bind, hall, List.getElem?_map, List.getElem?_range hi, Option.map_some,
        Option.bind_some, ← hfull]
      by_cases hempty : full = []
      · simp [hempty, Except.toOption]
      · by_cases hhash : toHex (P.blake3 file) = fileHash.toList
        · simp [hempty, hhash, Except.toOption]
        · simp [hempty, hhash, Except.toOption]
    · rw [if_pos (by omega), List.getElem?_eq_none (by simp; omega)]
      rfl

/-- What a repair makes of a backed up file is the shard that was uploaded, whatever the reads of
the two were; and it makes one, unless a read fails. -/
theorem repair_reproduces_upload (P : Primitives) (up down : Reads) (file key : Bytes) (k m i : Nat)
    (fileHash : String) (nodes : List (NodeId × SocketAddr)) (order : List Nat)
    {shards : List Bytes} {count : Int} {uploaded : List UploadedShard}
    (hhash : fileHash.toList = toHex (P.blake3 file)) (hi : i < k + m)
    (hup : backupUpload P up file key k m = .ok (shards, count))
    (hrun : runUploads P nodes fileHash shards order = .ok uploaded) (hstored : uploaded ≠ []) :
    (∀ data, repairBytes P down fileHash count file key k m i = .ok data →
      shards[i]? = some data ∧
        ∀ s ∈ uploaded, s.idx = i → s.shardHashHex = toHex (P.blake3 data)) ∧
      ((∀ n, (down n).isSome) → ∃ data, repairBytes P down fileHash count file key k m i = .ok data) := by
  have hrecorded : ∀ data, shards[i]? = some data →
      ∀ s ∈ uploaded, s.idx = i → s.shardHashHex = toHex (P.blake3 data) := by
    intro data hdata s hs hidx
    obtain ⟨_, stored, hget, _, hhex⟩ := runUploads_mem hrun hs
    rw [hidx, hdata] at hget
    cases Option.some.inj hget
    exact hhex
  by_cases hlarge : segmentThreshold < file.length
  · obtain ⟨sizes, hsegmented, rfl⟩ := backupUpload_segmented hlarge hup
    obtain ⟨s, hs⟩ := List.exists_mem_of_ne_nil uploaded hstored
    obtain ⟨_, stored, hget, hle, _⟩ := runUploads_mem hrun hs
    have hcount := segmentCount_of_stored hlarge hsegmented hget hle
    unfold repairBytes
    rw [if_pos hcount]
    refine ⟨fun data hdata => ?_, fun hreads =>
      repairSegmented_exists hreads hhash (by omega) hi hsegmented⟩
    obtain ⟨made, madeSizes, hmade, hshard⟩ := repairSegmented_ok hdata
    cases Except.ok.inj (hsegmented.symm.trans hmade)
    exact ⟨hshard, hrecorded data hshard⟩
  · unfold backupUpload at hup
    rw [if_neg hlarge] at hup
    obtain ⟨⟨made, size⟩, hprocess, hup⟩ := bind_ok hup
    cases Except.ok.inj hup
    have hprocess := mapError_ok hprocess
    have hlength := processForBackup_length hprocess
    have hget : shards[i]? = some shards[i] := List.getElem?_eq_getElem (by omega)
    have hrepair : repairSingle P fileHash file key k m i = .ok shards[i] :=
      repairSingle_eq hhash hprocess hget
    unfold repairBytes
    rw [if_neg (by decide), hrepair]
    refine ⟨fun data hdata => ?_, fun _ => ⟨_, rfl⟩⟩
    cases Except.ok.inj hdata
    exact ⟨hget, hrecorded _ hget⟩

/-- The upload reads 64 KiB at a time. -/
def uploadReads : Reads := fun _ => some 65536

/-- The repair reads a byte, two bytes, three bytes. -/
def repairReads : Reads := fun n => some (n + 1)

/-- The upload of the file and the repair of its first shard. -/
def RepairsFirstShard (file : Bytes) (count : Int) : Prop :=
  ∃ shards uploaded, backupUpload sizedPrimitives uploadReads file (sampleKey 9) 3 2 =
      .ok (shards, count) ∧
    runUploads sizedPrimitives [oldNode, newNode] (String.ofList (toHex (sizedHash file))) shards
      [0, 1, 2, 3, 4] = .ok uploaded ∧
    ∃ data, repairBytes sizedPrimitives repairReads (String.ofList (toHex (sizedHash file))) count file
      (sampleKey 9) 3 2 0 = .ok data ∧ shards[0]? = some data

/-- A shard that fits on a node is acknowledged. -/
theorem uploaded_first {first : Bytes} (hfirst : shards[0]? = some first)
    (hle : first.length ≤ maxShardBytes) :
    ∃ uploaded, runUploads sizedPrimitives [oldNode, newNode] fileHash shards [0, 1, 2, 3, 4] =
      .ok uploaded ∧ uploaded ≠ [] := by
  obtain ⟨uploaded, hrun⟩ := runUploads_exists sizedPrimitives (List.cons_ne_nil oldNode [newNode])
    fileHash shards [0, 1, 2, 3, 4]
  obtain ⟨s, hs, -⟩ := runUploads_complete hrun (by simp : 0 ∈ [0, 1, 2, 3, 4]) hfirst hle
  exact ⟨uploaded, hrun, List.ne_nil_of_mem hs⟩

/-- A file of three bytes, and one a byte longer than a segment. -/
theorem repair_reproduces_upload_example :
    RepairsFirstShard [1, 2, 3] 1 ∧
      RepairsFirstShard (List.replicate segmentThreshold 0 ++ [0]) 2 := by
  constructor
  · obtain ⟨shards, size, first, hprocess, hfirst, hlength⟩ :=
      sized_first_shard (sampleKey 9) (by decide : ([1, 2, 3] : Bytes).length < 2 ^ 38 - 64)
    have hsmall : ¬ segmentThreshold < ([1, 2, 3] : Bytes).length := by decide
    have hup : backupUpload sizedPrimitives uploadReads [1, 2, 3] (sampleKey 9) 3 2 =
        .ok (shards, 1) := by
      unfold backupUpload
      rw [if_neg hsmall, hprocess]
      rfl
    obtain ⟨uploaded, hrun, hstored⟩ := uploaded_first hfirst (by rw [hlength]; decide)
    obtain ⟨hsame, hmade⟩ := repair_reproduces_upload sizedPrimitives uploadReads repairReads [1, 2, 3]
      (sampleKey 9) 3 2 0 _ _ _ String.toList_ofList (by decide) hup hrun hstored
    obtain ⟨data, hdata⟩ := hmade fun _ => rfl
    exact ⟨shards, uploaded, hup, hrun, data, hdata, (hsame data hdata).1⟩
  · have hsize : (List.replicate segmentThreshold (0 : UInt8)).length = segmentThreshold :=
      List.length_replicate
    generalize List.replicate segmentThreshold (0 : UInt8) = start at hsize ⊢
    obtain ⟨shards, sizes, first, hsegmented, hcount, hfirst, hlength⟩ := large_segmented hsize
    have hlarge : segmentThreshold < (start ++ [0]).length := by simp [hsize]
    have hup : backupUpload sizedPrimitives uploadReads (start ++ [0]) (sampleKey 9) 3 2 =
        .ok (shards, 2) := by
      rw [backupUpload_exists (fun _ => rfl) hlarge hsegmented, hcount, asI32_of_lt (by decide)]
      rfl
    obtain ⟨uploaded, hrun, hstored⟩ := uploaded_first hfirst (by rw [hlength]; decide)
    obtain ⟨hsame, hmade⟩ := repair_reproduces_upload sizedPrimitives uploadReads repairReads
      (start ++ [0]) (sampleKey 9) 3 2 0 _ _ _ String.toList_ofList (by decide) hup hrun hstored
    obtain ⟨data, hdata⟩ := hmade fun _ => rfl
    exact ⟨shards, uploaded, hup, hrun, data, hdata, (hsame data hdata).1⟩

end Reminisce

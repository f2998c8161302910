import Reminisce.RepairSources

namespace Reminisce

open Slices Results

/-- What the reads of a file do, one after the other: how much each may yield, or that it fails. A
read yields a byte at least until the file ends. -/
abbrev Reads := Nat → Option Nat

/-- A file that is being read: the reads so far, and what is left of it. -/
structure OpenFile where
  count : Nat
  rest : Bytes
  deriving DecidableEq

def OpenFile.start (file : Bytes) : OpenFile := ⟨0, file⟩

/-- `file.read(&mut buf[total..])` with `room` bytes left in the buffer. -/
def readSome (reads : Reads) (room : Nat) (file : OpenFile) : Except Failure (Bytes × OpenFile) :=
  match reads file.count with
  | none => .error (.error "read error")
  | some most =>
    let got := file.rest.take (min room (max 1 most))
    .ok (got, ⟨file.count + 1, file.rest.drop got.length⟩)

/-- `read_full`, until the buffer is full or the file ends; each read but the last takes one of
the `fuel` bytes of the buffer at least. -/
def readFull (reads : Reads) : Nat → Nat → OpenFile → Except Failure (Bytes × OpenFile)
  | 0, _, file => .ok ([], file)
  | fuel + 1, room, file =>
    if room = 0 then .ok ([], file)
    else do
      let (got, file) ← readSome reads room file
      if got.length = 0 then pure ([], file)
      else do
        let (more, file) ← readFull reads fuel (room - got.length) file
        pure (got ++ more, file)

/-- `CHUNK_MSG_SIZE`, 16 MiB. -/
def chunkMsgSize : Nat := 16 * 1024 * 1024

/-- The sub-shards of a segment are sent in chunks, each on the channel of its shard. -/
def sendSubShards (subShards : List Bytes) (sent : List (List Bytes)) : List (List Bytes) :=
  List.zipWith (fun messages (subShard : Bytes) =>
    messages ++ chunks chunkMsgSize (subShard.length + 1) subShard) sent subShards

/-- The loop of `upload_segmented`: the ciphertext sizes so far, and the messages sent on each
channel. -/
def uploadLoop (P : Primitives) (reads : Reads) (encryptionKey : Bytes)
    (dataShards parityShards : Nat) :
    Nat → OpenFile → List Nat → List (List Bytes) → Except Failure (List Nat × List (List Bytes))
  | 0, _, segmentEncSizes, sent => .ok (segmentEncSizes, sent)
  | fuel + 1, file, segmentEncSizes, sent => do
    let (buf, file) ← readFull reads segmentThreshold segmentThreshold file
    if buf.length = 0 then pure (segmentEncSizes, sent)
    else do
      let nonceCtx := encryptionKey ++ toLeBytes32 segmentEncSizes.length
      let (subShards, encSize) ← (processForBackup P buf encryptionKey nonceCtx dataShards
        parityShards).mapError fun e => .error e.text
      uploadLoop P reads encryptionKey dataShards parityShards fuel file
        (segmentEncSizes ++ [encSize]) (sendSubShards subShards sent)

/-- What the nodes are sent of a file, and the segment count recorded for it: the shards of
`upload_inmemory`, or all that `stream_one_shard` receives on each channel. -/
def backupUpload (P : Primitives) (reads : Reads) (file encryptionKey : Bytes)
    (dataShards parityShards : Nat) : Except Failure (List Bytes × Int) :=
  if segmentThreshold < file.length then do
    let (segmentEncSizes, sent) ← uploadLoop P reads encryptionKey dataShards parityShards
      (file.length + 1) (OpenFile.start file) [] (List.replicate (dataShards + parityShards) [])
    pure (sent.map List.flatten, asI32 segmentEncSizes.length)
  else do
    let (shards, _) ← (processForBackup P file encryptionKey encryptionKey dataShards
      parityShards).mapError fun e => .error e.text
    pure (shards, 1)

/-- The loop of `repair_file` over a segmented file: the shard so far, and what went into the
hasher. -/
def repairLoop (P : Primitives) (reads : Reads) (key : Bytes) (dataShards parityShards shardIndex : Nat) :
    Nat → OpenFile → Nat → Bytes → Bytes → Except Failure (Bytes × Bytes)
  | 0, _, _, fullShardData, hashed => .ok (fullShardData, hashed)
  | fuel + 1, file, segIdx, fullShardData, hashed => do
    let (buf, file) ← readFull reads segmentThreshold segmentThreshold file
    if buf.length = 0 then pure (fullShardData, hashed)
    else do
      let (subShards, _) ← (processForBackup P buf key (key ++ toLeBytes32 segIdx) dataShards
        parityShards).mapError fun e => .error e.text
      match subShards[shardIndex]? with
      | none => .error (.error s!"Shard index {shardIndex} out of range for segment {segIdx}")
      | some subShard =>
        repairLoop P reads key dataShards parityShards shardIndex fuel file (segIdx + 1)
          (fullShardData ++ subShard) (hashed ++ buf)

def repairSegmented (P : Primitives) (reads : Reads) (fileHash : String) (file key : Bytes)
    (dataShards parityShards shardIndex : Nat) : Except Failure Bytes :=
  if dataShards + parityShards ≤ shardIndex then
    .error (.error s!"Shard index {shardIndex} out of range (total {dataShards + parityShards})")
  else do
    let (fullShardData, hashed) ← repairLoop P reads key dataShards parityShards shardIndex
      (file.length + 1) (OpenFile.start file) 0 [] []
    if fullShardData.length = 0 then
      .error (.error s!"Segmented repair produced empty shard for {fileHash}")
    else if toHex (P.blake3 hashed) ≠ fileHash.toList then
      .error (.error (s!"Local file hash mismatch ({String.ofList (toHex (P.blake3 hashed))} != " ++
        s!"{fileHash}) — refusing to repair from a modified file"))
    else pure fullShardData

def repairSingle (P : Primitives) (fileHash : String) (fileData key : Bytes)
    (dataShards parityShards shardIndex : Nat) : Except Failure Bytes :=
  if toHex (P.blake3 fileData) ≠ fileHash.toList then
    .error (.error (s!"Local file hash mismatch " ++
      s!"({String.ofList ((toHex (P.blake3 fileData)).take 16)} != " ++
      s!"{String.ofList (fileHash.toList.take 16)}) — refusing to repair from a modified file"))
  else do
    let (shards, _) ← (processForBackup P fileData key key dataShards parityShards).mapError
      fun e => .error e.text
    match shards[shardIndex]? with
    | none => .error (.error s!"Shard index {shardIndex} out of range")
    | some shardData => pure shardData

/-- The bytes that `repair_file` uploads for a shard whose key is known and whose file is on the
disk. -/
def repairBytes (P : Primitives) (reads : Reads) (fileHash : String) (segmentCount : Int)
    (file key : Bytes) (dataShards parityShards shardIndex : Nat) : Except Failure Bytes :=
  if 1 < segmentCount then
    repairSegmented P reads fileHash file key dataShards parityShards shardIndex
  else repairSingle P fileHash file key dataShards parityShards shardIndex

variable {P : Primitives} {reads : Reads} {file file' : OpenFile} {buf key : Bytes} {k m : Nat}

theorem readSome_ok {room : Nat} (hroom : room ≠ 0) (h : readSome reads room file = .ok (buf, file')) :
    file.rest = buf ++ file'.rest ∧ buf.length ≤ room ∧ (buf.length = 0 → file.rest = []) := by
  unfold readSome at h
  split at h
  next => cases h
  next most _ =>
    cases Except.ok.inj h
    have hlength : (file.rest.take (min room (max 1 most))).length =
        min (min room (max 1 most)) file.rest.length := List.length_take
    refine ⟨?_, by omega, fun hempty => ?_⟩
    · exact (List.prefix_iff_eq_append.mp (List.take_prefix _ _)).symm
    · exact List.length_eq_zero_iff.mp (by omega)

/-- However short its reads are, `read_full` takes what fits the buffer. -/
theorem readFull_ok {fuel room : Nat} (hfuel : room ≤ fuel)
    (h : readFull reads fuel room file = .ok (buf, file')) :
    buf = file.rest.take room ∧ file'.rest = file.rest.drop room := by
  induction fuel generalizing room file buf with
  | zero =>
    cases Except.ok.inj h
    obtain rfl : room = 0 := by omega
    simp
  | succ fuel ih =>
    unfold readFull at h
    split at h
    next hroom =>
      cases Except.ok.inj h
      simp [hroom]
    next hroom =>
      obtain ⟨⟨got, read⟩, hread, h⟩ := bind_ok h
      obtain ⟨hrest, hle, hend⟩ := readSome_ok hroom hread
      simp only at h
      split at h
      next hempty =>
        cases Except.ok.inj h
        have hnil : file.rest = [] := hend hempty
        rw [hnil] at hrest ⊢
        have hdone := List.append_eq_nil_iff.mp hrest.symm
        simp [hdone.2]
      next hsome =>
        obtain ⟨⟨more, last⟩, hmore, h⟩ := bind_ok h
        cases Except.ok.inj h
        obtain ⟨rfl, hlast⟩ := ih (by omega) hmore
        rw [hrest, List.take_append, List.drop_append, List.take_of_length_le hle,
          List.drop_of_length_le hle, hlast]
        simp

theorem readFull_exists (hreads : ∀ n, (reads n).isSome) (fuel room : Nat) (file : OpenFile) :
    ∃ buf file', readFull reads fuel room file = .ok (buf, file') := by
  induction fuel generalizing room file with
  | zero => exact ⟨[], file, rfl⟩
  | succ fuel ih =>
    obtain ⟨most, hmost⟩ := Option.isSome_iff_exists.mp (hreads file.count)
    unfold readFull readSome
    simp only [hmost, ok_bind]
    split
    next => exact ⟨_, _, rfl⟩
    next =>
      split
      next => exact ⟨_, _, rfl⟩
      next =>
        obtain ⟨more, last, hmore⟩ := ih (room - (file.rest.take (min room (max 1 most))).length)
          ⟨file.count + 1, file.rest.drop (file.rest.take (min room (max 1 most))).length⟩
        exact ⟨_, _, by rw [hmore]; rfl⟩

theorem length_sendSubShards {subShards : List Bytes} {sent : List (List Bytes)}
    (h : subShards.length = sent.length) : (sendSubShards subShards sent).length = sent.length := by
  unfold sendSubShards
  rw [List.length_zipWith, h, Nat.min_self]

/-- The chunks of a sub-shard are put together again on its channel. -/
theorem flatten_sendSubShards {subShards : List Bytes} {sent : List (List Bytes)} {idx : Nat}
    {messages : List Bytes} {subShard : Bytes} (hm : sent[idx]? = some messages)
    (hs : subShards[idx]? = some subShard) :
    ∃ after, (sendSubShards subShards sent)[idx]? = some after ∧
      after.flatten = messages.flatten ++ subShard := by
  refine ⟨messages ++ chunks chunkMsgSize (subShard.length + 1) subShard, ?_, ?_⟩
  · unfold sendSubShards
    rw [List.getElem?_zipWith, hm, hs]
  · rw [List.flatten_append, flatten_chunks (by decide) (by omega)]

theorem streamedShard_cons {subShards : List Bytes} {size : Nat} {later : List (List Bytes × Nat)}
    {idx : Nat} {subShard : Bytes} (h : subShards[idx]? = some subShard) :
    streamedShard ((subShards, size) :: later) idx = subShard ++ streamedShard later idx := by
  simp [streamedShard, h]

/-- The loop of the upload shards the segments of the file in turn, and each channel carries the
sub-shards of its index. -/
theorem uploadLoop_ok {fuel : Nat} {sizes sizes' : List Nat} {sent sent' : List (List Bytes)}
    (hsent : sent.length = k + m)
    (h : uploadLoop P reads key k m fuel file sizes sent = .ok (sizes', sent')) :
    ∃ segs, shardSegments P key k m sizes.length (chunks segmentThreshold fuel file.rest) = .ok segs ∧
      sizes' = sizes ++ segs.map (·.2) ∧ sent'.length = k + m ∧
      ∀ (idx : Nat) messages, sent[idx]? = some messages → ∃ after, sent'[idx]? = some after ∧
        after.flatten = messages.flatten ++ streamedShard segs idx := by
  induction fuel generalizing file sizes sent with
  | zero =>
    cases Except.ok.inj h
    exact ⟨[], rfl, by simp, hsent, fun idx messages hm => ⟨messages, hm, by simp [streamedShard]⟩⟩
  | succ fuel ih =>
    obtain ⟨⟨buf, read⟩, hread, h⟩ := bind_ok h
    obtain ⟨rfl, hrest⟩ := readFull_ok (le_refl _) hread
    simp only at h
    unfold chunks
    split at h
    next hempty =>
      cases Except.ok.inj h
      rw [if_pos hempty]
      exact ⟨[], rfl, by simp, hsent, fun idx messages hm => ⟨messages, hm, by simp [streamedShard]⟩⟩
    next hsome =>
      obtain ⟨⟨subShards, encSize⟩, hprocess, h⟩ := bind_ok h
      have hprocess := mapError_ok hprocess
      have hlength := processForBackup_length hprocess
      obtain ⟨segs, hsegs, hsizes, hcount, hstreams⟩ :=
        ih ((length_sendSubShards (hlength.trans hsent.symm)).trans hsent) h
      rw [if_neg hsome]
      refine ⟨(subShards, encSize) :: segs, ?_, by simp [hsizes], hcount, ?_⟩
      · rw [List.length_append, List.length_singleton, hrest] at hsegs
        simp only [shardSegments, hprocess, hsegs, ok_bind, pure_eq_ok]
      · intro idx messages hm
        have hidx := (List.getElem?_eq_some_iff.mp hm).1
        have hsub : subShards[idx]? = some subShards[idx] := List.getElem?_eq_getElem (by omega)
        obtain ⟨sentAfter, hsentAfter, hflat⟩ := flatten_sendSubShards hm hsub
        obtain ⟨after, hafter, hall⟩ := hstreams idx sentAfter hsentAfter
        refine ⟨after, hafter, ?_⟩
        rw [hall, hflat, streamedShard_cons hsub, List.append_assoc]

theorem uploadLoop_exists (hreads : ∀ n, (reads n).isSome) {fuel : Nat} {sizes : List Nat}
    {segs : List (List Bytes × Nat)}
    (hsegs : shardSegments P key k m sizes.length (chunks segmentThreshold fuel file.rest) = .ok segs)
    (sent : List (List Bytes)) :
    ∃ result, uploadLoop P reads key k m fuel file sizes sent = .ok result := by
  induction fuel generalizing file sizes segs sent with
  | zero => exact ⟨_, rfl⟩
  | succ fuel ih =>
    obtain ⟨buf, read, hread⟩ := readFull_exists hreads segmentThreshold segmentThreshold file
    obtain ⟨rfl, hrest⟩ := readFull_ok (le_refl _) hread
    unfold uploadLoop
    simp only [hread, ok_bind]
    split
    next => exact ⟨_, rfl⟩
    next hsome =>
      rw [chunks, if_neg hsome] at hsegs
      obtain ⟨subShards, size, later, rfl, hprocess, hlater⟩ := shardSegments_cons hsegs
      rw [← hrest] at hlater
      simp only [hprocess, mapError_ok_eq, ok_bind]
      exact ih (by rwa [List.length_append, List.length_singleton]) _

/-- So does the loop of the repair, with the same indices of the segments, for the sub-shards of
one index. -/
theorem repairLoop_ok {fuel segIdx idx : Nat} {full full' hashed hashed' : Bytes}
    (h : repairLoop P reads key k m idx fuel file segIdx full hashed = .ok (full', hashed')) :
    ∃ segs, shardSegments P key k m segIdx (chunks segmentThreshold fuel file.rest) = .ok segs ∧
      full' = full ++ streamedShard segs idx ∧
      hashed' = hashed ++ (chunks segmentThreshold fuel file.rest).flatten := by
  induction fuel generalizing file segIdx full hashed with
  | zero =>
    cases Except.ok.inj h
    exact ⟨[], rfl, by simp [streamedShard], by simp [chunks]⟩
  | succ fuel ih =>
    obtain ⟨⟨buf, read⟩, hread, h⟩ := bind_ok h
    obtain ⟨rfl, hrest⟩ := readFull_ok (le_refl _) hread
    simp only at h
    unfold chunks
    split at h
    next hempty =>
      cases Except.ok.inj h
      rw [if_pos hempty]
      exact ⟨[], rfl, by simp [streamedShard], by simp⟩
    next hsome =>
      obtain ⟨⟨subShards, encSize⟩, hprocess, h⟩ := bind_ok h
      have hprocess := mapError_ok hprocess
      simp only at h
      split at h
      next => cases h
      next subShard hsub =>
        obtain ⟨segs, hsegs, rfl, rfl⟩ := ih h
        rw [if_neg hsome]
        refine ⟨(subShards, encSize) :: segs, ?_, ?_, ?_⟩
        · rw [hrest] at hsegs
          simp only [shardSegments, hprocess, hsegs, ok_bind, pure_eq_ok]
        · rw [streamedShard_cons hsub, List.append_assoc]
        · rw [hrest, List.flatten_cons, List.append_assoc]

theorem repairLoop_exists (hreads : ∀ n, (reads n).isSome) {fuel segIdx idx : Nat} (hidx : idx < k + m)
    {segs : List (List Bytes × Nat)}
    (hsegs : shardSegments P key k m segIdx (chunks segmentThreshold fuel file.rest) = .ok segs)
    (full hashed : Bytes) :
    ∃ result, repairLoop P reads key k m idx fuel file segIdx full hashed = .ok result := by
  induction fuel generalizing file segIdx segs full hashed with
  | zero => exact ⟨_, rfl⟩
  | succ fuel ih =>
    obtain ⟨buf, read, hread⟩ := readFull_exists hreads segmentThreshold segmentThreshold file
    obtain ⟨rfl, hrest⟩ := readFull_ok (le_refl _) hread
    unfold repairLoop
    simp only [hread, ok_bind]
    split
    next => exact ⟨_, rfl⟩
    next hsome =>
      rw [chunks, if_neg hsome] at hsegs
      obtain ⟨subShards, size, later, rfl, hprocess, hlater⟩ := shardSegments_cons hsegs
      have hlength := processForBackup_length hprocess
      have hsub : subShards[idx]? = some subShards[idx] := List.getElem?_eq_getElem (by omega)
      rw [← hrest] at hlater
      simp only [hprocess, mapError_ok_eq, ok_bind, hsub]
      exact ih hlater _ _

end Reminisce

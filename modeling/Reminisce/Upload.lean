import Reminisce.Database
import Reminisce.Segments

namespace Reminisce

open Slices Results

/-- `MAX_SHARD_BYTES`, 8 GiB: a node never acknowledges a longer shard. -/
def maxShardBytes : Nat := 8 * 2 ^ 30

/-- `u64::from_le_bytes` and its shorter relatives. -/
def fromLeBytes : Bytes → Nat
  | [] => 0
  | b :: rest => b.toNat + 256 * fromLeBytes rest

def rendezvousScore (P : Primitives) (idHash : String) (nodeId : NodeId) : Nat :=
  fromLeBytes ((P.blake3 (utf8 s!"{idHash}:{nodeId}")).toList.take 8)

def rendezvousSelect (P : Primitives) (idHash : String) (nodes : List (NodeId × SocketAddr))
    (count : Nat) : List (NodeId × SocketAddr) :=
  (nodes.mergeSort fun a b =>
    decide (rendezvousScore P idHash b.1 ≤ rendezvousScore P idHash a.1)).take count

structure UploadedShard where
  idx : Nat
  nodeId : NodeId
  addr : SocketAddr
  shardHashHex : List Char
  deriving DecidableEq, Repr

/-- The shard uploads that the nodes acknowledge, in the order their tasks end. -/
structure Acks where
  order : List Nat
  nodup : order.Nodup

/-- What the task of shard `idx` returns once its node has acknowledged the upload. -/
def uploadedShard (P : Primitives) (targetNodes : List (NodeId × SocketAddr))
    (shards : List Bytes) (idx : Nat) : Option UploadedShard := do
  let shardData ← shards[idx]?
  let (nodeId, addr) ← targetNodes[idx % targetNodes.length]?
  if shardData.length ≤ maxShardBytes then
    some { idx, nodeId, addr, shardHashHex := toHex (P.blake3 shardData) }
  else none

/-- The tasks of one upload. Without nodes the remainder `idx % target_nodes.len()` panics. -/
def runUploads (P : Primitives) (nodes : List (NodeId × SocketAddr)) (idHash : String)
    (shards : List Bytes) (order : List Nat) : Except Failure (List UploadedShard) :=
  let targetNodes := rendezvousSelect P idHash nodes (max (min shards.length nodes.length) 1)
  if targetNodes = [] ∧ shards ≠ [] then .error .panic
  else .ok (order.filterMap (uploadedShard P targetNodes shards))

def uploadInmemory (P : Primitives) (nodes : List (NodeId × SocketAddr)) (idHash : String)
    (shards : List Bytes) (acks : Acks) : Except Failure (List UploadedShard) :=
  runUploads P nodes idHash shards acks.order

/-- The shards that `upload_segmented` streams, with the ciphertext size of every segment. -/
def segmentedShards (P : Primitives) (segmentSize : Nat) (file encryptionKey : Bytes)
    (dataShards parityShards : Nat) : Except Np2pError (List Bytes × List Nat) := do
  let segs ← shardSegments P encryptionKey dataShards parityShards 0
    (readSegments segmentSize file)
  pure ((List.range (dataShards + parityShards)).map (streamedShard segs), segs.map (·.2))

/-- The handles are awaited in index order. -/
def uploadSegmented (P : Primitives) (segmentSize : Nat) (nodes : List (NodeId × SocketAddr))
    (idHash : String) (file encryptionKey : Bytes) (dataShards parityShards : Nat) (acks : Acks) :
    Except Failure (List UploadedShard × List Int) := do
  let (shards, encSizes) ← (segmentedShards P segmentSize file encryptionKey dataShards
    parityShards).mapError fun e => .error e.text
  let uploaded ← runUploads P nodes idHash shards
    ((List.range (dataShards + parityShards)).filter (· ∈ acks.order))
  pure (uploaded, encSizes.map asI64)

/-- The shards of one backup of a file under one key: the single-shot ones up to
`segmentSize` bytes, the streamed ones above. -/
def backupShards (P : Primitives) (segmentSize : Nat) (file encryptionKey : Bytes)
    (dataShards parityShards : Nat) : Except Np2pError (List Bytes) :=
  if segmentSize < file.length then
    (segmentedShards P segmentSize file encryptionKey dataShards parityShards).map (·.1)
  else
    (processForBackup P file encryptionKey encryptionKey dataShards parityShards).map (·.1)

variable {P : Primitives} {idHash : String} {nodes : List (NodeId × SocketAddr)}
  {shards : List Bytes} {order : List Nat} {uploaded : List UploadedShard}

theorem rendezvousSelect_subset {count : Nat} {node : NodeId × SocketAddr}
    (h : node ∈ rendezvousSelect P idHash nodes count) : node ∈ nodes := by
  have hs := List.mem_of_mem_take h
  simpa using hs

theorem rendezvousSelect_ne_nil {count : Nat} (hn : nodes ≠ []) (hc : 0 < count) :
    rendezvousSelect P idHash nodes count ≠ [] := by
  intro h
  have hl := congrArg List.length h
  simp only [rendezvousSelect, List.length_take, List.length_mergeSort, List.length_nil] at hl
  have := List.length_pos_iff.mpr hn
  omega

theorem uploadedShard_some {targetNodes : List (NodeId × SocketAddr)} {idx : Nat}
    {s : UploadedShard} (h : uploadedShard P targetNodes shards idx = some s) :
    s.idx = idx ∧ ∃ data, shards[idx]? = some data ∧ data.length ≤ maxShardBytes ∧
      s.shardHashHex = toHex (P.blake3 data) := by
  obtain ⟨data, hd, h⟩ := Option.bind_eq_some_iff.mp h
  obtain ⟨⟨nodeId, addr⟩, _, h⟩ := Option.bind_eq_some_iff.mp h
  simp only at h
  split at h
  next hle =>
    cases Option.some.inj h
    exact ⟨rfl, data, hd, hle, rfl⟩
  next => simp at h

theorem uploadedShard_exists (P : Primitives) {targetNodes : List (NodeId × SocketAddr)} (ht : targetNodes ≠ [])
    {idx : Nat} {data : Bytes} (hd : shards[idx]? = some data) (hle : data.length ≤ maxShardBytes) :
    ∃ s, uploadedShard P targetNodes shards idx = some s := by
  have hmod := Nat.mod_lt idx (List.length_pos_iff.mpr ht)
  simp [uploadedShard, hd, hle, List.getElem?_eq_getElem hmod]

theorem runUploads_mem (h : runUploads P nodes idHash shards order = .ok uploaded)
    {s : UploadedShard} (hs : s ∈ uploaded) :
    s.idx ∈ order ∧ ∃ data, shards[s.idx]? = some data ∧ data.length ≤ maxShardBytes ∧
      s.shardHashHex = toHex (P.blake3 data) := by
  unfold runUploads at h
  simp only at h
  split at h
  next => simp at h
  next =>
    cases Except.ok.inj h
    obtain ⟨idx, hmem, hidx⟩ := List.mem_filterMap.mp hs
    obtain ⟨rfl, hdata⟩ := uploadedShard_some hidx
    exact ⟨hmem, hdata⟩

theorem runUploads_indices (h : runUploads P nodes idHash shards order = .ok uploaded)
    (hn : order.Nodup) : (uploaded.map (·.idx)).Nodup := by
  unfold runUploads at h
  simp only at h
  split at h
  next => simp at h
  next =>
    cases Except.ok.inj h
    rw [List.map_filterMap]
    refine List.Nodup.filterMap ?_ hn
    intro a b i ha hb
    obtain ⟨s, hs, rfl⟩ := Option.map_eq_some_iff.mp (Option.mem_def.mp ha)
    obtain ⟨t, ht, hidx⟩ := Option.map_eq_some_iff.mp (Option.mem_def.mp hb)
    rw [← (uploadedShard_some hs).1, ← hidx, (uploadedShard_some ht).1]

/-- Every acknowledged shard that fits on a node is among the results. -/
theorem runUploads_complete (h : runUploads P nodes idHash shards order = .ok uploaded)
    {idx : Nat} (hi : idx ∈ order) {data : Bytes} (hd : shards[idx]? = some data)
    (hle : data.length ≤ maxShardBytes) : ∃ s ∈ uploaded, s.idx = idx := by
  unfold runUploads at h
  simp only at h
  split at h
  next => simp at h
  next hnodes =>
    cases Except.ok.inj h
    have hne : shards ≠ [] := by
      rintro rfl
      simp at hd
    have ht : rendezvousSelect P idHash nodes (max (min shards.length nodes.length) 1) ≠ [] :=
      fun hnil => hnodes ⟨hnil, hne⟩
    obtain ⟨s, hs⟩ := uploadedShard_exists P ht hd hle
    exact ⟨s, List.mem_filterMap.mpr ⟨idx, hi, hs⟩, (uploadedShard_some hs).1⟩

theorem segmentedShards_ok {segmentSize k m : Nat} {file key : Bytes} {sizes : List Nat}
    (h : segmentedShards P segmentSize file key k m = .ok (shards, sizes)) :
    ∃ segs, shardSegments P key k m 0 (readSegments segmentSize file) = .ok segs ∧
      shards = (List.range (k + m)).map (streamedShard segs) ∧ sizes = segs.map (·.2) := by
  obtain ⟨segs, hs, h⟩ := bind_ok h
  cases Except.ok.inj h
  exact ⟨segs, hs, rfl, rfl⟩

theorem streamedShard_lengths {k m segIdx : Nat} {key : Bytes} {parts : List Bytes}
    {segs : List (List Bytes × Nat)} (h : shardSegments P key k m segIdx parts = .ok segs) :
    ∃ len, ∀ idx < k + m, (streamedShard segs idx).length = len := by
  induction parts generalizing segIdx segs with
  | nil => cases Except.ok.inj h; exact ⟨0, fun _ _ => rfl⟩
  | cons segment parts ih =>
    obtain ⟨sub, size, later, rfl, hp, hl⟩ := shardSegments_cons h
    obtain ⟨len, hlen⟩ := ih hl
    refine ⟨divCeil size k + len, fun idx hidx => ?_⟩
    have hsublen := processForBackup_length hp
    have hget : sub[idx]? = some sub[idx] := List.getElem?_eq_getElem (by omega)
    have hsub := processForBackup_shard_length hp (List.getElem_mem (by omega : idx < sub.length))
    have hrest := hlen idx hidx
    simp only [streamedShard, List.map_cons, List.flatten_cons, List.length_append, hget,
      Option.getD_some] at hrest ⊢
    omega

/-- The shards of one backup are equally long. -/
theorem backupShards_lengths {segmentSize k m : Nat} {file key : Bytes}
    (h : backupShards P segmentSize file key k m = .ok shards) :
    ∃ len, ∀ s ∈ shards, s.length = len := by
  unfold backupShards at h
  split at h
  next =>
    obtain ⟨⟨ss, sizes⟩, hs, rfl⟩ := map_ok h
    obtain ⟨segs, hsegs, rfl, _⟩ := segmentedShards_ok hs
    obtain ⟨len, hlen⟩ := streamedShard_lengths hsegs
    refine ⟨len, fun s hmem => ?_⟩
    obtain ⟨idx, hidx, rfl⟩ := List.mem_map.mp hmem
    exact hlen idx (List.mem_range.mp hidx)
  next =>
    obtain ⟨⟨ss, size⟩, hs, rfl⟩ := map_ok h
    exact ⟨divCeil size k, fun s hmem => processForBackup_shard_length hs hmem⟩

theorem length_backupShards {segmentSize k m : Nat} {file key : Bytes}
    (h : backupShards P segmentSize file key k m = .ok shards) : shards.length = k + m := by
  unfold backupShards at h
  split at h
  next =>
    obtain ⟨⟨ss, sizes⟩, hs, rfl⟩ := map_ok h
    obtain ⟨segs, _, rfl, _⟩ := segmentedShards_ok hs
    simp
  next =>
    obtain ⟨⟨ss, size⟩, hs, rfl⟩ := map_ok h
    exact processForBackup_length hs

end Reminisce

import Reminisce.Primitives
import Reminisce.Library.Slices

namespace Reminisce

open Slices

def Erasure.dataShards : Nat := 3

def Erasure.parityShards : Nat := 2

def Erasure.totalShards : Nat := Erasure.dataShards + Erasure.parityShards

def shard (P : Primitives) (data : Bytes) (dataShards parityShards : Nat) :
    Except Np2pError (List Bytes) :=
  if data.isEmpty then
    .error (.erasureCoding "Cannot shard empty data")
  else if dataShards = 0 then
    .error (.erasureCoding "Data shards count must be positive")
  else
    match P.rs.new dataShards parityShards with
    | .error e => .error (.erasureCoding s!"Failed to initialize ReedSolomon: {e}")
    | .ok () =>
      let shardSize := divCeil data.length dataShards
      let paddedData := resize (shardSize * dataShards) 0 data
      let shards := chunksExact shardSize paddedData ++
        List.replicate parityShards (List.replicate shardSize 0)
      match P.rs.encode dataShards parityShards shards with
      | .error e => .error (.erasureCoding s!"Encoding failed: {e}")
      | .ok full => .ok full

def reconstruct (P : Primitives) (shards : List (Option Bytes)) (originalSize : Nat)
    (dataShards parityShards : Nat) : Except Np2pError Bytes :=
  let total := dataShards + parityShards
  let presentCount := shards.countP Option.isSome
  if shards.length ≠ total then
    .error (.erasureCoding s!"Expected {total} shards, got {shards.length}")
  else if presentCount < dataShards then
    .error (.erasureCoding
      s!"Not enough shards for reconstruction: need {dataShards}, got {presentCount}")
  else
    match P.rs.new dataShards parityShards with
    | .error e => .error (.erasureCoding s!"Failed to initialize ReedSolomon: {e}")
    | .ok () =>
      match P.rs.reconstruct dataShards parityShards shards with
      | .error e => .error (.erasureCoding s!"Reconstruction failed: {e}")
      | .ok full =>
        .ok (((full.take dataShards).filterMap id).flatten.take originalSize)

variable {P : Primitives} {data : Bytes} {k m : Nat} {shards : List Bytes}

/-- The piece of the padded data that becomes data shard `i`. -/
def dataPiece (data : Bytes) (k i : Nat) : Bytes :=
  ((resize (divCeil data.length k * k) 0 data).drop (i * divCeil data.length k)).take
    (divCeil data.length k)

theorem length_dataPiece {i : Nat} (hi : i < k) :
    (dataPiece data k i).length = divCeil data.length k := by
  unfold dataPiece
  exact length_piece (by simp [Nat.mul_comm]) hi

theorem head_dataPiece (hd : 0 < data.length) (hk : 0 < k) :
    (dataPiece data k 0).head? = data.head? := by
  have hpos := divCeil_pos hd hk
  rw [dataPiece, Nat.zero_mul, List.drop_zero, List.head?_take, if_neg (by omega),
    head_resize (Nat.mul_pos hpos hk) (List.length_pos_iff.mp hd)]

theorem chunksExact_resize (hd : 0 < data.length) (hk : 0 < k) :
    chunksExact (divCeil data.length k) (resize (divCeil data.length k * k) 0 data) =
      (List.range k).map (dataPiece data k) :=
  chunksExact_of_length (divCeil_pos hd hk) (by simp [Nat.mul_comm])

/-- The data shards and the still empty parity shards handed to the encoder. -/
def unencodedShards (data : Bytes) (k m : Nat) : List Bytes :=
  (List.range k).map (dataPiece data k) ++
    List.replicate m (List.replicate (divCeil data.length k) 0)

theorem unencodedShards_getElem? {r : Nat} (hr : r < k) :
    (unencodedShards data k m)[r]? = some (dataPiece data k r) := by
  rw [unencodedShards, List.getElem?_append_left (by simpa using hr)]
  simp [hr]

theorem encode_unencodedShards (hd : 0 < data.length) (hnew : P.rs.new k m = .ok ()) :
    ∃ parity, P.rs.encode k m (unencodedShards data k m) =
        .ok ((List.range k).map (dataPiece data k) ++ parity) ∧ parity.length = m ∧
      ∀ p ∈ parity, p.length = divCeil data.length k := by
  have hk := ((P.rs.new_ok k m).mp hnew).1
  obtain ⟨parity, henc, hplen, hpall⟩ := P.rs.encode_systematic k m (divCeil data.length k)
    (unencodedShards data k m) hnew (by simp [unencodedShards]) (divCeil_pos hd hk) (by
      intro s hs
      rcases List.mem_append.mp hs with hs | hs
      · obtain ⟨i, hi, rfl⟩ := List.mem_map.mp hs
        exact length_dataPiece (List.mem_range.mp hi)
      · rw [List.eq_of_mem_replicate hs, List.length_replicate])
  rw [show (unencodedShards data k m).take k = (List.range k).map (dataPiece data k) from
    List.take_left' (by simp)] at henc
  exact ⟨parity, henc, hplen, hpall⟩

theorem shard_ok (h : shard P data k m = .ok shards) :
    0 < data.length ∧ P.rs.new k m = .ok () ∧
      P.rs.encode k m (unencodedShards data k m) = .ok shards ∧
      ∃ parity, shards = (List.range k).map (dataPiece data k) ++ parity ∧ parity.length = m ∧
        ∀ p ∈ parity, p.length = divCeil data.length k := by
  unfold shard at h
  split at h
  next => simp at h
  next hd =>
    split at h
    next => simp at h
    next hk =>
      split at h
      next => simp at h
      next hnew =>
        have hlen : 0 < data.length := List.length_pos_iff.mpr (by simpa using hd)
        obtain ⟨parity, henc, hplen, hpall⟩ := encode_unencodedShards hlen hnew
        simp only [chunksExact_resize hlen (Nat.pos_of_ne_zero hk)] at h
        rw [← unencodedShards, henc] at h
        cases Except.ok.inj h
        exact ⟨hlen, hnew, henc, parity, rfl, hplen, hpall⟩

theorem shard_exists (hd : 0 < data.length) (hnew : P.rs.new k m = .ok ()) :
    ∃ shards, shard P data k m = .ok shards := by
  have hk := ((P.rs.new_ok k m).mp hnew).1
  obtain ⟨parity, henc, _⟩ := encode_unencodedShards hd hnew
  refine ⟨(List.range k).map (dataPiece data k) ++ parity, ?_⟩
  have hne : data.isEmpty = false := by simpa using List.length_pos_iff.mp hd
  simp only [shard, hne, Nat.ne_of_gt hk, hnew, chunksExact_resize hd hk,
    Bool.false_eq_true, if_false]
  rw [← unencodedShards, henc]

theorem length_shard (h : shard P data k m = .ok shards) : shards.length = k + m := by
  obtain ⟨_, _, _, parity, rfl, hp, _⟩ := shard_ok h
  simp [hp]

theorem length_of_mem_shard (h : shard P data k m = .ok shards) {s : Bytes} (hs : s ∈ shards) :
    s.length = divCeil data.length k := by
  obtain ⟨_, _, _, parity, rfl, _, hp⟩ := shard_ok h
  rcases List.mem_append.mp hs with hs | hs
  · obtain ⟨i, hi, rfl⟩ := List.mem_map.mp hs
    exact length_dataPiece (List.mem_range.mp hi)
  · exact hp s hs

theorem flatten_data_shards (h : shard P data k m = .ok shards) :
    (shards.take k).flatten.take data.length = data := by
  obtain ⟨_, hnew, _, parity, rfl, _⟩ := shard_ok h
  have hk := ((P.rs.new_ok k m).mp hnew).1
  rw [List.take_left' (by simp)]
  change ((List.range k).map fun i => ((resize (divCeil data.length k * k) 0 data).drop
    (i * divCeil data.length k)).take (divCeil data.length k)).flatten.take data.length = data
  rw [flatten_pieces, List.take_of_length_le (l := resize _ _ _) (by simp [Nat.mul_comm])]
  exact take_resize (le_divCeil_mul data.length hk)

/-- Any `k` of the shards, each in its place, give the sharded bytes back. -/
theorem reconstruct_shard (h : shard P data k m = .ok shards) {got : List (Option Bytes)}
    (hlen : got.length = k + m)
    (hgot : ∀ (j : Nat) s, got[j]? = some (some s) → shards[j]? = some s)
    (hcount : k ≤ got.countP Option.isSome) :
    reconstruct P got data.length k m = .ok data := by
  have hflat := flatten_data_shards h
  obtain ⟨_, hnew, henc, _⟩ := shard_ok h
  have hrec := P.rs.reconstruct_mds k m _ _ got henc hlen hgot hcount
  simp only [reconstruct, hlen, hnew, hrec, ne_eq, not_true_eq_false, if_false,
    show ¬ got.countP Option.isSome < k by omega]
  rw [← List.map_take, List.filterMap_map]
  simp [hflat]

/-- From a complete set of equally long shards, the first `k` are read off as they are. -/
theorem reconstruct_present {len size : Nat} (hnew : P.rs.new k m = .ok ())
    (hlen : shards.length = k + m) (hpos : 0 < len) (hall : ∀ s ∈ shards, s.length = len) :
    reconstruct P (shards.map some) size k m = .ok ((shards.take k).flatten.take size) := by
  have hrec := P.rs.reconstruct_present k m len shards hnew hlen hpos hall
  have hcount : (shards.map some).countP Option.isSome = shards.length := by
    simp [List.countP_map, Function.comp_def]
  simp only [reconstruct, List.length_map, hlen, hnew, hrec, hcount, ne_eq, not_true_eq_false,
    if_false, show ¬ k + m < k by omega]
  rw [← List.map_take, List.filterMap_map]
  simp

/-- A column of the shards depends on that column of the data pieces only. -/
theorem shard_column {other : Bytes} {shards' : List Bytes} (h : shard P data k m = .ok shards)
    (h' : shard P other k m = .ok shards') {i : Nat}
    (hcol : ∀ r < k, (dataPiece data k r)[i]? = (dataPiece other k r)[i]?) {j : Nat}
    (hj : j < k + m) : cell shards j i = cell shards' j i := by
  obtain ⟨_, _, henc, _⟩ := shard_ok h
  obtain ⟨_, _, henc', _⟩ := shard_ok h'
  refine P.rs.encode_column k m _ _ _ _ i henc henc' (fun r hr => ?_) j hj
  rw [cell, cell, unencodedShards_getElem? hr, unencodedShards_getElem? hr]
  exact hcol r hr

end Reminisce

import Reminisce.MachineInts
import Reminisce.Encryption
import Reminisce.Erasure
import Reminisce.Library.Results

namespace Reminisce

section

open Slices Results

def processForBackup (P : Primitives) (data key nonceContext : Bytes)
    (dataShards parityShards : Nat) : Except Np2pError (List Bytes × Nat) := do
  let encrypted ← encrypt P data key nonceContext
  let shards ← shard P encrypted dataShards parityShards
  pure (shards, encrypted.length)

def restoreFromBackup (P : Primitives) (shards : List (Option Bytes)) (encryptedSize : Nat)
    (key : Bytes) (dataShards parityShards : Nat) : Except Np2pError Bytes := do
  let encrypted ← reconstruct P shards encryptedSize dataShards parityShards
  decrypt P encrypted key

variable {P : Primitives} {data key ctx : Bytes} {k m size : Nat} {shards : List Bytes}

theorem processForBackup_ok (h : processForBackup P data key ctx k m = .ok (shards, size)) :
    ∃ enc, encrypt P data key ctx = .ok enc ∧ shard P enc k m = .ok shards ∧
      size = enc.length := by
  obtain ⟨enc, he, h⟩ := bind_ok h
  obtain ⟨ss, hs, h⟩ := bind_ok h
  cases Except.ok.inj h
  exact ⟨enc, he, hs, rfl⟩

theorem processForBackup_exists (ctx : Bytes) (hk : key.length = keySize) (hd : data.length < 2 ^ 38 - 64)
    (hnew : P.rs.new k m = .ok ()) :
    ∃ shards size, processForBackup P data key ctx k m = .ok (shards, size) := by
  obtain ⟨enc, he⟩ := encrypt_exists P ctx hk hd
  have hlen := length_encrypt he
  obtain ⟨shards, hs⟩ := shard_exists (show 0 < enc.length by omega) hnew
  refine ⟨shards, enc.length, ?_⟩
  simp [processForBackup, he, hs]

theorem processForBackup_size (h : processForBackup P data key ctx k m = .ok (shards, size)) :
    size = data.length + 28 := by
  obtain ⟨enc, he, _, hsize⟩ := processForBackup_ok h
  rw [hsize, length_encrypt he]

theorem processForBackup_length (h : processForBackup P data key ctx k m = .ok (shards, size)) :
    shards.length = k + m := by
  obtain ⟨enc, _, hs, _⟩ := processForBackup_ok h
  exact length_shard hs

theorem processForBackup_shard_length
    (h : processForBackup P data key ctx k m = .ok (shards, size)) {s : Bytes} (hs : s ∈ shards) :
    s.length = divCeil size k := by
  obtain ⟨enc, _, hsh, hsize⟩ := processForBackup_ok h
  rw [hsize]
  exact length_of_mem_shard hsh hs

/-- The round trip of one segment: any `k` shards in their places restore the data. -/
theorem restoreFromBackup_process (h : processForBackup P data key ctx k m = .ok (shards, size))
    {got : List (Option Bytes)} (hlen : got.length = k + m)
    (hgot : ∀ (j : Nat) s, got[j]? = some (some s) → shards[j]? = some s)
    (hcount : k ≤ got.countP Option.isSome) :
    restoreFromBackup P got size key k m = .ok data := by
  obtain ⟨enc, he, hs, rfl⟩ := processForBackup_ok h
  simp [restoreFromBackup, reconstruct_shard hs hlen hgot hcount, decrypt_encrypt he]

theorem restoreFromBackup_length_ne {got : List (Option Bytes)} (hlen : got.length ≠ k + m) :
    restoreFromBackup P got size key k m =
      .error (.erasureCoding s!"Expected {k + m} shards, got {got.length}") := by
  simp only [restoreFromBackup, reconstruct, if_pos hlen]
  rfl

end

open Slices Results

/-- `SEGMENT_THRESHOLD`, 256 MiB. -/
def segmentThreshold : Nat := 256 * 1024 * 1024

/-- How a request that does not return a value ends. -/
inductive Failure
  | error (message : String)
  | panic
  deriving DecidableEq, Repr

/-- The slice expression `s[start..stop]`. -/
def sliceRange (s : Bytes) (start stop : Nat) : Except Failure Bytes :=
  if start ≤ stop ∧ stop ≤ s.length then .ok ((s.take stop).drop start) else .error .panic

/-- What repeated `read_full` calls on a buffer of `segmentSize` bytes return for a file. -/
def readSegments (segmentSize : Nat) (data : Bytes) : List Bytes :=
  chunks segmentSize (data.length + 1) data

/-- The encrypt-and-shard loop of `upload_segmented`, from segment index `segIdx` on. -/
def shardSegments (P : Primitives) (encryptionKey : Bytes) (dataShards parityShards : Nat) :
    Nat → List Bytes → Except Np2pError (List (List Bytes × Nat))
  | _, [] => .ok []
  | segIdx, segment :: rest => do
    let sub ← processForBackup P segment encryptionKey
      (encryptionKey ++ toLeBytes32 segIdx) dataShards parityShards
    let later ← shardSegments P encryptionKey dataShards parityShards (segIdx + 1) rest
    pure (sub :: later)

/-- The bytes sent on the stream of shard `idx`: its sub-shard of every segment in turn. -/
def streamedShard (segs : List (List Bytes × Nat)) (idx : Nat) : Bytes :=
  (segs.map fun seg => seg.1[idx]?.getD []).flatten

def restoreSegmented (P : Primitives) (fullShards : List (Option Bytes)) (key : Bytes) :
    Nat → List Int → Except Failure Bytes
  | _, [] => .ok []
  | offset, encSize :: rest => do
    let subShardSize := divCeil (asUsize encSize) Erasure.dataShards
    let segmentShards ← fullShards.mapM fun opt =>
      match opt with
      | none => .ok none
      | some s => (sliceRange s offset (min (offset + subShardSize) s.length)).map some
    let segmentData ← (restoreFromBackup P segmentShards (asUsize encSize) key
      Erasure.dataShards (Erasure.totalShards - Erasure.dataShards)).mapError fun e =>
        .error s!"Segment restore failed at offset {offset}: {e.text}"
    let later ← restoreSegmented P fullShards key (offset + subShardSize) rest
    pure (segmentData ++ later)

theorem readSegments_flatten {segmentSize : Nat} (hs : 0 < segmentSize) (data : Bytes) :
    (readSegments segmentSize data).flatten = data :=
  flatten_chunks hs (by omega)

theorem sliceRange_middle (before middle after : Bytes) :
    sliceRange (before ++ (middle ++ after)) before.length
      (min (before.length + middle.length) (before ++ (middle ++ after)).length) =
      .ok middle := by
  have hstop : min (before.length + middle.length) (before ++ (middle ++ after)).length =
      before.length + middle.length := by
    simp only [List.length_append]
    omega
  have hle : before.length + middle.length ≤ (before ++ (middle ++ after)).length := by
    simp only [List.length_append]
    omega
  rw [hstop, sliceRange, if_pos ⟨by omega, hle⟩, ← List.append_assoc,
    List.take_left' (by simp), List.drop_left' rfl]

variable {P : Primitives} {key : Bytes} {k m segIdx : Nat}

theorem shardSegments_cons {segment : Bytes} {parts : List Bytes}
    {segs : List (List Bytes × Nat)}
    (h : shardSegments P key k m segIdx (segment :: parts) = .ok segs) :
    ∃ sub size later, segs = (sub, size) :: later ∧
      processForBackup P segment key (key ++ toLeBytes32 segIdx) k m = .ok (sub, size) ∧
      shardSegments P key k m (segIdx + 1) parts = .ok later := by
  obtain ⟨⟨sub, size⟩, hp, h⟩ := bind_ok h
  obtain ⟨later, hl, h⟩ := bind_ok h
  cases Except.ok.inj h
  exact ⟨sub, size, later, rfl, hp, hl⟩

theorem shardSegments_length {parts : List Bytes} {segs : List (List Bytes × Nat)}
    (h : shardSegments P key k m segIdx parts = .ok segs) : segs.length = parts.length := by
  induction parts generalizing segIdx segs with
  | nil => cases Except.ok.inj h; rfl
  | cons segment parts ih =>
    obtain ⟨sub, size, later, rfl, _, hl⟩ := shardSegments_cons h
    simp [ih hl]

/-- A segment's ciphertext has at least 28 bytes, so each of its three data shards has at
least ten. -/
theorem shardSegments_stream_length {parts : List Bytes} {segs : List (List Bytes × Nat)}
    (h : shardSegments P key 3 m segIdx parts = .ok segs) {idx : Nat} (hi : idx < 3 + m) :
    10 * segs.length ≤ (streamedShard segs idx).length := by
  induction parts generalizing segIdx segs with
  | nil => cases Except.ok.inj h; simp [streamedShard]
  | cons segment parts ih =>
    obtain ⟨sub, size, later, rfl, hp, hl⟩ := shardSegments_cons h
    have hlen := processForBackup_length hp
    have hget : sub[idx]? = some sub[idx] := List.getElem?_eq_getElem (by omega)
    have hsub := processForBackup_shard_length hp (List.getElem_mem (by omega : idx < sub.length))
    have hsize := processForBackup_size hp
    have hrest := ih hl
    unfold divCeil at hsub
    simp only [streamedShard, List.map_cons, List.flatten_cons, List.length_append, hget,
      Option.getD_some, List.length_cons] at hrest ⊢
    omega

/-- The sub-shard sizes an uploaded stream is cut at are those restore cuts it at. -/
theorem restoreSegmented_shardSegments {parts : List Bytes} {segs : List (List Bytes × Nat)}
    (h : shardSegments P key 3 2 segIdx parts = .ok segs)
    (hsize : ∀ seg ∈ segs, seg.2 < 2 ^ 63)
    {got : List (Option Bytes)} (hlen : got.length = 5) {offset : Nat}
    (hgot : ∀ (j : Nat) s, got[j]? = some (some s) →
      ∃ before, before.length = offset ∧ s = before ++ streamedShard segs j)
    (hcount : 3 ≤ got.countP Option.isSome) :
    restoreSegmented P got key offset (segs.map fun seg => asI64 seg.2) = .ok parts.flatten := by
  induction parts generalizing segIdx segs offset with
  | nil => cases Except.ok.inj h; rfl
  | cons segment parts ih =>
    obtain ⟨sub, size, later, rfl, hp, hl⟩ := shardSegments_cons h
    have hsz : asUsize (asI64 size) = size := asUsize_asI64 (hsize (sub, size) (by simp))
    have hsublen := processForBackup_length hp
    have hmem : ∀ (j : Nat) s, got[j]? = some (some s) →
        ∃ before piece, before.length = offset ∧ sub[j]? = some piece ∧
          piece.length = divCeil size 3 ∧ s = before ++ (piece ++ streamedShard later j) := by
      intro j s hj
      have hjlt : j < 5 := by
        obtain ⟨hb, _⟩ := List.getElem?_eq_some_iff.mp hj
        omega
      have hget : sub[j]? = some sub[j] := List.getElem?_eq_getElem (by omega)
      obtain ⟨before, hb, rfl⟩ := hgot j s hj
      refine ⟨before, sub[j], hb, hget, processForBackup_shard_length hp (List.getElem_mem _), ?_⟩
      simp [streamedShard, hget]
    have hslices : (got.mapM fun opt =>
        match opt with
        | none => Except.ok none
        | some s => (sliceRange s offset (min (offset + divCeil size 3) s.length)).map some) =
        .ok (got.map (Option.map fun s => (s.drop offset).take (divCeil size 3))) := by
      refine mapM_ok_of_forall fun opt hopt => ?_
      cases opt with
      | none => rfl
      | some s =>
        obtain ⟨j, hj⟩ := List.mem_iff_getElem?.mp hopt
        obtain ⟨before, piece, hb, _, hpl, rfl⟩ := hmem j s hj
        have hs := sliceRange_middle before piece (streamedShard later j)
        rw [hb, hpl] at hs
        simp only [hs, Option.map_some]
        rw [List.drop_left' hb, List.take_left' hpl]
        rfl
    have hseg : restoreFromBackup P
        (got.map (Option.map fun s => (s.drop offset).take (divCeil size 3))) size key 3 2 =
        .ok segment := by
      refine restoreFromBackup_process hp (by simp [hlen]) ?_ ?_
      · intro j t ht
        rw [List.getElem?_map] at ht
        obtain ⟨opt, hopt, hmap⟩ := Option.map_eq_some_iff.mp ht
        obtain ⟨s, rfl, hst⟩ := Option.map_eq_some_iff.mp hmap
        obtain ⟨before, piece, hb, hsub, hpl, rfl⟩ := hmem j s hopt
        rw [List.drop_left' hb, List.take_left' hpl] at hst
        rw [hsub, hst]
      · rw [List.countP_map]
        simpa [Function.comp_def] using hcount
    have hrest : restoreSegmented P got key (offset + divCeil size 3)
        (later.map fun seg => asI64 seg.2) = .ok parts.flatten := by
      refine ih hl (fun seg hs => hsize seg (List.mem_cons_of_mem _ hs)) ?_
      intro j s hj
      obtain ⟨before, piece, hb, _, hpl, rfl⟩ := hmem j s hj
      exact ⟨before ++ piece, by simp [hb, hpl], by simp⟩
    simp only [List.map_cons, restoreSegmented, hsz, Erasure.dataShards, Erasure.totalShards,
      Erasure.parityShards, hslices, ok_bind, Nat.add_sub_cancel_left, hseg, mapError_ok_eq,
      hrest, pure_eq_ok, List.flatten_cons]

end Reminisce

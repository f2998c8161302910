import Reminisce.RestoredGeometry

namespace Reminisce

open Slices Results

variable {P : Primitives} {k m : Nat} {key : Bytes}

theorem restoreSegmented_cons_ok {got : List (Option Bytes)} {offset : Nat} {encSize : Int}
    {rest : List Int} {data : Bytes}
    (h : restoreSegmented P got key offset (encSize :: rest) = .ok data) :
    ∃ slices segment later, (got.mapM fun opt =>
        match opt with
        | none => Except.ok none
        | some s => (sliceRange s offset
            (min (offset + divCeil (asUsize encSize) 3) s.length)).map some) = .ok slices ∧
      restoreFromBackup P slices (asUsize encSize) key 3 2 = .ok segment ∧
      restoreSegmented P got key (offset + divCeil (asUsize encSize) 3) rest = .ok later ∧
      data = segment ++ later := by
  obtain ⟨slices, hslices, h⟩ := bind_ok h
  obtain ⟨segment, hseg, h⟩ := bind_ok h
  obtain ⟨later, hlater, h⟩ := bind_ok h
  exact ⟨slices, segment, later, hslices, mapError_ok hseg, hlater, (Except.ok.inj h).symm⟩

/-- A file of one full segment and one byte more. -/
theorem readSegments_two {first : Bytes} (hfirst : first.length = segmentThreshold) :
    readSegments segmentThreshold (first ++ [0]) = [first, [0]] :=
  chunks_two (by decide) hfirst (by decide) (by decide) (by simp)

theorem length_getD_le {shards : List Bytes} {len : Nat} (h : ∀ s ∈ shards, s.length = len)
    (j : Nat) : (shards[j]?.getD []).length ≤ len := by
  cases hj : shards[j]? with
  | none => simp
  | some s => exact Nat.le_of_eq (h s (List.mem_of_getElem? hj))

/-- The two segments of such a file and what exact restores say about them. -/
theorem two_segments_of_restores (hnew : P.rs.new k m = .ok ()) (h : MediaRestoresExactly P k m)
    {first : Bytes} (hfirst : first.length = segmentThreshold) :
    ∃ (sub sub' : List Bytes) (size : Nat), processForBackup P first zeroKey (zeroKey ++ toLeBytes32 0) k m =
        .ok (sub, size) ∧
      (∀ s ∈ sub, s.length = divCeil (segmentThreshold + 28) k) ∧ sub.length = k + m ∧
      (∀ s ∈ sub', s.length = divCeil 29 k) ∧ sub'.length = k + m ∧
      restoreSegmented P
        (((List.range (k + m)).map fun j => sub[j]?.getD [] ++ sub'[j]?.getD []).map some) zeroKey 0
        [asI64 (segmentThreshold + 28), asI64 29] = .ok (first ++ [0]) := by
  obtain ⟨hk, _, hkm⟩ := (P.rs.new_ok k m).mp hnew
  have hN : segmentThreshold = 268435456 := by decide
  obtain ⟨sub, size, hp⟩ : ∃ sub size,
      processForBackup P first zeroKey (zeroKey ++ toLeBytes32 0) k m = .ok (sub, size) :=
    processForBackup_exists _ rfl (by omega) hnew
  obtain ⟨sub', size', hp'⟩ : ∃ sub' size',
      processForBackup P [0] zeroKey (zeroKey ++ toLeBytes32 1) k m = .ok (sub', size') :=
    processForBackup_exists _ rfl (by simp) hnew
  have hsize := processForBackup_size hp
  have hsize' := processForBackup_size hp'
  have hsegs : shardSegments P zeroKey k m 0 (readSegments segmentThreshold (first ++ [0])) =
      .ok [(sub, size), (sub', size')] := by
    simp only [readSegments_two hfirst, shardSegments, hp, hp', ok_bind, pure_eq_ok, Nat.zero_add]
  have hlarge : segmentThreshold < (first ++ [0]).length := by
    simp only [List.length_append, List.length_singleton]
    omega
  have hstream : streamedShard [(sub, size), (sub', size')] =
      fun j => sub[j]?.getD [] ++ sub'[j]?.getD [] := by
    funext j
    simp [streamedShard]
  have hshards : backupShards P segmentThreshold (first ++ [0]) zeroKey k m =
      .ok ((List.range (k + m)).map fun j => sub[j]?.getD [] ++ sub'[j]?.getD []) := by
    rw [backupShards, if_pos hlarge, segmentedShards, hsegs, ok_bind, hstream]
    rfl
  have hlens : ∀ s ∈ sub, s.length = divCeil (segmentThreshold + 28) k := by
    intro s hs
    rw [processForBackup_shard_length hp hs, hsize, hfirst]
  have hlens' : ∀ s ∈ sub', s.length = divCeil 29 k := by
    intro s hs
    rw [processForBackup_shard_length hp' hs, hsize']
    rfl
  have hfive := total_of_restores hnew h
  obtain ⟨rec, got, hdesc, hkey, hlen, hgot, hdecode⟩ := decode_of_restores hnew h hshards (by
    intro s hs
    obtain ⟨j, hj, rfl⟩ := List.mem_map.mp hs
    have hj' := List.mem_range.mp hj
    have hle := divCeil_le (segmentThreshold + 28) hk
    have hle' := divCeil_le 29 hk
    have ha := length_getD_le hlens j
    have hb := length_getD_le hlens' j
    simp only [List.length_append, maxShardBytes]
    omega)
  refine ⟨sub, sub', size, hp, hlens, processForBackup_length hp, hlens',
    processForBackup_length hp', ?_⟩
  rw [hgot hfive] at hdecode
  obtain ⟨segs, process, count, encSizes⟩ := hdesc.large hlarge
  rw [hkey, hsegs] at process
  cases Except.ok.inj process
  have hcnt : ¬ rec.segmentCount ≤ 1 := by
    rw [count, asI32_of_lt (by simp)]
    simp
  simp only [decodeShards, hcnt, if_false, encSizes, hkey] at hdecode
  simpa [hsize, hsize', hfirst] using hdecode

theorem sliceRange_ok {s piece : Bytes} {start stop : Nat}
    (h : sliceRange s start stop = .ok piece) : start ≤ stop ∧ stop ≤ s.length := by
  unfold sliceRange at h
  split at h
  next hc => exact hc
  next => simp at h

/-- Restore cuts the second segment off where the first would end with three data shards;
the stream has to reach that far. -/
theorem stream_reaches_of_restores (hnew : P.rs.new k m = .ok ())
    (h : MediaRestoresExactly P k m) :
    divCeil (segmentThreshold + 28) 3 ≤ divCeil (segmentThreshold + 28) k + divCeil 29 k := by
  have hN : segmentThreshold = 268435456 := by decide
  obtain ⟨sub, sub', size, _, hlens, _, hlens', _, hrestore⟩ :=
    two_segments_of_restores hnew h (List.length_replicate (a := (0 : UInt8)))
  obtain ⟨_, _, later, _, _, hlater, _⟩ := restoreSegmented_cons_ok hrestore
  obtain ⟨_, _, _, hslices, _⟩ := restoreSegmented_cons_ok hlater
  have hpos : 0 < k + m := by
    have := total_of_restores hnew h
    omega
  obtain ⟨y, hy⟩ := mapM_ok_mem hslices (List.mem_map.mpr
    ⟨_, List.mem_map.mpr ⟨0, List.mem_range.mpr hpos, rfl⟩, rfl⟩)
  obtain ⟨piece, hpiece, _⟩ := map_ok hy
  obtain ⟨hstart, hstop⟩ := sliceRange_ok hpiece
  have ha := length_getD_le hlens 0
  have hb := length_getD_le hlens' 0
  have hle := hstart.trans hstop
  rw [asUsize_asI64 (by omega), List.length_append] at hle
  omega

theorem slices_from_start {streams : List Bytes} {a : Nat} (h : ∀ s ∈ streams, a ≤ s.length) :
    ((streams.map some).mapM fun opt =>
      match opt with
      | none => Except.ok none
      | some s => (sliceRange s 0 (min a s.length)).map some) =
    .ok ((streams.map fun s => s.take a).map some) := by
  refine (mapM_ok_of_forall (g := Option.map fun s => s.take a) fun opt hopt => ?_).trans ?_
  · obtain ⟨s, hs, rfl⟩ := List.mem_map.mp hopt
    have hle := h s hs
    simp [sliceRange, hle, Except.map]
  · rw [List.map_map, List.map_map]
    rfl

theorem flatten_range_three (f : Nat → Bytes) :
    ((List.range 3).map f).flatten = f 0 ++ (f 1 ++ f 2) := by
  simp [List.range_succ]

/-- With one or two data shards, what restore decrypts in place of the first segment. -/
theorem first_slice_of_restores (hnew : P.rs.new k m = .ok ()) (h : MediaRestoresExactly P k m)
    (hwide : divCeil (segmentThreshold + 28) 3 + 29 ≤ divCeil (segmentThreshold + 28) k)
    {first : Bytes} (hfirst : first.length = segmentThreshold) :
    ∃ enc sub, encrypt P first zeroKey (zeroKey ++ toLeBytes32 0) = .ok enc ∧
      shard P enc k m = .ok sub ∧
      decrypt P ((((List.range 3).map fun j =>
        (sub[j]?.getD []).take (divCeil (segmentThreshold + 28) 3)).flatten).take
          (segmentThreshold + 28)) zeroKey = .ok first := by
  have hN : segmentThreshold = 268435456 := by decide
  have hfive := total_of_restores hnew h
  have hnew' : P.rs.new 3 2 = .ok () := (P.rs.new_ok 3 2).mpr (by decide)
  obtain ⟨sub, sub', size, hp, hlens, hcount, hlens', hcount', hrestore⟩ :=
    two_segments_of_restores hnew h hfirst
  obtain ⟨enc, henc, hshard, _⟩ := processForBackup_ok hp
  obtain ⟨slices, segment, later, hslices, hsegment, _, hdata⟩ := restoreSegmented_cons_ok hrestore
  have hapos : 0 < divCeil (segmentThreshold + 28) 3 := divCeil_pos (by omega) (by decide)
  rw [asUsize_asI64 (by omega)] at hsegment
  rw [asUsize_asI64 (by omega), Nat.zero_add] at hslices
  have hlong : ∀ j < 5, (sub[j]?.getD [] ++ sub'[j]?.getD []).take
      (divCeil (segmentThreshold + 28) 3) =
        (sub[j]?.getD []).take (divCeil (segmentThreshold + 28) 3) ∧
      divCeil (segmentThreshold + 28) 3 ≤ (sub[j]?.getD []).length := by
    intro j hj
    have hget : sub[j]? = some sub[j] := List.getElem?_eq_getElem (by omega)
    have hl := hlens _ (List.getElem_mem (by omega : j < sub.length))
    rw [hget, Option.getD_some, List.take_append_of_le_length (by omega)]
    exact ⟨rfl, by omega⟩
  rw [hfive, slices_from_start] at hslices
  · cases Except.ok.inj hslices
    obtain ⟨enc', hrec, hdec⟩ := bind_ok hsegment
    rw [reconstruct_present hnew' (by simp) hapos] at hrec
    · cases Except.ok.inj hrec
      have hpieces : (((List.range 5).map fun j => sub[j]?.getD [] ++ sub'[j]?.getD []).map fun s =>
          s.take (divCeil (segmentThreshold + 28) 3)).take 3 = (List.range 3).map fun j =>
            (sub[j]?.getD []).take (divCeil (segmentThreshold + 28) 3) := by
        rw [List.map_map, ← List.map_take]
        refine List.map_congr_left fun j hj => ?_
        have hj3 : j < 3 := List.mem_range.mp hj
        exact (hlong j (by omega)).1
      rw [hpieces] at hdec
      have hlen := length_decrypt hdec
      rw [flatten_range_three, List.length_take, List.length_append, List.length_append,
        List.length_take_of_le (hlong 0 (by omega)).2, List.length_take_of_le (hlong 1 (by omega)).2,
        List.length_take_of_le (hlong 2 (by omega)).2] at hlen
      have hcover := le_divCeil_mul (segmentThreshold + 28) (show 0 < 3 by decide)
      have hsame : first = segment := (List.append_inj hdata (by omega)).1
      exact ⟨enc, sub, henc, hshard, hsame ▸ hdec⟩
    · intro s hs
      obtain ⟨t, ht, rfl⟩ := List.mem_map.mp hs
      obtain ⟨j, hj, rfl⟩ := List.mem_map.mp ht
      obtain ⟨htake, hle⟩ := hlong j (List.mem_range.mp hj)
      rw [htake, List.length_take_of_le hle]
  · intro s hs
    obtain ⟨j, hj, rfl⟩ := List.mem_map.mp hs
    have := (hlong j (List.mem_range.mp hj)).2
    rw [List.length_append]
    omega

end Reminisce

import Reminisce.RestoredSegments

namespace Reminisce

open Slices Results

variable {P : Primitives} {k m : Nat}

/-- The ciphertext of a restorable first segment has, behind its first third, a copy of the
start of shard 1. -/
theorem ciphertext_window_of_restores (hnew : P.rs.new k m = .ok ())
    (h : MediaRestoresExactly P k m)
    (hwide : divCeil (segmentThreshold + 28) 3 + 29 ≤ divCeil (segmentThreshold + 28) k)
    {first : Bytes} (hfirst : first.length = segmentThreshold) :
    ∃ enc sub, encrypt P first zeroKey (zeroKey ++ toLeBytes32 0) = .ok enc ∧
      shard P enc k m = .ok sub ∧
      ∀ i < 29, enc[divCeil (segmentThreshold + 28) 3 + i]? = cell sub 1 i := by
  have hN : segmentThreshold = 268435456 := by decide
  have hfive := total_of_restores hnew h
  obtain ⟨hk, _, _⟩ := (P.rs.new_ok k m).mp hnew
  obtain ⟨enc, sub, henc, hshard, hdec⟩ := first_slice_of_restores hnew h hwide hfirst
  have hlen := length_encrypt henc
  rw [hfirst] at hlen
  have hrow : ∀ j < 5, divCeil (segmentThreshold + 28) 3 ≤ (sub[j]?.getD []).length := by
    intro j hj
    have hsub := length_shard hshard
    have hget : sub[j]? = some sub[j] := List.getElem?_eq_getElem (by omega)
    have hl := length_of_mem_shard hshard (List.getElem_mem (by omega : j < sub.length))
    rw [hget, Option.getD_some, hl, hlen]
    omega
  rw [flatten_range_three] at hdec
  have hzero : sub[0]?.getD [] = dataPiece enc k 0 := by
    obtain ⟨_, _, _, parity, rfl, _⟩ := shard_ok hshard
    rw [List.getElem?_append_left (by simpa using hk)]
    simp [hk]
  have hthird : divCeil (segmentThreshold + 28) 3 = 89478495 := by
    unfold divCeil
    omega
  have hhead : (sub[0]?.getD []).take nonceSize = enc.take nonceSize := by
    have hcover := le_divCeil_mul enc.length hk
    rw [hzero, dataPiece, Nat.zero_mul, List.drop_zero, List.take_take, Nat.min_eq_left,
      take_resize_of_le hcover]
    · simp only [nonceSize]
      omega
    · rw [hlen]
      simp only [nonceSize]
      omega
  have hsame := decrypt_unique hdec (decrypt_encrypt henc) (by
    rw [take_take_append (by simp only [nonceSize]; omega), List.take_take, Nat.min_eq_left
      (by simp only [nonceSize]; omega), hhead]
    rw [List.length_take_of_le (hrow 0 (by omega))]
    simp only [nonceSize]
    omega)
  refine ⟨enc, sub, henc, hshard, fun i hi => ?_⟩
  have hfirstrow := List.length_take_of_le (hrow 0 (by omega))
  rw [← hsame, List.getElem?_take_of_lt (by omega), List.getElem?_append_right (by omega),
    hfirstrow, Nat.add_sub_cancel_left, List.getElem?_append_left, List.getElem?_take_of_lt (by omega)]
  · rfl
  · rw [List.length_take_of_le (hrow 1 (by omega))]
    omega

/-- The ciphertext of a first segment without those bytes. -/
def withoutWindow (P : Primitives) (first : Bytes) : Bytes :=
  match encrypt P first zeroKey (zeroKey ++ toLeBytes32 0) with
  | .ok enc => enc.take (divCeil (segmentThreshold + 28) 3) ++
      enc.drop (divCeil (segmentThreshold + 28) 3 + 29)
  | .error _ => []

/-- The window is determined by the rest of the ciphertext, which leaves too few bytes for
all plaintexts. -/
theorem not_restores_of_wide (hnew : P.rs.new k m = .ok ()) (h : MediaRestoresExactly P k m)
    (hk2 : k ≤ 2)
    (hwide : divCeil (segmentThreshold + 28) 3 + 29 ≤ divCeil (segmentThreshold + 28) k) :
    False := by
  have hN : segmentThreshold = 268435456 := by decide
  have hfive := total_of_restores hnew h
  obtain ⟨hk, _, _⟩ := (P.rs.new_ok k m).mp hnew
  obtain ⟨n, hn⟩ : ∃ n, segmentThreshold = n + 1 := ⟨268435455, by omega⟩
  have hthird : divCeil (segmentThreshold + 28) 3 = 89478495 := by
    unfold divCeil
    omega
  have hshort : ∀ first : Bytes, first.length = n + 1 → (withoutWindow P first).length = n := by
    intro first hfirst
    obtain ⟨enc, _, henc, _⟩ := ciphertext_window_of_restores hnew h hwide (hfirst.trans hn.symm)
    have hlen := length_encrypt henc
    simp only [withoutWindow, henc, List.length_append, List.length_take, List.length_drop]
    omega
  let _ : Fintype UInt8 :=
    Fintype.ofEquiv (Fin 256) ⟨UInt8.ofFin, UInt8.toFin, fun _ => rfl, fun _ => rfl⟩
  have _ : Nontrivial UInt8 := ⟨0, 1, by decide⟩
  refine not_injOn_shorter hshort fun first hfirst second hsecond heq => ?_
  obtain ⟨enc, sub, henc, hshard, hwindow⟩ := ciphertext_window_of_restores hnew h hwide
    (Eq.trans hfirst hn.symm)
  obtain ⟨enc', sub', henc', hshard', hwindow'⟩ := ciphertext_window_of_restores hnew h hwide
    (Eq.trans hsecond hn.symm)
  have hlen : enc.length = segmentThreshold + 28 := by
    rw [length_encrypt henc, show first.length = n + 1 from hfirst, hn]
  have hlen' : enc'.length = segmentThreshold + 28 := by
    rw [length_encrypt henc', show second.length = n + 1 from hsecond, hn]
  simp only [withoutWindow, henc, henc'] at heq
  have hsame : enc = enc' := by
    refine eq_of_outside (hlen.trans hlen'.symm) heq fun houtside i hi => ?_
    rw [hwindow i hi, hwindow' i hi]
    refine shard_column hshard hshard' (fun r hr => ?_) (by omega)
    unfold dataPiece
    rw [hlen, hlen', List.getElem?_take_of_lt (by omega), List.getElem?_take_of_lt (by omega),
      List.getElem?_drop, List.getElem?_drop]
    refine getElem?_resize_congr (by rw [hlen]; exact le_divCeil_mul _ hk) (hlen.trans hlen'.symm)
      (houtside _ ?_)
    obtain rfl | rfl : r = 0 ∨ r = 1 := by omega
    · left
      omega
    · right
      omega
  have hdec := decrypt_encrypt henc
  rw [hsame, decrypt_encrypt henc'] at hdec
  exact (Except.ok.inj hdec).symm

/-- Only the geometry that is compiled into restore is restored exactly. -/
theorem geometry_of_restores (hnew : P.rs.new k m = .ok ()) (h : MediaRestoresExactly P k m) :
    k = 3 ∧ m = 2 := by
  have hN : segmentThreshold = 268435456 := by decide
  have hfive := total_of_restores hnew h
  have hreach := stream_reaches_of_restores hnew h
  obtain ⟨hk, hm, _⟩ := (P.rs.new_ok k m).mp hnew
  obtain rfl | rfl | rfl | rfl : k = 1 ∨ k = 2 ∨ k = 3 ∨ k = 4 := by omega
  · exact (not_restores_of_wide hnew h (by omega) (by unfold divCeil; omega)).elim
  · exact (not_restores_of_wide hnew h (by omega) (by unfold divCeil; omega)).elim
  · exact ⟨rfl, by omega⟩
  · unfold divCeil at hreach
    omega

/-- Uploads under a configured geometry that the coder accepts are restored exactly if and
only if the geometry is the one compiled into restore. -/
theorem restores_exactly_iff_code_geometry (config : Config)
    (husable : P.rs.new config.p2pDataShards config.p2pParityShards = .ok ()) :
    (MediaRestoresExactly P config.p2pDataShards config.p2pParityShards ∧
      SnapshotRestoresExactly P config.p2pDataShards config.p2pParityShards) ↔
      config.p2pDataShards = 3 ∧ config.p2pParityShards = 2 := by
  constructor
  · rintro ⟨hmedia, _⟩
    exact geometry_of_restores husable hmedia
  · rintro ⟨hk, hm⟩
    rw [hk, hm]
    exact ⟨mediaRestoresExactly_code, snapshotRestoresExactly_code⟩

theorem restores_exactly_default_geometry :
    ∃ config, Config.fromFile ⟨some "secret", none, none⟩ none = .ok config ∧
      MediaRestoresExactly referencePrimitives config.p2pDataShards config.p2pParityShards ∧
      SnapshotRestoresExactly referencePrimitives config.p2pDataShards config.p2pParityShards := by
  refine ⟨⟨some "secret", 3, 2⟩, by decide, ?_⟩
  exact (restores_exactly_iff_code_geometry ⟨some "secret", 3, 2⟩
    ((referencePrimitives.rs.new_ok 3 2).mpr (by decide))).mpr ⟨rfl, rfl⟩

/-- `p2p_data_shards: 4` is accepted and used by the uploaders, and not restored. -/
theorem configured_geometry_not_restored :
    ¬ ∀ file env config, Config.fromFile file env = .ok config →
      referencePrimitives.rs.new config.p2pDataShards config.p2pParityShards = .ok () →
        MediaRestoresExactly referencePrimitives config.p2pDataShards config.p2pParityShards ∧
        SnapshotRestoresExactly referencePrimitives config.p2pDataShards config.p2pParityShards := by
  intro h
  have hnew : referencePrimitives.rs.new 4 2 = .ok () :=
    (referencePrimitives.rs.new_ok 4 2).mpr (by decide)
  obtain ⟨hmedia, _⟩ := h ⟨some "secret", some 4, none⟩ none ⟨some "secret", 4, 2⟩ (by decide) hnew
  exact absurd (geometry_of_restores hnew hmedia).1 (by decide)

end Reminisce

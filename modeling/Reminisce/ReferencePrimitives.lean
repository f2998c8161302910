import Mathlib.FieldTheory.Finite.GaloisField
import Reminisce.Library.EvaluationCode
import Reminisce.Library.Slices
import Reminisce.Primitives

namespace Reminisce

open EvaluationCode

/-- The bytes as elements of the field with 256 elements. -/
noncomputable def byteField : UInt8 ≃ GaloisField 2 8 :=
  (⟨UInt8.toFin, UInt8.ofFin, fun _ => rfl, fun _ => rfl⟩ : UInt8 ≃ Fin 256).trans
    (Finite.equivFinOfCardEq (GaloisField.card 2 8 (by decide))).symm

noncomputable def shardPoint (j : ℕ) : GaloisField 2 8 := byteField (UInt8.ofNat j)

theorem shardPoint_injOn {n : ℕ} (hn : n ≤ 256) : Set.InjOn shardPoint (Finset.range n) := by
  intro i hi j hj h
  have hi' := Finset.mem_range.mp (Finset.mem_coe.mp hi)
  have hj' := Finset.mem_range.mp (Finset.mem_coe.mp hj)
  have hb := congrArg UInt8.toNat (byteField.injective h)
  simp only [UInt8.toNat_ofNat'] at hb
  omega

def rsNew (k m : ℕ) : Except String Unit :=
  if 0 < k ∧ 0 < m ∧ k + m ≤ 256 then .ok () else .error "TooManyShards"

theorem rsNew_ok (k m : ℕ) : rsNew k m = .ok () ↔ 0 < k ∧ 0 < m ∧ k + m ≤ 256 := by
  unfold rsNew
  split <;> simp_all

def rowOf (shards : List Bytes) (r : ℕ) : Bytes := shards[r]?.getD []

/-- The systematic code: the polynomial through the data shards, evaluated at every point. -/
noncomputable def rsEncode (k m : ℕ) (shards : List Bytes) : Except String (List Bytes) :=
  let len := (rowOf shards 0).length
  if 0 < k ∧ k + m ≤ 256 ∧ shards.length = k + m ∧ ∀ s ∈ shards, s.length = len then
    .ok (spread byteField shardPoint (Finset.range k) (k + m) len (rowOf shards))
  else .error "IncorrectShardSize"

def presentRow (got : List (Option Bytes)) (r : ℕ) : Option Bytes := (got[r]?).join

def presentRows (got : List (Option Bytes)) : Finset ℕ :=
  (Finset.range got.length).filter fun r => (presentRow got r).isSome

noncomputable def rsReconstruct (k m : ℕ) (got : List (Option Bytes)) :
    Except String (List (Option Bytes)) :=
  if got.all Option.isSome then .ok got
  else
    match got.findSome? id with
    | none => .error "TooFewShardsPresent"
    | some first => .ok ((spread byteField shardPoint (presentRows got) (k + m) first.length
        fun r => (presentRow got r).getD []).map some)

theorem countP_le_card_presentRows (got : List (Option Bytes)) :
    got.countP Option.isSome ≤ (presentRows got).card := by
  induction got using List.reverseRecOn with
  | nil => simp
  | append_singleton got last ih =>
    have hsub : presentRows got ⊆ presentRows (got ++ [last]) := by
      intro r hr
      obtain ⟨hlt, hsome⟩ := Finset.mem_filter.mp hr
      have hlt' := Finset.mem_range.mp hlt
      refine Finset.mem_filter.mpr ⟨?_, ?_⟩
      · simp only [Finset.mem_range, List.length_append, List.length_singleton]
        omega
      · rwa [presentRow, List.getElem?_append_left hlt']
    rw [List.countP_append, List.countP_singleton]
    split
    next hlast =>
      have hnew : got.length ∈ presentRows (got ++ [last]) := by
        refine Finset.mem_filter.mpr ⟨by simp, ?_⟩
        simpa [presentRow] using hlast
      have hold : got.length ∉ presentRows got := by simp [presentRows]
      have hcard := Finset.card_le_card (Finset.insert_subset hnew hsub)
      rw [Finset.card_insert_of_notMem hold] at hcard
      omega
    next =>
      have := Finset.card_le_card hsub
      omega

theorem rsEncode_ok {k m : ℕ} {shards full : List Bytes} (h : rsEncode k m shards = .ok full) :
    0 < k ∧ k + m ≤ 256 ∧ shards.length = k + m ∧
      (∀ s ∈ shards, s.length = (rowOf shards 0).length) ∧
      full = spread byteField shardPoint (Finset.range k) (k + m) (rowOf shards 0).length
        (rowOf shards) := by
  unfold rsEncode at h
  simp only at h
  split at h
  next hc => exact ⟨hc.1, hc.2.1, hc.2.2.1, hc.2.2.2, (Except.ok.inj h).symm⟩
  next => simp at h

theorem rsEncode_systematic {k m len : ℕ} {shards : List Bytes} (hnew : rsNew k m = .ok ())
    (hlen : shards.length = k + m) (hs : ∀ s ∈ shards, s.length = len) :
    ∃ parity, rsEncode k m shards = .ok (shards.take k ++ parity) ∧ parity.length = m ∧
      ∀ p ∈ parity, p.length = len := by
  obtain ⟨hk, _, hkm⟩ := (rsNew_ok k m).mp hnew
  have hrow : ∀ r < k + m, rowOf shards r ∈ shards := by
    intro r hr
    rw [rowOf, List.getElem?_eq_getElem (by omega), Option.getD_some]
    exact List.getElem_mem _
  have hzero := hs _ (hrow 0 (by omega))
  have hcond : 0 < k ∧ k + m ≤ 256 ∧ shards.length = k + m ∧
      ∀ s ∈ shards, s.length = (rowOf shards 0).length := ⟨hk, hkm, hlen, by rwa [hzero]⟩
  let full := spread byteField shardPoint (Finset.range k) (k + m) len (rowOf shards)
  have htake : full.take k = shards.take k := by
    refine List.ext_getElem? fun j => ?_
    rw [List.getElem?_take, List.getElem?_take]
    split
    next hj =>
      have hjn : j < shards.length := by omega
      rw [spread_of_mem (shardPoint_injOn (by omega)) (Finset.mem_range.mpr hj) (by omega)
        (hs _ (hrow j (by omega)))]
      simp [rowOf, hjn]
    next => rfl
  refine ⟨full.drop k, ?_, by simp [full], fun p hp => length_of_mem_spread (List.mem_of_mem_drop hp)⟩
  rw [← htake, List.take_append_drop]
  unfold rsEncode
  simp only
  rw [if_pos hcond, hzero]

theorem cell_spread_none {s : Finset ℕ} {n len j i : ℕ} {rows : ℕ → Bytes} (hj : j < n)
    (hi : len ≤ i) : cell (spread byteField shardPoint s n len rows) j i = none := by
  rw [cell, spread_getElem? hj, Option.getD_some]
  simpa using hi

theorem rsEncode_column {k m i : ℕ} {a b fullA fullB : List Bytes}
    (ha : rsEncode k m a = .ok fullA) (hb : rsEncode k m b = .ok fullB)
    (hcol : ∀ r < k, cell a r i = cell b r i) {j : ℕ} (hj : j < k + m) :
    cell fullA j i = cell fullB j i := by
  obtain ⟨hk, _, _, _, rfl⟩ := rsEncode_ok ha
  obtain ⟨_, _, _, _, rfl⟩ := rsEncode_ok hb
  have hzero : (rowOf a 0)[i]? = (rowOf b 0)[i]? := hcol 0 hk
  by_cases hi : i < (rowOf a 0).length
  · rw [List.getElem?_eq_getElem hi] at hzero
    obtain ⟨hi', _⟩ := List.getElem?_eq_some_iff.mp hzero.symm
    refine spread_column hi hi' (fun r hr => ?_) hj
    exact congrArg (fun x => Option.getD x default) (hcol r (Finset.mem_range.mp hr))
  · rw [List.getElem?_eq_none (by omega)] at hzero
    have hi' := List.getElem?_eq_none_iff.mp hzero.symm
    rw [cell_spread_none hj (by omega), cell_spread_none hj hi']

theorem rsReconstruct_mds {k m : ℕ} {shards full : List Bytes} {got : List (Option Bytes)}
    (henc : rsEncode k m shards = .ok full) (hlen : got.length = k + m)
    (hgot : ∀ (j : ℕ) s, got[j]? = some (some s) → full[j]? = some s)
    (hcount : k ≤ got.countP Option.isSome) : rsReconstruct k m got = .ok (full.map some) := by
  obtain ⟨hk, hkm, _, _, hfull⟩ := rsEncode_ok henc
  have hflen : full.length = k + m := by rw [hfull, length_spread]
  unfold rsReconstruct
  split
  next hall =>
    exact congrArg Except.ok (Slices.eq_map_some (hlen.trans hflen.symm) hgot hall)
  next =>
    split
    next hnone =>
      have : got.countP Option.isSome = 0 := by
        refine List.countP_eq_zero.mpr fun x hx => ?_
        have := List.findSome?_eq_none_iff.mp hnone x hx
        simp_all
      omega
    next first hfirst =>
      obtain ⟨x, hx, hxs⟩ := List.exists_of_findSome?_eq_some hfirst
      obtain ⟨j, hj⟩ := List.mem_iff_getElem?.mp hx
      rw [show x = some first from hxs] at hj
      have hmem := List.mem_of_getElem? (hgot j first hj)
      rw [hfull] at hmem
      rw [length_of_mem_spread hmem, hfull]
      refine congrArg (fun rows => Except.ok (List.map some rows)) ?_
      refine spread_of_spread (shardPoint_injOn hkm) (by omega) ?_
        (hcount.trans (countP_le_card_presentRows got)) ?_
      · rw [← hlen]
        exact Finset.filter_subset _ _
      · intro r hr
        obtain ⟨hr, hsome⟩ := Finset.mem_filter.mp hr
        obtain ⟨s, hs⟩ := Option.isSome_iff_exists.mp hsome
        have hget : got[r]? = some (some s) := Option.join_eq_some_iff.mp hs
        rw [← hfull, hs, Option.getD_some]
        exact hgot r s hget

noncomputable def referenceRs : ReedSolomon where
  new := rsNew
  encode := rsEncode
  reconstruct := rsReconstruct
  new_ok := rsNew_ok
  encode_systematic _ _ _ _ hnew hlen _ hs := rsEncode_systematic hnew hlen hs
  encode_column _ _ _ _ _ _ _ ha hb hcol _ hj := rsEncode_column ha hb hcol hj
  reconstruct_mds _ _ _ _ _ henc hlen hgot hcount := rsReconstruct_mds henc hlen hgot hcount
  reconstruct_present k m _ shards _ _ _ _ := by
    have hall : (shards.map some).all Option.isSome := by simp
    rw [rsReconstruct, if_pos hall]

/-- The tag of the reference cipher, sixteen bytes of nonce and key. -/
def referenceTag (key nonce : Bytes) : Bytes := Slices.resize 16 0 (nonce ++ key)

/-- A cipher with the interface of the real one: the plaintext and a tag that decryption
checks. -/
def referenceAead : Aead where
  encrypt key nonce plaintext := some (plaintext ++ referenceTag key nonce)
  decrypt key nonce ciphertext :=
    if ciphertext.drop (ciphertext.length - 16) = referenceTag key nonce then
      some (ciphertext.take (ciphertext.length - 16))
    else none
  encrypt_total key nonce plaintext _ := ⟨plaintext ++ referenceTag key nonce, rfl⟩
  encrypt_length key nonce plaintext ciphertext h := by
    cases Option.some.inj h
    simp [referenceTag]
  decrypt_encrypt key nonce plaintext ciphertext h := by
    cases Option.some.inj h
    simp [referenceTag]
  encrypt_decrypt key nonce plaintext ciphertext h := by
    split at h
    next htag =>
      cases Option.some.inj h
      rw [← htag, List.take_append_drop]
    next => simp at h

/-- The first 32 bytes, filled up with zeros. -/
def referenceHash (data : Bytes) : Digest :=
  ⟨Slices.resize 32 0 data, Slices.length_resize _ _ _⟩

theorem head_referenceHash {data : Bytes} (h : data ≠ []) :
    (referenceHash data).toList.head? = data.head? :=
  Slices.head_resize (by decide) h

/-- A UUID in the form of 32 hex digits. -/
def referenceUuid (text : String) : Option UserId :=
  match Hex.decode text.toList with
  | none => none
  | some bytes =>
    if bytes.length = 16 then some (bytes.foldl (fun n b => n * 256 + b.toNat) 0) else none

noncomputable def referencePrimitives : Primitives where
  blake3 := referenceHash
  aead := referenceAead
  rs := referenceRs
  keywrapMasterKeyV1 secret := referenceHash (utf8 secret)
  sha256 secret := referenceHash (utf8 secret)
  parseUuid := referenceUuid

theorem referenceHash_injOn (len : ℕ) (hlen : len ≤ 32) :
    Set.InjOn referenceHash {data | data.length = len} := by
  intro a ha b hb h
  have ha' : a.length = len := ha
  have hb' : b.length = len := hb
  have hres := congrArg List.Vector.toList h
  simp only [referenceHash, List.Vector.toList] at hres
  have htake := congrArg (List.take len) hres
  rw [← ha'] at htake
  rw [Slices.take_resize (by omega), ha', ← hb', Slices.take_resize (by omega)] at htake
  exact htake

end Reminisce

import Mathlib.Algebra.Order.Ring.Rat
import Mathlib.Data.List.Perm.Subperm
import Mathlib.Data.String.Basic
import Reminisce.Database

namespace Reminisce

/-- The columns of `images` that the duplicate detection reads; `deleted` and `checked` say whether
`deleted_at` and `duplicates_checked_at` are set, `verified` whether `verification_status` is 1. -/
structure ImageRow (E : Type) where
  userId : UserId
  hash : String
  embedding : Option E
  deleted : Bool
  checked : Bool
  verified : Bool
  deriving DecidableEq, Repr

/-- A row of `image_duplicate_pairs`. -/
structure PairRow where
  hashA : String
  hashB : String
  similarity : ℚ
  userId : UserId
  deriving DecidableEq, Repr

/-- The operator `<=>` on embeddings. -/
structure CosineDistance (E : Type) where
  distance : E → E → ℚ
  comm : ∀ e f, distance e f = distance f e

section

variable {E : Type}

def ImageRow.key (row : ImageRow E) : UserId × String := (row.userId, row.hash)

/-- A table with its unique key. -/
structure ImageTable (E : Type) where
  rows : List (ImageRow E)
  nodup : (rows.map ImageRow.key).Nodup

/-- An `UPDATE` that leaves the key alone. -/
def ImageTable.update (images : ImageTable E) (userId : UserId) (hash : String)
    (f : ImageRow E → ImageRow E) (hf : ∀ row, (f row).key = row.key) : ImageTable E where
  rows := images.rows.map fun row => if row.key = (userId, hash) then f row else row
  nodup := by
    rw [List.map_map]
    refine (List.map_congr_left fun row _ => ?_).symm ▸ images.nodup
    simp only [Function.comp_apply]
    split
    next => exact hf row
    next => rfl

/-- The first statement of `soft_delete_media`. -/
def ImageTable.softDelete (images : ImageTable E) (userId : UserId) (hash : String) :
    ImageTable E :=
  images.update userId hash (fun row => { row with deleted := true }) fun _ => rfl

/-- `soft_restore_media`, which resets the check of an image it restores. -/
def ImageTable.softRestore (images : ImageTable E) (userId : UserId) (hash : String) :
    ImageTable E :=
  images.update userId hash
    (fun row => if row.deleted then { row with deleted := false, checked := false } else row)
    fun row => by split <;> rfl

def ImageTable.markChecked (images : ImageTable E) (userId : UserId) (hash : String) :
    ImageTable E :=
  images.update userId hash (fun row => { row with checked := true }) fun _ => rfl

/-- The AI worker stores an embedding for an image without one. -/
def ImageTable.setEmbedding (images : ImageTable E) (userId : UserId) (hash : String)
    (embedding : E) : ImageTable E :=
  images.update userId hash
    (fun row => if row.embedding.isNone then { row with embedding := some embedding } else row)
    fun row => by split <;> rfl

def ImageTable.setVerified (images : ImageTable E) (userId : UserId) (hash : String)
    (verified : Bool) : ImageTable E :=
  images.update userId hash (fun row => { row with verified }) fun _ => rfl

def ImageTable.has (images : ImageTable E) (userId : UserId) (hash : String) : Bool :=
  images.rows.any fun row => row.key = (userId, hash)

/-- The row of a first upload. -/
def ImageTable.add (images : ImageTable E) (userId : UserId) (hash : String)
    (h : images.has userId hash = false) : ImageTable E where
  rows := images.rows ++ [⟨userId, hash, none, false, false, false⟩]
  nodup := by
    refine Keyed.nodup_append images.nodup fun row hrow => ?_
    have hnone : ¬row.key = (userId, hash) := by
      simpa using List.any_eq_false.mp h row hrow
    exact hnone

/-- The upsert of `process_image_file`: an existing row is undeleted and keeps its check. -/
def ImageTable.upsert (images : ImageTable E) (userId : UserId) (hash : String) : ImageTable E :=
  if h : images.has userId hash = false then images.add userId hash h
  else images.update userId hash (fun row => { row with deleted := false }) fun _ => rfl

/-- The hashes of a pair in the order of its columns. -/
def pairKey (hash other : String) : String × String :=
  if hash < other then (hash, other) else (other, hash)

/-- `INSERT INTO image_duplicate_pairs … ON CONFLICT … DO UPDATE`. -/
def insertPair (pairs : List PairRow) (userId : UserId) (hash other : String) (similarity : ℚ) :
    List PairRow :=
  let key := pairKey hash other
  if pairs.any fun p => p.hashA = key.1 ∧ p.hashB = key.2 ∧ p.userId = userId then
    pairs.map fun p =>
      if p.hashA = key.1 ∧ p.hashB = key.2 ∧ p.userId = userId then
        { p with similarity := max similarity p.similarity }
      else p
  else pairs ++ [⟨key.1, key.2, similarity, userId⟩]

def PairRow.refersTo (p : PairRow) (userId : UserId) (hash : String) : Bool :=
  p.userId = userId && (p.hashA = hash || p.hashB = hash)

/-- The second statement of `soft_delete_media`. -/
def deletePairs (pairs : List PairRow) (userId : UserId) (hash : String) : List PairRow :=
  pairs.filter fun p => !p.refersTo userId hash

def minSimilarity : ℚ := 4 / 5

def numNeighbors : Nat := 20

def batchSize : Nat := 50

/-- The rows that the neighbour query of an image ranges over. -/
def ImageRow.isCandidate (userId : UserId) (hash : String) (row : ImageRow E) : Bool :=
  row.userId = userId && !row.deleted && row.embedding.isSome && row.hash ≠ hash

def CosineDistance.toRow (D : CosineDistance E) (embedding : Option E) (row : ImageRow E) : ℚ :=
  match embedding, row.embedding with
  | some e, some f => D.distance f e
  | _, _ => 0

def CosineDistance.similarity (D : CosineDistance E) (embedding : Option E) (row : ImageRow E) :
    ℚ :=
  1 - D.toRow embedding row

/-- Both have an embedding and their similarity is at least the threshold. -/
def CosineDistance.similar (D : CosineDistance E) (embedding : Option E) (row : ImageRow E) : Bool :=
  embedding.isSome && row.embedding.isSome && minSimilarity ≤ D.similarity embedding row

/-- An answer of the exact neighbour query: twenty of the nearest candidates, or all of them. -/
def ExactAnswer [DecidableEq E] (D : CosineDistance E) (images : ImageTable E) (userId : UserId)
    (hash : String) (embedding : E) (answer : List (ImageRow E)) : Bool :=
  let candidates := images.rows.filter (·.isCandidate userId hash)
  decide answer.Nodup && answer.all (· ∈ candidates) &&
    decide (answer.length = min numNeighbors candidates.length) &&
    candidates.all fun c => decide (c ∈ answer) ||
      answer.all fun a => D.toRow (some embedding) a ≤ D.toRow (some embedding) c

/-- `row` is among the twenty nearest neighbours of an image, however ties are broken. -/
def Near (D : CosineDistance E) (images : ImageTable E) (userId : UserId) (hash : String)
    (embedding : Option E) (row : ImageRow E) : Prop :=
  images.rows.countP (fun c => c.isCandidate userId hash && decide (c.hash ≠ row.hash) &&
    decide (D.toRow embedding c ≤ D.toRow embedding row)) < numNeighbors

/-- A row for the two images, its hashes in order. -/
def HasPair (pairs : List PairRow) (userId : UserId) (hash other : String) : Prop :=
  ∃ p ∈ pairs, p.userId = userId ∧ p.hashA < p.hashB ∧ (p.hashA, p.hashB) = pairKey hash other

variable {D : CosineDistance E} {images other : ImageTable E} {userId : UserId} {hash third : String}
  {embedding : E} {row : ImageRow E} {pairs : List PairRow} {p : PairRow}

theorem pairKey_comm (hash third : String) : pairKey hash third = pairKey third hash := by
  unfold pairKey
  rcases lt_trichotomy hash third with h | rfl | h
  · rw [if_pos h, if_neg h.asymm]
  · rfl
  · rw [if_neg h.asymm, if_pos h]

theorem pairKey_lt (h : hash ≠ third) : (pairKey hash third).1 < (pairKey hash third).2 := by
  unfold pairKey
  split
  next hlt => exact hlt
  next hnot => exact lt_of_le_of_ne (not_lt.mp hnot) (Ne.symm h)

theorem pairKey_mem (hash third : String) :
    ((pairKey hash third).1 = hash ∧ (pairKey hash third).2 = third) ∨
      ((pairKey hash third).1 = third ∧ (pairKey hash third).2 = hash) := by
  unfold pairKey
  split
  next => exact Or.inl ⟨rfl, rfl⟩
  next => exact Or.inr ⟨rfl, rfl⟩

theorem pairKey_inj {other : String} (h : pairKey hash third = pairKey hash other) :
    third = other := by
  rcases pairKey_mem hash third with ⟨h1, h2⟩ | ⟨h1, h2⟩
  · rcases pairKey_mem hash other with ⟨h3, h4⟩ | ⟨h3, h4⟩
    · rw [← h2, h, h4]
    · rw [← h2, h, h4, ← h1, h, h3]
  · rcases pairKey_mem hash other with ⟨h3, h4⟩ | ⟨h3, h4⟩
    · rw [← h1, h, h3, ← h2, h, h4]
    · rw [← h1, h, h3]

theorem HasPair.symm (h : HasPair pairs userId hash third) : HasPair pairs userId third hash := by
  obtain ⟨p, hp, huser, hlt, hkey⟩ := h
  exact ⟨p, hp, huser, hlt, hkey.trans (pairKey_comm _ _)⟩

/-- The upsert has the pair afterwards and keeps the hashes of every row. -/
theorem hasPair_insert (h : hash ≠ third) (similarity : ℚ) :
    HasPair (insertPair pairs userId hash third similarity) userId hash third := by
  unfold insertPair
  simp only
  split
  next hany =>
    obtain ⟨p, hp, hmatch⟩ := List.any_eq_true.mp hany
    simp only [decide_eq_true_eq] at hmatch
    refine ⟨{ p with similarity := max similarity p.similarity }, ?_, hmatch.2.2, ?_, ?_⟩
    · refine List.mem_map.mpr ⟨p, hp, ?_⟩
      rw [if_pos hmatch]
    · simp only [hmatch.1, hmatch.2.1]
      exact pairKey_lt h
    · simp only [hmatch.1, hmatch.2.1]
  next =>
    exact ⟨⟨(pairKey hash third).1, (pairKey hash third).2, similarity, userId⟩, by simp, rfl,
      pairKey_lt h, rfl⟩

theorem HasPair.insert {user : UserId} {first second : String}
    (h : HasPair pairs user first second) (similarity : ℚ) :
    HasPair (insertPair pairs userId hash third similarity) user first second := by
  obtain ⟨p, hp, huser, hlt, hkey⟩ := h
  unfold insertPair
  simp only
  split
  next =>
    refine ⟨_, List.mem_map_of_mem hp, ?_, ?_, ?_⟩
    · split <;> exact huser
    · split <;> exact hlt
    · split <;> exact hkey
  next => exact ⟨p, List.mem_append_left _ hp, huser, hlt, hkey⟩

/-- What the upsert adds refers to the two images. -/
theorem refersTo_of_mem_insert {similarity : ℚ} {user : UserId} {image : String}
    (hp : p ∈ insertPair pairs userId hash third similarity) (hr : p.refersTo user image = true) :
    (∃ q ∈ pairs, q.refersTo user image = true) ∨
      (user = userId ∧ (image = hash ∨ image = third)) := by
  unfold insertPair at hp
  simp only at hp
  split at hp
  next =>
    obtain ⟨q, hq, rfl⟩ := List.mem_map.mp hp
    refine Or.inl ⟨q, hq, ?_⟩
    split at hr
    next => exact hr
    next => exact hr
  next =>
    rcases List.mem_append.mp hp with hp | hp
    · exact Or.inl ⟨p, hp, hr⟩
    · cases List.mem_singleton.mp hp
      simp only [PairRow.refersTo, Bool.and_eq_true, Bool.or_eq_true, decide_eq_true_eq] at hr
      obtain ⟨rfl, hr⟩ := hr
      refine Or.inr ⟨rfl, ?_⟩
      rcases pairKey_mem hash third with ⟨h1, h2⟩ | ⟨h1, h2⟩
      · rw [h1, h2] at hr
        exact hr.imp Eq.symm Eq.symm
      · rw [h1, h2] at hr
        exact (hr.imp Eq.symm Eq.symm).symm

theorem HasPair.delete {user : UserId} {first second : String}
    (h : HasPair pairs user first second)
    (hother : ∀ q ∈ pairs, q.userId = user → (q.hashA, q.hashB) = pairKey first second →
      q.refersTo userId hash = false) :
    HasPair (deletePairs pairs userId hash) user first second := by
  obtain ⟨p, hp, huser, hlt, hkey⟩ := h
  refine ⟨p, List.mem_filter.mpr ⟨hp, ?_⟩, huser, hlt, hkey⟩
  rw [hother p hp huser hkey]
  rfl

theorem similar_comm (D : CosineDistance E) (x y : ImageRow E) :
    D.similar x.embedding y = D.similar y.embedding x := by
  unfold CosineDistance.similar CosineDistance.similarity CosineDistance.toRow
  cases x.embedding with
  | none => cases y.embedding <;> rfl
  | some e =>
    cases y.embedding with
    | none => rfl
    | some f => simp [D.comm f e]

/-- Rows with one key are one row. -/
theorem ImageTable.eq_of_key {x y : ImageRow E} (hx : x ∈ images.rows) (hy : y ∈ images.rows)
    (h : x.key = y.key) : x = y :=
  List.inj_on_of_nodup_map images.nodup hx hy h

/-- An exact answer has every candidate that is among the twenty nearest. -/
theorem mem_exactAnswer [DecidableEq E] {answer : List (ImageRow E)}
    (h : ExactAnswer D images userId hash embedding answer = true)
    (hrow : row ∈ images.rows) (hcandidate : row.isCandidate userId hash = true)
    (hnear : Near D images userId hash (some embedding) row) : row ∈ answer := by
  simp only [ExactAnswer, Bool.and_eq_true, decide_eq_true_eq, List.all_eq_true, Bool.or_eq_true]
    at h
  obtain ⟨⟨⟨hnodup, hsub⟩, hlength⟩, hnearest⟩ := h
  have hmem : row ∈ images.rows.filter (·.isCandidate userId hash) :=
    List.mem_filter.mpr ⟨hrow, hcandidate⟩
  have hsubperm : answer.Subperm (images.rows.filter (·.isCandidate userId hash)) :=
    List.subperm_of_subset hnodup hsub
  by_contra hnot
  have hfar := (hnearest row hmem).resolve_left hnot
  have hall : answer.length ≤ (images.rows.filter (·.isCandidate userId hash)).countP
      fun c => decide (c.hash ≠ row.hash) &&
        decide (D.toRow (some embedding) c ≤ D.toRow (some embedding) row) := by
    refine le_trans (le_of_eq ?_) (hsubperm.countP_le _)
    refine (List.countP_eq_length.mpr fun a ha => ?_).symm
    have hcand := hsub a ha
    have hne : a.hash ≠ row.hash := by
      intro heq
      have huser : a.userId = row.userId := by
        have h1 := (List.mem_filter.mp hcand).2
        simp only [ImageRow.isCandidate, Bool.and_eq_true, decide_eq_true_eq] at h1 hcandidate
        rw [h1.1.1.1, hcandidate.1.1.1]
      have hsame := ImageTable.eq_of_key (List.mem_filter.mp hcand).1 hrow (Prod.ext huser heq)
      exact hnot (hsame ▸ ha)
    simp only [ne_eq, hne, not_false_eq_true, decide_true, Bool.true_and, decide_eq_true_eq]
    simpa using hfar a ha
  have hlonger : (row :: answer).length ≤ (images.rows.filter (·.isCandidate userId hash)).length :=
    (List.subperm_of_subset (List.nodup_cons.mpr ⟨hnot, hnodup⟩)
      (List.cons_subset.mpr ⟨hmem, hsub⟩)).length_le
  unfold Near at hnear
  rw [List.countP_filter] at hall
  have hsame : (images.rows.countP fun c => (decide (c.hash ≠ row.hash) &&
      decide (D.toRow (some embedding) c ≤ D.toRow (some embedding) row)) &&
        c.isCandidate userId hash) = images.rows.countP fun c => c.isCandidate userId hash &&
      decide (c.hash ≠ row.hash) &&
        decide (D.toRow (some embedding) c ≤ D.toRow (some embedding) row) := by
    congr 1
    funext c
    rw [Bool.and_comm, Bool.and_assoc]
  rw [hsame] at hall
  simp only [List.length_cons] at hlonger
  omega

end

end Reminisce

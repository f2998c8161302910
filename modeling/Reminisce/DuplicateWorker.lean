import Reminisce.DuplicatePairs
import Reminisce.Library.Runs

namespace Reminisce

/-- A row of a batch of `process_batch`. -/
structure BatchImage (E : Type) where
  hash : String
  userId : UserId
  embedding : E
  deriving DecidableEq, Repr

/-- Where `process_batch` stands: between two batches, at the next image of a batch, or at the
neighbors it still has to insert for an image and the mark after them. -/
inductive WorkerPhase (E : Type)
  | idle
  | batch (images : List (BatchImage E))
  | pairing (image : BatchImage E) (neighbors : List (String × ℚ)) (rest : List (BatchImage E))

/-- The tables with the duplicate worker, and with the soft deletes whose second statement is still
due. -/
structure DuplicateSystem (E : Type) where
  images : ImageTable E
  pairs : List PairRow
  worker : WorkerPhase E
  deleting : List (UserId × String)

inductive DuplicateEvent (E : Type)
  | fetch (chosen : List (ImageRow E))
  | query (answer : List (ImageRow E))
  | queryFailed (marked : Bool)
  | insert (ok : Bool)
  | mark (ok : Bool)
  | finish
  | delete (userId : UserId) (hash : String)
  | cleanup (i : Nat) (ok : Bool)
  | restore (userId : UserId) (hash : String)
  | upload (userId : UserId) (hash : String)
  | embed (userId : UserId) (hash : String) (embedding : E)
  | verify (userId : UserId) (hash : String) (verified : Bool)

section

variable {E : Type}

def BatchImage.key (image : BatchImage E) : UserId × String := (image.userId, image.hash)

def ImageRow.isUnchecked (row : ImageRow E) : Bool :=
  !row.checked && row.embedding.isSome && !row.deleted && row.verified

def ImageRow.toBatch (row : ImageRow E) : Option (BatchImage E) :=
  row.embedding.map fun embedding => ⟨row.hash, row.userId, embedding⟩

/-- An answer of the batch query, which has a limit and no order. -/
def BatchAnswer [DecidableEq E] (images : ImageTable E) (chosen : List (ImageRow E)) : Bool :=
  decide chosen.Nodup && chosen.all (fun row => images.rows.any (· = row) && row.isUnchecked) &&
    chosen.length = min batchSize (images.rows.countP (·.isUnchecked))

/-- The neighbors of an answer that qualify as duplicates. -/
def qualifying (D : CosineDistance E) (image : BatchImage E) (answer : List (ImageRow E)) :
    List (String × ℚ) :=
  (answer.map fun row => (row.hash, D.similarity (some image.embedding) row)).filter fun n =>
    minSimilarity ≤ n.2

namespace WorkerPhase

/-- The images the worker holds. -/
def images : WorkerPhase E → List (BatchImage E)
  | .idle => []
  | .batch images => images
  | .pairing image _ rest => image :: rest

/-- The pairs it is about to insert. -/
def pending : WorkerPhase E → List (UserId × String × String)
  | .pairing image neighbors _ => neighbors.map fun n => (image.userId, pairKey image.hash n.1)
  | _ => []

def isPairing : WorkerPhase E → UserId × String → Bool
  | .pairing image _ _, key => key = image.key
  | _, _ => false

end WorkerPhase

namespace DuplicateSystem

def init : DuplicateSystem E := ⟨⟨[], List.nodup_nil⟩, [], .idle, []⟩

/-- The row that `mark` and the failing neighbor query write. -/
def markImage (s : DuplicateSystem E) (image : BatchImage E) (ok : Bool) : ImageTable E :=
  if ok then s.images.markChecked image.userId image.hash else s.images

def hasLive (s : DuplicateSystem E) (userId : UserId) (hash : String) : Bool :=
  s.images.rows.any fun row => row.key = (userId, hash) && !row.deleted

end DuplicateSystem

def duplicateStep [DecidableEq E] (D : CosineDistance E) (s : DuplicateSystem E) :
    DuplicateEvent E → Option (DuplicateSystem E)
  | .fetch chosen =>
    match s.worker with
    | .idle =>
      if BatchAnswer s.images chosen then
        some { s with worker := .batch (chosen.filterMap ImageRow.toBatch) }
      else none
    | _ => none
  | .query answer =>
    match s.worker with
    | .batch (image :: rest) =>
      if ExactAnswer D s.images image.userId image.hash image.embedding answer then
        some { s with worker := .pairing image (qualifying D image answer) rest }
      else none
    | _ => none
  | .queryFailed marked =>
    match s.worker with
    | .batch (image :: rest) =>
      some { s with images := s.markImage image marked, worker := .batch rest }
    | _ => none
  | .insert ok =>
    match s.worker with
    | .pairing image ((hash, similarity) :: neighbors) rest =>
      some { s with
        pairs := if ok then insertPair s.pairs image.userId image.hash hash similarity else s.pairs
        worker := .pairing image neighbors rest }
    | _ => none
  | .mark ok =>
    match s.worker with
    | .pairing image [] rest =>
      some { s with images := s.markImage image ok, worker := .batch rest }
    | _ => none
  | .finish =>
    match s.worker with
    | .batch [] => some { s with worker := .idle }
    | _ => none
  | .delete userId hash =>
    if s.hasLive userId hash then
      some { s with
        images := s.images.softDelete userId hash
        deleting := s.deleting ++ [(userId, hash)] }
    else some s
  | .cleanup i ok =>
    (s.deleting[i]?).map fun key =>
      { s with
        pairs := if ok then deletePairs s.pairs key.1 key.2 else s.pairs
        deleting := s.deleting.eraseIdx i }
  | .restore userId hash => some { s with images := s.images.softRestore userId hash }
  | .upload userId hash => some { s with images := s.images.upsert userId hash }
  | .embed userId hash embedding =>
    some { s with images := s.images.setEmbedding userId hash embedding }
  | .verify userId hash verified =>
    some { s with images := s.images.setVerified userId hash verified }

/-- Two live images of a user that are similar and among each other's nearest neighbors. -/
structure Close (D : CosineDistance E) (images : ImageTable E) (x y : ImageRow E) : Prop where
  user : x.userId = y.userId
  hash : x.hash ≠ y.hash
  live : x.deleted = false
  otherLive : y.deleted = false
  similar : D.similar x.embedding y = true
  near : Near D images x.userId x.hash x.embedding y
  nearBack : Near D images y.userId y.hash y.embedding x

/-- Checked images that are close have a pair row. -/
def PairsRecorded (D : CosineDistance E) (s : DuplicateSystem E) : Prop :=
  ∀ x ∈ s.images.rows, ∀ y ∈ s.images.rows, Close D s.images x y → x.checked → y.checked →
    HasPair s.pairs x.userId x.hash y.hash

/-- No pair row refers to a deleted image, other than to one of `except`. -/
def PairsLive (images : ImageTable E) (pairs : List PairRow) (except : List (UserId × String)) :
    Prop :=
  ∀ p ∈ pairs, ∀ row ∈ images.rows, p.refersTo row.userId row.hash = true →
    row.deleted = false ∨ row.key ∈ except

def PairsComplete (D : CosineDistance E) (s : DuplicateSystem E) : Prop :=
  PairsRecorded D s ∧ PairsLive s.images s.pairs []

variable {D : CosineDistance E} {images : ImageTable E} {x y row : ImageRow E} {userId user : UserId}
  {hash image third : String} {f : ImageRow E → ImageRow E} {hf : ∀ row, (f row).key = row.key}
  {embedding : Option E}

/-- The rewriting hides no row and changes no embedding there is. -/
def KeepsVisible (f : ImageRow E → ImageRow E) : Prop :=
  ∀ row, (row.deleted = false → (f row).deleted = false) ∧
    (row.embedding.isSome = true → (f row).embedding = row.embedding)

theorem KeepsVisible.live (h : KeepsVisible f) (row : ImageRow E) :
    row.deleted = false → (f row).deleted = false :=
  (h row).1

theorem keepsVisible_checked (checked : Bool) :
    KeepsVisible fun row : ImageRow E => { row with checked } :=
  fun _ => ⟨id, fun _ => rfl⟩

theorem keepsVisible_verified (verified : Bool) :
    KeepsVisible fun row : ImageRow E => { row with verified } :=
  fun _ => ⟨id, fun _ => rfl⟩

theorem keepsVisible_undelete : KeepsVisible fun row : ImageRow E => { row with deleted := false } :=
  fun _ => ⟨fun _ => rfl, fun _ => rfl⟩

theorem keepsVisible_restore : KeepsVisible fun row : ImageRow E =>
    if row.deleted then { row with deleted := false, checked := false } else row := by
  intro row
  beta_reduce
  split
  next => exact ⟨fun _ => rfl, fun _ => rfl⟩
  next => exact ⟨id, fun _ => rfl⟩

theorem keepsVisible_embed (e : E) : KeepsVisible fun row : ImageRow E =>
    if row.embedding.isNone then { row with embedding := some e } else row := by
  intro row
  beta_reduce
  split
  next hnone =>
    refine ⟨id, fun hsome => ?_⟩
    cases hembedding : row.embedding with
    | none => simp [hembedding] at hsome
    | some _ => simp [hembedding] at hnone
  next => exact ⟨id, fun _ => rfl⟩

theorem mem_update (hf : ∀ row, (f row).key = row.key)
    (hx : x ∈ (images.update userId hash f hf).rows) :
    (∃ row ∈ images.rows, row.key = (userId, hash) ∧ x = f row) ∨
      (x ∈ images.rows ∧ x.key ≠ (userId, hash)) := by
  obtain ⟨row, hrow, rfl⟩ := List.mem_map.mp hx
  by_cases hkey : row.key = (userId, hash)
  · exact Or.inl ⟨row, hrow, hkey, if_pos hkey⟩
  · rw [if_neg hkey]
    exact Or.inr ⟨hrow, hkey⟩

theorem mem_update_of_mem (hrow : row ∈ images.rows) (hkey : row.key = (userId, hash)) :
    f row ∈ (images.update userId hash f hf).rows := by
  refine List.mem_map.mpr ⟨row, hrow, ?_⟩
  rw [if_pos hkey]

theorem mem_update_of_ne (hrow : row ∈ images.rows) (hkey : row.key ≠ (userId, hash)) :
    row ∈ (images.update userId hash f hf).rows := by
  refine List.mem_map.mpr ⟨row, hrow, ?_⟩
  rw [if_neg hkey]

theorem Close.symm (h : Close D images x y) : Close D images y x :=
  ⟨h.user.symm, Ne.symm h.hash, h.otherLive, h.live, (similar_comm D x y).symm.trans h.similar,
    h.nearBack, h.near⟩

/-- More candidates leave fewer rows among the nearest. -/
theorem near_of_update (hvisible : KeepsVisible f)
    (h : Near D (images.update userId hash f hf) user image embedding row) :
    Near D images user image embedding row := by
  unfold Near at h ⊢
  refine lt_of_le_of_lt ?_ h
  unfold ImageTable.update
  rw [List.countP_map]
  refine List.countP_mono_left fun c _ hc => ?_
  simp only [Function.comp_apply]
  by_cases hkey : c.key = (userId, hash)
  · rw [if_pos hkey]
    simp only [ImageRow.isCandidate, Bool.and_eq_true, decide_eq_true_eq, Bool.not_eq_true',
      ne_eq] at hc ⊢
    obtain ⟨⟨⟨⟨⟨huser, hlive⟩, hsome⟩, hhash⟩, hother⟩, hle⟩ := hc
    have hsame := (hvisible c).2 hsome
    have huser' : (f c).userId = c.userId := congrArg Prod.fst (hf c)
    have hhash' : (f c).hash = c.hash := congrArg Prod.snd (hf c)
    have hto : D.toRow embedding (f c) = D.toRow embedding c := by
      unfold CosineDistance.toRow
      rw [hsame]
    rw [huser', hhash', hsame, hto]
    exact ⟨⟨⟨⟨⟨huser, (hvisible c).1 hlive⟩, hsome⟩, hhash⟩, hother⟩, hle⟩
  · rw [if_neg hkey]
    exact hc

theorem near_of_add (h : images.has userId hash = false)
    (hnear : Near D (images.add userId hash h) user image embedding row) :
    Near D images user image embedding row := by
  unfold Near ImageTable.add at hnear
  rw [List.countP_append] at hnear
  unfold Near
  omega

theorem close_of_update (hvisible : KeepsVisible f)
    (h : Close D (images.update userId hash f hf) x y) : Close D images x y :=
  ⟨h.user, h.hash, h.live, h.otherLive, h.similar, near_of_update hvisible h.near,
    near_of_update hvisible h.nearBack⟩

/-- Whether two rows are close does not depend on their flags other than the deletion. -/
theorem Close.congr {z : ImageRow E} (h : Close D images z y) (hkey : z.key = x.key)
    (hlive : z.deleted = x.deleted) (hembedding : z.embedding = x.embedding) :
    Close D images x y := by
  have huser : z.userId = x.userId := congrArg Prod.fst hkey
  have hhash : z.hash = x.hash := congrArg Prod.snd hkey
  have hto : D.toRow y.embedding z = D.toRow y.embedding x := by
    unfold CosineDistance.toRow
    rw [hembedding]
  refine ⟨huser.symm.trans h.user, hhash ▸ h.hash, hlive.symm.trans h.live, h.otherLive, ?_, ?_, ?_⟩
  · rw [← hembedding]
    exact h.similar
  · rw [← huser, ← hhash, ← hembedding]
    exact h.near
  · have hback := h.nearBack
    unfold Near at hback ⊢
    rw [hhash, hto] at hback
    exact hback

/-- A row without an embedding is close to none. -/
theorem Close.embedded (h : Close D images x y) :
    x.embedding.isSome = true ∧ y.embedding.isSome = true := by
  have hsimilar := h.similar
  unfold CosineDistance.similar at hsimilar
  simp only [Bool.and_eq_true] at hsimilar
  exact hsimilar.1

end

end Reminisce

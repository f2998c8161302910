import Reminisce.DuplicateWorker

namespace Reminisce

section

variable {E : Type}

namespace DuplicateSystem

/-- The two images have a pair row, or the worker is about to insert one. -/
def Recording (s : DuplicateSystem E) (userId : UserId) (hash other : String) : Prop :=
  HasPair s.pairs userId hash other ∨ (userId, pairKey hash other) ∈ s.worker.pending

/-- The pair of two images is recorded if both are checked, and on its way if the worker is pairing
one of them and the other is checked. -/
def Noted (s : DuplicateSystem E) (x y : ImageRow E) : Prop :=
  (x.checked = true → y.checked = true → HasPair s.pairs x.userId x.hash y.hash) ∧
    (s.worker.isPairing x.key = true ∧ y.checked = true ∨
      x.checked = true ∧ s.worker.isPairing y.key = true → s.Recording x.userId x.hash y.hash)

/-- So for every live image of the user that is similar. -/
def Matched (D : CosineDistance E) (s : DuplicateSystem E) (x : ImageRow E) : Prop :=
  ∀ y ∈ s.images.rows, y.userId = x.userId → y.hash ≠ x.hash → y.deleted = false →
    D.similar x.embedding y = true → s.Noted x y

def Settled (s : DuplicateSystem E) (row : ImageRow E) : Bool :=
  row.checked || s.worker.isPairing row.key

/-- The image is live, or deleted by a request that has still to delete its pairs. -/
def Kept (s : DuplicateSystem E) (except : List (UserId × String)) (userId : UserId)
    (hash : String) : Prop :=
  ∀ row ∈ s.images.rows, row.key = (userId, hash) → row.deleted = false ∨ row.key ∈ except

/-- The condition on a step of the worker. -/
def KeepsWorked (D : CosineDistance E) (s : DuplicateSystem E) : DuplicateEvent E → Prop
  | .queryFailed true =>
    match s.worker with
    | .batch (image :: _) => ∀ row ∈ s.images.rows, row.key = image.key → row.deleted = false →
        s.Matched D { row with checked := true }
    | _ => True
  | .insert true =>
    match s.worker with
    | .pairing image ((hash, _) :: _) _ =>
      s.Kept s.deleting image.userId image.hash ∧ s.Kept s.deleting image.userId hash
    | _ => True
  | .insert false =>
    match s.worker with
    | .pairing image ((hash, _) :: _) _ =>
      ∀ x ∈ s.images.rows, x.key = image.key → x.deleted = false →
        ∀ y ∈ s.images.rows, y.key = (image.userId, hash) → y.deleted = false →
          y.checked = true → HasPair s.pairs image.userId image.hash hash
    | _ => True
  | _ => True

/-- The condition on a step of a request. -/
def KeepsRequested (D : CosineDistance E) (s : DuplicateSystem E) : DuplicateEvent E → Prop
  | .delete userId hash =>
    ∀ x ∈ s.images.rows, x.key ≠ (userId, hash) → ∀ y ∈ s.images.rows, y.key ≠ (userId, hash) →
      Close D (s.images.softDelete userId hash) x y → Close D s.images x y ∨ s.Noted x y
  | .cleanup i true =>
    match s.deleting[i]? with
    | some key => ∀ row ∈ s.images.rows, row.key = key → row.deleted = false →
        s.Settled row = true → ∀ p ∈ s.pairs, p.refersTo key.1 key.2 = false
    | none => True
  | .cleanup i false =>
    match s.deleting[i]? with
    | some key => s.Kept (s.deleting.eraseIdx i) key.1 key.2 ∨
        ∀ p ∈ s.pairs, p.refersTo key.1 key.2 = false
    | none => True
  | .restore userId hash => ∀ row ∈ s.images.rows, row.key = (userId, hash) → row.deleted = true →
      s.Matched D { row with checked := false }
  | .upload userId hash => ∀ row ∈ s.images.rows, row.key = (userId, hash) → row.deleted = true →
      s.Matched D row
  | _ => True

def KeepsPairs (D : CosineDistance E) (s : DuplicateSystem E) (e : DuplicateEvent E) : Prop :=
  s.KeepsWorked D e ∧ s.KeepsRequested D e

/-- No pair row refers to an image when it is deleted, and no pair is inserted for a deleted one. -/
def NeverStale (s : DuplicateSystem E) : DuplicateEvent E → Prop
  | .delete userId hash => ∀ p ∈ s.pairs, p.refersTo userId hash = false
  | .insert true =>
    match s.worker with
    | .pairing image ((hash, _) :: _) _ =>
      s.Kept [] image.userId image.hash ∧ s.Kept [] image.userId hash
    | _ => True
  | _ => True

end DuplicateSystem

instance (pairs : List PairRow) (userId : UserId) (hash other : String) :
    Decidable (HasPair pairs userId hash other) := by
  unfold HasPair
  infer_instance

instance (D : CosineDistance E) (images : ImageTable E) (userId : UserId) (hash : String)
    (embedding : Option E) (row : ImageRow E) : Decidable (Near D images userId hash embedding row) :=
  Nat.decLt _ _

instance (D : CosineDistance E) (images : ImageTable E) (x y : ImageRow E) :
    Decidable (Close D images x y) :=
  decidable_of_iff (x.userId = y.userId ∧ x.hash ≠ y.hash ∧ x.deleted = false ∧ y.deleted = false ∧
      D.similar x.embedding y = true ∧ Near D images x.userId x.hash x.embedding y ∧
        Near D images y.userId y.hash y.embedding x)
    ⟨fun ⟨h1, h2, h3, h4, h5, h6, h7⟩ => ⟨h1, h2, h3, h4, h5, h6, h7⟩,
      fun ⟨h1, h2, h3, h4, h5, h6, h7⟩ => ⟨h1, h2, h3, h4, h5, h6, h7⟩⟩

namespace DuplicateSystem

instance (s : DuplicateSystem E) (x y : ImageRow E) : Decidable (s.Noted x y) := by
  unfold Noted Recording
  infer_instance

instance (D : CosineDistance E) (s : DuplicateSystem E) (x : ImageRow E) :
    Decidable (s.Matched D x) := by
  unfold Matched
  infer_instance

instance (s : DuplicateSystem E) (except : List (UserId × String)) (userId : UserId)
    (hash : String) : Decidable (s.Kept except userId hash) :=
  decidable_of_iff (∀ row ∈ s.images.rows, row.key = (userId, hash) → row.deleted = false ∨
    ∃ key ∈ except, row.key = key) (by simp only [exists_eq_right', Kept])

instance (D : CosineDistance E) (s : DuplicateSystem E) (e : DuplicateEvent E) :
    Decidable (s.KeepsWorked D e) := by
  unfold KeepsWorked
  split <;> try split
  all_goals infer_instance

instance (D : CosineDistance E) (s : DuplicateSystem E) (e : DuplicateEvent E) :
    Decidable (s.KeepsRequested D e) := by
  unfold KeepsRequested
  split <;> try split
  all_goals infer_instance

instance (D : CosineDistance E) (s : DuplicateSystem E) (e : DuplicateEvent E) :
    Decidable (s.KeepsPairs D e) :=
  inferInstanceAs (Decidable (_ ∧ _))

instance (s : DuplicateSystem E) (e : DuplicateEvent E) : Decidable (s.NeverStale e) := by
  unfold NeverStale
  split <;> try split
  all_goals infer_instance

end DuplicateSystem

/-- Close images have their pair noted, pair rows refer to live images or ones being deleted, and
the worker holds rows of the table with their embeddings. -/
structure PairsKept (D : CosineDistance E) (s : DuplicateSystem E) : Prop where
  covered : ∀ x ∈ s.images.rows, ∀ y ∈ s.images.rows, Close D s.images x y → s.Noted x y
  live : PairsLive s.images s.pairs s.deleting
  held : ∀ image ∈ s.worker.images, ∃ row ∈ s.images.rows, row.key = image.key ∧
    row.embedding = some image.embedding
  embedded : ∀ row ∈ s.images.rows, row.checked = true → row.embedding.isSome = true
  others : ∀ image neighbors rest, s.worker = .pairing image neighbors rest →
    ∀ n ∈ neighbors, n.1 ≠ image.hash

variable {D : CosineDistance E} {s t : DuplicateSystem E} {images : ImageTable E}
  {x y row : ImageRow E} {userId : UserId} {hash third : String} {f : ImageRow E → ImageRow E}
  {image : BatchImage E} {pairs : List PairRow}
  {except : List (UserId × String)} {neighbors : List (String × ℚ)} {rest : List (BatchImage E)}

theorem DuplicateSystem.Recording.symm (h : s.Recording userId hash third) :
    s.Recording userId third hash := by
  rcases h with h | h
  · exact Or.inl h.symm
  · rw [pairKey_comm] at h
    exact Or.inr h

theorem DuplicateSystem.Noted.symm (h : s.Noted x y) (huser : x.userId = y.userId) :
    s.Noted y x := by
  refine ⟨fun hy hx => ?_, fun hpairing => ?_⟩
  · rw [← huser]
    exact (h.1 hx hy).symm
  · rw [← huser]
    exact (h.2 (hpairing.symm.imp And.symm And.symm)).symm

/-- What an update of one image owes: the pairs of the image itself. -/
theorem covered_update (hf : ∀ row, (f row).key = row.key) {noted : ImageRow E → ImageRow E → Prop}
    (hc : ∀ x ∈ images.rows, ∀ y ∈ images.rows, Close D images x y → noted x y)
    {noted' : ImageRow E → ImageRow E → Prop}
    (hsymm : ∀ x y, x.userId = y.userId → noted' x y → noted' y x)
    (hvisible : KeepsVisible f)
    (hother : ∀ x y, x.key ≠ (userId, hash) → y.key ≠ (userId, hash) → noted x y → noted' x y)
    (hself : ∀ row ∈ images.rows, row.key = (userId, hash) → ∀ y ∈ images.rows,
      y.key ≠ (userId, hash) → Close D images (f row) y → noted' (f row) y) :
    ∀ x ∈ (images.update userId hash f hf).rows, ∀ y ∈ (images.update userId hash f hf).rows,
      Close D (images.update userId hash f hf) x y → noted' x y := by
  intro x hx y hy hclose
  have hbefore := close_of_update hvisible hclose
  rcases mem_update hf hx with ⟨row, hrow, hkey, rfl⟩ | ⟨hx, hxkey⟩
  · rcases mem_update hf hy with ⟨other, hother', hkey', rfl⟩ | ⟨hy, hykey⟩
    · have hsame := ImageTable.eq_of_key hrow hother' (hkey.trans hkey'.symm)
      subst hsame
      exact absurd rfl hclose.hash
    · exact hself row hrow hkey y hy hykey hbefore
  · rcases mem_update hf hy with ⟨other, hother', hkey', rfl⟩ | ⟨hy, hykey⟩
    · exact hsymm _ _ hclose.user.symm (hself other hother' hkey' x hx hxkey hbefore.symm)
    · exact hother x y hxkey hykey (hc x hx y hy hbefore)

theorem held_update (hf : ∀ row, (f row).key = row.key)
    (hkeeps : ∀ row, row.embedding.isSome = true → (f row).embedding = row.embedding)
    (h : ∃ row ∈ images.rows, row.key = image.key ∧ row.embedding = some image.embedding) :
    ∃ row ∈ (images.update userId hash f hf).rows, row.key = image.key ∧
      row.embedding = some image.embedding := by
  obtain ⟨row, hrow, hkey, hembedding⟩ := h
  by_cases hself : row.key = (userId, hash)
  · refine ⟨f row, mem_update_of_mem hrow hself, (hf row).trans hkey, ?_⟩
    rw [hkeeps row (by rw [hembedding]; rfl), hembedding]
  · exact ⟨row, mem_update_of_ne hrow hself, hkey, hembedding⟩

theorem live_update (hf : ∀ row, (f row).key = row.key) (h : PairsLive images pairs except)
    (hlive : ∀ row, row.deleted = false → (f row).deleted = false) :
    PairsLive (images.update userId hash f hf) pairs except := by
  intro p hp row hrow hrefers
  rcases mem_update hf hrow with ⟨old, hold, -, rfl⟩ | ⟨hrow, -⟩
  · have huser : (f old).userId = old.userId := congrArg Prod.fst (hf old)
    have hhash : (f old).hash = old.hash := congrArg Prod.snd (hf old)
    rw [huser, hhash] at hrefers
    rw [hf old]
    exact (h p hp old hold hrefers).imp_left (hlive old)
  · exact h p hp row hrow hrefers

theorem embedded_update (hf : ∀ row, (f row).key = row.key)
    (h : ∀ row ∈ images.rows, row.checked = true → row.embedding.isSome = true)
    (hself : ∀ row ∈ images.rows, row.key = (userId, hash) → (f row).checked = true →
      (f row).embedding.isSome = true) :
    ∀ row ∈ (images.update userId hash f hf).rows, row.checked = true →
      row.embedding.isSome = true := by
  intro row hrow hchecked
  rcases mem_update hf hrow with ⟨old, hold, hkey, rfl⟩ | ⟨hrow, -⟩
  · exact hself old hold hkey hchecked
  · exact h row hrow hchecked

/-- The mark of an image whose pairs with the checked ones are there. -/
theorem kept_markImage (h : PairsKept D s) (hheld : s.worker.images = image :: rest) (ok : Bool)
    (hpairs : ok = true → ∀ row ∈ s.images.rows, row.key = image.key → ∀ y ∈ s.images.rows,
      Close D s.images row y → y.checked = true → HasPair s.pairs row.userId row.hash y.hash) :
    PairsKept D { s with images := s.markImage image ok, worker := .batch rest } := by
  have hbatch : ∀ (images : ImageTable E) (x y : ImageRow E), s.Noted x y →
      DuplicateSystem.Noted { s with images, worker := .batch rest } x y := by
    refine fun images x y hnoted => ⟨hnoted.1, fun hpairing => ?_⟩
    simp [WorkerPhase.isPairing] at hpairing
  have hrest : ∀ other ∈ rest, ∃ row ∈ s.images.rows, row.key = other.key ∧
      row.embedding = some other.embedding := by
    intro other hmem
    refine h.held other ?_
    rw [hheld]
    exact List.mem_cons_of_mem _ hmem
  cases ok with
  | false =>
    exact ⟨fun x hx y hy hclose => hbatch _ x y (h.covered x hx y hy hclose), h.live, hrest,
      h.embedded, by simp⟩
  | true =>
    obtain ⟨stored, hstored, hkey, hsome⟩ := h.held image (by rw [hheld]; exact List.mem_cons_self)
    have hf : ∀ row : ImageRow E, ({ row with checked := true } : ImageRow E).key = row.key :=
      fun _ => rfl
    refine ⟨?_, live_update hf h.live fun _ => id, fun other hmem =>
      held_update hf (fun _ _ => rfl) (hrest other hmem), ?_, by simp⟩
    · refine covered_update hf h.covered
        (fun x y huser hnoted => hnoted.symm huser) (keepsVisible_checked true)
        (fun x y _ _ hnoted => hbatch _ x y hnoted) ?_
      intro row hrow hrowkey y hy _ hclose
      have hbefore : Close D s.images row y := hclose.congr rfl rfl rfl
      refine ⟨fun _ hchecked => hpairs rfl row hrow hrowkey y hy hbefore hchecked, ?_⟩
      simp [WorkerPhase.isPairing]
    · refine embedded_update hf h.embedded fun row hrow hrowkey _ => ?_
      have hsame := ImageTable.eq_of_key hrow hstored (hrowkey.trans hkey.symm)
      rw [hsame, hsome]
      rfl

theorem kept_mark (h : PairsKept D s) (hworker : s.worker = .pairing image [] rest) (ok : Bool) :
    PairsKept D { s with images := s.markImage image ok, worker := .batch rest } := by
  refine kept_markImage h (by rw [hworker]; rfl) ok fun _ row hrow hkey y hy hclose hchecked => ?_
  have hpairing : s.worker.isPairing row.key = true := by
    rw [hworker]
    exact decide_eq_true hkey
  rcases (h.covered row hrow y hy hclose).2 (Or.inl ⟨hpairing, hchecked⟩) with hpair | hpending
  · exact hpair
  · rw [hworker] at hpending
    simp [WorkerPhase.pending] at hpending

theorem kept_queryFailed (h : PairsKept D s) (hworker : s.worker = .batch (image :: rest))
    (ok : Bool) (hkept : s.KeepsWorked D (.queryFailed ok)) :
    PairsKept D { s with images := s.markImage image ok, worker := .batch rest } := by
  refine kept_markImage h (by rw [hworker]; rfl) ok fun hok row hrow hkey y hy hclose hchecked => ?_
  subst hok
  simp only [DuplicateSystem.KeepsWorked, hworker] at hkept
  exact (hkept row hrow hkey hclose.live y hy hclose.user.symm (Ne.symm hclose.hash)
    hclose.otherLive hclose.similar).1 rfl hchecked

theorem kept_fetch [DecidableEq E] {chosen : List (ImageRow E)} (h : PairsKept D s)
    (hanswer : BatchAnswer s.images chosen = true) :
    PairsKept D { s with worker := .batch (chosen.filterMap ImageRow.toBatch) } := by
  refine ⟨fun x hx y hy hclose => ⟨(h.covered x hx y hy hclose).1, ?_⟩, h.live, ?_, h.embedded,
    by simp⟩
  · simp [WorkerPhase.isPairing]
  · intro other hmem
    obtain ⟨row, hrow, htoBatch⟩ := List.mem_filterMap.mp hmem
    obtain ⟨embedding, hembedding, rfl⟩ := Option.map_eq_some_iff.mp htoBatch
    simp only [BatchAnswer, Bool.and_eq_true, List.all_eq_true, List.any_eq_true, decide_eq_true_eq,
      exists_eq_right] at hanswer
    exact ⟨row, (hanswer.1.2 row hrow).1, rfl, hembedding⟩

theorem kept_finish (h : PairsKept D s) : PairsKept D { s with worker := .idle } := by
  refine ⟨fun x hx y hy hclose => ⟨(h.covered x hx y hy hclose).1, ?_⟩, h.live, ?_, h.embedded,
    by simp⟩
  · simp [WorkerPhase.isPairing]
  · simp [WorkerPhase.images]

/-- An exact answer has every close image, so the pairs of the image are all on their way. -/
theorem kept_query [DecidableEq E] {answer : List (ImageRow E)} (h : PairsKept D s)
    (hworker : s.worker = .batch (image :: rest))
    (hanswer : ExactAnswer D s.images image.userId image.hash image.embedding answer = true) :
    PairsKept D { s with worker := .pairing image (qualifying D image answer) rest } := by
  have himages : s.worker.images = image :: rest := by rw [hworker]; rfl
  have hrecording : ∀ x ∈ s.images.rows, ∀ y ∈ s.images.rows, Close D s.images x y →
      x.key = image.key →
      DuplicateSystem.Recording { s with worker := .pairing image (qualifying D image answer) rest }
        x.userId x.hash y.hash := by
    intro x hx y hy hclose hkey
    obtain ⟨stored, hstored, hstoredKey, hembedding⟩ :=
      h.held image (by rw [himages]; exact List.mem_cons_self)
    cases ImageTable.eq_of_key hx hstored (hkey.trans hstoredKey.symm)
    have huser : x.userId = image.userId := congrArg Prod.fst hkey
    have hhash : x.hash = image.hash := congrArg Prod.snd hkey
    have hcandidate : y.isCandidate image.userId image.hash = true := by
      simp only [ImageRow.isCandidate, Bool.and_eq_true, decide_eq_true_eq]
      refine ⟨⟨⟨hclose.user.symm.trans huser, ?_⟩, hclose.embedded.2⟩, ?_⟩
      · rw [hclose.otherLive]
        rfl
      · rw [← hhash]
        exact Ne.symm hclose.hash
    have hnear : Near D s.images image.userId image.hash (some image.embedding) y := by
      rw [← huser, ← hhash, ← hembedding]
      exact hclose.near
    have hmem := mem_exactAnswer hanswer hy hcandidate hnear
    have hsimilar : minSimilarity ≤ D.similarity (some image.embedding) y := by
      have := hclose.similar
      rw [hembedding] at this
      simp only [CosineDistance.similar, Bool.and_eq_true, decide_eq_true_eq] at this
      exact this.2
    refine Or.inr (List.mem_map.mpr ⟨(y.hash, D.similarity (some image.embedding) y), ?_, ?_⟩)
    · exact List.mem_filter.mpr ⟨List.mem_map_of_mem hmem, decide_eq_true hsimilar⟩
    · rw [huser, hhash]
  refine ⟨fun x hx y hy hclose => ⟨(h.covered x hx y hy hclose).1, ?_⟩, h.live, ?_, h.embedded, ?_⟩
  · rintro (⟨hpairing, -⟩ | ⟨-, hpairing⟩)
    · exact hrecording x hx y hy hclose (of_decide_eq_true hpairing)
    · rw [hclose.user]
      exact (hrecording y hy x hx hclose.symm (of_decide_eq_true hpairing)).symm
  · intro other hmem
    refine h.held other ?_
    rw [himages]
    exact hmem
  · intro image' neighbors' rest' heq n hn
    cases heq
    obtain ⟨row, hrow, rfl⟩ := List.mem_map.mp (List.mem_filter.mp hn).1
    simp only [ExactAnswer, Bool.and_eq_true, decide_eq_true_eq, List.all_eq_true,
      List.mem_filter] at hanswer
    have hcandidate := (hanswer.1.1.2 row hrow).2
    simp only [ImageRow.isCandidate, Bool.and_eq_true, decide_eq_true_eq] at hcandidate
    exact hcandidate.2

theorem live_insert {similarity : ℚ} (h : PairsLive images pairs except)
    (hhash : ∀ row ∈ images.rows, row.key = (userId, hash) → row.deleted = false ∨ row.key ∈ except)
    (hthird : ∀ row ∈ images.rows, row.key = (userId, third) →
      row.deleted = false ∨ row.key ∈ except) :
    PairsLive images (insertPair pairs userId hash third similarity) except := by
  intro p hp row hrow hrefers
  rcases refersTo_of_mem_insert hp hrefers with ⟨q, hq, hold⟩ | ⟨huser, heq | heq⟩
  · exact h q hq row hrow hold
  · exact hhash row hrow (Prod.ext huser heq)
  · exact hthird row hrow (Prod.ext huser heq)

/-- The pairs of the image that is paired stay recorded or on their way. -/
theorem recording_insert (h : PairsKept D s) {similarity : ℚ} {ok : Bool}
    (hworker : s.worker = .pairing image ((third, similarity) :: neighbors) rest)
    (hkept : s.KeepsWorked D (.insert ok)) (hx : x ∈ s.images.rows) (hy : y ∈ s.images.rows)
    (hclose : Close D s.images x y) (hkey : x.key = image.key) (hchecked : y.checked = true)
    (hrecording : s.Recording x.userId x.hash y.hash) :
    HasPair (if ok then insertPair s.pairs image.userId image.hash third similarity else s.pairs)
        x.userId x.hash y.hash ∨
      (x.userId, pairKey x.hash y.hash) ∈
        (WorkerPhase.pairing image neighbors rest).pending := by
  have huser : x.userId = image.userId := congrArg Prod.fst hkey
  have hhash : x.hash = image.hash := congrArg Prod.snd hkey
  have hne : third ≠ image.hash :=
    h.others image _ rest hworker (third, similarity) List.mem_cons_self
  rw [huser, hhash] at hrecording ⊢
  rcases hrecording with hpair | hpending
  · refine Or.inl ?_
    split
    next => exact hpair.insert similarity
    next => exact hpair
  · rw [hworker] at hpending
    rcases List.mem_cons.mp hpending with heq | hpending
    · have hthird : y.hash = third := pairKey_inj (congrArg Prod.snd heq)
      refine Or.inl ?_
      rw [hthird]
      cases ok with
      | true => exact hasPair_insert hne.symm similarity
      | false =>
        simp only [DuplicateSystem.KeepsWorked, hworker] at hkept
        exact hkept x hx hkey hclose.live y hy (Prod.ext (hclose.user.symm.trans huser) hthird)
          hclose.otherLive hchecked
    · exact Or.inr hpending

theorem kept_insert (h : PairsKept D s) {similarity : ℚ} {ok : Bool}
    (hworker : s.worker = .pairing image ((third, similarity) :: neighbors) rest)
    (hkept : s.KeepsWorked D (.insert ok)) :
    PairsKept D { s with
      pairs := if ok then insertPair s.pairs image.userId image.hash third similarity else s.pairs
      worker := .pairing image neighbors rest } := by
  refine ⟨fun x hx y hy hclose => ⟨fun hxc hyc => ?_, ?_⟩, ?_, ?_, h.embedded, ?_⟩
  · have hpair := (h.covered x hx y hy hclose).1 hxc hyc
    simp only
    split
    next => exact hpair.insert similarity
    next => exact hpair
  · have hnoted := h.covered x hx y hy hclose
    rintro (⟨hpairing, hchecked⟩ | ⟨hchecked, hpairing⟩)
    · have hkey : x.key = image.key := of_decide_eq_true hpairing
      have hworking : s.worker.isPairing x.key = true := by
        rw [hworker]
        exact hpairing
      exact recording_insert h hworker hkept hx hy hclose hkey hchecked
        (hnoted.2 (Or.inl ⟨hworking, hchecked⟩))
    · have hkey : y.key = image.key := of_decide_eq_true hpairing
      have hworking : s.worker.isPairing y.key = true := by
        rw [hworker]
        exact hpairing
      have hback := (hnoted.2 (Or.inr ⟨hchecked, hworking⟩)).symm
      rw [hclose.user] at hback ⊢
      exact DuplicateSystem.Recording.symm
        (recording_insert h hworker hkept hy hx hclose.symm hkey hchecked hback)
  · cases ok with
    | false => exact h.live
    | true =>
      simp only [DuplicateSystem.KeepsWorked, hworker] at hkept
      exact live_insert h.live hkept.1 hkept.2
  · intro other hmem
    refine h.held other ?_
    rw [hworker]
    exact hmem
  · intro image' neighbors' rest' heq n hn
    cases heq
    exact h.others image _ rest hworker n (List.mem_cons_of_mem _ hn)

theorem kept_delete (h : PairsKept D s) (hkept : s.KeepsRequested D (.delete userId hash)) :
    PairsKept D { s with
      images := s.images.softDelete userId hash
      deleting := s.deleting ++ [(userId, hash)] } := by
  have hf : ∀ row : ImageRow E, ({ row with deleted := true } : ImageRow E).key = row.key :=
    fun _ => rfl
  have hlive : ∀ row ∈ (s.images.softDelete userId hash).rows, row.deleted = false →
      row ∈ s.images.rows ∧ row.key ≠ (userId, hash) := by
    intro row hrow hdeleted
    rcases mem_update hf hrow with ⟨old, -, -, rfl⟩ | hrow
    · simp at hdeleted
    · exact hrow
  refine ⟨fun x hx y hy hclose => ?_, fun p hp row hrow hrefers => ?_, fun other hmem =>
    held_update hf (fun _ _ => rfl) (h.held other hmem), embedded_update hf h.embedded
      fun row hrow _ => h.embedded row hrow, h.others⟩
  · obtain ⟨hx, hxkey⟩ := hlive x hx hclose.live
    obtain ⟨hy, hykey⟩ := hlive y hy hclose.otherLive
    rcases hkept x hx hxkey y hy hykey hclose with hbefore | hnoted
    · exact h.covered x hx y hy hbefore
    · exact hnoted
  · rcases mem_update hf hrow with ⟨old, -, hkey, rfl⟩ | ⟨hrow, -⟩
    · refine Or.inr (List.mem_append_right _ ?_)
      rw [hf old, hkey]
      exact List.mem_singleton_self _
    · exact (h.live p hp row hrow hrefers).imp_right fun hmem => List.mem_append_left _ hmem

theorem hasPair_deletePairs {key : UserId × String} (hpair : HasPair pairs userId hash third)
    (hother : (userId, hash) = key ∨ (userId, third) = key →
      ∀ p ∈ pairs, p.refersTo key.1 key.2 = false) :
    HasPair (deletePairs pairs key.1 key.2) userId hash third := by
  refine hpair.delete fun q hq huser hkey => ?_
  by_cases hself : (userId, hash) = key ∨ (userId, third) = key
  · exact hother hself q hq
  · refine Bool.eq_false_iff.mpr fun hrefers => hself ?_
    simp only [PairRow.refersTo, Bool.and_eq_true, Bool.or_eq_true, decide_eq_true_eq] at hrefers
    obtain ⟨huser', hhashes⟩ := hrefers
    have h1 : q.hashA = (pairKey hash third).1 := congrArg Prod.fst hkey
    have h2 : q.hashB = (pairKey hash third).2 := congrArg Prod.snd hkey
    rw [h1, h2] at hhashes
    rcases pairKey_mem hash third with ⟨hfst, hsnd⟩ | ⟨hfst, hsnd⟩
    · rw [hfst, hsnd] at hhashes
      exact hhashes.imp (Prod.ext (huser.symm.trans huser')) (Prod.ext (huser.symm.trans huser'))
    · rw [hfst, hsnd] at hhashes
      exact (hhashes.imp (Prod.ext (huser.symm.trans huser'))
        (Prod.ext (huser.symm.trans huser'))).symm

/-- The second statement of a soft delete takes no pair from settled live images. -/
theorem kept_cleanup {i : Nat} {key : UserId × String} (h : PairsKept D s)
    (hkey : s.deleting[i]? = some key) (hkept : s.KeepsRequested D (.cleanup i true)) :
    PairsKept D { s with
      pairs := deletePairs s.pairs key.1 key.2
      deleting := s.deleting.eraseIdx i } := by
  simp only [DuplicateSystem.KeepsRequested, hkey] at hkept
  have hpair : ∀ x ∈ s.images.rows, ∀ y ∈ s.images.rows, Close D s.images x y →
      s.Settled x = true → s.Settled y = true → HasPair s.pairs x.userId x.hash y.hash →
        HasPair (deletePairs s.pairs key.1 key.2) x.userId x.hash y.hash := by
    intro x hx y hy hclose hxs hys hhas
    refine hasPair_deletePairs hhas fun hself => ?_
    rcases hself with hself | hself
    · exact hkept x hx hself hclose.live hxs
    · rw [hclose.user] at hself
      exact hkept y hy hself hclose.otherLive hys
  have hchecked : ∀ row : ImageRow E, row.checked = true → s.Settled row = true := by
    intro row hrow
    simp [DuplicateSystem.Settled, hrow]
  have hpairing : ∀ row : ImageRow E, s.worker.isPairing row.key = true → s.Settled row = true := by
    intro row hrow
    simp [DuplicateSystem.Settled, hrow]
  refine ⟨fun x hx y hy hclose => ?_, fun p hp row hrow hrefers => ?_, h.held, h.embedded, h.others⟩
  · have hnoted := h.covered x hx y hy hclose
    refine ⟨fun hxc hyc => ?_, fun hone => ?_⟩
    · exact hpair x hx y hy hclose (hchecked x hxc) (hchecked y hyc) (hnoted.1 hxc hyc)
    · refine (hnoted.2 hone).imp_left fun hhas => ?_
      rcases hone with ⟨hx', hy'⟩ | ⟨hx', hy'⟩
      · exact hpair x hx y hy hclose (hpairing x hx') (hchecked y hy') hhas
      · exact hpair x hx y hy hclose (hchecked x hx') (hpairing y hy') hhas
  · obtain ⟨hp, hnot⟩ := List.mem_filter.mp hp
    refine (h.live p hp row hrow hrefers).imp_right fun hmem => ?_
    obtain ⟨j, hj⟩ := List.getElem?_of_mem hmem
    refine List.mem_eraseIdx_iff_getElem?.mpr ⟨j, ?_, hj⟩
    rintro rfl
    cases Option.some.inj (hkey.symm.trans hj)
    rw [show p.refersTo row.key.1 row.key.2 = true from hrefers] at hnot
    simp at hnot

/-- Its failure leaves no pair of a deleted image. -/
theorem kept_cleanupFailed {i : Nat} {key : UserId × String} (h : PairsKept D s)
    (hkey : s.deleting[i]? = some key) (hkept : s.KeepsRequested D (.cleanup i false)) :
    PairsKept D { s with deleting := s.deleting.eraseIdx i } := by
  simp only [DuplicateSystem.KeepsRequested, hkey] at hkept
  refine ⟨h.covered, fun p hp row hrow hrefers => ?_, h.held, h.embedded, h.others⟩
  rcases h.live p hp row hrow hrefers with hlive | hmem
  · exact Or.inl hlive
  · obtain ⟨j, hj⟩ := List.getElem?_of_mem hmem
    by_cases hij : j = i
    · subst hij
      cases Option.some.inj (hkey.symm.trans hj)
      rcases hkept with hagain | hnone
      · exact hagain row hrow rfl
      · exact absurd hrefers (Bool.eq_false_iff.mp (hnone p hp))
    · exact Or.inr (List.mem_eraseIdx_iff_getElem?.mpr ⟨j, hij, hj⟩)

/-- A rewriting of one image that hides nothing and checks nothing. -/
theorem kept_update (hf : ∀ row, (f row).key = row.key) (h : PairsKept D s)
    (hvisible : KeepsVisible f)
    (hchecked : ∀ row, (f row).checked = true → row.checked = true)
    (hself : ∀ row ∈ s.images.rows, row.key = (userId, hash) → ∀ y ∈ s.images.rows,
      Close D s.images (f row) y → s.Noted (f row) y) :
    PairsKept D { s with images := s.images.update userId hash f hf } where
  covered := covered_update hf h.covered (fun _ _ huser hnoted => hnoted.symm huser) hvisible
    (fun _ _ _ _ hnoted => hnoted) fun row hrow hkey y hy _ => hself row hrow hkey y hy
  live := live_update hf h.live fun row => (hvisible row).1
  held other hmem := held_update hf (fun row => (hvisible row).2) (h.held other hmem)
  embedded := embedded_update hf h.embedded fun row hrow _ hrowc => by
    have hsome := h.embedded row hrow (hchecked row hrowc)
    rw [(hvisible row).2 hsome]
    exact hsome
  others := h.others

theorem kept_restore (h : PairsKept D s) (hkept : s.KeepsRequested D (.restore userId hash)) :
    PairsKept D { s with images := s.images.softRestore userId hash } := by
  refine kept_update _ h keepsVisible_restore ?_ ?_
  · intro row hrow
    split at hrow
    next => simp at hrow
    next => exact hrow
  · intro row hrow hkey y hy hclose
    split at hclose
    next hdeleted =>
      have hnoted := hkept row hrow hkey hdeleted y hy hclose.user.symm (Ne.symm hclose.hash)
        hclose.otherLive hclose.similar
      rw [if_pos hdeleted]
      exact hnoted
    next hlive =>
      rw [if_neg hlive]
      exact h.covered row hrow y hy hclose

theorem kept_add (h : PairsKept D s) (hnew : s.images.has userId hash = false) :
    PairsKept D { s with images := s.images.add userId hash hnew } := by
  have hmem : ∀ row ∈ (s.images.add userId hash hnew).rows, row.embedding.isSome = true →
      row ∈ s.images.rows := by
    intro row hrow hsome
    rcases List.mem_append.mp hrow with hrow | hrow
    · exact hrow
    · cases List.mem_singleton.mp hrow
      simp at hsome
  refine ⟨fun x hx y hy hclose => ?_, fun p hp row hrow hrefers => ?_, fun other hother => ?_,
    fun row hrow hchecked => ?_, h.others⟩
  · have hbefore : Close D s.images x y := ⟨hclose.user, hclose.hash, hclose.live, hclose.otherLive,
      hclose.similar, near_of_add hnew hclose.near, near_of_add hnew hclose.nearBack⟩
    exact h.covered x (hmem x hx hclose.embedded.1) y (hmem y hy hclose.embedded.2) hbefore
  · rcases List.mem_append.mp hrow with hrow | hrow
    · exact h.live p hp row hrow hrefers
    · cases List.mem_singleton.mp hrow
      exact Or.inl rfl
  · obtain ⟨row, hrow, hrowkey⟩ := h.held other hother
    exact ⟨row, List.mem_append_left _ hrow, hrowkey⟩
  · rcases List.mem_append.mp hrow with hrow | hrow
    · exact h.embedded row hrow hchecked
    · cases List.mem_singleton.mp hrow
      simp at hchecked

theorem kept_upload (h : PairsKept D s) (hkept : s.KeepsRequested D (.upload userId hash)) :
    PairsKept D { s with images := s.images.upsert userId hash } := by
  unfold ImageTable.upsert
  split
  next hnew => exact kept_add h hnew
  next =>
    refine kept_update _ h keepsVisible_undelete (fun _ => id) fun row hrow hkey y hy hclose => ?_
    cases hdeleted : row.deleted with
    | true =>
      exact hkept row hrow hkey hdeleted y hy hclose.user.symm (Ne.symm hclose.hash)
        hclose.otherLive hclose.similar
    | false =>
      exact h.covered row hrow y hy (hclose.congr rfl hdeleted.symm rfl)

/-- An image without an embedding is neither checked nor held by the worker. -/
theorem kept_embed (h : PairsKept D s) (embedding : E) :
    PairsKept D { s with images := s.images.setEmbedding userId hash embedding } := by
  refine kept_update _ h (keepsVisible_embed embedding) ?_ ?_
  · intro row hrow
    split at hrow
    next => exact hrow
    next => exact hrow
  · intro row hrow hkey y hy hclose
    split at hclose
    next hnone =>
      have hunchecked : row.checked ≠ true := by
        intro hchecked
        have hsome := h.embedded row hrow hchecked
        cases hembedding : row.embedding with
        | none => simp [hembedding] at hsome
        | some _ => simp [hembedding] at hnone
      have hfree : s.worker.isPairing row.key ≠ true := by
        intro hpairing
        cases hworker : s.worker with
        | idle => simp [hworker, WorkerPhase.isPairing] at hpairing
        | batch _ => simp [hworker, WorkerPhase.isPairing] at hpairing
        | pairing image neighbors rest =>
          rw [hworker] at hpairing
          obtain ⟨stored, hstored, hstoredKey, hsome⟩ :=
            h.held image (by rw [hworker]; exact List.mem_cons_self)
          cases ImageTable.eq_of_key hrow hstored
            ((of_decide_eq_true hpairing).trans hstoredKey.symm)
          simp [hsome] at hnone
      rw [if_pos hnone]
      refine ⟨fun hchecked => absurd hchecked hunchecked, ?_⟩
      rintro (⟨hpairing, -⟩ | ⟨hchecked, -⟩)
      · exact absurd hpairing hfree
      · exact absurd hchecked hunchecked
    next hsome =>
      rw [if_neg hsome]
      exact h.covered row hrow y hy hclose

theorem kept_verify (h : PairsKept D s) (verified : Bool) :
    PairsKept D { s with images := s.images.setVerified userId hash verified } := by
  refine kept_update _ h (keepsVisible_verified verified) (fun _ => id)
    fun row hrow _ y hy hclose => ?_
  exact h.covered row hrow y hy (hclose.congr rfl rfl rfl)

theorem pairsKept_step [DecidableEq E] {e : DuplicateEvent E} (h : PairsKept D s)
    (hkept : s.KeepsPairs D e) (hstep : duplicateStep D s e = some t) : PairsKept D t := by
  cases e with
  | fetch chosen =>
    simp only [duplicateStep] at hstep
    split at hstep
    next hworker =>
      split at hstep
      next hanswer =>
        cases Option.some.inj hstep
        exact kept_fetch h hanswer
      next => simp at hstep
    next => simp at hstep
  | query answer =>
    simp only [duplicateStep] at hstep
    split at hstep
    next hworker =>
      split at hstep
      next hanswer =>
        cases Option.some.inj hstep
        exact kept_query h hworker hanswer
      next => simp at hstep
    next => simp at hstep
  | queryFailed marked =>
    simp only [duplicateStep] at hstep
    split at hstep
    next hworker =>
      cases Option.some.inj hstep
      exact kept_queryFailed h hworker marked hkept.1
    next => simp at hstep
  | insert ok =>
    simp only [duplicateStep] at hstep
    split at hstep
    next hworker =>
      cases Option.some.inj hstep
      exact kept_insert h hworker hkept.1
    next => simp at hstep
  | mark ok =>
    simp only [duplicateStep] at hstep
    split at hstep
    next hworker =>
      cases Option.some.inj hstep
      exact kept_mark h hworker ok
    next => simp at hstep
  | finish =>
    simp only [duplicateStep] at hstep
    split at hstep
    next =>
      cases Option.some.inj hstep
      exact kept_finish h
    next => simp at hstep
  | delete userId hash =>
    simp only [duplicateStep] at hstep
    split at hstep
    next =>
      cases Option.some.inj hstep
      exact kept_delete h hkept.2
    next =>
      cases Option.some.inj hstep
      exact h
  | cleanup i ok =>
    obtain ⟨key, hkey, rfl⟩ := Option.map_eq_some_iff.mp hstep
    cases ok with
    | true => exact kept_cleanup h hkey hkept.2
    | false => exact kept_cleanupFailed h hkey hkept.2
  | restore userId hash =>
    cases Option.some.inj hstep
    exact kept_restore h hkept.2
  | upload userId hash =>
    cases Option.some.inj hstep
    exact kept_upload h hkept.2
  | embed userId hash embedding =>
    cases Option.some.inj hstep
    exact kept_embed h embedding
  | verify userId hash verified =>
    cases Option.some.inj hstep
    exact kept_verify h verified

theorem pairsRecorded_of_kept (h : PairsKept D s) : PairsRecorded D s :=
  fun x hx y hy hclose => (h.covered x hx y hy hclose).1

/-- The images that the worker marks keep their deletion. -/
theorem live_markImage (h : PairsLive s.images pairs except) (ok : Bool) :
    PairsLive (s.markImage image ok) pairs except := by
  cases ok with
  | false => exact h
  | true =>
    have hf : ∀ row : ImageRow E, ({ row with checked := true } : ImageRow E).key = row.key :=
      fun _ => rfl
    exact live_update hf h fun _ => id

theorem live_upsert (h : PairsLive images pairs except) :
    PairsLive (images.upsert userId hash) pairs except := by
  unfold ImageTable.upsert
  split
  next hnew =>
    intro p hp row hrow hrefers
    rcases List.mem_append.mp hrow with hrow | hrow
    · exact h p hp row hrow hrefers
    · cases List.mem_singleton.mp hrow
      exact Or.inl rfl
  next => exact live_update _ h keepsVisible_undelete.live

theorem pairsLive_step [DecidableEq E] {e : DuplicateEvent E}
    (h : PairsLive s.images s.pairs []) (hstale : s.NeverStale e)
    (hstep : duplicateStep D s e = some t) : PairsLive t.images t.pairs [] := by
  cases e with
  | fetch chosen =>
    simp only [duplicateStep] at hstep
    split at hstep
    next =>
      split at hstep
      next => cases Option.some.inj hstep; exact h
      next => simp at hstep
    next => simp at hstep
  | query answer =>
    simp only [duplicateStep] at hstep
    split at hstep
    next =>
      split at hstep
      next => cases Option.some.inj hstep; exact h
      next => simp at hstep
    next => simp at hstep
  | queryFailed marked =>
    simp only [duplicateStep] at hstep
    split at hstep
    next => cases Option.some.inj hstep; exact live_markImage h marked
    next => simp at hstep
  | insert ok =>
    simp only [duplicateStep] at hstep
    split at hstep
    next hworker =>
      cases Option.some.inj hstep
      cases ok with
      | false => exact h
      | true =>
        simp only [DuplicateSystem.NeverStale, hworker] at hstale
        exact live_insert h hstale.1 hstale.2
    next => simp at hstep
  | mark ok =>
    simp only [duplicateStep] at hstep
    split at hstep
    next => cases Option.some.inj hstep; exact live_markImage h ok
    next => simp at hstep
  | finish =>
    simp only [duplicateStep] at hstep
    split at hstep
    next => cases Option.some.inj hstep; exact h
    next => simp at hstep
  | delete userId hash =>
    simp only [duplicateStep] at hstep
    split at hstep
    next =>
      cases Option.some.inj hstep
      intro p hp row hrow hrefers
      have hf : ∀ row : ImageRow E, ({ row with deleted := true } : ImageRow E).key = row.key :=
        fun _ => rfl
      rcases mem_update hf hrow with ⟨old, -, hkey, rfl⟩ | ⟨hrow, -⟩
      · have hnone := hstale p hp
        cases hkey
        exact absurd hrefers (Bool.eq_false_iff.mp hnone)
      · exact h p hp row hrow hrefers
    next => cases Option.some.inj hstep; exact h
  | cleanup i ok =>
    obtain ⟨key, -, rfl⟩ := Option.map_eq_some_iff.mp hstep
    cases ok with
    | false => exact h
    | true => exact fun p hp => h p (List.mem_filter.mp hp).1
  | restore userId hash =>
    cases Option.some.inj hstep
    refine live_update (fun row => ?_) h keepsVisible_restore.live
    split <;> rfl
  | upload userId hash =>
    cases Option.some.inj hstep
    exact live_upsert h
  | embed userId hash embedding =>
    cases Option.some.inj hstep
    refine live_update (fun row => ?_) h (keepsVisible_embed embedding).live
    split <;> rfl
  | verify userId hash verified =>
    cases Option.some.inj hstep
    exact live_update (f := fun row => { row with verified }) (fun _ => rfl) h fun _ => id

theorem pairsKept_init : PairsKept D (DuplicateSystem.init : DuplicateSystem E) := by
  refine ⟨?_, ?_, ?_, ?_, ?_⟩
  · simp [DuplicateSystem.init]
  · simp [PairsLive, DuplicateSystem.init]
  · simp [WorkerPhase.images, DuplicateSystem.init]
  · simp [DuplicateSystem.init]
  · simp [DuplicateSystem.init]

/-- In a run whose steps keep the pairs, checked images that are close have a pair row and only
images between the two statements of a soft delete have a stale one; none has, if no pair refers to
an image when it is deleted and none is inserted for a deleted one. -/
theorem pairs_complete_of_kept [DecidableEq E] (D : CosineDistance E)
    (events : List (DuplicateEvent E))
    (hkept : Runs.Meets (duplicateStep D) (fun s e => s.KeepsPairs D e) DuplicateSystem.init events) :
    Runs.Throughout (duplicateStep D)
        (fun s => PairsRecorded D s ∧ PairsLive s.images s.pairs s.deleting) DuplicateSystem.init
        events ∧
      (Runs.Meets (duplicateStep D) DuplicateSystem.NeverStale DuplicateSystem.init events →
        Runs.Throughout (duplicateStep D) (PairsComplete D) DuplicateSystem.init events) := by
  have hall := Runs.throughout_of_meets
    (fun _ _ _ h hcond hstep => pairsKept_step h hcond hstep) pairsKept_init hkept
  have hrecorded := Runs.throughout_mono (fun _ h => pairsRecorded_of_kept h) hall
  refine ⟨Runs.throughout_and hrecorded (Runs.throughout_mono (fun _ h => h.live) hall),
    fun hstale => ?_⟩
  refine Runs.throughout_and hrecorded (Runs.throughout_of_meets
    (fun _ _ _ h hcond hstep => pairsLive_step h hcond hstep) ?_ hstale)
  simp [PairsLive, DuplicateSystem.init]

end

/-- Embeddings that are orthogonal unless they are equal. -/
def equalDistance : CosineDistance Nat where
  distance e f := if e = f then 0 else 1
  comm e f := by simp only [eq_comm]

/-- Two uploads of equal images, checked one after the other. -/
def pairedUploads : List (DuplicateEvent Nat) :=
  let unchecked (hash : String) : ImageRow Nat := ⟨1, hash, some 5, false, false, true⟩
  [.upload 1 "0a", .upload 1 "0b", .embed 1 "0a" 5, .embed 1 "0b" 5, .verify 1 "0a" true,
    .verify 1 "0b" true, .fetch [unchecked "0a", unchecked "0b"], .query [unchecked "0b"],
    .insert true, .mark true, .query [{ unchecked "0a" with checked := true }], .insert true,
    .mark true, .finish]

/-- A paired image is deleted, restored and paired again; one that is not yet paired is deleted and
uploaded again. -/
theorem pairs_complete_example :
    Runs.Throughout (duplicateStep equalDistance)
        (fun s => PairsRecorded equalDistance s ∧ PairsLive s.images s.pairs s.deleting)
        DuplicateSystem.init
        (pairedUploads ++ [.delete 1 "0b", .cleanup 0 true, .restore 1 "0b",
          .fetch [⟨1, "0b", some 5, false, false, true⟩],
          .query [⟨1, "0a", some 5, false, true, true⟩], .insert true, .mark true, .finish]) ∧
      Runs.Throughout (duplicateStep equalDistance) (PairsComplete equalDistance)
        DuplicateSystem.init
        ([.upload 1 "0c", .delete 1 "0c", .upload 1 "0c", .cleanup 0 true] ++ pairedUploads) :=
  ⟨(pairs_complete_of_kept equalDistance _ (by decide +kernel)).1,
    (pairs_complete_of_kept equalDistance _ (by decide +kernel)).2 (by decide +kernel)⟩

/-- A deleted image that is uploaded again is still checked, and its pairs are gone. -/
theorem reupload_loses_pair :
    ¬ ∀ (E : Type) [DecidableEq E] (D : CosineDistance E) (events : List (DuplicateEvent E)),
      Runs.Throughout (duplicateStep D) (PairsComplete D) DuplicateSystem.init events := by
  intro h
  let events : List (DuplicateEvent Nat) :=
    pairedUploads ++ [.delete 1 "0b", .cleanup 0 true, .upload 1 "0b"]
  let a : ImageRow Nat := ⟨1, "0a", some 5, false, true, true⟩
  let b : ImageRow Nat := ⟨1, "0b", some 5, false, true, true⟩
  have hexec : (Runs.exec (duplicateStep equalDistance) DuplicateSystem.init events).map
      (fun t => (t.images.rows, t.pairs)) = some ([a, b], []) := by decide +kernel
  obtain ⟨t, ht, htables⟩ := Option.map_eq_some_iff.mp hexec
  have hrows : t.images.rows = [a, b] := congrArg Prod.fst htables
  have hpairs : t.pairs = [] := congrArg Prod.snd htables
  have hclose : Close equalDistance t.images a b := by
    refine ⟨rfl, by decide, rfl, rfl, by decide +kernel, ?_, ?_⟩
    · unfold Near
      rw [hrows]
      decide +kernel
    · unfold Near
      rw [hrows]
      decide +kernel
  have hpair := (Runs.throughout_last (h Nat equalDistance events) ht).1 a (by simp [hrows]) b
    (by simp [hrows]) hclose rfl rfl
  rw [hpairs] at hpair
  obtain ⟨p, hp, -⟩ := hpair
  simp at hp

end Reminisce

import Reminisce.OrientationWriters
import Reminisce.ReferencePrimitives

namespace Reminisce

/-- The thumbnail is one of the image, made with an orientation as its row states it. -/
def MadeWith (codec : ImageCodec) (file : ImageFile) (orientation : Option Int)
    (thumb : Option Thumbnail) : Prop :=
  ∃ data ∈ file.contents, thumb = some (.image data (thumbnailOrientation codec data orientation))

instance {codec : ImageCodec} {file : ImageFile} {orientation : Option Int}
    {thumb : Option Thumbnail} : Decidable (MadeWith codec file orientation thumb) :=
  inferInstanceAs (Decidable (∃ _ ∈ _, _))

namespace OrientationTask

/-- A rotation that wrote the thumbnail and has not stored its row. -/
def Rotates : OrientationTask → Prop
  | .rotated _ _ hasThumbnail => hasThumbnail = true
  | _ => False

/-- An operation that wrote the thumbnail and has not stored its row. -/
def Owes : OrientationTask → Prop
  | .rotated _ _ hasThumbnail => hasThumbnail = true
  | .verified _ found verdict => found = false ∧ verdict = .verified true
  | _ => False

instance : DecidablePred Owes
  | .rotated _ _ hasThumbnail => inferInstanceAs (Decidable (hasThumbnail = true))
  | .verified _ found verdict => inferInstanceAs (Decidable (found = false ∧ verdict = .verified true))
  | .rotating .. | .detecting | .marking | .verifying .. => isFalse id

/-- The orientation that the thumbnail of an operation is made with. -/
def madeFor : OrientationTask → Option Int
  | .rotated _ target _ => some target
  | .verified orientation _ _ => orientation
  | _ => none

end OrientationTask

namespace RotationState

def Applied (s : RotationState) : Prop := s.row.orientation = s.replayed

def ThumbnailCurrent (codec : ImageCodec) (file : ImageFile) (s : RotationState) : Prop :=
  s.row.hasThumbnail = true → MadeWith codec file s.row.orientation s.thumb

/-- Every stored rotation is applied once, and the thumbnail of an image at rest is one of its
orientation. -/
def NeitherLostNorStale (codec : ImageCodec) (file : ImageFile) (s : RotationState) : Prop :=
  s.Applied ∧ (s.Idle → s.ThumbnailCurrent codec file)

instance (s : RotationState) : Decidable s.Applied := inferInstanceAs (Decidable (_ = _))

instance {codec : ImageCodec} {file : ImageFile} {s : RotationState} :
    Decidable (s.ThumbnailCurrent codec file) := inferInstanceAs (Decidable (_ → _))

def NoneOwes (s : RotationState) : Prop := ∀ task ∈ s.tasks, ∀ t ∈ task, ¬t.Owes

instance (s : RotationState) : Decidable s.NoneOwes :=
  inferInstanceAs (Decidable (∀ _ ∈ _, ∀ _ ∈ _, _))

end RotationState

/-- An operation may end here without storing its row. -/
def OrientationTask.MayEnd (s : RotationState) : OrientationTask → Prop
  | .rotated _ target hasThumbnail =>
    hasThumbnail = true → s.row.hasThumbnail = false ∨ s.row.orientation = some target
  | _ => True

/-- No other operation came between the steps of this one: the thumbnail is written while no other
one is unrecorded, and the row is stored over the columns that were read. -/
def OrientationTask.Undisturbed (file : ImageFile) (s : RotationState) (io : OrientationTaskIo) :
    OrientationTask → Prop
  | .rotating _ _ => file.resolve ≠ none → io.thumbWritten = true → s.NoneOwes
  | .rotated request target hasThumbnail =>
    if io.done then newOrientation request s.row.orientation = .ok target
    else (OrientationTask.rotated request target hasThumbnail).MayEnd s
  | .verifying orientation hasThumbnail =>
    hasThumbnail = false → io.done = true → io.thumbWritten = true →
      s.NoneOwes ∧ s.row.orientation = orientation
  | .verified orientation found verdict =>
    io.done = true → verdict = .verified true →
      if found then s.row.hasThumbnail = true else s.row.orientation = orientation
  | .detecting => True
  | .marking => True

def OrientationEvent.Undisturbed (file : ImageFile) (s : RotationState) : OrientationEvent → Prop
  | .advance i io => ∀ task ∈ s.taskOf i, task.Undisturbed file s io
  | .abandon i => ∀ task ∈ s.taskOf i, task.MayEnd s
  | _ => True

instance {s : RotationState} : DecidablePred (OrientationTask.MayEnd s)
  | .rotated _ _ hasThumbnail => inferInstanceAs (Decidable (hasThumbnail = true → _ ∨ _))
  | .rotating .. | .detecting | .marking | .verifying .. | .verified .. => isTrue trivial

instance {file : ImageFile} {s : RotationState} {io : OrientationTaskIo} :
    DecidablePred (OrientationTask.Undisturbed file s io)
  | .rotating _ _ => inferInstanceAs (Decidable (_ → _ → s.NoneOwes))
  | .rotated request target _ =>
    inferInstanceAs (Decidable (if io.done then newOrientation request _ = .ok target else _))
  | .verifying _ hasThumbnail => inferInstanceAs (Decidable (hasThumbnail = false → _ → _ → _ ∧ _))
  | .verified _ found _ => inferInstanceAs (Decidable (_ → _ → if found then _ else _))
  | .detecting | .marking => isTrue trivial

instance {file : ImageFile} {s : RotationState} : DecidablePred (OrientationEvent.Undisturbed file s)
  | .advance i _ => inferInstanceAs (Decidable (∀ _ ∈ s.taskOf i, _))
  | .abandon i => inferInstanceAs (Decidable (∀ _ ∈ s.taskOf i, _))
  | .rotate .. | .detect | .verify => isTrue trivial

/-- What holds between the steps of undisturbed operations. -/
structure RotationInv (codec : ImageCodec) (file : ImageFile) (s : RotationState) : Prop where
  applied : s.Applied
  oneOwes : ∀ i j a b, s.taskOf i = some a → s.taskOf j = some b → a.Owes → b.Owes → i = j
  owed : ∀ i task, s.taskOf i = some task → task.Owes → MadeWith codec file task.madeFor s.thumb
  current : (∀ i, ∀ task ∈ s.taskOf i, ¬task.Rotates) → s.ThumbnailCurrent codec file

variable {P : Primitives} {codec : ImageCodec} {file : ImageFile} {s t : RotationState} {i : Nat}
  {task : OrientationTask} {io : OrientationTaskIo}

theorem ImageFile.resolve_some {data : Bytes} (h : file.resolve = some data) :
    file.contents = some data := by
  unfold ImageFile.resolve at h
  split at h
  next => exact h
  next => simp at h

theorem madeWith_generated {data : Bytes} {orientation : Option Int} {written : Bool}
    {thumb : Thumbnail} (hdata : file.contents = some data)
    (h : generateThumbnailForImage codec data orientation written = some thumb) :
    written = true ∧ MadeWith codec file orientation (some thumb) := by
  unfold generateThumbnailForImage at h
  split at h
  next hmade =>
    cases Option.some.inj h
    exact ⟨hmade.2, data, hdata, rfl⟩
  next => simp at h

/-- The change that a request is stored as leads to the orientation that the request asks for. -/
theorem change_apply {request : UpdateOrientationRequest} {current : Option Int} {target : Int}
    (h : newOrientation request current = .ok target) :
    (request.change target).apply current = target := by
  unfold newOrientation at h
  unfold UpdateOrientationRequest.change UpdateOrientationRequest.rotation
  cases hrotate : request.rotate with
  | none => rfl
  | some word =>
    simp only [hrotate] at h
    rw [Option.bind_some]
    cases hparse : Rotation.parse word with
    | none => rfl
    | some rotation =>
      simp only [hparse] at h
      exact Except.ok.inj h

namespace RotationState

theorem taskOf_set_self {new : Option OrientationTask} (h : s.taskOf i = some task) :
    (((s.tasks.set i new)[i]?).join) = new := by
  unfold taskOf at h
  cases hi : s.tasks[i]? with
  | none => simp [hi] at h
  | some old =>
    have hlt : i < s.tasks.length := (List.getElem?_eq_some_iff.mp hi).1
    simp [hlt]

theorem taskOf_set_ne {new : Option OrientationTask} {j : Nat} (h : j ≠ i) :
    ((s.tasks.set i new)[j]?).join = s.taskOf j := by
  rw [List.getElem?_set_ne (Ne.symm h)]
  rfl

theorem taskOf_finish_self : (s.finish i).taskOf i = none := by
  show ((s.tasks.set i none)[i]?).join = none
  rw [List.getElem?_set]
  split
  next => split <;> rfl
  next h => exact absurd rfl h

theorem taskOf_begin_self : (s.begin task).taskOf s.tasks.length = some task := by
  simp [begin, taskOf]

theorem taskOf_begin_ne {j : Nat} (h : j ≠ s.tasks.length) :
    (s.begin task).taskOf j = s.taskOf j := by
  show ((s.tasks ++ [some task])[j]?).join = (s.tasks[j]?).join
  rcases Nat.lt_or_ge j s.tasks.length with hlt | hge
  · rw [List.getElem?_append_left hlt]
  · have hnew : s.tasks.length < j := by omega
    have hlen : (s.tasks ++ [some task]).length ≤ j := by
      rw [List.length_append, List.length_singleton]
      omega
    rw [List.getElem?_eq_none hge, List.getElem?_eq_none hlen]

theorem noneOwes_taskOf (h : s.NoneOwes) (htask : s.taskOf i = some task) : ¬task.Owes := by
  unfold taskOf at htask
  obtain ⟨entry, hentry, hsome⟩ : ∃ entry, s.tasks[i]? = some entry ∧ entry = some task := by
    cases hi : s.tasks[i]? with
    | none => simp [hi] at htask
    | some entry => exact ⟨entry, rfl, by simpa [hi] using htask⟩
  exact h entry (List.mem_of_getElem? hentry) task hsome

theorem idle_taskOf (h : s.Idle) (i : Nat) : s.taskOf i = none := by
  unfold taskOf
  cases hi : s.tasks[i]? with
  | none => rfl
  | some entry => rw [h entry (List.mem_of_getElem? hi)]; rfl

theorem replayed_store {row : OrientationRow} {change : OrientationChange} :
    (s.store row change).replayed = some (change.apply s.replayed) := by
  unfold replayed store
  rw [List.foldl_append]
  rfl

end RotationState

theorem OrientationTask.Rotates.owes (h : task.Rotates) : task.Owes := by
  cases task with
  | rotated => exact h
  | rotating | detecting | marking | verifying | verified => exact h.elim

/-- A step that writes no thumbnail. -/
theorem RotationInv.quiet (h : RotationInv codec file s)
    (hother : ∀ j, j ≠ i → t.taskOf j = s.taskOf j) (hself : ∀ new ∈ t.taskOf i, ¬new.Owes)
    (hthumb : t.thumb = s.thumb) (happlied : t.Applied)
    (hcurrent : (∀ j, j ≠ i → ∀ old ∈ s.taskOf j, ¬old.Rotates) → t.ThumbnailCurrent codec file) :
    RotationInv codec file t where
  applied := happlied
  oneOwes j k a b hj hk ha hb := by
    have hji : j ≠ i := by rintro rfl; exact hself a hj ha
    have hki : k ≠ i := by rintro rfl; exact hself b hk hb
    exact h.oneOwes j k a b (hother j hji ▸ hj) (hother k hki ▸ hk) ha hb
  owed j owing hj howes := by
    have hji : j ≠ i := by rintro rfl; exact hself owing hj howes
    rw [hthumb]
    exact h.owed j owing (hother j hji ▸ hj) howes
  current hnone := by
    refine hcurrent fun j hji old hold => hnone j old ?_
    rw [hother j hji]
    exact hold

/-- The same, of an operation that is no rotation about to be stored. -/
theorem RotationInv.plain (h : RotationInv codec file s)
    (hother : ∀ j, j ≠ i → t.taskOf j = s.taskOf j) (hself : ∀ new ∈ t.taskOf i, ¬new.Owes)
    (hthumb : t.thumb = s.thumb) (happlied : t.Applied)
    (hplain : ∀ old ∈ s.taskOf i, ¬old.Rotates)
    (hcurrent : s.ThumbnailCurrent codec file → t.ThumbnailCurrent codec file) :
    RotationInv codec file t := by
  refine h.quiet hother hself hthumb happlied fun hnone => hcurrent (h.current fun j => ?_)
  by_cases hji : j = i
  · rw [hji]
    exact hplain
  · exact hnone j hji

/-- A step that writes the thumbnail while no other one is unrecorded. -/
theorem rotationInv_write (hnone : s.NoneOwes)
    (hother : ∀ j, j ≠ i → t.taskOf j = s.taskOf j) (hself : t.taskOf i = some task)
    (hmade : MadeWith codec file task.madeFor t.thumb) (happlied : t.Applied)
    (hcurrent : ¬task.Rotates → t.ThumbnailCurrent codec file) : RotationInv codec file t := by
  have hother_owes : ∀ j owing, j ≠ i → t.taskOf j = some owing → ¬owing.Owes := by
    intro j owing hji hj
    rw [hother j hji] at hj
    exact RotationState.noneOwes_taskOf hnone hj
  refine ⟨happlied, ?_, ?_, fun hrotates => hcurrent (hrotates i task hself)⟩
  · intro j k a b hj hk ha hb
    have hji : j = i := Classical.byContradiction fun hne => hother_owes j a hne hj ha
    have hki : k = i := Classical.byContradiction fun hne => hother_owes k b hne hk hb
    rw [hji, hki]
  · intro j owing hj howes
    have hji : j = i := Classical.byContradiction fun hne => hother_owes j owing hne hj howes
    rw [hji, hself] at hj
    cases Option.some.inj hj
    exact hmade

/-- The steps of an operation that do not reach the row or the thumbnail. -/
theorem RotationInv.goOn (h : RotationInv codec file s) {new : OrientationTask}
    (htask : s.taskOf i = some task) (hplain : ¬task.Rotates) (hnew : ¬new.Owes) :
    RotationInv codec file (s.setTask i new) := by
  refine h.plain (fun j => RotationState.taskOf_set_ne) ?_ rfl h.applied ?_ id
  · intro now hnow
    have hself : (s.setTask i new).taskOf i = some new := RotationState.taskOf_set_self htask
    cases Option.some.inj (hself.symm.trans hnow)
    exact hnew
  · intro old hold
    cases Option.some.inj (htask.symm.trans hold)
    exact hplain

/-- An operation that ends with a statement on the row, or with none. -/
theorem RotationInv.finish (h : RotationInv codec file s) (htask : s.taskOf i = some task)
    (hplain : ¬task.Rotates) {row : OrientationRow} (horient : row.orientation = s.row.orientation)
    (hcurrent : row.hasThumbnail = true → s.row.hasThumbnail = true ∨
      MadeWith codec file s.row.orientation s.thumb) :
    RotationInv codec file ({ s with row }.finish i) := by
  refine h.plain (fun j => RotationState.taskOf_set_ne) ?_ rfl ?_ ?_ ?_
  · intro new hnew
    rw [RotationState.taskOf_finish_self] at hnew
    simp at hnew
  · exact horient.trans h.applied
  · intro old hold
    cases Option.some.inj (htask.symm.trans hold)
    exact hplain
  · intro hold hthumb
    show MadeWith codec file row.orientation s.thumb
    rw [horient]
    rcases hcurrent hthumb with hhas | hmade
    · exact hold hhas
    · exact hmade

theorem RotationInv.begin (h : RotationInv codec file s) (hnew : ¬task.Owes) :
    RotationInv codec file (s.begin task) := by
  refine h.plain (i := s.tasks.length) (fun j => RotationState.taskOf_begin_ne) ?_ rfl h.applied ?_ id
  · intro now hnow
    cases Option.some.inj (RotationState.taskOf_begin_self.symm.trans hnow)
    exact hnew
  · intro old hold
    simp [RotationState.taskOf] at hold

/-- A rotation that ends without storing its row. -/
theorem RotationInv.drop (h : RotationInv codec file s) (htask : s.taskOf i = some task)
    (hend : task.MayEnd s) : RotationInv codec file (s.finish i) := by
  refine h.quiet (fun j => RotationState.taskOf_set_ne) ?_ rfl h.applied fun hnone => ?_
  · intro new hnew
    rw [RotationState.taskOf_finish_self] at hnew
    simp at hnew
  · by_cases hrotates : task.Rotates
    · intro hthumb
      have hmade := h.owed i task htask hrotates.owes
      cases task with
      | rotated request target hasThumbnail =>
        rcases hend hrotates with hgone | horient
        · exact absurd (hgone.symm.trans hthumb) Bool.false_ne_true
        · show MadeWith codec file s.row.orientation s.thumb
          rw [horient]
          exact hmade
      | rotating | detecting | marking | verifying | verified => exact hrotates.elim
    · refine h.current fun j => ?_
      by_cases hji : j = i
      · intro old hold
        rw [hji, htask] at hold
        cases Option.some.inj hold
        exact hrotates
      · exact hnone j hji

theorem rotationInv_thumbnail {request : UpdateOrientationRequest} {target : Int}
    (h : RotationInv codec file s) (htask : s.taskOf i = some (.rotating request target))
    (hcond : (OrientationTask.rotating request target).Undisturbed file s io) :
    RotationInv codec file (rotateThumbnail codec file s i request target io) := by
  unfold rotateThumbnail
  split
  next => exact h.goOn htask id Bool.false_ne_true
  next data hdata =>
    split
    next thumb hthumb =>
      obtain ⟨hwritten, hmade⟩ := madeWith_generated (ImageFile.resolve_some hdata) hthumb
      have hnone : s.NoneOwes := hcond (by simp [hdata]) hwritten
      exact rotationInv_write hnone (fun j => RotationState.taskOf_set_ne)
        (RotationState.taskOf_set_self htask) hmade h.applied fun hrotates => absurd rfl hrotates
    next => exact h.drop htask trivial

theorem rotationInv_rotation {request : UpdateOrientationRequest} {target : Int}
    {hasThumbnail : Bool} (h : RotationInv codec file s)
    (htask : s.taskOf i = some (.rotated request target hasThumbnail))
    (hcond : (OrientationTask.rotated request target hasThumbnail).Undisturbed file s io) :
    RotationInv codec file (finishRotation s i request target hasThumbnail io) := by
  unfold finishRotation
  change if io.done = true then _ else _ at hcond
  split
  next hdone =>
    rw [if_pos hdone] at hcond
    refine h.quiet (fun j => RotationState.taskOf_set_ne) ?_ rfl ?_ fun _ hthumb => ?_
    · intro new hnew
      rw [RotationState.taskOf_finish_self] at hnew
      simp at hnew
    · show some target =
        (s.store (s.row.storeRotation target hasThumbnail) (request.change target)).replayed
      rw [RotationState.replayed_store, ← h.applied, change_apply hcond]
    · exact h.owed i _ htask hthumb
  next hdone =>
    rw [if_neg hdone] at hcond
    exact h.drop htask hcond

theorem RotationInv.failDetection {err : String} (h : RotationInv codec file s)
    (htask : s.taskOf i = some task) (hplain : ¬task.Rotates) :
    RotationInv codec file (failDetection s i err io) := by
  refine h.finish htask hplain (by simp) fun hthumb => Or.inl ?_
  simpa using hthumb

theorem rotationInv_detection (h : RotationInv codec file s)
    (htask : s.taskOf i = some .detecting) :
    RotationInv codec file (processOrientationDetection s i io) := by
  unfold processOrientationDetection
  split
  next => exact h.failDetection htask id
  next detection _ =>
    split
    next o _ =>
      split
      next =>
        split
        next row hrow =>
          obtain ⟨_, _, horient, hgone⟩ := OrientationRow.storeDetected_some hrow
          refine h.quiet (fun j => RotationState.taskOf_set_ne) ?_ rfl ?_ fun _ hthumb => ?_
          · intro new hnew
            rw [RotationState.taskOf_finish_self] at hnew
            simp at hnew
          · show row.orientation = (s.store row (.replaced o)).replayed
            rw [RotationState.replayed_store, horient]
            rfl
          · exact absurd (hgone.symm.trans hthumb) Bool.false_ne_true
        next => exact h.goOn htask id id
      next => exact h.failDetection htask id
    next =>
      split
      next => exact h.finish htask id rfl Or.inl
      next => exact h.failDetection htask id

theorem rotationInv_marking (h : RotationInv codec file s) (htask : s.taskOf i = some .marking) :
    RotationInv codec file (finishDetection s i io) := by
  unfold finishDetection
  split
  next =>
    refine h.finish htask id (by simp) fun hthumb => Or.inl ?_
    simpa using hthumb
  next => exact h.failDetection htask id

theorem rotationInv_verifying {orientation : Option Int} {hasThumbnail : Bool}
    (h : RotationInv codec file s) (htask : s.taskOf i = some (.verifying orientation hasThumbnail))
    (hcond : (OrientationTask.verifying orientation hasThumbnail).Undisturbed file s io) :
    RotationInv codec file (verifyImage P codec file s i orientation hasThumbnail io) := by
  unfold verifyImage
  split
  next => exact h.goOn htask id (by simp [OrientationTask.Owes])
  next data hdata =>
    split
    next hread =>
      split
      next => exact h.goOn htask id (by simp [OrientationTask.Owes])
      next hmissing =>
        split
        next thumb hthumb =>
          obtain ⟨hwritten, hmade⟩ := madeWith_generated hdata hthumb
          obtain ⟨hnone, horient⟩ := hcond (Bool.eq_false_iff.mpr hmissing) hread.1 hwritten
          refine rotationInv_write hnone (fun j => RotationState.taskOf_set_ne)
            (RotationState.taskOf_set_self htask) hmade h.applied fun _ _ => ?_
          show MadeWith codec file s.row.orientation (some thumb)
          rw [horient]
          exact hmade
        next => exact h.goOn htask id (by simp [OrientationTask.Owes])
    next => exact h.goOn htask id (by simp [OrientationTask.Owes])

theorem rotationInv_verified {orientation : Option Int} {found : Bool} {verdict : VerifyVerdict}
    (h : RotationInv codec file s) (htask : s.taskOf i = some (.verified orientation found verdict))
    (hcond : (OrientationTask.verified orientation found verdict).Undisturbed file s io) :
    RotationInv codec file (recordVerification s i verdict io) := by
  unfold recordVerification
  split
  next hasThumbnail =>
    split
    next hdone =>
      refine h.finish htask id rfl fun hthumb => ?_
      change hasThumbnail = true at hthumb
      subst hthumb
      have hsame := hcond hdone rfl
      split at hsame
      next => exact Or.inl hsame
      next hmissing =>
        rw [hsame]
        exact Or.inr (h.owed i _ htask ⟨Bool.eq_false_iff.mpr hmissing, rfl⟩)
    next => exact h.drop htask trivial
  next => exact h.drop htask trivial

/-- Every undisturbed step keeps the invariant. -/
theorem rotationInv_step {e : OrientationEvent} (h : RotationInv codec file s)
    (hcond : e.Undisturbed file s) (hstep : orientationStep P codec file s e = some t) :
    RotationInv codec file t := by
  cases e with
  | rotate request queried =>
    simp only [orientationStep] at hstep
    split at hstep
    next =>
      split at hstep
      next =>
        cases Option.some.inj hstep
        exact h.begin id
      next =>
        cases Option.some.inj hstep
        exact h
    next =>
      cases Option.some.inj hstep
      exact h
  | detect =>
    simp only [orientationStep] at hstep
    split at hstep
    next =>
      cases Option.some.inj hstep
      exact h.begin id
    next => simp at hstep
  | verify =>
    cases Option.some.inj hstep
    exact h.begin id
  | advance i io =>
    obtain ⟨task, htask, rfl⟩ := Option.map_eq_some_iff.mp hstep
    have htaskCond := hcond task htask
    cases task with
    | rotating request target => exact rotationInv_thumbnail h htask htaskCond
    | rotated request target hasThumbnail => exact rotationInv_rotation h htask htaskCond
    | detecting => exact rotationInv_detection h htask
    | marking => exact rotationInv_marking h htask
    | verifying orientation hasThumbnail => exact rotationInv_verifying h htask htaskCond
    | verified orientation found verdict => exact rotationInv_verified h htask htaskCond
  | abandon i =>
    obtain ⟨task, htask, rfl⟩ := Option.map_eq_some_iff.mp hstep
    exact h.drop htask (hcond task htask)

theorem rotationInv_start (orientation : Option Int) (thumb : Option Thumbnail) :
    RotationInv codec file (RotationState.start orientation thumb) where
  applied := rfl
  oneOwes i j a b ha hb _ _ := by simp [RotationState.start, RotationState.taskOf] at ha
  owed i task htask _ := by simp [RotationState.start, RotationState.taskOf] at htask
  current _ hthumb := absurd hthumb Bool.false_ne_true

theorem RotationInv.safe (h : RotationInv codec file s) : s.NeitherLostNorStale codec file := by
  refine ⟨h.applied, fun hidle => h.current fun i task htask => ?_⟩
  rw [RotationState.idle_taskOf hidle i] at htask
  simp at htask

/-- Rotations that no other writer disturbs are neither lost nor stale. -/
theorem rotations_safe_of_undisturbed (P : Primitives) (codec : ImageCodec) (file : ImageFile)
    (orientation : Option Int) (thumb : Option Thumbnail) (events : List OrientationEvent)
    (h : Runs.Meets (orientationStep P codec file) (fun s e => e.Undisturbed file s)
      (RotationState.start orientation thumb) events) :
    Runs.Throughout (orientationStep P codec file) (·.NeitherLostNorStale codec file)
      (RotationState.start orientation thumb) events := by
  have hinv : Runs.Throughout (orientationStep P codec file) (RotationInv codec file)
      (RotationState.start orientation thumb) events :=
    Runs.throughout_of_meets (fun _ _ _ hs hc hstep => rotationInv_step hs hc hstep)
      (rotationInv_start orientation thumb) h
  exact Runs.throughout_mono (fun s => RotationInv.safe) hinv

/-- The image of the examples. -/
def turnedFile : ImageFile :=
  { hash := String.ofList (toHex (referenceHash [1])), ext := "jpg", contents := some [1] }

/-- A step of which everything succeeds. -/
def OrientationTaskIo.smooth (detection : DetectedOrientation) : OrientationTaskIo :=
  { done := true, error := "", thumbWritten := true, detection := .ok detection, marked := true
    now := 1 }

def turnRequest (word : String) : UpdateOrientationRequest := { orientation := none, rotate := word }

def turnStep (i : Nat) : OrientationEvent := .advance i (.smooth ⟨6, 1⟩)

theorem rotations_safe_one_by_one :
    Runs.Throughout (orientationStep referencePrimitives plainCodec turnedFile)
      (·.NeitherLostNorStale plainCodec turnedFile) (RotationState.start none none)
      [.verify, turnStep 0, turnStep 0, .detect, turnStep 1, .verify, .rotate (turnRequest "cw") true,
        turnStep 2, turnStep 2, turnStep 3, turnStep 3, .rotate (turnRequest "180") true,
        turnStep 4, turnStep 4] :=
  rotations_safe_of_undisturbed _ _ _ _ _ _ (by decide +kernel)

/-- Two turns to the right of one upright image, of which the second reads before the first has
stored its row. -/
def lostTurn : List OrientationEvent :=
  [.rotate (turnRequest "cw") true, .rotate (turnRequest "cw") true, turnStep 0, turnStep 0,
    turnStep 1, turnStep 1]

/-- A turn to the left that writes the thumbnail between the two writes of a turn to the right. -/
def staleTurn : List OrientationEvent :=
  [.rotate (turnRequest "cw") true, .rotate (turnRequest "ccw") true, turnStep 0, turnStep 1,
    turnStep 1, turnStep 0]

/-- Both turns are acknowledged and one is lost; and the thumbnail is of another orientation than
the row. -/
theorem concurrent_turns_lost_and_stale :
    (¬Runs.Throughout (orientationStep referencePrimitives plainCodec turnedFile)
        RotationState.Applied (RotationState.start (some 1) none) lostTurn) ∧
      ¬Runs.Throughout (orientationStep referencePrimitives plainCodec turnedFile)
        (fun s => s.Idle → s.ThumbnailCurrent plainCodec turnedFile)
        (RotationState.start (some 1) none) staleTurn := by
  constructor
  · exact Runs.not_throughout_of_last (by decide +kernel)
  · exact Runs.not_throughout_of_last (by decide +kernel)

end Reminisce

import Reminisce.RotationSafety
import Reminisce.FaceThumbnails
import Reminisce.OrientationWriters

namespace Reminisce

/-- The task of one cycle of the AI worker for an image: the orientation detection it started, the
orientation that was read with the query for faces, and the boxes still to be stored. -/
structure AiTask where
  processFaces : Bool
  processOrientation : Option Nat
  orientation : Option Int
  running : Bool
  detected : Option (List FaceBox)
  deriving DecidableEq, Repr

/-- One image with its writers, its faces, and the task under way. -/
structure FaceState where
  image : RotationState
  faceDetectionCompletedAt : Option Time
  task : Option AiTask
  faces : List Face
  deriving DecidableEq, Repr

/-- What face detection meets: its answer and the size of the oriented image, or its error, and the
statement after a failure. -/
structure FaceDetectionIo where
  detection : Except String (List FaceBox)
  origW : Nat
  origH : Nat
  marked : Bool
  now : Time

inductive FaceEvent
  | image (e : OrientationEvent)
  | ingest (stored : Bool)
  | selectOther
  | selectFaces
  | selectOrientation
  | run
  | detectFaces (io : FaceDetectionIo)
  | storeFace (stored : Except String Unit) (marked : Bool) (now : Time)
  | completeFaces (stored : Bool) (now : Time)
  | endTask

def ImageFile.isSvg (file : ImageFile) : Bool := toLowercase file.ext.toList = "svg"

def faceDetMaxDim : Nat := 2000

namespace FaceState

def row (s : FaceState) : OrientationRow := s.image.row

def start (orientation : Option Int) (thumb : Option Thumbnail) : FaceState :=
  { image := .start orientation thumb, faceDetectionCompletedAt := none, task := none, faces := [] }

/-- The queries of a cycle come before its tasks. -/
def Selecting (s : FaceState) : Prop := ∀ task ∈ s.task, task.running = false

instance (s : FaceState) : Decidable s.Selecting := inferInstanceAs (Decidable (∀ _ ∈ _, _))

/-- `and_modify` or `or_insert` of the tasks that the queries fill. -/
def addTask (s : FaceState) (modify : AiTask → AiTask) (insert : AiTask) : FaceState :=
  { s with task := some (match s.task with
      | some task => modify task
      | none => insert) }

/-- The task that finds faces, once its orientation detection is over. -/
def faceTask (s : FaceState) : Option AiTask :=
  s.task.filter fun task => task.running && task.processFaces &&
    task.processOrientation.all fun n => (s.image.taskOf n).isNone

/-- Face detection fails, and is not tried again if the failure is permanent. -/
def failFaces (s : FaceState) (task : AiTask) (err : String) (marked : Bool) (now : Time) :
    FaceState :=
  { s with
    task := some { task with processFaces := false, detected := none }
    faceDetectionCompletedAt :=
      if isPermanentFailure err ∧ marked then some now else s.faceDetectionCompletedAt }

end FaceState

section Step

variable (P : Primitives) (codec : ImageCodec) (scaleCoord : Nat → Int → Int) (file : ImageFile)

/-- `UPDATE images SET orientation = $1 WHERE orientation IS NULL`, of the EXIF value. -/
def ingestOrientation (image : RotationState) (stored : Bool) : RotationState :=
  match file.contents.bind codec.exifOrientation with
  | some o =>
    if stored ∧ image.row.orientation = none then
      image.store { image.row with orientation := some (Int.bmod o (2 ^ 16)) }
        (.replaced (Int.bmod o (2 ^ 16)))
    else image
  | none => image

def selectOther (s : FaceState) : FaceState :=
  s.addTask id
    { processFaces := false, processOrientation := none, orientation := none, running := false
      detected := none }

def selectFaces (s : FaceState) : FaceState :=
  s.addTask (fun task => { task with processFaces := true, orientation := s.row.orientation })
    { processFaces := true, processOrientation := none, orientation := s.row.orientation
      running := false, detected := none }

def selectOrientation (s : FaceState) : FaceState :=
  let started := { s with image := s.image.begin .detecting }
  let number := some s.image.tasks.length
  match s.task with
  | some _ =>
    if s.row.orientation = none then
      started.addTask (fun task => { task with processOrientation := number })
        { processFaces := false, processOrientation := number, orientation := s.row.orientation
          running := false, detected := none }
    else s
  | none =>
    started.addTask id
      { processFaces := false, processOrientation := number, orientation := s.row.orientation
        running := false, detected := none }

def processFaceDetection (s : FaceState) (task : AiTask) (io : FaceDetectionIo) : FaceState :=
  match io.detection with
  | .error err => s.failFaces task err io.marked io.now
  | .ok faces =>
    { s with task := some { task with
        detected := some (scaleBboxesToOriginal scaleCoord faces io.origW io.origH faceDetMaxDim) } }

/-- One `INSERT INTO faces`. -/
def storeFace (s : FaceState) (task : AiTask) (b : FaceBox) (rest : List FaceBox)
    (stored : Except String Unit) (marked : Bool) (now : Time) : FaceState :=
  match stored with
  | .error err => s.failFaces task ("Failed to store face: " ++ err) marked now
  | .ok _ =>
    { s with
      task := some { task with detected := some rest }
      faces := s.faces ++ [{ bbox := b, frame := detectionOrientation task.orientation }] }

def completeFaces (s : FaceState) (task : AiTask) (stored : Bool) (now : Time) : FaceState :=
  { s with
    task := some { task with processFaces := false, detected := none }
    faceDetectionCompletedAt := if stored then some now else s.faceDetectionCompletedAt }

def faceStep (s : FaceState) : FaceEvent → Option FaceState
  | .image e => (orientationStep P codec file s.image e).map fun image => { s with image }
  | .ingest stored => some { s with image := ingestOrientation codec file s.image stored }
  | .selectOther => if s.Selecting then some (selectOther s) else none
  | .selectFaces =>
    if s.Selecting ∧ s.faceDetectionCompletedAt = none ∧ file.isSvg = false then
      some (selectFaces s)
    else none
  | .selectOrientation =>
    if s.Selecting ∧ s.row.awaitsDetection ∧ file.isSvg = false then some (selectOrientation s)
    else none
  | .run => s.task.map fun task => { s with task := some { task with running := true } }
  | .detectFaces io =>
    match s.faceTask with
    | some task =>
      match task.detected with
      | none => some (processFaceDetection scaleCoord s task io)
      | some _ => none
    | none => none
  | .storeFace stored marked now =>
    match s.faceTask with
    | some task =>
      match task.detected with
      | some (b :: rest) => some (storeFace s task b rest stored marked now)
      | _ => none
    | none => none
  | .completeFaces stored now =>
    match s.faceTask with
    | some task =>
      match task.detected with
      | some [] => some (completeFaces s task stored now)
      | _ => none
    | none => none
  | .endTask => some { s with task := none }

end Step

/-- Every stored box lies in the image as `get_face_thumbnail` turns it. -/
def FacesInFrame (codec : ImageCodec) (file : ImageFile) (s : FaceState) : Prop :=
  ∀ data ∈ file.contents, ∀ face ∈ s.faces,
    imageTurn face.frame = imageTurn (cropOrientation codec data s.row.orientation)

instance {codec : ImageCodec} {file : ImageFile} {s : FaceState} :
    Decidable (FacesInFrame codec file s) := inferInstanceAs (Decidable (∀ _ ∈ _, ∀ _ ∈ _, _))

/-- Cropped for its thumbnail, each face shows the part of the image that it was found in, whatever
the image library. -/
def CropsShowFaces (codec : ImageCodec) (file : ImageFile) (s : FaceState) : Prop :=
  ∀ data ∈ file.contents, ∀ face ∈ s.faces, ∀ (Img : Type) (ops : ImageOps Img) (img : Img),
    faceThumbnail ops codec data img s.row.orientation face.bbox =
      cropFace ops (applyOrientationToImage ops img face.frame) face.bbox

/-- The orientation that a step of the image's writers stores. -/
def storesOrientation (image : RotationState) : OrientationEvent → Option Int
  | .advance i io =>
    match image.taskOf i with
    | some (.rotated _ target _) => if io.done then some target else none
    | some .detecting =>
      match io.detection with
      | .ok detection =>
        if io.done ∧ image.row.orientation = none ∧ image.row.hasThumbnail = true then
          detection.trusted
        else none
      | .error _ => none
    | _ => none
  | _ => none

/-- Faces are stored in the orientation that the image is displayed in, and none are stored when
that orientation changes. -/
def KeepsFrame (codec : ImageCodec) (file : ImageFile) (s : FaceState) : FaceEvent → Prop
  | .image e =>
    ∀ o ∈ storesOrientation s.image e, s.faces ≠ [] → ∀ data ∈ file.contents,
      imageTurn (asU16 o) = imageTurn (cropOrientation codec data s.row.orientation)
  | .storeFace stored _ _ =>
    stored.toBool = true → ∀ task ∈ s.faceTask, task.detected.getD [] ≠ [] →
      ∀ data ∈ file.contents, imageTurn (detectionOrientation task.orientation) =
        imageTurn (cropOrientation codec data s.row.orientation)
  | _ => True

instance {codec : ImageCodec} {file : ImageFile} {s : FaceState} :
    DecidablePred (KeepsFrame codec file s)
  | .image e => inferInstanceAs (Decidable (∀ _ ∈ storesOrientation _ e, _ → ∀ _ ∈ _, _))
  | .storeFace _ _ _ => inferInstanceAs (Decidable (_ → ∀ _ ∈ s.faceTask, _ → ∀ _ ∈ _, _))
  | .ingest _ | .selectOther | .selectFaces | .selectOrientation | .run | .detectFaces _
  | .completeFaces _ _ | .endTask => isTrue trivial

variable {P : Primitives} {codec : ImageCodec} {scaleCoord : Nat → Int → Int} {file : ImageFile}
  {s t : FaceState}

theorem processOrientationDetection_orientation {image : RotationState} {i : Nat}
    {io : OrientationTaskIo} (htask : image.taskOf i = some .detecting) :
    (processOrientationDetection image i io).row.orientation =
      (storesOrientation image (.advance i io) <|> image.row.orientation) := by
  unfold processOrientationDetection storesOrientation
  simp only [htask]
  cases hdetection : io.detection with
  | error err => simp [failDetection, RotationState.finish]
  | ok detection =>
    simp only
    cases htrusted : detection.trusted with
    | none =>
      by_cases hdone : io.done = true <;> simp [hdone, failDetection, RotationState.finish]
    | some o =>
      by_cases hdone : io.done = true
      · by_cases hrow : image.row.orientation = none ∧ image.row.hasThumbnail = true
        · simp [hdone, hrow, OrientationRow.storeDetected, RotationState.finish, RotationState.store]
        · simp [hdone, hrow, OrientationRow.storeDetected, RotationState.setTask]
      · simp [hdone, failDetection, RotationState.finish]

/-- A step of the image's writers leaves the orientation, or stores the one that it is said to. -/
theorem orientationStep_orientation {image next : RotationState} {e : OrientationEvent}
    (h : orientationStep P codec file image e = some next) :
    next.row.orientation = (storesOrientation image e <|> image.row.orientation) := by
  cases e with
  | rotate request queried =>
    simp only [orientationStep] at h
    split at h
    next => split at h <;> cases Option.some.inj h <;> rfl
    next => cases Option.some.inj h; rfl
  | detect =>
    simp only [orientationStep] at h
    split at h
    next => cases Option.some.inj h; rfl
    next => simp at h
  | verify => cases Option.some.inj h; rfl
  | abandon i =>
    obtain ⟨task, _, rfl⟩ := Option.map_eq_some_iff.mp h
    rfl
  | advance i io =>
    obtain ⟨task, htask, rfl⟩ := Option.map_eq_some_iff.mp h
    cases task with
    | detecting => exact processOrientationDetection_orientation htask
    | rotated request target hasThumbnail =>
      simp only [storesOrientation, htask]
      show (finishRotation image i request target hasThumbnail io).row.orientation = _
      unfold finishRotation
      split <;> rfl
    | rotating request target =>
      simp only [storesOrientation, htask]
      show (rotateThumbnail codec file image i request target io).row.orientation = _
      unfold rotateThumbnail
      split
      next => rfl
      next => split <;> rfl
    | marking =>
      simp only [storesOrientation, htask]
      show (finishDetection image i io).row.orientation = _
      unfold finishDetection
      split <;> simp [failDetection, RotationState.finish]
    | verifying orientation hasThumbnail =>
      simp only [storesOrientation, htask]
      show (verifyImage P codec file image i orientation hasThumbnail io).row.orientation = _
      unfold verifyImage
      split
      next => rfl
      next =>
        split
        next =>
          split
          next => rfl
          next => split <;> rfl
        next => rfl
    | verified orientation found verdict =>
      simp only [storesOrientation, htask]
      show (recordVerification image i verdict io).row.orientation = _
      unfold recordVerification
      split
      next => split <;> rfl
      next => rfl

/-- The faces are in frame after a change of the orientation exactly if there are none, or the new
orientation turns the image as the old one did. -/
theorem facesInFrame_reoriented (h : FacesInFrame codec file s) {image : RotationState} {o : Int}
    (ho : image.row.orientation = some o) :
    FacesInFrame codec file { s with image } ↔ (s.faces ≠ [] → ∀ data ∈ file.contents,
      imageTurn (asU16 o) = imageTurn (cropOrientation codec data s.row.orientation)) := by
  have hcrop : ∀ data, cropOrientation codec data image.row.orientation = asU16 o := fun data => by
    rw [ho, cropOrientation_some]
  constructor
  · intro hafter hfaces data hdata
    obtain ⟨face, hface⟩ := List.exists_mem_of_ne_nil _ hfaces
    have hnow := hafter data hdata face hface
    rw [show ({ s with image } : FaceState).row = image.row from rfl, hcrop] at hnow
    exact hnow.symm.trans (h data hdata face hface)
  · intro hsame data hdata face hface
    rw [show ({ s with image } : FaceState).row = image.row from rfl, hcrop]
    have hne : s.faces ≠ [] := List.ne_nil_of_mem hface
    exact (h data hdata face hface).trans (hsame hne data hdata).symm

/-- What an ingest stores is what the image was displayed with. -/
theorem ingestOrientation_crop {image : RotationState} {stored : Bool} {data : Bytes}
    (hexif : ∀ data o, codec.exifOrientation data = some o → o < 2 ^ 16)
    (hdata : file.contents = some data) :
    cropOrientation codec data (ingestOrientation codec file image stored).row.orientation =
      cropOrientation codec data image.row.orientation := by
  unfold ingestOrientation
  rw [hdata, Option.bind_some]
  split
  next o ho =>
    split
    next hnone =>
      show cropOrientation codec data (some _) = _
      rw [cropOrientation_some, asU16_bmod (hexif data o ho), hnone.2]
      simp [cropOrientation, ho]
    next => rfl
  next => rfl

/-- A step that leaves the faces and the displayed orientation. -/
theorem facesInFrame_congr (hfaces : t.faces = s.faces)
    (hcrop : ∀ data ∈ file.contents, cropOrientation codec data t.row.orientation =
      cropOrientation codec data s.row.orientation) :
    FacesInFrame codec file t ↔ FacesInFrame codec file s := by
  unfold FacesInFrame
  rw [hfaces]
  refine forall₂_congr fun data hdata => ?_
  rw [hcrop data hdata]

theorem storeFace_frames {task : AiTask} {b : FaceBox} {rest : List FaceBox}
    {stored : Except String Unit} {marked : Bool} {now : Time} (h : FacesInFrame codec file s) :
    FacesInFrame codec file (storeFace s task b rest stored marked now) ↔
      (stored.toBool = true → ∀ data ∈ file.contents, imageTurn (detectionOrientation task.orientation) =
        imageTurn (cropOrientation codec data s.row.orientation)) := by
  cases stored with
  | error err =>
    refine iff_of_true ?_ fun hok => absurd hok Bool.false_ne_true
    exact (facesInFrame_congr rfl fun _ _ => rfl).mpr h
  | ok =>
    constructor
    · intro hafter _ data hdata
      exact hafter data hdata _ (List.mem_append_right _ (List.mem_singleton_self _))
    · intro hsame data hdata face hface
      rcases List.mem_append.mp hface with hold | hnew
      · exact h data hdata face hold
      · rw [List.mem_singleton.mp hnew]
        exact hsame rfl data hdata

/-- A step keeps the faces in frame exactly if it meets the condition. -/
theorem faceStep_frames (hexif : ∀ data o, codec.exifOrientation data = some o → o < 2 ^ 16)
    (h : FacesInFrame codec file s) (e : FaceEvent) :
    (∀ t, faceStep P codec scaleCoord file s e = some t → FacesInFrame codec file t) ↔
      KeepsFrame codec file s e := by
  have hkept : ∀ {t : FaceState}, t.faces = s.faces → t.row.orientation = s.row.orientation →
      FacesInFrame codec file t := by
    intro t hfaces hrow
    exact (facesInFrame_congr hfaces fun _ _ => by rw [hrow]).mpr h
  cases e with
  | image e =>
    constructor
    · intro hstep o ho
      obtain ⟨next, hnext⟩ : ∃ next, orientationStep P codec file s.image e = some next := by
        cases e with
        | advance i io =>
          cases htask : s.image.taskOf i with
          | none => simp [storesOrientation, htask] at ho
          | some task => exact ⟨advanceTask P codec file s.image i io task, by simp [orientationStep, htask]⟩
        | rotate | detect | verify | abandon => simp [storesOrientation] at ho
      have hrow : next.row.orientation = some o := by
        rw [orientationStep_orientation hnext, ho]
        rfl
      exact (facesInFrame_reoriented h hrow).mp (hstep _ (by simp [faceStep, hnext]))
    · intro hcond t hstep
      obtain ⟨next, hnext, rfl⟩ := Option.map_eq_some_iff.mp hstep
      have hrow := orientationStep_orientation hnext
      cases ho : storesOrientation s.image e with
      | none =>
        rw [ho] at hrow
        exact hkept rfl hrow
      | some o =>
        rw [ho] at hrow
        exact (facesInFrame_reoriented h hrow).mpr (hcond o ho)
  | storeFace stored marked now =>
    constructor
    · intro hstep hok task htask hdetected
      cases hboxes : task.detected with
      | none => simp [hboxes] at hdetected
      | some boxes =>
        cases boxes with
        | nil => simp [hboxes] at hdetected
        | cons b rest =>
          have hafter := hstep (storeFace s task b rest stored marked now)
            (by simp [faceStep, Option.mem_def.mp htask, hboxes])
          exact (storeFace_frames h).mp hafter hok
    · intro hcond t hstep
      simp only [faceStep] at hstep
      split at hstep
      next task htask =>
        split at hstep
        next b rest hboxes =>
          cases Option.some.inj hstep
          refine (storeFace_frames h).mpr fun hok => hcond hok task htask ?_
          simp [hboxes]
        next => simp at hstep
      next => simp at hstep
  | ingest stored =>
    refine iff_of_true (fun t hstep => ?_) trivial
    cases Option.some.inj hstep
    have hcongr : FacesInFrame codec file
        { s with image := ingestOrientation codec file s.image stored } ↔ FacesInFrame codec file s :=
      facesInFrame_congr rfl fun data hdata => ingestOrientation_crop hexif hdata
    exact hcongr.mpr h
  | selectOther =>
    refine iff_of_true (fun t hstep => ?_) trivial
    simp only [faceStep] at hstep
    split at hstep
    next => cases Option.some.inj hstep; exact hkept rfl rfl
    next => simp at hstep
  | selectFaces =>
    refine iff_of_true (fun t hstep => ?_) trivial
    simp only [faceStep] at hstep
    split at hstep
    next => cases Option.some.inj hstep; exact hkept rfl rfl
    next => simp at hstep
  | selectOrientation =>
    refine iff_of_true (fun t hstep => ?_) trivial
    simp only [faceStep] at hstep
    split at hstep
    next =>
      cases Option.some.inj hstep
      unfold selectOrientation
      split
      next =>
        split
        next => exact hkept rfl rfl
        next => exact h
      next => exact hkept rfl rfl
    next => simp at hstep
  | run =>
    refine iff_of_true (fun t hstep => ?_) trivial
    obtain ⟨task, _, rfl⟩ := Option.map_eq_some_iff.mp hstep
    exact hkept rfl rfl
  | detectFaces io =>
    refine iff_of_true (fun t hstep => ?_) trivial
    simp only [faceStep] at hstep
    split at hstep
    next =>
      split at hstep
      next =>
        cases Option.some.inj hstep
        unfold processFaceDetection
        split <;> exact hkept rfl rfl
      next => simp at hstep
    next => simp at hstep
  | completeFaces stored now =>
    refine iff_of_true (fun t hstep => ?_) trivial
    simp only [faceStep] at hstep
    split at hstep
    next =>
      split at hstep
      next => cases Option.some.inj hstep; exact hkept rfl rfl
      next => simp at hstep
    next => simp at hstep
  | endTask =>
    refine iff_of_true (fun t hstep => ?_) trivial
    cases Option.some.inj hstep
    exact hkept rfl rfl

theorem FacesInFrame.crops (h : FacesInFrame codec file s) : CropsShowFaces codec file s :=
  fun data hdata face hface _ _ _ => faceThumbnail_of_frame (h data hdata face hface)

/-- The steps of one cycle for an image that is due for orientation and faces. -/
def aiCycle (o : Int) : List FaceEvent :=
  [.image .verify, .image (turnStep 0), .image (turnStep 0), .selectFaces, .selectOrientation, .run,
    .image (.advance 1 (.smooth ⟨o, 1⟩)),
    .detectFaces { detection := .ok [⟨1, 0, 2, 2⟩], origW := 4, origH := 3, marked := true, now := 1 },
    .storeFace (.ok ()) true 1, .completeFaces true 1, .endTask]

/-- A cycle that finds a face, and what does not turn the image afterwards. -/
def uprightRun : List FaceEvent :=
  aiCycle 1 ++ [.ingest true, .image (.rotate ⟨some 1, none⟩ true), .image (turnStep 2),
    .image (turnStep 2)]

end Reminisce

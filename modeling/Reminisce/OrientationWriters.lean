import Reminisce.Library.Runs
import Reminisce.OrientationDetection
import Reminisce.Verification

namespace Reminisce

/-- The file of one image, which its writers only read. -/
structure ImageFile where
  hash : String
  ext : String
  contents : Option Bytes
  deriving DecidableEq, Repr

/-- `safe_resolve_content_path` of the image, and the file it leads to. -/
def ImageFile.resolve (file : ImageFile) : Option Bytes :=
  if isValidContentHash file.hash ∧ isValidMediaExt file.ext then file.contents else none

/-- The rotation that a request names, if it names one. -/
def UpdateOrientationRequest.rotation (request : UpdateOrientationRequest) : Option Rotation :=
  request.rotate.bind Rotation.parse

/-- A stored change of the orientation: a relative rotation, or a value set by a request or by the
classifier. -/
inductive OrientationChange
  | rotated (rotation : Rotation)
  | replaced (orientation : Int)
  deriving DecidableEq, Repr

def OrientationChange.apply (change : OrientationChange) (current : Option Int) : Int :=
  match change with
  | .rotated rotation => rotation.apply current
  | .replaced o => o

def UpdateOrientationRequest.change (request : UpdateOrientationRequest) (target : Int) :
    OrientationChange :=
  match request.rotation with
  | some rotation => .rotated rotation
  | none => .replaced target

/-- An operation under way, between two of its steps, with the values it holds. -/
inductive OrientationTask
  | rotating (request : UpdateOrientationRequest) (target : Int)
  | rotated (request : UpdateOrientationRequest) (target : Int) (hasThumbnail : Bool)
  | detecting
  | marking
  | verifying (orientation : Option Int) (hasThumbnail : Bool)
  | verified (orientation : Option Int) (found : Bool) (verdict : VerifyVerdict)
  deriving DecidableEq, Repr

/-- The row and the thumbnail file of one image, the operations in progress under their numbers, and
the changes that were stored so far, from the orientation `initial` on. -/
structure RotationState where
  row : OrientationRow
  thumb : Option Thumbnail
  tasks : List (Option OrientationTask)
  initial : Option Int
  changes : List OrientationChange
  deriving DecidableEq, Repr

/-- What the next step of an operation meets: its statement or the reading of its file, the text of
the database's error, the thumbnail's file, the classifier's answer, and the statement after a
failed detection. -/
structure OrientationTaskIo where
  done : Bool
  error : String
  thumbWritten : Bool
  detection : Except String DetectedOrientation
  marked : Bool
  now : Time

inductive OrientationEvent
  | rotate (request : UpdateOrientationRequest) (queried : Bool)
  | detect
  | verify
  | advance (task : Nat) (io : OrientationTaskIo)
  | abandon (task : Nat)

namespace RotationState

def taskOf (s : RotationState) (i : Nat) : Option OrientationTask := (s.tasks[i]?).join

def begin (s : RotationState) (task : OrientationTask) : RotationState :=
  { s with tasks := s.tasks ++ [some task] }

def setTask (s : RotationState) (i : Nat) (task : OrientationTask) : RotationState :=
  { s with tasks := s.tasks.set i (some task) }

def finish (s : RotationState) (i : Nat) : RotationState :=
  { s with tasks := s.tasks.set i none }

/-- A statement that changes the orientation, and the change it makes. -/
def store (s : RotationState) (row : OrientationRow) (change : OrientationChange) :
    RotationState :=
  { s with row, changes := s.changes ++ [change] }

/-- The orientation that the stored changes lead to. -/
def replayed (s : RotationState) : Option Int :=
  s.changes.foldl (fun current change => some (change.apply current)) s.initial

def Idle (s : RotationState) : Prop := ∀ task ∈ s.tasks, task = none

instance (s : RotationState) : Decidable s.Idle := inferInstanceAs (Decidable (∀ _ ∈ _, _))

def start (orientation : Option Int) (thumb : Option Thumbnail) : RotationState :=
  { row := { orientation, hasThumbnail := false, orientationDetectedAt := none }
    thumb, tasks := [], initial := orientation, changes := [] }

end RotationState

section Step

variable (P : Primitives) (codec : ImageCodec) (file : ImageFile)

/-- The thumbnail step of a rotation: it fails, or the row is to be stored. -/
def rotateThumbnail (s : RotationState) (i : Nat) (request : UpdateOrientationRequest)
    (target : Int) (io : OrientationTaskIo) : RotationState :=
  match file.resolve with
  | none => s.setTask i (.rotated request target false)
  | some data =>
    match generateThumbnailForImage codec data (some target) io.thumbWritten with
    | some thumb => { s with thumb := some thumb }.setTask i (.rotated request target true)
    | none => s.finish i

def finishRotation (s : RotationState) (i : Nat) (request : UpdateOrientationRequest)
    (target : Int) (hasThumbnail : Bool) (io : OrientationTaskIo) : RotationState :=
  if io.done then
    (s.store (s.row.storeRotation target hasThumbnail) (request.change target)).finish i
  else s.finish i

def failDetection (s : RotationState) (i : Nat) (err : String) (io : OrientationTaskIo) :
    RotationState :=
  { s with row := s.row.failDetection err io.now io.marked }.finish i

/-- The classifier's answer and the first statement after it. -/
def processOrientationDetection (s : RotationState) (i : Nat) (io : OrientationTaskIo) :
    RotationState :=
  match io.detection with
  | .error err => failDetection s i err io
  | .ok detection =>
    match detection.trusted with
    | some o =>
      if io.done then
        match s.row.storeDetected o io.now with
        | some row => (s.store row (.replaced o)).finish i
        | none => s.setTask i .marking
      else failDetection s i ("Failed to store orientation: " ++ io.error) io
    | none =>
      if io.done then { s with row := s.row.markDetected io.now }.finish i
      else failDetection s i ("Failed to mark orientation detection attempt: " ++ io.error) io

/-- The second statement, where the first changed no row. -/
def finishDetection (s : RotationState) (i : Nat) (io : OrientationTaskIo) : RotationState :=
  if io.done then { s with row := s.row.markUnoriented io.now }.finish i
  else failDetection s i ("Failed to mark orientation attempt: " ++ io.error) io

/-- Reading and hashing the file, and the thumbnail if the row had none. -/
def verifyImage (s : RotationState) (i : Nat) (orientation : Option Int) (hasThumbnail : Bool)
    (io : OrientationTaskIo) : RotationState :=
  match file.contents with
  | none => s.setTask i (.verified orientation hasThumbnail .failed)
  | some data =>
    if io.done ∧ contentHash P data = file.hash then
      if hasThumbnail then s.setTask i (.verified orientation true (.verified true))
      else
        match generateThumbnailForImage codec data orientation io.thumbWritten with
        | some thumb =>
          { s with thumb := some thumb }.setTask i (.verified orientation false (.verified true))
        | none => s.setTask i (.verified orientation false (.verified false))
    else s.setTask i (.verified orientation hasThumbnail .failed)

def recordVerification (s : RotationState) (i : Nat) (verdict : VerifyVerdict)
    (io : OrientationTaskIo) : RotationState :=
  match verdict with
  | .verified hasThumbnail =>
    if io.done then { s with row := { s.row with hasThumbnail } }.finish i else s.finish i
  | .failed => s.finish i

def advanceTask (s : RotationState) (i : Nat) (io : OrientationTaskIo) :
    OrientationTask → RotationState
  | .rotating request target => rotateThumbnail codec file s i request target io
  | .rotated request target hasThumbnail => finishRotation s i request target hasThumbnail io
  | .detecting => processOrientationDetection s i io
  | .marking => finishDetection s i io
  | .verifying orientation hasThumbnail => verifyImage P codec file s i orientation hasThumbnail io
  | .verified _ _ verdict => recordVerification s i verdict io

def orientationStep (s : RotationState) : OrientationEvent → Option RotationState
  | .rotate request queried =>
    if queried then
      match newOrientation request s.row.orientation with
      | .ok target => some (s.begin (.rotating request target))
      | .error _ => some s
    else some s
  | .detect => if s.row.awaitsDetection then some (s.begin .detecting) else none
  | .verify => some (s.begin (.verifying s.row.orientation s.row.hasThumbnail))
  | .advance i io => (s.taskOf i).map (advanceTask P codec file s i io)
  | .abandon i => (s.taskOf i).map fun _ => s.finish i

end Step

end Reminisce

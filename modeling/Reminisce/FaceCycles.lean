import Reminisce.AiDescriptions
import Reminisce.Database
import Reminisce.Library.Runs

namespace Reminisce

/-- A row of `faces`, whose primary key is its only unique constraint. `offered` says whether
`cluster_faces_for_user` has been called for its user since; no code reads it. -/
structure FaceRow (F : Type) where
  id : Nat
  userId : UserId
  hash : String
  face : F
  offered : Bool
  deriving DecidableEq, Repr

/-- Where the face detection of a task stands; `storing` has the faces that `store_faces` still has
to insert and its count. -/
inductive FacePhase (F : Type)
  | waiting
  | storing (rest : List F) (storedCount : Nat)
  | done
  deriving DecidableEq, Repr

structure FaceTask (F : Type) where
  userId : UserId
  hash : String
  phase : FacePhase F
  deriving DecidableEq, Repr

/-- The faces and the images whose `face_detection_completed_at` is set, with the tasks of the cycle
under way and the users it has still to cluster. -/
structure FaceSystem (F : Type) where
  rows : List (FaceRow F)
  nextId : Nat
  completed : List (UserId × String)
  tasks : List (FaceTask F)
  usersWithNewFaces : List UserId

/-- An error comes with whether the statement after a permanent one is executed. -/
inductive FaceCycleEvent
  | start (others selected : List (UserId × String))
  | abandon (i : Nat)
  | detect (i : Nat) (failure : Option (String × Bool))
  | insert (i : Nat) (failure : Option (String × Bool))
  | complete (i : Nat) (marked : Bool)
  | cluster (userId : UserId)
  | finish
  | crash
  deriving DecidableEq, Repr

section

variable {F : Type}

def FaceRow.key (row : FaceRow F) : UserId × String := (row.userId, row.hash)

def FaceTask.key (task : FaceTask F) : UserId × String := (task.userId, task.hash)

/-- `entry(hash).or_insert` of a task that another query starts. -/
def addTask (tasks : List (FaceTask F)) (key : UserId × String) : List (FaceTask F) :=
  if tasks.any (·.hash = key.2) then tasks else tasks ++ [⟨key.1, key.2, .done⟩]

/-- `entry(hash).and_modify(process_faces).or_insert`: the task of the hash may be another user's. -/
def addFaceTask (tasks : List (FaceTask F)) (key : UserId × String) : List (FaceTask F) :=
  if tasks.any (·.hash = key.2) then
    tasks.map fun task => if task.hash = key.2 then { task with phase := .waiting } else task
  else tasks ++ [⟨key.1, key.2, .waiting⟩]

namespace FaceSystem

def init : FaceSystem F := ⟨[], 0, [], [], []⟩

/-- The stored faces of an image. -/
def facesOf (s : FaceSystem F) (key : UserId × String) : List F :=
  (s.rows.filter (·.key = key)).map FaceRow.face

/-- `face_detection_completed_at IS NOT NULL`. -/
def isCompleted (s : FaceSystem F) (key : UserId × String) : Bool := s.completed.any (· = key)

def setPhase (s : FaceSystem F) (i : Nat) (task : FaceTask F) (phase : FacePhase F) : FaceSystem F :=
  { s with tasks := s.tasks.set i { task with phase } }

def mark (s : FaceSystem F) (key : UserId × String) (marked : Bool) : FaceSystem F :=
  if marked then { s with completed := key :: s.completed } else s

/-- The image is marked after a permanent failure and tried again after another. -/
def fail (s : FaceSystem F) (i : Nat) (task : FaceTask F) (err : String) (marked : Bool) :
    FaceSystem F :=
  (s.setPhase i task .done).mark task.key (isPermanentFailure err && marked)

/-- `INSERT INTO faces … ON CONFLICT DO NOTHING`, with the number of rows. -/
def insertFace (s : FaceSystem F) (task : FaceTask F) (face : F) : FaceSystem F × Nat :=
  if s.rows.any (·.id = s.nextId) then ({ s with nextId := s.nextId + 1 }, 0)
  else
    ({ s with
      rows := s.rows ++ [⟨s.nextId, task.userId, task.hash, face, false⟩]
      nextId := s.nextId + 1 }, 1)

/-- The mark of a task whose faces are stored, and its user if there were any. -/
def complete (s : FaceSystem F) (i : Nat) (task : FaceTask F) (storedCount : Nat) (marked : Bool) :
    FaceSystem F :=
  let t := (s.setPhase i task .done).mark task.key marked
  if 0 < storedCount then
    { t with usersWithNewFaces := task.userId :: t.usersWithNewFaces.filter (· ≠ task.userId) }
  else t

/-- `cluster_faces_for_user`, which reads all the user's faces that have no person. -/
def cluster (s : FaceSystem F) (userId : UserId) : FaceSystem F :=
  { s with
    rows := s.rows.map fun row => if row.userId = userId then { row with offered := true } else row
    usersWithNewFaces := s.usersWithNewFaces.filter (· ≠ userId) }

/-- All the tasks of a cycle are over. -/
def tasksDone [DecidableEq F] (s : FaceSystem F) : Bool := s.tasks.all (·.phase = .done)

end FaceSystem

def faceCycleStep [DecidableEq F] (detectFaces : UserId × String → List F) (s : FaceSystem F) :
    FaceCycleEvent → Option (FaceSystem F)
  | .start others selected =>
    if s.tasks = [] ∧ s.usersWithNewFaces = [] ∧ ∀ key ∈ selected, ¬s.isCompleted key then
      some { s with tasks := selected.foldl addFaceTask (others.foldl addTask []) }
    else none
  | .abandon i =>
    match s.tasks[i]? with
    | some ⟨userId, hash, .waiting⟩ => some (s.setPhase i ⟨userId, hash, .waiting⟩ .done)
    | _ => none
  | .detect i failure =>
    match s.tasks[i]? with
    | some ⟨userId, hash, .waiting⟩ =>
      match failure with
      | none =>
        some (s.setPhase i ⟨userId, hash, .waiting⟩ (.storing (detectFaces (userId, hash)) 0))
      | some (err, marked) => some (s.fail i ⟨userId, hash, .waiting⟩ err marked)
    | _ => none
  | .insert i failure =>
    match s.tasks[i]? with
    | some ⟨userId, hash, .storing (face :: rest) storedCount⟩ =>
      let task : FaceTask F := ⟨userId, hash, .storing (face :: rest) storedCount⟩
      match failure with
      | none =>
        let (t, result) := s.insertFace task face
        some (t.setPhase i task (.storing rest (storedCount + result)))
      | some (err, marked) => some (s.fail i task ("Failed to store face: " ++ err) marked)
    | _ => none
  | .complete i marked =>
    match s.tasks[i]? with
    | some ⟨userId, hash, .storing [] storedCount⟩ =>
      some (s.complete i ⟨userId, hash, .storing [] storedCount⟩ storedCount marked)
    | _ => none
  | .cluster userId =>
    if s.tasksDone ∧ userId ∈ s.usersWithNewFaces then some (s.cluster userId) else none
  | .finish =>
    if s.tasksDone ∧ s.usersWithNewFaces = [] then some { s with tasks := [] } else none
  | .crash => some { s with tasks := [], usersWithNewFaces := [] }

/-- An image that is marked has one row for each face that is detected in it. -/
def FacesExact (detectFaces : UserId × String → List F) (s : FaceSystem F) : Prop :=
  ∀ key ∈ s.completed, (s.facesOf key).Perm (detectFaces key)

/-- Between the cycles the faces of a marked image have been offered to the clustering. -/
def FacesOffered (s : FaceSystem F) : Prop :=
  s.tasks = [] → s.usersWithNewFaces = [] → ∀ row ∈ s.rows, row.key ∈ s.completed →
    row.offered = true

end

end Reminisce

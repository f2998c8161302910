import Mathlib.Data.List.Dedup
import Reminisce.DuplicatePairs
import Reminisce.Library.Runs
import Reminisce.Library.Versioned

namespace Reminisce

/-- A row of `faces`, with the person it is assigned to. -/
structure FaceEntry (E : Type) where
  id : Nat
  userId : UserId
  embedding : E
  person : Versioned (Option Nat)

structure PersonStats where
  faceCount : Nat
  representativeFaceId : Option Nat
  deriving DecidableEq, Repr

/-- A row of `persons`, which has no statistics any more once it is deleted. -/
structure PersonEntry where
  id : Nat
  userId : UserId
  stats : Versioned (Option PersonStats)

def PersonEntry.live (row : PersonEntry) : Bool := row.stats.committed.isSome

/-- Where `cluster_faces_for_user` stands: each statement is committed on its own. The statistics
are read from the snapshot of the statement that writes them, which may have to wait in between. -/
inductive ClusteringPhase (E : Type)
  | query
  | find (todo : List (Nat × E))
  | create (face : Nat) (todo : List (Nat × E))
  | assign (face person : Nat) (todo : List (Nat × E))
  | readStats (person : Nat) (todo : List (Nat × E))
  | writeStats (person : Nat) (stats : PersonStats) (todo : List (Nat × E))

/-- Where `merge_persons` stands: the check, and then a transaction. Nobody can see or touch what
its `DELETE` removes before the commit, so the two are one phase. -/
inductive MergePhase
  | check
  | snapshot
  | move (candidates : List Nat)
  | readStats
  | writeStats (stats : PersonStats)
  | finish
  deriving DecidableEq

inductive ClusterOp (E : Type)
  | clustering (userId : UserId) (phase : ClusteringPhase E)
  | merging (userId : UserId) (target : Nat) (sources : List Nat) (phase : MergePhase)
  | choosing (userId : UserId) (person face : Nat) (checked : Bool)
  | ended

/-- The tables and the operations, each under its index as a transaction. -/
structure ClusterSystem (E : Type) where
  faces : List (FaceEntry E)
  persons : List PersonEntry
  nextFaceId : Nat
  nextPersonId : Nat
  ops : List (ClusterOp E)

/-- A new face, a request, or the next statement of an operation with the answer that it gets. -/
inductive ClusterEvent (E : Type)
  | storeFace (userId : UserId) (embedding : E)
  | startClustering (userId : UserId)
  | startMerge (userId : UserId) (sourceIds : List Nat) (target : Nat)
  | startRepresentative (userId : UserId) (person face : Nat)
  | find (i : Nat) (similar : Option Nat)
  | readStats (i : Nat) (representative : Option Nat)
  | proceed (i : Nat)
  | fail (i : Nat)

section

variable {E : Type}

namespace ClusterSystem

def init : ClusterSystem E := ⟨[], [], 0, 0, []⟩

/-- The faces of a person, as a transaction sees them. -/
def facesSeen (s : ClusterSystem E) (tx person : Nat) : List Nat :=
  (s.faces.filter (·.person.seenBy tx = some person)).map FaceEntry.id

def facesOf (s : ClusterSystem E) (person : Nat) : List Nat :=
  (s.faces.filter (·.person.committed = some person)).map FaceEntry.id

def isLive (s : ClusterSystem E) (person : Nat) : Bool :=
  s.persons.any fun row => row.live && row.id = person

def setOp (s : ClusterSystem E) (i : Nat) (op : ClusterOp E) : ClusterSystem E :=
  { s with ops := s.ops.set i op }

def mapFaces (s : ClusterSystem E) (change : FaceEntry E → Versioned (Option Nat)) :
    ClusterSystem E :=
  { s with faces := s.faces.map fun face => { face with person := change face } }

def mapPersons (s : ClusterSystem E) (change : PersonEntry → Versioned (Option PersonStats)) :
    ClusterSystem E :=
  { s with persons := s.persons.map fun row => { row with stats := change row } }

/-- The faces that `cluster_faces_for_user` starts from; the table is in the order of
`detected_at`. -/
def unclustered (s : ClusterSystem E) (userId : UserId) : List (Nat × E) :=
  (s.faces.filter fun face => face.userId = userId && face.person.committed = none).map
    fun face => (face.id, face.embedding)

/-- The person is that of a similar face; the index may miss the nearest, or all. -/
def admits (D : CosineDistance E) (s : ClusterSystem E) (userId : UserId) (embedding : E)
    (similar : Option Nat) : Bool :=
  similar.all fun person => s.faces.any fun face =>
    face.userId = userId && face.person.committed = some person &&
      3 / 5 < 1 - D.distance face.embedding embedding

/-- `INSERT INTO persons` for a face that is like no other. -/
def createPerson (s : ClusterSystem E) (userId : UserId) (face : Nat) : ClusterSystem E :=
  { s with
    persons := s.persons ++ [⟨s.nextPersonId, userId, .of (some ⟨1, some face⟩)⟩]
    nextPersonId := s.nextPersonId + 1 }

/-- `UPDATE faces SET person_id = $1 WHERE id = $2`. -/
def assignFace (s : ClusterSystem E) (face person : Nat) : ClusterSystem E :=
  s.mapFaces fun entry => if entry.id = face then .of (some person) else entry.person

/-- `UPDATE persons SET … WHERE id = $1` outside a transaction. -/
def updateStats (s : ClusterSystem E) (person : Nat) (change : PersonStats → PersonStats) :
    ClusterSystem E :=
  s.mapPersons fun row =>
    if row.id = person then .of (row.stats.committed.map change) else row.stats

/-- Another transaction has updated the row. -/
def lockedRow (s : ClusterSystem E) (person : Nat) : Bool :=
  s.persons.any fun row => row.id = person && row.stats.written.isSome

/-- `SELECT COUNT(*) FROM persons WHERE id = ANY($1) AND user_id = $2`. -/
def countOwned (s : ClusterSystem E) (userId : UserId) (ids : List Nat) : Nat :=
  s.persons.countP fun row => row.live && row.userId = userId && ids.contains row.id

/-- The candidates that still belong to a source when their rows are locked. -/
def moves (candidates sources : List Nat) (face : FaceEntry E) : Bool :=
  candidates.contains face.id && face.person.committed.any sources.contains

/-- `UPDATE faces SET person_id = $1 WHERE person_id = ANY($2)`. -/
def moveFaces (s : ClusterSystem E) (i target : Nat) (sources candidates : List Nat) :
    ClusterSystem E :=
  s.mapFaces fun face =>
    if moves candidates sources face then face.person.write i (some target) else face.person

/-- `UPDATE persons SET … WHERE id = $1` of the target. -/
def writeTarget (s : ClusterSystem E) (i target : Nat) (stats : PersonStats) : ClusterSystem E :=
  s.mapPersons fun row =>
    if row.id = target && row.live then row.stats.write i (some stats) else row.stats

/-- The deletion of the sources waits for their rows, for faces that a transaction is moving to
them, and for faces of theirs that another one is moving away. -/
def blocksDelete (s : ClusterSystem E) (i : Nat) (sources : List Nat) : Bool :=
  (s.persons.any fun row => row.stats.written.isSome && sources.contains row.id) ||
    s.faces.any fun face =>
      (face.person.written.any fun w => w.1 ≠ i && w.2.any sources.contains) ||
        face.person.written.any (·.1 ≠ i) && face.person.committed.any sources.contains

/-- The deletion, which leaves the faces assigned to a source meanwhile without a person, and the
commit. -/
def commitMerge (s : ClusterSystem E) (i : Nat) (sources : List Nat) : ClusterSystem E :=
  (s.mapFaces fun face =>
    if (face.person.seenBy i).any sources.contains then .of none else face.person.commit i).mapPersons
      fun row => if sources.contains row.id then .of none else row.stats.commit i

def rollback (s : ClusterSystem E) (i : Nat) : ClusterSystem E :=
  (s.mapFaces fun face => face.person.rollback i).mapPersons fun row => row.stats.rollback i

end ClusterSystem

/-- The next statement of `cluster_faces_for_user`, other than its queries for the statistics and
for a similar person. The foreign key refuses a person that is deleted. -/
def proceedClustering (s : ClusterSystem E) (i : Nat) (userId : UserId) :
    ClusteringPhase E → Option (ClusterSystem E)
  | .query => some (s.setOp i (.clustering userId (.find (s.unclustered userId))))
  | .find [] => some (s.setOp i .ended)
  | .create face todo =>
    some ((s.createPerson userId face).setOp i
      (.clustering userId (.assign face s.nextPersonId todo)))
  | .assign face person todo =>
    if s.faces.any fun entry => entry.id = face && entry.person.written.isSome then none
    else if s.isLive person then
      some ((s.assignFace face person).setOp i (.clustering userId (.readStats person todo)))
    else some (s.setOp i .ended)
  | .writeStats person stats todo =>
    if s.lockedRow person then none
    else some ((s.updateStats person fun _ => stats).setOp i (.clustering userId (.find todo)))
  | _ => none

/-- The next statement of `merge_persons`. -/
def proceedMerge (s : ClusterSystem E) (i : Nat) (userId : UserId) (target : Nat)
    (sources : List Nat) : MergePhase → Option (ClusterSystem E)
  | .check =>
    if s.countOwned userId (sources ++ [target]) = (sources ++ [target]).length then
      some (s.setOp i (.merging userId target sources .snapshot))
    else some (s.setOp i .ended)
  | .snapshot =>
    some (s.setOp i (.merging userId target sources (.move
      ((s.faces.filter fun face => face.person.committed.any sources.contains).map
        FaceEntry.id))))
  | .move candidates =>
    let moved := s.faces.filter (ClusterSystem.moves candidates sources)
    if moved.any (·.person.written.isSome) then none
    else if moved.isEmpty || s.isLive target then
      some ((s.moveFaces i target sources candidates).setOp i
        (.merging userId target sources .readStats))
    else some (s.setOp i .ended)
  | .writeStats stats =>
    if s.lockedRow target then none
    else some ((s.writeTarget i target stats).setOp i (.merging userId target sources .finish))
  | .finish =>
    if s.blocksDelete i sources then none
    else some ((s.commitMerge i sources).setOp i .ended)
  | .readStats => none

/-- The next statement of `set_representative_face`. -/
def proceedRepresentative (s : ClusterSystem E) (i : Nat) (userId : UserId) (person face : Nat)
    (checked : Bool) : Option (ClusterSystem E) :=
  if checked then
    if s.lockedRow person then none
    else some ((s.updateStats person fun stats =>
      { stats with representativeFaceId := some face }).setOp i .ended)
  else if (s.facesOf person).contains face &&
      s.persons.any fun row => row.live && row.id = person && row.userId = userId then
    some (s.setOp i (.choosing userId person face true))
  else some (s.setOp i .ended)

def clusterStep (D : CosineDistance E) (s : ClusterSystem E) :
    ClusterEvent E → Option (ClusterSystem E)
  | .storeFace userId embedding => some
    { s with
      faces := s.faces ++ [⟨s.nextFaceId, userId, embedding, .of none⟩]
      nextFaceId := s.nextFaceId + 1 }
  | .startClustering userId => some { s with ops := s.ops ++ [.clustering userId .query] }
  | .startMerge userId sourceIds target =>
    let sources := (sourceIds.mergeSort fun a b => decide (a ≤ b)).dedup
    if sourceIds = [] || sources.contains target then some s
    else some { s with ops := s.ops ++ [.merging userId target sources .check] }
  | .startRepresentative userId person face =>
    some { s with ops := s.ops ++ [.choosing userId person face false] }
  | .find i similar =>
    match s.ops[i]? with
    | some (.clustering userId (.find ((face, embedding) :: todo))) =>
      if s.admits D userId embedding similar then
        some (s.setOp i (.clustering userId (match similar with
          | some person => .assign face person todo
          | none => .create face todo)))
      else none
    | _ => none
  | .readStats i representative =>
    match s.ops[i]? with
    | some (.clustering userId (.readStats person todo)) =>
      let faces := s.facesOf person
      if representative.all faces.contains then
        some (s.setOp i (.clustering userId
          (.writeStats person ⟨faces.length, representative⟩ todo)))
      else none
    | some (.merging userId target sources .readStats) =>
      let faces := s.facesSeen i target
      if representative.all faces.contains then
        some (s.setOp i (.merging userId target sources (.writeStats ⟨faces.length, representative⟩)))
      else none
    | _ => none
  | .proceed i =>
    match s.ops[i]? with
    | some (.clustering userId phase) => proceedClustering s i userId phase
    | some (.merging userId target sources phase) => proceedMerge s i userId target sources phase
    | some (.choosing userId person face checked) =>
      proceedRepresentative s i userId person face checked
    | _ => none
  | .fail i =>
    match s.ops[i]? with
    | some .ended => none
    | some _ => some ((s.rollback i).setOp i .ended)
    | none => none

/-- The statistics are those of a person with these faces. -/
def PersonStats.Describes (stats : PersonStats) (faces : List Nat) : Prop :=
  faces ≠ [] ∧ stats.faceCount = faces.length ∧
    ∀ face, stats.representativeFaceId = some face → face ∈ faces

def ClusterOp.isEnded : ClusterOp E → Bool
  | .ended => true
  | _ => false

namespace ClusterSystem

/-- No operation is in progress. -/
def Quiet (s : ClusterSystem E) : Prop := ∀ op ∈ s.ops, op.isEnded = true

/-- Every person has faces, its statistics are those of its faces, and every face that is assigned
belongs to the user of its person. -/
structure Consistent (s : ClusterSystem E) : Prop where
  described : ∀ row ∈ s.persons, ∀ stats, row.stats.committed = some stats →
    stats.Describes (s.facesOf row.id)
  owned : ∀ face ∈ s.faces, ∀ person, face.person.committed = some person →
    ∃ row ∈ s.persons, row.live = true ∧ row.id = person ∧ row.userId = face.userId

end ClusterSystem

end

end Reminisce

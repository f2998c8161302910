import Reminisce.AiDescriptions
import Reminisce.ImageOrientation

namespace Reminisce

/-- The columns of a live row of `images` that its writers of the orientation use. -/
structure OrientationRow where
  orientation : Option Int
  hasThumbnail : Bool
  orientationDetectedAt : Option Time
  deriving DecidableEq, Repr

namespace OrientationRow

/-- The condition of the query for orientation tasks. -/
def awaitsDetection (row : OrientationRow) : Prop :=
  (∀ o ∈ row.orientation, ¬ValidOrientation o) ∧ row.orientationDetectedAt = none

instance (row : OrientationRow) : Decidable row.awaitsDetection := by
  unfold awaitsDetection
  infer_instance

/-- `UPDATE images SET orientation_detected_at = NOW()`. -/
def markDetected (now : Time) (row : OrientationRow) : OrientationRow :=
  { row with orientationDetectedAt := some now }

/-- The same `WHERE orientation IS NULL`. -/
def markUnoriented (now : Time) (row : OrientationRow) : OrientationRow :=
  if row.orientation = none then row.markDetected now else row

/-- The statement that stores a detected orientation, `none` where it changes no row. -/
def storeDetected (o : Int) (now : Time) (row : OrientationRow) : Option OrientationRow :=
  if row.orientation = none ∧ row.hasThumbnail = true then
    some { orientation := some o, hasThumbnail := false, orientationDetectedAt := some now }
  else none

/-- The statement of the worker when a detection failed. -/
def failDetection (err : String) (now : Time) (marked : Bool) (row : OrientationRow) :
    OrientationRow :=
  if isPermanentFailure err ∧ marked then row.markDetected now else row

/-- The last statement of a rotation. -/
def storeRotation (o : Int) (hasThumbnail : Bool) (row : OrientationRow) : OrientationRow :=
  { row with orientation := some o, hasThumbnail }

variable {row : OrientationRow} {now : Time}

@[simp] theorem markDetected_orientation : (row.markDetected now).orientation = row.orientation :=
  rfl

@[simp] theorem markDetected_hasThumbnail :
    (row.markDetected now).hasThumbnail = row.hasThumbnail := rfl

@[simp] theorem markUnoriented_orientation :
    (row.markUnoriented now).orientation = row.orientation := by
  unfold markUnoriented
  split <;> rfl

@[simp] theorem markUnoriented_hasThumbnail :
    (row.markUnoriented now).hasThumbnail = row.hasThumbnail := by
  unfold markUnoriented
  split <;> rfl

@[simp] theorem failDetection_orientation {err : String} {marked : Bool} :
    (row.failDetection err now marked).orientation = row.orientation := by
  unfold failDetection
  split <;> rfl

@[simp] theorem failDetection_hasThumbnail {err : String} {marked : Bool} :
    (row.failDetection err now marked).hasThumbnail = row.hasThumbnail := by
  unfold failDetection
  split <;> rfl

/-- A detected orientation is stored over no other, and takes the thumbnail away. -/
theorem storeDetected_some {o : Int} {stored : OrientationRow}
    (h : row.storeDetected o now = some stored) :
    row.orientation = none ∧ row.hasThumbnail = true ∧ stored.orientation = some o ∧
      stored.hasThumbnail = false := by
  unfold storeDetected at h
  split at h
  next hrow =>
    cases Option.some.inj h
    exact ⟨hrow.1, hrow.2, rfl, rfl⟩
  next => simp at h

end OrientationRow

end Reminisce

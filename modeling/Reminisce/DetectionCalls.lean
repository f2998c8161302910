import Reminisce.OrientationDetection

namespace Reminisce

/-- A row of `images` with the columns that the query for orientation tasks reads; `svg` says
whether its `ext` is that of a drawing. -/
structure DetectionRow extends OrientationRow where
  verified : Bool
  deleted : Bool
  svg : Bool
  deriving DecidableEq, Repr

/-- An orientation that EXIF defines. -/
abbrev ExifOrientation := {o : Int // ValidOrientation o}

/-- A statement of another writer of the row: a rotation, the EXIF value of an ingest, statements
of another detection, and changes of the columns beside the orientation. -/
inductive RowWrite
  | rotation (o : ExifOrientation) (hasThumbnail : Bool)
  | ingest (o : Int)
  | detected (o : ExifOrientation) (now : Time)
  | marked (now : Time)
  | markedUnoriented (now : Time)
  | columns (hasThumbnail verified deleted svg : Bool)

namespace DetectionRow

/-- The row is in the answer of the query, whose limit aside. -/
def isSelected (row : DetectionRow) : Prop :=
  row.verified = true ∧ row.deleted = false ∧ row.awaitsDetection ∧ row.svg = false

instance (row : DetectionRow) : Decidable row.isSelected := inferInstanceAs (Decidable (_ ∧ _))

def isValid (row : DetectionRow) : Prop := ∃ o ∈ row.orientation, ValidOrientation o

def change (f : OrientationRow → OrientationRow) (row : DetectionRow) : DetectionRow :=
  { row with toOrientationRow := f row.toOrientationRow }

def write (row : DetectionRow) : RowWrite → DetectionRow
  | .rotation o hasThumbnail =>
    if row.deleted then row else row.change (OrientationRow.storeRotation o hasThumbnail)
  | .ingest o => if row.orientation = none then
      row.change fun r => { r with orientation := some o } else row
  | .detected o now => row.change fun r => (r.storeDetected o now).getD r
  | .marked now => row.change (OrientationRow.markDetected now)
  | .markedUnoriented now => row.change (OrientationRow.markUnoriented now)
  | .columns hasThumbnail verified deleted svg =>
    { row.change fun r => { r with hasThumbnail } with verified, deleted, svg }

/-- The row after statements of others. -/
def writes (row : DetectionRow) (ws : List RowWrite) : DetectionRow := ws.foldl write row

/-- A statement of others leaves a valid orientation in the row. -/
def SetsValid : DetectionRow → List RowWrite → Prop
  | _, [] => False
  | row, w :: ws => (row.write w).isValid ∨ SetsValid (row.write w) ws

end DetectionRow

/-- A call of `process_orientation_detection` that returns `Ok`: what others write before its first
statement and before its second one, the answer of the classifier, and the time. -/
structure DetectionCall where
  before : List RowWrite
  between : List RowWrite
  detection : DetectedOrientation
  now : Time

namespace DetectionCall

/-- The row that the first statement of a call meets. -/
def met (call : DetectionCall) (row : DetectionRow) : DetectionRow := row.writes call.before

/-- The row after a call. -/
def run (call : DetectionCall) (row : DetectionRow) : DetectionRow :=
  match call.detection.trusted with
  | some o =>
    match (call.met row).storeDetected o call.now with
    | some stored => { call.met row with toOrientationRow := stored }
    | none => ((call.met row).writes call.between).change (OrientationRow.markUnoriented call.now)
  | none => (call.met row).change (OrientationRow.markDetected call.now)

/-- What others write before the last statement of a call. -/
def meanwhile (call : DetectionCall) (row : DetectionRow) : List RowWrite :=
  match call.detection.trusted with
  | some o =>
    match (call.met row).storeDetected o call.now with
    | some _ => call.before
    | none => call.before ++ call.between
  | none => call.before

/-- The call takes the row out of the query, and stores what it detected unless another writer has
set a valid orientation. -/
def Progresses (call : DetectionCall) (row : DetectionRow) : Prop :=
  ¬(call.run row).isSelected ∧
    ∀ o, call.detection.trusted = some o → ¬row.SetsValid (call.meanwhile row) →
      (call.run row).orientation = some o

end DetectionCall

open DetectionRow

variable {row : DetectionRow}

theorem DetectionRow.isValid_of_orientation {other : DetectionRow}
    (h : other.orientation = row.orientation) (hvalid : row.isValid) : other.isValid := by
  unfold isValid at hvalid ⊢
  rwa [h]

/-- No statement takes a valid orientation away. -/
theorem DetectionRow.write_isValid (h : row.isValid) (w : RowWrite) : (row.write w).isValid := by
  obtain ⟨o, ho, hvalid⟩ := h
  cases w with
  | rotation o' hasThumbnail =>
    simp only [write]
    split
    · exact ⟨o, ho, hvalid⟩
    · exact ⟨o', rfl, o'.2⟩
  | ingest o' =>
    simp only [write]
    split
    next hnone => simp [hnone] at ho
    next => exact ⟨o, ho, hvalid⟩
  | detected o' now =>
    refine ⟨o, ?_, hvalid⟩
    have hstored : row.storeDetected o' now = none := by
      have hsome : row.orientation ≠ none := by
        rw [Option.mem_def] at ho
        simp [ho]
      exact if_neg fun hnone => hsome hnone.1
    rw [write, change, hstored]
    exact ho
  | marked now => exact ⟨o, ho, hvalid⟩
  | markedUnoriented now =>
    refine ⟨o, ?_, hvalid⟩
    rw [write, change, OrientationRow.markUnoriented_orientation]
    exact ho
  | columns hasThumbnail verified deleted svg => exact ⟨o, ho, hvalid⟩

/-- A row with a valid orientation that had none got it from another writer. -/
theorem DetectionRow.setsValid_iff (h : ¬row.isValid) (ws : List RowWrite) :
    row.SetsValid ws ↔ (row.writes ws).isValid := by
  have hkeep : ∀ (ws : List RowWrite) {row : DetectionRow}, row.isValid →
      (row.writes ws).isValid := by
    intro ws
    induction ws with
    | nil => exact fun hvalid => hvalid
    | cons w ws ih => exact fun hvalid => ih (write_isValid hvalid w)
  induction ws generalizing row with
  | nil => exact iff_of_false id h
  | cons w ws ih =>
    by_cases hw : (row.write w).isValid
    · exact iff_of_true (Or.inl hw) (hkeep ws hw)
    · exact (or_iff_right hw).trans (ih hw)

theorem DetectionRow.writes_append (row : DetectionRow) (ws ws' : List RowWrite) :
    row.writes (ws ++ ws') = (row.writes ws).writes ws' :=
  List.foldl_append

theorem DetectionRow.not_isValid_of_selected (h : row.isSelected) : ¬row.isValid := by
  rintro ⟨o, ho, hvalid⟩
  exact h.2.2.1.1 o ho hvalid

theorem DetectionRow.not_selected_of_valid (h : row.isValid) : ¬row.isSelected :=
  fun hselected => not_isValid_of_selected hselected h

/-- A call makes progress exactly where it detects nothing, meets a row that it can write to, or
another writer sets a valid orientation. -/
theorem detection_progresses_iff (call : DetectionCall) {row : DetectionRow} (h : row.isSelected) :
    call.Progresses row ↔
      call.detection.trusted = none ∨
        ((call.met row).orientation = none ∧ (call.met row).hasThumbnail = true) ∨
        row.SetsValid (call.meanwhile row) := by
  have hnew := not_isValid_of_selected h
  cases hdetection : call.detection.trusted with
  | none =>
    refine iff_of_true ⟨?_, fun o ho => by simp [hdetection] at ho⟩ (Or.inl rfl)
    rw [DetectionCall.run, hdetection]
    exact fun hselected => absurd hselected.2.2.1.2 (by simp [change, OrientationRow.markDetected])
  | some o =>
    have hvalid : ValidOrientation o := DetectedOrientation.trusted_range hdetection
    cases hstore : (call.met row).storeDetected o call.now with
    | some stored =>
      obtain ⟨hnone, hthumb, horientation, -⟩ := OrientationRow.storeDetected_some hstore
      have hrun : call.run row = { call.met row with toOrientationRow := stored } := by
        rw [DetectionCall.run, hdetection]
        simp only [hstore]
      refine iff_of_true ⟨?_, fun o' ho' _ => ?_⟩ (Or.inr (Or.inl ⟨hnone, hthumb⟩))
      · rw [hrun]
        exact not_selected_of_valid ⟨o, horientation, hvalid⟩
      · rw [hrun, ← Option.some.inj (hdetection.symm.trans ho')]
        exact horientation
    | none =>
      have hguard : ¬((call.met row).orientation = none ∧ (call.met row).hasThumbnail = true) := by
        intro hrow
        rw [OrientationRow.storeDetected, if_pos hrow] at hstore
        simp at hstore
      have hmeanwhile : call.meanwhile row = call.before ++ call.between := by
        rw [DetectionCall.meanwhile, hdetection]
        simp only [hstore]
      have hrun : call.run row =
          (row.writes (call.before ++ call.between)).change
            (OrientationRow.markUnoriented call.now) := by
        rw [DetectionCall.run, hdetection, writes_append]
        simp only [hstore]
        rfl
      have horientation : (call.run row).orientation =
          (row.writes (call.before ++ call.between)).orientation := by
        rw [hrun]
        exact OrientationRow.markUnoriented_orientation
      rw [hmeanwhile, setsValid_iff hnew]
      constructor
      · rintro ⟨-, hstored⟩
        refine Or.inr (Or.inr ?_)
        by_contra hnot
        have hset := hstored o hdetection (by rwa [hmeanwhile, setsValid_iff hnew])
        exact hnot ⟨o, horientation.symm.trans hset, hvalid⟩
      · rintro (hnone | hwritable | hset)
        · simp at hnone
        · exact absurd hwritable hguard
        · refine ⟨not_selected_of_valid (isValid_of_orientation horientation hset), ?_⟩
          intro o' _ hnot
          rw [hmeanwhile, setsValid_iff hnew] at hnot
          exact absurd hset hnot

/-- A photo without orientation, its thumbnail made. -/
def unorientedRow : DetectionRow := ⟨⟨none, true, none⟩, true, false, false⟩

def sidewaysCall : DetectionCall := ⟨[.marked 1], [], ⟨6, 9 / 10⟩, 2⟩

theorem detection_progresses_unoriented :
    sidewaysCall.Progresses unorientedRow ↔
      sidewaysCall.detection.trusted = none ∨
        ((sidewaysCall.met unorientedRow).orientation = none ∧
          (sidewaysCall.met unorientedRow).hasThumbnail = true) ∨
        unorientedRow.SetsValid (sidewaysCall.meanwhile unorientedRow) :=
  detection_progresses_iff sidewaysCall (by decide)

/-- A row with an orientation that EXIF does not define stays as it is, and in the query; one
without a thumbnail leaves the query and keeps no orientation. -/
theorem detection_without_progress :
    (DetectionCall.run ⟨[], [], ⟨6, 9 / 10⟩, 2⟩ ⟨⟨some 0, true, none⟩, true, false, false⟩ =
        ⟨⟨some 0, true, none⟩, true, false, false⟩ ∧
      DetectionRow.isSelected ⟨⟨some 0, true, none⟩, true, false, false⟩) ∧
      (DetectionCall.run ⟨[], [], ⟨6, 9 / 10⟩, 2⟩ ⟨⟨none, false, none⟩, true, false, false⟩).orientation =
        none ∧
      ¬DetectionCall.Progresses ⟨[], [], ⟨6, 9 / 10⟩, 2⟩ ⟨⟨some 0, true, none⟩, true, false, false⟩ := by
  refine ⟨by decide +kernel, by decide +kernel, fun hprogress => hprogress.1 (by decide +kernel)⟩

end Reminisce

import Reminisce.ImageOrientation

namespace Reminisce

/-- What the verification of a file found, and the columns it will write. -/
inductive VerifyVerdict
  | verified (hasThumbnail : Bool)
  | failed
  deriving DecidableEq, Repr

/-- A file under verification: the columns of its row when the cycle selected it, and the verdict
once its file was read. -/
structure VerifyTask where
  userId : UserId
  table : MediaTable
  hash : String
  ext : String
  hasThumbnail : Bool
  orientation : Option Int
  verdict : Option VerifyVerdict
  deriving DecidableEq, Repr

/-- The condition of the cycle's query on a live row. -/
def LibraryRow.due (row : LibraryRow) (monthAgo : Time) : Bool :=
  row.deletedAt = none && (row.verificationStatus = 0 || row.verificationStatus = -1 ||
    (row.verificationStatus = 1 && (match row.lastVerifiedAt with
      | none => true
      | some t => decide (t < monthAgo))) ||
    (row.verificationStatus = 1 && !row.hasThumbnail))

def VerifyTask.select (table : MediaTable) (row : LibraryRow) : VerifyTask :=
  { userId := row.userId, table, hash := row.hash, ext := row.ext
    hasThumbnail := row.hasThumbnail
    orientation := match table with
      | .images => row.orientation
      | .videos => none
    verdict := none }

/-- Whether the file is read to its end, and whether the thumbnail's file is made. -/
structure VerifyIo where
  read : Bool
  thumbMade : Bool
  deriving DecidableEq, Repr

/-- The thumbnail that a missing one is replaced with. -/
def VerifyTask.thumbnail (codec : ImageCodec) (task : VerifyTask) (data : Bytes) (io : VerifyIo) :
    Option Thumbnail :=
  match task.table with
  | .images => generateThumbnailForImage codec data task.orientation io.thumbMade
  | .videos => if io.thumbMade then some (.video data) else none

/-- Reading and hashing the file, and the thumbnail if the row has none. -/
def verifyFile (P : Primitives) (codec : ImageCodec) (lib : Library) (task : VerifyTask)
    (io : VerifyIo) : VerifyVerdict × Library :=
  match lib.files task.table task.hash task.ext with
  | none => (.failed, lib)
  | some data =>
    if io.read then
      if contentHash P data = task.hash then
        if task.hasThumbnail then (.verified true, lib)
        else
          match task.thumbnail codec data io with
          | some thumb => (.verified true, lib.putThumb task.table task.hash thumb)
          | none => (.verified false, lib)
      else (.failed, lib)
    else (.failed, lib)

/-- The last statement of a verification. -/
def recordVerdict (lib : Library) (task : VerifyTask) (verdict : VerifyVerdict) (now : Time) : Library :=
  lib.setRows task.table (updateRows task.userId task.hash (fun _ => true)
    (fun row => match verdict with
      | .verified hasThumbnail =>
        { row with lastVerifiedAt := some now, verificationStatus := 1, hasThumbnail }
      | .failed => { row with lastVerifiedAt := some now, verificationStatus := -1 })
    (lib.rows task.table))

/-- The worker reads the file of the row's names and finds its hash. -/
def VerifyTask.Holds (P : Primitives) (lib : Library) (task : VerifyTask) (data : Bytes) : Prop :=
  lib.files task.table task.hash task.ext = some data ∧ contentHash P data = task.hash

/-- A verification leaves the store alone or writes the thumbnail of a file that it hashed. -/
theorem verifyFile_cases (P : Primitives) (codec : ImageCodec) (lib : Library) (task : VerifyTask)
    (io : VerifyIo) : verifyFile P codec lib task io = (.failed, lib) ∨
      ∃ data, task.Holds P lib data ∧
        (verifyFile P codec lib task io = (.verified task.hasThumbnail, lib) ∨
          ∃ thumb, task.hasThumbnail = false ∧ task.thumbnail codec data io = some thumb ∧
            verifyFile P codec lib task io =
              (.verified true, lib.putThumb task.table task.hash thumb)) := by
  unfold verifyFile
  split
  next => exact Or.inl rfl
  next data hdata =>
    split
    next =>
      split
      next hhash =>
        refine Or.inr ⟨data, ⟨hdata, hhash⟩, ?_⟩
        split
        next hthumb => exact Or.inl (by rw [hthumb])
        next hthumb =>
          have hnone := Bool.eq_false_iff.mpr hthumb
          split
          next thumb hmade => exact Or.inr ⟨thumb, hnone, hmade, rfl⟩
          next => exact Or.inl (by rw [hnone])
      next => exact Or.inl rfl
    next => exact Or.inl rfl

end Reminisce

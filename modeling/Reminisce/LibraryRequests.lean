import Reminisce.Ingest

namespace Reminisce

/-- Whether the pool gives a client, and whether its statement is executed. -/
structure DbIo where
  connected : Bool
  stored : Bool
  deriving DecidableEq, Repr

/-- The body of a metadata upload. The dates are the ones its strings parse to; `createdAt` falls
back to a date in the name and then to the time of the request. -/
structure MetadataRequest where
  deviceId : String
  hash : String
  createdAt : Time
  name : String
  ext : String
  exif : Option String
  hasThumbnail : Option Bool
  lastVerifiedAt : Option Time
  verificationStatus : Option Int
  latitude : Option Rat
  longitude : Option Rat
  place : Option String
  deriving DecidableEq, Repr

inductive RequestResponse
  | success (message : String)
  | badRequest (message : String)
  | notFound (message : String)
  | internalServerError (message : String)
  deriving DecidableEq, Repr

/-- The row that the statement proposes. Videos have neither EXIF nor a place. -/
def MetadataRequest.row (m : MetadataRequest) (table : MediaTable) (userId : UserId) : LibraryRow :=
  { userId, hash := m.hash, deviceId := m.deviceId, createdAt := m.createdAt, name := m.name
    ext := m.ext
    exif := match table with
      | .images => m.exif
      | .videos => none
    hasThumbnail := m.hasThumbnail.getD false, lastVerifiedAt := m.lastVerifiedAt
    verificationStatus := m.verificationStatus.getD 0
    location := match table with
      | .images => some { lon := m.longitude.getD 0, lat := m.latitude.getD 0 }
      | .videos => none
    place := match table with
      | .images => m.place
      | .videos => none
    deletedAt := none, orientation := none, fileSizeBytes := none, aestheticScore := none }

/-- `DO UPDATE SET` of the metadata uploads, for both tables as their columns allow. -/
def mergeMetadata (new old : LibraryRow) : LibraryRow :=
  { old with
    name := new.name, ext := new.ext, exif := new.exif <|> old.exif
    hasThumbnail := new.hasThumbnail, lastVerifiedAt := new.lastVerifiedAt
    verificationStatus := max old.verificationStatus new.verificationStatus
    location := new.location, place := new.place }

/-- The steps that `upload_image_metadata` and `upload_video_metadata` share. -/
def uploadMetadata (table : MediaTable) (lib : Library) (userId : UserId) (m : MetadataRequest)
    (io : DbIo) : RequestResponse × Library :=
  if isValidContentHash m.hash then
    if isValidMediaExt m.ext then
      if io.connected then
        let row := m.row table userId
        if io.stored ∧ row.fits then
          (.success "Metadata updated",
            lib.setRows table (insertRow row (mergeMetadata row) (lib.rows table)))
        else (.internalServerError "Database error", lib)
      else (.internalServerError "Database connection failed", lib)
    else (.badRequest "Invalid file extension", lib)
  else (.badRequest "Invalid hash: must be 64 lowercase hex characters", lib)

def uploadImageMetadata (lib : Library) (userId : UserId) (m : MetadataRequest) (io : DbIo) :
    RequestResponse × Library :=
  uploadMetadata .images lib userId m io

def uploadVideoMetadata (lib : Library) (userId : UserId) (m : MetadataRequest) (io : DbIo) :
    RequestResponse × Library :=
  uploadMetadata .videos lib userId m io

def MediaTable.title : MediaTable → String
  | .images => "Image"
  | .videos => "Video"

/-- `UPDATE ... SET deleted_at WHERE deleted_at IS [NOT] NULL`, with the answer for no row. -/
def setDeletedAt (table : MediaTable) (lib : Library) (hash : String) (userId : UserId)
    (where_ : LibraryRow → Bool) (deletedAt : Option Time) (missing : String) (io : DbIo) :
    RequestResponse × Library :=
  if io.connected ∧ io.stored then
    if (lib.rows table).any fun row => row.isOf userId hash && where_ row then
      (.success hash, lib.setRows table
        (updateRows userId hash where_ (fun row => { row with deletedAt }) (lib.rows table)))
    else (.notFound s!"{table.title} not found or {missing} deleted.", lib)
  else (.internalServerError "Database error", lib)

def softDeleteMedia (table : MediaTable) (lib : Library) (hash : String) (userId : UserId)
    (now : Time) (io : DbIo) : RequestResponse × Library :=
  setDeletedAt table lib hash userId (fun row => row.deletedAt = none) (some now) "already" io

def softRestoreMedia (table : MediaTable) (lib : Library) (hash : String) (userId : UserId)
    (io : DbIo) : RequestResponse × Library :=
  setDeletedAt table lib hash userId (fun row => row.deletedAt ≠ none) none "not" io

structure ExistenceCheckResult where
  existsForUser : Bool
  existsVerified : Bool
  deriving DecidableEq, Repr

def checkIfExists (lib : Library) (hash : String) (userId : UserId) (table : MediaTable) :
    ExistenceCheckResult :=
  { existsForUser := (lib.rows table).any fun row => row.isOf userId hash && row.deletedAt = none
    existsVerified := (lib.rows table).any fun row =>
      row.isOf userId hash && row.verificationStatus = 1 && row.deletedAt = none }

/-- A metadata upload that reaches the table. -/
def MetadataRequest.Accepted (m : MetadataRequest) (table : MediaTable) (userId : UserId)
    (io : DbIo) : Prop :=
  isValidContentHash m.hash = true ∧ isValidMediaExt m.ext = true ∧ io.connected = true ∧
    io.stored = true ∧ (m.row table userId).fits = true

instance (m : MetadataRequest) (table : MediaTable) (userId : UserId) (io : DbIo) :
    Decidable (m.Accepted table userId io) :=
  inferInstanceAs (Decidable (_ ∧ _ ∧ _ ∧ _ ∧ _))

/-- The insert of a metadata upload. -/
def Library.describe (lib : Library) (table : MediaTable) (userId : UserId) (m : MetadataRequest) :
    Library :=
  lib.setRows table
    (insertRow (m.row table userId) (mergeMetadata (m.row table userId)) (lib.rows table))

theorem uploadMetadata_lib (table : MediaTable) (lib : Library) (userId : UserId)
    (m : MetadataRequest) (io : DbIo) : (uploadMetadata table lib userId m io).2 =
      if m.Accepted table userId io then lib.describe table userId m else lib := by
  unfold uploadMetadata
  split
  next hhash =>
    split
    next hext =>
      split
      next hconnected =>
        simp only
        split
        next hstored =>
          have haccepted : m.Accepted table userId io := ⟨hhash, hext, hconnected, hstored⟩
          rw [if_pos haccepted, Library.describe]
        next hstored => rw [if_neg fun h : m.Accepted table userId io => hstored h.2.2.2]
      next hno => rw [if_neg fun h : m.Accepted table userId io => hno h.2.2.1]
    next hno => rw [if_neg fun h : m.Accepted table userId io => hno h.2.1]
  next hno => rw [if_neg fun h : m.Accepted table userId io => hno h.1]

theorem setDeletedAt_cases (table : MediaTable) (lib : Library) (hash : String) (userId : UserId)
    (where_ : LibraryRow → Bool) (deletedAt : Option Time) (missing : String) (io : DbIo) :
    (setDeletedAt table lib hash userId where_ deletedAt missing io).2 = lib ∨
      (setDeletedAt table lib hash userId where_ deletedAt missing io).2 = lib.setRows table
        (updateRows userId hash where_ (fun row => { row with deletedAt }) (lib.rows table)) := by
  unfold setDeletedAt
  split
  next =>
    split
    next => exact Or.inr rfl
    next => exact Or.inl rfl
  next => exact Or.inl rfl

end Reminisce

import Reminisce.LibraryRequests

namespace Reminisce

def rotateOrientationCw (current : Option Int) : Int :=
  match current.getD 1 with
  | 1 => 6
  | 6 => 3
  | 3 => 8
  | 8 => 1
  | 2 => 7
  | 7 => 4
  | 4 => 5
  | 5 => 2
  | _ => 6

def rotateOrientationCcw (current : Option Int) : Int :=
  match current.getD 1 with
  | 1 => 8
  | 8 => 3
  | 3 => 6
  | 6 => 1
  | 2 => 5
  | 5 => 4
  | 4 => 7
  | 7 => 2
  | _ => 8

def rotateOrientation180 (current : Option Int) : Int :=
  match current.getD 1 with
  | 1 => 3
  | 3 => 1
  | 6 => 8
  | 8 => 6
  | 2 => 4
  | 4 => 2
  | 5 => 7
  | 7 => 5
  | _ => 3

/-- The orientations that EXIF defines. -/
def ValidOrientation (o : Int) : Prop := 1 ≤ o ∧ o ≤ 8

instance (o : Int) : Decidable (ValidOrientation o) := inferInstanceAs (Decidable (_ ∧ _))

structure UpdateOrientationRequest where
  orientation : Option Int
  rotate : Option String
  deriving DecidableEq, Repr

inductive Rotation
  | cw
  | ccw
  | half
  deriving DecidableEq, Repr

def Rotation.apply : Rotation → Option Int → Int
  | .cw => rotateOrientationCw
  | .ccw => rotateOrientationCcw
  | .half => rotateOrientation180

/-- The direction that a word names, in any case of its letters. -/
def Rotation.parse (word : String) : Option Rotation :=
  let word := toLowercase word.toList
  if word = "cw" ∨ word = "90" ∨ word = "right" then some .cw
  else if word = "ccw" ∨ word = "-90" ∨ word = "270" ∨ word = "left" then some .ccw
  else if word = "180" then some .half
  else none

/-- The orientation that a request asks for. -/
def newOrientation (request : UpdateOrientationRequest) (current : Option Int) :
    Except RequestResponse Int :=
  match request.rotate with
  | some word =>
    match Rotation.parse word with
    | some rotation => .ok (rotation.apply current)
    | none => .error (.badRequest "Invalid rotate direction. Use 'cw', 'ccw', or '180'.")
  | none =>
    match request.orientation with
    | some o =>
      if ValidOrientation o then .ok o
      else .error (.badRequest "Orientation must be between 1 and 8")
    | none => .error (.badRequest "Either 'rotate' or 'orientation' must be specified")

/-- The orientation that a thumbnail is made with: the stored one if it is valid, else the file's,
else upright. -/
def thumbnailOrientation (codec : ImageCodec) (data : Bytes) (orientation : Option Int) : Nat :=
  match orientation.filter fun o => decide (ValidOrientation o) with
  | some o => o.toNat
  | none => (codec.exifOrientation data).getD 1

/-- The thumbnail of a file that decodes; `written` says whether its file can be written. -/
def generateThumbnailForImage (codec : ImageCodec) (data : Bytes) (orientation : Option Int)
    (written : Bool) : Option Thumbnail :=
  if codec.decodable data ∧ written then
    some (.image data (thumbnailOrientation codec data orientation))
  else none

/-- What a rotation meets: its reads, the thumbnail's file, and its statement. -/
structure OrientationIo where
  queried : Bool
  thumbWritten : Bool
  stored : Bool
  deriving DecidableEq, Repr

inductive OrientationResponse
  | updated (orientation : Int)
  | refused (response : RequestResponse)
  deriving DecidableEq, Repr

/-- `UPDATE images SET orientation, has_thumbnail`, of the live row. -/
def storeOrientation (userId : UserId) (hash : String) (orientation : Int) (hasThumbnail : Bool)
    (rows : List LibraryRow) : List LibraryRow :=
  updateRows userId hash (fun row => row.deletedAt = none)
    (fun row => { row with orientation := some orientation, hasThumbnail }) rows

/-- The last statement of a rotation. -/
def finishOrientation (lib : Library) (userId : UserId) (hash : String) (orientation : Int)
    (hasThumbnail : Bool) (io : OrientationIo) : OrientationResponse × Library :=
  if io.stored then
    (.updated orientation, lib.setRows .images
      (storeOrientation userId hash orientation hasThumbnail (lib.rows .images)))
  else (.refused (.internalServerError "Database error"), lib)

def updateImageOrientation (codec : ImageCodec) (lib : Library) (userId : UserId) (hash : String)
    (request : UpdateOrientationRequest) (io : OrientationIo) : OrientationResponse × Library :=
  if isValidContentHash hash then
    if io.queried then
      match liveRow (lib.rows .images) userId hash with
      | none => (.refused (.notFound "Image not found"), lib)
      | some row =>
        match newOrientation request row.orientation with
        | .error response => (.refused response, lib)
        | .ok o =>
          match safeResolveContentPath lib .images hash row.ext with
          | .ok data =>
            match generateThumbnailForImage codec data (some o) io.thumbWritten with
            | some thumb =>
              finishOrientation (lib.putThumb .images hash thumb) userId hash o true io
            | none =>
              (.refused (.internalServerError "Failed to regenerate thumbnail"), lib)
          | .error _ => finishOrientation lib userId hash o false io
    else (.refused (.internalServerError "Database error"), lib)
  else (.refused (.notFound "Image not found"), lib)

variable {codec : ImageCodec}

theorem Rotation.apply_valid (rotation : Rotation) (current : Option Int) :
    ValidOrientation (rotation.apply current) := by
  cases rotation with
  | cw =>
    show ValidOrientation (rotateOrientationCw current)
    unfold rotateOrientationCw
    split <;> decide
  | ccw =>
    show ValidOrientation (rotateOrientationCcw current)
    unfold rotateOrientationCcw
    split <;> decide
  | half =>
    show ValidOrientation (rotateOrientation180 current)
    unfold rotateOrientation180
    split <;> decide

/-- Every request that is not refused asks for an orientation that EXIF defines. -/
theorem newOrientation_valid {request : UpdateOrientationRequest} {current : Option Int} {o : Int}
    (h : newOrientation request current = .ok o) : ValidOrientation o := by
  unfold newOrientation at h
  split at h
  next =>
    split at h
    next => cases Except.ok.inj h; exact Rotation.apply_valid _ _
    next => simp at h
  next =>
    split at h
    next =>
      split at h
      next hvalid => cases Except.ok.inj h; exact hvalid
      next => simp at h
    next => simp at h

/-- What a rotation can do: nothing, a thumbnail without a row, or a row with or without one. -/
theorem updateImageOrientation_cases (codec : ImageCodec) (lib : Library) (userId : UserId)
    (hash : String) (request : UpdateOrientationRequest) (io : OrientationIo) :
    (updateImageOrientation codec lib userId hash request io).2 = lib ∨
      ∃ row o, liveRow (lib.rows .images) userId hash = some row ∧
        newOrientation request row.orientation = .ok o ∧
        ((∃ data thumb, safeResolveContentPath lib .images hash row.ext = .ok data ∧
            generateThumbnailForImage codec data (some o) io.thumbWritten = some thumb ∧
            (updateImageOrientation codec lib userId hash request io).2 =
              (finishOrientation (lib.putThumb .images hash thumb) userId hash o true io).2) ∨
          (updateImageOrientation codec lib userId hash request io).2 =
            (finishOrientation lib userId hash o false io).2) := by
  unfold updateImageOrientation
  split
  next =>
    split
    next =>
      split
      next => exact Or.inl rfl
      next row hrow =>
        split
        next => exact Or.inl rfl
        next o ho =>
          split
          next data hdata =>
            split
            next thumb hthumb =>
              exact Or.inr ⟨row, o, hrow, ho, Or.inl ⟨data, thumb, hdata, hthumb, rfl⟩⟩
            next => exact Or.inl rfl
          next => exact Or.inr ⟨row, o, hrow, ho, Or.inr rfl⟩
    next => exact Or.inl rfl
  next => exact Or.inl rfl

theorem finishOrientation_cases (lib : Library) (userId : UserId) (hash : String) (o : Int)
    (hasThumbnail : Bool) (io : OrientationIo) :
    (finishOrientation lib userId hash o hasThumbnail io).2 = lib ∨
      (finishOrientation lib userId hash o hasThumbnail io).2 = lib.setRows .images
        (storeOrientation userId hash o hasThumbnail (lib.rows .images)) := by
  unfold finishOrientation
  split
  next => exact Or.inr rfl
  next => exact Or.inl rfl

end Reminisce

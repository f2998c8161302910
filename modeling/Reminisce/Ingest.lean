import Reminisce.MediaLibrary
import Reminisce.PeerSync

namespace Reminisce

/-- The image and EXIF libraries: the fields as JSON, the orientation tag, and whether the
image decodes. -/
structure ImageCodec where
  exifFields : Bytes → Option String
  exifOrientation : Bytes → Option Nat
  decodable : Bytes → Bool

/-- The last component of a path, if it is a name. -/
def pathFileName (path : String) : Option (List Char) :=
  match (path.toList.splitOn '/').reverse.find? fun part => part ≠ [] ∧ part ≠ ['.'] with
  | none => none
  | some part => if part = ['.', '.'] then none else some part

/-- `Path::extension`, empty where there is none. -/
def pathExtension (path : String) : List Char :=
  match pathFileName path with
  | none => []
  | some file =>
    let ext := (file.reverse.takeWhile (· ≠ '.')).reverse
    if ext.length + 1 < file.length then ext else []

/-- `str::to_lowercase`, as far as the result can be an allowed extension: the Kelvin sign is
the one other character that becomes an ASCII letter. -/
def toLowercase (s : List Char) : String :=
  String.ofList (s.map fun c => if c = Char.ofNat 0x212A then 'k' else c.toLower)

def imageExts : List String :=
  ["jpg", "jpeg", "png", "gif", "webp", "heic", "heif", "tiff", "tif", "bmp"]

def videoExts : List String := ["mp4", "mov", "avi", "mkv", "webm", "m4v", "mpg", "mpeg"]

def allowedExts : MediaTable → List String
  | .images => imageExts
  | .videos => videoExts

/-- The bytes of an ASCII text. -/
def ascii (s : String) : Bytes := s.toList.map fun c => UInt8.ofNat c.toNat

def startsWith (data : Bytes) (first : Bytes) : Bool := data.take first.length = first

def ftypImages : List String :=
  ["heic", "heix", "hevc", "heim", "heis", "hevm", "hevs", "mif1", "avif"]

def ftypVideos : List String :=
  ["isom", "iso2", "mp41", "mp42", "avc1", "dash", "M4V ", "msf1", "avis", "qt  "]

/-- The kind of media by its leading bytes. A major brand that is in neither list falls through
to the later tests. -/
def sniffMediaKind (data : Bytes) : Option MediaTable :=
  let brand := (data.drop 8).take 4
  if startsWith data [0xFF, 0xD8, 0xFF] then some .images
  else if startsWith data (0x89 :: ascii "PNG") then some .images
  else if startsWith data (ascii "GIF8") then some .images
  else if 12 ≤ data.length ∧ startsWith data (ascii "RIFF") ∧ brand = ascii "WEBP" then some .images
  else if startsWith data (ascii "II*" ++ [0]) ∨ startsWith data (ascii "MM" ++ 0 :: ascii "*") then
    some .images
  else if startsWith data (ascii "BM") ∧ 6 < data.length then some .images
  else if 12 ≤ data.length ∧ (data.drop 4).take 4 = ascii "ftyp" ∧ brand ∈ ftypImages.map ascii then
    some .images
  else if 12 ≤ data.length ∧ (data.drop 4).take 4 = ascii "ftyp" ∧ brand ∈ ftypVideos.map ascii then
    some .videos
  else if 12 ≤ data.length ∧ startsWith data (ascii "RIFF") ∧ brand = ascii "AVI " then some .videos
  else if startsWith data [0x1A, 0x45, 0xDF, 0xA3] then some .videos
  else none

def MediaTable.kind : MediaTable → String
  | .images => "image"
  | .videos => "video"

inductive IngestError
  | rejected (message : String)
  | move
  | database
  deriving DecidableEq, Repr

def validateMediaFile (data : Bytes) (expected : MediaTable) (ext hash : String) :
    Except IngestError Unit :=
  if ext ∈ allowedExts expected then
    match sniffMediaKind (data.take 16) with
    | some kind =>
      if kind = expected then .ok ()
      else .error (.rejected
        s!"Rejected {hash}: content sniffs as {kind.kind} but was uploaded as {expected.kind}")
    | none => .error (.rejected s!"Rejected {hash}: unrecognized or non-media content")
  else .error (.rejected s!"Rejected {hash}: .{ext} is not an allowed {expected.kind} extension")

/-- What `rename_or_copy` comes to. Across file systems it copies the file and removes the original,
which can fail, and the copy can break off. -/
inductive MoveIo
  | renamed
  | refused
  | copied (removed : Bool)
  | torn (written : Nat)
  deriving DecidableEq, Repr

namespace MoveIo

/-- The whole file has reached its place. -/
def stores : MoveIo → Bool
  | .renamed | .copied _ => true
  | .refused | .torn _ => false

def succeeds : MoveIo → Bool
  | .renamed => true
  | .copied removed => removed
  | .refused | .torn _ => false

/-- The bytes of the file that are left at its place. -/
def left (data : Bytes) : MoveIo → Option Bytes
  | .renamed | .copied _ => some data
  | .refused => none
  | .torn written => some (data.take written)

theorem left_of_stores {data : Bytes} {move : MoveIo} (h : move.stores = true) :
    move.left data = some data := by
  cases move with
  | renamed | copied removed => rfl
  | refused | torn written => exact absurd h Bool.false_ne_true

theorem stores_of_succeeds {move : MoveIo} (h : move.succeeds = true) : move.stores = true := by
  cases move with
  | renamed | copied removed => rfl
  | refused | torn written => exact h

theorem left_isSome {data : Bytes} {move : MoveIo} (h : move ≠ .refused) :
    (move.left data).isSome = true := by
  cases move with
  | refused => exact absurd rfl h
  | _ => rfl

end MoveIo

/-- What the steps of an ingest meet. The date is the one that EXIF, the name or the client
gives, the place that of the geocoder. -/
structure IngestIo where
  now : Time
  move : MoveIo
  inserted : Bool
  sizeStored : Bool
  exifStored : Bool
  orientationStored : Bool
  bestDate : Option Time
  gps : Option GeoPoint
  place : Option String

structure IngestResult where
  hash : String
  name : String
  filename : String
  deriving DecidableEq, Repr

/-- The row of an ingest, with the defaults of the other columns. -/
def newRow (userId : UserId) (hash deviceId name ext : String) (now : Time) : LibraryRow :=
  { userId, hash, deviceId, createdAt := now, name, ext, exif := none, hasThumbnail := false
    lastVerifiedAt := none, verificationStatus := 0, location := none, place := none
    deletedAt := none, orientation := none, fileSizeBytes := none, aestheticScore := none }

/-- The size column, an INTEGER for images and a BIGINT for videos. -/
def storedSize : MediaTable → Nat → Int
  | .images, size => (min size (2 ^ 31 - 1) : Nat)
  | .videos, size => size

def exifExts : List String := ["jpg", "jpeg", "tiff", "tif", "heic", "heif"]

def withSize (table : MediaTable) (data : Bytes) (io : IngestIo) (row : LibraryRow) : LibraryRow :=
  if io.sizeStored then { row with fileSizeBytes := some (storedSize table data.length) } else row

def withOrientation (codec : ImageCodec) (data : Bytes) (io : IngestIo) (row : LibraryRow) :
    LibraryRow :=
  match codec.exifOrientation data with
  | some o =>
    if io.orientationStored ∧ row.orientation = none then
      { row with orientation := some (Int.bmod o (2 ^ 16)) }
    else row
  | none => row

/-- The EXIF columns that an image is given where they are empty. -/
def withExif (codec : ImageCodec) (data : Bytes) (ext : String) (io : IngestIo) (row : LibraryRow) :
    LibraryRow :=
  if ext ∈ exifExts then
    match codec.exifFields data with
    | none => row
    | some fields => withOrientation codec data io
        (if io.exifStored ∧ row.exif = none then { row with exif := some fields } else row)
  else row

/-- The best date, unless the row is older than a minute. -/
def withDate (io : IngestIo) (row : LibraryRow) : LibraryRow :=
  match io.bestDate with
  | some date => if io.now < row.createdAt + secs 60 then { row with createdAt := date } else row
  | none => row

def withPlace (io : IngestIo) (row : LibraryRow) : LibraryRow :=
  match io.gps with
  | some point =>
    if row.location = none then
      { row with location := some point, place := row.place <|> io.place }
    else row
  | none => row

/-- The updates that follow the insert; a failed one is passed over. -/
def describeRow (codec : ImageCodec) (table : MediaTable) (data : Bytes) (ext : String)
    (io : IngestIo) (row : LibraryRow) : LibraryRow :=
  match table with
  | .images => withPlace io (withDate io (withExif codec data ext io (withSize table data io row)))
  | .videos => withDate io (withSize table data io row)

/-- The steps that `process_image_file` and `process_video_file` share. -/
def processMediaFile (codec : ImageCodec) (table : MediaTable) (lib : Library) (data : Bytes)
    (name hash deviceId : String) (userId : UserId) (io : IngestIo) :
    Except IngestError IngestResult × Library :=
  let ext := toLowercase (pathExtension name)
  match validateMediaFile data table ext hash with
  | .error e => (.error e, lib)
  | .ok () =>
    let lib := ((io.move.left data).map (lib.putFile table hash ext)).getD lib
    if io.move.succeeds then
      let row := newRow userId hash deviceId name ext io.now
      if io.inserted ∧ row.fits then
        let rows := insertRow row (fun old => { old with deletedAt := none }) (lib.rows table)
        let rows := updateRows userId hash (fun _ => true) (describeRow codec table data ext io) rows
        (.ok { hash, name, filename := s!"{hash}.{ext}" }, lib.setRows table rows)
      else (.error .database, lib)
    else (.error .move, lib)

def processImageFile (codec : ImageCodec) (lib : Library) (data : Bytes)
    (name hash deviceId : String) (userId : UserId) (io : IngestIo) :
    Except IngestError IngestResult × Library :=
  processMediaFile codec .images lib data name hash deviceId userId io

def processVideoFile (codec : ImageCodec) (lib : Library) (data : Bytes)
    (name hash deviceId : String) (userId : UserId) (io : IngestIo) :
    Except IngestError IngestResult × Library :=
  processMediaFile codec .videos lib data name hash deviceId userId io

/-- Bytes and a name that the store takes. -/
def Ingestible (table : MediaTable) (data : Bytes) (name : String) : Prop :=
  toLowercase (pathExtension name) ∈ allowedExts table ∧ sniffMediaKind (data.take 16) = some table

instance (table : MediaTable) (data : Bytes) (name : String) :
    Decidable (Ingestible table data name) :=
  inferInstanceAs (Decidable (_ ∧ _))

variable {codec : ImageCodec} {table : MediaTable} {lib : Library} {data : Bytes}
  {name hash deviceId : String} {userId : UserId} {io : IngestIo}

theorem validateMediaFile_ok {ext : String} : validateMediaFile data table ext hash = .ok () ↔
    ext ∈ allowedExts table ∧ sniffMediaKind (data.take 16) = some table := by
  unfold validateMediaFile
  split
  next hext =>
    cases hkind : sniffMediaKind (data.take 16) with
    | none => simp
    | some kind =>
      by_cases heq : kind = table
      · simp [heq, hext]
      · simp [heq]
  next hext => simp [hext]

/-- A view of the rows that shows none of the columns that describe the content. -/
structure Undescribed {α : Type} (f : LibraryRow → α) : Prop where
  size : ∀ row n, f { row with fileSizeBytes := n } = f row
  exif : ∀ row e, f { row with exif := e } = f row
  orientation : ∀ row o, f { row with orientation := o } = f row
  createdAt : ∀ row t, f { row with createdAt := t } = f row
  location : ∀ row l p, f { row with location := l, place := p } = f row

theorem withExif_view {α : Type} {f : LibraryRow → α} (hf : Undescribed f) (ext : String)
    (row : LibraryRow) : f (withExif codec data ext io row) = f row := by
  have horientation : ∀ row, f (withOrientation codec data io row) = f row := by
    intro row
    unfold withOrientation
    split
    next =>
      split
      next => exact hf.orientation row _
      next => rfl
    next => rfl
  unfold withExif
  split
  next =>
    split
    next => rfl
    next =>
      rw [horientation]
      split
      next => exact hf.exif row _
      next => rfl
  next => rfl

theorem describeRow_view {α : Type} {f : LibraryRow → α} (hf : Undescribed f) (ext : String)
    (row : LibraryRow) : f (describeRow codec table data ext io row) = f row := by
  have hsize : ∀ table row, f (withSize table data io row) = f row := by
    intro table row
    unfold withSize
    split
    next => exact hf.size row _
    next => rfl
  have hdate : ∀ row, f (withDate io row) = f row := by
    intro row
    unfold withDate
    split
    next =>
      split
      next => exact hf.createdAt row _
      next => rfl
    next => rfl
  have hplace : ∀ row, f (withPlace io row) = f row := by
    intro row
    unfold withPlace
    split
    next =>
      split
      next => exact hf.location row _ _
      next => rfl
    next => rfl
  cases table with
  | images =>
    show f (withPlace io (withDate io (withExif codec data ext io _))) = f row
    rw [hplace, hdate, withExif_view hf, hsize]
  | videos =>
    show f (withDate io _) = f row
    rw [hdate, hsize]

/-- Libraries that find nothing in a file. -/
def plainCodec : ImageCodec :=
  { exifFields := fun _ => none, exifOrientation := fun _ => none, decodable := fun _ => true }

/-- An ingest of which every step succeeds. -/
def IngestIo.smooth (now : Time) : IngestIo :=
  { now, move := .renamed, inserted := true, sizeStored := true, exifStored := true
    orientationStored := true, bestDate := none, gps := none, place := none }

/-- An ingest whose copy, if it comes to one, does not break off. -/
structure WholeIngestIo extends IngestIo where
  whole : move = .refused ∨ move.stores = true

instance : Coe WholeIngestIo IngestIo := ⟨WholeIngestIo.toIngestIo⟩

theorem smooth_whole (now : Time) :
    (IngestIo.smooth now).move = .refused ∨ (IngestIo.smooth now).move.stores = true :=
  Or.inr rfl

def WholeIngestIo.smooth (now : Time) : WholeIngestIo := ⟨.smooth now, smooth_whole now⟩

example : sniffMediaKind (0 :: 0 :: 0 :: 24 :: ascii "ftypheic") = some .images := by decide

example : pathExtension "photos/IMG_1.JPG" = ['J', 'P', 'G'] := by decide

end Reminisce

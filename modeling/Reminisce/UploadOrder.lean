import Reminisce.LibraryRequests
import Reminisce.PhotoDates

namespace Reminisce

/-- What the two handlers take from libraries: the EXIF tags of a file with their JSON text, the
coordinates in the tags, the fixed answers of the geocoder, `str::to_lowercase`, and the parsers of
chrono for EXIF and RFC 3339 dates. -/
structure PhotoLibraries where
  exifTags : Bytes → Option (List (String × String))
  exifJson : List (String × String) → String
  exifOrientation : Bytes → Option Nat
  extractGpsCoordinates : List (String × String) → Option GeoPoint
  reverseGeocode : GeoPoint → Option String
  lowercase : String → String
  parseExifDate : String → Option Time
  parseRfc3339 : String → Option Time

/-- A file that `process_image_file` is called with. -/
structure PhotoFile where
  data : Bytes
  name : String
  deviceId : String
  clientCreatedAt : Option Time

/-- `UploadImageMetadataRequest`, less its type. -/
structure ImageMetadata where
  deviceId : String
  hash : String
  createdAt : Option String
  name : String
  ext : String
  exif : Option String
  hasThumbnail : Option Bool
  lastVerifiedAt : Option String
  verificationStatus : Option Int
  latitude : Option Rat
  longitude : Option Rat
  place : Option String

def PhotoLibraries.codec (libs : PhotoLibraries) : ImageCodec :=
  { exifFields := fun data => (libs.exifTags data).map libs.exifJson
    exifOrientation := libs.exifOrientation, decodable := fun _ => true }

namespace PhotoFile

def ext (f : PhotoFile) : String := toLowercase (pathExtension f.name)

/-- `extract_exif_from_image`. -/
def extractExif (libs : PhotoLibraries) (f : PhotoFile) : Option (List (String × String)) :=
  if f.ext ∈ exifExts then libs.exifTags f.data else none

def exifDate (libs : PhotoLibraries) (f : PhotoFile) : Option Time := do
  libs.parseExifDate (← (← f.extractExif libs).lookup "DateTimeOriginal")

/-- EXIF, then the name, then the client. -/
def bestDate (libs : PhotoLibraries) (f : PhotoFile) : Option Time :=
  f.exifDate libs <|> parseDateFromImageName libs.lowercase f.name <|> f.clientCreatedAt

def coordinates (libs : PhotoLibraries) (f : PhotoFile) : Option GeoPoint :=
  (f.extractExif libs).bind libs.extractGpsCoordinates

/-- An ingest at a time, of which every step succeeds. -/
def io (libs : PhotoLibraries) (f : PhotoFile) (now : Time) : IngestIo :=
  { IngestIo.smooth now with
    bestDate := f.bestDate libs
    gps := f.coordinates libs
    place := (f.coordinates libs).bind libs.reverseGeocode }

/-- The handler takes the file and the columns take its values. -/
def Accepted (f : PhotoFile) (userId : UserId) (hash : String) : Prop :=
  Ingestible .images f.data f.name ∧ (newRow userId hash f.deviceId f.name f.ext 0).fits = true

instance (f : PhotoFile) (userId : UserId) (hash : String) : Decidable (f.Accepted userId hash) :=
  inferInstanceAs (Decidable (_ ∧ _))

def upload (libs : PhotoLibraries) (f : PhotoFile) (userId : UserId) (hash : String) (now : Time)
    (lib : Library) : Library :=
  (processImageFile libs.codec lib f.data f.name hash f.deviceId userId (f.io libs now)).2

end PhotoFile

namespace ImageMetadata

/-- The date that the record gives, in its field or in its name. -/
def date (libs : PhotoLibraries) (m : ImageMetadata) : Option Time :=
  m.createdAt.bind libs.parseRfc3339 <|> parseDateFromImageName libs.lowercase m.name

def request (libs : PhotoLibraries) (m : ImageMetadata) (now : Time) : MetadataRequest :=
  { deviceId := m.deviceId, hash := m.hash, createdAt := (m.date libs).getD now, name := m.name
    ext := m.ext, exif := m.exif, hasThumbnail := m.hasThumbnail
    lastVerifiedAt := m.lastVerifiedAt.bind libs.parseRfc3339
    verificationStatus := m.verificationStatus, latitude := m.latitude, longitude := m.longitude
    place := m.place }

def upload (libs : PhotoLibraries) (m : ImageMetadata) (userId : UserId) (now : Time)
    (lib : Library) : Library :=
  (uploadImageMetadata lib userId (m.request libs now) ⟨true, true⟩).2

end ImageMetadata

/-- The row of a user's image, deleted or not. -/
def imageRow (lib : Library) (userId : UserId) (hash : String) : Option LibraryRow :=
  (lib.rows .images).find? (·.isOf userId hash)

section

variable (libs : PhotoLibraries) (m : ImageMetadata) (f : PhotoFile) (userId : UserId)
  (first second : Time) (lib : Library)

def metadataFirst : Option LibraryRow :=
  imageRow (f.upload libs userId m.hash second (m.upload libs userId first lib)) userId m.hash

def contentFirst : Option LibraryRow :=
  imageRow (m.upload libs userId second (f.upload libs userId m.hash first lib)) userId m.hash

/-- The columns that both uploads describe. -/
structure SameDescription (a b : LibraryRow) : Prop where
  createdAt : a.createdAt = b.createdAt
  location : a.location = b.location
  place : a.place = b.place
  exif : a.exif = b.exif
  orientation : a.orientation = b.orientation
  ext : a.ext = b.ext

/-- Both orders end in rows with one description, without a location if none was given. -/
structure UploadsCommute : Prop where
  agree : ∃ a b, metadataFirst libs m f userId first second lib = some a ∧
    contentFirst libs m f userId first second lib = some b ∧ SameDescription a b
  unlocated : f.coordinates libs = none → m.latitude = none → m.longitude = none →
    ∀ row, metadataFirst libs m f userId first second lib = some row ∨
      contentFirst libs m f userId first second lib = some row → row.location = none

/-- The EXIF data or the record has coordinates. -/
def Located : Prop :=
  (f.coordinates libs).isSome = true ∨ m.latitude.isSome = true ∨ m.longitude.isSome = true

/-- The date that the record leaves is the file's, or so late that the file's replaces it; if the
file has none, it is the time of the upload. -/
def DatesAgree : Prop :=
  match f.bestDate libs with
  | some date => (m.date libs).getD first = date ∨ second < (m.date libs).getD first + secs 60
  | none => (m.date libs).getD first = first

instance : Decidable (Located libs m f) := inferInstanceAs (Decidable (_ ∨ _ ∨ _))

instance : Decidable (DatesAgree libs m f first second) := by
  unfold DatesAgree
  split
  next => exact instDecidableOr
  next => exact Nat.decEq _ _

end

variable {libs : PhotoLibraries} {m : ImageMetadata} {f : PhotoFile} {userId : UserId}
  {first second now : Time} {lib : Library} {hash : String} {row old new : LibraryRow}
  {rows : List LibraryRow} {change : LibraryRow → LibraryRow}

theorem find_insertRow_fresh (huser : new.userId = userId) (hhash : new.hash = hash)
    (h : rows.find? (·.isOf userId hash) = none) :
    (insertRow new change rows).find? (·.isOf userId hash) = some new := by
  subst huser hhash
  have hnone : ¬rows.any (·.isOf new.userId new.hash) := by
    rw [List.any_eq_true]
    rintro ⟨row, hrow, hkey⟩
    exact List.find?_eq_none.mp h row hrow hkey
  unfold insertRow
  rw [if_neg hnone, List.find?_append, h]
  simp [LibraryRow.isOf]

theorem find_mapRow (hchange : ∀ row, (change row).isOf userId hash = row.isOf userId hash)
    (h : rows.find? (·.isOf userId hash) = some old) :
    (rows.map fun row => if row.isOf userId hash then change row else row).find?
      (·.isOf userId hash) = some (change old) := by
  have hsame : ((·.isOf userId hash) ∘ fun row => if row.isOf userId hash then change row else row) =
      (·.isOf userId hash) := by
    funext row
    simp only [Function.comp_apply]
    split
    next => exact hchange row
    next => rfl
  have hkey : old.isOf userId hash = true := List.find?_some h
  rw [List.find?_map, hsame, h, Option.map_some, if_pos hkey]

theorem find_insertRow_known (huser : new.userId = userId) (hhash : new.hash = hash)
    (hchange : ∀ row, (change row).isOf userId hash = row.isOf userId hash)
    (h : rows.find? (·.isOf userId hash) = some old) :
    (insertRow new change rows).find? (·.isOf userId hash) = some (change old) := by
  subst huser hhash
  have hany : rows.any (·.isOf new.userId new.hash) :=
    List.any_eq_true.mpr ⟨old, List.mem_of_find?_eq_some h, List.find?_some h⟩
  unfold insertRow
  rw [if_pos hany]
  exact find_mapRow hchange h

theorem find_updateRows (hchange : ∀ row, (change row).isOf userId hash = row.isOf userId hash)
    (h : rows.find? (·.isOf userId hash) = some old) :
    (updateRows userId hash (fun _ => true) change rows).find? (·.isOf userId hash) =
      some (change old) := by
  unfold updateRows
  simp only [Bool.and_true]
  exact find_mapRow hchange h

theorem describeRow_isOf {codec : ImageCodec} {data : Bytes} {ext : String} {io : IngestIo}
    (row : LibraryRow) :
    (describeRow codec .images data ext io row).isOf userId hash = row.isOf userId hash :=
  describeRow_view (f := LibraryRow.isOf userId hash)
    ⟨fun _ _ => rfl, fun _ _ => rfl, fun _ _ => rfl, fun _ _ => rfl, fun _ _ _ => rfl⟩ ext row

/-- An upload of a file describes the row that is there, or a new one. -/
theorem upload_row (h : f.Accepted userId hash)
    (hrow : imageRow lib userId hash = none ∧ row = newRow userId hash f.deviceId f.name f.ext now ∨
      ∃ old, imageRow lib userId hash = some old ∧ row = { old with deletedAt := none }) :
    imageRow (f.upload libs userId hash now lib) userId hash =
      some (describeRow libs.codec .images f.data f.ext (f.io libs now) row) := by
  obtain ⟨hingestible, hfits⟩ := h
  have hvalid : validateMediaFile f.data .images f.ext hash = .ok () :=
    validateMediaFile_ok.mpr hingestible
  have hleft : (f.io libs now).move.left f.data = some f.data := rfl
  have hmoved : (f.io libs now).move.succeeds = true := rfl
  have hstored : (f.io libs now).inserted = true ∧
      (newRow userId hash f.deviceId f.name f.ext (f.io libs now).now).fits = true := ⟨rfl, hfits⟩
  have hupload : (f.upload libs userId hash now lib).rows .images =
      updateRows userId hash (fun _ => true)
        (describeRow libs.codec .images f.data f.ext (f.io libs now))
        (insertRow (newRow userId hash f.deviceId f.name f.ext now)
          (fun old => { old with deletedAt := none }) (lib.rows .images)) := by
    unfold PhotoFile.upload processImageFile processMediaFile
    simp only [show toLowercase (pathExtension f.name) = f.ext from rfl, hvalid]
    rw [hleft, if_pos hmoved, if_pos hstored]
    exact Library.setRows_rows ..
  unfold imageRow at hrow ⊢
  rw [hupload]
  refine find_updateRows describeRow_isOf ?_
  rcases hrow with ⟨hnone, rfl⟩ | ⟨old, hold, rfl⟩
  · exact find_insertRow_fresh rfl rfl hnone
  · exact find_insertRow_known rfl rfl (fun _ => rfl) hold

/-- A metadata upload merges its row into the one that is there. -/
theorem metadata_row (h : (m.request libs now).Accepted .images userId ⟨true, true⟩)
    (hrow : imageRow lib userId m.hash = none ∧ row = (m.request libs now).row .images userId ∨
      ∃ old, imageRow lib userId m.hash = some old ∧
        row = mergeMetadata ((m.request libs now).row .images userId) old) :
    imageRow (m.upload libs userId now lib) userId m.hash = some row := by
  have hupload : m.upload libs userId now lib = lib.describe .images userId (m.request libs now) :=
    (uploadMetadata_lib .images lib userId (m.request libs now) ⟨true, true⟩).trans (if_pos h)
  unfold imageRow at hrow ⊢
  rw [hupload, Library.describe, Library.setRows_rows]
  rcases hrow with ⟨hnone, rfl⟩ | ⟨old, hold, rfl⟩
  · exact find_insertRow_fresh rfl rfl hnone
  · exact find_insertRow_known rfl rfl (fun _ => rfl) hold

/-- The orientation that an ingest finds in a file. -/
def PhotoFile.orientation (libs : PhotoLibraries) (f : PhotoFile) : Option Int :=
  (f.extractExif libs).bind fun _ => (libs.exifOrientation f.data).map fun o => Int.bmod o (2 ^ 16)

theorem withOrientation_smooth (row : LibraryRow) :
    withOrientation libs.codec f.data (f.io libs now) row = { row with
      orientation := row.orientation <|>
        (libs.exifOrientation f.data).map fun o => Int.bmod o (2 ^ 16) } := by
  unfold withOrientation
  have hcodec : libs.codec.exifOrientation f.data = libs.exifOrientation f.data := rfl
  rw [hcodec]
  cases libs.exifOrientation f.data with
  | none => simp
  | some o =>
    cases hold : row.orientation with
    | none =>
      simp only
      rw [if_pos ⟨rfl, trivial⟩]
      rfl
    | some old =>
      simp only
      rw [if_neg (by simp)]
      cases row
      cases hold
      rfl

/-- The EXIF columns of an ingest: what the row has, then what the file has. -/
theorem withExif_smooth (row : LibraryRow) :
    withExif libs.codec f.data f.ext (f.io libs now) row = { row with
      exif := row.exif <|> (f.extractExif libs).map libs.exifJson
      orientation := row.orientation <|> f.orientation libs } := by
  unfold withExif PhotoFile.orientation PhotoFile.extractExif
  have hcodec : libs.codec.exifFields f.data = (libs.exifTags f.data).map libs.exifJson := rfl
  split
  next =>
    rw [hcodec]
    cases libs.exifTags f.data with
    | none => simp
    | some tags =>
      simp only [Option.map_some, Option.bind_some]
      rw [withOrientation_smooth]
      cases hold : row.exif with
      | none =>
        rw [if_pos ⟨rfl, rfl⟩]
        rfl
      | some old =>
        rw [if_neg (by simp)]
        cases row
        cases hold
        rfl
  next => simp

theorem withDate_createdAt (row : LibraryRow) : (withDate (f.io libs now) row).createdAt =
    match f.bestDate libs with
    | some date => if now < row.createdAt + secs 60 then date else row.createdAt
    | none => row.createdAt := by
  unfold withDate
  have hio : (f.io libs now).bestDate = f.bestDate libs := rfl
  rw [hio]
  cases f.bestDate libs with
  | none => rfl
  | some date =>
    simp only
    show (if now < row.createdAt + secs 60 then _ else _ : LibraryRow).createdAt = _
    split
    next => rfl
    next => rfl

/-- A view of the rows that the date, the location and the place do not change. -/
theorem describeRow_exifView {α : Type} {g : LibraryRow → α} (libs : PhotoLibraries)
    (f : PhotoFile) (now : Time)
    (hdate : ∀ row t, g { row with createdAt := t } = g row)
    (hplace : ∀ row l p, g { row with location := l, place := p } = g row)
    (row : LibraryRow) :
    g (describeRow libs.codec .images f.data f.ext (f.io libs now) row) =
      g (withExif libs.codec f.data f.ext (f.io libs now)
        (withSize .images f.data (f.io libs now) row)) := by
  have hdated : ∀ row, g (withDate (f.io libs now) row) = g row := by
    intro row
    unfold withDate
    split
    next =>
      split
      next => exact hdate row _
      next => rfl
    next => rfl
  have hplaced : ∀ row, g (withPlace (f.io libs now) row) = g row := by
    intro row
    unfold withPlace
    split
    next =>
      split
      next => exact hplace row _ _
      next => rfl
    next => rfl
  exact (hplaced _).trans (hdated _)

theorem describeRow_exif (row : LibraryRow) :
    (describeRow libs.codec .images f.data f.ext (f.io libs now) row).exif =
      (row.exif <|> (f.extractExif libs).map libs.exifJson) := by
  have hview := describeRow_exifView (g := LibraryRow.exif) libs f now (fun _ _ => rfl)
    (fun _ _ _ => rfl) row
  rw [hview, withExif_smooth]
  rfl

theorem describeRow_orientation (row : LibraryRow) :
    (describeRow libs.codec .images f.data f.ext (f.io libs now) row).orientation =
      (row.orientation <|> f.orientation libs) := by
  have hview := describeRow_exifView (g := LibraryRow.orientation) libs f now (fun _ _ => rfl)
    (fun _ _ _ => rfl) row
  rw [hview, withExif_smooth]
  rfl

theorem describeRow_createdAt (row : LibraryRow) :
    (describeRow libs.codec .images f.data f.ext (f.io libs now) row).createdAt =
      match f.bestDate libs with
      | some date => if now < row.createdAt + secs 60 then date else row.createdAt
      | none => row.createdAt := by
  have hplaced : ∀ row, (withPlace (f.io libs now) row).createdAt = row.createdAt := by
    intro row
    unfold withPlace
    split
    next => split <;> rfl
    next => rfl
  have hexif : (withExif libs.codec f.data f.ext (f.io libs now)
      (withSize .images f.data (f.io libs now) row)).createdAt = row.createdAt := by
    rw [withExif_smooth]
    rfl
  unfold describeRow
  simp only
  rw [hplaced, withDate_createdAt, hexif]

/-- An ingest leaves the place of a row that has a location. -/
theorem describeRow_location (libs : PhotoLibraries) (f : PhotoFile) (now : Time) (h : row.location.isSome = true) :
    (describeRow libs.codec .images f.data f.ext (f.io libs now) row).location = row.location ∧
      (describeRow libs.codec .images f.data f.ext (f.io libs now) row).place = row.place := by
  let dated := withDate (f.io libs now) (withExif libs.codec f.data f.ext (f.io libs now)
    (withSize .images f.data (f.io libs now) row))
  have hdated : dated.location = row.location ∧ dated.place = row.place := by
    simp only [dated]
    rw [withExif_smooth]
    unfold withDate
    split
    next =>
      split
      next => exact ⟨rfl, rfl⟩
      next => exact ⟨rfl, rfl⟩
    next => exact ⟨rfl, rfl⟩
  have hsome : ¬dated.location = none := by
    rw [hdated.1]
    exact Option.isSome_iff_ne_none.mp h
  show (withPlace (f.io libs now) dated).location = _ ∧ (withPlace (f.io libs now) dated).place = _
  unfold withPlace
  split
  next =>
    rw [if_neg hsome]
    exact hdated
  next => exact hdated

/-- The point of a record, where a missing coordinate is zero. -/
def ImageMetadata.point (m : ImageMetadata) : GeoPoint :=
  { lon := m.longitude.getD 0, lat := m.latitude.getD 0 }

/-- A metadata upload leaves the orientation and the date of a row that is there. -/
theorem mergeMetadata_keeps (new old : LibraryRow) :
    (mergeMetadata new old).orientation = old.orientation ∧
      (mergeMetadata new old).createdAt = old.createdAt :=
  ⟨rfl, rfl⟩

/-- Whatever the order, all but the date is the record's, completed by the file. -/
theorem uploads_rows (second : Time) (lib : Library)
    (hm : (m.request libs first).Accepted .images userId ⟨true, true⟩)
    (hf : f.Accepted userId m.hash) (hnew : imageRow lib userId m.hash = none) :
    ∃ a b, metadataFirst libs m f userId first second lib = some a ∧
      contentFirst libs m f userId first second lib = some b ∧
      a.location = some m.point ∧ b.location = some m.point ∧ a.place = b.place ∧
      a.exif = b.exif ∧ a.orientation = b.orientation ∧ a.ext = b.ext ∧
      (a.createdAt = b.createdAt ↔ DatesAgree libs m f first second) := by
  have hm' : (m.request libs second).Accepted .images userId ⟨true, true⟩ := hm
  let record := (m.request libs first).row .images userId
  let record' := (m.request libs second).row .images userId
  let fresh := newRow userId m.hash f.deviceId f.name f.ext first
  let described := describeRow libs.codec .images f.data f.ext (f.io libs second) record
  let described' := describeRow libs.codec .images f.data f.ext (f.io libs first) fresh
  have ha : metadataFirst libs m f userId first second lib = some described :=
    upload_row hf (Or.inr ⟨record, metadata_row hm (Or.inl ⟨hnew, rfl⟩), rfl⟩)
  have hb : contentFirst libs m f userId first second lib =
      some (mergeMetadata record' described') :=
    metadata_row hm' (Or.inr ⟨described', upload_row hf (Or.inl ⟨hnew, rfl⟩), rfl⟩)
  obtain ⟨hlocation, hplace⟩ :=
    describeRow_location libs f second (show record.location.isSome = true from rfl)
  refine ⟨described, mergeMetadata record' described', ha, hb, hlocation, rfl, hplace, ?_, ?_, ?_, ?_⟩
  · show described.exif = (record'.exif <|> described'.exif)
    have hfresh : fresh.exif = none := rfl
    have hsame : record'.exif = record.exif := rfl
    have hnone : ∀ e : Option String, (none <|> e) = e := fun _ => rfl
    rw [describeRow_exif, describeRow_exif, hfresh, hsame, hnone]
  · rw [(mergeMetadata_keeps _ _).1]
    have hrecord : record.orientation = none := rfl
    have hfresh : fresh.orientation = none := rfl
    rw [describeRow_orientation, describeRow_orientation, hfresh, hrecord]
  · exact describeRow_view (f := LibraryRow.ext)
      ⟨fun _ _ => rfl, fun _ _ => rfl, fun _ _ => rfl, fun _ _ => rfl, fun _ _ _ => rfl⟩ _ _
  · rw [(mergeMetadata_keeps _ _).2]
    have hcreated : record.createdAt = (m.date libs).getD first := rfl
    have hfresh : fresh.createdAt = first := rfl
    rw [describeRow_createdAt, describeRow_createdAt, hcreated, hfresh]
    unfold DatesAgree
    cases f.bestDate libs with
    | none => exact Iff.rfl
    | some date =>
      have hnow : first < first + secs 60 := Nat.lt_add_of_pos_right (by decide)
      simp only
      rw [if_pos hnow]
      split
      next hlate => exact iff_of_true rfl (Or.inr hlate)
      next hearly => exact ⟨Or.inl, fun h => h.resolve_right hearly⟩

/-- The uploads of a file and of a record commute exactly when one of them has coordinates and
their dates agree. -/
theorem uploads_commute_iff (hm : (m.request libs first).Accepted .images userId ⟨true, true⟩)
    (hf : f.Accepted userId m.hash) (hnew : imageRow lib userId m.hash = none) :
    UploadsCommute libs m f userId first second lib ↔
      Located libs m f ∧ DatesAgree libs m f first second := by
  obtain ⟨a, b, ha, hb, haloc, hbloc, hplace, hexif, horientation, hext, hdates⟩ :=
    uploads_rows second lib hm hf hnew
  constructor
  · intro h
    refine ⟨?_, ?_⟩
    · by_contra hnone
      simp only [Located, not_or, Bool.not_eq_true, Option.isSome_eq_false_iff,
        Option.isNone_iff_eq_none] at hnone
      have hlocation := h.unlocated hnone.1 hnone.2.1 hnone.2.2 a (Or.inl ha)
      rw [haloc] at hlocation
      simp at hlocation
    · obtain ⟨a', b', ha', hb', hsame⟩ := h.agree
      cases Option.some.inj (ha.symm.trans ha')
      cases Option.some.inj (hb.symm.trans hb')
      exact hdates.mp hsame.createdAt
  · rintro ⟨hlocated, hdate⟩
    refine ⟨⟨a, b, ha, hb, hdates.mpr hdate, haloc.trans hbloc.symm, hplace, hexif, horientation,
      hext⟩, ?_⟩
    intro hcoordinates hlat hlon
    simp [Located, hcoordinates, hlat, hlon] at hlocated

/-- Libraries that find nothing in a file and lower ASCII letters. -/
def plainLibraries : PhotoLibraries :=
  { exifTags := fun _ => none, exifJson := fun _ => "", exifOrientation := fun _ => none
    extractGpsCoordinates := fun _ => none, reverseGeocode := fun _ => none
    lowercase := fun s => String.ofList (s.toList.map Char.toLower)
    parseExifDate := fun _ => none, parseRfc3339 := fun _ => none }

/-- A JPEG file without EXIF data. -/
def plainPhoto (name : String) : PhotoFile :=
  { data := [0xFF, 0xD8, 0xFF], name, deviceId := "phone", clientCreatedAt := none }

/-- A record that gives a name and at most a latitude. -/
def plainRecord (name : String) (latitude : Option Rat) : ImageMetadata :=
  { deviceId := "phone", hash := String.ofList (List.replicate 64 'a'), createdAt := none, name
    ext := "jpg", exif := none, hasThumbnail := none, lastVerifiedAt := none
    verificationStatus := none, latitude, longitude := none, place := none }

/-- The moment of an upload in 2024. -/
def uploadTime : Time := secs (secsPerDay * (daysBeforeYear 2024 + 40))

/-- The date in the file's name is taken in both orders when the record has none. -/
theorem uploads_commute_named :
    UploadsCommute plainLibraries (plainRecord "photo.jpg" (some 48))
      (plainPhoto "IMG_20210615_143025.jpg") 7 uploadTime (uploadTime + secs 5) Library.empty :=
  (uploads_commute_iff (by decide +kernel) (by decide +kernel) rfl).mpr
    ⟨by decide +kernel, by decide +kernel⟩

/-- The date of a record is kept only if it comes first, and an image of which nobody knows the
place is put at zero degrees. -/
theorem uploads_disagree :
    (¬ ∀ (libs : PhotoLibraries) (m : ImageMetadata) (f : PhotoFile) (userId : UserId)
      (first second : Time) (lib : Library), first ≤ second →
      (m.request libs first).Accepted .images userId ⟨true, true⟩ → f.Accepted userId m.hash →
      imageRow lib userId m.hash = none →
      ∃ a b, metadataFirst libs m f userId first second lib = some a ∧
        contentFirst libs m f userId first second lib = some b ∧ SameDescription a b) ∧
    ¬ ∀ (libs : PhotoLibraries) (m : ImageMetadata) (f : PhotoFile) (userId : UserId)
      (first second : Time) (lib : Library), first ≤ second →
      (m.request libs first).Accepted .images userId ⟨true, true⟩ → f.Accepted userId m.hash →
      imageRow lib userId m.hash = none → f.coordinates libs = none → m.latitude = none →
      m.longitude = none → ∀ row, metadataFirst libs m f userId first second lib = some row ∨
        contentFirst libs m f userId first second lib = some row → row.location = none := by
  let m := plainRecord "IMG-20210615-WA0007.jpg" none
  let f := plainPhoto "photo.jpg"
  have hm : (m.request plainLibraries uploadTime).Accepted .images 7 ⟨true, true⟩ := by
    decide +kernel
  have hf : f.Accepted 7 m.hash := by decide +kernel
  have hle : uploadTime ≤ uploadTime + secs 5 := Nat.le_add_right _ _
  obtain ⟨a, b, ha, hb, hlocation, -, -, -, -, -, hdates⟩ :=
    uploads_rows (uploadTime + secs 5) Library.empty hm hf rfl
  constructor
  · intro h
    obtain ⟨a', b', ha', hb', hsame⟩ := h plainLibraries m f 7 uploadTime (uploadTime + secs 5)
      Library.empty hle hm hf rfl
    cases Option.some.inj (ha.symm.trans ha')
    cases Option.some.inj (hb.symm.trans hb')
    have hno : ¬DatesAgree plainLibraries m f uploadTime (uploadTime + secs 5) := by decide +kernel
    exact hno (hdates.mp hsame.createdAt)
  · intro h
    have hcoordinates : f.coordinates plainLibraries = none := by decide +kernel
    have hnone := h plainLibraries m f 7 uploadTime (uploadTime + secs 5) Library.empty hle hm hf
      rfl hcoordinates rfl rfl a (Or.inl ha)
    rw [hlocation] at hnone
    simp at hnone

end Reminisce

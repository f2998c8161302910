import Reminisce.ImageOrientation

namespace Reminisce

/-- The bytes that `get_image` sends: the file, its EXIF orientation ensured, or its pixels
turned. -/
inductive ImageBody
  | raw (data : Bytes)
  | exifOriented (data : Bytes) (orientation : Nat)
  | rotatedPng (data : Bytes) (orientation : Nat)
  deriving DecidableEq, Repr

/-- The file that the sent bytes are made from. -/
def ImageBody.source : ImageBody → Bytes
  | .raw data => data
  | .exifOriented data _ => data
  | .rotatedPng data _ => data

inductive MediaResponse (Body : Type)
  | served (name : String) (place : Option String) (isInline : Bool) (body : Body)
  | notFound (message : String)
  | internalServerError (message : String)
  deriving DecidableEq, Repr

def imageBody (row : LibraryRow) (data : Bytes) : ImageBody :=
  match row.orientation.filter fun o => decide (ValidOrientation o) with
  | some o =>
    let ext := toLowercase row.ext.toList
    if ext = "jpg" ∨ ext = "jpeg" then .exifOriented data o.toNat
    else if row.exif = none ∧ ext = "png" ∧ 1 < o then .rotatedPng data o.toNat
    else .raw data
  | none => .raw data

/-- The database answers, and the file can be read. -/
structure ReadIo where
  queried : Bool
  read : Bool
  deriving DecidableEq, Repr

def getImage (lib : Library) (userId : UserId) (hash : String) (io : ReadIo) :
    MediaResponse ImageBody :=
  if io.queried then
    match liveRow (lib.rows .images) userId hash with
    | none => .notFound "Image not found."
    | some row =>
      match safeResolveContentPath lib .images hash row.ext with
      | .error _ => .notFound "Image not found"
      | .ok data =>
        if io.read then
          .served row.name row.place (decide (toLowercase row.ext.toList ∈ imageExts))
            (imageBody row data)
        else .internalServerError "Could not read image file."
  else .internalServerError "Failed to retrieve image info"

def inlineSafeVideoExts : List String := ["mp4", "mov", "webm", "m4v"]

def getVideo (lib : Library) (userId : UserId) (hash : String) (io : ReadIo) :
    MediaResponse Bytes :=
  if io.queried then
    match liveRow (lib.rows .videos) userId hash with
    | none => .notFound "Video not found."
    | some row =>
      match safeResolveContentPath lib .videos hash row.ext with
      | .error _ => .notFound "Video not found"
      | .ok data =>
        if io.read then
          .served row.name none (decide (toLowercase row.ext.toList ∈ inlineSafeVideoExts)) data
        else .internalServerError "Could not open video file for streaming."
  else .internalServerError "Failed to retrieve video info"

/-- What a thumbnail request meets: its query, the reads of the two files, and whether the
statement for each table is executed that follows a miss. -/
structure ThumbnailIo where
  queried : Bool
  read : MediaTable → Bool
  reset : MediaTable → Bool

inductive ThumbnailResponse
  | served (thumb : Thumbnail)
  | notFound (message : String)
  | internalServerError (message : String)
  deriving DecidableEq, Repr

/-- `UPDATE ... SET has_thumbnail = false WHERE hash AND has_thumbnail = true`: every owner's. -/
def resetThumbnailRows (hash : String) (rows : List LibraryRow) : List LibraryRow :=
  rows.map fun row => if row.hash = hash ∧ row.hasThumbnail = true then
    { row with hasThumbnail := false } else row

def resetThumbnail (lib : Library) (hash : String) (io : ThumbnailIo) : Library :=
  { lib with rows := fun t =>
      if io.reset t then resetThumbnailRows hash (lib.rows t) else lib.rows t }

def getThumbnail (lib : Library) (userId : UserId) (hash : String) (io : ThumbnailIo) :
    ThumbnailResponse × Library :=
  if isValidContentHash hash then
    if io.queried then
      if (liveRow (lib.rows .images) userId hash).isSome ∨
          (liveRow (lib.rows .videos) userId hash).isSome then
        match lib.thumbs .images hash with
        | some thumb =>
          if io.read .images then (.served thumb, lib)
          else (.internalServerError "Could not read thumbnail file.", lib)
        | none =>
          match lib.thumbs .videos hash with
          | some thumb =>
            if io.read .videos then (.served thumb, lib)
            else (.internalServerError "Could not read thumbnail file.", lib)
          | none => (.notFound "Thumbnail not found.", resetThumbnail lib hash io)
      else (.notFound "Thumbnail not found", lib)
    else (.internalServerError "Database error", lib)
  else (.notFound "Thumbnail not found", lib)

/-- A thumbnail shows the file it was made from. -/
def Thumbnail.source : Thumbnail → Bytes
  | .image source _ => source
  | .video source => source

/-- The tables that a listing covers; `all` is the union. -/
inductive ListTable
  | only (table : MediaTable)
  | all
  deriving DecidableEq, Repr

inductive SortBy
  | date
  | size
  | quality
  deriving DecidableEq, Repr

/-- The location filter, with the distance in metres that PostGIS computes. -/
structure Nearby where
  distance : GeoPoint → Rat
  radius : Rat

/-- The filters, order and page of a listing. A date that is given but does not parse leaves the
statement a parameter short. -/
structure ListQuery where
  page : Nat
  limit : Nat
  mediaType : String
  starredOnly : Bool
  labelId : Option Nat
  deviceId : Option String
  startDate : Option (Option Time)
  endDate : Option (Option Time)
  location : Option Nearby
  sortBy : SortBy
  ascending : Bool
  noExif : Bool

structure ThumbnailItem where
  hash : String
  name : String
  createdAt : Time
  place : Option String
  deviceId : String
  starred : Bool
  distanceKm : Option Rat
  mediaType : MediaTable
  fileSizeBytes : Option Int
  aestheticScore : Option Rat
  deriving DecidableEq, Repr

def matchesDates (q : ListQuery) (row : LibraryRow) : Bool :=
  (match q.startDate with
    | some (some start) => decide (start ≤ row.createdAt)
    | _ => true) &&
  (match q.endDate with
    | some (some stop) => decide (row.createdAt < stop)
    | _ => true)

def matchesLocation (q : ListQuery) (table : MediaTable) (combined : Bool) (row : LibraryRow) :
    Bool :=
  match q.location, table with
  | none, _ => true
  | some near, .images => match row.location with
    | some point => decide (near.distance point ≤ near.radius)
    | none => false
  | some _, .videos => !combined

/-- The `WHERE` clause that `list_thumbnails` and `total_thumbnails` share. -/
def LibraryRow.listed (lib : Library) (userId : UserId) (q : ListQuery) (table : MediaTable)
    (combined : Bool) (row : LibraryRow) : Bool :=
  row.deletedAt = none && row.userId = userId &&
  (match q.deviceId with
    | some device => decide (row.deviceId = device)
    | none => true) &&
  !(q.mediaType = "image" && table = .videos || q.mediaType = "video" && table = .images) &&
  (!q.starredOnly || (userId, row.hash) ∈ lib.starred table) &&
  (match q.labelId with
    | some label => decide ((userId, row.hash, label) ∈ lib.labels table)
    | none => true) &&
  matchesDates q row && (!(q.noExif && table = .images) || row.exif = none) &&
  matchesLocation q table combined row

def thumbnailItem (lib : Library) (userId : UserId) (q : ListQuery) (table : MediaTable)
    (row : LibraryRow) : ThumbnailItem :=
  { hash := row.hash, name := row.name, createdAt := row.createdAt
    place := match table with
      | .images => row.place
      | .videos => none
    deviceId := row.deviceId, starred := decide ((userId, row.hash) ∈ lib.starred table)
    distanceKm := match table, q.location, row.location with
      | .images, some near, some point => some (near.distance point / 1000)
      | _, _, _ => none
    mediaType := table, fileSizeBytes := row.fileSizeBytes
    aestheticScore := match table with
      | .images => row.aestheticScore
      | .videos => none }

/-- The order of an optional column with `NULLS LAST`, whichever way it runs. -/
def keyLe {α : Type} [LE α] [DecidableLE α] (ascending : Bool) : Option α → Option α → Bool
  | some a, some b => if ascending then a ≤ b else b ≤ a
  | some _, none => true
  | none, some _ => false
  | none, none => true

/-- `ORDER BY` the chosen column and then the hash. -/
def itemLe (q : ListQuery) (a b : ThumbnailItem) : Bool :=
  let key {α : Type} [LE α] [DecidableLE α] (x y : Option α) : Bool :=
    keyLe q.ascending x y && (!keyLe q.ascending y x || keyLe q.ascending (some a.hash) b.hash)
  match q.sortBy with
  | .date => key (some a.createdAt) (some b.createdAt)
  | .size => key a.fileSizeBytes b.fileSizeBytes
  | .quality => key a.aestheticScore b.aestheticScore

/-- `DISTINCT ON (hash)`, the best score first. -/
def distinctByHash (items : List ThumbnailItem) : List ThumbnailItem :=
  let sorted := items.mergeSort fun a b => keyLe false a.aestheticScore b.aestheticScore
  sorted.foldl (fun kept item => if kept.any (·.hash = item.hash) then kept else kept ++ [item]) []

def tableItems (lib : Library) (userId : UserId) (q : ListQuery) (combined : Bool)
    (table : MediaTable) : List ThumbnailItem :=
  ((lib.rows table).filter (LibraryRow.listed lib userId q table combined)).map
    (thumbnailItem lib userId q table)

/-- A given date has to parse. -/
def ListQuery.wellFormed (q : ListQuery) : Bool := q.startDate ≠ some none && q.endDate ≠ some none

/-- One page of the listing, `none` when the statement is refused. -/
def listThumbnails (lib : Library) (userId : UserId) (q : ListQuery) (tables : ListTable) :
    Option (List ThumbnailItem) :=
  if q.wellFormed then
    let items := match tables with
      | .only table => tableItems lib userId q false table
      | .all => distinctByHash
          (tableItems lib userId q true .images ++ tableItems lib userId q true .videos)
    some (((items.mergeSort (itemLe q)).drop ((max q.page 1 - 1) * q.limit)).take q.limit)
  else none

def tableTotal (lib : Library) (userId : UserId) (q : ListQuery) (combined : Bool)
    (table : MediaTable) : Nat :=
  (lib.rows table).countP fun row =>
    row.hasThumbnail && LibraryRow.listed lib userId q table combined row

/-- The number that the listing reports beside its page, `0` when its statement is refused. -/
def totalThumbnails (lib : Library) (userId : UserId) (q : ListQuery) (tables : ListTable) : Nat :=
  if q.wellFormed then
    match tables with
    | .only table => tableTotal lib userId q false table
    | .all => tableTotal lib userId q true .images + tableTotal lib userId q true .videos
  else 0

structure ThumbnailsResponse where
  thumbnails : List ThumbnailItem
  total : Nat
  page : Nat
  limit : Nat
  deriving DecidableEq, Repr

def listMediaThumbnails (lib : Library) (userId : UserId) (q : ListQuery) (tables : ListTable) :
    Option ThumbnailsResponse :=
  (listThumbnails lib userId q tables).map fun thumbnails =>
    { thumbnails, total := totalThumbnails lib userId q tables, page := max q.page 1
      limit := q.limit }

end Reminisce

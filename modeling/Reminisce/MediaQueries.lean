import Reminisce.MachineInts
import Reminisce.SqlStatements

namespace Reminisce

def allowedTables : List String :=
  ["images", "videos", "starred_images", "starred_videos", "p2p_shards", "users", "persons",
    "faces", "image_labels", "video_labels"]

def validateTableName (table : String) : Bool := decide (table ∈ allowedTables)

theorem validateTableName_plain {table : String} (h : validateTableName table) : isPlain table := by
  have hall : ∀ t ∈ allowedTables, isPlain t := by decide +kernel
  exact hall table (of_decide_eq_true h)

def safeFallbackQuery : Sql := [sqlText "SELECT 1 WHERE false"]

/-- The builder of the listing queries, with a validated table where it says so. -/
structure MediaQueryBuilder where
  table : String
  conditions : List SqlCondition
  paramCount : Nat
  userIdParam : Option Nat
  labelIdParam : Option Nat
  tableValidated : Bool
  valid : tableValidated → validateTableName table

namespace MediaQueryBuilder

def new (table : String) : MediaQueryBuilder where
  table := table
  conditions := [sqlCondition "t.deleted_at IS NULL" []]
  paramCount := 0
  userIdParam := none
  labelIdParam := none
  tableValidated := validateTableName table
  valid h := h

variable (b : MediaQueryBuilder)

def addCondition (c : SqlCondition) : MediaQueryBuilder :=
  { b with conditions := b.conditions ++ [c] }

/-- Another parameter, with the condition that asks for it. -/
def addParam (c : Nat → SqlCondition) : MediaQueryBuilder :=
  { b with
    paramCount := b.paramCount + 1
    conditions := b.conditions ++ [c (b.paramCount + 1)] }

def withUserId : MediaQueryBuilder :=
  { b with paramCount := b.paramCount + 1, userIdParam := some (b.paramCount + 1) }

def withDeviceId : MediaQueryBuilder :=
  b.addParam fun n => sqlCondition "t.deviceid = " [.param .device n]

def withUserIdFilter : MediaQueryBuilder :=
  match b.userIdParam with
  | some n => b.addCondition (sqlCondition "t.user_id = " [.param .user n])
  | none => b

def withStarredOnly : MediaQueryBuilder := b.addCondition (sqlCondition "s.hash IS NOT NULL" [])

def withLabelId : MediaQueryBuilder :=
  { b with paramCount := b.paramCount + 1, labelIdParam := some (b.paramCount + 1) }

def withHasThumbnail : MediaQueryBuilder :=
  b.addCondition (sqlCondition "t.has_thumbnail = true" [])

def withNoExif : MediaQueryBuilder := b.addCondition (sqlCondition "t.exif IS NULL" [])

def isImagesTable : Bool := b.table = "images"

def isVideosTable : Bool := b.table = "videos"

def withStartDate : MediaQueryBuilder :=
  b.addParam fun n => sqlCondition "t.created_at >= " [.param .startDate n]

def withEndDate : MediaQueryBuilder :=
  b.addParam fun n => sqlCondition "t.created_at < " [.param .endDate n]

/-- The columns of a listing, with the distance if there is a location. -/
def selectClause (lonParam latParam : Option Nat) : Sql :=
  if b.isImagesTable then
    [sqlText "SELECT t.hash, t.name, t.created_at, t.place, t.deviceid, ",
      sqlText "CASE WHEN s.hash IS NOT NULL THEN true ELSE false END as starred, "] ++
    (match lonParam, latParam with
      | some lon, some lat =>
        [sqlText "ST_Distance(t.location, ST_MakePoint(", .param .lon lon, sqlText ", ",
          .param .lat lat, sqlText ")::geography) / 1000.0 as distance_km, "]
      | _, _ => [sqlText "NULL::double precision as distance_km, "]) ++
    [sqlText "'image' as media_type, t.file_size_bytes::bigint as file_size_bytes, ",
      sqlText "t.aesthetic_score"]
  else
    [sqlText "SELECT t.hash, t.name, t.created_at, NULL as place, t.deviceid, ",
      sqlText "CASE WHEN s.hash IS NOT NULL THEN true ELSE false END as starred, ",
      sqlText "NULL::double precision as distance_km, ",
      sqlText "'video' as media_type, t.file_size_bytes as file_size_bytes, ",
      sqlText "NULL::real as aesthetic_score"]

def starredTable : SqlPiece :=
  if b.isImagesTable then sqlText "starred_images" else sqlText "starred_videos"

/-- The join with the stars, which asks for the user if there is one. -/
def starredJoin (kind : SqlPiece) : Sql :=
  [kind, b.starredTable, sqlText " s ON t.hash = s.hash"] ++
    match b.userIdParam with
    | some n => [sqlText " AND s.user_id = ", .param .user n]
    | none => []

def labelJoin : Sql :=
  match b.labelIdParam with
  | some n =>
    (if b.isImagesTable then
      [sqlText "INNER JOIN image_labels l ON t.hash = l.image_hash ",
        sqlText "AND t.user_id = l.image_user_id AND l.label_id = "]
    else
      [sqlText "INNER JOIN video_labels l ON t.hash = l.video_hash ",
        sqlText "AND t.user_id = l.video_user_id AND l.label_id = "]) ++ [.param .label n]
  | none => []

def buildSelectBody (lonParam latParam : Option Nat) : Sql :=
  if h : b.tableValidated then
    b.selectClause lonParam latParam ++
      [sqlText " FROM ", .text b.table (validateTableName_plain (b.valid h)), sqlText " t "] ++
      b.starredJoin (sqlText "LEFT JOIN ") ++ [sqlText " "] ++ b.labelJoin ++ [sqlText " "] ++
      whereClause b.conditions
  else safeFallbackQuery

/-- `ORDER BY`, with the column of the dates and of the hash as the query calls them. -/
def orderClause (createdAt hash : SqlPiece) (sortBy sortOrder : Option String) : Sql :=
  let dir := if sortOrder = some "asc" then sqlText "ASC" else sqlText "DESC"
  if sortBy = some "size" then
    [sqlText "ORDER BY file_size_bytes ", dir, sqlText " NULLS LAST, hash ", dir]
  else if sortBy = some "quality" then
    [sqlText "ORDER BY aesthetic_score ", dir, sqlText " NULLS LAST, hash ", dir]
  else [sqlText "ORDER BY ", createdAt, sqlText " ", dir, sqlText ", ", hash, sqlText " ", dir]

def pageClause (limitParam offsetParam : Nat) : Sql :=
  [sqlText " LIMIT ", .param .limit limitParam, sqlText " OFFSET ", .param .offset offsetParam]

def buildSelectQuery (limitParam offsetParam : Nat) (lonParam latParam : Option Nat)
    (sortBy sortOrder : Option String) : Sql :=
  if b.tableValidated then
    b.buildSelectBody lonParam latParam ++ [sqlText " "] ++
      orderClause (sqlText "t.created_at") (sqlText "t.hash") sortBy sortOrder ++
      pageClause limitParam offsetParam
  else safeFallbackQuery

def buildCountQuery (useInnerJoin : Bool) : Sql :=
  if h : b.tableValidated then
    [sqlText "SELECT COUNT(*) FROM ", .text b.table (validateTableName_plain (b.valid h)),
      sqlText " t "] ++
      (if useInnerJoin then b.starredJoin (sqlText "INNER JOIN ")
        else if b.userIdParam.isSome then b.starredJoin (sqlText "LEFT JOIN ") else []) ++
      [sqlText " "] ++ b.labelJoin ++ [sqlText " "] ++ whereClause b.conditions
  else safeFallbackQuery

end MediaQueryBuilder

/-- `NaiveDate::parse_from_str` with `%Y-%m-%d`, in days, the last day there is, and `Display` of
floats. -/
structure QueryLibs where
  parseDate : String → Option Int
  lastDate : Int
  showFloat : Rat → String
  showFloat_plain : ∀ x, noDollar (showFloat x)

/-- A float within a text. -/
def QueryLibs.floatText (libs : QueryLibs) (before : String) (x : Rat) (after : String)
    (plain : isPlain before := by exact isPlain_ofList rfl)
    (hne : before ≠ "" := by decide)
    (h : noDollar after := by exact noDollar_ofList rfl) : SqlPiece :=
  .text (before ++ (libs.showFloat x ++ after))
    (isPlain_append plain (noDollar_append (libs.showFloat_plain x) h) hne)

/-- The start of a day in seconds, `none` where the text is no date. -/
def QueryLibs.startDatetime (libs : QueryLibs) (d : String) : Option Int :=
  (libs.parseDate d).map fun day => 86400 * day

/-- A second after the last one of a day. -/
def QueryLibs.endDatetime (libs : QueryLibs) (d : String) : Option Int :=
  (libs.parseDate d).bind fun day =>
    if day < libs.lastDate then some (86400 * day + 86399 + 1) else none

structure ThumbnailArgs where
  userUuid : UserId
  deviceId : Option String
  table : String
  mediaType : String
  offset : Nat
  limit : Nat
  starredOnly : Bool
  startDate : Option String
  endDate : Option String
  locationLat : Option Rat
  locationLon : Option Rat
  locationRadiusKm : Option Rat
  labelId : Option Int
  applyUserIdFilter : Bool
  noExif : Bool
  sortBy : Option String
  sortOrder : Option String

namespace ThumbnailArgs

variable (libs : QueryLibs) (args : ThumbnailArgs)

def hasLocationFilter : Bool := args.locationLat.isSome && args.locationLon.isSome

/-- `apply_filters` of both functions; the count starts with one more condition. -/
def applyFilters (builder : MediaQueryBuilder) : MediaQueryBuilder :=
  let b := builder.withUserId
  let b := if args.applyUserIdFilter then b.withUserIdFilter else b
  let b := if args.deviceId.isSome then b.withDeviceId else b
  let b := if args.mediaType = "image" && !b.isImagesTable ||
      args.mediaType = "video" && !b.isVideosTable then
    b.addCondition (sqlCondition "1 = 0" []) else b
  let b := if args.starredOnly then b.withStarredOnly else b
  let b := if args.labelId.isSome then b.withLabelId else b
  let b := if args.startDate.isSome then b.withStartDate else b
  let b := if args.endDate.isSome then b.withEndDate else b
  if args.noExif && b.isImagesTable then b.withNoExif else b

def addLocation (b : MediaQueryBuilder) : MediaQueryBuilder :=
  (b.addCondition (sqlCondition "t.location IS NOT NULL" [])).addCondition
    (sqlCondition "ST_DWithin(t.location, ST_MakePoint("
      [.param .lon (b.paramCount + 1), sqlText ", ", .param .lat (b.paramCount + 2),
        libs.floatText ")::geography, " (args.locationRadiusKm.getD 10 * 1000) ")"])

/-- The parameters up to the dates. -/
def filterParams : List SqlValue :=
  [.uuid args.userUuid] ++ (args.deviceId.map SqlValue.text).toList ++
    (args.labelId.map SqlValue.int4).toList ++
    ((args.startDate.bind libs.startDatetime).map SqlValue.timestamptz).toList ++
    ((args.endDate.bind libs.endDatetime).map SqlValue.timestamptz).toList

/-- The parameters of the point, which are pushed where the query asks for it. -/
def pointParams (lonParamIdx : Option Nat) : List SqlValue :=
  if lonParamIdx.isSome then
    (args.locationLon.map SqlValue.float8).toList ++ (args.locationLat.map SqlValue.float8).toList
  else []

end ThumbnailArgs

/-- A builder with its filters, and the numbers of the point if its query asks for it. -/
structure FilteredBuilder where
  builder : MediaQueryBuilder
  lonParam : Option Nat
  latParam : Option Nat
  paramCount : Nat

/-- The builder of a table that has locations. -/
def locatedBuilder (libs : QueryLibs) (args : ThumbnailArgs) (b : MediaQueryBuilder) :
    FilteredBuilder :=
  if args.hasLocationFilter then
    ⟨args.addLocation libs b, some (b.paramCount + 1), some (b.paramCount + 2), b.paramCount + 2⟩
  else ⟨b, none, none, b.paramCount⟩

/-- The builder of the videos beside the images, which a location leaves out. -/
def unlocatedVideos (args : ThumbnailArgs) (b : MediaQueryBuilder) : MediaQueryBuilder :=
  if args.hasLocationFilter then b.addCondition (sqlCondition "1 = 0" []) else b

/-- The builder of one table, where only `images` has locations. -/
def tableBuilder (libs : QueryLibs) (args : ThumbnailArgs) (b : MediaQueryBuilder) :
    FilteredBuilder :=
  if args.table = "images" then locatedBuilder libs args b else ⟨b, none, none, b.paramCount⟩

def listThumbnailsStatement (libs : QueryLibs) (args : ThumbnailArgs) : SqlStatement :=
  let filtered := if args.table = "all" then
      locatedBuilder libs args (args.applyFilters (.new "images"))
    else tableBuilder libs args (args.applyFilters (.new args.table))
  let limitParam := filtered.paramCount + 1
  let offsetParam := filtered.paramCount + 2
  { sql :=
      if args.table = "all" then
        [sqlText "SELECT * FROM (SELECT DISTINCT ON (hash) hash, name, created_at, place, ",
          sqlText "deviceid, starred, distance_km, media_type, file_size_bytes, aesthetic_score ",
          sqlText "FROM ("] ++
          filtered.builder.buildSelectBody filtered.lonParam filtered.latParam ++
          [sqlText " UNION ALL "] ++
          (unlocatedVideos args (args.applyFilters (.new "videos"))).buildSelectBody none none ++
          [sqlText ") combined ORDER BY hash, aesthetic_score DESC NULLS LAST) deduped "] ++
          MediaQueryBuilder.orderClause (sqlText "created_at") (sqlText "hash") args.sortBy
            args.sortOrder ++
          MediaQueryBuilder.pageClause limitParam offsetParam
      else
        filtered.builder.buildSelectQuery limitParam offsetParam filtered.lonParam
          filtered.latParam args.sortBy args.sortOrder
    params := args.filterParams libs ++ args.pointParams filtered.lonParam ++
      [.int8 (asI64 args.limit), .int8 (asI64 args.offset)] }

def totalThumbnailsStatement (libs : QueryLibs) (args : ThumbnailArgs) : SqlStatement :=
  let filtered := if args.table = "all" then
      locatedBuilder libs args (args.applyFilters (MediaQueryBuilder.new "images").withHasThumbnail)
    else tableBuilder libs args
      (args.applyFilters (MediaQueryBuilder.new args.table).withHasThumbnail)
  { sql :=
      if args.table = "all" then
        [sqlText "SELECT ("] ++ filtered.builder.buildCountQuery args.starredOnly ++
          [sqlText ") + ("] ++
          (unlocatedVideos args (args.applyFilters
            (MediaQueryBuilder.new "videos").withHasThumbnail)).buildCountQuery args.starredOnly ++
          [sqlText ")"]
      else filtered.builder.buildCountQuery args.starredOnly
    params := args.filterParams libs ++ args.pointParams filtered.lonParam }

/-- The values that the clauses of a listing ask for. -/
def ThumbnailArgs.wanted (libs : QueryLibs) (args : ThumbnailArgs) : Slot → Option SqlValue
  | .user => some (.uuid args.userUuid)
  | .device => args.deviceId.map .text
  | .label => args.labelId.map .int4
  | .startDate => (args.startDate.bind libs.startDatetime).map .timestamptz
  | .endDate => (args.endDate.bind libs.endDatetime).map .timestamptz
  | .lon => args.locationLon.map .float8
  | .lat => args.locationLat.map .float8
  | .limit => some (.int8 (asI64 args.limit))
  | .offset => some (.int8 (asI64 args.offset))
  | _ => none

namespace MediaQueryBuilder

variable {b : MediaQueryBuilder} {order : List Slot}

/-- The table with the answer of its validation, which no filter changes. -/
def source (b : MediaQueryBuilder) : String × Bool := (b.table, b.tableValidated)

theorem source_withUserIdFilter (b : MediaQueryBuilder) :
    b.withUserIdFilter.source = b.source := by
  unfold withUserIdFilter
  split <;> rfl

theorem source_ite {p : Prop} [Decidable p] {b' b₀ : MediaQueryBuilder}
    (h : b.source = b₀.source) (h' : b'.source = b.source) :
    (if p then b' else b).source = b₀.source := by
  split
  next => exact h'.trans h
  next => exact h

/-- The placeholders that the parts of a builder ask for. -/
def slots (b : MediaQueryBuilder) : List (Slot × Nat) :=
  b.userIdParam.toList.map (Prod.mk .user) ++ b.labelIdParam.toList.map (Prod.mk .label) ++
    b.conditions.flatMap fun c => Sql.slots c.rest

/-- The parameters of a builder are counted in this order. -/
structure Numbered (b : MediaQueryBuilder) (order : List Slot) : Prop where
  count : b.paramCount = order.length
  numbers : Numbers b.slots order
  user : .user ∈ order ↔ b.userIdParam.isSome
  label : .label ∈ order ↔ b.labelIdParam.isSome

theorem slots_starredJoin (b : MediaQueryBuilder) (s : String) (plain : isPlain s) :
    Sql.slots (b.starredJoin (.text s plain)) = b.userIdParam.toList.map (Prod.mk .user) := by
  unfold starredJoin starredTable
  cases b.userIdParam with
  | none => split <;> rfl
  | some n => split <;> rfl

theorem slots_labelJoin (b : MediaQueryBuilder) :
    Sql.slots b.labelJoin = b.labelIdParam.toList.map (Prod.mk .label) := by
  cases hlabel : b.labelIdParam with
  | none => simp [labelJoin, hlabel]
  | some n =>
    by_cases himages : b.isImagesTable
    · simp [labelJoin, hlabel, himages]
    · simp [labelJoin, hlabel, himages]

theorem Numbered.addCondition (h : Numbered b order) {c : SqlCondition}
    (hc : ∀ p ∈ Sql.slots c.rest, Placed order p) : Numbered (b.addCondition c) order := by
  refine ⟨h.count, h.numbers.again ?_ ?_, h.user, h.label⟩
  · intro p hp
    simp only [slots, MediaQueryBuilder.addCondition, List.flatMap_append, List.mem_append] at hp ⊢
    tauto
  · intro p hp
    simp only [slots, MediaQueryBuilder.addCondition, List.flatMap_append, List.mem_append,
      List.flatMap_singleton] at hp
    rcases hp with hp | hp | hp
    · exact h.numbers.1 p (List.mem_append_left _ (List.mem_append.mpr hp))
    · exact h.numbers.1 p (List.mem_append_right _ hp)
    · exact hc p hp

theorem Numbered.addParam (h : Numbered b order) {c : Nat → SqlCondition} {s : Slot}
    (hc : ∀ n, Sql.slots (c n).rest = [(s, n)]) (huser : s ≠ .user) (hlabel : s ≠ .label) :
    Numbered (b.addParam c) (order ++ [s]) := by
  refine ⟨by simp [MediaQueryBuilder.addParam, h.count], h.numbers.concat fun p => ?_, ?_, ?_⟩
  · simp [slots, MediaQueryBuilder.addParam, h.count, hc, or_assoc]
  · simpa [huser.symm, MediaQueryBuilder.addParam] using h.user
  · simpa [hlabel.symm, MediaQueryBuilder.addParam] using h.label

theorem Numbered.withUserId (h : Numbered b order) (hnone : .user ∉ order) :
    Numbered b.withUserId (order ++ [.user]) := by
  have huser : b.userIdParam = none := by simpa using mt h.user.mpr hnone
  refine ⟨by simp [MediaQueryBuilder.withUserId, h.count], h.numbers.concat fun p => ?_, ?_, ?_⟩
  · simp only [slots, MediaQueryBuilder.withUserId, huser, h.count, Option.toList_some,
      Option.toList_none, List.map_cons, List.map_nil, List.mem_append, List.mem_singleton,
      List.not_mem_nil, false_or]
    tauto
  · simp [MediaQueryBuilder.withUserId]
  · simpa [MediaQueryBuilder.withUserId] using h.label

theorem Numbered.withLabelId (h : Numbered b order) (hnone : .label ∉ order) :
    Numbered b.withLabelId (order ++ [.label]) := by
  have hlabel : b.labelIdParam = none := by simpa using mt h.label.mpr hnone
  refine ⟨by simp [MediaQueryBuilder.withLabelId, h.count], h.numbers.concat fun p => ?_, ?_, ?_⟩
  · simp only [slots, MediaQueryBuilder.withLabelId, hlabel, h.count, Option.toList_some,
      Option.toList_none, List.map_cons, List.map_nil, List.mem_append, List.mem_singleton,
      List.not_mem_nil, or_false]
    tauto
  · simpa [MediaQueryBuilder.withLabelId] using h.user
  · simp [MediaQueryBuilder.withLabelId]

theorem Numbered.withUserIdFilter (h : Numbered b order) : Numbered b.withUserIdFilter order := by
  unfold MediaQueryBuilder.withUserIdFilter
  cases hn : b.userIdParam with
  | none => exact h
  | some n =>
    refine h.addCondition fun p hp => ?_
    have heq : p = (.user, n) := by simpa [sqlCondition] using hp
    rw [heq]
    exact h.numbers.1 _ (by simp [slots, hn])

/-- A condition without parameters. -/
theorem Numbered.addText (h : Numbered b order) {c : SqlCondition} (hc : Sql.slots c.rest = []) :
    Numbered (b.addCondition c) order :=
  h.addCondition fun _ hp => absurd (hc ▸ hp) List.not_mem_nil

theorem Numbered.withDeviceId (h : Numbered b order) :
    Numbered b.withDeviceId (order ++ [.device]) :=
  h.addParam (fun _ => rfl) (by decide) (by decide)

theorem Numbered.withStartDate (h : Numbered b order) :
    Numbered b.withStartDate (order ++ [.startDate]) :=
  h.addParam (fun _ => rfl) (by decide) (by decide)

theorem Numbered.withEndDate (h : Numbered b order) :
    Numbered b.withEndDate (order ++ [.endDate]) :=
  h.addParam (fun _ => rfl) (by decide) (by decide)

theorem Numbered.ite {p : Prop} [Decidable p] {b' : MediaQueryBuilder} {more : List Slot}
    (h : Numbered b order) (h' : Numbered b order → Numbered b' (order ++ more)) :
    Numbered (if p then b' else b) (order ++ if p then more else []) := by
  by_cases hp : p
  · rw [if_pos hp, if_pos hp]
    exact h' h
  · rw [if_neg hp, if_neg hp, List.append_nil]
    exact h

theorem Numbered.iteText {p : Prop} [Decidable p] {b' : MediaQueryBuilder}
    (h : Numbered b order) (h' : Numbered b order → Numbered b' order) :
    Numbered (if p then b' else b) order := by
  split
  next => exact h' h
  next => exact h

theorem numbered_new (table : String) : Numbered (new table) [] :=
  ⟨rfl, ⟨by simp [new, slots, sqlCondition], by simp⟩, by simp [new], by simp [new]⟩

end MediaQueryBuilder

namespace ThumbnailArgs

/-- The slots of the filters, in the order they are counted in. -/
def filterOrder (args : ThumbnailArgs) : List Slot :=
  [.user] ++ (if args.deviceId.isSome then [.device] else []) ++
    (if args.labelId.isSome then [.label] else []) ++
    (if args.startDate.isSome then [.startDate] else []) ++
    if args.endDate.isSome then [.endDate] else []

theorem applyFilters_numbered (args : ThumbnailArgs) {b : MediaQueryBuilder}
    (h : b.Numbered []) : (args.applyFilters b).Numbered args.filterOrder := by
  have hlabel : .label ∉ [Slot.user] ++ if args.deviceId.isSome then [.device] else [] := by
    split <;> decide
  refine .iteText ?_ fun h => h.addText rfl
  refine .ite ?_ .withEndDate
  refine .ite ?_ .withStartDate
  refine .ite ?_ fun h => h.withLabelId hlabel
  refine .iteText ?_ fun h => h.addText rfl
  refine .iteText ?_ fun h => h.addText rfl
  refine .ite ?_ .withDeviceId
  refine .iteText ?_ .withUserIdFilter
  exact h.withUserId List.not_mem_nil

theorem source_applyFilters (args : ThumbnailArgs) (b : MediaQueryBuilder) :
    (args.applyFilters b).source = b.source := by
  unfold applyFilters
  refine MediaQueryBuilder.source_ite ?_ rfl
  refine MediaQueryBuilder.source_ite ?_ rfl
  refine MediaQueryBuilder.source_ite ?_ rfl
  refine MediaQueryBuilder.source_ite ?_ rfl
  refine MediaQueryBuilder.source_ite ?_ rfl
  refine MediaQueryBuilder.source_ite ?_ rfl
  refine MediaQueryBuilder.source_ite ?_ rfl
  exact MediaQueryBuilder.source_ite rfl (MediaQueryBuilder.source_withUserIdFilter _)

/-- The slots with those of the point, if the query asks for it. -/
def pointOrder (point : Bool) : List Slot := if point then [.lon, .lat] else []

theorem filterMap_ite_isSome {A : Type} {wanted : Slot → Option SqlValue} {s : Slot} {o : Option A}
    (h : o = none → wanted s = none) :
    (if o.isSome then [s] else []).filterMap wanted = (wanted s).toList := by
  cases o with
  | none => rw [h rfl]; rfl
  | some a => simp [List.filterMap_cons]; cases wanted s <;> rfl

theorem filterParams_eq (libs : QueryLibs) (args : ThumbnailArgs) :
    args.filterParams libs = args.filterOrder.filterMap (args.wanted libs) := by
  unfold filterParams filterOrder
  simp only [List.filterMap_append]
  rw [filterMap_ite_isSome (fun h => by simp [wanted, h]),
    filterMap_ite_isSome (fun h => by simp [wanted, h]),
    filterMap_ite_isSome (fun h => by simp [wanted, h]),
    filterMap_ite_isSome (fun h => by simp [wanted, h])]
  rfl

theorem pointParams_eq (libs : QueryLibs) (args : ThumbnailArgs) {point : Bool} {n : Nat}
    (h : point → args.hasLocationFilter) :
    args.pointParams (if point then some n else none) =
      (pointOrder point).filterMap (args.wanted libs) := by
  cases point with
  | false => rfl
  | true =>
    obtain ⟨hlat, hlon⟩ := Bool.and_eq_true_iff.mp (h rfl)
    obtain ⟨lat, hlat⟩ := Option.isSome_iff_exists.mp hlat
    obtain ⟨lon, hlon⟩ := Option.isSome_iff_exists.mp hlon
    simp [pointParams, pointOrder, wanted, hlat, hlon]

end ThumbnailArgs

namespace FilteredBuilder

/-- The parameters of the filters and of the point are counted in this order. -/
structure Numbered (f : FilteredBuilder) (order : List Slot) (point : Bool) : Prop where
  count : f.paramCount = (order ++ ThumbnailArgs.pointOrder point).length
  numbers : Numbers f.builder.slots (order ++ ThumbnailArgs.pointOrder point)
  user : f.builder.userIdParam.isSome
  lon : f.lonParam = if point then some (order.length + 1) else none
  lat : f.latParam = if point then some (order.length + 2) else none

variable {order : List Slot} {b : MediaQueryBuilder}

theorem numbered_unlocated (h : b.Numbered order) (huser : .user ∈ order) :
    Numbered ⟨b, none, none, b.paramCount⟩ order false := by
  refine ⟨?_, ?_, h.user.mp huser, rfl, rfl⟩
  · simpa [ThumbnailArgs.pointOrder] using h.count
  · simpa [ThumbnailArgs.pointOrder] using h.numbers

theorem numbered_located (h : b.Numbered order) (huser : .user ∈ order) (libs : QueryLibs)
    (args : ThumbnailArgs) :
    Numbered ⟨args.addLocation libs b, some (b.paramCount + 1), some (b.paramCount + 2),
      b.paramCount + 2⟩ order true := by
  refine ⟨?_, ?_, h.user.mp huser, ?_, ?_⟩
  · simp [ThumbnailArgs.pointOrder, h.count]
  · have hlon : Numbers (b.slots ++ [(.lon, b.paramCount + 1)]) (order ++ [.lon]) :=
      h.numbers.concat (by simp [h.count])
    have hlat : Numbers (args.addLocation libs b).slots (order ++ [.lon] ++ [.lat]) := by
      refine hlon.concat fun p => ?_
      simp [ThumbnailArgs.addLocation, MediaQueryBuilder.addCondition, MediaQueryBuilder.slots,
        sqlCondition, QueryLibs.floatText, h.count, or_assoc]
    simpa [ThumbnailArgs.pointOrder] using hlat
  · simp [h.count]
  · simp [h.count]

theorem numbered_locatedBuilder (h : b.Numbered order) (huser : .user ∈ order) (libs : QueryLibs)
    (args : ThumbnailArgs) :
    (locatedBuilder libs args b).Numbered order args.hasLocationFilter := by
  unfold locatedBuilder
  cases hloc : args.hasLocationFilter with
  | true => exact numbered_located h huser libs args
  | false => exact numbered_unlocated h huser

theorem numbered_tableBuilder (h : b.Numbered order) (huser : .user ∈ order) (libs : QueryLibs)
    (args : ThumbnailArgs) :
    (tableBuilder libs args b).Numbered order (args.table = "images" && args.hasLocationFilter) := by
  unfold tableBuilder
  split
  next htable =>
    rw [decide_eq_true htable, Bool.true_and]
    exact numbered_locatedBuilder h huser libs args
  next htable =>
    rw [decide_eq_false htable]
    exact numbered_unlocated h huser

end FilteredBuilder

namespace MediaQueryBuilder

variable {b : MediaQueryBuilder}

theorem slots_selectClause (b : MediaQueryBuilder) (lonParam latParam : Option Nat) :
    Sql.slots (b.selectClause lonParam latParam) =
      match b.isImagesTable, lonParam, latParam with
      | true, some lon, some lat => [(.lon, lon), (.lat, lat)]
      | _, _, _ => [] := by
  unfold selectClause
  cases b.isImagesTable with
  | false => rfl
  | true =>
    cases lonParam with
    | none => rfl
    | some lon => cases latParam <;> rfl

theorem slots_selectClause_none (b : MediaQueryBuilder) :
    Sql.slots (b.selectClause none none) = [] := by
  rw [slots_selectClause]
  cases b.isImagesTable <;> rfl

theorem slots_buildSelectBody (h : b.tableValidated) (lonParam latParam : Option Nat) :
    Sql.slots (b.buildSelectBody lonParam latParam) =
      Sql.slots (b.selectClause lonParam latParam) ++ b.slots := by
  rw [buildSelectBody, dif_pos h]
  simp only [Sql.slots_append, Sql.slots_text, Sql.slots_nil, sqlText, slots_starredJoin,
    slots_labelJoin, slots_whereClause, slots, List.nil_append, List.append_assoc]

theorem slots_orderClause {s t : String} {hs : isPlain s} {ht : isPlain t}
    (sortBy sortOrder : Option String) :
    Sql.slots (orderClause (.text s hs) (.text t ht) sortBy sortOrder) = [] := by
  have hdir : ∀ rest : Sql,
      Sql.slots ((if sortOrder = some "asc" then sqlText "ASC" else sqlText "DESC") :: rest) =
        Sql.slots rest := by
    intro rest
    split <;> rfl
  unfold orderClause
  simp only
  split
  next => simp only [Sql.slots_sqlText, hdir, Sql.slots_nil]
  next =>
    split
    next => simp only [Sql.slots_sqlText, hdir, Sql.slots_nil]
    next => simp only [Sql.slots_sqlText, Sql.slots_text, hdir, Sql.slots_nil]

theorem slots_buildCountQuery (h : b.tableValidated) (huser : b.userIdParam.isSome)
    (useInnerJoin : Bool) : Sql.slots (b.buildCountQuery useInnerJoin) = b.slots := by
  rw [buildCountQuery, dif_pos h, if_pos huser]
  cases useInnerJoin with
  | true =>
    simp only [if_true, Sql.slots_append, Sql.slots_text, Sql.slots_nil, sqlText,
      slots_starredJoin, slots_labelJoin, slots_whereClause, slots, List.nil_append,
      List.append_assoc]
  | false =>
    simp only [Bool.false_eq_true, if_false, Sql.slots_append, Sql.slots_text, Sql.slots_nil,
      sqlText, slots_starredJoin, slots_labelJoin, slots_whereClause, slots, List.nil_append,
      List.append_assoc]

end MediaQueryBuilder

/-- The dates that are given are dates. -/
def DatesParse (libs : QueryLibs) (startDate endDate : Option String) : Prop :=
  (∀ d, startDate = some d → (libs.startDatetime d).isSome) ∧
    ∀ d, endDate = some d → (libs.endDatetime d).isSome

/-- Where every other slot has a value, all slots have one if the dates parse. -/
theorem wanted_iff_datesParse {libs : QueryLibs} {order : List Slot}
    {wanted : Slot → Option SqlValue} {startDate endDate : Option String}
    (hstart : wanted .startDate = (startDate.bind libs.startDatetime).map .timestamptz)
    (hend : wanted .endDate = (endDate.bind libs.endDatetime).map .timestamptz)
    (hstart' : startDate.isSome → .startDate ∈ order) (hend' : endDate.isSome → .endDate ∈ order)
    (hwhere : ∀ s ∈ order, s = .startDate ∧ startDate.isSome ∨ s = .endDate ∧ endDate.isSome ∨
      (wanted s).isSome) :
    (∀ s ∈ order, (wanted s).isSome) ↔ DatesParse libs startDate endDate := by
  constructor
  · intro h
    refine ⟨fun d hd => ?_, fun d hd => ?_⟩
    · have hsome := h .startDate (hstart' (by simp [hd]))
      simpa [hstart, hd] using hsome
    · have hsome := h .endDate (hend' (by simp [hd]))
      simpa [hend, hd] using hsome
  · rintro ⟨hstartDate, hendDate⟩ s hs
    rcases hwhere s hs with ⟨rfl, hsome⟩ | ⟨rfl, hsome⟩ | hsome
    · obtain ⟨d, hd⟩ := Option.isSome_iff_exists.mp hsome
      simpa [hstart, hd] using hstartDate d hd
    · obtain ⟨d, hd⟩ := Option.isSome_iff_exists.mp hsome
      simpa [hend, hd] using hendDate d hd
    · exact hsome

namespace ThumbnailArgs

variable {libs : QueryLibs} {args : ThumbnailArgs}

theorem user_mem_filterOrder (args : ThumbnailArgs) : .user ∈ args.filterOrder := by
  simp [filterOrder]

theorem wanted_iff (point : Bool) (hpoint : point → args.hasLocationFilter) (more : List Slot)
    (hmore : ∀ s ∈ more, s = .limit ∨ s = .offset) :
    (∀ s ∈ args.filterOrder ++ pointOrder point ++ more, (args.wanted libs s).isSome) ↔
      DatesParse libs args.startDate args.endDate := by
  refine wanted_iff_datesParse rfl rfl (fun h => by simp [filterOrder, h])
    (fun h => by simp [filterOrder, h]) ?_
  intro s hs
  simp only [filterOrder, pointOrder, List.mem_append, List.mem_ite_nil_right,
    List.mem_cons, List.not_mem_nil, or_false] at hs
  rcases hs with (((((rfl | ⟨hsome, rfl⟩) | ⟨hsome, rfl⟩) | ⟨hsome, rfl⟩) | ⟨hsome, rfl⟩) |
    ⟨hsome, hs⟩) | hs
  · exact Or.inr (Or.inr rfl)
  · exact Or.inr (Or.inr (by simpa [wanted] using hsome))
  · exact Or.inr (Or.inr (by simpa [wanted] using hsome))
  · exact Or.inl ⟨rfl, hsome⟩
  · exact Or.inr (Or.inl ⟨rfl, hsome⟩)
  · obtain ⟨hlat, hlon⟩ := Bool.and_eq_true_iff.mp (hpoint hsome)
    rcases hs with rfl | rfl
    · exact Or.inr (Or.inr (by simpa [wanted] using hlon))
    · exact Or.inr (Or.inr (by simpa [wanted] using hlat))
  · rcases hmore s hs with rfl | rfl
    · exact Or.inr (Or.inr rfl)
    · exact Or.inr (Or.inr rfl)

end ThumbnailArgs

namespace FilteredBuilder

variable {f : FilteredBuilder} {order : List Slot} {point : Bool}

/-- The conditions of a table, with what another table asks for. -/
theorem Numbered.also (h : f.Numbered order point) {others : List (Slot × Nat)}
    (hothers : ∀ p ∈ others, Placed order p) :
    Numbers (f.builder.slots ++ others) (order ++ ThumbnailArgs.pointOrder point) := by
  refine h.numbers.again (fun p hp => List.mem_append_left _ hp) fun p hp => ?_
  rcases List.mem_append.mp hp with hp | hp
  · exact h.numbers.1 p hp
  · exact (hothers p hp).append _

/-- The columns of a table too. -/
theorem Numbered.select (h : f.Numbered order point) {others : List (Slot × Nat)}
    (hothers : ∀ p ∈ others, Placed order p) :
    Numbers (Sql.slots (f.builder.selectClause f.lonParam f.latParam) ++
      (f.builder.slots ++ others)) (order ++ ThumbnailArgs.pointOrder point) := by
  have halso := h.also hothers
  refine halso.again (fun p hp => List.mem_append_right _ hp) fun p hp => ?_
  rcases List.mem_append.mp hp with hp | hp
  · rw [MediaQueryBuilder.slots_selectClause, h.lon, h.lat] at hp
    cases point with
    | false => cases hb : f.builder.isImagesTable <;> simp [hb] at hp
    | true =>
      cases hb : f.builder.isImagesTable with
      | false => simp [hb] at hp
      | true =>
        have hp : p = (.lon, order.length + 1) ∨ p = (.lat, order.length + 2) := by
          simpa [hb] using hp
        rcases hp with rfl | rfl
        · exact ⟨by simp, by simp [ThumbnailArgs.pointOrder]⟩
        · exact ⟨by simp, by simp [ThumbnailArgs.pointOrder]⟩
  · exact halso.1 p hp

end FilteredBuilder

section Statements

variable {libs : QueryLibs} {args : ThumbnailArgs}

theorem numbered_filters (args : ThumbnailArgs) (table : String) :
    (args.applyFilters (.new table)).Numbered args.filterOrder :=
  args.applyFilters_numbered (MediaQueryBuilder.numbered_new table)

theorem numbered_countFilters (args : ThumbnailArgs) (table : String) :
    (args.applyFilters (MediaQueryBuilder.new table).withHasThumbnail).Numbered args.filterOrder :=
  args.applyFilters_numbered ((MediaQueryBuilder.numbered_new table).addText rfl)

theorem numbered_unlocatedVideos {b : MediaQueryBuilder} {order : List Slot}
    (h : b.Numbered order) (args : ThumbnailArgs) : (unlocatedVideos args b).Numbered order :=
  h.iteText fun h => h.addText rfl

theorem source_locatedBuilder (libs : QueryLibs) (args : ThumbnailArgs) (b : MediaQueryBuilder) :
    (locatedBuilder libs args b).builder.source = b.source := by
  unfold locatedBuilder
  split <;> rfl

theorem source_tableBuilder (libs : QueryLibs) (args : ThumbnailArgs) (b : MediaQueryBuilder) :
    (tableBuilder libs args b).builder.source = b.source := by
  unfold tableBuilder
  split
  next => exact source_locatedBuilder libs args b
  next => rfl

theorem source_unlocatedVideos (args : ThumbnailArgs) (b : MediaQueryBuilder) :
    (unlocatedVideos args b).source = b.source := by
  unfold unlocatedVideos
  split <;> rfl

theorem validated_of_source {b b₀ : MediaQueryBuilder} (h : b.source = b₀.source) :
    b.tableValidated = b₀.tableValidated := congrArg Prod.snd h

/-- A statement whose placeholders are counted as the filters are matches if the dates parse. -/
theorem matches_iff_datesParse {st : SqlStatement} (point : Bool) (more : List Slot)
    (hpoint : point → args.hasLocationFilter) (hmore : ∀ s ∈ more, s = .limit ∨ s = .offset)
    (h : Numbers st.sql.slots (args.filterOrder ++ ThumbnailArgs.pointOrder point ++ more))
    (hparams : st.params =
      (args.filterOrder ++ ThumbnailArgs.pointOrder point ++ more).filterMap (args.wanted libs)) :
    st.Matches (args.wanted libs) ↔ DatesParse libs args.startDate args.endDate :=
  (SqlStatement.matches_iff_of_numbers hparams h).trans (args.wanted_iff point hpoint more hmore)

theorem Numbers.page {slots : List (Slot × Nat)} {order : List Slot} (h : Numbers slots order)
    {n : Nat} (hn : n = order.length) :
    Numbers (slots ++ [(.limit, n + 1), (.offset, n + 2)]) (order ++ [.limit, .offset]) := by
  subst hn
  have hlimit : Numbers (slots ++ [(.limit, order.length + 1)]) (order ++ [.limit]) :=
    h.concat (by simp)
  have hoffset : Numbers (slots ++ [(.limit, order.length + 1), (.offset, order.length + 2)])
      (order ++ [.limit] ++ [.offset]) := hlimit.concat (by simp [or_assoc])
  simpa using hoffset

/-- The source of a builder is that of the builder it was made from. -/
theorem tableValidated_all (libs : QueryLibs) (args : ThumbnailArgs) {b b' : MediaQueryBuilder}
    (hb : b.tableValidated) (hb' : b'.tableValidated) :
    (locatedBuilder libs args (args.applyFilters b)).builder.tableValidated ∧
      (unlocatedVideos args (args.applyFilters b')).tableValidated := by
  constructor
  · rwa [validated_of_source ((source_locatedBuilder libs args _).trans
      (args.source_applyFilters b))]
  · rwa [validated_of_source ((source_unlocatedVideos args _).trans (args.source_applyFilters b'))]

theorem tableValidated_table (libs : QueryLibs) (args : ThumbnailArgs) (b : MediaQueryBuilder) :
    (tableBuilder libs args (args.applyFilters b)).builder.tableValidated = b.tableValidated :=
  validated_of_source ((source_tableBuilder libs args _).trans (args.source_applyFilters b))

theorem listThumbnails_all_matches (hall : args.table = "all") :
    (listThumbnailsStatement libs args).Matches (args.wanted libs) ↔
      DatesParse libs args.startDate args.endDate := by
  have himages := FilteredBuilder.numbered_locatedBuilder (numbered_filters args "images")
    args.user_mem_filterOrder libs args
  have hvideos := numbered_unlocatedVideos (numbered_filters args "videos") args
  obtain ⟨hvalid, hvalid'⟩ := tableValidated_all libs args
    (by decide : (MediaQueryBuilder.new "images").tableValidated)
    (by decide : (MediaQueryBuilder.new "videos").tableValidated)
  refine matches_iff_datesParse args.hasLocationFilter [.limit, .offset] id (by simp) ?_ ?_
  · simp only [listThumbnailsStatement, if_pos hall, Sql.slots_append, Sql.slots_nil, sqlText,
      Sql.slots_text, MediaQueryBuilder.slots_orderClause,
      MediaQueryBuilder.slots_buildSelectBody hvalid,
      MediaQueryBuilder.slots_buildSelectBody hvalid', MediaQueryBuilder.slots_selectClause_none,
      MediaQueryBuilder.pageClause, Sql.slots_param, List.nil_append, List.append_assoc]
    simpa only [List.append_assoc] using (himages.select hvideos.numbers.1).page himages.count
  · simp only [listThumbnailsStatement, if_pos hall, himages.lon, args.filterParams_eq libs,
      args.pointParams_eq libs id, List.filterMap_append]
    rfl

theorem listThumbnails_table_matches (hall : args.table ≠ "all")
    (hvalid : validateTableName args.table) :
    (listThumbnailsStatement libs args).Matches (args.wanted libs) ↔
      DatesParse libs args.startDate args.endDate := by
  have htable := FilteredBuilder.numbered_tableBuilder (numbered_filters args args.table)
    args.user_mem_filterOrder libs args
  have hvalid' := (tableValidated_table libs args (.new args.table)).trans hvalid
  have hpoint : (decide (args.table = "images") && args.hasLocationFilter) →
      args.hasLocationFilter := fun h => (Bool.and_eq_true_iff.mp h).2
  have hselect := htable.select fun p (hp : p ∈ []) => absurd hp List.not_mem_nil
  refine matches_iff_datesParse _ [.limit, .offset] hpoint (by simp) ?_ ?_
  · simp only [listThumbnailsStatement, if_neg hall, MediaQueryBuilder.buildSelectQuery,
      if_pos hvalid', Sql.slots_append, Sql.slots_nil, sqlText, Sql.slots_text,
      MediaQueryBuilder.slots_orderClause, MediaQueryBuilder.slots_buildSelectBody hvalid',
      MediaQueryBuilder.pageClause, Sql.slots_param, List.append_nil]
    simpa only [List.append_nil] using hselect.page htable.count
  · simp only [listThumbnailsStatement, if_neg hall, htable.lon, args.filterParams_eq libs,
      args.pointParams_eq libs hpoint, List.filterMap_append]
    rfl

theorem listThumbnails_matches_iff (libs : QueryLibs) (args : ThumbnailArgs) :
    (listThumbnailsStatement libs args).Matches (args.wanted libs) ↔
      DatesParse libs args.startDate args.endDate ∧
        (args.table = "all" ∨ validateTableName args.table) := by
  by_cases hall : args.table = "all"
  · rw [and_iff_left (Or.inl hall)]
    exact listThumbnails_all_matches hall
  · by_cases hvalid : validateTableName args.table
    · rw [and_iff_left (Or.inr hvalid)]
      exact listThumbnails_table_matches hall hvalid
    · have hvalid' := (tableValidated_table libs args (.new args.table)).trans
        (Bool.eq_false_iff.mpr hvalid)
      refine iff_of_false (SqlStatement.not_matches ?_ ?_) fun h => h.2.elim hall hvalid
      · simp only [listThumbnailsStatement, if_neg hall, MediaQueryBuilder.buildSelectQuery,
          hvalid', Bool.false_eq_true, if_false]
        rfl
      · simp [listThumbnailsStatement]

theorem totalThumbnails_all_matches (hall : args.table = "all") :
    (totalThumbnailsStatement libs args).Matches (args.wanted libs) ↔
      DatesParse libs args.startDate args.endDate := by
  have himages := FilteredBuilder.numbered_locatedBuilder (numbered_countFilters args "images")
    args.user_mem_filterOrder libs args
  have hvideos := numbered_unlocatedVideos (numbered_countFilters args "videos") args
  obtain ⟨hvalid, hvalid'⟩ := tableValidated_all libs args
    (by decide : (MediaQueryBuilder.new "images").withHasThumbnail.tableValidated)
    (by decide : (MediaQueryBuilder.new "videos").withHasThumbnail.tableValidated)
  have huser := hvideos.user.mp args.user_mem_filterOrder
  refine matches_iff_datesParse args.hasLocationFilter [] id (by simp) ?_ ?_
  · simp only [totalThumbnailsStatement, if_pos hall, Sql.slots_append, Sql.slots_nil, sqlText,
      Sql.slots_text, MediaQueryBuilder.slots_buildCountQuery hvalid himages.user,
      MediaQueryBuilder.slots_buildCountQuery hvalid' huser, List.nil_append, List.append_nil]
    exact himages.also hvideos.numbers.1
  · simp only [totalThumbnailsStatement, if_pos hall, himages.lon, args.filterParams_eq libs,
      args.pointParams_eq libs id, List.filterMap_append, List.append_nil]

theorem totalThumbnails_table_matches (hall : args.table ≠ "all")
    (hvalid : validateTableName args.table) :
    (totalThumbnailsStatement libs args).Matches (args.wanted libs) ↔
      DatesParse libs args.startDate args.endDate := by
  have htable := FilteredBuilder.numbered_tableBuilder (numbered_countFilters args args.table)
    args.user_mem_filterOrder libs args
  have hvalid' := (tableValidated_table libs args
    (MediaQueryBuilder.new args.table).withHasThumbnail).trans hvalid
  have hpoint : (decide (args.table = "images") && args.hasLocationFilter) →
      args.hasLocationFilter := fun h => (Bool.and_eq_true_iff.mp h).2
  refine matches_iff_datesParse _ [] hpoint (by simp) ?_ ?_
  · simp only [totalThumbnailsStatement, if_neg hall, List.append_nil,
      MediaQueryBuilder.slots_buildCountQuery hvalid' htable.user]
    exact htable.numbers
  · simp only [totalThumbnailsStatement, if_neg hall, htable.lon, args.filterParams_eq libs,
      args.pointParams_eq libs hpoint, List.filterMap_append, List.append_nil]

theorem totalThumbnails_matches_iff (libs : QueryLibs) (args : ThumbnailArgs) :
    (totalThumbnailsStatement libs args).Matches (args.wanted libs) ↔
      DatesParse libs args.startDate args.endDate ∧
        (args.table = "all" ∨ validateTableName args.table) := by
  by_cases hall : args.table = "all"
  · rw [and_iff_left (Or.inl hall)]
    exact totalThumbnails_all_matches hall
  · by_cases hvalid : validateTableName args.table
    · rw [and_iff_left (Or.inr hvalid)]
      exact totalThumbnails_table_matches hall hvalid
    · have hvalid' := (tableValidated_table libs args
        (MediaQueryBuilder.new args.table).withHasThumbnail).trans (Bool.eq_false_iff.mpr hvalid)
      refine iff_of_false (SqlStatement.not_matches ?_ ?_) fun h => h.2.elim hall hvalid
      · simp only [totalThumbnailsStatement, if_neg hall, MediaQueryBuilder.buildCountQuery,
          hvalid', Bool.false_eq_true, dif_neg, not_false_eq_true]
        rfl
      · simp [totalThumbnailsStatement, ThumbnailArgs.filterParams]

end Statements

/-- One of the two tables that a search unites. -/
inductive SearchArm
  | image
  | video
  deriving DecidableEq, Repr

inductive SearchMode
  | semantic
  | text
  | hybrid
  deriving DecidableEq, Repr

structure SearchArgs where
  queryText : String
  embedding : List Rat
  userUuid : UserId
  deviceFilter : Option String
  starredOnly : Bool
  minSimilarity : Rat
  limit : Int
  offset : Int
  locationLat : Option Rat
  locationLon : Option Rat
  locationRadiusKm : Option Rat
  startDate : Option String
  endDate : Option String
  labelId : Option Int
  mediaType : String

/-- The numbers of the optional parameters. -/
structure SearchParams where
  device : Option Nat
  label : Option Nat
  startDate : Option Nat
  endDate : Option Nat
  lon : Option Nat
  lat : Option Nat

/-- The number of a parameter that may be left out, and the count after it. -/
def nextParam (given : Bool) (count : Nat) : Option Nat × Nat :=
  if given then (some (count + 1), count + 1) else (none, count)

namespace SearchArgs

variable (libs : QueryLibs) (args : SearchArgs)

def hasLocationFilter : Bool := args.locationLat.isSome && args.locationLon.isSome

def includeImage : Bool := args.mediaType ≠ "video"

def includeVideo : Bool := args.mediaType ≠ "image"

def params (reserved : Nat) : SearchParams :=
  let device := nextParam args.deviceFilter.isSome reserved
  let label := nextParam args.labelId.isSome device.2
  let startDate := nextParam args.startDate.isSome label.2
  let endDate := nextParam args.endDate.isSome startDate.2
  let lon := nextParam args.hasLocationFilter endDate.2
  let lat := nextParam args.hasLocationFilter lon.2
  ⟨device.1, label.1, startDate.1, endDate.1, lon.1, lat.1⟩

/-- The sum of two `i64`. -/
def perBranchLimit : Int := Int.bmod (args.limit + args.offset) (2 ^ 64)

def radiusMeters : Rat :=
  if args.hasLocationFilter then args.locationRadiusKm.getD 10 * 1000 else 0

end SearchArgs

namespace SearchArm

def aliasName : SearchArm → SqlPiece
  | image => sqlText "i"
  | video => sqlText "v"

/-- A condition on a column of the arm's table. -/
def condition : SearchArm → Sql → SqlCondition
  | image, rest => sqlCondition "i" rest
  | video, rest => sqlCondition "v" rest

def labelCondition (n : Nat) : SearchArm → SqlCondition
  | image => sqlCondition "EXISTS (SELECT 1 FROM image_labels l WHERE l.image_hash = i.hash "
      [sqlText "AND l.image_user_id = i.user_id AND l.label_id = ", .param .label n, sqlText ")"]
  | video => sqlCondition "EXISTS (SELECT 1 FROM video_labels l WHERE l.video_hash = v.hash "
      [sqlText "AND l.video_user_id = v.user_id AND l.label_id = ", .param .label n, sqlText ")"]

/-- Only images have a location. -/
def locationConditions (libs : QueryLibs) (radius : Rat) (params : SearchParams) :
    SearchArm → List SqlCondition
  | image =>
    match params.lon, params.lat with
    | some lon, some lat =>
      [sqlCondition "i.location IS NOT NULL" [],
        sqlCondition "ST_DWithin(i.location, ST_MakePoint("
          [.param .lon lon, sqlText ", ", .param .lat lat,
            libs.floatText ")::geography, " radius ")"]]
    | _, _ => []
  | video => []

/-- The conditions that all modes add to their own. -/
def filterConditions (libs : QueryLibs) (args : SearchArgs) (params : SearchParams)
    (arm : SearchArm) : List SqlCondition :=
  (params.device.toList.map fun n => arm.condition [sqlText ".deviceid = ", .param .device n]) ++
    (if args.starredOnly then [sqlCondition "s.hash IS NOT NULL" []] else []) ++
    (params.label.toList.map fun n => arm.labelCondition n) ++
    (params.startDate.toList.map fun n =>
      arm.condition [sqlText ".created_at >= ", .param .startDate n]) ++
    (params.endDate.toList.map fun n =>
      arm.condition [sqlText ".created_at < ", .param .endDate n]) ++
    arm.locationConditions libs args.radiusMeters params

def userCondition (arm : SearchArm) : SqlCondition :=
  arm.condition [sqlText ".user_id = ", .param .user 1]

def deletedCondition (arm : SearchArm) : SqlCondition := arm.condition [sqlText ".deleted_at IS NULL"]

def thresholdCondition (libs : QueryLibs) (args : SearchArgs) (arm : SearchArm) : SqlCondition :=
  sqlCondition "(1 - (" [arm.aliasName, sqlText ".embedding <=> ", .param .embedding 2,
    libs.floatText ")) > " args.minSimilarity ""]

/-- `to_tsvector` of the description and the name. -/
def document (arm : SearchArm) : Sql :=
  [sqlText "to_tsvector('english', COALESCE(", arm.aliasName, sqlText ".description, '') || ' ' || ",
    sqlText "COALESCE(", arm.aliasName, sqlText ".name, ''))"]

def matchCondition (arm : SearchArm) : SqlCondition :=
  arm.condition ([sqlText ".description IS NOT NULL AND ", arm.aliasName,
    sqlText ".description != '' AND "] ++ arm.document ++
    [sqlText " @@ plainto_tsquery('english', ", .param .queryText 2, sqlText ")"])

/-- The conditions of a mode. -/
def modeConditions (libs : QueryLibs) (args : SearchArgs) (arm : SearchArm) :
    SearchMode → List SqlCondition
  | .semantic => [arm.condition [sqlText ".embedding IS NOT NULL"], arm.userCondition,
      arm.deletedCondition, arm.thresholdCondition libs args]
  | .text => [arm.userCondition, arm.deletedCondition, arm.matchCondition]
  | .hybrid => [arm.userCondition, arm.deletedCondition, arm.thresholdCondition libs args]

/-- The distance of an image, if there is a location. -/
def distance (params : SearchParams) : SearchArm → Sql
  | image =>
    match params.lon, params.lat with
    | some lon, some lat =>
      [sqlText "ST_Distance(i.location, ST_MakePoint(", .param .lon lon, sqlText ", ",
        .param .lat lat, sqlText ")::geography) / 1000.0"]
    | _, _ => [sqlText "NULL::double precision"]
  | video => [sqlText "NULL::double precision"]

def place : SearchArm → SqlPiece
  | image => sqlText "i.place"
  | video => sqlText "NULL::text as place"

def mediaType : SearchArm → SqlPiece
  | image => sqlText "'image' as media_type"
  | video => sqlText "'video' as media_type"

/-- The table, and the stars of the user. -/
def source : SearchArm → Sql
  | image => [sqlText "\n                FROM images i\n                LEFT JOIN starred_images s ",
      sqlText "ON i.hash = s.hash AND s.user_id = ", .param .user 1]
  | video => [sqlText "\n                FROM videos v\n                LEFT JOIN starred_videos s ",
      sqlText "ON v.hash = s.hash AND s.user_id = ", .param .user 1]

/-- The cosine distance from the query. -/
def cosine (arm : SearchArm) : Sql :=
  [arm.aliasName, sqlText ".embedding <=> ", .param .embedding 2]

/-- The columns up to the score. -/
def columns (arm : SearchArm) : Sql :=
  [sqlText "(\n                SELECT ", arm.aliasName, sqlText ".hash, ", arm.aliasName,
    sqlText ".name, ", arm.aliasName, sqlText ".description, ", arm.place, sqlText ", ",
    arm.aliasName, sqlText ".created_at,"]

def starredColumn : Sql :=
  [sqlText " as similarity,\n                       ",
    sqlText "CASE WHEN s.hash IS NOT NULL THEN true ELSE false END as starred,",
    sqlText "\n                       "]

/-- The vector's share, and that of the description if there is one. -/
def hybridScore (arm : SearchArm) : Sql :=
  [sqlText "\n                       ((1 - ("] ++ arm.cosine ++ [sqlText ")) * 0.7 + CASE WHEN ", arm.aliasName,
    sqlText ".description IS NOT NULL AND ", arm.aliasName,
    sqlText ".description != '' THEN ts_rank("] ++ arm.document ++
    [sqlText ", plainto_tsquery('english', ", .param .queryText 3, sqlText ")) * 0.3 ELSE 0 END)"]

def score (arm : SearchArm) : SearchMode → Sql
  | .semantic => [sqlText "\n                       1 - ("] ++ arm.cosine ++ [sqlText ")"]
  | .text => [sqlText "\n                       ts_rank("] ++ arm.document ++
      [sqlText ", plainto_tsquery('english', ", .param .queryText 2, sqlText "))"]
  | .hybrid => arm.hybridScore

/-- The columns after the score; a semantic search also selects the distance it orders by. -/
def lastColumns (params : SearchParams) (arm : SearchArm) : SearchMode → Sql
  | .semantic => [arm.aliasName, sqlText ".deviceid,\n                       "] ++
      arm.distance params ++
      [sqlText " as distance_km,\n                       ", arm.mediaType,
        sqlText ",\n                       "] ++ arm.cosine ++ [sqlText " as dist"]
  | _ => [arm.aliasName, sqlText ".deviceid, "] ++ arm.distance params ++
      [sqlText " as distance_km, ", arm.mediaType]

def orderAndLimit (arm : SearchArm) : SearchMode → Sql
  | .semantic => [sqlText "\n                ORDER BY "] ++ arm.cosine ++
      [sqlText "\n                LIMIT ", .param .perBranchLimit 3, sqlText "\n            )"]
  | .text => [sqlText "\n                ORDER BY similarity DESC, ", arm.aliasName,
      sqlText ".created_at DESC\n                LIMIT ", .param .perBranchLimit 3,
      sqlText "\n            )"]
  | .hybrid => [sqlText "\n                ORDER BY similarity DESC\n                LIMIT ",
      .param .perBranchLimit 4, sqlText "\n            )"]

def sql (libs : QueryLibs) (args : SearchArgs) (mode : SearchMode) (params : SearchParams)
    (arm : SearchArm) : Sql :=
  arm.columns ++ arm.score mode ++ starredColumn ++ arm.lastColumns params mode ++ arm.source ++
    [sqlText "\n                "] ++
    whereClause (arm.modeConditions libs args mode ++ arm.filterConditions libs args params) ++
    arm.orderAndLimit mode

end SearchArm

namespace SearchMode

/-- The parameters that every search of a mode has. -/
def reserved : SearchMode → List Slot
  | semantic => [.user, .embedding, .perBranchLimit, .limit, .offset]
  | text => [.user, .queryText, .perBranchLimit, .limit, .offset]
  | hybrid => [.user, .embedding, .queryText, .perBranchLimit, .limit, .offset]

def finalOrder : SearchMode → Sql
  | semantic => [sqlText "\n        ) combined\n        ORDER BY dist ASC\n        LIMIT ",
      .param .limit 4, sqlText " OFFSET ", .param .offset 5]
  | text => [sqlText "\n        ) combined\n        ORDER BY similarity DESC, created_at DESC\n",
      sqlText "        LIMIT ", .param .limit 4, sqlText " OFFSET ", .param .offset 5]
  | hybrid => [sqlText "\n        ) combined\n        ORDER BY similarity DESC\n        LIMIT ",
      .param .limit 5, sqlText " OFFSET ", .param .offset 6]

end SearchMode

/-- The values that the clauses of a search ask for. -/
def SearchArgs.wanted (libs : QueryLibs) (args : SearchArgs) : Slot → Option SqlValue
  | .user => some (.uuid args.userUuid)
  | .embedding => some (.vector args.embedding)
  | .queryText => some (.text args.queryText)
  | .perBranchLimit => some (.int8 args.perBranchLimit)
  | .limit => some (.int8 args.limit)
  | .offset => some (.int8 args.offset)
  | .device => args.deviceFilter.map .text
  | .label => args.labelId.map .int4
  | .startDate => (args.startDate.bind libs.startDatetime).map .timestamptz
  | .endDate => (args.endDate.bind libs.endDatetime).map .timestamptz
  | .lon => args.locationLon.map .float8
  | .lat => args.locationLat.map .float8

/-- The parameters that a mode starts with. -/
def SearchArgs.reservedParams (args : SearchArgs) : SearchMode → List SqlValue
  | .semantic => [.uuid args.userUuid, .vector args.embedding, .int8 args.perBranchLimit,
      .int8 args.limit, .int8 args.offset]
  | .text => [.uuid args.userUuid, .text args.queryText, .int8 args.perBranchLimit,
      .int8 args.limit, .int8 args.offset]
  | .hybrid => [.uuid args.userUuid, .vector args.embedding, .text args.queryText,
      .int8 args.perBranchLimit, .int8 args.limit, .int8 args.offset]

/-- The parameters after those, in the order of the pushes. -/
def SearchArgs.filterParams (libs : QueryLibs) (args : SearchArgs) : List SqlValue :=
  (args.deviceFilter.map SqlValue.text).toList ++ (args.labelId.map SqlValue.int4).toList ++
    ((args.startDate.bind libs.startDatetime).map SqlValue.timestamptz).toList ++
    ((args.endDate.bind libs.endDatetime).map SqlValue.timestamptz).toList ++
    if args.hasLocationFilter then
      (args.locationLon.map SqlValue.float8).toList ++
        (args.locationLat.map SqlValue.float8).toList
    else []

/-- The united arms; a search always has one. -/
def searchUnion (libs : QueryLibs) (args : SearchArgs) (mode : SearchMode) : Sql :=
  let params := args.params mode.reserved.length
  match args.includeImage, args.includeVideo with
  | true, true => SearchArm.image.sql libs args mode params ++ [sqlText " UNION ALL "] ++
      SearchArm.video.sql libs args mode params
  | true, false => SearchArm.image.sql libs args mode params
  | false, _ => SearchArm.video.sql libs args mode params

/-- What the three searches have in common. -/
def searchStatement (libs : QueryLibs) (args : SearchArgs) (mode : SearchMode) : SqlStatement where
  sql :=
    [sqlText "SELECT hash, name, description, place, created_at, similarity, starred, deviceid, ",
      sqlText "distance_km, media_type FROM (\n            "] ++ searchUnion libs args mode ++
      mode.finalOrder
  params := args.reservedParams mode ++ args.filterParams libs

def performSemanticSearchStatement (libs : QueryLibs) (args : SearchArgs) : SqlStatement :=
  searchStatement libs args .semantic

def searchByTextStatement (libs : QueryLibs) (args : SearchArgs) : SqlStatement :=
  searchStatement libs args .text

def searchHybridStatement (libs : QueryLibs) (args : SearchArgs) : SqlStatement :=
  searchStatement libs args .hybrid

end Reminisce

import Mathlib.Data.Prod.Lex
import Mathlib.Order.WithBot
import Reminisce.ListingPages
import Reminisce.SearchQueries

namespace Reminisce

open SortedPages

/-- What the database computes from the columns of a row and the query; its floats are ordered
with `NaN` on top. -/
structure SearchFunctions (F Vector : Type) where
  cosineDistance : Vector → Vector → F
  similarity : F → F
  exceeds : F → Rat → Bool
  tsMatches : String → String → Bool
  tsRank : String → String → F
  /-- `similarity * 0.7 + rank * 0.3`, without a rank where there is no description. -/
  blend : F → Option F → F

/-- The library with the columns that a search reads. -/
structure SearchedLibrary (Vector : Type) extends StoredLibrary where
  description : MediaTable → UserId → String → Option String
  embedding : MediaTable → UserId → String → Option Vector

structure SearchRequest (Vector : Type) where
  queryText : String
  embedding : Vector
  userUuid : UserId
  deviceFilter : Option String
  starredOnly : Bool
  minSimilarity : Rat
  location : Option Nearby
  startDate : Option (Option Time)
  endDate : Option (Option Time)
  labelId : Option Nat
  mediaType : String

/-- A row of one of the united arms. -/
structure SearchHit where
  table : MediaTable
  row : LibraryRow
  deriving DecidableEq

structure SearchResult (F : Type) where
  hash : String
  name : String
  description : Option String
  place : Option String
  createdAt : Time
  similarity : Option F
  starred : Bool
  deviceId : String
  distanceKm : Option Rat
  thumbnailUrl : String
  mediaType : MediaTable

/-- The sorts of a statement. -/
inductive SearchSort
  | arm (table : MediaTable)
  | combined
  deriving DecidableEq

/-- `NULL` is above all values. -/
def nullsHigh {F : Type} : Option F → WithTop F
  | some x => x
  | none => ⊤

namespace ScanOrder

variable {Item K : Type} [DecidableEq Item] [LinearOrder K] {f : Item → K} {l all : List Item}

/-- The rows are read in the given order if it is one of theirs. -/
def reading (l : List Item) : ScanOrder Item where
  arrange items := if l.Perm items then l else items
  perm items := by
    split
    next h => exact h
    next => rfl

theorem sorted_reading (h : IsOrder f all l) : sorted f ((reading l).arrange all) = l := by
  have harrange : (reading l).arrange all = l := if_pos h.1
  rw [harrange, sorted_eq_self h.2]

end ScanOrder

namespace SearchRequest

variable {F Vector : Type} (fns : SearchFunctions F Vector)
  (stored : SearchedLibrary Vector) (r : SearchRequest Vector)

/-- The same filters for a listing. -/
def listQuery : ListQuery :=
  { page := 1, limit := 0, mediaType := r.mediaType, starredOnly := r.starredOnly
    labelId := r.labelId, deviceId := r.deviceFilter, startDate := r.startDate
    endDate := r.endDate, location := r.location, sortBy := .date, ascending := false
    noExif := false }

/-- The dates parse, and a location is not looked for among videos alone. -/
def accepted : Bool := r.listQuery.wellFormed && !(r.location.isSome && r.mediaType = "video")

def descriptionOf (hit : SearchHit) : Option String :=
  stored.description hit.table hit.row.userId hit.row.hash

/-- The description and the name, which are searched together. -/
def document (hit : SearchHit) : String :=
  (descriptionOf stored hit).getD "" ++ " " ++ hit.row.name

def hasDescription (hit : SearchHit) : Bool :=
  match descriptionOf stored hit with
  | some description => description ≠ ""
  | none => false

/-- `embedding <=> $2` -/
def distance (hit : SearchHit) : Option F :=
  (stored.embedding hit.table hit.row.userId hit.row.hash).map fun embedding =>
    fns.cosineDistance embedding r.embedding

/-- The condition of a mode. -/
def meetsMode (hit : SearchHit) : SearchMode → Bool
  | .semantic | .hybrid =>
    match r.distance fns stored hit with
    | some dist => fns.exceeds (fns.similarity dist) r.minSimilarity
    | none => false
  | .text => hasDescription stored hit && fns.tsMatches (document stored hit) r.queryText

def score (hit : SearchHit) : SearchMode → Option F
  | .semantic => (r.distance fns stored hit).map fns.similarity
  | .text => some (fns.tsRank (document stored hit) r.queryText)
  | .hybrid => (r.distance fns stored hit).map fun dist => fns.blend (fns.similarity dist)
      (if hasDescription stored hit then some (fns.tsRank (document stored hit) r.queryText)
      else none)

def nearEnough (row : LibraryRow) : Bool :=
  match r.location with
  | none => true
  | some near => match row.location with
    | some point => decide (near.distance point ≤ near.radius)
    | none => false

/-- The `WHERE` clause of an arm. -/
def armWhere (mode : SearchMode) (hit : SearchHit) : Bool :=
  hit.row.userId = r.userUuid && hit.row.deletedAt = none && r.meetsMode fns stored hit mode &&
  (match r.deviceFilter with
    | some device => decide (hit.row.deviceId = device)
    | none => true) &&
  (!r.starredOnly ||
    (stored.lib.starred hit.table).any fun star => star = (r.userUuid, hit.row.hash)) &&
  (match r.labelId with
    | some label => (stored.lib.labels hit.table).any fun given =>
        given = (hit.row.userId, hit.row.hash, label)
    | none => true) &&
  (match r.startDate with
    | some (some start) => decide (start ≤ hit.row.createdAt)
    | _ => true) &&
  (match r.endDate with
    | some (some stop) => decide (hit.row.createdAt < stop)
    | _ => true) &&
  (hit.table = .videos || r.nearEnough hit.row)

def included : MediaTable → Bool
  | .images => r.mediaType ≠ "video"
  | .videos => r.mediaType ≠ "image"

/-- The rows of an arm, before its limit. -/
def armHits (mode : SearchMode) (table : MediaTable) : List SearchHit :=
  if r.included table then
    ((stored.lib.rows table).map (SearchHit.mk table)).filter (r.armWhere fns stored mode)
  else []

def searchResult (mode : SearchMode) (hit : SearchHit) : SearchResult F :=
  { hash := hit.row.hash, name := hit.row.name, description := descriptionOf stored hit
    place := match hit.table with
      | .images => hit.row.place
      | .videos => none
    createdAt := hit.row.createdAt, similarity := r.score fns stored hit mode
    starred := (stored.lib.starred hit.table).any fun star => star = (r.userUuid, hit.row.hash)
    deviceId := hit.row.deviceId
    distanceKm := match hit.table, r.location, hit.row.location with
      | .images, some near, some point => some (near.distance point / 1000)
      | _, _, _ => none
    thumbnailUrl := "/api/thumbnail/" ++ hit.row.hash, mediaType := hit.table }

/-- The rows of a table that satisfy the filters and the search. -/
def matchingIn (mode : SearchMode) (table : MediaTable) : List SearchHit :=
  ((stored.lib.rows table).map (SearchHit.mk table)).filter fun hit =>
    LibraryRow.listed stored.lib r.userUuid r.listQuery hit.table true hit.row &&
      r.meetsMode fns stored hit mode

def matching (mode : SearchMode) : List SearchHit :=
  r.matchingIn fns stored mode .images ++ r.matchingIn fns stored mode .videos

/-- With a location, only the images are searched that are near it. -/
def LocationCovered (mode : SearchMode) : Prop :=
  r.location.isSome → r.accepted → r.armHits fns stored mode .videos = []

section Pages

variable [LinearOrder F]

/-- `dist ASC, similarity DESC, created_at DESC`, each where the mode orders by it. -/
def orderKey (mode : SearchMode) (hit : SearchHit) : (WithTop F)ᵒᵈ ×ₗ WithTop F ×ₗ Time :=
  match mode with
  | .semantic => toLex (OrderDual.toDual (nullsHigh (r.distance fns stored hit)), toLex (⊤, 0))
  | .text => toLex (OrderDual.toDual ⊤,
      toLex (nullsHigh (r.score fns stored hit .text), hit.row.createdAt))
  | .hybrid => toLex (OrderDual.toDual ⊤, toLex (nullsHigh (r.score fns stored hit .hybrid), 0))

/-- The sum of two `i64`. -/
def perBranchLimit (limit offset : Int) : Int := Int.bmod (limit + offset) (2 ^ 64)

/-- An arm up to its limit. -/
def arm (orders : SearchSort → ScanOrder SearchHit) (mode : SearchMode) (perBranchLimit : Int)
    (table : MediaTable) : List SearchHit :=
  (sorted (r.orderKey fns stored mode)
    ((orders (.arm table)).arrange (r.armHits fns stored mode table))).take perBranchLimit.toNat

/-- The arms together, in an order. -/
def united (orders : SearchSort → ScanOrder SearchHit) (mode : SearchMode) (perBranchLimit : Int) :
    List SearchHit :=
  sorted (r.orderKey fns stored mode) ((orders .combined).arrange
    (r.arm fns stored orders mode perBranchLimit .images ++
      r.arm fns stored orders mode perBranchLimit .videos))

/-- The rows that a search finds, `none` where its statement is refused. -/
def searchHits (orders : SearchSort → ScanOrder SearchHit) (mode : SearchMode)
    (limit offset : Int) : Option (List SearchHit) :=
  if r.accepted ∧ 0 ≤ perBranchLimit limit offset ∧ 0 ≤ limit ∧ 0 ≤ offset then
    some (((r.united fns stored orders mode (perBranchLimit limit offset)).drop offset.toNat).take
      limit.toNat)
  else none

/-- The results of a search and how many were fetched. -/
def search (orders : SearchSort → ScanOrder SearchHit) (mode : SearchMode) (limit offset : Int) :
    Option (List (SearchResult F) × Nat) :=
  (r.searchHits fns stored orders mode limit offset).map fun hits =>
    (hits.map (r.searchResult fns stored mode), hits.length)

def performSemanticSearch (orders : SearchSort → ScanOrder SearchHit) (limit offset : Int) :
    Option (List (SearchResult F) × Nat) :=
  r.search fns stored orders .semantic limit offset

def searchByText (orders : SearchSort → ScanOrder SearchHit) (limit offset : Int) :
    Option (List (SearchResult F) × Nat) :=
  r.search fns stored orders .text limit offset

def searchHybrid (orders : SearchSort → ScanOrder SearchHit) (limit offset : Int) :
    Option (List (SearchResult F) × Nat) :=
  r.search fns stored orders .hybrid limit offset

/-- Every row found satisfies the filters, as they are for a listing of both tables. -/
def FiltersRespected (mode : SearchMode) : Prop :=
  ∀ orders limit offset hits, r.searchHits fns stored orders mode limit offset = some hits →
    ∀ hit ∈ hits, LibraryRow.listed stored.lib r.userUuid r.listQuery hit.table true hit.row

/-- The pages together show every matching row once, in whatever order the rows of each are
read. -/
def PagesExact (mode : SearchMode) (limit : Int) : Prop :=
  ∀ orders : Nat → SearchSort → ScanOrder SearchHit, ∃ last, ∀ m, last ≤ m →
    ((List.range m).flatMap fun k =>
      (r.searchHits fns stored (orders k) mode limit (k * limit)).getD []).Perm
        (r.matching fns stored mode)

end Pages

section Filters

variable {fns : SearchFunctions F Vector} {stored : SearchedLibrary Vector}
  {r : SearchRequest Vector} {mode : SearchMode} {table : MediaTable} {hit : SearchHit}

/-- The filters of an arm are those of a listing, but for the location of a video. -/
theorem decide_mem_eq_any {α : Type} [DecidableEq α] (l : List α) (a : α) [Decidable (a ∈ l)] :
    decide (a ∈ l) = l.any fun b => decide (b = a) := by
  rw [Bool.eq_iff_iff]
  simp

theorem armWhere_eq_listed {row : LibraryRow} (h : table = .images ∨ r.location = none) :
    (r.included table && r.armWhere fns stored mode ⟨table, row⟩) =
      (LibraryRow.listed stored.lib r.userUuid r.listQuery table true row &&
        r.meetsMode fns stored ⟨table, row⟩ mode) := by
  have hincluded : r.included table =
      !(r.mediaType = "image" && table = .videos || r.mediaType = "video" && table = .images) := by
    cases table <;> simp [included]
  have hlocation : (decide (table = .videos) || r.nearEnough row) =
      matchesLocation r.listQuery table true row := by
    rcases h with rfl | h
    · simp only [nearEnough, matchesLocation, listQuery]
      cases r.location <;> rfl
    · simp [nearEnough, matchesLocation, listQuery, h]
  rw [hincluded]
  simp only [armWhere, LibraryRow.listed, hlocation, matchesDates, decide_mem_eq_any]
  by_cases huser : row.userId = r.userUuid
  · simp only [huser, listQuery, decide_true, Bool.false_and, Bool.not_false, Bool.true_or,
      Bool.and_true, Bool.true_and]
    cases r.deviceFilter <;> cases r.labelId <;> dsimp only <;> ac_rfl
  · simp [huser]

theorem listed_of_mem_matching (h : hit ∈ r.matching fns stored mode) :
    LibraryRow.listed stored.lib r.userUuid r.listQuery hit.table true hit.row := by
  rcases List.mem_append.mp h with h | h
  · exact (Bool.and_eq_true_iff.mp (List.mem_filter.mp h).2).1
  · exact (Bool.and_eq_true_iff.mp (List.mem_filter.mp h).2).1

theorem armHits_eq_matchingIn (h : table = .images ∨ r.location = none) :
    r.armHits fns stored mode table = r.matchingIn fns stored mode table := by
  unfold armHits matchingIn
  have heq : ∀ hit ∈ (stored.lib.rows table).map (SearchHit.mk table),
      (r.included table && r.armWhere fns stored mode hit) =
        (LibraryRow.listed stored.lib r.userUuid r.listQuery hit.table true hit.row &&
          r.meetsMode fns stored hit mode) := by
    intro hit hhit
    obtain ⟨row, _, rfl⟩ := List.mem_map.mp hhit
    exact armWhere_eq_listed h
  rw [← List.filter_congr heq]
  cases r.included table <;> simp

/-- A listing of both tables shows no video where a location is given. -/
theorem matchingIn_videos (h : r.location.isSome) : r.matchingIn fns stored mode .videos = [] := by
  refine List.filter_eq_nil_iff.mpr fun hit hhit hlisted => ?_
  obtain ⟨row, _, rfl⟩ := List.mem_map.mp hhit
  obtain ⟨near, hnear⟩ := Option.isSome_iff_exists.mp h
  simp [LibraryRow.listed, matchesLocation, listQuery, hnear] at hlisted

theorem matchingIn_images (h : r.mediaType = "video") :
    r.matchingIn fns stored mode .images = [] := by
  rw [← armHits_eq_matchingIn (Or.inl rfl), armHits, included]
  simp [h]

theorem nodup_matching : (r.matching fns stored mode).Nodup := by
  have hnodup : ∀ table, (r.matchingIn fns stored mode table).Nodup := fun table =>
    ((List.Nodup.of_map _ (stored.keys table)).map fun _ _ h =>
      congrArg SearchHit.row h).filter _
  have htable : ∀ {table}, ∀ hit ∈ r.matchingIn fns stored mode table, hit.table = table := by
    intro table hit hhit
    obtain ⟨row, _, rfl⟩ := List.mem_map.mp (List.mem_filter.mp hhit).1
    rfl
  refine List.nodup_append.mpr ⟨hnodup .images, hnodup .videos, fun a ha b hb heq => ?_⟩
  have hsame := htable a ha
  rw [heq, htable b hb] at hsame
  cases hsame

theorem length_arms_lt (fns : SearchFunctions F Vector) (stored : SearchedLibrary Vector)
    (r : SearchRequest Vector) (mode : SearchMode) :
    (r.armHits fns stored mode .images ++ r.armHits fns stored mode .videos).length < 2 ^ 62 := by
  have harm : ∀ table, (r.armHits fns stored mode table).length < 2 ^ 61 := by
    intro table
    have hsmall := stored.small table
    unfold armHits
    split
    next =>
      have hle := List.length_filter_le (r.armWhere fns stored mode)
        ((stored.lib.rows table).map (SearchHit.mk table))
      rw [List.length_map] at hle
      omega
    next => simp
  have himages := harm .images
  have hvideos := harm .videos
  rw [List.length_append]
  omega

theorem arms_eq_matching (hcovered : r.LocationCovered fns stored mode)
    (haccepted : r.accepted = true) :
    r.armHits fns stored mode .images ++ r.armHits fns stored mode .videos =
      r.matching fns stored mode := by
  have hvideos : r.armHits fns stored mode .videos = r.matchingIn fns stored mode .videos := by
    cases hlocation : r.location with
    | none => exact armHits_eq_matchingIn (Or.inr hlocation)
    | some near =>
      have hsome : r.location.isSome := by rw [hlocation]; rfl
      rw [hcovered hsome haccepted, matchingIn_videos hsome]
  rw [armHits_eq_matchingIn (Or.inl rfl), hvideos, matching]

theorem matching_of_not_accepted (fns : SearchFunctions F Vector) (stored : SearchedLibrary Vector)
    (mode : SearchMode) (hdates : r.listQuery.wellFormed = true) (h : r.accepted ≠ true) :
    r.matching fns stored mode = [] := by
  simp only [accepted, hdates, Bool.true_and, ne_eq, Bool.not_eq_true, Bool.not_eq_false',
    Bool.and_eq_true, decide_eq_true_eq] at h
  rw [matching, matchingIn_images h.2, matchingIn_videos h.1]
  rfl

theorem dateParses_iff {T : Type} {given : Option (Option Time)} {text : Option String}
    {parse : String → Option T}
    (h : given.map Option.isSome = text.map fun d => (parse d).isSome) :
    given ≠ some none ↔ ∀ d, text = some d → (parse d).isSome := by
  cases given with
  | none =>
    cases text with
    | none => simp
    | some d => cases h
  | some time =>
    cases text with
    | none => cases h
    | some d =>
      have hsome : time.isSome = (parse d).isSome := Option.some.inj h
      cases time with
      | none => simpa using hsome.symm
      | some t => simpa using hsome.symm

/-- A search is accepted whose placeholders match its parameters. -/
theorem accepted_iff_matches {libs : QueryLibs} {args : SearchArgs} (mode : SearchMode)
    (hstart : r.startDate.map Option.isSome =
      args.startDate.map fun d => (libs.startDatetime d).isSome)
    (hend : r.endDate.map Option.isSome = args.endDate.map fun d => (libs.endDatetime d).isSome)
    (hlocation : r.location.isSome = args.hasLocationFilter)
    (hmedia : r.mediaType = args.mediaType) :
    r.accepted = true ↔ (searchStatement libs args mode).Matches (args.wanted libs) := by
  rw [searchStatement_matches_iff, DatesParse, ← dateParses_iff hstart, ← dateParses_iff hend,
    accepted, ListQuery.wellFormed, hlocation, hmedia]
  rw [Bool.and_eq_true, Bool.and_eq_true, decide_eq_true_iff, decide_eq_true_iff]
  refine and_congr Iff.rfl ?_
  cases args.hasLocationFilter <;> simp

end Filters

section Searches

variable [LinearOrder F] {fns : SearchFunctions F Vector} {stored : SearchedLibrary Vector}
  {r : SearchRequest Vector} {mode : SearchMode} {orders : SearchSort → ScanOrder SearchHit}
  {limit offset : Int} {hits l : List SearchHit}

theorem accepted_of_search (h : r.searchHits fns stored orders mode limit offset = some hits) :
    r.accepted = true ∧ 0 ≤ limit ∧ 0 ≤ offset := by
  unfold searchHits at h
  split at h
  next hvalid => exact ⟨hvalid.1, hvalid.2.2⟩
  next => cases h

theorem isOrder_arrange (order : ScanOrder SearchHit) (all : List SearchHit) :
    IsOrder (r.orderKey fns stored mode) all
      (sorted (r.orderKey fns stored mode) (order.arrange all)) :=
  ⟨(isOrder_sorted _).1.trans (order.perm all), (isOrder_sorted _).2⟩

/-- What is found comes from the arms, and no more than the page has room for. -/
theorem sublist_of_search (h : r.searchHits fns stored orders mode limit offset = some hits) :
    ∃ all : List SearchHit, hits.Sublist (all.drop offset.toNat) ∧
      all.Subperm (r.armHits fns stored mode .images ++ r.armHits fns stored mode .videos) := by
  unfold searchHits at h
  split at h
  next =>
    cases Option.some.inj h
    refine ⟨_, List.take_sublist _ _, (isOrder_arrange _ _).1.subperm.trans ?_⟩
    have harm : ∀ n table, (r.arm fns stored orders mode n table).Subperm
        (r.armHits fns stored mode table) := fun n table =>
      (List.take_sublist _ _).subperm.trans (isOrder_arrange _ _).1.subperm
    exact (harm _ .images).append (harm _ .videos)
  next => cases h

/-- The page that is found, where its numbers fit. -/
theorem searchHits_eq_some (haccepted : r.accepted = true) (hlimit : 0 ≤ limit)
    (hoffset : 0 ≤ offset) (hsum : limit + offset < 2 ^ 63) :
    r.searchHits fns stored orders mode limit offset =
      some (((r.united fns stored orders mode (limit + offset)).drop offset.toNat).take
        limit.toNat) := by
  have hbranch : perBranchLimit limit offset = limit + offset := by
    rw [perBranchLimit, Int.bmod_eq_of_le] <;> omega
  unfold searchHits
  rw [hbranch, if_pos ⟨haccepted, by omega, hlimit, hoffset⟩]

theorem drop_take_eq (hlimit : 0 ≤ limit) (hoffset : 0 ≤ offset) (l : List SearchHit) :
    (l.drop offset.toNat).take limit.toNat =
      (l.take (limit + offset).toNat).drop offset.toNat := by
  rw [List.drop_take]
  congr 1
  omega

/-- A page is cut from an order of all rows of the arms, whatever their limit leaves out. -/
theorem exists_order_of_search (fns : SearchFunctions F Vector) (stored : SearchedLibrary Vector)
    (mode : SearchMode) (haccepted : r.accepted = true) (hlimit : 0 ≤ limit)
    (hoffset : 0 ≤ offset) (hsum : limit + offset < 2 ^ 63)
    (orders : SearchSort → ScanOrder SearchHit) :
    ∃ l, IsOrder (r.orderKey fns stored mode)
        (r.armHits fns stored mode .images ++ r.armHits fns stored mode .videos) l ∧
      r.searchHits fns stored orders mode limit offset =
        some ((l.drop offset.toNat).take limit.toNat) := by
  obtain ⟨l, hl, htake⟩ := exists_order_of_arms
    (isOrder_arrange (orders (.arm .images)) (r.armHits fns stored mode .images))
    (isOrder_arrange (orders (.arm .videos)) (r.armHits fns stored mode .videos))
    (isOrder_arrange (orders .combined) (r.arm fns stored orders mode (limit + offset) .images ++
      r.arm fns stored orders mode (limit + offset) .videos))
  have hunited : l.take (limit + offset).toNat =
      (r.united fns stored orders mode (limit + offset)).take (limit + offset).toNat := htake
  refine ⟨l, hl, ?_⟩
  rw [searchHits_eq_some haccepted hlimit hoffset hsum, drop_take_eq hlimit hoffset, ← hunited,
    drop_take_eq hlimit hoffset]

/-- Every order of the rows of the arms can show. -/
theorem exists_search_of_order (haccepted : r.accepted = true) (hlimit : 0 ≤ limit)
    (hoffset : 0 ≤ offset) (hsum : limit + offset < 2 ^ 63)
    (h : IsOrder (r.orderKey fns stored mode)
      (r.armHits fns stored mode .images ++ r.armHits fns stored mode .videos) l) :
    ∃ orders, r.searchHits fns stored orders mode limit offset =
      some ((l.drop offset.toNat).take limit.toNat) := by
  have htable : ∀ {table}, ∀ hit ∈ r.armHits fns stored mode table, hit.table = table := by
    intro table hit hhit
    unfold armHits at hhit
    split at hhit
    next =>
      obtain ⟨row, _, rfl⟩ := List.mem_map.mp (List.mem_filter.mp hhit).1
      rfl
    next => exact absurd hhit List.not_mem_nil
  obtain ⟨images, videos, combined, himages, hvideos, hcombined, htake⟩ :=
    exists_arms_of_order h (p := fun hit => hit.table = .images)
      (fun hit hhit => decide_eq_true (htable hit hhit))
      (fun hit hhit => by simp [htable hit hhit]) (limit + offset).toNat
  refine ⟨fun
    | .arm .images => .reading images
    | .arm .videos => .reading videos
    | .combined => .reading combined, ?_⟩
  rw [searchHits_eq_some haccepted hlimit hoffset hsum, drop_take_eq hlimit hoffset,
    drop_take_eq hlimit hoffset, ← htake]
  simp only [united, arm, ScanOrder.sorted_reading himages, ScanOrder.sorted_reading hvideos,
    ScanOrder.sorted_reading hcombined]

theorem searchHits_nil_of_length (h : r.searchHits fns stored orders mode limit offset = some hits)
    (hlength : (r.armHits fns stored mode .images ++ r.armHits fns stored mode .videos).length ≤
      offset.toNat) : hits = [] := by
  obtain ⟨all, hsub, hall⟩ := sublist_of_search h
  rw [List.drop_of_length_le (hall.length_le.trans hlength)] at hsub
  exact List.sublist_nil.mp hsub

/-- What a page shows is a page of some order of the rows. -/
theorem exists_order_of_page (haccepted : r.accepted = true) (hlimit : 1 ≤ limit)
    (hsmall : limit < 2 ^ 63) (orders : SearchSort → ScanOrder SearchHit) (k : Nat) :
    ∃ l, IsOrder (r.orderKey fns stored mode)
        (r.armHits fns stored mode .images ++ r.armHits fns stored mode .videos) l ∧
      (r.searchHits fns stored orders mode limit (k * limit)).getD [] =
        page l limit.toNat k := by
  obtain ⟨n, rfl⟩ := Int.eq_ofNat_of_zero_le (show 0 ≤ limit by omega)
  have hoffset : ((k : Int) * (n : Int)).toNat = k * n := by
    rw [← Int.natCast_mul, Int.toNat_natCast]
  rcases Nat.lt_or_ge (n + k * n) (2 ^ 63) with hfits | hlarge
  · obtain ⟨l, hl, heq⟩ := exists_order_of_search fns stored mode haccepted
      (show (0 : Int) ≤ n by omega) (show (0 : Int) ≤ k * n from Int.mul_nonneg (by omega) (by omega)) (by omega) orders
    refine ⟨l, hl, ?_⟩
    rw [heq, Option.getD_some, hoffset, Int.toNat_natCast, page]
  · have hlength := length_arms_lt fns stored r mode
    have hbeyond : (r.armHits fns stored mode .images ++
        r.armHits fns stored mode .videos).length ≤ k * n := by
      cases k with
      | zero => omega
      | succ k =>
        have hmul : (k + 1) * n = k * n + n := Nat.succ_mul k n
        omega
    refine ⟨_, isOrder_sorted _, ?_⟩
    have hnone : page (sorted (r.orderKey fns stored mode) (r.armHits fns stored mode .images ++
        r.armHits fns stored mode .videos)) n k = [] := by
      rw [page, List.drop_of_length_le (by rwa [(isOrder_sorted _).1.length_eq]), List.take_nil]
    rw [Int.toNat_natCast, hnone]
    cases hsearch : r.searchHits fns stored orders mode n (k * n) with
    | none => rfl
    | some hits => exact searchHits_nil_of_length hsearch (by rwa [hoffset])

end Searches

section Conditions

variable [LinearOrder F] {fns : SearchFunctions F Vector} {stored : SearchedLibrary Vector}
  {r : SearchRequest Vector} {mode : SearchMode} {limit : Int}

/-- A search whose arms hold what matches shows it once if and only if the limit is positive, where
anything matches, and no tie lies across the end of a page. -/
theorem pagesExact_iff_of_arms (haccepted : r.accepted = true)
    (harms : r.armHits fns stored mode .images ++ r.armHits fns stored mode .videos =
      r.matching fns stored mode) (hsmall : limit < 2 ^ 63) :
    r.PagesExact fns stored mode limit ↔
      (1 ≤ limit ∨ r.matching fns stored mode = []) ∧
        ¬Straddles (r.orderKey fns stored mode) (r.matching fns stored mode) limit.toNat := by
  constructor
  · intro h
    refine ⟨?_, fun hstraddles => ?_⟩
    · by_contra hnot
      push Not at hnot
      obtain ⟨last, hlast⟩ := h fun _ _ => .scanned
      have hnone : ((List.range last).flatMap fun k : Nat =>
          (r.searchHits fns stored (fun _ => .scanned) mode limit (k * limit)).getD []) = [] := by
        refine List.flatMap_eq_nil_iff.mpr fun k _ => ?_
        cases hsearch : r.searchHits fns stored (fun _ => .scanned) mode limit (k * limit) with
        | none => rfl
        | some hits =>
          obtain ⟨-, hlimit, hoffset⟩ := accepted_of_search hsearch
          have hzero : limit = 0 := by omega
          rw [searchHits_eq_some haccepted hlimit hoffset (by simp [hzero]), hzero] at hsearch
          cases Option.some.inj hsearch
          rfl
      have hperm := hlast last le_rfl
      rw [hnone] at hperm
      exact hnot.2 hperm.symm.eq_nil
    · obtain ⟨l, l', a, k, hl, hl', ha, ha'⟩ := exists_repeated hstraddles
      rw [← harms] at hl hl'
      have hlimit : 1 ≤ limit := by
        by_contra hnot
        have hzero : limit.toNat = 0 := by omega
        simp [page, hzero] at ha
      obtain ⟨n, rfl⟩ := Int.eq_ofNat_of_zero_le (show 0 ≤ limit by omega)
      rw [Int.toNat_natCast] at ha ha'
      have hlength := length_arms_lt fns stored r mode
      have hshort : (k + 1) * n < 2 ^ 62 := by
        by_contra hge
        rw [page, List.drop_of_length_le (by rw [hl'.1.length_eq]; omega), List.take_nil] at ha'
        exact absurd ha' List.not_mem_nil
      have hmul : (k + 1) * n = k * n + n := Nat.succ_mul k n
      have hsearch : ∀ {l : List SearchHit} {j : Nat}, j * n < 2 ^ 62 →
          IsOrder (r.orderKey fns stored mode)
            (r.armHits fns stored mode .images ++ r.armHits fns stored mode .videos) l →
          ∃ orders, r.searchHits fns stored orders mode n (j * n) = some (page l n j) := by
        intro l j hj hl
        obtain ⟨orders, heq⟩ := exists_search_of_order haccepted (show (0 : Int) ≤ n by omega)
          (show (0 : Int) ≤ j * n from Int.mul_nonneg (by omega) (by omega)) (by omega) hl
        refine ⟨orders, heq.trans ?_⟩
        rw [← Int.natCast_mul, Int.toNat_natCast, Int.toNat_natCast, page]
      obtain ⟨first, hfirst⟩ := hsearch (j := k) (by omega) hl
      obtain ⟨second, hsecond⟩ := hsearch hshort hl'
      obtain ⟨last, hlast⟩ := h fun j => if j = k then first else second
      have hperm := hlast (max last (k + 2)) (Nat.le_max_left _ _)
      refine not_nodup_of_pages (k := k) (a := a) ?_ ?_ (by omega)
        (hperm.nodup_iff.mpr nodup_matching)
      · rw [if_pos rfl, hfirst]
        exact ha
      · rw [if_neg (by omega)]
        push_cast at hsecond ⊢
        rw [hsecond]
        exact ha'
  · rintro ⟨hlimit, hties⟩ orders
    rcases hlimit with hlimit | hnone
    · have hpage : ∀ k : Nat, ∃ l, IsOrder (r.orderKey fns stored mode) (r.matching fns stored mode) l ∧
          (r.searchHits fns stored (orders k) mode limit (k * limit)).getD [] =
            page l limit.toNat k := fun k => by
        rw [← harms]
        exact exists_order_of_page haccepted hlimit hsmall (orders k) k
      choose l hl hshown using hpage
      refine ⟨(r.matching fns stored mode).length, fun m hm => ?_⟩
      simp only [hshown]
      refine (pages_perm hties hl (hl 0) m).trans ?_
      have hlength := (hl 0).1.length_eq
      have hmul := Nat.le_mul_of_pos_right m (show 0 < limit.toNat by omega)
      rw [List.take_of_length_le (by omega)]
      exact (hl 0).1
    · refine ⟨0, fun m _ => ?_⟩
      rw [hnone]
      refine List.Perm.of_eq (List.flatMap_eq_nil_iff.mpr fun k _ => ?_)
      cases hsearch : r.searchHits fns stored (orders k) mode limit (k * limit) with
      | none => rfl
      | some hits => exact searchHits_nil_of_length hsearch (by simp [harms, hnone])

theorem filtersRespected_iff :
    r.FiltersRespected fns stored mode ↔ r.LocationCovered fns stored mode := by
  constructor
  · intro h hlocated haccepted
    obtain ⟨l, hl, hsearch⟩ := exists_order_of_search fns stored mode haccepted
      (show (0 : Int) ≤ 2 ^ 62 by decide) (show (0 : Int) ≤ 0 by decide) (by decide)
      fun _ => .scanned
    have hlength := length_arms_lt fns stored r mode
    refine List.eq_nil_iff_forall_not_mem.mpr fun hit hhit => ?_
    have hmem : hit ∈ (l.drop (0 : Int).toNat).take (2 ^ 62 : Int).toNat := by
      rw [List.take_of_length_le]
      · exact hl.1.symm.subset (List.mem_append_right _ hhit)
      · have hall := hl.1.length_eq
        have hbound : (2 ^ 62 : Int).toNat = 2 ^ 62 := rfl
        rw [List.length_drop]
        omega
    have hlisted := h _ _ _ _ hsearch hit hmem
    unfold armHits at hhit
    split at hhit
    next =>
      obtain ⟨row, _, rfl⟩ := List.mem_map.mp (List.mem_filter.mp hhit).1
      obtain ⟨near, hnear⟩ := Option.isSome_iff_exists.mp hlocated
      simp [LibraryRow.listed, matchesLocation, listQuery, hnear] at hlisted
    next => exact absurd hhit List.not_mem_nil
  · intro hcovered orders limit offset hits hsearch hit hhit
    obtain ⟨all, hsub, hall⟩ := sublist_of_search hsearch
    rw [arms_eq_matching hcovered (accepted_of_search hsearch).1] at hall
    exact listed_of_mem_matching (hall.subset ((hsub.trans (List.drop_sublist _ _)).subset hhit))

/-- Searches respect their filters and their pages if and only if no video is found for a location,
the limit is positive, where anything matches, and no tie lies across the end of a page. -/
theorem searchPages_iff (fns : SearchFunctions F Vector) (stored : SearchedLibrary Vector)
    (r : SearchRequest Vector) (mode : SearchMode) (limit : Int)
    (hdates : r.listQuery.wellFormed = true) (hsmall : limit < 2 ^ 63) :
    r.FiltersRespected fns stored mode ∧ r.PagesExact fns stored mode limit ↔
      r.LocationCovered fns stored mode ∧ (1 ≤ limit ∨ r.matching fns stored mode = []) ∧
        ¬Straddles (r.orderKey fns stored mode) (r.matching fns stored mode) limit.toNat := by
  rw [filtersRespected_iff]
  refine and_congr_right fun hcovered => ?_
  by_cases haccepted : r.accepted = true
  · exact pagesExact_iff_of_arms haccepted (arms_eq_matching hcovered haccepted) hsmall
  · have hnone := matching_of_not_accepted fns stored mode hdates haccepted
    refine iff_of_true (fun orders => ⟨0, fun m _ => ?_⟩) ⟨Or.inr hnone, ?_⟩
    · rw [hnone]
      refine List.Perm.of_eq (List.flatMap_eq_nil_iff.mpr fun k _ => ?_)
      cases hsearch : r.searchHits fns stored (orders k) mode limit (k * limit) with
      | none => rfl
      | some hits => exact absurd (accepted_of_search hsearch).1 haccepted
    · rintro ⟨_, k, hlow, hhigh⟩
      rw [hnone] at hhigh
      simp at hhigh

end Conditions

/-- Unit vectors, and words instead of their stems. -/
def wordSearch : SearchFunctions ℚ (List ℚ) where
  cosineDistance v w := 1 - (List.zipWith (· * ·) v w).sum
  similarity dist := 1 - dist
  exceeds x y := y < x
  tsMatches document query := (document.splitOn " ").contains query
  tsRank document query := (document.splitOn " ").count query / (document.splitOn " ").length
  blend similarity rank := similarity * (7 / 10) + rank.getD 0 * (3 / 10)

/-- The holiday with the vectors of its pictures and videos: how near they are to a sunset. -/
def searchedHoliday (sharedVideo : ℚ) : SearchedLibrary (List ℚ) where
  toStoredLibrary := holiday
  description _ _ _ := none
  embedding table _ hash :=
    some [if hash = digitHash 'a' then 1 else if hash = digitHash 'c' then 7 / 10
      else if table = .images then 9 / 10 else sharedVideo]

/-- A search for the vector of a sunset. -/
def sunsets : SearchRequest (List ℚ) where
  queryText := "sunset"
  embedding := [1]
  userUuid := 1
  deviceFilter := none
  starredOnly := false
  minSimilarity := 2 / 25
  location := none
  startDate := none
  endDate := none
  labelId := none
  mediaType := "all"

theorem searchPages_holiday :
    sunsets.FiltersRespected wordSearch (searchedHoliday (8 / 10)) .semantic ∧
      sunsets.PagesExact wordSearch (searchedHoliday (8 / 10)) .semantic 2 := by
  have hnodup : ((sunsets.matching wordSearch (searchedHoliday (8 / 10)) .semantic).map
      (sunsets.orderKey wordSearch (searchedHoliday (8 / 10)) .semantic)).Nodup := by
    decide +kernel
  exact (searchPages_iff wordSearch (searchedHoliday (8 / 10)) sunsets .semantic 2 rfl
    (by decide)).mpr ⟨fun h => absurd h (by decide), Or.inl (by decide),
      not_straddles_of_nodup hnodup⟩

/-- The picture and the video of one hash are as near, and stand on both sides of the end of a
page. -/
theorem not_pagesExact_holiday :
    ¬(sunsets.FiltersRespected wordSearch (searchedHoliday (9 / 10)) .semantic ∧
      sunsets.PagesExact wordSearch (searchedHoliday (9 / 10)) .semantic 2) := by
  rintro ⟨-, hpages⟩
  have hcovered : sunsets.LocationCovered wordSearch (searchedHoliday (9 / 10)) .semantic :=
    fun h => absurd h (by decide)
  have hties := ((pagesExact_iff_of_arms rfl (arms_eq_matching hcovered rfl) (by decide)).mp
    hpages).2
  refine hties ⟨sunsets.orderKey wordSearch (searchedHoliday (9 / 10)) .semantic
    ⟨.images, holidayRow 1 (digitHash 'b') 20 false (some 5)⟩, 1, ?_, ?_⟩
  · decide +kernel
  · decide +kernel

end SearchRequest

end Reminisce

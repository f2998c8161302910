import Reminisce.MediaQueries

namespace Reminisce

namespace SearchParams

/-- The placeholders that the filters of both tables ask for. -/
def filterSlots (params : SearchParams) : List (Slot × Nat) :=
  params.device.toList.map (Prod.mk .device) ++ params.label.toList.map (Prod.mk .label) ++
    params.startDate.toList.map (Prod.mk .startDate) ++ params.endDate.toList.map (Prod.mk .endDate)

/-- Those of the images alone. -/
def pointSlots (params : SearchParams) : List (Slot × Nat) :=
  match params.lon, params.lat with
  | some lon, some lat => [(.lon, lon), (.lat, lat)]
  | _, _ => []

end SearchParams

namespace SearchArm

variable (libs : QueryLibs) (args : SearchArgs) (params : SearchParams) (arm : SearchArm)

@[simp] theorem slots_aliasName (rest : Sql) :
    Sql.slots (arm.aliasName :: rest) = Sql.slots rest := by
  cases arm <;> rfl

@[simp] theorem slots_place (rest : Sql) : Sql.slots (arm.place :: rest) = Sql.slots rest := by
  cases arm <;> rfl

@[simp] theorem slots_mediaType (rest : Sql) :
    Sql.slots (arm.mediaType :: rest) = Sql.slots rest := by
  cases arm <;> rfl

@[simp] theorem slots_floatText (before : String) (x : Rat) (after : String) {plain : isPlain before}
    {hne : before ≠ ""} {h : noDollar after} (rest : Sql) :
    Sql.slots (libs.floatText before x after plain hne h :: rest) = Sql.slots rest := rfl

@[simp] theorem rest_condition (rest : Sql) : (arm.condition rest).rest = rest := by
  cases arm <;> rfl

@[simp] theorem rest_sqlCondition (lead : String) (rest : Sql) (h : noDollar lead) :
    (sqlCondition lead rest h).rest = rest := rfl

@[simp] theorem slots_document : Sql.slots arm.document = [] := by simp [document]

@[simp] theorem slots_cosine : Sql.slots arm.cosine = [(.embedding, 2)] := by simp [cosine]

@[simp] theorem slots_columns : Sql.slots arm.columns = [] := by simp [columns]

@[simp] theorem slots_starredColumn : Sql.slots starredColumn = [] := rfl

@[simp] theorem slots_source : Sql.slots arm.source = [(.user, 1)] := by cases arm <;> rfl

@[simp] theorem slots_labelCondition (n : Nat) :
    Sql.slots (arm.labelCondition n).rest = [(.label, n)] := by
  cases arm <;> rfl

/-- The placeholders of the point in an arm. -/
def pointSlots (params : SearchParams) : SearchArm → List (Slot × Nat)
  | image => params.pointSlots
  | video => []

@[simp] theorem slots_distance : Sql.slots (arm.distance params) = arm.pointSlots params := by
  obtain ⟨-, -, -, -, lon, lat⟩ := params
  cases arm with
  | video => rfl
  | image => cases lon <;> cases lat <;> rfl

theorem slots_locationConditions (radius : Rat) :
    (arm.locationConditions libs radius params).flatMap (fun c => Sql.slots c.rest) =
      arm.pointSlots params := by
  obtain ⟨-, -, -, -, lon, lat⟩ := params
  cases arm with
  | video => rfl
  | image => cases lon <;> cases lat <;> rfl

theorem slots_filterConditions :
    (arm.filterConditions libs args params).flatMap (fun c => Sql.slots c.rest) =
      params.filterSlots ++ arm.pointSlots params := by
  have hstarred : (if args.starredOnly then
      [sqlCondition "s.hash IS NOT NULL" []] else []).flatMap (fun c => Sql.slots c.rest) = [] := by
    split <;> rfl
  have hparam : ∀ (o : Option Nat) (slot : Slot),
      (o.toList.flatMap fun n => [(slot, n)]) = o.toList.map (Prod.mk slot) := by
    intro o slot
    cases o <;> rfl
  simp only [filterConditions, SearchParams.filterSlots, List.flatMap_append,
    slots_locationConditions, hstarred, List.append_nil, List.flatMap_map, rest_condition,
    slots_labelCondition, Sql.slots_sqlText, Sql.slots_param, Sql.slots_nil, hparam]

/-- What every arm of a mode asks for. -/
def modeSlots : SearchMode → List (Slot × Nat)
  | .semantic => [(.user, 1), (.embedding, 2), (.perBranchLimit, 3)]
  | .text => [(.user, 1), (.queryText, 2), (.perBranchLimit, 3)]
  | .hybrid => [(.user, 1), (.embedding, 2), (.queryText, 3), (.perBranchLimit, 4)]

theorem mem_slots_sql (mode : SearchMode) (q : Slot × Nat) :
    q ∈ Sql.slots (arm.sql libs args mode params) ↔
      q ∈ modeSlots mode ∨ q ∈ params.filterSlots ∨ q ∈ arm.pointSlots params := by
  cases mode with
  | semantic =>
    simp [sql, score, lastColumns, orderAndLimit, slots_whereClause, modeConditions,
      slots_filterConditions, modeSlots, userCondition, deletedCondition, thresholdCondition]
    tauto
  | text =>
    simp [sql, score, lastColumns, orderAndLimit, slots_whereClause, modeConditions,
      slots_filterConditions, modeSlots, userCondition, deletedCondition, matchCondition]
    tauto
  | hybrid =>
    simp [sql, score, hybridScore, lastColumns, orderAndLimit, slots_whereClause, modeConditions,
      slots_filterConditions, modeSlots, userCondition, deletedCondition, thresholdCondition]
    tauto

end SearchArm

section Numbering

variable (libs : QueryLibs) (args : SearchArgs) (mode : SearchMode)

/-- What the parameters of a mode are for, with their numbers. -/
def SearchMode.reservedSlots (mode : SearchMode) : List (Slot × Nat) := mode.reserved.zipIdx 1

theorem mem_slots_searchUnion (q : Slot × Nat) :
    q ∈ Sql.slots (searchUnion libs args mode) ↔
      q ∈ SearchArm.modeSlots mode ∨ q ∈ (args.params mode.reserved.length).filterSlots ∨
        args.includeImage ∧ q ∈ (args.params mode.reserved.length).pointSlots := by
  unfold searchUnion
  generalize args.params mode.reserved.length = params
  have hboth : args.includeImage = true ∨ args.includeVideo = true := by
    simp only [SearchArgs.includeImage, SearchArgs.includeVideo, decide_eq_true_eq]
    by_contra h
    push Not at h
    rw [h.1] at h
    exact absurd h.2 (by decide)
  cases himage : args.includeImage with
  | false => simp [SearchArm.mem_slots_sql, SearchArm.pointSlots]
  | true =>
    cases args.includeVideo with
    | false => simp [SearchArm.mem_slots_sql, SearchArm.pointSlots]
    | true =>
      simp [SearchArm.mem_slots_sql, SearchArm.pointSlots]
      tauto

theorem mem_slots_searchStatement (q : Slot × Nat) :
    q ∈ (searchStatement libs args mode).sql.slots ↔
      q ∈ mode.reservedSlots ∨ q ∈ (args.params mode.reserved.length).filterSlots ∨
        args.includeImage ∧ q ∈ (args.params mode.reserved.length).pointSlots := by
  have hreserved : q ∈ mode.reservedSlots ↔
      q ∈ SearchArm.modeSlots mode ∨ q ∈ Sql.slots mode.finalOrder := by
    cases mode <;> simp [SearchMode.reservedSlots, SearchMode.reserved, SearchArm.modeSlots,
      SearchMode.finalOrder, List.zipIdx, or_assoc]
  simp only [searchStatement, Sql.slots_append, Sql.slots_sqlText, Sql.slots_nil, List.nil_append,
    List.mem_append, mem_slots_searchUnion, hreserved]
  tauto

/-- The slots of the optional parameters, in the order they are counted in. -/
def SearchArgs.filterOrder (args : SearchArgs) : List Slot :=
  (if args.deviceFilter.isSome then [.device] else []) ++
    (if args.labelId.isSome then [.label] else []) ++
    (if args.startDate.isSome then [.startDate] else []) ++
    if args.endDate.isSome then [.endDate] else []

def SearchArgs.pointOrder (args : SearchArgs) : List Slot :=
  if args.hasLocationFilter then [.lon, .lat] else []

variable {slots : List (Slot × Nat)} {order : List Slot}

theorem Numbers.next (h : Numbers slots order) (given : Bool) (s : Slot) {n : Nat}
    (hn : n = order.length) :
    Numbers (slots ++ (nextParam given n).1.toList.map (Prod.mk s))
      (order ++ if given then [s] else []) ∧
      (nextParam given n).2 = (order ++ if given then [s] else []).length := by
  subst hn
  cases given with
  | false => simpa [nextParam] using h
  | true => exact ⟨h.concat (by simp [nextParam]), by simp [nextParam]⟩

/-- The optional parameters have the numbers after the ones that a mode starts with. -/
theorem numbers_params :
    Numbers (mode.reservedSlots ++ (args.params mode.reserved.length).filterSlots)
      (mode.reserved ++ args.filterOrder) ∧
    Numbers (mode.reservedSlots ++ (args.params mode.reserved.length).filterSlots ++
      (args.params mode.reserved.length).pointSlots)
      (mode.reserved ++ args.filterOrder ++ args.pointOrder) := by
  obtain ⟨hdevice, hn⟩ := (numbers_zipIdx mode.reserved).next args.deviceFilter.isSome .device rfl
  obtain ⟨hlabel, hn⟩ := hdevice.next args.labelId.isSome .label hn
  obtain ⟨hstart, hn⟩ := hlabel.next args.startDate.isSome .startDate hn
  obtain ⟨hend, hn⟩ := hstart.next args.endDate.isSome .endDate hn
  obtain ⟨hlon, hn'⟩ := hend.next args.hasLocationFilter .lon hn
  obtain ⟨hlat, -⟩ := hlon.next args.hasLocationFilter .lat hn'
  refine ⟨?_, ?_⟩
  · simpa only [SearchMode.reservedSlots, SearchParams.filterSlots, SearchArgs.params,
      SearchArgs.filterOrder, List.append_assoc] using hend
  · have hpoint : (args.params mode.reserved.length).pointSlots =
        (args.params mode.reserved.length).lon.toList.map (Prod.mk .lon) ++
          (args.params mode.reserved.length).lat.toList.map (Prod.mk .lat) := by
      unfold SearchArgs.params SearchParams.pointSlots
      cases args.hasLocationFilter <;> rfl
    have horder : args.pointOrder = (if args.hasLocationFilter then [.lon] else []) ++
        if args.hasLocationFilter then [.lat] else [] := by
      unfold SearchArgs.pointOrder
      cases args.hasLocationFilter <;> rfl
    rw [hpoint, horder]
    simpa only [SearchMode.reservedSlots, SearchParams.filterSlots, SearchArgs.params,
      SearchArgs.filterOrder, List.append_assoc] using hlat

theorem searchParams_eq :
    args.reservedParams mode ++ args.filterParams libs =
      (mode.reserved ++ args.filterOrder ++ args.pointOrder).filterMap (args.wanted libs) := by
  have hreserved : args.reservedParams mode = mode.reserved.filterMap (args.wanted libs) := by
    cases mode <;> rfl
  have hpoint : (if args.hasLocationFilter then
      (args.locationLon.map SqlValue.float8).toList ++
        (args.locationLat.map SqlValue.float8).toList else []) =
      args.pointOrder.filterMap (args.wanted libs) := by
    unfold SearchArgs.pointOrder
    cases hloc : args.hasLocationFilter with
    | false => rfl
    | true =>
      obtain ⟨hlat, hlon⟩ := Bool.and_eq_true_iff.mp hloc
      obtain ⟨lat, hlat⟩ := Option.isSome_iff_exists.mp hlat
      obtain ⟨lon, hlon⟩ := Option.isSome_iff_exists.mp hlon
      simp [SearchArgs.wanted, hlat, hlon]
  rw [hreserved, SearchArgs.filterParams, hpoint]
  unfold SearchArgs.filterOrder
  simp only [List.filterMap_append, List.append_assoc]
  rw [ThumbnailArgs.filterMap_ite_isSome (fun h => by simp [SearchArgs.wanted, h]),
    ThumbnailArgs.filterMap_ite_isSome (fun h => by simp [SearchArgs.wanted, h]),
    ThumbnailArgs.filterMap_ite_isSome (fun h => by simp [SearchArgs.wanted, h]),
    ThumbnailArgs.filterMap_ite_isSome (fun h => by simp [SearchArgs.wanted, h])]
  rfl

theorem isSome_wanted_point {s : Slot} (hs : s ∈ args.pointOrder) :
    (args.wanted libs s).isSome := by
  simp only [SearchArgs.pointOrder, List.mem_ite_nil_right, List.mem_cons, List.not_mem_nil,
    or_false] at hs
  obtain ⟨hlat, hlon⟩ := Bool.and_eq_true_iff.mp hs.1
  rcases hs.2 with rfl | rfl
  · simpa [SearchArgs.wanted] using hlon
  · simpa [SearchArgs.wanted] using hlat

theorem searchWanted_iff :
    (∀ s ∈ mode.reserved ++ args.filterOrder ++ args.pointOrder, (args.wanted libs s).isSome) ↔
      DatesParse libs args.startDate args.endDate := by
  refine wanted_iff_datesParse rfl rfl (fun h => by simp [SearchArgs.filterOrder, h])
    (fun h => by simp [SearchArgs.filterOrder, h]) ?_
  intro s hs
  rcases List.mem_append.mp hs with hs | hs
  · rcases List.mem_append.mp hs with hs | hs
    · refine Or.inr (Or.inr ?_)
      have hall : ∀ s ∈ mode.reserved, s = .user ∨ s = .embedding ∨ s = .queryText ∨
          s = .perBranchLimit ∨ s = .limit ∨ s = .offset := by
        cases mode <;> decide
      rcases hall s hs with rfl | rfl | rfl | rfl | rfl | rfl <;> rfl
    · simp only [SearchArgs.filterOrder, List.mem_append, List.mem_ite_nil_right,
        List.mem_singleton] at hs
      rcases hs with ((⟨hsome, rfl⟩ | ⟨hsome, rfl⟩) | ⟨hsome, rfl⟩) | ⟨hsome, rfl⟩
      · exact Or.inr (Or.inr (by simpa [SearchArgs.wanted] using hsome))
      · exact Or.inr (Or.inr (by simpa [SearchArgs.wanted] using hsome))
      · exact Or.inl ⟨rfl, hsome⟩
      · exact Or.inr (Or.inl ⟨rfl, hsome⟩)
  · exact Or.inr (Or.inr (isSome_wanted_point libs args hs))

theorem searchStatement_matches_iff :
    (searchStatement libs args mode).Matches (args.wanted libs) ↔
      DatesParse libs args.startDate args.endDate ∧
        (args.hasLocationFilter → args.mediaType ≠ "video") := by
  obtain ⟨hfilters, hall⟩ := numbers_params args mode
  have hmem := mem_slots_searchStatement libs args mode
  rw [SqlStatement.matches_iff (searchParams_eq libs args mode), searchWanted_iff]
  · refine and_congr_right fun _ => ⟨fun hused hloc => ?_, fun himage n hn => ?_⟩
    · intro hvideo
      have hpoint : args.pointOrder = [.lon, .lat] := if_pos hloc
      obtain ⟨s, hs⟩ := hused (mode.reserved ++ args.filterOrder).length (by simp [hpoint])
      have hplaced : Placed (mode.reserved ++ args.filterOrder)
          (s, (mode.reserved ++ args.filterOrder).length + 1) := by
        refine hfilters.1 _ (List.mem_append.mpr ?_)
        rcases (hmem _).mp hs with hs | hs | hs
        · exact Or.inl hs
        · exact Or.inr hs
        · exact absurd hvideo (of_decide_eq_true hs.1)
      simpa using hplaced.2
    · obtain ⟨s, hs⟩ := hall.2 n hn
      refine ⟨s, (hmem _).mpr ?_⟩
      rcases List.mem_append.mp hs with hs | hs
      · exact (List.mem_append.mp hs).imp_right Or.inl
      · refine Or.inr (Or.inr ⟨decide_eq_true (himage ?_), hs⟩)
        by_contra hloc
        have hlon : (args.params mode.reserved.length).lon = none := by
          simp [SearchArgs.params, nextParam, hloc]
        rw [SearchParams.pointSlots, hlon] at hs
        exact absurd hs List.not_mem_nil
  · intro p hp
    refine hall.1 p ?_
    simp only [List.mem_append]
    rcases (hmem p).mp hp with hp | hp | hp
    · exact Or.inl (Or.inl hp)
    · exact Or.inl (Or.inr hp)
    · exact Or.inr hp.2
  · intro s hs
    rcases List.mem_append.mp hs with hs | hs
    · obtain ⟨n, hn⟩ := hfilters.exists_mem hs
      exact Or.inr ⟨n, (hmem _).mpr ((List.mem_append.mp hn).imp_right Or.inl)⟩
    · exact Or.inl (isSome_wanted_point libs args hs)

end Numbering

/-- A call of one of the five functions that build a query from filters. -/
inductive FilterCall
  | listThumbnails (args : ThumbnailArgs)
  | totalThumbnails (args : ThumbnailArgs)
  | performSemanticSearch (args : SearchArgs)
  | searchByText (args : SearchArgs)
  | searchHybrid (args : SearchArgs)

namespace FilterCall

def statement (libs : QueryLibs) : FilterCall → SqlStatement
  | listThumbnails args => listThumbnailsStatement libs args
  | totalThumbnails args => totalThumbnailsStatement libs args
  | performSemanticSearch args => performSemanticSearchStatement libs args
  | searchByText args => searchByTextStatement libs args
  | searchHybrid args => searchHybridStatement libs args

def wanted (libs : QueryLibs) : FilterCall → Slot → Option SqlValue
  | listThumbnails args | totalThumbnails args => args.wanted libs
  | performSemanticSearch args | searchByText args | searchHybrid args => args.wanted libs

def Dated (libs : QueryLibs) : FilterCall → Prop
  | listThumbnails args | totalThumbnails args => DatesParse libs args.startDate args.endDate
  | performSemanticSearch args | searchByText args | searchHybrid args =>
    DatesParse libs args.startDate args.endDate

/-- The table is known, or a location has images to be looked for among. -/
def Covered : FilterCall → Prop
  | listThumbnails args | totalThumbnails args =>
    args.table = "all" ∨ validateTableName args.table
  | performSemanticSearch args | searchByText args | searchHybrid args =>
    args.hasLocationFilter → args.mediaType ≠ "video"

/-- The placeholders match the parameters if the dates parse, and the table of a listing is known or
a search for a location includes the images. -/
theorem statement_matches_iff (libs : QueryLibs) (call : FilterCall) :
    (call.statement libs).Matches (call.wanted libs) ↔ call.Dated libs ∧ call.Covered := by
  cases call with
  | listThumbnails args => exact listThumbnails_matches_iff libs args
  | totalThumbnails args => exact totalThumbnails_matches_iff libs args
  | performSemanticSearch args =>
    exact searchStatement_matches_iff libs args .semantic
  | searchByText args =>
    exact searchStatement_matches_iff libs args .text
  | searchHybrid args =>
    exact searchStatement_matches_iff libs args .hybrid

/-- A listing from a day on, which is not written as one. -/
def undated : ThumbnailArgs where
  userUuid := 1
  deviceId := none
  table := "images"
  mediaType := "all"
  offset := 0
  limit := 50
  starredOnly := false
  startDate := some "2024/05/01"
  endDate := none
  locationLat := none
  locationLon := none
  locationRadiusKm := none
  labelId := none
  applyUserIdFilter := true
  noExif := false
  sortBy := none
  sortOrder := none

def undatedLibs : QueryLibs where
  parseDate d := if d = "2024-05-01" then some 19844 else none
  lastDate := 95026236
  showFloat _ := "0"
  showFloat_plain _ := by decide

/-- Its statement has four placeholders and three parameters. -/
theorem undated_mismatch :
    ¬((listThumbnails undated).statement undatedLibs).Matches
      ((listThumbnails undated).wanted undatedLibs) := by
  intro h
  have hdates := ((listThumbnails_matches_iff undatedLibs undated).mp h).1.1 "2024/05/01" rfl
  exact absurd hdates (by decide)

end FilterCall

end Reminisce

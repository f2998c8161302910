import Mathlib.Data.Set.Card
import Mathlib.Tactic.NormNum
import Reminisce.DuplicateGroups
import Reminisce.Library.SortedPages
import Reminisce.MachineInts

namespace Reminisce

open SortedPages

/-- `as f32` of a number, which keeps its sign. -/
structure F32Cast where
  toF32 : ℚ → ℚ
  nonneg : ∀ x, 0 ≤ x → 0 ≤ toF32 x

structure DuplicatesQuery where
  threshold : ℚ
  page : Nat
  limit : Nat
  deriving DecidableEq, Repr

structure DuplicatesResponse where
  groups : List DuplicateGroup
  totalGroups : Nat
  page : Nat
  limit : Nat
  deriving DecidableEq, Repr

/-- The tables behind a request. -/
structure DuplicateTables where
  images : List ShownRow
  pairs : List PairRow
  deriving DecidableEq, Repr

def DuplicatesQuery.clampedLimit (query : DuplicatesQuery) : Nat := max 1 (min query.limit 200)

def DuplicatesQuery.clampedThreshold (query : DuplicatesQuery) : ℚ :=
  max (4 / 5) (min query.threshold 1)

def hasLiveImage (images : List ShownRow) (userId : UserId) (h : String) : Bool :=
  images.any fun row => row.hash = h && row.userId = userId && !row.deleted

/-- The rows of the query for near duplicates. -/
def nearRows (tables : DuplicateTables) (userId : UserId) (threshold : ℚ) : List HashPair :=
  let rows := tables.pairs.filter fun p =>
    p.userId = userId && threshold ≤ p.similarity && hasLiveImage tables.images userId p.hashA &&
      hasLiveImage tables.images userId p.hashB
  ((rows.mergeSort fun p q => q.similarity ≤ p.similarity).take 2000).map fun p =>
    ⟨p.hashA, p.hashB, p.similarity⟩

/-- The number of groups before a page, `none` where it overflows. -/
def duplicatesOffset (query : DuplicatesQuery) : Option Nat :=
  checkedUint 64 ((max query.page 1 - 1) * query.clampedLimit)

/-- The groups of the near duplicates. -/
def nearGroups (fuel : Nat) (order : MapOrder) (tables : DuplicateTables) (userId : UserId)
    (pairs : List HashPair) : Option (List DuplicateGroup) :=
  if pairs.isEmpty then some [] else buildGroups fuel order tables.images userId pairs

def duplicatesResponse (page limit offset : Nat) (allGroups : List DuplicateGroup) :
    DuplicatesResponse :=
  if allGroups.isEmpty then ⟨[], 0, page, limit⟩
  else ⟨(allGroups.drop offset).take limit, allGroups.length, page, limit⟩

/-- `get_duplicates` of an authenticated user, `none` where it panics or runs out of fuel. -/
def getDuplicates (fuel : Nat) (order : MapOrder) (cast : F32Cast) (tables : DuplicateTables)
    (userId : UserId) (query : DuplicatesQuery) : Option DuplicatesResponse := do
  let offset ← duplicatesOffset query
  let groups ← nearGroups fuel order tables userId
    (nearRows tables userId (cast.toF32 query.clampedThreshold))
  return duplicatesResponse (max query.page 1) query.clampedLimit offset (sortGroups groups)

/-- What a request for a page shows, the pages counted from 0. -/
def shownGroups (fuel : Nat) (order : MapOrder) (cast : F32Cast) (tables : DuplicateTables)
    (userId : UserId) (query : DuplicatesQuery) (k : Nat) : List DuplicateGroup :=
  ((getDuplicates fuel order cast tables userId { query with page := k + 1 }).map
    DuplicatesResponse.groups).getD []

/-- The pairs that a request finds. -/
def foundPairs (cast : F32Cast) (tables : DuplicateTables) (userId : UserId)
    (query : DuplicatesQuery) : List HashPair :=
  nearRows tables userId (cast.toF32 query.clampedThreshold)

/-- All pages together show every component once, in whatever orders the requests iterate. -/
def PagesStable (cast : F32Cast) (tables : DuplicateTables) (userId : UserId)
    (query : DuplicatesQuery) : Prop :=
  ∃ enough, ∀ fuel, enough ≤ fuel → ∀ orders : Nat → MapOrder, ∃ last, ∀ m, last ≤ m →
    AreComponents tables.images userId (foundPairs cast tables userId query)
      ((List.range m).flatMap fun k => shownGroups fuel (orders k) cast tables userId query k)

/-- No page number makes the offset overflow. -/
def OffsetsFit (query : DuplicatesQuery) : Prop :=
  ∀ page < 2 ^ 64, (duplicatesOffset { query with page }).isSome

/-- The greatest similarity within a component. -/
def Strength (pairs : List HashPair) (c : Set String) (s : ℚ) : Prop :=
  IsGreatest {t | ∃ p ∈ pairs, (∃ h ∈ c, Joined pairs h p.hashA) ∧ t = p.similarity} s

/-- A page of the limit ends between components of one strength. -/
def TieAcrossPages (images : List ShownRow) (userId : UserId) (pairs : List HashPair)
    (limit : Nat) : Prop :=
  ∃ s k,
    {c | IsDuplicateComponent pairs (LiveImage images userId) c ∧
      ∃ t, Strength pairs c t ∧ s < t}.ncard < k * limit ∧
    k * limit < {c | IsDuplicateComponent pairs (LiveImage images userId) c ∧
      ∃ t, Strength pairs c t ∧ s ≤ t}.ncard

theorem clampedLimit_pos (query : DuplicatesQuery) : 0 < query.clampedLimit := by
  unfold DuplicatesQuery.clampedLimit
  omega

theorem offsetsFit_iff (query : DuplicatesQuery) : OffsetsFit query ↔ query.limit ≤ 1 := by
  have hfits : ∀ page, (duplicatesOffset { query with page }).isSome ↔
      (max page 1 - 1) * query.clampedLimit < 2 ^ 64 := by
    intro page
    exact isSome_checkedUint
  constructor
  · intro h
    have hlast := (hfits _).mp (h (2 ^ 64 - 1) (by omega))
    by_contra hlimit
    have htwo : 2 ≤ query.clampedLimit := by
      unfold DuplicatesQuery.clampedLimit
      omega
    have hmul := Nat.mul_le_mul_left (max (2 ^ 64 - 1) 1 - 1) htwo
    omega
  · intro hlimit page hpage
    have hone : query.clampedLimit = 1 := by
      unfold DuplicatesQuery.clampedLimit
      omega
    rw [hfits, hone]
    omega

theorem foundPairs_nonneg {cast : F32Cast} {tables : DuplicateTables} {userId : UserId}
    {query : DuplicatesQuery} : ∀ p ∈ foundPairs cast tables userId query, 0 ≤ p.similarity := by
  intro p hp
  obtain ⟨row, hrow, rfl⟩ := List.mem_map.mp hp
  have hmem := (List.mergeSort_perm _ _).subset (List.mem_of_mem_take hrow)
  have hthreshold : cast.toF32 query.clampedThreshold ≤ row.similarity := by
    have hfilter := (List.mem_filter.mp hmem).2
    simp only [Bool.and_eq_true, decide_eq_true_eq] at hfilter
    exact hfilter.1.1.2
  have hclamped : 0 ≤ query.clampedThreshold :=
    (by norm_num : (0 : ℚ) ≤ 4 / 5).trans (le_max_left _ _)
  exact (cast.nonneg _ hclamped).trans hthreshold

theorem foundPairs_length (cast : F32Cast) (tables : DuplicateTables) (userId : UserId)
    (query : DuplicatesQuery) : (foundPairs cast tables userId query).length ≤ 2000 := by
  unfold foundPairs nearRows
  rw [List.length_map]
  exact List.length_take_le _ _

theorem length_collectHashes_le (pairs : List HashPair) :
    (collectHashes pairs).length ≤ 2 * pairs.length := by
  have hsub : collectHashes pairs ⊆ pairs.flatMap fun p => [p.hashA, p.hashB] := by
    intro h hh
    obtain ⟨p, hp, hph⟩ := mem_collectHashes.mp hh
    exact List.mem_flatMap.mpr ⟨p, hp, by simpa using hph⟩
  have hle := ((collectHashes_nodup pairs).subperm hsub).length_le
  simpa [List.length_flatMap, Nat.mul_comm] using hle

theorem sortGroups_descending (groups : List DuplicateGroup) :
    Descending DuplicateGroup.similarity (sortGroups groups) := by
  have htrans : ∀ a b c : DuplicateGroup, decide (b.similarity ≤ a.similarity) →
      decide (c.similarity ≤ b.similarity) → decide (c.similarity ≤ a.similarity) := by
    simpa using fun a b c hab hbc => hbc.trans hab
  have htotal : ∀ a b : DuplicateGroup,
      decide (b.similarity ≤ a.similarity) || decide (a.similarity ≤ b.similarity) := by
    simpa using fun a b : DuplicateGroup => le_total b.similarity a.similarity
  exact (List.pairwise_mergeSort htrans htotal groups).imp of_decide_eq_true

/-- Sorted groups stay as they are. -/
theorem sortGroups_of_descending {groups : List DuplicateGroup}
    (h : Descending DuplicateGroup.similarity groups) : sortGroups groups = groups :=
  List.mergeSort_of_pairwise (h.imp decide_eq_true)

namespace Grouping

variable {pairs : List HashPair} (G : Grouping pairs) (images : List ShownRow) (userId : UserId)

theorem length_groups_le (order : MapOrder) :
    (G.groups images userId order).length ≤ (collectHashes pairs).length := by
  have hkeys := G.keys_nodup.length_le_card
  rw [List.length_map, Fintype.card_fin] at hkeys
  refine (List.length_filterMap_le _ _).trans ((List.length_filter_le _ _).trans ?_)
  rw [(order.perm _).length_eq]
  exact hkeys

theorem groups_perm (order order' : MapOrder) :
    (G.groups images userId order).Perm (G.groups images userId order') :=
  (((order.perm _).trans (order'.perm _).symm).filter _).filterMap _

end Grouping

theorem duplicatesResponse_groups (page limit offset : Nat) (allGroups : List DuplicateGroup) :
    (duplicatesResponse page limit offset allGroups).groups =
      (allGroups.drop offset).take limit := by
  unfold duplicatesResponse
  split
  next hempty => simp [List.isEmpty_iff.mp hempty]
  next => rfl

/-- A page is what the sorted groups of its request show. -/
theorem shownGroups_eq {fuel : Nat} {order : MapOrder} {cast : F32Cast} {tables : DuplicateTables}
    {userId : UserId} {query : DuplicatesQuery} {groups : List DuplicateGroup}
    (hgroups : nearGroups fuel order tables userId (foundPairs cast tables userId query) =
      some (sortGroups groups)) (hlen : groups.length < 2 ^ 64) (k : Nat) :
    shownGroups fuel order cast tables userId query k =
      page (sortGroups groups) query.clampedLimit k := by
  have hlen' : (sortGroups groups).length < 2 ^ 64 := by
    rwa [(sortGroups_perm groups).length_eq]
  have hsorted := sortGroups_of_descending (sortGroups_descending groups)
  have hoffset : duplicatesOffset { query with page := k + 1 } =
      checkedUint 64 (k * query.clampedLimit) := by
    unfold duplicatesOffset DuplicatesQuery.clampedLimit
    rw [show max (k + 1) 1 - 1 = k by omega]
  unfold shownGroups getDuplicates page
  rw [hoffset]
  rcases Nat.lt_or_ge (k * query.clampedLimit) (2 ^ 64) with hfits | hover
  · rw [checkedUint_of_lt hfits, Option.bind_eq_bind, Option.bind_some, Option.bind_eq_bind]
    change (Option.map DuplicatesResponse.groups ((nearGroups fuel order tables userId
      (foundPairs cast tables userId query)).bind _)).getD [] = _
    rw [hgroups, Option.bind_some, hsorted]
    exact duplicatesResponse_groups _ _ _ _
  · rw [checkedUint_eq_none hover, List.drop_of_length_le (by omega), List.take_nil]
    rfl

namespace AreComponents

variable {images : List ShownRow} {userId : UserId} {pairs : List HashPair}
  {groups : List DuplicateGroup}

theorem isComponent (h : AreComponents images userId pairs groups) {g : DuplicateGroup}
    (hg : g ∈ groups) : IsDuplicateComponent pairs (LiveImage images userId) g.hashes :=
  (h.components g.hashes).mp ⟨g, hg, rfl⟩

theorem strength (h : AreComponents images userId pairs groups)
    (hsim : ∀ p ∈ pairs, 0 ≤ p.similarity) {g : DuplicateGroup} (hg : g ∈ groups) :
    Strength pairs g.hashes g.similarity := by
  obtain ⟨⟨first, hfirst, -⟩, a, hset⟩ := h.isComponent hg
  have hequiv := joined_equivalence pairs
  have hsame : {t | ∃ p ∈ pairs, (∃ h ∈ g.hashes, Joined pairs h p.hashA) ∧ t = p.similarity} =
      {t | ∃ p ∈ pairs, Joined pairs first p.hashA ∧ t = max 0 p.similarity} := by
    ext t
    refine exists_congr fun p => and_congr_right fun hp => ?_
    rw [max_eq_right (hsim p hp)]
    refine and_congr_left fun _ => ?_
    refine ⟨fun ⟨x, hx, hjoined⟩ => ?_, fun hjoined => ⟨first, hfirst, hjoined⟩⟩
    rw [hset] at hx hfirst
    exact hequiv.trans (hequiv.symm hfirst.2) (hequiv.trans hx.2 hjoined)
  unfold Strength
  rw [hsame]
  exact h.similarity g hg first hfirst

/-- Different groups have different hashes. -/
theorem hashes_nodup (h : AreComponents images userId pairs groups) :
    (groups.map DuplicateGroup.hashes).Nodup := by
  refine List.pairwise_map.mpr (List.Pairwise.imp_of_mem ?_ (List.nodup_flatMap.mp h.once).2)
  intro g g' hg _ hdisjoint heq
  obtain ⟨⟨first, hfirst, -⟩, -⟩ := h.isComponent hg
  have hfirst' : first ∈ g'.hashes := heq ▸ hfirst
  obtain ⟨i, hi, rfl⟩ := hfirst
  obtain ⟨i', hi', heq'⟩ := hfirst'
  exact hdisjoint (List.mem_map.mpr ⟨i, hi, rfl⟩) (List.mem_map.mpr ⟨i', hi', heq'⟩)

theorem ncard_eq (h : AreComponents images userId pairs groups)
    (hsim : ∀ p ∈ pairs, 0 ≤ p.similarity) (p : ℚ → Prop) [DecidablePred p] :
    {c | IsDuplicateComponent pairs (LiveImage images userId) c ∧
      ∃ t, Strength pairs c t ∧ p t}.ncard = (groups.filter fun g => p g.similarity).length := by
  classical
  have hset : {c | IsDuplicateComponent pairs (LiveImage images userId) c ∧
      ∃ t, Strength pairs c t ∧ p t} =
        ((groups.filter fun g => p g.similarity).map DuplicateGroup.hashes).toFinset := by
    ext c
    simp only [List.coe_toFinset, List.mem_map, List.mem_filter, decide_eq_true_eq,
      Set.mem_ofPred_eq]
    constructor
    · rintro ⟨hc, t, ht, hpt⟩
      obtain ⟨g, hg, rfl⟩ := (h.components c).mpr hc
      exact ⟨g, ⟨hg, (h.strength hsim hg).unique ht ▸ hpt⟩, rfl⟩
    · rintro ⟨g, ⟨hg, hpg⟩, rfl⟩
      exact ⟨h.isComponent hg, g.similarity, h.strength hsim hg, hpg⟩
  have hnodup := h.hashes_nodup.sublist
    (List.filter_sublist (p := fun g => decide (p g.similarity)).map DuplicateGroup.hashes)
  rw [hset, Set.ncard_coe_finset, List.toFinset_card_of_nodup hnodup, List.length_map]

theorem straddles_iff (h : AreComponents images userId pairs groups)
    (hsim : ∀ p ∈ pairs, 0 ≤ p.similarity) (limit : Nat) :
    Straddles DuplicateGroup.similarity groups limit ↔
      TieAcrossPages images userId pairs limit := by
  refine exists_congr fun s => exists_congr fun k => and_congr ?_ ?_
  · rw [h.ncard_eq hsim fun t => s < t]
  · rw [h.ncard_eq hsim fun t => s ≤ t]

end AreComponents

/-- Whatever comes out of a map in some order can be lined up with what it comes from. -/
theorem exists_perm_filterMap {A B : Type} {f : A → Option B} {target : List B} {entries : List A}
    (h : target.Perm (entries.filterMap f)) :
    ∃ entries' : List A, entries'.Perm entries ∧ entries'.filterMap f = target := by
  induction target generalizing entries with
  | nil => exact ⟨entries, .refl _, List.nil_perm.mp h⟩
  | cons b rest ih =>
    obtain ⟨a, ha, hb⟩ := List.mem_filterMap.mp (h.subset List.mem_cons_self)
    obtain ⟨first, last, rfl⟩ := List.append_of_mem ha
    have hmiddle : (first ++ a :: last).Perm (a :: (first ++ last)) := List.perm_middle
    have hrest : rest.Perm ((first ++ last).filterMap f) := by
      have hcons := h.trans (hmiddle.filterMap f)
      rw [List.filterMap_cons_some hb] at hcons
      exact hcons.cons_inv
    obtain ⟨entries', hperm, heq⟩ := ih hrest
    exact ⟨a :: entries', (hperm.cons a).trans hmiddle.symm,
      by rw [List.filterMap_cons_some hb, heq]⟩

/-- Every permutation of a list is the order of some hash map. -/
theorem exists_mapOrder {A : Type} {entries entries' : List A} (h : entries'.Perm entries) :
    ∃ order : MapOrder, order.iterate entries = entries' := by
  have hplaces : entries'.Perm
      ((List.finRange entries.length).filterMap fun i => some (entries.get i)) := by
    rw [List.filterMap_eq_map', List.map_get_finRange]
    exact h
  obtain ⟨places, hperm, heq⟩ := exists_perm_filterMap hplaces
  refine ⟨⟨fun l => if hl : entries.length = l.length then
    places.map fun i => l.get (i.cast hl) else l, fun l => ?_⟩, ?_⟩
  · split
    next hl =>
      refine (hperm.map _).trans (.of_eq ?_)
      have hall : ∀ n (hn : n = l.length),
          (List.finRange n).map (fun i => l.get (i.cast hn)) = l := by
        rintro _ rfl
        exact List.map_get_finRange l
      exact hall _ hl
    next => exact .refl l
  · refine (dif_pos rfl).trans ?_
    rw [← heq, List.filterMap_eq_map']
    rfl

theorem Grouping.exists_order {pairs : List HashPair} (G : Grouping pairs)
    (images : List ShownRow) (userId : UserId) {order : MapOrder} {target : List DuplicateGroup}
    (h : IsOrder DuplicateGroup.similarity (G.groups images userId order) target) :
    ∃ order', sortGroups (G.groups images userId order') = target := by
  have hfilter : (G.groups images userId order) = (order.iterate G.members).filterMap fun entry =>
      if 2 ≤ entry.2.length then G.groupOf images userId entry else none := by
    unfold groups
    rw [List.filterMap_filter]
    simp only [decide_eq_true_eq]
  obtain ⟨members, hperm, heq⟩ := exists_perm_filterMap (hfilter ▸ h.1)
  obtain ⟨order', horder⟩ := exists_mapOrder (hperm.trans (order.perm G.members))
  refine ⟨order', ?_⟩
  have hgroups : G.groups images userId order' = target := by
    unfold groups
    rw [List.filterMap_filter, horder]
    simpa only [decide_eq_true_eq] using heq
  rw [hgroups]
  exact sortGroups_of_descending h.2

/-- The order of a map that is iterated as it was filled. -/
def plainOrder : MapOrder := ⟨fun entries => entries, fun entries => .refl entries⟩

/-- The groups of a request, before they are sorted. -/
theorem exists_nearGroups {fuel : Nat} (tables : DuplicateTables) (userId : UserId)
    {pairs : List HashPair} (hlength : pairs.length ≤ 2000)
    (hfuel : (collectHashes pairs).length ≤ fuel) :
    ∃ groups : MapOrder → List DuplicateGroup,
      (∀ order, nearGroups fuel order tables userId pairs = some (sortGroups (groups order))) ∧
      (∀ order, AreComponents tables.images userId pairs (groups order)) ∧
      (∀ order, (groups order).length < 2 ^ 64) ∧
      (∀ order order', (groups order).Perm (groups order')) ∧
      ∀ target, IsOrder DuplicateGroup.similarity (groups plainOrder) target →
        ∃ order, sortGroups (groups order) = target := by
  by_cases hne : pairs = []
  · subst hne
    refine ⟨fun _ => [], fun _ => by simp [nearGroups, sortGroups], fun _ => areComponents_nil _ _, fun _ => by simp,
      fun _ _ => .refl _, fun target htarget => ⟨plainOrder, ?_⟩⟩
    rw [List.perm_nil.mp htarget.1]
    exact List.mergeSort_nil
  · obtain ⟨G, hG⟩ := exists_grouping hne hfuel
    refine ⟨G.groups tables.images userId, fun order => ?_,
      fun order => G.groups_components tables.images userId order, fun order => ?_,
      G.groups_perm tables.images userId, fun target htarget => ?_⟩
    · rw [nearGroups, if_neg (by simpa using hne)]
      exact hG order tables.images userId
    · have hle := G.length_groups_le tables.images userId order
      have hhashes := length_collectHashes_le pairs
      omega
    · exact G.exists_order tables.images userId htarget

/-- The pages are stable exactly where no tie lies across the end of one. -/
theorem pages_stable_iff (cast : F32Cast) (tables : DuplicateTables) (userId : UserId)
    (query : DuplicatesQuery) :
    PagesStable cast tables userId query ↔
      ¬TieAcrossPages tables.images userId (foundPairs cast tables userId query)
        query.clampedLimit := by
  have hgroups : ∀ fuel, (collectHashes (foundPairs cast tables userId query)).length ≤ fuel → _ :=
    fun fuel => exists_nearGroups tables userId (foundPairs_length cast tables userId query)
  constructor
  · rintro ⟨enough, hstable⟩ htie
    obtain ⟨groups, hnear, hcomponents, hlen, -, horders⟩ := hgroups (max enough _) (le_max_right _ _)
    have hshown := fun order k => shownGroups_eq (hnear order) (hlen order) k
    obtain ⟨l, l', g, k, hl, hl', hg, hg'⟩ :=
      exists_repeated (((hcomponents plainOrder).straddles_iff foundPairs_nonneg
        query.clampedLimit).mpr htie)
    obtain ⟨first, rfl⟩ := horders l hl
    obtain ⟨second, rfl⟩ := horders l' hl'
    obtain ⟨last, hlast⟩ := hstable _ (le_max_left _ _) fun i => if i = k then first else second
    have honce := (hlast (max last (k + 2)) (le_max_left _ _)).once
    rw [List.flatMap_assoc, List.nodup_flatMap] at honce
    have hdisjoint := List.pairwise_iff_getElem.mp honce.2 k (k + 1) (by simp) (by simp) (by omega)
    simp only [List.getElem_range, Function.onFun] at hdisjoint
    rw [if_pos trivial, if_neg (by omega), hshown, hshown] at hdisjoint
    have hmem : g ∈ groups first := (sortGroups_perm _).subset
      (List.mem_of_mem_drop (List.mem_of_mem_take hg))
    obtain ⟨⟨h, ⟨i, hi, -⟩, -⟩, -⟩ := (hcomponents first).isComponent hmem
    exact hdisjoint (List.mem_flatMap.mpr ⟨g, hg, List.mem_map_of_mem hi⟩)
      (List.mem_flatMap.mpr ⟨g, hg', List.mem_map_of_mem hi⟩)
  · intro htie
    refine ⟨(collectHashes (foundPairs cast tables userId query)).length,
      fun fuel hfuel orders => ?_⟩
    obtain ⟨groups, hnear, hcomponents, hlen, hperm, -⟩ := hgroups fuel hfuel
    have hshown := fun order k => shownGroups_eq (hnear order) (hlen order) k
    have hstraddle := mt ((hcomponents plainOrder).straddles_iff foundPairs_nonneg
      query.clampedLimit).mp htie
    have horder : ∀ order, IsOrder DuplicateGroup.similarity (groups plainOrder)
        (sortGroups (groups order)) := fun order =>
      ⟨(sortGroups_perm _).trans (hperm _ _), sortGroups_descending _⟩
    refine ⟨(groups plainOrder).length, fun m hm => ?_⟩
    have hpages := pages_perm hstraddle (fun k => horder (orders k)) (horder plainOrder) m
    have hall : (sortGroups (groups plainOrder)).length ≤ m * query.clampedLimit := by
      rw [(sortGroups_perm _).length_eq]
      exact hm.trans (Nat.le_mul_of_pos_right m (clampedLimit_pos query))
    rw [List.take_of_length_le hall] at hpages
    simp only [hshown]
    exact (hcomponents plainOrder).perm ((hpages.trans (sortGroups_perm _)).symm)

/-- Pages and offsets are as they should be exactly for a limit of 1 and no ties. -/
theorem pagination_iff (cast : F32Cast) (tables : DuplicateTables) (userId : UserId)
    (query : DuplicatesQuery) :
    PagesStable cast tables userId query ∧ OffsetsFit query ↔
      ¬TieAcrossPages tables.images userId (foundPairs cast tables userId query)
        query.clampedLimit ∧ query.limit ≤ 1 :=
  and_congr (pages_stable_iff cast tables userId query) (offsetsFit_iff query)

/-- The cast of a number that is an `f32`. -/
def exactCast : F32Cast := ⟨id, fun _ h => h⟩

def tiedRow (h : String) : ShownRow :=
  ⟨1, false, h, h ++ ".jpg", "2024-01-01T00:00:00+00:00", none, none, none, none, none⟩

/-- Two pairs of one similarity. -/
def tiedTables : DuplicateTables where
  images := ["a", "b", "c", "d"].map tiedRow
  pairs := [⟨"a", "b", 31 / 32, 1⟩, ⟨"c", "d", 31 / 32, 1⟩]

def tiedGroups : List DuplicateGroup :=
  [⟨31 / 32, ["a", "b"].map fun h => (tiedRow h).toImage⟩,
    ⟨31 / 32, ["c", "d"].map fun h => (tiedRow h).toImage⟩]

theorem foundPairs_tied : foundPairs exactCast tiedTables 1 ⟨95 / 100, 1, 1⟩ =
    [⟨"a", "b", 31 / 32⟩, ⟨"c", "d", 31 / 32⟩] := by
  have hsorted : (tiedTables.pairs.mergeSort fun p q => q.similarity ≤ p.similarity) =
      tiedTables.pairs := List.mergeSort_of_pairwise (by decide +kernel)
  have hall : (tiedTables.pairs.filter fun p =>
      p.userId = 1 && exactCast.toF32 (DuplicatesQuery.clampedThreshold ⟨95 / 100, 1, 1⟩) ≤
        p.similarity && hasLiveImage tiedTables.images 1 p.hashA &&
          hasLiveImage tiedTables.images 1 p.hashB) = tiedTables.pairs := by decide +kernel
  unfold foundPairs nearRows
  rw [hall]
  dsimp only
  rw [hsorted]
  decide +kernel

theorem buildGroups_tied :
    nearGroups 4 plainOrder tiedTables 1 [⟨"a", "b", 31 / 32⟩, ⟨"c", "d", 31 / 32⟩] =
      some (sortGroups tiedGroups) := by
  have hgroups : unsortedGroups 4 plainOrder tiedTables.images 1
      [⟨"a", "b", 31 / 32⟩, ⟨"c", "d", 31 / 32⟩] = some tiedGroups := by decide +kernel
  rw [nearGroups, if_neg (by simp), buildGroups, if_neg (by simp), hgroups]
  rfl

/-- Pages of one group each: of two groups of one similarity, each can be shown on both or on
neither. -/
theorem tied_pages_unstable : ¬PagesStable exactCast tiedTables 1 ⟨95 / 100, 1, 1⟩ := by
  rw [pages_stable_iff, not_not, foundPairs_tied]
  obtain ⟨groups, hnear, hcomponents, -, -, -⟩ := @exists_nearGroups 4 tiedTables 1
    [⟨"a", "b", 31 / 32⟩, ⟨"c", "d", 31 / 32⟩] (by decide) (by decide +kernel)
  have hsorted : sortGroups (groups plainOrder) = sortGroups tiedGroups :=
    Option.some.inj ((hnear plainOrder).symm.trans buildGroups_tied)
  have hperm : (groups plainOrder).Perm tiedGroups :=
    (sortGroups_perm _).symm.trans (hsorted ▸ sortGroups_perm _)
  exact (((hcomponents plainOrder).perm hperm).straddles_iff (by decide +kernel) 1).mp
    ⟨31 / 32, 1, by decide +kernel, by decide +kernel⟩

end Reminisce

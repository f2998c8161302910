import Reminisce.Library.Keyed
import Reminisce.Library.SortedPages
import Reminisce.LibraryReads
import Reminisce.MachineInts
import Mathlib.Data.String.Basic

namespace Reminisce

/-- The library with its unique keys, in tables of a size that PostgreSQL can store. -/
structure StoredLibrary where
  lib : Library
  keys : ∀ table, ((lib.rows table).map fun row => (row.userId, row.hash)).Nodup
  small : ∀ table, (lib.rows table).length < 2 ^ 61

/-- The order in which the rows of a query reach its sorts. -/
structure ScanOrder (Item : Type) where
  arrange : List Item → List Item
  perm : ∀ items, (arrange items).Perm items

namespace ScanOrder

variable {Item : Type}

def scanned : ScanOrder Item := ⟨id, fun _ => List.Perm.refl _⟩

def reversed : ScanOrder Item := ⟨List.reverse, List.reverse_perm⟩

end ScanOrder

/-- The items of both tables. -/
def unitedItems (lib : Library) (userId : UserId) (q : ListQuery) : List ThumbnailItem :=
  tableItems lib userId q true .images ++ tableItems lib userId q true .videos

/-- Everything that a listing shows, in its order. -/
def listedItems (order : ScanOrder ThumbnailItem) (lib : Library) (userId : UserId)
    (q : ListQuery) (tables : ListTable) : List ThumbnailItem :=
  (match tables with
    | .only table => order.arrange (tableItems lib userId q false table)
    | .all => distinctByHash (order.arrange (unitedItems lib userId q))).mergeSort (itemLe q)

/-- `(page - 1) * limit` of a `usize`, `none` where it overflows. -/
def thumbnailsOffset (q : ListQuery) : Option Nat := checkedUint 64 ((max q.page 1 - 1) * q.limit)

/-- The answer to a request, `none` where its numbers are no `usize`, the offset overflows or a
statement is refused. -/
def answerListing (order : ScanOrder ThumbnailItem) (lib : Library) (userId : UserId)
    (q : ListQuery) (tables : ListTable) : Option ThumbnailsResponse := do
  let limit ← checkedUint 64 q.limit
  let offset ← thumbnailsOffset q
  if q.wellFormed ∧ 0 ≤ asI64 limit ∧ 0 ≤ asI64 offset then
    some { thumbnails := ((listedItems order lib userId q tables).drop offset).take limit
           total := totalThumbnails lib userId q tables, page := max q.page 1, limit := q.limit }
  else none

/-- The pages up to the last one that can be asked for are those of one list, whatever order the
rows are read in, and the total is its length. -/
def PagesAgree (stored : StoredLibrary) (userId : UserId) (q : ListQuery) (tables : ListTable) :
    Prop :=
  ∃ items : List ThumbnailItem, (items.map ThumbnailItem.hash).Nodup ∧
    ∀ page, 1 ≤ page → (page - 1) * q.limit < 2 ^ 63 → ∀ order,
      answerListing order stored.lib userId { q with page } tables =
        some ⟨SortedPages.page items q.limit (page - 1), items.length, page, q.limit⟩

/-- The offset that the database is given is that of the page. -/
def OffsetExact (q : ListQuery) : Prop :=
  ∃ offset, thumbnailsOffset q = some offset ∧ asI64 offset = ((max q.page 1 - 1) * q.limit : Nat)

/-- The rows of a table that a listing shows. -/
def listedRows (lib : Library) (userId : UserId) (q : ListQuery) (combined : Bool)
    (table : MediaTable) : List LibraryRow :=
  (lib.rows table).filter (LibraryRow.listed lib userId q table combined)

/-- Whether a hash is also listed from the other table. -/
def listedIn (lib : Library) (userId : UserId) (q : ListQuery) (table : MediaTable)
    (row : LibraryRow) : Bool :=
  (listedRows lib userId q true table).any fun other => other.hash = row.hash

/-- As many listed rows have no thumbnail as hashes are listed from both tables; from one table all
have one. -/
def CountsAgree (lib : Library) (userId : UserId) (q : ListQuery) : ListTable → Prop
  | .only table => ∀ row ∈ listedRows lib userId q false table, row.hasThumbnail
  | .all =>
    ((listedRows lib userId q true .images).countP fun row => !row.hasThumbnail) +
        ((listedRows lib userId q true .videos).countP fun row => !row.hasThumbnail) =
      (listedRows lib userId q true .videos).countP (listedIn lib userId q .images)

/-- An image whose hash is also listed as a video's has a score, which the choice goes by. -/
def ScoresDecide (lib : Library) (userId : UserId) (q : ListQuery) : ListTable → Prop
  | .only _ => True
  | .all => ∀ row ∈ listedRows lib userId q true .images, listedIn lib userId q .videos row →
      row.aestheticScore.isSome

instance (lib : Library) (userId : UserId) (q : ListQuery) :
    (tables : ListTable) → Decidable (CountsAgree lib userId q tables)
  | .only table =>
    inferInstanceAs (Decidable (∀ row ∈ listedRows lib userId q false table, row.hasThumbnail = true))
  | .all => inferInstanceAs (Decidable (_ = _))

instance (lib : Library) (userId : UserId) (q : ListQuery) :
    (tables : ListTable) → Decidable (ScoresDecide lib userId q tables)
  | .only _ => .isTrue trivial
  | .all => inferInstanceAs (Decidable (∀ row ∈ listedRows lib userId q true .images,
      listedIn lib userId q .videos row = true → row.aestheticScore.isSome = true))

section Order

variable {α : Type} [LinearOrder α] {ascending : Bool} {x y z : Option α}

theorem keyLe_trans (hxy : keyLe ascending x y = true) (hyz : keyLe ascending y z = true) :
    keyLe ascending x z = true := by
  cases x with
  | none => cases y <;> cases z <;> simp_all [keyLe]
  | some a =>
    cases y with
    | none => cases z <;> simp_all [keyLe]
    | some b =>
      cases z with
      | none => rfl
      | some c =>
        cases ascending with
        | true => simpa [keyLe] using (of_decide_eq_true hxy).trans (of_decide_eq_true hyz)
        | false => simpa [keyLe] using (of_decide_eq_true hyz).trans (of_decide_eq_true hxy)

theorem keyLe_total (ascending : Bool) (x y : Option α) :
    keyLe ascending x y = true ∨ keyLe ascending y x = true := by
  cases x with
  | none => cases y <;> simp [keyLe]
  | some a =>
    cases y with
    | none => exact Or.inl rfl
    | some b => cases ascending <;> simp [keyLe, le_total]

theorem keyLe_antisymm (hxy : keyLe ascending x y = true) (hyx : keyLe ascending y x = true) :
    x = y := by
  cases x with
  | none => cases y <;> simp_all [keyLe]
  | some a =>
    cases y with
    | none => simp [keyLe] at hyx
    | some b =>
      cases ascending with
      | true => exact congrArg some (le_antisymm (of_decide_eq_true hxy) (of_decide_eq_true hyx))
      | false => exact congrArg some (le_antisymm (of_decide_eq_true hyx) (of_decide_eq_true hxy))

/-- A column first, and the hash where it ties. -/
theorem thenHash_iff {h h' : String} :
    (keyLe ascending x y && (!keyLe ascending y x || keyLe ascending (some h) h')) = true ↔
      keyLe ascending x y = true ∧ (x = y → keyLe ascending (some h) (some h') = true) := by
  rw [Bool.and_eq_true, Bool.or_eq_true, Bool.not_eq_true']
  refine and_congr_right fun hxy => ⟨fun hor heq => ?_, fun himp => ?_⟩
  · subst heq
    exact hor.resolve_left (by simp [hxy])
  · by_cases hyx : keyLe ascending y x = true
    · exact Or.inr (himp (keyLe_antisymm hxy hyx))
    · exact Or.inl (by simpa using hyx)

end Order

section Items

variable {q : ListQuery} {a b c : ThumbnailItem}

/-- What `itemLe` is for each column. -/
theorem itemLe_cases (P : (ThumbnailItem → ThumbnailItem → Bool) → Prop)
    (h : ∀ {α : Type} [LinearOrder α] (column : ThumbnailItem → Option α),
      P fun a b => keyLe q.ascending (column a) (column b) &&
        (!keyLe q.ascending (column b) (column a) || keyLe q.ascending (some a.hash) b.hash)) :
    P (itemLe q) := by
  cases hsort : q.sortBy with
  | date =>
    refine (congrArg P (funext fun a => funext fun b => ?_)).mpr (h fun item => some item.createdAt)
    simp only [itemLe, hsort]
  | size =>
    refine (congrArg P (funext fun a => funext fun b => ?_)).mpr (h ThumbnailItem.fileSizeBytes)
    simp only [itemLe, hsort]
  | quality =>
    refine (congrArg P (funext fun a => funext fun b => ?_)).mpr (h ThumbnailItem.aestheticScore)
    simp only [itemLe, hsort]

theorem itemLe_trans (q : ListQuery) (a b c : ThumbnailItem) :
    itemLe q a b = true → itemLe q b c = true → itemLe q a c = true := by
  apply itemLe_cases fun le => le a b = true → le b c = true → le a c = true
  intro α _ column hab hbc
  obtain ⟨hab, hab'⟩ := thenHash_iff.mp hab
  obtain ⟨hbc, hbc'⟩ := thenHash_iff.mp hbc
  refine thenHash_iff.mpr ⟨keyLe_trans hab hbc, fun heq => ?_⟩
  rw [heq] at hab
  have hcb := keyLe_antisymm hbc hab
  exact keyLe_trans (hab' (heq.trans hcb.symm)) (hbc' hcb)

theorem itemLe_total (q : ListQuery) (a b : ThumbnailItem) :
    (itemLe q a b || itemLe q b a) = true := by
  apply itemLe_cases fun le => (le a b || le b a) = true
  intro α _ column
  rw [Bool.or_eq_true, thenHash_iff, thenHash_iff]
  by_cases heq : column a = column b
  · rw [heq]
    have hself := (keyLe_total q.ascending (column b) (column b)).elim id id
    exact (keyLe_total q.ascending (some a.hash) (some b.hash)).imp
      (fun h => ⟨hself, fun _ => h⟩) fun h => ⟨hself, fun _ => h⟩
  · exact (keyLe_total q.ascending (column a) (column b)).imp
      (fun h => ⟨h, fun h' => absurd h' heq⟩) fun h => ⟨h, fun h' => absurd h'.symm heq⟩

theorem itemLe_antisymm (q : ListQuery) (a b : ThumbnailItem) :
    itemLe q a b = true → itemLe q b a = true → a.hash = b.hash := by
  apply itemLe_cases fun le => le a b = true → le b a = true → a.hash = b.hash
  intro α _ column hab hba
  obtain ⟨hab, hab'⟩ := thenHash_iff.mp hab
  obtain ⟨hba, hba'⟩ := thenHash_iff.mp hba
  have heq := keyLe_antisymm hab hba
  exact Option.some.inj (keyLe_antisymm (hab' heq) (hba' heq.symm))

end Items

/-- The listed items where the scores decide: of a hash in both tables the image. -/
def settledItems (lib : Library) (userId : UserId) (q : ListQuery) : ListTable → List ThumbnailItem
  | .only table => tableItems lib userId q false table
  | .all => tableItems lib userId q true .images ++
      (tableItems lib userId q true .videos).filter fun item =>
        !(tableItems lib userId q true .images).any (·.hash = item.hash)

section Settled

variable {lib : Library} {userId : UserId} {q : ListQuery} {combined : Bool} {table : MediaTable}
  {item a b : ThumbnailItem} {items : List ThumbnailItem} {order : ScanOrder ThumbnailItem}
  {tables : ListTable} {stored : StoredLibrary}

theorem mem_tableItems : item ∈ tableItems lib userId q combined table ↔
    ∃ row ∈ listedRows lib userId q combined table, thumbnailItem lib userId q table row = item :=
  List.mem_map

theorem mediaType_of_mem (h : item ∈ tableItems lib userId q combined table) :
    item.mediaType = table := by
  obtain ⟨row, _, rfl⟩ := mem_tableItems.mp h
  rfl

theorem aestheticScore_videos (h : item ∈ tableItems lib userId q combined .videos) :
    item.aestheticScore = none := by
  obtain ⟨row, _, rfl⟩ := mem_tableItems.mp h
  rfl

theorem userId_of_listed {row : LibraryRow} (h : row ∈ listedRows lib userId q combined table) :
    row.userId = userId := by
  have hlisted := (List.mem_filter.mp h).2
  simp only [LibraryRow.listed, Bool.and_eq_true, decide_eq_true_eq] at hlisted
  exact hlisted.1.1.1.1.1.1.1.2

/-- A user's listed rows of a table have different hashes. -/
theorem nodup_listedRows (stored : StoredLibrary) :
    ((listedRows stored.lib userId q combined table).map LibraryRow.hash).Nodup := by
  have hkeys := (stored.keys table).sublist
    ((List.filter_sublist (p := LibraryRow.listed stored.lib userId q table combined)).map
      fun row => (row.userId, row.hash))
  have heq : (listedRows stored.lib userId q combined table).map (fun row => (row.userId, row.hash)) =
      ((listedRows stored.lib userId q combined table).map LibraryRow.hash).map (userId, ·) := by
    rw [List.map_map]
    exact List.map_congr_left fun row hrow => by rw [userId_of_listed hrow]; rfl
  exact List.Nodup.of_map _ (heq ▸ hkeys)

theorem nodup_tableItems (stored : StoredLibrary) :
    ((tableItems stored.lib userId q combined table).map ThumbnailItem.hash).Nodup := by
  rw [tableItems, List.map_map]
  exact nodup_listedRows stored

theorem distinctByHash_eq (items : List ThumbnailItem) :
    distinctByHash items = Keyed.firsts ThumbnailItem.hash
      (items.mergeSort fun a b => keyLe false a.aestheticScore b.aestheticScore) := rfl

/-- Hashes that stand in one list once determine the item. -/
theorem eq_of_hash (hnodup : (items.map ThumbnailItem.hash).Nodup) (ha : a ∈ items) (hb : b ∈ items)
    (h : a.hash = b.hash) : a = b :=
  List.inj_on_of_nodup_map hnodup ha hb h

theorem pairwise_byScore (items : List ThumbnailItem) :
    (items.mergeSort fun a b => keyLe false a.aestheticScore b.aestheticScore).Pairwise
      fun a b => keyLe false a.aestheticScore b.aestheticScore = true :=
  @List.pairwise_mergeSort _ (fun a b => keyLe false a.aestheticScore b.aestheticScore)
    (fun _ _ _ => keyLe_trans) (fun _ _ => (Bool.or_eq_true _ _).mpr (keyLe_total false _ _)) items

/-- The first item of a hash goes before the others with it. -/
theorem find?_pairwise {le : ThumbnailItem → ThumbnailItem → Prop} (hle : items.Pairwise le)
    (ha : a ∈ items) {found : ThumbnailItem}
    (hfind : items.find? (fun e => e.hash = a.hash) = some found) : found = a ∨ le found a := by
  obtain ⟨_, before, after, rfl, hbefore⟩ := List.find?_eq_some_iff_append.mp hfind
  obtain ⟨_, hpair, _⟩ := List.pairwise_append.mp hle
  rcases List.mem_append.mp ha with ha | ha
  · simpa using hbefore a ha
  · rcases List.mem_cons.mp ha with rfl | ha
    · exact Or.inl rfl
    · exact Or.inr ((List.pairwise_cons.mp hpair).1 a ha)

/-- Where the scores decide, the distinct items are the images and the other videos, however the
rows are read. -/
theorem mem_distinctByHash {images videos arranged : List ThumbnailItem}
    (himages : (images.map ThumbnailItem.hash).Nodup)
    (hvideos : (videos.map ThumbnailItem.hash).Nodup)
    (hnone : ∀ b ∈ videos, b.aestheticScore = none)
    (hscore : ∀ a ∈ images, ∀ b ∈ videos, b.hash = a.hash → a.aestheticScore.isSome)
    (hperm : arranged.Perm (images ++ videos)) :
    item ∈ distinctByHash arranged ↔
      item ∈ images ∨ item ∈ videos ∧ ∀ a ∈ images, a.hash ≠ item.hash := by
  have hmem : ∀ e, e ∈ arranged.mergeSort (fun a b => keyLe false a.aestheticScore b.aestheticScore) ↔
      e ∈ images ∨ e ∈ videos := by
    intro e
    rw [((List.mergeSort_perm arranged _).trans hperm).mem_iff, List.mem_append]
  have hfirst : ∀ a ∈ images, a ∈ distinctByHash arranged := by
    intro a ha
    have hsorted := (hmem a).mpr (Or.inl ha)
    rw [distinctByHash_eq, Keyed.mem_firsts]
    cases hfind : (arranged.mergeSort fun a b => keyLe false a.aestheticScore b.aestheticScore).find?
        (fun e => e.hash = a.hash) with
    | none => simpa using List.find?_eq_none.mp hfind a hsorted
    | some found =>
      have hhash : found.hash = a.hash := by simpa using List.find?_some hfind
      rcases (hmem found).mp (List.mem_of_find?_eq_some hfind) with hfound | hfound
      · rw [eq_of_hash himages hfound ha hhash]
      · rcases find?_pairwise (pairwise_byScore arranged) hsorted hfind with heq | hle
        · rw [heq]
        · obtain ⟨score, hsome⟩ := Option.isSome_iff_exists.mp (hscore a ha found hfound hhash)
          rw [hnone found hfound, hsome] at hle
          cases hle
  have hnodup : ((distinctByHash arranged).map ThumbnailItem.hash).Nodup := Keyed.nodup_firsts _ _
  constructor
  · intro hitem
    have hin : item ∈ images ∨ item ∈ videos := by
      rw [distinctByHash_eq, Keyed.mem_firsts] at hitem
      exact (hmem item).mp (List.mem_of_find?_eq_some hitem)
    by_cases himage : item ∈ images
    · exact Or.inl himage
    · refine Or.inr ⟨hin.resolve_left himage, fun a ha heq => himage ?_⟩
      rwa [← eq_of_hash hnodup (hfirst a ha) hitem heq]
  · rintro (himage | ⟨hvideo, hother⟩)
    · exact hfirst item himage
    · have hsorted := (hmem item).mpr (Or.inr hvideo)
      rw [distinctByHash_eq, Keyed.mem_firsts]
      cases hfind : (arranged.mergeSort fun a b =>
          keyLe false a.aestheticScore b.aestheticScore).find? (fun e => e.hash = item.hash) with
      | none => simpa using List.find?_eq_none.mp hfind item hsorted
      | some found =>
        have hhash : found.hash = item.hash := by simpa using List.find?_some hfind
        rcases (hmem found).mp (List.mem_of_find?_eq_some hfind) with hfound | hfound
        · exact absurd hhash (hother found hfound)
        · rw [eq_of_hash hvideos hfound hvideo hhash]

theorem nodup_settledItems (stored : StoredLibrary) (userId : UserId) (q : ListQuery)
    (tables : ListTable) :
    ((settledItems stored.lib userId q tables).map ThumbnailItem.hash).Nodup := by
  cases tables with
  | only table => exact nodup_tableItems stored
  | all =>
    rw [settledItems, List.map_append, List.nodup_append]
    refine ⟨nodup_tableItems stored,
      (nodup_tableItems stored).sublist (List.filter_sublist.map _), ?_⟩
    intro hash himage other hother heq
    obtain ⟨a, ha, rfl⟩ := List.mem_map.mp himage
    obtain ⟨b, hb, rfl⟩ := List.mem_map.mp hother
    have hnone := (List.mem_filter.mp hb).2
    simp only [Bool.not_eq_true', List.any_eq_false, decide_eq_true_eq] at hnone
    exact hnone a ha heq

/-- An image whose hash is also a video's has a score. -/
theorem scores_of_items (hscores : ScoresDecide lib userId q .all)
    (ha : a ∈ tableItems lib userId q true .images)
    (hb : b ∈ tableItems lib userId q true .videos) (h : b.hash = a.hash) :
    a.aestheticScore.isSome := by
  obtain ⟨image, himage, rfl⟩ := mem_tableItems.mp ha
  obtain ⟨video, hvideo, rfl⟩ := mem_tableItems.mp hb
  exact hscores image himage (List.any_eq_true.mpr ⟨video, hvideo, decide_eq_true h⟩)

/-- Where the scores decide, the order in which the rows are read does not show. -/
theorem listedItems_eq (stored : StoredLibrary) (hscores : ScoresDecide stored.lib userId q tables) :
    listedItems order stored.lib userId q tables =
      (settledItems stored.lib userId q tables).mergeSort (itemLe q) := by
  have hanti : ∀ {items : List ThumbnailItem}, (items.map ThumbnailItem.hash).Nodup →
      ∀ a ∈ items, ∀ b ∈ items, itemLe q a b = true → itemLe q b a = true → a = b :=
    fun hnodup a ha b hb hab hba => eq_of_hash hnodup ha hb (itemLe_antisymm q a b hab hba)
  cases tables with
  | only table =>
    refine SortedPages.mergeSort_eq_of_perm (itemLe_trans q) (itemLe_total q) (hanti ?_)
      (order.perm _)
    exact ((order.perm _).map ThumbnailItem.hash).nodup_iff.mpr (nodup_tableItems stored)
  | all =>
    refine SortedPages.mergeSort_eq_of_perm (itemLe_trans q) (itemLe_total q)
      (hanti (Keyed.nodup_firsts _ _)) ?_
    have hdistinct := Keyed.nodup_firsts ThumbnailItem.hash
      ((order.arrange (unitedItems stored.lib userId q)).mergeSort fun a b =>
        keyLe false a.aestheticScore b.aestheticScore)
    refine (List.perm_ext_iff_of_nodup (List.Nodup.of_map _ hdistinct)
      (List.Nodup.of_map _ (nodup_settledItems stored userId q .all))).mpr fun item => ?_
    refine (mem_distinctByHash (nodup_tableItems stored) (nodup_tableItems stored)
      (fun b hb => aestheticScore_videos hb) (fun a ha b hb => scores_of_items hscores ha hb)
      (order.perm (unitedItems stored.lib userId q))).trans ?_
    simp [settledItems]

/-- Of two items with one hash the one that stands first is found. -/
theorem find?_of_pair (hnodup : items.Nodup) (hpair : [a, b].Sublist items) (h : b.hash = a.hash)
    (hall : ∀ e ∈ items, e.hash = a.hash → e = a ∨ e = b) :
    items.find? (fun e => e.hash = a.hash) = some a := by
  have hsub : [a, b].Sublist (items.filter fun e => e.hash = a.hash) := by
    have hfilter := hpair.filter fun e => decide (e.hash = a.hash)
    rwa [List.filter_eq_self.mpr (by simp [h])] at hfilter
  have hle : (items.filter fun e => e.hash = a.hash).length ≤ [a, b].length := by
    refine (List.subperm_of_subset (hnodup.sublist List.filter_sublist) fun e he => ?_).length_le
    have hmem := List.mem_filter.mp he
    simpa using hall e hmem.1 (of_decide_eq_true hmem.2)
  rw [← List.head?_filter, ← hsub.eq_of_length_le hle]
  rfl

/-- Where two items of a hash tie, the one that is read first is kept. -/
theorem mem_distinctByHash_of_pair {arranged : List ThumbnailItem} (hnodup : arranged.Nodup)
    (hpair : [a, b].Sublist arranged) (h : b.hash = a.hash)
    (hscore : keyLe false a.aestheticScore b.aestheticScore = true)
    (hall : ∀ e ∈ arranged, e.hash = a.hash → e = a ∨ e = b) : a ∈ distinctByHash arranged := by
  have hperm := List.mergeSort_perm arranged fun a b =>
    keyLe false a.aestheticScore b.aestheticScore
  rw [distinctByHash_eq, Keyed.mem_firsts]
  refine find?_of_pair (hperm.nodup_iff.mpr hnodup) ?_ h fun e he => hall e (hperm.subset he)
  exact List.pair_sublist_mergeSort (fun _ _ _ => keyLe_trans)
    (fun _ _ => (Bool.or_eq_true _ _).mpr (keyLe_total false _ _)) hscore hpair

/-- Without a score for the image of a shared hash, the order in which the rows are read decides. -/
theorem listedItems_differ (hscores : ¬ ScoresDecide stored.lib userId q tables) :
    listedItems .scanned stored.lib userId q tables ≠
      listedItems .reversed stored.lib userId q tables := by
  cases tables with
  | only table => exact absurd trivial hscores
  | all =>
    simp only [ScoresDecide, not_forall] at hscores
    obtain ⟨image, himage, hshared, hnone⟩ := hscores
    obtain ⟨video, hvideo, hhash⟩ := List.any_eq_true.mp hshared
    have hhash := of_decide_eq_true hhash
    have ha : thumbnailItem stored.lib userId q .images image ∈
        tableItems stored.lib userId q true .images := mem_tableItems.mpr ⟨image, himage, rfl⟩
    have hb : thumbnailItem stored.lib userId q .videos video ∈
        tableItems stored.lib userId q true .videos := mem_tableItems.mpr ⟨video, hvideo, rfl⟩
    have hscore : (thumbnailItem stored.lib userId q .images image).aestheticScore = none :=
      Option.not_isSome_iff_eq_none.mp hnone
    have hscore' := aestheticScore_videos hb
    have hkind := mediaType_of_mem ha
    have hkind' := mediaType_of_mem hb
    have hsame : (thumbnailItem stored.lib userId q .videos video).hash =
        (thumbnailItem stored.lib userId q .images image).hash := hhash
    generalize thumbnailItem stored.lib userId q .images image = a at *
    generalize thumbnailItem stored.lib userId q .videos video = b at *
    have hnodup : (unitedItems stored.lib userId q).Nodup := by
      refine List.nodup_append.mpr ⟨List.Nodup.of_map _ (nodup_tableItems stored),
        List.Nodup.of_map _ (nodup_tableItems stored), fun x hx y hy heq => ?_⟩
      have hx' := mediaType_of_mem hx
      rw [heq, mediaType_of_mem hy] at hx'
      cases hx'
    have hpair : [a, b].Sublist (unitedItems stored.lib userId q) :=
      (List.singleton_sublist.mpr ha).append (List.singleton_sublist.mpr hb)
    have hall : ∀ e ∈ unitedItems stored.lib userId q, e.hash = a.hash → e = a ∨ e = b := by
      intro e he heq
      rcases List.mem_append.mp he with he | he
      · exact Or.inl (eq_of_hash (nodup_tableItems stored) he ha heq)
      · exact Or.inr (eq_of_hash (nodup_tableItems stored) he hb (heq.trans hsame.symm))
    have hfirst := mem_distinctByHash_of_pair hnodup hpair hsame
      (by rw [hscore, hscore']; rfl) hall
    have hsecond := mem_distinctByHash_of_pair (List.nodup_reverse.mpr hnodup) hpair.reverse
      hsame.symm (by rw [hscore, hscore']; rfl) fun e he heq =>
        (hall e (List.mem_reverse.mp he) (heq.trans hsame)).symm
    intro heq
    have hkept : b ∈ distinctByHash (unitedItems stored.lib userId q) := by
      have hmem : b ∈ listedItems .reversed stored.lib userId q .all :=
        (List.mergeSort_perm _ _).mem_iff.mpr hsecond
      rw [← heq] at hmem
      exact (List.mergeSort_perm _ _).mem_iff.mp hmem
    have hab := eq_of_hash (Keyed.nodup_firsts _ _) hfirst hkept hsame.symm
    rw [hab, hkind'] at hkind
    cases hkind

theorem countP_add_countP_not (p : LibraryRow → Bool) (rows : List LibraryRow) :
    rows.countP p + rows.countP (fun row => !p row) = rows.length := by
  induction rows with
  | nil => rfl
  | cons row rows ih =>
    rw [List.countP_cons, List.countP_cons, List.length_cons, ← ih]
    cases p row
    · simp only [Bool.not_false, Bool.false_eq_true, if_false, if_true]
      omega
    · simp only [Bool.not_true, Bool.false_eq_true, if_false, if_true]
      omega

/-- Listed rows with and without a thumbnail. -/
theorem tableTotal_add (lib : Library) (userId : UserId) (q : ListQuery) (combined : Bool)
    (table : MediaTable) :
    tableTotal lib userId q combined table +
        (listedRows lib userId q combined table).countP (fun row => !row.hasThumbnail) =
      (listedRows lib userId q combined table).length := by
  rw [← countP_add_countP_not fun row : LibraryRow => row.hasThumbnail]
  simp only [tableTotal, listedRows, List.countP_filter]

theorem length_tableItems : (tableItems lib userId q combined table).length =
    (listedRows lib userId q combined table).length := by
  rw [tableItems, List.length_map, listedRows]

theorem any_tableItems (hash : String) :
    ((tableItems lib userId q combined table).any fun item => item.hash = hash) =
      (listedRows lib userId q combined table).any fun row => row.hash = hash := by
  rw [tableItems, List.any_map]
  rfl

/-- The number of items beside the hashes that both tables share. -/
theorem length_settledItems_all (lib : Library) (userId : UserId) (q : ListQuery) :
    (settledItems lib userId q .all).length +
        (listedRows lib userId q true .videos).countP (listedIn lib userId q .images) =
      (listedRows lib userId q true .images).length + (listedRows lib userId q true .videos).length := by
  have hfilter : ((tableItems lib userId q true .videos).filter fun item =>
      !(tableItems lib userId q true .images).any (·.hash = item.hash)).length =
      (listedRows lib userId q true .videos).countP fun row => !listedIn lib userId q .images row := by
    simp only [any_tableItems]
    rw [← List.countP_eq_length_filter, tableItems, List.countP_map]
    rfl
  have hsplit := countP_add_countP_not (listedIn lib userId q .images)
    (listedRows lib userId q true .videos)
  simp only [settledItems, List.length_append, length_tableItems, hfilter]
  omega

/-- The total is the length of the listing where the thumbnails that are missing make up for the
hashes that are counted twice. -/
theorem totalThumbnails_eq_iff (hq : q.wellFormed = true) (tables : ListTable) :
    totalThumbnails lib userId q tables = (settledItems lib userId q tables).length ↔
      CountsAgree lib userId q tables := by
  cases tables with
  | only table =>
    have hadd := tableTotal_add lib userId q false table
    have hzero : CountsAgree lib userId q (.only table) ↔
        (listedRows lib userId q false table).countP (fun row => !row.hasThumbnail) = 0 := by
      simp [CountsAgree, List.countP_eq_zero]
    rw [hzero]
    simp only [totalThumbnails, hq, if_true, settledItems, length_tableItems]
    omega
  | all =>
    have himages := tableTotal_add lib userId q true .images
    have hvideos := tableTotal_add lib userId q true .videos
    have hlength := length_settledItems_all lib userId q
    simp only [totalThumbnails, hq, if_true, CountsAgree]
    omega

end Settled

section Pages

variable {lib : Library} {userId : UserId} {q : ListQuery} {tables : ListTable}
  {order : ScanOrder ThumbnailItem} {stored : StoredLibrary}

/-- The page asked for changes neither the listing nor the total. -/
theorem listedItems_page (page : Nat) : listedItems order lib userId { q with page } tables =
    listedItems order lib userId q tables := by
  cases tables <;> rfl

theorem totalThumbnails_page (page : Nat) : totalThumbnails lib userId { q with page } tables =
    totalThumbnails lib userId q tables := by
  cases tables <;> rfl

theorem lt_of_asI64_nonneg {n : Nat} (hn : n < 2 ^ 64) (h : 0 ≤ asI64 n) : n < 2 ^ 63 := by
  unfold asI64 at h
  rw [Int.bmod_def] at h
  split at h <;> omega

/-- A page whose numbers fit is cut from the listing. -/
theorem answerListing_eq_some (hq : q.wellFormed = true) (hlimit : q.limit < 2 ^ 63)
    (hoffset : (max q.page 1 - 1) * q.limit < 2 ^ 63) :
    answerListing order lib userId q tables = some
      ⟨SortedPages.page (listedItems order lib userId q tables) q.limit (max q.page 1 - 1),
        totalThumbnails lib userId q tables, max q.page 1, q.limit⟩ := by
  have hcheck : checkedUint 64 q.limit = some q.limit := checkedUint_of_lt (by omega)
  have hcheck' : thumbnailsOffset q = some ((max q.page 1 - 1) * q.limit) :=
    checkedUint_of_lt (by omega)
  unfold answerListing
  rw [hcheck, hcheck']
  simp only [Option.bind_eq_bind, Option.bind_some]
  rw [if_pos ⟨hq, by rw [asI64_of_lt hlimit]; omega, by rw [asI64_of_lt hoffset]; omega⟩]
  rfl

/-- The rows as the tables hold them give the listing of one request. -/
theorem answerListing_scanned (hlimit : q.limit < 2 ^ 63)
    (hoffset : (max q.page 1 - 1) * q.limit < 2 ^ 63) :
    answerListing .scanned lib userId q tables = listMediaThumbnails lib userId q tables := by
  by_cases hq : q.wellFormed = true
  · rw [answerListing_eq_some hq hlimit hoffset]
    unfold listMediaThumbnails listThumbnails
    rw [if_pos hq]
    cases tables <;> rfl
  · have hcheck : checkedUint 64 q.limit = some q.limit := checkedUint_of_lt (by omega)
    have hcheck' : thumbnailsOffset q = some ((max q.page 1 - 1) * q.limit) :=
      checkedUint_of_lt (by omega)
    unfold answerListing listMediaThumbnails listThumbnails
    rw [hcheck, hcheck', if_neg hq]
    simp [hq]

theorem limit_lt_of_answer {answer : ThumbnailsResponse}
    (h : answerListing order lib userId q tables = some answer) : q.limit < 2 ^ 63 := by
  obtain ⟨limit, hcheck, h⟩ := Option.bind_eq_some_iff.mp h
  obtain ⟨offset, _, h⟩ := Option.bind_eq_some_iff.mp h
  unfold checkedUint at hcheck
  split at hcheck
  next hlt =>
    cases Option.some.inj hcheck
    split at h
    next hvalid => exact lt_of_asI64_nonneg hlt hvalid.2.1
    next => cases h
  next => cases hcheck

theorem offsetExact_iff : OffsetExact q ↔ (max q.page 1 - 1) * q.limit < 2 ^ 63 := by
  constructor
  · rintro ⟨offset, hoffset, hexact⟩
    unfold thumbnailsOffset checkedUint at hoffset
    split at hoffset
    next hlt =>
      cases Option.some.inj hoffset
      exact lt_of_asI64_nonneg hlt (by rw [hexact]; omega)
    next => cases hoffset
  · intro h
    exact ⟨_, checkedUint_of_lt (by omega), asI64_of_lt h⟩

theorem length_listedItems_le (order : ScanOrder ThumbnailItem) (stored : StoredLibrary)
    (userId : UserId) (q : ListQuery) (tables : ListTable) :
    (listedItems order stored.lib userId q tables).length ≤ 2 ^ 63 := by
  have hrows : ∀ combined table,
      (tableItems stored.lib userId q combined table).length < 2 ^ 61 := by
    intro combined table
    rw [length_tableItems]
    exact (List.length_filter_le _ _).trans_lt (stored.small table)
  cases tables with
  | only table =>
    have hlength := (order.perm (tableItems stored.lib userId q false table)).length_eq
    have hrow := hrows false table
    simp only [listedItems, List.length_mergeSort, hlength]
    omega
  | all =>
    have hlength := (order.perm (unitedItems stored.lib userId q)).length_eq
    have hfirsts := Keyed.length_firsts_le ThumbnailItem.hash
      ((order.arrange (unitedItems stored.lib userId q)).mergeSort fun a b =>
        keyLe false a.aestheticScore b.aestheticScore)
    rw [← distinctByHash_eq, List.length_mergeSort, hlength, unitedItems, List.length_append]
      at hfirsts
    have himages := hrows true .images
    have hvideos := hrows true .videos
    simp only [listedItems, List.length_mergeSort]
    unfold unitedItems
    omega

theorem totalThumbnails_le (stored : StoredLibrary) (userId : UserId) (q : ListQuery)
    (tables : ListTable) : totalThumbnails stored.lib userId q tables ≤ 2 ^ 63 := by
  have hcount : ∀ combined table, tableTotal stored.lib userId q combined table < 2 ^ 61 :=
    fun combined table => List.countP_le_length.trans_lt (stored.small table)
  unfold totalThumbnails
  split
  next =>
    cases tables with
    | only table =>
      have := hcount false table
      simp only
      omega
    | all =>
      have himages := hcount true .images
      have hvideos := hcount true .videos
      simp only
      omega
  next => omega

/-- Pages that agree are the pages of the listing, whatever order the rows are read in. -/
theorem listedItems_of_pages {items : List ThumbnailItem} (hlimit : 1 ≤ q.limit)
    (hq : q.wellFormed = true) (hsmall : q.limit < 2 ^ 63)
    (hpages : ∀ page, 1 ≤ page → (page - 1) * q.limit < 2 ^ 63 → ∀ order,
      answerListing order stored.lib userId { q with page } tables =
        some ⟨SortedPages.page items q.limit (page - 1), items.length, page, q.limit⟩)
    (order : ScanOrder ThumbnailItem) : listedItems order stored.lib userId q tables = items := by
  have hanswer : ∀ k, k * q.limit < 2 ^ 63 →
      (⟨SortedPages.page (listedItems order stored.lib userId q tables) q.limit k,
        totalThumbnails stored.lib userId q tables, k + 1, q.limit⟩ : ThumbnailsResponse) =
      ⟨SortedPages.page items q.limit k, items.length, k + 1, q.limit⟩ := by
    intro k hk
    have hmax : max (k + 1) 1 - 1 = k := by omega
    have hpage := hpages (k + 1) (by omega) hk order
    rw [answerListing_eq_some (q := { q with page := k + 1 }) hq hsmall (by simpa [hmax] using hk),
      listedItems_page, totalThumbnails_page] at hpage
    simpa [hmax] using Option.some.inj hpage
  have htotal : totalThumbnails stored.lib userId q tables = items.length :=
    congrArg ThumbnailsResponse.total (hanswer 0 (by omega))
  refine SortedPages.eq_of_pages (show 0 < q.limit by omega)
    (length_listedItems_le order stored userId q tables)
    (htotal ▸ totalThumbnails_le stored userId q tables) fun k hk => ?_
  exact congrArg ThumbnailsResponse.thumbnails (hanswer k hk)

/-- The pages and the total of a listing agree if and only if every listed row has a thumbnail or
a hash that is counted twice makes up for it, scores decide between two rows of a hash, and the
numbers fit. -/
theorem pagesAgree_iff (stored : StoredLibrary) (userId : UserId) (q : ListQuery)
    (tables : ListTable) (hq : q.wellFormed = true) (hlimit : 1 ≤ q.limit) :
    PagesAgree stored userId q tables ∧ OffsetExact q ↔
      CountsAgree stored.lib userId q tables ∧ ScoresDecide stored.lib userId q tables ∧
        q.limit < 2 ^ 63 ∧ (max q.page 1 - 1) * q.limit < 2 ^ 63 := by
  have hlength : ∀ {order}, ScoresDecide stored.lib userId q tables →
      (listedItems order stored.lib userId q tables).length =
        (settledItems stored.lib userId q tables).length := fun hscores => by
    rw [listedItems_eq stored hscores, List.length_mergeSort]
  constructor
  · rintro ⟨⟨items, _, hpages⟩, hoffset⟩
    have hsmall : q.limit < 2 ^ 63 :=
      limit_lt_of_answer (q := { q with page := 1 }) (hpages 1 le_rfl (by simp) .scanned)
    have hitems := listedItems_of_pages hlimit hq hsmall hpages
    have hscores : ScoresDecide stored.lib userId q tables := by
      by_contra hnot
      exact listedItems_differ hnot ((hitems .scanned).trans (hitems .reversed).symm)
    have htotal : totalThumbnails stored.lib userId q tables = items.length := by
      have hfirst := hpages 1 le_rfl (by simp) .scanned
      rw [answerListing_eq_some (q := { q with page := 1 }) hq hsmall (by simp),
        totalThumbnails_page] at hfirst
      exact congrArg ThumbnailsResponse.total (Option.some.inj hfirst)
    refine ⟨(totalThumbnails_eq_iff hq tables).mp ?_, hscores, hsmall, offsetExact_iff.mp hoffset⟩
    rw [htotal, ← hitems .scanned, hlength hscores]
  · rintro ⟨hcounts, hscores, hsmall, hoffset⟩
    refine ⟨⟨(settledItems stored.lib userId q tables).mergeSort (itemLe q), ?_, ?_⟩,
      offsetExact_iff.mpr hoffset⟩
    · exact ((List.mergeSort_perm _ _).map ThumbnailItem.hash).nodup_iff.mpr
        (nodup_settledItems stored userId q tables)
    · intro page hpage hstart order
      have hmax : max page 1 = page := by omega
      rw [answerListing_eq_some (q := { q with page }) hq hsmall (by simpa [hmax] using hstart),
        listedItems_page, totalThumbnails_page, listedItems_eq stored hscores,
        (totalThumbnails_eq_iff hq tables).mpr hcounts, List.length_mergeSort]
      simp only [hmax]

end Pages

/-- A content hash of one digit. -/
def digitHash (c : Char) : String := String.ofList (List.replicate 64 c)

/-- A row of a holiday, of which only the columns vary that a listing goes by. -/
def holidayRow (userId : UserId) (hash : String) (createdAt : Time) (hasThumbnail : Bool)
    (aestheticScore : Option Rat) : LibraryRow :=
  { userId, hash, deviceId := "phone", createdAt, name := "holiday", ext := "jpg", exif := none
    hasThumbnail, lastVerifiedAt := none, verificationStatus := 0, location := none, place := none
    deletedAt := none, orientation := none, fileSizeBytes := none, aestheticScore }

/-- Two pictures and two videos, of which one of each has the same hash, and a picture of another
user. The picture of the shared hash has no thumbnail yet. -/
def holidayRows : MediaTable → List LibraryRow
  | .images => [holidayRow 1 (digitHash 'a') 10 true none, holidayRow 2 (digitHash 'a') 11 true none,
      holidayRow 1 (digitHash 'b') 20 false (some 5)]
  | .videos => [holidayRow 1 (digitHash 'b') 20 true none, holidayRow 1 (digitHash 'c') 30 true none]

theorem holidayRows_keys (table : MediaTable) :
    ((holidayRows table).map fun row => (row.userId, row.hash)).Nodup := by
  cases table <;> decide +kernel

theorem holidayRows_small (table : MediaTable) : (holidayRows table).length < 2 ^ 61 := by
  cases table <;> decide +kernel

def holiday : StoredLibrary :=
  ⟨{ Library.empty with rows := holidayRows }, holidayRows_keys, holidayRows_small⟩

/-- The second page of two items, without any filter. -/
def newestFirst : ListQuery :=
  { page := 2, limit := 2, mediaType := "all", starredOnly := false, labelId := none
    deviceId := none, startDate := none, endDate := none, location := none, sortBy := .date
    ascending := false, noExif := false }

theorem pagesAgree_holiday : PagesAgree holiday 1 newestFirst .all ∧ OffsetExact newestFirst :=
  (pagesAgree_iff holiday 1 newestFirst .all rfl (by decide)).mpr
    ⟨by decide +kernel, by decide +kernel, by decide, by decide⟩

/-- Of the pictures both are listed and one is counted. -/
theorem not_pagesAgree_holiday :
    ¬(PagesAgree holiday 1 newestFirst (.only .images) ∧ OffsetExact newestFirst) := by
  rintro ⟨⟨items, _, hpages⟩, _⟩
  have hfirst := hpages 1 le_rfl (by decide) .scanned
  rw [answerListing_eq_some rfl (by decide) (by decide)] at hfirst
  have hanswer := Option.some.inj hfirst
  have htotal : totalThumbnails holiday.lib 1 newestFirst (.only .images) = 1 := by decide +kernel
  have hone : items.length = 1 := (congrArg ThumbnailsResponse.total hanswer).symm.trans htotal
  have htwo : (listedItems .scanned holiday.lib 1 newestFirst (.only .images)).length = 2 := by
    rw [listedItems, List.length_mergeSort]
    decide +kernel
  have hshown : SortedPages.page (listedItems .scanned holiday.lib 1 newestFirst (.only .images)) 2 0 =
      SortedPages.page items 2 0 := congrArg ThumbnailsResponse.thumbnails hanswer
  have hlength := congrArg List.length hshown
  rw [SortedPages.page, SortedPages.page, List.length_take, List.length_take, List.length_drop,
    List.length_drop, htwo, hone] at hlength
  omega

end Reminisce

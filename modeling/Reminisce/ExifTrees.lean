import Reminisce.OrientationReads

namespace Reminisce

open ByteOrder Results

/-- The tables of an Exif structure. -/
inductive IfdKind
  | ifd0
  | exif
  | gps
  | interop
  | ifd1
  deriving DecidableEq, Repr

def interopSubIfdTag : Nat := 0xa005
def thumbnailOffsetTag : Nat := 0x0201
def thumbnailLengthTag : Nat := 0x0202

namespace IfdKind

def all : List IfdKind := [ifd0, exif, gps, interop, ifd1]

/-- The tags of a table whose numbers are offsets of other parts. -/
def links : IfdKind → List Nat
  | ifd0 => [exifSubIfdTag, gpsSubIfdTag]
  | exif => [interopSubIfdTag]
  | ifd1 => [thumbnailOffsetTag]
  | gps | interop => []

end IfdKind

/-- What an entry says. -/
structure TagValue where
  tag : Nat
  typ : Nat
  count : Nat
  bytes : Bytes
  deriving DecidableEq, Repr

/-- What an Exif structure says: the tags of its tables, but for the offsets of other parts, and
those parts. -/
structure ExifTree where
  tags : IfdKind → Option (List TagValue)
  thumbnail : Option Bytes

/-- So many bytes from a position on. -/
def window (bytes : Bytes) (pos width : Nat) : Bytes := (bytes.drop pos).take width

section Reading

variable (tiff : Bytes) (endian : Order)

def tagAt (e : Nat) : Nat := numberAt tiff endian 2 e

def typAt (e : Nat) : Nat := numberAt tiff endian 2 (e + 2)

def countAt (e : Nat) : Nat := numberAt tiff endian 4 (e + 4)

def pointerAt (e : Nat) : Nat := numberAt tiff endian 4 (e + 8)

/-- The size of the value of an entry, whose type is known. -/
def sizeAt (e : Nat) : Nat := (tiffValueSize (typAt tiff endian e) (countAt tiff endian e)).getD 0

def valueStart (e : Nat) : Nat :=
  if 4 < sizeAt tiff endian e then pointerAt tiff endian e else e + 8

def valueAt (e : Nat) : TagValue where
  tag := tagAt tiff endian e
  typ := typAt tiff endian e
  count := countAt tiff endian e
  bytes := window tiff (valueStart tiff endian e) (sizeAt tiff endian e)

def entryCount (off : Nat) : Nat := numberAt tiff endian 2 off

def entriesAt (off : Nat) : List Nat := entryPositions off (entryCount tiff endian off)

/-- Where the offset of the next table stands. -/
def nextField (off : Nat) : Nat := off + 2 + entryCount tiff endian off * 12

def tableEnd (off : Nat) : Nat := nextField tiff endian off + 4

def entryWith (off tag : Nat) : Option Nat :=
  (entriesAt tiff endian off).find? fun e => tagAt tiff endian e = tag

def linkAt (off tag : Nat) : Option Nat := (entryWith tiff endian off tag).map (pointerAt tiff endian)

def nextTable (off : Nat) : Option Nat :=
  if numberAt tiff endian 4 (nextField tiff endian off) = 0 then none
  else some (numberAt tiff endian 4 (nextField tiff endian off))

/-- The offset of a table, if there is one. -/
def tableAt (root : Nat) : IfdKind → Option Nat
  | .ifd0 => some root
  | .exif => linkAt tiff endian root exifSubIfdTag
  | .gps => linkAt tiff endian root gpsSubIfdTag
  | .interop => (linkAt tiff endian root exifSubIfdTag).bind fun off =>
      linkAt tiff endian off interopSubIfdTag
  | .ifd1 => nextTable tiff endian root

/-- Where the thumbnail starts and how long it is. -/
def thumbnailAt (root : Nat) : Option (Nat × Nat) :=
  (tableAt tiff endian root .ifd1).bind fun off =>
    (linkAt tiff endian off thumbnailOffsetTag).bind fun start =>
      ((entryWith tiff endian off thumbnailLengthTag).bind (entryNumber tiff endian)).map (start, ·)

def tagsAt (kind : IfdKind) (off : Nat) : List TagValue :=
  ((entriesAt tiff endian off).filter fun e => tagAt tiff endian e ∉ kind.links).map
    (valueAt tiff endian)

def exifTree (root : Nat) : ExifTree where
  tags kind := (tableAt tiff endian root kind).map (tagsAt tiff endian kind)
  thumbnail := (thumbnailAt tiff endian root).map fun range => window tiff range.1 range.2

def tablesOf (root : Nat) : List (IfdKind × Nat) :=
  IfdKind.all.filterMap fun kind => (tableAt tiff endian root kind).map (kind, ·)

/-- The parts do not touch. -/
def RangesApart (start stop start' stop' : Nat) : Prop := stop ≤ start' ∨ stop' ≤ start

instance (start stop start' stop' : Nat) : Decidable (RangesApart start stop start' stop') :=
  inferInstanceAs (Decidable (_ ∨ _))

/-- The tables lie within the bytes and apart, and so do values and thumbnail from the tables;
no tag stands twice in a table, and offsets of tables only stand where they belong, as a LONG. -/
structure WellFormedTree (root : Nat) : Prop where
  fits : ∀ t ∈ tablesOf tiff endian root, tableEnd tiff endian t.2 ≤ tiff.length
  apart : ∀ t ∈ tablesOf tiff endian root, ∀ u ∈ tablesOf tiff endian root, t.1 ≠ u.1 →
    RangesApart t.2 (tableEnd tiff endian t.2) u.2 (tableEnd tiff endian u.2)
  values_fit : ∀ t ∈ tablesOf tiff endian root, ∀ e ∈ entriesAt tiff endian t.2,
    4 < sizeAt tiff endian e → pointerAt tiff endian e + sizeAt tiff endian e ≤ tiff.length
  values_apart : ∀ t ∈ tablesOf tiff endian root, ∀ e ∈ entriesAt tiff endian t.2,
    4 < sizeAt tiff endian e → ∀ u ∈ tablesOf tiff endian root,
      RangesApart (pointerAt tiff endian e) (pointerAt tiff endian e + sizeAt tiff endian e) u.2
        (tableEnd tiff endian u.2)
  thumbnail_fits : ∀ range ∈ thumbnailAt tiff endian root, range.1 + range.2 ≤ tiff.length
  thumbnail_apart : ∀ range ∈ thumbnailAt tiff endian root, ∀ u ∈ tablesOf tiff endian root,
    RangesApart range.1 (range.1 + range.2) u.2 (tableEnd tiff endian u.2)
  tags_differ : ∀ t ∈ tablesOf tiff endian root,
    ((entriesAt tiff endian t.2).map (tagAt tiff endian)).Nodup
  links_long : ∀ t ∈ tablesOf tiff endian root, ∀ e ∈ entriesAt tiff endian t.2,
    tagAt tiff endian e ∈ t.1.links → typAt tiff endian e = 4 ∧ countAt tiff endian e = 1
  links_placed : ∀ t ∈ tablesOf tiff endian root, ∀ e ∈ entriesAt tiff endian t.2,
    IsSubIfd (tagAt tiff endian e) → t.1 = .ifd0

end Reading

/-- The offsets that are not moved need not be: those in a table before IFD0, of the
Interoperability table and of the thumbnail, and those of values in the last 12 bytes. -/
structure Relocatable {tiff : Bytes} (ifd0 : Ifd0 tiff) : Prop where
  values : ∀ t ∈ tablesOf tiff ifd0.endian ifd0.off, t.1 ≠ .ifd0 →
    ∀ e ∈ entriesAt tiff ifd0.endian t.2, 4 < sizeAt tiff ifd0.endian e →
      pointerAt tiff ifd0.endian e < ifd0.off ∨
        ifd0.off < t.2 ∧ pointerAt tiff ifd0.endian e + 12 ≤ tiff.length
  interop : ∀ off ∈ tableAt tiff ifd0.endian ifd0.off .interop, off < ifd0.off
  thumbnail : ∀ range ∈ thumbnailAt tiff ifd0.endian ifd0.off, range.2 = 0 ∨ range.1 < ifd0.off

/-- The tree with an Orientation entry behind the others of IFD0. -/
def ExifTree.withOrientation (tree : ExifTree) (endian : Order) (orientation : Nat) : ExifTree where
  tags kind := if kind = .ifd0 then
      (tree.tags .ifd0).map (· ++ [⟨orientationTag, 3, 1, endian.encode 2 orientation⟩])
    else tree.tags kind
  thumbnail := tree.thumbnail

def tiffTree (tiff : Bytes) : Option ExifTree :=
  match parseIfd0 tiff with
  | .ok (some ifd0) => some (exifTree tiff ifd0.endian ifd0.off)
  | _ => none

/-- The tree in the first Exif APP1. -/
def readExifTree (jpeg : Bytes) : Option ExifTree :=
  match findExifApp1 jpeg with
  | .ok (some (pos, total)) => tiffTree (tiffOf jpeg pos total)
  | _ => none

section Trees

variable {tiff : Bytes} {endian : Order} {root off e m : Nat} {kind : IfdKind}

theorem mem_tablesOf : (kind, off) ∈ tablesOf tiff endian root ↔
    tableAt tiff endian root kind = some off := by
  rw [tablesOf, List.mem_filterMap]
  constructor
  · rintro ⟨kind', _, h⟩
    obtain ⟨off', h, heq⟩ := Option.map_eq_some_iff.mp h
    cases heq
    exact h
  · intro h
    exact ⟨kind, by cases kind <;> decide, by rw [h]; rfl⟩

theorem root_mem : (IfdKind.ifd0, root) ∈ tablesOf tiff endian root := mem_tablesOf.mpr rfl

theorem mem_entriesAt : e ∈ entriesAt tiff endian off ↔
    ∃ i < entryCount tiff endian off, e = off + 2 + i * 12 := mem_entryPositions

theorem entry_bounds (h : e ∈ entriesAt tiff endian off) :
    off + 2 ≤ e ∧ e + 12 ≤ nextField tiff endian off := by
  obtain ⟨i, hi, rfl⟩ := mem_entriesAt.mp h
  rw [nextField]
  omega

/-- Entries that are not the same are apart. -/
theorem entries_apart {e' : Nat} (h : e ∈ entriesAt tiff endian off)
    (h' : e' ∈ entriesAt tiff endian off) (hne : e ≠ e') : e + 12 ≤ e' ∨ e' + 12 ≤ e := by
  obtain ⟨i, hi, rfl⟩ := mem_entriesAt.mp h
  obtain ⟨j, hj, rfl⟩ := mem_entriesAt.mp h'
  omega

theorem entryWith_some {tag : Nat} (h : entryWith tiff endian off tag = some e) :
    e ∈ entriesAt tiff endian off ∧ tagAt tiff endian e = tag :=
  ⟨List.mem_of_find?_eq_some h, by simpa using List.find?_some h⟩

/-- Where tags differ, an entry is found by its tag. -/
theorem entryWith_of_mem (hdiffer : ((entriesAt tiff endian off).map (tagAt tiff endian)).Nodup)
    (h : e ∈ entriesAt tiff endian off) :
    entryWith tiff endian off (tagAt tiff endian e) = some e := by
  cases hfind : entryWith tiff endian off (tagAt tiff endian e) with
  | none =>
    have hnone := List.find?_eq_none.mp hfind e h
    simp at hnone
  | some e' =>
    obtain ⟨hmem, htag⟩ := entryWith_some hfind
    rw [List.inj_on_of_nodup_map hdiffer hmem h htag]

end Trees

section Marks

variable {tiff : Bytes} {endian : Order} {e4 calls off depth root e m : Nat} {checks : Bool}
  {marks marks' : List Nat} {visit : Visit}

/-- What is marked for an entry and whether it is followed. -/
theorem visitEntry_some (hfits : e + 12 ≤ tiff.length)
    (h : visitEntry tiff endian e4 depth e = some visit) :
    visit.field = e + 8 ∧ visit.target = pointerAt tiff endian e ∧
      (visit.marked = true ↔ (e4 ≤ pointerAt tiff endian e ∧
        pointerAt tiff endian e ≤ tiff.length) ∧ (4 < sizeAt tiff endian e ∨
          (countAt tiff endian e = 1 ∧ typAt tiff endian e = 4) ∧
            IsSubIfd (tagAt tiff endian e))) ∧
      (visit.followed = true → visit.marked = true ∧ IsSubIfd (tagAt tiff endian e)) ∧
      (visit.marked = true → IsSubIfd (tagAt tiff endian e) → depth < 2 →
        visit.followed = true) := by
  rw [visitEntry, readEntry_eq hfits] at h
  simp only [Option.bind_eq_bind, Option.bind_some] at h
  obtain ⟨size, hsize, h⟩ := Option.bind_eq_some_iff.mp h
  have hsizeAt : sizeAt tiff endian e = size := by
    rw [sizeAt, typAt, countAt, hsize]
    rfl
  rw [hsizeAt]
  simp only [pointerAt, countAt, typAt, tagAt]
  split at h
  next hlarge =>
    cases Option.some.inj h
    simp only [Bool.and_eq_true, decide_eq_true_eq]
    tauto
  next hsmall =>
    split at h
    next hlong =>
      cases Option.some.inj h
      simp only [Bool.and_eq_true, decide_eq_true_eq]
      tauto
    next hother =>
      cases Option.some.inj h
      simp only [Bool.false_eq_true, false_iff]
      tauto

theorem visitNext_some (hfits : e + 4 ≤ tiff.length)
    (h : visitNext tiff endian e4 depth e = some visit) :
    visit.field = e ∧ visit.target = numberAt tiff endian 4 e ∧
      (visit.marked = true ↔ numberAt tiff endian 4 e ≠ 0 ∧ e4 ≤ numberAt tiff endian 4 e ∧
        numberAt tiff endian 4 e ≤ tiff.length) ∧
      (visit.followed = true ↔ visit.marked = true ∧ depth = 0) := by
  obtain ⟨range, hrange⟩ := exists_range hfits
  rw [visitNext, hrange] at h
  simp only [Option.bind_eq_bind, Option.bind_some, readNumber_range hrange] at h
  cases Option.some.inj h
  simp only [Bool.and_eq_true, decide_eq_true_eq]
  tauto

/-- The fields of a table whose offsets are marked. -/
def MarkedAt (tiff : Bytes) (endian : Order) (e4 off m : Nat) : Prop :=
  (∃ e ∈ entriesAt tiff endian off, m = e + 8 ∧ (e4 ≤ pointerAt tiff endian e ∧
    pointerAt tiff endian e ≤ tiff.length) ∧ (4 < sizeAt tiff endian e ∨
      (countAt tiff endian e = 1 ∧ typAt tiff endian e = 4) ∧ IsSubIfd (tagAt tiff endian e))) ∨
  m = nextField tiff endian off ∧ numberAt tiff endian 4 m ≠ 0 ∧ e4 ≤ numberAt tiff endian 4 m ∧
    numberAt tiff endian 4 m ≤ tiff.length

/-- The fields that are marked from a table on. -/
def MarkedFrom (tiff : Bytes) (endian : Order) (e4 : Nat) (table : Nat × Nat) (m : Nat) : Prop :=
  ∃ t, Relation.ReflTransGen (fun x y => y ∈ (tables tiff endian e4).calls x) table t ∧
    ∃ visit, some visit ∈ fieldVisits tiff endian e4 t ∧ visit.marked = true ∧ visit.field = m

theorem markedFrom_iff {table : Nat × Nat} : MarkedFrom tiff endian e4 table m ↔
    (∃ visit, some visit ∈ fieldVisits tiff endian e4 table ∧ visit.marked = true ∧
      visit.field = m) ∨
    ∃ called ∈ (tables tiff endian e4).calls table, MarkedFrom tiff endian e4 called m := by
  constructor
  · rintro ⟨t, hreach, hvisit⟩
    rcases hreach.cases_head with rfl | ⟨called, hcalled, hreach⟩
    · exact Or.inl hvisit
    · exact Or.inr ⟨called, hcalled, t, hreach, hvisit⟩
  · rintro (hvisit | ⟨called, hcalled, t, hreach, hvisit⟩)
    · exact ⟨table, .refl, hvisit⟩
    · exact ⟨t, .head hcalled hreach, hvisit⟩

theorem walkVisits_marks
    {walk : Nat → Nat → List Nat → Except PatchFault (Option (List Nat))} {P : Nat × Nat → Prop}
    (hwalk : ∀ target marks marks', walk target (deeper depth) marks = .ok (some marks') →
      (m ∈ marks' ↔ m ∈ marks ∨ P (target, deeper depth)))
    {visits : List (Option Visit)}
    (h : walkVisits checks walk depth visits marks = .ok (some marks')) :
    m ∈ marks' ↔ m ∈ marks ∨ (∃ visit, some visit ∈ visits ∧ visit.marked = true ∧
      visit.field = m) ∨ ∃ called ∈ tablesCalled depth visits, P called := by
  induction visits generalizing marks with
  | nil =>
    cases h
    simp [tablesCalled]
  | cons visit visits ih =>
    cases visit with
    | none => cases h
    | some visit =>
      have hinsert : m ∈ (if visit.marked = true then marks.insert visit.field else marks) ↔
          m ∈ marks ∨ visit.marked = true ∧ visit.field = m := by
        split
        next hmarked => simp [hmarked, or_comm, eq_comm]
        next hmarked => simp [hmarked]
      rw [walkVisits] at h
      simp only [tablesCalled, List.mem_cons, Option.some.injEq]
      split at h
      next hfollowed =>
        obtain ⟨depth', hdepth, h⟩ := bind_ok h
        have hdeeper : depth' = deeper depth := by
          rw [@increment_depth 0] at hdepth
          split at hdepth
          next => cases hdepth
          next => exact (Except.ok.inj hdepth).symm
        subst hdeeper
        obtain ⟨called, hcalled, h⟩ := bind_ok h
        cases called with
        | none => cases h
        | some marks'' =>
          rw [ih h, hwalk _ _ _ hcalled, hinsert, if_pos hfollowed]
          simp only [List.mem_cons, or_and_right, exists_or, exists_eq_left, or_assoc, or_left_comm]
      next hleft =>
        rw [ih h, hinsert, if_neg hleft]
        simp only [or_and_right, exists_or, exists_eq_left, or_assoc]

/-- A walk marks the fields of the tables it comes to. -/
theorem walkIfd_marks (h : walkIfd checks tiff endian e4 calls off depth marks = .ok (some marks')) :
    m ∈ marks' ↔ m ∈ marks ∨ MarkedFrom tiff endian e4 (off, depth) m := by
  induction calls generalizing off depth marks marks' with
  | zero => cases h
  | succ calls ih =>
    rw [walkIfd] at h
    split at h
    next => cases h
    next n hcount =>
      have hvisits : fieldVisits tiff endian e4 (off, depth) = tableVisits tiff endian e4 off depth n := by
        simp only [fieldVisits, hcount]
      rw [walkVisits_marks (P := fun called => MarkedFrom tiff endian e4 called m)
        (fun target marks marks' => ih) h, markedFrom_iff]
      simp only [tables, hvisits]

end Marks

section Walked

variable {tiff : Bytes} {endian : Order} {e4 off depth root m : Nat} {kind : IfdKind}
  {called : Nat × Nat}

theorem mem_tablesCalled_iff {visits : List (Option Visit)} (hall : visits.all Option.isSome) :
    called ∈ tablesCalled depth visits ↔ ∃ visit, some visit ∈ visits ∧
      visit.followed = true ∧ (visit.target, deeper depth) = called := by
  induction visits with
  | nil => simp [tablesCalled]
  | cons visit visits ih =>
    cases visit with
    | none => simp at hall
    | some visit =>
      have hrest : visits.all Option.isSome := by simpa using hall
      rw [tablesCalled]
      split
      next hfollowed =>
        rw [List.mem_cons, ih hrest]
        simp only [List.mem_cons, Option.some.injEq, or_and_right, exists_or, exists_eq_left,
          hfollowed, true_and, @eq_comm _ called]
      next hleft =>
        rw [ih hrest]
        simp only [List.mem_cons, Option.some.injEq, or_and_right, exists_or, exists_eq_left,
          hleft, false_and, false_or, Bool.false_eq_true]

/-- A table that is walked through lies within the bytes, and each of its fields is known. -/
theorem passes_fields (h : (tables tiff endian e4).Passes (off, depth)) :
    fieldVisits tiff endian e4 (off, depth) =
        tableVisits tiff endian e4 off depth (entryCount tiff endian off) ∧
      tableEnd tiff endian off ≤ tiff.length ∧
      (fieldVisits tiff endian e4 (off, depth)).all Option.isSome := by
  cases h with
  | intro _ _ fine =>
    have hall : (fieldVisits tiff endian e4 (off, depth)).all Option.isSome := fine
    refine ⟨?_, ?_, hall⟩
    · unfold fieldVisits at hall ⊢
      split at hall
      next => simp at hall
      next n hcount =>
        rw [entryCount, (tableCount_some.mp hcount).1]
    · unfold fieldVisits at hall
      split at hall
      next => simp at hall
      next n hcount =>
        obtain ⟨hn, -, -, hfits⟩ := tableCount_some.mp hcount
        rw [tableEnd, nextField, entryCount, hn]
        exact hfits

/-- The visit of a field of such a table. -/
theorem passes_visit (h : (tables tiff endian e4).Passes (off, depth)) :
    (∀ e ∈ entriesAt tiff endian off, ∃ visit,
      visitEntry tiff endian e4 depth e = some visit ∧
        some visit ∈ fieldVisits tiff endian e4 (off, depth)) ∧
    ∃ visit, visitNext tiff endian e4 depth (nextField tiff endian off) = some visit ∧
      some visit ∈ fieldVisits tiff endian e4 (off, depth) := by
  obtain ⟨heq, -, hall⟩ := passes_fields h
  have hsome : ∀ v ∈ fieldVisits tiff endian e4 (off, depth), ∃ visit, v = some visit := by
    intro v hv
    exact Option.isSome_iff_exists.mp (List.all_eq_true.mp hall v hv)
  rw [heq] at hsome ⊢
  refine ⟨fun e he => ?_, ?_⟩
  · have hmem : visitEntry tiff endian e4 depth e ∈
        tableVisits tiff endian e4 off depth (entryCount tiff endian off) :=
      List.mem_append_left _ (List.mem_map_of_mem he)
    obtain ⟨visit, hvisit⟩ := hsome _ hmem
    exact ⟨visit, hvisit, hvisit ▸ hmem⟩
  · have hmem : visitNext tiff endian e4 depth (nextField tiff endian off) ∈
        tableVisits tiff endian e4 off depth (entryCount tiff endian off) :=
      List.mem_append_right _ (List.mem_singleton.mpr rfl)
    obtain ⟨visit, hvisit⟩ := hsome _ hmem
    exact ⟨visit, hvisit, hvisit ▸ hmem⟩

theorem visit_cases {visit : Visit}
    (hvisit : some visit ∈ fieldVisits tiff endian e4 (off, depth)) :
    (∃ e ∈ entriesAt tiff endian off, visitEntry tiff endian e4 depth e = some visit) ∨
      visitNext tiff endian e4 depth (nextField tiff endian off) = some visit := by
  unfold fieldVisits at hvisit
  split at hvisit
  next => simp at hvisit
  next n hcount =>
    obtain rfl : entryCount tiff endian off = n := (tableCount_some.mp hcount).1
    rcases List.mem_append.mp hvisit with hvisit | hvisit
    · obtain ⟨e, he, heq⟩ := List.mem_map.mp hvisit
      exact Or.inl ⟨e, he, heq⟩
    · exact Or.inr (List.mem_singleton.mp hvisit).symm

theorem marked_iff (h : (tables tiff endian e4).Passes (off, depth)) :
    (∃ visit, some visit ∈ fieldVisits tiff endian e4 (off, depth) ∧ visit.marked = true ∧
      visit.field = m) ↔ MarkedAt tiff endian e4 off m := by
  obtain ⟨hentry, next, hnext, hmem⟩ := passes_visit h
  have hfits : nextField tiff endian off + 4 ≤ tiff.length := (passes_fields h).2.1
  have hbounds : ∀ e ∈ entriesAt tiff endian off, e + 12 ≤ tiff.length := fun e he => by
    have hle := (entry_bounds he).2
    omega
  constructor
  · rintro ⟨visit, hvisit, hmarked, rfl⟩
    rcases visit_cases hvisit with ⟨e, he, hvisit⟩ | hvisit
    · obtain ⟨hfield, -, hiff, -⟩ := visitEntry_some (hbounds e he) hvisit
      exact Or.inl ⟨e, he, hfield, hiff.mp hmarked⟩
    · obtain ⟨hfield, -, hiff, -⟩ := visitNext_some hfits hvisit
      rw [hfield]
      exact Or.inr ⟨rfl, hiff.mp hmarked⟩
  · rintro (⟨e, he, rfl, hmarked⟩ | ⟨rfl, hmarked⟩)
    · obtain ⟨visit, hvisit, hmem⟩ := hentry e he
      obtain ⟨hfield, -, hiff, -⟩ := visitEntry_some (hbounds e he) hvisit
      exact ⟨visit, hmem, hiff.mpr hmarked, hfield⟩
    · obtain ⟨hfield, -, hiff, -⟩ := visitNext_some hfits hnext
      exact ⟨next, hmem, hiff.mpr hmarked, hfield⟩

theorem passes_called (h : (tables tiff endian e4).Passes (off, depth))
    (hcalled : called ∈ (tables tiff endian e4).calls (off, depth)) :
    (tables tiff endian e4).Passes called := by
  cases h with
  | intro _ calls _ => exact calls called hcalled

theorem mem_calls_iff (h : (tables tiff endian e4).Passes (off, depth)) :
    called ∈ (tables tiff endian e4).calls (off, depth) ↔
      ∃ visit, some visit ∈ fieldVisits tiff endian e4 (off, depth) ∧ visit.followed = true ∧
        (visit.target, deeper depth) = called :=
  mem_tablesCalled_iff (passes_fields h).2.2

/-- IFD0 only calls other tables that are behind it, and not the Interoperability table. -/
theorem called_of_root (hwf : WellFormedTree tiff endian root)
    (h : called ∈ (tables tiff endian e4).calls (root, 0)) :
    ∃ kind, (kind ≠ .ifd0 ∧ kind ≠ .interop) ∧ ∃ off,
      tableAt tiff endian root kind = some off ∧ e4 ≤ off ∧ (off, 1) = called := by
  have hfits : nextField tiff endian root + 4 ≤ tiff.length := hwf.fits _ root_mem
  have hdiffer := hwf.tags_differ _ root_mem
  obtain ⟨hdepth, visit, hvisit, hfollowed, htable⟩ := mem_tablesCalled h
  have hcalled : (visit.target, 1) = called := Prod.ext htable hdepth.symm
  rcases visit_cases hvisit with ⟨e, he, hvisit⟩ | hvisit
  · have hle := (entry_bounds he).2
    obtain ⟨-, htarget, hiff, hsub, -⟩ := visitEntry_some (by omega) hvisit
    obtain ⟨hmarked, htag⟩ := hsub hfollowed
    have hmoved := (hiff.mp hmarked).1
    have hfound := entryWith_of_mem hdiffer he
    rw [htarget] at hcalled
    rcases htag with htag | htag
    · refine ⟨.exif, by decide, _, ?_, hmoved.1, hcalled⟩
      rw [tableAt, linkAt, ← htag, hfound]
      rfl
    · refine ⟨.gps, by decide, _, ?_, hmoved.1, hcalled⟩
      rw [tableAt, linkAt, ← htag, hfound]
      rfl
  · obtain ⟨-, htarget, hiff, hchain⟩ := visitNext_some hfits hvisit
    obtain ⟨hne, hle, -⟩ := hiff.mp (hchain.mp hfollowed).1
    rw [htarget] at hcalled
    exact ⟨.ifd1, by decide, _, if_neg hne, hle, hcalled⟩

/-- From IFD0 the tables are walked that are behind it, but for the Interoperability table. -/
theorem calls_root (hwf : WellFormedTree tiff endian root)
    (h : (tables tiff endian e4).Passes (root, 0)) :
    called ∈ (tables tiff endian e4).calls (root, 0) ↔
      ∃ kind, (kind ≠ .ifd0 ∧ kind ≠ .interop) ∧ ∃ off,
        tableAt tiff endian root kind = some off ∧ e4 ≤ off ∧ (off, 1) = called := by
  obtain ⟨hentry, next, hnext, hmem⟩ := passes_visit h
  have hfits : nextField tiff endian root + 4 ≤ tiff.length := (passes_fields h).2.1
  refine ⟨called_of_root hwf, ?_⟩
  rw [mem_calls_iff h]
  rintro ⟨kind, ⟨hroot, hinterop⟩, off, hoff, hle, rfl⟩
  have hlen : off ≤ tiff.length := by
    have hend := hwf.fits _ (mem_tablesOf.mpr hoff)
    simp only [tableEnd, nextField] at hend
    omega
  have hlink : ∀ tag, IsSubIfd tag → linkAt tiff endian root tag = some off →
      ∃ visit, some visit ∈ fieldVisits tiff endian e4 (root, 0) ∧ visit.followed = true ∧
        (visit.target, deeper 0) = (off, 1) := by
    intro tag htag hlink
    obtain ⟨e, he, rfl⟩ := Option.map_eq_some_iff.mp hlink
    obtain ⟨hposition, rfl⟩ := entryWith_some he
    have hbound := (entry_bounds hposition).2
    obtain ⟨visit, hvisit, hmem⟩ := hentry e hposition
    obtain ⟨-, htarget, hiff, -, hfollow⟩ := visitEntry_some (by omega) hvisit
    obtain ⟨htyp, hcount⟩ := hwf.links_long _ root_mem e hposition (by
      rcases htag with htag | htag <;> simp [htag, IfdKind.links])
    have hmarked := hiff.mpr ⟨⟨hle, hlen⟩, Or.inr ⟨⟨hcount, htyp⟩, htag⟩⟩
    exact ⟨visit, hmem, hfollow hmarked htag (by decide), by rw [htarget]; rfl⟩
  cases kind with
  | ifd0 => exact absurd rfl hroot
  | interop => exact absurd rfl hinterop
  | exif => exact hlink _ (Or.inl rfl) hoff
  | gps => exact hlink _ (Or.inr rfl) hoff
  | ifd1 =>
    obtain ⟨-, htarget, hiff, hchain⟩ := visitNext_some hfits hnext
    have hoff' : nextTable tiff endian root = some off := hoff
    unfold nextTable at hoff'
    split at hoff'
    next => cases hoff'
    next hne =>
      cases Option.some.inj hoff'
      exact ⟨next, hmem, hchain.mpr ⟨hiff.mpr ⟨hne, hle, hlen⟩, rfl⟩, by rw [htarget]; rfl⟩

/-- Another table calls none. -/
theorem calls_inner (hwf : WellFormedTree tiff endian root) (hkind : kind ≠ .ifd0)
    (hoff : tableAt tiff endian root kind = some off) :
    (tables tiff endian e4).calls (off, 1) = [] := by
  refine List.eq_nil_iff_forall_not_mem.mpr fun called hcalled => ?_
  have hfits : nextField tiff endian off + 4 ≤ tiff.length := hwf.fits _ (mem_tablesOf.mpr hoff)
  obtain ⟨-, visit, hvisit, hfollowed, -⟩ := mem_tablesCalled hcalled
  rcases visit_cases hvisit with ⟨e, he, hvisit⟩ | hvisit
  · have hle := (entry_bounds he).2
    obtain ⟨-, -, -, hsub, -⟩ := visitEntry_some (by omega) hvisit
    exact hkind (hwf.links_placed _ (mem_tablesOf.mpr hoff) e he (hsub hfollowed).2)
  · obtain ⟨-, -, -, hchain⟩ := visitNext_some hfits hvisit
    exact absurd (hchain.mp hfollowed).2 (by decide)

/-- Two calls are enough, one of IFD0 and one within it. -/
theorem walk_root {blocked : Nat × Nat → Bool} (hwf : WellFormedTree tiff endian root)
    (hfree : blocked (root, 0) = false) {calls : Nat} (hcalls : 2 ≤ calls) :
    ∃ r, (tables tiff endian e4).walk blocked calls (root, 0) = .ok r := by
  have hinner : ∀ called ∈ (tables tiff endian e4).calls (root, 0), ∃ r,
      (tables tiff endian e4).walk blocked 1 called = .ok r := by
    intro called hcalled
    obtain ⟨kind, ⟨hroot, -⟩, off, hoff, -, rfl⟩ := called_of_root hwf hcalled
    refine ⟨(tables tiff endian e4).fine (off, 1), ?_⟩
    rw [OrderedWalks.System.walk, calls_inner hwf hroot hoff]
    rfl
  have hall : ∀ tables' ⊆ (tables tiff endian e4).calls (root, 0), ∃ r,
      OrderedWalks.visitAll ((tables tiff endian e4).walk blocked 1) (blocked (root, 0))
        ((tables tiff endian e4).fine (root, 0)) tables' = .ok r := by
    intro tables' hsub
    induction tables' with
    | nil => exact ⟨_, rfl⟩
    | cons called rest ih =>
      obtain ⟨hcalled, hrest⟩ := List.cons_subset.mp hsub
      obtain ⟨passed, hpassed⟩ := hinner called hcalled
      rw [OrderedWalks.System.visitAll_cons, hfree, if_neg Bool.false_ne_true, hpassed]
      cases passed with
      | false => exact ⟨false, rfl⟩
      | true =>
        rw [hfree] at ih
        exact ih hrest
  obtain ⟨r, hr⟩ := hall _ (List.Subset.refl _)
  exact ⟨r, OrderedWalks.System.walk_le hcalls hr⟩

/-- The tables whose fields are marked. -/
def WalkedTable (tiff : Bytes) (endian : Order) (e4 root : Nat) (kind : IfdKind) (off : Nat) : Prop :=
  tableAt tiff endian root kind = some off ∧ kind ≠ .interop ∧ (kind = .ifd0 ∨ e4 ≤ off)

theorem markedFrom_root (hwf : WellFormedTree tiff endian root)
    (h : (tables tiff endian e4).Passes (root, 0)) :
    MarkedFrom tiff endian e4 (root, 0) m ↔
      ∃ kind off, WalkedTable tiff endian e4 root kind off ∧ MarkedAt tiff endian e4 off m := by
  have hinner : ∀ {kind off}, kind ≠ .ifd0 → tableAt tiff endian root kind = some off →
      (tables tiff endian e4).Passes (off, 1) →
      (MarkedFrom tiff endian e4 (off, 1) m ↔ MarkedAt tiff endian e4 off m) := by
    intro kind off hkind hoff hpasses
    rw [markedFrom_iff, marked_iff hpasses, calls_inner hwf hkind hoff]
    simp
  rw [markedFrom_iff, marked_iff h]
  constructor
  · rintro (hmarked | ⟨called, hcalled, hmarked⟩)
    · exact ⟨.ifd0, root, ⟨rfl, by decide, Or.inl rfl⟩, hmarked⟩
    · have hpasses := passes_called h hcalled
      obtain ⟨kind, ⟨hroot, hinterop⟩, off, hoff, hle, rfl⟩ := (calls_root hwf h).mp hcalled
      exact ⟨kind, off, ⟨hoff, hinterop, Or.inr hle⟩, (hinner hroot hoff hpasses).mp hmarked⟩
  · rintro ⟨kind, off, ⟨hoff, hinterop, hwhere⟩, hmarked⟩
    by_cases hroot : kind = .ifd0
    · subst hroot
      cases Option.some.inj hoff
      exact Or.inl hmarked
    · have hcalled := (calls_root hwf h).mpr
        ⟨kind, ⟨hroot, hinterop⟩, off, hoff, hwhere.resolve_left hroot, rfl⟩
      exact Or.inr ⟨_, hcalled, (hinner hroot hoff (passes_called h hcalled)).mpr hmarked⟩

end Walked

end Reminisce

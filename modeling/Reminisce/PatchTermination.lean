import Reminisce.ExifSplices
import Reminisce.Library.OrderedWalks
import Mathlib.Data.Set.Finite.Lattice
import Mathlib.Order.Interval.Finset.Nat

namespace Reminisce

open ByteOrder Results OrderedWalks

/-- The depth of a called table, as it wraps. -/
def deeper (depth : Nat) : Nat := if depth + 1 < 2 ^ 8 then depth + 1 else 0

/-- The tables called for these fields, before one that ends the walk. -/
def tablesCalled (depth : Nat) : List (Option Visit) → List (Nat × Nat)
  | [] => []
  | none :: _ => []
  | some visit :: visits =>
    if visit.followed then (visit.target, deeper depth) :: tablesCalled depth visits
    else tablesCalled depth visits

/-- The fields of the table at an offset; `none` is one that ends the walk. -/
def fieldVisits (tiff : Bytes) (endian : Order) (e4 : Nat) (table : Nat × Nat) :
    List (Option Visit) :=
  match tableCount tiff endian table.1 with
  | none => [none]
  | some n => tableVisits tiff endian e4 table.1 table.2 n

/-- The tables, each with its depth, as they call one another. -/
def tables (tiff : Bytes) (endian : Order) (e4 : Nat) : System (Nat × Nat) where
  calls table := tablesCalled table.2 (fieldVisits tiff endian e4 table)
  fine table := (fieldVisits tiff endian e4 table).all Option.isSome

/-- Where an overflow check stops the walk. -/
def overflows (checks : Bool) (table : Nat × Nat) : Bool := checks && decide (255 ≤ table.2)

/-- Whether a walk went through. -/
def walkedThrough : Except PatchFault (Option (List Nat)) → Except Halt Bool
  | .error .unfinished => .error .unfinished
  | .error _ => .error .blocked
  | .ok marks => .ok marks.isSome

section Walk

variable {tiff : Bytes} {endian : Order} {e4 calls off depth : Nat} {checks : Bool}
  {marks : List Nat}

theorem increment_depth (checks : Bool) (depth : Nat) : increment checks 8 depth =
    if overflows checks (off, depth) then .error .overflow else .ok (deeper depth) := by
  rw [increment, deeper, overflows]
  by_cases h : depth + 1 < 2 ^ 8
  · have hfree : ¬255 ≤ depth := by omega
    rw [if_pos h, if_pos h, decide_eq_false hfree, Bool.and_false]
    rfl
  · have hfull : 255 ≤ depth := by omega
    rw [if_neg h, if_neg h, decide_eq_true hfull, Bool.and_true]

theorem walkVisits_through {walk : Nat → Nat → List Nat → Except PatchFault (Option (List Nat))}
    {walk' : Nat × Nat → Except Halt Bool}
    (hwalk : ∀ target depth marks, walkedThrough (walk target depth marks) = walk' (target, depth))
    (visits : List (Option Visit)) (marks : List Nat) :
    walkedThrough (walkVisits checks walk depth visits marks) =
      visitAll walk' (overflows checks (off, depth)) (visits.all Option.isSome)
        (tablesCalled depth visits) := by
  induction visits generalizing marks with
  | nil => rfl
  | cons visit visits ih =>
    cases visit with
    | none => rfl
    | some visit =>
      rw [walkVisits, tablesCalled, List.all_cons, Option.isSome_some, Bool.true_and]
      by_cases hfollowed : visit.followed = true
      · rw [if_pos hfollowed, if_pos hfollowed, System.visitAll_cons, @increment_depth off]
        by_cases hover : overflows checks (off, depth) = true
        · rw [if_pos hover, if_pos hover]
          rfl
        · rw [if_neg hover, if_neg hover, ok_bind, ← hwalk visit.target (deeper depth)
            (if visit.marked then marks.insert visit.field else marks)]
          cases walk visit.target (deeper depth)
              (if visit.marked then marks.insert visit.field else marks) with
          | error fault => cases fault <;> rfl
          | ok r =>
            cases r with
            | none => rfl
            | some marks' => exact ih marks'
      · rw [if_neg hfollowed, if_neg hfollowed]
        exact ih _

/-- `walk_ifd` walks the tables. -/
theorem walkIfd_through (calls off depth : Nat) (marks : List Nat) :
    walkedThrough (walkIfd checks tiff endian e4 calls off depth marks) =
      (tables tiff endian e4).walk (overflows checks) calls (off, depth) := by
  induction calls generalizing off depth marks with
  | zero => rfl
  | succ calls ih =>
    rw [walkIfd, System.walk]
    cases hcount : tableCount tiff endian off with
    | none =>
      simp only [tables, fieldVisits, hcount, tablesCalled]
      rfl
    | some n =>
      simp only [tables, fieldVisits, hcount]
      exact walkVisits_through ih _ marks

theorem walkIfd_ok (h : walkIfd checks tiff endian e4 calls off depth marks = .ok r) :
    (tables tiff endian e4).walk (overflows checks) calls (off, depth) = .ok r.isSome := by
  rw [← walkIfd_through, h]
  rfl

theorem visitEntry_target {e : Nat} {visit : Visit}
    (h : visitEntry tiff endian e4 depth e = some visit) (hf : visit.followed = true) :
    visit.target ≤ tiff.length := by
  unfold visitEntry at h
  obtain ⟨entry, -, h⟩ := Option.bind_eq_some_iff.mp h
  obtain ⟨size, -, h⟩ := Option.bind_eq_some_iff.mp h
  split at h
  next =>
    cases Option.some.inj h
    simp only [Bool.and_eq_true, decide_eq_true_eq] at hf
    exact hf.1.1.2
  next =>
    split at h
    next =>
      cases Option.some.inj h
      simp only [Bool.and_eq_true, decide_eq_true_eq] at hf
      exact hf.2.2
    next =>
      cases Option.some.inj h
      simp at hf

theorem visitNext_target {entriesEnd : Nat} {visit : Visit}
    (h : visitNext tiff endian e4 depth entriesEnd = some visit) (hf : visit.followed = true) :
    visit.target ≤ tiff.length := by
  unfold visitNext at h
  obtain ⟨range, -, h⟩ := Option.bind_eq_some_iff.mp h
  obtain ⟨next, -, h⟩ := Option.bind_eq_some_iff.mp h
  cases Option.some.inj h
  simp only [Bool.and_eq_true, decide_eq_true_eq] at hf
  exact hf.1.2

theorem mem_tablesCalled {visits : List (Option Visit)} {table : Nat × Nat}
    (h : table ∈ tablesCalled depth visits) :
    table.2 = deeper depth ∧ ∃ visit, some visit ∈ visits ∧ visit.followed = true ∧
      visit.target = table.1 := by
  induction visits with
  | nil => simp [tablesCalled] at h
  | cons visit visits ih =>
    cases visit with
    | none => simp [tablesCalled] at h
    | some visit =>
      rw [tablesCalled] at h
      split at h
      next hfollowed =>
        rcases List.mem_cons.mp h with rfl | h
        · exact ⟨rfl, visit, by simp, hfollowed, rfl⟩
        · obtain ⟨hdepth, visit', hmem, hrest⟩ := ih h
          exact ⟨hdepth, visit', List.mem_cons_of_mem _ hmem, hrest⟩
      next =>
        obtain ⟨hdepth, visit', hmem, hrest⟩ := ih h
        exact ⟨hdepth, visit', List.mem_cons_of_mem _ hmem, hrest⟩

theorem deeper_lt (depth : Nat) : deeper depth < 256 := by
  rw [deeper]
  split <;> omega

/-- A called table starts within the structure. -/
theorem called_within {table called : Nat × Nat}
    (h : called ∈ (tables tiff endian e4).calls table) :
    called.1 ≤ tiff.length ∧ called.2 < 256 := by
  obtain ⟨hdepth, visit, hmem, hfollowed, htarget⟩ := mem_tablesCalled h
  refine ⟨?_, hdepth ▸ deeper_lt table.2⟩
  rw [← htarget]
  unfold fieldVisits at hmem
  split at hmem
  next => simp at hmem
  next n _ =>
    rcases List.mem_append.mp hmem with hmem | hmem
    · obtain ⟨e, -, he⟩ := List.mem_map.mp hmem
      exact visitEntry_target he hfollowed
    · exact visitNext_target (List.mem_singleton.mp hmem).symm hfollowed

/-- The tables that a walk can come to are finitely many. -/
theorem reached_finite (root : Nat × Nat) :
    {table | Relation.ReflTransGen (tables tiff endian e4).Opens root table}.Finite := by
  have hbox : ((Finset.range (tiff.length + 1) ×ˢ Finset.range 256 : Finset (Nat × Nat)) :
      Set (Nat × Nat)).Finite := Finset.finite_toSet _
  refine (hbox.insert root).subset fun table hreach => ?_
  cases hreach with
  | refl => exact Set.mem_insert root _
  | tail _ ho =>
    obtain ⟨before, after, hcalls, -⟩ := ho
    obtain ⟨hoff, hdepth⟩ := called_within (hcalls ▸ List.mem_append_right before List.mem_cons_self)
    refine Set.mem_insert_of_mem root ?_
    rw [Finset.mem_coe, Finset.mem_product, Finset.mem_range, Finset.mem_range]
    exact ⟨Nat.lt_succ_of_le hoff, hdepth⟩

end Walk

variable {jpeg tiff : Bytes} {endian : Order} {e4 calls off depth orientation : Nat} {checks : Bool}
  {marks : List Nat} {readOrientation : Bytes → Option Nat} {fault : PatchFault}

/-- A walk is only stopped by a call too many or by an overflow check. -/
def WalkFault (checks : Bool) (fault : PatchFault) : Prop :=
  fault = .unfinished ∨ checks = true ∧ fault = .overflow

theorem increment_fault {bits n : Nat} (h : increment checks bits n = .error fault) :
    WalkFault checks fault := by
  unfold increment at h
  split at h
  next => simp at h
  next =>
    split at h
    next hchecks => exact .inr ⟨hchecks, (Except.error.inj h).symm⟩
    next => simp at h

theorem walkVisits_fault {walk : Nat → Nat → List Nat → Except PatchFault (Option (List Nat))}
    (hwalk : ∀ target depth marks fault, walk target depth marks = .error fault →
      WalkFault checks fault) {visits : List (Option Visit)}
    (h : walkVisits checks walk depth visits marks = .error fault) : WalkFault checks fault := by
  induction visits generalizing marks with
  | nil => simp [walkVisits] at h
  | cons visit visits ih =>
    cases visit with
    | none => simp [walkVisits] at h
    | some visit =>
      rw [walkVisits] at h
      split at h
      next =>
        cases hdepth : increment checks 8 depth with
        | error fault' =>
          rw [hdepth, error_bind] at h
          cases Except.error.inj h
          exact increment_fault hdepth
        | ok depth' =>
          rw [hdepth, ok_bind] at h
          cases hcall : walk visit.target depth'
              (if visit.marked then marks.insert visit.field else marks) with
          | error fault' =>
            rw [hcall, error_bind] at h
            exact hwalk _ _ _ _ (hcall.trans h)
          | ok r =>
            rw [hcall, ok_bind] at h
            cases r with
            | none => simp [pure, Except.pure] at h
            | some marks' => exact ih h
      next => exact ih h

theorem walkIfd_fault (h : walkIfd checks tiff endian e4 calls off depth marks = .error fault) :
    WalkFault checks fault := by
  induction calls generalizing off depth marks fault with
  | zero => exact .inl (Except.error.inj h).symm
  | succ calls ih =>
    rw [walkIfd] at h
    split at h
    next => simp at h
    next => exact walkVisits_fault (fun _ _ _ _ hcall => ih hcall) h

/-- The tables that the walk starts with. -/
def Insertion.tables (i : Insertion readOrientation jpeg orientation) : System (Nat × Nat) :=
  Reminisce.tables i.tiff i.ifd0.endian (i.ifd0.entriesEnd + 4)

/-- No table calls itself again, through others or not. -/
def Insertion.Loopless (i : Insertion readOrientation jpeg orientation) : Prop :=
  i.tables.Loopless (i.ifd0.off, 0)

variable {order : HashOrder}

/-- What comes of an insertion is decided by the walk. -/
theorem ensure_insertion_of_walk (i : Insertion readOrientation jpeg orientation) :
    (∃ marks, walkIfd checks i.tiff i.ifd0.endian (i.ifd0.entriesEnd + 4) calls i.ifd0.off 0 [] =
        .ok (some marks) ∧
      ensureExifOrientation order checks calls readOrientation jpeg orientation =
        .ok (i.out (patchedTiff order i.ifd0 marks orientation))) ∨
    (walkIfd checks i.tiff i.ifd0.endian (i.ifd0.entriesEnd + 4) calls i.ifd0.off 0 [] =
        .ok none ∧
      ensureExifOrientation order checks calls readOrientation jpeg orientation = .ok jpeg) ∨
    ∃ fault, walkIfd checks i.tiff i.ifd0.endian (i.ifd0.entriesEnd + 4) calls i.ifd0.off 0 [] =
        .error fault ∧
      ensureExifOrientation order checks calls readOrientation jpeg orientation =
        .error fault := by
  rw [ensure_insertion]
  cases hwalk : walkIfd checks i.tiff i.ifd0.endian (i.ifd0.entriesEnd + 4) calls i.ifd0.off 0 []
  with
  | error fault =>
    rw [insertOrientation_fault hwalk]
    exact .inr (.inr ⟨fault, rfl, rfl⟩)
  | ok r =>
    cases r with
    | none =>
      rw [insertOrientation_unmoved hwalk]
      exact .inr (.inl ⟨rfl, rfl⟩)
    | some marks =>
      rw [insertOrientation_moved hwalk]
      exact .inl ⟨marks, rfl, rfl⟩

theorem walk_of_ensure (i : Insertion readOrientation jpeg orientation) {out : Bytes}
    (h : ensureExifOrientation order checks calls readOrientation jpeg orientation = .ok out) :
    ∃ r, i.tables.walk (overflows checks) calls (i.ifd0.off, 0) = .ok r := by
  rcases @ensure_insertion_of_walk jpeg calls orientation checks readOrientation order i with
    ⟨marks, hwalk, -⟩ | ⟨hwalk, -⟩ | ⟨fault, -, hensure⟩
  · exact ⟨_, walkIfd_ok hwalk⟩
  · exact ⟨_, walkIfd_ok hwalk⟩
  · simp [hensure] at h

theorem ensure_of_walk (i : Insertion readOrientation jpeg orientation) {r : Bool}
    (h : i.tables.walk (overflows checks) calls (i.ifd0.off, 0) = .ok r) :
    ∃ out, ensureExifOrientation order checks calls readOrientation jpeg orientation =
      .ok out := by
  have hthrough := @walkIfd_through i.tiff i.ifd0.endian (i.ifd0.entriesEnd + 4) checks calls
    i.ifd0.off 0 []
  rcases @ensure_insertion_of_walk jpeg calls orientation checks readOrientation order i with
    ⟨marks, -, hok⟩ | ⟨-, hok⟩ | ⟨fault, hwalk, -⟩
  · exact ⟨_, hok⟩
  · exact ⟨_, hok⟩
  · rw [hwalk] at hthrough
    cases fault <;> exact absurd (hthrough.trans h) (by simp [walkedThrough])

/-- The patcher ends if and only if no table that it walks calls itself again. -/
theorem patch_ends_iff (order : HashOrder) (readOrientation : Bytes → Option Nat) (jpeg : Bytes)
    (orientation : Nat) :
    (∃ calls, ensureExifOrientation order false calls readOrientation jpeg orientation ≠
      .error .unfinished) ↔
      ∀ i : Insertion readOrientation jpeg orientation, i.Loopless := by
  constructor
  · rintro ⟨calls, hends⟩ i
    cases hensure : ensureExifOrientation order false calls readOrientation jpeg orientation with
    | ok out =>
      obtain ⟨r, hr⟩ := walk_of_ensure i hensure
      exact (System.walk_meets hr).2
    | error fault =>
      rcases @ensure_insertion_of_walk jpeg calls orientation false readOrientation order i with
        ⟨marks, -, hok⟩ | ⟨-, hok⟩ | ⟨fault, hwalk, hfault⟩
      · simp [hok] at hensure
      · simp [hok] at hensure
      · rcases walkIfd_fault hwalk with rfl | ⟨hchecks, -⟩
        · exact absurd hfault hends
        · simp at hchecks
  · intro hloopless
    rcases branch readOrientation jpeg orientation with hkept | ⟨attempts, soi, none⟩ | r | i
    · exact ⟨0, by simp [hkept]⟩
    · exact ⟨0, by simp [ensure_injected order false 0 attempts soi none]⟩
    · exact ⟨0, by simp [ensure_rewrite order false 0 r]⟩
    · have hfree : i.tables.Unblocked (overflows false) (i.ifd0.off, 0) := fun _ _ _ _ => rfl
      obtain ⟨calls, r, hr⟩ := System.walk_returns (reached_finite _) hfree (hloopless i)
      obtain ⟨out, hout⟩ := @ensure_of_walk jpeg calls orientation false readOrientation order i r hr
      exact ⟨calls, by simp [hout]⟩

/-- A file whose Exif IFD is its own Exif IFD. -/
def loopingExif : Bytes :=
  [0xff, 0xd8, 0xff, 0xe1, 0x00, 0x34] ++ exifHeader ++
    [0x49, 0x49, 0x2a, 0x00, 0x08, 0x00, 0x00, 0x00,
      0x01, 0x00, 0x69, 0x87, 0x04, 0x00, 0x01, 0x00, 0x00, 0x00, 0x1a, 0x00, 0x00, 0x00,
      0x00, 0x00, 0x00, 0x00,
      0x01, 0x00, 0x69, 0x87, 0x04, 0x00, 0x01, 0x00, 0x00, 0x00, 0x1a, 0x00, 0x00, 0x00,
      0x00, 0x00, 0x00, 0x00, 0xff, 0xda]

def loopingTiff : Bytes := tiffOf loopingExif 2 54

def loopingIfd0 : Ifd0 loopingTiff :=
  .single .little (by decide +kernel)

theorem looping_walk (h : off = 8 ∨ off = 26) (calls depth : Nat) (marks : List Nat) :
    walkIfd false loopingTiff .little 26 calls off depth marks = .error .unfinished := by
  induction calls generalizing off depth marks with
  | zero => rfl
  | succ calls ih =>
    have hcount : tableCount loopingTiff .little off = some 1 := by
      rcases h with rfl | rfl <;> decide +kernel
    have hread : readEntry loopingTiff .little (off + 2) = some ⟨exifSubIfdTag, 4, 1, 26⟩ := by
      rcases h with rfl | rfl <;> decide +kernel
    have hlen : loopingTiff.length = 44 := by decide +kernel
    have hvisit : visitEntry loopingTiff .little 26 depth (off + 2) =
        some ⟨off + 2 + 8, 26, true, true⟩ := by
      simp [visitEntry, hread, tiffValueSize, IsSubIfd, hlen]
    have hvisits : tableVisits loopingTiff .little 26 off depth 1 =
        [some ⟨off + 2 + 8, 26, true, true⟩,
          visitNext loopingTiff .little 26 depth (off + 2 + 1 * 12)] := by
      simp [tableVisits, entryPositions, hvisit]
    have hfree : overflows false (off, depth) = false := rfl
    rw [walkIfd, hcount]
    dsimp only
    rw [hvisits, walkVisits, if_pos rfl, @increment_depth off, hfree, if_neg (by decide), ok_bind,
      ih (.inr rfl)]
    rfl

theorem looping_never_ends : ¬∃ (order : HashOrder) (calls : Nat),
    ensureExifOrientation order false calls (fun _ => none) loopingExif 6 ≠
      .error .unfinished := by
  rintro ⟨order, calls, h⟩
  have hnone : orientationEntries loopingTiff .little loopingIfd0.positions = [] := by
    decide +kernel
  let i : Insertion (fun _ => none) loopingExif 6 :=
    { pos := 2
      total := 54
      ifd0 := loopingIfd0
      found := by decide +kernel
      long := by decide
      within := by decide +kernel
      parsed := ⟨by decide +kernel, by decide +kernel, by decide +kernel, by decide +kernel⟩
      attempts := ⟨by decide, by simp, by simp, by decide +kernel⟩
      noEntry := hnone
      room := by decide }
  have hwalk : walkIfd false i.tiff i.ifd0.endian (i.ifd0.entriesEnd + 4) calls i.ifd0.off 0 [] =
      .error .unfinished := looping_walk (.inl rfl) calls 0 []
  rw [ensure_insertion order false calls i, insertOrientation_fault hwalk] at h
  exact h rfl

end Reminisce

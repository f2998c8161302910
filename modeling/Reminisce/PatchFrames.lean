import Reminisce.ExifSegments
import Reminisce.PatchTermination

namespace Reminisce

open ByteOrder Results OrderedWalks

variable {jpeg tiff : Bytes} {endian : Order} {e4 calls off depth orientation : Nat}
  {marks : List Nat} {readOrientation : Bytes → Option Nat} {order : HashOrder}

/-- The file is as it was, or differs within its first Exif APP1, or begins with another APP1. -/
inductive Frame (jpeg : Bytes) : Bytes → Prop
  | kept : Frame jpeg jpeg
  | within (pos total : Nat) (seg : Bytes) (found : findExifApp1 jpeg = .ok (some (pos, total)))
      (inside : pos + total ≤ jpeg.length)
      (size : seg.length = total ∨ seg.length = total + 12)
      (field : seg.take 4 = [0xff, 0xe1] ++ Order.big.encode 2 (seg.length - 2))
      (fits : seg.length - 2 < 2 ^ 16)
      (again : findExifApp1 (jpeg.take pos ++ seg ++ jpeg.drop (pos + total)) =
        .ok (some (pos, seg.length))) :
      Frame jpeg (jpeg.take pos ++ seg ++ jpeg.drop (pos + total))
  | injected (app1 : Bytes) (size : app1.length = 36)
      (field : app1.take 4 = [0xff, 0xe1] ++ Order.big.encode 2 34)
      (soi : jpeg.take 2 = [0xff, 0xd8]) : Frame jpeg (jpeg.take 2 ++ app1 ++ jpeg.drop 2)

theorem frame_withTiff (site : SpliceSite jpeg)
    (hlen : tiff.length = site.tiff.length ∨ tiff.length = site.tiff.length + 12)
    (hfits : tiff.length + 8 < 65536) : Frame jpeg (site.withTiff tiff) := by
  have hsize := length_exifApp1 tiff
  have htotal := site.length_tiff
  have hfield : (exifApp1 tiff).length - 2 = tiff.length + 8 := by omega
  refine .within site.pos site.total (exifApp1 tiff) site.found site.within (by omega) ?_
    (by omega) ?_
  · rw [hfield]
    rfl
  · rw [hsize]
    exact site.find_withTiff hfits

theorem insertion_room (i : Insertion readOrientation jpeg orientation) :
    i.tiff.length + 12 + 8 < 65536 := by
  have hroom := i.room
  have hlen := i.length_tiff
  omega

theorem frame_insertion (i : Insertion readOrientation jpeg orientation) (marks : List Nat) :
    Frame jpeg (i.out (patchedTiff order i.ifd0 marks orientation)) := by
  have hlen : (patchedTiff order i.ifd0 marks orientation).length = i.tiff.length + 12 :=
    length_patchedTiff
  have hroom := insertion_room i
  rw [insertion_out i hlen]
  exact frame_withTiff i.toSpliceSite (.inr hlen) (by omega)

theorem frame_rewrite (r : Rewrite readOrientation jpeg orientation) : Frame jpeg r.out := by
  have hfits := r.target_fits
  have htotal := r.length_tiff
  have htarget : r.target = r.pos + 10 + (r.entry + 8) := rfl
  have hencode := r.ifd0.endian.length_encode 2 orientation
  have hlen : (overwrite r.tiff (r.entry + 8) (r.ifd0.endian.encode 2 orientation)).length =
      r.tiff.length := length_overwrite (by omega)
  have hroom := r.length_lt
  rw [rewrite_out]
  exact frame_withTiff r.toSpliceSite (.inl hlen) (by omega)

theorem frame_injected (h : StartsWithSoi jpeg) : Frame jpeg (injected jpeg orientation) := by
  obtain ⟨hlen, hff, hd8⟩ := h
  refine .injected (minimalApp1 orientation) ?_ rfl ?_
  · rfl
  · match jpeg, hff, hd8 with
    | a :: b :: rest, hff, hd8 =>
      cases Option.some.inj hff
      cases Option.some.inj hd8
      rfl

theorem frame_of_ensure {checks : Bool} {out : Bytes}
    (h : ensureExifOrientation order checks calls readOrientation jpeg orientation = .ok out) :
    Frame jpeg out := by
  rcases branch readOrientation jpeg orientation with hkept | ⟨attempts, soi, none⟩ | r | i
  · rw [hkept] at h
    cases Except.ok.inj h
    exact .kept
  · rw [ensure_injected order checks calls attempts soi none] at h
    cases Except.ok.inj h
    exact frame_injected soi
  · rw [ensure_rewrite order checks calls r] at h
    cases Except.ok.inj h
    exact frame_rewrite r
  · rcases @ensure_insertion_of_walk jpeg calls orientation checks readOrientation order i with
      ⟨marks, -, hok⟩ | ⟨-, hok⟩ | ⟨fault, -, hfault⟩
    · cases Except.ok.inj (hok.symm.trans h)
      exact frame_insertion i marks
    · cases Except.ok.inj (hok.symm.trans h)
      exact .kept
    · simp [hfault] at h

theorem never_outOfBounds (order : HashOrder) (checks : Bool) (calls : Nat) :
    ensureExifOrientation order checks calls readOrientation jpeg orientation ≠
      .error .outOfBounds := by
  intro h
  rcases branch readOrientation jpeg orientation with hkept | ⟨attempts, soi, none⟩ | r | i
  · simp [hkept] at h
  · simp [ensure_injected order checks calls attempts soi none] at h
  · simp [ensure_rewrite order checks calls r] at h
  · rcases @ensure_insertion_of_walk jpeg calls orientation checks readOrientation order i with
      ⟨marks, -, hok⟩ | ⟨-, hok⟩ | ⟨fault, hwalk, hfault⟩
    · simp [hok] at h
    · simp [hok] at h
    · cases Except.error.inj (hfault.symm.trans h)
      rcases walkIfd_fault hwalk with hother | ⟨-, hother⟩ <;> simp at hother

theorem increment_relax {bits n m : Nat} (h : increment true bits n = .ok m) :
    increment false bits n = .ok m := by
  unfold increment at h ⊢
  split at h
  next hfits => rw [if_pos hfits, h]
  next => simp at h

/-- A walk that no check stops is the walk without checks. -/
theorem walkIfd_relax {r : Option (List Nat)}
    (h : walkIfd true tiff endian e4 calls off depth marks = .ok r) :
    walkIfd false tiff endian e4 calls off depth marks = .ok r := by
  induction calls generalizing off depth marks r with
  | zero => simp [walkIfd] at h
  | succ calls ih =>
    have hvisits : ∀ (visits : List (Option Visit)) (marks : List Nat),
        walkVisits true (walkIfd true tiff endian e4 calls) depth visits marks = .ok r →
        walkVisits false (walkIfd false tiff endian e4 calls) depth visits marks = .ok r := by
      intro visits
      induction visits with
      | nil => exact fun _ h => h
      | cons visit visits ihvisits =>
        intro marks h
        cases visit with
        | none => exact h
        | some visit =>
          rw [walkVisits] at h ⊢
          split at h
          next hfollowed =>
            obtain ⟨depth', hdepth, h⟩ := bind_ok h
            obtain ⟨called, hcalled, h⟩ := bind_ok h
            rw [if_pos hfollowed, increment_relax hdepth, ok_bind, ih hcalled, ok_bind]
            cases called with
            | none => exact h
            | some marks' => exact ihvisits marks' h
          next hleft =>
            rw [if_neg hleft]
            exact ihvisits _ h
    rw [walkIfd] at h ⊢
    split at h
    next => exact h
    next n hcount => exact hvisits _ marks h

/-- No table at the last depth calls another. -/
def Insertion.Shallow (i : Insertion readOrientation jpeg orientation) : Prop :=
  i.tables.Unblocked (overflows true) (i.ifd0.off, 0)

theorem checked_of_unchecked (i : Insertion readOrientation jpeg orientation) (hshallow : i.Shallow)
    {out : Bytes}
    (h : ensureExifOrientation order false calls readOrientation jpeg orientation = .ok out) :
    ensureExifOrientation order true calls readOrientation jpeg orientation = .ok out := by
  obtain ⟨r, hr⟩ := walk_of_ensure i h
  have hchecked : i.tables.walk (overflows true) calls (i.ifd0.off, 0) = .ok r :=
    System.walk_unblocked hshallow hr
  have hthrough := @walkIfd_through i.tiff i.ifd0.endian (i.ifd0.entriesEnd + 4) true calls
    i.ifd0.off 0 []
  cases hwalk : walkIfd true i.tiff i.ifd0.endian (i.ifd0.entriesEnd + 4) calls i.ifd0.off 0 [] with
  | error fault =>
    rw [hwalk] at hthrough
    cases fault <;> exact absurd (hthrough.trans hchecked) (by simp [walkedThrough])
  | ok walked =>
    have hrelaxed := walkIfd_relax hwalk
    rw [ensure_insertion] at h ⊢
    cases walked with
    | none =>
      rw [insertOrientation_unmoved hrelaxed] at h
      rw [insertOrientation_unmoved hwalk, h]
    | some marks =>
      rw [insertOrientation_moved hrelaxed] at h
      rw [insertOrientation_moved hwalk, h]

/-- The patcher indexes nothing out of bounds, and where it returns, it returns a file in the
frame and no overflow check would have stopped it. -/
def PatchesInFrame (readOrientation : Bytes → Option Nat) (jpeg : Bytes) (orientation : Nat) :
    Prop :=
  (∀ order checks calls, ensureExifOrientation order checks calls readOrientation jpeg orientation ≠
    .error .outOfBounds) ∧
  ∀ order calls out,
    ensureExifOrientation order false calls readOrientation jpeg orientation = .ok out →
      Frame jpeg out ∧
      ensureExifOrientation order true calls readOrientation jpeg orientation = .ok out

theorem patches_in_frame_iff (readOrientation : Bytes → Option Nat) (jpeg : Bytes)
    (orientation : Nat) : PatchesInFrame readOrientation jpeg orientation ↔
      ∀ i : Insertion readOrientation jpeg orientation, i.Loopless → i.Shallow := by
  constructor
  · rintro ⟨-, hreturned⟩ i hloopless
    have hfree : i.tables.Unblocked (overflows false) (i.ifd0.off, 0) := fun _ _ _ _ => rfl
    obtain ⟨calls, r, hr⟩ := System.walk_returns (reached_finite _) hfree hloopless
    let order : HashOrder := ⟨id, fun marks => .refl marks⟩
    obtain ⟨out, hout⟩ := @ensure_of_walk jpeg calls orientation false readOrientation order i r hr
    obtain ⟨r', hr'⟩ := walk_of_ensure i (hreturned order calls out hout).2
    exact (System.walk_meets hr').1
  · intro hshallow
    refine ⟨never_outOfBounds, fun order calls out h => ⟨frame_of_ensure h, ?_⟩⟩
    rcases branch readOrientation jpeg orientation with hkept | ⟨attempts, soi, none⟩ | r | i
    · rw [← h, hkept, hkept]
    · rw [← h, ensure_injected order true calls attempts soi none,
        ensure_injected order false calls attempts soi none]
    · rw [← h, ensure_rewrite order true calls r, ensure_rewrite order false calls r]
    · obtain ⟨r, hr⟩ := walk_of_ensure i h
      exact checked_of_unchecked i (hshallow i (System.walk_meets hr).2) h

/-- A table with one entry, which points to an Exif IFD. -/
def exifIfdTable (target : Nat) : Bytes :=
  [0x01, 0x00, 0x69, 0x87, 0x04, 0x00, 0x01, 0x00, 0x00, 0x00] ++ toLe 4 target ++ [0, 0, 0, 0]

/-- Where the tables of `nestedTiff` stand, and what they point to. -/
def nestedAt (k : Nat) : Nat := 8 + 18 * k

def nestedTarget (k : Nat) : Nat := if k < 256 then nestedAt (k + 1) else 0

def tiffHeader : Bytes := [0x49, 0x49, 0x2a, 0x00, 0x08, 0x00, 0x00, 0x00]

/-- Tables that are each the Exif IFD of the one before. -/
def nestedTiff : Bytes :=
  tiffHeader ++
    (List.range 257).flatMap fun k => exifIfdTable (nestedTarget k)

def nestedExif : Bytes := [0xff, 0xd8] ++ exifApp1 nestedTiff ++ [0xff, 0xda]

theorem length_nestedTiff : nestedTiff.length = 4634 := by
  rw [nestedTiff, List.length_append,
    @length_blocks 18 (fun k => exifIfdTable (nestedTarget k)) 257 (fun _ _ => rfl)]
  rfl

theorem drop_nestedTiff {k : Nat} (hk : k < 257) :
    ∃ rest, nestedTiff.drop (nestedAt k) = exifIfdTable (nestedTarget k) ++ rest := by
  obtain ⟨rest, hrest⟩ := @drop_blocks 18 (fun k => exifIfdTable (nestedTarget k)) k 257
    (fun _ _ => rfl) hk
  have hheader : tiffHeader.length = 8 := rfl
  refine ⟨rest, ?_⟩
  rw [nestedTiff, nestedAt, ← List.drop_drop, List.drop_left' hheader, hrest]

theorem nestedTarget_le (k : Nat) : nestedTarget k ≤ 4616 := by
  rw [nestedTarget]
  split
  next hk =>
    rw [nestedAt]
    omega
  next => exact Nat.zero_le _

theorem exifIfdTable_fields {rest : Bytes} {target : Nat}
    (h : tiff.drop off = exifIfdTable target ++ rest) (hlen : off + 18 ≤ tiff.length)
    (htarget : target < 256 ^ 4) : tableCount tiff .little off = some 1 ∧
      readEntry tiff .little (off + 2) = some ⟨exifSubIfdTag, 4, 1, target⟩ ∧
      numberAt tiff .little 4 (off + 14) = 0 := by
  have hnumber : ∀ field width data,
      ((exifIfdTable target ++ rest).drop field).take width = data →
        numberAt tiff .little width (off + field) = Order.little.decode data := by
    intro field width data hdata
    rw [numberAt, ← List.drop_drop, h, hdata]
  have hone : numberAt tiff .little 2 off = 1 := hnumber 0 2 [0x01, 0x00] rfl
  have htag : numberAt tiff .little 2 (off + 2) = exifSubIfdTag := hnumber 2 2 [0x69, 0x87] rfl
  have htyp : numberAt tiff .little 2 (off + 2 + 2) = 4 := hnumber 4 2 [0x04, 0x00] rfl
  have hcount : numberAt tiff .little 4 (off + 2 + 4) = 1 :=
    hnumber 6 4 [0x01, 0x00, 0x00, 0x00] rfl
  have hvalue : numberAt tiff .little 4 (off + 2 + 8) = target :=
    (hnumber 10 4 (toLe 4 target) rfl).trans (ofLe_toLe htarget)
  refine ⟨tableCount_some.mpr ⟨hone, by decide, by decide, hlen⟩, ?_,
    hnumber 14 4 [0x00, 0x00, 0x00, 0x00] rfl⟩
  rw [readEntry_eq (by omega), htag, htyp, hcount, hvalue]

/-- The one call of a table in the chain. -/
theorem nested_calls {k depth : Nat} (hk : k < 257) :
    (tables nestedTiff .little 26).calls (nestedAt k, depth) =
        (if k < 256 then [(nestedAt (k + 1), deeper depth)] else []) ∧
      (tables nestedTiff .little 26).fine (nestedAt k, depth) = true := by
  have hlen := length_nestedTiff
  have hend : nestedAt k + 18 ≤ 4634 := by
    rw [nestedAt]
    omega
  have htarget := nestedTarget_le k
  obtain ⟨rest, hrest⟩ := drop_nestedTiff hk
  obtain ⟨hcount, hread, hnext⟩ := exifIfdTable_fields hrest (by omega) (by omega)
  have hchain : visitNext nestedTiff .little 26 depth (nestedAt k + 2 + 1 * 12) =
      some ⟨nestedAt k + 14, 0, false, false⟩ := visitNext_zero (by omega) hnext
  have hvisit : visitEntry nestedTiff .little 26 depth (nestedAt k + 2) =
      some ⟨nestedAt k + 2 + 8, nestedTarget k, decide (k < 256), decide (k < 256)⟩ := by
    have hle := nestedTarget_le k
    have hmoved : 26 ≤ nestedTarget k ↔ k < 256 := by
      rw [nestedTarget]
      split
      next hlt =>
        rw [nestedAt]
        omega
      next hge => omega
    simp [visitEntry, hread, tiffValueSize, IsSubIfd, hlen, hmoved]
    omega
  have hvisits : fieldVisits nestedTiff .little 26 (nestedAt k, depth) =
      [some ⟨nestedAt k + 2 + 8, nestedTarget k, decide (k < 256), decide (k < 256)⟩,
        some ⟨nestedAt k + 14, 0, false, false⟩] := by
    simp [fieldVisits, hcount, tableVisits, entryPositions, hvisit, hchain]
  rw [tables]
  dsimp only
  rw [hvisits]
  refine ⟨?_, rfl⟩
  simp only [tablesCalled, decide_eq_true_eq]
  split
  next hlt => rw [nestedTarget, if_pos hlt, if_neg (by decide)]
  next => rfl

theorem nested_opens {k depth : Nat} {table : Nat × Nat} (hk : k < 257) :
    (tables nestedTiff .little 26).Opens (nestedAt k, depth) table ↔
      k < 256 ∧ table = (nestedAt (k + 1), deeper depth) := by
  obtain ⟨hcalls, -⟩ := @nested_calls k depth hk
  constructor
  · rintro ⟨before, after, hsplit, -⟩
    rw [hcalls] at hsplit
    split at hsplit
    next hlt =>
      cases before with
      | nil => exact ⟨hlt, (List.cons.inj hsplit).1.symm⟩
      | cons _ before =>
        obtain ⟨-, hnil⟩ := List.cons.inj hsplit
        simp at hnil
    next => simp at hsplit
  · rintro ⟨hlt, rfl⟩
    exact ⟨[], [], by rw [hcalls, if_pos hlt]; rfl, by simp⟩

/-- On the way from IFD0, the calls go from table to table. -/
theorem nested_reached {table : Nat × Nat}
    (h : Relation.ReflTransGen (tables nestedTiff .little 26).Opens (nestedAt 0, 0) table) :
    ∃ k < 257, table.1 = nestedAt k := by
  induction h with
  | refl => exact ⟨0, by decide, rfl⟩
  | @tail table called _ ho ih =>
    obtain ⟨off, depth⟩ := table
    obtain ⟨k, hk, hoff⟩ := ih
    cases hoff
    obtain ⟨hlt, rfl⟩ := (nested_opens hk).mp ho
    exact ⟨k + 1, by omega, rfl⟩

theorem nested_increases {table called : Nat × Nat}
    (h : Relation.ReflTransGen (tables nestedTiff .little 26).Opens (nestedAt 0, 0) table)
    (hc : Relation.TransGen (tables nestedTiff .little 26).Opens table called) :
    table.1 < called.1 := by
  have hstep : ∀ {x y}, Relation.ReflTransGen (tables nestedTiff .little 26).Opens (nestedAt 0, 0) x →
      (tables nestedTiff .little 26).Opens x y → x.1 < y.1 := by
    rintro ⟨off, depth⟩ y hx ho
    obtain ⟨k, hk, hoff⟩ := nested_reached hx
    cases hoff
    obtain ⟨-, rfl⟩ := (nested_opens hk).mp ho
    change 8 + 18 * k < 8 + 18 * (k + 1)
    omega
  induction hc with
  | single ho => exact hstep h ho
  | tail hpath ho ih => exact Nat.lt_trans ih (hstep (h.trans hpath.to_reflTransGen) ho)

/-- The chain is as deep as the depth counts. -/
theorem nested_depth {k : Nat} (hk : k < 256) :
    Relation.ReflTransGen (tables nestedTiff .little 26).Opens (nestedAt 0, 0) (nestedAt k, k) := by
  induction k with
  | zero => exact .refl
  | succ k ih =>
    have hdeeper : deeper k = k + 1 := if_pos (by omega)
    refine (ih (by omega)).tail ((nested_opens (by omega)).mpr ⟨by omega, ?_⟩)
    rw [hdeeper]

def nestedIfd0 : Ifd0 nestedTiff :=
  .single .little (by rw [length_nestedTiff]; decide)

theorem hasSos_append {before after : Bytes} (h : hasSos after = true) :
    hasSos (before ++ after) = true := by
  induction before with
  | nil => exact h
  | cons a before ih =>
    rw [List.cons_append]
    cases hrest : before ++ after with
    | nil => simp [hrest, hasSos] at ih
    | cons b rest =>
      rw [hrest] at ih
      rw [hasSos, ih, Bool.or_true]

theorem nested_not_in_frame : ¬PatchesInFrame (fun _ => none) nestedExif 6 := by
  have hlen := length_nestedTiff
  have htotal := length_exifApp1 nestedTiff
  let before : Bytes := [0xff, 0xd8]
  have hsoi : StartsWithSoi nestedExif := by
    refine ⟨?_, rfl, rfl⟩
    rw [nestedExif, List.length_append, List.length_append, htotal]
    omega
  have hfound : findExifApp1 nestedExif = .ok (some (2, 4644)) := by
    refine findExifApp1_some.mpr ⟨hsoi, .here 2, ?_⟩
    have happ1 := @found_exifApp1 [0xff, 0xd8] [0xff, 0xda] nestedTiff 2 rfl (by omega)
    rw [hlen] at happ1
    exact happ1
  have happ1 : app1Of nestedExif 2 4644 = exifApp1 nestedTiff := by
    have hdrop : nestedExif.drop 2 = exifApp1 nestedTiff ++ [0xff, 0xda] := rfl
    rw [app1Of, hdrop, List.take_left' (by omega)]
  have htiff : tiffOf nestedExif 2 4644 = nestedTiff := by
    rw [tiffOf, happ1, exifApp1]
    rfl
  have hifd0 : ∃ ifd0 : Ifd0 (tiffOf nestedExif 2 4644), ifd0.ReadFrom ∧ ifd0.endian = .little ∧
      ifd0.off = 8 ∧ ifd0.count = 1 ∧
      orientationEntries (tiffOf nestedExif 2 4644) ifd0.endian ifd0.positions = [] := by
    rw [htiff]
    exact ⟨nestedIfd0, ⟨by decide +kernel, by decide +kernel, by decide +kernel, by decide +kernel⟩,
      rfl, rfl, rfl, by decide +kernel⟩
  obtain ⟨ifd0, hread, hendian, hoff, hcount, hnone⟩ := hifd0
  have hwithin : 2 + 4644 ≤ nestedExif.length := by
    rw [nestedExif, List.length_append, List.length_append, htotal, hlen]
    decide
  have hsos : hasSos nestedExif = true := by
    rw [nestedExif]
    exact hasSos_append rfl
  let i : Insertion (fun _ => none) nestedExif 6 :=
    { pos := 2
      total := 4644
      ifd0 := ifd0
      found := hfound
      long := by decide
      within := hwithin
      parsed := hread
      attempts := ⟨by decide, by simp, by simp, hsos⟩
      noEntry := hnone
      room := by decide }
  have hend : i.ifd0.entriesEnd + 4 = 26 := by
    rw [Ifd0.entriesEnd, hoff, hcount]
  have htables : i.tables = tables nestedTiff .little 26 := by
    rw [Insertion.tables, hend, hendian]
    exact congrArg (fun tiff => tables tiff .little 26) htiff
  have hroot : (i.ifd0.off, 0) = (nestedAt 0, 0) := by rw [hoff]; rfl
  have hloopless : i.Loopless := by
    rw [Insertion.Loopless, htables, hroot]
    intro table hreach hloop
    exact Nat.lt_irrefl _ (nested_increases hreach hloop)
  intro h
  have hshallow := (patches_in_frame_iff _ _ _).mp h i hloopless
  rw [Insertion.Shallow, htables, hroot] at hshallow
  have hlast := hshallow (nestedAt 255, 255) (nestedAt 256, deeper 255) (nested_depth (by decide))
    ((nested_opens (by decide)).mpr ⟨by decide, rfl⟩)
  exact absurd hlast (by decide)

end Reminisce

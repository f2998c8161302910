import Reminisce.ExifSegments
import Reminisce.PatchTermination

namespace Reminisce

open ByteOrder Results

variable {jpeg tiff : Bytes} {endian : Order} {pos total orientation calls e : Nat}
  {readOrientation : Bytes → Option Nat} {order : HashOrder}

/-- The number in an entry: a SHORT, the first of two, or a LONG. -/
def entryNumber (tiff : Bytes) (endian : Order) (e : Nat) : Option Nat :=
  let typ := numberAt tiff endian 2 (e + 2)
  let count := numberAt tiff endian 4 (e + 4)
  if typ = 3 ∧ (count = 1 ∨ count = 2) then some (numberAt tiff endian 2 (e + 8))
  else if typ = 4 ∧ count = 1 then some (numberAt tiff endian 4 (e + 8))
  else none

/-- The first Orientation entry of IFD0. -/
def tiffOrientation (tiff : Bytes) : Option Nat :=
  match parseIfd0 tiff with
  | .ok (some ifd0) =>
    (orientationEntries tiff ifd0.endian ifd0.positions).head?.bind (entryNumber tiff ifd0.endian)
  | _ => none

/-- What a TIFF reader reads in the first Exif APP1. -/
def readOrientationTag (jpeg : Bytes) : Option Nat :=
  match findExifApp1 jpeg with
  | .ok (some (pos, total)) => tiffOrientation (tiffOf jpeg pos total)
  | _ => none

theorem tiffOrientation_eq {ifd0 : Ifd0 tiff} (h : ifd0.ReadFrom) : tiffOrientation tiff =
    (orientationEntries tiff ifd0.endian ifd0.positions).head?.bind
      (entryNumber tiff ifd0.endian) := by
  rw [tiffOrientation, parseIfd0_some.mpr h]

theorem readOrientationTag_eq (h : findExifApp1 jpeg = .ok (some (pos, total))) :
    readOrientationTag jpeg = tiffOrientation (tiffOf jpeg pos total) := by
  rw [readOrientationTag, h]

theorem read_withTiff (site : SpliceSite jpeg) (hlen : tiff.length + 8 < 65536) :
    readOrientationTag (site.withTiff tiff) = tiffOrientation tiff := by
  rw [readOrientationTag_eq (site.find_withTiff hlen), site.tiffOf_withTiff]

theorem read_site (site : SpliceSite jpeg) : readOrientationTag jpeg =
    site.entries.head?.bind (entryNumber site.tiff site.ifd0.endian) := by
  rw [readOrientationTag_eq site.found, tiffOrientation_eq site.parsed]
  rfl

/-- The injected TIFF structure. -/
def minimalTiff (orientation : Nat) : Bytes := (minimalApp1 orientation).drop 10

theorem minimalApp1_eq (orientation : Nat) :
    minimalApp1 orientation = exifApp1 (minimalTiff orientation) := by
  have hsize : (minimalTiff orientation).length = 26 := rfl
  rw [exifApp1, hsize]
  rfl

theorem minimalTiff_read : ∀ orientation < 9,
    tiffOrientation (minimalTiff orientation) = some orientation := by
  decide +kernel

theorem read_injected (h : StartsWithSoi jpeg) (ho : orientation < 9) :
    readOrientationTag (injected jpeg orientation) = some orientation := by
  obtain ⟨hlen, hff, hd8⟩ := h
  have htwo : (jpeg.take 2).length = 2 := by
    rw [List.length_take]
    omega
  have hfront : ∀ i < 2, (injected jpeg orientation)[i]? = jpeg[i]? := by
    intro i hi
    rw [injected, List.append_assoc, List.getElem?_append_left (by omega), List.getElem?_take,
      if_pos hi]
  have hinjected : injected jpeg orientation =
      jpeg.take 2 ++ exifApp1 (minimalTiff orientation) ++ jpeg.drop 2 := by
    rw [injected, minimalApp1_eq]
  have hsize : (minimalTiff orientation).length = 26 := rfl
  have htotal := length_exifApp1 (minimalTiff orientation)
  have hsoi : StartsWithSoi (injected jpeg orientation) := by
    refine ⟨?_, (hfront 0 (by decide)).trans hff, (hfront 1 (by decide)).trans hd8⟩
    rw [hinjected, List.length_append, List.length_append]
    omega
  have hfound : findExifApp1 (injected jpeg orientation) = .ok (some (2, 36)) := by
    refine findExifApp1_some.mpr ⟨hsoi, .here 2, ?_⟩
    rw [hinjected]
    exact found_exifApp1 htwo (by omega)
  have htiff : tiffOf (injected jpeg orientation) 2 36 = minimalTiff orientation := by
    rw [tiffOf, app1Of, hinjected, List.append_assoc, List.drop_left' htwo,
      List.take_left' (by omega)]
    rfl
  rw [readOrientationTag_eq hfound, htiff, minimalTiff_read orientation ho]

/-- The tags stand before the value fields. -/
theorem orientationEntries_congr {tiff' : Bytes} {es : List Nat}
    (h : ∀ e ∈ es, numberAt tiff' endian 2 e = numberAt tiff endian 2 e) :
    orientationEntries tiff' endian es = orientationEntries tiff endian es :=
  List.filter_congr fun e he => by rw [h e he]

theorem positions_apart {ifd0 : Ifd0 tiff} {e e' : Nat} (he : e ∈ ifd0.positions)
    (he' : e' ∈ ifd0.positions) : e = e' ∨ e + 12 ≤ e' ∨ e' + 12 ≤ e := by
  obtain ⟨i, -, rfl⟩ := mem_entryPositions.mp he
  obtain ⟨j, -, rfl⟩ := mem_entryPositions.mp he'
  omega

section Rewrite

variable (r : Rewrite readOrientation jpeg orientation)

/-- The structure with the half-word rewritten. -/
def Rewrite.rewritten : Bytes :=
  overwrite r.tiff (r.entry + 8) (r.ifd0.endian.encode 2 orientation)

theorem Rewrite.entry_mem : r.entry ∈ r.ifd0.positions :=
  (List.mem_filter.mp (List.mem_of_getLast? r.last)).1

theorem Rewrite.entry_fits :
    r.entry + 8 + (r.ifd0.endian.encode 2 orientation).length ≤ r.tiff.length := by
  have hfits := r.ifd0.entry_within r.entry_mem
  rw [Order.length_encode]
  change r.entry + 8 + 2 ≤ (tiffOf jpeg r.pos r.total).length
  omega

theorem Rewrite.length_rewritten : r.rewritten.length = r.tiff.length :=
  length_overwrite r.entry_fits

/-- Away from the half-word nothing changes. -/
theorem Rewrite.numberAt_rewritten {width field : Nat}
    (h : field + width ≤ r.entry + 8 ∨ r.entry + 10 ≤ field) :
    numberAt r.rewritten endian width field = numberAt r.tiff endian width field := by
  refine numberAt_overwrite r.entry_fits ?_
  rw [Order.length_encode]
  exact h

/-- IFD0 as it is found again. -/
def Rewrite.ifd0' : Ifd0 r.rewritten where
  endian := r.ifd0.endian
  off := r.ifd0.off
  count := r.ifd0.count
  off_le := r.ifd0.off_le
  count_pos := r.ifd0.count_pos
  count_lt := r.ifd0.count_lt
  fits := r.length_rewritten ▸ r.ifd0.fits

theorem Rewrite.entry_behind : r.ifd0.off + 2 ≤ r.entry ∧ 8 ≤ r.ifd0.off :=
  ⟨(r.ifd0.entry_le r.entry_mem).1, r.ifd0.off_le⟩

theorem Rewrite.readFrom_rewritten : r.ifd0'.ReadFrom := by
  obtain ⟨horder, hmagic, hoffset, hentries⟩ := r.parsed
  obtain ⟨hbehind, hoff⟩ := r.entry_behind
  have htake : r.rewritten.take 2 = r.tiff.take 2 := by
    rw [Rewrite.rewritten, overwrite, List.append_assoc, List.take_append_of_le_length, List.take_take,
      Nat.min_eq_left (by omega)]
    have hfits := r.entry_fits
    rw [List.length_take]
    omega
  refine ⟨?_, ?_, ?_, ?_⟩
  · rw [htake]
    exact horder
  · rw [r.numberAt_rewritten (.inl (by omega))]
    exact hmagic
  · rw [r.numberAt_rewritten (.inl (by omega))]
    exact hoffset
  · have hcount : numberAt r.rewritten r.ifd0.endian 2 r.ifd0.off =
        numberAt r.tiff r.ifd0.endian 2 r.ifd0.off := r.numberAt_rewritten (.inl (by omega))
    exact hcount.trans hentries

theorem Rewrite.entries_rewritten :
    orientationEntries r.rewritten r.ifd0.endian r.ifd0.positions = r.entries := by
  refine orientationEntries_congr fun e he => r.numberAt_rewritten ?_
  rcases positions_apart he r.entry_mem with rfl | h | h <;> omega

/-- What the first entry says is read in the rewritten file. -/
theorem Rewrite.read_out : readOrientationTag r.out =
    r.entries.head?.bind (entryNumber r.rewritten r.ifd0.endian) := by
  have hroom := r.length_lt
  have hlen := r.length_rewritten
  rw [rewrite_out, ← Rewrite.rewritten, read_withTiff r.toSpliceSite (by omega),
    tiffOrientation_eq r.readFrom_rewritten, ← r.entries_rewritten]
  rfl

/-- The half-word already encodes the orientation. -/
def Rewrite.Same : Prop := numberAt r.tiff r.ifd0.endian 2 (r.entry + 8) = orientation

/-- The first entry is the one that is rewritten, and a single SHORT, one of two, or a small LONG
in the order that has its lower half-word first. -/
def Rewrite.Patchable : Prop :=
  r.entries.head? = some r.entry ∧
    let typ := numberAt r.tiff r.ifd0.endian 2 (r.entry + 2)
    let count := numberAt r.tiff r.ifd0.endian 4 (r.entry + 4)
    (typ = 3 ∧ (count = 1 ∨ count = 2) ∨
      typ = 4 ∧ count = 1 ∧ r.ifd0.endian = .little ∧
        numberAt r.tiff r.ifd0.endian 2 (r.entry + 10) = 0)

/-- An entry before the rewritten one already says so. -/
def Rewrite.ReadBefore : Prop :=
  r.entries.head? ≠ some r.entry ∧ readOrientationTag jpeg = some orientation

theorem Rewrite.value_rewritten :
    numberAt r.rewritten r.ifd0.endian 2 (r.entry + 8) = orientation := by
  have hrange := r.attempts.inRange
  have hfits := r.entry_fits
  rw [Order.length_encode] at hfits
  exact numberAt_overwritten hfits (by omega)

theorem Rewrite.out_eq_iff : r.out = jpeg ↔ r.Same := by
  have hfits := r.entry_fits
  rw [rewrite_out, ← Rewrite.rewritten]
  constructor
  · intro h
    have htiff := congrArg (fun jpeg => tiffOf jpeg r.pos r.total) h
    have hlen := r.length_tiff
    have hlen' := r.length_rewritten
    have hsize : r.total = r.rewritten.length + 10 := by omega
    simp only [hsize, r.toSpliceSite.tiffOf_withTiff] at htiff
    rw [← hsize] at htiff
    exact (congrArg (fun tiff => numberAt tiff r.ifd0.endian 2 (r.entry + 8)) htiff).symm.trans
      r.value_rewritten
  · intro h
    have hdata : r.ifd0.endian.encode 2 orientation = (r.tiff.drop (r.entry + 8)).take 2 := by
      have htwo : ((r.tiff.drop (r.entry + 8)).take 2).length = 2 := by
        rw [Order.length_encode] at hfits
        rw [List.length_take, List.length_drop]
        omega
      have hdecode := r.ifd0.endian.encode_decode ((r.tiff.drop (r.entry + 8)).take 2)
      rw [htwo] at hdecode
      rw [← hdecode]
      exact congrArg _ h.symm
    have hsame : r.rewritten = r.tiff := by
      have hlen := r.ifd0.endian.length_encode 2 orientation
      have hrest : (r.tiff.drop (r.entry + 8)).take 2 ++ r.tiff.drop (r.entry + 8 + 2) =
          r.tiff.drop (r.entry + 8) := by
        have hdrop : r.tiff.drop (r.entry + 8 + 2) = (r.tiff.drop (r.entry + 8)).drop 2 :=
          List.drop_drop.symm
        rw [hdrop, List.take_append_drop]
      rw [Rewrite.rewritten, overwrite, hlen, hdata, List.append_assoc, hrest,
        List.take_append_drop]
    rw [hsame]
    exact r.withTiff_self

/-- Another entry reads as before. -/
theorem Rewrite.other_rewritten {e : Nat} (he : e ∈ r.ifd0.positions) (hne : e ≠ r.entry) :
    entryNumber r.rewritten r.ifd0.endian e = entryNumber r.tiff r.ifd0.endian e := by
  have hout : ∀ field width, field + width ≤ 12 →
      numberAt r.rewritten r.ifd0.endian width (e + field) =
        numberAt r.tiff r.ifd0.endian width (e + field) := by
    intro field width hle
    refine r.numberAt_rewritten ?_
    rcases positions_apart he r.entry_mem with h | h | h
    · exact absurd h hne
    · exact .inl (by omega)
    · exact .inr (by omega)
  simp only [entryNumber, hout 2 2 (by decide), hout 4 4 (by decide), hout 8 2 (by decide),
    hout 8 4 (by decide)]

/-- The rewritten entry reads as the orientation if it is a single SHORT and so on. -/
theorem Rewrite.entry_rewritten : entryNumber r.rewritten r.ifd0.endian r.entry = some orientation ↔
    let typ := numberAt r.tiff r.ifd0.endian 2 (r.entry + 2)
    let count := numberAt r.tiff r.ifd0.endian 4 (r.entry + 4)
    (typ = 3 ∧ (count = 1 ∨ count = 2) ∨
      typ = 4 ∧ count = 1 ∧ r.ifd0.endian = .little ∧
        numberAt r.tiff r.ifd0.endian 2 (r.entry + 10) = 0) := by
  have hrange := r.attempts.inRange
  have hwithin := r.ifd0.entry_within r.entry_mem
  have hlen := r.length_rewritten
  have htyp : numberAt r.rewritten r.ifd0.endian 2 (r.entry + 2) =
      numberAt r.tiff r.ifd0.endian 2 (r.entry + 2) := r.numberAt_rewritten (.inl (by omega))
  have hcount : numberAt r.rewritten r.ifd0.endian 4 (r.entry + 4) =
      numberAt r.tiff r.ifd0.endian 4 (r.entry + 4) := r.numberAt_rewritten (.inl (by omega))
  have hupper : numberAt r.rewritten r.ifd0.endian 2 (r.entry + 10) =
      numberAt r.tiff r.ifd0.endian 2 (r.entry + 10) := r.numberAt_rewritten (.inr (by omega))
  have hvalue := r.value_rewritten
  have hfour := @numberAt_four r.rewritten r.ifd0.endian (r.entry + 8) (by
    rw [hlen]
    exact hwithin)
  simp only [entryNumber, htyp, hcount, hvalue]
  generalize numberAt r.tiff r.ifd0.endian 2 (r.entry + 2) = typ
  generalize numberAt r.tiff r.ifd0.endian 4 (r.entry + 4) = count
  by_cases hshort : typ = 3 ∧ (count = 1 ∨ count = 2)
  · rw [if_pos hshort]
    exact iff_of_true rfl (.inl hshort)
  · rw [if_neg hshort, or_iff_right hshort]
    by_cases hlong : typ = 4 ∧ count = 1
    · rw [if_pos hlong, hfour, Option.some.injEq]
      cases hendian : r.ifd0.endian with
      | little =>
        rw [hendian] at hvalue hupper
        dsimp only
        rw [hvalue, hupper]
        simp only [hlong, true_and]
        omega
      | big =>
        rw [hendian] at hvalue
        dsimp only
        rw [hvalue]
        simp only [reduceCtorEq, false_and, and_false, iff_false]
        omega
    · rw [if_neg hlong]
      refine iff_of_false (by simp) ?_
      rintro ⟨htyp, hcount, -⟩
      exact hlong ⟨htyp, hcount⟩

theorem Rewrite.set_iff : (r.out = jpeg ∨ readOrientationTag r.out = some orientation) ↔
    r.Same ∨ r.Patchable ∨ r.ReadBefore := by
  rw [r.out_eq_iff, r.read_out]
  refine or_congr_right ?_
  cases hhead : r.entries.head? with
  | none =>
    have hmem := List.mem_of_getLast? r.last
    rw [List.head?_eq_none_iff.mp hhead] at hmem
    simp at hmem
  | some e =>
    rw [Option.bind_some, Rewrite.Patchable, Rewrite.ReadBefore, read_site, hhead, Option.bind_some]
    by_cases he : e = r.entry
    · subst he
      rw [r.entry_rewritten]
      simp
    · have hmem : e ∈ r.ifd0.positions :=
        (List.mem_filter.mp (List.mem_of_head? hhead)).1
      rw [r.other_rewritten hmem he]
      simp [he]

end Rewrite

section Insertion

variable (ifd0 : Ifd0 tiff) (marks : List Nat)

/-- The new structure up to IFD0. -/
theorem take_patchedTiff : (patchedTiff order ifd0 marks orientation).take ifd0.off =
    tiff.take ifd0.off := by
  have hfits := ifd0.fits
  have hlen : (tiff.take ifd0.off).length = ifd0.off := by
    rw [List.length_take]
    omega
  simp only [patchedTiff, List.append_assoc]
  exact List.take_left' hlen

/-- The new structure from the entries of IFD0 on. -/
theorem drop_patchedTiff : ∃ rest, (patchedTiff order ifd0 marks orientation).drop (ifd0.off + 2) =
    (ifd0.positions.flatMap (movedEntry tiff ifd0.endian marks) ++
      orientationEntry ifd0.endian orientation) ++ rest := by
  have hfits := ifd0.fits
  have hlen : (tiff.take ifd0.off ++ ifd0.endian.encode 2 (ifd0.count + 1)).length =
      ifd0.off + 2 := by
    rw [List.length_append, List.length_take, Order.length_encode]
    omega
  refine ⟨ifd0.endian.encode 4 (movedNext ifd0 marks) ++
    movedRest tiff ifd0.endian (ifd0.entriesEnd + 4) (order.iterate marks)
      (tiff.drop (ifd0.entriesEnd + 4)), ?_⟩
  rw [patchedTiff, List.append_assoc, List.append_assoc, List.append_assoc, List.drop_left' hlen,
    List.append_assoc]

theorem count_patchedTiff :
    numberAt (patchedTiff order ifd0 marks orientation) ifd0.endian 2 ifd0.off = ifd0.count + 1 := by
  have hfits := ifd0.fits
  have hlt := ifd0.count_lt
  simp only [patchedTiff, List.append_assoc]
  rw [← List.append_assoc]
  exact numberAt_append (by rw [List.length_take]; omega) (by omega)

theorem drop_patchedEntry {i : Nat} (hi : i < ifd0.count) :
    ∃ rest, (patchedTiff order ifd0 marks orientation).drop (ifd0.off + 2 + i * 12) =
      movedEntry tiff ifd0.endian marks (ifd0.off + 2 + i * 12) ++ rest := by
  obtain ⟨rest, hrest⟩ := @drop_patchedTiff tiff orientation order ifd0 marks
  obtain ⟨rest', hrest'⟩ := drop_blocks (fun _ hk => length_movedEntryAt ifd0 marks hk) hi
  have hentries := length_movedEntries ifd0 marks
  rw [movedEntries_eq] at hrest hentries
  rw [Nat.mul_comm 12 i] at hrest'
  refine ⟨rest' ++ orientationEntry ifd0.endian orientation ++ rest, ?_⟩
  rw [← List.drop_drop, hrest, List.append_assoc,
    List.drop_append_of_le_length (by omega), hrest']
  simp only [List.append_assoc]

theorem take_movedEntry {e : Nat} (h : e + 12 ≤ tiff.length) :
    (movedEntry tiff endian marks e).take 8 = (tiff.drop e).take 8 := by
  have hlen : ((tiff.drop e).take 8).length = 8 := by
    rw [List.length_take, List.length_drop]
    omega
  rw [movedEntry]
  split
  next => exact List.take_left' hlen
  next =>
    rw [List.take_take]
    rfl

/-- The front of an entry is not moved. -/
theorem entry_patchedTiff {i field width : Nat} (hi : i < ifd0.count) (hfield : field + width ≤ 8) :
    numberAt (patchedTiff order ifd0 marks orientation) ifd0.endian width
        (ifd0.off + 2 + i * 12 + field) =
      numberAt tiff ifd0.endian width (ifd0.off + 2 + i * 12 + field) := by
  obtain ⟨rest, hrest⟩ := @drop_patchedEntry tiff orientation order ifd0 marks i hi
  have hwithin : ifd0.off + 2 + i * 12 + 12 ≤ tiff.length :=
    ifd0.entry_within (mem_entryPositions.mpr ⟨i, hi, rfl⟩)
  have hfront := @take_movedEntry tiff ifd0.endian marks _ hwithin
  have hdrop : ∀ b : Bytes, b.drop (ifd0.off + 2 + i * 12 + field) =
      (b.drop (ifd0.off + 2 + i * 12)).drop field := fun b => List.drop_drop.symm
  rw [numberAt, numberAt, hdrop, hdrop, hrest]
  refine congrArg ifd0.endian.decode ?_
  have hlen : (movedEntry tiff ifd0.endian marks (ifd0.off + 2 + i * 12)).length = 12 :=
    length_movedEntry hwithin
  have hwindow : ∀ b : Bytes, (b.drop field).take width = ((b.take 8).drop field).take width := by
    intro b
    rw [List.drop_take, List.take_take, Nat.min_eq_left (by omega)]
  rw [hwindow, hwindow (tiff.drop _), List.take_append_of_le_length (by omega), hfront]

/-- The inserted entry. -/
theorem inserted_patchedTiff {field width : Nat} (hfield : field + width ≤ 12) :
    numberAt (patchedTiff order ifd0 marks orientation) ifd0.endian width
        (ifd0.off + 2 + ifd0.count * 12 + field) =
      ifd0.endian.decode (((orientationEntry ifd0.endian orientation).drop field).take width) := by
  obtain ⟨rest, hrest⟩ := @drop_patchedTiff tiff orientation order ifd0 marks
  have hentries := length_movedEntries ifd0 marks
  refine @numberAt_of_drop _ _ _ _ _ rest _ ?_ (by rw [length_orientationEntry]; omega)
  rw [← List.drop_drop, hrest, List.append_assoc, List.drop_left' (by omega)]

variable {ifd0} {marks}

/-- IFD0 as it is found again. -/
def Ifd0.grown (ifd0 : Ifd0 tiff) (h : ifd0.count + 1 < 0xffff) (order : HashOrder)
    (marks : List Nat) (orientation : Nat) : Ifd0 (patchedTiff order ifd0 marks orientation) where
  endian := ifd0.endian
  off := ifd0.off
  count := ifd0.count + 1
  off_le := ifd0.off_le
  count_pos := Nat.succ_pos _
  count_lt := h
  fits := by
    have hfits := ifd0.fits
    rw [length_patchedTiff]
    omega

theorem grown_readFrom (hread : ifd0.ReadFrom) (h : ifd0.count + 1 < 0xffff) :
    (ifd0.grown h order marks orientation).ReadFrom := by
  obtain ⟨horder, hmagic, hoffset, -⟩ := hread
  have hoff := ifd0.off_le
  have htake := @take_patchedTiff tiff orientation order ifd0 marks
  have htwo : (patchedTiff order ifd0 marks orientation).take 2 = tiff.take 2 := by
    have hmin : ∀ b : Bytes, b.take 2 = (b.take ifd0.off).take 2 := by
      intro b
      rw [List.take_take, Nat.min_eq_left (by omega)]
    rw [hmin, htake, ← hmin]
  refine ⟨?_, ?_, ?_, count_patchedTiff ifd0 marks⟩
  · rw [htwo]
    exact horder
  · exact (numberAt_of_take htake (by omega)).trans hmagic
  · exact (numberAt_of_take htake (by omega)).trans hoffset

/-- The inserted entry is the only Orientation entry. -/
theorem grown_entries (hnone : orientationEntries tiff ifd0.endian ifd0.positions = []) :
    orientationEntries (patchedTiff order ifd0 marks orientation) ifd0.endian
      (entryPositions ifd0.off (ifd0.count + 1)) = [ifd0.entriesEnd] := by
  have hpositions : entryPositions ifd0.off (ifd0.count + 1) =
      ifd0.positions ++ [ifd0.entriesEnd] := by
    rw [entryPositions, List.range_succ, List.map_append]
    rfl
  have hbefore : orientationEntries (patchedTiff order ifd0 marks orientation) ifd0.endian
      ifd0.positions = [] := by
    rw [← hnone]
    refine orientationEntries_congr fun e he => ?_
    obtain ⟨i, hi, rfl⟩ := mem_entryPositions.mp he
    exact @entry_patchedTiff tiff orientation order ifd0 marks i 0 2 hi (by decide)
  have htag : numberAt (patchedTiff order ifd0 marks orientation) ifd0.endian 2 ifd0.entriesEnd =
      orientationTag := by
    refine (@inserted_patchedTiff tiff orientation order ifd0 marks 0 2 (by decide)).trans ?_
    cases ifd0.endian <;> rfl
  rw [hpositions, orientationEntries, List.filter_append, ← orientationEntries, hbefore,
    List.nil_append]
  exact List.filter_cons_of_pos (by simpa using htag)

theorem inserted_number (ho : orientation < 65536) :
    entryNumber (patchedTiff order ifd0 marks orientation) ifd0.endian ifd0.entriesEnd =
      some orientation := by
  have htyp : numberAt (patchedTiff order ifd0 marks orientation) ifd0.endian 2
      (ifd0.entriesEnd + 2) = 3 := by
    refine (@inserted_patchedTiff tiff orientation order ifd0 marks 2 2 (by decide)).trans ?_
    cases ifd0.endian <;> rfl
  have hcount : numberAt (patchedTiff order ifd0 marks orientation) ifd0.endian 4
      (ifd0.entriesEnd + 4) = 1 := by
    refine (@inserted_patchedTiff tiff orientation order ifd0 marks 4 4 (by decide)).trans ?_
    cases ifd0.endian <;> rfl
  have hvalue : numberAt (patchedTiff order ifd0 marks orientation) ifd0.endian 2
      (ifd0.entriesEnd + 8) = orientation := by
    refine (@inserted_patchedTiff tiff orientation order ifd0 marks 8 2 (by decide)).trans ?_
    have hhalf : ((orientationEntry ifd0.endian orientation).drop 8).take 2 =
        ifd0.endian.encode 2 orientation := by
      cases ifd0.endian <;> rfl
    rw [hhalf]
    exact Order.decode_encode (by omega)
  simp only [entryNumber, htyp, hcount, hvalue]
  rfl

theorem read_inserted (i : Insertion readOrientation jpeg orientation) (marks : List Nat) :
    readOrientationTag (i.out (patchedTiff order i.ifd0 marks orientation)) = some orientation := by
  have hlen : (patchedTiff order i.ifd0 marks orientation).length = i.tiff.length + 12 :=
    length_patchedTiff
  have hroom := i.room
  have htotal := i.length_tiff
  have hrange := i.attempts.inRange
  have hgrown : i.ifd0.count + 1 < 0xffff := by
    have hfits : i.ifd0.off + 2 + i.ifd0.count * 12 + 4 ≤ i.tiff.length := i.ifd0.fits
    omega
  rw [insertion_out i hlen, read_withTiff i.toSpliceSite (by omega),
    tiffOrientation_eq (grown_readFrom i.parsed hgrown)]
  have hentries := @grown_entries _ orientation order i.ifd0 marks i.noEntry
  have hnumber := @inserted_number _ orientation order i.ifd0 marks (by omega)
  change (orientationEntries _ i.ifd0.endian (entryPositions i.ifd0.off (i.ifd0.count + 1))).head?.bind
    (entryNumber _ i.ifd0.endian) = some orientation
  rw [hentries]
  exact hnumber

end Insertion

/-- Whatever is returned, the file is as it was or says the orientation. -/
def SetsOrientation (readOrientation : Bytes → Option Nat) (jpeg : Bytes) (orientation : Nat) :
    Prop :=
  ∀ order checks calls out,
    ensureExifOrientation order checks calls readOrientation jpeg orientation = .ok out →
      out = jpeg ∨ readOrientationTag out = some orientation

theorem sets_orientation_iff (readOrientation : Bytes → Option Nat) (jpeg : Bytes)
    (orientation : Nat) : SetsOrientation readOrientation jpeg orientation ↔
      ∀ r : Rewrite readOrientation jpeg orientation, r.Same ∨ r.Patchable ∨ r.ReadBefore := by
  constructor
  · intro h r
    let order : HashOrder := ⟨id, fun marks => .refl marks⟩
    exact r.set_iff.mp (h order false 0 r.out (ensure_rewrite order false 0 r))
  · intro hall order checks calls out h
    rcases branch readOrientation jpeg orientation with hkept | ⟨attempts, soi, none⟩ | r | i
    · rw [hkept] at h
      exact .inl (Except.ok.inj h).symm
    · rw [ensure_injected order checks calls attempts soi none] at h
      have hrange := attempts.inRange
      cases Except.ok.inj h
      exact .inr (read_injected soi (by omega))
    · rw [ensure_rewrite order checks calls r] at h
      cases Except.ok.inj h
      exact r.set_iff.mpr (hall r)
    · rcases @ensure_insertion_of_walk jpeg calls orientation checks readOrientation order i with
        ⟨marks, -, hok⟩ | ⟨-, hok⟩ | ⟨fault, -, hfault⟩
      · cases Except.ok.inj (hok.symm.trans h)
        exact .inr (read_inserted i marks)
      · exact .inl (Except.ok.inj (h.symm.trans hok))
      · simp [hfault] at h

/-- A file whose Orientation is a LONG, its higher half-word first. -/
def longOrientation (high low : UInt8) : Bytes :=
  [0xff, 0xd8] ++ exifApp1 [0x4d, 0x4d, 0x00, 0x2a, 0x00, 0x00, 0x00, 0x08, 0x00, 0x01,
    0x01, 0x12, 0x00, 0x04, 0x00, 0x00, 0x00, 0x01, 0x00, high, 0x00, low,
    0x00, 0x00, 0x00, 0x00] ++ [0xff, 0xda]

theorem long_orientation_not_set :
    ¬SetsOrientation (fun _ => none) (longOrientation 0x00 0x01) 6 := by
  intro h
  have hout := h ⟨id, fun marks => .refl marks⟩ false 0 (longOrientation 0x06 0x01)
    (by decide +kernel)
  have hread : readOrientationTag (longOrientation 0x06 0x01) = some 393217 := by decide +kernel
  rw [hread] at hout
  exact absurd hout (by decide +kernel)

end Reminisce

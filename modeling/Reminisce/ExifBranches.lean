import Reminisce.ExifFields

namespace Reminisce

open ByteOrder Results

variable {jpeg : Bytes} {pos total orientation : Nat} {readOrientation : Bytes → Option Nat}

/-- The APP1 segment with its marker. -/
def app1Of (jpeg : Bytes) (pos total : Nat) : Bytes := (jpeg.drop pos).take total

/-- The TIFF structure in it. -/
def tiffOf (jpeg : Bytes) (pos total : Nat) : Bytes := (app1Of jpeg pos total).drop 10

/-- An Exif APP1 within the file, whose IFD0 can be patched. -/
structure SpliceSite (jpeg : Bytes) where
  pos : Nat
  total : Nat
  ifd0 : Ifd0 (tiffOf jpeg pos total)
  found : findExifApp1 jpeg = .ok (some (pos, total))
  long : 14 ≤ total
  within : pos + total ≤ jpeg.length
  parsed : ifd0.ReadFrom

namespace SpliceSite

variable (site : SpliceSite jpeg)

abbrev tiff : Bytes := tiffOf jpeg site.pos site.total

/-- The Orientation entries of IFD0. -/
def entries : List Nat := orientationEntries site.tiff site.ifd0.endian site.ifd0.positions

end SpliceSite

/-- A request that goes on to the segments of the file. -/
structure Attempts (readOrientation : Bytes → Option Nat) (jpeg : Bytes) (orientation : Nat) :
    Prop where
  inRange : 1 ≤ orientation ∧ orientation ≤ 8
  unread : readOrientation jpeg ≠ some orientation
  needed : ¬(orientation = 1 ∧ readOrientation jpeg = none)
  hasSos : hasSos jpeg = true

/-- A request that rewrites an Orientation entry in place. -/
structure Rewrite (readOrientation : Bytes → Option Nat) (jpeg : Bytes) (orientation : Nat)
    extends SpliceSite jpeg where
  attempts : Attempts readOrientation jpeg orientation
  entry : Nat
  last : toSpliceSite.entries.getLast? = some entry

/-- A request that goes on to insert an Orientation entry. -/
structure Insertion (readOrientation : Bytes → Option Nat) (jpeg : Bytes) (orientation : Nat)
    extends SpliceSite jpeg where
  attempts : Attempts readOrientation jpeg orientation
  noEntry : toSpliceSite.entries = []
  room : total + 12 - 2 ≤ 0xffff

/-- Where the rewritten half-word stands in the file. -/
def Rewrite.target (r : Rewrite readOrientation jpeg orientation) : Nat := r.pos + 10 + (r.entry + 8)

theorem length_app1Of (h : pos + total ≤ jpeg.length) : (app1Of jpeg pos total).length = total := by
  rw [app1Of, List.length_take, List.length_drop]
  omega

theorem length_tiffOf (h : pos + total ≤ jpeg.length) :
    (tiffOf jpeg pos total).length = total - 10 := by
  rw [tiffOf, List.length_drop, length_app1Of h]

theorem SpliceSite.length_tiff (site : SpliceSite jpeg) : site.tiff.length + 10 = site.total := by
  have hlong := site.long
  rw [SpliceSite.tiff, length_tiffOf site.within]
  omega

theorem SpliceSite.entry_fits {site : SpliceSite jpeg} {e : Nat} (h : e ∈ site.entries) :
    e + 12 ≤ site.tiff.length :=
  site.ifd0.entry_within (List.mem_filter.mp h).1

theorem Rewrite.target_fits (r : Rewrite readOrientation jpeg orientation) :
    r.pos + 20 ≤ r.target ∧ r.target + 4 ≤ r.pos + r.total := by
  have hmem : r.entry ∈ r.entries := List.mem_of_getLast? r.last
  have hfits := r.toSpliceSite.entry_fits hmem
  have hlen := r.toSpliceSite.length_tiff
  have hle := (r.ifd0.entry_le (List.mem_filter.mp hmem).1).1
  have hoff := r.ifd0.off_le
  rw [Rewrite.target]
  omega

theorem copyInto_ok {bytes data : Bytes} (h : pos + data.length ≤ bytes.length) :
    copyInto bytes pos data = .ok (bytes.take pos ++ data ++ bytes.drop (pos + data.length)) :=
  if_pos h

/-- The file with the half-word rewritten. -/
def Rewrite.out (r : Rewrite readOrientation jpeg orientation) : Bytes :=
  jpeg.take r.target ++ r.ifd0.endian.encode 2 orientation ++ jpeg.drop (r.target + 2)

def injected (jpeg : Bytes) (orientation : Nat) : Bytes :=
  jpeg.take 2 ++ minimalApp1 orientation ++ jpeg.drop 2

/-- The file with another TIFF structure, 12 bytes longer. -/
def Insertion.out (i : Insertion readOrientation jpeg orientation) (patched : Bytes) : Bytes :=
  jpeg.take i.pos ++ ([0xff, 0xe1] ++ Order.big.encode 2 (i.total + 12 - 2) ++ exifHeader ++
    patched) ++ jpeg.drop (i.pos + i.total)

variable (order : HashOrder) (checks : Bool) (calls : Nat)

theorem app1_header (h : findExifApp1 jpeg = .ok (some (pos, total))) (hlong : 10 ≤ total)
    (hwithin : pos + total ≤ jpeg.length) :
    getRange (app1Of jpeg pos total) 4 10 = some exifHeader := by
  obtain ⟨-, -, ⟨found⟩⟩ := findExifApp1_some.mp h
  obtain ⟨-, hheader⟩ := found.isExif
  have hseg : getRange jpeg pos (pos + total) = some (app1Of jpeg pos total) := by
    rw [getRange_some (Nat.le_add_right _ _) hwithin, Nat.add_sub_cancel_left, app1Of]
  rw [getRange_getRange hseg (by decide) (by omega), hheader]

theorem app1_ranges (hlong : 14 ≤ total) (hwithin : pos + total ≤ jpeg.length) :
    indexRange jpeg pos (pos + total) = .ok (app1Of jpeg pos total) ∧
      indexRange (app1Of jpeg pos total) 10 (app1Of jpeg pos total).length =
        .ok (tiffOf jpeg pos total) := by
  have hlen := length_app1Of hwithin
  constructor
  · rw [indexRange_ok (Nat.le_add_right _ _) hwithin, Nat.add_sub_cancel_left, app1Of]
  · rw [indexRange_ok (by omega) (Nat.le_refl _), List.take_of_length_le (by simp), tiffOf]

theorem lastOrientation_site (site : SpliceSite jpeg) :
    lastOrientation (tiffOf jpeg site.pos site.total) site.ifd0.endian site.ifd0.positions none =
      some (site.entries.getLast?.map (· + 8)) := by
  rw [lastOrientation_eq (fun e he => site.ifd0.entry_within he), Option.or_none]
  rfl

theorem splice_rewrite (r : Rewrite readOrientation jpeg orientation) :
    spliceOrientationIntoApp1 order checks calls jpeg r.pos r.total orientation =
      .ok (some r.out) := by
  have hfits := r.target_fits
  have hwithin := r.within
  have hlast := lastOrientation_site r.toSpliceSite
  rw [r.last, Option.map_some] at hlast
  have htarget : r.pos + 10 + (r.entry + 8) = r.target := rfl
  have hlen : (r.ifd0.endian.encode 2 orientation).length = 2 := r.ifd0.endian.length_encode 2 _
  have hcopy : copyInto jpeg r.target (r.ifd0.endian.encode 2 orientation) = .ok r.out := by
    rw [copyInto_ok (by omega), hlen]
    rfl
  have hlong := r.long
  obtain ⟨hseg, htiff⟩ := app1_ranges hlong hwithin
  rw [spliceOrientationIntoApp1, if_neg (by omega), hseg, ok_bind, htiff, ok_bind,
    parseIfd0_some.mpr r.parsed, ok_bind]
  dsimp only
  rw [hlast]
  dsimp only
  rw [htarget, if_neg (by omega), hcopy]
  rfl

theorem splice_insertion (i : Insertion readOrientation jpeg orientation) :
    spliceOrientationIntoApp1 order checks calls jpeg i.pos i.total orientation =
      (insertOrientation order checks calls i.tiff i.ifd0 orientation).map
        fun patched => patched.map i.out := by
  have hwithin := i.within
  have hlong := i.long
  have hlast := lastOrientation_site i.toSpliceSite
  rw [i.noEntry, List.getLast?_nil, Option.map_none] at hlast
  have hheader : indexRange (app1Of jpeg i.pos i.total) 4 10 = .ok exifHeader := by
    rw [indexRange, app1_header i.found (by omega) hwithin]
  have hbefore : indexRange jpeg 0 i.pos = .ok (jpeg.take i.pos) := by
    rw [indexRange_ok (Nat.zero_le _) (by omega)]
    rfl
  have hafter : indexRange jpeg (i.pos + i.total) jpeg.length =
      .ok (jpeg.drop (i.pos + i.total)) := by
    rw [indexRange_ok hwithin (Nat.le_refl _), List.take_of_length_le (by simp)]
  obtain ⟨hseg, htiff⟩ := app1_ranges hlong hwithin
  rw [spliceOrientationIntoApp1, if_neg (by omega), hseg, ok_bind, htiff, ok_bind,
    parseIfd0_some.mpr i.parsed, ok_bind]
  dsimp only
  rw [hlast]
  dsimp only
  rw [if_neg (Nat.not_lt.mpr i.room)]
  change (insertOrientation order checks calls i.tiff i.ifd0 orientation >>= _) = _
  cases insertOrientation order checks calls i.tiff i.ifd0 orientation with
  | error fault => rfl
  | ok patched =>
    cases patched with
    | none => rfl
    | some patched =>
      rw [ok_bind]
      dsimp only
      rw [hbefore, hheader, hafter]
      simp only [ok_bind, Except.map, Option.map, Insertion.out, List.append_assoc]
      rfl

theorem ensure_found (h : Attempts readOrientation jpeg orientation)
    (hfound : findExifApp1 jpeg = .ok (some (pos, total))) :
    ensureExifOrientation order checks calls readOrientation jpeg orientation =
      (spliceOrientationIntoApp1 order checks calls jpeg pos total orientation).map
        fun patched => patched.getD jpeg := by
  rw [ensureExifOrientation, if_neg (not_not.mpr h.inRange), if_neg h.unread, if_neg h.needed,
    if_neg (not_not.mpr h.hasSos), hfound, ok_bind]
  dsimp only
  cases spliceOrientationIntoApp1 order checks calls jpeg pos total orientation <;> rfl

theorem inject_of_soi (h : StartsWithSoi jpeg) (hnone : findExifApp1 jpeg = .ok none) :
    injectExifOrientation jpeg orientation = .ok (injected jpeg orientation) := by
  obtain ⟨hlen, hff, hd8⟩ := h
  have hstart : indexRange jpeg 0 2 = .ok (jpeg.take 2) := by
    rw [indexRange_ok (by omega) (by omega)]
    rfl
  have hrest : indexRange jpeg 2 jpeg.length = .ok (jpeg.drop 2) := by
    rw [indexRange_ok (by omega) (Nat.le_refl _), List.take_of_length_le (by simp)]
  rw [injectExifOrientation, if_neg (by omega), indexByte_ok hff, indexByte_ok hd8, ok_bind,
    ok_bind, if_neg (by simp), hnone, ok_bind]
  dsimp only
  rw [hstart, hrest]
  rfl

theorem inject_not_soi (h : ¬StartsWithSoi jpeg) :
    injectExifOrientation jpeg orientation = .ok jpeg := by
  rw [injectExifOrientation]
  split
  next => rfl
  next hlen =>
    have hzero : jpeg[0]? = some jpeg[0] := List.getElem?_eq_getElem (by omega)
    have hone : jpeg[1]? = some jpeg[1] := List.getElem?_eq_getElem (by omega)
    have hother : jpeg[0] ≠ 0xff ∨ jpeg[1] ≠ 0xd8 := by
      by_contra hsoi
      obtain ⟨hff, hd8⟩ := not_or.mp hsoi
      exact h ⟨Nat.not_lt.mp hlen, hzero.trans (congrArg some (not_not.mp hff)),
        hone.trans (congrArg some (not_not.mp hd8))⟩
    rw [indexByte_ok hzero, indexByte_ok hone, ok_bind, ok_bind, if_pos hother]
    rfl

theorem ensure_injected (h : Attempts readOrientation jpeg orientation)
    (hsoi : StartsWithSoi jpeg) (hnone : findExifApp1 jpeg = .ok none) :
    ensureExifOrientation order checks calls readOrientation jpeg orientation =
      .ok (injected jpeg orientation) := by
  rw [ensureExifOrientation, if_neg (not_not.mpr h.inRange), if_neg h.unread, if_neg h.needed,
    if_neg (not_not.mpr h.hasSos), hnone, ok_bind]
  exact inject_of_soi hsoi hnone

theorem ensure_rewrite (r : Rewrite readOrientation jpeg orientation) :
    ensureExifOrientation order checks calls readOrientation jpeg orientation = .ok r.out := by
  rw [ensure_found order checks calls r.attempts r.found, splice_rewrite]
  rfl

theorem ensure_insertion (i : Insertion readOrientation jpeg orientation) :
    ensureExifOrientation order checks calls readOrientation jpeg orientation =
      (insertOrientation order checks calls i.tiff i.ifd0 orientation).map
        fun patched => (patched.map i.out).getD jpeg := by
  rw [ensure_found order checks calls i.attempts i.found, splice_insertion]
  cases insertOrientation order checks calls i.tiff i.ifd0 orientation <;> rfl

/-- What is done to a file, whatever the order, the checks and the number of calls. -/
inductive Branch (readOrientation : Bytes → Option Nat) (jpeg : Bytes) (orientation : Nat) : Prop
  | kept (h : ∀ order checks calls,
      ensureExifOrientation order checks calls readOrientation jpeg orientation = .ok jpeg)
  | injects (attempts : Attempts readOrientation jpeg orientation) (soi : StartsWithSoi jpeg)
      (none : findExifApp1 jpeg = .ok none)
  | rewrites (r : Rewrite readOrientation jpeg orientation)
  | inserts (i : Insertion readOrientation jpeg orientation)

theorem splice_kept (hfound : findExifApp1 jpeg = .ok (some (pos, total)))
    (h : ¬∃ site : SpliceSite jpeg, site.pos = pos ∧ site.total = total) :
    spliceOrientationIntoApp1 order checks calls jpeg pos total orientation = .ok none := by
  rw [spliceOrientationIntoApp1]
  split
  next => rfl
  next hin =>
    obtain ⟨hlong, hwithin⟩ := not_or.mp hin
    obtain ⟨hseg, htiff⟩ := app1_ranges (Nat.not_lt.mp hlong) (Nat.not_lt.mp hwithin)
    obtain ⟨r, hr, hiff⟩ := parseIfd0_cases (tiffOf jpeg pos total)
    rw [hseg, ok_bind, htiff, ok_bind, hr, ok_bind]
    cases r with
    | none => rfl
    | some ifd0 =>
      exact absurd ⟨⟨pos, total, ifd0, hfound, Nat.not_lt.mp hlong, Nat.not_lt.mp hwithin,
        (hiff ifd0).mp rfl⟩, rfl, rfl⟩ h

theorem splice_full (site : SpliceSite jpeg) (hnone : site.entries = [])
    (hfull : ¬site.total + 12 - 2 ≤ 0xffff) :
    spliceOrientationIntoApp1 order checks calls jpeg site.pos site.total orientation =
      .ok none := by
  have hlong := site.long
  have hwithin := site.within
  obtain ⟨hseg, htiff⟩ := app1_ranges hlong hwithin
  have hlast := lastOrientation_site site
  rw [hnone, List.getLast?_nil, Option.map_none] at hlast
  rw [spliceOrientationIntoApp1, if_neg (by omega), hseg, ok_bind, htiff, ok_bind,
    parseIfd0_some.mpr site.parsed, ok_bind]
  dsimp only
  rw [hlast]
  dsimp only
  rw [if_pos (Nat.not_le.mp hfull)]
  rfl

theorem branch_of_site (attempts : Attempts readOrientation jpeg orientation)
    (site : SpliceSite jpeg) : Branch readOrientation jpeg orientation := by
  cases hlast : site.entries.getLast? with
  | some entry => exact .rewrites ⟨site, attempts, entry, hlast⟩
  | none =>
    have hnone : site.entries = [] := List.getLast?_eq_none_iff.mp hlast
    by_cases hroom : site.total + 12 - 2 ≤ 0xffff
    · exact .inserts ⟨site, attempts, hnone, hroom⟩
    · refine .kept fun order checks calls => ?_
      rw [ensure_found order checks calls attempts site.found, splice_full _ _ _ site hnone hroom]
      rfl

theorem branch_of_attempts (attempts : Attempts readOrientation jpeg orientation) :
    Branch readOrientation jpeg orientation := by
  obtain ⟨found, hfound, -⟩ := findExifApp1_cases jpeg
  cases found with
  | none =>
    by_cases hsoi : StartsWithSoi jpeg
    · exact .injects attempts hsoi hfound
    · refine .kept fun order checks calls => ?_
      rw [ensureExifOrientation, if_neg (not_not.mpr attempts.inRange), if_neg attempts.unread,
        if_neg attempts.needed, if_neg (not_not.mpr attempts.hasSos), hfound, ok_bind]
      exact inject_not_soi hsoi
  | some loc =>
    obtain ⟨pos, total⟩ := loc
    by_cases hsite : ∃ site : SpliceSite jpeg, site.pos = pos ∧ site.total = total
    · obtain ⟨site, -, -⟩ := hsite
      exact branch_of_site attempts site
    · refine .kept fun order checks calls => ?_
      rw [ensure_found order checks calls attempts hfound, splice_kept _ _ _ hfound hsite]
      rfl

/-- The patcher keeps the file, injects an APP1, rewrites an entry or inserts one. -/
theorem branch (readOrientation : Bytes → Option Nat) (jpeg : Bytes) (orientation : Nat) :
    Branch readOrientation jpeg orientation := by
  by_cases hrange : 1 ≤ orientation ∧ orientation ≤ 8
  · by_cases hread : readOrientation jpeg = some orientation
    · refine .kept fun order checks calls => ?_
      rw [ensureExifOrientation, if_neg (not_not.mpr hrange), if_pos hread]
    · by_cases hneeded : orientation = 1 ∧ readOrientation jpeg = none
      · refine .kept fun order checks calls => ?_
        rw [ensureExifOrientation, if_neg (not_not.mpr hrange), if_neg hread, if_pos hneeded]
      · by_cases hsos : hasSos jpeg = true
        · exact branch_of_attempts ⟨hrange, hread, hneeded, hsos⟩
        · refine .kept fun order checks calls => ?_
          rw [ensureExifOrientation, if_neg (not_not.mpr hrange), if_neg hread, if_neg hneeded,
            if_pos hsos]
  · refine .kept fun order checks calls => ?_
    rw [ensureExifOrientation, if_pos hrange]

end Reminisce

import Reminisce.ExifPatch

namespace Reminisce

open ByteOrder Results

variable {bytes data range jpeg : Bytes} {start stop pos total : Nat} {b : UInt8}

theorem getRange_some (h : start ≤ stop) (hle : stop ≤ bytes.length) :
    getRange bytes start stop = some ((bytes.drop start).take (stop - start)) :=
  if_pos ⟨h, hle⟩

theorem getRange_iff : getRange bytes start stop = some range ↔
    start ≤ stop ∧ stop ≤ bytes.length ∧ range = (bytes.drop start).take (stop - start) := by
  unfold getRange
  split
  next h => simp [h, eq_comm]
  next h =>
    refine iff_of_false (by simp) ?_
    rintro ⟨hle, hstop, -⟩
    exact h ⟨hle, hstop⟩

theorem length_of_getRange (h : getRange bytes start stop = some range) :
    range.length = stop - start := by
  obtain ⟨hle, hstop, rfl⟩ := getRange_iff.mp h
  rw [List.length_take, List.length_drop]
  omega

theorem indexRange_ok (h : start ≤ stop) (hle : stop ≤ bytes.length) :
    indexRange bytes start stop = .ok ((bytes.drop start).take (stop - start)) := by
  rw [indexRange, getRange_some h hle]

theorem getRange_of_append {before after : Bytes} (h : before.length = start)
    (hlen : start + data.length = stop) :
    getRange (before ++ data ++ after) start stop = some data := by
  have hle : stop ≤ (before ++ data ++ after).length := by
    simp only [List.length_append]
    omega
  have hsize : stop - start = data.length := by omega
  rw [getRange_some (by omega) hle, ← h, List.append_assoc, List.drop_left, h, hsize]
  exact congrArg some List.take_left

theorem indexByte_ok (h : bytes[pos]? = some b) : indexByte bytes pos = .ok b := by
  rw [indexByte, h]

/-- The bytes of the two fields that follow a marker. -/
structure Segment (jpeg : Bytes) (pos : Nat) where
  marker : UInt8
  high : UInt8
  low : UInt8
  start : jpeg[pos]? = some 0xff
  marker_eq : jpeg[pos + 1]? = some marker
  high_eq : jpeg[pos + 2]? = some high
  low_eq : jpeg[pos + 3]? = some low

/-- The length of the segment, without its marker. -/
def Segment.len {jpeg : Bytes} {pos : Nat} (s : Segment jpeg pos) : Nat :=
  Order.big.decode [s.high, s.low]

def Segment.IsExif {jpeg : Bytes} {pos : Nat} (s : Segment jpeg pos) : Prop :=
  s.marker = 0xe1 ∧ getRange jpeg (pos + 4) (pos + 10) = some exifHeader

/-- The scan comes from one position to the other. -/
inductive Scans (jpeg : Bytes) : Nat → Nat → Prop
  | here (p : Nat) : Scans jpeg p p
  | fill (p q : Nat) (room : p + 4 ≤ jpeg.length) (start : jpeg[p]? = some 0xff)
      (byte : jpeg[p + 1]? = some 0xff) (rest : Scans jpeg (p + 1) q) : Scans jpeg p q
  | skip (p q : Nat) (s : Segment jpeg p) (noFill : s.marker ≠ 0xff) (noScan : s.marker ≠ 0xda)
      (long : 2 ≤ s.len) (other : ¬s.IsExif) (rest : Scans jpeg (p + (2 + s.len)) q) :
      Scans jpeg p q

/-- An Exif APP1 of this total length starts here. -/
structure ExifApp1 (jpeg : Bytes) (pos total : Nat) extends Segment jpeg pos where
  isExif : toSegment.IsExif
  long : 2 ≤ toSegment.len
  total_eq : total = toSegment.len + 2

theorem Segment.room (s : Segment jpeg pos) : pos + 4 ≤ jpeg.length := by
  obtain ⟨h, -⟩ := List.getElem?_eq_some_iff.mp s.low_eq
  exact h

theorem exists_segment (hroom : pos + 4 ≤ jpeg.length) (hstart : jpeg[pos]? = some 0xff) :
    Nonempty (Segment jpeg pos) :=
  ⟨⟨_, _, _, hstart, List.getElem?_eq_getElem (by omega), List.getElem?_eq_getElem (by omega),
    List.getElem?_eq_getElem (by omega)⟩⟩

/-- One round of the scan. -/
theorem findExifFrom_succ (s : Segment jpeg pos) (rounds : Nat) :
    findExifFrom jpeg (rounds + 1) pos =
      if s.marker = 0xff then findExifFrom jpeg rounds (pos + 1)
      else if s.marker = 0xda then .ok none
      else if s.len < 2 then .ok none
      else if s.marker = 0xe1 ∧ getRange jpeg (pos + 4) (pos + 10) = some exifHeader then
        .ok (some (pos, s.len + 2))
      else findExifFrom jpeg rounds (pos + (2 + s.len)) := by
  rw [findExifFrom, if_pos s.room]
  simp only [indexByte_ok s.start, indexByte_ok s.marker_eq, indexByte_ok s.high_eq,
    indexByte_ok s.low_eq, ok_bind, ne_eq, not_true_eq_false, if_false, Segment.len]
  rfl

/-- The scan ends by itself. -/
theorem findExifFrom_total {rounds : Nat} (h : jpeg.length < pos + rounds + 4) :
    ∃ r, findExifFrom jpeg rounds pos = .ok r := by
  induction rounds generalizing pos with
  | zero => exact ⟨none, by rw [findExifFrom, if_neg (by omega)]⟩
  | succ rounds ih =>
    by_cases hroom : pos + 4 ≤ jpeg.length
    · by_cases hstart : jpeg[pos]? = some 0xff
      · obtain ⟨s⟩ := exists_segment hroom hstart
        rw [findExifFrom_succ s]
        split
        next => exact ih (by omega)
        next =>
          split
          next => exact ⟨none, rfl⟩
          next =>
            split
            next => exact ⟨none, rfl⟩
            next =>
              split
              next => exact ⟨_, rfl⟩
              next => exact ih (by omega)
      · have hbyte : jpeg[pos]? = some jpeg[pos] := List.getElem?_eq_getElem (by omega)
        rw [hbyte, Option.some.injEq] at hstart
        refine ⟨none, ?_⟩
        rw [findExifFrom, if_pos hroom, indexByte_ok hbyte, ok_bind, if_pos hstart]
        rfl
    · exact ⟨none, by rw [findExifFrom, if_neg hroom]⟩

theorem findExifFrom_found {rounds q : Nat} (h : findExifFrom jpeg rounds pos = .ok (some (q, total))) :
    Scans jpeg pos q ∧ Nonempty (ExifApp1 jpeg q total) := by
  induction rounds generalizing pos with
  | zero =>
    rw [findExifFrom] at h
    split at h <;> simp at h
  | succ rounds ih =>
    by_cases hroom : pos + 4 ≤ jpeg.length
    · by_cases hstart : jpeg[pos]? = some 0xff
      · obtain ⟨s⟩ := exists_segment hroom hstart
        rw [findExifFrom_succ s] at h
        split at h
        next hfill =>
          obtain ⟨hscan, hfound⟩ := ih h
          exact ⟨.fill pos q hroom hstart (hfill ▸ s.marker_eq) hscan, hfound⟩
        next hfill =>
          split at h
          next => simp at h
          next hsos =>
            split at h
            next => simp at h
            next hlong =>
              split at h
              next hexif =>
                obtain ⟨rfl, rfl⟩ := Prod.mk.inj (Option.some.inj (Except.ok.inj h))
                exact ⟨.here pos, ⟨⟨s, hexif, Nat.not_lt.mp hlong, rfl⟩⟩⟩
              next hother =>
                obtain ⟨hscan, hfound⟩ := ih h
                exact ⟨.skip pos q s hfill hsos (Nat.not_lt.mp hlong) hother hscan, hfound⟩
      · have hbyte : jpeg[pos]? = some jpeg[pos] := List.getElem?_eq_getElem (by omega)
        rw [hbyte, Option.some.injEq] at hstart
        rw [findExifFrom, if_pos hroom, indexByte_ok hbyte, ok_bind, if_pos hstart] at h
        simp [pure, Except.pure] at h
    · rw [findExifFrom, if_neg hroom] at h
      simp at h

theorem Scans.le {q : Nat} (h : Scans jpeg pos q) : pos ≤ q := by
  induction h with
  | here => exact Nat.le_refl _
  | fill _ _ _ _ _ _ ih => omega
  | skip _ _ _ _ _ _ _ _ ih => omega

theorem findExifFrom_of_scans {q : Nat} (h : Scans jpeg pos q) (hfound : ExifApp1 jpeg q total) :
    ∀ rounds, jpeg.length < pos + rounds + 4 →
      findExifFrom jpeg rounds pos = .ok (some (q, total)) := by
  have hq := hfound.toSegment.room
  induction h with
  | here p =>
    intro rounds hrounds
    obtain ⟨rounds, rfl⟩ := Nat.exists_eq_succ_of_ne_zero (show rounds ≠ 0 by omega)
    obtain ⟨hmarker, hheader⟩ := hfound.isExif
    rw [findExifFrom_succ hfound.toSegment, if_neg (by simp [hmarker]), if_neg (by simp [hmarker]),
      if_neg (Nat.not_lt.mpr hfound.long), if_pos ⟨hmarker, hheader⟩, ← hfound.total_eq]
  | fill p q room start byte rest ih =>
    intro rounds hrounds
    have hle := rest.le
    obtain ⟨rounds, rfl⟩ := Nat.exists_eq_succ_of_ne_zero (show rounds ≠ 0 by omega)
    obtain ⟨s⟩ := exists_segment room start
    rw [findExifFrom_succ s, if_pos (Option.some.inj (s.marker_eq.symm.trans byte))]
    exact ih hfound hq rounds (by omega)
  | skip p q s noFill noScan long other rest ih =>
    intro rounds hrounds
    have hle := rest.le
    obtain ⟨rounds, rfl⟩ := Nat.exists_eq_succ_of_ne_zero (show rounds ≠ 0 by omega)
    have hother : ¬(s.marker = 0xe1 ∧ getRange jpeg (p + 4) (p + 10) = some exifHeader) := other
    rw [findExifFrom_succ s, if_neg noFill, if_neg noScan, if_neg (Nat.not_lt.mpr long),
      if_neg hother]
    exact ih hfound hq rounds (by omega)

/-- The file starts with SOI. -/
def StartsWithSoi (jpeg : Bytes) : Prop :=
  4 ≤ jpeg.length ∧ jpeg[0]? = some 0xff ∧ jpeg[1]? = some 0xd8

/-- What `find_exif_app1` returns. -/
theorem findExifApp1_cases (jpeg : Bytes) : ∃ r, findExifApp1 jpeg = .ok r ∧
    ∀ pos total, r = some (pos, total) ↔
      StartsWithSoi jpeg ∧ Scans jpeg 2 pos ∧ Nonempty (ExifApp1 jpeg pos total) := by
  have hno : ¬StartsWithSoi jpeg → ∀ pos total, (none : Option (Nat × Nat)) = some (pos, total) ↔
      StartsWithSoi jpeg ∧ Scans jpeg 2 pos ∧ Nonempty (ExifApp1 jpeg pos total) :=
    fun h pos total => iff_of_false (by simp) fun hall => h hall.1
  unfold findExifApp1
  split
  next hshort => exact ⟨none, rfl, hno fun h => Nat.not_lt.mpr h.1 hshort⟩
  next hlong =>
    have hzero : jpeg[0]? = some jpeg[0] := List.getElem?_eq_getElem (by omega)
    have hone : jpeg[1]? = some jpeg[1] := List.getElem?_eq_getElem (by omega)
    rw [indexByte_ok hzero, indexByte_ok hone, ok_bind, ok_bind]
    split
    next hother =>
      refine ⟨none, rfl, hno fun h => ?_⟩
      rcases hother with h' | h'
      · exact h' (Option.some.inj (hzero.symm.trans h.2.1))
      · exact h' (Option.some.inj (hone.symm.trans h.2.2))
    next hsoi =>
      obtain ⟨hff, hd8⟩ := not_or.mp hsoi
      have hstarts : StartsWithSoi jpeg :=
        ⟨Nat.not_lt.mp hlong, hzero.trans (congrArg some (not_not.mp hff)),
          hone.trans (congrArg some (not_not.mp hd8))⟩
      obtain ⟨r, hr⟩ := @findExifFrom_total jpeg 2 jpeg.length (by omega)
      refine ⟨r, hr, fun pos total => ?_⟩
      rw [and_iff_right hstarts]
      constructor
      · rintro rfl
        exact findExifFrom_found hr
      · rintro ⟨hscan, ⟨hfound⟩⟩
        have hsome := findExifFrom_of_scans hscan hfound jpeg.length (by omega)
        exact Except.ok.inj (hr.symm.trans hsome)

theorem findExifApp1_some : findExifApp1 jpeg = .ok (some (pos, total)) ↔
    StartsWithSoi jpeg ∧ Scans jpeg 2 pos ∧ Nonempty (ExifApp1 jpeg pos total) := by
  obtain ⟨r, hr, hiff⟩ := findExifApp1_cases jpeg
  rw [hr, Except.ok.injEq]
  exact hiff pos total

end Reminisce

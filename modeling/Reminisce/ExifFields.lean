import Reminisce.ExifScan

namespace Reminisce

open ByteOrder Results

variable {bytes tiff range : Bytes} {endian : Order} {start stop pos width i j : Nat}

/-- The number in so many bytes from this position on. -/
def numberAt (bytes : Bytes) (endian : Order) (width pos : Nat) : Nat :=
  endian.decode ((bytes.drop pos).take width)

theorem getRange_getRange (h : getRange bytes start stop = some range) (hij : i ≤ j)
    (hj : j ≤ stop - start) : getRange range i j = getRange bytes (start + i) (start + j) := by
  obtain ⟨hle, hstop, rfl⟩ := getRange_iff.mp h
  have hlen : j ≤ ((bytes.drop start).take (stop - start)).length := by
    rw [List.length_take, List.length_drop]
    omega
  have hsize : start + j - (start + i) = j - i := by omega
  rw [getRange_some hij hlen, getRange_some (by omega) (by omega), hsize, List.drop_take,
    List.take_take, List.drop_drop, Nat.min_eq_left (by omega)]

theorem readNumber_range (h : getRange bytes pos (pos + width) = some range) :
    readNumber endian width range = some (numberAt bytes endian width pos) := by
  have hlen := length_of_getRange h
  obtain ⟨hle, hstop, hrange⟩ := getRange_iff.mp h
  have hwidth : pos + width - pos = width := Nat.add_sub_cancel_left pos width
  rw [hwidth] at hlen hrange
  rw [readNumber, getRange_some (Nat.zero_le width) (Nat.le_of_eq hlen.symm), List.drop_zero,
    Nat.sub_zero, List.take_of_length_le (Nat.le_of_eq hlen), hrange]
  rfl

theorem exists_range (h : pos + width ≤ bytes.length) :
    ∃ range, getRange bytes pos (pos + width) = some range :=
  ⟨_, getRange_some (Nat.le_add_right pos width) h⟩

theorem readNumber_index (h : pos + width ≤ bytes.length) :
    ∃ range, indexRange bytes pos (pos + width) = .ok range ∧
      readNumber endian width range = some (numberAt bytes endian width pos) := by
  obtain ⟨range, hrange⟩ := exists_range h
  exact ⟨range, by rw [indexRange, hrange], readNumber_range hrange⟩

theorem numberAt_lt (bytes : Bytes) (endian : Order) (width pos : Nat) :
    numberAt bytes endian width pos < 256 ^ width := by
  have hlt := endian.decode_lt ((bytes.drop pos).take width)
  have hlen : ((bytes.drop pos).take width).length ≤ width := by
    rw [List.length_take]
    exact Nat.min_le_left _ _
  exact Nat.lt_of_lt_of_le hlt (Nat.pow_le_pow_right (by decide) hlen)

/-- A number that stands between other bytes. -/
theorem numberAt_append {before after : Bytes} {n : Nat} (h : before.length = pos)
    (hn : n < 256 ^ width) :
    numberAt (before ++ endian.encode width n ++ after) endian width pos = n := by
  have hlen : (endian.encode width n).length = width := endian.length_encode width n
  have htake : (endian.encode width n ++ after).take width = endian.encode width n :=
    List.take_left' hlen
  rw [numberAt, ← h, List.append_assoc, List.drop_left, htake, Order.decode_encode hn]

/-- A number only depends on its bytes. -/
theorem numberAt_of_drop {bytes' before after : Bytes} {field : Nat}
    (h : bytes'.drop pos = before ++ after) (hfield : field + width ≤ before.length) :
    numberAt bytes' endian width (pos + field) = endian.decode ((before.drop field).take width) := by
  rw [numberAt, ← List.drop_drop, h, List.drop_append_of_le_length (by omega),
    List.take_append_of_le_length (by rw [List.length_drop]; omega)]

theorem numberAt_of_take {bytes' : Bytes} {n : Nat} (h : bytes'.take n = bytes.take n)
    (hpos : pos + width ≤ n) :
    numberAt bytes' endian width pos = numberAt bytes endian width pos := by
  have hwindow : ∀ b : Bytes, (b.drop pos).take width = ((b.take n).drop pos).take width := by
    intro b
    rw [List.drop_take, List.take_take, Nat.min_eq_left (by omega)]
  rw [numberAt, numberAt, hwindow bytes', hwindow bytes, h]

/-- A LONG is made of two half-words. -/
theorem numberAt_four (h : pos + 4 ≤ bytes.length) : numberAt bytes endian 4 pos =
    match endian with
    | .little => numberAt bytes .little 2 pos + 65536 * numberAt bytes .little 2 (pos + 2)
    | .big => 65536 * numberAt bytes .big 2 pos + numberAt bytes .big 2 (pos + 2) := by
  have hlen : ((bytes.drop pos).take 4).length = 4 := by
    rw [List.length_take, List.length_drop]
    omega
  have hlow : (bytes.drop pos).take 2 = ((bytes.drop pos).take 4).take 2 := by
    rw [List.take_take]
    rfl
  have hhigh : (bytes.drop (pos + 2)).take 2 = ((bytes.drop pos).take 4).drop 2 := by
    rw [List.drop_take, List.drop_drop]
  simp only [numberAt, hlow, hhigh]
  match (bytes.drop pos).take 4, hlen with
  | [a, b, c, d], _ =>
    cases endian with
    | little =>
      change a.toNat + 256 * (b.toNat + 256 * (c.toNat + 256 * (d.toNat + 256 * 0))) =
        a.toNat + 256 * (b.toNat + 256 * 0) + 65536 * (c.toNat + 256 * (d.toNat + 256 * 0))
      omega
    | big =>
      change d.toNat + 256 * (c.toNat + 256 * (b.toNat + 256 * (a.toNat + 256 * 0))) =
        65536 * (b.toNat + 256 * (a.toNat + 256 * 0)) + (d.toNat + 256 * (c.toNat + 256 * 0))
      omega

/-- An entry that lies within the bytes is read field by field. -/
theorem readEntry_eq (h : pos + 12 ≤ tiff.length) : readEntry tiff endian pos =
    some ⟨numberAt tiff endian 2 pos, numberAt tiff endian 2 (pos + 2),
      numberAt tiff endian 4 (pos + 4), numberAt tiff endian 4 (pos + 8)⟩ := by
  obtain ⟨entry, hentry⟩ := exists_range h
  have hfield : ∀ i width, i + width ≤ 12 → ∃ range, getRange entry i (i + width) = some range ∧
      readNumber endian width range = some (numberAt tiff endian width (pos + i)) := by
    intro i width hle
    obtain ⟨range, hrange⟩ := exists_range (show pos + i + width ≤ tiff.length by omega)
    refine ⟨range, ?_, readNumber_range hrange⟩
    rw [getRange_getRange hentry (by omega) (by omega), ← hrange, Nat.add_assoc]
  obtain ⟨tag, htag, hreadTag⟩ := hfield 0 2 (by omega)
  obtain ⟨typ, htyp, hreadTyp⟩ := hfield 2 2 (by omega)
  obtain ⟨count, hcount, hreadCount⟩ := hfield 4 4 (by omega)
  obtain ⟨value, hvalue, hreadValue⟩ := hfield 8 4 (by omega)
  simp only [readEntry, hentry, htag, hreadTag, htyp, hreadTyp, hcount, hreadCount, hvalue,
    hreadValue, Option.bind_eq_bind, Option.bind_some]
  rfl

/-- What the header and IFD0 say, as they are parsed. -/
structure Ifd0.ReadFrom (ifd0 : Ifd0 tiff) : Prop where
  order : parseEndian (tiff.take 2) = some ifd0.endian
  magic : numberAt tiff ifd0.endian 2 2 = 42
  offset : numberAt tiff ifd0.endian 4 4 = ifd0.off
  entries : numberAt tiff ifd0.endian 2 ifd0.off = ifd0.count

theorem ifd0_eq {ifd0 ifd0' : Ifd0 tiff} (hendian : ifd0.endian = ifd0'.endian)
    (hoff : ifd0.off = ifd0'.off) (hcount : ifd0.count = ifd0'.count) : ifd0 = ifd0' := by
  cases ifd0
  cases ifd0'
  cases hendian
  cases hoff
  cases hcount
  rfl

theorem parseIfd0_cases (tiff : Bytes) : ∃ r, parseIfd0 tiff = .ok r ∧
    ∀ ifd0 : Ifd0 tiff, r = some ifd0 ↔ ifd0.ReadFrom := by
  unfold parseIfd0
  split
  next hshort =>
    refine ⟨none, rfl, fun ifd0 => iff_of_false (by simp) fun _ => ?_⟩
    have hoff := ifd0.off_le
    have hfits := ifd0.fits
    omega
  next hlong =>
    have horder : indexRange tiff 0 2 = .ok (tiff.take 2) := by
      rw [indexRange_ok (by omega) (by omega)]
      rfl
    rw [horder, ok_bind]
    split
    next hnone =>
      refine ⟨none, rfl, fun ifd0 => iff_of_false (by simp) fun h => ?_⟩
      rw [h.order] at hnone
      exact absurd hnone (by simp)
    next endian hendian =>
      have hsame : ∀ ifd0 : Ifd0 tiff, ifd0.ReadFrom → ifd0.endian = endian :=
        fun ifd0 h => Option.some.inj (h.order.symm.trans hendian)
      obtain ⟨magic, hmagic, hreadMagic⟩ :=
        @readNumber_index tiff endian 2 2 (by omega)
      obtain ⟨offset, hoffset, hreadOffset⟩ :=
        @readNumber_index tiff endian 4 4 (by omega)
      rw [hmagic, ok_bind, hreadMagic]
      split
      next hother =>
        refine ⟨none, rfl, fun ifd0 => iff_of_false (by simp) fun h => ?_⟩
        have h42 := h.magic
        rw [hsame ifd0 h] at h42
        exact hother (congrArg some h42)
      next h42 =>
        rw [hoffset, ok_bind, hreadOffset]
        dsimp only
        split
        next hout =>
          refine ⟨none, rfl, fun ifd0 => iff_of_false (by simp) fun h => ?_⟩
          have hoff := h.offset
          rw [hsame ifd0 h] at hoff
          have hoff' := ifd0.off_le
          have hfits := ifd0.fits
          omega
        next hin =>
          obtain ⟨count, hcount, hreadCount⟩ := @readNumber_index tiff endian
            (numberAt tiff endian 4 4) 2 (by omega)
          rw [hcount, ok_bind, hreadCount]
          dsimp only
          split
          next hout =>
            refine ⟨none, rfl, fun ifd0 => iff_of_false (by simp) fun h => ?_⟩
            have hoff := h.offset
            have hentries := h.entries
            rw [← hoff, hsame ifd0 h] at hentries
            rw [hsame ifd0 h] at hoff
            have hpos := ifd0.count_pos
            have hlt := ifd0.count_lt
            have hfits := ifd0.fits
            omega
          next hin' =>
            refine ⟨_, rfl, fun ifd0 => ?_⟩
            rw [Option.some.injEq]
            constructor
            · rintro rfl
              exact ⟨hendian, Option.some.inj (not_not.mp h42), rfl, rfl⟩
            · intro h
              have horder := hsame ifd0 h
              obtain ⟨-, -, hoff, hentries⟩ := h
              rw [← hoff, horder] at hentries
              rw [horder] at hoff
              exact ifd0_eq horder.symm hoff hentries

theorem parseIfd0_some {ifd0 : Ifd0 tiff} : parseIfd0 tiff = .ok (some ifd0) ↔ ifd0.ReadFrom := by
  obtain ⟨r, hr, hiff⟩ := parseIfd0_cases tiff
  rw [hr, Except.ok.injEq]
  exact hiff ifd0

theorem readFrom_unique {ifd0 ifd0' : Ifd0 tiff} (h : ifd0.ReadFrom) (h' : ifd0'.ReadFrom) :
    ifd0 = ifd0' :=
  Option.some.inj (Except.ok.inj ((parseIfd0_some.mpr h).symm.trans (parseIfd0_some.mpr h')))

theorem tableCount_some {off n : Nat} : tableCount tiff endian off = some n ↔
    numberAt tiff endian 2 off = n ∧ 0 < n ∧ n ≤ 0x2000 ∧ off + 2 + n * 12 + 4 ≤ tiff.length := by
  unfold tableCount
  split
  next hshort =>
    refine iff_of_false (by simp) ?_
    rintro ⟨-, -, -, hfits⟩
    omega
  next hlong =>
    obtain ⟨range, hrange⟩ := exists_range (Nat.not_lt.mp hlong)
    simp only [hrange, readNumber_range hrange, Option.bind_eq_bind, Option.bind_some]
    split
    next hout =>
      refine iff_of_false (by simp) ?_
      rintro ⟨rfl, hpos, hle, hfits⟩
      omega
    next hin =>
      rw [Option.pure_def, Option.some.injEq]
      constructor
      · rintro rfl
        omega
      · exact fun h => h.1

/-- The chain of a table that ends. -/
theorem visitNext_zero {e4 depth : Nat} (h : pos + 4 ≤ tiff.length)
    (hzero : numberAt tiff endian 4 pos = 0) :
    visitNext tiff endian e4 depth pos = some ⟨pos, 0, false, false⟩ := by
  obtain ⟨range, hrange⟩ := exists_range h
  simp only [visitNext, hrange, readNumber_range hrange, hzero, Option.bind_eq_bind,
    Option.bind_some]
  rfl

theorem mem_entryPositions {off count e : Nat} :
    e ∈ entryPositions off count ↔ ∃ i < count, e = off + 2 + i * 12 := by
  simp [entryPositions, eq_comm]

theorem Ifd0.entry_le {ifd0 : Ifd0 tiff} {e : Nat} (h : e ∈ ifd0.positions) :
    ifd0.off + 2 ≤ e ∧ e + 12 ≤ ifd0.entriesEnd := by
  obtain ⟨i, hi, rfl⟩ := mem_entryPositions.mp h
  rw [Ifd0.entriesEnd]
  omega

theorem Ifd0.entriesEnd_le (ifd0 : Ifd0 tiff) : ifd0.entriesEnd + 4 ≤ tiff.length := ifd0.fits

theorem Ifd0.entry_within {ifd0 : Ifd0 tiff} {e : Nat} (h : e ∈ ifd0.positions) :
    e + 12 ≤ tiff.length :=
  Nat.le_trans (ifd0.entry_le h).2 (Nat.le_trans (Nat.le_add_right _ 4) ifd0.entriesEnd_le)

/-- The Orientation entries among these. -/
def orientationEntries (tiff : Bytes) (endian : Order) (es : List Nat) : List Nat :=
  es.filter fun e => numberAt tiff endian 2 e = orientationTag

/-- The last Orientation entry counts. -/
theorem lastOrientation_eq {es : List Nat} (h : ∀ e ∈ es, e + 12 ≤ tiff.length)
    (found : Option Nat) : lastOrientation tiff endian es found =
      some (((orientationEntries tiff endian es).getLast?.map (· + 8)).or found) := by
  induction es generalizing found with
  | nil => rfl
  | cons e es ih =>
    obtain ⟨he, hes⟩ := List.forall_mem_cons.mp h
    obtain ⟨entry, hentry⟩ := exists_range he
    obtain ⟨range, hrange⟩ := exists_range (show e + 2 ≤ tiff.length by omega)
    have htag : getRange entry 0 2 = some range := by
      rw [getRange_getRange hentry (by omega) (by omega), ← hrange]
      rfl
    simp only [lastOrientation, hentry, htag, readNumber_range hrange, Option.bind_eq_bind,
      Option.bind_some, ih hes]
    rw [orientationEntries, orientationEntries]
    by_cases hor : numberAt tiff endian 2 e = orientationTag
    · rw [if_pos hor, List.filter_cons_of_pos (by simpa using hor), List.getLast?_cons]
      cases (List.filter (fun e => decide (numberAt tiff endian 2 e = orientationTag)) es).getLast? <;>
        rfl
    · rw [if_neg hor, List.filter_cons_of_neg (by simpa using hor)]

end Reminisce

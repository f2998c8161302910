import Reminisce.ExifSplices

namespace Reminisce

open ByteOrder Results

variable {jpeg jpeg' before after tiff bytes data : Bytes} {pos total start p q orientation : Nat}
  {readOrientation : Bytes → Option Nat}

theorem getRange_some_iff : getRange bytes start (start + data.length) = some data ↔
    start ≤ bytes.length ∧ ∀ i < data.length, bytes[start + i]? = data[i]? := by
  constructor
  · intro h
    obtain ⟨-, hstop, hdata⟩ := getRange_iff.mp h
    rw [Nat.add_sub_cancel_left] at hdata
    refine ⟨by omega, fun i hi => ?_⟩
    have hi' := congrArg (fun d : Bytes => d[i]?) hdata
    simpa [List.getElem?_take, hi] using hi'.symm
  · rintro ⟨hstart, hall⟩
    have hstop : start + data.length ≤ bytes.length := by
      by_contra hlt
      have hlast := hall (bytes.length - start) (by omega)
      rw [List.getElem?_eq_none (by omega), List.getElem?_eq_getElem (by omega)] at hlast
      simp at hlast
    rw [getRange_iff, Nat.add_sub_cancel_left]
    refine ⟨Nat.le_add_right _ _, hstop, List.ext_getElem? fun i => ?_⟩
    rw [List.getElem?_take]
    split
    next hi => rw [List.getElem?_drop, hall i hi]
    next hi => rw [List.getElem?_eq_none (by omega)]

/-- An Exif header holds no marker. -/
theorem exifHeader_no_marker {i : Nat} : exifHeader[i]? ≠ some 0xff := by
  intro h
  have hmem := List.mem_of_getElem? h
  simp [exifHeader] at hmem

/-- The scan only looks at what stands before its end. -/
theorem Scans.agree (h : Scans jpeg p q) (hagree : ∀ k ≤ q, jpeg'[k]? = jpeg[k]?)
    (hmarker : jpeg[q]? = some 0xff) (hroom : q + 4 ≤ jpeg'.length) : Scans jpeg' p q := by
  induction h with
  | here p => exact .here p
  | fill p q room start byte rest ih =>
    have hle := rest.le
    refine .fill p q (by omega) ?_ ?_ (ih hagree hmarker hroom)
    · rw [hagree p (by omega), start]
    · rw [hagree (p + 1) hle, byte]
  | skip p q s noFill noScan long other rest ih =>
    have hle := rest.le
    let s' : Segment jpeg' p :=
      { marker := s.marker
        high := s.high
        low := s.low
        start := (hagree p (by omega)).trans s.start
        marker_eq := (hagree (p + 1) (by omega)).trans s.marker_eq
        high_eq := (hagree (p + 2) (by omega)).trans s.high_eq
        low_eq := (hagree (p + 3) (by omega)).trans s.low_eq }
    refine .skip p q s' noFill noScan long ?_ (ih hagree hmarker hroom)
    rintro ⟨hmarker', hheader⟩
    refine other ⟨hmarker', ?_⟩
    obtain ⟨hstart, hall⟩ := (@getRange_some_iff jpeg' exifHeader (p + 4)).mp hheader
    refine (@getRange_some_iff jpeg exifHeader (p + 4)).mpr ⟨?_, fun i hi => ?_⟩
    · have hq := (List.getElem?_eq_some_iff.mp hmarker).choose
      omega
    · by_cases hbefore : p + 4 + i ≤ q
      · rw [← hagree _ hbefore, hall i hi]
      · have hq : p + 4 + (q - (p + 4)) = q := by omega
        have hheaderq := hall (q - (p + 4)) (by omega)
        rw [hq, hagree q (Nat.le_refl q), hmarker] at hheaderq
        exact absurd hheaderq.symm exifHeader_no_marker

/-- An APP1 segment with this TIFF structure. -/
def exifApp1 (tiff : Bytes) : Bytes :=
  [0xff, 0xe1] ++ Order.big.encode 2 (tiff.length + 8) ++ exifHeader ++ tiff

theorem length_exifApp1 (tiff : Bytes) : (exifApp1 tiff).length = tiff.length + 10 := by
  simp only [exifApp1, List.length_append, Order.length_encode, exifHeader, List.length_cons,
    List.length_nil]
  omega

theorem found_exifApp1 (hpos : before.length = pos) (hlen : tiff.length + 8 < 65536) :
    Nonempty (ExifApp1 (before ++ exifApp1 tiff ++ after) pos (tiff.length + 10)) := by
  have hget : ∀ i < 10, (before ++ exifApp1 tiff ++ after)[pos + i]? = (exifApp1 tiff)[i]? := by
    intro i hi
    have hlen := length_exifApp1 tiff
    rw [List.append_assoc, List.getElem?_append_right (by omega),
      List.getElem?_append_left (by omega), ← hpos, Nat.add_sub_cancel_left]
  let s : Segment (before ++ exifApp1 tiff ++ after) pos :=
    { marker := 0xe1
      high := UInt8.ofNat ((tiff.length + 8) / 256)
      low := UInt8.ofNat (tiff.length + 8)
      start := hget 0 (by decide)
      marker_eq := hget 1 (by decide)
      high_eq := hget 2 (by decide)
      low_eq := hget 3 (by decide) }
  have hs : s.len = tiff.length + 8 :=
    (Order.decode_encode hlen : Order.big.decode (Order.big.encode 2 (tiff.length + 8)) = _)
  have hheader : getRange (before ++ exifApp1 tiff ++ after) (pos + 4) (pos + 10) =
      some exifHeader := by
    have hlen : (before ++ ([0xff, 0xe1] ++ Order.big.encode 2 (tiff.length + 8))).length =
        pos + 4 := by
      rw [List.length_append, hpos]
      rfl
    have hrange := @getRange_of_append exifHeader (pos + 4) (pos + 10) _ (tiff ++ after) hlen rfl
    simpa only [exifApp1, List.append_assoc] using hrange
  exact ⟨⟨s, ⟨rfl, hheader⟩, by omega, by omega⟩⟩

namespace SpliceSite

variable (site : SpliceSite jpeg)

/-- The file with another TIFF structure in the segment. -/
def withTiff (tiff : Bytes) : Bytes :=
  jpeg.take site.pos ++ exifApp1 tiff ++ jpeg.drop (site.pos + site.total)

theorem length_before : (jpeg.take site.pos).length = site.pos := by
  have hwithin := site.within
  rw [List.length_take]
  omega

theorem exists_app1 : Nonempty (ExifApp1 jpeg site.pos site.total) :=
  (findExifApp1_some.mp site.found).2.2

theorem length_lt : site.tiff.length + 8 < 65536 := by
  obtain ⟨app1⟩ := site.exists_app1
  have hlen := site.length_tiff
  have htotal := app1.total_eq
  have hlt : app1.len < 256 ^ 2 := Order.big.decode_lt [app1.high, app1.low]
  omega

/-- The segment of the file is the one with its own TIFF structure. -/
theorem app1_eq : app1Of jpeg site.pos site.total = exifApp1 site.tiff := by
  obtain ⟨app1⟩ := site.exists_app1
  have hlong := site.long
  have hwithin := site.within
  have hlen := site.length_tiff
  have hencode : Order.big.encode 2 (site.tiff.length + 8) = [app1.high, app1.low] := by
    have hlen' : site.tiff.length + 8 = app1.len := by
      have htotal := app1.total_eq
      omega
    rw [hlen']
    exact Order.big.encode_decode [app1.high, app1.low]
  have hmarker := app1.marker_eq
  rw [app1.isExif.1] at hmarker
  have hfront : (app1Of jpeg site.pos site.total).take 4 =
      [0xff, 0xe1] ++ Order.big.encode 2 (site.tiff.length + 8) := by
    rw [hencode]
    refine (getRange_iff.mp ((@getRange_some_iff (app1Of jpeg site.pos site.total)
      [0xff, 0xe1, app1.high, app1.low] 0).mpr ⟨Nat.zero_le _, fun i hi => ?_⟩)).2.2.symm
    have hi' : i < 4 := hi
    rw [app1Of, List.getElem?_take, if_pos (by omega), List.getElem?_drop, Nat.zero_add]
    obtain rfl | rfl | rfl | rfl : i = 0 ∨ i = 1 ∨ i = 2 ∨ i = 3 := by omega
    · exact app1.start
    · exact hmarker
    · exact app1.high_eq
    · exact app1.low_eq
  have hheader := app1_header site.found (by omega) hwithin
  obtain ⟨-, -, hheader⟩ := getRange_iff.mp hheader
  have hrest : app1Of jpeg site.pos site.total = (app1Of jpeg site.pos site.total).take 4 ++
      (((app1Of jpeg site.pos site.total).drop 4).take 6 ++
        ((app1Of jpeg site.pos site.total).drop 4).drop 6) := by
    rw [List.take_append_drop, List.take_append_drop]
  rw [hrest, hfront, exifApp1, hheader, List.drop_drop]
  simp only [List.append_assoc]
  rfl

theorem withTiff_self : site.withTiff site.tiff = jpeg := by
  rw [withTiff, ← site.app1_eq, app1Of, List.append_assoc, ← List.drop_drop,
    List.take_append_drop, List.take_append_drop]

/-- The segment is found where it was. -/
theorem find_withTiff {tiff : Bytes} (hlen : tiff.length + 8 < 65536) :
    findExifApp1 (site.withTiff tiff) = .ok (some (site.pos, tiff.length + 10)) := by
  obtain ⟨⟨-, hff, hd8⟩, hscan, ⟨app1⟩⟩ := findExifApp1_some.mp site.found
  have hbefore := site.length_before
  have happ1 := length_exifApp1 tiff
  have hle := hscan.le
  have hagree : ∀ k ≤ site.pos, (site.withTiff tiff)[k]? = jpeg[k]? := by
    intro k hk
    rw [withTiff, List.append_assoc]
    rcases Nat.lt_or_ge k site.pos with hlt | hge
    · rw [List.getElem?_append_left (by omega), List.getElem?_take, if_pos hlt]
    · obtain rfl : k = site.pos := by omega
      rw [List.getElem?_append_right (by omega), List.getElem?_append_left (by omega), hbefore,
        Nat.sub_self, app1.start]
      rfl
  have hlength : (site.withTiff tiff).length =
      site.pos + (tiff.length + 10) + (jpeg.length - (site.pos + site.total)) := by
    rw [withTiff, List.length_append, List.length_append, hbefore, happ1, List.length_drop]
  refine findExifApp1_some.mpr ⟨⟨by omega, ?_, ?_⟩, ?_, found_exifApp1 hbefore hlen⟩
  · rw [hagree 0 (by omega), hff]
  · rw [hagree 1 (by omega), hd8]
  · exact hscan.agree hagree app1.start (by omega)

theorem app1Of_withTiff (tiff : Bytes) :
    app1Of (site.withTiff tiff) site.pos (tiff.length + 10) = exifApp1 tiff := by
  rw [app1Of, withTiff, List.append_assoc, List.drop_left' site.length_before,
    List.take_left' (length_exifApp1 tiff)]

theorem tiffOf_withTiff (tiff : Bytes) :
    tiffOf (site.withTiff tiff) site.pos (tiff.length + 10) = tiff := by
  rw [tiffOf, app1Of_withTiff, exifApp1]
  rfl

end SpliceSite

theorem overwrite_append {field : Nat} (h : field + data.length ≤ tiff.length) :
    overwrite (before ++ tiff ++ after) (before.length + field) data =
      before ++ overwrite tiff field data ++ after := by
  have htake : (before ++ tiff ++ after).take (before.length + field) = before ++ tiff.take field := by
    rw [List.append_assoc, List.take_length_add_append, List.take_append_of_le_length (by omega)]
  have hdrop : (before ++ tiff ++ after).drop (before.length + field + data.length) =
      tiff.drop (field + data.length) ++ after := by
    rw [List.append_assoc, Nat.add_assoc, List.drop_length_add_append,
      List.drop_append_of_le_length h]
  rw [overwrite, htake, hdrop, overwrite]
  simp only [List.append_assoc]

/-- The rewritten file has another TIFF structure. -/
theorem rewrite_out (r : Rewrite readOrientation jpeg orientation) : r.out =
    r.withTiff (overwrite r.tiff (r.entry + 8) (r.ifd0.endian.encode 2 orientation)) := by
  have hbefore := r.length_before
  have hfits := r.target_fits
  have hlen := r.length_tiff
  have htarget : r.target = r.pos + 10 + (r.entry + 8) := rfl
  have hencode := r.ifd0.endian.length_encode 2 orientation
  have hinside : r.entry + 8 + (r.ifd0.endian.encode 2 orientation).length ≤ r.tiff.length := by
    omega
  have hself : jpeg.take r.pos ++ exifApp1 r.tiff ++ jpeg.drop (r.pos + r.total) = jpeg :=
    r.withTiff_self
  have hout : r.out = overwrite jpeg r.target (r.ifd0.endian.encode 2 orientation) := by
    rw [overwrite, hencode, Rewrite.out]
  have hfront : (jpeg.take r.pos ++ ([0xff, 0xe1] ++ Order.big.encode 2 (r.tiff.length + 8) ++
      exifHeader)).length = r.pos + 10 := by
    rw [List.length_append, hbefore]
    rfl
  have hover := @overwrite_append (jpeg.take r.pos ++ ([0xff, 0xe1] ++
    Order.big.encode 2 (r.tiff.length + 8) ++ exifHeader)) (jpeg.drop (r.pos + r.total)) r.tiff _ _
    hinside
  rw [hfront, ← htarget, List.append_assoc (jpeg.take r.pos), ← exifApp1, hself] at hover
  rw [hout, hover, SpliceSite.withTiff, exifApp1, length_overwrite hinside]
  simp only [List.append_assoc]

theorem insertion_out (i : Insertion readOrientation jpeg orientation) {patched : Bytes}
    (hlen : patched.length = i.tiff.length + 12) : i.out patched = i.withTiff patched := by
  have htotal := i.length_tiff
  have hsize : i.total + 12 - 2 = patched.length + 8 := by omega
  rw [Insertion.out, hsize]
  rfl

end Reminisce

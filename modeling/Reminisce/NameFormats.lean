import Reminisce.DatedNames

namespace Reminisce

open Numerals Utf8

section Formats

variable {name : String} {first part last : List Char}

theorem utf8_eq (name : String) : utf8 name = encode name.toList := toList_toUTF8 name

/-- ASCII digits are cut out of a name at their byte position. -/
theorem digitsAt_eq (hname : name.toList = first ++ (part ++ last))
    (hascii : ∀ c ∈ part, c.toNat < 128)
    (hdigits : ∀ c ∈ part, isAsciiDigit (UInt8.ofNat c.toNat) = true) :
    digitsAt name (encode first).length part.length = some (asciiBytes part) := by
  have hbytes : ((utf8 name).drop (encode first).length).take part.length = asciiBytes part := by
    rw [utf8_eq, hname, encode_append, encode_append, encode_ascii hascii, List.drop_left]
    rw [List.take_append_of_le_length (by simp), List.take_of_length_le (by simp)]
    rfl
  unfold digitsAt
  simp only [hbytes]
  rw [if_pos]
  refine ⟨length_asciiBytes, ?_⟩
  simpa [asciiBytes] using hdigits

/-- The bytes at a position behind a prefix. -/
theorem startsWith_utf8 {text : String} (hname : name.toList = first ++ last) :
    startsWith ((utf8 name).drop (encode first).length) (ascii text) =
      startsWith (encode last) (ascii text) := by
  rw [utf8_eq, hname, encode_append, List.drop_left]

namespace DatedName

variable {w : DatedName}

theorem digits_ascii {c : Char} (hc : c ∈ w.digits) :
    c.toNat < 128 ∧ c.toLower = c ∧ c ≠ '_' ∧ isAsciiDigit (UInt8.ofNat c.toNat) = true := by
  unfold digits at hc
  rcases List.mem_append.mp hc with hc | hc
  · exact padded_ascii hc
  · rcases List.mem_append.mp hc with hc | hc
    · exact padded_ascii hc
    · exact padded_ascii hc

theorem digitsAt_digits (hname : name.toList = first ++ (w.digits ++ last)) :
    digitsAt name (encode first).length 8 = some (asciiBytes w.digits) := by
  have hread := digitsAt_eq hname (fun c hc => (digits_ascii hc).1)
    (fun c hc => (digits_ascii hc).2.2.2)
  rwa [length_digits] at hread

theorem tryParseDateOnly_digits (hname : name.toList = first ++ (w.digits ++ last)) :
    tryParseDateOnly name (encode first).length = some (secs (secsPerDay * w.days)) := by
  simp [tryParseDateOnly, digitsAt_digits hname, parseNaiveDate_digits]

/-- The position behind the date. -/
theorem length_encode_digits : (encode (first ++ w.digits)).length = (encode first).length + 8 := by
  rw [encode_append, List.length_append, encode_ascii fun c hc => (digits_ascii hc).1,
    List.length_map, length_digits]

theorem tryParseWhatsappFormat_number {number : Nat} (hnumber : number < 10000)
    (hname : name.toList =
      first ++ (w.digits ++ ('-' :: 'w' :: 'a' :: padded 10 4 number ++ last))) :
    tryParseWhatsappFormat name (encode first).length =
      some (secs (secsPerDay * w.days) + number % 1000 * 1000000) := by
  have hdigits : name.toList =
      (first ++ w.digits) ++ (['-', 'w', 'a'] ++ (padded 10 4 number ++ last)) := by
    simpa using hname
  have hnumber' : name.toList =
      ((first ++ w.digits) ++ ['-', 'w', 'a']) ++ (padded 10 4 number ++ last) := by
    simpa using hname
  have hmark : startsWith ((utf8 name).drop ((encode first).length + 8)) (ascii "-wa") = true := by
    have hwa : encode ['-', 'w', 'a'] = ascii "-wa" := by decide +kernel
    rw [← length_encode_digits, startsWith_utf8 hdigits, encode_append, hwa]
    exact startsWith_iff.mpr List.take_left
  have hread := digitsAt_eq hnumber' (fun c hc => (padded_ascii hc).1)
    (fun c hc => (padded_ascii hc).2.2.2)
  have hlength : (encode ((first ++ w.digits) ++ ['-', 'w', 'a'])).length =
      (encode first).length + 11 := by
    rw [encode_append, List.length_append, length_encode_digits]
    rfl
  rw [hlength, length_padded] at hread
  unfold tryParseWhatsappFormat
  rw [if_pos hmark, digitsAt_digits hname, hread]
  simp [parseNaiveDate_digits, digitsValue_padded (show number < 10 ^ 4 by omega)]

theorem tryParseWhatsappFormat_none (hname : name.toList = first ++ (w.digits ++ last))
    (hnumber : numberFollows (encode last) = false) :
    tryParseWhatsappFormat name (encode first).length = none := by
  have hdigits : name.toList = (first ++ w.digits) ++ last := by simpa using hname
  have hdrop : (utf8 name).drop ((encode first).length + 11) = (encode last).drop 3 := by
    rw [utf8_eq, hdigits, encode_append, show (encode first).length + 11 =
      (encode (first ++ w.digits)).length + 3 by rw [length_encode_digits], List.drop_append]
    simp
  unfold tryParseWhatsappFormat
  rw [← length_encode_digits, startsWith_utf8 hdigits]
  split
  next hmark =>
    have hread : digitsAt name ((encode first).length + 11) 4 = none := by
      unfold digitsAt
      rw [hdrop, if_neg]
      rintro ⟨hlength, hall⟩
      unfold numberFollows at hnumber
      simp [hmark, hlength, hall] at hnumber
    rw [digitsAt_digits hname, hread]
    simp
  next => rfl

/-- The character at the position of the underscore, when it is counted in bytes of the prefix. -/
theorem getElem?_underscore {clock : List Char} {surplus : Nat} (hclock : clock.length = 6)
    (hplain : ∀ c ∈ clock, c ≠ '_') :
    (w.digits ++ ('_' :: (clock ++ last)))[surplus + 8]? = some '_' ↔
      surplus = 0 ∨ 7 ≤ surplus ∧ last[surplus - 7]? = some '_' := by
  rw [List.getElem?_append_right (by rw [length_digits]; omega), length_digits,
    Nat.add_sub_cancel]
  cases surplus with
  | zero => simp
  | succ k =>
    rw [List.getElem?_cons_succ]
    rcases Nat.lt_or_ge k 6 with hlt | hge
    · have hk : k < clock.length := by omega
      have hne := hplain clock[k] (List.getElem_mem hk)
      rw [List.getElem?_append_left hk, List.getElem?_eq_getElem hk]
      simp only [Option.some.injEq, hne, false_iff]
      omega
    · rw [List.getElem?_append_right (by omega), hclock]
      have heq : k + 1 - 7 = k - 6 := by omega
      rw [heq]
      constructor
      · exact fun h => Or.inr ⟨by omega, h⟩
      · rintro (h | h)
        · omega
        · exact h.2

theorem tryParseDatetimeUnderscore_clock {hour minute second : Nat} (hhour : hour < 24)
    (hminute : minute < 60) (hsecond : second ≤ 60)
    (hname : name.toList = first ++ (w.digits ++
      ('_' :: ((padded 10 2 hour ++ (padded 10 2 minute ++ padded 10 2 second)) ++ last)))) :
    tryParseDatetimeUnderscore name (encode first).length =
      if (encode first).length - first.length = 0 ∨ 7 ≤ (encode first).length - first.length ∧
          last[(encode first).length - first.length - 7]? = some '_' then
        some (secs (secsPerDay * w.days + (3600 * hour + 60 * minute + second)))
      else none := by
  have hclock : ∀ c ∈ padded 10 2 hour ++ (padded 10 2 minute ++ padded 10 2 second),
      c.toNat < 128 ∧ c.toLower = c ∧ c ≠ '_' ∧ isAsciiDigit (UInt8.ofNat c.toNat) = true := by
    intro c hc
    rcases List.mem_append.mp hc with hc | hc
    · exact padded_ascii hc
    · rcases List.mem_append.mp hc with hc | hc
      · exact padded_ascii hc
      · exact padded_ascii hc
  have hlength : (padded 10 2 hour ++ (padded 10 2 minute ++ padded 10 2 second)).length = 6 := by
    simp
  have hle := length_le_encode first
  have hindex : name.toList[(encode first).length + 8]? = (w.digits ++ ('_' :: ((padded 10 2 hour ++
      (padded 10 2 minute ++ padded 10 2 second)) ++ last)))[
        (encode first).length - first.length + 8]? := by
    rw [hname, List.getElem?_append_right (by omega)]
    congr 1
    omega
  have hcut : name.toList = ((first ++ w.digits) ++ ['_']) ++
      ((padded 10 2 hour ++ (padded 10 2 minute ++ padded 10 2 second)) ++ last) := by
    simpa using hname
  have hread := digitsAt_eq hcut (fun c hc => (hclock c hc).1) (fun c hc => (hclock c hc).2.2.2)
  have hposition : (encode ((first ++ w.digits) ++ ['_'])).length = (encode first).length + 9 := by
    rw [encode_append, List.length_append, length_encode_digits]
    rfl
  rw [hposition, hlength] at hread
  unfold tryParseDatetimeUnderscore
  simp only [hindex, getElem?_underscore hlength fun c hc => (hclock c hc).2.2.1]
  rw [digitsAt_digits hname, hread]
  simp [parseNaiveDate_digits, parseNaiveTime_padded hhour hminute hsecond]

end DatedName

end Formats

namespace DatedName

section Law

variable {L : Lowercase} {w : DatedName}

theorem marker_mem (w : DatedName) : w.marker ∈ clockMarkers w.media ++ [dayMarker w.media] := by
  have hvalid := w.valid
  unfold marker
  cases hwritten : w.written with
  | clock marker hour minute second =>
    rw [hwritten] at hvalid
    exact List.mem_append_left _ hvalid.1
  | whatsapp number => exact List.mem_append_right _ (List.mem_singleton.mpr rfl)
  | dateOnly => exact List.mem_append_right _ (List.mem_singleton.mpr rfl)

theorem marker_plain {media : MediaTable} {marker : String}
    (h : marker ∈ clockMarkers media ++ [dayMarker media]) :
    marker ≠ "" ∧ (marker.toList.map Char.toUpper).map Char.toLower = marker.toList ∧
      ∀ c ∈ marker.toList ++ marker.toList.map Char.toUpper, c.toNat < 128 := by
  have all : ∀ media ∈ [MediaTable.images, MediaTable.videos],
      ∀ marker ∈ clockMarkers media ++ [dayMarker media], marker ≠ "" ∧
        (marker.toList.map Char.toUpper).map Char.toLower = marker.toList ∧
        (marker.toList ++ marker.toList.map Char.toUpper).all (fun c => c.toNat < 128) = true := by
    decide +kernel
  obtain ⟨hne, hlower, hascii⟩ := all media (by cases media <;> simp) marker h
  exact ⟨hne, hlower, fun c hc => by simpa using List.all_eq_true.mp hascii c hc⟩

theorem tail_ascii {written : Written} {c : Char} (hc : c ∈ written.tail) : c.toNat < 128 := by
  cases written with
  | clock marker hour minute second =>
    simp only [Written.tail, List.mem_cons, List.mem_append] at hc
    rcases hc with rfl | hc | hc | hc
    · decide
    · exact (padded_ascii hc).1
    · exact (padded_ascii hc).1
    · exact (padded_ascii hc).1
  | whatsapp number =>
    simp only [Written.tail, List.mem_cons] at hc
    rcases hc with rfl | rfl | rfl | hc
    · decide
    · decide
    · decide
    · exact (padded_ascii hc).1
  | dateOnly => simp [Written.tail] at hc

theorem map_toLower_padded {width n : Nat} :
    (padded 10 width n).map Char.toLower = padded 10 width n := by
  conv_rhs => rw [← List.map_id (padded 10 width n)]
  exact List.map_congr_left fun c hc => (padded_ascii hc).2.1

/-- The lower-cased name around the date. -/
theorem toList_name (L : Lowercase) (w : DatedName) :
    (L.apply w.name).toList = (w.lowBefore L ++ w.marker.toList) ++
      (w.digits ++ (w.written.tail.map Char.toLower ++ w.lowAfter L)) := by
  obtain ⟨_, hmarker, hascii⟩ := marker_plain w.marker_mem
  have hdigits : w.digits.map Char.toLower = w.digits := by simp [digits, map_toLower_padded]
  have hcore : ∀ c ∈ w.core, c.toNat < 128 := by
    intro c hc
    unfold core at hc
    rcases List.mem_append.mp hc with hc | hc
    · exact hascii c (List.mem_append_right _ hc)
    · rcases List.mem_append.mp hc with hc | hc
      · exact (digits_ascii hc).1
      · exact tail_ascii hc
  unfold Lowercase.apply name lowBefore lowAfter
  rw [String.toList_ofList, String.toList_ofList, Lowercase.between_append,
    Lowercase.between_append, Lowercase.between_ascii hcore]
  simp [core, hmarker, hdigits]

theorem length_encode_marker (L : Lowercase) (w : DatedName) :
    (encode (w.lowBefore L ++ w.marker.toList)).length =
      (encode (w.lowBefore L)).length + w.marker.length := by
  obtain ⟨_, _, hascii⟩ := marker_plain w.marker_mem
  rw [encode_append, List.length_append,
    encode_ascii fun c hc => hascii c (List.mem_append_left _ hc), List.length_map,
    String.length_toList]

theorem findText_marker (hlone : w.Lone L) {marker : String}
    (hmarker : marker ∈ clockMarkers w.media ++ [dayMarker w.media]) :
    findText marker (utf8 (L.apply w.name)) =
      (findText marker (ascii w.marker)).map ((encode (w.lowBefore L)).length + ·) := by
  obtain ⟨_, _, hascii⟩ := marker_plain w.marker_mem
  have hbytes : utf8 (L.apply w.name) = encode (w.lowBefore L) ++ (ascii w.marker ++
      encode (w.digits ++ (w.written.tail.map Char.toLower ++ w.lowAfter L))) := by
    have hmarked : encode w.marker.toList = ascii w.marker :=
      encode_ascii fun c hc => hascii c (List.mem_append_left _ hc)
    rw [utf8_eq, toList_name, encode_append, encode_append, hmarked, List.append_assoc]
  have hlength : ∀ text : String, (ascii text).length = text.length := fun text => by
    rw [ascii, List.length_map, String.length_toList]
  rw [hbytes]
  apply findText_part (marker_plain hmarker).1
  intro i hi
  rw [← hbytes] at hi
  simpa [hlength] using hlone.inside marker hmarker i hi

/-- The formats of both functions: every marker before a time of day, and then the other one. -/
def parseFormats (media : MediaTable) (name : String) : Option Time :=
  ((clockMarkers media).findSome? fun marker =>
      (findText marker (utf8 name)).bind fun pos =>
        tryParseDatetimeUnderscore name (pos + marker.length)) <|>
    (findText (dayMarker media) (utf8 name)).bind fun pos =>
      tryParseWhatsappFormat name (pos + (dayMarker media).length) <|>
        tryParseDateOnly name (pos + (dayMarker media).length)

theorem parse_eq_formats (L : Lowercase) (w : DatedName) :
    w.parse L = .ok (parseFormats w.media (L.apply w.name)) := by
  have hlength : "img_".length = 4 ∧ "img-".length = 4 ∧ "dji_".length = 4 ∧
      "sl_mo_vid_".length = 10 ∧ "vid_".length = 4 ∧ "vid-".length = 4 := by decide +kernel
  obtain ⟨himg, himgDay, hdji, hsl, hvid, hvidDay⟩ := hlength
  unfold parse parseFormats
  cases w.media with
  | images =>
    rw [runImageName_eq]
    unfold parseDateFromImageName
    simp only [clockMarkers, dayMarker, List.findSome?_cons, List.findSome?_nil, himg, himgDay]
    split
    next h => rw [h]
    next h => rw [h]
  | videos =>
    rw [runVideoName_eq]
    unfold parseDateFromVideoName
    simp only [clockMarkers, dayMarker, List.findSome?_cons, List.findSome?_nil, hdji, hsl, hvid,
      hvidDay]
    split
    next h => rw [h]; rfl
    next h =>
      rw [h]
      split
      next h' => rw [h']; rfl
      next h' =>
        rw [h']
        split
        next h'' => rw [h'']; rfl
        next h'' => rw [h'']; rfl

/-- A marker is found in another one of its kind only at the end, and the marker of the formats
without a time in no other. -/
theorem findText_markers {media : MediaTable} {own : String} (hown : own ∈ clockMarkers media) :
    (∀ marker ∈ clockMarkers media, ∀ k ∈ findText marker (ascii own),
        k + marker.length = own.length) ∧
      findText own (ascii own) = some 0 ∧ findText (dayMarker media) (ascii own) = none ∧
      findText own (ascii (dayMarker media)) = none ∧
      findText (dayMarker media) (ascii (dayMarker media)) = some 0 := by
  have all : ∀ media ∈ [MediaTable.images, MediaTable.videos], ∀ own ∈ clockMarkers media,
      (∀ marker ∈ clockMarkers media, ∀ k ∈ (findText marker (ascii own)).toList,
          k + marker.length = own.length) ∧
        findText own (ascii own) = some 0 ∧ findText (dayMarker media) (ascii own) = none ∧
        findText own (ascii (dayMarker media)) = none ∧
        findText (dayMarker media) (ascii (dayMarker media)) = some 0 := by decide +kernel
  obtain ⟨hends, hrest⟩ := all media (by cases media <;> simp) own hown
  exact ⟨fun marker hmarker k hk => hends marker hmarker k (Option.mem_toList.mpr hk), hrest⟩

/-- A search whose results are all one. -/
theorem findSome?_eq {α β : Type} {f : α → Option β} {xs : List α} {r : Option β} {x : α}
    (hx : x ∈ xs) (hown : f x = r) (hall : ∀ y ∈ xs, f y = none ∨ f y = r) :
    xs.findSome? f = r := by
  cases hfound : xs.findSome? f with
  | none => rw [← hown, List.findSome?_eq_none_iff.mp hfound x hx]
  | some b =>
    obtain ⟨y, hy, hfy⟩ := List.exists_of_findSome?_eq_some hfound
    rcases hall y hy with hnone | hr
    · rw [hnone] at hfy
      cases hfy
    · rw [← hfy, hr]

theorem parseFormats_clock (hlone : w.Lone L) (hclock : w.marker ∈ clockMarkers w.media) :
    parseFormats w.media (L.apply w.name) =
      tryParseDatetimeUnderscore (L.apply w.name)
        (encode (w.lowBefore L ++ w.marker.toList)).length := by
  obtain ⟨hends, hown, hday, _, _⟩ := findText_markers hclock
  have hsearch := findSome?_eq (f := fun marker =>
      (findText marker (utf8 (L.apply w.name))).bind fun pos =>
        tryParseDatetimeUnderscore (L.apply w.name) (pos + marker.length))
    (r := tryParseDatetimeUnderscore (L.apply w.name)
      ((encode (w.lowBefore L)).length + w.marker.length)) hclock
    (by simp [findText_marker hlone (List.mem_append_left _ hclock), hown])
    (fun marker hmem => by
      rw [findText_marker hlone (List.mem_append_left _ hmem)]
      cases hk : findText marker (ascii w.marker) with
      | none => exact Or.inl rfl
      | some k =>
        right
        rw [← hends marker hmem k hk, Option.map_some, Option.bind_some, Nat.add_assoc])
  unfold parseFormats
  rw [hsearch, findText_marker hlone (List.mem_append_right _ List.mem_cons_self), hday,
    length_encode_marker]
  simp

theorem parseFormats_day (hlone : w.Lone L) (hmarker : w.marker = dayMarker w.media) :
    parseFormats w.media (L.apply w.name) =
      (tryParseWhatsappFormat (L.apply w.name) (encode (w.lowBefore L ++ w.marker.toList)).length <|>
        tryParseDateOnly (L.apply w.name) (encode (w.lowBefore L ++ w.marker.toList)).length) := by
  have hfirst : (clockMarkers w.media).head? ≠ none := by cases w.media <;> simp [clockMarkers]
  obtain ⟨own, hown⟩ := Option.ne_none_iff_exists'.mp hfirst
  obtain ⟨_, _, _, _, hday⟩ := findText_markers (List.mem_of_head? hown)
  have hsearch : ((clockMarkers w.media).findSome? fun marker =>
      (findText marker (utf8 (L.apply w.name))).bind fun pos =>
        tryParseDatetimeUnderscore (L.apply w.name) (pos + marker.length)) = none := by
    apply List.findSome?_eq_none_iff.mpr
    intro marker hmem
    obtain ⟨_, _, _, hnone, _⟩ := findText_markers hmem
    rw [findText_marker hlone (List.mem_append_left _ hmem), hmarker, hnone]
    rfl
  unfold parseFormats
  rw [hsearch, findText_marker hlone (List.mem_append_right _ List.mem_cons_self),
    length_encode_marker, hmarker, hday]
  rfl

/-- A date is read from a name if and only if the underscore is looked for where one stands. -/
theorem parse_eq_instant_iff (hlone : w.Lone L) :
    w.parse L = .ok (some w.instant) ↔ w.Aligned L := by
  have hvalid := w.valid
  have hname := toList_name L w
  have hsurplus : (encode (w.lowBefore L ++ w.marker.toList)).length -
      (w.lowBefore L ++ w.marker.toList).length = w.surplus L := by
    rw [length_encode_marker, List.length_append, String.length_toList]
    unfold surplus
    omega
  rw [parse_eq_formats]
  unfold instant Aligned
  cases hwritten : w.written with
  | clock own hour minute second =>
    rw [hwritten] at hvalid
    obtain ⟨hclock, hhour, hminute, hsecond⟩ := hvalid
    have hmarker : w.marker = own := by rw [marker, hwritten, Written.marker]
    rw [hwritten] at hname
    have hcut : (L.apply w.name).toList = (w.lowBefore L ++ w.marker.toList) ++ (w.digits ++
        ('_' :: ((padded 10 2 hour ++ (padded 10 2 minute ++ padded 10 2 second)) ++
          w.lowAfter L))) := by
      rw [hname]
      simp [Written.tail, map_toLower_padded]
    have hread := tryParseDatetimeUnderscore_clock hhour hminute hsecond hcut
    rw [parseFormats_clock hlone (hmarker ▸ hclock), hread, hsurplus]
    simp only [Written.instant, Except.ok.injEq, ite_eq_left_iff, reduceCtorEq, imp_false, not_not]
  | whatsapp number =>
    rw [hwritten] at hvalid hname
    have hcut : (L.apply w.name).toList = (w.lowBefore L ++ w.marker.toList) ++ (w.digits ++
        ('-' :: 'w' :: 'a' :: padded 10 4 number ++ w.lowAfter L)) := by
      rw [hname]
      simp [Written.tail, map_toLower_padded]
    rw [parseFormats_day hlone (by rw [marker, hwritten, Written.marker])]
    rw [tryParseWhatsappFormat_number hvalid hcut]
    simp [Written.instant]
  | dateOnly =>
    rw [hwritten] at hname
    have hcut : (L.apply w.name).toList = (w.lowBefore L ++ w.marker.toList) ++ (w.digits ++
        w.lowAfter L) := by
      rw [hname]
      simp [Written.tail]
    rw [parseFormats_day hlone (by rw [marker, hwritten, Written.marker])]
    rw [tryParseWhatsappFormat_none hcut (hlone.no_number hwritten), tryParseDateOnly_digits hcut]
    simp [Written.instant]

/-- Lower-casing in which only ASCII characters change. -/
def asciiLowercase : Lowercase := ⟨fun _ c _ => [c.toLower], fun _ _ _ _ => rfl⟩

/-- Neither function panics on any name, and on a name with a single marker each reads the date if
and only if the underscore is looked for where one stands. -/
theorem parse_names (L : Lowercase) :
    (∀ lowercase name, runImageName lowercase name ≠ .error .panic ∧
        runVideoName lowercase name ≠ .error .panic) ∧
      ∀ w : DatedName, w.Lone L → (w.parse L = .ok (some w.instant) ↔ w.Aligned L) := by
  refine ⟨fun lowercase name => ?_, fun w => parse_eq_instant_iff⟩
  rw [runImageName_eq, runVideoName_eq]
  simp

/-- Where markers stand is found by looking at every byte of the name. -/
theorem lone_of_range {n : Nat} (hlength : (utf8 (L.apply w.name)).length ≤ n)
    (hinside : ∀ marker ∈ clockMarkers w.media ++ [dayMarker w.media], ∀ i ∈ List.range n,
      startsWith ((utf8 (L.apply w.name)).drop i) (ascii marker) = true →
        (encode (w.lowBefore L)).length ≤ i ∧
          i + marker.length ≤ (encode (w.lowBefore L)).length + w.marker.length)
    (hnumber : w.written = .dateOnly → numberFollows (encode (w.lowAfter L)) = false) :
    w.Lone L := by
  refine ⟨fun marker hmarker i hi => ?_, hnumber⟩
  rcases Nat.lt_or_ge i n with hlt | hge
  · exact hinside marker hmarker i (List.mem_range.mpr hlt) hi
  · have hfit := length_of_startsWith hi
    have hpos : 0 < (ascii marker).length := by
      simpa [ascii, List.length_pos_iff] using (marker_plain hmarker).1
    rw [List.length_drop] at hfit
    omega

/-- A photo of a camera, as it is named there or behind a prefix. -/
def cameraName (before : List Char) : DatedName :=
  { media := .images, before := before, year := 2023, month := 12, day := 22
    written := .clock "img_" 19 12 41, after := ".jpg".toList
    year_le := by decide, date := by decide
    valid := by simp only [Written.Valid]; decide +kernel }

theorem parse_camera :
    (cameraName []).name = "IMG_20231222_191241.jpg" ∧
      (cameraName []).parse asciiLowercase = .ok (some (cameraName []).instant) := by
  have hlone : (cameraName []).Lone asciiLowercase :=
    lone_of_range (n := 25) (by decide +kernel) (by decide +kernel) fun h => by cases h
  exact ⟨by decide +kernel,
    ((parse_names asciiLowercase).2 (cameraName []) hlone).mpr (Or.inl (by decide +kernel))⟩

/-- A letter with an accent in front of the marker shifts the bytes against the characters. -/
theorem parse_accented :
    (cameraName ['é']).name = "éIMG_20231222_191241.jpg" ∧
      (cameraName ['é']).Lone asciiLowercase ∧
      (cameraName ['é']).parse asciiLowercase = .ok none ∧
      (cameraName ['é']).parse asciiLowercase ≠ .ok (some (cameraName ['é']).instant) := by
  have hlone : (cameraName ['é']).Lone asciiLowercase :=
    lone_of_range (n := 25) (by decide +kernel) (by decide +kernel) fun h => by cases h
  exact ⟨by decide +kernel, hlone, by decide +kernel, by decide +kernel⟩

end Law

end DatedName

end Reminisce

import Reminisce.PhotoDates
import Reminisce.Library.Numerals
import Reminisce.Library.Utf8

namespace Reminisce

open Numerals Utf8

/-- `str::to_lowercase` turns a character into its lower-case characters, which for a sigma depend
on the text around it, and an ASCII letter into its lower-case letter. -/
structure Lowercase where
  char : (before : List Char) → Char → (after : List Char) → List Char
  char_ascii : ∀ before c after, c.toNat < 128 → char before c after = [c.toLower]

namespace Lowercase

/-- The lower case of a text between two others. -/
def between (L : Lowercase) : (before text after : List Char) → List Char
  | _, [], _ => []
  | before, c :: cs, after => L.char before c (cs ++ after) ++ L.between (before ++ [c]) cs after

def apply (L : Lowercase) (s : String) : String := String.ofList (L.between [] s.toList [])

end Lowercase

/-- What stands in a name around the date: a marker before a date with a time, or the marker of
the formats without one. -/
inductive Written
  | clock (marker : String) (hour minute second : Nat)
  | whatsapp (number : Nat)
  | dateOnly
  deriving DecidableEq, Repr

def clockMarkers : MediaTable → List String
  | .images => ["img_"]
  | .videos => ["dji_", "sl_mo_vid_", "vid_"]

def dayMarker : MediaTable → String
  | .images => "img-"
  | .videos => "vid-"

namespace Written

/-- A leap second counts as the sixtieth. -/
def Valid (media : MediaTable) : Written → Prop
  | clock marker hour minute second =>
    marker ∈ clockMarkers media ∧ hour < 24 ∧ minute < 60 ∧ second ≤ 60
  | whatsapp number => number < 10000
  | dateOnly => True

def marker (media : MediaTable) : Written → String
  | clock marker _ _ _ => marker
  | whatsapp _ => dayMarker media
  | dateOnly => dayMarker media

def tail : Written → List Char
  | clock _ hour minute second =>
    '_' :: (padded 10 2 hour ++ (padded 10 2 minute ++ padded 10 2 second))
  | whatsapp number => '-' :: 'W' :: 'A' :: padded 10 4 number
  | dateOnly => []

def instant (days : Nat) : Written → Time
  | clock _ hour minute second => secs (secsPerDay * days + (3600 * hour + 60 * minute + second))
  | whatsapp number => secs (secsPerDay * days) + number % 1000 * 1000000
  | dateOnly => secs (secsPerDay * days)

end Written

/-- A file name with a date written between a prefix and a suffix. -/
structure DatedName where
  media : MediaTable
  before : List Char
  year : Nat
  month : Nat
  day : Nat
  written : Written
  after : List Char
  year_le : year ≤ 9999
  date : (naiveDate year month day).isSome
  valid : written.Valid media

namespace DatedName

def days (w : DatedName) : Nat := (naiveDate w.year w.month w.day).get w.date

def digits (w : DatedName) : List Char :=
  padded 10 4 w.year ++ (padded 10 2 w.month ++ padded 10 2 w.day)

def marker (w : DatedName) : String := w.written.marker w.media

/-- The marker in upper case, the date and what is written behind it. -/
def core (w : DatedName) : List Char :=
  w.marker.toList.map Char.toUpper ++ (w.digits ++ w.written.tail)

def name (w : DatedName) : String := String.ofList (w.before ++ (w.core ++ w.after))

def instant (w : DatedName) : Time := w.written.instant w.days

def parse (L : Lowercase) (w : DatedName) : Except Failure (Option Time) :=
  match w.media with
  | .images => runImageName L.apply w.name
  | .videos => runVideoName L.apply w.name

/-- The prefix and the suffix as they stand in the lower-cased name. -/
def lowBefore (L : Lowercase) (w : DatedName) : List Char :=
  L.between [] w.before (w.core ++ w.after)

def lowAfter (L : Lowercase) (w : DatedName) : List Char :=
  L.between (w.before ++ w.core) w.after []

end DatedName

/-- `-wa` and four digits. -/
def numberFollows (text : Bytes) : Bool :=
  startsWith text (ascii "-wa") && ((text.drop 3).take 4).length = 4 &&
    ((text.drop 3).take 4).all isAsciiDigit

namespace DatedName

/-- No marker stands in the lower-cased name but in the one that is written, and no number follows
a date that is written alone. -/
structure Lone (L : Lowercase) (w : DatedName) : Prop where
  inside : ∀ marker ∈ clockMarkers w.media ++ [dayMarker w.media], ∀ i,
    startsWith ((utf8 (L.apply w.name)).drop i) (ascii marker) = true →
      (encode (w.lowBefore L)).length ≤ i ∧
        i + marker.length ≤ (encode (w.lowBefore L)).length + w.marker.length
  no_number : w.written = .dateOnly → numberFollows (encode (w.lowAfter L)) = false

/-- The bytes of the prefix beyond one for each character. -/
def surplus (L : Lowercase) (w : DatedName) : Nat :=
  (encode (w.lowBefore L)).length - (w.lowBefore L).length

/-- The place where the underscore is looked for holds one: its own, or one in the suffix. -/
def Aligned (L : Lowercase) (w : DatedName) : Prop :=
  match w.written with
  | .clock _ _ _ _ =>
    w.surplus L = 0 ∨ 7 ≤ w.surplus L ∧ (w.lowAfter L)[w.surplus L - 7]? = some '_'
  | _ => True

end DatedName

section Lowering

variable {L : Lowercase} {before xs ys after : List Char}

theorem Lowercase.between_append :
    L.between before (xs ++ ys) after =
      L.between before xs (ys ++ after) ++ L.between (before ++ xs) ys after := by
  induction xs generalizing before with
  | nil => simp [between]
  | cons x xs ih => simp [between, ih]

theorem Lowercase.between_ascii (h : ∀ c ∈ xs, c.toNat < 128) :
    L.between before xs after = xs.map Char.toLower := by
  induction xs generalizing before with
  | nil => rfl
  | cons x xs ih =>
    have hx := L.char_ascii before x (xs ++ after) (h x List.mem_cons_self)
    rw [between, hx, ih fun c hc => h c (List.mem_cons_of_mem _ hc)]
    rfl

theorem padded_ascii {width n : Nat} {c : Char} (hc : c ∈ padded 10 width n) :
    c.toNat < 128 ∧ c.toLower = c ∧ c ≠ '_' ∧ isAsciiDigit (UInt8.ofNat c.toNat) = true := by
  obtain ⟨d, hd, rfl⟩ := mem_padded (by omega) hc
  have all : ∀ d ∈ List.range 10, (Nat.digitChar d).toNat < 128 ∧
      (Nat.digitChar d).toLower = Nat.digitChar d ∧ Nat.digitChar d ≠ '_' ∧
      isAsciiDigit (UInt8.ofNat (Nat.digitChar d).toNat) = true := by decide
  exact all d (List.mem_range.mpr hd)

end Lowering

section Search

variable {text : String} {first found last : Bytes} {i : Nat}

theorem startsWith_iff {data part : Bytes} : startsWith data part = true ↔ data.take part.length = part := by
  simp [startsWith]

theorem findText_cases (text : String) (data : Bytes) (htext : text ≠ "") :
    (findText text data = none ∧ ∀ i, startsWith (data.drop i) (ascii text) = false) ∨
      ∃ i, findText text data = some i ∧ startsWith (data.drop i) (ascii text) = true ∧
        ∀ j < i, startsWith (data.drop j) (ascii text) = false := by
  have hascii : ascii text ≠ [] := by simpa [ascii] using htext
  induction data with
  | nil =>
    refine Or.inl ⟨rfl, fun i => ?_⟩
    simp [startsWith, Ne.symm hascii]
  | cons b data ih =>
    unfold findText
    by_cases hstart : startsWith (b :: data) (ascii text) = true
    · exact Or.inr ⟨0, by simp [hstart], by simpa using hstart, fun j hj => absurd hj (by omega)⟩
    · simp only [hstart]
      rcases ih with ⟨hnone, hall⟩ | ⟨i, hsome, hoccurs, hfirst⟩
      · refine Or.inl ⟨by simp [hnone], fun i => ?_⟩
        cases i with
        | zero => simpa using hstart
        | succ i => exact hall i
      · refine Or.inr ⟨i + 1, by simp [hsome], hoccurs, fun j hj => ?_⟩
        cases j with
        | zero => simpa using hstart
        | succ j => exact hfirst j (by omega)

/-- Within a part of the data, what fits into the part is found there. -/
theorem startsWith_drop_part (first last : Bytes) {part : Bytes} {k : Nat} (hk : k + part.length ≤ found.length) :
    startsWith ((first ++ (found ++ last)).drop (first.length + k)) part =
      startsWith (found.drop k) part := by
  have hdrop : (first ++ (found ++ last)).drop (first.length + k) = found.drop k ++ last := by
    rw [List.drop_append, List.drop_append_of_le_length (by omega)]
    simp
  have htake : (found.drop k ++ last).take part.length = (found.drop k).take part.length := by
    rw [List.take_append_of_le_length]
    simp
    omega
  unfold startsWith
  rw [hdrop, htake]

theorem length_of_startsWith {data part : Bytes} (h : startsWith data part = true) :
    part.length ≤ data.length := by
  have hlength := congrArg List.length (startsWith_iff.mp h)
  rw [List.length_take] at hlength
  omega

/-- A text that occurs within one part only is found where it is found in that part. -/
theorem findText_part (htext : text ≠ "")
    (hinside : ∀ i, startsWith ((first ++ (found ++ last)).drop i) (ascii text) = true →
      first.length ≤ i ∧ i + (ascii text).length ≤ first.length + found.length) :
    findText text (first ++ (found ++ last)) = (findText text found).map (first.length + ·) := by
  rcases findText_cases text (first ++ (found ++ last)) htext with
    ⟨hnone, hall⟩ | ⟨i, hsome, hoccurs, hfirst⟩
  · rcases findText_cases text found htext with ⟨hpart, _⟩ | ⟨k, hpart, hk, _⟩
    · rw [hnone, hpart]
      rfl
    · have hlength := length_of_startsWith hk
      have hne : 0 < (ascii text).length := by
        simpa [ascii, List.length_pos_iff] using htext
      rw [List.length_drop] at hlength
      rw [← startsWith_drop_part first last (by omega), hall] at hk
      cases hk
  · obtain ⟨hge, hle⟩ := hinside i hoccurs
    obtain ⟨k, rfl⟩ := Nat.exists_eq_add_of_le hge
    have hk : startsWith (found.drop k) (ascii text) = true := by
      rwa [startsWith_drop_part _ _ (by omega)] at hoccurs
    rcases findText_cases text found htext with ⟨_, hall⟩ | ⟨j, hpart, hj, hearlier⟩
    · rw [hall k] at hk
      cases hk
    · have hkj : ¬ k < j := fun hlt => by
        rw [hearlier k hlt] at hk
        cases hk
      have hjk : ¬ j < k := fun hlt => by
        have hbefore := hfirst (first.length + j) (by omega)
        rw [startsWith_drop_part _ _ (by omega), hj] at hbefore
        cases hbefore
      rw [hsome, hpart, show k = j by omega]
      rfl

end Search

section Digits

/-- The bytes of ASCII characters. -/
def asciiBytes (cs : List Char) : Bytes := cs.map fun c => UInt8.ofNat c.toNat

theorem digitsValue_padded {width n : Nat} (h : n < 10 ^ width) :
    digitsValue (asciiBytes (padded 10 width n)) = n := by
  induction width generalizing n with
  | zero =>
    have hzero : n = 0 := by simpa using h
    simp [hzero, padded, asciiBytes, digitsValue]
  | succ width ih =>
    have hquot : n / 10 < 10 ^ width := by
      rw [Nat.div_lt_iff_lt_mul (by omega)]
      simpa [Nat.pow_succ] using h
    have all : ∀ d ∈ List.range 10, (UInt8.ofNat (Nat.digitChar d).toNat).toNat - 48 = d := by decide
    have hlast := all (n % 10) (List.mem_range.mpr (Nat.mod_lt n (by omega)))
    have hinit := ih hquot
    unfold digitsValue asciiBytes at hinit ⊢
    rw [padded, List.map_append, List.foldl_append, hinit]
    simp only [List.map_cons, List.map_nil, List.foldl_cons, List.foldl_nil, hlast]
    omega

theorem length_asciiBytes {cs : List Char} : (asciiBytes cs).length = cs.length := by
  simp [asciiBytes]

theorem asciiBytes_append {cs ds : List Char} :
    asciiBytes (cs ++ ds) = asciiBytes cs ++ asciiBytes ds := by
  simp [asciiBytes]

/-- Fields of two digits behind a first one. -/
theorem take_drop_fields {a b c : Bytes} {n : Nat} (ha : a.length = n) (hb : b.length = 2) :
    (a ++ (b ++ c)).take n = a ∧ ((a ++ (b ++ c)).drop n).take 2 = b ∧
      (a ++ (b ++ c)).drop (n + 2) = c := by
  subst ha
  have hdrop : (a ++ (b ++ c)).drop (a.length + 2) = ((a ++ (b ++ c)).drop a.length).drop 2 := by
    rw [List.drop_drop]
  rw [hdrop]
  simp [← hb]

namespace DatedName

variable {w : DatedName}

theorem days_eq (w : DatedName) : naiveDate w.year w.month w.day = some w.days :=
  (Option.some_get w.date).symm

theorem length_digits : w.digits.length = 8 := by simp [digits]

theorem parseNaiveDate_digits : parseNaiveDate (asciiBytes w.digits) = some w.days := by
  have hyear := w.year_le
  obtain ⟨hmonth, hday⟩ := naiveDate_fields_lt w.days_eq
  have hlength : ∀ width n, (asciiBytes (padded 10 width n)).length = width := by
    simp [length_asciiBytes]
  obtain ⟨htake, hmiddle, hdrop⟩ := take_drop_fields
    (c := asciiBytes (padded 10 2 w.day)) (hlength 4 w.year) (hlength 2 w.month)
  unfold parseNaiveDate digits
  rw [asciiBytes_append, asciiBytes_append, htake, hmiddle, hdrop, digitsValue_padded (by omega),
    digitsValue_padded hmonth, digitsValue_padded hday]
  exact w.days_eq

end DatedName

theorem parseNaiveTime_padded {hour minute second : Nat} (hhour : hour < 24) (hminute : minute < 60)
    (hsecond : second ≤ 60) :
    parseNaiveTime (asciiBytes (padded 10 2 hour ++ (padded 10 2 minute ++ padded 10 2 second))) =
      some (3600 * hour + 60 * minute + second) := by
  have hlength : ∀ width n, (asciiBytes (padded 10 width n)).length = width := by
    simp [length_asciiBytes]
  obtain ⟨htake, hmiddle, hdrop⟩ := take_drop_fields
    (c := asciiBytes (padded 10 2 second)) (hlength 2 hour) (hlength 2 minute)
  simp only [Nat.reduceAdd] at hdrop
  unfold parseNaiveTime
  simp only [asciiBytes_append, htake, hmiddle, hdrop]
  rw [digitsValue_padded (by omega), digitsValue_padded (by omega), digitsValue_padded (by omega),
    if_pos ⟨hhour, hminute, hsecond⟩]

end Digits

end Reminisce

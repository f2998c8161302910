import Reminisce.Ingest
import Reminisce.Segments

namespace Reminisce

/-- The days of the Gregorian calendar before a year, counted from the start of the year 0. -/
def daysBeforeYear (year : Nat) : Nat :=
  365 * year + (year + 3) / 4 + (year + 399) / 400 - (year + 99) / 100

def isLeapYear (year : Nat) : Bool := year % 4 = 0 && (year % 100 ≠ 0 || year % 400 = 0)

def monthLengths (year : Nat) : List Nat :=
  [31, if isLeapYear year then 29 else 28, 31, 30, 31, 30, 31, 31, 30, 31, 30, 31]

/-- `NaiveDate`, as a number of days. -/
def naiveDate (year month day : Nat) : Option Nat :=
  match (monthLengths year)[month - 1]? with
  | some length =>
    if 1 ≤ month ∧ 1 ≤ day ∧ day ≤ length then
      some (daysBeforeYear year + ((monthLengths year).take (month - 1)).sum + (day - 1))
    else none
  | none => none

theorem naiveDate_eq_some {year month day date : Nat} (h : naiveDate year month day = some date) :
    ∃ length, (monthLengths year)[month - 1]? = some length ∧ 1 ≤ month ∧ 1 ≤ day ∧ day ≤ length ∧
      date = daysBeforeYear year + ((monthLengths year).take (month - 1)).sum + (day - 1) := by
  unfold naiveDate at h
  split at h
  next length hlength =>
    split at h
    next hvalid => exact ⟨length, hlength, hvalid.1, hvalid.2.1, hvalid.2.2, (Option.some.inj h).symm⟩
    next => cases h
  next => cases h

theorem naiveDate_fields_lt {year month day date : Nat} (h : naiveDate year month day = some date) :
    month < 10 ^ 2 ∧ day < 10 ^ 2 := by
  obtain ⟨length, hlength, _, _, hday, _⟩ := naiveDate_eq_some h
  have hmonth := (List.getElem?_eq_some_iff.mp hlength).1
  have hmem := List.mem_of_getElem? hlength
  simp only [monthLengths, List.length_cons, List.length_nil, List.mem_cons, List.not_mem_nil,
    or_false] at hmonth hmem
  have hbound : length ≤ 31 := by
    split at hmem <;> omega
  omega

def secsPerDay : Nat := 86400

/-- The value of decimal digits. -/
def digitsValue (digits : Bytes) : Nat := digits.foldl (fun n b => 10 * n + (b.toNat - 48)) 0

def isAsciiDigit (b : UInt8) : Bool := 48 ≤ b && b ≤ 57

/-- `NaiveDate::parse_from_str` with `%Y%m%d` on eight digits. -/
def parseNaiveDate (digits : Bytes) : Option Nat :=
  naiveDate (digitsValue (digits.take 4)) (digitsValue ((digits.drop 4).take 2))
    (digitsValue (digits.drop 6))

/-- `%H%M%S` on six digits, where a leap second is allowed. -/
def parseNaiveTime (digits : Bytes) : Option Nat :=
  let hour := digitsValue (digits.take 2)
  let minute := digitsValue ((digits.drop 2).take 2)
  let second := digitsValue (digits.drop 4)
  if hour < 24 ∧ minute < 60 ∧ second ≤ 60 then some (3600 * hour + 60 * minute + second) else none

/-- `name.get(start..start + length)` where it is digits; a cut through a character is none. -/
def digitsAt (name : String) (start length : Nat) : Option Bytes :=
  let part := ((utf8 name).drop start).take length
  if part.length = length ∧ part.all isAsciiDigit then some part else none

/-- The position in bytes of an ASCII text. -/
def findText (text : String) : Bytes → Option Nat
  | [] => none
  | b :: rest => if startsWith (b :: rest) (ascii text) then some 0 else (findText text rest).map (· + 1)

/-- The underscore is looked for at a number of characters, the digits at a number of bytes. -/
def tryParseDatetimeUnderscore (name : String) (start : Nat) : Option Time :=
  if name.toList[start + 8]? = some '_' then do
    let date ← parseNaiveDate (← digitsAt name start 8)
    let time ← parseNaiveTime (← digitsAt name (start + 9) 6)
    some (secs (secsPerDay * date + time))
  else none

def tryParseWhatsappFormat (name : String) (start : Nat) : Option Time :=
  if startsWith ((utf8 name).drop (start + 8)) (ascii "-wa") then do
    let date ← parseNaiveDate (← digitsAt name start 8)
    let millis := digitsValue (← digitsAt name (start + 11) 4)
    some (secs (secsPerDay * date) + millis % 1000 * 1000000)
  else none

def tryParseDateOnly (name : String) (start : Nat) : Option Time := do
  let date ← parseNaiveDate (← digitsAt name start 8)
  some (secs (secsPerDay * date))

def parseDateFromImageName (lowercase : String → String) (imageName : String) : Option Time :=
  let name := lowercase imageName
  ((findText "img_" (utf8 name)).bind fun pos => tryParseDatetimeUnderscore name (pos + 4)) <|>
    (findText "img-" (utf8 name)).bind fun pos =>
      tryParseWhatsappFormat name (pos + 4) <|> tryParseDateOnly name (pos + 4)

def parseDateFromVideoName (lowercase : String → String) (videoName : String) : Option Time :=
  let name := lowercase videoName
  ((findText "dji_" (utf8 name)).bind fun pos => tryParseDatetimeUnderscore name (pos + 4)) <|>
    ((findText "sl_mo_vid_" (utf8 name)).bind fun pos =>
      tryParseDatetimeUnderscore name (pos + 10)) <|>
    ((findText "vid_" (utf8 name)).bind fun pos => tryParseDatetimeUnderscore name (pos + 4)) <|>
    (findText "vid-" (utf8 name)).bind fun pos =>
      tryParseWhatsappFormat name (pos + 4) <|> tryParseDateOnly name (pos + 4)

/-- `NaiveDate::and_hms_opt`. -/
def andHmsOpt (date hour minute second : Nat) : Option Time :=
  if hour < 24 ∧ minute < 60 ∧ second < 60 then
    some (secs (secsPerDay * date + (3600 * hour + 60 * minute + second)))
  else none

/-- `Option::unwrap`. -/
def unwrap {α : Type} : Option α → Except Failure α
  | some a => .ok a
  | none => .error .panic

/-- `try_parse_date_only` with the `unwrap` that it makes. -/
def runDateOnly (name : String) (start : Nat) : Except Failure (Option Time) :=
  match (digitsAt name start 8).bind parseNaiveDate with
  | none => .ok none
  | some date => (unwrap (andHmsOpt date 0 0 0)).map some

/-- The formats without a time of day, tried last. -/
def runDayFormats (marker name : String) : Except Failure (Option Time) :=
  match findText marker (utf8 name) with
  | none => .ok none
  | some pos =>
    match tryParseWhatsappFormat name (pos + 4) with
    | some time => .ok (some time)
    | none => runDateOnly name (pos + 4)

/-- `parse_date_from_image_name`, where an `unwrap` may panic. -/
def runImageName (lowercase : String → String) (imageName : String) :
    Except Failure (Option Time) :=
  let name := lowercase imageName
  match (findText "img_" (utf8 name)).bind fun pos => tryParseDatetimeUnderscore name (pos + 4) with
  | some time => .ok (some time)
  | none => runDayFormats "img-" name

/-- `parse_date_from_video_name`, where an `unwrap` may panic. -/
def runVideoName (lowercase : String → String) (videoName : String) :
    Except Failure (Option Time) :=
  let name := lowercase videoName
  match (findText "dji_" (utf8 name)).bind fun pos => tryParseDatetimeUnderscore name (pos + 4) with
  | some time => .ok (some time)
  | none =>
    match (findText "sl_mo_vid_" (utf8 name)).bind fun pos =>
      tryParseDatetimeUnderscore name (pos + 10) with
    | some time => .ok (some time)
    | none =>
      match (findText "vid_" (utf8 name)).bind fun pos =>
        tryParseDatetimeUnderscore name (pos + 4) with
      | some time => .ok (some time)
      | none => runDayFormats "vid-" name

theorem runDayFormats_eq (marker name : String) :
    runDayFormats marker name = .ok ((findText marker (utf8 name)).bind fun pos =>
      tryParseWhatsappFormat name (pos + 4) <|> tryParseDateOnly name (pos + 4)) := by
  have hday : ∀ start, runDateOnly name start = .ok (tryParseDateOnly name start) := by
    intro start
    unfold runDateOnly tryParseDateOnly
    cases digitsAt name start 8 with
    | none => rfl
    | some digits => cases h : parseNaiveDate digits <;> simp [h, andHmsOpt, unwrap, Except.map]
  unfold runDayFormats
  cases findText marker (utf8 name) with
  | none => rfl
  | some pos =>
    simp only [hday, Option.bind_some]
    cases tryParseWhatsappFormat name (pos + 4) <;> rfl

/-- Midnight exists on every day, so the `unwrap` of an image name's date succeeds. -/
theorem runImageName_eq (lowercase : String → String) (imageName : String) :
    runImageName lowercase imageName = .ok (parseDateFromImageName lowercase imageName) := by
  unfold runImageName parseDateFromImageName
  simp only [runDayFormats_eq]
  split
  next h => simp [h]
  next h => simp [h]

theorem runVideoName_eq (lowercase : String → String) (videoName : String) :
    runVideoName lowercase videoName = .ok (parseDateFromVideoName lowercase videoName) := by
  unfold runVideoName parseDateFromVideoName
  simp only [runDayFormats_eq]
  split
  next h => simp [h]
  next h =>
    split
    next h' => simp [h, h']
    next h' =>
      split
      next h'' => simp [h, h', h'']
      next h'' => simp [h, h', h'']

end Reminisce

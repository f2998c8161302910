import Reminisce.Library.ByteOrder
import Reminisce.Library.Results
import Reminisce.Primitives

namespace Reminisce

open ByteOrder

/-- How the patcher would not return: by an index out of bounds, by an overflow where these are
checked, or by recursing without end. -/
inductive PatchFault
  | outOfBounds
  | overflow
  | unfinished
  deriving DecidableEq, Repr

/-- `bytes.get(start..stop)`. -/
def getRange (bytes : Bytes) (start stop : Nat) : Option Bytes :=
  if start ≤ stop ∧ stop ≤ bytes.length then some ((bytes.drop start).take (stop - start)) else none

/-- `&bytes[start..stop]`. -/
def indexRange (bytes : Bytes) (start stop : Nat) : Except PatchFault Bytes :=
  match getRange bytes start stop with
  | some range => .ok range
  | none => .error .outOfBounds

/-- `bytes[at]`. -/
def indexByte (bytes : Bytes) (pos : Nat) : Except PatchFault UInt8 :=
  match bytes[pos]? with
  | some b => .ok b
  | none => .error .outOfBounds

/-- `bytes[at..at + data.len()].copy_from_slice(data)`. -/
def copyInto (bytes : Bytes) (pos : Nat) (data : Bytes) : Except PatchFault Bytes :=
  if pos + data.length ≤ bytes.length then
    .ok (bytes.take pos ++ data ++ bytes.drop (pos + data.length))
  else .error .outOfBounds

/-- `n + 1` in so many bits, in a build with or without overflow checks. -/
def increment (checks : Bool) (bits n : Nat) : Except PatchFault Nat :=
  if n + 1 < 2 ^ bits then .ok (n + 1) else if checks then .error .overflow else .ok 0

def exifHeader : Bytes := [0x45, 0x78, 0x69, 0x66, 0, 0]

/-- The loop of `find_exif_app1`, for so many rounds. -/
def findExifFrom (jpeg : Bytes) : (rounds pos : Nat) → Except PatchFault (Option (Nat × Nat))
  | 0, pos => if pos + 4 ≤ jpeg.length then .error .unfinished else .ok none
  | rounds + 1, pos =>
    if pos + 4 ≤ jpeg.length then do
      if (← indexByte jpeg pos) ≠ 0xff then pure none
      else
        let marker ← indexByte jpeg (pos + 1)
        if marker = 0xff then findExifFrom jpeg rounds (pos + 1)
        else if marker = 0xda then pure none
        else
          let segLen := Order.big.decode [← indexByte jpeg (pos + 2), ← indexByte jpeg (pos + 3)]
          if segLen < 2 then pure none
          else if marker = 0xe1 ∧ getRange jpeg (pos + 4) (pos + 10) = some exifHeader then
            pure (some (pos, segLen + 2))
          else findExifFrom jpeg rounds (pos + (2 + segLen))
    else .ok none

/-- The first Exif APP1 segment, as `(marker_pos, total_len)`. -/
def findExifApp1 (jpeg : Bytes) : Except PatchFault (Option (Nat × Nat)) :=
  if jpeg.length < 4 then .ok none
  else do
    if (← indexByte jpeg 0) ≠ 0xff ∨ (← indexByte jpeg 1) ≠ 0xd8 then pure none
    else findExifFrom jpeg jpeg.length 2

/-- The injected APP1, 36 bytes long. -/
def minimalApp1 (orientation : Nat) : Bytes :=
  [0xff, 0xe1, 0x00, 0x22] ++ exifHeader ++ [0x49, 0x49, 0x2a, 0x00, 0x08, 0x00, 0x00, 0x00,
    0x01, 0x00, 0x12, 0x01, 0x03, 0x00, 0x01, 0x00, 0x00, 0x00] ++ toLe 2 orientation ++
    [0, 0, 0, 0, 0, 0]

def injectExifOrientation (jpeg : Bytes) (orientation : Nat) : Except PatchFault Bytes :=
  if jpeg.length < 4 then .ok jpeg
  else do
    if (← indexByte jpeg 0) ≠ 0xff ∨ (← indexByte jpeg 1) ≠ 0xd8 then pure jpeg
    else
      match ← findExifApp1 jpeg with
      | some _ => pure jpeg
      | none =>
        pure ((← indexRange jpeg 0 2) ++ minimalApp1 orientation ++
          (← indexRange jpeg 2 jpeg.length))

/-- `Endian::parse`. -/
def parseEndian (b : Bytes) : Option Order :=
  if b = [0x49, 0x49] then some .little else if b = [0x4d, 0x4d] then some .big else none

/-- `Endian::u16` and `Endian::u32` of the first bytes. -/
def readNumber (endian : Order) (width : Nat) (b : Bytes) : Option Nat :=
  (getRange b 0 width).map endian.decode

/-- Byte size of one value, for the types that are known. -/
def tiffValueSize (typ count : Nat) : Option Nat :=
  let unit := match typ with
    | 1 | 2 | 6 | 7 => some 1
    | 3 | 8 => some 2
    | 4 | 9 | 11 => some 4
    | 5 | 10 | 12 => some 8
    | _ => none
  unit.bind fun unit => if unit * count < 2 ^ 32 then some (unit * count) else none

def orientationTag : Nat := 0x0112
def exifSubIfdTag : Nat := 0x8769
def gpsSubIfdTag : Nat := 0x8825

def IsSubIfd (tag : Nat) : Prop := tag = exifSubIfdTag ∨ tag = gpsSubIfdTag

instance (tag : Nat) : Decidable (IsSubIfd tag) := inferInstanceAs (Decidable (_ ∨ _))

/-- Where the entries of a table with `count` entries stand. -/
def entryPositions (off count : Nat) : List Nat := (List.range count).map fun i => off + 2 + i * 12

structure IfdEntry where
  tag : Nat
  typ : Nat
  count : Nat
  value : Nat
  deriving DecidableEq, Repr

def readEntry (tiff : Bytes) (endian : Order) (e : Nat) : Option IfdEntry := do
  let entry ← getRange tiff e (e + 12)
  let tag ← readNumber endian 2 (← getRange entry 0 2)
  let typ ← readNumber endian 2 (← getRange entry 2 4)
  let count ← readNumber endian 4 (← getRange entry 4 8)
  let value ← readNumber endian 4 (← getRange entry 8 12)
  pure ⟨tag, typ, count, value⟩

/-- What `walk_ifd` does about one pointer field: it marks it, and follows it to a table. -/
structure Visit where
  field : Nat
  target : Nat
  marked : Bool
  followed : Bool
  deriving DecidableEq, Repr

section Walk

variable (checks : Bool) (tiff : Bytes) (endian : Order) (e4 : Nat)

def visitEntry (depth e : Nat) : Option Visit := do
  let entry ← readEntry tiff endian e
  let size ← tiffValueSize entry.typ entry.count
  let moved : Bool := decide (e4 ≤ entry.value) && decide (entry.value ≤ tiff.length)
  if 4 < size then
    pure ⟨e + 8, entry.value, moved, moved && decide (depth < 2) && decide (IsSubIfd entry.tag)⟩
  else if entry.count = 1 ∧ entry.typ = 4 then
    let sub := decide (IsSubIfd entry.tag) && moved
    pure ⟨e + 8, entry.value, sub, sub⟩
  else pure ⟨e + 8, entry.value, false, false⟩

/-- The chain to the next table behind the entries. -/
def visitNext (depth entriesEnd : Nat) : Option Visit := do
  let next ← readNumber endian 4 (← getRange tiff entriesEnd (entriesEnd + 4))
  let moved := decide (next ≠ 0) && decide (e4 ≤ next) && decide (next ≤ tiff.length)
  pure ⟨entriesEnd, next, moved, moved && decide (depth = 0)⟩

/-- The entry count of a table that lies within the segment. -/
def tableCount (off : Nat) : Option Nat :=
  if tiff.length < off + 2 then none
  else do
    let n ← readNumber endian 2 (← getRange tiff off (off + 2))
    if n = 0 ∨ 0x2000 < n ∨ tiff.length < off + 2 + n * 12 + 4 then none else pure n

def tableVisits (off depth n : Nat) : List (Option Visit) :=
  (entryPositions off n).map (visitEntry tiff endian e4 depth) ++
    [visitNext tiff endian e4 depth (off + 2 + n * 12)]

/-- The pointer fields of one table; `none` ends `walk_ifd` with `None`. -/
def walkVisits (walk : Nat → Nat → List Nat → Except PatchFault (Option (List Nat))) (depth : Nat) :
    List (Option Visit) → List Nat → Except PatchFault (Option (List Nat))
  | [], marks => .ok (some marks)
  | none :: _, _ => .ok none
  | some visit :: visits, marks =>
    let marks := if visit.marked then marks.insert visit.field else marks
    if visit.followed then do
      match ← walk visit.target (← increment checks 8 depth) marks with
      | none => pure none
      | some marks => walkVisits walk depth visits marks
    else walkVisits walk depth visits marks

/-- `walk_ifd`, within so many nested calls; the marks are collected. -/
def walkIfd : (calls off depth : Nat) → List Nat → Except PatchFault (Option (List Nat))
  | 0, _, _, _ => .error .unfinished
  | calls + 1, off, depth, marks =>
    match tableCount tiff endian off with
    | none => .ok none
    | some n => walkVisits checks (walkIfd calls) depth (tableVisits tiff endian e4 off depth n) marks

end Walk

/-- An IFD0 that lies within the segment. -/
structure Ifd0 (tiff : Bytes) where
  endian : Order
  off : Nat
  count : Nat
  off_le : 8 ≤ off
  count_pos : 0 < count
  count_lt : count < 0xffff
  fits : off + 2 + count * 12 + 4 ≤ tiff.length

namespace Ifd0

variable {tiff : Bytes} (ifd0 : Ifd0 tiff)

def entriesEnd : Nat := ifd0.off + 2 + ifd0.count * 12

def positions : List Nat := entryPositions ifd0.off ifd0.count

/-- With one entry, right behind the header. -/
def single (endian : Order) (h : 26 ≤ tiff.length) : Ifd0 tiff :=
  ⟨endian, 8, 1, by decide, Nat.one_pos, by decide, h⟩

end Ifd0

/-- The header of the TIFF structure, with the checks on IFD0. -/
def parseIfd0 (tiff : Bytes) : Except PatchFault (Option (Ifd0 tiff)) :=
  if tiff.length < 8 then .ok none
  else do
    match parseEndian (← indexRange tiff 0 2) with
    | none => pure none
    | some endian =>
      if readNumber endian 2 (← indexRange tiff 2 4) ≠ some 42 then pure none
      else
        match readNumber endian 4 (← indexRange tiff 4 8) with
        | none => pure none
        | some off =>
          if hoff : off < 8 ∨ tiff.length < off + 2 then pure none
          else
            match readNumber endian 2 (← indexRange tiff off (off + 2)) with
            | none => pure none
            | some count =>
              if hcount : count = 0 ∨ 0xffff ≤ count ∨
                  tiff.length < off + 2 + count * 12 + 4 then pure none
              else pure (some ⟨endian, off, count, by omega, by omega, by omega, by omega⟩)

/-- The value field of the last Orientation entry, if every entry can be read. -/
def lastOrientation (tiff : Bytes) (endian : Order) : List Nat → Option Nat → Option (Option Nat)
  | [], found => some found
  | e :: es, found => do
    let entry ← getRange tiff e (e + 12)
    let tag ← readNumber endian 2 (← getRange entry 0 2)
    lastOrientation tiff endian es (if tag = orientationTag then some (e + 8) else found)

/-- The entries of IFD0, marked pointers moved by 12. -/
def relocateEntries (tiff : Bytes) (endian : Order) (marks : List Nat) :
    List Nat → Except PatchFault (Option Bytes)
  | [] => .ok (some [])
  | e :: es => do
    let entry ← indexRange tiff e (e + 12)
    if e + 8 ∈ marks then
      match (getRange entry 8 12).bind (readNumber endian 4) with
      | none => pure none
      | some old =>
        let moved ← copyInto entry 8 (endian.encode 4 (old + 12))
        pure ((← relocateEntries tiff endian marks es).map (moved ++ ·))
    else pure ((← relocateEntries tiff endian marks es).map (entry ++ ·))

/-- The inserted Orientation entry. -/
def orientationEntry (endian : Order) (orientation : Nat) : Bytes :=
  endian.encode 2 orientationTag ++ endian.encode 2 3 ++ endian.encode 4 1 ++
    endian.encode 2 orientation ++ endian.encode 2 0

/-- What stands behind IFD0, marked pointers moved by 12 where they stay within the segment. -/
def relocateRest (tiff : Bytes) (endian : Order) (e4 : Nat) :
    List Nat → Bytes → Except PatchFault (Option Bytes)
  | [], rest => .ok (some rest)
  | m :: ms, rest =>
    if e4 ≤ m ∧ m + 4 ≤ tiff.length then do
      match readNumber endian 4 (← indexRange tiff m (m + 4)) with
      | none => pure none
      | some old =>
        if e4 ≤ old ∧ old + 12 ≤ tiff.length then
          relocateRest tiff endian e4 ms (← copyInto rest (m - e4) (endian.encode 4 (old + 12)))
        else relocateRest tiff endian e4 ms rest
    else relocateRest tiff endian e4 ms rest

/-- The order in which a `HashSet` gives its elements. -/
structure HashOrder where
  iterate : List Nat → List Nat
  perm : ∀ marks, (iterate marks).Perm marks

section Splice

variable (order : HashOrder) (checks : Bool) (calls : Nat)

/-- The new TIFF structure, when IFD0 has no Orientation entry. -/
def insertOrientation (tiff : Bytes) (ifd0 : Ifd0 tiff) (orientation : Nat) :
    Except PatchFault (Option Bytes) := do
  let e4 := ifd0.entriesEnd + 4
  match ← walkIfd checks tiff ifd0.endian e4 calls ifd0.off 0 [] with
  | none => pure none
  | some marks =>
    let header ← indexRange tiff 0 ifd0.off
    let count ← increment checks 16 ifd0.count
    match ← relocateEntries tiff ifd0.endian marks ifd0.positions with
    | none => pure none
    | some entries =>
      match readNumber ifd0.endian 4 (← indexRange tiff ifd0.entriesEnd e4) with
      | none => pure none
      | some next =>
        let next := if ifd0.entriesEnd ∈ marks then next + 12 else next
        match ← relocateRest tiff ifd0.endian e4 (order.iterate marks)
            (← indexRange tiff e4 tiff.length) with
        | none => pure none
        | some rest =>
          pure (some (header ++ ifd0.endian.encode 2 count ++ entries ++
            orientationEntry ifd0.endian orientation ++ ifd0.endian.encode 4 next ++ rest))

def spliceOrientationIntoApp1 (jpeg : Bytes) (app1Pos app1Total orientation : Nat) :
    Except PatchFault (Option Bytes) :=
  if app1Total < 14 ∨ jpeg.length < app1Pos + app1Total then .ok none
  else do
    let seg ← indexRange jpeg app1Pos (app1Pos + app1Total)
    let tiff ← indexRange seg 10 seg.length
    match ← parseIfd0 tiff with
    | none => pure none
    | some ifd0 =>
      match lastOrientation tiff ifd0.endian ifd0.positions none with
      | none => pure none
      | some (some voff) =>
        let abs := app1Pos + 10 + voff
        if jpeg.length < abs + 2 then pure none
        else pure (some (← copyInto jpeg abs (ifd0.endian.encode 2 orientation)))
      | some none =>
        if 0xffff < app1Total + 12 - 2 then pure none
        else
          match ← insertOrientation order checks calls tiff ifd0 orientation with
          | none => pure none
          | some patched =>
            pure (some ((← indexRange jpeg 0 app1Pos) ++ [0xff, 0xe1] ++
              Order.big.encode 2 (app1Total + 12 - 2) ++ (← indexRange seg 4 10) ++ patched ++
              (← indexRange jpeg (app1Pos + app1Total) jpeg.length)))

/-- The file reaches a start of scan. -/
def hasSos : Bytes → Bool
  | a :: b :: rest => (a == 0xff && b == 0xda) || hasSos (b :: rest)
  | _ => false

/-- `ensure_exif_orientation`; `readOrientation` is the EXIF reader. -/
def ensureExifOrientation (readOrientation : Bytes → Option Nat) (jpeg : Bytes)
    (orientation : Nat) : Except PatchFault Bytes :=
  if ¬(1 ≤ orientation ∧ orientation ≤ 8) then .ok jpeg
  else if readOrientation jpeg = some orientation then .ok jpeg
  else if orientation = 1 ∧ readOrientation jpeg = none then .ok jpeg
  else if ¬hasSos jpeg then .ok jpeg
  else do
    match ← findExifApp1 jpeg with
    | none => injectExifOrientation jpeg orientation
    | some (pos, total) =>
      pure ((← spliceOrientationIntoApp1 order checks calls jpeg pos total orientation).getD jpeg)

end Splice

end Reminisce

import Mathlib.Data.Rat.Defs
import Reminisce.Database

namespace Reminisce

/-- A point in degrees. -/
structure GeoPoint where
  lon : Rat
  lat : Rat
  deriving DecidableEq, Repr

/-- A row of `images` or `videos`; the columns that the library's handlers do not use are left
out. -/
structure LibraryRow where
  userId : UserId
  hash : String
  deviceId : String
  createdAt : Time
  name : String
  ext : String
  exif : Option String
  hasThumbnail : Bool
  lastVerifiedAt : Option Time
  verificationStatus : Int
  location : Option GeoPoint
  place : Option String
  deletedAt : Option Time
  orientation : Option Int
  fileSizeBytes : Option Int
  aestheticScore : Option Rat
  deriving DecidableEq, Repr

/-- What a thumbnail file was made from. -/
inductive Thumbnail
  | image (source : Bytes) (orientation : Nat)
  | video (source : Bytes)
  deriving DecidableEq, Repr

/-- The tables of the library, the content files under their hash and extension, and the
thumbnail files under their hash. -/
structure Library where
  rows : MediaTable → List LibraryRow
  files : MediaTable → String → String → Option Bytes
  thumbs : MediaTable → String → Option Thumbnail
  starred : MediaTable → List (UserId × String)
  labels : MediaTable → List (UserId × String × Nat)

def Library.empty : Library :=
  { rows := fun _ => [], files := fun _ _ _ => none, thumbs := fun _ _ => none
    starred := fun _ => [], labels := fun _ => [] }

def isHexDigit (c : Char) : Bool := c.isDigit || ('a' ≤ c && c ≤ 'f')

def isValidContentHash (s : String) : Bool := s.toList.length = 64 && s.toList.all isHexDigit

def isValidMediaExt (s : String) : Bool :=
  s.toList ≠ [] && s.toList.length ≤ 10 && s.toList.all Char.isAlphanum

inductive ResolveError
  | invalidHash
  | invalidExt
  | missing
  deriving DecidableEq, Repr

/-- `safe_resolve_content_path` and the file it leads to; the directories hold no links. -/
def safeResolveContentPath (lib : Library) (table : MediaTable) (hash ext : String) :
    Except ResolveError Bytes :=
  if isValidContentHash hash then
    if isValidMediaExt ext then
      match lib.files table hash ext with
      | some data => .ok data
      | none => .error .missing
    else .error .invalidExt
  else .error .invalidHash

/-- The content hash under which bytes are stored. -/
def contentHash (P : Primitives) (data : Bytes) : String := String.ofList (toHex (P.blake3 data))

namespace Library

def setRows (lib : Library) (table : MediaTable) (rows : List LibraryRow) : Library :=
  { lib with rows := fun t => if t = table then rows else lib.rows t }

def putFile (lib : Library) (table : MediaTable) (hash ext : String) (data : Bytes) : Library :=
  { lib with files := fun t h e =>
      if t = table ∧ h = hash ∧ e = ext then some data else lib.files t h e }

def putThumb (lib : Library) (table : MediaTable) (hash : String) (thumb : Thumbnail) : Library :=
  { lib with thumbs := fun t h => if t = table ∧ h = hash then some thumb else lib.thumbs t h }

end Library

/-- Whether the row belongs to the user and names the hash. -/
def LibraryRow.isOf (userId : UserId) (hash : String) (row : LibraryRow) : Bool :=
  row.userId = userId && row.hash = hash

/-- `SELECT ... WHERE user_id AND hash AND deleted_at IS NULL`. -/
def liveRow (rows : List LibraryRow) (userId : UserId) (hash : String) : Option LibraryRow :=
  rows.find? fun row => row.isOf userId hash && row.deletedAt = none

/-- The limits of the columns and the check of `verification_status`. -/
def LibraryRow.fits (row : LibraryRow) : Bool :=
  row.name.length ≤ 255 && row.deviceId.length ≤ 255 && row.ext.length ≤ 10 &&
    row.verificationStatus ∈ [-1, 0, 1]

/-- `INSERT ... ON CONFLICT (user_id, hash) DO UPDATE`. -/
def insertRow (new : LibraryRow) (onConflict : LibraryRow → LibraryRow)
    (rows : List LibraryRow) : List LibraryRow :=
  if rows.any (·.isOf new.userId new.hash) then
    rows.map fun row => if row.isOf new.userId new.hash then onConflict row else row
  else rows ++ [new]

/-- `UPDATE ... WHERE user_id AND hash`, with a further condition. -/
def updateRows (userId : UserId) (hash : String) (where_ : LibraryRow → Bool)
    (change : LibraryRow → LibraryRow) (rows : List LibraryRow) : List LibraryRow :=
  rows.map fun row => if row.isOf userId hash && where_ row then change row else row

@[simp] theorem Library.setRows_rows (lib : Library) (table : MediaTable)
    (rows : List LibraryRow) : (lib.setRows table rows).rows table = rows := by
  simp [setRows]

theorem Library.setRows_rows_ne (lib : Library) {table other : MediaTable} (h : other ≠ table)
    (rows : List LibraryRow) : (lib.setRows table rows).rows other = lib.rows other := by
  simp [setRows, h]

@[simp] theorem Library.setRows_files (lib : Library) (table : MediaTable)
    (rows : List LibraryRow) : (lib.setRows table rows).files = lib.files := rfl

@[simp] theorem Library.setRows_thumbs (lib : Library) (table : MediaTable)
    (rows : List LibraryRow) : (lib.setRows table rows).thumbs = lib.thumbs := rfl

@[simp] theorem Library.putFile_rows (lib : Library) (table : MediaTable) (hash ext : String)
    (data : Bytes) : (lib.putFile table hash ext data).rows = lib.rows := rfl

@[simp] theorem Library.putFile_thumbs (lib : Library) (table : MediaTable) (hash ext : String)
    (data : Bytes) : (lib.putFile table hash ext data).thumbs = lib.thumbs := rfl

@[simp] theorem Library.putThumb_rows (lib : Library) (table : MediaTable) (hash : String)
    (thumb : Thumbnail) : (lib.putThumb table hash thumb).rows = lib.rows := rfl

@[simp] theorem Library.putThumb_files (lib : Library) (table : MediaTable) (hash : String)
    (thumb : Thumbnail) : (lib.putThumb table hash thumb).files = lib.files := rfl

@[simp] theorem Library.putFile_self (lib : Library) (table : MediaTable) (hash ext : String)
    (data : Bytes) : (lib.putFile table hash ext data).files table hash ext = some data := by
  simp [putFile]

theorem Library.putFile_ne (lib : Library) {table other : MediaTable} {hash hash' ext ext' : String}
    (data : Bytes) (h : ¬(other = table ∧ hash' = hash ∧ ext' = ext)) :
    (lib.putFile table hash ext data).files other hash' ext' = lib.files other hash' ext' :=
  if_neg h

@[simp] theorem LibraryRow.isOf_iff {userId : UserId} {hash : String} {row : LibraryRow} :
    row.isOf userId hash = true ↔ row.userId = userId ∧ row.hash = hash := by
  simp [isOf]

theorem liveRow_some {rows : List LibraryRow} {userId : UserId} {hash : String}
    {row : LibraryRow} (h : liveRow rows userId hash = some row) :
    row ∈ rows ∧ row.userId = userId ∧ row.hash = hash ∧ row.deletedAt = none := by
  have hp := List.find?_some h
  simp only [Bool.and_eq_true, LibraryRow.isOf_iff, decide_eq_true_eq] at hp
  exact ⟨List.mem_of_find?_eq_some h, hp.1.1, hp.1.2, hp.2⟩

/-- A row after an insert is the new one, the changed old one, or an old one of another key. -/
theorem mem_insertRow {new row : LibraryRow} {onConflict : LibraryRow → LibraryRow}
    {rows : List LibraryRow} (h : row ∈ insertRow new onConflict rows) :
    (row = new ∧ ∀ old ∈ rows, old.isOf new.userId new.hash = false) ∨
      (∃ old ∈ rows, old.isOf new.userId new.hash = true ∧ row = onConflict old) ∨
      (row ∈ rows ∧ row.isOf new.userId new.hash = false) := by
  unfold insertRow at h
  split at h
  next =>
    obtain ⟨old, hold, heq⟩ := List.mem_map.mp h
    split at heq
    next hkey => exact Or.inr (Or.inl ⟨old, hold, hkey, heq.symm⟩)
    next hkey =>
      subst heq
      exact Or.inr (Or.inr ⟨hold, Bool.eq_false_iff.mpr hkey⟩)
  next hnone =>
    have hnone' : ∀ old ∈ rows, old.isOf new.userId new.hash = false := fun old hold =>
      Bool.eq_false_iff.mpr fun hkey => hnone (List.any_eq_true.mpr ⟨old, hold, hkey⟩)
    rcases List.mem_append.mp h with hold | hnew
    · exact Or.inr (Or.inr ⟨hold, hnone' row hold⟩)
    · exact Or.inl ⟨List.mem_singleton.mp hnew, hnone'⟩

theorem mem_updateRows {userId : UserId} {hash : String} {where_ : LibraryRow → Bool}
    {change : LibraryRow → LibraryRow} {rows : List LibraryRow} {row : LibraryRow}
    (h : row ∈ updateRows userId hash where_ change rows) :
    (∃ old ∈ rows, old.isOf userId hash = true ∧ where_ old = true ∧ row = change old) ∨
      (row ∈ rows ∧ (row.isOf userId hash && where_ row) = false) := by
  obtain ⟨old, hold, heq⟩ := List.mem_map.mp h
  split at heq
  next hkey =>
    simp only [Bool.and_eq_true] at hkey
    exact Or.inl ⟨old, hold, hkey.1, hkey.2, heq.symm⟩
  next hkey =>
    subst heq
    exact Or.inr ⟨hold, Bool.eq_false_iff.mpr hkey⟩

/-- An update that `f` does not see. -/
theorem map_updateRows {α : Type} {f : LibraryRow → α} {userId : UserId} {hash : String}
    {where_ : LibraryRow → Bool}
    {change : LibraryRow → LibraryRow} (rows : List LibraryRow)
    (h : ∀ row, f (change row) = f row) :
    (updateRows userId hash where_ change rows).map f = rows.map f := by
  unfold updateRows
  rw [List.map_map]
  refine List.map_congr_left fun row _ => ?_
  show f (if row.isOf userId hash && where_ row then change row else row) = f row
  split
  next => exact h row
  next => rfl

/-- An insert whose conflict branch `f` does not see. -/
theorem map_insertRow {α : Type} {f : LibraryRow → α} {new : LibraryRow}
    {onConflict : LibraryRow → LibraryRow} (rows : List LibraryRow)
    (h : ∀ row, f (onConflict row) = f row) :
    (insertRow new onConflict rows).map f =
      if rows.any (·.isOf new.userId new.hash) then rows.map f else rows.map f ++ [f new] := by
  unfold insertRow
  split
  next =>
    rw [List.map_map]
    refine List.map_congr_left fun row _ => ?_
    show f (if row.isOf new.userId new.hash then onConflict row else row) = f row
    split
    next => exact h row
    next => rfl
  next => simp

end Reminisce

import Reminisce.Library.Runs
import Reminisce.LibraryReads
import Reminisce.Verification

namespace Reminisce

/-- A file that the worker read and found to have the hash of its name. -/
structure CheckedFile where
  table : MediaTable
  hash : String
  ext : String
  data : Bytes
  deriving DecidableEq, Repr

/-- The library with the verifications under way; `ingested` and `checked` record the uploads that
were answered with success and the files that were verified. -/
structure LibraryState where
  lib : Library
  tasks : List VerifyTask
  ingested : List (UserId × MediaTable × String)
  checked : List CheckedFile

/-- The requests of the users, a rotation taken as one step, and the steps of the verification
worker. The uploads of content include batches, imports and saved enhancements; no copy of theirs
into the store breaks off. -/
inductive LibraryEvent
  | content (userId : UserId) (table : MediaTable) (data : Bytes) (name deviceId : String)
      (io : WholeIngestIo)
  | metadata (userId : UserId) (table : MediaTable) (m : MetadataRequest) (io : DbIo)
  | softDelete (userId : UserId) (table : MediaTable) (hash : String) (now : Time) (io : DbIo)
  | restore (userId : UserId) (table : MediaTable) (hash : String) (io : DbIo)
  | rotate (userId : UserId) (hash : String) (request : UpdateOrientationRequest)
      (io : OrientationIo)
  | thumbnail (userId : UserId) (hash : String) (io : ThumbnailIo)
  | image (userId : UserId) (hash : String) (io : ReadIo)
  | video (userId : UserId) (hash : String) (io : ReadIo)
  | list (userId : UserId) (query : ListQuery) (tables : ListTable)
  | select (userId : UserId) (table : MediaTable) (hash : String) (monthAgo : Time)
  | check (userId : UserId) (table : MediaTable) (hash : String) (io : VerifyIo)
  | record (userId : UserId) (table : MediaTable) (hash : String) (now : Time) (stored : Bool)
  | abandon (userId : UserId) (table : MediaTable) (hash : String)

def VerifyTask.isOf (userId : UserId) (table : MediaTable) (hash : String) (task : VerifyTask) :
    Bool :=
  task.userId = userId && task.table = table && task.hash = hash

def LibraryState.taskOf (s : LibraryState) (userId : UserId) (table : MediaTable)
    (hash : String) : Option VerifyTask :=
  s.tasks.find? (·.isOf userId table hash)

/-- The snapshot of a live row that is due and not under verification. -/
def selectTask (s : LibraryState) (userId : UserId) (table : MediaTable) (hash : String)
    (monthAgo : Time) : LibraryState :=
  match (s.lib.rows table).find? fun row => row.isOf userId hash && row.due monthAgo,
    s.taskOf userId table hash with
  | some row, none => { s with tasks := s.tasks ++ [VerifyTask.select table row] }
  | _, _ => s

def setVerdict (verdict : VerifyVerdict) (task : VerifyTask) (tasks : List VerifyTask) :
    List VerifyTask :=
  tasks.map fun t => if t = task then { task with verdict := some verdict } else t

def checkedFile (lib : Library) (task : VerifyTask) (verdict : VerifyVerdict) :
    Option CheckedFile :=
  match verdict with
  | .verified _ => (lib.files task.table task.hash task.ext).map fun data =>
      { table := task.table, hash := task.hash, ext := task.ext, data }
  | .failed => none

section Step

variable (P : Primitives) (codec : ImageCodec)

def checkTask (s : LibraryState) (userId : UserId) (table : MediaTable) (hash : String)
    (io : VerifyIo) : LibraryState :=
  match s.taskOf userId table hash with
  | none => s
  | some task =>
    match task.verdict with
    | some _ => s
    | none =>
      let out := verifyFile P codec s.lib task io
      { s with
        lib := out.2, tasks := setVerdict out.1 task s.tasks
        checked := (checkedFile s.lib task out.1).toList ++ s.checked }

def dropTask (userId : UserId) (table : MediaTable) (hash : String) (tasks : List VerifyTask) :
    List VerifyTask :=
  tasks.filter fun task => !task.isOf userId table hash

def recordTask (s : LibraryState) (userId : UserId) (table : MediaTable) (hash : String)
    (now : Time) (stored : Bool) : LibraryState :=
  match s.taskOf userId table hash with
  | none => s
  | some task =>
    match task.verdict with
    | none => s
    | some verdict =>
      { s with
        lib := if stored then recordVerdict s.lib task verdict now else s.lib
        tasks := dropTask userId table hash s.tasks }

def contentUpload (s : LibraryState) (userId : UserId) (table : MediaTable) (data : Bytes)
    (name deviceId : String) (io : WholeIngestIo) : LibraryState :=
  let hash := contentHash P data
  match processMediaFile codec table s.lib data name hash deviceId userId io with
  | (.ok _, lib) => { s with lib, ingested := (userId, table, hash) :: s.ingested }
  | (.error _, lib) => { s with lib }

def libraryStep (s : LibraryState) : LibraryEvent → LibraryState
  | .content userId table data name deviceId io =>
    contentUpload P codec s userId table data name deviceId io
  | .metadata userId table m io => { s with lib := (uploadMetadata table s.lib userId m io).2 }
  | .softDelete userId table hash now io =>
    { s with lib := (softDeleteMedia table s.lib hash userId now io).2 }
  | .restore userId table hash io =>
    { s with lib := (softRestoreMedia table s.lib hash userId io).2 }
  | .rotate userId hash request io =>
    { s with lib := (updateImageOrientation codec s.lib userId hash request io).2 }
  | .thumbnail userId hash io => { s with lib := (getThumbnail s.lib userId hash io).2 }
  | .image _ _ _ => s
  | .video _ _ _ => s
  | .list _ _ _ => s
  | .select userId table hash monthAgo => selectTask s userId table hash monthAgo
  | .check userId table hash io => checkTask P codec s userId table hash io
  | .record userId table hash now stored => recordTask s userId table hash now stored
  | .abandon userId table hash => { s with tasks := dropTask userId table hash s.tasks }

/-- The step as one that is always enabled. -/
def libraryRun (s : LibraryState) (e : LibraryEvent) : Option LibraryState :=
  some (libraryStep P codec s e)

end Step

def LibraryState.start (lib : Library) : LibraryState :=
  { lib, tasks := [], ingested := [], checked := [] }

/-- Every stored file lies under its own hash and an extension that can be resolved. -/
def Library.Honest (P : Primitives) (lib : Library) : Prop :=
  ∀ table hash ext data, lib.files table hash ext = some data →
    contentHash P data = hash ∧ isValidMediaExt ext = true

theorem Library.empty_honest (P : Primitives) : Library.empty.Honest P := by
  intro table hash ext data h
  simp [Library.empty] at h

variable {P : Primitives} {codec : ImageCodec} {s : LibraryState} {lib : Library}
  {table : MediaTable} {userId : UserId} {hash : String}

/-- An upload whose file reaches the store. -/
def Stores (table : MediaTable) (data : Bytes) (name : String) (io : WholeIngestIo) : Prop :=
  Ingestible table data name ∧ io.move.stores = true

/-- An upload whose row reaches the table too. -/
def Registers (P : Primitives) (userId : UserId) (table : MediaTable) (data : Bytes)
    (name deviceId : String) (io : WholeIngestIo) : Prop :=
  Stores table data name io ∧ io.move.succeeds = true ∧ io.inserted = true ∧
    (newRow userId (contentHash P data) deviceId name (toLowercase (pathExtension name))
      io.now).fits = true

instance (table : MediaTable) (data : Bytes) (name : String) (io : WholeIngestIo) :
    Decidable (Stores table data name io) :=
  inferInstanceAs (Decidable (_ ∧ _))

instance (P : Primitives) (userId : UserId) (table : MediaTable) (data : Bytes)
    (name deviceId : String) (io : WholeIngestIo) :
    Decidable (Registers P userId table data name deviceId io) :=
  inferInstanceAs (Decidable (_ ∧ _ ∧ _ ∧ _))

/-- The file of an upload, under the hash of its bytes and the extension of its name. -/
def Library.store (P : Primitives) (lib : Library) (table : MediaTable) (data : Bytes)
    (name : String) : Library :=
  lib.putFile table (contentHash P data) (toLowercase (pathExtension name)) data

/-- The rows after an upload. -/
def registerRows (codec : ImageCodec) (userId : UserId) (table : MediaTable) (hash : String)
    (data : Bytes) (name deviceId : String) (io : WholeIngestIo) (rows : List LibraryRow) :
    List LibraryRow :=
  let ext := toLowercase (pathExtension name)
  updateRows userId hash (fun _ => true) (describeRow codec table data ext io)
    (insertRow (newRow userId hash deviceId name ext io.now)
      (fun old => { old with deletedAt := none }) rows)

/-- The file and the row of an upload. -/
def Library.register (P : Primitives) (codec : ImageCodec) (lib : Library) (userId : UserId)
    (table : MediaTable) (data : Bytes) (name deviceId : String) (io : WholeIngestIo) : Library :=
  (lib.store P table data name).setRows table
    (registerRows codec userId table (contentHash P data) data name deviceId io (lib.rows table))

variable {data : Bytes} {name deviceId : String} {io : WholeIngestIo}

theorem contentUpload_refused (h : ¬Stores table data name io) :
    contentUpload P codec s userId table data name deviceId io = s := by
  unfold contentUpload processMediaFile
  simp only
  cases hvalid : validateMediaFile data table (toLowercase (pathExtension name))
      (contentHash P data) with
  | error e => rfl
  | ok u =>
    have hmove : io.move = .refused :=
      io.whole.resolve_right fun hm => h ⟨validateMediaFile_ok.mp hvalid, hm⟩
    simp [hmove, MoveIo.left, MoveIo.succeeds]

theorem contentUpload_stored (h : Stores table data name io)
    (hrow : ¬Registers P userId table data name deviceId io) :
    contentUpload P codec s userId table data name deviceId io =
      { s with lib := s.lib.store P table data name } := by
  have hvalid : validateMediaFile data table (toLowercase (pathExtension name))
      (contentHash P data) = .ok () := validateMediaFile_ok.mpr h.1
  unfold contentUpload processMediaFile
  simp only [hvalid, MoveIo.left_of_stores h.2, Option.map_some, Option.getD_some, Library.store]
  by_cases hmoved : io.move.succeeds = true
  · have hno : ¬(io.inserted = true ∧ (newRow userId (contentHash P data) deviceId name
        (toLowercase (pathExtension name)) io.now).fits = true) := fun hi => hrow ⟨h, hmoved, hi⟩
    simp only [if_pos hmoved, if_neg hno]
  · simp only [if_neg hmoved]

theorem contentUpload_registered (h : Registers P userId table data name deviceId io) :
    contentUpload P codec s userId table data name deviceId io =
      { s with
        lib := s.lib.register P codec userId table data name deviceId io
        ingested := (userId, table, contentHash P data) :: s.ingested } := by
  have hvalid : validateMediaFile data table (toLowercase (pathExtension name))
      (contentHash P data) = .ok () := validateMediaFile_ok.mpr h.1.1
  unfold contentUpload processMediaFile
  simp only [hvalid, MoveIo.left_of_stores h.1.2, Option.map_some, Option.getD_some, if_pos h.2.1,
    if_pos h.2.2]
  rfl

theorem allowedExts_valid {ext : String} (h : ext ∈ allowedExts table) :
    isValidMediaExt ext = true := by
  have hall : ∀ ext ∈ imageExts ++ videoExts, isValidMediaExt ext = true := by decide
  cases table with
  | images => exact hall ext (List.mem_append_left _ h)
  | videos => exact hall ext (List.mem_append_right _ h)

theorem contentHash_valid (data : Bytes) : isValidContentHash (contentHash P data) = true := by
  have hall : ∀ n ∈ List.range 16, isHexDigit (Hex.digit n) = true := by decide
  have hdigits : ∀ c ∈ toHex (P.blake3 data), isHexDigit c = true := by
    intro c hc
    obtain ⟨n, hn, rfl⟩ := Hex.mem_encode hc
    exact hall n (List.mem_range.mpr hn)
  simp only [isValidContentHash, contentHash, String.toList_ofList, length_toHex]
  simpa using hdigits

/-- A change of one table's rows that `f` does not see is seen in no table. -/
theorem Library.map_setRows {α : Type} {f : LibraryRow → α} {rows : List LibraryRow}
    (h : rows.map f = (lib.rows table).map f) (t : MediaTable) :
    ((lib.setRows table rows).rows t).map f = (lib.rows t).map f := by
  by_cases ht : t = table
  · rw [ht, Library.setRows_rows, h]
  · rw [Library.setRows_rows_ne lib ht]

/-- A view of the rows that shows none of the columns of display and deletion. -/
structure Unseen {α : Type} (f : LibraryRow → α) : Prop where
  orientation : ∀ row o b, f { row with orientation := o, hasThumbnail := b } = f row
  thumbnail : ∀ row b, f { row with hasThumbnail := b } = f row
  deleted : ∀ row d, f { row with deletedAt := d } = f row

theorem setDeletedAt_rows {α : Type} {f : LibraryRow → α} (hf : Unseen f)
    (where_ : LibraryRow → Bool) (deletedAt : Option Time) (missing : String) (io : DbIo)
    (t : MediaTable) :
    ((setDeletedAt table lib hash userId where_ deletedAt missing io).2.rows t).map f =
      (lib.rows t).map f := by
  rcases setDeletedAt_cases table lib hash userId where_ deletedAt missing io with h | h
  · rw [h]
  · rw [h]
    exact Library.map_setRows (map_updateRows _ fun row => hf.deleted row _) t

theorem updateImageOrientation_rows {α : Type} {f : LibraryRow → α} (hf : Unseen f)
    (request : UpdateOrientationRequest) (io : OrientationIo) (t : MediaTable) :
    ((updateImageOrientation codec lib userId hash request io).2.rows t).map f =
      (lib.rows t).map f := by
  have hfinish : ∀ lib' o b, ((finishOrientation lib' userId hash o b io).2.rows t).map f =
      (lib'.rows t).map f := by
    intro lib' o b
    rcases finishOrientation_cases lib' userId hash o b io with h | h
    · rw [h]
    · rw [h]
      exact Library.map_setRows (map_updateRows _ fun row => hf.orientation row _ _) t
  rcases updateImageOrientation_cases codec lib userId hash request io with
    h | ⟨row, o, _, _, ⟨_, thumb, _, _, h⟩ | h⟩
  · rw [h]
  · rw [h, hfinish]
    rfl
  · rw [h, hfinish]

theorem resetThumbnail_rows {α : Type} {f : LibraryRow → α} (hf : Unseen f) (io : ThumbnailIo)
    (t : MediaTable) : ((resetThumbnail lib hash io).rows t).map f = (lib.rows t).map f := by
  show (if io.reset t then resetThumbnailRows hash (lib.rows t) else lib.rows t).map f = _
  split
  next =>
    unfold resetThumbnailRows
    rw [List.map_map]
    refine List.map_congr_left fun row _ => ?_
    show f (if row.hash = hash ∧ row.hasThumbnail = true then _ else row) = f row
    split
    next => exact hf.thumbnail row false
    next => rfl
  next => rfl

/-- A thumbnail request changes nothing, or resets the column after a miss. -/
theorem getThumbnail_lib (lib : Library) (userId : UserId) (hash : String) (io : ThumbnailIo) :
    (getThumbnail lib userId hash io).2 = lib ∨
      (getThumbnail lib userId hash io).2 = resetThumbnail lib hash io := by
  unfold getThumbnail
  split
  next =>
    split
    next =>
      split
      next =>
        split
        next => split <;> exact Or.inl rfl
        next =>
          split
          next => split <;> exact Or.inl rfl
          next => exact Or.inr rfl
      next => exact Or.inl rfl
    next => exact Or.inl rfl
  next => exact Or.inl rfl

/-- Steps that change neither the names of rows nor their verification. -/
def LibraryEvent.quiet : LibraryEvent → Bool
  | .content .. => false
  | .metadata .. => false
  | .record .. => false
  | _ => true

theorem selectTask_lib (s : LibraryState) (userId : UserId) (table : MediaTable) (hash : String)
    (monthAgo : Time) : (selectTask s userId table hash monthAgo).lib = s.lib := by
  unfold selectTask
  split <;> rfl

theorem checkTask_rows (s : LibraryState) (userId : UserId) (table : MediaTable) (hash : String)
    (io : VerifyIo) : (checkTask P codec s userId table hash io).lib.rows = s.lib.rows := by
  unfold checkTask
  split
  next => rfl
  next task _ =>
    split
    next => rfl
    next =>
      rcases verifyFile_cases P codec s.lib task io with h | ⟨_, _, h | ⟨_, _, _, h⟩⟩
      all_goals simp [h]

theorem libraryStep_quiet {α : Type} {f : LibraryRow → α} (hf : Unseen f) {e : LibraryEvent}
    (he : e.quiet = true) (t : MediaTable) :
    ((libraryStep P codec s e).lib.rows t).map f = (s.lib.rows t).map f := by
  cases e with
  | content | metadata | record => simp [LibraryEvent.quiet] at he
  | softDelete => exact setDeletedAt_rows hf _ _ _ _ t
  | restore => exact setDeletedAt_rows hf _ _ _ _ t
  | rotate => exact updateImageOrientation_rows hf _ _ t
  | thumbnail userId hash io =>
    show ((getThumbnail s.lib userId hash io).2.rows t).map f = _
    rcases getThumbnail_lib s.lib userId hash io with h | h
    · rw [h]
    · rw [h, resetThumbnail_rows hf]
  | image | video | list | abandon => rfl
  | select userId table hash monthAgo =>
    show ((selectTask s userId table hash monthAgo).lib.rows t).map f = _
    rw [selectTask_lib]
  | check userId table hash io =>
    show ((checkTask P codec s userId table hash io).lib.rows t).map f = _
    rw [checkTask_rows]

/-- What an upload adds to a view of its table: a row if the owner has none of the hash. -/
theorem registerRows_view {α : Type} {f : LibraryRow → α} (hf : Unseen f) (hd : Undescribed f)
    (rows : List LibraryRow) : (registerRows codec userId table hash data name deviceId io rows).map f
      = if rows.any (·.isOf userId hash) then rows.map f else rows.map f ++
        [f (newRow userId hash deviceId name (toLowercase (pathExtension name)) io.now)] := by
  unfold registerRows
  simp only
  rw [map_updateRows _ fun row => describeRow_view hd _ row]
  exact map_insertRow rows fun row => hf.deleted row none

/-- The same for the metadata uploads, in a view that shows nothing they merge. -/
theorem describe_view {α : Type} {f : LibraryRow → α} {m : MetadataRequest}
    (hf : ∀ old, f (mergeMetadata (m.row table userId) old) = f old) :
    ((lib.describe table userId m).rows table).map f =
      if (lib.rows table).any (·.isOf userId m.hash) then (lib.rows table).map f
      else (lib.rows table).map f ++ [f (m.row table userId)] := by
  unfold Library.describe
  rw [Library.setRows_rows]
  exact map_insertRow (lib.rows table) hf

/-- The columns that say whose row it is. -/
def LibraryRow.owner (row : LibraryRow) : UserId × String := (row.userId, row.hash)

theorem owner_unseen : Unseen LibraryRow.owner where
  orientation _ _ _ := rfl
  thumbnail _ _ := rfl
  deleted _ _ := rfl

theorem owner_undescribed : Undescribed LibraryRow.owner where
  size _ _ := rfl
  exif _ _ := rfl
  orientation _ _ := rfl
  createdAt _ _ := rfl
  location _ _ _ := rfl

theorem recordTask_view {α : Type} {f : LibraryRow → α}
    (hf : ∀ row t v b, f { row with lastVerifiedAt := t, verificationStatus := v, hasThumbnail := b }
      = f row) (now : Time) (stored : Bool) (t : MediaTable) :
    ((recordTask s userId table hash now stored).lib.rows t).map f = (s.lib.rows t).map f := by
  unfold recordTask
  split
  next => rfl
  next task _ =>
    split
    next => rfl
    next verdict _ =>
      cases stored with
      | false => rfl
      | true =>
        show ((recordVerdict s.lib task verdict now).rows t).map f = _
        refine Library.map_setRows (map_updateRows _ fun row => ?_) t
        cases verdict with
        | verified b => exact hf row _ _ _
        | failed => exact hf row _ _ row.hasThumbnail

theorem Library.setRows_prefix {α : Type} {f : LibraryRow → α} {rows : List LibraryRow}
    (h : (lib.rows table).map f <+: rows.map f) (t : MediaTable) :
    (lib.rows t).map f <+: ((lib.setRows table rows).rows t).map f := by
  by_cases ht : t = table
  · rw [ht, Library.setRows_rows]
    exact h
  · rw [Library.setRows_rows_ne lib ht]

/-- A step keeps the rows and their owners in place; an upload may add one. -/
theorem libraryStep_owners (e : LibraryEvent) (t : MediaTable) :
    (s.lib.rows t).map LibraryRow.owner <+:
      ((libraryStep P codec s e).lib.rows t).map LibraryRow.owner := by
  have hgrows : ∀ (c : Bool) (owners : List (UserId × String)) new,
      owners <+: if c = true then owners else owners ++ [new] := by
    intro c owners new
    split
    next => exact List.prefix_refl _
    next => exact List.prefix_append _ _
  cases hquiet : e.quiet with
  | true => rw [libraryStep_quiet owner_unseen hquiet]
  | false =>
    cases e with
    | softDelete | restore | rotate | thumbnail | image | video | list | select | check | abandon =>
      simp [LibraryEvent.quiet] at hquiet
    | content userId table data name deviceId io =>
      show _ <+: ((contentUpload P codec s userId table data name deviceId io).lib.rows t).map _
      by_cases hstores : Stores table data name io
      · by_cases hrow : Registers P userId table data name deviceId io
        · rw [contentUpload_registered hrow]
          refine @Library.setRows_prefix (s.lib.store P table data name) table _ _ _ ?_ t
          rw [registerRows_view owner_unseen owner_undescribed]
          exact hgrows _ _ _
        · rw [contentUpload_stored hstores hrow]
          exact List.prefix_refl _
      · rw [contentUpload_refused hstores]
    | metadata userId table m io =>
      show _ <+: ((uploadMetadata table s.lib userId m io).2.rows t).map _
      rw [uploadMetadata_lib]
      split
      next =>
        refine Library.setRows_prefix ?_ t
        have hview := @describe_view s.lib table userId _ LibraryRow.owner m fun _ => rfl
        rw [Library.describe, Library.setRows_rows] at hview
        rw [hview]
        exact hgrows _ _ _
      next => exact List.prefix_refl _
    | record userId table hash now stored =>
      show _ <+: ((recordTask s userId table hash now stored).lib.rows t).map _
      rw [recordTask_view fun _ _ _ _ => rfl]

theorem recordTask_files (s : LibraryState) (userId : UserId) (table : MediaTable) (hash : String)
    (now : Time) (stored : Bool) :
    (recordTask s userId table hash now stored).lib.files = s.lib.files := by
  unfold recordTask
  split
  next => rfl
  next =>
    split
    next => rfl
    next => cases stored <;> rfl

theorem checkTask_files (s : LibraryState) (userId : UserId) (table : MediaTable) (hash : String)
    (io : VerifyIo) : (checkTask P codec s userId table hash io).lib.files = s.lib.files := by
  unfold checkTask
  split
  next => rfl
  next task _ =>
    split
    next => rfl
    next =>
      rcases verifyFile_cases P codec s.lib task io with h | ⟨_, _, h | ⟨_, _, _, h⟩⟩
      all_goals simp [h]

theorem updateImageOrientation_files (lib : Library) (userId : UserId) (hash : String)
    (request : UpdateOrientationRequest) (io : OrientationIo) :
    (updateImageOrientation codec lib userId hash request io).2.files = lib.files := by
  have hfinish : ∀ lib' o b, (finishOrientation lib' userId hash o b io).2.files = lib'.files := by
    intro lib' o b
    rcases finishOrientation_cases lib' userId hash o b io with h | h
    all_goals simp [h]
  rcases updateImageOrientation_cases codec lib userId hash request io with
    h | ⟨_, _, _, _, ⟨_, _, _, _, h⟩ | h⟩
  all_goals simp [h, hfinish]

theorem setDeletedAt_files (table : MediaTable) (lib : Library) (hash : String) (userId : UserId)
    (where_ : LibraryRow → Bool) (deletedAt : Option Time) (missing : String) (io : DbIo) :
    (setDeletedAt table lib hash userId where_ deletedAt missing io).2.files = lib.files := by
  rcases setDeletedAt_cases table lib hash userId where_ deletedAt missing io with h | h
  · rw [h]
  · rw [h]
    rfl

theorem setDeletedAt_thumbs (table : MediaTable) (lib : Library) (hash : String) (userId : UserId)
    (where_ : LibraryRow → Bool) (deletedAt : Option Time) (missing : String) (io : DbIo) :
    (setDeletedAt table lib hash userId where_ deletedAt missing io).2.thumbs = lib.thumbs := by
  rcases setDeletedAt_cases table lib hash userId where_ deletedAt missing io with h | h
  · rw [h]
  · rw [h]
    rfl

/-- Content files are written by uploads of content alone. -/
theorem libraryStep_files {e : LibraryEvent} : (libraryStep P codec s e).lib.files = s.lib.files ∨
    ∃ userId table data name deviceId io, e = .content userId table data name deviceId io ∧
      Stores table data name io ∧
      (libraryStep P codec s e).lib.files = (s.lib.store P table data name).files := by
  cases e with
  | content userId table data name deviceId io =>
    show (contentUpload P codec s userId table data name deviceId io).lib.files = _ ∨ _
    by_cases hstores : Stores table data name io
    · refine Or.inr ⟨userId, table, data, name, deviceId, io, rfl, hstores, ?_⟩
      show (contentUpload P codec s userId table data name deviceId io).lib.files = _
      by_cases hrow : Registers P userId table data name deviceId io
      · rw [contentUpload_registered hrow]
        rfl
      · rw [contentUpload_stored hstores hrow]
    · exact Or.inl (by rw [contentUpload_refused hstores])
  | metadata userId table m io =>
    left
    show (uploadMetadata table s.lib userId m io).2.files = _
    rw [uploadMetadata_lib]
    split <;> rfl
  | softDelete => exact Or.inl (setDeletedAt_files _ _ _ _ _ _ _ _)
  | restore => exact Or.inl (setDeletedAt_files _ _ _ _ _ _ _ _)
  | rotate userId hash request io =>
    exact Or.inl (updateImageOrientation_files s.lib userId hash request io)
  | thumbnail userId hash io =>
    left
    show (getThumbnail s.lib userId hash io).2.files = _
    rcases getThumbnail_lib s.lib userId hash io with h | h
    · rw [h]
    · rw [h]
      rfl
  | image | video | list | abandon => exact Or.inl rfl
  | select userId table hash monthAgo =>
    exact Or.inl (congrArg Library.files (selectTask_lib s userId table hash monthAgo))
  | check userId table hash io => exact Or.inl (checkTask_files s userId table hash io)
  | record userId table hash now stored =>
    exact Or.inl (recordTask_files s userId table hash now stored)

/-- Uploads that are answered with success are recorded, by no other step. -/
theorem libraryStep_ingested (e : LibraryEvent) :
    (libraryStep P codec s e).ingested = s.ingested ∨
      ∃ userId table data name deviceId io, e = .content userId table data name deviceId io ∧
        Registers P userId table data name deviceId io ∧
        (libraryStep P codec s e).ingested = (userId, table, contentHash P data) :: s.ingested := by
  cases e with
  | content userId table data name deviceId io =>
    by_cases hstores : Stores table data name io
    · by_cases hrow : Registers P userId table data name deviceId io
      · refine Or.inr ⟨userId, table, data, name, deviceId, io, rfl, hrow, ?_⟩
        show (contentUpload P codec s userId table data name deviceId io).ingested = _
        rw [contentUpload_registered hrow]
      · left
        show (contentUpload P codec s userId table data name deviceId io).ingested = _
        rw [contentUpload_stored hstores hrow]
    · left
      show (contentUpload P codec s userId table data name deviceId io).ingested = _
      rw [contentUpload_refused hstores]
  | select userId table hash monthAgo =>
    left
    show (selectTask s userId table hash monthAgo).ingested = _
    unfold selectTask
    split <;> rfl
  | check userId table hash io =>
    left
    show (checkTask P codec s userId table hash io).ingested = _
    unfold checkTask
    split
    next => rfl
    next => split <;> rfl
  | record userId table hash now stored =>
    left
    show (recordTask s userId table hash now stored).ingested = _
    unfold recordTask
    split
    next => rfl
    next => split <;> rfl
  | metadata | softDelete | restore | rotate | thumbnail | image | video | list | abandon =>
    exact Or.inl rfl

theorem mem_ingested_step {e : LibraryEvent} {entry : UserId × MediaTable × String}
    (h : entry ∈ (libraryStep P codec s e).ingested) : entry ∈ s.ingested ∨
      ∃ userId table data name deviceId io, e = .content userId table data name deviceId io ∧
        Registers P userId table data name deviceId io ∧
        entry = (userId, table, contentHash P data) := by
  rcases @libraryStep_ingested P codec s e with hsame | ⟨u, t, d, n, dev, io, he, hrow, hadd⟩
  · rw [hsame] at h
    exact Or.inl h
  · rw [hadd] at h
    rcases List.mem_cons.mp h with heq | hold
    · exact Or.inr ⟨u, t, d, n, dev, io, he, hrow, heq⟩
    · exact Or.inl hold

theorem ingested_step_mono (e : LibraryEvent) {entry : UserId × MediaTable × String}
    (h : entry ∈ s.ingested) : entry ∈ (libraryStep P codec s e).ingested := by
  rcases @libraryStep_ingested P codec s e with hsame | ⟨_, _, _, _, _, _, _, _, hadd⟩
  · rw [hsame]
    exact h
  · rw [hadd]
    exact List.mem_cons_of_mem _ h

end Reminisce

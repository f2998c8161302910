import Mathlib.Data.Fintype.Basic
import Reminisce.Library.Unwinding
import Reminisce.RowViews

namespace Reminisce

instance : Fintype MediaTable where
  elems := {.images, .videos}
  complete := by
    intro table
    cases table <;> decide

/-- The user who sends a request, or whose row the worker is at. -/
def LibraryEvent.actor : LibraryEvent → UserId
  | .content userId .. => userId
  | .metadata userId .. => userId
  | .softDelete userId .. => userId
  | .restore userId .. => userId
  | .rotate userId .. => userId
  | .thumbnail userId .. => userId
  | .image userId .. => userId
  | .video userId .. => userId
  | .list userId .. => userId
  | .select userId .. => userId
  | .check userId .. => userId
  | .record userId .. => userId
  | .abandon userId .. => userId

/-- The hash that an event is about. -/
def LibraryEvent.hash (P : Primitives) : LibraryEvent → Option String
  | .content _ _ data .. => some (contentHash P data)
  | .metadata _ _ m _ => some m.hash
  | .softDelete _ _ hash .. => some hash
  | .restore _ _ hash _ => some hash
  | .rotate _ hash .. => some hash
  | .thumbnail _ hash _ => some hash
  | .image _ hash _ => some hash
  | .video _ hash _ => some hash
  | .list .. => none
  | .select _ _ hash _ => some hash
  | .check _ _ hash _ => some hash
  | .record _ _ hash .. => some hash
  | .abandon _ _ hash => some hash

def LibraryEvent.byWorker : LibraryEvent → Bool
  | .select .. => true
  | .check .. => true
  | .record .. => true
  | .abandon .. => true
  | _ => false

def requestOf (userId : UserId) (e : LibraryEvent) : Bool := !e.byWorker && e.actor = userId

inductive LibraryAnswer
  | image (response : MediaResponse ImageBody)
  | thumbnail (response : ThumbnailResponse)
  | listing (response : Option ThumbnailsResponse)
  deriving DecidableEq, Repr

def libraryAnswer (s : LibraryState) : LibraryEvent → Option LibraryAnswer
  | .image userId hash io => some (.image (getImage s.lib userId hash io))
  | .thumbnail userId hash io => some (.thumbnail (getThumbnail s.lib userId hash io).1)
  | .list userId query tables => some (.listing (listMediaThumbnails s.lib userId query tables))
  | _ => none

/-- The answers that one user gets. -/
def observes (userId : UserId) (s : LibraryState) (e : LibraryEvent) : Option LibraryAnswer :=
  if requestOf userId e then libraryAnswer s e else none

/-- The hashes that a user's requests name. -/
def namedBy (P : Primitives) (userId : UserId) (es : List LibraryEvent) (hash : String) : Bool :=
  es.any fun e => requestOf userId e && e.hash P = some hash

/-- The thumbnail that a rotation writes. -/
def rotationThumb (codec : ImageCodec) (lib : Library) (userId : UserId) (hash : String)
    (request : UpdateOrientationRequest) (io : OrientationIo) : Option Thumbnail :=
  match liveRow (lib.rows .images) userId hash with
  | none => none
  | some row =>
    match newOrientation request row.orientation with
    | .error _ => none
    | .ok o =>
      match safeResolveContentPath lib .images hash row.ext with
      | .ok data => generateThumbnailForImage codec data (some o) io.thumbWritten
      | .error _ => none

/-- The thumbnail that a verification writes. -/
def verificationThumb (P : Primitives) (codec : ImageCodec) (lib : Library) (task : VerifyTask)
    (io : VerifyIo) : Option Thumbnail :=
  match lib.files task.table task.hash task.ext with
  | none => none
  | some data =>
    if io.read ∧ contentHash P data = task.hash ∧ task.hasThumbnail = false then
      task.thumbnail codec data io
    else none

/-- What a user's requests, and the verification of his rows, do to the store of the hashes: a
thumbnail that is written is the one already there, a missing one is missed by no other owner's
row, and an upload brings the bytes that are stored. -/
def Spares (P : Primitives) (codec : ImageCodec) (userId : UserId) (hashes : String → Bool)
    (s : LibraryState) : LibraryEvent → Prop
  | .content u table data name _ _ =>
    u = userId → hashes (contentHash P data) = true →
      ∀ old ∈ s.lib.files table (contentHash P data) (toLowercase (pathExtension name)), old = data
  | .rotate u hash request io =>
    u = userId → hashes hash = true → ∀ thumb ∈ rotationThumb codec s.lib u hash request io,
      s.lib.thumbs .images hash = some thumb
  | .thumbnail u hash _ =>
    u = userId → hashes hash = true → (∀ t, s.lib.thumbs t hash = none) →
      ∀ t, ∀ row ∈ s.lib.rows t, row.hash = hash → row.hasThumbnail = true → row.userId = u
  | .check u table hash io =>
    u = userId → hashes hash = true → ∀ task ∈ s.taskOf u table hash,
      ∀ thumb ∈ verificationThumb P codec s.lib task io, s.lib.thumbs table hash = some thumb
  | _ => True

instance (P : Primitives) (codec : ImageCodec) (userId : UserId) (hashes : String → Bool)
    (s : LibraryState) : ∀ e, Decidable (Spares P codec userId hashes s e)
  | .content .. => inferInstanceAs (Decidable (_ = _ → _ = true → ∀ old ∈ (_ : Option Bytes), _))
  | .rotate .. => inferInstanceAs (Decidable (_ = _ → _ = true → ∀ thumb ∈ rotationThumb .., _))
  | .thumbnail .. => inferInstanceAs (Decidable (_ = _ → _ = true → _ → _))
  | .check .. => inferInstanceAs (Decidable (_ = _ → _ = true → ∀ task ∈ s.taskOf .., _))
  | .metadata .. | .softDelete .. | .restore .. | .image .. | .video .. | .list ..
  | .select .. | .record .. | .abandon .. => isTrue trivial

/-- Every row of the hashes names a stored file. -/
def NamesStoredFiles (hashes : String → Bool) (lib : Library) : Prop :=
  ∀ t, ∀ row ∈ lib.rows t, hashes row.hash = true → (lib.files t row.hash row.ext).isSome = true

instance (hashes : String → Bool) (lib : Library) : Decidable (NamesStoredFiles hashes lib) :=
  inferInstanceAs (Decidable (∀ t, ∀ row ∈ lib.rows t, _))

/-- The rows of the hashes whose owner is another user. -/
def othersOf (userId : UserId) (hashes : String → Bool) (u : UserId) (hash : String) : Bool :=
  decide (u ≠ userId) && hashes hash

/-- The parts of two libraries that the owners in view can see: the rows, the thumbnails, and of
the files those that the second library has. -/
structure SameFor (view : UserId → String → Bool) (hashes : String → Bool) (a b : Library) :
    Prop where
  rows : ∀ t, (a.rows t).filter (byOwner view) = (b.rows t).filter (byOwner view)
  thumbs : ∀ t h, hashes h = true → a.thumbs t h = b.thumbs t h
  files : ∀ t h ext data, hashes h = true → b.files t h ext = some data →
    a.files t h ext = some data
  starred : a.starred = b.starred
  labels : a.labels = b.labels

variable {P : Primitives} {codec : ImageCodec} {view : UserId → String → Bool}
  {hashes : String → Bool} {a b c : Library} {table : MediaTable} {userId : UserId} {hash : String}

theorem SameFor.refl (a : Library) : SameFor view hashes a a where
  rows _ := rfl
  thumbs _ _ _ := rfl
  files _ _ _ _ _ h := h
  starred := rfl
  labels := rfl

theorem SameFor.trans (hab : SameFor view hashes a b) (hbc : SameFor view hashes b c) :
    SameFor view hashes a c where
  rows t := (hab.rows t).trans (hbc.rows t)
  thumbs t h hh := (hab.thumbs t h hh).trans (hbc.thumbs t h hh)
  files t h ext data hh hfile := hab.files t h ext data hh (hbc.files t h ext data hh hfile)
  starred := hab.starred.trans hbc.starred
  labels := hab.labels.trans hbc.labels

/-- Two updates of a table that leave the same rows in view. -/
theorem SameFor.setRows (h : SameFor view hashes a b) {ra rb : List LibraryRow}
    (hrows : ra.filter (byOwner view) = rb.filter (byOwner view)) :
    SameFor view hashes (a.setRows table ra) (b.setRows table rb) where
  rows t := by
    by_cases ht : t = table
    · rw [ht, Library.setRows_rows, Library.setRows_rows, hrows]
    · rw [Library.setRows_rows_ne _ ht, Library.setRows_rows_ne _ ht]
      exact h.rows t
  thumbs := h.thumbs
  files := h.files
  starred := h.starred
  labels := h.labels

theorem SameFor.setRows_aside {rows : List LibraryRow}
    (hrows : rows.filter (byOwner view) = (a.rows table).filter (byOwner view)) :
    SameFor view hashes (a.setRows table rows) a := by
  have hself : a.setRows table (a.rows table) = a := by
    unfold Library.setRows
    congr 1
    funext t
    split
    next ht => rw [ht]
    next => rfl
  have hset : SameFor view hashes (a.setRows table rows) (a.setRows table (a.rows table)) :=
    (SameFor.refl a).setRows hrows
  rwa [hself] at hset

theorem SameFor.putThumb (h : SameFor view hashes a b) (thumb : Thumbnail) :
    SameFor view hashes (a.putThumb table hash thumb) (b.putThumb table hash thumb) where
  rows := h.rows
  thumbs t k hk := by
    show (if _ then _ else a.thumbs t k) = if _ then _ else b.thumbs t k
    split
    next => rfl
    next => exact h.thumbs t k hk
  files := h.files
  starred := h.starred
  labels := h.labels

/-- A thumbnail of another hash, or the one that is there. -/
theorem SameFor.putThumb_aside {thumb : Thumbnail}
    (hsame : hashes hash = true → a.thumbs table hash = some thumb) :
    SameFor view hashes (a.putThumb table hash thumb) a where
  rows _ := rfl
  thumbs t k hk := by
    show (if t = table ∧ k = hash then some thumb else a.thumbs t k) = a.thumbs t k
    split
    next hkey =>
      rw [hkey.1, hkey.2]
      rw [hkey.2] at hk
      exact (hsame hk).symm
    next => rfl
  files _ _ _ _ _ h := h
  starred := rfl
  labels := rfl

theorem SameFor.putFile (h : SameFor view hashes a b) (ext : String) (data : Bytes) :
    SameFor view hashes (a.putFile table hash ext data) (b.putFile table hash ext data) where
  rows := h.rows
  thumbs := h.thumbs
  files t k e d hk hfile := by
    change (if _ then some data else b.files t k e) = some d at hfile
    show (if _ then some data else a.files t k e) = some d
    split
    next hkey => rwa [if_pos hkey] at hfile
    next hkey =>
      rw [if_neg hkey] at hfile
      exact h.files t k e d hk hfile
  starred := h.starred
  labels := h.labels

/-- A file of another hash, or with the bytes that are stored. -/
theorem SameFor.putFile_aside {ext : String} {data : Bytes}
    (hsame : hashes hash = true → ∀ old, a.files table hash ext = some old → old = data) :
    SameFor view hashes (a.putFile table hash ext data) a where
  rows _ := rfl
  thumbs _ _ _ := rfl
  files t k e d hk hfile := by
    show (if t = table ∧ k = hash ∧ e = ext then some data else a.files t k e) = some d
    split
    next hkey =>
      rw [hkey.1, hkey.2.1, hkey.2.2] at hfile
      rw [hkey.2.1] at hk
      rw [hsame hk d hfile]
    next => exact hfile
  starred := rfl
  labels := rfl

theorem setDeletedAt_aside (hout : view userId hash = false) (where_ : LibraryRow → Bool)
    (deletedAt : Option Time) (missing : String) (io : DbIo) :
    SameFor view hashes (setDeletedAt table a hash userId where_ deletedAt missing io).2 a := by
  rcases setDeletedAt_cases table a hash userId where_ deletedAt missing io with h | h
  · rw [h]
    exact SameFor.refl a
  · rw [h]
    exact SameFor.setRows_aside (filter_updateRows_outside _ (fun _ => rfl) hout)

theorem uploadMetadata_aside {m : MetadataRequest} (hout : view userId m.hash = false)
    (io : DbIo) : SameFor view hashes (uploadMetadata table a userId m io).2 a := by
  rw [uploadMetadata_lib]
  split
  next => exact SameFor.setRows_aside (filter_insertRow_outside _ (fun _ => rfl) hout)
  next => exact SameFor.refl a

theorem describeRow_owner {data : Bytes} {ext : String} {io : WholeIngestIo} (row : LibraryRow) :
    (describeRow codec table data ext io row).owner = row.owner :=
  describeRow_view owner_undescribed ext row

theorem contentUpload_aside {s : LibraryState} {data : Bytes} {name deviceId : String}
    {io : WholeIngestIo} (hout : view userId (contentHash P data) = false)
    (hsame : hashes (contentHash P data) = true → ∀ old,
      s.lib.files table (contentHash P data) (toLowercase (pathExtension name)) = some old →
        old = data) :
    SameFor view hashes (contentUpload P codec s userId table data name deviceId io).lib s.lib := by
  have hstore : SameFor view hashes (s.lib.store P table data name) s.lib :=
    SameFor.putFile_aside hsame
  by_cases hstores : Stores table data name io
  · by_cases hrow : Registers P userId table data name deviceId io
    · rw [contentUpload_registered hrow]
      refine SameFor.trans (SameFor.setRows_aside ?_) hstore
      unfold registerRows
      simp only
      rw [filter_updateRows_outside _ describeRow_owner hout]
      exact filter_insertRow_outside _ (fun _ => rfl) hout
    · rw [contentUpload_stored hstores hrow]
      exact hstore
  · rw [contentUpload_refused hstores]
    exact SameFor.refl s.lib

theorem finishOrientation_aside (hout : view userId hash = false) (o : Int) (hasThumbnail : Bool)
    (io : OrientationIo) :
    SameFor view hashes (finishOrientation a userId hash o hasThumbnail io).2 a := by
  rcases finishOrientation_cases a userId hash o hasThumbnail io with h | h
  · rw [h]
    exact SameFor.refl a
  · rw [h]
    exact SameFor.setRows_aside (filter_updateRows_outside _ (fun _ => rfl) hout)

theorem updateImageOrientation_aside (hout : view userId hash = false)
    (request : UpdateOrientationRequest) (io : OrientationIo)
    (hsame : hashes hash = true → ∀ thumb ∈ rotationThumb codec a userId hash request io,
      a.thumbs .images hash = some thumb) :
    SameFor view hashes (updateImageOrientation codec a userId hash request io).2 a := by
  rcases updateImageOrientation_cases codec a userId hash request io with
    h | ⟨row, o, hrow, ho, ⟨data, thumb, hdata, hmade, h⟩ | h⟩
  · rw [h]
    exact SameFor.refl a
  · rw [h]
    refine SameFor.trans (finishOrientation_aside hout o true io) (SameFor.putThumb_aside ?_)
    intro hin
    refine hsame hin thumb ?_
    simp [rotationThumb, hrow, ho, hdata, hmade]
  · rw [h]
    exact finishOrientation_aside hout o false io

/-- The column is reset after a miss of both files. -/
theorem getThumbnail_miss (lib : Library) (userId : UserId) (hash : String) (io : ThumbnailIo) :
    (getThumbnail lib userId hash io).2 = lib ∨
      ((∀ t, lib.thumbs t hash = none) ∧
        (getThumbnail lib userId hash io).2 = resetThumbnail lib hash io) := by
  unfold getThumbnail
  split
  next =>
    split
    next =>
      split
      next =>
        split
        next => split <;> exact Or.inl rfl
        next himage =>
          split
          next => split <;> exact Or.inl rfl
          next hvideo =>
            refine Or.inr ⟨fun t => ?_, rfl⟩
            cases t with
            | images => exact himage
            | videos => exact hvideo
      next => exact Or.inl rfl
    next => exact Or.inl rfl
  next => exact Or.inl rfl

theorem resetThumbnail_aside {io : ThumbnailIo}
    (hnone : ∀ t, ∀ row ∈ a.rows t, row.hash = hash → row.hasThumbnail = true →
      byOwner view row = false) : SameFor view hashes (resetThumbnail a hash io) a where
  rows t := by
    show (if io.reset t then resetThumbnailRows hash (a.rows t) else a.rows t).filter _ = _
    split
    next =>
      rw [filter_resetThumbnailRows]
      refine (List.map_congr_left fun row hrow => ?_).trans (List.map_id _)
      obtain ⟨hmem, hin⟩ := List.mem_filter.mp hrow
      refine if_neg fun hreset => ?_
      rw [hnone t row hmem hreset.1 hreset.2] at hin
      simp at hin
    next => rfl
  thumbs _ _ _ := rfl
  files _ _ _ _ _ h := h
  starred := rfl
  labels := rfl

theorem getThumbnail_aside (io : ThumbnailIo)
    (hnone : (∀ t, a.thumbs t hash = none) → ∀ t, ∀ row ∈ a.rows t, row.hash = hash →
      row.hasThumbnail = true → byOwner view row = false) :
    SameFor view hashes (getThumbnail a userId hash io).2 a := by
  rcases getThumbnail_miss a userId hash io with h | ⟨hmiss, h⟩
  · rw [h]
    exact SameFor.refl a
  · rw [h]
    exact resetThumbnail_aside (hnone hmiss)

theorem verifyFile_thumb {task : VerifyTask} {io : VerifyIo} {lib : Library} :
    (verifyFile P codec lib task io).2 = match verificationThumb P codec lib task io with
      | some thumb => lib.putThumb task.table task.hash thumb
      | none => lib := by
  unfold verifyFile verificationThumb
  cases lib.files task.table task.hash task.ext with
  | none => rfl
  | some data =>
    simp only
    by_cases hread : io.read = true
    · by_cases hhash : contentHash P data = task.hash
      · by_cases hthumb : task.hasThumbnail = true
        · simp [hread, hhash, hthumb]
        · have hmake : io.read = true ∧ contentHash P data = task.hash ∧
              task.hasThumbnail = false := ⟨hread, hhash, Bool.eq_false_iff.mpr hthumb⟩
          rw [if_pos hread, if_pos hhash, if_neg hthumb, if_pos hmake]
          cases task.thumbnail codec data io <;> rfl
      · rw [if_pos hread, if_neg hhash, if_neg fun h => hhash h.2.1]
    · rw [if_neg hread, if_neg fun h => hread h.1]

theorem checkTask_aside {s : LibraryState} {io : VerifyIo}
    (hsame : hashes hash = true → ∀ task ∈ s.taskOf userId table hash,
      ∀ thumb ∈ verificationThumb P codec s.lib task io, s.lib.thumbs table hash = some thumb) :
    SameFor view hashes (checkTask P codec s userId table hash io).lib s.lib := by
  unfold checkTask
  split
  next => exact SameFor.refl s.lib
  next task htask =>
    split
    next => exact SameFor.refl s.lib
    next =>
      simp only
      rw [verifyFile_thumb]
      obtain ⟨_, _, htable, hhash⟩ := taskOf_some htask
      split
      next thumb hthumb =>
        rw [htable, hhash]
        exact SameFor.putThumb_aside fun hin => hsame hin task htask thumb hthumb
      next => exact SameFor.refl s.lib

theorem recordVerdict_aside {task : VerifyTask} (hout : view task.userId task.hash = false)
    (verdict : VerifyVerdict) (now : Time) :
    SameFor view hashes (recordVerdict a task verdict now) a := by
  refine SameFor.setRows_aside (filter_updateRows_outside _ (fun row => ?_) hout)
  cases verdict <;> rfl

theorem recordTask_aside {s : LibraryState} (hout : view userId hash = false) (now : Time)
    (stored : Bool) :
    SameFor view hashes (recordTask s userId table hash now stored).lib s.lib := by
  rcases recordTask_cases s userId table hash now stored with
    ⟨h, _⟩ | ⟨task, verdict, htask, _, _, h⟩
  · rw [h]
    exact SameFor.refl s.lib
  · obtain ⟨_, huser, _, hhash⟩ := taskOf_some htask
    rw [h]
    exact recordVerdict_aside (by rw [huser, hhash]; exact hout) verdict now

/-- The tasks of the rows in view. -/
def taskInView (view : UserId → String → Bool) (task : VerifyTask) : Bool :=
  view task.userId task.hash

theorem filter_setVerdict (verdict : VerifyVerdict) (task : VerifyTask)
    (tasks : List VerifyTask) : (setVerdict verdict task tasks).filter (taskInView view) =
      setVerdict verdict task (tasks.filter (taskInView view)) := by
  unfold setVerdict
  rw [List.filter_map]
  refine congrArg _ (List.filter_congr fun t _ => ?_)
  show taskInView view (if t = task then _ else t) = taskInView view t
  split
  next heq => rw [heq]; rfl
  next => rfl

theorem filter_setVerdict_outside {task : VerifyTask} (hout : taskInView view task = false)
    (verdict : VerifyVerdict) (tasks : List VerifyTask) :
    (setVerdict verdict task tasks).filter (taskInView view) =
      tasks.filter (taskInView view) := by
  rw [filter_setVerdict]
  unfold setVerdict
  refine (List.map_congr_left fun t ht => ?_).trans (List.map_id _)
  refine if_neg fun heq => ?_
  have hin := (List.mem_filter.mp ht).2
  rw [heq, hout] at hin
  simp at hin

theorem filter_dropTask (tasks : List VerifyTask) :
    (dropTask userId table hash tasks).filter (taskInView view) =
      dropTask userId table hash (tasks.filter (taskInView view)) := by
  unfold dropTask
  rw [List.filter_filter, List.filter_filter]
  exact List.filter_congr fun t _ => Bool.and_comm _ _

theorem VerifyTask.isOf_iff {task : VerifyTask} : task.isOf userId table hash = true ↔
    task.userId = userId ∧ task.table = table ∧ task.hash = hash := by
  simp [VerifyTask.isOf, and_assoc]

theorem filter_dropTask_outside (hout : view userId hash = false) (tasks : List VerifyTask) :
    (dropTask userId table hash tasks).filter (taskInView view) =
      tasks.filter (taskInView view) := by
  rw [filter_dropTask]
  refine List.filter_eq_self.mpr fun task htask => ?_
  have hin := (List.mem_filter.mp htask).2
  refine Bool.not_eq_true' _ |>.mpr (Bool.eq_false_iff.mpr fun hkey => ?_)
  obtain ⟨huser, _, hhash⟩ := VerifyTask.isOf_iff.mp hkey
  rw [taskInView, huser, hhash, hout] at hin
  simp at hin

theorem selectTask_tasks_aside {s : LibraryState} (hout : view userId hash = false)
    (monthAgo : Time) : (selectTask s userId table hash monthAgo).tasks.filter (taskInView view) =
      s.tasks.filter (taskInView view) := by
  unfold selectTask
  split
  next row hrow _ =>
    have hkey := List.find?_some hrow
    simp only [Bool.and_eq_true, LibraryRow.isOf_iff] at hkey
    have hnew : taskInView view (VerifyTask.select table row) = false := by
      show view row.userId row.hash = false
      rw [hkey.1.1, hkey.1.2]
      exact hout
    rw [List.filter_append, List.filter_cons_of_neg (by simp [hnew])]
    simp
  next => rfl

theorem checkTask_tasks_aside {s : LibraryState} (hout : view userId hash = false)
    (io : VerifyIo) :
    (checkTask P codec s userId table hash io).tasks.filter (taskInView view) =
      s.tasks.filter (taskInView view) := by
  rcases @checkTask_cases P codec s userId table hash io with
    h | ⟨task, verdict, htask, _, htasks, _⟩
  · rw [h]
  · obtain ⟨_, huser, _, hhash⟩ := taskOf_some htask
    rw [htasks]
    refine filter_setVerdict_outside ?_ verdict s.tasks
    show view task.userId task.hash = false
    rw [huser, hhash]
    exact hout

theorem recordTask_tasks_aside {s : LibraryState} (hout : view userId hash = false) (now : Time)
    (stored : Bool) :
    (recordTask s userId table hash now stored).tasks.filter (taskInView view) =
      s.tasks.filter (taskInView view) := by
  unfold recordTask
  split
  next => rfl
  next =>
    split
    next => rfl
    next => exact filter_dropTask_outside hout s.tasks

/-- A step outside the view leaves what is in view alone, if it spares the store. -/
theorem libraryStep_aside {s : LibraryState} {e : LibraryEvent} {A : UserId}
    (hspares : Spares P codec A hashes s e)
    (hout : ∀ h, e.hash P = some h → othersOf A hashes e.actor h = false) :
    SameFor (othersOf A hashes) hashes (libraryStep P codec s e).lib s.lib ∧
      (libraryStep P codec s e).tasks.filter (taskInView (othersOf A hashes)) =
        s.tasks.filter (taskInView (othersOf A hashes)) := by
  have hactor : ∀ h, e.hash P = some h → hashes h = true → e.actor = A := by
    intro h hh hin
    have := hout h hh
    rw [othersOf, hin, Bool.and_true, decide_eq_false_iff_not, not_not] at this
    exact this
  cases e with
  | content userId table data name deviceId io =>
    refine ⟨contentUpload_aside (hout _ rfl) fun hin => hspares (hactor _ rfl hin) hin, ?_⟩
    show (contentUpload P codec s userId table data name deviceId io).tasks.filter _ = _
    unfold contentUpload
    simp only
    split <;> rfl
  | metadata userId table m io => exact ⟨uploadMetadata_aside (hout _ rfl) io, rfl⟩
  | softDelete => exact ⟨setDeletedAt_aside (hout _ rfl) _ _ _ _, rfl⟩
  | restore => exact ⟨setDeletedAt_aside (hout _ rfl) _ _ _ _, rfl⟩
  | rotate userId hash request io =>
    exact ⟨updateImageOrientation_aside (hout _ rfl) request io
      fun hin => hspares (hactor _ rfl hin) hin, rfl⟩
  | thumbnail userId hash io =>
    refine ⟨getThumbnail_aside io fun hmiss t row hrow hhash hthumb => ?_, rfl⟩
    by_cases hin : hashes hash = true
    · have huser := hactor _ rfl hin
      have hself := hspares huser hin hmiss t row hrow hhash hthumb
      simp [byOwner, othersOf, hself.trans huser]
    · simp [byOwner, othersOf, hhash, hin]
  | image | video | list => exact ⟨SameFor.refl _, rfl⟩
  | select userId table hash monthAgo =>
    refine ⟨?_, selectTask_tasks_aside (hout _ rfl) monthAgo⟩
    show SameFor _ _ (selectTask s userId table hash monthAgo).lib s.lib
    rw [selectTask_lib]
    exact SameFor.refl s.lib
  | check userId table hash io =>
    exact ⟨checkTask_aside fun hin => hspares (hactor _ rfl hin) hin,
      checkTask_tasks_aside (hout _ rfl) io⟩
  | record userId table hash now stored =>
    exact ⟨recordTask_aside (hout _ rfl) now stored, recordTask_tasks_aside (hout _ rfl) now stored⟩
  | abandon userId table hash => exact ⟨SameFor.refl _, filter_dropTask_outside (hout _ rfl) s.tasks⟩

end Reminisce

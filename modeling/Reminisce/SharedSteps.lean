import Reminisce.Interference

namespace Reminisce

variable {P : Primitives} {codec : ImageCodec} {view : UserId → String → Bool}
  {hashes : String → Bool} {a b : Library} {table : MediaTable} {userId : UserId} {hash : String}

theorem any_congr_byOwner {rows rows' : List LibraryRow} (hin : view userId hash = true)
    (h : rows.filter (byOwner view) = rows'.filter (byOwner view)) (cond : LibraryRow → Bool) :
    (rows.any fun row => row.isOf userId hash && cond row) =
      rows'.any fun row => row.isOf userId hash && cond row := by
  have hview : ∀ rows : List LibraryRow, (rows.any fun row => row.isOf userId hash && cond row) =
      (rows.filter (byOwner view)).any fun row => row.isOf userId hash && cond row := by
    intro rows
    rw [List.any_filter]
    congr 1
    funext row
    cases hkey : row.isOf userId hash with
    | true => rw [byOwner_of_isOf hkey, hin]; simp
    | false => simp
  rw [hview rows, hview rows', h]

theorem filter_insertRow_congr {new : LibraryRow} {onConflict : LibraryRow → LibraryRow}
    {rows rows' : List LibraryRow} (howner : ∀ row, (onConflict row).owner = row.owner)
    (hin : view new.userId new.hash = true)
    (h : rows.filter (byOwner view) = rows'.filter (byOwner view)) :
    (insertRow new onConflict rows).filter (byOwner view) =
      (insertRow new onConflict rows').filter (byOwner view) := by
  rw [filter_insertRow rows howner hin, filter_insertRow rows' howner hin, h]

/-- An update of one owner's rows in view. -/
theorem SameFor.updateRows (h : SameFor view hashes a b) {where_ : LibraryRow → Bool}
    {change : LibraryRow → LibraryRow} (howner : ∀ row, (change row).owner = row.owner) :
    SameFor view hashes
      (a.setRows table (updateRows userId hash where_ change (a.rows table)))
      (b.setRows table (updateRows userId hash where_ change (b.rows table))) := by
  refine h.setRows ?_
  rw [filter_updateRows _ howner, filter_updateRows _ howner, h.rows table]

theorem setDeletedAt_both (h : SameFor view hashes a b) (hin : view userId hash = true)
    (where_ : LibraryRow → Bool) (deletedAt : Option Time) (missing : String) (io : DbIo) :
    SameFor view hashes (setDeletedAt table a hash userId where_ deletedAt missing io).2
      (setDeletedAt table b hash userId where_ deletedAt missing io).2 := by
  unfold setDeletedAt
  rw [any_congr_byOwner hin (h.rows table) where_]
  split
  next =>
    split
    next => exact h.updateRows fun _ => rfl
    next => exact h
  next => exact h

theorem uploadMetadata_both {m : MetadataRequest} (h : SameFor view hashes a b)
    (hin : view userId m.hash = true) (io : DbIo) :
    SameFor view hashes (uploadMetadata table a userId m io).2
      (uploadMetadata table b userId m io).2 := by
  rw [uploadMetadata_lib, uploadMetadata_lib]
  split
  next =>
    exact h.setRows (filter_insertRow_congr (fun _ => rfl) hin (h.rows table))
  next => exact h

theorem contentUpload_both {s t : LibraryState} (h : SameFor view hashes s.lib t.lib)
    {data : Bytes} {name deviceId : String} (hin : view userId (contentHash P data) = true)
    (io : WholeIngestIo) :
    SameFor view hashes (contentUpload P codec s userId table data name deviceId io).lib
      (contentUpload P codec t userId table data name deviceId io).lib := by
  by_cases hstores : Stores table data name io
  · have hstored : SameFor view hashes (s.lib.store P table data name)
        (t.lib.store P table data name) := h.putFile _ data
    by_cases hrow : Registers P userId table data name deviceId io
    · rw [contentUpload_registered hrow, contentUpload_registered hrow]
      refine hstored.setRows ?_
      unfold registerRows
      simp only
      rw [filter_updateRows _ describeRow_owner, filter_updateRows _ describeRow_owner]
      exact congrArg _ (filter_insertRow_congr (fun _ => rfl) hin (h.rows table))
    · rw [contentUpload_stored hstores hrow, contentUpload_stored hstores hrow]
      exact hstored
  · rw [contentUpload_refused hstores, contentUpload_refused hstores]
    exact h

/-- Where the second library has the file, both resolve it alike. -/
theorem safeResolve_both (h : SameFor view hashes a b) (hhash : hashes hash = true) {ext : String}
    (hstored : (b.files table hash ext).isSome = true) :
    safeResolveContentPath a table hash ext = safeResolveContentPath b table hash ext := by
  obtain ⟨data, hdata⟩ := Option.isSome_iff_exists.mp hstored
  unfold safeResolveContentPath
  rw [h.files table hash ext data hhash hdata, hdata]

theorem liveRow_both (h : SameFor view hashes a b) (hin : view userId hash = true)
    (table : MediaTable) :
    liveRow (a.rows table) userId hash = liveRow (b.rows table) userId hash :=
  liveRow_congr hin (h.rows table)

theorem liveRow_named (hnamed : NamesStoredFiles hashes b) (hhash : hashes hash = true) {row : LibraryRow}
    (hrow : liveRow (b.rows table) userId hash = some row) :
    (b.files table hash row.ext).isSome = true := by
  obtain ⟨hmem, _, hrowHash, _⟩ := liveRow_some hrow
  have := hnamed table row hmem (by rw [hrowHash]; exact hhash)
  rwa [hrowHash] at this

theorem finishOrientation_both (h : SameFor view hashes a b) (o : Int) (hasThumbnail : Bool)
    (io : OrientationIo) :
    SameFor view hashes (finishOrientation a userId hash o hasThumbnail io).2
      (finishOrientation b userId hash o hasThumbnail io).2 := by
  unfold finishOrientation
  split
  next => exact h.updateRows fun _ => rfl
  next => exact h

theorem updateImageOrientation_both (h : SameFor view hashes a b) (hin : view userId hash = true)
    (hhash : hashes hash = true) (hnamed : NamesStoredFiles hashes b)
    (request : UpdateOrientationRequest) (io : OrientationIo) :
    SameFor view hashes (updateImageOrientation codec a userId hash request io).2
      (updateImageOrientation codec b userId hash request io).2 := by
  unfold updateImageOrientation
  split
  next =>
    split
    next =>
      rw [liveRow_both h hin]
      cases hrow : liveRow (b.rows .images) userId hash with
      | none => exact h
      | some row =>
        simp only
        rw [safeResolve_both h hhash (liveRow_named hnamed hhash hrow)]
        cases newOrientation request row.orientation with
        | error response => exact h
        | ok o =>
          simp only
          cases safeResolveContentPath b .images hash row.ext with
          | error e => exact finishOrientation_both h o false io
          | ok data =>
            simp only
            cases generateThumbnailForImage codec data (some o) io.thumbWritten with
            | none => exact h
            | some thumb => exact finishOrientation_both (h.putThumb thumb) o true io
    next => exact h
  next => exact h

theorem resetThumbnail_both (h : SameFor view hashes a b) (io : ThumbnailIo) :
    SameFor view hashes (resetThumbnail a hash io) (resetThumbnail b hash io) where
  rows t := by
    show (if io.reset t then resetThumbnailRows hash (a.rows t) else a.rows t).filter _ =
      (if io.reset t then resetThumbnailRows hash (b.rows t) else b.rows t).filter _
    split
    next => rw [filter_resetThumbnailRows, filter_resetThumbnailRows, h.rows t]
    next => exact h.rows t
  thumbs := h.thumbs
  files := h.files
  starred := h.starred
  labels := h.labels

theorem getThumbnail_both (h : SameFor view hashes a b) (hin : view userId hash = true)
    (hhash : hashes hash = true) (io : ThumbnailIo) :
    (getThumbnail a userId hash io).1 = (getThumbnail b userId hash io).1 ∧
      SameFor view hashes (getThumbnail a userId hash io).2 (getThumbnail b userId hash io).2 := by
  unfold getThumbnail
  rw [liveRow_both h hin, liveRow_both h hin, h.thumbs .images hash hhash,
    h.thumbs .videos hash hhash]
  split
  next =>
    split
    next =>
      split
      next =>
        split
        next => split <;> exact ⟨rfl, h⟩
        next =>
          split
          next => split <;> exact ⟨rfl, h⟩
          next => exact ⟨rfl, resetThumbnail_both h io⟩
      next => exact ⟨rfl, h⟩
    next => exact ⟨rfl, h⟩
  next => exact ⟨rfl, h⟩

theorem getImage_both (h : SameFor view hashes a b) (hin : view userId hash = true)
    (hhash : hashes hash = true) (hnamed : NamesStoredFiles hashes b) (io : ReadIo) :
    getImage a userId hash io = getImage b userId hash io := by
  unfold getImage
  rw [liveRow_both h hin]
  cases hrow : liveRow (b.rows .images) userId hash with
  | none => rfl
  | some row =>
    simp only
    rw [safeResolve_both h hhash (liveRow_named hnamed hhash hrow)]

theorem listed_congr (hstarred : a.starred = b.starred) (hlabels : a.labels = b.labels)
    (q : ListQuery) (table : MediaTable) (combined : Bool) (row : LibraryRow) :
    LibraryRow.listed a userId q table combined row =
      LibraryRow.listed b userId q table combined row := by
  unfold LibraryRow.listed
  rw [hstarred, hlabels]

/-- A listing shows rows of its user alone. -/
theorem filter_listed (lib : Library) (userId : UserId) (q : ListQuery) (table : MediaTable)
    (combined : Bool) (rows : List LibraryRow)
    (hin : ∀ row ∈ rows, row.userId = userId → byOwner view row = true) :
    (rows.filter (byOwner view)).filter (LibraryRow.listed lib userId q table combined) =
      rows.filter (LibraryRow.listed lib userId q table combined) := by
  rw [List.filter_filter]
  refine List.filter_congr fun row hrow => ?_
  cases hlisted : LibraryRow.listed lib userId q table combined row with
  | false => rfl
  | true =>
    have huser : row.userId = userId := by
      simp only [LibraryRow.listed, Bool.and_eq_true, decide_eq_true_eq] at hlisted
      exact hlisted.1.1.1.1.1.1.1.2
    rw [hin row hrow huser]
    rfl

theorem tableItems_both (h : SameFor view hashes a b)
    (ha : ∀ row ∈ a.rows table, row.userId = userId → byOwner view row = true)
    (hb : ∀ row ∈ b.rows table, row.userId = userId → byOwner view row = true) (q : ListQuery)
    (combined : Bool) : tableItems a userId q combined table = tableItems b userId q combined table
    := by
  have hitem : thumbnailItem a userId q table = thumbnailItem b userId q table := by
    funext row
    unfold thumbnailItem
    rw [h.starred]
  have hlisted : LibraryRow.listed a userId q table combined =
      LibraryRow.listed b userId q table combined :=
    funext (listed_congr h.starred h.labels q table combined)
  unfold tableItems
  rw [hitem, hlisted, ← filter_listed b userId q table combined (a.rows table) ha,
    ← filter_listed b userId q table combined (b.rows table) hb, h.rows table]

theorem tableTotal_both (h : SameFor view hashes a b)
    (ha : ∀ row ∈ a.rows table, row.userId = userId → byOwner view row = true)
    (hb : ∀ row ∈ b.rows table, row.userId = userId → byOwner view row = true) (q : ListQuery)
    (combined : Bool) : tableTotal a userId q combined table = tableTotal b userId q combined table
    := by
  have hlisted : LibraryRow.listed a userId q table combined =
      LibraryRow.listed b userId q table combined :=
    funext (listed_congr h.starred h.labels q table combined)
  have hsplit : ∀ rows : List LibraryRow, (rows.countP fun row =>
      row.hasThumbnail && LibraryRow.listed b userId q table combined row) =
        (rows.filter (LibraryRow.listed b userId q table combined)).countP (·.hasThumbnail) := by
    intro rows
    rw [List.countP_filter]
  unfold tableTotal
  rw [hlisted, hsplit, hsplit, ← filter_listed b userId q table combined (a.rows table) ha,
    ← filter_listed b userId q table combined (b.rows table) hb, h.rows table]

theorem listMediaThumbnails_both (h : SameFor view hashes a b)
    (ha : ∀ t, ∀ row ∈ a.rows t, row.userId = userId → byOwner view row = true)
    (hb : ∀ t, ∀ row ∈ b.rows t, row.userId = userId → byOwner view row = true) (q : ListQuery)
    (tables : ListTable) :
    listMediaThumbnails a userId q tables = listMediaThumbnails b userId q tables := by
  have hitems := fun combined t => tableItems_both h (ha t) (hb t) q combined
  have htotal := fun combined t => tableTotal_both h (ha t) (hb t) q combined
  unfold listMediaThumbnails listThumbnails totalThumbnails
  simp only [hitems, htotal]

theorem taskOf_congr {s t : LibraryState} (hin : view userId hash = true)
    (h : s.tasks.filter (taskInView view) = t.tasks.filter (taskInView view)) :
    s.taskOf userId table hash = t.taskOf userId table hash := by
  have hview : ∀ tasks : List VerifyTask, tasks.find? (·.isOf userId table hash) =
      (tasks.filter (taskInView view)).find? (·.isOf userId table hash) := by
    intro tasks
    rw [List.find?_filter]
    congr 1
    funext task
    cases hkey : task.isOf userId table hash with
    | false => simp
    | true =>
      obtain ⟨huser, _, hhash⟩ := VerifyTask.isOf_iff.mp hkey
      simp [taskInView, huser, hhash, hin]
  unfold LibraryState.taskOf
  rw [hview s.tasks, hview t.tasks, h]

theorem selectTask_both {s t : LibraryState} (h : SameFor view hashes s.lib t.lib)
    (hin : view userId hash = true)
    (htasks : s.tasks.filter (taskInView view) = t.tasks.filter (taskInView view))
    (monthAgo : Time) :
    (selectTask s userId table hash monthAgo).tasks.filter (taskInView view) =
      (selectTask t userId table hash monthAgo).tasks.filter (taskInView view) := by
  have hrow : ((s.lib.rows table).find? fun row => row.isOf userId hash && row.due monthAgo) =
      (t.lib.rows table).find? fun row => row.isOf userId hash && row.due monthAgo := by
    rw [← find_filter_byOwner (s.lib.rows table) hin, ← find_filter_byOwner (t.lib.rows table) hin,
      h.rows table]
  unfold selectTask
  rw [hrow, taskOf_congr hin htasks]
  split
  next => rw [List.filter_append, List.filter_append, htasks]
  next => exact htasks

/-- A verification of a file that both libraries have. -/
theorem verifyFile_both (h : SameFor view hashes a b) {task : VerifyTask}
    (hhash : hashes task.hash = true)
    (hheld : (b.files task.table task.hash task.ext).isSome = true) (io : VerifyIo) :
    (verifyFile P codec a task io).1 = (verifyFile P codec b task io).1 ∧
      SameFor view hashes (verifyFile P codec a task io).2 (verifyFile P codec b task io).2 := by
  obtain ⟨data, hdata⟩ := Option.isSome_iff_exists.mp hheld
  have hboth := h.files _ _ _ _ hhash hdata
  unfold verifyFile
  rw [hboth, hdata]
  simp only
  split
  next =>
    split
    next =>
      split
      next => exact ⟨rfl, h⟩
      next =>
        split
        next thumb _ => exact ⟨rfl, h.putThumb thumb⟩
        next => exact ⟨rfl, h⟩
    next => exact ⟨rfl, h⟩
  next => exact ⟨rfl, h⟩

theorem checkTask_both {s t : LibraryState} (h : SameFor view hashes s.lib t.lib)
    (hin : view userId hash = true) (hhash : hashes hash = true)
    (htasks : s.tasks.filter (taskInView view) = t.tasks.filter (taskInView view))
    (hheld : ∀ task ∈ t.tasks, hashes task.hash = true →
      (t.lib.files task.table task.hash task.ext).isSome = true) (io : VerifyIo) :
    SameFor view hashes (checkTask P codec s userId table hash io).lib
        (checkTask P codec t userId table hash io).lib ∧
      (checkTask P codec s userId table hash io).tasks.filter (taskInView view) =
        (checkTask P codec t userId table hash io).tasks.filter (taskInView view) := by
  unfold checkTask
  rw [taskOf_congr hin htasks]
  cases htask : t.taskOf userId table hash with
  | none => exact ⟨h, htasks⟩
  | some task =>
    obtain ⟨hmem, _, _, htaskHash⟩ := taskOf_some htask
    have hin' : hashes task.hash = true := by rw [htaskHash]; exact hhash
    obtain ⟨hverdict, hlib⟩ := @verifyFile_both P codec _ _ _ _ h task hin' (hheld task hmem hin') io
    simp only
    cases task.verdict with
    | some verdict => exact ⟨h, htasks⟩
    | none =>
      refine ⟨hlib, ?_⟩
      show (setVerdict _ task s.tasks).filter _ = (setVerdict _ task t.tasks).filter _
      rw [filter_setVerdict, filter_setVerdict, htasks, hverdict]

theorem recordTask_both {s t : LibraryState} (h : SameFor view hashes s.lib t.lib)
    (hin : view userId hash = true)
    (htasks : s.tasks.filter (taskInView view) = t.tasks.filter (taskInView view)) (now : Time)
    (stored : Bool) :
    SameFor view hashes (recordTask s userId table hash now stored).lib
        (recordTask t userId table hash now stored).lib ∧
      (recordTask s userId table hash now stored).tasks.filter (taskInView view) =
        (recordTask t userId table hash now stored).tasks.filter (taskInView view) := by
  have hdrop : (dropTask userId table hash s.tasks).filter (taskInView view) =
      (dropTask userId table hash t.tasks).filter (taskInView view) := by
    rw [filter_dropTask, filter_dropTask, htasks]
  unfold recordTask
  rw [taskOf_congr hin htasks]
  cases t.taskOf userId table hash with
  | none => exact ⟨h, htasks⟩
  | some task =>
    simp only
    cases task.verdict with
    | none => exact ⟨h, htasks⟩
    | some verdict =>
      refine ⟨?_, hdrop⟩
      cases stored with
      | false => exact h
      | true =>
        refine h.updateRows fun row => ?_
        cases verdict <;> rfl

end Reminisce

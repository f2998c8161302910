import Reminisce.RowsAndFiles

namespace Reminisce

/-- The worker has read the file of this name and found the hash. -/
def LibraryState.Checked (s : LibraryState) (table : MediaTable) (hash ext : String) : Prop :=
  ∃ c ∈ s.checked, c.table = table ∧ c.hash = hash ∧ c.ext = ext

instance (s : LibraryState) (table : MediaTable) (hash ext : String) :
    Decidable (s.Checked table hash ext) :=
  inferInstanceAs (Decidable (∃ c ∈ s.checked, _))

/-- Every live row that is marked verified names a file that was checked, and what `checkIfExists`
reports as verified has been held by the server. -/
def VerifiedIsEarned (P : Primitives) (s : LibraryState) : Prop :=
  (∀ table, ∀ row ∈ s.lib.rows table, row.deletedAt = none → row.verificationStatus = 1 →
    s.Checked table row.hash row.ext) ∧
  ∀ table userId hash, (checkIfExists s.lib hash userId table).existsVerified = true →
    ∃ c ∈ s.checked, c.table = table ∧ contentHash P c.data = hash

/-- The first part for deleted rows as well. -/
def RowsEarned (s : LibraryState) : Prop :=
  ∀ table, ∀ row ∈ s.lib.rows table, row.verificationStatus = 1 →
    s.Checked table row.hash row.ext

/-- The verdict that a verified file leads to. -/
def VerifyTask.passed (task : VerifyTask) : Bool :=
  match task.verdict with
  | some (.verified _) => true
  | _ => false

/-- A metadata upload that makes or leaves a row verified names a file that was checked, and a
verdict is recorded for a row whose extension is one that was checked. -/
def KeepsEarned (s : LibraryState) : LibraryEvent → Prop
  | .metadata userId table m io =>
    m.Accepted table userId io → (m.verificationStatus.getD 0 = 1 ∨
      ∃ row ∈ s.lib.rows table, row.isOf userId m.hash = true ∧ row.verificationStatus = 1) →
        s.Checked table m.hash m.ext
  | .record userId table hash _ stored =>
    stored = true → ∀ task ∈ s.taskOf userId table hash, task.passed = true →
      ∀ row ∈ s.lib.rows table, row.isOf userId hash = true → s.Checked table hash row.ext
  | _ => True

instance (s : LibraryState) : ∀ e, Decidable (KeepsEarned s e)
  | .metadata userId table m io => inferInstanceAs (Decidable (m.Accepted table userId io → _))
  | .record _ _ _ _ stored => inferInstanceAs (Decidable (stored = true → _))
  | .content .. | .softDelete .. | .restore .. | .rotate .. | .thumbnail .. | .image .. | .video ..
  | .list .. | .select .. | .check .. | .abandon .. => isTrue trivial

/-- What holds of the checks and the columns whatever the requests are. -/
structure EarnedBase (P : Primitives) (s : LibraryState) : Prop where
  checked : ∀ c ∈ s.checked, contentHash P c.data = c.hash
  passed : ∀ task ∈ s.tasks, task.passed = true → s.Checked task.table task.hash task.ext
  status : ∀ table, ∀ row ∈ s.lib.rows table, row.verificationStatus ≤ 1

variable {P : Primitives} {codec : ImageCodec} {s : LibraryState} {lib : Library}
  {table : MediaTable} {userId : UserId} {hash : String}

/-- The columns that verification is about. -/
def LibraryRow.statusKey (row : LibraryRow) : String × String × Int :=
  (row.hash, row.ext, row.verificationStatus)

theorem statusKey_unseen : Unseen LibraryRow.statusKey where
  orientation _ _ _ := rfl
  thumbnail _ _ := rfl
  deleted _ _ := rfl

theorem statusKey_undescribed : Undescribed LibraryRow.statusKey where
  size _ _ := rfl
  exif _ _ := rfl
  orientation _ _ := rfl
  createdAt _ _ := rfl
  location _ _ _ := rfl

/-- A check can only add a file that it read. -/
theorem checkTask_cases (s : LibraryState) (userId : UserId) (table : MediaTable) (hash : String)
    (io : VerifyIo) : checkTask P codec s userId table hash io = s ∨
      ∃ task verdict, s.taskOf userId table hash = some task ∧ task.verdict = none ∧
        (checkTask P codec s userId table hash io).tasks =
          setVerdict verdict task s.tasks ∧
        ((verdict = .failed ∧ (checkTask P codec s userId table hash io).checked = s.checked) ∨
          ∃ data, task.Holds P s.lib data ∧
            (checkTask P codec s userId table hash io).checked =
              { table := task.table, hash := task.hash, ext := task.ext, data } :: s.checked) := by
  unfold checkTask
  split
  next => exact Or.inl rfl
  next task htask =>
    split
    next => exact Or.inl rfl
    next hverdict =>
      refine Or.inr ⟨task, (verifyFile P codec s.lib task io).1, htask, hverdict, rfl, ?_⟩
      rcases verifyFile_cases P codec s.lib task io with h | ⟨data, hholds, h | ⟨_, _, _, h⟩⟩
      · exact Or.inl ⟨by rw [h], by simp [h, checkedFile]⟩
      · exact Or.inr ⟨data, hholds, by simp [h, checkedFile, hholds.1]⟩
      · exact Or.inr ⟨data, hholds, by simp [h, checkedFile, hholds.1]⟩

theorem Checked_mono {t : LibraryState} {ext : String} (h : ∀ c ∈ s.checked, c ∈ t.checked)
    (hc : s.Checked table hash ext) : t.Checked table hash ext := by
  obtain ⟨c, hmem, hkey⟩ := hc
  exact ⟨c, h c hmem, hkey⟩

/-- Files that were checked stay recorded. -/
theorem libraryStep_checked (e : LibraryEvent) :
    ∀ c ∈ s.checked, c ∈ (libraryStep P codec s e).checked := by
  intro c hc
  cases e with
  | check userId table hash io =>
    show c ∈ (checkTask P codec s userId table hash io).checked
    rcases @checkTask_cases P codec s userId table hash io with
      h | ⟨_, _, _, _, _, ⟨_, h⟩ | ⟨_, _, h⟩⟩
    · rw [h]
      exact hc
    · rw [h]
      exact hc
    · rw [h]
      exact List.mem_cons_of_mem _ hc
  | content userId table data name deviceId io =>
    show c ∈ (contentUpload P codec s userId table data name deviceId io).checked
    unfold contentUpload
    simp only
    split <;> exact hc
  | select userId table hash monthAgo =>
    show c ∈ (selectTask s userId table hash monthAgo).checked
    unfold selectTask
    split <;> exact hc
  | record userId table hash now stored =>
    show c ∈ (recordTask s userId table hash now stored).checked
    unfold recordTask
    split
    next => exact hc
    next => split <;> exact hc
  | metadata | softDelete | restore | rotate | thumbnail | image | video | list | abandon =>
    exact hc

/-- The tasks of a step are old ones, a new one without a verdict, or one that was just read. -/
theorem libraryStep_tasks {e : LibraryEvent} {task : VerifyTask}
    (h : task ∈ (libraryStep P codec s e).tasks) (hpassed : task.passed = true) :
    task ∈ s.tasks ∨ (libraryStep P codec s e).Checked task.table task.hash task.ext := by
  cases e with
  | check userId table hash io =>
    change task ∈ (checkTask P codec s userId table hash io).tasks at h
    show _ ∨ (checkTask P codec s userId table hash io).Checked _ _ _
    rcases @checkTask_cases P codec s userId table hash io with
      hsame | ⟨read, verdict, _, _, htasks, hout⟩
    · rw [hsame] at h
      exact Or.inl h
    · rw [htasks] at h
      obtain ⟨old, hold, heq⟩ := List.mem_map.mp h
      split at heq
      next =>
        subst heq
        rcases hout with ⟨hfailed, _⟩ | ⟨data, _, hchecked⟩
        · rw [hfailed] at hpassed
          simp [VerifyTask.passed] at hpassed
        · have hmem : ({ table := read.table, hash := read.hash, ext := read.ext, data }
              : CheckedFile) ∈ (checkTask P codec s userId table hash io).checked := by
            rw [hchecked]
            exact List.mem_cons_self
          exact Or.inr ⟨_, hmem, rfl, rfl, rfl⟩
      next =>
        subst heq
        exact Or.inl hold
  | content userId table data name deviceId io =>
    change task ∈ (contentUpload P codec s userId table data name deviceId io).tasks at h
    unfold contentUpload at h
    simp only at h
    split at h <;> exact Or.inl h
  | select userId table hash monthAgo =>
    change task ∈ (selectTask s userId table hash monthAgo).tasks at h
    unfold selectTask at h
    split at h
    next =>
      rcases List.mem_append.mp h with hold | hnew
      · exact Or.inl hold
      · rw [List.mem_singleton.mp hnew] at hpassed
        simp [VerifyTask.passed, VerifyTask.select] at hpassed
    next => exact Or.inl h
  | record userId table hash now stored =>
    change task ∈ (recordTask s userId table hash now stored).tasks at h
    unfold recordTask at h
    split at h
    next => exact Or.inl h
    next =>
      split at h
      next => exact Or.inl h
      next => exact Or.inl (List.mem_of_mem_filter h)
  | abandon userId table hash => exact Or.inl (List.mem_of_mem_filter h)
  | metadata | softDelete | restore | rotate | thumbnail | image | video | list => exact Or.inl h

/-- What an upload of content does to the columns of verification. -/
theorem contentUpload_statusKeys {data : Bytes} {name deviceId : String} {io : WholeIngestIo}
    {t : MediaTable} {key : String × String × Int}
    (h : key ∈ ((contentUpload P codec s userId table data name deviceId io).lib.rows t).map
      LibraryRow.statusKey) :
    key ∈ (s.lib.rows t).map LibraryRow.statusKey ∨ key.2.2 = 0 := by
  by_cases hstores : Stores table data name io
  · by_cases hrow : Registers P userId table data name deviceId io
    · rw [contentUpload_registered hrow] at h
      by_cases ht : t = table
      · change key ∈ ((s.lib.register P codec userId table data name deviceId io).rows t).map _ at h
        rw [ht, Library.register, Library.setRows_rows,
          registerRows_view statusKey_unseen statusKey_undescribed] at h
        rw [ht]
        split at h
        next => exact Or.inl h
        next =>
          rcases List.mem_append.mp h with hold | hnew
          · exact Or.inl hold
          · rw [List.mem_singleton.mp hnew]
            exact Or.inr rfl
      · change key ∈ ((s.lib.register P codec userId table data name deviceId io).rows t).map _ at h
        rw [Library.register, Library.setRows_rows_ne _ ht] at h
        exact Or.inl h
    · rw [contentUpload_stored hstores hrow] at h
      exact Or.inl h
  · rw [contentUpload_refused hstores] at h
    exact Or.inl h

theorem taskOf_some {task : VerifyTask} (h : s.taskOf userId table hash = some task) :
    task ∈ s.tasks ∧ task.userId = userId ∧ task.table = table ∧ task.hash = hash := by
  have hp := List.find?_some h
  simp only [VerifyTask.isOf, Bool.and_eq_true, decide_eq_true_eq] at hp
  exact ⟨List.mem_of_find?_eq_some h, hp.1.1, hp.1.2, hp.2⟩

theorem recordTask_cases (s : LibraryState) (userId : UserId) (table : MediaTable) (hash : String)
    (now : Time) (stored : Bool) :
    ((recordTask s userId table hash now stored).lib = s.lib ∧
      (stored = true → ∀ task ∈ s.taskOf userId table hash, task.passed = false)) ∨
    ∃ task verdict, s.taskOf userId table hash = some task ∧ task.verdict = some verdict ∧
      stored = true ∧
      (recordTask s userId table hash now stored).lib = recordVerdict s.lib task verdict now := by
  unfold recordTask
  split
  next hnone => exact Or.inl ⟨rfl, fun _ task htask => by rw [hnone] at htask; simp at htask⟩
  next task htask =>
    split
    next hverdict =>
      refine Or.inl ⟨rfl, fun _ t ht => ?_⟩
      rw [htask] at ht
      cases Option.some.inj ht
      simp [VerifyTask.passed, hverdict]
    next verdict hverdict =>
      cases stored with
      | false => exact Or.inl ⟨rfl, fun h => absurd h (by simp)⟩
      | true => exact Or.inr ⟨task, verdict, htask, hverdict, rfl, rfl⟩

theorem recordTask_checked (s : LibraryState) (userId : UserId) (table : MediaTable)
    (hash : String) (now : Time) (stored : Bool) :
    (recordTask s userId table hash now stored).checked = s.checked := by
  unfold recordTask
  split
  next => rfl
  next => split <;> rfl

def VerifyVerdict.status : VerifyVerdict → Int
  | .verified _ => 1
  | .failed => -1

/-- The rows after a verdict: the owner's with the verdict's columns, and the others. -/
theorem mem_recordVerdict {task : VerifyTask} {verdict : VerifyVerdict} {now : Time}
    {t : MediaTable} {row : LibraryRow} (h : row ∈ (recordVerdict lib task verdict now).rows t) :
    row ∈ lib.rows t ∨ t = task.table ∧ ∃ old ∈ lib.rows t,
      old.isOf task.userId task.hash = true ∧ row.hash = old.hash ∧ row.ext = old.ext ∧
        row.verificationStatus = verdict.status := by
  unfold recordVerdict at h
  by_cases ht : t = task.table
  · rw [ht, Library.setRows_rows] at h
    rw [ht]
    rcases mem_updateRows h with ⟨old, hold, hkey, _, rfl⟩ | ⟨hold, _⟩
    · refine Or.inr ⟨rfl, old, hold, hkey, ?_⟩
      cases verdict with
      | verified b => exact ⟨rfl, rfl, rfl⟩
      | failed => exact ⟨rfl, rfl, rfl⟩
    · exact Or.inl hold
  · rw [Library.setRows_rows_ne _ ht] at h
    exact Or.inl h

theorem fits_status {row : LibraryRow} (h : row.fits = true) : row.verificationStatus ≤ 1 := by
  simp only [LibraryRow.fits, Bool.and_eq_true, decide_eq_true_eq, List.mem_cons,
    List.not_mem_nil, or_false] at h
  omega

theorem libraryStep_status (hbase : EarnedBase P s) (e : LibraryEvent) (t : MediaTable) :
    ∀ row ∈ (libraryStep P codec s e).lib.rows t, row.verificationStatus ≤ 1 := by
  have hold : ∀ row : LibraryRow, row.statusKey ∈ (s.lib.rows t).map LibraryRow.statusKey →
      row.verificationStatus ≤ 1 := by
    intro row hkey
    obtain ⟨old, hmem, heq⟩ := List.mem_map.mp hkey
    have hstatus : old.verificationStatus = row.verificationStatus := congrArg (·.2.2) heq
    rw [← hstatus]
    exact hbase.status t old hmem
  intro row hrow
  cases hquiet : e.quiet with
  | true =>
    refine hold row ?_
    rw [← @libraryStep_quiet P codec s _ _ statusKey_unseen e hquiet t]
    exact List.mem_map_of_mem hrow
  | false =>
    cases e with
    | softDelete | restore | rotate | thumbnail | image | video | list | select | check | abandon =>
      simp [LibraryEvent.quiet] at hquiet
    | content userId table data name deviceId io =>
      rcases contentUpload_statusKeys (List.mem_map_of_mem hrow) with hkey | hzero
      · exact hold row hkey
      · have : row.verificationStatus = 0 := hzero
        omega
    | metadata userId table m io =>
      change row ∈ (uploadMetadata table s.lib userId m io).2.rows t at hrow
      rw [uploadMetadata_lib] at hrow
      split at hrow
      next haccepted =>
        have hnew := fits_status haccepted.2.2.2.2
        by_cases ht : t = table
        · rw [ht, Library.describe, Library.setRows_rows] at hrow
          rcases mem_insertRow hrow with ⟨rfl, _⟩ | ⟨old, hmem, _, rfl⟩ | ⟨hmem, _⟩
          · exact hnew
          · show max old.verificationStatus _ ≤ 1
            exact max_le (hbase.status table old hmem) hnew
          · exact hbase.status table row hmem
        · rw [Library.describe, Library.setRows_rows_ne _ ht] at hrow
          exact hbase.status t row hrow
      next => exact hbase.status t row hrow
    | record userId table hash now stored =>
      change row ∈ (recordTask s userId table hash now stored).lib.rows t at hrow
      rcases recordTask_cases s userId table hash now stored with ⟨h, _⟩ | ⟨task, v, _, _, _, h⟩
      · rw [h] at hrow
        exact hbase.status t row hrow
      · rw [h] at hrow
        rcases mem_recordVerdict hrow with hmem | ⟨_, _, _, _, _, _, hstatus⟩
        · exact hbase.status t row hmem
        · rw [hstatus]
          cases v <;> simp [VerifyVerdict.status]

theorem earnedBase_step (hbase : EarnedBase P s) (e : LibraryEvent) :
    EarnedBase P (libraryStep P codec s e) where
  checked := by
    have hread : ∀ (userId : UserId) (table : MediaTable) (hash : String) (io : VerifyIo),
        ∀ c ∈ (checkTask P codec s userId table hash io).checked, contentHash P c.data = c.hash := by
      intro userId table hash io c hc
      rcases @checkTask_cases P codec s userId table hash io with
        h | ⟨task, _, _, _, _, ⟨_, h⟩ | ⟨data, hholds, h⟩⟩
      · exact hbase.checked c (by rwa [h] at hc)
      · exact hbase.checked c (by rwa [h] at hc)
      · rw [h] at hc
        rcases List.mem_cons.mp hc with rfl | hold
        · exact hholds.2
        · exact hbase.checked c hold
    cases e with
    | check userId table hash io => exact hread userId table hash io
    | content userId table data name deviceId io =>
      show ∀ c ∈ (contentUpload P codec s userId table data name deviceId io).checked, _
      unfold contentUpload
      simp only
      split <;> exact hbase.checked
    | select userId table hash monthAgo =>
      show ∀ c ∈ (selectTask s userId table hash monthAgo).checked, _
      unfold selectTask
      split <;> exact hbase.checked
    | record userId table hash now stored =>
      show ∀ c ∈ (recordTask s userId table hash now stored).checked, _
      rw [recordTask_checked]
      exact hbase.checked
    | metadata | softDelete | restore | rotate | thumbnail | image | video | list | abandon =>
      exact hbase.checked
  passed := by
    intro task htask hpassed
    rcases libraryStep_tasks htask hpassed with hold | hnew
    · exact Checked_mono (libraryStep_checked e) (hbase.passed task hold hpassed)
    · exact hnew
  status := libraryStep_status hbase e

theorem rowsEarned_of_keys {t : LibraryState} (h : RowsEarned s)
    (hchecked : ∀ c ∈ s.checked, c ∈ t.checked)
    (hrows : ∀ table, ∀ key ∈ (t.lib.rows table).map LibraryRow.statusKey,
      key ∈ (s.lib.rows table).map LibraryRow.statusKey ∨ key.2.2 = 0) : RowsEarned t := by
  intro table row hrow hstatus
  rcases hrows table row.statusKey (List.mem_map_of_mem hrow) with hkey | hzero
  · obtain ⟨old, hmem, heq⟩ := List.mem_map.mp hkey
    have hhash : old.hash = row.hash := congrArg (·.1) heq
    have hext : old.ext = row.ext := congrArg (·.2.1) heq
    have hold : old.verificationStatus = row.verificationStatus := congrArg (·.2.2) heq
    rw [← hhash, ← hext]
    exact Checked_mono hchecked (h table old hmem (hold.trans hstatus))
  · have : row.verificationStatus = 0 := hzero
    omega

/-- A metadata upload keeps the rows earned exactly if the row it makes or leaves verified names
a checked file. -/
theorem uploadMetadata_rowsEarned {m : MetadataRequest} {io : DbIo} (hbase : EarnedBase P s)
    (h : RowsEarned s) : RowsEarned { s with lib := (uploadMetadata table s.lib userId m io).2 } ↔
      KeepsEarned s (.metadata userId table m io) := by
  rw [uploadMetadata_lib]
  by_cases haccepted : m.Accepted table userId io
  · rw [if_pos haccepted]
    have hnewStatus := fits_status haccepted.2.2.2.2
    constructor
    · intro hall _ hverified
      by_cases hany : ∃ row ∈ s.lib.rows table, row.isOf userId m.hash = true
      · obtain ⟨row, hmem, hkey, hmax⟩ : ∃ row ∈ s.lib.rows table,
            row.isOf userId m.hash = true ∧
              max row.verificationStatus (m.verificationStatus.getD 0) = 1 := by
          rcases hverified with hnew | ⟨row, hmem, hkey, hold⟩
          · obtain ⟨row, hmem, hkey⟩ := hany
            have := hbase.status table row hmem
            exact ⟨row, hmem, hkey, by rw [hnew]; exact max_eq_right this⟩
          · exact ⟨row, hmem, hkey, by rw [hold]; exact max_eq_left hnewStatus⟩
        have hmerged : mergeMetadata (m.row table userId) row ∈
            (s.lib.describe table userId m).rows table := by
          have hpresent : (s.lib.rows table).any (·.isOf userId m.hash) = true :=
            List.any_eq_true.mpr ⟨row, hmem, hkey⟩
          rw [Library.describe, Library.setRows_rows, insertRow]
          show _ ∈ if (s.lib.rows table).any (·.isOf userId m.hash) = true then _ else _
          rw [if_pos hpresent]
          refine List.mem_map.mpr ⟨row, hmem, ?_⟩
          show (if row.isOf userId m.hash then _ else row) = _
          rw [if_pos hkey]
        have hchecked := hall table _ hmerged hmax
        change s.Checked table row.hash m.ext at hchecked
        rwa [(LibraryRow.isOf_iff.mp hkey).2] at hchecked
      · have hnone : ¬(s.lib.rows table).any (·.isOf userId m.hash) = true := fun hpresent =>
          hany (List.any_eq_true.mp hpresent)
        have hinserted : m.row table userId ∈ (s.lib.describe table userId m).rows table := by
          rw [Library.describe, Library.setRows_rows, insertRow]
          show _ ∈ if (s.lib.rows table).any (·.isOf userId m.hash) = true then _ else _
          rw [if_neg hnone]
          exact List.mem_append_right _ (List.mem_singleton_self _)
        rcases hverified with hnew | ⟨row, hmem, hkey, _⟩
        · exact hall table _ hinserted hnew
        · exact absurd ⟨row, hmem, hkey⟩ hany
    · intro hcond t row hrow hstatus
      change s.Checked t row.hash row.ext
      by_cases ht : t = table
      · subst ht
        change row ∈ (s.lib.describe t userId m).rows t at hrow
        rw [Library.describe, Library.setRows_rows] at hrow
        rcases mem_insertRow hrow with ⟨rfl, _⟩ | ⟨old, hmem, hkey, rfl⟩ | ⟨hmem, _⟩
        · exact hcond haccepted (Or.inl hstatus)
        · have hhash := (LibraryRow.isOf_iff.mp hkey).2
          change s.Checked t old.hash m.ext
          change max old.verificationStatus (m.verificationStatus.getD 0) = 1 at hstatus
          rw [hhash]
          refine hcond haccepted ?_
          rcases max_choice old.verificationStatus (m.verificationStatus.getD 0) with hmax | hmax
          · exact Or.inr ⟨old, hmem, hkey, hmax.symm.trans hstatus⟩
          · exact Or.inl (hmax.symm.trans hstatus)
        · exact h t row hmem hstatus
      · change row ∈ (s.lib.describe table userId m).rows t at hrow
        rw [Library.describe, Library.setRows_rows_ne _ ht] at hrow
        exact h t row hrow hstatus
  · rw [if_neg haccepted]
    exact ⟨fun _ ha => absurd ha haccepted, fun _ => h⟩

theorem recordTask_rowsEarned {now : Time} {stored : Bool} (h : RowsEarned s) :
    RowsEarned (recordTask s userId table hash now stored) ↔
      KeepsEarned s (.record userId table hash now stored) := by
  have hsame : ∀ c ∈ s.checked, c ∈ (recordTask s userId table hash now stored).checked := by
    rw [recordTask_checked]
    exact fun _ hc => hc
  rcases recordTask_cases s userId table hash now stored with
    ⟨hlib, hnone⟩ | ⟨task, verdict, htask, hverdict, hstored, hlib⟩
  · constructor
    · intro _ hstored task htask hpassed
      rw [hnone hstored task htask] at hpassed
      exact absurd hpassed (by simp)
    · intro _
      refine rowsEarned_of_keys h hsame fun t key hkey => Or.inl ?_
      rwa [hlib] at hkey
  · obtain ⟨_, huser, htable, hhash⟩ := taskOf_some htask
    constructor
    · intro hall _ t ht hpassed row hmem hkey
      rw [htask] at ht
      cases Option.some.inj ht
      have hup : ∃ row' ∈ (recordTask s userId table hash now stored).lib.rows table,
          row'.hash = hash ∧ row'.ext = row.ext ∧ row'.verificationStatus = 1 := by
        rw [hlib, recordVerdict, htable, Library.setRows_rows, huser, hhash]
        refine ⟨_, List.mem_map_of_mem hmem, ?_⟩
        rw [if_pos (by simpa using hkey)]
        cases verdict with
        | verified b => exact ⟨(LibraryRow.isOf_iff.mp hkey).2, rfl, rfl⟩
        | failed => simp [VerifyTask.passed, hverdict] at hpassed
      obtain ⟨row', hrow', hhash', hext', hstatus'⟩ := hup
      have hchecked := hall table row' hrow' hstatus'
      rw [hhash', hext'] at hchecked
      exact Checked_mono (by rw [recordTask_checked]; exact fun _ hc => hc) hchecked
    · intro hcond t row hrow hstatus
      rw [hlib] at hrow
      refine Checked_mono hsame ?_
      rcases mem_recordVerdict hrow with hmem | ⟨rfl, old, hmem, hkey, hrowHash, hrowExt, hval⟩
      · exact h t row hmem hstatus
      · have hpassed : task.passed = true := by
          rw [hstatus] at hval
          cases verdict with
          | verified b => simp [VerifyTask.passed, hverdict]
          | failed => simp [VerifyVerdict.status] at hval
        have hold := hcond hstored task htask hpassed old (htable ▸ hmem) (by rwa [← huser, ← hhash])
        rw [hrowHash, hrowExt, (LibraryRow.isOf_iff.mp hkey).2, htable, hhash]
        exact hold

/-- A step keeps every verified row earned exactly if it meets the condition. -/
theorem libraryStep_rowsEarned (hbase : EarnedBase P s) (h : RowsEarned s) (e : LibraryEvent) :
    RowsEarned (libraryStep P codec s e) ↔ KeepsEarned s e := by
  cases e with
  | metadata userId table m io => exact uploadMetadata_rowsEarned hbase h
  | record userId table hash now stored => exact recordTask_rowsEarned h
  | content userId table data name deviceId io =>
    refine ⟨fun _ => trivial, fun _ => ?_⟩
    exact rowsEarned_of_keys h (libraryStep_checked _) fun t key => contentUpload_statusKeys
  | softDelete | restore | rotate | thumbnail | image | video | list | select | check | abandon =>
    refine ⟨fun _ => trivial, fun _ => ?_⟩
    refine rowsEarned_of_keys h (libraryStep_checked _) fun t key hkey => Or.inl ?_
    rwa [libraryStep_quiet statusKey_unseen rfl t] at hkey

theorem rowsEarned_live (hbase : EarnedBase P s) (h : RowsEarned s) : VerifiedIsEarned P s := by
  refine ⟨fun table row hrow _ => h table row hrow, fun table userId hash hexists => ?_⟩
  obtain ⟨row, hrow, hp⟩ := List.any_eq_true.mp hexists
  simp only [Bool.and_eq_true, decide_eq_true_eq, LibraryRow.isOf_iff] at hp
  obtain ⟨c, hc, htable, hhash, _⟩ := h table row hrow hp.1.2
  exact ⟨c, hc, htable, by rw [hbase.checked c hc, hhash, hp.1.1.2]⟩

/-- A library in which no row is marked verified yet. -/
def Library.Unverified (lib : Library) : Prop :=
  ∀ table, ∀ row ∈ lib.rows table, row.verificationStatus ≤ 0

theorem Library.empty_unverified : Library.empty.Unverified := by
  intro table row hrow
  simp [Library.empty] at hrow

theorem earnedBase_start (hlib : lib.Unverified) : EarnedBase P (LibraryState.start lib) where
  checked := by
    intro c hc
    simp [LibraryState.start] at hc
  passed := by
    intro task htask
    simp [LibraryState.start] at htask
  status table row hrow := by
    have := hlib table row hrow
    omega

/-- Every verified row has been checked throughout a run exactly if its steps meet the
condition. -/
theorem verified_is_earned_iff (P : Primitives) (codec : ImageCodec) {lib : Library}
    (hlib : lib.Unverified) (es : List LibraryEvent) :
    (Runs.Throughout (libraryRun P codec) RowsEarned (LibraryState.start lib) es ↔
      Runs.Meets (libraryRun P codec) KeepsEarned (LibraryState.start lib) es) ∧
    (Runs.Meets (libraryRun P codec) KeepsEarned (LibraryState.start lib) es →
      Runs.Throughout (libraryRun P codec) (VerifiedIsEarned P) (LibraryState.start lib) es) := by
  have hkept : ∀ s e t, EarnedBase P s → libraryRun P codec s e = some t → EarnedBase P t := by
    intro s e t hbase ht
    cases Option.some.inj ht
    exact earnedBase_step hbase e
  have hiff : Runs.Throughout (libraryRun P codec) RowsEarned (LibraryState.start lib) es ↔
      Runs.Meets (libraryRun P codec) KeepsEarned (LibraryState.start lib) es := by
    refine Runs.throughout_iff_meets hkept (fun s e hbase h => ?_) (earnedBase_start hlib) ?_ es
    · rw [← @libraryStep_rowsEarned P codec s hbase h e]
      exact ⟨fun ht => ht _ rfl, fun hs t ht => Option.some.inj ht ▸ hs⟩
    · intro table row hrow hstatus
      have := hlib table row hrow
      omega
  refine ⟨hiff, fun hmeets => ?_⟩
  have hboth := Runs.throughout_and (hiff.mpr hmeets)
    (Runs.throughout_invariant hkept (earnedBase_start hlib) es)
  exact Runs.throughout_mono (fun _ h => rowsEarned_live h.2 h.1) hboth

/-- A photo that is uploaded, verified by the worker and described again. -/
theorem verified_is_earned_photo :
    Runs.Throughout (libraryRun referencePrimitives plainCodec)
      (VerifiedIsEarned referencePrimitives) (LibraryState.start .empty)
      [.content 1 .images photoBytes "a.jpg" "phone" (.smooth 0),
        .select 1 .images photoHash 0,
        .check 1 .images photoHash { read := true, thumbMade := true },
        .record 1 .images photoHash 5 true,
        .metadata 1 .images
          { plainMetadata photoHash "b.jpg" "jpg" with verificationStatus := some 1 } .fine] :=
  (verified_is_earned_iff referencePrimitives plainCodec Library.empty_unverified _).2
    (by decide +kernel)

/-- A client describes a photo that the server has never received, and calls it verified. -/
def claimedVerified : List LibraryEvent :=
  [.metadata 1 .images
    { plainMetadata photoHash "a.jpg" "jpg" with verificationStatus := some 1 } .fine]

theorem client_marks_row_verified :
    ¬Runs.Throughout (libraryRun referencePrimitives plainCodec)
      (VerifiedIsEarned referencePrimitives) (LibraryState.start .empty) claimedVerified := by
  have hmarked : ∃ s, Runs.exec (libraryRun referencePrimitives plainCodec)
      (LibraryState.start .empty) claimedVerified = some s ∧ s.checked = [] ∧
        (checkIfExists s.lib photoHash 1 .images).existsVerified = true :=
    ⟨_, rfl, by decide +kernel⟩
  obtain ⟨s, hrun, hnone, hexists⟩ := hmarked
  intro h
  obtain ⟨c, hc, _⟩ := (Runs.throughout_last h hrun).2 .images 1 photoHash hexists
  rw [hnone] at hc
  simp at hc

end Reminisce

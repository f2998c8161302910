import Reminisce.LibraryRuns
import Reminisce.ReferencePrimitives

namespace Reminisce

/-- The columns that name the owner's file of a row. -/
def LibraryRow.fileKey (row : LibraryRow) : UserId × String × String :=
  (row.userId, row.hash, row.ext)

/-- The row resolves to a file of its hash. -/
def NamesFile (P : Primitives) (lib : Library) (table : MediaTable) (row : LibraryRow) : Prop :=
  ∃ data, safeResolveContentPath lib table row.hash row.ext = .ok data ∧
    contentHash P data = row.hash

/-- Every live row of an upload that was answered with success resolves to its file. -/
def LiveRowsNameFiles (P : Primitives) (s : LibraryState) : Prop :=
  ∀ table, ∀ row ∈ s.lib.rows table, (row.userId, table, row.hash) ∈ s.ingested →
    row.deletedAt = none → NamesFile P s.lib table row

/-- The same of the rows that a restore can bring back. -/
def RowsNameFiles (P : Primitives) (s : LibraryState) : Prop :=
  ∀ table, ∀ row ∈ s.lib.rows table, (row.userId, table, row.hash) ∈ s.ingested →
    NamesFile P s.lib table row

/-- A metadata upload for uploaded content names an extension under which the content is stored,
and an upload of content meets no row, or one whose extension is stored or its own. -/
def KeepsNames (P : Primitives) (s : LibraryState) : LibraryEvent → Prop
  | .content userId table data name deviceId io =>
    Registers P userId table data name deviceId io → ∀ row ∈ s.lib.rows table,
      row.isOf userId (contentHash P data) = true →
        row.ext = toLowercase (pathExtension name) ∨
          (s.lib.files table (contentHash P data) row.ext).isSome = true
  | .metadata userId table m io =>
    m.Accepted table userId io → (userId, table, m.hash) ∈ s.ingested →
      (s.lib.files table m.hash m.ext).isSome = true
  | _ => True

instance (P : Primitives) (s : LibraryState) : ∀ e, Decidable (KeepsNames P s e)
  | .content userId table data name deviceId io =>
    inferInstanceAs (Decidable (Registers P userId table data name deviceId io → _))
  | .metadata userId table m io => inferInstanceAs (Decidable (m.Accepted table userId io → _))
  | .softDelete .. | .restore .. | .rotate .. | .thumbnail .. | .image .. | .video .. | .list ..
  | .select .. | .check .. | .record .. | .abandon .. => isTrue trivial

/-- What holds whatever the requests are. -/
structure LibraryBase (P : Primitives) (s : LibraryState) : Prop where
  honest : s.lib.Honest P
  ingested : ∀ userId table hash, (userId, table, hash) ∈ s.ingested →
    isValidContentHash hash = true ∧ ∃ row ∈ s.lib.rows table, row.isOf userId hash = true

variable {P : Primitives} {codec : ImageCodec} {s : LibraryState} {lib : Library}
  {table : MediaTable} {userId : UserId} {hash : String}

theorem namesFile_iff (hhonest : lib.Honest P) {row : LibraryRow}
    (hvalid : isValidContentHash row.hash = true) :
    NamesFile P lib table row ↔ (lib.files table row.hash row.ext).isSome = true := by
  unfold NamesFile safeResolveContentPath
  rw [if_pos hvalid]
  cases hfile : lib.files table row.hash row.ext with
  | none =>
    simp only [Option.isSome_none, Bool.false_eq_true, iff_false, not_exists, not_and]
    intro data h
    split at h <;> simp at h
  | some data =>
    obtain ⟨hhash, hext⟩ := hhonest table row.hash row.ext data hfile
    rw [if_pos hext]
    exact ⟨fun _ => rfl, fun _ => ⟨data, rfl, hhash⟩⟩

/-- The names of the recorded uploads in the rows are names of stored files. -/
def NamesStored (lib : Library) (ingested : List (UserId × MediaTable × String)) : Prop :=
  ∀ table, ∀ key ∈ (lib.rows table).map LibraryRow.fileKey,
    (key.1, table, key.2.1) ∈ ingested → (lib.files table key.2.1 key.2.2).isSome = true

theorem rowsNameFiles_iff (hbase : LibraryBase P s) :
    RowsNameFiles P s ↔ NamesStored s.lib s.ingested := by
  constructor
  · intro h table key hkey hin
    obtain ⟨row, hrow, rfl⟩ := List.mem_map.mp hkey
    exact (namesFile_iff hbase.honest (hbase.ingested _ _ _ hin).1).mp (h table row hrow hin)
  · intro h table row hrow hin
    exact (namesFile_iff hbase.honest (hbase.ingested _ _ _ hin).1).mpr
      (h table row.fileKey (List.mem_map_of_mem hrow) hin)

theorem fileKey_unseen : Unseen LibraryRow.fileKey where
  orientation _ _ _ := rfl
  thumbnail _ _ := rfl
  deleted _ _ := rfl

theorem fileKey_undescribed : Undescribed LibraryRow.fileKey where
  size _ _ := rfl
  exif _ _ := rfl
  orientation _ _ := rfl
  createdAt _ _ := rfl
  location _ _ _ := rfl

theorem Library.store_files_mono {data : Bytes} {name ext : String}
    (h : (lib.files table hash ext).isSome = true) {t : MediaTable} :
    ((lib.store P t data name).files table hash ext).isSome = true := by
  show (if _ then some data else lib.files table hash ext).isSome = true
  split
  next => rfl
  next => exact h

theorem Library.store_honest {data : Bytes} {name : String} (hhonest : lib.Honest P)
    (hin : Ingestible table data name) : (lib.store P table data name).Honest P := by
  intro t h ext stored hfile
  change (if t = table ∧ h = contentHash P data ∧ ext = toLowercase (pathExtension name) then
    some data else lib.files t h ext) = some stored at hfile
  split at hfile
  next hkey =>
    cases Option.some.inj hfile
    rw [hkey.2.1, hkey.2.2]
    exact ⟨rfl, allowedExts_valid hin.1⟩
  next => exact hhonest t h ext stored hfile

theorem isOf_owner {row : LibraryRow} :
    row.isOf userId hash = true ↔ row.owner = (userId, hash) := by
  simp [LibraryRow.owner]

/-- The owner of an ingested row has it after the upload. -/
theorem registerRows_owner {data : Bytes} {name deviceId : String} {io : WholeIngestIo}
    (rows : List LibraryRow) :
    ∃ row ∈ registerRows codec userId table hash data name deviceId io rows,
      row.isOf userId hash = true := by
  have hview := @registerRows_view codec table userId hash data name deviceId io _ _ owner_unseen
    owner_undescribed rows
  have hmem : (userId, hash) ∈
      (registerRows codec userId table hash data name deviceId io rows).map LibraryRow.owner := by
    rw [hview]
    split
    next hany =>
      obtain ⟨row, hrow, hkey⟩ := List.any_eq_true.mp hany
      exact List.mem_map.mpr ⟨row, hrow, isOf_owner.mp hkey⟩
    next => exact List.mem_append_right _ (List.mem_singleton_self _)
  obtain ⟨row, hrow, hkey⟩ := List.mem_map.mp hmem
  exact ⟨row, hrow, isOf_owner.mpr hkey⟩

theorem libraryStep_honest (hhonest : s.lib.Honest P) (e : LibraryEvent) :
    (libraryStep P codec s e).lib.Honest P := by
  rcases @libraryStep_files P codec s e with h | ⟨_, _, _, _, _, _, _, hstores, h⟩
  · unfold Library.Honest
    rw [h]
    exact hhonest
  · unfold Library.Honest
    rw [h]
    exact Library.store_honest hhonest hstores.1

theorem libraryBase_step (hbase : LibraryBase P s) (e : LibraryEvent) :
    LibraryBase P (libraryStep P codec s e) where
  honest := libraryStep_honest hbase.honest e
  ingested := by
    intro userId table hash hin
    rcases mem_ingested_step hin with hold | ⟨u, t, data, name, deviceId, io, rfl, hrow, heq⟩
    · obtain ⟨hvalid, row, hmem, hkey⟩ := hbase.ingested userId table hash hold
      refine ⟨hvalid, ?_⟩
      have howner := (@libraryStep_owners P codec s e table).subset
        (List.mem_map.mpr ⟨row, hmem, isOf_owner.mp hkey⟩)
      obtain ⟨row', hmem', hkey'⟩ := List.mem_map.mp howner
      exact ⟨row', hmem', isOf_owner.mpr hkey'⟩
    · cases heq
      refine ⟨contentHash_valid data, ?_⟩
      show ∃ row ∈ (contentUpload P codec s userId table data name deviceId io).lib.rows table, _
      rw [contentUpload_registered hrow]
      show ∃ row ∈ ((s.lib.store P table data name).setRows table _).rows table, _
      rw [Library.setRows_rows]
      exact registerRows_owner _

/-- An upload of content keeps the names exactly if the row it meets has a stored extension. -/
theorem contentUpload_rowsNameFiles {data : Bytes} {name deviceId : String} {io : WholeIngestIo}
    (hbase : LibraryBase P s) (h : RowsNameFiles P s) :
    RowsNameFiles P (contentUpload P codec s userId table data name deviceId io) ↔
      KeepsNames P s (.content userId table data name deviceId io) := by
  have hbase' : LibraryBase P (contentUpload P codec s userId table data name deviceId io) :=
    libraryBase_step hbase (.content userId table data name deviceId io)
  rw [rowsNameFiles_iff hbase] at h
  by_cases hrow : Registers P userId table data name deviceId io
  · rw [rowsNameFiles_iff hbase']
    rw [contentUpload_registered hrow]
    show NamesStored (s.lib.register P codec userId table data name deviceId io)
      ((userId, table, contentHash P data) :: s.ingested) ↔ _
    have hview := @registerRows_view codec table userId (contentHash P data) data name deviceId io
      _ _ fileKey_unseen fileKey_undescribed (s.lib.rows table)
    constructor
    · intro hall _ row hmem hkey
      obtain ⟨huser, hhash⟩ := LibraryRow.isOf_iff.mp hkey
      have hrowKey : row.fileKey ∈ (((s.lib.store P table data name).setRows table
          (registerRows codec userId table (contentHash P data) data name deviceId io
            (s.lib.rows table))).rows table).map LibraryRow.fileKey := by
        rw [Library.setRows_rows, hview]
        split
        next => exact List.mem_map_of_mem hmem
        next => exact List.mem_append_left _ (List.mem_map_of_mem hmem)
      have hstored := hall table row.fileKey hrowKey
        (List.mem_cons.mpr (Or.inl (by simp [LibraryRow.fileKey, huser, hhash])))
      change (if table = table ∧ row.hash = contentHash P data ∧
        row.ext = toLowercase (pathExtension name) then some data
        else s.lib.files table row.hash row.ext).isSome = true at hstored
      split at hstored
      next hnew => exact Or.inl hnew.2.2
      next => rw [← hhash]; exact Or.inr hstored
    · intro hcond t key hkey hin
      have hold : key ∈ (s.lib.rows t).map LibraryRow.fileKey →
          ((s.lib.store P table data name).files t key.2.1 key.2.2).isSome = true := by
        intro hkeyOld
        rcases List.mem_cons.mp hin with hnew | hbefore
        · obtain ⟨row, hmem, rfl⟩ := List.mem_map.mp hkeyOld
          obtain ⟨huser, htable, hhash⟩ : row.userId = userId ∧ t = table ∧
              row.hash = contentHash P data := by
            simpa [LibraryRow.fileKey] using hnew
          subst htable
          rcases hcond hrow row hmem (LibraryRow.isOf_iff.mpr ⟨huser, hhash⟩) with hext | hstored
          · show (if t = t ∧ row.hash = contentHash P data ∧ row.ext = _ then some data
              else s.lib.files t row.hash row.ext).isSome = true
            rw [if_pos ⟨rfl, hhash, hext⟩]
            rfl
          · rw [← hhash] at hstored
            exact Library.store_files_mono hstored
        · exact Library.store_files_mono (h t key hkeyOld hbefore)
      by_cases ht : t = table
      · rw [ht] at hkey hold ⊢
        rw [Library.register, Library.setRows_rows, hview] at hkey
        split at hkey
        next => exact hold hkey
        next =>
          rcases List.mem_append.mp hkey with hkeyOld | hkeyNew
          · exact hold hkeyOld
          · rw [List.mem_singleton.mp hkeyNew]
            show (if table = table ∧ contentHash P data = contentHash P data ∧
              toLowercase (pathExtension name) = toLowercase (pathExtension name) then some data
              else _).isSome = true
            rw [if_pos ⟨rfl, rfl, rfl⟩]
            rfl
      · rw [Library.register, Library.setRows_rows_ne _ ht] at hkey
        exact hold hkey
  · have hkeeps : KeepsNames P s (.content userId table data name deviceId io) :=
      fun hr => absurd hr hrow
    refine ⟨fun _ => hkeeps, fun _ => ?_⟩
    rw [rowsNameFiles_iff hbase']
    by_cases hstores : Stores table data name io
    · rw [contentUpload_stored hstores hrow]
      exact fun t key hkey hin => Library.store_files_mono (h t key hkey hin)
    · rw [contentUpload_refused hstores]
      exact h

/-- A metadata upload keeps them exactly if the extension it gives to uploaded content is
stored. -/
theorem uploadMetadata_rowsNameFiles {m : MetadataRequest} {io : DbIo} (hbase : LibraryBase P s)
    (h : RowsNameFiles P s) :
    RowsNameFiles P { s with lib := (uploadMetadata table s.lib userId m io).2 } ↔
      KeepsNames P s (.metadata userId table m io) := by
  have hbase' : LibraryBase P { s with lib := (uploadMetadata table s.lib userId m io).2 } :=
    @libraryBase_step P plainCodec s hbase (.metadata userId table m io)
  rw [uploadMetadata_lib] at hbase' ⊢
  by_cases haccepted : m.Accepted table userId io
  · rw [if_pos haccepted] at hbase' ⊢
    rw [rowsNameFiles_iff hbase] at h
    rw [rowsNameFiles_iff hbase']
    show NamesStored (s.lib.describe table userId m) s.ingested ↔ _
    constructor
    · intro hall _ hin
      obtain ⟨_, row, hmem, hkey⟩ := hbase.ingested _ _ _ hin
      obtain ⟨huser, hhash⟩ := LibraryRow.isOf_iff.mp hkey
      have hmerged : (userId, m.hash, m.ext) ∈
          ((s.lib.describe table userId m).rows table).map LibraryRow.fileKey := by
        have hany : (s.lib.rows table).any (·.isOf userId m.hash) = true :=
          List.any_eq_true.mpr ⟨row, hmem, hkey⟩
        rw [Library.describe, Library.setRows_rows, insertRow]
        show _ ∈ List.map _ (if (s.lib.rows table).any (·.isOf userId m.hash) = true then _ else _)
        rw [if_pos hany, List.map_map]
        refine List.mem_map.mpr ⟨row, hmem, ?_⟩
        show LibraryRow.fileKey (if row.isOf userId m.hash then _ else row) = _
        rw [if_pos hkey]
        show (row.userId, row.hash, m.ext) = _
        rw [huser, hhash]
      exact hall table _ hmerged hin
    · intro hcond t key hkey hin
      by_cases ht : t = table
      · subst ht
        rw [Library.describe, Library.setRows_rows] at hkey
        obtain ⟨row, hmem, rfl⟩ := List.mem_map.mp hkey
        rcases mem_insertRow hmem with ⟨rfl, hnone⟩ | ⟨old, hold, hown, rfl⟩ | ⟨hold, _⟩
        · obtain ⟨_, old, hold, hown⟩ := hbase.ingested _ _ _ hin
          exact absurd hown (Bool.eq_false_iff.mp (hnone old hold))
        · obtain ⟨huser, hhash⟩ := LibraryRow.isOf_iff.mp hown
          change (old.userId, t, old.hash) ∈ s.ingested at hin
          show (s.lib.files t old.hash m.ext).isSome = true
          rw [huser, hhash] at hin
          rw [hhash]
          exact hcond haccepted hin
        · exact h t _ (List.mem_map_of_mem hold) hin
      · rw [Library.describe, Library.setRows_rows_ne _ ht] at hkey
        exact h t key hkey hin
  · rw [if_neg haccepted]
    exact ⟨fun _ ha => absurd ha haccepted, fun _ => h⟩

/-- A step keeps the names of the uploaded files exactly if it meets the condition. -/
theorem libraryStep_rowsNameFiles (hbase : LibraryBase P s) (h : RowsNameFiles P s)
    (e : LibraryEvent) : RowsNameFiles P (libraryStep P codec s e) ↔ KeepsNames P s e := by
  have hother : (∀ u t d n dev io, e ≠ .content u t d n dev io) →
      (∀ t, ((libraryStep P codec s e).lib.rows t).map LibraryRow.fileKey =
        (s.lib.rows t).map LibraryRow.fileKey) → RowsNameFiles P (libraryStep P codec s e) := by
    intro hnot hrows
    rw [rowsNameFiles_iff (libraryBase_step hbase e)]
    intro t key hkey hin
    rw [hrows] at hkey
    have hbefore : (key.1, t, key.2.1) ∈ s.ingested := by
      rcases mem_ingested_step hin with hold | ⟨_, _, _, _, _, _, rfl, _⟩
      · exact hold
      · exact absurd rfl (hnot _ _ _ _ _ _)
    rcases @libraryStep_files P codec s e with hfiles | ⟨_, _, _, _, _, _, rfl, _⟩
    · rw [hfiles]
      exact (rowsNameFiles_iff hbase).mp h t key hkey hbefore
    · exact absurd rfl (hnot _ _ _ _ _ _)
  cases e with
  | content userId table data name deviceId io => exact contentUpload_rowsNameFiles hbase h
  | metadata userId table m io => exact uploadMetadata_rowsNameFiles hbase h
  | record userId table hash now stored =>
    refine ⟨fun _ => trivial, fun _ => hother (by simp) fun t => ?_⟩
    exact recordTask_view (fun _ _ _ _ => rfl) now stored t
  | softDelete | restore | rotate | thumbnail | image | video | list | select | check | abandon =>
    refine ⟨fun _ => trivial, fun _ => hother (by simp) fun t => ?_⟩
    exact libraryStep_quiet fileKey_unseen rfl t

theorem libraryBase_start (h : lib.Honest P) : LibraryBase P (LibraryState.start lib) where
  honest := h
  ingested := by
    intro _ _ _ hin
    simp [LibraryState.start] at hin

theorem rowsNameFiles_live (h : RowsNameFiles P s) : LiveRowsNameFiles P s :=
  fun table row hrow hin _ => h table row hrow hin

/-- Rows and files agree throughout a run exactly if every upload names a stored extension. -/
theorem rows_name_files_iff (P : Primitives) (codec : ImageCodec) {lib : Library}
    (hlib : lib.Honest P) (es : List LibraryEvent) :
    (Runs.Throughout (libraryRun P codec) (RowsNameFiles P) (LibraryState.start lib) es ↔
      Runs.Meets (libraryRun P codec) (KeepsNames P) (LibraryState.start lib) es) ∧
    (Runs.Meets (libraryRun P codec) (KeepsNames P) (LibraryState.start lib) es →
      Runs.Throughout (libraryRun P codec) (LiveRowsNameFiles P) (LibraryState.start lib) es) := by
  have hiff : Runs.Throughout (libraryRun P codec) (RowsNameFiles P) (LibraryState.start lib) es ↔
      Runs.Meets (libraryRun P codec) (KeepsNames P) (LibraryState.start lib) es := by
    refine Runs.throughout_iff_meets (fun s e t hbase ht => ?_) (fun s e hbase h => ?_)
      (libraryBase_start hlib) ?_ es
    · cases Option.some.inj ht
      exact libraryBase_step hbase e
    · rw [← libraryStep_rowsNameFiles hbase h e]
      exact ⟨fun ht => ht _ rfl, fun hs t ht => Option.some.inj ht ▸ hs⟩
    · intro table row _ hin
      simp [LibraryState.start] at hin
  exact ⟨hiff, fun hmeets => Runs.throughout_mono (fun _ => rowsNameFiles_live) (hiff.mpr hmeets)⟩

/-- The request that describes a photo under the extension, with no other column. -/
def plainMetadata (hash name ext : String) : MetadataRequest :=
  { deviceId := "phone", hash, createdAt := 0, name, ext, exif := none, hasThumbnail := none
    lastVerifiedAt := none, verificationStatus := none, latitude := none, longitude := none
    place := none }

def DbIo.fine : DbIo := { connected := true, stored := true }

/-- The content of the examples: the first bytes of a JPEG file. -/
def photoBytes : Bytes := [0xFF, 0xD8, 0xFF]

def photoHash : String := String.ofList (toHex (referenceHash photoBytes))

/-- A photo is uploaded, and then described by its owner with the extension in capitals. -/
def capitalExtension : List LibraryEvent :=
  [.content 1 .images photoBytes "a.jpg" "phone" (.smooth 0),
    .metadata 1 .images (plainMetadata photoHash "A.JPG" "JPG") .fine]

theorem rows_name_files_lower_case :
    Runs.Throughout (libraryRun referencePrimitives plainCodec)
      (LiveRowsNameFiles referencePrimitives) (LibraryState.start .empty)
      [.content 1 .images photoBytes "a.JPG" "phone" (.smooth 0),
        .metadata 1 .images (plainMetadata photoHash "b.jpg" "jpg") .fine,
        .softDelete 1 .images photoHash 1 .fine, .restore 1 .images photoHash .fine] :=
  (rows_name_files_iff referencePrimitives plainCodec (Library.empty_honest _) _).2
    (by decide +kernel)

/-- Both requests are accepted, and the photo can no longer be fetched. -/
theorem capital_extension_loses_file :
    ¬Runs.Throughout (libraryRun referencePrimitives plainCodec)
      (LiveRowsNameFiles referencePrimitives) (LibraryState.start .empty) capitalExtension := by
  have hlost : ∃ s, Runs.exec (libraryRun referencePrimitives plainCodec)
      (LibraryState.start .empty) capitalExtension = some s ∧
      ∃ row ∈ s.lib.rows .images, (row.userId, .images, row.hash) ∈ s.ingested ∧
        row.deletedAt = none ∧ (safeResolveContentPath s.lib .images row.hash row.ext).toBool = false :=
    ⟨_, rfl, by decide +kernel⟩
  obtain ⟨s, hrun, row, hrow, hin, hlive, hmissing⟩ := hlost
  intro h
  obtain ⟨data, hdata, _⟩ := Runs.throughout_last h hrun .images row hrow hin hlive
  rw [hdata] at hmissing
  simp [Except.toBool] at hmissing

end Reminisce

import Reminisce.EarnedVerification

namespace Reminisce

/-- The user has uploaded content of this hash, as an image or a video. -/
def LibraryState.Uploaded (s : LibraryState) (userId : UserId) (hash : String) : Prop :=
  ∃ entry ∈ s.ingested, entry.1 = userId ∧ entry.2.2 = hash

instance (s : LibraryState) (userId : UserId) (hash : String) :
    Decidable (s.Uploaded userId hash) :=
  inferInstanceAs (Decidable (∃ entry ∈ s.ingested, _))

/-- Nothing that shows content of this hash is stored. -/
def Library.Absent (lib : Library) (hash : String) : Prop :=
  ∀ table, lib.thumbs table hash = none ∧ ∀ ext, lib.files table hash ext = none

/-- The content that the answers to a user's requests for a hash are made from. -/
inductive ServedFrom (s : LibraryState) (userId : UserId) (hash : String) : Bytes → Prop
  | image {io : ReadIo} {name : String} {place : Option String} {isInline : Bool}
      {body : ImageBody} (h : getImage s.lib userId hash io = .served name place isInline body) :
      ServedFrom s userId hash body.source
  | video {io : ReadIo} {name : String} {place : Option String} {isInline : Bool} {body : Bytes}
      (h : getVideo s.lib userId hash io = .served name place isInline body) :
      ServedFrom s userId hash body
  | thumbnail {io : ThumbnailIo} {thumb : Thumbnail}
      (h : (getThumbnail s.lib userId hash io).1 = .served thumb) :
      ServedFrom s userId hash thumb.source

/-- Whoever is sent bytes made from a content has uploaded this content. -/
def PossessionRequired (P : Primitives) (s : LibraryState) : Prop :=
  ∀ userId hash data, ServedFrom s userId hash data → s.Uploaded userId (contentHash P data)

/-- A metadata upload is for a hash that its user has uploaded, or of which nothing is stored; and
content that reaches the store is described by users who have uploaded it, or are doing so. -/
def OwnsDescribed (P : Primitives) (s : LibraryState) : LibraryEvent → Prop
  | .metadata userId table m io =>
    m.Accepted table userId io → s.Uploaded userId m.hash ∨ s.lib.Absent m.hash
  | .content userId table data name deviceId io =>
    Stores table data name io → ∀ t, ∀ row ∈ s.lib.rows t, row.hash = contentHash P data →
      s.Uploaded row.userId row.hash ∨
        (row.userId = userId ∧ Registers P userId table data name deviceId io)
  | _ => True

/-- The files and the thumbnails lie under the hash of what they show, and the rows are of
uploads, or of content that is not stored. -/
structure PossessionBase (P : Primitives) (s : LibraryState) : Prop where
  honest : s.lib.Honest P
  thumbs : ∀ table hash thumb, s.lib.thumbs table hash = some thumb →
    contentHash P thumb.source = hash
  rows : ∀ table, ∀ row ∈ s.lib.rows table,
    s.Uploaded row.userId row.hash ∨ s.lib.Absent row.hash

variable {P : Primitives} {codec : ImageCodec} {s : LibraryState} {lib : Library}
  {table : MediaTable} {userId : UserId} {hash : String}

theorem safeResolveContentPath_ok {ext : String} {data : Bytes}
    (h : safeResolveContentPath lib table hash ext = .ok data) :
    lib.files table hash ext = some data := by
  unfold safeResolveContentPath at h
  split at h
  next =>
    split at h
    next =>
      split at h
      next hfile => rw [hfile, Except.ok.inj h]
      next => simp at h
    next => simp at h
  next => simp at h

theorem imageBody_source (row : LibraryRow) (data : Bytes) : (imageBody row data).source = data := by
  unfold imageBody
  split
  next =>
    simp only
    split
    next => rfl
    next => split <;> rfl
  next => rfl

theorem getImage_served {io : ReadIo} {name : String} {place : Option String} {isInline : Bool}
    {body : ImageBody} (h : getImage lib userId hash io = .served name place isInline body) :
    ∃ row, liveRow (lib.rows .images) userId hash = some row ∧
      lib.files .images hash row.ext = some body.source := by
  unfold getImage at h
  split at h
  next =>
    split at h
    next => simp at h
    next row hrow =>
      split at h
      next => simp at h
      next data hdata =>
        split at h
        next =>
          simp only [MediaResponse.served.injEq] at h
          rw [← h.2.2.2, imageBody_source]
          exact ⟨row, hrow, safeResolveContentPath_ok hdata⟩
        next => simp at h
  next => simp at h

theorem getVideo_served {io : ReadIo} {name : String} {place : Option String} {isInline : Bool}
    {body : Bytes} (h : getVideo lib userId hash io = .served name place isInline body) :
    ∃ row, liveRow (lib.rows .videos) userId hash = some row ∧
      lib.files .videos hash row.ext = some body := by
  unfold getVideo at h
  split at h
  next =>
    split at h
    next => simp at h
    next row hrow =>
      split at h
      next => simp at h
      next data hdata =>
        split at h
        next =>
          simp only [MediaResponse.served.injEq] at h
          rw [← h.2.2.2]
          exact ⟨row, hrow, safeResolveContentPath_ok hdata⟩
        next => simp at h
  next => simp at h

theorem getThumbnail_served {io : ThumbnailIo} {thumb : Thumbnail}
    (h : (getThumbnail lib userId hash io).1 = .served thumb) :
    (∃ table row, liveRow (lib.rows table) userId hash = some row) ∧
      ∃ table, lib.thumbs table hash = some thumb := by
  unfold getThumbnail at h
  split at h
  next =>
    split at h
    next =>
      split at h
      next hlive =>
        have howner : ∃ table row, liveRow (lib.rows table) userId hash = some row := by
          rcases hlive with himage | hvideo
          · exact ⟨.images, Option.isSome_iff_exists.mp himage⟩
          · exact ⟨.videos, Option.isSome_iff_exists.mp hvideo⟩
        refine ⟨howner, ?_⟩
        split at h
        next found himage =>
          split at h
          next => cases h; exact ⟨.images, himage⟩
          next => simp at h
        next =>
          split at h
          next found hvideo =>
            split at h
            next => cases h; exact ⟨.videos, hvideo⟩
            next => simp at h
          next => simp at h
      next => simp at h
    next => simp at h
  next => simp at h

/-- In every state that meets the invariant nothing is served without an upload. -/
theorem possession_of_base (hbase : PossessionBase P s) : PossessionRequired P s := by
  intro userId hash data hserved
  have huploaded : ∀ table row, liveRow (s.lib.rows table) userId hash = some row →
      ¬s.lib.Absent hash → s.Uploaded userId hash := by
    intro table row hrow hstored
    obtain ⟨hmem, huser, hhash, _⟩ := liveRow_some hrow
    have := hbase.rows table row hmem
    rw [huser, hhash] at this
    exact this.resolve_right hstored
  have hfileStored : ∀ table ext data, s.lib.files table hash ext = some data →
      ¬s.lib.Absent hash := by
    intro table ext data hfile habsent
    rw [(habsent table).2 ext] at hfile
    simp at hfile
  cases hserved with
  | image h =>
    obtain ⟨row, hrow, hfile⟩ := getImage_served h
    rw [(hbase.honest _ _ _ _ hfile).1]
    exact huploaded _ row hrow (hfileStored _ _ _ hfile)
  | video h =>
    obtain ⟨row, hrow, hfile⟩ := getVideo_served h
    rw [(hbase.honest _ _ _ _ hfile).1]
    exact huploaded _ row hrow (hfileStored _ _ _ hfile)
  | thumbnail h =>
    obtain ⟨⟨table, row, hrow⟩, t, hthumb⟩ := getThumbnail_served h
    rw [hbase.thumbs t hash _ hthumb]
    refine huploaded table row hrow fun habsent => ?_
    rw [(habsent t).1] at hthumb
    simp at hthumb

theorem generateThumbnailForImage_source {data : Bytes} {orientation : Option Int} {written : Bool}
    {thumb : Thumbnail}
    (h : generateThumbnailForImage codec data orientation written = some thumb) :
    thumb.source = data := by
  unfold generateThumbnailForImage at h
  split at h
  next => rw [← Option.some.inj h]; rfl
  next => simp at h

theorem verifyThumbnail_source {task : VerifyTask} {data : Bytes} {io : VerifyIo}
    {thumb : Thumbnail} (h : task.thumbnail codec data io = some thumb) : thumb.source = data := by
  unfold VerifyTask.thumbnail at h
  split at h
  next => exact generateThumbnailForImage_source h
  next =>
    split at h
    next => rw [← Option.some.inj h]; rfl
    next => simp at h

/-- A thumbnail that the library shows of a hash is one of before, or made from a file of the
hash. -/
def ThumbsFrom (before after : Library) : Prop :=
  ∀ t h thumb, after.thumbs t h = some thumb →
    before.thumbs t h = some thumb ∨ ∃ ext, before.files t h ext = some thumb.source

theorem thumbsFrom_of_eq {lib' : Library} (h : lib'.thumbs = lib.thumbs) : ThumbsFrom lib lib' := by
  intro t hash thumb hthumb
  rw [h] at hthumb
  exact Or.inl hthumb

theorem putThumb_thumbsFrom {thumb : Thumbnail} {ext : String}
    (hfile : lib.files table hash ext = some thumb.source) :
    ThumbsFrom lib (lib.putThumb table hash thumb) := by
  intro t h shown hshown
  change (if t = table ∧ h = hash then some thumb else lib.thumbs t h) = some shown at hshown
  split at hshown
  next hkey =>
    cases Option.some.inj hshown
    rw [hkey.1, hkey.2]
    exact Or.inr ⟨ext, hfile⟩
  next => exact Or.inl hshown

theorem updateImageOrientation_thumbsFrom (lib : Library) (userId : UserId) (hash : String)
    (request : UpdateOrientationRequest) (io : OrientationIo) :
    ThumbsFrom lib (updateImageOrientation codec lib userId hash request io).2 := by
  have hfinish : ∀ lib' o b, (finishOrientation lib' userId hash o b io).2.thumbs = lib'.thumbs := by
    intro lib' o b
    rcases finishOrientation_cases lib' userId hash o b io with h | h
    all_goals simp [h]
  rcases updateImageOrientation_cases codec lib userId hash request io with
    h | ⟨row, o, _, _, ⟨data, thumb, hdata, hmade, h⟩ | h⟩
  · exact thumbsFrom_of_eq (by rw [h])
  · have hfile := safeResolveContentPath_ok hdata
    rw [← generateThumbnailForImage_source hmade] at hfile
    unfold ThumbsFrom
    rw [h, hfinish]
    exact putThumb_thumbsFrom hfile
  · exact thumbsFrom_of_eq (by rw [h, hfinish])

theorem checkTask_thumbsFrom (s : LibraryState) (userId : UserId) (table : MediaTable)
    (hash : String) (io : VerifyIo) :
    ThumbsFrom s.lib (checkTask P codec s userId table hash io).lib := by
  unfold checkTask
  split
  next => exact thumbsFrom_of_eq rfl
  next task _ =>
    split
    next => exact thumbsFrom_of_eq rfl
    next =>
      simp only
      rcases verifyFile_cases P codec s.lib task io with
        h | ⟨data, hholds, h | ⟨thumb, _, hmade, h⟩⟩
      · exact thumbsFrom_of_eq (by rw [h])
      · exact thumbsFrom_of_eq (by rw [h])
      · rw [h]
        have hfile := hholds.1
        rw [← verifyThumbnail_source hmade] at hfile
        exact putThumb_thumbsFrom hfile

theorem libraryStep_thumbsFrom (e : LibraryEvent) :
    ThumbsFrom s.lib (libraryStep P codec s e).lib := by
  cases e with
  | rotate userId hash request io =>
    exact updateImageOrientation_thumbsFrom s.lib userId hash request io
  | check userId table hash io => exact checkTask_thumbsFrom s userId table hash io
  | content userId table data name deviceId io =>
    refine thumbsFrom_of_eq ?_
    show (contentUpload P codec s userId table data name deviceId io).lib.thumbs = _
    by_cases hstores : Stores table data name io
    · by_cases hrow : Registers P userId table data name deviceId io
      · rw [contentUpload_registered hrow]
        rfl
      · rw [contentUpload_stored hstores hrow]
        rfl
    · rw [contentUpload_refused hstores]
  | metadata userId table m io =>
    refine thumbsFrom_of_eq ?_
    show (uploadMetadata table s.lib userId m io).2.thumbs = _
    rw [uploadMetadata_lib]
    split <;> rfl
  | softDelete => exact thumbsFrom_of_eq (setDeletedAt_thumbs _ _ _ _ _ _ _ _)
  | restore => exact thumbsFrom_of_eq (setDeletedAt_thumbs _ _ _ _ _ _ _ _)
  | thumbnail userId hash io =>
    refine thumbsFrom_of_eq ?_
    show (getThumbnail s.lib userId hash io).2.thumbs = _
    rcases getThumbnail_lib s.lib userId hash io with h | h
    · rw [h]
    · rw [h]
      rfl
  | image | video | list | abandon => exact thumbsFrom_of_eq rfl
  | select userId table hash monthAgo =>
    exact thumbsFrom_of_eq (congrArg Library.thumbs (selectTask_lib s userId table hash monthAgo))
  | record userId table hash now stored =>
    refine thumbsFrom_of_eq ?_
    show (recordTask s userId table hash now stored).lib.thumbs = _
    rcases recordTask_cases s userId table hash now stored with ⟨h, _⟩ | ⟨_, _, _, _, _, h⟩
    · rw [h]
    · rw [h]
      rfl

/-- What is not stored appears by an upload of the content alone. -/
theorem absent_step (h : s.lib.Absent hash) (e : LibraryEvent) :
    (libraryStep P codec s e).lib.Absent hash ∨
      ∃ userId table data name deviceId io, e = .content userId table data name deviceId io ∧
        Stores table data name io ∧ contentHash P data = hash := by
  have hthumbs : ∀ t, (libraryStep P codec s e).lib.thumbs t hash = none := by
    intro t
    by_contra hsome
    obtain ⟨thumb, hthumb⟩ := Option.ne_none_iff_exists'.mp hsome
    rcases libraryStep_thumbsFrom e t hash thumb hthumb with hold | ⟨ext, hfile⟩
    · rw [(h t).1] at hold
      simp at hold
    · rw [(h t).2 ext] at hfile
      simp at hfile
  rcases @libraryStep_files P codec s e with hfiles |
    ⟨userId, table, data, name, deviceId, io, he, hstores, hfiles⟩
  · refine Or.inl fun t => ⟨hthumbs t, fun ext => ?_⟩
    rw [hfiles]
    exact (h t).2 ext
  · by_cases hhash : contentHash P data = hash
    · exact Or.inr ⟨userId, table, data, name, deviceId, io, he, hstores, hhash⟩
    · refine Or.inl fun t => ⟨hthumbs t, fun ext => ?_⟩
      rw [hfiles]
      have hne : ¬(t = table ∧ hash = contentHash P data ∧
          ext = toLowercase (pathExtension name)) := fun hkey => hhash hkey.2.1.symm
      exact (Library.putFile_ne s.lib data hne).trans ((h t).2 ext)

/-- An insert into one table: the owners are the old ones, and perhaps the inserted one. -/
theorem mem_owner_insert {rows : List LibraryRow} {owner new : UserId × String} {c : Bool}
    (hview : rows.map LibraryRow.owner = if c = true then (lib.rows table).map LibraryRow.owner
      else (lib.rows table).map LibraryRow.owner ++ [new]) {t : MediaTable}
    (h : owner ∈ ((lib.setRows table rows).rows t).map LibraryRow.owner) :
    owner ∈ (lib.rows t).map LibraryRow.owner ∨ (t = table ∧ owner = new) := by
  by_cases ht : t = table
  · rw [ht, Library.setRows_rows, hview] at h
    rw [ht]
    split at h
    next => exact Or.inl h
    next =>
      rcases List.mem_append.mp h with hold | hnew
      · exact Or.inl hold
      · exact Or.inr ⟨rfl, List.mem_singleton.mp hnew⟩
  · rw [Library.setRows_rows_ne _ ht] at h
    exact Or.inl h

/-- A new owner comes by an upload of content or of metadata. -/
theorem mem_owner_step {e : LibraryEvent} {t : MediaTable} {owner : UserId × String}
    (h : owner ∈ ((libraryStep P codec s e).lib.rows t).map LibraryRow.owner) :
    owner ∈ (s.lib.rows t).map LibraryRow.owner ∨
      (∃ userId data name deviceId io, e = .content userId t data name deviceId io ∧
        Registers P userId t data name deviceId io ∧ owner = (userId, contentHash P data)) ∨
      ∃ userId m io, e = .metadata userId t m io ∧ m.Accepted t userId io ∧
        owner = (userId, m.hash) := by
  cases hquiet : e.quiet with
  | true =>
    rw [libraryStep_quiet owner_unseen hquiet] at h
    exact Or.inl h
  | false =>
    cases e with
    | softDelete | restore | rotate | thumbnail | image | video | list | select | check | abandon =>
      simp [LibraryEvent.quiet] at hquiet
    | content userId table data name deviceId io =>
      change owner ∈ ((contentUpload P codec s userId table data name deviceId io).lib.rows t).map _
        at h
      by_cases hstores : Stores table data name io
      · by_cases hrow : Registers P userId table data name deviceId io
        · rw [contentUpload_registered hrow] at h
          rcases @mem_owner_insert (s.lib.store P table data name) table _ _ _ _
            (registerRows_view owner_unseen owner_undescribed (s.lib.rows table)) _ h with
            hold | ⟨rfl, hnew⟩
          · exact Or.inl hold
          · exact Or.inr (Or.inl ⟨userId, data, name, deviceId, io, rfl, hrow, hnew⟩)
        · rw [contentUpload_stored hstores hrow] at h
          exact Or.inl h
      · rw [contentUpload_refused hstores] at h
        exact Or.inl h
    | metadata userId table m io =>
      change owner ∈ ((uploadMetadata table s.lib userId m io).2.rows t).map _ at h
      rw [uploadMetadata_lib] at h
      split at h
      next haccepted =>
        have hview := @describe_view s.lib table userId _ LibraryRow.owner m fun _ => rfl
        rw [Library.describe, Library.setRows_rows] at hview
        rcases mem_owner_insert hview h with hold | ⟨rfl, hnew⟩
        · exact Or.inl hold
        · exact Or.inr (Or.inr ⟨userId, m, io, rfl, haccepted, hnew⟩)
      next => exact Or.inl h
    | record userId table hash now stored =>
      change owner ∈ ((recordTask s userId table hash now stored).lib.rows t).map _ at h
      rw [recordTask_view fun _ _ _ _ => rfl] at h
      exact Or.inl h

theorem uploaded_step (e : LibraryEvent) (h : s.Uploaded userId hash) :
    (libraryStep P codec s e).Uploaded userId hash := by
  obtain ⟨entry, hentry, hkey⟩ := h
  exact ⟨entry, ingested_step_mono e hentry, hkey⟩

theorem uploaded_of_registers {data : Bytes} {name deviceId : String} {io : WholeIngestIo}
    (h : Registers P userId table data name deviceId io) :
    (libraryStep P codec s (.content userId table data name deviceId io)).Uploaded userId
      (contentHash P data) := by
  refine ⟨(userId, table, contentHash P data), ?_, rfl, rfl⟩
  show _ ∈ (contentUpload P codec s userId table data name deviceId io).ingested
  rw [contentUpload_registered h]
  exact List.mem_cons_self

theorem possessionBase_step (hbase : PossessionBase P s) {e : LibraryEvent}
    (hcond : OwnsDescribed P s e) : PossessionBase P (libraryStep P codec s e) where
  honest := libraryStep_honest hbase.honest e
  thumbs := by
    intro t h thumb hthumb
    rcases libraryStep_thumbsFrom e t h thumb hthumb with hold | ⟨ext, hfile⟩
    · exact hbase.thumbs t h thumb hold
    · exact (hbase.honest t h ext _ hfile).1
  rows := by
    intro t row hrow
    rcases mem_owner_step (List.mem_map_of_mem hrow) with
      hold | ⟨userId, data, name, deviceId, io, rfl, hregisters, hnew⟩ |
        ⟨userId, m, io, rfl, haccepted, hnew⟩
    · obtain ⟨old, hmem, heq⟩ := List.mem_map.mp hold
      have huser : old.userId = row.userId := congrArg Prod.fst heq
      have hhash : old.hash = row.hash := congrArg Prod.snd heq
      rw [← huser, ← hhash]
      rcases hbase.rows t old hmem with huploaded | habsent
      · exact Or.inl (uploaded_step e huploaded)
      · rcases @absent_step P codec s _ habsent e with hstill |
          ⟨userId, table, data, name, deviceId, io, rfl, hstores, hstored⟩
        · exact Or.inr hstill
        · rcases hcond hstores t old hmem hstored.symm with huploaded | ⟨hself, hregisters⟩
          · exact Or.inl (uploaded_step _ huploaded)
          · rw [hself, ← hstored]
            exact Or.inl (uploaded_of_registers hregisters)
    · have huser : row.userId = userId := congrArg Prod.fst hnew
      have hhash : row.hash = contentHash P data := congrArg Prod.snd hnew
      rw [huser, hhash]
      exact Or.inl (uploaded_of_registers hregisters)
    · have huser : row.userId = userId := congrArg Prod.fst hnew
      have hhash : row.hash = m.hash := congrArg Prod.snd hnew
      rw [huser, hhash]
      rcases hcond haccepted with huploaded | habsent
      · exact Or.inl (uploaded_step _ huploaded)
      · rcases @absent_step P codec s _ habsent (.metadata userId t m io) with hstill | hcontent
        · exact Or.inr hstill
        · obtain ⟨_, _, _, _, _, _, he, _⟩ := hcontent
          simp at he

/-- A store without rows, whose files and thumbnails lie under the hash of what they show. -/
structure Library.Unowned (P : Primitives) (lib : Library) : Prop where
  honest : lib.Honest P
  thumbs : ∀ table hash thumb, lib.thumbs table hash = some thumb →
    contentHash P thumb.source = hash
  rows : ∀ table, lib.rows table = []

theorem Library.empty_unowned (P : Primitives) : Library.empty.Unowned P where
  honest := Library.empty_honest P
  thumbs _ _ _ h := by simp [Library.empty] at h
  rows _ := rfl

/-- Nobody is sent content that he has not uploaded, in a run in which nobody describes such
content while others store it. -/
theorem possession_is_required (P : Primitives) (codec : ImageCodec) {lib : Library}
    (hlib : lib.Unowned P) {es : List LibraryEvent}
    (hmeets : Runs.Meets (libraryRun P codec) (OwnsDescribed P) (LibraryState.start lib) es) :
    Runs.Throughout (libraryRun P codec) (PossessionRequired P) (LibraryState.start lib) es := by
  have hstart : PossessionBase P (LibraryState.start lib) := by
    refine ⟨hlib.honest, hlib.thumbs, fun table row hrow => ?_⟩
    change row ∈ lib.rows table at hrow
    rw [hlib.rows] at hrow
    simp at hrow
  have hkept := Runs.throughout_of_meets (fun s e t (hbase : PossessionBase P s) hcond ht => by
    cases Option.some.inj ht
    exact possessionBase_step hbase hcond) hstart hmeets
  exact Runs.throughout_mono (fun _ => possession_of_base) hkept

/-- A photo that is described before its upload, and uploaded by a second user after it. -/
theorem possession_is_required_two_owners :
    Runs.Throughout (libraryRun referencePrimitives plainCodec)
      (PossessionRequired referencePrimitives) (LibraryState.start .empty)
      [.metadata 1 .images (plainMetadata photoHash "a.jpg" "jpg") .fine,
        .content 1 .images photoBytes "a.jpg" "phone" (.smooth 0),
        .content 2 .images photoBytes "b.jpg" "phone" (.smooth 0)] := by
  refine possession_is_required referencePrimitives plainCodec (Library.empty_unowned _)
    ⟨fun _ => Or.inr fun table => ⟨rfl, fun _ => rfl⟩, fun s hs => ?_⟩
  cases Option.some.inj hs
  refine ⟨fun _ t => ?_, fun s hs => ?_⟩
  · cases t <;> decide +kernel
  cases Option.some.inj hs
  refine ⟨fun _ t => ?_, fun _ _ => trivial⟩
  cases t <;> decide +kernel

/-- One user uploads a photo, another one describes it by its hash. -/
def describedByOther : List LibraryEvent :=
  [.content 2 .images photoBytes "b.jpg" "phone" (.smooth 0),
    .metadata 1 .images (plainMetadata photoHash "a.jpg" "jpg") .fine]

/-- The other one is sent the photo. -/
theorem description_gives_access :
    ¬Runs.Throughout (libraryRun referencePrimitives plainCodec)
      (PossessionRequired referencePrimitives) (LibraryState.start .empty) describedByOther := by
  have hsent : ∃ s, Runs.exec (libraryRun referencePrimitives plainCodec)
      (LibraryState.start .empty) describedByOther = some s ∧
      s.ingested = [(2, .images, photoHash)] ∧
      getImage s.lib 1 photoHash { queried := true, read := true } =
        .served "a.jpg" none true (.raw photoBytes) :=
    ⟨_, rfl, by decide +kernel, by decide +kernel⟩
  obtain ⟨s, hrun, hingested, himage⟩ := hsent
  intro h
  obtain ⟨entry, hin, huser, _⟩ := Runs.throughout_last h hrun 1 photoHash _ (.image himage)
  rw [hingested, List.mem_singleton] at hin
  rw [hin] at huser
  exact absurd huser (by decide)

end Reminisce

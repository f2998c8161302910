import Reminisce.Ingest
import Reminisce.Library.Runs
import Reminisce.Multipart
import Reminisce.ReferencePrimitives

namespace Reminisce

/-- A field of a batch with the name it gives, and what its processing meets. -/
structure BatchPart where
  filename : String
  field : FieldStream
  tempIo : TempIo
  sizeKnown : Bool
  ingestIo : IngestIo

inductive BatchItem
  | success (result : IngestResult)
  | streamError (filename message : String)
  | ingestError (hash : String) (error : IngestError)
  deriving DecidableEq, Repr

structure BatchState where
  lib : Library
  results : List BatchItem
  totalBytes : Nat
  fileCount : Nat

inductive BatchResponse
  | created (results : List BatchItem)
  | payloadTooLarge (message : String)
  deriving DecidableEq, Repr

def maxImageBytes : Nat := 200 * 1024 * 1024

def maxVideoBytes : Nat := 20 * 1024 * 1024 * 1024

def maxBatchFiles : Nat := 50

def maxBatchTotalBytes : Nat := 1024 * 1024 * 1024

section Batch

variable (P : Primitives) (codec : ImageCodec) (userId : UserId) (deviceId : String)

/-- The loop body of `batch_upload_image`. -/
def batchItem (lib : Library) (part : BatchPart) : BatchItem × Library × Nat :=
  match streamingHashToTemp P part.tempIo maxImageBytes part.field with
  | .error e => (.streamError part.filename e.text, lib, 0)
  | .ok (file, hash) =>
    let size := if part.sizeKnown then file.length else 0
    match processImageFile codec lib file part.filename hash deviceId userId part.ingestIo with
    | (.ok result, lib) => (.success result, lib, size)
    | (.error e, lib) => (.ingestError hash e, lib, size)

/-- One more field, unless a limit of the batch is reached. -/
def batchStep (s : BatchState) (part : BatchPart) : Option BatchState :=
  if maxBatchFiles < s.fileCount + 1 ∨ maxBatchTotalBytes < s.totalBytes then none
  else
    let (item, lib, size) := batchItem P codec userId deviceId s.lib part
    some { lib, results := s.results ++ [item], totalBytes := s.totalBytes + size
           fileCount := s.fileCount + 1 }

/-- The fields of the payload until its end or an error of its stream. -/
def batchUploadImage (s : BatchState) : List BatchPart → BatchResponse × Library
  | [] => (.created s.results, s.lib)
  | part :: rest =>
    match batchStep P codec userId deviceId s part with
    | some t => batchUploadImage t rest
    | none => (.payloadTooLarge (s!"Batch limit exceeded (max {maxBatchFiles} files / " ++
        s!"{maxBatchTotalBytes / (1024 * 1024 * 1024)} GB total); processed " ++
        s!"{s.results.length} file(s)"), s.lib)

end Batch

def BatchState.start (lib : Library) : BatchState :=
  { lib, results := [], totalBytes := 0, fileCount := 0 }

/-- The fields of a single upload that were read, the last one of each name. -/
structure UploadFields where
  hash : Option String
  name : Option String
  deviceId : Option String
  media : Option (FieldStream × TempIo)

inductive UploadResponse
  | created (result : IngestResult)
  | badRequest (message : String)
  | failed (error : IngestError)
  deriving DecidableEq, Repr

def maxMediaBytes : MediaTable → Nat
  | .images => maxImageBytes
  | .videos => maxVideoBytes

/-- The steps that `upload_image` and `upload_video` share. -/
def uploadMedia (P : Primitives) (codec : ImageCodec) (table : MediaTable) (lib : Library)
    (fields : UploadFields) (userId : UserId) (io : IngestIo) :
    Except HttpError UploadResponse × Library :=
  let received : Option (Except HttpError (Bytes × String)) :=
    fields.media.map fun (field, tempIo) =>
      streamingHashToTemp P tempIo (maxMediaBytes table) field
  match received, fields.hash, fields.name with
  | some (.error e), _, _ => (.error e, lib)
  | _, none, _ => (.error (.badRequest "Missing hash"), lib)
  | _, _, none => (.error (.badRequest "Missing name"), lib)
  | none, _, _ => (.error (.badRequest s!"Missing {table.kind}"), lib)
  | some (.ok (file, calculated)), some hash, some name =>
    if calculated = hash then
      match processMediaFile codec table lib file name hash (fields.deviceId.getD "web-client")
        userId io with
      | (.ok result, lib) => (.ok (.created result), lib)
      | (.error e, lib) => (.ok (.failed e), lib)
    else (.ok (.badRequest "Hash verification failed"), lib)

def uploadImage (P : Primitives) (codec : ImageCodec) (lib : Library) (fields : UploadFields)
    (userId : UserId) (io : IngestIo) : Except HttpError UploadResponse × Library :=
  uploadMedia P codec .images lib fields userId io

def uploadVideo (P : Primitives) (codec : ImageCodec) (lib : Library) (fields : UploadFields)
    (userId : UserId) (io : IngestIo) : Except HttpError UploadResponse × Library :=
  uploadMedia P codec .videos lib fields userId io

variable {P : Primitives} {codec : ImageCodec} {userId : UserId} {deviceId : String}
  {part : BatchPart} {lib : Library}

/-- The part is received to its end, or what arrives of it is refused: by the limit or the
temp file, by the validation of the received bytes, or by a move that leaves nothing. -/
def BatchPart.Acceptable (part : BatchPart) : Prop :=
  part.field.complete = true ∨ ¬Receivable part.tempIo maxImageBytes part.field ∨
    ¬Ingestible .images part.field.content part.filename ∨ part.ingestIo.move = .refused

/-- Whatever the store holds, an incomplete part leaves it alone and is no success. -/
def TakesWhole (P : Primitives) (codec : ImageCodec) (userId : UserId) (deviceId : String)
    (part : BatchPart) : Prop :=
  ∀ lib, part.field.complete = false →
    (batchItem P codec userId deviceId lib part).2.1 = lib ∧
      ∀ result, (batchItem P codec userId deviceId lib part).1 ≠ .success result

/-- In a batch no incomplete part changes the store or is reported as a success. -/
def BatchTakesWhole (P : Primitives) (codec : ImageCodec) (userId : UserId) (deviceId : String)
    (lib : Library) (parts : List BatchPart) : Prop :=
  Runs.Meets (batchStep P codec userId deviceId) (fun s part => part.field.complete = false →
    ∀ t, batchStep P codec userId deviceId s part = some t →
      t.lib = s.lib ∧ ∀ result, t.results ≠ s.results ++ [.success result])
    (BatchState.start lib) parts

/-- What a refused ingest leaves: the store as it was, unless the row alone failed. -/
theorem processMediaFile_refused {table : MediaTable} {data : Bytes} {name hash : String}
    {io : IngestIo} (h : ¬Ingestible table data name ∨ io.move = .refused) :
    (processMediaFile codec table lib data name hash deviceId userId io).2 = lib ∧
      ∀ result, (processMediaFile codec table lib data name hash deviceId userId io).1 ≠
        .ok result := by
  unfold processMediaFile
  simp only
  split
  next => simp
  next hvalid =>
    have hin : Ingestible table data name := validateMediaFile_ok.mp hvalid
    have hmove : io.move = .refused := h.resolve_left (not_not.mpr hin)
    simp [hmove, MoveIo.left, MoveIo.succeeds]

theorem batchItem_refused (hcomplete : part.field.complete = false) (h : part.Acceptable) :
    (batchItem P codec userId deviceId lib part).2.1 = lib ∧
      ∀ result, (batchItem P codec userId deviceId lib part).1 ≠ .success result := by
  have hrest := h.resolve_left (by simp [hcomplete])
  unfold batchItem
  split
  next => exact ⟨rfl, fun _ => by simp⟩
  next file hash hstream =>
    obtain ⟨hreceived, hfile, _⟩ := streamingHashToTemp_ok hstream
    subst hfile
    have hrefused := hrest.resolve_left (not_not.mpr hreceived)
    obtain ⟨hlib, hno⟩ := @processMediaFile_refused codec userId deviceId lib .images
      part.field.content part.filename hash part.ingestIo hrefused
    simp only [processImageFile]
    split
    next result after hok =>
      rw [hok] at hno
      exact absurd rfl (hno result)
    next e after herr =>
      rw [herr] at hlib
      exact ⟨hlib, fun _ => by simp⟩

/-- What the move leaves of a valid file stays, whatever comes of the row. -/
theorem processMediaFile_left {table : MediaTable} {data : Bytes} {name hash : String}
    {io : IngestIo} {left : Bytes} (hin : Ingestible table data name)
    (hleft : io.move.left data = some left) :
    (processMediaFile codec table lib data name hash deviceId userId io).2.files table hash
      (toLowercase (pathExtension name)) = some left := by
  have hvalid : validateMediaFile data table (toLowercase (pathExtension name)) hash = .ok () :=
    validateMediaFile_ok.mpr hin
  unfold processMediaFile
  simp only [hvalid, hleft, Option.map_some, Option.getD_some]
  split
  next => split <;> simp
  next => simp

theorem processMediaFile_ok {table : MediaTable} {data : Bytes} {name hash : String} {io : IngestIo}
    {result : IngestResult} {after : Library}
    (h : processMediaFile codec table lib data name hash deviceId userId io = (.ok result, after)) :
    after.files table hash (toLowercase (pathExtension name)) = some data := by
  have hgood : Ingestible table data name ∧ io.move.succeeds = true := by
    unfold processMediaFile at h
    simp only at h
    split at h
    next => cases h
    next hvalid =>
      split at h
      next hmoved => exact ⟨validateMediaFile_ok.mp hvalid, hmoved⟩
      next => cases h
  have hfile := @processMediaFile_left codec userId deviceId lib table data name hash io data hgood.1
    (MoveIo.left_of_stores (MoveIo.stores_of_succeeds hgood.2))
  rwa [h] at hfile

/-- The announced hash is that of the bytes that were received and stored. -/
def StoresAnnounced (P : Primitives) (table : MediaTable) (fields : UploadFields)
    (after : Library) : Prop :=
  ∃ field tempIo name, fields.media = some (field, tempIo) ∧ fields.name = some name ∧
    fields.hash = some (contentHash P field.content) ∧
    after.files table (contentHash P field.content) (toLowercase (pathExtension name)) =
      some field.content

theorem uploadMedia_announced {table : MediaTable} {fields : UploadFields} {io : IngestIo}
    {result : IngestResult} {after : Library}
    (h : uploadMedia P codec table lib fields userId io = (.ok (.created result), after)) :
    StoresAnnounced P table fields after := by
  unfold uploadMedia at h
  simp only at h
  split at h
  next => cases h
  next => cases h
  next => cases h
  next => cases h
  next file calculated hash name hreceived hhash hname =>
    obtain ⟨⟨field, tempIo⟩, hmedia, hstream⟩ := Option.map_eq_some_iff.mp hreceived
    obtain ⟨-, rfl, hcalculated⟩ := streamingHashToTemp_ok hstream
    split at h
    next hsame =>
      split at h
      next created lib' hprocess =>
        cases h
        have hfile := processMediaFile_ok hprocess
        have hannounced : hash = contentHash P field.content := hsame.symm.trans hcalculated
        rw [hannounced] at hhash hfile
        exact ⟨field, tempIo, name, hmedia, hname, hhash, hfile⟩
      next => cases h
    next => cases h

/-- The single uploads ask the client for the hash: a success means that they hold the bytes it was
taken of. -/
theorem uploads_store_announced {fields : UploadFields} {io : IngestIo} {result : IngestResult}
    {after : Library} :
    (uploadImage P codec lib fields userId io = (.ok (.created result), after) →
      StoresAnnounced P .images fields after) ∧
    (uploadVideo P codec lib fields userId io = (.ok (.created result), after) →
      StoresAnnounced P .videos fields after) :=
  ⟨uploadMedia_announced, uploadMedia_announced⟩

/-- A part that is received and validated leaves in the store what its move leaves. -/
theorem batchItem_left {left : Bytes} (hreceived : Receivable part.tempIo maxImageBytes part.field)
    (hin : Ingestible .images part.field.content part.filename)
    (hleft : part.ingestIo.move.left part.field.content = some left) :
    (batchItem P codec userId deviceId lib part).2.1.files .images
      (contentHash P part.field.content) (toLowercase (pathExtension part.filename)) = some left := by
  have hfile := @processMediaFile_left codec userId deviceId lib .images part.field.content
    part.filename (contentHash P part.field.content) part.ingestIo left hin hleft
  unfold batchItem
  rw [streamingHashToTemp_of_receivable P hreceived]
  unfold contentHash at hfile ⊢
  simp only [processImageFile]
  split
  next heq =>
    rw [heq] at hfile
    exact hfile
  next heq =>
    rw [heq] at hfile
    exact hfile

theorem takesWhole_iff : TakesWhole P codec userId deviceId part ↔ part.Acceptable := by
  constructor
  · intro h
    by_contra hbad
    simp only [BatchPart.Acceptable, not_or, not_not] at hbad
    obtain ⟨hcomplete, hreceived, hin, hmove⟩ := hbad
    obtain ⟨left, hleft⟩ := Option.isSome_iff_exists.mp
      (@MoveIo.left_isSome part.field.content _ hmove)
    have hkept := (h Library.empty (by simpa using hcomplete)).1
    have hstored := @batchItem_left P codec userId deviceId part Library.empty left hreceived hin hleft
    rw [hkept] at hstored
    simp [Library.empty] at hstored
  · exact fun h lib hcomplete => batchItem_refused hcomplete h

theorem batchTakesWhole_of_acceptable {s : BatchState} {parts : List BatchPart}
    (h : ∀ part ∈ parts, part.Acceptable) :
    Runs.Meets (batchStep P codec userId deviceId) (fun s part => part.field.complete = false →
      ∀ t, batchStep P codec userId deviceId s part = some t →
        t.lib = s.lib ∧ ∀ result, t.results ≠ s.results ++ [.success result]) s parts := by
  induction parts generalizing s with
  | nil => trivial
  | cons part rest ih =>
    refine ⟨fun hcomplete t ht => ?_, fun t _ => ih fun p hp => h p (List.mem_cons_of_mem _ hp)⟩
    obtain ⟨hlib, hno⟩ := @batchItem_refused P codec userId deviceId part s.lib hcomplete
      (h part (by simp))
    unfold batchStep at ht
    generalize batchItem P codec userId deviceId s.lib part = out at ht hlib hno
    split at ht
    next => simp at ht
    next =>
      cases Option.some.inj ht
      refine ⟨hlib, fun result heq => hno result ?_⟩
      simpa using heq

/-- Nothing truncated is accepted, as far as the stream ends well or something else refuses
what arrived. -/
theorem no_truncated_upload_iff (P : Primitives) (codec : ImageCodec) (userId : UserId)
    (deviceId : String) :
    (∀ io maxBytes field, ReceivesWhole P io maxBytes field ↔
      field.complete = true ∨ ¬Receivable io maxBytes field) ∧
    (∀ part, TakesWhole P codec userId deviceId part ↔ part.Acceptable) ∧
    ∀ lib parts, (∀ part ∈ parts, part.Acceptable) →
      BatchTakesWhole P codec userId deviceId lib parts :=
  ⟨fun _ _ _ => receivesWhole_iff, fun _ => takesWhole_iff,
    fun _ _ h => batchTakesWhole_of_acceptable h⟩

/-- A photo whose stream breaks off after three bytes. -/
def brokenPart : BatchPart :=
  { filename := "a.jpg", field := .chunk [0xFF, 0xD8, 0xFF] .failed
    tempIo := { created := true, written := fun _ => true, flushed := true, synced := true }
    sizeKnown := true, ingestIo := .smooth 0 }

/-- The three bytes are received, stored under their own hash and reported as a success. -/
theorem broken_stream_is_stored :
    let hash := contentHash referencePrimitives [0xFF, 0xD8, 0xFF]
    let out := batchUploadImage referencePrimitives plainCodec 1 "phone"
      (BatchState.start Library.empty) [brokenPart]
    brokenPart.field.complete = false ∧
      ¬ReceivesWhole referencePrimitives brokenPart.tempIo maxImageBytes brokenPart.field ∧
      out.1 = .created [.success { hash, name := "a.jpg", filename := hash ++ ".jpg" }] ∧
      out.2.files .images hash "jpg" = some [0xFF, 0xD8, 0xFF] ∧
      (liveRow (out.2.rows .images) 1 hash).isSome = true := by
  refine ⟨rfl, ?_, by decide +kernel, by decide +kernel, by decide +kernel⟩
  have hreceived : Receivable brokenPart.tempIo maxImageBytes brokenPart.field := by decide
  rw [receivesWhole_iff]
  exact not_or.mpr ⟨by decide, not_not.mpr hreceived⟩

end Reminisce

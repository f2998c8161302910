import Reminisce.Primitives

namespace Reminisce

/-- What arrives of a multipart field: chunks, until `try_next` answers `Ok(None)` or an error. -/
inductive FieldStream
  | chunk (data : Bytes) (rest : FieldStream)
  | finished
  | failed
  deriving DecidableEq, Repr

namespace FieldStream

/-- The bytes that arrive. -/
def content : FieldStream → Bytes
  | .chunk data rest => data ++ rest.content
  | .finished => []
  | .failed => []

/-- The field was received to its end. -/
def complete : FieldStream → Bool
  | .chunk _ rest => rest.complete
  | .finished => true
  | .failed => false

def chunkCount : FieldStream → Nat
  | .chunk _ rest => rest.chunkCount + 1
  | .finished => 0
  | .failed => 0

end FieldStream

/-- The responses that a handler returns as an `actix_web::Error`. -/
inductive HttpError
  | payloadTooLarge (message : String)
  | internalServerError (message : String)
  | badRequest (message : String)
  | unauthorized (message : String)
  deriving DecidableEq, Repr

def HttpError.text : HttpError → String
  | .payloadTooLarge message => message
  | .internalServerError message => message
  | .badRequest message => message
  | .unauthorized message => message

/-- Which operations on the temp file succeed; it is created in the system's directory when it
cannot be in the own one. -/
structure TempIo where
  created : Bool
  written : Nat → Bool
  flushed : Bool
  synced : Bool

/-- The loop of `streaming_hash_to_temp`, which every end of the stream leaves in the same
way. -/
def receive (io : TempIo) (maxBytes : Nat) : Nat → Bytes → FieldStream → Except HttpError Bytes
  | chunks, received, .chunk data rest =>
    if maxBytes < received.length + data.length then
      .error (.payloadTooLarge
        s!"File exceeds the {maxBytes / (1024 * 1024)} MB upload limit")
    else if io.written chunks then receive io maxBytes (chunks + 1) (received ++ data) rest
    else .error (.internalServerError "Failed to write temp file")
  | _, received, .finished => .ok received
  | _, received, .failed => .ok received

/-- The temp file and its hash. -/
def streamingHashToTemp (P : Primitives) (io : TempIo) (maxBytes : Nat) (field : FieldStream) :
    Except HttpError (Bytes × String) :=
  if io.created then
    match receive io maxBytes 0 [] field with
    | .error e => .error e
    | .ok file =>
      if io.flushed then
        if io.synced then .ok (file, String.ofList (toHex (P.blake3 file)))
        else .error (.internalServerError "Failed to sync temp file")
      else .error (.internalServerError "Failed to flush temp file")
  else .error (.internalServerError "Failed to create temp file")

/-- What arrives fits the limit, and the temp file takes it. -/
def Receivable (io : TempIo) (maxBytes : Nat) (field : FieldStream) : Prop :=
  io.created ∧ field.content.length ≤ maxBytes ∧ (∀ i < field.chunkCount, io.written i) ∧
    io.flushed ∧ io.synced

instance (io : TempIo) (maxBytes : Nat) (field : FieldStream) :
    Decidable (Receivable io maxBytes field) :=
  inferInstanceAs (Decidable (_ ∧ _ ∧ (∀ i < field.chunkCount, io.written i = true) ∧ _ ∧ _))

/-- No success without the whole field, and with it the file and the hash of the whole. -/
def ReceivesWhole (P : Primitives) (io : TempIo) (maxBytes : Nat) (field : FieldStream) : Prop :=
  ∀ file hash, streamingHashToTemp P io maxBytes field = .ok (file, hash) →
    field.complete = true ∧ file = field.content ∧
      hash = String.ofList (toHex (P.blake3 field.content))

variable {P : Primitives} {io : TempIo} {maxBytes : Nat} {field : FieldStream}

theorem receive_ok {chunks : Nat} {received file : Bytes} :
    receive io maxBytes chunks received field = .ok file → file = received ++ field.content := by
  induction field generalizing chunks received with
  | chunk data rest ih =>
    intro h
    unfold receive at h
    split at h
    next => simp at h
    next =>
      split at h
      next => rw [ih h, FieldStream.content, List.append_assoc]
      next => simp at h
  | finished =>
    intro h
    cases Except.ok.inj h
    simp [FieldStream.content]
  | failed =>
    intro h
    cases Except.ok.inj h
    simp [FieldStream.content]

/-- The loop ends well exactly when all that arrives fits and is written. -/
theorem receive_ok_iff {chunks : Nat} {received : Bytes} (hfit : received.length ≤ maxBytes) :
    (∃ file, receive io maxBytes chunks received field = .ok file) ↔
      received.length + field.content.length ≤ maxBytes ∧
        ∀ i < field.chunkCount, io.written (chunks + i) := by
  induction field generalizing chunks received with
  | chunk data rest ih =>
    unfold receive
    split
    next hlarge =>
      refine ⟨fun ⟨_, h⟩ => by simp at h, fun ⟨hle, _⟩ => ?_⟩
      simp only [FieldStream.content, List.length_append] at hle
      omega
    next hsmall =>
      have hlen : (received ++ data).length ≤ maxBytes := by
        rw [List.length_append]
        omega
      split
      next hwritten =>
        rw [ih hlen]
        simp only [List.length_append, FieldStream.content, FieldStream.chunkCount]
        constructor
        · rintro ⟨hle, hall⟩
          refine ⟨by omega, fun i hi => ?_⟩
          cases i with
          | zero => exact hwritten
          | succ i =>
            have := hall i (by omega)
            rwa [Nat.add_assoc, Nat.add_comm 1 i] at this
        · rintro ⟨hle, hall⟩
          refine ⟨by omega, fun i hi => ?_⟩
          have := hall (i + 1) (by omega)
          rwa [Nat.add_assoc, Nat.add_comm 1 i]
      next hlost =>
        refine ⟨fun ⟨_, h⟩ => by simp at h, fun ⟨_, hall⟩ => ?_⟩
        exact absurd (hall 0 (Nat.succ_pos _)) hlost
  | finished =>
    refine ⟨fun _ => ⟨by simpa [FieldStream.content] using hfit, ?_⟩, fun _ => ⟨received, rfl⟩⟩
    intro i hi
    exact absurd hi (Nat.not_lt_zero i)
  | failed =>
    refine ⟨fun _ => ⟨by simpa [FieldStream.content] using hfit, ?_⟩, fun _ => ⟨received, rfl⟩⟩
    intro i hi
    exact absurd hi (Nat.not_lt_zero i)

/-- The temp file holds what arrived, whether or not more was to come. -/
theorem streamingHashToTemp_ok {file : Bytes} {hash : String}
    (h : streamingHashToTemp P io maxBytes field = .ok (file, hash)) :
    Receivable io maxBytes field ∧ file = field.content ∧
      hash = String.ofList (toHex (P.blake3 file)) := by
  unfold streamingHashToTemp at h
  split at h
  next hcreated =>
    split at h
    next => simp at h
    next received hreceived =>
      split at h
      next hflushed =>
        split at h
        next hsynced =>
          cases Except.ok.inj h
          have hwhole := receive_ok hreceived
          obtain ⟨hle, hall⟩ := (receive_ok_iff (Nat.zero_le _)).mp ⟨_, hreceived⟩
          refine ⟨⟨hcreated, ?_, fun i hi => ?_, hflushed, hsynced⟩, hwhole, rfl⟩
          · simpa using hle
          · simpa using hall i hi
        next => simp at h
      next => simp at h
  next => simp at h

theorem streamingHashToTemp_of_receivable (P : Primitives) (h : Receivable io maxBytes field) :
    streamingHashToTemp P io maxBytes field =
      .ok (field.content, String.ofList (toHex (P.blake3 field.content))) := by
  obtain ⟨hcreated, hle, hwritten, hflushed, hsynced⟩ := h
  have hfits : (([] : Bytes)).length + field.content.length ≤ maxBytes := by simpa using hle
  obtain ⟨file, hreceive⟩ := (@receive_ok_iff io maxBytes field 0 [] (Nat.zero_le maxBytes)).mpr
    ⟨hfits, fun i hi => by simpa using hwritten i hi⟩
  have hwhole := receive_ok hreceive
  rw [List.nil_append] at hwhole
  simp [streamingHashToTemp, hcreated, hreceive, hflushed, hsynced, hwhole]

theorem receivesWhole_iff :
    ReceivesWhole P io maxBytes field ↔ field.complete = true ∨ ¬Receivable io maxBytes field := by
  constructor
  · intro h
    by_cases hr : Receivable io maxBytes field
    · exact Or.inl (h _ _ (streamingHashToTemp_of_receivable P hr)).1
    · exact Or.inr hr
  · rintro h file hash hok
    obtain ⟨hr, rfl, hhash⟩ := streamingHashToTemp_ok hok
    exact ⟨h.resolve_right (not_not.mpr hr), rfl, hhash⟩

end Reminisce

import Reminisce.Encryption
import Reminisce.ReferencePrimitives
import Reminisce.Segments

namespace Reminisce

open Results

abbrev WrapNonce := List.Vector UInt8 12

/-- The derived key of the secret that was used last, beside the hash of that secret. -/
abbrev KeyCache := Option (Digest × Digest)

/-- `keywrap_master_key_v1` with its cache, around the derivation itself. -/
def cachedMasterKeyV1 (P : Primitives) (cache : KeyCache) (apiSecret : String) :
    Digest × KeyCache :=
  let cacheKey := P.blake3 (utf8 apiSecret)
  let derive := (P.keywrapMasterKeyV1 apiSecret, some (cacheKey, P.keywrapMasterKeyV1 apiSecret))
  match cache with
  | some (seen, derived) => if seen = cacheKey then (derived, cache) else derive
  | none => derive

/-- `Nonce::from_slice`. -/
def nonceFromSlice (slice : Bytes) : Except Failure Bytes :=
  if slice.length = 12 then .ok slice else .error .panic

/-- The end of `decrypt_key`, for the legacy format. -/
def decryptLegacyKey (P : Primitives) (encryptedKey : Bytes) (apiSecret : String) :
    Except Failure Bytes :=
  if encryptedKey.length < 12 then .error (.error "Encrypted key is too short")
  else do
    let nonceBytes ← sliceRange encryptedKey 0 12
    let ciphertext ← sliceRange encryptedKey 12 encryptedKey.length
    let nonce ← nonceFromSlice nonceBytes
    match P.aead.decrypt (P.sha256 apiSecret).toList nonce ciphertext with
    | none => .error (.error "Decryption failed: aead::Error")
    | some decrypted => .ok decrypted

/-- The attempt at an envelope of version 1. -/
def openEnvelopeV1 (P : Primitives) (masterKey : Digest) (encryptedKey : Bytes) :
    Except Failure (Option Bytes) := do
  let nonce ← nonceFromSlice (← sliceRange encryptedKey 1 13)
  let ciphertext ← sliceRange encryptedKey 13 encryptedKey.length
  pure (P.aead.decrypt masterKey.toList nonce ciphertext)

/-- `decrypt_key` in a process with this cache. -/
def decryptKeyCached (P : Primitives) (cache : KeyCache) (encryptedKey : Bytes)
    (apiSecret : String) : Except Failure Bytes × KeyCache :=
  if encryptedKey.length = 32 then (.ok encryptedKey, cache)
  else if 29 ≤ encryptedKey.length ∧ encryptedKey.head? = some 1 then
    let (masterKey, cache) := cachedMasterKeyV1 P cache apiSecret
    match openEnvelopeV1 P masterKey encryptedKey with
    | .error failure => (.error failure, cache)
    | .ok (some decrypted) => (.ok decrypted, cache)
    | .ok none => (decryptLegacyKey P encryptedKey apiSecret, cache)
  else (decryptLegacyKey P encryptedKey apiSecret, cache)

/-- `encrypt_key` in a process with this cache. -/
def encryptKeyCached (P : Primitives) (cache : KeyCache) (key : Digest) (apiSecret : String)
    (nonce : WrapNonce) : Except Failure Bytes × KeyCache :=
  let (masterKey, cache) := cachedMasterKeyV1 P cache apiSecret
  match P.aead.encrypt masterKey.toList nonce.toList key.toList with
  | none => (.error (.error "Encryption failed: aead::Error"), cache)
  | some ciphertext => (.ok (1 :: (nonce.toList ++ ciphertext)), cache)

/-- One call of a process. -/
inductive KeyCall
  | encrypt (key : Digest) (apiSecret : String) (nonce : WrapNonce)
  | decrypt (encryptedKey : Bytes) (apiSecret : String)

def KeyCall.secret : KeyCall → String
  | .encrypt _ apiSecret _ => apiSecret
  | .decrypt _ apiSecret => apiSecret

/-- The cache of a process after these calls. -/
def cacheAfter (P : Primitives) : KeyCache → List KeyCall → KeyCache
  | cache, [] => cache
  | cache, .encrypt key apiSecret nonce :: calls =>
    cacheAfter P (encryptKeyCached P cache key apiSecret nonce).2 calls
  | cache, .decrypt encryptedKey apiSecret :: calls =>
    cacheAfter P (decryptKeyCached P cache encryptedKey apiSecret).2 calls

inductive Envelope
  | v0
  | v1
  deriving DecidableEq

def Envelope.masterKey (P : Primitives) (apiSecret : String) : Envelope → Digest
  | .v0 => P.sha256 apiSecret
  | .v1 => P.keywrapMasterKeyV1 apiSecret

/-- A key that was wrapped: by `encrypt_key`, or for version 0 by the code before it. -/
structure WrappedKey where
  envelope : Envelope
  apiSecret : String
  key : Digest
  nonce : WrapNonce

namespace WrappedKey

def masterKey (P : Primitives) (w : WrappedKey) : Digest := w.envelope.masterKey P w.apiSecret

def ciphertext (P : Primitives) (w : WrappedKey) : Option Bytes :=
  P.aead.encrypt (w.masterKey P).toList w.nonce.toList w.key.toList

def value (P : Primitives) (w : WrappedKey) : Option Bytes :=
  (w.ciphertext P).map fun ciphertext =>
    match w.envelope with
    | .v0 => w.nonce.toList ++ ciphertext
    | .v1 => 1 :: (w.nonce.toList ++ ciphertext)

end WrappedKey

/-- However the value is cut into a nonce and a ciphertext, under the master keys of the secret
nothing opens but what was wrapped with that key and nonce. -/
def NothingForged (P : Primitives) (wraps : List WrappedKey) (apiSecret : String) (value : Bytes) : Prop :=
  ∀ (envelope : Envelope) (start : Nat), start < value.length →
    (P.aead.decrypt (envelope.masterKey P apiSecret).toList ((value.drop start).take 12)
      (value.drop (start + 12))).isSome →
    ∃ w ∈ wraps, w.masterKey P = envelope.masterKey P apiSecret ∧
      w.nonce.toList = (value.drop start).take 12 ∧ w.ciphertext P = some (value.drop (start + 12))

/-- The two derivations give different keys, and each of them different keys for different
secrets. -/
def DerivesApart (P : Primitives) (wraps : List WrappedKey) (apiSecret : String) : Prop :=
  ∀ w ∈ wraps, ∀ envelope : Envelope, w.masterKey P = envelope.masterKey P apiSecret →
    w.envelope = envelope ∧ w.apiSecret = apiSecret

/-- What the cache holds belongs to one of the secrets. -/
def KeyCache.Faithful (P : Primitives) (secrets : Set String) (cache : KeyCache) : Prop :=
  ∀ seen derived, cache = some (seen, derived) →
    ∃ s ∈ secrets, P.blake3 (utf8 s) = seen ∧ P.keywrapMasterKeyV1 s = derived

variable {P : Primitives} {cache : KeyCache} {secrets : Set String} {apiSecret : String}
  {encryptedKey : Bytes} {key : Digest} {nonce : WrapNonce} {wraps : List WrappedKey}
  {w : WrappedKey}

/-- The cache hands out the key of the secret it is asked for. -/
theorem cachedMasterKeyV1_eq (hblake : Set.InjOn (fun s => P.blake3 (utf8 s)) secrets)
    (hcache : cache.Faithful P secrets) (hs : apiSecret ∈ secrets) :
    (cachedMasterKeyV1 P cache apiSecret).1 = P.keywrapMasterKeyV1 apiSecret ∧
      (cachedMasterKeyV1 P cache apiSecret).2.Faithful P secrets := by
  have hnew : KeyCache.Faithful P secrets
      (some (P.blake3 (utf8 apiSecret), P.keywrapMasterKeyV1 apiSecret)) := by
    intro seen derived heq
    cases Option.some.inj heq
    exact ⟨apiSecret, hs, rfl, rfl⟩
  unfold cachedMasterKeyV1
  simp only
  split
  next seen derived =>
    split
    next hseen =>
      obtain ⟨s, hmem, hhash, hkey⟩ := hcache seen derived rfl
      have hsame : s = apiSecret := hblake hmem hs (hhash.trans hseen)
      exact ⟨by rw [← hkey, hsame], hcache⟩
    next => exact ⟨rfl, hnew⟩
  next => exact ⟨rfl, hnew⟩

theorem sliceRange_take {bytes : Bytes} {start stop : Nat} (hle : start ≤ stop)
    (h : stop ≤ bytes.length) :
    sliceRange bytes start stop = .ok ((bytes.drop start).take (stop - start)) := by
  rw [sliceRange, if_pos ⟨hle, h⟩, List.drop_take]

theorem decryptLegacyKey_eq (P : Primitives) (encryptedKey : Bytes) (apiSecret : String) :
    decryptLegacyKey P encryptedKey apiSecret =
      (decryptKeyV0 P encryptedKey apiSecret).mapError .error := by
  unfold decryptLegacyKey decryptKeyV0
  split
  next => rfl
  next hlen =>
    have htwelve : (encryptedKey.take 12).length = 12 := by
      rw [List.length_take]
      omega
    have hrest : (encryptedKey.drop 12).take (encryptedKey.length - 12) = encryptedKey.drop 12 :=
      List.take_of_length_le (by simp)
    rw [sliceRange_take (by omega) (by omega), sliceRange_take (by omega) le_rfl, hrest, ok_bind,
      ok_bind, List.drop_zero, Nat.sub_zero, nonceFromSlice, if_pos htwelve, ok_bind]
    cases P.aead.decrypt (P.sha256 apiSecret).toList (encryptedKey.take 12)
      (encryptedKey.drop 12) <;> rfl

theorem openEnvelopeV1_eq (P : Primitives) (masterKey : Digest) (h : 29 ≤ encryptedKey.length) :
    openEnvelopeV1 P masterKey encryptedKey =
      .ok (P.aead.decrypt masterKey.toList ((encryptedKey.drop 1).take 12)
        (encryptedKey.drop 13)) := by
  have htwelve : ((encryptedKey.drop 1).take 12).length = 12 := by
    rw [List.length_take, List.length_drop]
    omega
  have hrest : (encryptedKey.drop 13).take (encryptedKey.length - 13) = encryptedKey.drop 13 :=
    List.take_of_length_le (by simp)
  unfold openEnvelopeV1
  rw [sliceRange_take (by omega) (by omega), sliceRange_take (by omega) le_rfl, hrest, ok_bind,
    nonceFromSlice, if_pos htwelve, ok_bind, ok_bind, pure_eq_ok]

/-- Whatever was cached before, a call answers as one without a cache and without a slice that
could fail. -/
theorem decryptKeyCached_eq (hblake : Set.InjOn (fun s => P.blake3 (utf8 s)) secrets)
    (hcache : cache.Faithful P secrets) (hs : apiSecret ∈ secrets) (encryptedKey : Bytes) :
    (decryptKeyCached P cache encryptedKey apiSecret).1 =
        (decryptKey P encryptedKey apiSecret).mapError .error ∧
      (decryptKeyCached P cache encryptedKey apiSecret).2.Faithful P secrets := by
  obtain ⟨hkey, hnext⟩ := cachedMasterKeyV1_eq hblake hcache hs
  unfold decryptKeyCached decryptKey
  split
  next => exact ⟨rfl, hcache⟩
  next =>
    split
    next hv1 =>
      simp only [hkey, openEnvelopeV1_eq P _ hv1.1]
      cases P.aead.decrypt (P.keywrapMasterKeyV1 apiSecret).toList ((encryptedKey.drop 1).take 12)
        (encryptedKey.drop 13) with
      | some decrypted => exact ⟨rfl, hnext⟩
      | none => exact ⟨decryptLegacyKey_eq P encryptedKey apiSecret, hnext⟩
    next => exact ⟨decryptLegacyKey_eq P encryptedKey apiSecret, hcache⟩

theorem encryptKeyCached_eq (hblake : Set.InjOn (fun s => P.blake3 (utf8 s)) secrets)
    (hcache : cache.Faithful P secrets) (hs : apiSecret ∈ secrets) (key : Digest)
    (nonce : WrapNonce) :
    (encryptKeyCached P cache key apiSecret nonce).1 =
        (encryptKey P key.toList apiSecret nonce.toList).mapError .error ∧
      (encryptKeyCached P cache key apiSecret nonce).2.Faithful P secrets := by
  obtain ⟨hkey, hnext⟩ := cachedMasterKeyV1_eq hblake hcache hs
  unfold encryptKeyCached encryptKey
  simp only [hkey]
  cases P.aead.encrypt (P.keywrapMasterKeyV1 apiSecret).toList nonce.toList key.toList <;>
    exact ⟨rfl, hnext⟩

theorem cacheAfter_faithful (hblake : Set.InjOn (fun s => P.blake3 (utf8 s)) secrets)
    {calls : List KeyCall} (hcalls : ∀ call ∈ calls, call.secret ∈ secrets)
    (hcache : cache.Faithful P secrets) : (cacheAfter P cache calls).Faithful P secrets := by
  induction calls generalizing cache with
  | nil => exact hcache
  | cons call calls ih =>
    have hs := hcalls call (by simp)
    have hrest := fun c hc => hcalls c (List.mem_cons_of_mem call hc)
    cases call with
    | encrypt key apiSecret nonce => exact ih hrest (encryptKeyCached_eq hblake hcache hs key nonce).2
    | decrypt encryptedKey apiSecret =>
      exact ih hrest (decryptKeyCached_eq hblake hcache hs encryptedKey).2

theorem WrappedKey.length_ciphertext {ciphertext : Bytes} (h : w.ciphertext P = some ciphertext) :
    ciphertext.length = 48 := by
  have hlen := P.aead.encrypt_length _ _ _ _ h
  rw [List.Vector.toList_length] at hlen
  exact hlen

/-- What opens of a value under the master keys of a secret was wrapped with that key, and is the
key that was wrapped. -/
theorem NothingForged.opened {value opened : Bytes} (h : NothingForged P wraps apiSecret value)
    (envelope : Envelope) (start : Nat) (hstart : start < value.length)
    (hopened : P.aead.decrypt (envelope.masterKey P apiSecret).toList ((value.drop start).take 12)
      (value.drop (start + 12)) = some opened) :
    ∃ w ∈ wraps, w.masterKey P = envelope.masterKey P apiSecret ∧
      w.nonce.toList = (value.drop start).take 12 ∧
      w.ciphertext P = some (value.drop (start + 12)) ∧ w.key.toList = opened ∧
      value.length = start + 60 := by
  obtain ⟨w, hw, hmaster, hnonce, hcipher⟩ := h envelope start hstart (by rw [hopened]; rfl)
  have hlen := WrappedKey.length_ciphertext hcipher
  rw [List.length_drop] at hlen
  have hkey := P.aead.decrypt_encrypt _ _ _ _ hcipher
  rw [hmaster, hnonce, hopened] at hkey
  exact ⟨w, hw, hmaster, hnonce, hcipher, (Option.some.inj hkey).symm, by omega⟩

/-- The two ways in which a value that is no raw key opens. -/
theorem decryptKey_opened {value opened : Bytes} (hraw : value.length ≠ 32)
    (h : decryptKey P value apiSecret = .ok opened) :
    (29 ≤ value.length ∧ value.head? = some 1 ∧
        P.aead.decrypt (Envelope.v1.masterKey P apiSecret).toList ((value.drop 1).take 12)
          (value.drop 13) = some opened) ∨
      (12 ≤ value.length ∧
        P.aead.decrypt (Envelope.v0.masterKey P apiSecret).toList ((value.drop 0).take 12)
          (value.drop 12) = some opened) := by
  have hlegacy : decryptKeyV0 P value apiSecret = .ok opened → 12 ≤ value.length ∧
      P.aead.decrypt (Envelope.v0.masterKey P apiSecret).toList ((value.drop 0).take 12)
        (value.drop 12) = some opened := by
    intro hv0
    unfold decryptKeyV0 at hv0
    split at hv0
    next => simp at hv0
    next hlen =>
      split at hv0
      next => simp at hv0
      next hsome =>
        cases Except.ok.inj hv0
        exact ⟨by omega, hsome⟩
  unfold decryptKey at h
  rw [if_neg hraw] at h
  split at h
  next hv1 =>
    split at h
    next hsome =>
      cases Except.ok.inj h
      exact Or.inl ⟨hv1.1, hv1.2, hsome⟩
    next => exact Or.inr (hlegacy h)
  next => exact Or.inr (hlegacy h)

/-- A legacy value opens, whatever its nonce begins with: an envelope of version 1 would be a byte
longer. -/
theorem decryptKey_legacy {value : Bytes} (hlegacy : w.envelope = .v0)
    (hvalue : w.value P = some value) (hforged : NothingForged P wraps w.apiSecret value) :
    decryptKey P value w.apiSecret = .ok w.key.toList := by
  obtain ⟨ciphertext, hcipher, rfl⟩ := Option.map_eq_some_iff.mp hvalue
  simp only [hlegacy] at hforged ⊢
  have hlen := WrappedKey.length_ciphertext hcipher
  have hnonce : w.nonce.toList.length = 12 := w.nonce.toList_length
  have htotal : (w.nonce.toList ++ ciphertext).length = 60 := by
    rw [List.length_append]
    omega
  have hkey := P.aead.decrypt_encrypt _ _ _ _ hcipher
  have hmaster : w.masterKey P = P.sha256 w.apiSecret := by
    rw [WrappedKey.masterKey, hlegacy]
    rfl
  have hv0 : decryptKeyV0 P (w.nonce.toList ++ ciphertext) w.apiSecret = .ok w.key.toList := by
    unfold decryptKeyV0
    rw [if_neg (by omega), List.take_left' hnonce, List.drop_left' hnonce, ← hmaster, hkey]
  unfold decryptKey
  rw [if_neg (by omega)]
  split
  next =>
    split
    next opened hopened =>
      obtain ⟨_, _, _, _, _, _, hother⟩ := hforged.opened .v1 1 (by omega) hopened
      omega
    next => exact hv0
  next => exact hv0

/-- A wrapped value opens only under a secret that it was wrapped under, to the key that was
wrapped. -/
theorem decryptKey_wrapped {value opened : Bytes} (hvalue : w.value P = some value)
    (hforged : NothingForged P wraps apiSecret value) (hapart : DerivesApart P wraps apiSecret)
    (h : decryptKey P value apiSecret = .ok opened) :
    ∃ u ∈ wraps, u.apiSecret = apiSecret ∧ u.value P = some value ∧ u.key.toList = opened := by
  have hraw : value.length ≠ 32 := by
    obtain ⟨ciphertext, hcipher, rfl⟩ := Option.map_eq_some_iff.mp hvalue
    have hlen := WrappedKey.length_ciphertext hcipher
    have hnonce : w.nonce.toList.length = 12 := w.nonce.toList_length
    cases w.envelope <;> simp only [List.length_cons, List.length_append] <;> omega
  rcases decryptKey_opened hraw h with ⟨hlen, hhead, hopened⟩ | ⟨hlen, hopened⟩
  · obtain ⟨u, hu, hmaster, hnonce, hcipher, hkey, _⟩ := hforged.opened .v1 1 (by omega) hopened
    obtain ⟨henvelope, hsecret⟩ := hapart u hu _ hmaster
    refine ⟨u, hu, hsecret, ?_, hkey⟩
    obtain ⟨rest, rfl⟩ : ∃ rest, value = 1 :: rest := List.head?_eq_some_iff.mp hhead
    simp only [WrappedKey.value, hcipher, henvelope, Option.map_some, hnonce]
    exact congrArg (fun tail => some (1 :: tail)) (List.take_append_drop 12 rest)
  · obtain ⟨u, hu, hmaster, hnonce, hcipher, hkey, _⟩ := hforged.opened .v0 0 (by omega) hopened
    obtain ⟨henvelope, hsecret⟩ := hapart u hu _ hmaster
    refine ⟨u, hu, hsecret, ?_, hkey⟩
    simp only [WrappedKey.value, hcipher, henvelope, Option.map_some, hnonce]
    exact congrArg some (List.take_append_drop 12 value)

/-- Values agree only for the same envelope and nonce. -/
theorem WrappedKey.nonce_of_value {u : WrappedKey} {value : Bytes} (hw : w.value P = some value)
    (hu : u.value P = some value) : w.nonce = u.nonce := by
  obtain ⟨c, hc, rfl⟩ := Option.map_eq_some_iff.mp hw
  obtain ⟨d, hd, heq⟩ := Option.map_eq_some_iff.mp hu
  have hclen := WrappedKey.length_ciphertext hc
  have hdlen := WrappedKey.length_ciphertext hd
  have hnonces : u.nonce.toList.length = w.nonce.toList.length := by simp
  have hlens := congrArg List.length heq
  cases hwe : w.envelope <;> cases hue : u.envelope <;>
    simp only [hwe, hue, List.length_cons, List.length_append] at heq hlens
  · exact List.Vector.toList_injective (List.append_inj_left heq hnonces).symm
  · omega
  · omega
  · exact List.Vector.toList_injective (List.append_inj_left (List.cons.inj heq).2 hnonces).symm

/-- The legacy derivation beside the other, told apart by a first byte. -/
noncomputable def markedPrimitives : Primitives :=
  { referencePrimitives with sha256 := fun s => referenceHash (0 :: utf8 s) }

def legacyWrap : WrappedKey :=
  ⟨.v0, "old", List.Vector.replicate 32 7, List.Vector.replicate 12 1⟩

def newWrap : WrappedKey :=
  ⟨.v1, "new", List.Vector.replicate 32 8, List.Vector.replicate 12 2⟩

end Reminisce

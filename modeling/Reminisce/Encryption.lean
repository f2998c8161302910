import Reminisce.Primitives

namespace Reminisce

def keySize : Nat := 32

def nonceSize : Nat := 12

/-- The nonce is bound to the key, the caller's context and the plaintext itself. -/
def encryptionNonce (P : Primitives) (data key nonceContext : Bytes) : Bytes :=
  (P.blake3 (key ++ nonceContext ++ (P.blake3 data).toList)).toList.take nonceSize

def encrypt (P : Primitives) (data key nonceContext : Bytes) : Except Np2pError Bytes :=
  if key.length ≠ keySize then
    .error (.crypto s!"Invalid key size: expected {keySize}, got {key.length}")
  else
    match P.aead.encrypt key (encryptionNonce P data key nonceContext) data with
    | none => .error (.crypto "Encryption failed: aead::Error")
    | some ciphertext => .ok (encryptionNonce P data key nonceContext ++ ciphertext)

def decrypt (P : Primitives) (encrypted key : Bytes) : Except Np2pError Bytes :=
  if key.length ≠ keySize then
    .error (.crypto s!"Invalid key size: expected {keySize}, got {key.length}")
  else if encrypted.length < nonceSize then
    .error (.crypto "Encrypted data too short to contain a nonce")
  else
    match P.aead.decrypt key (encrypted.take nonceSize) (encrypted.drop nonceSize) with
    | none => .error (.crypto
        "Decryption failed (likely invalid key or corrupted data): aead::Error")
    | some plaintext => .ok plaintext

variable {P : Primitives} {data key ctx enc : Bytes}

@[simp] theorem length_encryptionNonce : (encryptionNonce P data key ctx).length = nonceSize := by
  simp [encryptionNonce, nonceSize]

theorem encrypt_ok (h : encrypt P data key ctx = .ok enc) :
    key.length = keySize ∧ ∃ ciphertext,
      P.aead.encrypt key (encryptionNonce P data key ctx) data = some ciphertext ∧
      enc = encryptionNonce P data key ctx ++ ciphertext := by
  unfold encrypt at h
  split at h
  next => simp at h
  next hk =>
    split at h
    next => simp at h
    next c hc =>
      cases Except.ok.inj h
      exact ⟨by simpa using hk, c, hc, rfl⟩

theorem encrypt_exists (P : Primitives) (ctx : Bytes) (hk : key.length = keySize)
    (hd : data.length < 2 ^ 38 - 64) :
    ∃ enc, encrypt P data key ctx = .ok enc := by
  obtain ⟨c, hc⟩ := P.aead.encrypt_total key (encryptionNonce P data key ctx) data hd
  exact ⟨encryptionNonce P data key ctx ++ c, by simp [encrypt, hk, hc]⟩

/-- Twelve bytes of nonce and sixteen of tag are added. -/
theorem length_encrypt (h : encrypt P data key ctx = .ok enc) :
    enc.length = data.length + 28 := by
  obtain ⟨_, c, hc, rfl⟩ := encrypt_ok h
  have := P.aead.encrypt_length _ _ _ _ hc
  simp only [List.length_append, length_encryptionNonce, nonceSize]
  omega

theorem decrypt_encrypt (h : encrypt P data key ctx = .ok enc) :
    decrypt P enc key = .ok data := by
  obtain ⟨hk, c, hc, rfl⟩ := encrypt_ok h
  have hlen : ¬(encryptionNonce P data key ctx ++ c).length < nonceSize := by simp
  have ht : (encryptionNonce P data key ctx ++ c).take nonceSize =
      encryptionNonce P data key ctx := List.take_left' length_encryptionNonce
  have hd : (encryptionNonce P data key ctx ++ c).drop nonceSize = c :=
    List.drop_left' length_encryptionNonce
  simp only [decrypt, hk, hlen, ht, hd, P.aead.decrypt_encrypt _ _ _ _ hc, ne_eq,
    not_true_eq_false, if_false]

/-- What decrypts is a nonce followed by the encryption of the result under it. -/
theorem decrypt_ok (h : decrypt P enc key = .ok data) :
    nonceSize ≤ enc.length ∧
      P.aead.encrypt key (enc.take nonceSize) data = some (enc.drop nonceSize) := by
  unfold decrypt at h
  split at h
  next => simp at h
  next =>
    split at h
    next => simp at h
    next hlen =>
      split at h
      next => simp at h
      next p hp =>
        cases Except.ok.inj h
        exact ⟨by omega, P.aead.encrypt_decrypt _ _ _ _ hp⟩

/-- Two ciphertexts with one nonce and one plaintext are equal. -/
theorem decrypt_unique {other : Bytes} (h : decrypt P enc key = .ok data)
    (ho : decrypt P other key = .ok data) (hn : enc.take nonceSize = other.take nonceSize) :
    enc = other := by
  have ha := (decrypt_ok h).2
  have hb := (decrypt_ok ho).2
  rw [hn, hb] at ha
  have hd := Option.some.inj ha
  rw [← List.take_append_drop nonceSize enc, ← List.take_append_drop nonceSize other, hn, hd]

theorem length_decrypt (h : decrypt P enc key = .ok data) : enc.length = data.length + 28 := by
  obtain ⟨hn, he⟩ := decrypt_ok h
  have hl := P.aead.encrypt_length _ _ _ _ he
  simp only [List.length_drop] at hl
  simp only [nonceSize] at *
  omega

/-- Envelope v1 with the random nonce given. -/
def encryptKey (P : Primitives) (key : Bytes) (apiSecret : String) (nonce : Bytes) :
    Except String Bytes :=
  match P.aead.encrypt (P.keywrapMasterKeyV1 apiSecret).toList nonce key with
  | none => .error "Encryption failed: aead::Error"
  | some ciphertext => .ok (1 :: (nonce ++ ciphertext))

def decryptKeyV0 (P : Primitives) (encryptedKey : Bytes) (apiSecret : String) :
    Except String Bytes :=
  if encryptedKey.length < 12 then .error "Encrypted key is too short"
  else
    match P.aead.decrypt (P.sha256 apiSecret).toList (encryptedKey.take 12)
      (encryptedKey.drop 12) with
    | none => .error "Decryption failed: aead::Error"
    | some decrypted => .ok decrypted

def decryptKey (P : Primitives) (encryptedKey : Bytes) (apiSecret : String) :
    Except String Bytes :=
  if encryptedKey.length = 32 then .ok encryptedKey
  else if 29 ≤ encryptedKey.length ∧ encryptedKey.head? = some 1 then
    match P.aead.decrypt (P.keywrapMasterKeyV1 apiSecret).toList
      ((encryptedKey.drop 1).take 12) (encryptedKey.drop 13) with
    | some decrypted => .ok decrypted
    | none => decryptKeyV0 P encryptedKey apiSecret
  else decryptKeyV0 P encryptedKey apiSecret

theorem decryptKey_encryptKey {P : Primitives} {key nonce wrapped : Bytes} {apiSecret : String}
    (hk : key.length = keySize) (hn : nonce.length = nonceSize)
    (h : encryptKey P key apiSecret nonce = .ok wrapped) :
    decryptKey P wrapped apiSecret = .ok key := by
  unfold encryptKey at h
  split at h
  next => simp at h
  next c hc =>
    cases Except.ok.inj h
    have hcl := P.aead.encrypt_length _ _ _ _ hc
    simp only [keySize, nonceSize] at hk hn
    have hlen : (1 :: (nonce ++ c)).length = 61 := by
      simp only [List.length_cons, List.length_append]
      omega
    have hnonce : ((1 :: (nonce ++ c)).drop 1).take 12 = nonce := by
      simpa using List.take_left' hn
    have hct : (1 :: (nonce ++ c)).drop 13 = c := by
      simpa using List.drop_left' hn
    simp only [decryptKey, hlen, hnonce, hct, P.aead.decrypt_encrypt _ _ _ _ hc]
    simp

end Reminisce

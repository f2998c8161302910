import Reminisce.DbSnapshot
import Reminisce.Identity
import Reminisce.ReferencePrimitives

namespace Reminisce

open Results

/-- The settings that select the P2P identity. -/
structure IdentityConfig extends Config where
  p2pDeterministicIdentity : Bool
  p2pIdentityKdf : Option String
  deriving DecidableEq, Repr

/-- `<p2p_data_dir>/node.key`. -/
inductive KeyFile
  | absent
  | unreadable
  | holds (bytes : Bytes)
  deriving DecidableEq, Repr

/-- The hash functions behind the derived identities; the cost parameters of Argon2id are
constants of the program. -/
structure KeyDerivation where
  blake3 : Bytes → Digest
  argon2id : (password salt : Bytes) → Digest

/-- The signing key of an identity. -/
abbrev SigningKey := Digest

variable (K : KeyDerivation)

def fromSecret (secret : String) : SigningKey :=
  K.blake3 (utf8 ("reminisce-p2p-identity:" ++ secret))

def fromSecretHardened (secret : String) : SigningKey :=
  K.argon2id (utf8 secret) (utf8 "reminisce-p2p-identity-v2")

def fromSecretBytes (bytes : Bytes) : Except Np2pError SigningKey :=
  if h : bytes.length = 32 then .ok ⟨bytes, h⟩
  else .error (.identity s!"Invalid secret key size: expected 32, got {bytes.length}")

/-- The derivation that the settings choose. -/
def derivedIdentity (kdf : Option String) (secret : String) : SigningKey :=
  if kdf = some "argon2id" then fromSecretHardened K secret else fromSecret K secret

/-- The identity selection at the start of the server, with the file it leaves behind; `none`
is a start that panics. -/
def selectIdentity (config : IdentityConfig) (file : KeyFile) (writes : Bool)
    (generated : SigningKey) : Option (SigningKey × KeyFile) :=
  if config.p2pDeterministicIdentity then
    match config.getApiKey with
    | .error _ => none
    | .ok secret =>
      let identity := derivedIdentity K config.p2pIdentityKdf secret
      match file with
      | .absent => if writes then some (identity, .holds identity.toList) else none
      | _ => some (identity, file)
  else
    match file with
    | .unreadable => none
    | .holds bytes =>
      match fromSecretBytes bytes with
      | .ok identity => some (identity, file)
      | .error _ => none
    | .absent => if writes then some (generated, .holds generated.toList) else none

/-- `load_identity` of the disaster-recovery tool. -/
def loadIdentity (file : KeyFile) (apiSecret : String) : Except String SigningKey :=
  match file with
  | .unreadable => .error "cannot read P2P identity"
  | .holds bytes => (fromSecretBytes bytes).mapError (·.text)
  | .absent => .ok (fromSecret K apiSecret)

/-- The identity with which the tool works, from the disk it is run on. -/
def recoveredIdentity (config : IdentityConfig) (disk : KeyFile) : Except String SigningKey := do
  let apiSecret ← config.getApiKey
  loadIdentity K disk apiSecret

/-- The disk at recovery: as the server left it, or lost. -/
def diskAtRecovery (lost : Bool) (left : KeyFile) : KeyFile := if lost then .absent else left

/-- The tool can find the key that the server selects: a kept file was written by the
selection or read by it, or holds the derived key; without the file the key is the fast hash
of the secret. -/
def KeyRecoverable (config : IdentityConfig) (secret : String) (file : KeyFile)
    (generated : SigningKey) (lost : Bool) : Prop :=
  if config.p2pDeterministicIdentity then
    if lost then
      config.p2pIdentityKdf = some "argon2id" → fromSecretHardened K secret = fromSecret K secret
    else
      file = .absent ∨ file = .holds (derivedIdentity K config.p2pIdentityKdf secret).toList
  else
    lost = true → match file with
      | .absent => generated = fromSecret K secret
      | .unreadable => False
      | .holds bytes => bytes = (fromSecret K secret).toList

variable {K}

theorem fromSecretBytes_toList (key : SigningKey) : fromSecretBytes key.toList = .ok key := by
  have hlen := key.toList_length
  unfold fromSecretBytes
  rw [dif_pos hlen]
  rfl

theorem fromSecretBytes_ok {bytes : Bytes} {key : SigningKey}
    (h : fromSecretBytes bytes = .ok key) : bytes = key.toList := by
  unfold fromSecretBytes at h
  split at h
  next =>
    cases Except.ok.inj h
    rfl
  next => simp at h

theorem fromSecretBytes_iff {bytes : Bytes} {key : SigningKey} :
    fromSecretBytes bytes = .ok key ↔ bytes = key.toList := by
  constructor
  · exact fromSecretBytes_ok
  · rintro rfl
    exact fromSecretBytes_toList key

/-- What the tool reads from a file is the server's key exactly when the file holds it. -/
theorem loadIdentity_iff {file : KeyFile} {secret : String} {key : SigningKey} :
    loadIdentity K file secret = .ok key ↔
      (file = .absent ∧ key = fromSecret K secret) ∨ file = .holds key.toList := by
  cases file with
  | absent =>
    simp only [loadIdentity, Except.ok.injEq, true_and, reduceCtorEq, or_false]
    exact eq_comm
  | unreadable => simp [loadIdentity]
  | holds bytes =>
    simp only [loadIdentity, reduceCtorEq, false_and, false_or, KeyFile.holds.injEq]
    constructor
    · intro h
      exact fromSecretBytes_ok (mapError_ok h)
    · intro h
      rw [fromSecretBytes_iff.mpr h, mapError_ok_eq]

/-- What a start of the server selects, and the file afterwards. -/
theorem selectIdentity_cases {config : IdentityConfig} {secret : String} {file left : KeyFile}
    {writes : Bool} {generated identity : SigningKey} (hkey : config.getApiKey = .ok secret)
    (h : selectIdentity K config file writes generated = some (identity, left)) :
    (config.p2pDeterministicIdentity = true ∧
      identity = derivedIdentity K config.p2pIdentityKdf secret ∧
      left = if file = .absent then .holds identity.toList else file) ∨
    (config.p2pDeterministicIdentity = false ∧ left = .holds identity.toList ∧
      (file = .absent ∧ identity = generated ∨ file = .holds identity.toList)) := by
  unfold selectIdentity at h
  split at h
  next hdet =>
    left
    rw [hkey] at h
    simp only at h
    split at h
    next =>
      split at h
      next =>
        obtain ⟨rfl, rfl⟩ := Prod.mk.inj (Option.some.inj h)
        exact ⟨hdet, rfl, by simp⟩
      next => simp at h
    next hpresent =>
      obtain ⟨rfl, rfl⟩ := Prod.mk.inj (Option.some.inj h)
      exact ⟨hdet, rfl, by rw [if_neg hpresent]⟩
  next hdet =>
    right
    refine ⟨by simpa using hdet, ?_⟩
    split at h
    next => simp at h
    next bytes =>
      split at h
      next key hread =>
        obtain ⟨rfl, rfl⟩ := Prod.mk.inj (Option.some.inj h)
        have hbytes := fromSecretBytes_ok hread
        rw [hbytes]
        exact ⟨rfl, Or.inr rfl⟩
      next => simp at h
    next =>
      split at h
      next =>
        obtain ⟨rfl, rfl⟩ := Prod.mk.inj (Option.some.inj h)
        exact ⟨rfl, Or.inl ⟨rfl, rfl⟩⟩
      next => simp at h

/-- The tool works under the identity the server selected exactly when the key can be found
again on the disk at recovery. -/
theorem recovered_identity_iff {config : IdentityConfig} {secret : String} {file left : KeyFile}
    {writes : Bool} {generated identity : SigningKey} (hkey : config.getApiKey = .ok secret)
    (hstart : selectIdentity K config file writes generated = some (identity, left))
    (lost : Bool) : recoveredIdentity K config (diskAtRecovery lost left) = .ok identity ↔
      KeyRecoverable K config secret file generated lost := by
  unfold recoveredIdentity KeyRecoverable
  rw [hkey, ok_bind, loadIdentity_iff]
  rcases selectIdentity_cases hkey hstart with ⟨hdet, rfl, rfl⟩ | ⟨hdet, rfl, hfile⟩
  · rw [if_pos hdet]
    cases lost with
    | true =>
      simp only [diskAtRecovery, if_true, true_and, reduceCtorEq, or_false, derivedIdentity]
      by_cases hkdf : config.p2pIdentityKdf = some "argon2id"
      · simp [hkdf]
      · simp [hkdf]
    | false =>
      simp only [diskAtRecovery, Bool.false_eq_true, if_false]
      by_cases habsent : file = .absent
      · simp [habsent]
      · simp [habsent]
  · have hfalse : ¬ config.p2pDeterministicIdentity = true := by simp [hdet]
    rw [if_neg hfalse]
    cases lost with
    | true =>
      simp only [diskAtRecovery, if_true, true_and, reduceCtorEq, or_false, true_implies]
      rcases hfile with ⟨rfl, rfl⟩ | rfl
      · exact Iff.rfl
      · exact ⟨congrArg List.Vector.toList, fun h => List.Vector.toList_injective h⟩
    | false => simp [diskAtRecovery]

/-- Reference hashes with the interface of the real ones. -/
def referenceDerivation : KeyDerivation where
  blake3 := referenceHash
  argon2id password salt := referenceHash (salt ++ password)

def hardenedConfig : IdentityConfig :=
  { apiSecretKey := some "secret", p2pDataShards := 3, p2pParityShards := 2
    p2pDeterministicIdentity := true, p2pIdentityKdf := some "argon2id" }

theorem recovered_identity_kept_file : ∃ identity left,
    selectIdentity referenceDerivation hardenedConfig .absent true (referenceHash []) =
      some (identity, left) ∧
    recoveredIdentity referenceDerivation hardenedConfig (diskAtRecovery false left) =
      .ok identity := by
  have hkey : hardenedConfig.getApiKey = .ok "secret" := rfl
  have hstart : selectIdentity referenceDerivation hardenedConfig .absent true (referenceHash []) =
      some (derivedIdentity referenceDerivation (some "argon2id") "secret", _) := rfl
  exact ⟨_, _, hstart, (recovered_identity_iff hkey hstart false).mpr (Or.inl rfl)⟩

/-- A server with an Argon2id identity loses its disk: the tool derives another identity. -/
theorem hardened_identity_not_rederived : ∃ identity left,
    selectIdentity referenceDerivation hardenedConfig .absent true (referenceHash []) =
      some (identity, left) ∧
    recoveredIdentity referenceDerivation hardenedConfig (diskAtRecovery true left) ≠
      .ok identity := by
  refine ⟨derivedIdentity referenceDerivation (some "argon2id") "secret", _, rfl, ?_⟩
  decide +kernel

end Reminisce

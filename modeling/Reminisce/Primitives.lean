import Mathlib.Data.Vector.Basic
import Mathlib.Data.Vector.Zip
import Reminisce.Library.Hex

namespace Reminisce

abbrev Bytes := List UInt8

/-- A BLAKE3 output, the `[u8; 32]` of the source. -/
abbrev Digest := List.Vector UInt8 32

/-- `Hash::to_hex`: 64 lower-case digits. -/
def toHex (h : Digest) : List Char := Hex.encode h.toList

theorem toHex_injective : Function.Injective toHex := by
  intro a b h
  exact List.Vector.toList_injective (Hex.encode_injective h)

@[simp] theorem length_toHex (h : Digest) : (toHex h).length = 64 := by
  simp [toHex]

inductive Np2pError
  | io (message : String)
  | crypto (message : String)
  | serialization (message : String)
  | network (message : String)
  | protocol (message : String)
  | erasureCoding (message : String)
  | identity (message : String)
  | storage (message : String)
  | unknownMessage (message : String)
  deriving DecidableEq, Repr

/-- The texts of `np2p/src/error.rs`. -/
def Np2pError.text : Np2pError → String
  | .io m => s!"IO error: {m}"
  | .crypto m => s!"Crypto error: {m}"
  | .serialization m => s!"Serialization error: {m}"
  | .network m => s!"Network error: {m}"
  | .protocol m => s!"Protocol error: {m}"
  | .erasureCoding m => s!"Erasure coding error: {m}"
  | .identity m => s!"Identity error: {m}"
  | .storage m => s!"Storage error: {m}"
  | .unknownMessage m => s!"Unknown protocol message from remote: {m}"

/-- ChaCha20-Poly1305 as the crate documents it: a 16-byte tag, decryption inverting
encryption under the same key and nonce, and nothing else decrypting. -/
structure Aead where
  encrypt : (key nonce plaintext : Bytes) → Option Bytes
  decrypt : (key nonce ciphertext : Bytes) → Option Bytes
  encrypt_total : ∀ key nonce plaintext, plaintext.length < 2 ^ 38 - 64 →
    ∃ ciphertext, encrypt key nonce plaintext = some ciphertext
  encrypt_length : ∀ key nonce plaintext ciphertext,
    encrypt key nonce plaintext = some ciphertext → ciphertext.length = plaintext.length + 16
  decrypt_encrypt : ∀ key nonce plaintext ciphertext,
    encrypt key nonce plaintext = some ciphertext →
      decrypt key nonce ciphertext = some plaintext
  encrypt_decrypt : ∀ key nonce plaintext ciphertext,
    decrypt key nonce ciphertext = some plaintext →
      encrypt key nonce plaintext = some ciphertext

/-- The byte at row `j` and column `i` of a list of shards. -/
def cell (shards : List Bytes) (j i : Nat) : Option UInt8 := (shards[j]?.getD [])[i]?

/-- `reed_solomon_erasure::galois_8::ReedSolomon` as the crate documents it: systematic,
computed column by column, maximum distance separable, and leaving a complete set of
equally long shards alone. -/
structure ReedSolomon where
  new : (dataShards parityShards : Nat) → Except String Unit
  encode : (dataShards parityShards : Nat) → List Bytes → Except String (List Bytes)
  reconstruct : (dataShards parityShards : Nat) → List (Option Bytes) →
    Except String (List (Option Bytes))
  new_ok : ∀ k m, new k m = .ok () ↔ 0 < k ∧ 0 < m ∧ k + m ≤ 256
  encode_systematic : ∀ k m len (shards : List Bytes), new k m = .ok () → shards.length = k + m → 0 < len →
    (∀ s ∈ shards, s.length = len) → ∃ parity, encode k m shards = .ok (shards.take k ++ parity) ∧
      parity.length = m ∧ ∀ p ∈ parity, p.length = len
  encode_column : ∀ k m a b fullA fullB i, encode k m a = .ok fullA → encode k m b = .ok fullB →
    (∀ r < k, cell a r i = cell b r i) → ∀ j < k + m, cell fullA j i = cell fullB j i
  reconstruct_mds : ∀ k m shards full (got : List (Option Bytes)), encode k m shards = .ok full →
    got.length = k + m → (∀ (j : Nat) s, got[j]? = some (some s) → full[j]? = some s) →
    k ≤ got.countP Option.isSome → reconstruct k m got = .ok (full.map some)
  reconstruct_present : ∀ k m len (shards : List Bytes), new k m = .ok () → shards.length = k + m → 0 < len →
    (∀ s ∈ shards, s.length = len) → reconstruct k m (shards.map some) = .ok (shards.map some)

/-- A `uuid::Uuid`, as its 128-bit number. -/
abbrev UserId := Nat

/-- The library code the program calls. Collision freedom is not part of it: a theorem
that needs it says on which byte strings. -/
structure Primitives where
  blake3 : Bytes → Digest
  aead : Aead
  rs : ReedSolomon
  keywrapMasterKeyV1 : String → Digest
  sha256 : String → Digest
  parseUuid : String → Option UserId

/-- `str::as_bytes`. -/
def utf8 (s : String) : Bytes := s.toUTF8.toList

end Reminisce

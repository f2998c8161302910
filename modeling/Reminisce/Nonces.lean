import Reminisce.RepairedBytes
import Reminisce.SnapshotMesh

namespace Reminisce

/-- The arguments of a call of `encrypt`. -/
structure EncryptCall where
  data : Bytes
  key : Digest
  nonceContext : Bytes
  deriving DecidableEq

namespace EncryptCall

def result (P : Primitives) (call : EncryptCall) : Except Np2pError Bytes :=
  encrypt P call.data call.key.toList call.nonceContext

def nonce (P : Primitives) (call : EncryptCall) : Bytes :=
  encryptionNonce P call.data call.key.toList call.nonceContext

/-- `StorageEngine::process_for_backup`, which makes the call. -/
def process (P : Primitives) (dataShards parityShards : Nat) (call : EncryptCall) :
    Except Np2pError (List Bytes × Nat) :=
  processForBackup P call.data call.key.toList call.nonceContext dataShards parityShards

/-- What the nonce is a part of the hash of. -/
def nonceInput (P : Primitives) (call : EncryptCall) : Bytes :=
  call.key.toList ++ call.nonceContext ++ (P.blake3 call.data).toList

end EncryptCall

/-- The call for a file that is encrypted as a whole. -/
def wholeCall (data : Bytes) (key : Digest) : EncryptCall := ⟨data, key, key.toList⟩

/-- The calls for the segments of a file, from an index on. -/
def segmentCalls (key : Digest) : Nat → List Bytes → List EncryptCall
  | _, [] => []
  | segIdx, segment :: rest =>
    ⟨segment, key, key.toList ++ toLeBytes32 segIdx⟩ :: segmentCalls key (segIdx + 1) rest

/-- The calls for a file that is uploaded. -/
def uploadCalls (data : Bytes) (key : Digest) : List EncryptCall :=
  if segmentThreshold < data.length then segmentCalls key 0 (readSegments segmentThreshold data)
  else [wholeCall data key]

def meshDigest (P : Primitives) (apiSecret : String) : Digest :=
  P.blake3 (utf8 s!"reminisce-db-manifest-mesh:{apiSecret}")

/-- What encrypts: uploads of media, repairs of their shards, migrations, snapshots of the database
and their manifests. -/
inductive BackupOp
  | replicate (data : Bytes) (key : Digest)
  | repair (segmentCount : Int) (data : Bytes) (key : Digest)
  | migrate (data : Bytes) (key : Digest)
  | backUpDatabase (dump : Bytes) (key : Digest)
  | publishManifest (json : Bytes) (apiSecret backupHash : String)
  deriving DecidableEq

def BackupOp.calls (P : Primitives) : BackupOp → List EncryptCall
  | .replicate data key => uploadCalls data key
  | .repair segmentCount data key =>
    if 1 < segmentCount then segmentCalls key 0 (readSegments segmentThreshold data)
    else [wholeCall data key]
  | .migrate data key => [wholeCall data key]
  | .backUpDatabase dump key => uploadCalls dump key
  | .publishManifest json apiSecret backupHash =>
    [⟨json, meshDigest P apiSecret, utf8 backupHash⟩]

/-- All calls of a run. -/
def runCalls (P : Primitives) (ops : List BackupOp) : List EncryptCall := ops.flatMap (·.calls P)

/-- The strings that a run hashes have different hashes, also of twelve bytes. -/
structure NoCollisions (P : Primitives) (calls : List EncryptCall) : Prop where
  content : Set.InjOn P.blake3 {b | ∃ call ∈ calls, b = call.data}
  nonces : Set.InjOn (fun b => (P.blake3 b).toList.take nonceSize)
    {b | ∃ call ∈ calls, b = call.nonceInput P}

variable {P : Primitives}

/-- The loops over segments make these calls. -/
theorem shardSegments_calls (key : Digest) (k m segIdx : Nat) (parts : List Bytes) :
    shardSegments P key.toList k m segIdx parts =
      (segmentCalls key segIdx parts).mapM (EncryptCall.process P k m) := by
  induction parts generalizing segIdx with
  | nil => rfl
  | cons segment rest ih =>
    rw [shardSegments, ih, segmentCalls, List.mapM_cons]
    rfl

theorem process_eq (k m : Nat) (call : EncryptCall) :
    call.process P k m = (call.result P).bind fun encrypted =>
      (shard P encrypted k m).bind fun shards => .ok (shards, encrypted.length) := rfl

theorem encryptForMesh_call (json : Bytes) (apiSecret backupHash : String) :
    ∀ call ∈ (BackupOp.publishManifest json apiSecret backupHash).calls P,
      encryptForMesh P json apiSecret (utf8 backupHash) =
        (call.result P).mapError Np2pError.text := by
  intro call hcall
  rw [List.mem_singleton.mp hcall]
  rfl

/-- Key and content hash have a fixed length, so that the context between them is determined. -/
theorem EncryptCall.nonceInput_inj {a b : EncryptCall} (h : a.nonceInput P = b.nonceInput P) :
    a.key = b.key ∧ a.nonceContext = b.nonceContext ∧ P.blake3 a.data = P.blake3 b.data := by
  obtain ⟨hfront, hhash⟩ := List.append_inj' h (by simp)
  obtain ⟨hkey, hctx⟩ := List.append_inj hfront (by simp)
  exact ⟨List.Vector.toList_injective hkey, hctx, List.Vector.toList_injective hhash⟩

theorem NoCollisions.same {calls : List EncryptCall} (h : NoCollisions P calls) {a b : EncryptCall}
    (ha : a ∈ calls) (hb : b ∈ calls) (hnonce : a.nonce P = b.nonce P) : a = b := by
  have hinput : a.nonceInput P = b.nonceInput P :=
    h.nonces ⟨a, ha, rfl⟩ ⟨b, hb, rfl⟩ hnonce
  obtain ⟨hkey, hctx, hhash⟩ := EncryptCall.nonceInput_inj hinput
  have hdata := h.content ⟨a, ha, rfl⟩ ⟨b, hb, rfl⟩ hhash
  obtain ⟨data, key, nonceContext⟩ := a
  obtain ⟨data', key', nonceContext'⟩ := b
  simp only at hkey hctx hdata
  rw [hkey, hctx, hdata]

/-- No run uses a nonce twice, repeated calls have the same ciphertext, and it decrypts. -/
theorem nonces_never_reused (ops : List BackupOp) (h : NoCollisions P (runCalls P ops)) :
    (∀ a ∈ runCalls P ops, ∀ b ∈ runCalls P ops, a.key = b.key → a.nonce P = b.nonce P →
        a.data = b.data ∧ a.nonceContext = b.nonceContext) ∧
      (∀ a ∈ runCalls P ops, ∀ b ∈ runCalls P ops, a.data = b.data → a.key = b.key →
        a.nonceContext = b.nonceContext → a.result P = b.result P) ∧
      ∀ data key nonceContext : Bytes, key.length = keySize → data.length < 2 ^ 38 - 64 →
        ∃ encrypted, encrypt P data key nonceContext = .ok encrypted ∧
          decrypt P encrypted key = .ok data := by
  refine ⟨fun a ha b hb _ hnonce => ?_, fun a _ b _ hdata hkey hctx => ?_,
    fun data key nonceContext hkey hdata => ?_⟩
  · cases h.same ha hb hnonce
    exact ⟨rfl, rfl⟩
  · rw [EncryptCall.result, hdata, hkey, hctx]
    rfl
  · obtain ⟨encrypted, hencrypted⟩ := encrypt_exists P nonceContext hkey hdata
    exact ⟨encrypted, hencrypted, decrypt_encrypt hencrypted⟩

/-- The bytes as the digits of a number modulo a prime, its low bytes first. -/
def mixHash (data : Bytes) : Digest :=
  ⟨(toBeBytes 32 (data.foldl (fun h b => (257 * h + b.toNat + 1) % (2 ^ 256 - 189)) 0)).reverse,
    (List.length_reverse).trans (length_toBeBytes _ _)⟩

noncomputable def mixPrimitives : Primitives :=
  { referencePrimitives with blake3 := mixHash }

def backupKey : Digest := List.Vector.replicate 32 66

/-- A file that is replicated and repaired, a snapshot under the same key, and its manifest. -/
def sharedKeyOps : List BackupOp :=
  [.replicate [1, 2, 3] backupKey, .repair 1 [1, 2, 3] backupKey, .repair 2 [1, 2, 3] backupKey,
    .backUpDatabase [4, 5] backupKey, .publishManifest [6] "secret" "backup-a"]

theorem nonces_never_reused_sample :
    (∀ a ∈ runCalls mixPrimitives sharedKeyOps, ∀ b ∈ runCalls mixPrimitives sharedKeyOps,
      a.key = b.key → a.nonce mixPrimitives = b.nonce mixPrimitives →
        a.data = b.data ∧ a.nonceContext = b.nonceContext) ∧
      (∀ a ∈ runCalls mixPrimitives sharedKeyOps, ∀ b ∈ runCalls mixPrimitives sharedKeyOps,
        a.data = b.data → a.key = b.key → a.nonceContext = b.nonceContext →
          a.result mixPrimitives = b.result mixPrimitives) ∧
      ∀ data key nonceContext : Bytes, key.length = keySize → data.length < 2 ^ 38 - 64 →
        ∃ encrypted, encrypt mixPrimitives data key nonceContext = .ok encrypted ∧
          decrypt mixPrimitives encrypted key = .ok data := by
  refine nonces_never_reused sharedKeyOps ⟨?_, ?_⟩
  · have hcontent : ∀ a ∈ runCalls mixPrimitives sharedKeyOps,
        ∀ b ∈ runCalls mixPrimitives sharedKeyOps,
          mixHash a.data = mixHash b.data → a.data = b.data := by decide +kernel
    rintro _ ⟨a, ha, rfl⟩ _ ⟨b, hb, rfl⟩ hhash
    exact hcontent a ha b hb hhash
  · have hnonces : ∀ a ∈ runCalls mixPrimitives sharedKeyOps,
        ∀ b ∈ runCalls mixPrimitives sharedKeyOps,
          (mixHash (a.nonceInput mixPrimitives)).toList.take nonceSize =
            (mixHash (b.nonceInput mixPrimitives)).toList.take nonceSize →
          a.nonceInput mixPrimitives = b.nonceInput mixPrimitives := by decide +kernel
    rintro _ ⟨a, ha, rfl⟩ _ ⟨b, hb, rfl⟩ hhash
    exact hnonces a ha b hb hhash

end Reminisce

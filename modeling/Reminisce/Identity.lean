import Reminisce.MachineInts
import Reminisce.Primitives

namespace Reminisce

/-- Ed25519 as the crate documents it: 64-byte signatures that verify for the message they
were made for. That they verify for no other message is assumed where it is used. -/
structure SigningScheme where
  publicKey : (signingKey : Digest) → Digest
  sign : (signingKey : Digest) → Bytes → Bytes
  verify : (verifyingKey : Digest) → (msg signature : Bytes) → Bool
  sign_length : ∀ key msg, (sign key msg).length = 64
  verify_sign : ∀ key msg, verify (publicKey key) msg (sign key msg) = true

inductive ShardOp
  | store
  | retrieve
  | delete
  | list
  deriving DecidableEq, Repr

def ShardOp.tag : ShardOp → UInt8
  | .store => 0x01
  | .retrieve => 0x02
  | .delete => 0x03
  | .list => 0x04

structure ShardToken where
  ownerNodeId : Digest
  timestamp : UInt64
  signature : Bytes

/-- The bytes under a token's signature: operation, shard hash and timestamp. -/
def tokenMessage (op : ShardOp) (shardHash : Digest) (timestamp : UInt64) : Bytes :=
  op.tag :: (shardHash.toList ++ toBeBytes 8 timestamp.toNat)

def createShardToken (S : SigningScheme) (key : Digest) (op : ShardOp) (shardHash : Digest)
    (now : UInt64) : ShardToken :=
  { ownerNodeId := S.publicKey key, timestamp := now
    signature := S.sign key (tokenMessage op shardHash now) }

def verifySignature (S : SigningScheme) (nodeId : Digest) (msg signature : Bytes) : Bool :=
  signature.length = 64 && S.verify nodeId msg signature

/-- `u64::abs_diff`. -/
def absDiff (a b : UInt64) : Nat := max a.toNat b.toNat - min a.toNat b.toNat

def verifyShardToken (S : SigningScheme) (token : ShardToken) (op : ShardOp) (shardHash : Digest)
    (allowedOwnerId : Option Digest) (now : UInt64) : Bool :=
  if allowedOwnerId.any (· ≠ token.ownerNodeId) then false
  else if 300 < absDiff now token.timestamp then false
  else verifySignature S token.ownerNodeId (tokenMessage op shardHash token.timestamp)
    token.signature

/-- The bytes under the signature of a discovery announcement. -/
def announcementMessage (nodeId : Digest) (quicPort : UInt16) (timestamp : UInt64) : Bytes :=
  nodeId.toList ++ (toBeBytes 2 quicPort.toNat ++ toBeBytes 8 timestamp.toNat)

theorem verifyShardToken_create (S : SigningScheme) (key : Digest) (op : ShardOp)
    (shardHash : Digest) (now : UInt64) :
    verifyShardToken S (createShardToken S key op shardHash now) op shardHash
      (some (S.publicKey key)) now = true := by
  simp [verifyShardToken, createShardToken, absDiff, verifySignature, S.sign_length,
    S.verify_sign]

@[simp] theorem length_tokenMessage (op : ShardOp) (shardHash : Digest) (timestamp : UInt64) :
    (tokenMessage op shardHash timestamp).length = 41 := by
  simp [tokenMessage]

@[simp] theorem length_announcementMessage (nodeId : Digest) (quicPort : UInt16)
    (timestamp : UInt64) : (announcementMessage nodeId quicPort timestamp).length = 42 := by
  simp [announcementMessage]

/-- The length and the first byte tell the token messages. -/
theorem exists_tokenMessage_iff (msg : Bytes) :
    (∃ op shardHash timestamp, msg = tokenMessage op shardHash timestamp) ↔
      msg.length = 41 ∧ ∃ op : ShardOp, msg.head? = some op.tag := by
  constructor
  · rintro ⟨op, shardHash, timestamp, rfl⟩
    exact ⟨by simp, op, rfl⟩
  · rintro ⟨hlen, op, hhead⟩
    cases msg with
    | nil => simp at hlen
    | cons b rest =>
      cases Option.some.inj hhead
      have hrest : rest.length = 40 := by simpa using hlen
      have hdrop : (rest.drop 32).length = 8 := by simp [hrest]
      obtain ⟨n, hn, heq⟩ := exists_toBeBytes (rest.drop 32)
      rw [hdrop] at hn heq
      refine ⟨op, ⟨rest.take 32, by simp [hrest]⟩, UInt64.ofNat n, ?_⟩
      have hback : (UInt64.ofNat n).toNat = n := by
        rw [UInt64.toNat_ofNat', Nat.mod_eq_of_lt (by omega)]
      unfold tokenMessage
      rw [hback, heq]
      simp [List.Vector.toList]

/-- The length and the first 32 bytes tell the announcements of a node. -/
theorem exists_announcementMessage_iff (nodeId : Digest) (msg : Bytes) :
    (∃ quicPort timestamp, msg = announcementMessage nodeId quicPort timestamp) ↔
      msg.length = 42 ∧ msg.take 32 = nodeId.toList := by
  constructor
  · rintro ⟨quicPort, timestamp, rfl⟩
    exact ⟨by simp, List.take_left' (by simp)⟩
  · rintro ⟨hlen, hid⟩
    have hport : ((msg.drop 32).take 2).length = 2 := by simp [hlen]
    have htime : ((msg.drop 32).drop 2).length = 8 := by simp [hlen]
    obtain ⟨n, hn, heq⟩ := exists_toBeBytes ((msg.drop 32).take 2)
    obtain ⟨t, ht, heq'⟩ := exists_toBeBytes ((msg.drop 32).drop 2)
    rw [hport] at hn heq
    rw [htime] at ht heq'
    refine ⟨UInt16.ofNat n, UInt64.ofNat t, ?_⟩
    have hback : (UInt16.ofNat n).toNat = n := by
      rw [UInt16.toNat_ofNat', Nat.mod_eq_of_lt (by omega)]
    have hback' : (UInt64.ofNat t).toNat = t := by
      rw [UInt64.toNat_ofNat', Nat.mod_eq_of_lt (by omega)]
    rw [announcementMessage, hback, hback', heq, heq', List.take_append_drop, ← hid,
      List.take_append_drop]

end Reminisce

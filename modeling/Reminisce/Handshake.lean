import Mathlib.Order.CompletePartialOrder
import Mathlib.Data.Set.Lattice
import Reminisce.Identity
import Reminisce.Library.Slices

namespace Reminisce

/-- The messages of the two registration handshakes; `other` is any other message. -/
inductive HandshakeMessage
  | tunnelRegister (nodeId : List Char)
  | tunnelChallenge (nonce : Bytes)
  | tunnelChallengeResponse (signature : Bytes)
  | tunnelAccepted
  | nodeChannelRegister (nodeId : List Char)
  | nodeChannelChallenge (nonce : Bytes)
  | nodeChannelChallengeResponse (signature : Bytes)
  | nodeChannelAccepted
  | error (code : Nat) (message : String)
  | other
  deriving DecidableEq, Repr

inductive HandshakeError
  | receive (e : Np2pError)
  | unexpected (expected : String) (got : HandshakeMessage)
  | rejected (role : String) (code : Nat) (message : String)
  deriving DecidableEq, Repr

/-- What the tunnel and the channel registration differ in. -/
structure HandshakeRole where
  register : List Char → HandshakeMessage
  challenge : HandshakeMessage → Option Bytes
  response : Bytes → HandshakeMessage
  accepted : HandshakeMessage
  challengeName : String
  acceptedName : String
  rejectedName : String

/-- Registration up to its acceptance: what is sent, given what the coordinator sends back.
The nonce is signed as it comes. -/
def runRegistration (S : SigningScheme) (key : Digest) (role : HandshakeRole)
    (received : List (Except Np2pError HandshakeMessage)) :
    List HandshakeMessage × Except HandshakeError Unit :=
  let registered := [role.register (toHex (S.publicKey key))]
  match received with
  | [] => (registered, .error (.receive (.network "connection lost")))
  | .error e :: _ => (registered, .error (.receive e))
  | .ok first :: rest =>
    match role.challenge first with
    | none => (registered, .error (.unexpected role.challengeName first))
    | some nonce =>
      let sent := registered ++ [role.response (S.sign key nonce)]
      match rest with
      | [] => (sent, .error (.receive (.network "connection lost")))
      | .error e :: _ => (sent, .error (.receive e))
      | .ok (.error code message) :: _ =>
        (sent, .error (.rejected role.rejectedName code message))
      | .ok answer :: _ =>
        if answer = role.accepted then (sent, .ok ())
        else (sent, .error (.unexpected role.acceptedName answer))

def tunnelRole : HandshakeRole where
  register := .tunnelRegister
  challenge
    | .tunnelChallenge nonce => some nonce
    | _ => none
  response := .tunnelChallengeResponse
  accepted := .tunnelAccepted
  challengeName := "TunnelChallenge"
  acceptedName := "TunnelAccepted"
  rejectedName := "tunnel"

def channelRole : HandshakeRole where
  register := .nodeChannelRegister
  challenge
    | .nodeChannelChallenge nonce => some nonce
    | _ => none
  response := .nodeChannelChallengeResponse
  accepted := .nodeChannelAccepted
  challengeName := "NodeChannelChallenge"
  acceptedName := "NodeChannelAccepted"
  rejectedName := "channel"

inductive Registration
  | tunnel
  | channel
  deriving DecidableEq, Repr

def Registration.role : Registration → HandshakeRole
  | .tunnel => tunnelRole
  | .channel => channelRole

def runTunnel (S : SigningScheme) (key : Digest)
    (received : List (Except Np2pError HandshakeMessage)) :=
  runRegistration S key tunnelRole received

def runChannel (S : SigningScheme) (key : Digest)
    (received : List (Except Np2pError HandshakeMessage)) :=
  runRegistration S key channelRole received

def Registration.run (S : SigningScheme) (key : Digest) (reg : Registration)
    (received : List (Except Np2pError HandshakeMessage)) :
    List HandshakeMessage × Except HandshakeError Unit :=
  match reg with
  | .tunnel => runTunnel S key received
  | .channel => runChannel S key received

theorem Registration.run_eq (S : SigningScheme) (key : Digest) (reg : Registration)
    (received : List (Except Np2pError HandshakeMessage)) :
    reg.run S key received = runRegistration S key reg.role received := by
  cases reg <;> rfl

def HandshakeMessage.signature : HandshakeMessage → Option Bytes
  | .tunnelChallengeResponse signature => some signature
  | .nodeChannelChallengeResponse signature => some signature
  | _ => none

/-- The signatures that a coordinator gets by answering a registration as it likes. -/
def obtainedSignatures (S : SigningScheme) (key : Digest) (reg : Registration)
    (received : List (Except Np2pError HandshakeMessage)) : List Bytes :=
  (reg.run S key received).1.filterMap HandshakeMessage.signature

/-- The challenge that a coordinator's first answer poses. -/
def posedChallenge (reg : Registration) :
    List (Except Np2pError HandshakeMessage) → Option Bytes
  | .ok first :: _ => reg.role.challenge first
  | _ => none

def tokenMessages : Set Bytes :=
  {msg | ∃ op shardHash timestamp, msg = tokenMessage op shardHash timestamp}

def announcementMessages (nodeId : Digest) : Set Bytes :=
  {msg | ∃ quicPort timestamp, msg = announcementMessage nodeId quicPort timestamp}

theorem obtainedSignatures_eq (S : SigningScheme) (key : Digest) (reg : Registration)
    (received : List (Except Np2pError HandshakeMessage)) :
    obtainedSignatures S key reg received =
      ((posedChallenge reg received).map (S.sign key)).toList := by
  have hregister : ∀ nodeId, (reg.role.register nodeId).signature = none := by
    intro nodeId
    cases reg <;> rfl
  have hresponse : ∀ signature, (reg.role.response signature).signature = some signature := by
    intro signature
    cases reg <;> rfl
  rw [obtainedSignatures, Registration.run_eq]
  unfold runRegistration posedChallenge
  simp only
  split
  next => simp [hregister]
  next => simp [hregister]
  next first rest =>
    simp only
    split
    next hnone => simp [hregister, hnone]
    next nonce hsome =>
      simp only [hsome, Option.map_some, Option.toList_some]
      split
      next => simp [hregister, hresponse]
      next => simp [hregister, hresponse]
      next => simp [hregister, hresponse]
      next =>
        split
        · simp [hregister, hresponse]
        · simp [hregister, hresponse]

/-- The two formats that the node composes itself never meet. -/
theorem tokenMessages_disjoint (nodeId : Digest) :
    Disjoint tokenMessages (announcementMessages nodeId) := by
  rw [Set.disjoint_left]
  rintro msg ⟨op, shardHash, timestamp, rfl⟩ ⟨quicPort, timestamp', heq⟩
  have hlen := congrArg List.length heq
  simp at hlen

def Registration.pose : Registration → Bytes → HandshakeMessage
  | .tunnel => .tunnelChallenge
  | .channel => .nodeChannelChallenge

/-- A coordinator that poses a token message as its challenge is handed the token. -/
theorem obtained_token (S : SigningScheme) (key : Digest) (reg : Registration) (op : ShardOp)
    (shardHash : Digest) (now : UInt64) :
    ∃ signature ∈ obtainedSignatures S key reg [.ok (reg.pose (tokenMessage op shardHash now))],
      verifyShardToken S ⟨S.publicKey key, now, signature⟩ op shardHash (some (S.publicKey key))
        now = true := by
  refine ⟨S.sign key (tokenMessage op shardHash now), ?_,
    verifyShardToken_create S key op shardHash now⟩
  rw [obtainedSignatures_eq]
  cases reg <;> simp [posedChallenge, Registration.role, Registration.pose, tunnelRole, channelRole]

/-- What one registration leaks: nothing that one of the other two roles signs. -/
structure RolesSeparated (S : SigningScheme) (key : Digest) (reg : Registration)
    (received : List (Except Np2pError HandshakeMessage)) : Prop where
  formats : Disjoint tokenMessages (announcementMessages (S.publicKey key))
  challenges : ∀ nonce, posedChallenge reg received = some nonce →
    nonce ∉ tokenMessages ∧ nonce ∉ announcementMessages (S.publicKey key)
  tokens : ∀ signature ∈ obtainedSignatures S key reg received,
    ∀ op shardHash timestamp allowedOwnerId now,
      verifyShardToken S ⟨S.publicKey key, timestamp, signature⟩ op shardHash allowedOwnerId now =
        false

/-- A challenge that has neither the shape of a token message nor that of an announcement
of the node. -/
def HarmlessChallenge (nodeId : Digest) (nonce : Bytes) : Prop :=
  ¬(nonce.length = 41 ∧ ∃ op : ShardOp, nonce.head? = some op.tag) ∧
    ¬(nonce.length = 42 ∧ nonce.take 32 = nodeId.toList)

/-- A signature verifies for a token message only if it was made for it. -/
def SignedFor (S : SigningScheme) (key : Digest) (nonce : Bytes) : Prop :=
  ∀ op shardHash timestamp,
    S.verify (S.publicKey key) (tokenMessage op shardHash timestamp) (S.sign key nonce) = true →
      tokenMessage op shardHash timestamp = nonce

/-- The roles of the key are kept apart in a registration exactly if the coordinator's
challenge has the shape of no other signed message. -/
theorem roles_separated_iff {S : SigningScheme} {key : Digest} {reg : Registration}
    {received : List (Except Np2pError HandshakeMessage)}
    (hsigned : ∀ nonce, posedChallenge reg received = some nonce → SignedFor S key nonce) :
    RolesSeparated S key reg received ↔
      ∀ nonce, posedChallenge reg received = some nonce →
        HarmlessChallenge (S.publicKey key) nonce := by
  constructor
  · intro h nonce hnonce
    obtain ⟨htoken, hann⟩ := h.challenges nonce hnonce
    exact ⟨fun hshape => htoken ((exists_tokenMessage_iff nonce).mpr hshape),
      fun hshape => hann ((exists_announcementMessage_iff _ nonce).mpr hshape)⟩
  · intro h
    refine ⟨tokenMessages_disjoint _, fun nonce hnonce => ?_, ?_⟩
    · obtain ⟨htoken, hann⟩ := h nonce hnonce
      exact ⟨fun hmem => htoken ((exists_tokenMessage_iff nonce).mp hmem),
        fun hmem => hann ((exists_announcementMessage_iff _ nonce).mp hmem)⟩
    · intro signature hsig op shardHash timestamp allowedOwnerId now
      rw [obtainedSignatures_eq, Option.mem_toList] at hsig
      obtain ⟨nonce, hnonce, rfl⟩ := Option.map_eq_some_iff.mp hsig
      by_contra htrue
      rw [Bool.not_eq_false] at htrue
      unfold verifyShardToken at htrue
      split at htrue
      next => simp at htrue
      next =>
        split at htrue
        next => simp at htrue
        next =>
          have hverify : S.verify (S.publicKey key) (tokenMessage op shardHash timestamp)
              (S.sign key nonce) = true := by
            simp only [verifySignature, Bool.and_eq_true] at htrue
            exact htrue.2
          have heq := hsigned nonce hnonce op shardHash timestamp hverify
          exact (h nonce hnonce).1
            ((exists_tokenMessage_iff nonce).mp ⟨op, shardHash, timestamp, heq.symm⟩)

/-- A scheme whose signature is the message itself, with its length. -/
def sampleScheme : SigningScheme where
  publicKey key := key
  sign _ msg := UInt8.ofNat msg.length :: Slices.resize 63 0 msg
  verify _ msg signature := signature = UInt8.ofNat msg.length :: Slices.resize 63 0 msg
  sign_length := by simp
  verify_sign := by simp

theorem roles_separated_random_nonce :
    RolesSeparated sampleScheme (List.Vector.replicate 32 5) .tunnel
      [.ok (.tunnelChallenge (List.replicate 32 7)), .ok .tunnelAccepted] := by
  refine (roles_separated_iff fun nonce hnonce => ?_).mpr fun nonce hnonce => ?_
  · cases Option.some.inj hnonce
    intro op shardHash timestamp hverify
    simp [sampleScheme] at hverify
  · cases Option.some.inj hnonce
    exact ⟨by simp, by simp⟩

/-- Answering a registration with a deletion message gets a valid deletion token. -/
theorem challenge_yields_delete_token :
    ¬ ∀ S key reg received, RolesSeparated S key reg received := by
  intro h
  obtain ⟨signature, hmem, hverify⟩ := obtained_token sampleScheme (List.Vector.replicate 32 5)
    .channel .delete (List.Vector.replicate 32 9) 1000
  have hfalse := (h _ _ _ _).tokens signature hmem .delete (List.Vector.replicate 32 9) 1000
    (some (sampleScheme.publicKey (List.Vector.replicate 32 5))) 1000
  rw [hverify] at hfalse
  simp at hfalse

end Reminisce

import Reminisce.Library.Codecs
import Reminisce.RetrievableShards

namespace Reminisce

namespace Wire

open Codecs

/-- The messages of the protocol. -/
inductive Message
  | handshake (nodeId : Digest) (version : String)
  | handshakeAck (nodeId : Digest)
  | storeShardRequest (shardHash : Digest) (data : Bytes) (token : ShardToken)
  | storeShardResponse (shardHash : Digest) (success : Bool) (availableSpaceBytes : UInt64)
  | retrieveShardRequest (shardHash : Digest) (token : ShardToken)
  | retrieveShardResponse (shardHash : Digest) (data : Option Bytes)
  | heartbeat (availableSpaceBytes : UInt64)
  | registerNode (nodeId : String) (quicPort : UInt16) (nodeNamespace : String)
  | getPeers (nodeNamespace : String)
  | peerList (peers : List (String × String))
  | relayRequest (targetNodeId : String) (payload : Bytes)
  | relayResponse (payload : Bytes)
  | tunnelRegister (nodeId : String)
  | tunnelChallenge (nonce : Bytes)
  | tunnelChallengeResponse (signature : Bytes)
  | tunnelAccepted
  | nodeChannelRegister (nodeId : String)
  | nodeChannelChallenge (nonce : Bytes)
  | nodeChannelChallengeResponse (signature : Bytes)
  | nodeChannelAccepted
  | error (code : UInt16) (message : String)
  | storeShardStreamInit (fileHash : Digest) (shardIndex : UInt8) (totalShardBytes : UInt64)
      (segmentCount : UInt32) (token : ShardToken)
  | storeShardStreamAck (ready : Bool)
  | storeShardChunk (data : Bytes)
  | storeShardStreamFinal (shardHash : Digest)
  | storeShardStreamResponse (success : Bool) (availableSpaceBytes : UInt64)
  | deleteShardRequest (shardHash : Digest) (token : ShardToken)
  | deleteShardResponse (shardHash : Digest) (success : Bool)
  | storePinnedObject (name : String) (data : Bytes) (token : ShardToken)
  | storePinnedResponse (success : Bool)
  | getPinnedObject (name : String) (token : ShardToken)
  | pinnedObjectResponse (data : Option Bytes)
  | listShardsRequest (pfx : Option String) (token : ShardToken)
  | listShardsResponse (pfx : Option String) (shards : List Digest) (availableSpaceBytes : UInt64)
  | retrieveShardStreamInit (shardHash : Digest) (token : ShardToken)
  | retrieveShardStreamAck (found : Bool) (totalBytes : UInt64)
  | retrieveShardChunk (data : Bytes)
  | retrieveShardStreamFinal (shardHash : Digest)

inductive MessageKind
  | handshake
  | handshakeAck
  | storeShardRequest
  | storeShardResponse
  | retrieveShardRequest
  | retrieveShardResponse
  | heartbeat
  | registerNode
  | getPeers
  | peerList
  | relayRequest
  | relayResponse
  | tunnelRegister
  | tunnelChallenge
  | tunnelChallengeResponse
  | tunnelAccepted
  | nodeChannelRegister
  | nodeChannelChallenge
  | nodeChannelChallengeResponse
  | nodeChannelAccepted
  | error
  | storeShardStreamInit
  | storeShardStreamAck
  | storeShardChunk
  | storeShardStreamFinal
  | storeShardStreamResponse
  | deleteShardRequest
  | deleteShardResponse
  | storePinnedObject
  | storePinnedResponse
  | getPinnedObject
  | pinnedObjectResponse
  | listShardsRequest
  | listShardsResponse
  | retrieveShardStreamInit
  | retrieveShardStreamAck
  | retrieveShardChunk
  | retrieveShardStreamFinal
  deriving DecidableEq, Repr

namespace MessageKind

/-- The kinds in the order of their indices on the wire. -/
def all : List MessageKind :=
  [handshake, handshakeAck, storeShardRequest, storeShardResponse, retrieveShardRequest,
    retrieveShardResponse, heartbeat, registerNode, getPeers, peerList, relayRequest, relayResponse,
    tunnelRegister, tunnelChallenge, tunnelChallengeResponse, tunnelAccepted, nodeChannelRegister,
    nodeChannelChallenge, nodeChannelChallengeResponse, nodeChannelAccepted, error,
    storeShardStreamInit, storeShardStreamAck, storeShardChunk, storeShardStreamFinal,
    storeShardStreamResponse, deleteShardRequest, deleteShardResponse, storePinnedObject,
    storePinnedResponse, getPinnedObject, pinnedObjectResponse, listShardsRequest,
    listShardsResponse, retrieveShardStreamInit, retrieveShardStreamAck, retrieveShardChunk,
    retrieveShardStreamFinal]

def Fields : MessageKind → Type
  | handshake => Digest × String
  | handshakeAck => Digest
  | storeShardRequest => Digest × Bytes × ShardToken
  | storeShardResponse => Digest × Bool × UInt64
  | retrieveShardRequest => Digest × ShardToken
  | retrieveShardResponse => Digest × Option Bytes
  | heartbeat => UInt64
  | registerNode => String × UInt16 × String
  | getPeers => String
  | peerList => List (String × String)
  | relayRequest => String × Bytes
  | relayResponse => Bytes
  | tunnelRegister => String
  | tunnelChallenge => Bytes
  | tunnelChallengeResponse => Bytes
  | tunnelAccepted => Unit
  | nodeChannelRegister => String
  | nodeChannelChallenge => Bytes
  | nodeChannelChallengeResponse => Bytes
  | nodeChannelAccepted => Unit
  | error => UInt16 × String
  | storeShardStreamInit => Digest × UInt8 × UInt64 × UInt32 × ShardToken
  | storeShardStreamAck => Bool
  | storeShardChunk => Bytes
  | storeShardStreamFinal => Digest
  | storeShardStreamResponse => Bool × UInt64
  | deleteShardRequest => Digest × ShardToken
  | deleteShardResponse => Digest × Bool
  | storePinnedObject => String × Bytes × ShardToken
  | storePinnedResponse => Bool
  | getPinnedObject => String × ShardToken
  | pinnedObjectResponse => Option Bytes
  | listShardsRequest => Option String × ShardToken
  | listShardsResponse => Option String × List Digest × UInt64
  | retrieveShardStreamInit => Digest × ShardToken
  | retrieveShardStreamAck => Bool × UInt64
  | retrieveShardChunk => Bytes
  | retrieveShardStreamFinal => Digest

end MessageKind

open Codec

def digest : Codec Digest := array 32

def shardToken : Codec ShardToken :=
  (digest.pair (u64.pair bytes)).mapped (fun p => ⟨p.1, p.2.1, p.2.2⟩)
    (fun token => (token.ownerNodeId, token.timestamp, token.signature)) (fun _ => rfl)
    fun _ => rfl

def peers : Codec (List (String × String)) :=
  (text.pair text).list fun p => by
    change 0 < (Bincode.vec _ ++ Bincode.vec _).length
    rw [List.length_append, Bincode.length_vec]
    omega

def digests : Codec (List Digest) :=
  digest.list fun d => by
    change 0 < d.toList.length
    rw [d.toList_length]
    omega

namespace MessageKind

/-- The fields of a message, one behind the other. -/
def codec : (kind : MessageKind) → Codec kind.Fields
  | handshake => digest.pair text
  | handshakeAck => digest
  | storeShardRequest => digest.pair (bytes.pair shardToken)
  | storeShardResponse => digest.pair (bool.pair u64)
  | retrieveShardRequest => digest.pair shardToken
  | retrieveShardResponse => digest.pair bytes.option
  | heartbeat => u64
  | registerNode => text.pair (u16.pair text)
  | getPeers => text
  | peerList => peers
  | relayRequest => text.pair bytes
  | relayResponse => bytes
  | tunnelRegister => text
  | tunnelChallenge => bytes
  | tunnelChallengeResponse => bytes
  | tunnelAccepted => unit
  | nodeChannelRegister => text
  | nodeChannelChallenge => bytes
  | nodeChannelChallengeResponse => bytes
  | nodeChannelAccepted => unit
  | error => u16.pair text
  | storeShardStreamInit => digest.pair (u8.pair (u64.pair (u32.pair shardToken)))
  | storeShardStreamAck => bool
  | storeShardChunk => bytes
  | storeShardStreamFinal => digest
  | storeShardStreamResponse => bool.pair u64
  | deleteShardRequest => digest.pair shardToken
  | deleteShardResponse => digest.pair bool
  | storePinnedObject => text.pair (bytes.pair shardToken)
  | storePinnedResponse => bool
  | getPinnedObject => text.pair shardToken
  | pinnedObjectResponse => bytes.option
  | listShardsRequest => text.option.pair shardToken
  | listShardsResponse => text.option.pair (digests.pair u64)
  | retrieveShardStreamInit => digest.pair shardToken
  | retrieveShardStreamAck => bool.pair u64
  | retrieveShardChunk => bytes
  | retrieveShardStreamFinal => digest

end MessageKind

namespace Message

def fields : Message → Σ kind : MessageKind, kind.Fields
  | handshake nodeId version => ⟨.handshake, nodeId, version⟩
  | handshakeAck nodeId => ⟨.handshakeAck, nodeId⟩
  | storeShardRequest shardHash data token => ⟨.storeShardRequest, shardHash, data, token⟩
  | storeShardResponse shardHash success space => ⟨.storeShardResponse, shardHash, success, space⟩
  | retrieveShardRequest shardHash token => ⟨.retrieveShardRequest, shardHash, token⟩
  | retrieveShardResponse shardHash data => ⟨.retrieveShardResponse, shardHash, data⟩
  | heartbeat space => ⟨.heartbeat, space⟩
  | registerNode nodeId quicPort ns => ⟨.registerNode, nodeId, quicPort, ns⟩
  | getPeers ns => ⟨.getPeers, ns⟩
  | peerList peers => ⟨.peerList, peers⟩
  | relayRequest targetNodeId payload => ⟨.relayRequest, targetNodeId, payload⟩
  | relayResponse payload => ⟨.relayResponse, payload⟩
  | tunnelRegister nodeId => ⟨.tunnelRegister, nodeId⟩
  | tunnelChallenge nonce => ⟨.tunnelChallenge, nonce⟩
  | tunnelChallengeResponse signature => ⟨.tunnelChallengeResponse, signature⟩
  | tunnelAccepted => ⟨.tunnelAccepted, ()⟩
  | nodeChannelRegister nodeId => ⟨.nodeChannelRegister, nodeId⟩
  | nodeChannelChallenge nonce => ⟨.nodeChannelChallenge, nonce⟩
  | nodeChannelChallengeResponse signature => ⟨.nodeChannelChallengeResponse, signature⟩
  | nodeChannelAccepted => ⟨.nodeChannelAccepted, ()⟩
  | error code message => ⟨.error, code, message⟩
  | storeShardStreamInit fileHash shardIndex total segments token =>
    ⟨.storeShardStreamInit, fileHash, shardIndex, total, segments, token⟩
  | storeShardStreamAck ready => ⟨.storeShardStreamAck, ready⟩
  | storeShardChunk data => ⟨.storeShardChunk, data⟩
  | storeShardStreamFinal shardHash => ⟨.storeShardStreamFinal, shardHash⟩
  | storeShardStreamResponse success space => ⟨.storeShardStreamResponse, success, space⟩
  | deleteShardRequest shardHash token => ⟨.deleteShardRequest, shardHash, token⟩
  | deleteShardResponse shardHash success => ⟨.deleteShardResponse, shardHash, success⟩
  | storePinnedObject name data token => ⟨.storePinnedObject, name, data, token⟩
  | storePinnedResponse success => ⟨.storePinnedResponse, success⟩
  | getPinnedObject name token => ⟨.getPinnedObject, name, token⟩
  | pinnedObjectResponse data => ⟨.pinnedObjectResponse, data⟩
  | listShardsRequest pfx token => ⟨.listShardsRequest, pfx, token⟩
  | listShardsResponse pfx shards space => ⟨.listShardsResponse, pfx, shards, space⟩
  | retrieveShardStreamInit shardHash token => ⟨.retrieveShardStreamInit, shardHash, token⟩
  | retrieveShardStreamAck found total => ⟨.retrieveShardStreamAck, found, total⟩
  | retrieveShardChunk data => ⟨.retrieveShardChunk, data⟩
  | retrieveShardStreamFinal shardHash => ⟨.retrieveShardStreamFinal, shardHash⟩

def ofFields : (Σ kind : MessageKind, kind.Fields) → Message
  | ⟨.handshake, nodeId, version⟩ => handshake nodeId version
  | ⟨.handshakeAck, nodeId⟩ => handshakeAck nodeId
  | ⟨.storeShardRequest, shardHash, data, token⟩ => storeShardRequest shardHash data token
  | ⟨.storeShardResponse, shardHash, success, space⟩ => storeShardResponse shardHash success space
  | ⟨.retrieveShardRequest, shardHash, token⟩ => retrieveShardRequest shardHash token
  | ⟨.retrieveShardResponse, shardHash, data⟩ => retrieveShardResponse shardHash data
  | ⟨.heartbeat, space⟩ => heartbeat space
  | ⟨.registerNode, nodeId, quicPort, ns⟩ => registerNode nodeId quicPort ns
  | ⟨.getPeers, ns⟩ => getPeers ns
  | ⟨.peerList, peers⟩ => peerList peers
  | ⟨.relayRequest, targetNodeId, payload⟩ => relayRequest targetNodeId payload
  | ⟨.relayResponse, payload⟩ => relayResponse payload
  | ⟨.tunnelRegister, nodeId⟩ => tunnelRegister nodeId
  | ⟨.tunnelChallenge, nonce⟩ => tunnelChallenge nonce
  | ⟨.tunnelChallengeResponse, signature⟩ => tunnelChallengeResponse signature
  | ⟨.tunnelAccepted, _⟩ => tunnelAccepted
  | ⟨.nodeChannelRegister, nodeId⟩ => nodeChannelRegister nodeId
  | ⟨.nodeChannelChallenge, nonce⟩ => nodeChannelChallenge nonce
  | ⟨.nodeChannelChallengeResponse, signature⟩ => nodeChannelChallengeResponse signature
  | ⟨.nodeChannelAccepted, _⟩ => nodeChannelAccepted
  | ⟨.error, code, message⟩ => error code message
  | ⟨.storeShardStreamInit, fileHash, shardIndex, total, segments, token⟩ =>
    storeShardStreamInit fileHash shardIndex total segments token
  | ⟨.storeShardStreamAck, ready⟩ => storeShardStreamAck ready
  | ⟨.storeShardChunk, data⟩ => storeShardChunk data
  | ⟨.storeShardStreamFinal, shardHash⟩ => storeShardStreamFinal shardHash
  | ⟨.storeShardStreamResponse, success, space⟩ => storeShardStreamResponse success space
  | ⟨.deleteShardRequest, shardHash, token⟩ => deleteShardRequest shardHash token
  | ⟨.deleteShardResponse, shardHash, success⟩ => deleteShardResponse shardHash success
  | ⟨.storePinnedObject, name, data, token⟩ => storePinnedObject name data token
  | ⟨.storePinnedResponse, success⟩ => storePinnedResponse success
  | ⟨.getPinnedObject, name, token⟩ => getPinnedObject name token
  | ⟨.pinnedObjectResponse, data⟩ => pinnedObjectResponse data
  | ⟨.listShardsRequest, pfx, token⟩ => listShardsRequest pfx token
  | ⟨.listShardsResponse, pfx, shards, space⟩ => listShardsResponse pfx shards space
  | ⟨.retrieveShardStreamInit, shardHash, token⟩ => retrieveShardStreamInit shardHash token
  | ⟨.retrieveShardStreamAck, found, total⟩ => retrieveShardStreamAck found total
  | ⟨.retrieveShardChunk, data⟩ => retrieveShardChunk data
  | ⟨.retrieveShardStreamFinal, shardHash⟩ => retrieveShardStreamFinal shardHash

theorem ofFields_fields (message : Message) : ofFields message.fields = message := by
  cases message <;> rfl

theorem fields_ofFields (p : Σ kind : MessageKind, kind.Fields) : (ofFields p).fields = p := by
  obtain ⟨kind, p⟩ := p
  cases kind <;> rfl

/-- The format of `bincode`: the index of the variant, then its fields. -/
def codec : Codec Message :=
  (tagged MessageKind.all (by decide) (fun kind => by cases kind <;> decide) (by decide)
    MessageKind.codec).mapped ofFields fields ofFields_fields fields_ofFields

/-- `bincode::serialize`. -/
def serialize (message : Message) : Bytes := codec.encode message

/-- `bincode::deserialize`, which ignores what stands behind the message. -/
def deserialize (bytes : Bytes) : Option Message := (codec.decode bytes).map Prod.fst

/-- No message is spelled like the beginning of another. -/
theorem serialize_append_inj {message other : Message} {rest tail : Bytes}
    (hshort : message.serialize.length < 2 ^ 64) (hother : other.serialize.length < 2 ^ 64)
    (h : message.serialize ++ rest = other.serialize ++ tail) : message = other ∧ rest = tail := by
  have hfirst := codec.decode_encode message rest hshort
  have hsecond := codec.decode_encode other tail hother
  have heq : some (message, rest) = some (other, tail) := by
    rw [← hfirst, ← hsecond]
    exact congrArg codec.decode h
  exact Prod.ext_iff.mp (Option.some.inj heq)

theorem deserialize_iff {message : Message} {bytes : Bytes} (h : bytes.length < 2 ^ 64) :
    deserialize bytes = some message ↔ ∃ junk, bytes = message.serialize ++ junk := by
  constructor
  · intro hread
    obtain ⟨⟨m, junk⟩, hdecode, rfl⟩ := Option.map_eq_some_iff.mp hread
    exact ⟨junk, codec.encode_decode hdecode⟩
  · rintro ⟨junk, rfl⟩
    rw [List.length_append] at h
    have hshort : (codec.encode message).length < 2 ^ 64 := Nat.lt_of_le_of_lt (Nat.le_add_right _ _) h
    rw [deserialize, serialize, codec.decode_encode _ _ hshort, Option.map_some]

end Message

/-- How sending or receiving fails. -/
inductive ProtocolFault
  | failed (error : Np2pError)
  | finishedEarly
  | undecodable
  deriving DecidableEq, Repr

namespace Protocol

/-- `Protocol::send`: what goes over the wire. -/
def send (message : Message) : Except ProtocolFault Bytes :=
  let bytes := message.serialize
  if 2 ^ 32 ≤ bytes.length then
    .error (.failed (.protocol s!"Message too large to frame ({bytes.length} bytes)"))
  else if maxMessageLen < bytes.length then
    .error (.failed (.network (s!"Refusing to send {bytes.length}-byte message: exceeds " ++
      s!"MAX_MESSAGE_LEN ({maxMessageLen} bytes)")))
  else .ok (toBeBytes 4 bytes.length ++ bytes)

/-- `Protocol::receive`, with the rest of the stream. -/
def receive (stream : Bytes) : Except ProtocolFault (Message × Bytes) :=
  if stream.length < 4 then .error .finishedEarly
  else
    let len := fromBeBytes (stream.take 4)
    if maxMessageLen < len then
      .error (.failed (.network (s!"Peer declared {len}-byte message, exceeding MAX_MESSAGE_LEN " ++
        s!"({maxMessageLen} bytes) — rejecting without allocating")))
    else if (stream.drop 4).length < len then .error .finishedEarly
    else match Message.deserialize ((stream.drop 4).take len) with
      | none => .error .undecodable
      | some message => .ok (message, (stream.drop 4).drop len)

/-- One message after the other. -/
def sendAll : List Message → Except ProtocolFault Bytes
  | [] => .ok []
  | message :: messages => do
    let frame ← send message
    let frames ← sendAll messages
    .ok (frame ++ frames)

/-- Messages are received until one fails. -/
def receiveAll : Nat → Bytes → List Message × Option ProtocolFault
  | 0, _ => ([], none)
  | fuel + 1, stream =>
    match receive stream with
    | .error fault => ([], some fault)
    | .ok (message, rest) =>
      let more := receiveAll fuel rest
      (message :: more.1, more.2)

variable {message : Message} {messages : List Message} {frame sent stream rest : Bytes}

theorem send_ok : send message = .ok frame ↔ message.serialize.length ≤ maxMessageLen ∧
    frame = toBeBytes 4 message.serialize.length ++ message.serialize := by
  have hlimit := maxMessageLen_lt
  unfold send
  dsimp only
  split
  next h =>
    refine iff_of_false nofun ?_
    rintro ⟨hle, -⟩
    omega
  next h =>
    split
    next hlong =>
      refine iff_of_false nofun ?_
      rintro ⟨hle, -⟩
      omega
    next hle =>
      rw [Except.ok.injEq, eq_comm]
      exact (and_iff_right (Nat.le_of_not_lt hle)).symm

/-- A frame is received with as much of it as its length says, whatever stands behind the message
in it. -/
theorem receive_iff : receive stream = .ok (message, rest) ↔ ∃ junk,
    message.serialize.length + junk.length ≤ maxMessageLen ∧
      stream = toBeBytes 4 (message.serialize.length + junk.length) ++
        (message.serialize ++ junk) ++ rest := by
  have hlimit := maxMessageLen_lt
  constructor
  · intro h
    unfold receive at h
    split at h
    next => cases h
    next hfour =>
      dsimp only at h
      split at h
      next => cases h
      next hle =>
        split at h
        next => cases h
        next hall =>
          split at h
          next => cases h
          next m hread =>
            cases h
            have htake : ((stream.drop 4).take (fromBeBytes (stream.take 4))).length =
                fromBeBytes (stream.take 4) := List.length_take_of_le (Nat.le_of_not_lt hall)
            obtain ⟨junk, hjunk⟩ := (Message.deserialize_iff (by omega)).mp hread
            have hlen : message.serialize.length + junk.length = fromBeBytes (stream.take 4) := by
              rw [← List.length_append, ← hjunk, htake]
            have hhead : toBeBytes 4 (fromBeBytes (stream.take 4)) = stream.take 4 := by
              have hfour' : (stream.take 4).length = 4 := List.length_take_of_le (by omega)
              obtain ⟨n, hn, hbytes⟩ := exists_toBeBytes (stream.take 4)
              rw [hfour'] at hn hbytes
              rw [← hbytes, fromBeBytes_toBeBytes hn]
            refine ⟨junk, by omega, ?_⟩
            rw [hlen, hhead, ← hjunk, List.append_assoc, List.take_append_drop,
              List.take_append_drop]
  · rintro ⟨junk, hle, rfl⟩
    have hlength : (message.serialize ++ junk).length = message.serialize.length + junk.length :=
      List.length_append
    have hhead : fromBeBytes (toBeBytes 4 (message.serialize.length + junk.length)) =
        message.serialize.length + junk.length := fromBeBytes_toBeBytes (by omega)
    have htake : (toBeBytes 4 (message.serialize.length + junk.length) ++
        (message.serialize ++ junk) ++ rest).take 4 =
          toBeBytes 4 (message.serialize.length + junk.length) := by
      rw [List.append_assoc]
      exact List.take_left' (length_toBeBytes 4 _)
    have hdrop : (toBeBytes 4 (message.serialize.length + junk.length) ++
        (message.serialize ++ junk) ++ rest).drop 4 = message.serialize ++ junk ++ rest := by
      rw [List.append_assoc]
      exact List.drop_left' (length_toBeBytes 4 _)
    have hbody : (message.serialize ++ junk ++ rest).take
        (message.serialize.length + junk.length) = message.serialize ++ junk :=
      List.take_left' hlength
    have hrest : (message.serialize ++ junk ++ rest).drop
        (message.serialize.length + junk.length) = rest := List.drop_left' hlength
    have hread : Message.deserialize (message.serialize ++ junk) = some message :=
      (Message.deserialize_iff (by omega)).mpr ⟨junk, rfl⟩
    have hlong : ¬(toBeBytes 4 (message.serialize.length + junk.length) ++
        (message.serialize ++ junk) ++ rest).length < 4 := by
      simp
    have hall : ¬(message.serialize ++ junk ++ rest).length <
        message.serialize.length + junk.length := by
      rw [List.length_append]
      omega
    rw [receive, if_neg hlong]
    simp only [htake, hdrop, hhead]
    rw [if_neg (by omega), if_neg hall, hbody, hread, hrest]

/-- What is sent is received, and nothing of what follows. -/
theorem receive_frame (h : send message = .ok frame) (rest : Bytes) :
    receive (frame ++ rest) = .ok (message, rest) := by
  obtain ⟨hle, rfl⟩ := send_ok.mp h
  exact receive_iff.mpr ⟨[], by simpa using hle, by simp⟩

/-- A frame that is cut is not received. -/
theorem receive_cut (h : send message = .ok frame) {n : Nat} (hn : n < frame.length) :
    receive (frame.take n) = .error .finishedEarly := by
  obtain ⟨hle, rfl⟩ := send_ok.mp h
  have hlimit := maxMessageLen_lt
  have hhead := length_toBeBytes 4 message.serialize.length
  rw [List.length_append, hhead] at hn
  have hlength : ((toBeBytes 4 message.serialize.length ++ message.serialize).take n).length = n := by
    rw [List.length_take, List.length_append, hhead]
    omega
  rw [receive, hlength]
  split
  next => rfl
  next hfour =>
    have htake : ((toBeBytes 4 message.serialize.length ++ message.serialize).take n).take 4 =
        toBeBytes 4 message.serialize.length := by
      rw [List.take_take, Nat.min_eq_left (by omega), List.take_left' hhead]
    have hnumber : fromBeBytes (toBeBytes 4 message.serialize.length) =
        message.serialize.length := fromBeBytes_toBeBytes (by omega)
    have hdrop : (((toBeBytes 4 message.serialize.length ++ message.serialize).take n).drop
        4).length = n - 4 := by rw [List.length_drop, hlength]
    dsimp only
    rw [htake, hnumber, if_neg (by omega), hdrop, if_pos (by omega)]

/-- Of a stream that is cut anywhere, the messages that lie before the cut are received, in the order
in which they were sent, and no others. -/
theorem receiveAll_cut (h : sendAll messages = .ok sent) (n : Nat) {fuel : Nat}
    (hfuel : messages.length < fuel) : ∃ k ≤ messages.length,
      receiveAll fuel (sent.take n) = (messages.take k, some .finishedEarly) ∧
      (∃ whole, sendAll (messages.take k) = .ok whole ∧ whole <+: sent ∧ whole.length ≤ n) ∧
      ∀ next, k < messages.length → sendAll (messages.take (k + 1)) = .ok next →
        n < next.length := by
  induction messages generalizing sent n fuel with
  | nil =>
    cases h
    obtain ⟨fuel, rfl⟩ := Nat.exists_eq_succ_of_ne_zero (Nat.ne_zero_of_lt hfuel)
    refine ⟨0, Nat.le_refl 0, ?_, ⟨[], rfl, List.nil_prefix, Nat.zero_le n⟩, nofun⟩
    rw [List.take_nil]
    rfl
  | cons message messages ih =>
    obtain ⟨frame, hframe, h⟩ := Results.bind_ok h
    obtain ⟨frames, hframes, h⟩ := Results.bind_ok h
    cases h
    obtain ⟨fuel, rfl⟩ := Nat.exists_eq_succ_of_ne_zero (Nat.ne_zero_of_lt hfuel)
    rw [List.length_cons] at hfuel
    by_cases hn : n < frame.length
    · refine ⟨0, Nat.zero_le _, ?_, ⟨[], rfl, List.nil_prefix, Nat.zero_le n⟩, ?_⟩
      · rw [List.take_append_of_le_length (Nat.le_of_lt hn), receiveAll, receive_cut hframe hn]
        rfl
      · intro next _ hnext
        obtain ⟨frame', hframe', hnext⟩ := Results.bind_ok hnext
        rw [hframe] at hframe'
        cases hframe'
        cases hnext
        rw [List.length_append]
        omega
    · have hmore : messages.length < fuel := by omega
      obtain ⟨k, hk, hreceived, ⟨whole, hwhole, hprefix, hlen⟩, hnext⟩ :=
        ih hframes (n - frame.length) hmore
      refine ⟨k + 1, Nat.succ_le_succ hk, ?_, ⟨frame ++ whole, ?_, ?_, ?_⟩, ?_⟩
      · rw [List.take_append, List.take_of_length_le (by omega), receiveAll,
          receive_frame hframe]
        dsimp only
        rw [hreceived]
        rfl
      · rw [List.take_succ_cons, sendAll, hframe, hwhole]
        rfl
      · exact (List.prefix_append_right_inj frame).mpr hprefix
      · rw [List.length_append]
        omega
      · intro next hlt hall
        obtain ⟨frame', hframe', hall⟩ := Results.bind_ok hall
        obtain ⟨frames', hframes', hall⟩ := Results.bind_ok hall
        rw [hframe] at hframe'
        cases hframe'
        cases hall
        have := hnext frames' (Nat.lt_of_succ_lt_succ hlt) hframes'
        rw [List.length_append]
        omega

/-- Two messages of a shard upload, cut within the second. -/
theorem receiveAll_cut_ack : ∃ k ≤ 2,
    receiveAll 3 (([0, 0, 0, 12, 6, 0, 0, 0, 7, 0, 0, 0, 0, 0, 0, 0, 0, 0, 0, 5, 22, 0, 0, 0, 1] :
        Bytes).take 20) =
      ([Message.heartbeat 7, .storeShardStreamAck true].take k, some .finishedEarly) ∧
    (∃ whole, sendAll ([Message.heartbeat 7, .storeShardStreamAck true].take k) = .ok whole ∧
      whole <+: [0, 0, 0, 12, 6, 0, 0, 0, 7, 0, 0, 0, 0, 0, 0, 0, 0, 0, 0, 5, 22, 0, 0, 0, 1] ∧
      whole.length ≤ 20) ∧
    ∀ next, k < 2 →
      sendAll ([Message.heartbeat 7, .storeShardStreamAck true].take (k + 1)) = .ok next →
      20 < next.length :=
  @receiveAll_cut [.heartbeat 7, .storeShardStreamAck true] _ (by rfl) 20 3 (by decide)

end Protocol

end Wire

/-- The messages that carry shards, among all messages. -/
def Message.toWire : Message → Wire.Message
  | storeShardRequest shardHash data token => .storeShardRequest shardHash data token
  | retrieveShardRequest shardHash token => .retrieveShardRequest shardHash token
  | retrieveShardResponse shardHash data => .retrieveShardResponse shardHash data
  | relayResponse payload => .relayResponse payload
  | storeShardChunk data => .storeShardChunk data

theorem ShardToken.encode_eq (token : ShardToken) :
    Wire.shardToken.encode token = token.serialize := by
  change token.ownerNodeId.toList ++ (ByteOrder.toLe 8 token.timestamp.toNat ++
    Bincode.vec token.signature) = _
  rw [ShardToken.serialize, List.append_assoc]

theorem Message.serialize_toWire (message : Message) :
    message.toWire.serialize = message.serialize := by
  cases message with
  | storeShardRequest shardHash data token =>
    change ByteOrder.toLe 4 2 ++ (shardHash.toList ++ (Bincode.vec data ++
      Wire.shardToken.encode token)) = _
    rw [token.encode_eq, serialize, List.append_assoc, List.append_assoc]
  | retrieveShardRequest shardHash token =>
    change ByteOrder.toLe 4 4 ++ (shardHash.toList ++ Wire.shardToken.encode token) = _
    rw [token.encode_eq, serialize, List.append_assoc]
  | retrieveShardResponse shardHash data =>
    change ByteOrder.toLe 4 5 ++ (shardHash.toList ++ Codecs.Codec.bytes.option.encode data) = _
    cases data <;> rw [serialize, List.append_assoc] <;> rfl
  | relayResponse payload => rfl
  | storeShardChunk data => rfl

/-- A shard message goes over the wire as before. -/
theorem Message.send_toWire {message : Message} {frame : Bytes} :
    Wire.Protocol.send message.toWire = .ok frame ↔ message.frame = some frame := by
  rw [Wire.Protocol.send_ok, message.serialize_toWire, Message.frame]
  split
  next h =>
    refine iff_of_false ?_ nofun
    rintro ⟨hle, -⟩
    omega
  next h =>
    rw [Option.some.injEq, eq_comm (b := frame)]
    exact and_iff_right (Nat.le_of_not_lt h)

end Reminisce

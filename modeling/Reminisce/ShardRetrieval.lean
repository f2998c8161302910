import Reminisce.Library.ByteVecs
import Reminisce.ReferencePrimitives
import Reminisce.Restore

namespace Reminisce

open ByteVecs

/-- What a node sends to `retrieve_shard`; `other` is every message that it does not expect. -/
inductive ShardMessage
  | retrieveShardStreamAck (found : Bool) (totalBytes : UInt64)
  | retrieveShardChunk (data : Bytes)
  | retrieveShardStreamFinal (shardHash : Digest)
  | retrieveShardResponse (shardHash : Digest) (data : Option Bytes)
  | other

/-- A node during one retrieval. On its stream a receive gives the next message, and fails when
there is none, as it does on a broken frame. -/
structure ShardPeer where
  connects : Bool
  opensStream : Bool
  takesInit : Bool
  streamed : List ShardMessage
  opensSingleFrame : Bool
  takesRequest : Bool
  answered : Option ShardMessage

/-- The errors of `p2p_error.rs` that a retrieval meets, without the texts of the network. -/
inductive RetrieveError
  | connect (addr : SocketAddr)
  | openBi (addr : SocketAddr)
  | send
  | receive
  | shardNotFound
  | invalidShardHash (hash : List Char)
  deriving DecidableEq, Repr

/-- How the streaming attempt ends, and whether it has closed the connection. -/
structure StreamAttempt where
  result : Except RetrieveError (Option Bytes)
  closed : Bool

section Model

variable (P : Primitives) (peer : ShardPeer) (addr : SocketAddr) (shardHash : Digest)

/-- The loop of the streaming attempt; `hashed` is what the hasher has seen. Here and below `none`
is a panic. -/
def receiveChunks (data : ByteVec) (hashed : Bytes) : List ShardMessage → Option StreamAttempt
  | [] => some ⟨.error .receive, false⟩
  | .retrieveShardChunk chunk :: rest => do
    let data ← data.extendFromSlice chunk
    receiveChunks data (hashed ++ chunk) rest
  | .retrieveShardStreamFinal expectedHash :: _ =>
    if P.blake3 hashed = expectedHash ∧ P.blake3 hashed = shardHash then
      some ⟨.ok (some data.bytes), true⟩
    else some ⟨.error .receive, true⟩
  | _ :: _ => some ⟨.error .receive, false⟩

def streamAttempt : Option StreamAttempt :=
  if !peer.opensStream then some ⟨.error (.openBi addr), false⟩
  else if !peer.takesInit then some ⟨.error .send, false⟩
  else
    match peer.streamed with
    | .retrieveShardStreamAck true totalBytes :: rest => do
      let data ← ByteVec.withCapacity totalBytes.toNat
      receiveChunks P shardHash data [] rest
    | .retrieveShardStreamAck false _ :: _ => some ⟨.error .shardNotFound, true⟩
    | _ => some ⟨.ok none, false⟩

/-- The legacy attempt, which needs an open connection. -/
def singleFrameAttempt (closed : Bool) : Except RetrieveError Bytes :=
  if closed || !peer.opensSingleFrame then .error (.openBi addr)
  else if !peer.takesRequest then .error .send
  else
    match peer.answered with
    | some (.retrieveShardResponse _ (some data)) => .ok data
    | some _ => .error .shardNotFound
    | none => .error .receive

/-- `retrieve_shard`, over every message the node sends. -/
def retrieveFromPeer (shardHashHex : List Char) : Option (Except RetrieveError Bytes) :=
  match parseShardHash shardHashHex with
  | none => some (.error (.invalidShardHash shardHashHex))
  | some shardHash =>
    if !peer.connects then some (.error (.connect addr))
    else do
      let attempt ← streamAttempt P peer addr shardHash
      match attempt.result with
      | .ok (some data) => some (.ok data)
      | .error .shardNotFound => some (.error .shardNotFound)
      | _ => some (singleFrameAttempt peer addr attempt.closed)

end Model

/-- The chunks before any other message. -/
def leadingChunks : List ShardMessage → List Bytes
  | .retrieveShardChunk chunk :: rest => chunk :: leadingChunks rest
  | _ => []

/-- The message behind these chunks. -/
def afterChunks : List ShardMessage → Option ShardMessage
  | .retrieveShardChunk _ :: rest => afterChunks rest
  | messages => messages.head?

namespace ShardPeer

/-- The messages that the streaming attempt meets, if it gets as far. -/
def Streams (peer : ShardPeer) (messages : List ShardMessage) : Prop :=
  peer.opensStream ∧ peer.takesInit ∧ peer.streamed = messages

/-- The length that the node announces can be allocated, and the vector can grow with the chunks. -/
def AnnouncesRoom (peer : ShardPeer) : Prop :=
  ∀ totalBytes rest, peer.Streams (.retrieveShardStreamAck true totalBytes :: rest) →
    totalBytes.toNat ≤ isizeMax ∧
      Room totalBytes.toNat 0 ((leadingChunks rest).map List.length)

/-- The stream brings neither a refusal nor a final hash. -/
def LeavesSingleFrame (peer : ShardPeer) : Prop :=
  ∀ found totalBytes rest, peer.Streams (.retrieveShardStreamAck found totalBytes :: rest) →
    found ∧ ∀ expectedHash, afterChunks rest ≠ some (.retrieveShardStreamFinal expectedHash)

/-- What the node sends in a single frame has the hash, where it comes to that. -/
def SingleFrameHashed (P : Primitives) (peer : ShardPeer) (shardHash : Digest) : Prop :=
  peer.LeavesSingleFrame → peer.opensSingleFrame → peer.takesRequest →
    ∀ hash data, peer.answered = some (.retrieveShardResponse hash (some data)) →
      P.blake3 data = shardHash

end ShardPeer

/-- It does not panic, and the bytes it returns have the hash. -/
def RetrievedSoundly (P : Primitives) (shardHashHex : List Char)
    (outcome : Option (Except RetrieveError Bytes)) : Prop :=
  ∃ result, outcome = some result ∧
    ∀ data, result = .ok data → parseShardHash shardHashHex = some (P.blake3 data)

variable {P : Primitives} {peer : ShardPeer} {addr : SocketAddr} {shardHash : Digest}
  {data : ByteVec} {messages : List ShardMessage} {attempt : StreamAttempt} {hex : List Char}

/-- The loop panics when the vector cannot grow with the chunks. -/
theorem receiveChunks_eq_none {hashed : Bytes} :
    receiveChunks P shardHash data hashed messages = none ↔
      ¬data.RoomFor ((leadingChunks messages).map List.length) := by
  induction messages generalizing data hashed with
  | nil => simp [receiveChunks, leadingChunks, ByteVec.roomFor_nil]
  | cons message rest ih =>
    cases message with
    | retrieveShardChunk chunk =>
      rw [receiveChunks, leadingChunks, List.map_cons]
      cases hgrown : data.extendFromSlice chunk with
      | none =>
        exact iff_of_true rfl (ByteVec.extendFromSlice_none hgrown)
      | some grown =>
        rw [(ByteVec.extendFromSlice_some hgrown).2]
        exact ih
    | retrieveShardStreamFinal expectedHash =>
      refine iff_of_false ?_ (not_not.mpr ByteVec.roomFor_nil)
      unfold receiveChunks
      split <;> simp
    | retrieveShardStreamAck found totalBytes =>
      exact iff_of_false (by simp [receiveChunks]) (not_not.mpr ByteVec.roomFor_nil)
    | retrieveShardResponse hash held =>
      exact iff_of_false (by simp [receiveChunks]) (not_not.mpr ByteVec.roomFor_nil)
    | other => exact iff_of_false (by simp [receiveChunks]) (not_not.mpr ByteVec.roomFor_nil)

/-- The loop closes the connection at the final hash, and the bytes it gives have the hash. -/
structure StreamAttempt.Received (P : Primitives) (shardHash : Digest) (messages : List ShardMessage)
    (attempt : StreamAttempt) : Prop where
  closed : attempt.closed ↔ ∃ expectedHash,
    afterChunks messages = some (.retrieveShardStreamFinal expectedHash)
  result : attempt.result = .error .receive ∨
    ∃ bytes, attempt.result = .ok (some bytes) ∧ P.blake3 bytes = shardHash ∧ attempt.closed

theorem receiveChunks_some
    (h : receiveChunks P shardHash data data.bytes messages = some attempt) :
    attempt.Received P shardHash messages := by
  induction messages generalizing data with
  | nil =>
    cases Option.some.inj h
    exact ⟨by simp [afterChunks], Or.inl rfl⟩
  | cons message rest ih =>
    cases message with
    | retrieveShardChunk chunk =>
      obtain ⟨grown, hgrown, h⟩ := Option.bind_eq_some_iff.mp h
      obtain ⟨hbytes, -⟩ := @ByteVec.extendFromSlice_some data grown chunk [] hgrown
      rw [← hbytes] at h
      exact ⟨(ih h).closed, (ih h).result⟩
    | retrieveShardStreamFinal expectedHash =>
      unfold receiveChunks at h
      split at h
      next hsame =>
        cases Option.some.inj h
        exact ⟨by simp [afterChunks], Or.inr ⟨data.bytes, rfl, hsame.2, rfl⟩⟩
      next =>
        cases Option.some.inj h
        exact ⟨by simp [afterChunks], Or.inl rfl⟩
    | retrieveShardStreamAck found totalBytes =>
      cases Option.some.inj h
      exact ⟨by simp [afterChunks], Or.inl rfl⟩
    | retrieveShardResponse hash held =>
      cases Option.some.inj h
      exact ⟨by simp [afterChunks], Or.inl rfl⟩
    | other =>
      cases Option.some.inj h
      exact ⟨by simp [afterChunks], Or.inl rfl⟩

/-- What `retrieve_shard` makes of the streaming attempt. -/
inductive StreamAttempt.Outcome (P : Primitives) (shardHash : Digest) (peer : ShardPeer)
    (attempt : StreamAttempt) : Prop
  | delivered (bytes : Bytes) (result : attempt.result = .ok (some bytes))
      (hashed : P.blake3 bytes = shardHash) (left : ¬peer.LeavesSingleFrame)
  | refused (result : attempt.result = .error .shardNotFound) (left : ¬peer.LeavesSingleFrame)
  | failed (result : ∀ bytes, attempt.result ≠ .ok (some bytes))
      (found : attempt.result ≠ .error .shardNotFound)
      (closed : attempt.closed = false ↔ peer.LeavesSingleFrame)

/-- Nothing is streamed, or the first message is no answer to the request. -/
theorem failed_of_not_ack (hresult : ∀ bytes, attempt.result ≠ .ok (some bytes))
    (hfound : attempt.result ≠ .error .shardNotFound) (hclosed : attempt.closed = false)
    (hnone : ∀ found totalBytes rest, ¬peer.Streams (.retrieveShardStreamAck found totalBytes :: rest)) :
    peer.AnnouncesRoom ∧ attempt.Outcome P shardHash peer := by
  refine ⟨fun totalBytes rest hstreams => (hnone true totalBytes rest hstreams).elim, ?_⟩
  refine .failed hresult hfound (iff_of_true hclosed ?_)
  exact fun found totalBytes rest hstreams => (hnone found totalBytes rest hstreams).elim

/-- The stream of a node that has found the shard. -/
theorem receiveFound_cases {totalBytes : UInt64} {rest : List ShardMessage}
    (hstreams : peer.Streams (.retrieveShardStreamAck true totalBytes :: rest)) :
    let attempted := do
      let data ← ByteVec.withCapacity totalBytes.toNat
      receiveChunks P shardHash data [] rest
    (attempted = none ∧ ¬peer.AnnouncesRoom) ∨
      ∃ attempt, attempted = some attempt ∧ peer.AnnouncesRoom ∧
        attempt.Outcome P shardHash peer := by
  have hroom : peer.AnnouncesRoom ↔ totalBytes.toNat ≤ isizeMax ∧
      Room totalBytes.toNat 0 ((leadingChunks rest).map List.length) := by
    constructor
    · exact fun hroom => hroom totalBytes rest hstreams
    · rintro hroom totalBytes' rest' ⟨-, -, hhead⟩
      cases hstreams.2.2.symm.trans hhead
      exact hroom
  cases halloc : ByteVec.withCapacity totalBytes.toNat with
  | none =>
    have hlarge := ByteVec.withCapacity_eq_none.mp halloc
    exact Or.inl ⟨rfl, fun h => Nat.not_le.mpr hlarge (hroom.mp h).1⟩
  | some data =>
    obtain ⟨hbytes, hcapacity⟩ := ByteVec.withCapacity_some halloc
    have hsmall : totalBytes.toNat ≤ isizeMax := hcapacity ▸ data.small
    have hfor : data.RoomFor ((leadingChunks rest).map List.length) ↔ peer.AnnouncesRoom := by
      rw [hroom, and_iff_right hsmall, ByteVec.RoomFor, hbytes, hcapacity, List.length_nil]
    have hnone := @receiveChunks_eq_none P shardHash data rest data.bytes
    rw [hfor] at hnone
    simp only [Option.bind_eq_bind, Option.bind_some]
    rw [← hbytes]
    cases hloop : receiveChunks P shardHash data data.bytes rest with
    | none => exact Or.inl ⟨rfl, hnone.mp hloop⟩
    | some attempt =>
      have hreceived := receiveChunks_some hloop
      have hleft : attempt.closed = false ↔ peer.LeavesSingleFrame := by
        rw [← Bool.not_eq_true, hreceived.closed, not_exists]
        constructor
        · rintro hnone found totalBytes' rest' ⟨-, -, hhead⟩
          cases hstreams.2.2.symm.trans hhead
          exact ⟨rfl, hnone⟩
        · exact fun hleaves => (hleaves true totalBytes rest hstreams).2
      have hannounces : peer.AnnouncesRoom := by
        refine not_not.mp (mt hnone.mpr ?_)
        rw [hloop]
        exact Option.some_ne_none attempt
      refine Or.inr ⟨attempt, rfl, hannounces, ?_⟩
      rcases hreceived.result with hresult | ⟨bytes, hresult, hhash, hclosed⟩
      · exact .failed (by simp [hresult]) (by simp [hresult]) hleft
      · refine .delivered bytes hresult hhash fun hleaves => ?_
        exact absurd hclosed (Bool.not_eq_true _ ▸ hleft.mpr hleaves)

/-- The streaming attempt panics when the announced length, or what follows, has no room. -/
theorem streamAttempt_cases (P : Primitives) (peer : ShardPeer) (addr : SocketAddr)
    (shardHash : Digest) :
    (streamAttempt P peer addr shardHash = none ∧ ¬peer.AnnouncesRoom) ∨
      ∃ attempt, streamAttempt P peer addr shardHash = some attempt ∧ peer.AnnouncesRoom ∧
        attempt.Outcome P shardHash peer := by
  unfold streamAttempt
  split
  next hclosed =>
    refine Or.inr ⟨_, rfl, failed_of_not_ack (by simp) (by simp) rfl ?_⟩
    rintro found totalBytes rest ⟨hopens, -, -⟩
    simp [hopens] at hclosed
  next hopens =>
    split
    next hrefused =>
      refine Or.inr ⟨_, rfl, failed_of_not_ack (by simp) (by simp) rfl ?_⟩
      rintro found totalBytes rest ⟨-, htakes, -⟩
      simp [htakes] at hrefused
    next htakes =>
      have hstreams : ∀ messages, peer.streamed = messages → peer.Streams messages := by
        intro messages hmessages
        exact ⟨by simpa using hopens, by simpa using htakes, hmessages⟩
      split
      next totalBytes rest hhead => exact receiveFound_cases (hstreams _ hhead)
      next totalBytes rest hhead =>
        have hstreamed := hstreams _ hhead
        refine Or.inr ⟨_, rfl, ?_, .refused rfl fun hleaves => ?_⟩
        · rintro totalBytes' rest' ⟨-, -, hhead'⟩
          cases hhead.symm.trans hhead'
        · simpa using (hleaves false totalBytes rest hstreamed).1
      next hfound hrefused =>
        refine Or.inr ⟨_, rfl, failed_of_not_ack (by simp) (by simp) rfl ?_⟩
        rintro found totalBytes rest ⟨-, -, hhead⟩
        cases found with
        | false => exact hrefused totalBytes rest hhead
        | true => exact hfound totalBytes rest hhead

theorem singleFrameAttempt_ok {closed : Bool} {bytes : Bytes} :
    singleFrameAttempt peer addr closed = .ok bytes ↔ closed = false ∧ peer.opensSingleFrame ∧
      peer.takesRequest ∧ ∃ hash, peer.answered = some (.retrieveShardResponse hash (some bytes)) := by
  unfold singleFrameAttempt
  cases closed <;> cases peer.opensSingleFrame <;> cases peer.takesRequest
  all_goals first | simp; done | skip
  cases hanswered : peer.answered with
  | none => simp
  | some message =>
    cases message with
    | retrieveShardResponse hash held => cases held <;> simp
    | _ => simp

/-- A retrieval is sound if and only if the lengths that the node announces and sends have room
and, where the single frame is tried, its bytes have the hash. -/
theorem retrievedSoundly_iff (P : Primitives) (peer : ShardPeer) (addr : SocketAddr)
    (hex : List Char) : RetrievedSoundly P hex (retrieveFromPeer P peer addr hex) ↔
      ∀ shardHash, parseShardHash hex = some shardHash → peer.connects →
        peer.AnnouncesRoom ∧ peer.SingleFrameHashed P shardHash := by
  unfold retrieveFromPeer RetrievedSoundly
  cases hparse : parseShardHash hex with
  | none => simp
  | some shardHash =>
    cases hconnects : peer.connects with
    | false => simp
    | true =>
      simp only [Option.some.injEq, forall_eq', forall_const, Bool.not_true, Bool.false_eq_true,
        if_false]
      rcases streamAttempt_cases P peer addr shardHash with
        ⟨hnone, hroom⟩ | ⟨attempt, hsome, hroom, houtcome⟩
      · rw [hnone]
        refine iff_of_false ?_ (fun h => hroom h.1)
        rintro ⟨result, hresult, -⟩
        simp at hresult
      · rw [hsome]
        cases houtcome with
        | delivered bytes result hashed left =>
          simp only [Option.bind_eq_bind, Option.bind_some, result]
          refine iff_of_true ⟨_, rfl, fun data hdata => ?_⟩ ⟨hroom, fun h => (left h).elim⟩
          cases Except.ok.inj hdata
          exact hashed.symm
        | refused result left =>
          simp only [Option.bind_eq_bind, Option.bind_some, result]
          exact iff_of_true ⟨_, rfl, by simp⟩ ⟨hroom, fun h => (left h).elim⟩
        | failed result found closed =>
          simp only [Option.bind_eq_bind, Option.bind_some]
          constructor
          · rintro ⟨_, hresult, hsound⟩
            cases Option.some.inj hresult
            refine ⟨hroom, fun hleaves hopens htakes hash bytes hanswered => ?_⟩
            refine (hsound bytes ?_).symm
            exact singleFrameAttempt_ok.mpr ⟨closed.mpr hleaves, hopens, htakes, hash, hanswered⟩
          · rintro ⟨-, hhashed⟩
            refine ⟨_, rfl, fun bytes hbytes => ?_⟩
            obtain ⟨hclosed, hopens, htakes, hash, hanswered⟩ := singleFrameAttempt_ok.mp hbytes
            exact (hhashed (closed.mp hclosed) hopens htakes hash bytes hanswered).symm

/-- A node that announces a length beyond every allocation. -/
def boundlessPeer : ShardPeer :=
  ⟨true, true, true, [.retrieveShardStreamAck true 0xffffffffffffffff], true, true, none⟩

/-- A node that knows no streams and sends other bytes in the single frame. -/
def lyingPeer (shardHash : Digest) (data : Bytes) : ShardPeer :=
  ⟨true, true, true, [.other], true, true, some (.retrieveShardResponse shardHash (some data))⟩

def peerAddr : SocketAddr := ⟨.v4 192 168 1 7, 5050⟩

/-- The announced length makes the caller panic, and other bytes are returned for the shard. -/
theorem peer_lengths_and_bytes_unchecked :
    let P := referencePrimitives
    let shardHash := P.blake3 [1, 2, 3]
    retrieveFromPeer P boundlessPeer peerAddr (toHex shardHash) = none ∧
      retrieveFromPeer P (lyingPeer shardHash [4]) peerAddr (toHex shardHash) = some (.ok [4]) ∧
      ¬RetrievedSoundly P (toHex shardHash)
        (retrieveFromPeer P boundlessPeer peerAddr (toHex shardHash)) ∧
      ¬RetrievedSoundly P (toHex shardHash)
        (retrieveFromPeer P (lyingPeer shardHash [4]) peerAddr (toHex shardHash)) := by
  intro P shardHash
  have hpanic : retrieveFromPeer P boundlessPeer peerAddr (toHex shardHash) = none := by
    have hlarge : ByteVec.withCapacity 0xffffffffffffffff = none :=
      ByteVec.withCapacity_eq_none.mpr (by decide)
    simp [retrieveFromPeer, boundlessPeer, streamAttempt, hlarge]
  have hbytes : retrieveFromPeer P (lyingPeer shardHash [4]) peerAddr (toHex shardHash) =
      some (.ok [4]) := by
    simp [retrieveFromPeer, lyingPeer, streamAttempt, singleFrameAttempt]
  have hother : shardHash ≠ P.blake3 [4] := by
    change referenceHash [1, 2, 3] ≠ referenceHash [4]
    decide +kernel
  refine ⟨hpanic, hbytes, ?_, ?_⟩
  · rintro ⟨result, hresult, -⟩
    rw [hpanic] at hresult
    simp at hresult
  · rintro ⟨result, hresult, hsound⟩
    rw [hbytes] at hresult
    have hhash := hsound [4] (Option.some.inj hresult).symm
    rw [parseShardHash_toHex] at hhash
    exact hother (Option.some.inj hhash)

end Reminisce

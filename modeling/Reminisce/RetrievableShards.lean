import Reminisce.Library.Bincode
import Reminisce.RelayFrames
import Reminisce.ShardStore

namespace Reminisce

section

open Bincode ByteOrder

/-- The protocol messages that carry shards and their requests. -/
inductive Message
  | storeShardRequest (shardHash : Digest) (data : Bytes) (token : ShardToken)
  | retrieveShardRequest (shardHash : Digest) (token : ShardToken)
  | retrieveShardResponse (shardHash : Digest) (data : Option Bytes)
  | relayResponse (payload : Bytes)
  | storeShardChunk (data : Bytes)

def ShardToken.serialize (token : ShardToken) : Bytes :=
  token.ownerNodeId.toList ++ toLe 8 token.timestamp.toNat ++ vec token.signature

/-- `bincode::serialize`, the index of the variant first. -/
def Message.serialize : Message → Bytes
  | .storeShardRequest shardHash data token =>
    toLe 4 2 ++ shardHash.toList ++ vec data ++ token.serialize
  | .retrieveShardRequest shardHash token => toLe 4 4 ++ shardHash.toList ++ token.serialize
  | .retrieveShardResponse shardHash data => toLe 4 5 ++ shardHash.toList ++ optionVec data
  | .relayResponse payload => toLe 4 11 ++ vec payload
  | .storeShardChunk data => toLe 4 23 ++ vec data

/-- The fields of a `RetrieveShardResponse`. -/
def deserializeResponse (bytes : Bytes) : Option (Digest × Option Bytes) := do
  let (variant, rest) ← readUint 4 bytes
  if variant ≠ 5 then none
  else
    let (hash, rest) ← readExact 32 rest
    let (data, _) ← readOptionVec rest
    if h : hash.length = 32 then some (⟨hash, h⟩, data) else none

/-- `Protocol::send`: what goes over the wire, unless the message is too long. -/
def Message.frame (message : Message) : Option Bytes :=
  let bytes := message.serialize
  if maxMessageLen < bytes.length then none else some (toBeBytes 4 bytes.length ++ bytes)

/-- `Protocol::receive`, up to the bytes of the message. -/
def receiveFrame (bytes : Bytes) : Option Bytes :=
  if bytes.length < 4 then none
  else
    let len := fromBeBytes (bytes.take 4)
    if maxMessageLen < len ∨ (bytes.drop 4).length < len then none
    else some ((bytes.drop 4).take len)

variable {shardHash : Digest} {data payload : Bytes} {token : ShardToken} {message : Message}

theorem length_serialize_store : (Message.storeShardRequest shardHash data token).serialize.length =
    data.length + token.signature.length + 92 := by
  simp only [Message.serialize, ShardToken.serialize, List.length_append, length_toLe, length_vec,
    List.Vector.toList_length]
  omega

theorem length_serialize_request :
    (Message.retrieveShardRequest shardHash token).serialize.length =
      token.signature.length + 84 := by
  simp only [Message.serialize, ShardToken.serialize, List.length_append, length_toLe, length_vec,
    List.Vector.toList_length]
  omega

theorem length_serialize_response :
    (Message.retrieveShardResponse shardHash (some data)).serialize.length = data.length + 45 := by
  simp only [Message.serialize, optionVec, List.length_append, List.length_cons, length_toLe,
    length_vec, List.Vector.toList_length]
  omega

theorem frame_isSome : message.frame.isSome ↔ message.serialize.length ≤ maxMessageLen := by
  unfold Message.frame
  simp only
  split
  next h => simpa using h
  next h => simpa using h

theorem maxMessageLen_lt : maxMessageLen < 2 ^ 28 := by decide

theorem fromBeBytes_append (bytes : Bytes) (b : UInt8) :
    fromBeBytes (bytes ++ [b]) = fromBeBytes bytes * 256 + b.toNat := by
  simp [fromBeBytes]

theorem fromBeBytes_toBeBytes {width n : Nat} (h : n < 256 ^ width) :
    fromBeBytes (toBeBytes width n) = n := by
  induction width generalizing n with
  | zero =>
    obtain rfl : n = 0 := Nat.lt_one_iff.mp h
    rfl
  | succ width ih =>
    have hsmall : n / 256 < 256 ^ width := by
      rw [Nat.pow_succ] at h
      omega
    have hmod : (UInt8.ofNat n).toNat = n % 256 := by simp
    rw [toBeBytes_succ, fromBeBytes_append, ih hsmall, hmod]
    omega

/-- What is sent is received. -/
theorem receiveFrame_frame {bytes : Bytes} (h : message.frame = some bytes) :
    receiveFrame bytes = some message.serialize := by
  unfold Message.frame at h
  simp only at h
  split at h
  next => simp at h
  next hle =>
    cases Option.some.inj h
    have hlimit := maxMessageLen_lt
    have htake : (toBeBytes 4 message.serialize.length ++ message.serialize).take 4 =
        toBeBytes 4 message.serialize.length := List.take_left' (length_toBeBytes 4 _)
    have hdrop : (toBeBytes 4 message.serialize.length ++ message.serialize).drop 4 =
        message.serialize := List.drop_left' (length_toBeBytes 4 _)
    have hlen : fromBeBytes (toBeBytes 4 message.serialize.length) = message.serialize.length :=
      fromBeBytes_toBeBytes (by omega)
    rw [receiveFrame, if_neg (by simp)]
    simp only [htake, hdrop, hlen]
    rw [if_neg (by omega), List.take_length]

theorem deserializeResponse_serialize (h : data.length < 2 ^ 64) :
    deserializeResponse (Message.retrieveShardResponse shardHash (some data)).serialize =
      some (shardHash, some data) := by
  have hvariant := @readUint_toLe 5 4 (by decide)
    (shardHash.toList ++ optionVec (some data))
  have hhash := readExact_append shardHash.toList (optionVec (some data))
  have hdata := readOptionVec_some h []
  rw [List.append_nil] at hdata
  rw [List.Vector.toList_length] at hhash
  simp only [deserializeResponse, Message.serialize, List.append_assoc, hvariant, hhash, hdata,
    Option.bind_eq_bind, Option.bind_some, ne_eq, not_true_eq_false, if_false,
    List.Vector.toList_length, dif_pos]
  rfl

end

open FileSystem ShardMap

/-- A request for the shard by this token, alone on the node, ends in this reply. -/
def RepliesAlone (cfg : NodeConfig) (s : NodeState) (shardHash : Digest) (reply : NodeReply) :
    Prop :=
  ∀ salt space token, cfg.allows (s.env space) token .retrieve shardHash →
    ∃ (inputs : List TaskInput) (s' : NodeState),
    Runs.exec (nodeStep cfg) s (.request salt space (.retrieveShard shardHash token) ::
      inputs.map (.step s.tasks.length space ·)) = some s' ∧ s'.sent = s.sent ++ [reply]

/-- The reply reaches a requester that is connected to the node. -/
def AnsweredDirectly (shardHash : Digest) (data : Bytes) : Prop :=
  ∃ frame payload, (Message.retrieveShardResponse shardHash (some data)).frame = some frame ∧
    receiveFrame frame = some payload ∧
    deserializeResponse payload = some (shardHash, some data)

/-- The reply reaches a requester behind the coordinator, whenever it is delivered in time. -/
def AnsweredViaRelay (shardHash : Digest) (data : Bytes) : Prop :=
  ∃ frame payload, (Message.retrieveShardResponse shardHash (some data)).frame = some frame ∧
    receiveFrame frame = some payload ∧
    deserializeResponse payload = some (shardHash, some data) ∧
    ∀ env targetNodeId token, RelayEnv.Answered env targetNodeId
        (Message.retrieveShardRequest shardHash token).serialize payload →
      relay env targetNodeId (Message.retrieveShardRequest shardHash token).serialize =
        some (.relayResponse payload)

/-- A request for the shard is answered with these bytes, directly and through the relay. -/
structure ShardAnswered (cfg : NodeConfig) (s : NodeState) (shardHash : Digest) (data : Bytes) :
    Prop where
  replies : RepliesAlone cfg s shardHash (.retrieveShardResponse shardHash (some data))
  direct : AnsweredDirectly shardHash data
  relayed : AnsweredViaRelay shardHash data

/-- The longest shard whose response fits a frame, and the response to the relay around it. -/
def maxRelayable : Nat := maxMessageLen - 57

variable {cfg : NodeConfig} {s s' : NodeState} {shardHash : Digest} {data : Bytes}

theorem nodeStep_task {i : Nat} {task : NodeTask} {space : Except String Nat} {input : TaskInput}
    {o : TaskOutcome} (hi : s.tasks[i]? = some task)
    (h : taskStep cfg (s.env space) s.disk task input = some o) :
    nodeStep cfg s (.step i space input) = some (s.after i o) := by
  rw [nodeStep, hi, Option.bind_some, h, Option.map_some]

theorem getElem?_after {i : Nat} {task next : NodeTask} {o : TaskOutcome}
    (hi : s.tasks[i]? = some task) (h : o.next = some next) :
    (s.after i o).tasks[i]? = some next := by
  have hlt : i < s.tasks.length := (List.getElem?_eq_some_iff.mp hi).1
  simp [NodeState.after, resume, h, hlt]

/-- An open file is read to its end and sent. -/
theorem reading_alone {i ino : Nat} {chunks : List Bytes} (space : Except String Nat)
    (hi : s.tasks[i]? = some (.reading (.shard shardHash) ino chunks))
    (hpre : chunks.flatten <+: (s.disk.inodes ino).bytes) :
    ∃ (inputs : List TaskInput) (s' : NodeState),
      Runs.exec (nodeStep cfg) s (inputs.map (NodeEvent.step i space)) = some s' ∧
        s'.sent = s.sent ++ [.retrieveShardResponse shardHash (some (s.disk.inodes ino).bytes)] := by
  have hend : ∀ {s : NodeState} {chunks : List Bytes},
      s.tasks[i]? = some (.reading (.shard shardHash) ino chunks) →
      chunks.flatten = (s.disk.inodes ino).bytes →
      ∃ s', nodeStep cfg s (.step i space (.io 0)) = some s' ∧
        s'.sent = s.sent ++ [.retrieveShardResponse shardHash (some (s.disk.inodes ino).bytes)] := by
    intro s chunks hi hall
    have hstep : taskStep cfg (s.env space) s.disk (.reading (.shard shardHash) ino chunks) (.io 0) =
        some (finish (s.env space) s.disk
          [.retrieveShardResponse shardHash (some (s.disk.inodes ino).bytes)]) := by
      simp only [taskStep, readTaskStep, hall, List.drop_length, ReadTarget.answer]
    exact ⟨_, nodeStep_task hi hstep, rfl⟩
  obtain ⟨rest, hrest⟩ := hpre
  cases rest with
  | nil =>
    rw [List.append_nil] at hrest
    obtain ⟨s', hlast, hsent⟩ := hend hi hrest
    exact ⟨[.io 0], s', by simp [Runs.exec, hlast], hsent⟩
  | cons b rest =>
    have hstep : taskStep cfg (s.env space) s.disk (.reading (.shard shardHash) ino chunks)
        (.io rest.length) = some (goOn (s.env space) s.disk
          (.reading (.shard shardHash) ino (chunks ++ [b :: rest]))) := by
      simp only [taskStep, readTaskStep, ← hrest, List.drop_left]
      rw [List.take_of_length_le (by simp)]
    have hnode := nodeStep_task hi hstep
    have hnext := getElem?_after hi (o := goOn (s.env space) s.disk
      (.reading (.shard shardHash) ino (chunks ++ [b :: rest]))) rfl
    obtain ⟨s', hlast, hsent⟩ := hend hnext (by simpa [NodeState.after, goOn] using hrest)
    refine ⟨[.io rest.length, .io 0], s', by simp [Runs.exec, hnode, hlast], ?_⟩
    rw [hsent]
    simp [NodeState.after, goOn]

/-- A retrieval with nothing in between reads the whole file. -/
theorem repliesAlone_stored (h : s.disk.read (getShardPath shardHash) = some data) :
    RepliesAlone cfg s shardHash (.retrieveShardResponse shardHash (some data)) := by
  intro salt space token hallowed
  obtain ⟨ino, hino, rfl⟩ := Option.map_eq_some_iff.mp h
  let requested : NodeState := { s with tasks := s.tasks ++ [.readCheck (.shard shardHash)] }
  have hrequest : nodeStep cfg s (.request salt space (.retrieveShard shardHash token)) =
      some requested := by
    simp [nodeStep, handleRequest, hallowed, requested]
  have hcheck : requested.tasks[s.tasks.length]? = some (.readCheck (.shard shardHash)) := by
    simp [requested]
  have hfound : taskStep cfg (requested.env space) requested.disk (.readCheck (.shard shardHash))
      (.io 0) = some (goOn (requested.env space) s.disk (.readOpen (.shard shardHash) 0)) := by
    simp only [taskStep, readTaskStep, ReadTarget.path, requested, hino]
  have hopen := getElem?_after hcheck (o := goOn (requested.env space) s.disk
    (.readOpen (.shard shardHash) 0)) rfl
  have hopened := nodeStep_task hcheck hfound
  generalize hfirst : requested.after s.tasks.length _ = first at hopen hopened
  have hdisk : first.disk = s.disk := by rw [← hfirst]; rfl
  have hsent : first.sent = s.sent := by rw [← hfirst]; simp [NodeState.after, goOn, requested]
  have hread : taskStep cfg (first.env space) first.disk (.readOpen (.shard shardHash) 0) (.io 0) =
      some { goOn (first.env space) s.disk (.reading (.shard shardHash) ino []) with
        op := some (.get shardHash (some (s.disk.inodes ino).bytes)) } := by
    simp only [taskStep, readTaskStep, ReadTarget.path, ReadTarget.op, hdisk, hino, goOn]
  have hreading := getElem?_after hopen (o := { goOn (first.env space) s.disk
    (.reading (.shard shardHash) ino []) with
      op := some (.get shardHash (some (s.disk.inodes ino).bytes)) }) rfl
  obtain ⟨inputs, s', hrun, hlast⟩ := @reading_alone cfg _ _ _ _ _ space hreading (by simp)
  refine ⟨.io 0 :: .io 0 :: inputs, s', ?_, ?_⟩
  · simp only [List.map_cons, Runs.exec, hrequest, hopened, nodeStep_task hopen hread,
      Option.bind_some]
    exact hrun
  · rw [hlast]
    simp [NodeState.after, goOn, hsent]

/-- A complete answer in time goes back if and only if it fits a frame with its envelope. -/
theorem relay_answered {env : RelayEnv} {targetNodeId : NodeId} {payload body : Bytes}
    (h : env.Answered targetNodeId payload body) :
    relay env targetNodeId payload = some (.relayResponse body) ↔
      12 + body.length ≤ maxMessageLen := by
  obtain ⟨hsize, hanswered⟩ := h
  rw [relay, if_neg (Nat.not_lt.mpr hsize)]
  cases hchannel : env.channel with
  | some io =>
    rw [hchannel] at hanswered
    exact relayViaChannel_iff.trans (and_iff_right hanswered.collects)
  | none =>
    rw [hchannel] at hanswered
    obtain ⟨addr, io, haddr, hconnect, hio⟩ := hanswered
    simp only [haddr, hconnect]
    exact relayDirect_iff.trans (and_iff_right hio)

/-- A target that answers over its channel at once. -/
def promptEnv (body : Bytes) : RelayEnv :=
  { channel := some { opened := .ok (some 0)
                      stream := ⟨(toBeBytes 4 body.length ++ body).map fun b => (0, b), none⟩ }
    peers := PeerMap.empty, peerTtlSecs := 120, now := 0, connect := fun _ => .timedOut }

theorem arrival_zero (bytes : Bytes) : arrival 0 (bytes.map fun b => (0, b)) = 0 := by
  induction bytes with
  | nil => rfl
  | cons b bytes ih => exact ih

theorem promptEnv_answered {body payload : Bytes} {targetNodeId : NodeId}
    (hbody : body.length ≤ maxRelayPayload) (hpayload : payload.length ≤ maxRelayPayload) :
    (promptEnv body).Answered targetNodeId payload body := by
  have hlimit : maxRelayPayload < 256 ^ 4 := by decide
  have hfirst : ((toBeBytes 4 body.length ++ body).map fun b => ((0 : Time), b)).take 4 =
      (toBeBytes 4 body.length).map fun b => (0, b) := by
    rw [← List.map_take, List.take_left' (length_toBeBytes 4 _)]
  have hrest : (((toBeBytes 4 body.length ++ body).map fun b => ((0 : Time), b)).drop 4).take
      body.length = body.map fun b => (0, b) := by
    rw [← List.map_drop, List.drop_left' (length_toBeBytes 4 _), List.take_of_length_le (by simp)]
  have hsnd : ∀ bytes : Bytes, (bytes.map fun b => ((0 : Time), b)).map Prod.snd = bytes := by
    intro bytes
    simp
  refine ⟨hpayload, 0, rfl, ⟨?_, ?_, ?_⟩, hbody, ?_⟩
  · simp
  · simp only [hfirst, hsnd]
    exact fromBeBytes_toBeBytes (Nat.lt_of_le_of_lt hbody hlimit)
  · simp only [hrest, hsnd]
  · simp only [TargetStream.InTimeOnChannel, hfirst, hrest, arrival_zero]
    exact ⟨Nat.zero_le _, Nat.zero_le _⟩

theorem answeredDirectly_iff :
    AnsweredDirectly shardHash data ↔ data.length + 45 ≤ maxMessageLen := by
  have hlen := @length_serialize_response shardHash data
  constructor
  · rintro ⟨frame, payload, hframe, -⟩
    have hsome := frame_isSome.mp (Option.isSome_of_eq_some hframe)
    omega
  · intro hle
    have hlimit := maxMessageLen_lt
    obtain ⟨frame, hframe⟩ := Option.isSome_iff_exists.mp (frame_isSome.mpr (hlen.trans_le hle))
    exact ⟨frame, _, hframe, receiveFrame_frame hframe,
      deserializeResponse_serialize (by omega)⟩

theorem answeredViaRelay_iff :
    AnsweredViaRelay shardHash data ↔ data.length ≤ maxRelayable := by
  have hlen := @length_serialize_response shardHash data
  have hrelayable : data.length ≤ maxRelayable ↔ data.length + 57 ≤ maxMessageLen := by
    unfold maxRelayable
    have : 57 ≤ maxMessageLen := by decide
    omega
  rw [hrelayable]
  constructor
  · rintro ⟨frame, payload, hframe, hreceived, -, hrelayed⟩
    have hsome := frame_isSome.mp (Option.isSome_of_eq_some hframe)
    rw [receiveFrame_frame hframe, Option.some.injEq] at hreceived
    subst hreceived
    let token : ShardToken := ⟨shardHash, 0, []⟩
    have hrequest := @length_serialize_request shardHash token
    have hanswered : (promptEnv (Message.retrieveShardResponse shardHash (some data)).serialize).Answered
        "" (Message.retrieveShardRequest shardHash token).serialize
          (Message.retrieveShardResponse shardHash (some data)).serialize := by
      refine promptEnv_answered hsome ?_
      rw [hrequest]
      change 0 + 84 ≤ maxRelayPayload
      decide
    have hfits := (relay_answered hanswered).mp (hrelayed _ _ _ hanswered)
    omega
  · intro hle
    obtain ⟨frame, payload, hframe, hreceived, hparsed⟩ :=
      (@answeredDirectly_iff shardHash data).mpr (by omega)
    refine ⟨frame, payload, hframe, hreceived, hparsed, ?_⟩
    intro env targetNodeId token hanswered
    rw [receiveFrame_frame hframe, Option.some.injEq] at hreceived
    exact (relay_answered hanswered).mpr (by
      rw [← hreceived, hlen]
      omega)

/-- A stored shard is answered both ways if and only if it is short enough. -/
theorem shardAnswered_iff (h : s.disk.read (getShardPath shardHash) = some data) :
    ShardAnswered cfg s shardHash data ↔ data.length ≤ maxRelayable := by
  rw [← @answeredViaRelay_iff shardHash data]
  constructor
  · exact fun answered => answered.relayed
  · intro hrelayed
    refine ⟨repliesAlone_stored h, ?_, hrelayed⟩
    obtain ⟨frame, payload, hframe, hreceived, hparsed, -⟩ := hrelayed
    exact ⟨frame, payload, hframe, hreceived, hparsed⟩

end Reminisce

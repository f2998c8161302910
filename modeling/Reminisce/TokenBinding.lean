import Reminisce.ShardStore
import Reminisce.RelayedTokens

namespace Reminisce

section Delivery

variable {cfg : NodeConfig} {key : Digest} {env : NodeEnv} {salt : Salt} {request : NodeRequest}
  {task : NodeTask}

/-- Every branch of the handler checks the token of its own operation before it goes on. -/
theorem handleRequest_allows (h : (handleRequest cfg env salt request).1 = some task) :
    ∃ op hash token, request.authority cfg = some (op, hash, token) ∧
      cfg.allows env token op hash = true := by
  cases request with
  | handshake nodeId version =>
    simp only [handleRequest] at h
    split at h <;> simp at h
  | heartbeat => simp [handleRequest] at h
  | other => simp [handleRequest] at h
  | storeShard shardHash data token =>
    simp only [handleRequest] at h
    split at h
    next => simp at h
    next =>
      split at h
      next hallows => exact ⟨_, _, _, rfl, hallows⟩
      next => simp at h
  | storeShardStreamInit fileHash shardIndex total token =>
    simp only [handleRequest] at h
    split at h
    next => simp at h
    next =>
      split at h
      next hallows => exact ⟨_, _, _, rfl, hallows⟩
      next => simp at h
  | _ =>
    simp only [handleRequest] at h
    split at h
    next hallows => exact ⟨_, _, _, rfl, hallows⟩
    next => simp at h

/-- A token that an owned node accepts bears a signature of the owner. -/
theorem allows_signed {token : ShardToken} {op : ShardOp} {hash : Digest}
    (h : (cfg.ownedBy key).allows env token op hash = true) :
    verifySignature cfg.scheme (cfg.scheme.publicKey key) (tokenMessage op hash token.timestamp)
      token.signature = true := by
  unfold NodeConfig.allows verifyShardToken at h
  split at h
  next => simp at h
  next howner =>
    split at h
    next => simp at h
    next =>
      have heq : cfg.scheme.publicKey key = token.ownerNodeId := by
        simpa [NodeConfig.ownedBy] using howner
      rw [heq]
      exact h

/-- The node accepts the owner's token at the time it was made. -/
theorem owner_allowed (m : OwnerMessage) :
    (cfg.ownedBy key).allows (envAt m.timestamp) (m.token cfg key) m.request.op
      (m.request.target cfg) = true := by
  have hnow : UInt64.ofNat ((envAt m.timestamp).now / 10 ^ 9) = m.timestamp := by
    simp [envAt]
  unfold NodeConfig.allows
  rw [hnow]
  exact verifyShardToken_create cfg.scheme key m.request.op (m.request.target cfg) m.timestamp

theorem receivedShard_ownedBy (received : Option Bytes) (frames : List NodeFrame) :
    receivedShard (cfg.ownedBy key) received frames = receivedShard cfg received frames := by
  induction frames generalizing received with
  | nil => cases received <;> rfl
  | cons frame frames ih =>
    cases frame with
    | chunk data => simp only [receivedShard, ih]
    | final shardHash => cases received <;> rfl
    | broken => cases received <;> rfl
    | timeout => cases received <;> rfl

section Writes

variable (cfg env) (frames : List NodeFrame) (token : ShardToken)

/-- What each message sets, and when. -/
theorem messageWrite_storeShard (shardHash : Digest) (data : Bytes) :
    messageWrite cfg env ⟨.storeShard shardHash data token, frames⟩ =
      if cfg.blake3 data = shardHash ∧ cfg.allows env token .store shardHash = true then
        some (.shard shardHash, some data) else none := by
  by_cases hhash : cfg.blake3 data = shardHash
  · by_cases hallows : cfg.allows env token .store shardHash = true
    · simp [messageWrite, handleRequest, hhash, hallows]
    · simp [messageWrite, handleRequest, hhash, hallows]
  · simp [messageWrite, handleRequest, hhash]

theorem messageWrite_storeShardStreamInit (fileHash : Digest) (shardIndex : UInt8)
    (total : UInt64) :
    messageWrite cfg env ⟨.storeShardStreamInit fileHash shardIndex total token, frames⟩ =
      if total.toNat ≤ maxRetrievable ∧
        cfg.allows env token .store (streamBinding cfg fileHash shardIndex) = true then
        (receivedShard cfg none frames).map fun stored => (.shard stored.1, some stored.2)
      else none := by
  by_cases hcap : maxRetrievable < total.toNat
  · have hcap' : ¬ total.toNat ≤ maxRetrievable := by omega
    simp [messageWrite, handleRequest, hcap, hcap']
  · have hcap' : total.toNat ≤ maxRetrievable := by omega
    by_cases hallows : cfg.allows env token .store (streamBinding cfg fileHash shardIndex) = true
    · simp [messageWrite, handleRequest, hcap, hcap', hallows]
    · simp [messageWrite, handleRequest, hcap, hallows]

theorem messageWrite_deleteShard (shardHash : Digest) :
    messageWrite cfg env ⟨.deleteShard shardHash token, frames⟩ =
      if cfg.allows env token .delete shardHash = true then some (.shard shardHash, none)
      else none := by
  by_cases hallows : cfg.allows env token .delete shardHash = true
  · simp [messageWrite, handleRequest, hallows]
  · simp [messageWrite, handleRequest, hallows]

theorem messageWrite_storePinnedObject (name : String) (data : Bytes) :
    messageWrite cfg env ⟨.storePinnedObject name data token, frames⟩ =
      if cfg.allows env token .store (cfg.blake3 (utf8 name)) = true then
        some (.pinned (cfg.blake3 (utf8 name)), some data) else none := by
  by_cases hallows : cfg.allows env token .store (cfg.blake3 (utf8 name)) = true
  · simp [messageWrite, handleRequest, hallows]
  · simp [messageWrite, handleRequest, hallows]

/-- Retrievals and listings leave the maps alone. -/
theorem messageWrite_retrieveShard (shardHash : Digest) :
    messageWrite cfg env ⟨.retrieveShard shardHash token, frames⟩ = none := by
  cases hallows : cfg.allows env token .retrieve shardHash <;>
    simp [messageWrite, handleRequest, hallows]

theorem messageWrite_retrieveShardStreamInit (shardHash : Digest) :
    messageWrite cfg env ⟨.retrieveShardStreamInit shardHash token, frames⟩ = none := by
  cases hallows : cfg.allows env token .retrieve shardHash <;>
    simp [messageWrite, handleRequest, hallows]

theorem messageWrite_getPinnedObject (name : String) :
    messageWrite cfg env ⟨.getPinnedObject name token, frames⟩ = none := by
  cases hallows : cfg.allows env token .retrieve (cfg.blake3 (utf8 name)) <;>
    simp [messageWrite, handleRequest, hallows]

theorem messageWrite_listShards (dir : Option String) :
    messageWrite cfg env ⟨.listShards dir token, frames⟩ = none := by
  cases hallows : cfg.allows env token .list (cfg.blake3 (utf8 (dir.getD ""))) <;>
    simp [messageWrite, handleRequest, hallows]

theorem messageWrite_handshake (nodeId : Digest) (version : String) :
    messageWrite cfg env ⟨.handshake nodeId version, frames⟩ = none := by
  by_cases hversion : version = protocolVersion <;> simp [messageWrite, handleRequest, hversion]

end Writes

theorem ownerWrite_storeShard (data : Bytes) (timestamp : UInt64) :
    ownerWrite cfg key ⟨.storeShard data, timestamp⟩ = some (.shard (cfg.blake3 data), some data) := by
  have hallowed := @owner_allowed cfg key ⟨.storeShard data, timestamp⟩
  rw [ownerWrite, OwnerMessage.message, OwnerRequest.message, messageWrite_storeShard,
    if_pos ⟨rfl, hallowed⟩]

theorem ownerWrite_storePinnedObject (name : String) (data : Bytes) (timestamp : UInt64) :
    ownerWrite cfg key ⟨.storePinnedObject name data, timestamp⟩ =
      some (.pinned (cfg.blake3 (utf8 name)), some data) := by
  have hallowed := @owner_allowed cfg key ⟨.storePinnedObject name data, timestamp⟩
  rw [ownerWrite, OwnerMessage.message, OwnerRequest.message, messageWrite_storePinnedObject]
  exact if_pos hallowed

theorem ownerWrite_deleteShard (shardHash : Digest) (timestamp : UInt64) :
    ownerWrite cfg key ⟨.deleteShard shardHash, timestamp⟩ = some (.shard shardHash, none) := by
  have hallowed := @owner_allowed cfg key ⟨.deleteShard shardHash, timestamp⟩
  rw [ownerWrite, OwnerMessage.message, OwnerRequest.message, messageWrite_deleteShard]
  exact if_pos hallowed

theorem ownerWrite_storeShardStream (fileHash : Digest) (shardIndex : UInt8) {declared : UInt64}
    (chunks : List Bytes) (timestamp : UInt64) (hcap : declared.toNat ≤ maxRetrievable) :
    ownerWrite cfg key ⟨.storeShardStream fileHash shardIndex declared chunks, timestamp⟩ =
      (receivedShard cfg none (uploadFrames cfg chunks)).map
        fun stored => (.shard stored.1, some stored.2) := by
  have hallowed := @owner_allowed cfg key
    ⟨.storeShardStream fileHash shardIndex declared chunks, timestamp⟩
  rw [ownerWrite, OwnerMessage.message, OwnerRequest.message, messageWrite_storeShardStreamInit,
    if_pos ⟨hcap, hallowed⟩, receivedShard_ownedBy]

end Delivery

open Overwrites

variable {cfg : NodeConfig} {key : Digest} {sent : List OwnerMessage} {deliveries : List Delivery}
  {env : NodeEnv}

/-- The owner's request behind a deletion token. -/
theorem eq_deleteShard {r : OwnerRequest} {hash : Digest} (hop : r.op = .delete)
    (htarget : r.target cfg = hash) : r = .deleteShard hash := by
  cases r with
  | deleteShard shardHash =>
    cases htarget
    rfl
  | _ => simp [OwnerRequest.op] at hop

/-- A delivered message sets nothing, or what a message of the owner sets. -/
def SetsAsOwner (cfg : NodeConfig) (key : Digest) (sent : List OwnerMessage) (d : Delivery) : Prop :=
  messageWrite (cfg.ownedBy key) d.env d.message = none ∨
    ∃ m ∈ sent, messageWrite (cfg.ownedBy key) d.env d.message = ownerWrite cfg key m

theorem setsAsOwner_storeShard {shardHash : Digest} {data : Bytes} {token : ShardToken}
    {frames : List NodeFrame} (hmem : ⟨env, ⟨.storeShard shardHash data token, frames⟩⟩ ∈ deliveries)
    (hapart : ShardsApart cfg sent deliveries)
    (hused : UsedAsIssued cfg key sent ⟨env, ⟨.storeShard shardHash data token, frames⟩⟩) :
    SetsAsOwner cfg key sent ⟨env, ⟨.storeShard shardHash data token, frames⟩⟩ := by
  unfold SetsAsOwner
  simp only [messageWrite_storeShard]
  split
  next hlet =>
    obtain ⟨hhash, hallows⟩ := hlet
    obtain ⟨⟨r, timestamp⟩, hm, htarget, huse⟩ := hused shardHash token rfl hallows
    cases r with
    | storeShard data' =>
      have hdata : data = data' := hapart _ hmem _ hm shardHash data token data' rfl rfl
        (hhash.trans htarget.symm)
      subst hdata
      refine Or.inr ⟨_, hm, ?_⟩
      rw [ownerWrite_storeShard, ← hhash]
      rfl
    | storeShardStream =>
      obtain ⟨_, _, _, _, hkind, _⟩ := huse
      simp at hkind
    | storePinnedObject =>
      obtain ⟨_, _, hkind⟩ := huse
      simp at hkind
    | _ => exact absurd huse id
  next => exact Or.inl rfl

theorem setsAsOwner_stream {fileHash : Digest} {shardIndex : UInt8} {total : UInt64}
    {token : ShardToken} {frames : List NodeFrame}
    (hused : UsedAsIssued cfg key sent
      ⟨env, ⟨.storeShardStreamInit fileHash shardIndex total token, frames⟩⟩) :
    SetsAsOwner cfg key sent
      ⟨env, ⟨.storeShardStreamInit fileHash shardIndex total token, frames⟩⟩ := by
  unfold SetsAsOwner
  simp only [messageWrite_storeShardStreamInit, receivedShard_ownedBy]
  split
  next hlet =>
    obtain ⟨⟨r, timestamp⟩, hm, htarget, huse⟩ := hused _ token rfl hlet.2
    cases r with
    | storeShardStream fileHash' shardIndex' declared chunks =>
      obtain ⟨_, _, _, _, hkind, hends⟩ := huse
      cases hkind
      rcases hends with hover | hnone | ⟨hcap, hsame⟩
      · omega
      · left
        rw [hnone]
        rfl
      · refine Or.inr ⟨_, hm, ?_⟩
        rw [ownerWrite_storeShardStream fileHash' shardIndex' chunks timestamp hcap, hsame]
    | storeShard =>
      obtain ⟨_, _, _, hkind⟩ := huse
      simp at hkind
    | storePinnedObject =>
      obtain ⟨_, _, hkind⟩ := huse
      simp at hkind
    | _ => exact absurd huse id
  next => exact Or.inl rfl

theorem setsAsOwner_pinned {name : String} {data : Bytes} {token : ShardToken}
    {frames : List NodeFrame}
    (hused : UsedAsIssued cfg key sent ⟨env, ⟨.storePinnedObject name data token, frames⟩⟩) :
    SetsAsOwner cfg key sent ⟨env, ⟨.storePinnedObject name data token, frames⟩⟩ := by
  unfold SetsAsOwner
  simp only [messageWrite_storePinnedObject]
  split
  next hallows =>
    obtain ⟨⟨r, timestamp⟩, hm, htarget, huse⟩ := hused _ token rfl hallows
    cases r with
    | storePinnedObject name' data' =>
      obtain ⟨_, _, hkind⟩ := huse
      cases hkind
      refine Or.inr ⟨_, hm, ?_⟩
      have hkey : cfg.blake3 (utf8 name') = cfg.blake3 (utf8 name) := htarget
      rw [ownerWrite_storePinnedObject, hkey]
      rfl
    | storeShard =>
      obtain ⟨_, _, _, hkind⟩ := huse
      simp at hkind
    | storeShardStream =>
      obtain ⟨_, _, _, _, hkind, _⟩ := huse
      simp at hkind
    | _ => exact absurd huse id
  next => exact Or.inl rfl

/-- A deletion needs a deletion token, and that names its shard. -/
theorem setsAsOwner_delete {shardHash : Digest} {token : ShardToken} {frames : List NodeFrame}
    (hmem : ⟨env, ⟨.deleteShard shardHash token, frames⟩⟩ ∈ deliveries)
    (hforge : Unforged cfg key sent deliveries) :
    SetsAsOwner cfg key sent ⟨env, ⟨.deleteShard shardHash token, frames⟩⟩ := by
  unfold SetsAsOwner
  simp only [messageWrite_deleteShard]
  split
  next hallows =>
    obtain ⟨⟨r, timestamp⟩, hm, hop, htarget, _⟩ :=
      hforge _ hmem .delete shardHash token rfl (allows_signed hallows)
    cases eq_deleteShard hop htarget
    exact Or.inr ⟨_, hm, by rw [ownerWrite_deleteShard]⟩
  next => exact Or.inl rfl

/-- One delivery of a relay that neither forges nor alters. -/
theorem setsAsOwner_of_unaltered {d : Delivery} (hmem : d ∈ deliveries)
    (hforge : Unforged cfg key sent deliveries) (hapart : ShardsApart cfg sent deliveries)
    (hused : UsedAsIssued cfg key sent d) : SetsAsOwner cfg key sent d := by
  obtain ⟨env, ⟨request, frames⟩⟩ := d
  cases request with
  | storeShard => exact setsAsOwner_storeShard hmem hapart hused
  | storeShardStreamInit => exact setsAsOwner_stream hused
  | deleteShard => exact setsAsOwner_delete hmem hforge
  | storePinnedObject => exact setsAsOwner_pinned hused
  | handshake => exact Or.inl (messageWrite_handshake _ _ _ _ _)
  | retrieveShard => exact Or.inl (messageWrite_retrieveShard _ _ _ _ _)
  | retrieveShardStreamInit => exact Or.inl (messageWrite_retrieveShardStreamInit _ _ _ _ _)
  | getPinnedObject => exact Or.inl (messageWrite_getPinnedObject _ _ _ _ _)
  | listShards => exact Or.inl (messageWrite_listShards _ _ _ _ _)
  | heartbeat => exact Or.inl rfl
  | other => exact Or.inl rfl

/-- The deliveries set what a list of the owner's messages sets, replays included. -/
theorem deliveries_as_owner (hsets : ∀ d ∈ deliveries, SetsAsOwner cfg key sent d)
    (maps : NodeMaps) :
    ∃ replayed : List OwnerMessage, (∀ m ∈ replayed, m ∈ sent) ∧
      afterDeliveries cfg key maps deliveries = runWrites (ownerWrite cfg key) maps replayed := by
  induction deliveries generalizing maps with
  | nil => exact ⟨[], by simp, rfl⟩
  | cons d deliveries ih =>
    obtain ⟨hfirst, hrest⟩ := List.forall_mem_cons.mp hsets
    rcases hfirst with hnone | ⟨m, hm, hsame⟩
    · obtain ⟨replayed, hsub, heq⟩ := ih hrest maps
      refine ⟨replayed, hsub, ?_⟩
      rw [afterDeliveries, runWrites_cons, hnone]
      exact heq
    · obtain ⟨replayed, hsub, heq⟩ := ih hrest (write maps (ownerWrite cfg key m))
      refine ⟨m :: replayed, List.forall_mem_cons.mpr ⟨hm, hsub⟩, ?_⟩
      rw [afterDeliveries, runWrites_cons, runWrites_cons, hsame]
      exact heq

/-- Of every message only the last replay counts. -/
theorem producible_of_setsAsOwner (hsets : ∀ d ∈ deliveries, SetsAsOwner cfg key sent d)
    (maps : NodeMaps) : Producible cfg key sent maps (afterDeliveries cfg key maps deliveries) := by
  obtain ⟨replayed, hsub, heq⟩ := deliveries_as_owner hsets maps
  refine ⟨replayed.dedup, ?_, ?_⟩
  · apply (List.nodup_dedup replayed).subperm
    intro m hm
    exact hsub m (List.mem_dedup.mp hm)
  · rw [heq, runWrites_dedup]

/-- A relay that uses each accepted store token for the kind of message and the data it was
issued with can only bring about what some of the owner's messages in some order would. -/
theorem relay_confined_of_used_as_issued (maps : NodeMaps)
    (hforge : Unforged cfg key sent deliveries) (hapart : ShardsApart cfg sent deliveries)
    (hused : ∀ d ∈ deliveries, UsedAsIssued cfg key sent d) :
    Producible cfg key sent maps (afterDeliveries cfg key maps deliveries) := by
  apply producible_of_setsAsOwner
  intro d hd
  exact setsAsOwner_of_unaltered hd hforge hapart (hused d hd)

theorem tokenMessage_inj {op op' : ShardOp} {hash hash' : Digest} {timestamp : UInt64}
    (h : tokenMessage op hash timestamp = tokenMessage op' hash' timestamp) :
    op = op' ∧ hash = hash' := by
  obtain ⟨htag, hrest⟩ := List.cons.inj h
  refine ⟨?_, List.Vector.toList_injective (List.append_cancel_right hrest)⟩
  cases op <;> cases op' <;> first | rfl | simp [ShardOp.tag] at htag

/-- A sample signature verifies for its own message only. -/
theorem sampleScheme_verify {key pk : Digest} {msg msg' : Bytes} (hlen : msg.length = 41)
    (hlen' : msg'.length = 41)
    (h : verifySignature sampleScheme pk msg (sampleScheme.sign key msg') = true) : msg = msg' := by
  have hsame : Slices.resize 63 0 msg' = Slices.resize 63 0 msg := by
    simp only [verifySignature, sampleScheme, hlen, hlen', Bool.and_eq_true,
      decide_eq_true_eq] at h
    exact (List.cons.inj h.2).2
  have htake : ∀ xs : Bytes, xs.length = 41 → (Slices.resize 63 0 xs).take 41 = xs := by
    intro xs hxs
    rw [← hxs]
    exact Slices.take_resize (by omega)
  rw [← htake msg hlen, ← hsame, htake msg' hlen']

def sampleOwner : Digest := List.Vector.replicate 32 5

/-- Tokens that the owner has sent are not forged. -/
theorem unforged_of_sent (hsent : ∀ d ∈ deliveries, ∀ op hash token,
      d.message.request.authority sampleNode = some (op, hash, token) →
        ∃ m ∈ sent, token = m.token sampleNode sampleOwner) :
    Unforged sampleNode sampleOwner sent deliveries := by
  intro d hd op hash token hauthority hverify
  obtain ⟨m, hm, rfl⟩ := hsent d hd op hash token hauthority
  have hmsg : tokenMessage op hash m.timestamp =
      tokenMessage m.request.op (m.request.target sampleNode) m.timestamp :=
    sampleScheme_verify (by simp) (by simp) (show verifySignature sampleScheme sampleOwner _
      (sampleScheme.sign sampleOwner _) = true from hverify)
  obtain ⟨hop, hhash⟩ := tokenMessage_inj hmsg
  exact ⟨m, hm, hop.symm, hhash.symm, rfl⟩

/-- Uploads in one frame and in a stream, a deletion and two versions of a pinned object. -/
def sampleMessages : List OwnerMessage :=
  [⟨.storeShard [7, 8], 0⟩, ⟨.storeShardStream (tailHash [3]) 1 2 [[4], [5]], 0⟩,
    ⟨.deleteShard (tailHash [7, 8]), 0⟩, ⟨.storePinnedObject "latest" [1], 0⟩,
    ⟨.storePinnedObject "latest" [2], 60⟩]

/-- The relay replays the messages in the other order, then in their own. -/
def sampleReplay : List Delivery :=
  (sampleMessages.reverse ++ sampleMessages).map fun m =>
    ⟨envAt m.timestamp, m.message sampleNode sampleOwner⟩

theorem mem_sampleReplay {d : Delivery} (h : d ∈ sampleReplay) : ∃ m ∈ sampleMessages,
    d = ⟨envAt m.timestamp, m.message sampleNode sampleOwner⟩ := by
  obtain ⟨m, hm, rfl⟩ := List.mem_map.mp h
  refine ⟨m, ?_, rfl⟩
  rcases List.mem_append.mp hm with hm | hm
  · exact List.mem_reverse.mp hm
  · exact hm

/-- The owner's message asks for what its token was made for. -/
theorem authority_message (m : OwnerMessage) :
    (m.message cfg key).request.authority cfg =
      some (m.request.op, m.request.target cfg, m.token cfg key) := by
  obtain ⟨r, timestamp⟩ := m
  cases r <;> rfl

/-- The owner's own message, at any time, is used as issued. -/
theorem usedAsIssued_message {m : OwnerMessage} (hm : m ∈ sent) (env : NodeEnv) :
    UsedAsIssued cfg key sent ⟨env, m.message cfg key⟩ := by
  intro hash token hauthority _
  refine ⟨m, hm, ?_, ?_⟩
  · rw [authority_message, Option.some.injEq, Prod.mk.injEq, Prod.mk.injEq] at hauthority
    exact hauthority.2.1
  · obtain ⟨r, timestamp⟩ := m
    cases r with
    | storeShard data => exact ⟨_, _, _, rfl⟩
    | storeShardStream fileHash shardIndex declared chunks =>
      refine ⟨_, _, _, _, rfl, ?_⟩
      rcases Nat.lt_or_ge maxRetrievable declared.toNat with hover | hcap
      · exact Or.inl hover
      · exact Or.inr (Or.inr ⟨hcap, rfl⟩)
    | storePinnedObject name data => exact ⟨_, _, rfl⟩
    | _ => cases hauthority

theorem replayed_messages_confined :
    Producible sampleNode sampleOwner sampleMessages (fun _ => none)
      (afterDeliveries sampleNode sampleOwner (fun _ => none) sampleReplay) := by
  apply relay_confined_of_used_as_issued
  · apply unforged_of_sent
    intro d hd op hash token hauthority
    obtain ⟨m, hm, rfl⟩ := mem_sampleReplay hd
    rw [authority_message, Option.some.injEq, Prod.mk.injEq, Prod.mk.injEq] at hauthority
    exact ⟨m, hm, hauthority.2.2.symm⟩
  · intro d hd m hm shardHash data token data' hrequest hm' _
    obtain ⟨sentMsg, hsent, rfl⟩ := mem_sampleReplay hd
    simp only [sampleMessages, List.mem_cons, List.not_mem_nil, or_false] at hsent hm
    rcases hsent with rfl | rfl | rfl | rfl | rfl <;> cases hrequest
    rcases hm with rfl | rfl | rfl | rfl | rfl <;> cases hm'
    rfl
  · intro d hd
    obtain ⟨m, hm, rfl⟩ := mem_sampleReplay hd
    exact usedAsIssued_message hm _

/-- A store token for the hash of a name pins any bytes under it, whatever it was made for. -/
theorem store_token_pins {m : OwnerMessage} {name : String} (hop : m.request.op = .store)
    (htarget : m.request.target cfg = cfg.blake3 (utf8 name)) (data : Bytes)
    (frames : List NodeFrame) :
    messageWrite (cfg.ownedBy key) (envAt m.timestamp)
        ⟨.storePinnedObject name data (m.token cfg key), frames⟩ =
      some (.pinned (cfg.blake3 (utf8 name)), some data) := by
  have hallowed := @owner_allowed cfg key m
  rw [hop, htarget] at hallowed
  rw [messageWrite_storePinnedObject]
  exact if_pos hallowed

/-- The owner pins one byte. -/
def pinnedMessage : OwnerMessage := ⟨.storePinnedObject "latest" [1], 0⟩

/-- The relay sends another byte under the token. -/
def alteredPinned : Delivery :=
  ⟨envAt 0, ⟨.storePinnedObject "latest" [2] (pinnedMessage.token sampleNode sampleOwner), []⟩⟩

theorem unforged_alteredPinned :
    Unforged sampleNode sampleOwner [pinnedMessage] [alteredPinned] := by
  apply unforged_of_sent
  intro d hd op hash token hauthority
  rw [List.mem_singleton.mp hd] at hauthority
  simp only [alteredPinned, NodeRequest.authority, Option.some.injEq, Prod.mk.injEq] at hauthority
  exact ⟨pinnedMessage, List.mem_singleton_self _, hauthority.2.2.symm⟩

theorem shardsApart_alteredPinned : ShardsApart sampleNode [pinnedMessage] [alteredPinned] := by
  intro d hd _ _ _ _ _ _ hrequest
  rw [List.mem_singleton.mp hd] at hrequest
  simp [alteredPinned] at hrequest

theorem afterDeliveries_alteredPinned (maps : NodeMaps) :
    afterDeliveries sampleNode sampleOwner maps [alteredPinned]
      (.pinned (tailHash (utf8 "latest"))) = some [2] := by
  have hwrite : messageWrite (sampleNode.ownedBy sampleOwner) alteredPinned.env
      alteredPinned.message = some (.pinned (tailHash (utf8 "latest")), some [2]) :=
    store_token_pins (m := pinnedMessage) rfl rfl [2] []
  simp [afterDeliveries, hwrite, runWrites, write]

theorem pinned_token_carries_other_data :
    ¬ ∀ (cfg : NodeConfig) (key : Digest) (sent : List OwnerMessage) (deliveries : List Delivery)
      (maps : NodeMaps), Unforged cfg key sent deliveries → ShardsApart cfg sent deliveries →
        Producible cfg key sent maps (afterDeliveries cfg key maps deliveries) := by
  intro h
  obtain ⟨chosen, hsub, heq⟩ := h sampleNode sampleOwner [pinnedMessage] [alteredPinned]
    (fun _ => none) unforged_alteredPinned shardsApart_alteredPinned
  have hkey := congrFun heq (.pinned (tailHash (utf8 "latest")))
  rw [afterDeliveries_alteredPinned] at hkey
  rcases List.subperm_singleton_iff.mp hsub with rfl | rfl
  · simp [runWrites] at hkey
  · rw [runWrites_cons, pinnedMessage, ownerWrite_storePinnedObject] at hkey
    simp [runWrites, write, sampleNode] at hkey

end Reminisce

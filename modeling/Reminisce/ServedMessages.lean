import Reminisce.ServedSteps
import Reminisce.TokenBinding

namespace Reminisce

open FileSystem Overwrites

variable {cfg : NodeConfig} {env : NodeEnv} {d e : ShardDisk}

/-- The temporary files that the salt can lead to are not there yet. -/
def FreshSalt (cfg : NodeConfig) (d : ShardDisk) (salt : Salt) : Prop :=
  ∀ fileHash shardIndex,
    d.read (tempPath (cfg.blake3 (tempIdInput fileHash shardIndex salt))) = none

/-- The task that a request is handed to has to set what the message sets. -/
theorem serving_request {salt : Salt} (msg : NodeMessage) (hd : d.Sound)
    (hfresh : FreshSalt cfg d salt) :
    Serving cfg (diskMaps d) (messageWrite cfg env msg) msg.frames d
      (handleRequest cfg env salt msg.request).1 := by
  have hrefused : Serving cfg (diskMaps d) (messageWrite cfg env msg) msg.frames d none :=
    ⟨hd, Or.inl rfl⟩
  obtain ⟨request, frames⟩ := msg
  cases request with
  | storeShard shardHash data token =>
    simp only [handleRequest]
    split
    next => exact hrefused
    next hhash =>
      split
      next hallows =>
        refine ⟨hd, rfl, ?_⟩
        show messageWrite cfg env _ = some (.shard shardHash, some data)
        rw [messageWrite_storeShard, if_pos ⟨not_not.mp hhash, hallows⟩]
      next => exact hrefused
  | storeShardStreamInit fileHash shardIndex total token =>
    simp only [handleRequest]
    split
    next => exact hrefused
    next hcap =>
      split
      next hallows =>
        refine ⟨hd, rfl, temporary_tempPath _, ?_, ?_⟩
        · rw [hfresh fileHash shardIndex]
          rfl
        · rw [hfresh fileHash shardIndex, messageWrite_storeShardStreamInit,
            if_pos ⟨Nat.le_of_not_lt hcap, hallows⟩, streamEntry]
      next => exact hrefused
  | deleteShard shardHash token =>
    simp only [handleRequest]
    split
    next hallows =>
      refine ⟨hd, rfl, ?_⟩
      show messageWrite cfg env _ = some (.shard shardHash, none)
      rw [messageWrite_deleteShard, if_pos hallows]
    next => exact hrefused
  | storePinnedObject name data token =>
    simp only [handleRequest]
    split
    next hallows =>
      refine ⟨hd, rfl, ?_⟩
      show messageWrite cfg env _ = some (.pinned (cfg.blake3 (utf8 name)), some data)
      rw [messageWrite_storePinnedObject, if_pos hallows]
    next => exact hrefused
  | handshake nodeId version =>
    simp only [handleRequest]
    split
    next => exact hrefused
    next => exact hrefused
  | heartbeat => exact hrefused
  | other => exact hrefused
  | retrieveShard | retrieveShardStreamInit | getPinnedObject | listShards =>
    simp only [handleRequest]
    split
    next => exact ⟨hd, rfl, trivial⟩
    next => exact hrefused

/-- Deliveries that a node serves one after the other, each under a fresh salt. -/
inductive ServesAll (cfg : NodeConfig) : ShardDisk → List Delivery → ShardDisk → Prop
  | nil (d : ShardDisk) : ServesAll cfg d [] d
  | cons (d e f : ShardDisk) (salt : Salt) (delivery : Delivery) (deliveries : List Delivery)
      (fresh : FreshSalt cfg d salt)
      (serves : Serves cfg d (handleRequest cfg delivery.env salt delivery.message.request).1
        delivery.message.frames e)
      (rest : ServesAll cfg e deliveries f) : ServesAll cfg d (delivery :: deliveries) f

/-- The maps on the disk are those that the messages set which found room. -/
theorem servesAll_maps {key : Digest} {deliveries : List Delivery} (hd : d.Sound)
    (h : ServesAll (cfg.ownedBy key) d deliveries e) :
    ∃ served : List Delivery, served.Sublist deliveries ∧
      diskMaps e = afterDeliveries cfg key (diskMaps d) served := by
  induction h with
  | nil => exact ⟨[], List.Sublist.slnil, rfl⟩
  | cons d e f salt delivery deliveries fresh hserves _ ih =>
    obtain ⟨he, hmaps⟩ := serves_maps hserves (serving_request delivery.message hd fresh)
    obtain ⟨served, hsub, hrest⟩ := ih he
    rcases hmaps with hsame | hset
    · refine ⟨served, hsub.cons delivery, ?_⟩
      rw [hrest, hsame]
    · refine ⟨delivery :: served, hsub.cons_cons delivery, ?_⟩
      rw [hrest, hset]
      rfl

/-- On the disk as well, such a relay only brings about what the owner's messages would. -/
theorem served_deliveries_confined {key : Digest} {sent : List OwnerMessage}
    {deliveries : List Delivery} (hd : d.Sound)
    (hforge : Unforged cfg key sent deliveries) (hapart : ShardsApart cfg sent deliveries)
    (hused : ∀ d ∈ deliveries, UsedAsIssued cfg key sent d)
    (h : ServesAll (cfg.ownedBy key) d deliveries e) :
    Producible cfg key sent (diskMaps d) (diskMaps e) := by
  obtain ⟨served, hsub, hmaps⟩ := servesAll_maps hd h
  rw [hmaps]
  apply producible_of_setsAsOwner
  intro d hserved
  have hmem : d ∈ deliveries := hsub.subset hserved
  exact setsAsOwner_of_unaltered hmem hforge hapart (hused d hmem)

end Reminisce

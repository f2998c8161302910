import Reminisce.MeshRecovery

namespace Reminisce

open Slices Results

variable {P : Primitives} {json : ManifestJson} {config : MeshConfig} {s : MeshState}
  {r : MeshRecovery} {apiSecret : String}

/-- In every state that any backups, publications, prunings, sweeps and losses lead to, and for
every choice and order of the nodes that are found, a retained snapshot is recovered when some
node has a good manifest, exactly if the first node to answer with one has a good one. -/
theorem mesh_recovery_iff {es : List MeshEvent}
    (hgeometry : Runs.Meets (meshStep P json config) StandardGeometry .start es)
    (hrun : Runs.exec (meshStep P json config) .start es = some s)
    (hcf : ∀ snapshot ∈ s.backups, CollisionFree P snapshot.shards (s.fetch r)) :
    s.Recovers P json config.apiSecret r ↔ s.FirstAnswerGood P json config.apiSecret r := by
  have hkept : ∀ snapshot ∈ s.backups, SnapshotKept P config.apiSecret snapshot :=
    Runs.exec_invariant (fun _ _ _ hs hc hstep => kept_step hs hc hstep)
      (fun snapshot hmem => by simp [MeshState.start] at hmem) hgeometry hrun
  exact recovers_iff hkept hcf

/-- A dump that is not stored yet is stored when enough shards are acknowledged. -/
theorem backupDumpFile_succeeds {stored : List String} {dump : Bytes} {run : ReplicationRun}
    {shards : List Bytes} {k m : Nat} (hne : dump ≠ [])
    (hsmall : ¬segmentThreshold < dump.length)
    (hfresh : String.ofList (toHex (P.blake3 dump)) ∉ stored) (hnodes : run.nodes ≠ [])
    (hshards : backupShards P segmentThreshold dump run.encryptionKey.toList k m = .ok shards)
    (hfits : ∀ s ∈ shards, s.length ≤ maxShardBytes)
    (hacks : k ≤ (run.acks.order.filter (· < k + m)).length) (hcommits : run.commits = true) :
    ∃ manifest, backupDumpFile P segmentThreshold stored dump apiSecret k m run =
      .ok (some manifest) ∧ manifest.backupHash = String.ofList (toHex (P.blake3 dump)) := by
  have hlen := length_backupShards hshards
  obtain ⟨size, hprocess⟩ : ∃ size, processForBackup P dump run.encryptionKey.toList
      run.encryptionKey.toList k m = .ok (shards, size) := by
    rw [backupShards, if_neg hsmall] at hshards
    obtain ⟨⟨made, size⟩, hprocess, rfl⟩ := map_ok hshards
    exact ⟨size, hprocess⟩
  obtain ⟨uploaded, hup⟩ := runUploads_exists P hnodes (String.ofList (toHex (P.blake3 dump)))
    shards run.acks.order
  have henough : ¬uploaded.length < k :=
    Nat.not_lt.mpr (runUploads_enough hup run.acks.nodup hfits (by rw [hlen]; exact hacks))
  obtain ⟨wrapped, hwrap⟩ := encryptKey_exists P apiSecret run
  have hempty : ¬dump.isEmpty = true := fun h => hne (List.isEmpty_iff.mp h)
  refine ⟨{ backupHash := String.ofList (toHex (P.blake3 dump)), sizeBytes := asI64 dump.length
            encryptedSize := asI64 size, dataShards := asI32 k, parityShards := asI32 m
            segmentCount := 1, segmentEncSizes := none, encryptionKeyHex := Hex.encode wrapped
            shards := uploaded.map UploadedShard.toManifest }, ?_, rfl⟩
  simp only [backupDumpFile, if_neg hempty, if_neg hfresh, uploadDump, if_neg hsmall, hprocess,
    uploadInmemory, hup, Except.mapError, ok_bind, pure_bind, henough, if_false, hwrap, hcommits, if_true]
  rfl

/-- A shard that a node holds under its hash stays when the shards of a backup are stored. -/
theorem putShards_keeps {shards : List Bytes} {placement : List ManifestShard} {nodeId : NodeId}
    {data : Bytes} (hinj : Set.InjOn P.blake3 {b | b ∈ shards}) (hdata : data ∈ shards)
    (h : s.stored nodeId (P.blake3 data) = some data) :
    (s.putShards P shards placement).stored nodeId (P.blake3 data) = some data := by
  unfold MeshState.putShards
  induction placement generalizing s with
  | nil => exact h
  | cons shard placement ih =>
    rw [List.foldl_cons]
    refine ih ?_
    split
    next other hother =>
      simp only [MeshState.put]
      split
      next hsame => rw [hinj hdata (List.mem_of_getElem? hother) hsame.2]
      next => exact h
    next => exact h

theorem putShards_stores {shards : List Bytes} {placement : List ManifestShard}
    {shard : ManifestShard} {data : Bytes} (hinj : Set.InjOn P.blake3 {b | b ∈ shards})
    (hmem : shard ∈ placement) (hdata : shards[shard.index]? = some data) :
    (s.putShards P shards placement).stored shard.nodeId (P.blake3 data) = some data := by
  induction placement generalizing s with
  | nil => simp at hmem
  | cons first placement ih =>
    rcases List.mem_cons.mp hmem with rfl | hrest
    · have hput : (s.put shard.nodeId (P.blake3 data) (some data)).stored shard.nodeId
          (P.blake3 data) = some data := by simp [MeshState.put]
      have hkeep := @putShards_keeps P _ shards placement _ _ hinj (List.mem_of_getElem? hdata) hput
      unfold MeshState.putShards at hkeep ⊢
      rw [List.foldl_cons, hdata]
      exact hkeep
    · unfold MeshState.putShards at ih ⊢
      rw [List.foldl_cons]
      exact ih hrest

theorem putShards_pinned (shards : List Bytes) (placement : List ManifestShard) :
    (s.putShards P shards placement).pinned = s.pinned := by
  unfold MeshState.putShards
  induction placement generalizing s with
  | nil => rfl
  | cons shard placement ih =>
    rw [List.foldl_cons, ih]
    split <;> rfl

/-- Nothing but the shards of the backup is added. -/
theorem mem_putShards (shards : List Bytes) (placement : List ManifestShard) {nodeId : NodeId}
    {shardHash : Digest} {b : Bytes}
    (h : (s.putShards P shards placement).stored nodeId shardHash = some b) :
    s.stored nodeId shardHash = some b ∨ b ∈ shards := by
  unfold MeshState.putShards at h
  induction placement generalizing s with
  | nil => exact Or.inl h
  | cons shard placement ih =>
    rw [List.foldl_cons] at h
    rcases ih h with hmid | hin
    · split at hmid
      next data hdata =>
        simp only [MeshState.put] at hmid
        split at hmid
        next =>
          cases Option.some.inj hmid
          exact Or.inr (List.mem_of_getElem? hdata)
        next => exact Or.inl hmid
      next => exact Or.inl hmid
    · exact Or.inr hin

/-- A shard whose node holds it and delivers is reachable. -/
theorem reachable_of_stored {shard : ManifestShard} {data : Bytes}
    (hdelivers : ∀ nodeId shardHash, r.delivers nodeId shardHash = true)
    (hhash : shard.shardHash = toHex (P.blake3 data))
    (hstored : s.stored shard.nodeId (P.blake3 data) = some data) : s.reachable P r shard = true := by
  unfold MeshState.reachable
  rw [hhash, parseShardHash_toHex]
  simp [MeshState.fetch, hdelivers, hstored]

/-- The published manifest is read back where the JSON of that manifest parses. -/
theorem readMeshManifest_published {manifest : StampedManifest} {nonceCtx encrypted : Bytes}
    (hjson : json.fromSlice (json.toVec manifest) = .ok manifest)
    (h : encryptForMesh P (json.toVec manifest) apiSecret nonceCtx = .ok encrypted) :
    readMeshManifest P json apiSecret encrypted = .ok manifest := by
  have hdecrypt := decrypt_encrypt (mapError_ok h)
  simp only [readMeshManifest, decryptFromMesh, hdecrypt, Except.mapError, ok_bind, hjson]

/-- JSON that tells manifests apart by their stamps. -/
def sampleJson (first second : StampedManifest) : ManifestJson :=
  { toVec := fun manifest => [if manifest.createdAt = "first" then 1 else 2]
    fromSlice := fun bytes => .ok (if bytes = [1] then first else second) }

/-- All the peers answer, in that order. -/
def everybody (peers : List NodeId) : MeshRecovery :=
  { peers, answers := fun _ => true, delivers := fun _ _ => true }

def sampleMesh : MeshConfig := { apiSecret := "secret", retention := 1 }

/-- The dump of a sample run is stored, in shards of eleven bytes. -/
theorem sample_backup {dump : Bytes} (hlen : dump.length = 3) (seed : UInt8) (now : Time)
    {stored : List String}
    (hfresh : String.ofList (toHex (referencePrimitives.blake3 dump)) ∉ stored) :
    ∃ manifest shards, backupDumpFile referencePrimitives segmentThreshold stored dump "secret" 3 2
        (sampleRun seed allAcks now) = .ok (some manifest) ∧
      manifest.backupHash = String.ofList (toHex (referencePrimitives.blake3 dump)) ∧
      backupShards referencePrimitives segmentThreshold dump
        (sampleRun seed allAcks now).encryptionKey.toList 3 2 = .ok shards ∧
      ∀ s ∈ shards, s.length = 11 := by
  have hnew : referencePrimitives.rs.new 3 2 = .ok () :=
    (referencePrimitives.rs.new_ok 3 2).mpr (by decide)
  have hsmall : ¬segmentThreshold < dump.length := by
    rw [hlen]
    decide
  obtain ⟨shards, size, hprocess⟩ : ∃ shards size, processForBackup referencePrimitives dump
      (sampleRun seed allAcks now).encryptionKey.toList
      (sampleRun seed allAcks now).encryptionKey.toList 3 2 = .ok (shards, size) :=
    processForBackup_exists _ (by simp [keySize]) (by rw [hlen]; decide) hnew
  have hshards : backupShards referencePrimitives segmentThreshold dump
      (sampleRun seed allAcks now).encryptionKey.toList 3 2 = .ok shards := by
    rw [backupShards, if_neg hsmall, hprocess]
    rfl
  have hlens : ∀ s ∈ shards, s.length = 11 := by
    intro s hs
    rw [processForBackup_shard_length hprocess hs, processForBackup_size hprocess, hlen]
    rfl
  have hfits : ∀ s ∈ shards, s.length ≤ maxShardBytes := by
    intro s hs
    rw [hlens s hs]
    decide
  have hne : dump ≠ [] := by
    rintro rfl
    simp at hlen
  obtain ⟨manifest, hup, hhash⟩ := @backupDumpFile_succeeds referencePrimitives "secret" stored
    dump (sampleRun seed allAcks now) shards 3 2 hne hsmall hfresh (by simp [sampleRun]) hshards
    hfits (show 3 ≤ (allAcks.order.filter (· < 3 + 2)).length by decide) rfl
  exact ⟨manifest, shards, hup, hhash, hshards, hlens⟩

/-- Right after a backup, all its shards are reachable. -/
theorem reachable_after_backup {t : MeshState} {shards : List Bytes} {dump : Bytes}
    {stored : List String} {run : ReplicationRun} {manifest : DbBackupManifest}
    (hinj : Set.InjOn P.blake3 {b | b ∈ shards})
    (hup : backupDumpFile P segmentThreshold stored dump apiSecret 3 2 run = .ok (some manifest))
    (hshards : backupShards P segmentThreshold dump run.encryptionKey.toList 3 2 = .ok shards)
    (hdelivers : ∀ nodeId shardHash, r.delivers nodeId shardHash = true)
    (ht : t.stored = (s.putShards P shards manifest.shards).stored) :
    3 ≤ (manifest.shards.filter (t.reachable P r)).length := by
  obtain ⟨shards', uploaded, wrapped, hs⟩ := backupDumpFile_ok hup
  cases Except.ok.inj (hshards.symm.trans hs.describes.backup)
  have hall : ∀ shard ∈ manifest.shards, t.reachable P r shard = true := by
    intro shard hshard
    have hplaced := hshard
    rw [hs.placement] at hplaced
    obtain ⟨u, hu, rfl⟩ := List.mem_map.mp hplaced
    obtain ⟨data, hdata, _, hhash⟩ := hs.uploads.stored u hu
    refine reachable_of_stored hdelivers hhash ?_
    rw [ht]
    exact putShards_stores hinj hshard hdata
  rw [List.filter_eq_self.mpr hall, hs.placement, List.length_map]
  exact hs.enough

/-- The states of the sample runs hold shards of eleven bytes only, which BLAKE3 tells apart. -/
theorem sample_collisionFree {shards : List Bytes} (hlens : ∀ b ∈ shards, b.length = 11)
    (hstored : ∀ nodeId shardHash b, s.stored nodeId shardHash = some b → b.length = 11) :
    CollisionFree referencePrimitives shards (s.fetch r) := by
  refine (referenceHash_injOn 11 (by decide)).mono ?_
  rintro b (hb | ⟨n, nodeId, shardHash, hb⟩)
  · exact hlens b hb
  · simp only [MeshState.fetch] at hb
    split at hb
    next => exact hstored nodeId shardHash b hb
    next => simp at hb

theorem encryptForMesh_sample (first second manifest : StampedManifest) :
    ∃ encrypted, encryptForMesh referencePrimitives ((sampleJson first second).toVec manifest)
      "secret" (utf8 manifest.backupHash) = .ok encrypted := by
  obtain ⟨encrypted, henc⟩ := @encrypt_exists ((sampleJson first second).toVec manifest)
    (meshKey referencePrimitives "secret") referencePrimitives (utf8 manifest.backupHash)
    (by simp [meshKey, keySize]) (by simp [sampleJson])
  exact ⟨encrypted, by simp only [encryptForMesh, henc, Except.mapError]⟩

/-- What the second publication has not reached: the node "old" has the manifest of a snapshot
that was pruned, the node "node" that of the retained one. -/
structure StaleMesh (json : ManifestJson) (s : MeshState) (snapshot : Snapshot)
    (stale : StampedManifest) (oldData newData : Bytes) : Prop where
  backups : s.backups = [snapshot]
  collisionFree : ∀ r, CollisionFree referencePrimitives snapshot.shards (s.fetch r)
  old : s.pinned "old" meshLatestManifest = some oldData
  readsStale : readMeshManifest referencePrimitives json "secret" oldData = .ok stale
  differs : stale ≠ snapshot.manifest
  node : s.pinned "node" meshLatestManifest = some newData
  readsRetained :
    readMeshManifest referencePrimitives json "secret" newData = .ok snapshot.manifest
  reachable : ∀ peers,
    3 ≤ (snapshot.manifest.shards.filter (s.reachable referencePrimitives (everybody peers))).length

def staleEvents (pruned : String) : List MeshEvent :=
  [.backup 3 2 "first" [1, 2, 3] (sampleRun 9 allAcks 100), .publish "old" true,
    .publish "node" true, .backup 3 2 "second" [4, 5, 6] (sampleRun 7 allAcks 200),
    .publish "node" true, .dropSnapshot pruned]

theorem staleEvents_geometry (pruned : String) (s : MeshState) :
    Runs.Meets (meshStep P json config) StandardGeometry s (staleEvents pruned) := by
  refine Runs.meets_of_mem (fun e he s => ?_) s
  simp only [staleEvents, List.mem_cons, List.not_mem_nil, or_false] at he
  rcases he with rfl | rfl | rfl | rfl | rfl | rfl
  · exact ⟨rfl, rfl⟩
  · trivial
  · trivial
  · exact ⟨rfl, rfl⟩
  · trivial
  · trivial

theorem stale_mesh : ∃ json pruned s snapshot stale oldData newData,
    Runs.exec (meshStep referencePrimitives json sampleMesh) .start (staleEvents pruned) = some s ∧
      StaleMesh json s snapshot stale oldData newData := by
  obtain ⟨m₁, shards₁, hup₁, hhash₁, hshards₁, hlens₁⟩ :=
    @sample_backup [1, 2, 3] rfl 9 100 [] (by simp)
  have hne : String.ofList (toHex (referencePrimitives.blake3 [4, 5, 6])) ≠ m₁.backupHash := by
    rw [hhash₁]
    intro heq
    have hdigest := toHex_injective (String.ofList_injective heq)
    have hsame := referenceHash_injOn 3 (by decide) (by rfl) (by rfl) hdigest
    simp at hsame
  obtain ⟨m₂, shards₂, hup₂, hhash₂, hshards₂, hlens₂⟩ :=
    @sample_backup [4, 5, 6] rfl 7 200 [m₁.backupHash] (by simpa using hne)
  let first : StampedManifest := { m₁ with createdAt := "first" }
  let second : StampedManifest := { m₂ with createdAt := "second" }
  let json := sampleJson first second
  obtain ⟨enc₁, henc₁⟩ := encryptForMesh_sample first second first
  obtain ⟨enc₂, henc₂⟩ := encryptForMesh_sample first second second
  have hinj : Set.InjOn referencePrimitives.blake3 {b | b ∈ shards₂} :=
    (referenceHash_injOn 11 (by decide)).mono hlens₂
  let s₁ : MeshState :=
    { (MeshState.start.putShards referencePrimitives shards₁ m₁.shards) with
      backups := [⟨first, [1, 2, 3], shards₁⟩], publishing := some first }
  let s₂ := (s₁.pin "old" meshLatestManifest (some enc₁)).pin "node" meshLatestManifest (some enc₁)
  let s₃ : MeshState :=
    { (s₂.putShards referencePrimitives shards₂ m₂.shards) with
      backups := [⟨first, [1, 2, 3], shards₁⟩, ⟨second, [4, 5, 6], shards₂⟩]
      publishing := some second }
  let s₄ : MeshState :=
    { (s₃.pin "node" meshLatestManifest (some enc₂)) with
      backups := [⟨second, [4, 5, 6], shards₂⟩] }
  have hback₁ : meshStep referencePrimitives json sampleMesh .start
      (.backup 3 2 "first" [1, 2, 3] (sampleRun 9 allAcks 100)) = some s₁ := by
    have hstored : MeshState.start.backups.map (·.manifest.backupHash) = [] := rfl
    simp only [meshStep, hstored, sampleMesh, hup₁, hshards₁]
    rfl
  have hback₂ : meshStep referencePrimitives json sampleMesh s₂
      (.backup 3 2 "second" [4, 5, 6] (sampleRun 7 allAcks 200)) = some s₃ := by
    have hstored : s₂.backups.map (·.manifest.backupHash) = [m₁.backupHash] := rfl
    simp only [meshStep, hstored, sampleMesh, hup₂, hshards₂]
    rfl
  have hpublish : ∀ (s : MeshState) (nodeId : NodeId) (manifest : StampedManifest) (encrypted : Bytes),
      s.publishing = some manifest →
      encryptForMesh referencePrimitives (json.toVec manifest) "secret" (utf8 manifest.backupHash) =
        .ok encrypted →
      meshStep referencePrimitives json sampleMesh s (.publish nodeId true) =
        some (s.pin nodeId meshLatestManifest (some encrypted)) := by
    intro s nodeId manifest encrypted hpublishing hencrypted
    simp only [meshStep, hpublishing, sampleMesh, hencrypted, if_true]
  have hdrop : meshStep referencePrimitives json sampleMesh
      (s₃.pin "node" meshLatestManifest (some enc₂)) (.dropSnapshot m₁.backupHash) = some s₄ := by
    have hexpired : (s₃.pin "node" meshLatestManifest (some enc₂)).expired sampleMesh.retention =
        [⟨first, [1, 2, 3], shards₁⟩] := rfl
    have hdiffer : m₂.backupHash ≠ m₁.backupHash := hhash₂ ▸ hne
    have hkept : (s₃.pin "node" meshLatestManifest (some enc₂)).backups.filter
        (fun snapshot => snapshot.manifest.backupHash ≠ m₁.backupHash) =
        [⟨second, [4, 5, 6], shards₂⟩] := by
      simp [s₃, MeshState.pin, first, second, hdiffer]
    simp only [meshStep, hexpired, hkept]
    rw [if_pos (by simp [first])]
  have hrun : Runs.exec (meshStep referencePrimitives json sampleMesh) .start
      (staleEvents m₁.backupHash) = some s₄ := by
    have hold := hpublish s₁ "old" first enc₁ rfl henc₁
    have hnode : meshStep referencePrimitives json sampleMesh
        (s₁.pin "old" meshLatestManifest (some enc₁)) (.publish "node" true) = some s₂ :=
      hpublish _ "node" first enc₁ rfl henc₁
    have hlatest := hpublish s₃ "node" second enc₂ rfl henc₂
    simp only [staleEvents, Runs.exec, hback₁, hold, hnode, hback₂, hlatest, hdrop,
      Option.bind_some]
  have hlengths : ∀ nodeId shardHash b, s₄.stored nodeId shardHash = some b → b.length = 11 := by
    intro nodeId shardHash b hb
    rcases mem_putShards shards₂ m₂.shards hb with hold | hnew
    · rcases mem_putShards shards₁ m₁.shards hold with
        hstart | hfirst
      · simp [MeshState.start] at hstart
      · exact hlens₁ b hfirst
    · exact hlens₂ b hnew
  refine ⟨json, m₁.backupHash, s₄, ⟨second, [4, 5, 6], shards₂⟩, first, enc₁, enc₂, hrun, rfl,
    fun r => sample_collisionFree hlens₂ hlengths, ?_, ?_, ?_, ?_, ?_, fun peers => ?_⟩
  · simp [s₄, s₃, MeshState.pin, putShards_pinned, s₂]
  · exact readMeshManifest_published (by simp [json, sampleJson, first]) henc₁
  · simp [first, second]
  · simp [s₄, MeshState.pin]
  · exact readMeshManifest_published (by simp [json, sampleJson, second]) henc₂
  · exact reachable_after_backup (s := s₂) hinj hup₂ hshards₂ (fun _ _ => rfl) rfl

/-- With the retained snapshot's manifest answering first, that snapshot is recovered. -/
theorem latest_first_recovers : ∃ json pruned s, Runs.exec
      (meshStep referencePrimitives json sampleMesh) .start (staleEvents pruned) = some s ∧
    s.Recovers referencePrimitives json "secret" (everybody ["node", "old"]) := by
  obtain ⟨json, pruned, s, snapshot, stale, oldData, newData, hrun, hs⟩ := stale_mesh
  have hask : s.ask (everybody ["node", "old"]) meshLatestManifest "node" = some newData := hs.node
  have hcf : ∀ snapshot ∈ s.backups, CollisionFree referencePrimitives snapshot.shards
      (s.fetch (everybody ["node", "old"])) := by
    rw [hs.backups, List.forall_mem_singleton]
    exact hs.collisionFree _
  refine ⟨json, pruned, s, hrun, (mesh_recovery_iff (staleEvents_geometry pruned .start) hrun
    hcf).mpr fun _ => ⟨"node", ?_, newData, hask, snapshot, ?_, hs.readsRetained, ?_⟩⟩
  · exact List.find?_cons_of_pos (by simp [hask])
  · simp [hs.backups]
  · exact hs.reachable _

/-- The node that the second publication has not reached answers first, with the manifest of
the pruned snapshot. -/
theorem stale_manifest_first : ∃ json pruned s, Runs.exec
      (meshStep referencePrimitives json sampleMesh) .start (staleEvents pruned) = some s ∧
    ¬s.Recovers referencePrimitives json "secret" (everybody ["old", "node"]) := by
  obtain ⟨json, pruned, s, snapshot, stale, oldData, newData, hrun, hs⟩ := stale_mesh
  refine ⟨json, pruned, s, hrun, fun hrecovers => ?_⟩
  have hold : s.ask (everybody ["old", "node"]) meshLatestManifest "old" = some oldData := hs.old
  have hnode : s.ask (everybody ["old", "node"]) meshLatestManifest "node" = some newData := hs.node
  have hgood : s.GoodLatest referencePrimitives json "secret" (everybody ["old", "node"]) "node" :=
    ⟨newData, hnode, snapshot, by simp [hs.backups], hs.readsRetained, hs.reachable _⟩
  obtain ⟨recovered, hmem, hok⟩ := hrecovers ⟨"node", by simp [everybody], hgood⟩
  rw [recover_first (List.find?_cons_of_pos (by simp [hold])) hold, hs.readsStale] at hok
  simp only [Except.mapError, ok_bind] at hok
  obtain ⟨dump, -, hok⟩ := bind_ok hok
  have hstale := (Prod.mk.inj (Except.ok.inj hok)).1
  rw [hs.backups, List.mem_singleton] at hmem
  rw [hmem] at hstale
  exact hs.differs hstale

end Reminisce

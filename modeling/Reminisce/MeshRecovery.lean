import Reminisce.Geometry
import Reminisce.Library.Runs
import Reminisce.SnapshotMesh

namespace Reminisce

open Slices Results

variable {P : Primitives} {json : ManifestJson} {config : MeshConfig} {s t : MeshState}
  {r : MeshRecovery} {apiSecret : String}

/-- The node of a row delivers bytes with the recorded hash. -/
def rowDelivered (P : Primitives) (fetch : Fetch) (row : ShardRow) : Bool :=
  match parseShardHash row.shardHash with
  | some shardHash =>
    (fetch 0 row.nodeId shardHash).any fun data => toHex (P.blake3 data) = row.shardHash
  | none => false

/-- Where every call is answered alike, the loop fills one place for each delivered row. -/
theorem countP_fetchShards {fetch : Fetch} (hcalls : ∀ call, fetch call = fetch 0) {call : Nat}
    {full : List (Option Bytes)} {rows : List ShardRow} (hlen : full.length = Erasure.totalShards)
    (hfree : ∀ row ∈ rows, full[asUsize row.shardIndex]? = some none)
    (hnodup : (rows.map fun row => asUsize row.shardIndex).Nodup) :
    (fetchShards P fetch call full rows).countP Option.isSome =
      full.countP Option.isSome + (rows.filter (rowDelivered P fetch)).length := by
  induction rows generalizing call full with
  | nil => simp [fetchShards]
  | cons row rows ih =>
    obtain ⟨hfirst, hrest⟩ := List.forall_mem_cons.mp hfree
    obtain ⟨hnotin, hnodup'⟩ := List.nodup_cons.mp hnodup
    obtain ⟨hlt, hvalue⟩ := List.getElem?_eq_some_iff.mp hfirst
    have hin : ¬Erasure.totalShards ≤ asUsize row.shardIndex := by omega
    unfold fetchShards
    simp only [hin, if_false]
    cases hparse : parseShardHash row.shardHash with
    | none =>
      have hnot : rowDelivered P fetch row = false := by simp [rowDelivered, hparse]
      rw [List.filter_cons_of_neg (by simp [hnot])]
      exact ih hlen hrest hnodup'
    | some shardHash =>
      simp only [hcalls call]
      cases hanswer : fetch 0 row.nodeId shardHash with
      | none =>
        have hnot : rowDelivered P fetch row = false := by simp [rowDelivered, hparse, hanswer]
        rw [List.filter_cons_of_neg (by simp [hnot])]
        exact ih hlen hrest hnodup'
      | some data =>
        by_cases hhash : toHex (P.blake3 data) = row.shardHash
        · have hyes : rowDelivered P fetch row = true := by
            simp [rowDelivered, hparse, hanswer, hhash]
          simp only [if_pos hhash]
          rw [List.filter_cons_of_pos hyes, ih (by simpa using hlen) ?_ hnodup',
            List.countP_set hlt]
          · simp only [hvalue, Option.isSome_none, Option.isSome_some, List.length_cons]
            simp
            omega
          · intro other hother
            rw [List.getElem?_set_ne, hrest other hother]
            intro heq
            exact hnotin (List.mem_map.mpr ⟨other, hother, heq.symm⟩)
        · have hnot : rowDelivered P fetch row = false := by
            simp [rowDelivered, hparse, hanswer, hhash]
          simp only [if_neg hhash]
          rw [List.filter_cons_of_neg (by simp [hnot])]
          exact ih hlen hrest hnodup'

/-- The row is what `backup_dump_file` has recorded of an upload with the code's geometry. -/
def SnapshotKept (P : Primitives) (apiSecret : String) (snapshot : Snapshot) : Prop :=
  ∃ run uploaded wrapped, SnapshotStored P segmentThreshold 3 2 snapshot.dump apiSecret run
    snapshot.manifest.toDbBackupManifest snapshot.shards uploaded wrapped

/-- After the fetches of a restore, as many shards are there as are reachable. -/
theorem countP_reachable {snapshot : Snapshot} (hkept : SnapshotKept P apiSecret snapshot) :
    (fetchShards P (s.fetch r) 0 (List.replicate 5 none)
      (snapshot.manifest.shards.map ManifestShard.toRow)).countP Option.isSome =
    (snapshot.manifest.shards.filter (s.reachable P r)).length := by
  obtain ⟨run, uploaded, wrapped, hs⟩ := hkept
  have hlen : snapshot.shards.length = 5 := length_backupShards hs.describes.backup
  have hindex : ∀ row ∈ snapshot.manifest.shards.map ManifestShard.toRow,
      asUsize row.shardIndex < 5 ∧ row.shardIndex = asUsize row.shardIndex := by
    intro row hrow
    obtain ⟨_, hlt, heq, _⟩ := (hs.names row hrow).index hlen
    exact ⟨hlt, heq⟩
  have hnodup : ((snapshot.manifest.shards.map ManifestShard.toRow).map
      fun row => asUsize row.shardIndex).Nodup := by
    refine List.Nodup.of_map (fun n : Nat => (n : Int)) ?_
    rw [List.map_map]
    have hsame : (snapshot.manifest.shards.map ManifestShard.toRow).map
        ((fun n : Nat => (n : Int)) ∘ fun row => asUsize row.shardIndex) =
        (snapshot.manifest.shards.map ManifestShard.toRow).map (·.shardIndex) :=
      List.map_congr_left fun row hrow => (hindex row hrow).2.symm
    rw [hsame]
    exact hs.unique
  have hfree : ∀ row ∈ snapshot.manifest.shards.map ManifestShard.toRow,
      (List.replicate 5 (none : Option Bytes))[asUsize row.shardIndex]? = some none := by
    intro row hrow
    rw [List.getElem?_replicate, if_pos (hindex row hrow).1]
  have hfull : (List.replicate 5 (none : Option Bytes)).countP Option.isSome = 0 := by decide
  rw [countP_fetchShards (fun _ => rfl) rfl hfree hnodup, hfull, Nat.zero_add, List.filter_map,
    List.length_map]
  rfl

/-- A recorded snapshot is restored exactly if three of its shards are reachable. -/
theorem restoreDbSnapshot_kept {snapshot : Snapshot} (hkept : SnapshotKept P apiSecret snapshot)
    (hcf : CollisionFree P snapshot.shards (s.fetch r)) :
    if 3 ≤ (snapshot.manifest.shards.filter (s.reachable P r)).length then
      restoreDbSnapshot P snapshot.manifest.toDbBackupManifest apiSecret (s.fetch r) =
        .ok snapshot.dump
    else ∃ f, restoreDbSnapshot P snapshot.manifest.toDbBackupManifest apiSecret (s.fetch r) =
      .error f := by
  have hcount := @countP_reachable P s r apiSecret snapshot hkept
  obtain ⟨run, uploaded, wrapped, hs⟩ := hkept
  have hlen : snapshot.shards.length = 5 := length_backupShards hs.describes.backup
  split
  next hmany =>
    refine hs.restores (fun j bytes hj => fetchShards_right hs.names hlen hcf hj) ?_
    rw [hcount]
    exact hmany
  next hfew =>
    have hunwrap : decryptKey P wrapped apiSecret = .ok run.encryptionKey.toList :=
      decryptKey_encryptKey (by simp [keySize]) (by simp [nonceSize]) hs.wrap
    unfold restoreDbSnapshot
    have hshort : (fetchShards P (s.fetch r) 0 (List.replicate Erasure.totalShards none)
        (snapshot.manifest.shards.map ManifestShard.toRow)).countP Option.isSome <
        Erasure.dataShards := by
      have hthree : Erasure.dataShards = 3 := rfl
      have hfive : Erasure.totalShards = 5 := rfl
      rw [hfive, hcount, hthree]
      omega
    simp only [hs.keyHex, Hex.decode_encode, hunwrap, hshort, if_true]
    exact ⟨_, rfl⟩

theorem firstManifest_eq {ask : NodeId → Option Bytes} (peers : List NodeId) :
    firstManifest P json apiSecret ask peers =
      (peers.find? fun n => (ask n).isSome).bind fun n =>
        (ask n).map (readMeshManifest P json apiSecret) := by
  induction peers with
  | nil => rfl
  | cons peer rest ih =>
    unfold firstManifest
    cases hask : ask peer with
    | none =>
      rw [List.find?_cons_of_neg (by simp [hask])]
      exact ih
    | some data =>
      rw [List.find?_cons_of_pos (by simp [hask])]
      simp [hask]

/-- What a recovery makes of the first answer. -/
theorem recover_first {nodeId : NodeId} {data : Bytes}
    (hfirst : r.peers.find? (fun n => (s.ask r meshLatestManifest n).isSome) = some nodeId)
    (hask : s.ask r meshLatestManifest nodeId = some data) :
    s.recover P json apiSecret r = (do
      let manifest ← (readMeshManifest P json apiSecret data).mapError .error
      let dump ← restoreDbSnapshot P manifest.toDbBackupManifest apiSecret (s.fetch r)
      pure (manifest, dump)) := by
  have hsome : ¬r.peers.isEmpty := by
    intro hempty
    rw [List.isEmpty_iff.mp hempty] at hfirst
    simp at hfirst
  unfold MeshState.recover fetchManifestFromMesh
  rw [if_neg hsome, firstManifest_eq, hfirst]
  simp only [Option.bind_some, hask, Option.map_some]

theorem recovers_iff (hkept : ∀ snapshot ∈ s.backups, SnapshotKept P apiSecret snapshot)
    (hcf : ∀ snapshot ∈ s.backups, CollisionFree P snapshot.shards (s.fetch r)) :
    s.Recovers P json apiSecret r ↔ s.FirstAnswerGood P json apiSecret r := by
  constructor
  · intro hrecovers hgood
    obtain ⟨snapshot, hsnapshot, hok⟩ := hrecovers hgood
    obtain ⟨good, hpeer, bytes, hanswer, _⟩ := hgood
    have hfound : (r.peers.find? fun n => (s.ask r meshLatestManifest n).isSome).isSome := by
      rw [List.find?_isSome]
      exact ⟨good, hpeer, by simp [hanswer]⟩
    obtain ⟨nodeId, hfirst⟩ := Option.isSome_iff_exists.mp hfound
    obtain ⟨data, hask⟩ := Option.isSome_iff_exists.mp (List.find?_some
      (p := fun n => (s.ask r meshLatestManifest n).isSome) hfirst)
    rw [recover_first hfirst hask] at hok
    obtain ⟨manifest, hread, hok⟩ := bind_ok hok
    obtain ⟨dump, hrestore, hok⟩ := bind_ok hok
    obtain ⟨rfl, rfl⟩ := Prod.mk.inj (Except.ok.inj hok)
    refine ⟨nodeId, hfirst, data, hask, snapshot, hsnapshot, mapError_ok hread, ?_⟩
    have hrestored := restoreDbSnapshot_kept (hkept snapshot hsnapshot) (hcf snapshot hsnapshot)
    split at hrestored
    next hmany => exact hmany
    next =>
      obtain ⟨f, hf⟩ := hrestored
      rw [hf] at hrestore
      simp at hrestore
  · intro hfirstgood hgood
    obtain ⟨nodeId, hfirst, data, hask, snapshot, hsnapshot, hread, hmany⟩ := hfirstgood hgood
    refine ⟨snapshot, hsnapshot, ?_⟩
    have hrestored := restoreDbSnapshot_kept (hkept snapshot hsnapshot) (hcf snapshot hsnapshot)
    rw [if_pos hmany] at hrestored
    rw [recover_first hfirst hask, hread]
    simp only [Except.mapError, ok_bind, hrestored]
    rfl

/-- Only a backup adds a row, and it adds what it has stored. -/
theorem kept_step {event : MeshEvent}
    (hkept : ∀ snapshot ∈ s.backups, SnapshotKept P config.apiSecret snapshot)
    (hgeometry : StandardGeometry s event) (h : meshStep P json config s event = some t) :
    ∀ snapshot ∈ t.backups, SnapshotKept P config.apiSecret snapshot := by
  cases event with
  | backup dataShards parityShards createdAt dump run =>
    obtain ⟨rfl, rfl⟩ := hgeometry
    simp only [meshStep] at h
    split at h
    next manifest shards hup hshards =>
      cases Option.some.inj h
      intro snapshot hmem
      rcases List.mem_append.mp hmem with hold | hnew
      · exact hkept snapshot hold
      · cases List.mem_singleton.mp hnew
        obtain ⟨shards', uploaded, wrapped, hs⟩ := backupDumpFile_ok hup
        cases Except.ok.inj (hshards.symm.trans hs.describes.backup)
        exact ⟨run, uploaded, wrapped, hs⟩
    next => simp at h
  | publish nodeId latest =>
    simp only [meshStep] at h
    split at h
    next =>
      split at h
      next => cases Option.some.inj h; exact hkept
      next => simp at h
    next => simp at h
  | deleteShard backupHash i =>
    simp only [meshStep] at h
    split at h
    next =>
      split at h
      next =>
        split at h
        next => cases Option.some.inj h; exact hkept
        next => simp at h
      next => simp at h
    next => simp at h
  | dropSnapshot backupHash =>
    simp only [meshStep] at h
    split at h
    next =>
      cases Option.some.inj h
      exact fun snapshot hmem => hkept snapshot (List.mem_of_mem_filter hmem)
    next => simp at h
  | sweep nodeId shardHash =>
    simp only [meshStep] at h
    split at h
    next => simp at h
    next => cases Option.some.inj h; exact hkept
  | store nodeId data => cases Option.some.inj h; exact hkept
  | setMediaShards shardHashes => cases Option.some.inj h; exact hkept
  | damage nodeId name data => cases Option.some.inj h; exact hkept
  | lose nodeId shardHash => cases Option.some.inj h; exact hkept

end Reminisce

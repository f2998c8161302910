import Reminisce.BackupWorkers
import Reminisce.RebalanceRuns

namespace Reminisce

section

/-- Some media row with the hash is not soft-deleted. -/
def Database.HasLive (db : Database) (hash : String) : Prop :=
  ∃ table, ∃ row ∈ db.media table, row.hash = hash ∧ row.deletedAt = none

/-- The shard table has a row with this key. -/
def Database.Records (db : Database) (hash : String) (shardIndex : Int) : Prop :=
  ∃ row ∈ db.p2pShards, row.fileHash = hash ∧ row.shardIndex = shardIndex

/-- A write that inserts shard rows for the keys in `allowed` only, removes none, and leaves
live files live. -/
structure WritesFor (allowed : String → Int → Prop) (before after : Database) : Prop where
  inserted : ∀ row ∈ after.p2pShards, before.Records row.fileHash row.shardIndex ∨
    allowed row.fileHash row.shardIndex
  records : ∀ hash shardIndex, before.Records hash shardIndex → after.Records hash shardIndex
  live : ∀ hash, before.HasLive hash → after.HasLive hash

/-- A write that inserts no shard row. -/
def Quiet : Database → Database → Prop := WritesFor fun _ _ => False

variable {P : Primitives} {db before after : Database} {hash : String}
  {allowed : String → Int → Prop}

theorem Database.live_iff : db.live hash = true ↔ db.HasLive hash := by
  unfold live HasLive
  rw [List.any_eq_true]
  constructor
  · rintro ⟨row, hmem, hrow⟩
    have hrow' : row.hash = hash ∧ row.deletedAt = none := by simpa using hrow
    rcases List.mem_append.mp hmem with himage | hvideo
    · exact ⟨.images, row, himage, hrow'⟩
    · exact ⟨.videos, row, hvideo, hrow'⟩
  · rintro ⟨table, row, hmem, hrow⟩
    refine ⟨row, ?_, by simpa using hrow⟩
    cases table with
    | images => exact List.mem_append_left _ hmem
    | videos => exact List.mem_append_right _ hmem

/-- Rows that are rewritten in place, with their hash and deletion mark, stay live. -/
theorem Database.HasLive.of_map (hlive : before.HasLive hash)
    (h : ∀ table, ∃ change : MediaRow → MediaRow, after.media table =
      (before.media table).map change ∧ ∀ row, row.deletedAt = none →
        (change row).hash = row.hash ∧ (change row).deletedAt = none) :
    after.HasLive hash := by
  obtain ⟨table, row, hrow, hhash, hdel⟩ := hlive
  obtain ⟨change, hmap, hkeep⟩ := h table
  obtain ⟨hh, hd⟩ := hkeep row hdel
  refine ⟨table, change row, ?_, hh.trans hhash, hd⟩
  rw [hmap]
  exact List.mem_map_of_mem hrow

theorem Database.HasLive.of_media (hlive : before.HasLive hash)
    (h : ∀ table, after.media table = before.media table) : after.HasLive hash := by
  obtain ⟨table, row, hrow, hkept⟩ := hlive
  exact ⟨table, row, by rwa [h table], hkept⟩

theorem Database.HasLive.updateMedia (hlive : db.HasLive hash) (table : MediaTable)
    (fileHash : String) {change : MediaRow → MediaRow}
    (hkeep : ∀ row, (change row).hash = row.hash ∧ (change row).deletedAt = row.deletedAt) :
    (db.updateMedia table fileHash change).HasLive hash := by
  refine hlive.of_map fun other => ?_
  by_cases hne : other = table
  · subst hne
    refine ⟨_, db.updateMedia_same other fileHash change, fun row hdel => ?_⟩
    split
    · exact ⟨(hkeep row).1, (hkeep row).2.trans hdel⟩
    · exact ⟨rfl, hdel⟩
  · refine ⟨id, ?_, fun row hdel => ⟨rfl, hdel⟩⟩
    rw [db.updateMedia_other hne, List.map_id]

theorem Database.HasLive.ingest (hlive : db.HasLive hash) (table : MediaTable) (userId : UserId)
    (fileHash name ext : String) :
    (db.mapMedia table (ingestInto userId fileHash name ext)).HasLive hash := by
  have hrows : ∀ rows : List MediaRow, (∃ row ∈ rows, row.hash = hash ∧ row.deletedAt = none) →
      ∃ row ∈ ingestInto userId fileHash name ext rows, row.hash = hash ∧ row.deletedAt = none := by
    rintro rows ⟨row, hrow, hhash, hdel⟩
    unfold ingestInto
    split
    next =>
      refine ⟨_, List.mem_map_of_mem hrow, ?_⟩
      split
      · exact ⟨hhash, rfl⟩
      · exact ⟨hhash, hdel⟩
    next => exact ⟨row, List.mem_append_left _ hrow, hhash, hdel⟩
  obtain ⟨found, hfound⟩ := hlive
  refine ⟨found, ?_⟩
  cases table <;> cases found <;> first | exact hrows _ hfound | exact hfound

theorem Database.HasLive.requeue (hlive : db.HasLive hash) (now : Time) (target : Nat)
    (oldest : MediaTable → List String) :
    (requeueUnderReplicated db now target oldest).HasLive hash := by
  refine hlive.of_map fun table => ?_
  have hkeep : ∀ (oldest : List String) (row : MediaRow), row.deletedAt = none →
      (if row.deletedAt = none ∧ row.p2pSyncedAt ≠ none ∧ cooledDown now row ∧ row.hash ∈ oldest ∧
        reachableShards db now row.hash < target then { row with p2pSyncedAt := none }
      else row).hash = row.hash ∧
      (if row.deletedAt = none ∧ row.p2pSyncedAt ≠ none ∧ cooledDown now row ∧ row.hash ∈ oldest ∧
        reachableShards db now row.hash < target then { row with p2pSyncedAt := none }
      else row).deletedAt = none := by
    intro oldest row hdel
    split
    · exact ⟨rfl, hdel⟩
    · exact ⟨rfl, hdel⟩
  cases table with
  | images => exact ⟨_, rfl, hkeep _⟩
  | videos => exact ⟨_, rfl, hkeep _⟩

theorem quiet_of_shards (hs : after.p2pShards = before.p2pShards)
    (hlive : ∀ hash, before.HasLive hash → after.HasLive hash) : Quiet before after where
  inserted row hrow := Or.inl ⟨row, hs ▸ hrow, rfl, rfl⟩
  records _ _ := fun ⟨row, hrow, hkey⟩ => ⟨row, hs.symm ▸ hrow, hkey⟩
  live := hlive

theorem quiet_refl (db : Database) : Quiet db db := quiet_of_shards rfl fun _ h => h

theorem Quiet.allows (h : Quiet before after) : WritesFor allowed before after where
  inserted row hrow := (h.inserted row hrow).imp_right False.elim
  records := h.records
  live := h.live

/-- Shard rows that are rewritten in place. -/
theorem quiet_map {change : ShardRow → ShardRow} (hm : ∀ table, after.media table = before.media table)
    (hs : after.p2pShards = before.p2pShards.map change)
    (hkey : ∀ row, (change row).fileHash = row.fileHash ∧ (change row).shardIndex = row.shardIndex) :
    Quiet before after where
  inserted row hrow := by
    rw [hs] at hrow
    obtain ⟨old, hold, rfl⟩ := List.mem_map.mp hrow
    exact Or.inl ⟨old, hold, (hkey old).1.symm, (hkey old).2.symm⟩
  records hash shardIndex := by
    rintro ⟨row, hrow, hh, hi⟩
    refine ⟨change row, ?_, (hkey row).1.trans hh, (hkey row).2.trans hi⟩
    rw [hs]
    exact List.mem_map_of_mem hrow
  live _ hlive := hlive.of_media hm

theorem quiet_touchShard (db : Database) (id : Nat) (now : Time) :
    Quiet db (db.touchShard id now) := by
  refine quiet_map (fun table => by cases table <;> rfl) rfl fun row => ?_
  split <;> exact ⟨rfl, rfl⟩

theorem quiet_replaceShard (db : Database) (fileHash : String) (shardIndex : Int)
    (nodeId : NodeId) (shardHash : List Char) (now : Time) :
    Quiet db (db.replaceShard fileHash shardIndex nodeId shardHash now) := by
  refine quiet_map (fun table => by cases table <;> rfl) rfl fun row => ?_
  split <;> exact ⟨rfl, rfl⟩

theorem quiet_moveShard (db : Database) (fileHash : String) (shardIndex : Int)
    (nodeId : NodeId) (shardHash : List Char) :
    Quiet db (db.moveShard fileHash shardIndex nodeId shardHash) := by
  refine quiet_map (fun table => by cases table <;> rfl) rfl fun row => ?_
  split <;> exact ⟨rfl, rfl⟩

theorem quiet_touchShards (db : Database) (fileHash : String) (now : Time) :
    Quiet db (db.touchShards fileHash now) := by
  refine quiet_map (fun table => by cases table <;> rfl) rfl fun row => ?_
  split <;> exact ⟨rfl, rfl⟩

theorem writesFor_upsertShard (db : Database) (fileHash : String) (shardIndex : Int)
    (nodeId : NodeId) (shardHash : List Char) (checked : Option Time) :
    WritesFor (fun hash idx => hash = fileHash ∧ idx = shardIndex) db
      (db.upsertShard fileHash shardIndex nodeId shardHash checked) where
  inserted row hrow := by
    rcases Database.mem_upsertShard hrow with ⟨hh, hi, _⟩ | ⟨hold, _⟩
    · exact Or.inr ⟨hh, hi⟩
    · exact Or.inl ⟨row, hold, rfl, rfl⟩
  records hash idx := by
    rintro ⟨row, hrow, rfl, rfl⟩
    exact Database.upsertShard_keeps hrow fileHash shardIndex nodeId shardHash checked
  live _ hlive := hlive.of_media fun _ => db.upsertShard_media _ _ _ _ _ _

end

variable {P : Primitives} {db : Database} {config : WorkerConfig} {w : BackupWorkers}

theorem WritesFor.trans {allowed : String → Int → Prop} {before mid after : Database}
    (h : WritesFor allowed before mid) (h' : WritesFor allowed mid after) :
    WritesFor allowed before after where
  inserted row hrow := by
    rcases h'.inserted row hrow with ⟨old, hold, hh, hi⟩ | hallowed
    · rw [← hh, ← hi]
      exact h.inserted old hold
    · exact Or.inr hallowed
  records hash idx hrec := h'.records hash idx (h.records hash idx hrec)
  live hash hlive := h'.live hash (h.live hash hlive)

theorem quiet_updateMedia (db : Database) (table : MediaTable) (fileHash : String)
    {change : MediaRow → MediaRow}
    (hkeep : ∀ row, (change row).hash = row.hash ∧ (change row).deletedAt = row.deletedAt) :
    Quiet db (db.updateMedia table fileHash change) :=
  quiet_of_shards (by simp) fun _ hlive => hlive.updateMedia table fileHash hkeep

theorem quiet_markAttempt (db : Database) (table : MediaTable) (fileHash : String) (now : Time) :
    Quiet db (markAttempt db table fileHash now) :=
  quiet_updateMedia db table fileHash fun _ => ⟨rfl, rfl⟩

theorem quiet_registerNodes (db : Database) (uploaded : List UploadedShard) (now : Time) :
    Quiet db (registerNodes db uploaded now) :=
  quiet_of_shards (by simp) fun _ hlive => hlive.of_media fun table => by simp

theorem writesFor_upsertShards (db : Database) (fileHash : String)
    (uploaded : List UploadedShard) :
    WritesFor (fun hash _ => hash = fileHash) db (upsertShards db fileHash uploaded) := by
  unfold upsertShards
  induction uploaded generalizing db with
  | nil => exact (quiet_refl db).allows
  | cons s uploaded ih =>
    rw [List.foldl_cons]
    have hfirst := writesFor_upsertShard db fileHash (asI32 s.idx) s.nodeId s.shardHashHex none
    refine WritesFor.trans ⟨fun row hrow => ?_, hfirst.records, hfirst.live⟩ (ih _)
    exact (hfirst.inserted row hrow).imp_right And.left

/-- A replication writes rows of its own file only. -/
theorem writesFor_replicateFile (db : Database) (table : MediaTable) (fileHash : String)
    (apiSecret : String) (k m : Nat) (run : ReplicationRun) :
    WritesFor (fun hash _ => hash = fileHash) db
      (replicateFile P segmentThreshold db table fileHash apiSecret k m run) := by
  have hreg : ∀ uploaded, WritesFor (fun hash _ => hash = fileHash) db
      (registerNodes db uploaded run.now) :=
    fun uploaded => (quiet_registerNodes db uploaded run.now).allows
  have hcommit : ∀ (uploaded : List UploadedShard) {mark : MediaRow → MediaRow},
      (∀ row, (mark row).hash = row.hash ∧ (mark row).deletedAt = row.deletedAt) →
      WritesFor (fun hash _ => hash = fileHash) db
        ((upsertShards (registerNodes db uploaded run.now) fileHash uploaded).updateMedia table
          fileHash mark) := by
    intro uploaded mark hmark
    refine (hreg uploaded).trans ((writesFor_upsertShards _ fileHash uploaded).trans ?_)
    exact (quiet_updateMedia _ table fileHash hmark).allows
  have hsingle : WritesFor (fun hash _ => hash = fileHash) db
      (replicateSingleFile P segmentThreshold db table fileHash apiSecret k m run).2 := by
    unfold replicateSingleFile replicateLargeFile
    repeat' split
    all_goals first
      | exact (quiet_refl db).allows
      | exact (quiet_markAttempt db table fileHash run.now).allows
      | exact hreg _
      | exact hcommit _ fun _ => ⟨rfl, rfl⟩
  unfold replicateFile
  split
  next after h => simpa [h] using hsingle
  next after h => simpa [h] using hsingle
  next after h =>
    have hfailed : WritesFor (fun hash _ => hash = fileHash) db after := by
      simpa [h] using hsingle
    exact hfailed.trans (quiet_markAttempt after table fileHash run.now).allows

theorem quiet_resetSynced (db : Database) (fileHash : String) :
    Quiet db (resetSynced db fileHash) := by
  have hreset : ∀ (db : Database) (table : MediaTable), Quiet db (db.updateMedia table fileHash
      fun row => { row with p2pSyncedAt := none }) :=
    fun db table => quiet_updateMedia db table fileHash fun _ => ⟨rfl, rfl⟩
  exact WritesFor.trans (hreset db .images) (hreset _ .videos)

theorem planRepair_db {job : AuditJob} {s : AuditState} (fileHash : String) (shardIndex : Nat)
    (io : RepairIo) :
    (planRepair P job s fileHash shardIndex io).1.db = s.db := by
  unfold planRepair
  simp only
  split
  next => rfl
  next => split <;> rfl

theorem planRepair_planned {job : AuditJob} {s : AuditState} {fileHash : String}
    {shardIndex : Nat} {io : RepairIo} {repair : PlannedRepair}
    (h : (planRepair P job s fileHash shardIndex io).2 = some repair) :
    repair.fileHash = fileHash ∧ repair.shardIndex = shardIndex := by
  unfold planRepair at h
  simp only at h
  split at h
  next => simp at h
  next =>
    split at h
    next => simp at h
    next =>
      cases Option.some.inj h
      exact ⟨rfl, rfl⟩

theorem planAudit_quiet {job : AuditJob} {s : AuditState} (row : ShardRow) (io : AuditIo) :
    Quiet s.db (planAudit P job s row io).1.db := by
  unfold planAudit
  split
  next => exact quiet_refl _
  next =>
    simp only
    split
    next =>
      split
      · exact quiet_touchShard _ _ _
      · exact quiet_refl _
    next =>
      rw [planRepair_db]
      exact quiet_refl _

/-- The audit of a recorded shard repairs that shard. -/
theorem planAudit_planned {job : AuditJob} {s : AuditState} {row : ShardRow} {io : AuditIo}
    {repair : PlannedRepair} (h : (planAudit P job s row io).2 = some repair) :
    repair.fileHash = row.fileHash ∧ repair.shardIndex = asUsize row.shardIndex ∧
      (planAudit P job s row io).1.db = s.db := by
  unfold planAudit at h ⊢
  split at h
  next => simp at h
  next =>
    simp only at h ⊢
    split at h
    next => simp at h
    next hhealthy =>
      simp only [hhealthy]
      obtain ⟨hf, hi⟩ := planRepair_planned h
      exact ⟨hf, hi, planRepair_db _ _ _⟩

/-- A repair writes the row of its shard, and inserts it only if it says so. -/
theorem writesFor_recordPlanned {job : AuditJob} {s : AuditState} (repair : PlannedRepair)
    (io : RepairIo) :
    WritesFor (fun hash idx => repair.inserts = true ∧ hash = repair.fileHash ∧
      idx = asI32 repair.shardIndex) s.db (recordPlanned P job s repair io).db := by
  unfold recordPlanned recordRepair
  split
  next => exact (quiet_refl _).allows
  next =>
    split
    next =>
      cases hinserts : repair.inserts with
      | true =>
        have hup := writesFor_upsertShard s.db repair.fileHash (asI32 repair.shardIndex)
          repair.target.1 ‹List Char› (some job.now)
        refine ⟨fun row hrow => ?_, hup.records, hup.live⟩
        exact (hup.inserted row hrow).imp_right fun hkey => ⟨rfl, hkey⟩
      | false => exact (quiet_replaceShard _ _ _ _ _ _).allows
    next => exact (quiet_refl _).allows

theorem rebalanceStep_quiet {job : RebalanceJob} {s t : RebalanceState} {event : RebalanceEvent}
    (h : rebalanceStep P job s event = some t) : Quiet s.db t.db := by
  rcases rebalanceStep_db h with heq | ⟨_, _, _, _, heq⟩ | ⟨_, heq⟩
  · rw [heq]
    exact quiet_refl _
  · rw [heq]
    exact quiet_moveShard _ _ _ _ _
  · rw [heq]
    exact quiet_touchShards _ _ _

end Reminisce

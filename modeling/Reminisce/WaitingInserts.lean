import Reminisce.LiveWork

namespace Reminisce

/-- The repairs that the audit worker has planned and not yet recorded. -/
def AuditPhase.planned : AuditPhase → List PlannedRepair
  | .recording repair next => repair :: next.planned
  | _ => []

/-- Work in progress that inserts shard rows of the file when it is done. -/
def BackupWorkers.AwaitsInsert (w : BackupWorkers) (hash : String) : Prop :=
  (∃ table, (table, hash) ∈ w.replicating) ∨
    ∃ repair ∈ w.audit.planned, repair.inserts = true ∧ repair.fileHash = hash ∧
      ¬ w.db.Records hash (asI32 repair.shardIndex)

/-- Batches and repairs are started for live files, or for shards that have a row, and no file
loses its last live row, or the row of its shard, while it waits for the insert. -/
def OnlyLiveWork (config : WorkerConfig) (w : BackupWorkers) : WorkerEvent → Prop
  | .selectBatch _ now oldestFirst =>
    ∀ hash ∈ replicationBatch oldestFirst now (max config.replicationBatchSize 1),
      w.db.HasLive hash
  | .audit _ _ _ => ∀ row todo, w.audit = .auditing (row :: todo) →
      w.db.HasLive row.fileHash ∨ w.db.Records row.fileHash (asI32 (asUsize row.shardIndex))
  | .repairMissing _ _ _ => ∀ fileHash shardIndex indices todo,
      w.audit = .repairing fileHash (shardIndex :: indices) todo →
      w.db.HasLive fileHash ∨ w.db.Records fileHash (asI32 shardIndex)
  | .setDeleted table userId hash deletedAt =>
    ∀ waiting, w.AwaitsInsert waiting →
      (w.db.mapMedia table (markDeleted userId hash deletedAt)).HasLive waiting
  | .removeNode nodeId _ => ∀ repair ∈ w.audit.planned, repair.inserts = true →
      w.db.HasLive repair.fileHash ∨
        (w.db.removeNode nodeId).Records repair.fileHash (asI32 repair.shardIndex)
  | _ => True

/-- Every shard row whose key is new belongs to a file that is live. -/
def InsertsLiveOnly (before after : Database) : Prop :=
  ∀ row ∈ after.p2pShards, ¬ before.Records row.fileHash row.shardIndex →
    before.HasLive row.fileHash

/-- Whatever waits for an insert is live: what every conforming run keeps. -/
def BackupWorkers.WaitsLive (w : BackupWorkers) : Prop :=
  ∀ hash, w.AwaitsInsert hash → w.db.HasLive hash

variable {P : Primitives} {config : WorkerConfig} {w v : BackupWorkers} {e : WorkerEvent}

theorem insertsLiveOnly_of_writes {allowed : String → Int → Prop} {before after : Database}
    (h : WritesFor allowed before after)
    (hlive : ∀ hash idx, allowed hash idx → before.Records hash idx ∨ before.HasLive hash) :
    InsertsLiveOnly before after := by
  intro row hrow hnew
  rcases h.inserted row hrow with hold | hallowed
  · exact absurd hold hnew
  · exact (hlive _ _ hallowed).resolve_left hnew

theorem insertsLiveOnly_of_quiet {before after : Database} (h : Quiet before after) :
    InsertsLiveOnly before after :=
  insertsLiveOnly_of_writes h fun _ _ => False.elim

/-- Fewer tasks, more rows and more live files: nothing new waits for an insert. -/
theorem BackupWorkers.WaitsLive.of_writes {allowed : String → Int → Prop} (hw : w.WaitsLive)
    (h : WritesFor allowed w.db v.db) (hreplicating : ∀ task ∈ v.replicating, task ∈ w.replicating)
    (hplanned : ∀ repair ∈ v.audit.planned, repair ∈ w.audit.planned) : v.WaitsLive := by
  rintro hash (⟨table, hmem⟩ | ⟨repair, hmem, hinserts, hf, hnone⟩)
  · exact h.live hash (hw hash (Or.inl ⟨table, hreplicating _ hmem⟩))
  · refine h.live hash (hw hash (Or.inr ⟨repair, hplanned repair hmem, hinserts, hf, ?_⟩))
    exact fun hold => hnone (h.records _ _ hold)

theorem BackupWorkers.WaitsLive.quiet (hw : w.WaitsLive) (h : Quiet w.db v.db)
    (hreplicating : ∀ task ∈ v.replicating, task ∈ w.replicating)
    (hplanned : ∀ repair ∈ v.audit.planned, repair ∈ w.audit.planned) :
    v.WaitsLive ∧ InsertsLiveOnly w.db v.db :=
  ⟨hw.of_writes h hreplicating hplanned, insertsLiveOnly_of_quiet h⟩

/-- A repair that is planned for a live file, or for a shard that has a row. -/
theorem BackupWorkers.WaitsLive.of_plan (hw : w.WaitsLive) (h : Quiet w.db v.db)
    (hreplicating : v.replicating = w.replicating) {next : AuditPhase}
    {planned : Option PlannedRepair} (haudit : v.audit = next.after planned)
    (hnext : next.planned = [])
    (hlive : ∀ repair, planned = some repair → w.db.HasLive repair.fileHash ∨
      w.db.Records repair.fileHash (asI32 repair.shardIndex)) : v.WaitsLive := by
  rintro hash (⟨table, hmem⟩ | ⟨repair, hmem, hinserts, hf, hnone⟩)
  · rw [hreplicating] at hmem
    exact h.live hash (hw hash (Or.inl ⟨table, hmem⟩))
  · subst hf
    cases planned with
    | none =>
      rw [haudit, AuditPhase.after, hnext] at hmem
      simp at hmem
    | some repair' =>
      rw [haudit, AuditPhase.after, AuditPhase.planned, hnext] at hmem
      cases List.mem_singleton.mp hmem
      rcases hlive _ rfl with hlive | hrecords
      · exact h.live _ hlive
      · exact absurd (h.records _ _ hrecords) hnone

theorem proceed_spec (h : w.proceed = some v) :
    Quiet w.db v.db ∧ v.replicating = w.replicating ∧ v.audit.planned = [] := by
  unfold BackupWorkers.proceed at h
  split at h
  next =>
    cases Option.some.inj h
    exact ⟨quiet_refl _, rfl, rfl⟩
  next =>
    cases Option.some.inj h
    exact ⟨quiet_refl _, rfl, rfl⟩
  next =>
    split at h
    next =>
      cases Option.some.inj h
      exact ⟨quiet_resetSynced _ _, rfl, rfl⟩
    next =>
      cases Option.some.inj h
      exact ⟨quiet_refl _, rfl, rfl⟩
  next =>
    cases Option.some.inj h
    exact ⟨quiet_refl _, rfl, rfl⟩
  next => simp at h

theorem rebalance_spec {around : Surroundings} {event : RebalanceEvent}
    (h : w.rebalanceStep P around event = some v) :
    Quiet w.db v.db ∧ v.replicating = w.replicating ∧ v.audit = w.audit := by
  unfold BackupWorkers.rebalanceStep at h
  split at h
  next => simp at h
  next task _ =>
    split at h
    next => simp at h
    next s hstep =>
      cases Option.some.inj h
      exact ⟨rebalanceStep_quiet hstep, rfl, rfl⟩

theorem quiet_ingest (db : Database) (table : MediaTable) (userId : UserId)
    (hash name ext : String) :
    Quiet db (db.mapMedia table (ingestInto userId hash name ext)) :=
  quiet_of_shards (by simp) fun _ hlive => hlive.ingest table userId hash name ext

theorem quiet_requeue (db : Database) (now : Time) (target : Nat)
    (oldest : MediaTable → List String) :
    Quiet db (requeueUnderReplicated db now target oldest) :=
  quiet_of_shards rfl fun _ hlive => hlive.requeue now target oldest

/-- A step that leaves no more shard rows than there were. -/
theorem insertsLiveOnly_of_subset {before after : Database}
    (h : ∀ row ∈ after.p2pShards, row ∈ before.p2pShards) : InsertsLiveOnly before after :=
  fun row hrow hnew => absurd ⟨row, h row hrow, rfl, rfl⟩ hnew

theorem waitsLive_setDeleted {table : MediaTable} {userId : UserId} {hash : String}
    {deletedAt : Option Time}
    (hc : OnlyLiveWork config w (.setDeleted table userId hash deletedAt))
    (h : workerStep P config w (.setDeleted table userId hash deletedAt) = some v) :
    v.WaitsLive ∧ InsertsLiveOnly w.db v.db := by
  cases Option.some.inj h
  refine ⟨fun waiting hwaits => hc waiting ?_, insertsLiveOnly_of_subset (by simp)⟩
  simpa only [BackupWorkers.AwaitsInsert, Database.Records, Database.mapMedia_p2pShards]
    using hwaits

theorem waitsLive_selectBatch {table : MediaTable} {now : Time} {oldestFirst : List MediaRow}
    (hw : w.WaitsLive) (hc : OnlyLiveWork config w (.selectBatch table now oldestFirst))
    (h : workerStep P config w (.selectBatch table now oldestFirst) = some v) :
    v.WaitsLive ∧ InsertsLiveOnly w.db v.db := by
  simp only [workerStep] at h
  split at h
  next =>
    cases Option.some.inj h
    refine ⟨?_, insertsLiveOnly_of_quiet (quiet_refl _)⟩
    rintro hash (⟨_, hmem⟩ | hplanned)
    · obtain ⟨picked, hpicked, heq⟩ := List.mem_map.mp hmem
      cases heq
      exact hc _ hpicked
    · exact hw hash (Or.inr hplanned)
  next => simp at h

/-- The files of a batch wait for their inserts, so they are live. -/
theorem waitsLive_replicate {table : MediaTable} {hash : String} {run : ReplicationRun}
    (hw : w.WaitsLive) (h : workerStep P config w (.replicate table hash run) = some v) :
    v.WaitsLive ∧ InsertsLiveOnly w.db v.db := by
  simp only [workerStep] at h
  split at h
  next hmem =>
    cases Option.some.inj h
    have hwrites := writesFor_replicateFile (P := P) w.db table hash config.apiSecret
      config.dataShards config.parityShards run
    refine ⟨hw.of_writes hwrites (fun _ hm => List.mem_of_mem_erase hm) fun _ hm => hm, ?_⟩
    refine insertsLiveOnly_of_writes hwrites fun other _ heq => Or.inr ?_
    rw [heq]
    exact hw hash (Or.inl ⟨table, hmem⟩)
  next => simp at h

/-- A cleanup runs only when no repair is planned. -/
theorem waitsLive_cleanup (hw : w.WaitsLive)
    (h : workerStep P config w .cleanup = some v) :
    v.WaitsLive ∧ InsertsLiveOnly w.db v.db := by
  simp only [workerStep] at h
  have hkept : InsertsLiveOnly w.db (cleanupOrphanedShards w.db) :=
    insertsLiveOnly_of_subset fun _ hrow => List.mem_of_mem_filter hrow
  have hwaits : ∀ {phase : AuditPhase}, phase.planned = [] → w.audit = phase →
      BackupWorkers.WaitsLive { w with db := cleanupOrphanedShards w.db } := by
    intro phase hnone haudit
    rintro hash (htask | ⟨repair, hmem, _⟩)
    · exact (hw hash (Or.inl htask)).of_media fun table => by cases table <;> rfl
    · simp only [haudit, hnone, List.not_mem_nil] at hmem
  split at h
  next haudit =>
    cases Option.some.inj h
    exact ⟨hwaits rfl haudit, hkept⟩
  next haudit =>
    cases Option.some.inj h
    exact ⟨hwaits rfl haudit, hkept⟩
  next => simp at h

theorem waitsLive_selectAudit {now : Time} {order : List ShardRow} (hw : w.WaitsLive)
    (h : workerStep P config w (.selectAudit now order) = some v) :
    v.WaitsLive ∧ InsertsLiveOnly w.db v.db := by
  simp only [workerStep] at h
  split at h
  next =>
    split at h
    next =>
      cases Option.some.inj h
      refine hw.quiet (quiet_refl _) (fun _ hm => hm) fun repair hm => ?_
      simp only at hm
      split at hm <;> simp [AuditPhase.planned] at hm
    next => simp at h
  next => simp at h

theorem waitsLive_audit {now : Time} {around : Surroundings} {io : AuditIo} (hw : w.WaitsLive)
    (hc : OnlyLiveWork config w (.audit now around io))
    (h : workerStep P config w (.audit now around io) = some v) :
    v.WaitsLive ∧ InsertsLiveOnly w.db v.db := by
  simp only [workerStep] at h
  split at h
  next row todo haudit =>
    cases Option.some.inj h
    have hplan : Quiet (w.auditState around).db (planAudit P ⟨config.apiSecret, now⟩
        (w.auditState around) row io).1.db := planAudit_quiet row io
    refine ⟨hw.of_plan hplan rfl rfl rfl fun repair hrepair => ?_, insertsLiveOnly_of_quiet hplan⟩
    obtain ⟨hf, hi, _⟩ := planAudit_planned hrepair
    rw [hf, hi]
    exact hc row todo haudit
  next => simp at h

theorem waitsLive_findUndersharded {order : List String} (hw : w.WaitsLive)
    (h : workerStep P config w (.findUndersharded order) = some v) :
    v.WaitsLive ∧ InsertsLiveOnly w.db v.db := by
  simp only [workerStep] at h
  split at h
  next =>
    split at h
    next =>
      split at h
      next =>
        cases Option.some.inj h
        exact hw.quiet (quiet_refl _) (fun _ hm => hm) fun _ hm => by simp [AuditPhase.planned] at hm
      next =>
        cases Option.some.inj h
        exact hw.quiet (quiet_refl _) (fun _ hm => hm) fun _ hm => by simp [AuditPhase.planned] at hm
    next => simp at h
  next => simp at h

theorem waitsLive_repairMissing {now : Time} {around : Surroundings} {io : RepairIo}
    (hw : w.WaitsLive) (hc : OnlyLiveWork config w (.repairMissing now around io))
    (h : workerStep P config w (.repairMissing now around io) = some v) :
    v.WaitsLive ∧ InsertsLiveOnly w.db v.db := by
  simp only [workerStep] at h
  split at h
  next fileHash shardIndex indices todo haudit =>
    cases Option.some.inj h
    have hplan : Quiet w.db (planRepair P ⟨config.apiSecret, now⟩ (w.auditState around) fileHash
        shardIndex io).1.db := by
      rw [planRepair_db]
      exact quiet_refl _
    refine ⟨hw.of_plan hplan rfl rfl rfl fun repair hrepair => ?_, insertsLiveOnly_of_quiet hplan⟩
    obtain ⟨hf, hi⟩ := planRepair_planned hrepair
    rw [hf, hi]
    exact hc fileHash shardIndex indices todo haudit
  next => simp at h

/-- A planned repair that has no row yet waits for its insert. -/
theorem waitsLive_record {now : Time} {around : Surroundings} {io : RepairIo}
    (hw : w.WaitsLive) (h : workerStep P config w (.record now around io) = some v) :
    v.WaitsLive ∧ InsertsLiveOnly w.db v.db := by
  simp only [workerStep] at h
  split at h
  next repair next haudit =>
    cases Option.some.inj h
    have hmem : repair ∈ w.audit.planned := by
      rw [haudit, AuditPhase.planned]
      exact List.mem_cons_self
    have hwrites : WritesFor (fun hash idx => repair.inserts = true ∧ hash = repair.fileHash ∧
        idx = asI32 repair.shardIndex) (w.auditState around).db
        (recordPlanned P ⟨config.apiSecret, now⟩ (w.auditState around) repair io).db :=
      writesFor_recordPlanned repair io
    refine ⟨hw.of_writes hwrites (fun _ hm => hm) fun other hm => ?_, ?_⟩
    · rw [haudit, AuditPhase.planned]
      exact List.mem_cons_of_mem _ hm
    · refine insertsLiveOnly_of_writes hwrites ?_
      rintro hash idx ⟨hinserts, rfl, rfl⟩
      by_cases hrec : w.db.Records repair.fileHash (asI32 repair.shardIndex)
      · exact Or.inl hrec
      · exact Or.inr (hw _ (Or.inr ⟨repair, hmem, hinserts, rfl, hrec⟩))
  next => simp at h

theorem waitsLive_removeNode {nodeId : NodeId} {now : Time} (hw : w.WaitsLive)
    (hc : OnlyLiveWork config w (.removeNode nodeId now))
    (h : workerStep P config w (.removeNode nodeId now) = some v) :
    v.WaitsLive ∧ InsertsLiveOnly w.db v.db := by
  simp only [workerStep] at h
  split at h
  next =>
    cases Option.some.inj h
    have hlive : ∀ hash, w.db.HasLive hash → (w.db.removeNode nodeId).HasLive hash :=
      fun hash hlive => hlive.of_media fun table => by cases table <;> rfl
    refine ⟨?_, insertsLiveOnly_of_subset fun _ hrow => List.mem_of_mem_filter hrow⟩
    rintro hash (htask | ⟨repair, hmem, hinserts, rfl, hnone⟩)
    · exact hlive hash (hw hash (Or.inl htask))
    · exact hlive _ ((hc repair hmem hinserts).resolve_right hnone)
  next => simp at h

/-- One step that meets the condition. -/
theorem workerStep_waitsLive (hw : w.WaitsLive) (hc : OnlyLiveWork config w e)
    (h : workerStep P config w e = some v) :
    v.WaitsLive ∧ InsertsLiveOnly w.db v.db := by
  cases e with
  | ingest table userId hash name ext =>
    cases Option.some.inj h
    exact hw.quiet (quiet_ingest _ _ _ _ _ _) (fun _ hm => hm) fun _ hm => hm
  | setDeleted => exact waitsLive_setDeleted hc h
  | requeue now oldest =>
    cases Option.some.inj h
    exact hw.quiet (quiet_requeue _ _ _ _) (fun _ hm => hm) fun _ hm => hm
  | selectBatch => exact waitsLive_selectBatch hw hc h
  | replicate => exact waitsLive_replicate hw h
  | cleanup => exact waitsLive_cleanup hw h
  | selectAudit => exact waitsLive_selectAudit hw h
  | audit => exact waitsLive_audit hw hc h
  | findUndersharded => exact waitsLive_findUndersharded hw h
  | proceed =>
    obtain ⟨hq, hr, hp⟩ := proceed_spec h
    refine hw.quiet hq (fun _ hm => hr ▸ hm) fun repair hm => ?_
    rw [hp] at hm
    simp at hm
  | repairMissing => exact waitsLive_repairMissing hw hc h
  | record => exact waitsLive_record hw h
  | startRebalance job around =>
    simp only [workerStep] at h
    split at h
    next =>
      cases Option.some.inj h
      exact hw.quiet (quiet_refl _) (fun _ hm => hm) fun _ hm => hm
    next => simp at h
  | rebalance around event =>
    obtain ⟨hq, hr, ha⟩ := rebalance_spec h
    exact hw.quiet hq (fun _ hm => hr ▸ hm) fun _ hm => ha ▸ hm
  | removeNode => exact waitsLive_removeNode hw hc h
  | restart =>
    cases Option.some.inj h
    exact hw.quiet (quiet_refl _) (fun _ hm => by simp at hm) fun _ hm => by
      simp [AuditPhase.planned] at hm

end Reminisce

import Reminisce.LastChecked
import Reminisce.GenerationRuns
import Reminisce.WaitingInserts

namespace Reminisce

/-- No step of the run inserts a row for a deleted file, and the shard rows of a file that is
deleted when a cleanup runs stay away as long as it is deleted. -/
structure NeverResurrects (P : Primitives) (config : WorkerConfig) (w : BackupWorkers)
    (es : List WorkerEvent) : Prop where
  inserts : ∀ past e rest u v, es = past ++ e :: rest →
    Runs.exec (workerStep P config) w past = some u → workerStep P config u e = some v →
      InsertsLiveOnly u.db v.db
  stays : ∀ past later rest u v hash, es = past ++ .cleanup :: (later ++ rest) →
    Runs.exec (workerStep P config) w (past ++ [.cleanup]) = some u →
    Runs.exec (workerStep P config) u later = some v →
    Runs.Throughout (workerStep P config) (fun w => ¬ w.db.HasLive hash) u later →
      ∀ row ∈ v.db.p2pShards, row.fileHash ≠ hash

section Stored

variable {P : Primitives} {config : WorkerConfig} {w : BackupWorkers} {es : List WorkerEvent}

theorem start_awaits_nothing (db : Database) (hash : String) :
    ¬ (BackupWorkers.start db).AwaitsInsert hash := by
  rintro (⟨_, hmem⟩ | ⟨_, hmem, _⟩)
  · simp [BackupWorkers.start] at hmem
  · simp [BackupWorkers.start, AuditPhase.planned] at hmem

theorem start_waitsLive (db : Database) : (BackupWorkers.start db).WaitsLive :=
  fun hash hwaits => absurd hwaits (start_awaits_nothing db hash)

theorem exec_waitsLive {v : BackupWorkers} (hw : w.WaitsLive)
    (hc : Runs.Meets (workerStep P config) (OnlyLiveWork config) w es)
    (h : Runs.exec (workerStep P config) w es = some v) : v.WaitsLive :=
  Runs.exec_invariant (fun _ _ _ hs hcond hstep => (workerStep_waitsLive hs hcond hstep).1) hw hc h

theorem cleanup_rows {db : Database} {row : ShardRow}
    (hrow : row ∈ (cleanupOrphanedShards db).p2pShards) :
    (cleanupOrphanedShards db).HasLive row.fileHash := by
  have hlive := Database.live_iff.mp (List.mem_filter.mp hrow).2
  exact hlive.of_media fun table => by cases table <;> rfl

/-- A file that is deleted when the cleanup runs has no shard rows afterwards. -/
theorem cleanup_empties {v : BackupWorkers} {hash : String}
    (h : workerStep P config w .cleanup = some v) (hdead : ¬ v.db.HasLive hash) :
    ∀ row ∈ v.db.p2pShards, row.fileHash ≠ hash := by
  have hdb : v.db = cleanupOrphanedShards w.db := by
    simp only [workerStep] at h
    split at h
    next =>
      cases Option.some.inj h
      rfl
    next =>
      cases Option.some.inj h
      rfl
    next => simp at h
  intro row hrow heq
  rw [hdb] at hrow hdead
  exact hdead (heq ▸ cleanup_rows hrow)

/-- While the file is deleted, no conforming step brings a shard row of it back. -/
theorem stays_empty {v : BackupWorkers} {hash : String} (hw : w.WaitsLive)
    (hempty : ∀ row ∈ w.db.p2pShards, row.fileHash ≠ hash)
    (hc : Runs.Meets (workerStep P config) (OnlyLiveWork config) w es)
    (hdead : Runs.Throughout (workerStep P config) (fun w => ¬ w.db.HasLive hash) w es)
    (h : Runs.exec (workerStep P config) w es = some v) :
    ∀ row ∈ v.db.p2pShards, row.fileHash ≠ hash := by
  let inv : BackupWorkers → Prop := fun w =>
    w.WaitsLive ∧ ∀ row ∈ w.db.p2pShards, row.fileHash ≠ hash
  have hinv : inv v := by
    refine Runs.exec_invariant ?_ ⟨hw, hempty⟩ (Runs.meets_throughout hc hdead) h
    rintro s e t ⟨hs, hnone⟩ ⟨hcond, hgone⟩ hstep
    obtain ⟨ht, hinserts⟩ := workerStep_waitsLive hs hcond hstep
    refine ⟨ht, fun row hrow heq => hgone ?_⟩
    rw [← heq]
    refine hinserts row hrow ?_
    rintro ⟨old, hold, hf, _⟩
    exact hnone old hold (hf.trans heq)
  exact hinv.2

/-- In every run that starts batches and repairs for live files only, and in which no file is
deleted while its insert is under way, deleted files are not backed up again. -/
theorem never_resurrects_of_live_work (db : Database)
    (hc : Runs.Meets (workerStep P config) (OnlyLiveWork config) (.start db) es) :
    NeverResurrects P config (.start db) es where
  inserts past e rest u v hes hpast hstep := by
    subst hes
    obtain ⟨hmeets, hrest⟩ := Runs.meets_append hc hpast
    exact (workerStep_waitsLive (exec_waitsLive (start_waitsLive db) hmeets hpast) hrest.1 hstep).2
  stays past later rest u v hash hes hpast hlater hdead := by
    subst hes
    obtain ⟨s, hs, hclean⟩ := Runs.exec_concat hpast
    have hassoc : past ++ WorkerEvent.cleanup :: (later ++ rest) =
        (past ++ [.cleanup]) ++ (later ++ rest) := by simp
    rw [hassoc] at hc
    obtain ⟨hbefore, hafter⟩ := Runs.meets_append hc hpast
    obtain ⟨hmeets, _⟩ := Runs.meets_append hafter hlater
    have hu := exec_waitsLive (start_waitsLive db) hbefore hpast
    have hgone := Runs.throughout_head hdead
    exact stays_empty hu (cleanup_empties hclean hgone) hmeets hdead hlater

def sampleConfig : WorkerConfig :=
  { apiSecret := "secret", dataShards := 3, parityShards := 2, replicationBatchSize := 10 }

def ingestEvent : WorkerEvent := .ingest .images 7 "ab" "holiday" "jpg"

theorem ingestEvent_step : workerStep referencePrimitives sampleConfig (.start Database.empty)
    ingestEvent = some (.start sampleDatabase) := rfl

/-- A database with one image, which is selected for replication whether deleted or not. -/
def oneImage (deletedAt : Option Time) : Database :=
  { sampleDatabase with images := [{ sampleRow with deletedAt }] }

theorem selectBatch_oneImage (deletedAt : Option Time) :
    workerStep referencePrimitives sampleConfig (.start (oneImage deletedAt))
      (.selectBatch .images 60 (oneImage deletedAt).images) =
      some ⟨oneImage deletedAt, [(.images, "ab")], .idle, none⟩ := by
  have hbatch : replicationBatch (oneImage deletedAt).images 60 10 = ["ab"] := by
    simp [replicationBatch, oneImage, sampleRow, cooledDown]
  have hguard : (BackupWorkers.start (oneImage deletedAt)).replicating = [] ∧
      (oneImage deletedAt).images.Perm ((BackupWorkers.start (oneImage deletedAt)).db.media
        .images) := ⟨rfl, List.Perm.refl _⟩
  simp only [workerStep, hguard, and_self, if_true]
  simp [sampleConfig, hbatch, BackupWorkers.start]

/-- The replication of the selected image. -/
theorem replicate_oneImage (deletedAt : Option Time) :
    ∃ after, workerStep referencePrimitives sampleConfig
        ⟨oneImage deletedAt, [(.images, "ab")], .idle, none⟩
        (.replicate .images "ab" (sampleRun 9 allAcks 100)) = some (.start after) ∧
      ∃ row ∈ after.p2pShards, row.fileHash = "ab" := by
  obtain ⟨shards, uploaded, wrapped, mark, hc⟩ :=
    sampleRun_committed (oneImage deletedAt) 9 allAcks 100 (by decide)
  refine ⟨replicateFile referencePrimitives segmentThreshold (oneImage deletedAt) .images "ab"
    "secret" 3 2 (sampleRun 9 allAcks 100), by simp [workerStep, sampleConfig, BackupWorkers.start], ?_⟩
  have hrows := hc.rows_enough (by decide)
  obtain ⟨row, hrow⟩ := List.exists_mem_of_length_pos (Nat.lt_of_lt_of_le (by decide) hrows)
  obtain ⟨hmem, hf⟩ := Database.mem_shardsOf.mp hrow
  exact ⟨row, hmem, hf⟩

theorem oneImage_none : oneImage none = sampleDatabase := rfl

theorem setDeleted_oneImage : workerStep referencePrimitives sampleConfig (.start sampleDatabase)
    (.setDeleted .images 7 "ab" (some 50)) = some (.start (oneImage (some 50))) := by
  simp [workerStep, BackupWorkers.start, Database.mapMedia, markDeleted, oneImage, sampleDatabase,
    sampleRow]

/-- An image that is replicated while it is live, and deleted and cleaned up afterwards. -/
theorem backed_up_image_cleaned :
    ∃ v, Runs.exec (workerStep referencePrimitives sampleConfig) (.start Database.empty)
        [ingestEvent, .selectBatch .images 60 sampleDatabase.images,
          .replicate .images "ab" (sampleRun 9 allAcks 100),
          .setDeleted .images 7 "ab" (some 200), .cleanup] = some v ∧
      NeverResurrects referencePrimitives sampleConfig (.start Database.empty)
        [ingestEvent, .selectBatch .images 60 sampleDatabase.images,
          .replicate .images "ab" (sampleRun 9 allAcks 100),
          .setDeleted .images 7 "ab" (some 200), .cleanup] := by
  have hselect := selectBatch_oneImage none
  obtain ⟨after, hreplicate, _⟩ := replicate_oneImage none
  rw [oneImage_none] at hselect hreplicate
  refine ⟨_, by
    simp only [Runs.exec, ingestEvent_step, hselect, hreplicate, Option.bind_some]
    rfl, never_resurrects_of_live_work _ ?_⟩
  refine ⟨trivial, fun s hs => ?_⟩
  cases Option.some.inj (ingestEvent_step.symm.trans hs)
  refine ⟨fun hash hmem => ?_, fun t ht => ⟨trivial, fun u hu => ⟨?_, fun _ _ => ⟨trivial, ?_⟩⟩⟩⟩
  · obtain ⟨row, hrow, rfl⟩ := List.mem_map.mp (List.mem_of_mem_take hmem)
    cases List.mem_singleton.mp (List.mem_of_mem_filter hrow)
    exact ⟨.images, sampleRow, List.mem_singleton_self _, rfl, rfl⟩
  · cases Option.some.inj (hselect.symm.trans ht)
    cases Option.some.inj (hreplicate.symm.trans hu)
    exact fun waiting hwaits => absurd hwaits (start_awaits_nothing after waiting)
  · exact fun _ _ => trivial

/-- An image that is deleted before its first replication is backed up after the cleanup. -/
theorem deleted_image_replicated :
    ¬ ∀ es, NeverResurrects referencePrimitives sampleConfig (.start Database.empty) es := by
  intro h
  have hselect := selectBatch_oneImage (some 50)
  obtain ⟨after, hreplicate, row, hrow, hf⟩ := replicate_oneImage (some 50)
  have hpast : Runs.exec (workerStep referencePrimitives sampleConfig) (.start Database.empty)
      [ingestEvent, .setDeleted .images 7 "ab" (some 50), .cleanup,
        .selectBatch .images 60 (oneImage (some 50)).images] =
      some ⟨oneImage (some 50), [(.images, "ab")], .idle, none⟩ := by
    have hcleanup : workerStep referencePrimitives sampleConfig (.start (oneImage (some 50)))
        .cleanup = some (.start (oneImage (some 50))) := rfl
    simp only [Runs.exec, ingestEvent_step, setDeleted_oneImage, hcleanup, hselect,
      Option.bind_some]
  have hlive := (h _).inserts _ _ [] _ _ rfl hpast hreplicate row hrow (by
    rintro ⟨old, hold, _⟩
    simp [oneImage, sampleDatabase] at hold)
  rw [hf] at hlive
  obtain ⟨table, image, himage, _, hdel⟩ := hlive
  cases table <;> simp_all [oneImage, sampleDatabase, Database.media]

end Stored

/-- Whatever the step does, it earns the stamps it sets. -/
def EarnsStamps (P : Primitives) (config : WorkerConfig) (s : CheckedWorkers)
    (event : WorkerEvent) : Prop :=
  ∀ t, checkedStep P config s event = some t → StampsEarned s t

/-- Each stamp is the time of a check of that row. -/
def StampsCovered (s : CheckedWorkers) : Prop :=
  ∀ row ∈ s.workers.db.p2pShards, ∀ now, row.lastCheckedAt = some now →
    ∃ check ∈ s.checks, check.fileHash = row.fileHash ∧ check.shardIndex = row.shardIndex ∧
      check.checkedAt = now

variable {P : Primitives} {config : WorkerConfig} {s t : CheckedWorkers}

theorem checkedStep_eq {event : WorkerEvent} (h : checkedStep P config s event = some t) :
    workerStep P config s.workers event = some t.workers ∧
      t.checks = s.checks ++ newChecks P config s.workers event := by
  unfold checkedStep at h
  obtain ⟨w, hw, rfl⟩ := Option.map_eq_some_iff.mp h
  exact ⟨hw, rfl⟩

theorem checkedStep_some {event : WorkerEvent} {w : BackupWorkers}
    (h : workerStep P config s.workers event = some w) :
    checkedStep P config s event =
      some ⟨w, s.checks ++ newChecks P config s.workers event⟩ := by
  simp [checkedStep, h]

theorem stampsLooked_of_plain {event : WorkerEvent} (hplain : event.stamps = false) :
    StampsLooked P s event := by
  unfold StampsLooked
  split
  next => simp [WorkerEvent.stamps] at hplain
  next => simp [WorkerEvent.stamps] at hplain
  next => trivial

theorem audit_looked_iff {now : Time} {around : Surroundings} {io : AuditIo} :
    EarnsStamps P config s (.audit now around io) ↔ StampsLooked P s (.audit now around io) := by
  simp only [StampsLooked]
  split
  next row todo haudit =>
    have hstep : workerStep P config s.workers (.audit now around io) = some
        { s.workers with
          db := (planAudit P ⟨config.apiSecret, now⟩ (s.workers.auditState around) row io).1.db
          audit := (AuditPhase.auditing todo).after
            (planAudit P ⟨config.apiSecret, now⟩ (s.workers.auditState around) row io).2 } := by
      simp only [workerStep, haudit]
    have hchecks : newChecks P config s.workers (.audit now around io) =
        auditCheck P s.workers now around row io := by
      simp only [newChecks, haudit]
    unfold EarnsStamps
    rw [checkedStep_some hstep, hchecks]
    simp only [Option.some.injEq, forall_eq']
    exact audit_stamps_iff rfl rfl
  next hidle =>
    refine ⟨fun _ => trivial, fun _ t ht => ?_⟩
    have hw := (checkedStep_eq ht).1
    simp only [workerStep] at hw
    contradiction

theorem earnsStamps_record {now : Time} {around : Surroundings} {io : RepairIo} :
    EarnsStamps P config s (.record now around io) := by
  intro t ht
  obtain ⟨hw, hchecks⟩ := checkedStep_eq ht
  simp only [workerStep] at hw
  split at hw
  next repair next haudit =>
    simp only [newChecks, haudit] at hchecks
    have hdb := congrArg BackupWorkers.db (Option.some.inj hw)
    exact stampsEarned_record hdb.symm hchecks
  next => simp at hw

/-- The last statement of a pass stamps rows that the pass has not looked at. -/
theorem finish_looked_iff {around : Surroundings} :
    EarnsStamps P config s (.rebalance around (.finish true)) ↔
      StampsLooked P s (.rebalance around (.finish true)) := by
  simp only [StampsLooked]
  split
  next job idealNodes htask =>
    have hstep : workerStep P config s.workers (.rebalance around (.finish true)) = some
        { s.workers with
          db := s.workers.db.touchShards job.fileHash job.now, rebalance := none } := by
      simp only [workerStep, BackupWorkers.rebalanceStep, htask, rebalanceStep, if_true]
    unfold EarnsStamps
    rw [checkedStep_some hstep]
    simp only [Option.some.injEq, forall_eq', newChecks, List.append_nil]
    exact stampsEarned_touch_iff (fun row => row.fileHash = job.fileHash) job.now rfl
  next hnone =>
    refine ⟨fun _ => trivial, fun _ t ht => ?_⟩
    have hw := (checkedStep_eq ht).1
    simp only [workerStep, BackupWorkers.rebalanceStep] at hw
    split at hw
    next => simp at hw
    next task htask =>
      obtain ⟨job, idealNodes, phase⟩ := task
      split at hw
      next => simp at hw
      next r hr =>
        simp only [rebalanceStep] at hr
        split at hr
        next => exact absurd htask (hnone job idealNodes)
        next => simp at hr

/-- A step earns its stamps exactly if it looks at the shards it stamps. -/
theorem stampsLooked_iff (event : WorkerEvent) :
    EarnsStamps P config s event ↔ StampsLooked P s event := by
  by_cases hplain : event.stamps = false
  · refine ⟨fun _ => stampsLooked_of_plain hplain, fun _ t ht => ?_⟩
    exact stampsEarned_of_unstamped (unstamped_workerStep hplain (checkedStep_eq ht).1)
  · cases event with
    | audit now around io => exact audit_looked_iff
    | record now around io => exact ⟨fun _ => trivial, fun _ => earnsStamps_record⟩
    | rebalance around event =>
      cases event with
      | finish succeeds =>
        cases succeeds with
        | true => exact finish_looked_iff
        | false => exact absurd rfl hplain
      | _ => exact absurd rfl hplain
    | _ => exact absurd rfl hplain

theorem stampsCovered_start (db : Database) : StampsCovered (.start db) := by
  intro row hrow now hstamp
  refine ⟨row.checkAt now, List.mem_filterMap.mpr ⟨row, hrow, ?_⟩, rfl, rfl, rfl⟩
  rw [hstamp]
  rfl

theorem stampsCovered_step {event : WorkerEvent} (hcovered : StampsCovered s)
    (hearns : EarnsStamps P config s event) (h : checkedStep P config s event = some t) :
    StampsCovered t := by
  have hchecks := (checkedStep_eq h).2
  intro row hrow now hstamp
  rcases hearns t h row hrow now hstamp with ⟨old, hold, hfile, hindex, holdstamp⟩ | hcheck
  · obtain ⟨check, hmem, hfile', hindex', hat⟩ := hcovered old hold now holdstamp
    refine ⟨check, ?_, hfile'.trans hfile, hindex'.trans hindex, hat⟩
    rw [hchecks]
    exact List.mem_append_left _ hmem
  · exact ⟨_, hcheck, rfl, rfl, rfl⟩

/-- While each stamp is the time of a check, the audit skips only what was checked lately. -/
theorem windowKept_of_covered (h : StampsCovered s) : WindowKept s := by
  intro now order hperm row hrow hskipped
  have hlate : row ∈ s.workers.db.dueShards now → (auditBatch order).length = 50 := by
    intro hdue
    refine List.length_take_of_le (Nat.le_of_not_lt fun hfew => hskipped ?_)
    rw [auditBatch, List.take_of_length_le (Nat.le_of_lt hfew)]
    exact hperm.mem_iff.mpr hdue
  cases hstamp : row.lastCheckedAt with
  | some checked =>
    by_cases hrecent : now ≤ checked + secs (7 * 24 * 3600)
    · obtain ⟨check, hmem, hfile, hindex, hat⟩ := h row hrow checked hstamp
      exact Or.inl ⟨check, hmem, hfile, hindex, hat ▸ hrecent⟩
    · refine Or.inr (hlate (List.mem_filter.mpr ⟨hrow, ?_⟩))
      simpa [hstamp] using hrecent
  | none => exact Or.inr (hlate (List.mem_filter.mpr ⟨hrow, by simp [hstamp]⟩))

/-- A run that earns all its stamps keeps the window of the audit. -/
theorem windowKept_of_earns {db : Database} {es : List WorkerEvent}
    (h : Runs.Meets (checkedStep P config) (EarnsStamps P config) (.start db) es) :
    Runs.Throughout (checkedStep P config) WindowKept (.start db) es := by
  refine Runs.throughout_mono (fun s => windowKept_of_covered) ?_
  refine Runs.throughout_of_meets (fun s event t hcovered hearns hstep => ?_)
    (stampsCovered_start db) h
  exact stampsCovered_step hcovered hearns hstep

/-- Over every run of the workers, all stamps are earned, and with them the window of the
audit is kept, exactly if no step stamps rows whose shards it has not looked at. -/
theorem last_checked_earned_iff (db : Database) (es : List WorkerEvent) :
    (Runs.Meets (checkedStep P config) (EarnsStamps P config) (.start db) es ∧
      Runs.Throughout (checkedStep P config) WindowKept (.start db) es) ↔
    Runs.Meets (checkedStep P config) (StampsLooked P) (.start db) es := by
  have hcond : EarnsStamps P config = StampsLooked P :=
    funext fun s => funext fun event => propext (stampsLooked_iff event)
  rw [← hcond]
  exact ⟨And.left, fun hearns => ⟨hearns, windowKept_of_earns hearns⟩⟩

/-- A shard on a node that nobody can find any more. -/
def lostRow : ShardRow := ⟨1, "ab", 0, "gone", List.replicate 64 '0', none⟩

/-- The only recorded shard of an image is lost: no usable address of its node is left. -/
def lostShard : Database :=
  { sampleDatabase with
    p2pShards := [lostRow], p2pNodes := [⟨"gone", none, 0, false⟩], nextShardId := 2 }

def sweepJob : RebalanceJob :=
  { fileHash := "ab", apiSecret := "secret", now := 1000000
    activeNodes := [("left", ⟨.v4 10 0 0 1, 5050⟩), ("right", ⟨.v4 10 0 0 2, 5050⟩)] }

/-- Peers without any shard. -/
def emptyAround : Surroundings :=
  { registry := { peers := [], admission := .open, nodup := by simp }
    fleet := { shards := fun _ _ => none, identityAt := fun _ => none } }

def sourceLost : SourceIo := ⟨true, none, true, ⟨false, false, false⟩⟩

/-- A pass that cannot move the shard. -/
def sweepEvents : List WorkerEvent :=
  [.startRebalance sweepJob emptyAround, .rebalance emptyAround (.consider sourceLost),
    .rebalance emptyAround (.finish true)]

theorem findFileInfo_lost :
    findFileInfo P lostShard "ab" "secret" = .ok (some ⟨"jpg", none, none, 3, 2⟩) := by
  have hk : asUsize 3 = 3 := by simp [asUsize]
  have hm : asUsize 2 = 2 := by simp [asUsize]
  have hfind : lostShard.images.find? (·.hash = "ab") = some sampleRow := by decide
  simp only [findFileInfo, hfind, fileInfoOf, sampleRow, Option.getD_none, hk, hm]
  rfl

theorem considerShard_lost {r : RebalanceState} {todo : List ShardRow} {target : NodeId × SocketAddr}
    (htarget : r.idealNodes[0]? = some target) (hne : target.1 ≠ "gone") (hdb : r.db = lostShard)
    (hregistry : r.registry = emptyAround.registry) :
    considerShard P sweepJob r lostRow todo sourceLost = { r with phase := .next todo } := by
  have hlookup : lookupNodeAddr r.registry r.db "gone" 1000000 true = (none, r.registry) := by
    rw [hdb, hregistry]
    decide
  have hsource : migrationSource P sweepJob r lostRow sourceLost =
      (.error (.error "Cannot migrate: old node addr unknown"), r.registry) := by
    rw [hdb] at hlookup
    simp only [migrationSource, sourceLost, sweepJob, hdb, findFileInfo_lost, if_true,
      retrieveShardFromOldNode, lostRow, hlookup]
  have hzero : asUsize lostRow.shardIndex % r.idealNodes.length = 0 := by
    simp [asUsize, lostRow]
  have hnode : ¬lostRow.nodeId = target.1 := fun h => hne h.symm
  simp only [considerShard, hzero, htarget, hsource, if_neg hnode]

/-- The run ends with a stamp on the lost shard, without any check. -/
theorem exec_sweepEvents : Runs.exec (checkedStep P config) (.start lostShard) sweepEvents =
    some ⟨.start (lostShard.touchShards "ab" 1000000), []⟩ := by
  have hideal : ∃ target, (rendezvousSelect P "ab" sweepJob.activeNodes 2)[0]? = some target ∧
      target.1 ≠ "gone" := by
    have hne := @rendezvousSelect_ne_nil P "ab" sweepJob.activeNodes 2 (by simp [sweepJob])
      (by decide)
    refine ⟨_, List.getElem?_eq_getElem (List.length_pos_iff.mpr hne), ?_⟩
    have hactive : ∀ node ∈ sweepJob.activeNodes, node.1 ≠ "gone" := by decide
    exact hactive _ (rendezvousSelect_subset (List.getElem_mem (List.length_pos_iff.mpr hne)))
  obtain ⟨target, htarget, hgone⟩ := hideal
  have hshards : lostShard.shardsOf "ab" = [lostRow] := by simp [Database.shardsOf, lostShard, lostRow]
  have hstart : RebalanceState.start P sweepJob emptyAround.registry lostShard emptyAround.fleet =
      { registry := emptyAround.registry, db := lostShard, fleet := emptyAround.fleet
        idealNodes := rendezvousSelect P "ab" sweepJob.activeNodes 2, phase := .next [lostRow] } := by
    have hfile : sweepJob.fileHash = "ab" := rfl
    have hsecret : sweepJob.apiSecret = "secret" := rfl
    simp only [RebalanceState.start, hfile, hsecret, findFileInfo_lost, hshards]
    rfl
  have hconsider := @considerShard_lost P
    { registry := emptyAround.registry, db := lostShard, fleet := emptyAround.fleet
      idealNodes := rendezvousSelect P "ab" sweepJob.activeNodes 2, phase := .next [lostRow] }
    [] target htarget hgone rfl rfl
  simp only [sweepEvents, Runs.exec, checkedStep, workerStep, BackupWorkers.start,
    CheckedWorkers.start, hstart, Option.map_some, Option.bind_some, newChecks,
    BackupWorkers.rebalanceStep, rebalanceStep, hconsider, List.append_nil]
  rfl

theorem not_windowKept_touched :
    ¬WindowKept ⟨.start (lostShard.touchShards "ab" 1000000), []⟩ := by
  intro hkept
  have hnone : (lostShard.touchShards "ab" 1000000).dueShards 1000000 = [] := by
    simp [Database.dueShards, Database.touchShards, lostShard, lostRow]
  have hrow : { lostRow with lastCheckedAt := some 1000000 } ∈
      (lostShard.touchShards "ab" 1000000).p2pShards := by
    simp [Database.touchShards, lostShard, lostRow]
  rcases hkept 1000000 [] (List.Perm.of_eq hnone.symm) _ hrow List.not_mem_nil with
    ⟨check, hcheck, _⟩ | hfull
  · simp at hcheck
  · simp [auditBatch] at hfull

/-- A shard whose node is gone is stamped by a pass that could not move it, and the audit
leaves it out for the next seven days. -/
theorem lost_shard_stamped :
    ¬Runs.Meets (checkedStep referencePrimitives sampleConfig)
        (EarnsStamps referencePrimitives sampleConfig) (.start lostShard) sweepEvents ∧
      ¬Runs.Throughout (checkedStep referencePrimitives sampleConfig) WindowKept
        (.start lostShard) sweepEvents := by
  have hlate : ¬Runs.Throughout (checkedStep referencePrimitives sampleConfig) WindowKept
      (.start lostShard) sweepEvents :=
    Runs.not_throughout_of_last ⟨_, Option.mem_def.mpr exec_sweepEvents, not_windowKept_touched⟩
  exact ⟨fun hearns => hlate (windowKept_of_earns hearns), hlate⟩

end Reminisce

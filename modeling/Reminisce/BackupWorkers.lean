import Reminisce.AuditRepair
import Reminisce.Generations
import Reminisce.Undersharded

namespace Reminisce

/-- A shard that `repair_file` has made or found and is about to upload and record. -/
structure PlannedRepair where
  fileHash : String
  shardIndex : Nat
  target : NodeId × SocketAddr
  data : Bytes
  inserts : Bool

/-- The part of `repair_file` before its upload. -/
def planRepair (P : Primitives) (job : AuditJob) (s : AuditState) (fileHash : String)
    (shardIndex : Nat) (io : RepairIo) : AuditState × Option PlannedRepair :=
  let (activeNodes, registry) := repairNodes s job.now io
  let s := { s with registry }
  let idealNodes := rendezvousSelect P fileHash activeNodes (min 5 activeNodes.length)
  match idealNodes[shardIndex % idealNodes.length]? with
  | none => (s, none)
  | some target =>
    match repairSource P job s fileHash shardIndex activeNodes target io with
    | none => (s, none)
    | some (data, inserts) => (s, some ⟨fileHash, shardIndex, target, data, inserts⟩)

/-- The rest of `repair_file`. -/
def recordPlanned (P : Primitives) (job : AuditJob) (s : AuditState) (repair : PlannedRepair)
    (io : RepairIo) : AuditState :=
  recordRepair P job s repair.fileHash repair.shardIndex repair.target repair.data repair.inserts io

/-- The loop body of `perform_audit` up to the upload of a repair. -/
def planAudit (P : Primitives) (job : AuditJob) (s : AuditState) (row : ShardRow) (io : AuditIo) :
    AuditState × Option PlannedRepair :=
  match lookupNodeAddr s.registry s.db row.nodeId job.now io.lookupUp with
  | (none, registry) => ({ s with registry }, none)
  | (some addr, registry) =>
    let s := { s with registry }
    let healthy := shardHealthy P s addr row io
    let s := { s with
      verdicts := s.verdicts ++ [⟨row, s.fleet.holds P addr row.shardHash, healthy⟩] }
    if healthy then
      (if io.updateUp then { s with db := s.db.touchShard row.id job.now } else s, none)
    else planRepair P job s row.fileHash (asUsize row.shardIndex) io.repair

/-- Where the audit worker stands: between two passes, in `perform_audit`, at the start of
`check_consistency`, in its loop over the files or over the shards of one file, or in
`repair_file` before the upload. -/
inductive AuditPhase
  | idle
  | auditing (todo : List ShardRow)
  | consistency
  | checking (todo : List String)
  | repairing (fileHash : String) (indices : List Nat) (todo : List String)
  | recording (repair : PlannedRepair) (next : AuditPhase)

/-- A pass of `rebalance_file`. -/
structure RebalanceTask where
  job : RebalanceJob
  idealNodes : List (NodeId × SocketAddr)
  phase : RebalancePhase

/-- The database and the work in progress: the files a replication batch has selected, the
audit worker and the rebalance worker, which runs one pass at a time. -/
structure BackupWorkers where
  db : Database
  replicating : List (MediaTable × String)
  audit : AuditPhase
  rebalance : Option RebalanceTask

structure WorkerConfig where
  apiSecret : String
  dataShards : Nat
  parityShards : Nat
  replicationBatchSize : Nat

/-- The peers and their contents as a step finds them. -/
structure Surroundings where
  registry : PeerRegistry
  fleet : Fleet

inductive WorkerEvent
  | ingest (table : MediaTable) (userId : UserId) (hash name ext : String)
  | setDeleted (table : MediaTable) (userId : UserId) (hash : String) (deletedAt : Option Time)
  | requeue (now : Time) (oldest : MediaTable → List String)
  | selectBatch (table : MediaTable) (now : Time) (oldestFirst : List MediaRow)
  | replicate (table : MediaTable) (hash : String) (run : ReplicationRun)
  | cleanup
  | selectAudit (now : Time) (order : List ShardRow)
  | audit (now : Time) (around : Surroundings) (io : AuditIo)
  | findUndersharded (order : List String)
  | proceed
  | repairMissing (now : Time) (around : Surroundings) (io : RepairIo)
  | record (now : Time) (around : Surroundings) (io : RepairIo)
  | startRebalance (job : RebalanceJob) (around : Surroundings)
  | rebalance (around : Surroundings) (event : RebalanceEvent)
  | removeNode (nodeId : NodeId) (now : Time)
  | restart

def BackupWorkers.start (db : Database) : BackupWorkers :=
  { db, replicating := [], audit := .idle, rebalance := none }

/-- The query of `replicate_batch`, over the rows ordered by `created_at`. -/
def replicationBatch (rows : List MediaRow) (now : Time) (limit : Nat) : List String :=
  ((rows.filter fun row => row.p2pSyncedAt = none ∧ cooledDown now row).map (·.hash)).take limit

def Database.live (db : Database) (hash : String) : Bool :=
  (db.images ++ db.videos).any fun row => row.hash = hash ∧ row.deletedAt = none

/-- The `DELETE` of `cleanup_orphaned_shards_with_service`. -/
def cleanupOrphanedShards (db : Database) : Database :=
  { db with p2pShards := db.p2pShards.filter fun row => db.live row.fileHash }

/-- The two updates of `check_consistency` for a file without shard rows. -/
def resetSynced (db : Database) (fileHash : String) : Database :=
  let reset := fun row : MediaRow => { row with p2pSyncedAt := none }
  (db.updateMedia .images fileHash reset).updateMedia .videos fileHash reset

/-- The two `DELETE`s of the request that removes a storage node. -/
def Database.removeNode (db : Database) (nodeId : NodeId) : Database :=
  { db with
    p2pShards := db.p2pShards.filter (·.nodeId ≠ nodeId)
    p2pNodes := db.p2pNodes.filter (·.nodeId ≠ nodeId) }

/-- The state of a pass, as far as the functions on one shard read it. -/
def BackupWorkers.auditState (w : BackupWorkers) (around : Surroundings) : AuditState :=
  { registry := around.registry, db := w.db, fleet := around.fleet, consistencyCheck := false
    todo := [], verdicts := [] }

/-- The outcome of planning: the next shard, or the repair first. -/
def AuditPhase.after (next : AuditPhase) : Option PlannedRepair → AuditPhase
  | none => next
  | some repair => .recording repair next

/-- The loop heads of the audit worker. -/
def BackupWorkers.proceed (w : BackupWorkers) : Option BackupWorkers :=
  match w.audit with
  | .auditing [] => some { w with audit := .idle }
  | .checking [] => some { w with audit := .idle }
  | .checking (fileHash :: todo) =>
    if w.db.shardCount fileHash = 0 then
      some { w with db := resetSynced w.db fileHash, audit := .checking todo }
    else some { w with audit := .repairing fileHash (List.range 5) todo }
  | .repairing _ [] todo => some { w with audit := .checking todo }
  | _ => none

def BackupWorkers.rebalanceStep (P : Primitives) (w : BackupWorkers) (around : Surroundings)
    (event : RebalanceEvent) : Option BackupWorkers :=
  match w.rebalance with
  | none => none
  | some task =>
    match Reminisce.rebalanceStep P task.job
      { registry := around.registry, db := w.db, fleet := around.fleet
        idealNodes := task.idealNodes, phase := task.phase } event with
    | none => none
    | some s => some { w with
        db := s.db
        rebalance := match s.phase with
          | .stopped => none
          | phase => some { task with phase } }

/-- One operation of a worker or of a user. A batch is selected when the last one is done; the
cleanup runs before the audit query and at the start of `check_consistency`. -/
def workerStep (P : Primitives) (config : WorkerConfig) (w : BackupWorkers) :
    WorkerEvent → Option BackupWorkers
  | .ingest table userId hash name ext =>
    some { w with db := w.db.mapMedia table (ingestInto userId hash name ext) }
  | .setDeleted table userId hash deletedAt =>
    some { w with db := w.db.mapMedia table (markDeleted userId hash deletedAt) }
  | .requeue now oldest =>
    some { w with db := requeueUnderReplicated w.db now config.dataShards oldest }
  | .selectBatch table now oldestFirst =>
    if w.replicating = [] ∧ oldestFirst.Perm (w.db.media table) then
      some { w with replicating :=
        (replicationBatch oldestFirst now (max config.replicationBatchSize 1)).map (table, ·) }
    else none
  | .replicate table hash run =>
    if (table, hash) ∈ w.replicating then
      some { w with
        db := replicateFile P segmentThreshold w.db table hash config.apiSecret config.dataShards
          config.parityShards run
        replicating := w.replicating.erase (table, hash) }
    else none
  | .cleanup =>
    match w.audit with
    | .idle => some { w with db := cleanupOrphanedShards w.db }
    | .consistency => some { w with db := cleanupOrphanedShards w.db }
    | _ => none
  | .selectAudit now order =>
    if order.Perm (w.db.dueShards now) then
      match w.audit with
      | .idle => some { w with audit :=
          if (auditBatch order).isEmpty then .consistency else .auditing (auditBatch order) }
      | _ => none
    else none
  | .audit now around io =>
    match w.audit with
    | .auditing (row :: todo) =>
      let (s, repair) := planAudit P ⟨config.apiSecret, now⟩ (w.auditState around) row io
      some { w with db := s.db, audit := (AuditPhase.auditing todo).after repair }
    | _ => none
  | .findUndersharded order =>
    if order.Perm w.db.syncedFiles then
      match w.audit with
      | .consistency =>
        match findUndershardedFiles w.db order 10 with
        | .ok found => some { w with audit := .checking found }
        | .error _ => some { w with audit := .idle }
      | _ => none
    else none
  | .proceed => w.proceed
  | .repairMissing now around io =>
    match w.audit with
    | .repairing fileHash (shardIndex :: indices) todo =>
      let (s, repair) := planRepair P ⟨config.apiSecret, now⟩ (w.auditState around) fileHash
        shardIndex io
      some { w with
        db := s.db, audit := (AuditPhase.repairing fileHash indices todo).after repair }
    | _ => none
  | .record now around io =>
    match w.audit with
    | .recording repair next => some { w with
        db := (recordPlanned P ⟨config.apiSecret, now⟩ (w.auditState around) repair io).db
        audit := next }
    | _ => none
  | .startRebalance job around =>
    match w.rebalance with
    | none =>
      let s := RebalanceState.start P job around.registry w.db around.fleet
      some { w with rebalance := some ⟨job, s.idealNodes, s.phase⟩ }
    | some _ => none
  | .rebalance around event => w.rebalanceStep P around event
  | .removeNode nodeId now =>
    if ∃ node ∈ w.db.p2pNodes, node.nodeId = nodeId ∧
      ¬(node.isActive = true ∧ now < node.lastSeen + secs 3600) then
      some { w with db := w.db.removeNode nodeId }
    else none
  | .restart => some { w with replicating := [], audit := .idle, rebalance := none }

/-- No second rebalance starts beside a running one. -/
example (P : Primitives) (config : WorkerConfig) (w : BackupWorkers) (task : RebalanceTask)
    (job : RebalanceJob) (around : Surroundings) (h : w.rebalance = some task) :
    workerStep P config w (.startRebalance job around) = none := by
  simp only [workerStep, h]

variable {P : Primitives} {job : AuditJob} {s : AuditState}

/-- Planning and recording, one after the other, are `repair_file`. -/
theorem repairFile_eq_planned (fileHash : String) (shardIndex : Nat) (io : RepairIo) :
    repairFile P job s fileHash shardIndex io =
      match planRepair P job s fileHash shardIndex io with
      | (s, none) => s
      | (s, some repair) => recordPlanned P job s repair io := by
  unfold repairFile planRepair
  simp only
  generalize rendezvousSelect P fileHash (repairNodes s job.now io).1
    (min 5 (repairNodes s job.now io).1.length) = idealNodes
  cases idealNodes[shardIndex % idealNodes.length]? with
  | none => rfl
  | some target =>
    simp only
    generalize repairSource P job _ fileHash shardIndex _ target io = source
    cases source with
    | none => rfl
    | some found => rfl

theorem auditRow_eq_planned (row : ShardRow) (io : AuditIo) :
    auditRow P job s row io =
      match planAudit P job s row io with
      | (s, none) => s
      | (s, some repair) => recordPlanned P job s repair io.repair := by
  unfold auditRow planAudit
  generalize lookupNodeAddr s.registry s.db row.nodeId job.now io.lookupUp = found
  obtain ⟨addr, registry⟩ := found
  cases addr with
  | none => rfl
  | some addr =>
    by_cases hhealthy : shardHealthy P { s with registry } addr row io = true
    · simp only [hhealthy, if_true]
    · simp only [hhealthy]
      exact repairFile_eq_planned _ _ _

end Reminisce

import Reminisce.WaitingInserts
import Reminisce.AuditSoundness
import Reminisce.LiveWork

namespace Reminisce

/-- A shard that was found on its node, or stored there with an acknowledgement. -/
structure ShardCheck where
  fileHash : String
  shardIndex : Int
  nodeId : NodeId
  shardHash : List Char
  checkedAt : Time
  deriving DecidableEq, Repr

def ShardRow.checkAt (row : ShardRow) (now : Time) : ShardCheck :=
  ⟨row.fileHash, row.shardIndex, row.nodeId, row.shardHash, now⟩

/-- The workers, with all that was verified or stored so far. -/
structure CheckedWorkers where
  workers : BackupWorkers
  checks : List ShardCheck

/-- The stamps found at the start count as earned. -/
def CheckedWorkers.start (db : Database) : CheckedWorkers :=
  { workers := .start db
    checks := db.p2pShards.filterMap fun row => row.lastCheckedAt.map row.checkAt }

/-- The shards of one replication that their nodes have acknowledged. -/
def acknowledgedShards (P : Primitives) (segmentSize : Nat) (fileHash : String)
    (dataShards parityShards : Nat) (run : ReplicationRun) : List UploadedShard :=
  match run.fileData with
  | none => []
  | some fileData =>
    if segmentSize < fileData.length then
      match uploadSegmented P segmentSize run.nodes fileHash fileData run.encryptionKey.toList
        dataShards parityShards run.acks with
      | .ok (shardResults, _) => shardResults
      | .error _ => []
    else
      match processForBackup P fileData run.encryptionKey.toList run.encryptionKey.toList
        dataShards parityShards with
      | .error _ => []
      | .ok (shards, _) =>
        match uploadInmemory P run.nodes fileHash shards run.acks with
        | .ok finalResults => finalResults
        | .error _ => []

/-- The check that an answered upload amounts to. -/
def uploadCheck (P : Primitives) (around : Surroundings) (fileHash : String) (shardIndex : Int)
    (target : NodeId × SocketAddr) (data : Bytes) (outcome : UploadOutcome) (now : Time) :
    List ShardCheck :=
  match uploadShardToNode P around.fleet around.registry target.2 data outcome with
  | (_, some shardHash) => [⟨fileHash, shardIndex, target.1, shardHash, now⟩]
  | (_, none) => []

/-- The audit of one row verifies its shard if it is found healthy and the node does hold it. -/
def auditCheck (P : Primitives) (w : BackupWorkers) (now : Time) (around : Surroundings)
    (row : ShardRow) (io : AuditIo) : List ShardCheck :=
  match lookupNodeAddr around.registry w.db row.nodeId now io.lookupUp with
  | (none, _) => []
  | (some addr, registry) =>
    if shardHealthy P { w.auditState around with registry } addr row io ∧
      around.fleet.holds P addr row.shardHash then [row.checkAt now]
    else []

/-- What one step verifies or stores. -/
def newChecks (P : Primitives) (config : WorkerConfig) (w : BackupWorkers) :
    WorkerEvent → List ShardCheck
  | .replicate _ hash run =>
    (acknowledgedShards P segmentThreshold hash config.dataShards config.parityShards run).map
      fun s => ⟨hash, asI32 s.idx, s.nodeId, s.shardHashHex, run.now⟩
  | .audit now around io =>
    match w.audit with
    | .auditing (row :: _) => auditCheck P w now around row io
    | _ => []
  | .record now around io =>
    match w.audit with
    | .recording repair _ =>
      uploadCheck P around repair.fileHash (asI32 repair.shardIndex) repair.target repair.data
        io.upload now
    | _ => []
  | .rebalance around (.upload outcome) =>
    match w.rebalance with
    | some ⟨job, _, .upload row target data _⟩ =>
      uploadCheck P around job.fileHash row.shardIndex target data outcome job.now
    | _ => []
  | _ => []

def checkedStep (P : Primitives) (config : WorkerConfig) (s : CheckedWorkers)
    (event : WorkerEvent) : Option CheckedWorkers :=
  (workerStep P config s.workers event).map fun workers =>
    ⟨workers, s.checks ++ newChecks P config s.workers event⟩

/-- The row with this key had this stamp already. -/
def Database.Stamped (db : Database) (row : ShardRow) (now : Time) : Prop :=
  ∃ old ∈ db.p2pShards, old.fileHash = row.fileHash ∧ old.shardIndex = row.shardIndex ∧
    old.lastCheckedAt = some now

/-- A row gets a new stamp only for a check of the shard that it then names. -/
def StampsEarned (before after : CheckedWorkers) : Prop :=
  ∀ row ∈ after.workers.db.p2pShards, ∀ now, row.lastCheckedAt = some now →
    before.workers.db.Stamped row now ∨ row.checkAt now ∈ after.checks

/-- A row that an audit at this time would leave out was checked in the last seven days, or
the audit has its 50 rows already, in whatever order they come. -/
def WindowKept (s : CheckedWorkers) : Prop :=
  ∀ now order, order.Perm (s.workers.db.dueShards now) →
    ∀ row ∈ s.workers.db.p2pShards, row ∉ auditBatch order →
      (∃ check ∈ s.checks, check.fileHash = row.fileHash ∧ check.shardIndex = row.shardIndex ∧
        now ≤ check.checkedAt + secs (7 * 24 * 3600)) ∨
      (auditBatch order).length = 50

/-- Wrong bytes are seen, and a row that an audit of a healthy shard stamps still names the
shard that was looked at. -/
def AuditStampsSeen (P : Primitives) (s : CheckedWorkers) (now : Time) (around : Surroundings)
    (row : ShardRow) (io : AuditIo) : Prop :=
  ∀ addr registry,
    lookupNodeAddr around.registry s.workers.db row.nodeId now io.lookupUp =
      (some addr, registry) →
    shardHealthy P { s.workers.auditState around with registry } addr row io → io.updateUp →
    ∀ present ∈ s.workers.db.p2pShards, present.id = row.id →
      s.workers.db.Stamped present now ∨ present.checkAt now ∈ s.checks ∨
        (present.checkAt now = row.checkAt now ∧
          WrongBytesSeen P { s.workers.auditState around with registry } addr row io)

/-- The last statement of a rebalance pass finds every row of its file moved by that pass. -/
def TouchesMoved (s : CheckedWorkers) (job : RebalanceJob) : Prop :=
  ∀ row ∈ s.workers.db.p2pShards, row.fileHash = job.fileHash →
    s.workers.db.Stamped row job.now ∨ row.checkAt job.now ∈ s.checks

/-- No stamp without a look at the shard. -/
def StampsLooked (P : Primitives) (s : CheckedWorkers) : WorkerEvent → Prop
  | .audit now around io =>
    match s.workers.audit with
    | .auditing (row :: _) => AuditStampsSeen P s now around row io
    | _ => True
  | .rebalance _ (.finish true) =>
    match s.workers.rebalance with
    | some ⟨job, _, .next []⟩ => TouchesMoved s job
    | _ => True
  | _ => True

/-- A write that gives no row a new stamp. -/
def Unstamped (before after : Database) : Prop :=
  ∀ row ∈ after.p2pShards, ∀ now, row.lastCheckedAt = some now → before.Stamped row now

variable {P : Primitives} {config : WorkerConfig} {before mid after : Database}
  {s t : CheckedWorkers}

theorem Database.stamped_self {db : Database} {row : ShardRow} {now : Time}
    (hrow : row ∈ db.p2pShards) (hstamp : row.lastCheckedAt = some now) : db.Stamped row now :=
  ⟨row, hrow, rfl, rfl, hstamp⟩

theorem unstamped_of_subset (h : after.p2pShards ⊆ before.p2pShards) : Unstamped before after :=
  fun _ hrow _ hstamp => Database.stamped_self (h hrow) hstamp

theorem unstamped_of_eq (h : after.p2pShards = before.p2pShards) : Unstamped before after :=
  unstamped_of_subset fun _ hrow => h ▸ hrow

theorem Unstamped.trans (h : Unstamped before mid) (h' : Unstamped mid after) :
    Unstamped before after := by
  intro row hrow now hstamp
  obtain ⟨old, hold, hfile, hindex, holdstamp⟩ := h' row hrow now hstamp
  obtain ⟨first, hfirst, hfile', hindex', hstamp'⟩ := h old hold now holdstamp
  exact ⟨first, hfirst, hfile'.trans hfile, hindex'.trans hindex, hstamp'⟩

/-- Rows that are rewritten in place, with their key and their stamp. -/
theorem unstamped_map {change : ShardRow → ShardRow}
    (hs : after.p2pShards = before.p2pShards.map change)
    (hkeep : ∀ row, (change row).fileHash = row.fileHash ∧
      (change row).shardIndex = row.shardIndex ∧ (change row).lastCheckedAt = row.lastCheckedAt) :
    Unstamped before after := by
  intro row hrow now hstamp
  rw [hs] at hrow
  obtain ⟨old, hold, rfl⟩ := List.mem_map.mp hrow
  obtain ⟨hfile, hindex, hkept⟩ := hkeep old
  exact ⟨old, hold, hfile.symm, hindex.symm, hkept ▸ hstamp⟩

theorem unstamped_moveShard (db : Database) (fileHash : String) (shardIndex : Int)
    (nodeId : NodeId) (shardHash : List Char) :
    Unstamped db (db.moveShard fileHash shardIndex nodeId shardHash) := by
  refine unstamped_map rfl fun row => ?_
  split <;> exact ⟨rfl, rfl, rfl⟩

theorem unstamped_upsertShard (db : Database) (fileHash : String) (shardIndex : Int)
    (nodeId : NodeId) (shardHash : List Char) :
    Unstamped db (db.upsertShard fileHash shardIndex nodeId shardHash none) := by
  unfold Database.upsertShard
  split
  next =>
    refine unstamped_map rfl fun row => ?_
    split <;> exact ⟨rfl, rfl, rfl⟩
  next =>
    intro row hrow now hstamp
    rcases List.mem_append.mp hrow with hrow | hrow
    · exact Database.stamped_self hrow hstamp
    · rw [List.mem_singleton.mp hrow] at hstamp
      simp at hstamp

theorem unstamped_upsertShards (db : Database) (fileHash : String)
    (uploaded : List UploadedShard) : Unstamped db (upsertShards db fileHash uploaded) := by
  unfold upsertShards
  induction uploaded generalizing db with
  | nil => exact unstamped_of_eq rfl
  | cons s uploaded ih =>
    rw [List.foldl_cons]
    exact (unstamped_upsertShard _ _ _ _ _).trans (ih _)

/-- A replication inserts its rows without a stamp, and leaves the stamps of rows it
overwrites. -/
theorem unstamped_replicateFile (db : Database) (table : MediaTable) (fileHash : String)
    (apiSecret : String) (k m : Nat) (run : ReplicationRun) :
    Unstamped db (replicateFile P segmentThreshold db table fileHash apiSecret k m run) := by
  rcases @replicateFile_cases P segmentThreshold k m db table fileHash apiSecret run with
    hun | ⟨file, shards, uploaded, wrapped, mark, hcom⟩
  · exact unstamped_of_eq hun.1
  · rw [hcom.after_eq]
    have hregistered : Unstamped db (registerNodes db uploaded run.now) :=
      unstamped_of_eq (by simp)
    refine hregistered.trans ((unstamped_upsertShards _ fileHash uploaded).trans ?_)
    exact unstamped_of_eq (by simp)

theorem unstamped_proceed {w v : BackupWorkers} (h : w.proceed = some v) : Unstamped w.db v.db := by
  unfold BackupWorkers.proceed at h
  split at h
  next => cases Option.some.inj h; exact unstamped_of_eq rfl
  next => cases Option.some.inj h; exact unstamped_of_eq rfl
  next =>
    split at h
    next =>
      cases Option.some.inj h
      exact unstamped_of_eq (by simp [resetSynced])
    next => cases Option.some.inj h; exact unstamped_of_eq rfl
  next => cases Option.some.inj h; exact unstamped_of_eq rfl
  next => simp at h

/-- Every step of a rebalance pass but its last leaves the stamps alone. -/
theorem unstamped_rebalanceStep {job : RebalanceJob} {r u : RebalanceState}
    {event : RebalanceEvent} (hlast : event ≠ .finish true)
    (h : rebalanceStep P job r event = some u) : Unstamped r.db u.db := by
  rcases rebalanceStep_db h with heq | ⟨_, _, _, _, heq⟩ | ⟨hfinish, _⟩
  · exact unstamped_of_eq (congrArg Database.p2pShards heq)
  · rw [heq]
    exact unstamped_moveShard _ _ _ _ _
  · exact absurd hfinish hlast

/-- Stamping the rows of a kind is earned exactly if each of them was checked. -/
theorem stampsEarned_touch_iff (kind : ShardRow → Prop) [DecidablePred kind] (now : Time)
    (h : t.workers.db.p2pShards = s.workers.db.p2pShards.map fun row =>
      if kind row then { row with lastCheckedAt := some now } else row) :
    StampsEarned s t ↔ ∀ row ∈ s.workers.db.p2pShards, kind row →
      s.workers.db.Stamped row now ∨ row.checkAt now ∈ t.checks := by
  unfold StampsEarned
  rw [h]
  constructor
  · intro hearned row hrow hkind
    have hmem := List.mem_map_of_mem
      (f := fun row => if kind row then { row with lastCheckedAt := some now } else row) hrow
    simpa [hkind, Database.Stamped, ShardRow.checkAt] using hearned _ hmem now (by simp [hkind])
  · intro hchecked row hrow stamp hstamp
    obtain ⟨old, hold, rfl⟩ := List.mem_map.mp hrow
    by_cases hkind : kind old
    · rw [if_pos hkind] at hstamp ⊢
      cases Option.some.inj hstamp
      exact hchecked old hold hkind
    · rw [if_neg hkind] at hstamp ⊢
      exact Or.inl (Database.stamped_self hold hstamp)

theorem stampsEarned_of_unstamped (h : Unstamped s.workers.db t.workers.db) : StampsEarned s t :=
  fun row hrow now hstamp => Or.inl (h row hrow now hstamp)

/-- A row written by `repair_file` names the shard that its node has just acknowledged. -/
theorem stampsEarned_repair {fileHash : String} {shardIndex : Int} {nodeId : NodeId}
    {shardHash : List Char} {now : Time} (inserts : Bool)
    (hdb : t.workers.db = if inserts then
        s.workers.db.upsertShard fileHash shardIndex nodeId shardHash (some now)
      else s.workers.db.replaceShard fileHash shardIndex nodeId shardHash now)
    (hcheck : ⟨fileHash, shardIndex, nodeId, shardHash, now⟩ ∈ t.checks) : StampsEarned s t := by
  have hreplaced : ∀ rows : List ShardRow, rows ⊆ s.workers.db.p2pShards → ∀ row ∈ rows.map
      (fun row => if row.fileHash = fileHash ∧ row.shardIndex = shardIndex then
        { row with nodeId, shardHash, lastCheckedAt := some now } else row),
      ∀ stamp, row.lastCheckedAt = some stamp →
        s.workers.db.Stamped row stamp ∨ row.checkAt stamp ∈ t.checks := by
    intro rows hrows row hrow stamp hstamp
    obtain ⟨old, hold, rfl⟩ := List.mem_map.mp hrow
    by_cases hkey : old.fileHash = fileHash ∧ old.shardIndex = shardIndex
    · rw [if_pos hkey] at hstamp ⊢
      cases Option.some.inj hstamp
      right
      simpa [ShardRow.checkAt, hkey] using hcheck
    · rw [if_neg hkey] at hstamp ⊢
      exact Or.inl (Database.stamped_self (hrows hold) hstamp)
  intro row hrow stamp hstamp
  rw [hdb] at hrow
  cases inserts with
  | false => exact hreplaced _ (List.Subset.refl _) row hrow stamp hstamp
  | true =>
    simp only [if_true, Database.upsertShard] at hrow
    split at hrow
    next => exact hreplaced _ (List.Subset.refl _) row hrow stamp hstamp
    next =>
      rcases List.mem_append.mp hrow with hrow | hrow
      · exact Or.inl (Database.stamped_self hrow hstamp)
      · cases List.mem_singleton.mp hrow
        cases Option.some.inj hstamp
        exact Or.inr hcheck

/-- The events that can give a row a new stamp. -/
def WorkerEvent.stamps : WorkerEvent → Bool
  | .audit .. => true
  | .record .. => true
  | .rebalance _ (.finish true) => true
  | _ => false

theorem unstamped_workerStep {w v : BackupWorkers} {event : WorkerEvent}
    (hplain : event.stamps = false) (h : workerStep P config w event = some v) :
    Unstamped w.db v.db := by
  cases event with
  | ingest table userId hash name ext =>
    cases Option.some.inj h
    exact unstamped_of_eq (by simp)
  | setDeleted table userId hash deletedAt =>
    cases Option.some.inj h
    exact unstamped_of_eq (by simp)
  | requeue now oldest =>
    cases Option.some.inj h
    exact unstamped_of_eq rfl
  | selectBatch table now oldestFirst =>
    simp only [workerStep] at h
    split at h
    next => cases Option.some.inj h; exact unstamped_of_eq rfl
    next => simp at h
  | replicate table hash run =>
    simp only [workerStep] at h
    split at h
    next => cases Option.some.inj h; exact unstamped_replicateFile _ _ _ _ _ _ _
    next => simp at h
  | cleanup =>
    simp only [workerStep] at h
    split at h
    next => cases Option.some.inj h; exact unstamped_of_subset (List.filter_subset_self _)
    next => cases Option.some.inj h; exact unstamped_of_subset (List.filter_subset_self _)
    next => simp at h
  | selectAudit now order =>
    simp only [workerStep] at h
    split at h
    next =>
      split at h
      next => cases Option.some.inj h; exact unstamped_of_eq rfl
      next => simp at h
    next => simp at h
  | audit now around io => simp [WorkerEvent.stamps] at hplain
  | findUndersharded order =>
    simp only [workerStep] at h
    split at h
    next =>
      split at h
      next =>
        split at h
        next => cases Option.some.inj h; exact unstamped_of_eq rfl
        next => cases Option.some.inj h; exact unstamped_of_eq rfl
      next => simp at h
    next => simp at h
  | proceed => exact unstamped_proceed h
  | repairMissing now around io =>
    simp only [workerStep] at h
    split at h
    next =>
      cases Option.some.inj h
      exact unstamped_of_eq (by rw [planRepair_db]; rfl)
    next => simp at h
  | record now around io => simp [WorkerEvent.stamps] at hplain
  | startRebalance job around =>
    simp only [workerStep] at h
    split at h
    next => cases Option.some.inj h; exact unstamped_of_eq rfl
    next => simp at h
  | rebalance around event =>
    simp only [workerStep, BackupWorkers.rebalanceStep] at h
    split at h
    next => simp at h
    next task _ =>
      split at h
      next => simp at h
      next r hstep =>
        cases Option.some.inj h
        refine unstamped_rebalanceStep (fun hlast => ?_) hstep
        simp [hlast, WorkerEvent.stamps] at hplain
  | removeNode nodeId now =>
    simp only [workerStep] at h
    split at h
    next => cases Option.some.inj h; exact unstamped_of_subset (List.filter_subset_self _)
    next => simp at h
  | restart =>
    cases Option.some.inj h
    exact unstamped_of_eq rfl

/-- The audit of one row: its database and its check, in the three ways it can go. -/
theorem planAudit_stamps {w : BackupWorkers} {now : Time} {around : Surroundings} {row : ShardRow}
    {io : AuditIo} :
    (∃ addr registry,
      lookupNodeAddr around.registry w.db row.nodeId now io.lookupUp = (some addr, registry) ∧
      shardHealthy P { w.auditState around with registry } addr row io = true ∧
      io.updateUp = true ∧
      (planAudit P ⟨config.apiSecret, now⟩ (w.auditState around) row io).1.db =
        w.db.touchShard row.id now ∧
      (auditCheck P w now around row io = if around.fleet.holds P addr row.shardHash then
        [row.checkAt now] else [])) ∨
    ((planAudit P ⟨config.apiSecret, now⟩ (w.auditState around) row io).1.db = w.db ∧
      ∀ addr registry,
        lookupNodeAddr around.registry w.db row.nodeId now io.lookupUp = (some addr, registry) →
        ¬(shardHealthy P { w.auditState around with registry } addr row io = true ∧
          io.updateUp = true)) := by
  have hlook : lookupNodeAddr (w.auditState around).registry (w.auditState around).db row.nodeId now
      io.lookupUp = lookupNodeAddr around.registry w.db row.nodeId now io.lookupUp := rfl
  unfold planAudit auditCheck
  rw [hlook]
  cases hfound : lookupNodeAddr around.registry w.db row.nodeId now io.lookupUp with
  | mk found registry =>
    cases found with
    | none => exact Or.inr ⟨rfl, by simp⟩
    | some addr =>
      by_cases hhealthy :
          shardHealthy P { w.auditState around with registry } addr row io = true
      · by_cases hup : io.updateUp = true
        · refine Or.inl ⟨addr, registry, rfl, hhealthy, hup, ?_, ?_⟩
          · simp only [hhealthy, hup, if_true]
            rfl
          · simp only [hhealthy, true_and]
        · refine Or.inr ⟨?_, ?_⟩
          · simp only [hhealthy, if_true, hup]
            rfl
          · rintro other second heq ⟨-, hup'⟩
            exact hup hup'
      · refine Or.inr ⟨?_, ?_⟩
        · simp only [hhealthy]
          rw [if_neg (by simp), planRepair_db]
          rfl
        · rintro other second heq ⟨hother, -⟩
          obtain ⟨haddr, hregistry⟩ := Prod.mk.inj heq
          cases Option.some.inj haddr
          cases hregistry
          exact hhealthy hother

/-- What is audited is stamped rightly exactly if the row still names the shard that was seen. -/
theorem audit_stamps_iff {now : Time} {around : Surroundings} {row : ShardRow} {io : AuditIo}
    (hdb : t.workers.db =
      (planAudit P ⟨config.apiSecret, now⟩ (s.workers.auditState around) row io).1.db)
    (hchecks : t.checks = s.checks ++ auditCheck P s.workers now around row io) :
    StampsEarned s t ↔ AuditStampsSeen P s now around row io := by
  rcases @planAudit_stamps P config s.workers now around row io with
    ⟨addr, registry, hlook, hhealthy, hup, htouch, hcheck⟩ | ⟨hsame, hnever⟩
  · have hsound : WrongBytesSeen P { s.workers.auditState around with registry } addr row io ↔
        around.fleet.holds P addr row.shardHash = true := by
      rw [← shardHealthy_sound_iff]
      exact ⟨fun h => h hhealthy, fun h _ => h⟩
    rw [htouch] at hdb
    rw [stampsEarned_touch_iff (fun old => old.id = row.id) now
      (by rw [hdb]; rfl)]
    have hmem : ∀ present : ShardRow, present.checkAt now ∈ t.checks ↔
        present.checkAt now ∈ s.checks ∨ (present.checkAt now = row.checkAt now ∧
          WrongBytesSeen P { s.workers.auditState around with registry } addr row io) := by
      intro present
      rw [hchecks, hcheck, List.mem_append, hsound]
      split <;> simp_all
    constructor
    · intro h addr' registry' hlook' _ _ present hpresent hid
      obtain ⟨haddr, hregistry⟩ := Prod.mk.inj (hlook.symm.trans hlook')
      cases Option.some.inj haddr
      cases hregistry
      exact (h present hpresent hid).imp_right (hmem present).mp
    · intro h present hpresent hid
      exact (h addr registry hlook hhealthy hup present hpresent hid).imp_right (hmem present).mpr
  · rw [hsame] at hdb
    refine ⟨fun _ => ?_, fun _ => stampsEarned_of_unstamped (unstamped_of_eq (by rw [hdb]))⟩
    intro addr registry hlook hhealthy hup
    exact absurd ⟨hhealthy, hup⟩ (hnever addr registry hlook)

theorem stampsEarned_record {now : Time} {around : Surroundings} {repair : PlannedRepair}
    {io : RepairIo}
    (hdb : t.workers.db =
      (recordPlanned P ⟨config.apiSecret, now⟩ (s.workers.auditState around) repair io).db)
    (hchecks : t.checks = s.checks ++ uploadCheck P around repair.fileHash
      (asI32 repair.shardIndex) repair.target repair.data io.upload now) : StampsEarned s t := by
  have hup : uploadShardToNode P (s.workers.auditState around).fleet
      (s.workers.auditState around).registry repair.target.2 repair.data io.upload =
      uploadShardToNode P around.fleet around.registry repair.target.2 repair.data io.upload := rfl
  unfold recordPlanned recordRepair at hdb
  unfold uploadCheck at hchecks
  rw [hup] at hdb
  cases hanswer : uploadShardToNode P around.fleet around.registry repair.target.2 repair.data
      io.upload with
  | mk fleet answer =>
    rw [hanswer] at hdb hchecks
    cases answer with
    | none => exact stampsEarned_of_unstamped (unstamped_of_eq (by rw [hdb]; rfl))
    | some shardHash =>
      by_cases hwrite : io.writeUp = true
      · simp only [hwrite, if_true] at hdb
        refine stampsEarned_repair repair.inserts hdb ?_
        rw [hchecks]
        exact List.mem_append_right _ (List.mem_singleton_self _)
      · simp only [hwrite] at hdb
        exact stampsEarned_of_unstamped (unstamped_of_eq (by rw [hdb]; rfl))

end Reminisce

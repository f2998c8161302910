import Reminisce.RebalanceRuns

namespace Reminisce

def rebalanceBatchSize : Nat := 50

/-- `GROUP BY file_hash`. -/
def Database.shardFiles (db : Database) : List String := (db.p2pShards.map (·.fileHash)).dedup

/-- `MIN(last_checked_at)`, which passes over rows that were never checked. -/
def Database.minChecked (db : Database) (fileHash : String) : Option Time :=
  ((db.p2pShards.filter (·.fileHash = fileHash)).filterMap (·.lastCheckedAt)).min?

/-- `COUNT(DISTINCT node_id)`. -/
def Database.nodeCount (db : Database) (fileHash : String) : Nat :=
  ((db.p2pShards.filter (·.fileHash = fileHash)).map (·.nodeId)).dedup.length

/-- The `HAVING` clause of `rebalance_cycle_inner`. -/
def Database.needsRebalance (db : Database) (targetNodeCount : Nat) (now : Time)
    (fileHash : String) : Bool :=
  decide (db.nodeCount fileHash < targetNodeCount) &&
    match db.minChecked fileHash with
    | none => true
    | some checked => decide (checked + secs 3600 < now)

def nullsFirst : Option Time → Option Time → Bool
  | none, _ => true
  | some _, none => false
  | some a, some b => decide (a ≤ b)

/-- `ORDER BY min_checked NULLS FIRST LIMIT $2`; `order` is the order in which the database
happens to produce the groups. -/
def rebalanceBatch (db : Database) (order : List String) (targetNodeCount : Nat) (now : Time) :
    List String :=
  ((order.filter (db.needsRebalance targetNodeCount now)).mergeSort fun a b =>
    nullsFirst (db.minChecked a) (db.minChecked b)).take rebalanceBatchSize

/-- What one run of `rebalance_file` meets, while the database answers. -/
structure FileRun where
  now : Time
  registry : PeerRegistry
  fleet : Fleet
  events : List RebalanceEvent

/-- What one cycle meets: the rows of `p2p_nodes` once the peers are registered, the order of the
groups, and the runs over the files of its batch. -/
structure SweepCycle where
  now : Time
  nodes : List NodeRow
  order : List String
  runs : List FileRun

def RebalanceEvent.answered : RebalanceEvent → Bool
  | .update succeeds => succeeds
  | .finish succeeds => succeeds
  | _ => true

def FileRun.finished (run : FileRun) : Bool :=
  run.events.all RebalanceEvent.answered &&
    match run.events.getLast? with
    | some (.finish _) => true
    | _ => false

/-- `rebalance_file` to its end, an error of the file's key included; a panic ends the sweep. -/
def sweepFile (P : Primitives) (apiSecret : String) (activeNodes : List (NodeId × SocketAddr))
    (db : Database) (fileHash : String) (run : FileRun) : Option Database :=
  let job : RebalanceJob := { fileHash, activeNodes, apiSecret, now := run.now }
  let start := RebalanceState.start P job run.registry db run.fleet
  match start.phase with
  | .stopped => some start.db
  | _ =>
    if run.finished then (Runs.exec (rebalanceStep P job) start run.events).map (·.db) else none

def sweepFiles (P : Primitives) (apiSecret : String) (activeNodes : List (NodeId × SocketAddr)) :
    Database → List String → List FileRun → Option Database
  | db, [], [] => some db
  | db, fileHash :: files, run :: runs =>
    (sweepFile P apiSecret activeNodes db fileHash run).bind fun db =>
      sweepFiles P apiSecret activeNodes db files runs
  | _, _, _ => none

def SweepCycle.database (c : SweepCycle) (db : Database) : Database := { db with p2pNodes := c.nodes }

/-- `target_node_count`. -/
def SweepCycle.targetNodeCount (c : SweepCycle) (db : Database) : Nat :=
  min ((c.database db).placementTargets c.now).length 5

def SweepCycle.batch (c : SweepCycle) (db : Database) : List String :=
  rebalanceBatch db c.order (c.targetNodeCount db) c.now

/-- A `rebalance_cycle` of `run_full_rebalance` that returns `Ok(true)`. -/
def sweepCycle (P : Primitives) (apiSecret : String) (db : Database) (c : SweepCycle) :
    Option Database :=
  if c.order.isPerm db.shardFiles ∧ 0 < c.targetNodeCount db ∧ c.batch db ≠ [] then
    sweepFiles P apiSecret ((c.database db).placementTargets c.now) (c.database db) (c.batch db)
      c.runs
  else none

/-- The files that the query of the cycle takes into account, the limit aside. -/
def Database.eligibleCount (db : Database) (targetNodeCount : Nat) (now : Time) : Nat :=
  db.shardFiles.countP (db.needsRebalance targetNodeCount now)

/-- The cycle leaves fewer of the files eligible. -/
def EligibleDecreases (P : Primitives) (apiSecret : String) (db : Database) (c : SweepCycle) :
    Prop :=
  ∀ t, sweepCycle P apiSecret db c = some t →
    t.eligibleCount (c.targetNodeCount db) c.now < db.eligibleCount (c.targetNodeCount db) c.now

/-- `find_file_info` gives no error for the file. -/
def readableFile (P : Primitives) (apiSecret : String) (db : Database) (fileHash : String) : Bool :=
  match findFileInfo P db fileHash apiSecret with
  | .ok _ => true
  | .error _ => false

/-- At least one file of the batch has a key that can be decrypted, or needs none. -/
def BatchReadable (P : Primitives) (apiSecret : String) (db : Database) (c : SweepCycle) : Prop :=
  ∃ fileHash ∈ c.batch db, readableFile P apiSecret db fileHash = true

/-- The cycle is in the hour that begins with the sweep. -/
def SweepCycle.WithinHour (start : Time) (c : SweepCycle) : Prop :=
  start ≤ c.now ∧ c.now ≤ start + secs 3600 ∧ ∀ run ∈ c.runs, c.now ≤ run.now

/-- No row of the file was checked since the start. -/
def Database.uncheckedSince (db : Database) (start : Time) (fileHash : String) : Bool :=
  match db.minChecked fileHash with
  | none => true
  | some checked => decide (checked < start)

/-- A change that leaves the media and the shard rows of other files as they are. -/
structure OnlyFile (fileHash : String) (before after : Database) : Prop where
  images : after.images = before.images
  videos : after.videos = before.videos
  files : after.p2pShards.map (·.fileHash) = before.p2pShards.map (·.fileHash)
  others : ∀ other ≠ fileHash, after.p2pShards.filter (·.fileHash = other) =
    before.p2pShards.filter (·.fileHash = other)

variable {P : Primitives} {apiSecret fileHash other : String} {before mid after db t : Database}
  {job : RebalanceJob} {activeNodes : List (NodeId × SocketAddr)}

theorem OnlyFile.refl (fileHash : String) (db : Database) : OnlyFile fileHash db db :=
  ⟨rfl, rfl, rfl, fun _ _ => rfl⟩

theorem OnlyFile.trans (h : OnlyFile fileHash before mid) (h' : OnlyFile fileHash mid after) :
    OnlyFile fileHash before after where
  images := h'.images.trans h.images
  videos := h'.videos.trans h.videos
  files := h'.files.trans h.files
  others other hother := (h'.others other hother).trans (h.others other hother)

theorem onlyFile_map {change : ShardRow → ShardRow}
    (hrows : after.p2pShards = before.p2pShards.map change) (himages : after.images = before.images)
    (hvideos : after.videos = before.videos)
    (hkeep : ∀ row, (change row).fileHash = row.fileHash ∧
      (row.fileHash ≠ fileHash → change row = row)) : OnlyFile fileHash before after where
  images := himages
  videos := hvideos
  files := by
    rw [hrows, List.map_map]
    exact List.map_congr_left fun row _ => (hkeep row).1
  others other hother := by
    have hsame : (fun row : ShardRow => decide (row.fileHash = other)) ∘ change =
        fun row => decide (row.fileHash = other) := by
      funext row
      rw [Function.comp_apply, (hkeep row).1]
    rw [hrows, List.filter_map, hsame]
    refine (List.map_congr_left fun row hrow => ?_).trans (List.map_id _)
    have hfile : row.fileHash = other := by simpa using (List.mem_filter.mp hrow).2
    exact (hkeep row).2 (hfile ▸ hother)

theorem onlyFile_moveShard (db : Database) (fileHash : String) (shardIndex : Int) (nodeId : NodeId)
    (shardHash : List Char) :
    OnlyFile fileHash db (db.moveShard fileHash shardIndex nodeId shardHash) := by
  refine onlyFile_map rfl rfl rfl fun row => ?_
  by_cases hrow : row.fileHash = fileHash ∧ row.shardIndex = shardIndex
  · rw [if_pos hrow]
    exact ⟨rfl, fun hne => absurd hrow.1 hne⟩
  · rw [if_neg hrow]
    exact ⟨rfl, fun _ => rfl⟩

theorem onlyFile_touchShards (db : Database) (fileHash : String) (now : Time) :
    OnlyFile fileHash db (db.touchShards fileHash now) := by
  refine onlyFile_map rfl rfl rfl fun row => ?_
  by_cases hrow : row.fileHash = fileHash
  · rw [if_pos hrow]
    exact ⟨rfl, fun hne => absurd hrow hne⟩
  · rw [if_neg hrow]
    exact ⟨rfl, fun _ => rfl⟩

theorem onlyFile_step {s u : RebalanceState} {event : RebalanceEvent}
    (h : rebalanceStep P job s event = some u) : OnlyFile job.fileHash s.db u.db := by
  rcases rebalanceStep_db h with heq | ⟨shardIndex, nodeId, shardHash, _, heq⟩ | ⟨_, heq⟩
  · rw [heq]
    exact OnlyFile.refl _ _
  · rw [heq]
    exact onlyFile_moveShard _ _ _ _ _
  · rw [heq]
    exact onlyFile_touchShards _ _ _

theorem onlyFile_run {s u : RebalanceState} {events : List RebalanceEvent}
    (h : Runs.exec (rebalanceStep P job) s events = some u) : OnlyFile job.fileHash s.db u.db :=
  Runs.exec_invariant_of_step (fun _ _ _ hs hstep => OnlyFile.trans hs (onlyFile_step hstep))
    (OnlyFile.refl _ _) h

/-- The rows of a file that was just stamped have the stamp as their oldest check. -/
theorem minChecked_touchShards (hfile : fileHash ∈ db.shardFiles) (now : Time) :
    (db.touchShards fileHash now).minChecked fileHash = some now := by
  unfold Database.minChecked
  have hall : ∀ checked ∈ ((db.touchShards fileHash now).p2pShards.filter
      (·.fileHash = fileHash)).filterMap (·.lastCheckedAt), checked = now := by
    intro checked hmem
    obtain ⟨row, hrow, hchecked⟩ := List.mem_filterMap.mp hmem
    obtain ⟨htouched, hthis⟩ := List.mem_filter.mp hrow
    obtain ⟨old, hold, rfl⟩ := List.mem_map.mp htouched
    by_cases hold : old.fileHash = fileHash
    · rw [if_pos hold] at hchecked
      exact (Option.some.inj hchecked).symm
    · rw [if_neg hold] at hthis
      exact absurd (of_decide_eq_true hthis) hold
  have hmem : now ∈ ((db.touchShards fileHash now).p2pShards.filter
      (·.fileHash = fileHash)).filterMap (·.lastCheckedAt) := by
    obtain ⟨row, hrow, rfl⟩ := List.mem_map.mp (List.mem_dedup.mp hfile)
    refine List.mem_filterMap.mpr ⟨{ row with lastCheckedAt := some now }, ?_, rfl⟩
    refine List.mem_filter.mpr ⟨List.mem_map.mpr ⟨row, hrow, if_pos rfl⟩, by simp⟩
  exact List.min?_eq_some_iff.mpr ⟨hmem, fun checked hchecked => (hall checked hchecked).ge⟩

theorem OnlyFile.shardFiles (h : OnlyFile fileHash before after) :
    after.shardFiles = before.shardFiles := congrArg List.dedup h.files

theorem FileRun.finished_last {run : FileRun} (h : run.finished = true) :
    ∃ past, run.events = past ++ [.finish true] := by
  unfold FileRun.finished at h
  obtain ⟨hanswered, hlast⟩ := Bool.and_eq_true_iff.mp h
  split at hlast
  next succeeds hevent =>
    obtain ⟨past, hpast⟩ := List.getLast?_eq_some_iff.mp hevent
    have hmem : RebalanceEvent.finish succeeds ∈ run.events := by simp [hpast]
    obtain rfl : succeeds = true := List.all_eq_true.mp hanswered _ hmem
    exact ⟨past, hpast⟩
  next => cases hlast

theorem rebalanceStep_finish {s u : RebalanceState}
    (h : rebalanceStep P job s (.finish true) = some u) :
    u.db = s.db.touchShards job.fileHash job.now := by
  simp only [rebalanceStep] at h
  split at h
  next =>
    cases Option.some.inj h
    rfl
  next => cases h

/-- A finished run stamps its file. -/
theorem sweepFile_spec {run : FileRun}
    (h : sweepFile P apiSecret activeNodes db fileHash run = some t) :
    OnlyFile fileHash db t ∧
      (readableFile P apiSecret db fileHash = false → t = db) ∧
      (readableFile P apiSecret db fileHash = true → fileHash ∈ db.shardFiles →
        t.minChecked fileHash = some run.now) := by
  unfold sweepFile at h
  simp only at h
  unfold readableFile
  cases hinfo : findFileInfo P db fileHash apiSecret with
  | error e =>
    have hstart : ∀ job : RebalanceJob, job.fileHash = fileHash → job.apiSecret = apiSecret →
        (RebalanceState.start P job run.registry db run.fleet).phase = .stopped := by
      rintro job rfl rfl
      simp [RebalanceState.start, hinfo]
    rw [hstart _ rfl rfl] at h
    obtain rfl : db = t := by simpa [start_db] using h
    exact ⟨OnlyFile.refl _ _, fun _ => rfl, fun hfalse => absurd hfalse (by simp)⟩
  | ok info =>
    refine ⟨?_, fun hfalse => absurd hfalse (by simp), fun _ hfile => ?_⟩
    · split at h
      next =>
        cases Option.some.inj h
        rw [start_db]
        exact OnlyFile.refl _ _
      next =>
        split at h
        next =>
          obtain ⟨u, hrun, rfl⟩ := Option.map_eq_some_iff.mp h
          have honly := onlyFile_run hrun
          rwa [start_db] at honly
        next => cases h
    · have hnext : ∀ job : RebalanceJob, job.fileHash = fileHash → job.apiSecret = apiSecret →
          (RebalanceState.start P job run.registry db run.fleet).phase =
            .next (db.shardsOf fileHash) := by
        rintro job rfl rfl
        simp [RebalanceState.start, hinfo]
      rw [hnext _ rfl rfl] at h
      simp only at h
      split at h
      next hfinished =>
        obtain ⟨u, hrun, rfl⟩ := Option.map_eq_some_iff.mp h
        obtain ⟨past, hpast⟩ := FileRun.finished_last hfinished
        rw [hpast] at hrun
        obtain ⟨v, hbefore, hlast⟩ := Runs.exec_concat hrun
        have honly := onlyFile_run hbefore
        rw [start_db] at honly
        rw [rebalanceStep_finish hlast]
        exact minChecked_touchShards (honly.shardFiles ▸ hfile) run.now
      next => cases h

/-- What the runs over a batch leave: only the files that can be read are changed, and those are
stamped. -/
structure Swept (P : Primitives) (apiSecret : String) (batch : List String) (earliest : Time)
    (before after : Database) : Prop where
  images : after.images = before.images
  videos : after.videos = before.videos
  shardFiles : after.shardFiles = before.shardFiles
  others : ∀ other, other ∉ batch ∨ readableFile P apiSecret before other = false →
    after.p2pShards.filter (·.fileHash = other) = before.p2pShards.filter (·.fileHash = other)
  stamped : ∀ fileHash ∈ batch, readableFile P apiSecret before fileHash = true →
    ∃ checked, earliest ≤ checked ∧ after.minChecked fileHash = some checked

theorem readableFile_congr (P : Primitives) (apiSecret : String)
    (himages : after.images = before.images) (hvideos : after.videos = before.videos)
    (fileHash : String) :
    readableFile P apiSecret after fileHash = readableFile P apiSecret before fileHash := by
  simp only [readableFile, findFileInfo, himages, hvideos]

theorem minChecked_congr (h : after.p2pShards.filter (·.fileHash = fileHash) =
    before.p2pShards.filter (·.fileHash = fileHash)) :
    after.minChecked fileHash = before.minChecked fileHash := by
  simp only [Database.minChecked, h]

theorem needsRebalance_congr (h : after.p2pShards.filter (·.fileHash = fileHash) =
    before.p2pShards.filter (·.fileHash = fileHash)) (targetNodeCount : Nat) (now : Time) :
    after.needsRebalance targetNodeCount now fileHash =
      before.needsRebalance targetNodeCount now fileHash := by
  unfold Database.needsRebalance Database.nodeCount
  rw [minChecked_congr h, h]

theorem sweepFiles_swept {files : List String} {runs : List FileRun} {earliest : Time}
    (hnodup : files.Nodup) (hfiles : ∀ f ∈ files, f ∈ db.shardFiles)
    (hruns : ∀ run ∈ runs, earliest ≤ run.now)
    (h : sweepFiles P apiSecret activeNodes db files runs = some t) :
    Swept P apiSecret files earliest db t := by
  induction files generalizing db runs with
  | nil =>
    cases runs with
    | nil =>
      cases Option.some.inj h
      exact ⟨rfl, rfl, rfl, fun _ _ => rfl, fun _ hf => absurd hf List.not_mem_nil⟩
    | cons run runs => cases h
  | cons f files ih =>
    cases runs with
    | nil => cases h
    | cons run runs =>
      obtain ⟨mid, hfirst, hrest⟩ := Option.bind_eq_some_iff.mp h
      obtain ⟨honly, hsame, hstamp⟩ := sweepFile_spec hfirst
      obtain ⟨hnew, hnodup'⟩ := List.nodup_cons.mp hnodup
      have hread := readableFile_congr P apiSecret honly.images honly.videos
      have hlater : Swept P apiSecret files earliest mid t := by
        refine ih hnodup' (fun g hg => ?_) (fun r hr => hruns r (List.mem_cons_of_mem _ hr)) hrest
        rw [honly.shardFiles]
        exact hfiles g (List.mem_cons_of_mem _ hg)
      refine ⟨hlater.images.trans honly.images, hlater.videos.trans honly.videos,
        hlater.shardFiles.trans honly.shardFiles, fun other hother => ?_, fun g hg hok => ?_⟩
      · rcases hother with hout | hlocked
        · obtain ⟨hne, hout'⟩ := not_or.mp (mt List.mem_cons.mpr hout)
          exact (hlater.others other (Or.inl hout')).trans (honly.others other hne)
        · have hmid := hlater.others other (Or.inr ((hread other).trans hlocked))
          by_cases hf : other = f
          · subst hf
            rw [hmid, hsame hlocked]
          · exact hmid.trans (honly.others other hf)
      · rcases List.mem_cons.mp hg with rfl | hg
        · refine ⟨run.now, hruns run (by simp), ?_⟩
          rw [minChecked_congr (hlater.others g (Or.inl hnew))]
          exact hstamp hok (hfiles g (by simp))
        · exact hlater.stamped g hg ((hread g).trans hok)

end Reminisce

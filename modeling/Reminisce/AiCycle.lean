import Reminisce.Ingest
import Reminisce.Library.Keyed

namespace Reminisce.AiCycle

/-- The columns that the queries of a cycle read; of the embedding only whether there is one. -/
structure AiRow where
  userId : UserId
  hash : String
  ext : String
  name : String
  createdAt : Time
  orientation : Option Int
  verificationStatus : Int
  deletedAt : Option Time
  hasEmbedding : Bool
  embeddingGeneratedAt : Option Time
  faceDetectionCompletedAt : Option Time
  orientationDetectedAt : Option Time
  description : Option String
  qualityScoreGeneratedAt : Option Time
  deriving DecidableEq, Repr

def AiRow.key (row : AiRow) : UserId × String := (row.userId, row.hash)

/-- Both tables with their unique keys. -/
structure AiTables where
  rows : MediaTable → List AiRow
  nodup : ∀ table, ((rows table).map AiRow.key).Nodup

structure AiTask where
  hash : String
  ext : String
  name : String
  userId : UserId
  fileType : MediaTable
  processDescription : Bool
  processEmbedding : Bool
  processFaces : Bool
  processQuality : Bool
  processOrientation : Bool
  createdAt : Time
  orientation : Option Int
  deriving DecidableEq, Repr

/-- The queries for tasks, in their order of priority. -/
inductive TaskQuery
  | embedding
  | videoEmbedding
  | faces
  | orientation
  | description
  | quality
  deriving DecidableEq, Repr

/-- What is done with a file, in the order it is done in. -/
inductive Work
  | description
  | embedding
  | orientation
  | faces
  | quality
  deriving DecidableEq, Repr

namespace TaskQuery

def all : List TaskQuery :=
  [.embedding, .videoEmbedding, .faces, .orientation, .description, .quality]

def rank : TaskQuery → Nat
  | .embedding => 0
  | .videoEmbedding => 1
  | .faces => 2
  | .orientation => 3
  | .description => 4
  | .quality => 5

def table : TaskQuery → MediaTable
  | .videoEmbedding => .videos
  | _ => .images

def work : TaskQuery → Work
  | .embedding | .videoEmbedding => .embedding
  | .faces => .faces
  | .orientation => .orientation
  | .description => .description
  | .quality => .quality

/-- The condition that each query adds to those that all of them have. -/
def awaits (row : AiRow) : TaskQuery → Bool
  | .embedding | .videoEmbedding => !row.hasEmbedding && row.embeddingGeneratedAt.isNone
  | .faces => row.faceDetectionCompletedAt.isNone
  | .orientation => (row.orientation.all fun o => o < 1 || 8 < o) && row.orientationDetectedAt.isNone
  | .description => row.description.isNone
  | .quality => row.hasEmbedding && row.qualityScoreGeneratedAt.isNone

def selects (q : TaskQuery) (row : AiRow) : Bool :=
  row.verificationStatus = 1 && row.deletedAt.isNone && awaits row q &&
    (q = .videoEmbedding || toLowercase row.ext.toList ≠ "svg")

/-- The rows of a query, the oldest first. -/
def answer (q : TaskQuery) (tables : AiTables) (limit : Nat) : List AiRow :=
  (((tables.rows q.table).filter q.selects).mergeSort fun r r' => r.createdAt ≤ r'.createdAt).take
    limit

/-- A task for a row, with nothing to do yet. -/
def base (q : TaskQuery) (row : AiRow) : AiTask where
  hash := row.hash
  ext := row.ext
  name := row.name
  userId := row.userId
  fileType := q.table
  processDescription := false
  processEmbedding := false
  processFaces := false
  processQuality := false
  processOrientation := false
  createdAt := row.createdAt
  orientation := none

/-- The task that a row makes if its hash has none. -/
def fresh (q : TaskQuery) (row : AiRow) : AiTask :=
  match q with
  | .embedding | .videoEmbedding => { q.base row with processEmbedding := true }
  | .faces => { q.base row with processFaces := true, orientation := row.orientation }
  | .orientation => { q.base row with processOrientation := true, orientation := row.orientation }
  | .description => { q.base row with processDescription := true }
  | .quality => { q.base row with processQuality := true }

/-- What a row makes of the task that its hash has: `insert` replaces it, `or_insert` leaves it, and
`and_modify` changes it. -/
def modify (q : TaskQuery) (row : AiRow) (task : AiTask) : AiTask :=
  match q with
  | .embedding => q.fresh row
  | .videoEmbedding => task
  | .faces => { task with processFaces := true, orientation := row.orientation }
  | .orientation => { task with processOrientation := row.orientation.isNone }
  | .description => { task with processDescription := true }
  | .quality => { task with processQuality := true }

end TaskQuery

/-- `all_tasks_to_process` after another row, the tasks keyed by their hash. -/
def mergeRow (tasks : List AiTask) (e : TaskQuery × AiRow) : List AiTask :=
  if tasks.any fun task => task.hash = e.2.hash then
    tasks.map fun task => if task.hash = e.2.hash then e.1.modify e.2 task else task
  else tasks ++ [e.1.fresh e.2]

def tasksOf (log : List (TaskQuery × AiRow)) : List AiTask := log.foldl mergeRow []

/-- The settings and the load of a cycle whose queries succeed. -/
structure CycleConfig where
  enableEmbeddings : Bool
  enableFaceDetection : Bool
  enableOrientationDetection : Bool
  enableAiDescriptions : Bool
  totalBatchLimit : Nat
  gpuLoad : Nat
  deriving DecidableEq, Repr

/-- With every feature switched off the cycle is skipped. -/
def CycleConfig.skips (config : CycleConfig) : Bool :=
  !config.enableAiDescriptions && !config.enableEmbeddings && !config.enableFaceDetection &&
    !config.enableOrientationDetection

def CycleConfig.enables (config : CycleConfig) : TaskQuery → Bool
  | .embedding | .videoEmbedding => config.enableEmbeddings
  | .faces => config.enableFaceDetection
  | .orientation => config.enableOrientationDetection
  | .description => config.enableAiDescriptions && config.gpuLoad < 95
  | .quality => true

/-- The rows so far, after another query that has room left. -/
def runQuery (tables : AiTables) (config : CycleConfig) (log : List (TaskQuery × AiRow))
    (q : TaskQuery) : List (TaskQuery × AiRow) :=
  let count := (tasksOf log).length
  if config.enables q ∧ (q = .embedding ∨ count < config.totalBatchLimit) then
    log ++ (q.answer tables (config.totalBatchLimit - count)).map fun row => (q, row)
  else log

/-- The rows that the queries of a cycle return. -/
def returnedRows (tables : AiTables) (config : CycleConfig) : List (TaskQuery × AiRow) :=
  if config.skips then [] else TaskQuery.all.foldl (runQuery tables config) []

/-- What the works of a file meet: whether each gets its permit and its client, and whether the
description fails for good. -/
structure WorkIo where
  starts : Work → Bool
  permanentFailure : Bool

/-- The works that are started, each after the ones before it. -/
def startedWorks (io : WorkIo) : List Work → List Work
  | [] => []
  | w :: rest =>
    if io.starts w then
      if w = .description ∧ io.permanentFailure then [w] else w :: startedWorks io rest
    else []

/-- A work with what it is done with. -/
structure Execution where
  work : Work
  userId : UserId
  fileType : MediaTable
  hash : String
  ext : String
  orientation : Option Int
  deriving DecidableEq, Repr

def AiTask.flag (task : AiTask) : Work → Bool
  | .description => task.processDescription
  | .embedding => task.processEmbedding
  | .orientation => task.processOrientation
  | .faces => task.processFaces
  | .quality => task.processQuality

/-- The condition that a work has in the loop over the tasks. -/
def AiTask.processes (task : AiTask) (w : Work) : Bool :=
  (w = .description || w = .embedding || task.fileType = .images) && task.flag w

def AiTask.works (task : AiTask) : List Work :=
  [.description, .embedding, .orientation, .faces, .quality].filter task.processes

def AiTask.execution (task : AiTask) (w : Work) : Execution :=
  ⟨w, task.userId, task.fileType, task.hash, task.ext,
    if w = .faces then task.orientation else none⟩

/-- What a cycle executes, as a set. -/
def Executes (io : UserId → MediaTable → String → WorkIo) (log : List (TaskQuery × AiRow))
    (x : Execution) : Prop :=
  ∃ task ∈ tasksOf log,
    ∃ w ∈ startedWorks (io task.userId task.fileType task.hash) task.works, x = task.execution w

/-- What a row was selected for. -/
def selection (e : TaskQuery × AiRow) : Execution :=
  ⟨e.1.work, e.2.userId, e.1.table, e.2.hash, e.2.ext,
    if e.1.work = .faces then e.2.orientation else none⟩

/-- A hash stands for one row of one user in one table. -/
def OneRowPerHash (log : List (TaskQuery × AiRow)) : Prop :=
  ∀ e ∈ log, ∀ e' ∈ log, e.2.hash = e'.2.hash →
    e.2.userId = e'.2.userId ∧ e.1.table = e'.1.table

/-- A row whose orientation is invalid is not returned for its embedding or its faces too. -/
def OrientationsUnset (log : List (TaskQuery × AiRow)) : Prop :=
  ∀ e ∈ log, e.1 = .orientation → e.2.orientation ≠ none → ∀ e' ∈ log, e'.2.hash = e.2.hash →
    e'.1 ≠ .embedding ∧ e'.1 ≠ .faces

/-- Every work of a row starts, and a description that fails for good is its only work. -/
def WorksStart (io : UserId → MediaTable → String → WorkIo) (log : List (TaskQuery × AiRow)) :
    Prop :=
  ∀ e ∈ log, (io e.2.userId e.1.table e.2.hash).starts e.1.work ∧
    ((io e.2.userId e.1.table e.2.hash).permanentFailure →
      ∀ e' ∈ log, e'.2.hash = e.2.hash → e'.1 = .description → e.1 = .description)

namespace TaskQuery

@[simp] theorem fresh_hash (q : TaskQuery) (row : AiRow) : (q.fresh row).hash = row.hash := by
  cases q <;> rfl

theorem modify_hash (q : TaskQuery) {row : AiRow} {task : AiTask} (h : task.hash = row.hash) :
    (q.modify row task).hash = task.hash := by
  cases q with
  | embedding => exact h.symm
  | _ => rfl

theorem answer_sublist (q : TaskQuery) (tables : AiTables) (limit : Nat) :
    (q.answer tables limit) ⊆ tables.rows q.table ∧
      ((q.answer tables limit).map AiRow.key).Nodup := by
  have hperm := List.mergeSort_perm ((tables.rows q.table).filter q.selects) fun r r' =>
    r.createdAt ≤ r'.createdAt
  refine ⟨fun row hrow => ?_, ?_⟩
  · exact (List.mem_filter.mp (hperm.subset (List.mem_of_mem_take hrow))).1
  · refine List.Nodup.sublist ((List.take_sublist limit _).map AiRow.key) ?_
    refine ((hperm.map AiRow.key).nodup_iff).mpr ?_
    exact (tables.nodup q.table).sublist (List.filter_sublist.map AiRow.key)

theorem answer_of_sorted {q : TaskQuery} {tables : AiTables} {limit : Nat}
    (h : ((tables.rows q.table).filter q.selects).Pairwise fun r r' => r.createdAt ≤ r'.createdAt) :
    q.answer tables limit = ((tables.rows q.table).filter q.selects).take limit := by
  rw [answer, List.mergeSort_of_pairwise (h.imp decide_eq_true)]

end TaskQuery

section Merging

variable {tasks : List AiTask} {e : TaskQuery × AiRow} {log : List (TaskQuery × AiRow)}

theorem mergeRow_keeps_hash (e : TaskQuery × AiRow) (task : AiTask) :
    (if task.hash = e.2.hash then e.1.modify e.2 task else task).hash = task.hash := by
  split
  next h => exact e.1.modify_hash h
  next => rfl

theorem mergeRow_nodup (h : (tasks.map AiTask.hash).Nodup) (e : TaskQuery × AiRow) :
    ((mergeRow tasks e).map AiTask.hash).Nodup := by
  unfold mergeRow
  split
  next =>
    rw [List.map_map]
    exact (List.map_congr_left fun task _ => mergeRow_keeps_hash e task).symm ▸ h
  next hnone =>
    refine Keyed.nodup_append h fun task htask => ?_
    rw [TaskQuery.fresh_hash]
    simpa using fun heq => hnone (List.any_eq_true.mpr ⟨task, htask, by simpa using heq⟩)

/-- What a row makes of the task of its hash. -/
def mergeInto (task : Option AiTask) (e : TaskQuery × AiRow) : Option AiTask :=
  some (match task with
    | none => e.1.fresh e.2
    | some task => e.1.modify e.2 task)

theorem find_mergeRow (tasks : List AiTask) (e : TaskQuery × AiRow) (h : String) :
    (mergeRow tasks e).find? (fun task => task.hash = h) =
      if e.2.hash = h then mergeInto (tasks.find? fun task => task.hash = h) e
      else tasks.find? fun task => task.hash = h := by
  unfold mergeRow
  split
  next hany =>
    have hcomp : ((fun task : AiTask => decide (task.hash = h)) ∘ fun task =>
        if task.hash = e.2.hash then e.1.modify e.2 task else task) =
          fun task => decide (task.hash = h) := by
      funext task
      rw [Function.comp_apply, mergeRow_keeps_hash]
    rw [List.find?_map, hcomp]
    cases hfind : tasks.find? fun task => task.hash = h with
    | none =>
      rw [if_neg]
      · rfl
      · rintro rfl
        obtain ⟨task, htask, heq⟩ := List.any_eq_true.mp hany
        exact List.find?_eq_none.mp hfind task htask heq
    | some task =>
      have hhash : task.hash = h := by simpa using List.find?_some hfind
      rw [Option.map_some, hhash]
      by_cases heq : h = e.2.hash
      · rw [if_pos heq, if_pos heq.symm, mergeInto]
      · rw [if_neg heq, if_neg (Ne.symm heq)]
  next hnone =>
    rw [List.find?_append]
    by_cases heq : e.2.hash = h
    · have hfind : tasks.find? (fun task => task.hash = h) = none := by
        rw [List.find?_eq_none]
        intro task htask htrue
        exact hnone (List.any_eq_true.mpr ⟨task, htask, by rw [heq]; exact htrue⟩)
      rw [hfind, if_pos heq]
      simp [heq, mergeInto]
    · rw [if_neg heq]
      simp [heq]

theorem tasksOf_concat (log : List (TaskQuery × AiRow)) (e : TaskQuery × AiRow) :
    tasksOf (log ++ [e]) = mergeRow (tasksOf log) e := by
  rw [tasksOf, List.foldl_append]
  rfl

theorem tasksOf_nodup (log : List (TaskQuery × AiRow)) :
    ((tasksOf log).map AiTask.hash).Nodup := by
  induction log using List.reverseRecOn with
  | nil => exact List.nodup_nil
  | append_singleton log e ih =>
    rw [tasksOf_concat]
    exact mergeRow_nodup ih e

/-- The task of a hash is made by the rows with that hash. -/
theorem find_tasksOf (log : List (TaskQuery × AiRow)) (h : String) :
    (tasksOf log).find? (fun task => task.hash = h) =
      (log.filter fun e => e.2.hash = h).foldl mergeInto none := by
  induction log using List.reverseRecOn with
  | nil => rfl
  | append_singleton log e ih =>
    rw [tasksOf_concat, find_mergeRow, ih, List.filter_append, List.foldl_append]
    by_cases heq : e.2.hash = h
    · simp [heq]
    · simp [heq]

theorem mem_tasksOf {task : AiTask} :
    task ∈ tasksOf log ↔
      (log.filter fun e => e.2.hash = task.hash).foldl mergeInto none = some task := by
  rw [← find_tasksOf]
  constructor
  · exact Keyed.find_of_mem (tasksOf_nodup log)
  · exact List.mem_of_find?_eq_some

end Merging

/-- The rows of a query come after those of the queries before it, and have different keys. -/
def Ordered (log : List (TaskQuery × AiRow)) : Prop :=
  log.Pairwise fun e e' => e.1.rank < e'.1.rank ∨ e.1 = e'.1 ∧ e.2.key ≠ e'.2.key

theorem runQueries_ordered (tables : AiTables) (config : CycleConfig) {queries : List TaskQuery}
    (hqueries : queries.Pairwise fun q q' => q.rank < q'.rank) {log : List (TaskQuery × AiRow)}
    (hlog : Ordered log) (hrows : ∀ e ∈ log, e.2 ∈ tables.rows e.1.table)
    (hbefore : ∀ e ∈ log, ∀ q ∈ queries, e.1.rank < q.rank) :
    Ordered (queries.foldl (runQuery tables config) log) ∧
      ∀ e ∈ queries.foldl (runQuery tables config) log, e.2 ∈ tables.rows e.1.table := by
  induction queries generalizing log with
  | nil => exact ⟨hlog, hrows⟩
  | cons q rest ih =>
    obtain ⟨hfirst, hrest⟩ := List.pairwise_cons.mp hqueries
    rw [List.foldl_cons]
    unfold runQuery
    simp only
    split
    next =>
      generalize config.totalBatchLimit - (tasksOf log).length = limit
      obtain ⟨hsub, hkeys⟩ := q.answer_sublist tables limit
      have hnew : ∀ e ∈ (q.answer tables limit).map fun row => (q, row),
          e.1 = q ∧ e.2 ∈ tables.rows q.table := by
        intro e he
        obtain ⟨row, hrow, rfl⟩ := List.mem_map.mp he
        exact ⟨rfl, hsub hrow⟩
      refine ih hrest ?_ ?_ ?_
      · refine List.pairwise_append.mpr ⟨hlog, ?_, fun e he e' he' => Or.inl ?_⟩
        · rw [List.pairwise_map]
          exact (List.pairwise_map.mp hkeys).imp fun hne => Or.inr ⟨rfl, hne⟩
        · rw [(hnew e' he').1]
          exact hbefore e he q List.mem_cons_self
      · intro e he
        rcases List.mem_append.mp he with he | he
        · exact hrows e he
        · rw [(hnew e he).1]
          exact (hnew e he).2
      · intro e he q' hq'
        rcases List.mem_append.mp he with he | he
        · exact hbefore e he q' (List.mem_cons_of_mem q hq')
        · rw [(hnew e he).1]
          exact hfirst q' hq'
    next => exact ih hrest hlog hrows fun e he q' hq' => hbefore e he q' (List.mem_cons_of_mem q hq')

theorem returnedRows_ordered (tables : AiTables) (config : CycleConfig) :
    Ordered (returnedRows tables config) ∧
      ∀ e ∈ returnedRows tables config, e.2 ∈ tables.rows e.1.table := by
  unfold returnedRows
  split
  next => exact ⟨List.Pairwise.nil, by simp⟩
  next => exact runQueries_ordered tables config (by decide) List.Pairwise.nil (by simp) (by simp)

section Works

variable {io : WorkIo} {w : Work} {ws : List Work}

theorem mem_startedWorks (h : w ∈ startedWorks io ws) : w ∈ ws ∧ io.starts w := by
  induction ws with
  | nil => exact absurd h List.not_mem_nil
  | cons first rest ih =>
    rw [startedWorks] at h
    split at h
    next hstarts =>
      split at h
      next =>
        rw [List.mem_singleton.mp h]
        exact ⟨List.mem_cons_self, hstarts⟩
      next =>
        rcases List.mem_cons.mp h with rfl | h
        · exact ⟨List.mem_cons_self, hstarts⟩
        · exact ⟨List.mem_cons_of_mem first (ih h).1, (ih h).2⟩
    next => exact absurd h List.not_mem_nil

theorem startedWorks_eq (hn : ws.Nodup) (hstarts : ∀ w ∈ ws, io.starts w)
    (halone : io.permanentFailure → .description ∈ ws → ∀ w ∈ ws, w = .description) :
    startedWorks io ws = ws := by
  induction ws with
  | nil => rfl
  | cons first rest ih =>
    rw [startedWorks, if_pos (hstarts first List.mem_cons_self)]
    split
    next hfails =>
      obtain ⟨rfl, hfails⟩ := hfails
      have hrest : rest = [] := by
        rw [List.eq_nil_iff_forall_not_mem]
        intro w hw
        have heq := halone hfails List.mem_cons_self w (List.mem_cons_of_mem _ hw)
        exact (List.nodup_cons.mp hn).1 (heq ▸ hw)
      rw [hrest]
    next =>
      rw [ih (List.nodup_cons.mp hn).2 (fun w hw => hstarts w (List.mem_cons_of_mem first hw))]
      intro hfails hmem w hw
      exact halone hfails (List.mem_cons_of_mem first hmem) w (List.mem_cons_of_mem first hw)

/-- After a description that fails for good nothing is started. -/
theorem startedWorks_failed {task : AiTask} (hfails : io.permanentFailure = true)
    (hflag : task.processDescription = true) (h : w ∈ startedWorks io task.works) :
    w = .description := by
  have hworks : task.works = .description ::
      ([.embedding, .orientation, .faces, .quality] : List Work).filter task.processes := by
    rw [AiTask.works, List.filter_cons_of_pos (by simpa [AiTask.processes, AiTask.flag] using hflag)]
  rw [hworks, startedWorks] at h
  split at h
  next =>
    rw [if_pos ⟨rfl, hfails⟩] at h
    exact List.mem_singleton.mp h
  next => exact absurd h List.not_mem_nil

theorem works_nodup (task : AiTask) : task.works.Nodup :=
  List.Nodup.filter _ (by decide)

theorem mem_works {task : AiTask} : w ∈ task.works ↔ task.processes w := by
  rw [AiTask.works, List.mem_filter]
  exact and_iff_right (by cases w <;> decide)

end Works

section Spec

variable {log : List (TaskQuery × AiRow)} {row : AiRow}

/-- A task after rows, of which none is the first with its hash. -/
def modifyAll (task : AiTask) (rest : List (TaskQuery × AiRow)) : AiTask :=
  rest.foldl (fun task e => e.1.modify e.2 task) task

theorem foldl_mergeInto (task : AiTask) (rest : List (TaskQuery × AiRow)) :
    rest.foldl mergeInto (some task) = some (modifyAll task rest) := by
  induction rest generalizing task with
  | nil => rfl
  | cons e rest ih => exact ih (e.1.modify e.2 task)

/-- What another row makes of a task. -/
theorem modify_spec {q : TaskQuery} (hnot : q ≠ .embedding ∧ q ≠ .videoEmbedding) (row : AiRow)
    (task : AiTask) :
    ((q.modify row task).userId = task.userId ∧ (q.modify row task).fileType = task.fileType ∧
      (q.modify row task).hash = task.hash ∧ (q.modify row task).ext = task.ext) ∧
    (∀ w, w ≠ .orientation → ((q.modify row task).flag w ↔ task.flag w ∨ q.work = w)) ∧
    ((q.modify row task).flag .orientation ↔
      q = .orientation ∧ row.orientation = none ∨ q ≠ .orientation ∧ task.flag .orientation) ∧
    ((q = .faces ∧ (q.modify row task).orientation = row.orientation) ∨
      q ≠ .faces ∧ (q.modify row task).orientation = task.orientation) := by
  cases q with
  | embedding => exact absurd rfl hnot.1
  | videoEmbedding => exact absurd rfl hnot.2
  | faces =>
    refine ⟨⟨rfl, rfl, rfl, rfl⟩, fun w hw => ?_, ?_, Or.inl ⟨rfl, rfl⟩⟩
    · cases w <;> simp [TaskQuery.modify, TaskQuery.work, AiTask.flag]
    · simp [TaskQuery.modify, AiTask.flag]
  | orientation =>
    refine ⟨⟨rfl, rfl, rfl, rfl⟩, fun w hw => ?_, ?_, Or.inr ⟨nofun, rfl⟩⟩
    · cases w <;> simp_all [TaskQuery.modify, TaskQuery.work, AiTask.flag]
    · simp [TaskQuery.modify, AiTask.flag]
  | description =>
    refine ⟨⟨rfl, rfl, rfl, rfl⟩, fun w hw => ?_, ?_, Or.inr ⟨nofun, rfl⟩⟩
    · cases w <;> simp [TaskQuery.modify, TaskQuery.work, AiTask.flag]
    · simp [TaskQuery.modify, AiTask.flag]
  | quality =>
    refine ⟨⟨rfl, rfl, rfl, rfl⟩, fun w hw => ?_, ?_, Or.inr ⟨nofun, rfl⟩⟩
    · cases w <;> simp [TaskQuery.modify, TaskQuery.work, AiTask.flag]
    · simp [TaskQuery.modify, AiTask.flag]

/-- What the rows of one image make of its task. -/
structure Modified (task after : AiTask) (row : AiRow) (rest : List (TaskQuery × AiRow)) : Prop where
  same : after.userId = task.userId ∧ after.fileType = task.fileType ∧ after.hash = task.hash ∧
    after.ext = task.ext
  flags : ∀ w, w ≠ .orientation → (after.flag w ↔ task.flag w ∨ ∃ e ∈ rest, e.1.work = w)
  turned : after.flag .orientation ↔
    (∃ e ∈ rest, e.1 = .orientation) ∧ row.orientation = none ∨
      (∀ e ∈ rest, e.1 ≠ .orientation) ∧ task.flag .orientation
  faces : after.orientation = row.orientation ∨
    after.orientation = task.orientation ∧ ∀ e ∈ rest, e.1 ≠ .faces

theorem modifyAll_modified (task : AiTask) {rest : List (TaskQuery × AiRow)}
    (hrow : ∀ e ∈ rest, e.2 = row)
    (hlate : ∀ e ∈ rest, e.1 ≠ .embedding ∧ e.1 ≠ .videoEmbedding) :
    Modified task (modifyAll task rest) row rest := by
  induction rest using List.reverseRecOn with
  | nil =>
    exact ⟨⟨rfl, rfl, rfl, rfl⟩, fun w _ => by simp [modifyAll], by simp [modifyAll],
      Or.inr ⟨rfl, by simp⟩⟩
  | append_singleton rest e ih =>
    obtain ⟨hsame, hflags, hturned, hfaces⟩ := ih
      (fun e' he' => hrow e' (List.mem_append_left _ he'))
      (fun e' he' => hlate e' (List.mem_append_left _ he'))
    have hr : e.2 = row := hrow e (by simp)
    obtain ⟨hsame', hflags', hturned', hfaces'⟩ :=
      modify_spec (hlate e (by simp)) e.2 (modifyAll task rest)
    rw [hr] at hsame' hflags' hturned' hfaces'
    have hall : modifyAll task (rest ++ [e]) = e.1.modify row (modifyAll task rest) := by
      simp [modifyAll, hr]
    rw [hall]
    have hex : ∀ p : TaskQuery → Prop, (∃ x ∈ rest ++ [e], p x.1) ↔ (∃ x ∈ rest, p x.1) ∨ p e.1 := by
      intro p
      simp only [List.mem_append, List.mem_singleton, or_and_right, exists_or, exists_eq_left]
    have hforall : ∀ p : TaskQuery → Prop,
        (∀ x ∈ rest ++ [e], p x.1) ↔ (∀ x ∈ rest, p x.1) ∧ p e.1 := by
      intro p
      simp only [List.mem_append, List.mem_singleton, or_imp, forall_and, forall_eq]
    refine ⟨?_, fun w hw => ?_, ?_, ?_⟩
    · exact ⟨hsame'.1.trans hsame.1, hsame'.2.1.trans hsame.2.1, hsame'.2.2.1.trans hsame.2.2.1,
        hsame'.2.2.2.trans hsame.2.2.2⟩
    · rw [hex fun q => q.work = w, hflags' w hw, hflags w hw, or_assoc]
    · rw [hex fun q => q = .orientation, hforall fun q => q ≠ .orientation, hturned', hturned]
      by_cases hq : e.1 = .orientation
      · simp [hq]
      · simp [hq]
    · rw [hforall fun q => q ≠ .faces]
      rcases hfaces' with ⟨-, heq⟩ | ⟨hne, heq⟩
      · exact Or.inl heq
      · rw [heq]
        exact hfaces.imp id fun hold => ⟨hold.1, hold.2, hne⟩

theorem fresh_spec (q : TaskQuery) (row : AiRow) :
    ((q.fresh row).userId = row.userId ∧ (q.fresh row).fileType = q.table ∧
      (q.fresh row).hash = row.hash ∧ (q.fresh row).ext = row.ext) ∧
    (∀ w, (q.fresh row).flag w ↔ q.work = w) ∧
    (q = .faces → (q.fresh row).orientation = row.orientation) := by
  refine ⟨by cases q <;> exact ⟨rfl, rfl, rfl, rfl⟩, fun w => ?_, ?_⟩
  · cases q <;> cases w <;> simp [TaskQuery.fresh, TaskQuery.base, TaskQuery.work, AiTask.flag]
  · rintro rfl
    rfl

theorem work_orientation {q : TaskQuery} : q.work = .orientation ↔ q = .orientation := by
  cases q <;> decide

theorem work_faces {q : TaskQuery} : q.work = .faces ↔ q = .faces := by
  cases q <;> decide

theorem work_description {q : TaskQuery} : q.work = .description ↔ q = .description := by
  cases q <;> decide

/-- What the task of a row's hash does, if the hash stands for that row alone. -/
structure Made (log : List (TaskQuery × AiRow)) (e : TaskQuery × AiRow) (task : AiTask) :
    Prop where
  mem : task ∈ tasksOf log
  same : task.userId = e.2.userId ∧ task.fileType = e.1.table ∧ task.hash = e.2.hash ∧
    task.ext = e.2.ext
  flags : ∀ w, w ≠ .orientation →
    (task.flag w ↔ ∃ e' ∈ log, e'.2.hash = e.2.hash ∧ e'.1.work = w)
  turned : task.flag .orientation ↔
    (∃ e' ∈ log, e'.2.hash = e.2.hash ∧ e'.1 = .orientation) ∧ (e.2.orientation = none ∨
      ∀ e' ∈ log, e'.2.hash = e.2.hash → e'.1 ≠ .embedding ∧ e'.1 ≠ .faces)
  faces : task.flag .faces → task.orientation = e.2.orientation

variable {tables : AiTables} {e e' : TaskQuery × AiRow}

theorem OneRowPerHash.row_eq (h : OneRowPerHash log)
    (hrows : ∀ e ∈ log, e.2 ∈ tables.rows e.1.table) (he : e ∈ log) :
    ∀ e' ∈ log, e'.2.hash = e.2.hash → e'.2 = e.2 := by
  intro e' he' hhash
  obtain ⟨huser, htable⟩ := h e' he' e he hhash
  have hmem : e'.2 ∈ tables.rows e.1.table := htable ▸ hrows e' he'
  exact List.inj_on_of_nodup_map (tables.nodup e.1.table) hmem (hrows e he)
    (Prod.ext huser hhash)

theorem rank_embedding {q : TaskQuery} (h : q.rank < TaskQuery.rank .videoEmbedding) :
    q = .embedding := by
  cases q <;> first | rfl | exact absurd h (by decide)

theorem exists_made (hlog : Ordered log) (hrows : ∀ e ∈ log, e.2 ∈ tables.rows e.1.table)
    (hone : OneRowPerHash log) (he : e ∈ log) : ∃ task, Made log e task := by
  obtain ⟨e₀, rest, hE⟩ : ∃ e₀ rest,
      (log.filter fun e' => e'.2.hash = e.2.hash) = e₀ :: rest := by
    refine List.exists_cons_of_ne_nil (List.ne_nil_of_mem (List.mem_filter.mpr ⟨he, ?_⟩))
    exact decide_eq_true rfl
  have hmem : ∀ e' ∈ e₀ :: rest, e' ∈ log ∧ e'.2.hash = e.2.hash := by
    intro e' he'
    rw [← hE] at he'
    simpa using List.mem_filter.mp he'
  have hrow : ∀ e' ∈ e₀ :: rest, e'.2 = e.2 := fun e' he' =>
    hone.row_eq hrows he e' (hmem e' he').1 (hmem e' he').2
  have htable : ∀ e' ∈ e₀ :: rest, e'.1.table = e.1.table := fun e' he' =>
    (hone e' (hmem e' he').1 e he (hmem e' he').2).2
  have hrank : ∀ e' ∈ rest, e₀.1.rank < e'.1.rank := by
    intro e' he'
    have hsorted : Ordered (e₀ :: rest) := hE ▸ List.Pairwise.filter _ hlog
    rcases (List.pairwise_cons.mp hsorted).1 e' he' with hlt | ⟨-, hne⟩
    · exact hlt
    · refine absurd ?_ hne
      rw [hrow e₀ List.mem_cons_self, hrow e' (List.mem_cons_of_mem e₀ he')]
  have hlate : ∀ e' ∈ rest, e'.1 ≠ .embedding ∧ e'.1 ≠ .videoEmbedding := by
    refine fun e' he' => ⟨fun heq => ?_, fun heq => ?_⟩
    · exact absurd (heq ▸ hrank e' he') (by simp [TaskQuery.rank])
    · have hfirst : e₀.1 = .embedding := rank_embedding (heq ▸ hrank e' he')
      have hsame := (htable e' (List.mem_cons_of_mem e₀ he')).trans
        (htable e₀ List.mem_cons_self).symm
      rw [heq, hfirst] at hsame
      cases hsame
  have hexists : ∀ p : TaskQuery → Prop,
      (∃ e' ∈ log, e'.2.hash = e.2.hash ∧ p e'.1) ↔ p e₀.1 ∨ ∃ e' ∈ rest, p e'.1 := by
    intro p
    constructor
    · rintro ⟨e', he', hhash, hp⟩
      have hmem' : e' ∈ e₀ :: rest := hE ▸ List.mem_filter.mpr ⟨he', decide_eq_true hhash⟩
      rcases List.mem_cons.mp hmem' with rfl | hmem'
      · exact Or.inl hp
      · exact Or.inr ⟨e', hmem', hp⟩
    · rintro (hp | ⟨e', he', hp⟩)
      · exact ⟨e₀, (hmem e₀ List.mem_cons_self).1, (hmem e₀ List.mem_cons_self).2, hp⟩
      · have hin := hmem e' (List.mem_cons_of_mem e₀ he')
        exact ⟨e', hin.1, hin.2, hp⟩
  obtain ⟨hsame, hflags, hfaces⟩ := fresh_spec e₀.1 e₀.2
  have hmod := modifyAll_modified (e₀.1.fresh e₀.2)
    (fun e' he' => hrow e' (List.mem_cons_of_mem e₀ he')) hlate
  rw [hrow e₀ List.mem_cons_self] at hsame hflags hfaces hmod
  refine ⟨modifyAll (e₀.1.fresh e.2) rest, ?_, ?_, fun w hw => ?_, ?_, fun hfaced => ?_⟩
  · refine List.mem_of_find?_eq_some ((find_tasksOf log e.2.hash).trans ?_)
    rw [hE, List.foldl_cons, ← hrow e₀ List.mem_cons_self]
    exact foldl_mergeInto _ rest
  · obtain ⟨h₁, h₂, h₃, h₄⟩ := hmod.same
    exact ⟨h₁.trans hsame.1, h₂.trans (hsame.2.1.trans (htable e₀ List.mem_cons_self)),
      h₃.trans hsame.2.2.1, h₄.trans hsame.2.2.2⟩
  · rw [hmod.flags w hw, hflags w, hexists fun q => q.work = w]
  · rw [hmod.turned, hflags .orientation, work_orientation, hexists fun q => q = .orientation]
    constructor
    · rintro (⟨hsome, hnone⟩ | ⟨-, hfirst⟩)
      · exact ⟨Or.inr hsome, Or.inl hnone⟩
      · refine ⟨Or.inl hfirst, Or.inr fun e' he' hhash => ?_⟩
        have hmem' : e' ∈ e₀ :: rest := hE ▸ List.mem_filter.mpr ⟨he', decide_eq_true hhash⟩
        rcases List.mem_cons.mp hmem' with rfl | hmem'
        · rw [hfirst]
          exact ⟨nofun, nofun⟩
        · have hlt := hrank e' hmem'
          rw [hfirst] at hlt
          refine ⟨(hlate e' hmem').1, fun heq => ?_⟩
          exact absurd (heq ▸ hlt) (by simp [TaskQuery.rank])
    · rintro ⟨hfirst | hsome, hunset⟩
      · refine Or.inr ⟨fun e' he' heq => ?_, hfirst⟩
        have hlt := hrank e' he'
        rw [hfirst, heq] at hlt
        exact absurd hlt (lt_irrefl _)
      · rcases hunset with hnone | hunset
        · exact Or.inl ⟨hsome, hnone⟩
        · obtain ⟨e', he', heq⟩ := hsome
          have hlt := heq ▸ hrank e' he'
          have hfirst := hunset e₀ (hmem e₀ List.mem_cons_self).1 (hmem e₀ List.mem_cons_self).2
          have hsame' := (htable e' (List.mem_cons_of_mem e₀ he')).trans
            (htable e₀ List.mem_cons_self).symm
          rw [heq] at hsame'
          cases hq : e₀.1 with
          | embedding => exact absurd hq hfirst.1
          | faces => exact absurd hq hfirst.2
          | videoEmbedding =>
            rw [hq] at hsame'
            cases hsame'
          | _ =>
            rw [hq] at hlt
            exact absurd hlt (by simp [TaskQuery.rank])
  · rcases hmod.faces with heq | ⟨heq, hnone⟩
    · exact heq
    · rw [hmod.flags .faces nofun, hflags .faces, work_faces] at hfaced
      rcases hfaced with hfirst | ⟨e', he', hfirst⟩
      · exact heq.trans (hfaces hfirst)
      · exact absurd (work_faces.mp hfirst) (hnone e' he')

/-- The works of a task are those that the rows with its hash ask for. -/
theorem Made.processes {task : AiTask} (h : Made log e task) (hone : OneRowPerHash log)
    (he : e ∈ log) (hunset : OrientationsUnset log)
    (hrow : ∀ e' ∈ log, e'.2.hash = e.2.hash → e'.2 = e.2) (w : Work) :
    task.processes w ↔ ∃ e' ∈ log, e'.2.hash = e.2.hash ∧ e'.1.work = w := by
  have hflag : task.flag w ↔ ∃ e' ∈ log, e'.2.hash = e.2.hash ∧ e'.1.work = w := by
    by_cases hw : w = .orientation
    · subst hw
      simp only [h.turned, work_orientation, and_iff_left_iff_imp]
      rintro ⟨e', he', hhash, hq⟩
      by_cases hnone : e.2.orientation = none
      · exact Or.inl hnone
      · refine Or.inr fun e'' he'' hhash' => ?_
        refine hunset e' he' hq ?_ e'' he'' (hhash'.trans hhash.symm)
        rwa [hrow e' he' hhash]
    · exact h.flags w hw
  rw [AiTask.processes, Bool.and_eq_true, hflag, and_iff_right_iff_imp]
  rintro ⟨e', he', hhash, rfl⟩
  rw [h.same.2.1, ← (hone e' he' e he hhash).2]
  cases e'.1 <;> rfl

theorem Made.execution {task : AiTask} (h : Made log e task)
    (hrow : ∀ e' ∈ log, e'.2.hash = e.2.hash → e'.2 = e.2) (hone : OneRowPerHash log)
    (he : e ∈ log) (he' : e' ∈ log) (hhash : e'.2.hash = e.2.hash) :
    task.execution e'.1.work = selection e' := by
  obtain ⟨huser, htype, hhash', hext⟩ := h.same
  rw [AiTask.execution, selection, hrow e' he' hhash, huser, htype, hhash', hext,
    (hone e' he' e he hhash).2]
  split
  next hfaces =>
    rw [h.faces ((h.flags .faces nofun).mpr ⟨e', he', hhash, hfaces⟩)]
  next => rfl

/-- The task of a hash is the only one. -/
theorem Made.eq_of_hash {task task' : AiTask} (h : Made log e task) (hmem : task' ∈ tasksOf log)
    (hhash : task'.hash = e.2.hash) : task' = task :=
  List.inj_on_of_nodup_map (tasksOf_nodup log) hmem h.mem (hhash.trans h.same.2.2.1.symm)

/-- A task was made by a row. -/
theorem exists_row {task : AiTask} (h : task ∈ tasksOf log) : ∃ e ∈ log, task.hash = e.2.hash := by
  have hfold := mem_tasksOf.mp h
  cases hE : log.filter fun e => e.2.hash = task.hash with
  | nil =>
    rw [hE] at hfold
    exact nomatch hfold
  | cons e rest =>
    have hmem : e ∈ log.filter fun e => e.2.hash = task.hash := hE ▸ List.mem_cons_self
    obtain ⟨hmem, hhash⟩ := List.mem_filter.mp hmem
    exact ⟨e, hmem, (of_decide_eq_true hhash).symm⟩

end Spec

section Cycle

variable {io : UserId → MediaTable → String → WorkIo} {log : List (TaskQuery × AiRow)}
  {tables : AiTables} {e : TaskQuery × AiRow}

theorem OneRowPerHash.of_executed (h : ∀ e ∈ log, Executes io log (selection e)) :
    OneRowPerHash log := by
  intro e he e' he' hhash
  obtain ⟨task, hmem, w, -, heq⟩ := h e he
  obtain ⟨task', hmem', w', -, heq'⟩ := h e' he'
  injection heq with _ huser htype hhash₁
  injection heq' with _ huser' htype' hhash₂
  have hsame : task = task' := List.inj_on_of_nodup_map (tasksOf_nodup log) hmem hmem'
    (hhash₁.symm.trans (hhash.trans hhash₂))
  subst hsame
  exact ⟨huser.trans huser'.symm, htype.trans htype'.symm⟩

theorem executed_of_selection {task : AiTask} (hmade : Made log e task)
    (h : Executes io log (selection e)) :
    e.1.work ∈ startedWorks (io e.2.userId e.1.table e.2.hash) task.works := by
  obtain ⟨task', hmem, w, hw, heq⟩ := h
  injection heq with hwork huser htype hhash
  rw [hmade.eq_of_hash hmem hhash.symm] at hw
  obtain ⟨h₁, h₂, h₃, -⟩ := hmade.same
  rwa [hwork, ← h₁, ← h₂, ← h₃]

theorem executes_iff (hlog : Ordered log) (hrows : ∀ e ∈ log, e.2 ∈ tables.rows e.1.table) :
    (∀ x, Executes io log x ↔ x ∈ log.map selection) ↔
      OneRowPerHash log ∧ OrientationsUnset log ∧ WorksStart io log := by
  constructor
  · intro h
    have hexec : ∀ e ∈ log, Executes io log (selection e) := fun e he =>
      (h (selection e)).mpr (List.mem_map_of_mem he)
    have hone := OneRowPerHash.of_executed hexec
    refine ⟨hone, fun e he hq hsome e' he' hhash => ?_, fun e he => ?_⟩
    · obtain ⟨task, hmade⟩ := exists_made hlog hrows hone he
      have hmem := mem_startedWorks (executed_of_selection hmade (hexec e he))
      rw [mem_works, work_orientation.mpr hq] at hmem
      have hflag : task.flag .orientation := (Bool.and_eq_true_iff.mp hmem.1).2
      rcases (hmade.turned.mp hflag).2 with hnone | hunset
      · exact absurd hnone hsome
      · exact hunset e' he' hhash
    · obtain ⟨task, hmade⟩ := exists_made hlog hrows hone he
      have hstarted := executed_of_selection hmade (hexec e he)
      refine ⟨(mem_startedWorks hstarted).2, fun hfails e' he' hhash hq => ?_⟩
      have hflag : task.flag .description :=
        (hmade.flags .description nofun).mpr ⟨e', he', hhash, work_description.mpr hq⟩
      exact work_description.mp (startedWorks_failed hfails hflag hstarted)
  · rintro ⟨hone, hunset, hstart⟩ x
    have hworks : ∀ e ∈ log, ∀ task, Made log e task →
        startedWorks (io e.2.userId e.1.table e.2.hash) task.works = task.works := by
      intro e he task hmade
      have hrow := hone.row_eq hrows he
      have hprocesses := hmade.processes hone he hunset hrow
      refine startedWorks_eq (works_nodup task) (fun w hw => ?_) fun hfails hmem w hw => ?_
      · obtain ⟨e', he', hhash, rfl⟩ := (hprocesses w).mp (mem_works.mp hw)
        have hsame := hone e' he' e he hhash
        rw [← hsame.1, ← hsame.2, ← hhash]
        exact (hstart e' he').1
      · obtain ⟨d, hd, hdhash, hdwork⟩ := (hprocesses .description).mp (mem_works.mp hmem)
        obtain ⟨e', he', hhash, rfl⟩ := (hprocesses w).mp (mem_works.mp hw)
        have hsame := hone e' he' e he hhash
        rw [← hsame.1, ← hsame.2, ← hhash] at hfails
        exact work_description.mpr ((hstart e' he').2 hfails d hd (hdhash.trans hhash.symm)
          (work_description.mp hdwork))
    constructor
    · rintro ⟨task, hmem, w, hw, rfl⟩
      obtain ⟨e, he, hhash⟩ := exists_row hmem
      obtain ⟨task', hmade⟩ := exists_made hlog hrows hone he
      obtain rfl := hmade.eq_of_hash hmem hhash
      have hrow := hone.row_eq hrows he
      have hprocesses := mem_works.mp (mem_startedWorks hw).1
      obtain ⟨e', he', hhash', rfl⟩ := (hmade.processes hone he hunset hrow w).mp hprocesses
      rw [hmade.execution hrow hone he he' hhash']
      exact List.mem_map_of_mem he'
    · intro hx
      obtain ⟨e, he, rfl⟩ := List.mem_map.mp hx
      obtain ⟨task, hmade⟩ := exists_made hlog hrows hone he
      have hrow := hone.row_eq hrows he
      refine ⟨task, hmade.mem, e.1.work, ?_, (hmade.execution hrow hone he he rfl).symm⟩
      obtain ⟨h₁, h₂, h₃, -⟩ := hmade.same
      rw [h₁, h₂, h₃, hworks e he task hmade, mem_works]
      exact (hmade.processes hone he hunset hrow e.1.work).mpr ⟨e, he, rfl, rfl⟩

/-- A cycle does exactly what its queries returned, if each hash they returned stands for one row,
no image with an invalid orientation was also returned for its embedding or its faces, and the works
of every row start. -/
theorem executes_returnedRows_iff (io : UserId → MediaTable → String → WorkIo) (tables : AiTables)
    (config : CycleConfig) :
    (∀ x, Executes io (returnedRows tables config) x ↔
      x ∈ (returnedRows tables config).map selection) ↔
      OneRowPerHash (returnedRows tables config) ∧
        OrientationsUnset (returnedRows tables config) ∧
        WorksStart io (returnedRows tables config) :=
  executes_iff (returnedRows_ordered tables config).1 (returnedRows_ordered tables config).2

/-- A photo of user `1`, which user `2` has too. -/
def sharedPhoto (user : UserId) : AiRow where
  userId := user
  hash := "af"
  ext := "jpg"
  name := "photo.jpg"
  createdAt := user
  orientation := none
  verificationStatus := 1
  deletedAt := none
  hasEmbedding := false
  embeddingGeneratedAt := none
  faceDetectionCompletedAt := none
  orientationDetectedAt := none
  description := none
  qualityScoreGeneratedAt := none

def sharedTables : AiTables where
  rows
    | .images => [sharedPhoto 1, sharedPhoto 2]
    | .videos => []
  nodup := by rintro (_ | _) <;> decide

def sharedConfig : CycleConfig := ⟨true, false, false, false, 8, 0⟩

theorem sharedTables_answer (q : TaskQuery) (limit : Nat) :
    q.answer sharedTables limit =
      if q = .embedding ∨ q = .faces ∨ q = .orientation ∨ q = .description then
        [sharedPhoto 1, sharedPhoto 2].take limit
      else [] := by
  have hfilter : (sharedTables.rows q.table).filter q.selects =
      if q = .embedding ∨ q = .faces ∨ q = .orientation ∨ q = .description then
        [sharedPhoto 1, sharedPhoto 2]
      else [] := by
    cases q <;> decide +kernel
  rw [TaskQuery.answer_of_sorted, hfilter]
  · split
    next => rfl
    next => exact List.take_nil
  · rw [hfilter]
    split
    next => decide
    next => exact List.Pairwise.nil

/-- Of the two rows that the embedding query returns only the second is processed. -/
theorem shared_photo_dropped :
    ¬∀ x, Executes (fun _ _ _ => ⟨fun _ => true, false⟩) (returnedRows sharedTables sharedConfig) x ↔
      x ∈ (returnedRows sharedTables sharedConfig).map selection := by
  have hlog : returnedRows sharedTables sharedConfig =
      [(.embedding, sharedPhoto 1), (.embedding, sharedPhoto 2)] := by
    simp only [returnedRows, TaskQuery.all, List.foldl_cons, List.foldl_nil, runQuery,
      sharedTables_answer]
    decide
  rw [hlog]
  intro h
  obtain ⟨task, htask, w, hw, heq⟩ :=
    (h (selection (.embedding, sharedPhoto 1))).mpr (by decide)
  rw [show tasksOf [(.embedding, sharedPhoto 1), (.embedding, sharedPhoto 2)] =
    [TaskQuery.fresh .embedding (sharedPhoto 2)] from rfl, List.mem_singleton] at htask
  injection heq with _ huser
  rw [htask] at huser
  exact absurd huser (by decide)

end Cycle

end Reminisce.AiCycle

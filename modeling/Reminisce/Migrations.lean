import Mathlib.Algebra.GroupWithZero.Nat
import Mathlib.Data.List.Nodup
import Reminisce.Library.Runs
import Reminisce.SqlScripts

namespace Reminisce

/-- What the server answers to a statement. A statement can be done and its answer lost. -/
inductive ServerReply
  | done
  | failed (e : String)
  | lost (e : String)
  deriving DecidableEq, Repr

/-- A versioned migration: the text of its file. -/
structure Migration where
  version : String
  sql : List Char
  deriving DecidableEq, Repr

/-- The schema and the migrations that are compiled in. -/
structure SchemaScripts where
  initSql : List Char
  migrations : List Migration
  nodup : (migrations.map Migration.version).Nodup

/-- What was committed: a statement of its own, or the transaction of a migration. -/
inductive CommittedWork
  | statement (sql : List Char)
  | script (version : String) (statements : List (List Char))
  deriving DecidableEq, Repr

structure SchemaDb where
  committed : List CommittedWork
  schemaMigrations : List String

/-- Where a startup stands in `run_migrations_with_schema`. -/
inductive StartupPhase
  | schema (left : List (List Char))
  | columns (left : List (List Char))
  | table
  | check (left : List Migration)
  | opening (m : Migration) (left : List Migration)
  | running (m : Migration) (ran todo : List (List Char)) (left : List Migration)
  | rollback (m : Migration) (idx : Nat) (statement : List Char) (e : String)
  | recording (m : Migration) (left : List Migration)
  | ended (result : Except String Unit)
  deriving DecidableEq

def ensureColumns : List (List Char) :=
  ["ALTER TABLE images ADD COLUMN IF NOT EXISTS p2p_data_shards INTEGER DEFAULT 3".toList,
    "ALTER TABLE images ADD COLUMN IF NOT EXISTS p2p_parity_shards INTEGER DEFAULT 2".toList,
    "ALTER TABLE videos ADD COLUMN IF NOT EXISTS p2p_data_shards INTEGER DEFAULT 3".toList,
    "ALTER TABLE videos ADD COLUMN IF NOT EXISTS p2p_parity_shards INTEGER DEFAULT 2".toList]

def createTable : List Char :=
  ("CREATE TABLE IF NOT EXISTS schema_migrations (\n" ++
    "            version VARCHAR(255) PRIMARY KEY,\n" ++
    "            applied_at TIMESTAMPTZ NOT NULL DEFAULT NOW()\n        )").toList

/-- The error that ends the startup when a migration fails. -/
def migrationError (m : Migration) (msg : String) : String :=
  s!"Database migration {m.version} failed: {msg}"

def statementError (m : Migration) (idx : Nat) (statement : List Char) (rollback e : String) :
    String :=
  let sql := String.ofList statement
  s!"[{m.version}] statement {idx + 1} failed (transaction rolled back{rollback}): {e}\nStatement: {sql}"

/-- What one exchange with the server comes to. A version is missed when its script was committed and
this startup will not record it. -/
structure StartupOutcome where
  db : SchemaDb
  phase : StartupPhase
  missed : List String

def SchemaDb.commit (db : SchemaDb) (work : CommittedWork) : SchemaDb :=
  { db with committed := db.committed ++ [work] }

/-- The next exchange with the server, under this answer. -/
def startupStep (scripts : SchemaScripts) (db : SchemaDb) :
    StartupPhase → ServerReply → Option StartupOutcome
  | .schema [], .done => some ⟨db, .columns ensureColumns, []⟩
  | .schema (s :: left), .done => some ⟨db.commit (.statement s), .schema left, []⟩
  | .schema (_ :: _), .failed _ => some ⟨db, .columns ensureColumns, []⟩
  | .schema (s :: _), .lost _ => some ⟨db.commit (.statement s), .columns ensureColumns, []⟩
  | .columns [], .done => some ⟨db, .table, []⟩
  | .columns (s :: left), .done => some ⟨db.commit (.statement s), .columns left, []⟩
  | .columns (_ :: left), .failed _ => some ⟨db, .columns left, []⟩
  | .columns (s :: left), .lost _ => some ⟨db.commit (.statement s), .columns left, []⟩
  | .table, .done => some ⟨db.commit (.statement createTable), .check scripts.migrations, []⟩
  | .table, .failed e => some ⟨db, .ended (.error e), []⟩
  | .table, .lost e => some ⟨db.commit (.statement createTable), .ended (.error e), []⟩
  | .check [], .done => some ⟨db, .ended (.ok ()), []⟩
  | .check (m :: left), .done =>
    some ⟨db, if m.version ∈ db.schemaMigrations then .check left else .opening m left, []⟩
  | .check (_ :: _), .failed e => some ⟨db, .ended (.error e), []⟩
  | .check (_ :: _), .lost e => some ⟨db, .ended (.error e), []⟩
  | .opening m left, .done => some ⟨db, .running m [] (splitSqlStatements m.sql) left, []⟩
  | .opening m _, .failed e =>
    some ⟨db, .ended (.error (migrationError m s!"[{m.version}] BEGIN failed: {e}")), []⟩
  | .opening m _, .lost e =>
    some ⟨db, .ended (.error (migrationError m s!"[{m.version}] BEGIN failed: {e}")), []⟩
  | .running m ran (s :: todo) left, .done => some ⟨db, .running m (ran ++ [s]) todo left, []⟩
  | .running m ran (s :: _) _, .failed e => some ⟨db, .rollback m ran.length s e, []⟩
  | .running m ran (s :: _) _, .lost e => some ⟨db, .rollback m ran.length s e, []⟩
  | .running m ran [] left, .done =>
    some ⟨db.commit (.script m.version ran), .recording m left, []⟩
  | .running m _ [] _, .failed e =>
    some ⟨db, .ended (.error (migrationError m s!"[{m.version}] COMMIT failed: {e}")), []⟩
  | .running m ran [] _, .lost e =>
    some ⟨db.commit (.script m.version ran),
      .ended (.error (migrationError m s!"[{m.version}] COMMIT failed: {e}")), [m.version]⟩
  | .rollback m idx s e, .done =>
    some ⟨db, .ended (.error (migrationError m (statementError m idx s "" e))), []⟩
  | .rollback m idx s e, .failed re =>
    some ⟨db, .ended (.error (migrationError m
      (statementError m idx s s!", ROLLBACK also failed: {re}" e))), []⟩
  | .rollback m idx s e, .lost re =>
    some ⟨db, .ended (.error (migrationError m
      (statementError m idx s s!", ROLLBACK also failed: {re}" e))), []⟩
  | .recording m left, .done =>
    if m.version ∈ db.schemaMigrations then none
    else some ⟨{ db with schemaMigrations := db.schemaMigrations ++ [m.version] }, .check left, []⟩
  | .recording m _, .failed e => some ⟨db, .ended (.error e), [m.version]⟩
  | .recording m _, .lost e =>
    if m.version ∈ db.schemaMigrations then none
    else some ⟨{ db with schemaMigrations := db.schemaMigrations ++ [m.version] },
      .ended (.error e), []⟩
  | _, _ => none

/-- A database with the startups that have been made on it, and the versions that were missed. -/
structure MigrationState where
  db : SchemaDb
  startups : List StartupPhase
  missed : List String

inductive MigrationEvent
  | start
  | exchange (startup : Nat) (reply : ServerReply)
  | crash (startup : Nat)

/-- The version that a startup has committed and not yet recorded. -/
def StartupPhase.unrecorded : StartupPhase → List String
  | recording m _ => [m.version]
  | _ => []

/-- Startups run side by side. One that crashes has its open transaction rolled back. -/
def migrationStep (scripts : SchemaScripts) (s : MigrationState) :
    MigrationEvent → Option MigrationState
  | .start => some { s with startups := s.startups ++ [.schema (splitSqlStatements scripts.initSql)] }
  | .exchange i reply => s.startups[i]?.bind fun phase =>
    (startupStep scripts s.db phase reply).map fun out =>
      { db := out.db, startups := s.startups.set i out.phase, missed := s.missed ++ out.missed }
  | .crash i => s.startups[i]?.map fun phase =>
    { s with
      startups := s.startups.set i (.ended (.error "crashed"))
      missed := s.missed ++ phase.unrecorded }

def MigrationState.init : MigrationState := ⟨⟨[], []⟩, [], []⟩

def CommittedWork.version : CommittedWork → Option String
  | statement _ => none
  | script version _ => some version

/-- How often the script of a version was committed. -/
def SchemaDb.commits (db : SchemaDb) (version : String) : Nat :=
  (db.committed.filterMap CommittedWork.version).count version

/-- How many startups have committed the script and not yet recorded it. -/
def MigrationState.pending (s : MigrationState) (version : String) : Nat :=
  (s.startups.map fun phase => phase.unrecorded.count version).sum

section Exchange

variable {scripts : SchemaScripts} {db : SchemaDb} {phase : StartupPhase} {reply : ServerReply}
  {out : StartupOutcome}

/-- An exchange about anything but the commit of a script and the record of its version. -/
structure QuietExchange (db : SchemaDb) (phase : StartupPhase) (out : StartupOutcome) : Prop where
  db : out.db = db ∨ ∃ sql, out.db = db.commit (.statement sql)
  before : phase.unrecorded = []
  after : out.phase.unrecorded = []
  missed : out.missed = []

/-- The exchange commits the script of a migration, with all its statements. -/
structure CommitExchange (db : SchemaDb) (m : Migration) (ran : List (List Char))
    (left : List Migration) (out : StartupOutcome) : Prop where
  db : out.db = db.commit (.script m.version ran)
  after : out.phase = .recording m left ∧ out.missed = [] ∨
    (∃ e, out.phase = .ended (.error e)) ∧ out.missed = [m.version]

/-- The exchange records a version. -/
structure RecordExchange (db : SchemaDb) (m : Migration) (left : List Migration)
    (out : StartupOutcome) : Prop where
  fresh : m.version ∉ db.schemaMigrations
  db : out.db = { db with schemaMigrations := db.schemaMigrations ++ [m.version] }
  after : out.phase = .check left ∨ ∃ e, out.phase = .ended (.error e)
  missed : out.missed = []

/-- The exchange fails to record a version. -/
structure MissExchange (db : SchemaDb) (m : Migration) (out : StartupOutcome) : Prop where
  db : out.db = db
  after : ∃ e, out.phase = .ended (.error e)
  missed : out.missed = [m.version]

theorem startupStep_cases (h : startupStep scripts db phase reply = some out) :
    QuietExchange db phase out ∨
      (∃ m ran left, phase = .running m ran [] left ∧ CommitExchange db m ran left out) ∨
      (∃ m left, phase = .recording m left ∧ RecordExchange db m left out) ∨
      ∃ m left, phase = .recording m left ∧ MissExchange db m out := by
  cases phase with
  | schema left =>
    left
    cases left with
    | nil =>
      cases reply <;> cases h
      exact ⟨.inl rfl, rfl, rfl, rfl⟩
    | cons sql left =>
      cases reply <;> cases h
      · exact ⟨.inr ⟨sql, rfl⟩, rfl, rfl, rfl⟩
      · exact ⟨.inl rfl, rfl, rfl, rfl⟩
      · exact ⟨.inr ⟨sql, rfl⟩, rfl, rfl, rfl⟩
  | columns left =>
    left
    cases left with
    | nil =>
      cases reply <;> cases h
      exact ⟨.inl rfl, rfl, rfl, rfl⟩
    | cons sql left =>
      cases reply <;> cases h
      · exact ⟨.inr ⟨sql, rfl⟩, rfl, rfl, rfl⟩
      · exact ⟨.inl rfl, rfl, rfl, rfl⟩
      · exact ⟨.inr ⟨sql, rfl⟩, rfl, rfl, rfl⟩
  | table =>
    left
    cases reply <;> cases h
    · exact ⟨.inr ⟨createTable, rfl⟩, rfl, rfl, rfl⟩
    · exact ⟨.inl rfl, rfl, rfl, rfl⟩
    · exact ⟨.inr ⟨createTable, rfl⟩, rfl, rfl, rfl⟩
  | check left =>
    left
    cases left with
    | nil =>
      cases reply <;> cases h
      exact ⟨.inl rfl, rfl, rfl, rfl⟩
    | cons m left =>
      cases reply <;> cases h
      · refine ⟨.inl rfl, rfl, ?_, rfl⟩
        dsimp only
        split <;> rfl
      · exact ⟨.inl rfl, rfl, rfl, rfl⟩
      · exact ⟨.inl rfl, rfl, rfl, rfl⟩
  | opening m left =>
    left
    cases reply <;> cases h <;> exact ⟨.inl rfl, rfl, rfl, rfl⟩
  | running m ran todo left =>
    cases todo with
    | cons sql todo =>
      left
      cases reply <;> cases h <;> exact ⟨.inl rfl, rfl, rfl, rfl⟩
    | nil =>
      cases reply <;> cases h
      · exact .inr (.inl ⟨m, ran, left, rfl, rfl, .inl ⟨rfl, rfl⟩⟩)
      · exact .inl ⟨.inl rfl, rfl, rfl, rfl⟩
      · exact .inr (.inl ⟨m, ran, left, rfl, rfl, .inr ⟨⟨_, rfl⟩, rfl⟩⟩)
  | rollback m idx sql e =>
    left
    cases reply <;> cases h <;> exact ⟨.inl rfl, rfl, rfl, rfl⟩
  | recording m left =>
    right
    right
    cases reply with
    | failed e =>
      cases h
      exact .inr ⟨m, left, rfl, rfl, ⟨e, rfl⟩, rfl⟩
    | done =>
      rw [startupStep] at h
      split at h
      next => cases h
      next hfresh =>
        cases h
        exact .inl ⟨m, left, rfl, hfresh, rfl, .inl rfl, rfl⟩
    | lost e =>
      rw [startupStep] at h
      split at h
      next => cases h
      next hfresh =>
        cases h
        exact .inl ⟨m, left, rfl, hfresh, rfl, .inr ⟨e, rfl⟩, rfl⟩
  | ended result => cases reply <;> cases h

theorem commits_statement (db : SchemaDb) (sql : List Char) (version : String) :
    (db.commit (.statement sql)).commits version = db.commits version := by
  rw [SchemaDb.commits, SchemaDb.commit, List.filterMap_append]
  exact congrArg (List.count version) (List.append_nil _)

theorem commits_script (db : SchemaDb) (m : Migration) (ran : List (List Char)) (version : String) :
    (db.commit (.script m.version ran)).commits version =
      db.commits version + [m.version].count version := by
  rw [SchemaDb.commits, SchemaDb.commit, List.filterMap_append, List.count_append]
  rfl

theorem sum_map_set {α : Type} (f : α → Nat) {l : List α} {i : Nat} {a : α} (b : α)
    (h : l[i]? = some a) : ((l.set i b).map f).sum + f a = (l.map f).sum + f b := by
  induction l generalizing i with
  | nil => cases h
  | cons c l ih =>
    cases i with
    | zero =>
      cases h
      simp only [List.set_cons_zero, List.map_cons, List.sum_cons]
      omega
    | succ i =>
      have hrest := ih h
      simp only [List.set_cons_succ, List.map_cons, List.sum_cons]
      omega

end Exchange

section Runs

variable {scripts : SchemaScripts} {s s' : MigrationState} {e : MigrationEvent}
  {es : List MigrationEvent}

/-- Every commit of a script is recorded, pending or missed. -/
def Conserved (s : MigrationState) : Prop :=
  ∀ version, s.db.commits version =
    s.db.schemaMigrations.count version + s.pending version + s.missed.count version

theorem conserved_step (hs : Conserved s) (h : migrationStep scripts s e = some s') :
    Conserved s' := by
  intro version
  have hbefore := hs version
  cases e with
  | start =>
    cases h
    have hpending : ((s.startups ++ [StartupPhase.schema (splitSqlStatements scripts.initSql)]).map
        fun phase => phase.unrecorded.count version).sum = s.pending version := by
      rw [List.map_append, List.sum_append]
      rfl
    rw [MigrationState.pending, hpending]
    exact hbefore
  | crash i =>
    obtain ⟨phase, hphase, rfl⟩ := Option.map_eq_some_iff.mp h
    have hset := sum_map_set (fun phase => phase.unrecorded.count version)
      (.ended (.error "crashed")) hphase
    have hended : (StartupPhase.ended (.error "crashed")).unrecorded.count version = 0 := rfl
    rw [MigrationState.pending] at hbefore ⊢
    rw [List.count_append]
    dsimp only at hset ⊢
    omega
  | exchange i reply =>
    obtain ⟨phase, hphase, h⟩ := Option.bind_eq_some_iff.mp h
    obtain ⟨out, hout, rfl⟩ := Option.map_eq_some_iff.mp h
    have hset := sum_map_set (fun phase => phase.unrecorded.count version) out.phase hphase
    rw [MigrationState.pending] at hbefore ⊢
    rw [List.count_append]
    dsimp only at hset ⊢
    rcases startupStep_cases hout with hquiet | ⟨m, ran, left, rfl, hcommit⟩ |
      ⟨m, left, rfl, hrecord⟩ | ⟨m, left, rfl, hmiss⟩
    · have hcommits : out.db.commits version = s.db.commits version := by
        rcases hquiet.db with hdb | ⟨sql, hdb⟩
        · rw [hdb]
        · rw [hdb, commits_statement]
      have hrecorded : out.db.schemaMigrations = s.db.schemaMigrations := by
        rcases hquiet.db with hdb | ⟨sql, hdb⟩
        · rw [hdb]
        · rw [hdb]
          rfl
      rw [hquiet.before, hquiet.after] at hset
      rw [hcommits, hrecorded, hquiet.missed]
      simp only [List.count_nil] at hset ⊢
      omega
    · have hbefore' : (StartupPhase.running m ran [] left).unrecorded = [] := rfl
      rw [hbefore'] at hset
      rw [hcommit.db, commits_script]
      change _ = s.db.schemaMigrations.count version + _ + _
      rcases hcommit.after with ⟨hafter, hmissed⟩ | ⟨⟨error, hafter⟩, hmissed⟩
      · have hpending : out.phase.unrecorded = [m.version] := by rw [hafter]; rfl
        rw [hpending] at hset
        rw [hmissed]
        simp only [List.count_nil] at hset ⊢
        omega
      · have hnone : out.phase.unrecorded = [] := by rw [hafter]; rfl
        rw [hnone] at hset
        rw [hmissed]
        simp only [List.count_nil] at hset ⊢
        omega
    · have hafter : out.phase.unrecorded = [] := by
        rcases hrecord.after with hafter | ⟨error, hafter⟩ <;> rw [hafter] <;> rfl
      have hpending : (StartupPhase.recording m left).unrecorded = [m.version] := rfl
      rw [hafter, hpending] at hset
      rw [hrecord.db, hrecord.missed, List.count_append]
      change s.db.commits version = _
      simp only [List.count_nil] at hset ⊢
      omega
    · have hafter : out.phase.unrecorded = [] := by
        obtain ⟨error, hafter⟩ := hmiss.after
        rw [hafter]
        rfl
      have hpending : (StartupPhase.recording m left).unrecorded = [m.version] := rfl
      rw [hafter, hpending] at hset
      rw [hmiss.db, hmiss.missed]
      simp only [List.count_nil] at hset ⊢
      omega

theorem recorded_nodup_step (hs : s.db.schemaMigrations.Nodup)
    (h : migrationStep scripts s e = some s') : s'.db.schemaMigrations.Nodup := by
  cases e with
  | start =>
    cases h
    exact hs
  | crash i =>
    obtain ⟨phase, -, rfl⟩ := Option.map_eq_some_iff.mp h
    exact hs
  | exchange i reply =>
    obtain ⟨phase, -, h⟩ := Option.bind_eq_some_iff.mp h
    obtain ⟨out, hout, rfl⟩ := Option.map_eq_some_iff.mp h
    rcases startupStep_cases hout with hquiet | ⟨m, ran, left, rfl, hcommit⟩ |
      ⟨m, left, rfl, hrecord⟩ | ⟨m, left, rfl, hmiss⟩
    · rcases hquiet.db with hdb | ⟨sql, hdb⟩ <;> dsimp only <;> rw [hdb] <;> exact hs
    · dsimp only
      rw [hcommit.db]
      exact hs
    · dsimp only
      rw [hrecord.db]
      exact List.nodup_append.mpr ⟨hs, List.nodup_singleton _, fun v hv w hw hvw =>
        hrecord.fresh (List.mem_singleton.mp hw ▸ hvw ▸ hv)⟩
    · dsimp only
      rw [hmiss.db]
      exact hs

/-- However startups run side by side, fail and crash: a script is committed once for each startup
that has yet to record it or has missed to, and once more when its version is recorded. -/
theorem migrations_conserved (h : Runs.exec (migrationStep scripts) .init es = some s)
    (version : String) :
    s.db.commits version =
        (if version ∈ s.db.schemaMigrations then 1 else 0) + s.pending version +
          s.missed.count version := by
  have hinit : Conserved .init ∧ MigrationState.init.db.schemaMigrations.Nodup :=
    ⟨fun _ => rfl, List.nodup_nil⟩
  have hrun : Conserved s ∧ s.db.schemaMigrations.Nodup :=
    @Runs.exec_invariant_of_step _ _ (migrationStep scripts)
      (fun s => Conserved s ∧ s.db.schemaMigrations.Nodup)
      (fun s e t hs ht => ⟨conserved_step hs.1 ht, recorded_nodup_step hs.2 ht⟩) _ _ _ hinit h
  obtain ⟨hconserved, hnodup⟩ := hrun
  rw [hconserved version, hnodup.count]

/-- The migrations before this one have been recorded. -/
def RecordedBefore (scripts : SchemaScripts) (db : SchemaDb) (left : List Migration) : Prop :=
  ∃ earlier, scripts.migrations = earlier ++ left ∧
    ∀ m ∈ earlier, m.version ∈ db.schemaMigrations

/-- What holds of a startup, whatever the others do. -/
def StartupPhase.Sound (scripts : SchemaScripts) (db : SchemaDb) : StartupPhase → Prop
  | check left => RecordedBefore scripts db left
  | opening m left => RecordedBefore scripts db (m :: left)
  | running m ran todo left => RecordedBefore scripts db (m :: left) ∧
      ran ++ todo = splitSqlStatements m.sql
  | recording m left => RecordedBefore scripts db (m :: left)
  | ended (.ok ()) => RecordedBefore scripts db []
  | _ => True

/-- A committed script is the whole file of a migration, and those of the migrations before it were
committed earlier. -/
def ScriptsInOrder (scripts : SchemaScripts) (committed : List CommittedWork) : Prop :=
  ∀ before version statements after, committed = before ++ .script version statements :: after →
    ∃ earlier m left, scripts.migrations = earlier ++ m :: left ∧ m.version = version ∧
      statements = splitSqlStatements m.sql ∧
      ∀ m' ∈ earlier, .script m'.version (splitSqlStatements m'.sql) ∈ before

/-- A recorded version is that of a migration whose script was committed, and so are the versions
before it. -/
def RecordedInOrder (scripts : SchemaScripts) (db : SchemaDb) : Prop :=
  ∀ version ∈ db.schemaMigrations, ∃ earlier m left, scripts.migrations = earlier ++ m :: left ∧
    m.version = version ∧ .script m.version (splitSqlStatements m.sql) ∈ db.committed ∧
    ∀ m' ∈ earlier, m'.version ∈ db.schemaMigrations

structure MigrationInv (scripts : SchemaScripts) (s : MigrationState) : Prop where
  startups : ∀ phase ∈ s.startups, phase.Sound scripts s.db
  recording : ∀ m left, .recording m left ∈ s.startups →
    .script m.version (splitSqlStatements m.sql) ∈ s.db.committed
  inOrder : ScriptsInOrder scripts s.db.committed
  recorded : RecordedInOrder scripts s.db

theorem RecordedBefore.mono {db db' : SchemaDb} {left : List Migration}
    (h : RecordedBefore scripts db left)
    (hmono : ∀ version ∈ db.schemaMigrations, version ∈ db'.schemaMigrations) :
    RecordedBefore scripts db' left := by
  obtain ⟨earlier, heq, hall⟩ := h
  exact ⟨earlier, heq, fun m hm => hmono _ (hall m hm)⟩

theorem RecordedBefore.next {db : SchemaDb} {m : Migration} {left : List Migration}
    (h : RecordedBefore scripts db (m :: left)) (hm : m.version ∈ db.schemaMigrations) :
    RecordedBefore scripts db left := by
  obtain ⟨earlier, heq, hall⟩ := h
  refine ⟨earlier ++ [m], by rw [heq, List.append_assoc, List.singleton_append], ?_⟩
  intro m' hm'
  rcases List.mem_append.mp hm' with hm' | hm'
  · exact hall m' hm'
  · rw [List.mem_singleton.mp hm']
    exact hm

theorem StartupPhase.Sound.mono {db db' : SchemaDb} {phase : StartupPhase}
    (h : phase.Sound scripts db)
    (hmono : ∀ version ∈ db.schemaMigrations, version ∈ db'.schemaMigrations) :
    phase.Sound scripts db' := by
  cases phase with
  | schema | columns | table | rollback => trivial
  | check left => exact RecordedBefore.mono h hmono
  | opening m left => exact RecordedBefore.mono h hmono
  | running m ran todo left => exact ⟨h.1.mono hmono, h.2⟩
  | recording m left => exact RecordedBefore.mono h hmono
  | ended result =>
    cases result with
    | error e => trivial
    | ok => exact RecordedBefore.mono h hmono

/-- The startup itself goes on soundly. -/
theorem sound_startupStep {db : SchemaDb} {phase : StartupPhase} {reply : ServerReply}
    {out : StartupOutcome} (hphase : phase.Sound scripts db)
    (h : startupStep scripts db phase reply = some out) : out.phase.Sound scripts out.db := by
  cases phase with
  | schema left =>
    cases left <;> cases reply <;> cases h <;> trivial
  | columns left =>
    cases left <;> cases reply <;> cases h <;> trivial
  | table =>
    cases reply <;> cases h
    · exact ⟨[], rfl, nofun⟩
    · trivial
    · trivial
  | check left =>
    cases left with
    | nil =>
      cases reply <;> cases h
      exact hphase
    | cons m left =>
      cases reply <;> cases h
      · dsimp only
        split
        next hm => exact RecordedBefore.next hphase hm
        next => exact hphase
      · trivial
      · trivial
  | opening m left =>
    cases reply <;> cases h
    · exact ⟨hphase, rfl⟩
    · trivial
    · trivial
  | running m ran todo left =>
    cases todo with
    | nil =>
      cases reply <;> cases h
      · exact hphase.1
      · trivial
      · trivial
    | cons sql todo =>
      cases reply <;> cases h
      · refine ⟨hphase.1, ?_⟩
        rw [List.append_assoc, List.singleton_append]
        exact hphase.2
      · trivial
      · trivial
  | rollback m idx sql e => cases reply <;> cases h <;> trivial
  | recording m left =>
    have hlater : RecordedBefore scripts
        { db with schemaMigrations := db.schemaMigrations ++ [m.version] } left :=
      (RecordedBefore.mono hphase fun v hv => List.mem_append_left _ hv).next
        (List.mem_append_right _ List.mem_cons_self)
    cases reply with
    | failed e =>
      cases h
      trivial
    | done =>
      rw [startupStep] at h
      split at h
      next => cases h
      next =>
        cases h
        exact hlater
    | lost e =>
      rw [startupStep] at h
      split at h
      next => cases h
      next =>
        cases h
        trivial
  | ended result => cases reply <;> cases h

theorem concat_eq_append_cons {α : Type} {l before after : List α} {x y : α}
    (h : l ++ [x] = before ++ y :: after) :
    (after = [] ∧ l = before ∧ x = y) ∨ ∃ after', after = after' ++ [x] ∧ l = before ++ y :: after' := by
  rcases List.eq_nil_or_concat after with rfl | ⟨after', z, rfl⟩
  · obtain ⟨hl, hx⟩ := List.append_inj' h rfl
    exact .inl ⟨rfl, hl, List.singleton_inj.mp hx⟩
  · rw [List.concat_eq_append, ← List.cons_append, ← List.append_assoc] at h
    obtain ⟨hl, hx⟩ := List.append_inj' h rfl
    refine .inr ⟨after', ?_, hl⟩
    rw [List.concat_eq_append, hx]

theorem ScriptsInOrder.statement {committed : List CommittedWork} (h : ScriptsInOrder scripts committed)
    (sql : List Char) : ScriptsInOrder scripts (committed ++ [.statement sql]) := by
  intro before version statements after heq
  rcases concat_eq_append_cons heq with ⟨-, -, hwork⟩ | ⟨after', -, hl⟩
  · cases hwork
  · exact h before version statements after' hl

theorem migration_unique {m m' : Migration} (hm : m ∈ scripts.migrations)
    (hm' : m' ∈ scripts.migrations) (h : m.version = m'.version) : m = m' :=
  List.inj_on_of_nodup_map scripts.nodup hm hm' h

/-- What is recorded was committed. -/
theorem RecordedInOrder.committed {db : SchemaDb} (h : RecordedInOrder scripts db) {m : Migration}
    (hm : m ∈ scripts.migrations) (hrecorded : m.version ∈ db.schemaMigrations) :
    .script m.version (splitSqlStatements m.sql) ∈ db.committed := by
  obtain ⟨earlier, m', left, hsplit, hversion, hcommitted, -⟩ := h m.version hrecorded
  have hm' : m' ∈ scripts.migrations := by
    rw [hsplit]
    exact List.mem_append_right _ List.mem_cons_self
  rw [migration_unique hm hm' hversion.symm]
  exact hcommitted

theorem RecordedInOrder.commit {db : SchemaDb} (h : RecordedInOrder scripts db)
    (work : CommittedWork) : RecordedInOrder scripts (db.commit work) := by
  intro version hversion
  obtain ⟨earlier, m, left, hsplit, hm, hcommitted, hearlier⟩ := h version hversion
  exact ⟨earlier, m, left, hsplit, hm, List.mem_append_left _ hcommitted, hearlier⟩

/-- The script of a migration is committed when those before it are recorded. -/
theorem ScriptsInOrder.script {db : SchemaDb} {m : Migration} {left : List Migration}
    {ran : List (List Char)} (h : ScriptsInOrder scripts db.committed) (hrecorded : RecordedInOrder scripts db)
    (hbefore : RecordedBefore scripts db (m :: left)) (hran : ran = splitSqlStatements m.sql) :
    ScriptsInOrder scripts (db.committed ++ [.script m.version ran]) := by
  intro before version statements after heq
  rcases concat_eq_append_cons heq with ⟨-, hl, hwork⟩ | ⟨after', -, hl⟩
  · cases hwork
    obtain ⟨earlier, hsplit, hearlier⟩ := hbefore
    refine ⟨earlier, m, left, hsplit, rfl, hran, fun m' hm' => ?_⟩
    have hmem : m' ∈ scripts.migrations := by
      rw [hsplit]
      exact List.mem_append_left _ hm'
    rw [← hl]
    exact hrecorded.committed hmem (hearlier m' hm')
  · exact h before version statements after' hl

theorem migrationInv_exchange {i : Nat} {reply : ServerReply} {phase : StartupPhase}
    {out : StartupOutcome} (hs : MigrationInv scripts s) (hphase : s.startups[i]? = some phase)
    (hout : startupStep scripts s.db phase reply = some out) :
    MigrationInv scripts ⟨out.db, s.startups.set i out.phase, s.missed ++ out.missed⟩ := by
  have hmem := List.mem_of_getElem? hphase
  have hsound := sound_startupStep (hs.startups phase hmem) hout
  rcases startupStep_cases hout with hquiet | ⟨m, ran, left, rfl, hcommit⟩ |
    ⟨m, left, rfl, hrecord⟩ | ⟨m, left, rfl, hmiss⟩
  · have hrecorded : out.db.schemaMigrations = s.db.schemaMigrations := by
      rcases hquiet.db with hdb | ⟨sql, hdb⟩
      · rw [hdb]
      · rw [hdb]
        rfl
    have hcommitted : ∀ work ∈ s.db.committed, work ∈ out.db.committed := by
      rcases hquiet.db with hdb | ⟨sql, hdb⟩
      · rw [hdb]
        exact fun _ h => h
      · rw [hdb]
        exact fun _ h => List.mem_append_left _ h
    refine ⟨fun other hother => ?_, fun m left hm => ?_, ?_, ?_⟩
    · rcases List.mem_or_eq_of_mem_set hother with hother | rfl
      · exact (hs.startups other hother).mono fun v hv => hrecorded ▸ hv
      · exact hsound
    · rcases List.mem_or_eq_of_mem_set hm with hm | hm
      · exact hcommitted _ (hs.recording m left hm)
      · have hnone := hquiet.after
        rw [← hm] at hnone
        cases hnone
    · rcases hquiet.db with hdb | ⟨sql, hdb⟩
      · dsimp only
        rw [hdb]
        exact hs.inOrder
      · dsimp only
        rw [hdb]
        exact hs.inOrder.statement sql
    · rcases hquiet.db with hdb | ⟨sql, hdb⟩
      · dsimp only
        rw [hdb]
        exact hs.recorded
      · dsimp only
        rw [hdb]
        exact hs.recorded.commit _
  · obtain ⟨hbefore, hran⟩ := hs.startups _ hmem
    rw [List.append_nil] at hran
    refine ⟨fun other hother => ?_, fun m' left' hm' => ?_, ?_, ?_⟩
    · rcases List.mem_or_eq_of_mem_set hother with hother | rfl
      · refine (hs.startups other hother).mono fun v hv => ?_
        dsimp only
        rw [hcommit.db]
        exact hv
      · exact hsound
    · dsimp only
      rw [hcommit.db]
      rcases List.mem_or_eq_of_mem_set hm' with hm' | hm'
      · exact List.mem_append_left _ (hs.recording m' left' hm')
      · rcases hcommit.after with ⟨hafter, -⟩ | ⟨⟨e, hafter⟩, -⟩
        · rw [hafter] at hm'
          cases hm'
          rw [← hran]
          exact List.mem_append_right _ List.mem_cons_self
        · rw [hafter] at hm'
          cases hm'
    · dsimp only
      rw [hcommit.db]
      exact hs.inOrder.script hs.recorded hbefore hran
    · dsimp only
      rw [hcommit.db]
      exact hs.recorded.commit _
  · have hnone : ∀ m' left', out.phase ≠ .recording m' left' := by
      rcases hrecord.after with hafter | ⟨e, hafter⟩ <;> rw [hafter] <;> nofun
    have hscript := hs.recording m left hmem
    obtain ⟨earlier, hsplit, hearlier⟩ := hs.startups _ hmem
    refine ⟨fun other hother => ?_, fun m' left' hm' => ?_, ?_, ?_⟩
    · rcases List.mem_or_eq_of_mem_set hother with hother | rfl
      · refine (hs.startups other hother).mono fun v hv => ?_
        dsimp only
        rw [hrecord.db]
        exact List.mem_append_left _ hv
      · exact hsound
    · dsimp only
      rw [hrecord.db]
      rcases List.mem_or_eq_of_mem_set hm' with hm' | hm'
      · exact hs.recording m' left' hm'
      · exact absurd hm'.symm (hnone m' left')
    · dsimp only
      rw [hrecord.db]
      exact hs.inOrder
    · dsimp only
      rw [hrecord.db]
      intro version hversion
      rcases List.mem_append.mp hversion with hversion | hversion
      · obtain ⟨earlier', m', left', hsplit', hm', hcommitted, hearlier'⟩ :=
          hs.recorded version hversion
        exact ⟨earlier', m', left', hsplit', hm', hcommitted,
          fun m hm => List.mem_append_left _ (hearlier' m hm)⟩
      · refine ⟨earlier, m, left, hsplit, (List.mem_singleton.mp hversion).symm, hscript,
          fun m hm => List.mem_append_left _ (hearlier m hm)⟩
  · have hnone : ∀ m' left', out.phase ≠ .recording m' left' := by
      obtain ⟨e, hafter⟩ := hmiss.after
      rw [hafter]
      nofun
    refine ⟨fun other hother => ?_, fun m' left' hm' => ?_, ?_, ?_⟩
    · rcases List.mem_or_eq_of_mem_set hother with hother | rfl
      · dsimp only
        rw [hmiss.db]
        exact hs.startups other hother
      · exact hsound
    · dsimp only
      rw [hmiss.db]
      rcases List.mem_or_eq_of_mem_set hm' with hm' | hm'
      · exact hs.recording m' left' hm'
      · exact absurd hm'.symm (hnone m' left')
    · dsimp only
      rw [hmiss.db]
      exact hs.inOrder
    · dsimp only
      rw [hmiss.db]
      exact hs.recorded

theorem migrationInv_step (hs : MigrationInv scripts s) (h : migrationStep scripts s e = some s') :
    MigrationInv scripts s' := by
  cases e with
  | start =>
    cases h
    refine ⟨fun phase hphase => ?_, fun m left hm => ?_, hs.inOrder, hs.recorded⟩
    · rcases List.mem_append.mp hphase with hphase | hphase
      · exact hs.startups phase hphase
      · rw [List.mem_singleton.mp hphase]
        trivial
    · rcases List.mem_append.mp hm with hm | hm
      · exact hs.recording m left hm
      · cases List.mem_singleton.mp hm
  | crash i =>
    obtain ⟨phase, -, rfl⟩ := Option.map_eq_some_iff.mp h
    refine ⟨fun other hother => ?_, fun m left hm => ?_, hs.inOrder, hs.recorded⟩
    · rcases List.mem_or_eq_of_mem_set hother with hother | rfl
      · exact hs.startups other hother
      · trivial
    · rcases List.mem_or_eq_of_mem_set hm with hm | hm
      · exact hs.recording m left hm
      · cases hm
  | exchange i reply =>
    obtain ⟨phase, hphase, h⟩ := Option.bind_eq_some_iff.mp h
    obtain ⟨out, hout, rfl⟩ := Option.map_eq_some_iff.mp h
    exact migrationInv_exchange hs hphase hout

/-- However startups run side by side, fail and crash: what is committed of a migration is its whole
file, after those of the migrations before it, only what was committed is recorded, and a startup
that succeeds leaves every migration recorded. -/
theorem migrations_in_order (h : Runs.exec (migrationStep scripts) .init es = some s) :
    ScriptsInOrder scripts s.db.committed ∧ RecordedInOrder scripts s.db ∧
      (.ended (.ok ()) ∈ s.startups → ∀ m ∈ scripts.migrations,
        m.version ∈ s.db.schemaMigrations) := by
  have hinit : MigrationInv scripts .init := by
    refine ⟨nofun, nofun, fun before version statements after heq => ?_, nofun⟩
    exact absurd heq.symm (List.append_ne_nil_of_right_ne_nil _ (List.cons_ne_nil _ _))
  have hinv := Runs.exec_invariant_of_step (fun _ _ _ => migrationInv_step) hinit h
  refine ⟨hinv.inOrder, hinv.recorded, fun hended m hm => ?_⟩
  obtain ⟨earlier, hsplit, hearlier⟩ := hinv.startups _ hended
  rw [List.append_nil] at hsplit
  exact hearlier m (hsplit ▸ hm)

end Runs

/-- One migration, which is committed, is not recorded, and is committed again by the next startup. -/
def repeatedMigration : SchemaScripts := ⟨[], [⟨"001", ['X', ';']⟩], by decide⟩

def startupEvents (startup : Nat) : List MigrationEvent :=
  .start :: List.replicate 11 (.exchange startup .done)

theorem migrations_conserved_repeated : ∃ s,
    Runs.exec (migrationStep repeatedMigration) .init
      (startupEvents 0 ++ .crash 0 :: startupEvents 1 ++ [.exchange 1 .done, .exchange 1 .done]) = some s ∧
    s.db.commits "001" = (if "001" ∈ s.db.schemaMigrations then 1 else 0) + s.pending "001" +
      s.missed.count "001" :=
  have hrun := Option.isSome_iff_exists.mp (by decide +kernel)
  hrun.imp fun _ h => ⟨h, migrations_conserved h "001"⟩

theorem migrations_in_order_repeated : ∃ s,
    Runs.exec (migrationStep repeatedMigration) .init
      (startupEvents 0 ++ .crash 0 :: startupEvents 1 ++ [.exchange 1 .done, .exchange 1 .done]) = some s ∧
    ScriptsInOrder repeatedMigration s.db.committed ∧ RecordedInOrder repeatedMigration s.db ∧
      (.ended (.ok ()) ∈ s.startups → ∀ m ∈ repeatedMigration.migrations,
        m.version ∈ s.db.schemaMigrations) :=
  have hrun := Option.isSome_iff_exists.mp (by decide +kernel)
  hrun.imp fun _ h => ⟨h, migrations_in_order h⟩

end Reminisce

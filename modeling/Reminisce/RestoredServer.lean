import Reminisce.SweepSafety

namespace Reminisce

/-- The tables that a dump holds. -/
structure DumpedTables where
  db : Database
  referenced : List (List Char)

/-- A snapshot on the nodes: what its dump holds, and the shards it was cut into. -/
structure StoredSnapshot where
  tables : DumpedTables
  shards : List Digest

/-- A server with its sweep, the dump that is being stored, the snapshots, and the shards that
the backup has consisted of since the last restore: those of the snapshot and all that the lost
database recorded. -/
structure RestoredServer where
  server : SweepState
  dumping : Option DumpedTables
  snapshots : List StoredSnapshot
  backup : List (List Char)

inductive RecoveryEvent
  | sweep (event : SweepEvent)
  | dump
  | storeSnapshot (shards : List Digest)
  | restore (i : Nat) (registry : PeerRegistry) (now : Time)

namespace RestoredServer

def init (server : SweepState) : RestoredServer :=
  { server, dumping := none, snapshots := [], backup := [] }

/-- The transaction of `backup_dump_file`, which commits rows for shards uploaded before. -/
def storeSnapshot (s : RestoredServer) (tables : DumpedTables) (shards : List Digest) :
    RestoredServer :=
  { server := { s.server with
      referenced := s.server.referenced ++ shards.map toHex
      pending := s.server.pending.filter (·.shardHash ∉ shards) }
    dumping := none, snapshots := s.snapshots ++ [⟨tables, shards⟩], backup := [] }

/-- `restore_db_common` and `pg_restore`, and a new start of the server. -/
def restore (s : RestoredServer) (snapshot : StoredSnapshot) (registry : PeerRegistry)
    (now : Time) : RestoredServer :=
  { s with
    server := SweepState.init registry snapshot.tables.db s.server.fleet
      snapshot.tables.referenced now
    dumping := none
    backup := snapshot.shards.map toHex ++ s.server.referenced }

/-- A shard whose rows are deleted is given up. -/
def giveUp (s : RestoredServer) : SweepEvent → List (List Char)
  | .unreference shardHash => s.backup.filter (· ≠ shardHash)
  | _ => s.backup

/-- The listed shards of the backup that the database does not know. -/
def unknown (s : RestoredServer) : List (List Char) :=
  match s.server.phase with
  | .query _ _ _ hexShards _ =>
    hexShards.filter fun hex => s.backup.any (· = hex) && !s.server.referenced.any (· = hex)
  | _ => []

end RestoredServer

def recoveryStep (P : Primitives) (s : RestoredServer) : RecoveryEvent → Option RestoredServer
  | .sweep event =>
    (sweepStep P s.server event).map fun server => { s with server, backup := s.giveUp event }
  | .dump => some { s with dumping := some ⟨s.server.db, s.server.referenced⟩ }
  | .storeSnapshot shards =>
    match s.dumping with
    | some tables =>
      if shards.all fun h => s.server.pending.any (·.shardHash = h) then
        some (s.storeSnapshot tables shards)
      else none
    | none => none
  | .restore i registry now => s.snapshots[i]?.map fun snapshot => s.restore snapshot registry now

/-- The step deletes no shard of the backup from a node. -/
def KeepsBackup (P : Primitives) (s : RestoredServer) (event : RecoveryEvent) : Prop :=
  ∀ t, recoveryStep P s event = some t → ∀ addr h, toHex h ∈ s.backup →
    s.server.fleet.shards addr h ≠ none → t.server.fleet.shards addr h ≠ none

/-- The sweep learns which of the listed shards are referenced. -/
def RecoveryEvent.asks : RecoveryEvent → Bool
  | .sweep (.query true) => true
  | _ => false

/-- When a sweep asks, the database has rows for all listed shards of the backup. -/
def SweepKnowsBackup (s : RestoredServer) (event : RecoveryEvent) : Prop :=
  event.asks → s.unknown = []

instance (s : RestoredServer) (event : RecoveryEvent) : Decidable (SweepKnowsBackup s event) :=
  inferInstanceAs (Decidable (event.asks → s.unknown = []))

/-- The sweep goes through names of shards, and those of the backup are not to be deleted. -/
def BackupGuarded (s : RestoredServer) : Prop :=
  match s.server.phase with
  | .query _ _ _ hexShards _ => ∀ hex ∈ hexShards, ∃ h, toHex h = hex
  | .prune _ _ _ hexShards validSet _ => (∀ hex ∈ hexShards, ∃ h, toHex h = hex) ∧
      ∀ hex ∈ hexShards, hex ∈ s.backup → hex ∈ validSet
  | _ => True

variable {P : Primitives} {s t : RestoredServer}

theorem mem_unknown {nodeId : NodeId} {addr : SocketAddr} {i : Nat} {hexShards : List (List Char)}
    {todo : List NodeId} {hex : List Char}
    (hphase : s.server.phase = .query nodeId addr i hexShards todo) :
    hex ∈ s.unknown ↔ hex ∈ hexShards ∧ hex ∈ s.backup ∧ hex ∉ s.server.referenced := by
  unfold RestoredServer.unknown
  rw [hphase, List.mem_filter]
  simp only [Bool.and_eq_true, Bool.not_eq_true', List.any_eq_true, List.any_eq_false,
    decide_eq_true_eq, exists_eq_right]
  grind

/-- The delete of one shard leaves the others. -/
theorem remove_keeps {fleet : Fleet} {addr other : SocketAddr} {h shardHash : Digest}
    (hne : h ≠ shardHash) (hheld : fleet.shards other h ≠ none) :
    (fleet.remove addr shardHash).shards other h ≠ none := by
  simp only [Fleet.remove]
  rw [if_neg (fun hsame => hne hsame.2)]
  exact hheld

theorem pruneStep_keeps {server : SweepState} {backup hexShards validSet : List (List Char)}
    {nodeId : NodeId} {addr other : SocketAddr} {i : Nat} {todo : List NodeId} {arrives : Bool}
    {h : Digest} (hnames : ∀ hex ∈ hexShards, ∃ h, toHex h = hex)
    (hguarded : ∀ hex ∈ hexShards, hex ∈ backup → hex ∈ validSet)
    (hbackup : toHex h ∈ backup) (hheld : server.fleet.shards other h ≠ none) :
    (server.pruneStep nodeId addr i validSet todo arrives hexShards).fleet.shards other h ≠
      none := by
  cases hexShards with
  | nil => exact hheld
  | cons hex rest =>
    simp only [SweepState.pruneStep]
    split
    next => exact hheld
    next hdelete =>
      split
      next => exact hheld
      next shardHash hparse =>
        split
        next =>
          refine remove_keeps (fun hsame => hdelete (Or.inl ?_)) hheld
          obtain ⟨listed, rfl⟩ := hnames hex List.mem_cons_self
          rw [parseShardHash_toHex] at hparse
          cases Option.some.inj hparse
          cases hsame
          exact hguarded _ List.mem_cons_self hbackup
        next => exact hheld

/-- Nothing but the prune step of a sweep takes a shard from a node. -/
theorem sweepStep_keeps {server after : SweepState} {event : SweepEvent} {addr : SocketAddr}
    {h : Digest} (hevent : ∀ arrives, event ≠ .prune arrives)
    (hstep : sweepStep P server event = some after)
    (hheld : server.fleet.shards addr h ≠ none) : after.fleet.shards addr h ≠ none := by
  cases event with
  | prune arrives => exact absurd rfl (hevent arrives)
  | acknowledge path target data =>
    simp only [sweepStep] at hstep
    split at hstep
    next =>
      cases Option.some.inj hstep
      simp only [Fleet.put]
      split
      next => simp
      next => exact hheld
    next => simp at hstep
  | receive i =>
    obtain ⟨store, -, rfl⟩ := Option.map_eq_some_iff.mp hstep
    unfold SweepState.receive
    split <;> exact hheld
  | _ =>
    simp only [sweepStep] at hstep
    repeat' split at hstep
    all_goals first | (cases Option.some.inj hstep; exact hheld) | simp at hstep

theorem keepsBackup_of_guarded {event : RecoveryEvent} (hs : BackupGuarded s) :
    KeepsBackup P s event := by
  intro t ht addr h hbackup hheld
  cases event with
  | sweep event =>
    obtain ⟨server, hserver, rfl⟩ := Option.map_eq_some_iff.mp ht
    by_cases hprune : ∃ arrives, event = .prune arrives
    · obtain ⟨arrives, rfl⟩ := hprune
      simp only [sweepStep] at hserver
      split at hserver
      next nodeId target i hexShards validSet todo hphase =>
        cases Option.some.inj hserver
        simp only [BackupGuarded, hphase] at hs
        exact pruneStep_keeps hs.1 hs.2 hbackup hheld
      next => simp at hserver
    · exact sweepStep_keeps (fun arrives heq => hprune ⟨arrives, heq⟩) hserver hheld
  | dump =>
    cases Option.some.inj ht
    exact hheld
  | storeSnapshot shards =>
    simp only [recoveryStep] at ht
    split at ht
    next =>
      split at ht
      next => cases Option.some.inj ht; exact hheld
      next => simp at ht
    next => simp at ht
  | restore i registry now =>
    obtain ⟨snapshot, -, rfl⟩ := Option.map_eq_some_iff.mp ht
    exact hheld

theorem backupGuarded_of_phase (hs : BackupGuarded s) (hphase : t.server.phase = s.server.phase)
    (hbackup : t.backup ⊆ s.backup) : BackupGuarded t := by
  unfold BackupGuarded at hs ⊢
  rw [hphase]
  split
  next nodeId addr i hexShards todo heq =>
    simp only [heq] at hs
    exact hs
  next nodeId addr i hexShards validSet todo heq =>
    simp only [heq] at hs
    exact ⟨hs.1, fun hex hmem hin => hs.2 hex hmem (hbackup hin)⟩
  next => trivial

theorem backupGuarded_nextPrefix {nodeId : NodeId} {addr : SocketAddr} {i : Nat}
    {todo : List NodeId} (h : t.server.phase = SweepState.nextPrefix nodeId addr i todo) :
    BackupGuarded t := by
  unfold BackupGuarded
  rw [h]
  unfold SweepState.nextPrefix
  by_cases hi : i < 255
  · simp only [if_pos hi]
  · simp only [if_neg hi]

theorem giveUp_subset (s : RestoredServer) (event : SweepEvent) : s.giveUp event ⊆ s.backup := by
  unfold RestoredServer.giveUp
  split
  next => exact List.filter_subset_self _
  next => exact List.Subset.refl _

theorem backupGuarded_list {answer : Option (List Digest)} {server : SweepState}
    (h : sweepStep P s.server (.list answer) = some server) :
    BackupGuarded { s with server, backup := s.giveUp (.list answer) } := by
  simp only [sweepStep] at h
  split at h
  next nodeId addr i todo hphase =>
    split at h
    next =>
      cases Option.some.inj h
      exact backupGuarded_nextPrefix rfl
    next shards =>
      split at h
      next =>
        cases Option.some.inj h
        by_cases hempty : shards = []
        · refine @backupGuarded_nextPrefix _ nodeId addr i todo ?_
          simp only [if_pos hempty]
        · simp only [BackupGuarded, if_neg hempty]
          intro hex hmem
          obtain ⟨shardHash, -, heq⟩ := List.mem_map.mp hmem
          exact ⟨shardHash, heq⟩
      next => simp at h
  next => simp at h

/-- A sweep that knows the backup keeps its shards in the set of the valid ones. -/
theorem backupGuarded_query {succeeds : Bool} {server : SweepState} (hs : BackupGuarded s)
    (hknows : SweepKnowsBackup s (.sweep (.query succeeds)))
    (h : sweepStep P s.server (.query succeeds) = some server) :
    BackupGuarded { s with server, backup := s.giveUp (.query succeeds) } := by
  simp only [sweepStep] at h
  split at h
  next nodeId addr i hexShards todo hphase =>
    cases succeeds with
    | false =>
      cases Option.some.inj h
      trivial
    | true =>
      cases Option.some.inj h
      simp only [BackupGuarded, hphase] at hs
      have hnone : s.unknown = [] := hknows rfl
      refine ⟨hs, fun hex hmem hbackup => List.mem_filter.mpr ⟨hmem, ?_⟩⟩
      by_contra hlost
      have hunknown : hex ∈ s.unknown :=
        (mem_unknown hphase).mpr ⟨hmem, hbackup, fun hin => hlost (decide_eq_true hin)⟩
      simp [hnone] at hunknown
  next => simp at h

theorem backupGuarded_prune {arrives : Bool} {server : SweepState} (hs : BackupGuarded s)
    (h : sweepStep P s.server (.prune arrives) = some server) :
    BackupGuarded { s with server, backup := s.giveUp (.prune arrives) } := by
  simp only [sweepStep] at h
  split at h
  next nodeId addr i hexShards validSet todo hphase =>
    cases Option.some.inj h
    simp only [BackupGuarded, hphase] at hs
    cases hexShards with
    | nil => exact backupGuarded_nextPrefix rfl
    | cons hex rest =>
      have hrest : (s.server.pruneStep nodeId addr i validSet todo arrives (hex :: rest)).phase =
          .prune nodeId addr i rest validSet todo := by
        simp only [SweepState.pruneStep]
        split
        next => rfl
        next =>
          split
          next => rfl
          next => split <;> rfl
      simp only [BackupGuarded, hrest]
      exact ⟨fun x hx => hs.1 x (List.mem_cons_of_mem _ hx),
        fun x hx => hs.2 x (List.mem_cons_of_mem _ hx)⟩
  next => simp at h

theorem backupGuarded_step {event : RecoveryEvent} (hs : BackupGuarded s)
    (hknows : SweepKnowsBackup s event) (h : recoveryStep P s event = some t) :
    BackupGuarded t := by
  cases event with
  | sweep event =>
    obtain ⟨server, hserver, rfl⟩ := Option.map_eq_some_iff.mp h
    have hgive := giveUp_subset s event
    cases event with
    | list answer => exact backupGuarded_list hserver
    | query succeeds => exact backupGuarded_query hs hknows hserver
    | prune arrives => exact backupGuarded_prune hs hserver
    | receive i =>
      obtain ⟨store, -, rfl⟩ := Option.map_eq_some_iff.mp hserver
      refine backupGuarded_of_phase hs ?_ hgive
      unfold SweepState.receive
      split <;> rfl
    | startSweep =>
      simp only [sweepStep] at hserver
      split at hserver
      next => cases Option.some.inj hserver; trivial
      next => simp at hserver
    | visit lookupUp =>
      simp only [sweepStep] at hserver
      split at hserver
      next => cases Option.some.inj hserver; trivial
      next => split at hserver <;> cases Option.some.inj hserver <;> trivial
      next => simp at hserver
    | _ =>
      simp only [sweepStep] at hserver
      repeat' split at hserver
      all_goals first
        | (cases Option.some.inj hserver
           exact backupGuarded_of_phase hs rfl hgive)
        | simp at hserver
  | dump =>
    cases Option.some.inj h
    exact backupGuarded_of_phase hs rfl (List.Subset.refl _)
  | storeSnapshot shards =>
    simp only [recoveryStep] at h
    split at h
    next =>
      split at h
      next =>
        cases Option.some.inj h
        exact backupGuarded_of_phase hs rfl (List.nil_subset _)
      next => simp at h
    next => simp at h
  | restore i registry now =>
    obtain ⟨snapshot, -, rfl⟩ := Option.map_eq_some_iff.mp h
    trivial

/-- The loop of an undisturbed sweep deletes a listed shard that was not found referenced. -/
theorem prune_deletes {nodeId : NodeId} {addr : SocketAddr} {i : Nat} {todo : List NodeId}
    {hexShards validSet : List (List Char)} {h : Digest}
    (hphase : s.server.phase = .prune nodeId addr i hexShards validSet todo)
    (hlisted : toHex h ∈ hexShards) (hinvalid : toHex h ∉ validSet)
    (hchecked : s.server.recent.checked = [])
    (hreach : s.server.fleet.reachable s.server.registry addr = true) :
    ∃ n t, Runs.exec (recoveryStep P) s (List.replicate n (.sweep (.prune true))) = some t ∧
      t.server.fleet.shards addr h = none := by
  induction hexShards generalizing s with
  | nil => simp at hlisted
  | cons hex rest ih =>
    have hstep : recoveryStep P s (.sweep (.prune true)) = some
        { s with server := s.server.pruneStep nodeId addr i validSet todo true (hex :: rest) } := by
      simp only [recoveryStep, sweepStep, hphase, Option.map_some]
      rfl
    by_cases hfirst : hex = toHex h
    · subst hfirst
      refine ⟨1, _, by rw [List.replicate_one, Runs.exec, hstep]; rfl, ?_⟩
      have hold : isRecentlyStored s.server.recent nodeId (toHex h) s.server.now = false := by
        simp [isRecentlyStored, hchecked]
      simp only [SweepState.pruneStep, hinvalid, hold, Bool.false_eq_true, or_self, if_false,
        parseShardHash_toHex, hreach, and_self, if_true]
      simp [SweepState.deleteShard, Fleet.remove]
    · have hrest : toHex h ∈ rest := by
        rcases List.mem_cons.mp hlisted with heq | hmem
        · exact absurd heq.symm hfirst
        · exact hmem
      have hnext : (s.server.pruneStep nodeId addr i validSet todo true (hex :: rest)).phase =
            .prune nodeId addr i rest validSet todo ∧
          (s.server.pruneStep nodeId addr i validSet todo true (hex :: rest)).recent =
            s.server.recent ∧
          (s.server.pruneStep nodeId addr i validSet todo true (hex :: rest)).fleet.reachable
            (s.server.pruneStep nodeId addr i validSet todo true (hex :: rest)).registry addr =
            s.server.fleet.reachable s.server.registry addr := by
        simp only [SweepState.pruneStep]
        split
        next => exact ⟨rfl, rfl, rfl⟩
        next =>
          split
          next => exact ⟨rfl, rfl, rfl⟩
          next => split <;> exact ⟨rfl, rfl, rfl⟩
      obtain ⟨n, t, hrun, hgone⟩ := @ih
        { s with server := s.server.pruneStep nodeId addr i validSet todo true (hex :: rest) }
        hnext.1 hrest (by rw [hnext.2.1]; exact hchecked) (by rw [hnext.2.2]; exact hreach)
      refine ⟨n + 1, t, ?_, hgone⟩
      rw [List.replicate_succ, Runs.exec, hstep]
      exact hrun

/-- The condition cannot be dropped: a sweep that asks while it does not know a listed shard of
the backup goes on to delete it, if nothing disturbs it. -/
theorem unknown_backup_swept (hchecked : s.server.recent.checked = []) {nodeId : NodeId}
    {addr : SocketAddr} {i : Nat} {todo : List NodeId} {hexShards : List (List Char)} {h : Digest}
    (hphase : s.server.phase = .query nodeId addr i hexShards todo)
    (hreach : s.server.fleet.reachable s.server.registry addr = true)
    (hunknown : toHex h ∈ s.unknown) :
    ∃ n t, Runs.exec (recoveryStep P) s
        (.sweep (.query true) :: List.replicate n (.sweep (.prune true))) = some t ∧
      t.server.fleet.shards addr h = none := by
  obtain ⟨hlisted, -, hunreferenced⟩ := (mem_unknown hphase).mp hunknown
  let phase : SweepPhase :=
    .prune nodeId addr i hexShards (hexShards.filter (· ∈ s.server.referenced)) todo
  obtain ⟨n, t, hrun, hgone⟩ := @prune_deletes P { s with server := { s.server with phase } }
    nodeId addr i todo hexShards _ h rfl hlisted (by simp [hunreferenced]) hchecked hreach
  refine ⟨n, t, ?_, hgone⟩
  have hstep : recoveryStep P s (.sweep (.query true)) =
      some { s with server := { s.server with phase } } := by
    simp only [recoveryStep, sweepStep, hphase, if_true, Option.map_some]
    rfl
  rw [Runs.exec, hstep]
  exact hrun

/-- A snapshot with one shard is stored, lost with the database, and restored from it. -/
def restoreEvents : List RecoveryEvent :=
  [.dump, .sweep (.acknowledge .storeShard sweptAddr [0]), .storeSnapshot [referenceHash [0]],
    .restore 0 ⟨[⟨"node", sweptAddr, 0⟩], .open, List.nodup_singleton "node"⟩ 0]

/-- The first sweep of the new server, up to its query. -/
def firstSweep : List RecoveryEvent :=
  [.sweep .startSweep, .sweep (.visit true), .sweep (.list (some [referenceHash [0]])),
    .sweep (.query true)]

end Reminisce

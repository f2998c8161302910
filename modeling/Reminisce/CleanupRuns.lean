import Reminisce.Placement
import Reminisce.Fleet
import Reminisce.Generations

namespace Reminisce

/-- `file_hash NOT IN` the hashes of the images and videos that are not deleted. -/
def Database.orphaned (db : Database) (row : ShardRow) : Bool :=
  !(db.images ++ db.videos).any fun media => media.hash = row.fileHash ∧ media.deletedAt = none

def Database.orphanRows (db : Database) : List ShardRow := db.p2pShards.filter db.orphaned

/-- Where a call of `cleanup_orphaned_shards_with_service` stands: before its query, in the loop
over the selected rows, or returned. -/
inductive CleanupPhase
  | idle
  | telling (todo : List ShardRow)
  | returned (removed : List ShardRow)

/-- The tables and the servers around one call; `told` are the rows for which it has issued a
remote delete. -/
structure CleanupState where
  registry : PeerRegistry
  db : Database
  fleet : Fleet
  phase : CleanupPhase
  told : List ShardRow

/-- The statements of the call and the deletions and un-deletions of media. `order` is the order
in which the database happens to produce the orphaned rows. -/
inductive CleanupEvent
  | select (order : List ShardRow)
  | tell (now : Time) (lookupUp arrives : Bool)
  | delete
  | setDeleted (table : MediaTable) (userId : UserId) (hash : String) (deletedAt : Option Time)
  | ingest (table : MediaTable) (userId : UserId) (hash name ext : String)

def CleanupState.start (registry : PeerRegistry) (db : Database) (fleet : Fleet) : CleanupState :=
  { registry, db, fleet, phase := .idle, told := [] }

/-- `delete_shard_remote`: nothing is issued for a hash that is none. -/
def issueDelete (s : CleanupState) (addr : SocketAddr) (row : ShardRow) (arrives : Bool) :
    CleanupState :=
  match parseShardHash row.shardHash with
  | none => s
  | some shardHash =>
    let fleet := if arrives ∧ s.fleet.reachable s.registry addr then s.fleet.remove addr shardHash
      else s.fleet
    { s with fleet, told := s.told ++ [row] }

/-- The loop body, for a row whose node may have no known address. -/
def tellNode (s : CleanupState) (row : ShardRow) (now : Time) (lookupUp arrives : Bool) :
    CleanupState :=
  match lookupNodeAddr s.registry s.db row.nodeId now lookupUp with
  | (none, registry) => { s with registry }
  | (some addr, registry) => issueDelete { s with registry } addr row arrives

/-- One step of the call or of the media; `service` says whether the call was given one. -/
def cleanupStep (service : Bool) (s : CleanupState) : CleanupEvent → Option CleanupState
  | .select order =>
    match s.phase with
    | .idle =>
      if order.isPerm s.db.orphanRows then
        some { s with phase := .telling (if service then order.take 1000 else []) }
      else none
    | _ => none
  | .tell now lookupUp arrives =>
    match s.phase with
    | .telling (row :: todo) =>
      some (tellNode { s with phase := .telling todo } row now lookupUp arrives)
    | _ => none
  | .delete =>
    match s.phase with
    | .telling [] => some
      { s with
        db := { s.db with p2pShards := s.db.p2pShards.filter fun row => !s.db.orphaned row }
        phase := .returned s.db.orphanRows }
    | _ => none
  | .setDeleted table userId hash deletedAt =>
    some { s with db := s.db.mapMedia table (markDeleted userId hash deletedAt) }
  | .ingest table userId hash name ext =>
    some { s with db := s.db.mapMedia table (ingestInto userId hash name ext) }

/-- The rows that the call has removed are those for which it issued a remote delete. -/
def CleanupAgrees (s : CleanupState) : Prop :=
  ∀ removed, s.phase = .returned removed → ∀ row, row ∈ removed ↔ row ∈ s.told

/-- The rows that the call would remove now are those it has told or is about to tell. -/
def CleanupConsistent (s : CleanupState) : Prop :=
  match s.phase with
  | .idle => True
  | .telling todo => ∀ row, row ∈ s.db.orphanRows ↔ row ∈ s.told ∨ row ∈ todo
  | .returned removed => ∀ row, row ∈ removed ↔ row ∈ s.told

/-- `lookup_node_addr` knows the node and the recorded hash is one. -/
def CleanupState.canTell (s : CleanupState) (row : ShardRow) (now : Time) (lookupUp : Bool) : Bool :=
  (lookupNodeAddr s.registry s.db row.nodeId now lookupUp).1.isSome &&
    (parseShardHash row.shardHash).isSome

/-- A change of the media leaves the recorded shards orphaned that are, and no others. -/
def KeepsOrphans (s : CleanupState) (db : Database) : Prop :=
  match s.phase with
  | .telling _ => ∀ row ∈ s.db.p2pShards, db.orphaned row = s.db.orphaned row
  | _ => True

/-- No more orphans than the limit, with a service to tell the nodes; a node for each selected row
that can be told; and no change of the orphans in between. -/
def CleanupSteady (service : Bool) (s : CleanupState) : CleanupEvent → Prop
  | .select order =>
    s.phase = .idle → order.isPerm s.db.orphanRows = true →
      s.db.orphanRows = [] ∨ service = true ∧ s.db.orphanRows.length ≤ 1000
  | .tell now lookupUp _ =>
    ∀ row todo, s.phase = .telling (row :: todo) → s.canTell row now lookupUp = true
  | .delete => True
  | .setDeleted table userId hash deletedAt =>
    KeepsOrphans s (s.db.mapMedia table (markDeleted userId hash deletedAt))
  | .ingest table userId hash name ext =>
    KeepsOrphans s (s.db.mapMedia table (ingestInto userId hash name ext))

/-- No row is there twice, or selected twice. -/
structure CleanupBase (s : CleanupState) : Prop where
  rows : s.db.p2pShards.Nodup
  idle : s.phase = .idle → s.told = []
  telling : ∀ todo, s.phase = .telling todo → (s.told ++ todo).Nodup

variable {service : Bool} {s t : CleanupState} {event : CleanupEvent} {row : ShardRow}

theorem mem_orphanRows {db : Database} :
    row ∈ db.orphanRows ↔ row ∈ db.p2pShards ∧ db.orphaned row = true := List.mem_filter

/-- The limit reaches every entry exactly if there are no more. -/
theorem mem_take_iff_length_le {α : Type} {xs : List α} (hn : xs.Nodup) (limit : Nat) :
    (∀ x ∈ xs, x ∈ xs.take limit) ↔ xs.length ≤ limit := by
  constructor
  · intro h
    have hle := (hn.subperm h).length_le
    rw [List.length_take] at hle
    omega
  · intro hle x hx
    rwa [List.take_of_length_le hle]

/-- A limited selection, if one is made at all, has all the entries exactly if they fit. -/
theorem selection_complete_iff {α : Type} {xs order : List α} (hn : xs.Nodup) (hp : order.Perm xs)
    (selects : Bool) (limit : Nat) :
    (∀ x, x ∈ xs ↔ x ∈ if selects then order.take limit else []) ↔
      xs = [] ∨ selects = true ∧ xs.length ≤ limit := by
  cases selects with
  | false => simp [List.eq_nil_iff_forall_not_mem]
  | true =>
    have hall : (∀ x, x ∈ xs ↔ x ∈ order.take limit) ↔ xs.length ≤ limit := by
      rw [← hp.length_eq, ← mem_take_iff_length_le (hp.nodup_iff.mpr hn)]
      exact ⟨fun h x hx => (h x).mp (hp.mem_iff.mp hx),
        fun h x => ⟨fun hx => h x (hp.mem_iff.mpr hx), fun hx => hp.mem_iff.mp (List.mem_of_mem_take hx)⟩⟩
    rw [if_pos rfl, hall]
    refine ⟨fun hle => Or.inr ⟨rfl, hle⟩, ?_⟩
    rintro (rfl | ⟨-, hle⟩)
    · exact Nat.zero_le _
    · exact hle

/-- A turn of the loop adds its row to the told ones, or leaves them. -/
theorem tellNode_spec (s : CleanupState) (row : ShardRow) (now : Time) (lookupUp arrives : Bool) :
    ∃ registry fleet, tellNode s row now lookupUp arrives =
      { s with registry, fleet
               told := if s.canTell row now lookupUp then s.told ++ [row] else s.told } := by
  unfold tellNode CleanupState.canTell
  split
  next registry heq =>
    rw [heq]
    exact ⟨registry, s.fleet, rfl⟩
  next addr registry heq =>
    rw [heq]
    unfold issueDelete
    split
    next hparse =>
      rw [hparse]
      exact ⟨registry, s.fleet, rfl⟩
    next shardHash hparse =>
      rw [hparse]
      exact ⟨registry, _, rfl⟩

theorem mapMedia_p2pShards (db : Database) (table : MediaTable)
    (change : List MediaRow → List MediaRow) : (db.mapMedia table change).p2pShards = db.p2pShards := by
  cases table <;> rfl

theorem cleanupBase_start {registry : PeerRegistry} {db : Database} {fleet : Fleet}
    (hunique : db.shardKeys.Nodup) : CleanupBase (.start registry db fleet) :=
  ⟨hunique.of_map _, fun _ => rfl, nofun⟩

theorem CleanupBase.media (hs : CleanupBase s) (table : MediaTable)
    (change : List MediaRow → List MediaRow) :
    CleanupBase { s with db := s.db.mapMedia table change } :=
  ⟨(mapMedia_p2pShards _ _ _).symm ▸ hs.rows, hs.idle, hs.telling⟩

theorem CleanupBase.orphans (hs : CleanupBase s) : s.db.orphanRows.Nodup := hs.rows.filter _

theorem cleanupBase_step (hs : CleanupBase s) (h : cleanupStep service s event = some t) :
    CleanupBase t := by
  cases event with
  | select order =>
    simp only [cleanupStep] at h
    split at h
    next hidle =>
      split at h
      next hperm =>
        cases Option.some.inj h
        refine ⟨hs.rows, nofun, fun todo htodo => ?_⟩
        cases htodo
        have horder : order.Nodup := (List.isPerm_iff.mp hperm).nodup_iff.mpr hs.orphans
        simp only [hs.idle hidle, List.nil_append]
        split
        · exact horder.sublist (List.take_sublist _ _)
        · exact List.nodup_nil
      next => cases h
    next => cases h
  | tell now lookupUp arrives =>
    simp only [cleanupStep] at h
    split at h
    next row todo hphase =>
      cases Option.some.inj h
      have hnodup := hs.telling _ hphase
      obtain ⟨registry, fleet, heq⟩ :=
        tellNode_spec { s with phase := .telling todo } row now lookupUp arrives
      rw [heq]
      refine ⟨hs.rows, nofun, fun later hlater => ?_⟩
      cases hlater
      simp only
      split
      · simpa using hnodup
      · exact hnodup.sublist ((List.sublist_cons_self row todo).append_left s.told)
    next => cases h
  | delete =>
    simp only [cleanupStep] at h
    split at h
    next =>
      cases Option.some.inj h
      exact ⟨hs.rows.filter _, nofun, nofun⟩
    next => cases h
  | setDeleted table userId hash deletedAt =>
    cases Option.some.inj h
    exact hs.media _ _
  | ingest table userId hash name ext =>
    cases Option.some.inj h
    exact hs.media _ _

/-- A selection takes all the orphans in if and only if there is a service and the limit is enough,
or there are none. -/
theorem consistent_select_iff (hs : CleanupBase s) (order : List ShardRow) :
    (∀ t, cleanupStep service s (.select order) = some t → CleanupConsistent t) ↔
      CleanupSteady service s (.select order) := by
  simp only [cleanupStep, CleanupSteady]
  split
  next hidle =>
    by_cases hperm : order.isPerm s.db.orphanRows = true
    · have hselection := selection_complete_iff hs.orphans (List.isPerm_iff.mp hperm) service 1000
      rw [if_pos hperm]
      constructor
      · intro h _ _
        have hthis := h _ rfl
        simp only [CleanupConsistent, hs.idle hidle, List.not_mem_nil, false_or] at hthis
        exact hselection.mp hthis
      · intro h t ht
        cases Option.some.inj ht
        simp only [CleanupConsistent, hs.idle hidle, List.not_mem_nil, false_or]
        exact hselection.mpr (h hidle hperm)
    · exact ⟨fun _ _ h => absurd h hperm, fun _ t ht => by simp [hperm] at ht⟩
  next hbusy => exact ⟨fun _ hidle => absurd hidle hbusy, fun _ t ht => nomatch ht⟩

/-- A turn of the loop keeps the account if and only if it issues the delete. -/
theorem consistent_tell_iff (hs : CleanupBase s) (hc : CleanupConsistent s) (now : Time)
    (lookupUp arrives : Bool) :
    (∀ t, cleanupStep service s (.tell now lookupUp arrives) = some t → CleanupConsistent t) ↔
      CleanupSteady service s (.tell now lookupUp arrives) := by
  simp only [cleanupStep, CleanupSteady]
  split
  next row todo hphase =>
    have hnodup := hs.telling _ hphase
    unfold CleanupConsistent at hc
    rw [hphase] at hc
    obtain ⟨registry, fleet, heq⟩ :=
      tellNode_spec { s with phase := .telling todo } row now lookupUp arrives
    have hcan : ({ s with phase := .telling todo } : CleanupState).canTell row now lookupUp =
        s.canTell row now lookupUp := rfl
    simp only [heq, hcan, Option.some.injEq, forall_eq', CleanupConsistent, hc, List.mem_cons]
    constructor
    · intro h later rest hlater
      cases hphase.symm.trans hlater
      by_contra hcannot
      have hrow := (h row).mp (Or.inr (Or.inl rfl))
      rw [if_neg hcannot] at hrow
      obtain ⟨-, htodo, hdisjoint⟩ := List.nodup_append.mp hnodup
      rcases hrow with htold | hlater
      · exact hdisjoint row htold row (by simp) rfl
      · exact (List.nodup_cons.mp htodo).1 hlater
    · intro hcan r
      rw [if_pos (hcan row todo hphase)]
      simp only [List.mem_append, List.mem_singleton]
      tauto
  next hbusy => exact ⟨fun _ row todo h => absurd h (hbusy row todo), fun _ t ht => nomatch ht⟩

theorem consistent_media_iff (hc : CleanupConsistent s) (table : MediaTable)
    (change : List MediaRow → List MediaRow) :
    CleanupConsistent { s with db := s.db.mapMedia table change } ↔
      KeepsOrphans s (s.db.mapMedia table change) := by
  unfold CleanupConsistent KeepsOrphans at *
  cases hphase : s.phase with
  | idle => simp
  | returned removed =>
    rw [hphase] at hc
    simpa using hc
  | telling todo =>
    rw [hphase] at hc
    simp only [← hc, mem_orphanRows, mapMedia_p2pShards]
    constructor
    · intro h row hrow
      exact Bool.eq_iff_iff.mpr
        ⟨fun horphan => ((h row).mp ⟨hrow, horphan⟩).2, fun horphan => ((h row).mpr ⟨hrow, horphan⟩).2⟩
    · intro h row
      exact and_congr_right fun hrow => by rw [h row hrow]

theorem consistent_step_iff (hs : CleanupBase s) (hc : CleanupConsistent s) (event : CleanupEvent) :
    (∀ t, cleanupStep service s event = some t → CleanupConsistent t) ↔
      CleanupSteady service s event := by
  cases event with
  | select order => exact consistent_select_iff hs order
  | tell now lookupUp arrives => exact consistent_tell_iff hs hc now lookupUp arrives
  | delete =>
    simp only [cleanupStep, CleanupSteady, iff_true]
    intro t ht
    split at ht
    next hphase =>
      cases Option.some.inj ht
      unfold CleanupConsistent at hc
      rw [hphase] at hc
      simpa [CleanupConsistent] using hc
    next => cases ht
  | setDeleted table userId hash deletedAt =>
    simp only [cleanupStep, CleanupSteady, Option.some.injEq, forall_eq']
    exact consistent_media_iff hc _ _
  | ingest table userId hash name ext =>
    simp only [cleanupStep, CleanupSteady, Option.some.injEq, forall_eq']
    exact consistent_media_iff hc _ _

theorem CleanupConsistent.agrees (hc : CleanupConsistent s) : CleanupAgrees s := by
  intro removed hphase
  unfold CleanupConsistent at hc
  rwa [hphase] at hc

/-- Along every run the rows to be removed and the rows that are told stay the same exactly if every
step meets the condition; and then the call removes the rows for which it issued a delete. -/
theorem cleanup_agrees_of_steady (service : Bool) (registry : PeerRegistry) (db : Database)
    (fleet : Fleet) (hunique : db.shardKeys.Nodup) (es : List CleanupEvent) :
    (Runs.Throughout (cleanupStep service) CleanupConsistent (.start registry db fleet) es ↔
      Runs.Meets (cleanupStep service) (CleanupSteady service) (.start registry db fleet) es) ∧
    (Runs.Meets (cleanupStep service) (CleanupSteady service) (.start registry db fleet) es →
      Runs.Throughout (cleanupStep service) CleanupAgrees (.start registry db fleet) es) := by
  have hstep : ∀ s e, CleanupBase s → CleanupConsistent s →
      ((∀ t, cleanupStep service s e = some t → CleanupConsistent t) ↔ CleanupSteady service s e) :=
    fun s e hs hc => consistent_step_iff hs hc e
  have hbase : CleanupBase (.start registry db fleet) := cleanupBase_start hunique
  have hiff := Runs.throughout_iff_meets (fun s e t hs h => cleanupBase_step hs h) hstep hbase
    trivial es
  exact ⟨hiff, fun h => Runs.throughout_mono (fun _ => CleanupConsistent.agrees) (hiff.mpr h)⟩

/-- The one recorded shard of an image. -/
def cleanedRow : ShardRow :=
  { id := 0, fileHash := hexId '0', shardIndex := 0, nodeId := (letterNode 'a').1
    shardHash := toHex (lastByteHash [7]), lastCheckedAt := none }

def cleanedDatabase (deletedAt : Option Time) : Database :=
  { images := [{ sampleRow with hash := hexId '0', deletedAt }], videos := []
    p2pShards := [cleanedRow], nextShardId := 1
    p2pNodes := [⟨(letterNode 'a').1, some (letterNode 'a').2, 0, true⟩] }

def cleanedRegistry : PeerRegistry :=
  { peers := [⟨(letterNode 'a').1, (letterNode 'a').2, 0⟩], admission := .open, nodup := by simp }

def cleanedFleet : Fleet := ⟨fun _ _ => some [7], fun _ => some (letterNode 'a').1⟩

theorem cleanedRow_orphaned (deletedAt : Option Time) :
    (cleanedDatabase deletedAt).orphaned cleanedRow = deletedAt.isSome := by
  cases deletedAt <;> simp [Database.orphaned, cleanedDatabase, cleanedRow]

theorem cleanedDatabase_orphans (deletedAt : Option Time) :
    (cleanedDatabase deletedAt).orphanRows = if deletedAt.isSome then [cleanedRow] else [] := by
  have horphaned := cleanedRow_orphaned deletedAt
  unfold Database.orphanRows
  cases deletedAt with
  | none => exact List.filter_cons_of_neg (by simp [horphaned])
  | some time => exact List.filter_cons_of_pos (by simp [horphaned])

/-- The states of a call after the first one. -/
def cleanedState (deletedAt : Option Time) (fleet : Fleet) (phase : CleanupPhase)
    (told : List ShardRow) : CleanupState :=
  { registry := cleanedRegistry, db := cleanedDatabase deletedAt, fleet, phase, told }

theorem cleaned_select (time : Time) : cleanupStep true
    (cleanedState (some time) cleanedFleet .idle []) (.select [cleanedRow]) =
      some (cleanedState (some time) cleanedFleet (.telling [cleanedRow]) []) := by
  have hperm : [cleanedRow].isPerm (cleanedDatabase (some time)).orphanRows = true := by
    rw [cleanedDatabase_orphans]
    exact List.isPerm_iff.mpr (.refl _)
  simp only [cleanupStep, cleanedState]
  rw [if_pos hperm]
  rfl

theorem cleaned_tell (time : Time) : cleanupStep true
    (cleanedState (some time) cleanedFleet (.telling [cleanedRow]) []) (.tell 0 true true) =
      some (cleanedState (some time) (cleanedFleet.remove (letterNode 'a').2 (lastByteHash [7]))
        (.telling []) [cleanedRow]) := by
  have hlookup : lookupNodeAddr cleanedRegistry (cleanedDatabase (some time)) cleanedRow.nodeId 0 true =
      (some (letterNode 'a').2, cleanedRegistry) := by
    simp [lookupNodeAddr, PeerRegistry.get, cleanedRegistry, cleanedRow]
  have hreach : cleanedFleet.reachable cleanedRegistry (letterNode 'a').2 = true := by
    simp [Fleet.reachable, cleanedFleet, cleanedRegistry]
  have hparse : parseShardHash cleanedRow.shardHash = some (lastByteHash [7]) :=
    parseShardHash_toHex _
  simp only [cleanupStep, cleanedState, tellNode, hlookup, issueDelete, hparse, hreach]
  rfl

/-- The deleted file's shard is told to its node and its row removed. -/
theorem cleanup_agrees_example : Runs.Throughout (cleanupStep true) CleanupAgrees
    (.start cleanedRegistry (cleanedDatabase (some 1)) cleanedFleet)
      [.select [cleanedRow], .tell 0 true true, .delete] := by
  refine (cleanup_agrees_of_steady true cleanedRegistry (cleanedDatabase (some 1)) cleanedFleet
    (by simp [Database.shardKeys, cleanedDatabase]) _).2 ⟨fun _ _ => Or.inr ⟨rfl, ?_⟩, ?_⟩
  · have hone : (cleanedDatabase (some 1)).orphanRows = [cleanedRow] := cleanedDatabase_orphans _
    have hlength := congrArg List.length hone
    exact hlength.le.trans (by decide)
  · intro t ht
    cases Option.some.inj ((cleaned_select 1).symm.trans ht)
    refine ⟨fun row todo hphase => ?_, fun _ _ => ⟨trivial, fun _ _ => trivial⟩⟩
    cases hphase
    simp [CleanupState.canTell, cleanedState, lookupNodeAddr, PeerRegistry.get, cleanedRegistry,
      cleanedRow]

/-- The file is restored after its shard was deleted on the node: the row stays without it. -/
theorem undeleted_file_loses_shard :
    ∃ s, Runs.exec (cleanupStep true)
        (.start cleanedRegistry (cleanedDatabase (some 1)) cleanedFleet)
        [.select [cleanedRow], .tell 0 true true,
          .setDeleted .images sampleRow.userId (hexId '0') none, .delete] = some s ∧
      cleanedRow ∈ s.db.p2pShards ∧
      s.fleet.shards (letterNode 'a').2 (lastByteHash [7]) = none ∧ ¬CleanupAgrees s := by
  have hrestored : (cleanedDatabase (some 1)).mapMedia .images
      (markDeleted sampleRow.userId (hexId '0') none) = cleanedDatabase none := by
    simp [Database.mapMedia, markDeleted, cleanedDatabase]
  have hrow : (cleanedDatabase none).p2pShards.filter (fun row =>
      !(cleanedDatabase none).orphaned row) = [cleanedRow] :=
    List.filter_cons_of_pos (by simp [cleanedRow_orphaned])
  have hnone : (cleanedDatabase none).orphanRows = [] := cleanedDatabase_orphans none
  refine ⟨{ cleanedState none (cleanedFleet.remove (letterNode 'a').2 (lastByteHash [7]))
      (.returned []) [cleanedRow] with
        db := { cleanedDatabase none with p2pShards := [cleanedRow] } }, ?_, ?_, ?_, ?_⟩
  · have hstart : CleanupState.start cleanedRegistry (cleanedDatabase (some 1)) cleanedFleet =
        cleanedState (some 1) cleanedFleet .idle [] := rfl
    rw [hstart]
    simp only [Runs.exec, cleaned_select, cleaned_tell, Option.bind_some]
    simp only [cleanupStep, cleanedState, hrestored, Option.bind_some, hrow, hnone]
  · exact List.mem_singleton_self _
  · simp [Fleet.remove, cleanedState]
  · intro h
    exact absurd ((h [] rfl cleanedRow).mpr (List.mem_singleton_self _)) List.not_mem_nil

end Reminisce

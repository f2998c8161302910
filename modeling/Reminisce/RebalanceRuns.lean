import Reminisce.ReferencePrimitives
import Reminisce.Library.Runs
import Reminisce.RebalanceInvariant

namespace Reminisce

section Step

variable {P : Primitives} {job : RebalanceJob} {start s t : RebalanceState}

/-- A step that leaves rows and addresses alone and takes no held shard away. -/
theorem keepsShards_of_holds (hk : KeepsShards P start s) (hrows : t.db.p2pShards = s.db.p2pShards)
    (haddrs : ∀ nodeId, nodeAddrOf t.registry t.db nodeId = nodeAddrOf s.registry s.db nodeId)
    (hholds : ∀ addr shardHash, s.fleet.holds P addr shardHash → t.fleet.holds P addr shardHash) :
    KeepsShards P start t := by
  intro before hbefore hret
  obtain ⟨now, hnow, hkey, hhash, hheld⟩ := hk before hbefore hret
  refine ⟨now, hrows ▸ hnow, hkey, hhash, ?_⟩
  obtain ⟨addr, haddr, hheld⟩ := shardRetrievable_iff.mp hheld
  exact shardRetrievable_iff.mpr ⟨addr, (haddrs now.nodeId).trans haddr, hholds addr _ hheld⟩

theorem keepsShards_consider (hk : KeepsShards P start s) (row : ShardRow) (todo : List ShardRow)
    (io : SourceIo) : KeepsShards P start (considerShard P job s row todo io) := by
  obtain ⟨registry, phase, heq, haddrs, -⟩ :=
    @considerShard_spec P job s row todo io
  rw [heq]
  exact keepsShards_of_holds hk rfl haddrs fun _ _ h => h

theorem keepsShards_upload (hk : KeepsShards P start s) (row : ShardRow)
    (target : NodeId × SocketAddr) (data : Bytes) (todo : List ShardRow) (outcome : UploadOutcome) :
    KeepsShards P start (uploadStep P s row target data todo outcome) := by
  unfold uploadStep
  split
  next fleet newShardHash hup =>
    exact keepsShards_of_holds hk rfl (fun _ => rfl) (uploadShardToNode_spec hup).1
  next fleet hup =>
    exact keepsShards_of_holds hk rfl (fun _ => rfl) (uploadShardToNode_spec hup).1

theorem keepsShards_finish (hk : KeepsShards P start s) (succeeds : Bool) :
    KeepsShards P start
      { s with
        db := if succeeds then s.db.touchShards job.fileHash job.now else s.db
        phase := .stopped } := by
  cases succeeds with
  | false => exact keepsShards_of_holds hk rfl (fun _ => rfl) fun _ _ h => h
  | true =>
    intro before hbefore hret
    obtain ⟨now, hnow, hkey, hhash, hheld⟩ := hk before hbefore hret
    refine ⟨_, List.mem_map.mpr ⟨now, hnow, rfl⟩, ?_⟩
    split <;> exact ⟨hkey, hhash, hheld⟩

/-- Moving a row keeps the shards exactly if the new node resolves to a server that has it. -/
theorem keepsShards_update_iff (hunique : start.db.shardKeys.Nodup)
    (hs : RebalanceConsistent P job start s) (hk : KeepsShards P start s) {row : ShardRow}
    {target : NodeId × SocketAddr} {newShardHash : List Char} {todo : List ShardRow}
    (hphase : s.phase = .update row target newShardHash todo) :
    KeepsShards P start (updateStep job s row target newShardHash todo true) ↔
      (start.retrievable P row → ∃ addr, nodeAddrOf s.registry s.db target.1 = some addr ∧
        (addr = target.2 ∨ s.fleet.holds P addr row.shardHash)) := by
  have hloaded := hs.phase
  simp only [PhaseConsistent, hphase] at hloaded
  obtain ⟨hrow, -, rfl, -, hup⟩ := hloaded
  constructor
  · intro hafter hret
    obtain ⟨moved, hmoved, hkey, -, hheld⟩ := hafter row hrow.1 hret
    obtain ⟨now, hnow, rfl⟩ := List.mem_map.mp hmoved
    by_cases hmoves : now.fileHash = job.fileHash ∧ now.shardIndex = row.shardIndex
    · rw [if_pos hmoves] at hheld
      obtain ⟨addr, haddr, hheld⟩ := shardRetrievable_iff.mp hheld
      exact ⟨addr, haddr, Or.inr hheld⟩
    · rw [if_neg hmoves] at hkey
      obtain ⟨hfile, hindex⟩ := Prod.mk.inj hkey
      exact absurd ⟨hfile.trans hrow.2, hindex⟩ hmoves
  · intro hcond before hbefore hret
    obtain ⟨now, hnow, hkey, hhash, hheld⟩ := hk before hbefore hret
    refine ⟨_, List.mem_map.mpr ⟨now, hnow, rfl⟩, ?_⟩
    split
    next hmoves =>
      have hsame : before.key = row.key := by
        rw [← hkey, ShardRow.key, ShardRow.key, hmoves.1, hmoves.2, hrow.2]
      obtain rfl : before = row := eq_of_key hunique hbefore hrow.1 hsame
      refine ⟨hkey, rfl, ?_⟩
      obtain ⟨addr, haddr, hcopy⟩ := hcond hret
      refine shardRetrievable_iff.mpr ⟨addr, haddr, ?_⟩
      rcases hcopy with rfl | hcopy
      · exact hup
      · exact hcopy
    next => exact ⟨hkey, hhash, hheld⟩

/-- Deleting the old copy keeps the shards exactly if no kept row needs it. -/
theorem keepsShards_delete_iff (hunique : start.db.shardKeys.Nodup)
    (hs : RebalanceConsistent P job start s) (hk : KeepsShards P start s) {row : ShardRow}
    {todo : List ShardRow} (hphase : s.phase = .delete row todo) (lookupUp : Bool) :
    KeepsShards P start (deleteStep job s row todo lookupUp true) ↔
      ∀ addr, (lookupNodeAddr s.registry s.db row.nodeId job.now lookupUp).1 = some addr →
        s.fleet.reachable (lookupNodeAddr s.registry s.db row.nodeId job.now lookupUp).2 addr →
        ∀ before ∈ start.db.p2pShards, start.retrievable P before →
          before.shardHash = row.shardHash → ∀ now ∈ s.db.p2pShards, now.key = before.key →
            nodeAddrOf s.registry s.db now.nodeId ≠ some addr := by
  have hloaded := hs.phase
  simp only [PhaseConsistent, hphase] at hloaded
  obtain ⟨-, -, shardHash, hhex⟩ := hloaded
  have hparse : parseShardHash row.shardHash = some shardHash := by
    rw [← hhex, parseShardHash_toHex]
  obtain ⟨registry, fleet, heq, haddrs, hfleet⟩ :=
    @deleteStep_spec job s row todo lookupUp true
  constructor
  · intro hafter addr haddr hreach before hbefore hret hhash now hnow hkey hat
    have hremoved := @deleteStep_removes _ _ row todo lookupUp _ _ hparse haddr hreach
    obtain ⟨kept, hkept, hkeptkey, hkepthash, hheld⟩ := hafter before hbefore hret
    rw [heq] at hkept hheld hremoved
    have hsame : kept = now :=
      eq_of_key (hs.keys ▸ hunique) hkept hnow (hkeptkey.trans hkey.symm)
    obtain ⟨other, hother, hheld⟩ := shardRetrievable_iff.mp hheld
    have hmine : other = addr := by
      rw [hsame] at hother
      exact Option.some.inj (hother.symm.trans ((haddrs now.nodeId).trans hat))
    rw [show fleet = s.fleet.remove addr shardHash from hremoved, Fleet.holds_remove] at hheld
    exact hheld.2 ⟨hmine, by rw [hkepthash, hhash, hhex]⟩
  · intro hcond
    rw [heq]
    rcases hfleet with rfl | ⟨addr, removed, rfl, hparsed, -, haddr, hreach⟩
    · exact keepsShards_of_holds hk rfl haddrs fun _ _ h => h
    · cases Option.some.inj (hparse.symm.trans hparsed)
      intro before hbefore hret
      obtain ⟨now, hnow, hkey, hhash, hheld⟩ := hk before hbefore hret
      refine ⟨now, hnow, hkey, hhash, ?_⟩
      obtain ⟨other, hother, hheld⟩ := shardRetrievable_iff.mp hheld
      refine shardRetrievable_iff.mpr ⟨other, (haddrs now.nodeId).trans hother, ?_⟩
      refine Fleet.holds_remove.mpr ⟨hheld, ?_⟩
      rintro ⟨rfl, hgone⟩
      refine hcond other haddr hreach before hbefore hret ?_ now hnow hkey hother
      rw [← hhash, hgone, hhex]

theorem keepsShards_deleteLost (hk : KeepsShards P start s) (row : ShardRow)
    (todo : List ShardRow) (lookupUp : Bool) :
    KeepsShards P start (deleteStep job s row todo lookupUp false) := by
  obtain ⟨registry, fleet, heq, haddrs, hfleet⟩ :=
    @deleteStep_spec job s row todo lookupUp false
  rw [heq]
  rcases hfleet with rfl | ⟨-, -, -, -, hfalse, -⟩
  · exact keepsShards_of_holds hk rfl haddrs fun _ _ h => h
  · simp at hfalse

/-- One operation of the pass keeps the shards exactly if it meets the condition. -/
theorem keepsShards_step_iff (hunique : start.db.shardKeys.Nodup)
    (hs : RebalanceConsistent P job start s) (hk : KeepsShards P start s) (e : RebalanceEvent) :
    (∀ t, rebalanceStep P job s e = some t → KeepsShards P start t) ↔
      KeepsCopies P job start s e := by
  cases e with
  | consider io =>
    refine ⟨fun _ => trivial, fun _ t h => ?_⟩
    simp only [rebalanceStep] at h
    split at h
    next row todo hphase =>
      cases Option.some.inj h
      exact keepsShards_consider hk row todo io
    next => simp at h
  | upload outcome =>
    refine ⟨fun _ => trivial, fun _ t h => ?_⟩
    simp only [rebalanceStep] at h
    split at h
    next row target data todo hphase =>
      cases Option.some.inj h
      exact keepsShards_upload hk row target data todo outcome
    next => simp at h
  | update succeeds =>
    cases hphase : s.phase with
    | update row target newShardHash todo =>
      cases succeeds with
      | true =>
        simp only [rebalanceStep, KeepsCopies, hphase, Option.some.injEq, forall_eq']
        exact keepsShards_update_iff hunique hs hk hphase
      | false =>
        simp only [rebalanceStep, KeepsCopies, hphase, Option.some.injEq, forall_eq', iff_true]
        exact keepsShards_of_holds hk rfl (fun _ => rfl) fun _ _ h => h
    | _ => cases succeeds <;> simp [rebalanceStep, KeepsCopies, hphase]
  | delete lookupUp arrives =>
    cases hphase : s.phase with
    | delete row todo =>
      cases arrives with
      | true =>
        simp only [rebalanceStep, KeepsCopies, hphase, Option.some.injEq, forall_eq']
        exact keepsShards_delete_iff hunique hs hk hphase lookupUp
      | false =>
        simp only [rebalanceStep, KeepsCopies, hphase, Option.some.injEq, forall_eq', iff_true]
        exact keepsShards_deleteLost hk row todo lookupUp
    | _ => cases arrives <;> simp [rebalanceStep, KeepsCopies, hphase]
  | finish succeeds =>
    refine ⟨fun _ => trivial, fun _ t h => ?_⟩
    simp only [rebalanceStep] at h
    split at h
    next hphase =>
      cases Option.some.inj h
      exact keepsShards_finish hk succeeds
    next => simp at h

end Step

section Passes

variable {P : Primitives} {job : RebalanceJob}

theorem start_db (registry : PeerRegistry) (db : Database) (fleet : Fleet) :
    (RebalanceState.start P job registry db fleet).db = db := by
  unfold RebalanceState.start
  split <;> rfl

theorem keepsShards_refl (start : RebalanceState) : KeepsShards P start start :=
  fun before hbefore hret => ⟨before, hbefore, rfl, rfl, hret⟩

/-- Kept rows are as many retrievable shards of every file. -/
theorem retrievableCount_le {start t : RebalanceState} (hunique : start.db.shardKeys.Nodup)
    (hk : KeepsShards P start t) (fileHash : String) :
    start.retrievableCount P fileHash ≤ t.retrievableCount P fileHash := by
  have hsub : (start.db.p2pShards.filter fun row =>
        row.fileHash = fileHash ∧ start.retrievable P row).map ShardRow.key ⊆
      (t.db.p2pShards.filter fun row =>
        row.fileHash = fileHash ∧ t.retrievable P row).map ShardRow.key := by
    intro key hmem
    obtain ⟨before, hbefore, rfl⟩ := List.mem_map.mp hmem
    obtain ⟨hin, hcond⟩ := List.mem_filter.mp hbefore
    obtain ⟨hfile, hret⟩ := of_decide_eq_true hcond
    obtain ⟨now, hnow, hkey, -, hheld⟩ := hk before hin hret
    refine List.mem_map.mpr ⟨now, List.mem_filter.mpr ⟨hnow, ?_⟩, hkey⟩
    exact decide_eq_true ⟨(congrArg Prod.fst hkey).trans hfile, hheld⟩
  have hle := (List.Nodup.subperm (hunique.sublist (List.filter_sublist.map _)) hsub).length_le
  simpa only [RebalanceState.retrievableCount, List.countP_eq_length_filter, List.length_map]
    using hle

/-- Along every pass over a file, whatever fails, the shards are kept exactly if every move
and every delete meets the condition; and then no file has fewer retrievable shards. -/
theorem rebalance_keeps_shards_iff {registry : PeerRegistry} {db : Database} {fleet : Fleet}
    (hunique : db.shardKeys.Nodup) (es : List RebalanceEvent) :
    (Runs.Throughout (rebalanceStep P job)
        (KeepsShards P (RebalanceState.start P job registry db fleet))
        (RebalanceState.start P job registry db fleet) es ↔
      Runs.Meets (rebalanceStep P job)
        (KeepsCopies P job (RebalanceState.start P job registry db fleet))
        (RebalanceState.start P job registry db fleet) es) ∧
    (Runs.Meets (rebalanceStep P job)
        (KeepsCopies P job (RebalanceState.start P job registry db fleet))
        (RebalanceState.start P job registry db fleet) es →
      ∀ t, Runs.exec (rebalanceStep P job) (RebalanceState.start P job registry db fleet) es = some t →
        ∀ fileHash, (RebalanceState.start P job registry db fleet).retrievableCount P fileHash ≤
          t.retrievableCount P fileHash) := by
  have hkeys : (RebalanceState.start P job registry db fleet).db.shardKeys.Nodup := by
    rw [start_db]
    exact hunique
  have hiff : Runs.Throughout (rebalanceStep P job)
        (KeepsShards P (RebalanceState.start P job registry db fleet))
        (RebalanceState.start P job registry db fleet) es ↔
      Runs.Meets (rebalanceStep P job)
        (KeepsCopies P job (RebalanceState.start P job registry db fleet))
        (RebalanceState.start P job registry db fleet) es :=
    Runs.throughout_iff_meets (fun s e t hs h => consistent_step hkeys hs h)
      (fun s e hs hk => keepsShards_step_iff hkeys hs hk e) (consistent_start registry db fleet)
      (keepsShards_refl _) es
  refine ⟨hiff, fun hmeets t ht fileHash => ?_⟩
  exact retrievableCount_le hkeys (Runs.throughout_last (hiff.mpr hmeets) ht) fileHash

end Passes

/-- One shard on the server at `old`, to be moved to the node `new`. -/
def movedRow : ShardRow :=
  { id := 1, fileHash := "file", shardIndex := 0, nodeId := "old"
    shardHash := toHex (referenceHash [7]), lastCheckedAt := none }

def moveJob (newAddr : SocketAddr) : RebalanceJob :=
  { fileHash := "file", activeNodes := [("new", newAddr)], apiSecret := "secret", now := 0 }

def moveRegistry (oldAddr newAddr : SocketAddr) : PeerRegistry :=
  { peers := [⟨"old", oldAddr, 0⟩, ⟨"new", newAddr, 0⟩], admission := .open, nodup := by simp }

def moveFleet (oldAddr newAddr : SocketAddr) : Fleet :=
  { shards := fun addr h => if addr = oldAddr ∧ h = referenceHash [7] then some [7] else none
    identityAt := fun addr => if addr = newAddr then some "new" else some "old" }

def moveDatabase (oldAddr newAddr : SocketAddr) : Database :=
  { images := [], videos := [], p2pShards := [movedRow], nextShardId := 2
    p2pNodes := [⟨"old", some oldAddr, 0, true⟩, ⟨"new", some newAddr, 0, true⟩] }

def moveRun : List RebalanceEvent :=
  [.consider ⟨true, none, true, ⟨true, true, true⟩⟩, .upload .acknowledged, .update true,
    .delete true true]

def moveStart (oldAddr newAddr : SocketAddr) : RebalanceState :=
  ⟨moveRegistry oldAddr newAddr, moveDatabase oldAddr newAddr, moveFleet oldAddr newAddr,
    [("new", newAddr)], .next [movedRow]⟩

theorem start_moveRun (oldAddr newAddr : SocketAddr) :
    RebalanceState.start referencePrimitives (moveJob newAddr) (moveRegistry oldAddr newAddr)
      (moveDatabase oldAddr newAddr) (moveFleet oldAddr newAddr) = moveStart oldAddr newAddr := by
  simp [RebalanceState.start, findFileInfo, moveJob, moveDatabase, moveStart, Database.shardsOf,
    movedRow, rendezvousSelect]

/-- The states of the run after the first one. -/
def moveAfter (oldAddr newAddr : SocketAddr) (db : Database) (fleet : Fleet)
    (phase : RebalancePhase) : RebalanceState :=
  { moveStart oldAddr newAddr with db, fleet, phase }

variable (oldAddr newAddr : SocketAddr)

theorem lookup_movedRow (db : Database) (now : Time) (dbUp : Bool) :
    lookupNodeAddr (moveRegistry oldAddr newAddr) db movedRow.nodeId now dbUp =
      (some oldAddr, moveRegistry oldAddr newAddr) := rfl

theorem nodeAddrOf_new (db : Database) :
    nodeAddrOf (moveRegistry oldAddr newAddr) db "new" = some newAddr := rfl

theorem reachable_old (shards : SocketAddr → Digest → Option Bytes) :
    Fleet.reachable { moveFleet oldAddr newAddr with shards } (moveRegistry oldAddr newAddr)
      oldAddr := by
  by_cases h : oldAddr = newAddr <;> simp [Fleet.reachable, moveRegistry, moveFleet, h]

theorem reachable_new : (moveFleet oldAddr newAddr).reachable (moveRegistry oldAddr newAddr)
    newAddr := by
  simp [Fleet.reachable, moveRegistry, moveFleet]

theorem migrationSource_moveStart :
    migrationSource referencePrimitives (moveJob newAddr) (moveStart oldAddr newAddr) movedRow
      ⟨true, none, true, ⟨true, true, true⟩⟩ = (.ok [7], moveRegistry oldAddr newAddr) := by
  have hreach := reachable_old oldAddr newAddr (moveFleet oldAddr newAddr).shards
  have hretrieve : (moveFleet oldAddr newAddr).retrieve referencePrimitives
      (moveRegistry oldAddr newAddr) oldAddr movedRow.shardHash ⟨true, true, true⟩ = .ok [7] := by
    unfold Fleet.retrieve
    rw [hreach]
    simp [retrieveShard, movedRow, moveFleet, referencePrimitives]
  simp only [migrationSource, if_true, moveStart, findFileInfo, moveDatabase, List.find?_nil,
    retrieveShardFromOldNode, lookup_movedRow, hretrieve]

theorem step_consider :
    rebalanceStep referencePrimitives (moveJob newAddr) (moveStart oldAddr newAddr)
      (.consider ⟨true, none, true, ⟨true, true, true⟩⟩) =
      some (moveAfter oldAddr newAddr (moveDatabase oldAddr newAddr) (moveFleet oldAddr newAddr)
        (.upload movedRow ("new", newAddr) [7] [])) := by
  have hconsider : rebalanceStep referencePrimitives (moveJob newAddr) (moveStart oldAddr newAddr)
      (.consider ⟨true, none, true, ⟨true, true, true⟩⟩) = some (considerShard referencePrimitives
        (moveJob newAddr) (moveStart oldAddr newAddr) movedRow []
        ⟨true, none, true, ⟨true, true, true⟩⟩) := rfl
  have hideal : (moveStart oldAddr newAddr).idealNodes[asUsize movedRow.shardIndex %
      (moveStart oldAddr newAddr).idealNodes.length]? = some ("new", newAddr) := by
    simp [moveStart, Nat.mod_one]
  have hhash : toHex (referencePrimitives.blake3 [7]) = movedRow.shardHash := rfl
  rw [hconsider]
  simp only [considerShard, hideal, migrationSource_moveStart, if_pos hhash]
  rw [if_neg (by decide)]
  rfl

theorem step_upload :
    rebalanceStep referencePrimitives (moveJob newAddr)
      (moveAfter oldAddr newAddr (moveDatabase oldAddr newAddr) (moveFleet oldAddr newAddr)
        (.upload movedRow ("new", newAddr) [7] [])) (.upload .acknowledged) =
      some (moveAfter oldAddr newAddr (moveDatabase oldAddr newAddr)
        ((moveFleet oldAddr newAddr).put newAddr (referenceHash [7]) [7])
        (.update movedRow ("new", newAddr) (toHex (referenceHash [7])) [])) := by
  have hreach := reachable_new oldAddr newAddr
  simp only [rebalanceStep, moveAfter, uploadStep, moveStart, uploadShardToNode]
  rw [if_neg (by simp [hreach, maxShardBytes])]
  rfl

def movedDatabase : Database :=
  { moveDatabase oldAddr newAddr with p2pShards := [{ movedRow with nodeId := "new" }] }

theorem step_update (fleet : Fleet) :
    rebalanceStep referencePrimitives (moveJob newAddr)
      (moveAfter oldAddr newAddr (moveDatabase oldAddr newAddr) fleet
        (.update movedRow ("new", newAddr) (toHex (referenceHash [7])) [])) (.update true) =
      some (moveAfter oldAddr newAddr (movedDatabase oldAddr newAddr) fleet (.delete movedRow [])) := rfl

theorem step_delete :
    rebalanceStep referencePrimitives (moveJob newAddr)
      (moveAfter oldAddr newAddr (movedDatabase oldAddr newAddr)
        ((moveFleet oldAddr newAddr).put newAddr (referenceHash [7]) [7])
        (.delete movedRow [])) (.delete true true) =
      some (moveAfter oldAddr newAddr (movedDatabase oldAddr newAddr)
        (((moveFleet oldAddr newAddr).put newAddr (referenceHash [7]) [7]).remove oldAddr
          (referenceHash [7])) (.next [])) := by
  have hreach := reachable_old oldAddr newAddr
    ((moveFleet oldAddr newAddr).put newAddr (referenceHash [7]) [7]).shards
  have hparse : parseShardHash movedRow.shardHash = some (referenceHash [7]) :=
    parseShardHash_toHex _
  simp only [rebalanceStep, moveAfter, moveStart, deleteStep, lookup_movedRow, hparse]
  rw [if_pos ⟨trivial, hreach⟩]

theorem exec_moveRun :
    Runs.exec (rebalanceStep referencePrimitives (moveJob newAddr)) (moveStart oldAddr newAddr)
      moveRun = some (moveAfter oldAddr newAddr (movedDatabase oldAddr newAddr)
        (((moveFleet oldAddr newAddr).put newAddr (referenceHash [7]) [7]).remove oldAddr
          (referenceHash [7])) (.next [])) := by
  simp only [moveRun, Runs.exec, step_consider, step_upload, step_update, step_delete,
    Option.bind_some]

def homeAddr : SocketAddr := ⟨.v4 192 168 1 7, 5050⟩

def guestAddr : SocketAddr := ⟨.v4 192 168 1 8, 5050⟩

/-- Between two servers the move is safe. -/
theorem rebalance_between_servers :
    Runs.Throughout (rebalanceStep referencePrimitives (moveJob guestAddr))
      (KeepsShards referencePrimitives (RebalanceState.start referencePrimitives
        (moveJob guestAddr) (moveRegistry homeAddr guestAddr) (moveDatabase homeAddr guestAddr)
        (moveFleet homeAddr guestAddr)))
      (RebalanceState.start referencePrimitives (moveJob guestAddr)
        (moveRegistry homeAddr guestAddr) (moveDatabase homeAddr guestAddr)
        (moveFleet homeAddr guestAddr)) moveRun := by
  refine (rebalance_keeps_shards_iff (by decide) moveRun).1.mpr ?_
  rw [start_moveRun]
  refine ⟨trivial, fun t ht => ?_⟩
  cases Option.some.inj ((step_consider homeAddr guestAddr).symm.trans ht)
  refine ⟨trivial, fun t ht => ?_⟩
  cases Option.some.inj ((step_upload homeAddr guestAddr).symm.trans ht)
  refine ⟨fun _ => ⟨guestAddr, rfl, Or.inl rfl⟩, fun t ht => ?_⟩
  cases Option.some.inj ((step_update homeAddr guestAddr _).symm.trans ht)
  refine ⟨?_, fun _ _ => trivial⟩
  intro addr haddr _ before _ _ _ now hnow _ hat
  have hold : addr = homeAddr := (Option.some.inj haddr).symm
  cases List.mem_singleton.mp hnow
  cases Option.some.inj (hat.symm.trans (nodeAddrOf_new homeAddr guestAddr _))
  exact absurd hold (by decide)

/-- When both node ids resolve to one server, the delete of the old copy removes the shard
that was just recorded. -/
theorem rebalance_between_aliases_loses_shard :
    ∃ t, Runs.exec (rebalanceStep referencePrimitives (moveJob homeAddr))
        (RebalanceState.start referencePrimitives (moveJob homeAddr)
          (moveRegistry homeAddr homeAddr) (moveDatabase homeAddr homeAddr)
          (moveFleet homeAddr homeAddr)) moveRun = some t ∧
      ¬KeepsShards referencePrimitives (RebalanceState.start referencePrimitives
        (moveJob homeAddr) (moveRegistry homeAddr homeAddr) (moveDatabase homeAddr homeAddr)
        (moveFleet homeAddr homeAddr)) t := by
  rw [start_moveRun]
  refine ⟨_, exec_moveRun homeAddr homeAddr, fun hk => ?_⟩
  have hret : (moveStart homeAddr homeAddr).retrievable referencePrimitives movedRow := by
    refine shardRetrievable_iff.mpr ⟨homeAddr, rfl, Fleet.holds_iff.mpr ⟨[7], ?_, rfl⟩⟩
    simp [moveStart, moveFleet, referencePrimitives]
  obtain ⟨now, hnow, -, -, hheld⟩ := hk movedRow (List.mem_singleton_self _) hret
  cases List.mem_singleton.mp hnow
  obtain ⟨addr, haddr, hheld⟩ := shardRetrievable_iff.mp hheld
  cases Option.some.inj (haddr.symm.trans (nodeAddrOf_new homeAddr homeAddr _))
  exact (Fleet.holds_remove.mp hheld).2 ⟨rfl, rfl⟩

end Reminisce

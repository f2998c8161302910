import Reminisce.Rebalance

namespace Reminisce

def RebalanceState.retrievable (P : Primitives) (s : RebalanceState) (row : ShardRow) : Bool :=
  shardRetrievable P s.registry s.db s.fleet row

def RebalanceState.retrievableCount (P : Primitives) (s : RebalanceState) (fileHash : String) : Nat :=
  s.db.p2pShards.countP fun row => row.fileHash = fileHash ∧ s.retrievable P row

def ShardRow.key (row : ShardRow) : String × Int := (row.fileHash, row.shardIndex)

/-- Every row whose node held its shard at the start still names a node that holds it. -/
def KeepsShards (P : Primitives) (start s : RebalanceState) : Prop :=
  ∀ before ∈ start.db.p2pShards, start.retrievable P before →
    ∃ now ∈ s.db.p2pShards, now.key = before.key ∧ now.shardHash = before.shardHash ∧
      s.retrievable P now

/-- The row is moved to a node id that resolves to the address of the upload, or to a server
that has the shard; and no row needs the copy that is deleted. -/
def KeepsCopies (P : Primitives) (job : RebalanceJob) (start s : RebalanceState) :
    RebalanceEvent → Prop
  | .update true =>
    match s.phase with
    | .update row target _ _ => start.retrievable P row →
      ∃ addr, nodeAddrOf s.registry s.db target.1 = some addr ∧
        (addr = target.2 ∨ s.fleet.holds P addr row.shardHash)
    | _ => True
  | .delete lookupUp true =>
    match s.phase with
    | .delete row _ => ∀ addr,
      (lookupNodeAddr s.registry s.db row.nodeId job.now lookupUp).1 = some addr →
      s.fleet.reachable (lookupNodeAddr s.registry s.db row.nodeId job.now lookupUp).2 addr →
      ∀ before ∈ start.db.p2pShards, start.retrievable P before →
        before.shardHash = row.shardHash → ∀ now ∈ s.db.p2pShards, now.key = before.key →
          nodeAddrOf s.registry s.db now.nodeId ≠ some addr
    | _ => True
  | _ => True

/-- What the phases promise: the rows come from the first query, and the shard to be recorded
is where it was uploaded. -/
def PhaseConsistent (P : Primitives) (job : RebalanceJob) (start s : RebalanceState) : Prop :=
  let loaded := fun row => row ∈ start.db.p2pShards ∧ row.fileHash = job.fileHash
  match s.phase with
  | .next todo => ∀ row ∈ todo, loaded row
  | .upload row _ data todo => loaded row ∧ (∀ row ∈ todo, loaded row) ∧
      toHex (P.blake3 data) = row.shardHash
  | .update row target newShardHash todo => loaded row ∧ (∀ row ∈ todo, loaded row) ∧
      newShardHash = row.shardHash ∧ (∃ h, toHex h = row.shardHash) ∧
      s.fleet.holds P target.2 row.shardHash
  | .delete row todo => loaded row ∧ (∀ row ∈ todo, loaded row) ∧ ∃ h, toHex h = row.shardHash
  | .stopped => True

/-- What every operation keeps, whatever it meets. -/
structure RebalanceConsistent (P : Primitives) (job : RebalanceJob) (start s : RebalanceState) :
    Prop where
  recorded : s.db.p2pShards.map (fun row => (row.key, row.shardHash)) =
    start.db.p2pShards.map fun row => (row.key, row.shardHash)
  addresses : ∀ nodeId, nodeAddrOf s.registry s.db nodeId =
    nodeAddrOf start.registry start.db nodeId
  phase : PhaseConsistent P job start s

variable {P : Primitives} {job : RebalanceJob} {start s t : RebalanceState}

/-- A row of a later state has the key and hash of a row of the first one. -/
theorem RebalanceConsistent.origin (hs : RebalanceConsistent P job start s) {now : ShardRow}
    (h : now ∈ s.db.p2pShards) :
    ∃ before ∈ start.db.p2pShards, before.key = now.key ∧ before.shardHash = now.shardHash := by
  have hmem : (now.key, now.shardHash) ∈
      s.db.p2pShards.map fun row => (row.key, row.shardHash) := List.mem_map.mpr ⟨now, h, rfl⟩
  rw [hs.recorded] at hmem
  obtain ⟨before, hbefore, heq⟩ := List.mem_map.mp hmem
  exact ⟨before, hbefore, congrArg Prod.fst heq, congrArg Prod.snd heq⟩

theorem RebalanceConsistent.keys (hs : RebalanceConsistent P job start s) :
    s.db.shardKeys = start.db.shardKeys := by
  have h := congrArg (List.map Prod.fst) hs.recorded
  simpa [Database.shardKeys, ShardRow.key, List.map_map, Function.comp_def] using h

theorem eq_of_key {db : Database} (hunique : db.shardKeys.Nodup) {a b : ShardRow}
    (ha : a ∈ db.p2pShards) (hb : b ∈ db.p2pShards) (hkey : a.key = b.key) : a = b :=
  List.inj_on_of_nodup_map hunique ha hb hkey

theorem retrieveShardFromOldNode_addrs (row : ShardRow) (io : SourceIo) (nodeId : NodeId) :
    nodeAddrOf (retrieveShardFromOldNode P job s row io).2 s.db nodeId =
      nodeAddrOf s.registry s.db nodeId := by
  have hlookup := nodeAddrOf_lookup s.registry s.db row.nodeId nodeId job.now io.lookupUp
  unfold retrieveShardFromOldNode
  split
  next registry heq =>
    rw [heq] at hlookup
    exact hlookup
  next addr registry heq =>
    rw [heq] at hlookup
    split <;> exact hlookup

theorem migrationSource_addrs (row : ShardRow) (io : SourceIo) (nodeId : NodeId) :
    nodeAddrOf (migrationSource P job s row io).2 s.db nodeId =
      nodeAddrOf s.registry s.db nodeId := by
  unfold migrationSource
  split
  next =>
    split
    next => rfl
    next =>
      split
      next => rfl
      next => rfl
      next => exact retrieveShardFromOldNode_addrs row io nodeId
    next => exact retrieveShardFromOldNode_addrs row io nodeId
  next => rfl

/-- The head of the loop changes the registry at most, and goes on to an upload only with
bytes of the recorded hash. -/
theorem considerShard_spec (row : ShardRow) (todo : List ShardRow) (io : SourceIo) :
    ∃ registry phase, considerShard P job s row todo io = { s with registry, phase } ∧
      (∀ nodeId, nodeAddrOf registry s.db nodeId = nodeAddrOf s.registry s.db nodeId) ∧
      (phase = .stopped ∨ phase = .next todo ∨ ∃ target data,
        phase = .upload row target data todo ∧ toHex (P.blake3 data) = row.shardHash) := by
  have haddrs := @migrationSource_addrs P job s row io
  unfold considerShard
  split
  next => exact ⟨_, _, rfl, fun _ => rfl, Or.inl rfl⟩
  next target htarget =>
    split
    next => exact ⟨_, _, rfl, fun _ => rfl, Or.inr (Or.inl rfl)⟩
    next =>
      split
      next registry heq =>
        rw [heq] at haddrs
        exact ⟨_, _, rfl, haddrs, Or.inl rfl⟩
      next registry heq =>
        rw [heq] at haddrs
        exact ⟨_, _, rfl, haddrs, Or.inr (Or.inl rfl)⟩
      next data registry heq =>
        rw [heq] at haddrs
        split
        next hhash =>
          exact ⟨_, _, rfl, haddrs, Or.inr (Or.inr ⟨target, data, rfl, hhash⟩)⟩
        next => exact ⟨_, _, rfl, haddrs, Or.inr (Or.inl rfl)⟩

/-- The delete of the old copy: the registry may learn an address, and one server may lose
the shard. -/
theorem deleteStep_spec (row : ShardRow) (todo : List ShardRow) (lookupUp arrives : Bool) :
    ∃ registry fleet, deleteStep job s row todo lookupUp arrives =
        { s with registry, fleet, phase := .next todo } ∧
      (∀ nodeId, nodeAddrOf registry s.db nodeId = nodeAddrOf s.registry s.db nodeId) ∧
      (fleet = s.fleet ∨ ∃ addr shardHash, fleet = s.fleet.remove addr shardHash ∧
        parseShardHash row.shardHash = some shardHash ∧ arrives ∧
        (lookupNodeAddr s.registry s.db row.nodeId job.now lookupUp).1 = some addr ∧
        s.fleet.reachable (lookupNodeAddr s.registry s.db row.nodeId job.now lookupUp).2 addr) := by
  have hlookup := fun nodeId =>
    nodeAddrOf_lookup s.registry s.db row.nodeId nodeId job.now lookupUp
  unfold deleteStep
  split
  next registry heq =>
    rw [heq] at hlookup
    exact ⟨_, _, rfl, hlookup, Or.inl rfl⟩
  next addr registry heq =>
    rw [heq] at hlookup
    split
    next => exact ⟨_, _, rfl, hlookup, Or.inl rfl⟩
    next shardHash hparse =>
      split
      next hgone =>
        exact ⟨_, _, rfl, hlookup,
          Or.inr ⟨addr, shardHash, rfl, hparse, hgone.1, by rw [heq], by rw [heq]; exact hgone.2⟩⟩
      next => exact ⟨_, _, rfl, hlookup, Or.inl rfl⟩

theorem deleteStep_removes {row : ShardRow} {todo : List ShardRow} {lookupUp : Bool}
    {addr : SocketAddr} {shardHash : Digest} (hparse : parseShardHash row.shardHash = some shardHash)
    (haddr : (lookupNodeAddr s.registry s.db row.nodeId job.now lookupUp).1 = some addr)
    (hreach : s.fleet.reachable
      (lookupNodeAddr s.registry s.db row.nodeId job.now lookupUp).2 addr) :
    (deleteStep job s row todo lookupUp true).fleet = s.fleet.remove addr shardHash := by
  unfold deleteStep
  split
  next registry heq => simp [heq] at haddr
  next found registry heq =>
    rw [heq] at haddr hreach
    cases Option.some.inj haddr
    simp only [hparse]
    rw [if_pos ⟨trivial, hreach⟩]

/-- What a step does to the database: it moves one row of the file, or stamps them all. -/
theorem rebalanceStep_db {event : RebalanceEvent} (h : rebalanceStep P job s event = some t) :
    t.db = s.db ∨
      (∃ shardIndex nodeId shardHash, event = .update true ∧
        t.db = s.db.moveShard job.fileHash shardIndex nodeId shardHash) ∨
      event = .finish true ∧ t.db = s.db.touchShards job.fileHash job.now := by
  unfold rebalanceStep at h
  split at h
  next io =>
    split at h
    next row todo _ =>
      cases Option.some.inj h
      have hspec := @considerShard_spec P job s row todo io
      obtain ⟨_, _, heq, _⟩ := hspec
      rw [heq]
      exact Or.inl rfl
    next => simp at h
  next outcome =>
    split at h
    next =>
      cases Option.some.inj h
      unfold uploadStep
      split <;> exact Or.inl rfl
    next => simp at h
  next succeeds =>
    split at h
    next =>
      cases Option.some.inj h
      cases succeeds with
      | true => exact Or.inr (Or.inl ⟨_, _, _, rfl, rfl⟩)
      | false => exact Or.inl rfl
    next => simp at h
  next lookupUp arrives =>
    split at h
    next row todo _ =>
      cases Option.some.inj h
      have hspec := @deleteStep_spec job s row todo lookupUp arrives
      obtain ⟨_, _, heq, _⟩ := hspec
      rw [heq]
      exact Or.inl rfl
    next => simp at h
  next succeeds =>
    split at h
    next =>
      cases Option.some.inj h
      cases succeeds with
      | true => exact Or.inr (Or.inr ⟨rfl, rfl⟩)
      | false => exact Or.inl rfl
    next => simp at h

theorem recorded_map {rows : List ShardRow} {change : ShardRow → ShardRow}
    (h : ∀ row ∈ rows, (change row).key = row.key ∧ (change row).shardHash = row.shardHash) :
    (rows.map change).map (fun row => (row.key, row.shardHash)) =
      rows.map fun row => (row.key, row.shardHash) := by
  rw [List.map_map]
  refine List.map_congr_left fun row hrow => ?_
  simp only [Function.comp_apply, (h row hrow).1, (h row hrow).2]

theorem consistent_start (registry : PeerRegistry) (db : Database) (fleet : Fleet) :
    RebalanceConsistent P job (RebalanceState.start P job registry db fleet)
      (RebalanceState.start P job registry db fleet) := by
  refine ⟨rfl, fun _ => rfl, ?_⟩
  unfold RebalanceState.start PhaseConsistent
  split
  next => trivial
  next => exact fun row hrow => Database.mem_shardsOf.mp hrow

theorem consistent_consider (hs : RebalanceConsistent P job start s) {row : ShardRow}
    {todo : List ShardRow} (hphase : s.phase = .next (row :: todo)) (io : SourceIo) :
    RebalanceConsistent P job start (considerShard P job s row todo io) := by
  obtain ⟨registry, phase, heq, haddrs, hcases⟩ :=
    @considerShard_spec P job s row todo io
  have hloaded := hs.phase
  simp only [PhaseConsistent, hphase, List.forall_mem_cons] at hloaded
  rw [heq]
  refine ⟨hs.recorded, fun nodeId => (haddrs nodeId).trans (hs.addresses nodeId), ?_⟩
  rcases hcases with rfl | rfl | ⟨target, data, rfl, hhash⟩
  · trivial
  · exact hloaded.2
  · exact ⟨hloaded.1, hloaded.2, hhash⟩

theorem consistent_upload (hs : RebalanceConsistent P job start s) {row : ShardRow}
    {target : NodeId × SocketAddr} {data : Bytes} {todo : List ShardRow}
    (hphase : s.phase = .upload row target data todo) (outcome : UploadOutcome) :
    RebalanceConsistent P job start (uploadStep P s row target data todo outcome) := by
  have hloaded := hs.phase
  simp only [PhaseConsistent, hphase] at hloaded
  unfold uploadStep
  split
  next fleet newShardHash hup =>
    obtain ⟨hhash, hheld⟩ := (uploadShardToNode_spec hup).2 newShardHash rfl
    have hsame : newShardHash = row.shardHash := hhash.trans hloaded.2.2
    rw [hsame] at hheld
    exact ⟨hs.recorded, hs.addresses, hloaded.1, hloaded.2.1, hsame, ⟨_, hloaded.2.2⟩, hheld⟩
  next => exact ⟨hs.recorded, hs.addresses, hloaded.2.1⟩

theorem consistent_update (hunique : start.db.shardKeys.Nodup)
    (hs : RebalanceConsistent P job start s) {row : ShardRow} {target : NodeId × SocketAddr}
    {newShardHash : List Char} {todo : List ShardRow}
    (hphase : s.phase = .update row target newShardHash todo) (succeeds : Bool) :
    RebalanceConsistent P job start (updateStep job s row target newShardHash todo succeeds) := by
  have hloaded := hs.phase
  simp only [PhaseConsistent, hphase] at hloaded
  obtain ⟨hrow, htodo, rfl, hhex, -⟩ := hloaded
  unfold updateStep
  split
  next =>
    refine ⟨?_, hs.addresses, hrow, htodo, hhex⟩
    refine (recorded_map fun now hnow => ?_).trans hs.recorded
    split
    next hkey =>
      obtain ⟨before, hbefore, hsame, hhash⟩ := hs.origin hnow
      have hbrow : before = row := by
        refine eq_of_key hunique hbefore hrow.1 (hsame.trans ?_)
        rw [ShardRow.key, ShardRow.key, hkey.1, hkey.2, hrow.2]
      rw [← hhash, hbrow]
      exact ⟨rfl, rfl⟩
    next => exact ⟨rfl, rfl⟩
  next => exact ⟨hs.recorded, hs.addresses, trivial⟩

theorem consistent_delete (hs : RebalanceConsistent P job start s) {row : ShardRow}
    {todo : List ShardRow} (hphase : s.phase = .delete row todo) (lookupUp arrives : Bool) :
    RebalanceConsistent P job start (deleteStep job s row todo lookupUp arrives) := by
  obtain ⟨registry, fleet, heq, haddrs, -⟩ :=
    @deleteStep_spec job s row todo lookupUp arrives
  have hloaded := hs.phase
  simp only [PhaseConsistent, hphase] at hloaded
  rw [heq]
  exact ⟨hs.recorded, fun nodeId => (haddrs nodeId).trans (hs.addresses nodeId), hloaded.2.1⟩

theorem consistent_finish (hs : RebalanceConsistent P job start s) (succeeds : Bool) :
    RebalanceConsistent P job start
      { s with
        db := if succeeds then s.db.touchShards job.fileHash job.now else s.db
        phase := .stopped } := by
  cases succeeds with
  | false => exact ⟨hs.recorded, hs.addresses, trivial⟩
  | true =>
    refine ⟨?_, hs.addresses, trivial⟩
    refine (recorded_map fun row hrow => ?_).trans hs.recorded
    split <;> exact ⟨rfl, rfl⟩

theorem consistent_step (hunique : start.db.shardKeys.Nodup)
    (hs : RebalanceConsistent P job start s) {e : RebalanceEvent}
    (h : rebalanceStep P job s e = some t) : RebalanceConsistent P job start t := by
  cases e with
  | consider io =>
    simp only [rebalanceStep] at h
    split at h
    next row todo hphase =>
      cases Option.some.inj h
      exact consistent_consider hs hphase io
    next => simp at h
  | upload outcome =>
    simp only [rebalanceStep] at h
    split at h
    next row target data todo hphase =>
      cases Option.some.inj h
      exact consistent_upload hs hphase outcome
    next => simp at h
  | update succeeds =>
    simp only [rebalanceStep] at h
    split at h
    next row target newShardHash todo hphase =>
      cases Option.some.inj h
      exact consistent_update hunique hs hphase succeeds
    next => simp at h
  | delete lookupUp arrives =>
    simp only [rebalanceStep] at h
    split at h
    next row todo hphase =>
      cases Option.some.inj h
      exact consistent_delete hs hphase lookupUp arrives
    next => simp at h
  | finish succeeds =>
    simp only [rebalanceStep] at h
    split at h
    next hphase =>
      cases Option.some.inj h
      exact consistent_finish hs succeeds
    next => simp at h

end Reminisce

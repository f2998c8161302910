import Reminisce.Rebalance

namespace Reminisce

/-- The rows of one audit pass are looked at within a time that counts as one instant. -/
structure AuditJob where
  apiSecret : String
  now : Time

/-- What the environment answers during `repair_file`. -/
structure RepairIo where
  nodesUp : Bool
  lookupUp : NodeId → Bool
  recordsUp : Bool
  localFile : Option Bytes
  fetch : NodeId → RetrieveFaults
  upload : UploadOutcome
  writeUp : Bool

/-- What the environment answers while one row is audited. -/
structure AuditIo where
  lookupUp : Bool
  faults : RetrieveFaults
  listed : Bool
  updateUp : Bool
  repair : RepairIo

/-- One audited row: whether its node held the recorded shard, and what the audit decided.
Every row that is not healthy is handed to `repair_file`. -/
structure Verdict where
  row : ShardRow
  held : Bool
  healthy : Bool

/-- The pass goes over the due rows in `todo`; without any it is a consistency check. -/
structure AuditState where
  registry : PeerRegistry
  db : Database
  fleet : Fleet
  consistencyCheck : Bool
  todo : List ShardRow
  verdicts : List Verdict

inductive AuditEvent
  | audit (io : AuditIo)
  | repairMissing (fileHash : String) (shardIndex : Nat) (io : RepairIo)

/-- `UPDATE p2p_shards SET last_checked_at = NOW() WHERE id = $1`. -/
def Database.touchShard (db : Database) (id : Nat) (now : Time) : Database :=
  { db with p2pShards := db.p2pShards.map fun row =>
      if row.id = id then { row with lastCheckedAt := some now } else row }

/-- `UPDATE p2p_shards SET node_id, shard_hash, last_checked_at WHERE file_hash AND
shard_index`. -/
def Database.replaceShard (db : Database) (fileHash : String) (shardIndex : Int)
    (nodeId : NodeId) (shardHash : List Char) (now : Time) : Database :=
  { db with p2pShards := db.p2pShards.map fun row =>
      if row.fileHash = fileHash ∧ row.shardIndex = shardIndex then
        { row with nodeId, shardHash, lastCheckedAt := some now }
      else row }

/-- The rows that were never checked, or not within the last seven days. -/
def Database.dueShards (db : Database) (now : Time) : List ShardRow :=
  db.p2pShards.filter fun row =>
    match row.lastCheckedAt with
    | none => true
    | some checked => checked + secs (7 * 24 * 3600) < now

/-- The query asks for no order: the database gives the due rows in any. -/
def DueOrder (db : Database) (now : Time) : Type :=
  { order : List ShardRow // order.Perm (db.dueShards now) }

/-- `LIMIT 50`. -/
def auditBatch (order : List ShardRow) : List ShardRow := order.take 50

def AuditState.start (job : AuditJob) (registry : PeerRegistry) (db : Database) (fleet : Fleet)
    (order : DueOrder db job.now) : AuditState :=
  { registry, db, fleet, consistencyCheck := (auditBatch order.1).isEmpty
    todo := auditBatch order.1, verdicts := [] }

/-- `list_remote_shards` for the first two digits of the recorded hash: the node lists file
names, whatever the files hold. -/
def listedRemotely (s : AuditState) (addr : SocketAddr) (shardHash : List Char) : Bool :=
  match parseShardHash shardHash with
  | none => false
  | some h => s.fleet.reachable s.registry addr && (s.fleet.shards addr h).isSome &&
      decide ((toHex h).take 2 = shardHash.take 2)

/-- The decision of `perform_audit` for one row: the retrieved bytes, or, after an error, the
inventory of the node. -/
def shardHealthy (P : Primitives) (s : AuditState) (addr : SocketAddr) (row : ShardRow)
    (io : AuditIo) : Bool :=
  match s.fleet.retrieve P s.registry addr row.shardHash io.faults with
  | .ok data => toHex (P.blake3 data) = row.shardHash
  | .error _ =>
    decide (2 ≤ row.shardHash.length) && io.listed && listedRemotely s addr row.shardHash

/-- The addresses of the active nodes of the database, looked up one after the other. -/
def lookupAll (db : Database) (now : Time) (dbUp : NodeId → Bool) :
    PeerRegistry → List NodeId → List (NodeId × SocketAddr) × PeerRegistry
  | registry, [] => ([], registry)
  | registry, nodeId :: rest =>
    match lookupNodeAddr registry db nodeId now (dbUp nodeId) with
    | (some addr, registry) =>
      let (nodes, registry) := lookupAll db now dbUp registry rest
      ((nodeId, addr) :: nodes, registry)
    | (none, registry) => lookupAll db now dbUp registry rest

/-- The candidates for a repair: the registry, or the database when it is empty. -/
def repairNodes (s : AuditState) (now : Time) (io : RepairIo) :
    List (NodeId × SocketAddr) × PeerRegistry :=
  if s.registry.peers = [] then
    if io.nodesUp then
      lookupAll s.db now io.lookupUp s.registry
        ((s.db.p2pNodes.filter (·.isActive)).map (·.nodeId))
    else ([], s.registry)
  else (s.registry.peers.map fun p => (p.nodeId, p.addr), s.registry)

/-- The shard of a segmented file, made anew from the local file. -/
def reshardSegmented (P : Primitives) (fileHash : String) (apiSecret : String) (row : MediaRow)
    (shardIndex : Nat) (localFile : Option Bytes) : Option Bytes := do
  let key ← (decryptKey P (← row.p2pEncryptionKey) apiSecret).toOption
  let file ← localFile
  let (shards, _) ← (segmentedShards P segmentThreshold file key
    (asUsize (row.p2pDataShards.getD 3)) (asUsize (row.p2pParityShards.getD 2))).toOption
  let shard ← shards[shardIndex]?
  if shard ≠ [] ∧ toHex (P.blake3 file) = fileHash.toList then some shard else none

/-- The first other active node that delivers the recorded shard. -/
def findOnOtherNodes (P : Primitives) (s : AuditState) (activeNodes : List (NodeId × SocketAddr))
    (target : NodeId × SocketAddr) (expectedShardHash : List Char) (io : RepairIo) : Option Bytes :=
  activeNodes.findSome? fun (nodeId, addr) =>
    if nodeId = target.1 then none
    else
      match s.fleet.retrieve P s.registry addr expectedShardHash (io.fetch nodeId) with
      | .ok data => if toHex (P.blake3 data) = expectedShardHash then some data else none
      | .error _ => none

/-- The bytes that `repair_file` uploads, and whether its row is inserted when it is missing. -/
def repairSource (P : Primitives) (job : AuditJob) (s : AuditState) (fileHash : String)
    (shardIndex : Nat) (activeNodes : List (NodeId × SocketAddr)) (target : NodeId × SocketAddr)
    (io : RepairIo) : Option (Bytes × Bool) :=
  if io.recordsUp then
    match (s.db.images ++ s.db.videos).find? fun row =>
      row.hash = fileHash ∧ 1 < row.p2pSegmentCount with
    | some row =>
      (reshardSegmented P fileHash job.apiSecret row shardIndex io.localFile).map (·, true)
    | none =>
      match findFileInfo P s.db fileHash job.apiSecret with
      | .error _ => none
      | .ok (some ⟨_, some key, _, dataShards, parityShards⟩) =>
        (reshardFromLocal P fileHash key shardIndex dataShards parityShards
          io.localFile).toOption.map (·, true)
      | .ok _ =>
        match s.db.p2pShards.find? fun row =>
          row.fileHash = fileHash ∧ row.shardIndex = asI32 shardIndex with
        | none => none
        | some row => (findOnOtherNodes P s activeNodes target row.shardHash io).map (·, false)
  else none

/-- The upload and the row of a repair. -/
def recordRepair (P : Primitives) (job : AuditJob) (s : AuditState) (fileHash : String)
    (shardIndex : Nat) (target : NodeId × SocketAddr) (data : Bytes) (inserts : Bool)
    (io : RepairIo) : AuditState :=
  match uploadShardToNode P s.fleet s.registry target.2 data io.upload with
  | (fleet, none) => { s with fleet }
  | (fleet, some newShardHash) =>
    if io.writeUp then
      { s with
        fleet
        db := if inserts then
            s.db.upsertShard fileHash (asI32 shardIndex) target.1 newShardHash (some job.now)
          else s.db.replaceShard fileHash (asI32 shardIndex) target.1 newShardHash job.now }
    else { s with fleet }

def repairFile (P : Primitives) (job : AuditJob) (s : AuditState) (fileHash : String)
    (shardIndex : Nat) (io : RepairIo) : AuditState :=
  let (activeNodes, registry) := repairNodes s job.now io
  let s := { s with registry }
  let idealNodes := rendezvousSelect P fileHash activeNodes (min 5 activeNodes.length)
  match idealNodes[shardIndex % idealNodes.length]? with
  | none => s
  | some target =>
    match repairSource P job s fileHash shardIndex activeNodes target io with
    | none => s
    | some (data, inserts) => recordRepair P job s fileHash shardIndex target data inserts io

/-- The loop body of `perform_audit`; a node without a known address is skipped. -/
def auditRow (P : Primitives) (job : AuditJob) (s : AuditState) (row : ShardRow) (io : AuditIo) :
    AuditState :=
  match lookupNodeAddr s.registry s.db row.nodeId job.now io.lookupUp with
  | (none, registry) => { s with registry }
  | (some addr, registry) =>
    let s := { s with registry }
    let healthy := shardHealthy P s addr row io
    let s := { s with
      verdicts := s.verdicts ++ [⟨row, s.fleet.holds P addr row.shardHash, healthy⟩] }
    if healthy then
      if io.updateUp then { s with db := s.db.touchShard row.id job.now } else s
    else repairFile P job s row.fileHash (asUsize row.shardIndex) io.repair

/-- The next row of the batch, or one of the repairs of the consistency check. -/
def auditStep (P : Primitives) (job : AuditJob) (s : AuditState) : AuditEvent → Option AuditState
  | .audit io =>
    match s.todo with
    | row :: todo => some (auditRow P job { s with todo } row io)
    | [] => none
  | .repairMissing fileHash shardIndex io =>
    if s.consistencyCheck ∧ s.todo = [] ∧ shardIndex < 5 then
      some (repairFile P job s fileHash shardIndex io)
    else none

/-- The constraints of `p2p_shards`: its primary key and sequence, its unique key, and the
range of an INTEGER column. -/
structure Database.Valid (db : Database) : Prop where
  ids : (db.p2pShards.map (·.id)).Nodup
  fresh : ∀ row ∈ db.p2pShards, row.id < db.nextShardId
  keys : db.shardKeys.Nodup
  indices : ∀ row ∈ db.p2pShards, -2 ^ 31 ≤ row.shardIndex ∧ row.shardIndex < 2 ^ 31

/-- Updates that keep ids and keys keep the constraints. -/
theorem Database.Valid.map {db : Database} (h : db.Valid) {change : ShardRow → ShardRow}
    (hid : ∀ row, (change row).id = row.id)
    (hfile : ∀ row, (change row).fileHash = row.fileHash)
    (hindex : ∀ row, (change row).shardIndex = row.shardIndex) :
    Database.Valid { db with p2pShards := db.p2pShards.map change } := by
  refine ⟨?_, ?_, ?_, ?_⟩
  · simpa only [List.map_map, Function.comp_def, hid] using h.ids
  · simp only [List.forall_mem_map, hid]
    exact h.fresh
  · have hkeys := h.keys
    unfold shardKeys at hkeys ⊢
    simpa only [List.map_map, Function.comp_def, hfile, hindex] using hkeys
  · simp only [List.forall_mem_map, hindex]
    exact h.indices

theorem Database.Valid.touchShard {db : Database} (h : db.Valid) (id : Nat) (now : Time) :
    (db.touchShard id now).Valid := by
  refine h.map (fun row => ?_) (fun row => ?_) (fun row => ?_) <;> split <;> rfl

theorem Database.Valid.replaceShard {db : Database} (h : db.Valid) (fileHash : String)
    (shardIndex : Int) (nodeId : NodeId) (shardHash : List Char) (now : Time) :
    (db.replaceShard fileHash shardIndex nodeId shardHash now).Valid := by
  refine h.map (fun row => ?_) (fun row => ?_) (fun row => ?_) <;> split <;> rfl

theorem asI32_range (n : Nat) : -2 ^ 31 ≤ asI32 n ∧ asI32 n < 2 ^ 31 := by
  unfold asI32
  rw [Int.bmod_def]
  split <;> omega

/-- A shard index survives the casts `as usize` and `as i32`. -/
theorem asI32_asUsize {x : Int} (hlow : -2 ^ 31 ≤ x) (hhigh : x < 2 ^ 31) :
    asI32 (asUsize x) = x := by
  unfold asI32 asUsize
  rw [Int.bmod_def]
  split <;> omega

theorem Database.Valid.upsertShard {db : Database} (h : db.Valid) (fileHash : String)
    (shardIndex : Nat) (nodeId : NodeId) (shardHash : List Char) (checked : Option Time) :
    (db.upsertShard fileHash (asI32 shardIndex) nodeId shardHash checked).Valid := by
  have hkeys := upsertShard_nodup h.keys fileHash (asI32 shardIndex) nodeId shardHash checked
  unfold Database.upsertShard at hkeys ⊢
  split
  next =>
    refine h.map (fun row => ?_) (fun row => ?_) (fun row => ?_) <;> split <;> rfl
  next hnone =>
    rw [if_neg hnone] at hkeys
    refine ⟨?_, ?_, hkeys, ?_⟩
    · refine Keyed.nodup_append h.ids fun row hrow => ?_
      have hfresh := h.fresh row hrow
      exact hfresh.ne
    · simp only [List.forall_mem_append, List.forall_mem_singleton]
      exact ⟨fun row hrow => Nat.lt_succ_of_lt (h.fresh row hrow), Nat.lt_succ_self _⟩
    · simp only [List.forall_mem_append, List.forall_mem_singleton]
      exact ⟨h.indices, asI32_range shardIndex⟩

variable {P : Primitives} {job : AuditJob} {s : AuditState}

theorem lookupAll_spec (db : Database) (now : Time) (dbUp : NodeId → Bool)
    (registry : PeerRegistry) (nodeIds : List NodeId) :
    (∀ nodeId, nodeAddrOf (lookupAll db now dbUp registry nodeIds).2 db nodeId =
      nodeAddrOf registry db nodeId) ∧
    ∀ node ∈ (lookupAll db now dbUp registry nodeIds).1,
      nodeAddrOf registry db node.1 = some node.2 := by
  induction nodeIds generalizing registry with
  | nil => exact ⟨fun _ => rfl, by simp [lookupAll]⟩
  | cons first rest ih =>
    have hsame := fun other => nodeAddrOf_lookup registry db first other now (dbUp first)
    unfold lookupAll
    split
    next addr learned heq =>
      rw [heq] at hsame
      obtain ⟨haddrs, hnodes⟩ := ih learned
      refine ⟨fun nodeId => (haddrs nodeId).trans (hsame nodeId), ?_⟩
      simp only [List.forall_mem_cons]
      refine ⟨lookupNodeAddr_fst (by rw [heq]), fun node hnode => ?_⟩
      rw [← hsame node.1]
      exact hnodes node hnode
    next learned heq =>
      rw [heq] at hsame
      obtain ⟨haddrs, hnodes⟩ := ih learned
      refine ⟨fun nodeId => (haddrs nodeId).trans (hsame nodeId), fun node hnode => ?_⟩
      rw [← hsame node.1]
      exact hnodes node hnode

/-- The candidates of a repair are dialed at the address their node id resolves to. -/
theorem repairNodes_spec (now : Time) (io : RepairIo) :
    (∀ nodeId, nodeAddrOf (repairNodes s now io).2 s.db nodeId =
      nodeAddrOf s.registry s.db nodeId) ∧
    ∀ node ∈ (repairNodes s now io).1, nodeAddrOf s.registry s.db node.1 = some node.2 := by
  unfold repairNodes
  split
  next =>
    split
    next => exact lookupAll_spec s.db now io.lookupUp s.registry _
    next => exact ⟨fun _ => rfl, by simp⟩
  next =>
    refine ⟨fun _ => rfl, fun node hnode => ?_⟩
    obtain ⟨peer, hpeer, rfl⟩ := List.mem_map.mp hnode
    simp only [nodeAddrOf, PeerRegistry.get_of_mem hpeer]

/-- What `repair_file` may do: learn addresses, store a shard, and record it for the node
that it was uploaded to. -/
structure RepairEffect (P : Primitives) (job : AuditJob) (fileHash : String) (shardIndex : Nat)
    (s t : AuditState) : Prop where
  todo : t.todo = s.todo
  verdicts : t.verdicts = s.verdicts
  addresses : ∀ nodeId, nodeAddrOf t.registry t.db nodeId = nodeAddrOf s.registry s.db nodeId
  holds : ∀ addr shardHash, s.fleet.holds P addr shardHash → t.fleet.holds P addr shardHash
  rows : t.db = s.db ∨ ∃ nodeId addr newShardHash,
    nodeAddrOf s.registry s.db nodeId = some addr ∧ t.fleet.holds P addr newShardHash ∧
    (t.db = s.db.upsertShard fileHash (asI32 shardIndex) nodeId newShardHash (some job.now) ∨
      t.db = s.db.replaceShard fileHash (asI32 shardIndex) nodeId newShardHash job.now)

theorem repairEffect_registry {fileHash : String} {shardIndex : Nat} {registry : PeerRegistry}
    (h : ∀ nodeId, nodeAddrOf registry s.db nodeId = nodeAddrOf s.registry s.db nodeId) :
    RepairEffect P job fileHash shardIndex s { s with registry } :=
  ⟨rfl, rfl, h, fun _ _ hheld => hheld, Or.inl rfl⟩

theorem nodeAddrOf_upsertShard (registry : PeerRegistry) (db : Database) (fileHash : String)
    (shardIndex : Int) (nodeId other : NodeId) (shardHash : List Char) (checked : Option Time) :
    nodeAddrOf registry (db.upsertShard fileHash shardIndex nodeId shardHash checked) other =
      nodeAddrOf registry db other := by
  have hnodes : (db.upsertShard fileHash shardIndex nodeId shardHash checked).p2pNodes =
      db.p2pNodes := by
    unfold Database.upsertShard
    split <;> rfl
  simp only [nodeAddrOf, Database.nodeAddr, hnodes]

theorem recordRepair_effect {fileHash : String} {shardIndex : Nat} {target : NodeId × SocketAddr}
    {registry : PeerRegistry} (data : Bytes) (inserts : Bool) (io : RepairIo)
    (haddrs : ∀ nodeId, nodeAddrOf registry s.db nodeId = nodeAddrOf s.registry s.db nodeId)
    (htarget : nodeAddrOf s.registry s.db target.1 = some target.2) :
    RepairEffect P job fileHash shardIndex s
      (recordRepair P job { s with registry } fileHash shardIndex target data inserts io) := by
  unfold recordRepair
  split
  next fleet hup =>
    exact ⟨rfl, rfl, haddrs, (uploadShardToNode_spec hup).1, Or.inl rfl⟩
  next fleet newShardHash hup =>
    obtain ⟨hkept, hnew⟩ := uploadShardToNode_spec hup
    split
    next =>
      cases inserts with
      | true =>
        refine ⟨rfl, rfl, fun nodeId => ?_, hkept,
          Or.inr ⟨target.1, target.2, newShardHash, htarget, (hnew _ rfl).2, Or.inl rfl⟩⟩
        exact (nodeAddrOf_upsertShard _ _ _ _ _ _ _ _).trans (haddrs nodeId)
      | false =>
        exact ⟨rfl, rfl, haddrs, hkept,
          Or.inr ⟨target.1, target.2, newShardHash, htarget, (hnew _ rfl).2, Or.inr rfl⟩⟩
    next => exact ⟨rfl, rfl, haddrs, hkept, Or.inl rfl⟩

theorem repairFile_effect (fileHash : String) (shardIndex : Nat) (io : RepairIo) :
    RepairEffect P job fileHash shardIndex s (repairFile P job s fileHash shardIndex io) := by
  obtain ⟨haddrs, hnodes⟩ := repairNodes_spec (s := s) job.now io
  unfold repairFile
  simp only
  split
  next => exact repairEffect_registry haddrs
  next target hideal =>
    split
    next => exact repairEffect_registry haddrs
    next data inserts hsource =>
      have hmem := rendezvousSelect_subset (List.mem_of_getElem? hideal)
      exact recordRepair_effect data inserts io haddrs (hnodes target hmem)

end Reminisce

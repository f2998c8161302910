import Reminisce.BackupWorkers
import Reminisce.Placement
import Reminisce.RebalanceInvariant
import Reminisce.RepairSources

namespace Reminisce

open Ranking

/-- The nodes of the recorded shards of a file. -/
def recordedNodes (db : Database) (fileHash : String) : List NodeId :=
  (db.shardsOf fileHash).map (·.nodeId)

/-- The nodes of the recorded shards beside the one with the index. -/
def survivorNodes (db : Database) (fileHash : String) (shardIndex : Int) : List NodeId :=
  ((db.shardsOf fileHash).filter fun row => row.shardIndex ≠ shardIndex).map (·.nodeId)

/-- How many of the recorded shards are on nodes that are not lost. -/
def recordsLeft (nodes lost : List NodeId) : Nat := nodes.countP fun node => !lost.contains node

/-- The loss of so many nodes leaves the shards that are needed. -/
def Survives (left : List NodeId → Nat) (needed losses : Nat) : Prop :=
  ∀ lost : List NodeId, lost.length ≤ losses → needed ≤ left lost

def PeerRegistry.nodes (registry : PeerRegistry) : List (NodeId × SocketAddr) :=
  registry.peers.map fun p => (p.nodeId, p.addr)

/-- `repair_file` ends with `Ok`. -/
def repairSucceeds (P : Primitives) (job : AuditJob) (s : AuditState) (fileHash : String)
    (shardIndex : Nat) (io : RepairIo) : Bool :=
  match planRepair P job s fileHash shardIndex io with
  | (_, none) => false
  | (s, some repair) =>
    (uploadShardToNode P s.fleet s.registry repair.target.2 repair.data io.upload).2.isSome &&
      io.writeUp

/-- What a repair is to leave: one node for every recorded shard, and no fewer losses that the
file survives, as far as a new upload would survive them. -/
structure RepairKeepsPlaces (P : Primitives) (fileHash : String) (s t : AuditState) : Prop where
  distinct : (recordedNodes t.db fileHash).Nodup
  survives : ∀ needed losses, Survives (recordsLeft (recordedNodes s.db fileHash)) needed losses →
    Survives (shardsLeft P fileHash s.registry.nodes) needed losses →
      Survives (recordsLeft (recordedNodes t.db fileHash)) needed losses

variable {P : Primitives} {job : AuditJob} {s : AuditState} {db : Database} {fileHash : String}
  {shardIndex : Nat} {io : RepairIo} {target : NodeId × SocketAddr}

theorem shardsOf_perm (db : Database) (fileHash : String) :
    (db.shardsOf fileHash).Perm (db.p2pShards.filter (·.fileHash = fileHash)) :=
  List.mergeSort_perm _ _

/-- The survivors are the rows of the file with another key. -/
theorem survivorNodes_perm (db : Database) (fileHash : String) (shardIndex : Int) :
    (survivorNodes db fileHash shardIndex).Perm
      (((db.p2pShards.filter fun row => row.key ≠ (fileHash, shardIndex)).filter
        (·.fileHash = fileHash)).map (·.nodeId)) := by
  refine (((shardsOf_perm db fileHash).filter _).trans (List.Perm.of_eq ?_)).map _
  rw [List.filter_filter, List.filter_filter]
  refine List.filter_congr fun row _ => ?_
  by_cases hfile : row.fileHash = fileHash <;> simp [ShardRow.key, hfile]

/-- Before the repair, the recorded nodes are those of the survivors and of the failed shard. -/
theorem recordedNodes_perm (hunique : db.shardKeys.Nodup) (fileHash : String) (shardIndex : Int) :
    (recordedNodes db fileHash).Perm (survivorNodes db fileHash shardIndex) ∨
      ∃ failed, (recordedNodes db fileHash).Perm
        (failed :: survivorNodes db fileHash shardIndex) := by
  have hsurvivors := survivorNodes_perm db fileHash shardIndex
  have hrecorded : (recordedNodes db fileHash).Perm
      ((db.p2pShards.filter (·.fileHash = fileHash)).map (·.nodeId)) :=
    (shardsOf_perm db fileHash).map _
  by_cases hmem : ∃ row ∈ db.p2pShards, row.key = (fileHash, shardIndex)
  · obtain ⟨row, hrow, hkey⟩ := hmem
    have hsplit := Keyed.perm_filter hunique hrow
    rw [show (row.fileHash, row.shardIndex) = (fileHash, shardIndex) from hkey] at hsplit
    have hfile : row.fileHash = fileHash := congrArg Prod.fst hkey
    have hnodes := (hsplit.filter (·.fileHash = fileHash)).map (·.nodeId)
    rw [List.filter_cons_of_pos (by simpa using hfile), List.map_cons] at hnodes
    exact Or.inr ⟨row.nodeId, (hrecorded.trans hnodes).trans (hsurvivors.symm.cons _)⟩
  · have hall : (db.p2pShards.filter fun row => row.key ≠ (fileHash, shardIndex)) =
        db.p2pShards := by
      refine List.filter_eq_self.mpr fun row hrow => ?_
      simpa using fun hkey => hmem ⟨row, hrow, hkey⟩
    rw [hall] at hsurvivors
    exact Or.inl (hrecorded.trans hsurvivors.symm)

/-- A write to the row of a shard leaves the nodes of the others. -/
theorem recordedNodes_mapRow (hunique : db.shardKeys.Nodup) {row : ShardRow}
    (hrow : row ∈ db.p2pShards) (change : ShardRow → ShardRow)
    (hfile : (change row).fileHash = row.fileHash) :
    (recordedNodes { db with p2pShards := db.p2pShards.map fun r =>
        if r.fileHash = row.fileHash ∧ r.shardIndex = row.shardIndex then change r else r }
      row.fileHash).Perm
        ((change row).nodeId :: survivorNodes db row.fileHash row.shardIndex) := by
  have hmap : (db.p2pShards.map fun r =>
      if r.fileHash = row.fileHash ∧ r.shardIndex = row.shardIndex then change r else r) =
        db.p2pShards.map fun r => if r.key = row.key then change r else r := by
    refine List.map_congr_left fun r _ => if_congr ?_ rfl rfl
    simp [ShardRow.key]
  have hsplit := Keyed.map_perm hunique hrow change
  have hnodes := (hsplit.filter (·.fileHash = row.fileHash)).map (·.nodeId)
  rw [List.filter_cons_of_pos (by simpa using hfile), List.map_cons] at hnodes
  rw [hmap]
  refine (((shardsOf_perm _ _).map _).trans hnodes).trans ?_
  exact (survivorNodes_perm db row.fileHash row.shardIndex).symm.cons _

theorem recordedNodes_replaceShard (hunique : db.shardKeys.Nodup) {i : Int} {nodeId : NodeId}
    {shardHash : List Char} {now : Time} {row : ShardRow} (hrow : row ∈ db.p2pShards)
    (hkey : row.fileHash = fileHash ∧ row.shardIndex = i) :
    (recordedNodes (db.replaceShard fileHash i nodeId shardHash now) fileHash).Perm
      (nodeId :: survivorNodes db fileHash i) := by
  obtain ⟨rfl, rfl⟩ := hkey
  exact recordedNodes_mapRow hunique hrow
    (fun r => { r with nodeId, shardHash, lastCheckedAt := some now }) rfl

theorem recordedNodes_upsertShard (hunique : db.shardKeys.Nodup) (fileHash : String) (i : Int)
    (nodeId : NodeId) (shardHash : List Char) (checked : Option Time) :
    (recordedNodes (db.upsertShard fileHash i nodeId shardHash checked) fileHash).Perm
      (nodeId :: survivorNodes db fileHash i) := by
  unfold Database.upsertShard
  split
  next hany =>
    obtain ⟨row, hrow, hkey⟩ := List.any_eq_true.mp hany
    obtain ⟨rfl, rfl⟩ : row.fileHash = fileHash ∧ row.shardIndex = i := by simpa using hkey
    exact recordedNodes_mapRow hunique hrow
      (fun r => { r with nodeId, shardHash, lastCheckedAt := checked <|> r.lastCheckedAt }) rfl
  next hnone =>
    have hall : (db.p2pShards.filter fun row => row.key ≠ (fileHash, i)) = db.p2pShards := by
      refine List.filter_eq_self.mpr fun row hrow => ?_
      have hkey : row.key ≠ (fileHash, i) := fun hkey =>
        hnone (List.any_eq_true.mpr ⟨row, hrow, by simpa [ShardRow.key] using hkey⟩)
      simpa using hkey
    have hsurvivors := survivorNodes_perm db fileHash i
    rw [hall] at hsurvivors
    refine ((shardsOf_perm _ _).map _).trans ?_
    rw [List.filter_append, List.map_append]
    refine (List.perm_append_comm.trans ?_)
    simpa using hsurvivors.symm.cons nodeId

theorem repairNodes_registry (hn : s.registry.peers ≠ []) (now : Time) (io : RepairIo) :
    repairNodes s now io = (s.registry.nodes, s.registry) := by
  unfold repairNodes
  rw [if_neg hn]
  rfl

/-- A repair that succeeds puts the shard on the node that its index is assigned to. -/
theorem repairSucceeds_recorded (hn : s.registry.peers ≠ []) (hunique : s.db.shardKeys.Nodup)
    (h : repairSucceeds P job s fileHash shardIndex io = true) :
    ∃ target, assignedNode P fileHash s.registry.nodes shardIndex = some target ∧
      (recordedNodes (repairFile P job s fileHash shardIndex io).db fileHash).Perm
        (target.1 :: survivorNodes s.db fileHash (asI32 shardIndex)) := by
  unfold repairSucceeds planRepair at h
  unfold repairFile
  rw [repairNodes_registry hn] at h ⊢
  simp only [idealNode_eq] at h ⊢
  split at h
  next => cases h
  next planned repair hplan =>
    cases htarget : assignedNode P fileHash s.registry.nodes shardIndex with
    | none =>
      rw [htarget] at hplan
      cases hplan
    | some target =>
      rw [htarget] at hplan
      refine ⟨target, rfl, ?_⟩
      simp only at hplan ⊢
      cases hsource : repairSource P job { s with registry := s.registry } fileHash shardIndex
          s.registry.nodes target io with
      | none =>
        rw [hsource] at hplan
        cases hplan
      | some found =>
        obtain ⟨data, inserts⟩ := found
        rw [hsource] at hplan
        cases hplan
        obtain ⟨hacked, hwrite⟩ := Bool.and_eq_true_iff.mp h
        obtain ⟨newShardHash, hhash⟩ := Option.isSome_iff_exists.mp hacked
        simp only [recordRepair]
        generalize uploadShardToNode P s.fleet s.registry target.2 data io.upload = uploaded at hhash
        obtain ⟨fleet, answer⟩ := uploaded
        cases hhash
        simp only [hwrite, if_true]
        cases inserts with
        | true => exact recordedNodes_upsertShard hunique _ _ _ _ _
        | false =>
          obtain ⟨row, hrow, hfile, hindex, -⟩ := repairSource_copied hsource
          exact recordedNodes_replaceShard hunique hrow ⟨hfile, hindex⟩

theorem repairSucceeds_of {data : Bytes} {inserts : Bool} (hn : s.registry.peers ≠ [])
    (htarget : assignedNode P fileHash s.registry.nodes shardIndex = some target)
    (hsource : repairSource P job s fileHash shardIndex s.registry.nodes target io =
      some (data, inserts))
    (hacked : (uploadShardToNode P s.fleet s.registry target.2 data io.upload).2.isSome = true)
    (hwrite : io.writeUp = true) : repairSucceeds P job s fileHash shardIndex io = true := by
  unfold repairSucceeds planRepair
  rw [repairNodes_registry hn]
  simp only [idealNode_eq, htarget, hsource]
  exact Bool.and_eq_true_iff.mpr ⟨hacked, hwrite⟩

/-- A loss with the new node of the shard costs no more than the same loss with the failed one. -/
theorem recordsLeft_replaced {survivors : List NodeId} {node : NodeId} (hnew : node ∉ survivors)
    (failed : NodeId) (lost : List NodeId) : ∃ other : List NodeId, other.length ≤ lost.length ∧
      recordsLeft (failed :: survivors) other ≤ recordsLeft (node :: survivors) lost := by
  by_cases hlost : node ∈ lost
  · refine ⟨failed :: lost.erase node, ?_, ?_⟩
    · have hpos := List.length_pos_of_mem hlost
      rw [List.length_cons, List.length_erase_of_mem hlost]
      omega
    · unfold recordsLeft
      rw [List.countP_cons_of_neg (by simp), List.countP_cons_of_neg (by simpa using hlost)]
      refine List.countP_mono_left fun r hr hleft => ?_
      have hne : r ≠ node := fun heq => hnew (heq ▸ hr)
      simp only [List.contains_eq_mem, Bool.not_eq_true', decide_eq_false_iff_not, List.mem_cons,
        not_or] at hleft ⊢
      exact fun hr => hleft.2 ((List.mem_erase_of_ne hne).mpr hr)
  · refine ⟨lost, le_rfl, ?_⟩
    unfold recordsLeft
    rw [List.countP_cons, List.countP_cons_of_pos (by simpa using hlost)]
    split <;> omega

theorem Survives.replaced {recorded survivors : List NodeId} {node : NodeId}
    {needed losses : Nat} (hnew : node ∉ survivors)
    (hbefore : recorded.Perm survivors ∨ ∃ failed, recorded.Perm (failed :: survivors))
    (h : Survives (recordsLeft recorded) needed losses) :
    Survives (recordsLeft (node :: survivors)) needed losses := by
  intro lost hlost
  rcases hbefore with hbefore | ⟨failed, hbefore⟩
  · have hleft := h lost hlost
    unfold recordsLeft at hleft ⊢
    rw [hbefore.countP_eq] at hleft
    rw [List.countP_cons]
    omega
  · obtain ⟨other, hlength, hless⟩ := recordsLeft_replaced hnew failed lost
    have hleft := h other (hlength.trans hlost)
    unfold recordsLeft at hleft
    rw [hbefore.countP_eq] at hleft
    exact hleft.trans hless

/-- A repair keeps the recorded shards apart, and the losses that the file survives, if and only
if no survivor is on the node that the present registry assigns to the failed shard. -/
theorem repairKeepsPlaces_iff (P : Primitives) (job : AuditJob) (s : AuditState) (fileHash : String)
    (shardIndex : Nat) (io : RepairIo) (hn : 5 ≤ s.registry.peers.length)
    (hunique : s.db.shardKeys.Nodup)
    (hsurvivors : (survivorNodes s.db fileHash (asI32 shardIndex)).Nodup)
    (hok : repairSucceeds P job s fileHash shardIndex io = true) :
    RepairKeepsPlaces P fileHash s (repairFile P job s fileHash shardIndex io) ↔
      ∀ node ∈ survivorNodes s.db fileHash (asI32 shardIndex),
        (assignedNode P fileHash s.registry.nodes shardIndex).map Prod.fst ≠ some node := by
  have hpeers : s.registry.peers ≠ [] := List.ne_nil_of_length_pos (by omega)
  obtain ⟨target, htarget, hafter⟩ := repairSucceeds_recorded hpeers hunique hok
  have hfree : (∀ node ∈ survivorNodes s.db fileHash (asI32 shardIndex),
      (assignedNode P fileHash s.registry.nodes shardIndex).map Prod.fst ≠ some node) ↔
        target.1 ∉ survivorNodes s.db fileHash (asI32 shardIndex) := by
    rw [htarget]
    constructor
    · exact fun h hmem => h target.1 hmem rfl
    · exact fun h node hmem heq => h (Option.some.inj heq ▸ hmem)
  rw [hfree]
  constructor
  · exact fun h => (List.nodup_cons.mp (hafter.nodup_iff.mp h.distinct)).1
  · intro hnew
    refine ⟨hafter.nodup_iff.mpr (List.nodup_cons.mpr ⟨hnew, hsurvivors⟩), ?_⟩
    intro needed losses hbefore _ lost hlost
    have hleft := hbefore.replaced hnew (recordedNodes_perm hunique fileHash _) lost hlost
    unfold recordsLeft at hleft ⊢
    rwa [hafter.countP_eq]

/-- A file without a key whose shards were uploaded over the nodes `a` to `e`. -/
def letterDatabase (shard : Bytes) : Database :=
  { images := [{ sampleRow with hash := hexId '0' }], videos := [], nextShardId := 5
    p2pNodes := ['a', 'b', 'c', 'd', 'e'].map fun letter =>
      ⟨hexId letter, some (letterNode letter).2, 0, true⟩
    p2pShards := [(0, 'e', [0]), (1, 'd', shard), (2, 'c', [2]), (3, 'b', [3]), (4, 'a', [4])].map
      fun (i, letter, bytes) =>
        ⟨i, hexId '0', i, hexId letter, toHex (lastByteHash bytes), none⟩ }

/-- The state before the repair of such a file; every node can deliver the shard. -/
def letterAudit (letters : List Char) (hn : (letters.map hexId).Nodup) (shard : Bytes) :
    AuditState :=
  { registry := ⟨letters.map fun letter => ⟨(letterNode letter).1, (letterNode letter).2, 0⟩, .open,
      by simpa [letterNode, Function.comp_def] using hn⟩
    db := letterDatabase shard
    fleet := ⟨fun _ path => if path = lastByteHash shard then some shard else none,
      fun addr => some (hexId (Char.ofNat addr.port.toNat))⟩
    consistencyCheck := false, todo := [], verdicts := [] }

def letterIo : RepairIo :=
  { nodesUp := true, lookupUp := fun _ => true, recordsUp := true, localFile := none
    fetch := fun _ => ⟨true, true, true⟩, upload := .acknowledged, writeUp := true }

theorem letterAudit_nodes (letters : List Char) (hn : (letters.map hexId).Nodup) (shard : Bytes) :
    (letterAudit letters hn shard).registry.nodes = letters.map letterNode := by
  simp [letterAudit, PeerRegistry.nodes]

theorem letterAudit_reachable {letters : List Char} (hn : (letters.map hexId).Nodup) (shard : Bytes)
    {letter : Char} (hmem : letter ∈ letters)
    (hcode : letter.toNat < 65536) :
    (letterAudit letters hn shard).fleet.reachable (letterAudit letters hn shard).registry
      (letterNode letter).2 = true := by
  refine List.any_eq_true.mpr ⟨⟨(letterNode letter).1, (letterNode letter).2, 0⟩,
    List.mem_map.mpr ⟨letter, hmem, rfl⟩, ?_⟩
  have hletter : Char.ofNat (letter.toNat % 65536) = letter := by
    rw [Nat.mod_eq_of_lt hcode, Char.ofNat_toNat]
  simp [letterAudit, letterNode, hletter]

/-- The repair copies the shard from a node that is not its target. -/
theorem letterAudit_source {letter : Char} {letters : List Char}
    (hn : ((letter :: letters).map hexId).Nodup) (shard : Bytes)
    (hcode : letter.toNat < 65536) {target : NodeId × SocketAddr}
    (hother : hexId letter ≠ target.1) :
    repairSource letterPrimitives ⟨"secret", 0⟩ (letterAudit (letter :: letters) hn shard) (hexId '0')
      1 ((letter :: letters).map letterNode) target letterIo = some (shard, false) := by
  have hinfo : findFileInfo letterPrimitives (letterAudit (letter :: letters) hn shard).db (hexId '0')
      "secret" = .ok (some ⟨"jpg", none, none, 3, 2⟩) := by
    have hk : asUsize 3 = 3 := asUsize_natCast (n := 3) (by decide)
    have hm : asUsize 2 = 2 := asUsize_natCast (n := 2) (by decide)
    simp only [findFileInfo, letterAudit, letterDatabase, List.find?_cons_of_pos, decide_true,
      fileInfoOf, sampleRow, Option.getD_none, hk, hm]
    rfl
  have hrow : (letterAudit (letter :: letters) hn shard).db.p2pShards.find? (fun row =>
      row.fileHash = hexId '0' ∧ row.shardIndex = asI32 1) =
        some ⟨1, hexId '0', 1, hexId 'd', toHex (lastByteHash shard), none⟩ := by
    have hone : asI32 1 = 1 := asI32_of_lt (by decide)
    simp [letterAudit, letterDatabase, hone]
  have hhash : letterPrimitives.blake3 shard = lastByteHash shard := rfl
  have hreach := letterAudit_reachable hn shard List.mem_cons_self hcode
  have hget : (letterAudit (letter :: letters) hn shard).fleet.retrieve letterPrimitives
      (letterAudit (letter :: letters) hn shard).registry (letterNode letter).2
        (toHex (lastByteHash shard)) (letterIo.fetch (letterNode letter).1) = .ok shard := by
    have hheld : (letterAudit (letter :: letters) hn shard).fleet.shards (letterNode letter).2
        (lastByteHash shard) = some shard := if_pos rfl
    simp only [Fleet.retrieve, retrieveShard, parseShardHash_toHex, hreach, letterIo, hheld, hhash,
      Bool.and_self, if_true]
  have hfound : findOnOtherNodes letterPrimitives (letterAudit (letter :: letters) hn shard)
      ((letter :: letters).map letterNode) target (toHex (lastByteHash shard)) letterIo =
        some shard := by
    have hfirst : (letterNode letter).1 ≠ target.1 := hother
    unfold findOnOtherNodes
    rw [List.map_cons, List.findSome?_cons]
    simp only [if_neg hfirst, hget, hhash, if_true]
  have hsegmented : ((letterAudit (letter :: letters) hn shard).db.images ++
      (letterAudit (letter :: letters) hn shard).db.videos).find? (fun row =>
        row.hash = hexId '0' ∧ 1 < row.p2pSegmentCount) = none := rfl
  have hup : letterIo.recordsUp = true := rfl
  unfold repairSource
  rw [if_pos hup, hsegmented]
  simp only [hinfo, hrow, hfound, Option.map_some]

theorem letterAudit_succeeds {letter : Char} {letters : List Char} (target : Char)
    (hn : ((letter :: letters).map hexId).Nodup) (shard : Bytes)
    (hcode : ∀ l ∈ letter :: letters, l.toNat < 65536)
    (hmem : target ∈ letter :: letters) (hother : hexId letter ≠ hexId target)
    (hsize : shard.length ≤ maxShardBytes)
    (htarget : assignedNode letterPrimitives (hexId '0') ((letter :: letters).map letterNode) 1 =
      some (letterNode target)) :
    repairSucceeds letterPrimitives ⟨"secret", 0⟩ (letterAudit (letter :: letters) hn shard) (hexId '0')
      1 letterIo = true := by
  have hdistinct : hexId letter ≠ (letterNode target).1 := hother
  have hsource := letterAudit_source hn shard (hcode letter List.mem_cons_self) hdistinct
  rw [← letterAudit_nodes (letter :: letters) hn shard] at htarget hsource
  refine repairSucceeds_of ?_ htarget hsource ?_ rfl
  · simp [letterAudit]
  · have hreach := letterAudit_reachable hn shard hmem (hcode target hmem)
    unfold uploadShardToNode
    rw [if_neg (by simp [letterIo, hreach, hsize])]
    rfl

/-- The survivors of the shard with index one. -/
theorem letterAudit_survivors {letters : List Char} (hn : (letters.map hexId).Nodup)
    (shard : Bytes) : (survivorNodes (letterAudit letters hn shard).db (hexId '0') (asI32 1)).Perm
      (['e', 'c', 'b', 'a'].map hexId) := by
  refine (survivorNodes_perm _ _ _).trans (List.Perm.of_eq ?_)
  have hone : asI32 1 = 1 := asI32_of_lt (by decide)
  rw [hone]
  rfl

theorem assignedNode_letters {letters : List Char} (idx : Nat)
    (hd : Decreasing (nodeScore letterPrimitives (hexId '0')) (letters.reverse.map letterNode)) :
    assignedNode letterPrimitives (hexId '0') (letters.map letterNode) idx =
      (letters.reverse.map letterNode)[idx % min 5 letters.length]? := by
  rw [assignedNode_eq, ranked_eq ((List.reverse_perm letters).map letterNode) hd, List.length_map]

theorem fiveLetters_nodup : (['a', 'b', 'c', 'd', 'e'].map hexId).Nodup := by decide +kernel

theorem sixLetters_nodup : (['a', 'b', 'c', 'd', 'e', 'f'].map hexId).Nodup := by decide +kernel

/-- Over the nodes of the upload the failed shard goes back to its node. -/
theorem repairKeepsPlaces_example :
    RepairKeepsPlaces letterPrimitives (hexId '0')
      (letterAudit ['a', 'b', 'c', 'd', 'e'] fiveLetters_nodup [7])
      (repairFile letterPrimitives ⟨"secret", 0⟩
        (letterAudit ['a', 'b', 'c', 'd', 'e'] fiveLetters_nodup [7]) (hexId '0') 1 letterIo) := by
  have hassigned : assignedNode letterPrimitives (hexId '0')
      (['a', 'b', 'c', 'd', 'e'].map letterNode) 1 = some (letterNode 'd') :=
    assignedNode_letters 1 (by decide +kernel)
  have hok := letterAudit_succeeds 'd' fiveLetters_nodup [7] (by simp) (by decide)
    (by decide +kernel) (by decide) hassigned
  have hsurvivors := letterAudit_survivors fiveLetters_nodup [7]
  refine (repairKeepsPlaces_iff letterPrimitives ⟨"secret", 0⟩ _ (hexId '0') 1 letterIo (by decide)
    (by decide +kernel) (hsurvivors.nodup_iff.mpr (by decide +kernel)) hok).mpr ?_
  intro node hnode heq
  rw [letterAudit_nodes, hassigned] at heq
  obtain rfl : hexId 'd' = node := Option.some.inj heq
  exact absurd (hsurvivors.mem_iff.mp hnode) (by decide +kernel)

/-- Since the upload `f` has come with the highest score, so that the node of the first shard is now
the one for the second: it gets both. -/
theorem repair_doubles_node :
    (∀ letter ∈ ['a', 'b', 'c', 'd', 'e', 'f'],
      (letterAudit ['a', 'b', 'c', 'd', 'e', 'f'] sixLetters_nodup [7]).fleet.reachable
        (letterAudit ['a', 'b', 'c', 'd', 'e', 'f'] sixLetters_nodup [7]).registry
          (letterNode letter).2 = true) ∧
      (survivorNodes (letterDatabase [7]) (hexId '0') (asI32 1)).Nodup ∧
      hexId 'd' ∉ survivorNodes (letterDatabase [7]) (hexId '0') (asI32 1) ∧
      repairSucceeds letterPrimitives ⟨"secret", 0⟩
        (letterAudit ['a', 'b', 'c', 'd', 'e', 'f'] sixLetters_nodup [7]) (hexId '0') 1 letterIo =
          true ∧
      ¬(recordedNodes (repairFile letterPrimitives ⟨"secret", 0⟩
        (letterAudit ['a', 'b', 'c', 'd', 'e', 'f'] sixLetters_nodup [7]) (hexId '0') 1 letterIo).db
          (hexId '0')).Nodup := by
  have hassigned : assignedNode letterPrimitives (hexId '0')
      (['a', 'b', 'c', 'd', 'e', 'f'].map letterNode) 1 = some (letterNode 'e') :=
    assignedNode_letters 1 (by decide +kernel)
  have hok := letterAudit_succeeds 'e' sixLetters_nodup [7] (by simp) (by decide)
    (by decide +kernel) (by decide) hassigned
  have hsurvivors := letterAudit_survivors sixLetters_nodup [7]
  refine ⟨fun letter hletter => ?_, hsurvivors.nodup_iff.mpr (by decide +kernel), ?_, hok, ?_⟩
  · have hcodes : ∀ l ∈ ['a', 'b', 'c', 'd', 'e', 'f'], l.toNat < 65536 := by simp
    exact letterAudit_reachable sixLetters_nodup [7] hletter (hcodes letter hletter)
  · exact fun hmem => absurd (hsurvivors.mem_iff.mp hmem) (by decide +kernel)
  · obtain ⟨target, htarget, hafter⟩ := repairSucceeds_recorded (by decide) (by decide +kernel) hok
    rw [letterAudit_nodes, hassigned] at htarget
    cases Option.some.inj htarget
    refine fun hnodup => (List.nodup_cons.mp (hafter.nodup_iff.mp hnodup)).1 ?_
    exact hsurvivors.mem_iff.mpr (List.mem_map_of_mem List.mem_cons_self)

end Reminisce

import Reminisce.AuditSoundness
import Reminisce.ReferencePrimitives

namespace Reminisce

variable {P : Primitives} {job : AuditJob} {start s t : AuditState}

theorem Database.mem_upsertShard_of_ne {db : Database} {fileHash : String} {shardIndex : Int}
    {nodeId : NodeId} {shardHash : List Char} {checked : Option Time} {row : ShardRow}
    (h : row ∈ db.p2pShards) (hne : ¬(row.fileHash = fileHash ∧ row.shardIndex = shardIndex)) :
    row ∈ (db.upsertShard fileHash shardIndex nodeId shardHash checked).p2pShards := by
  unfold Database.upsertShard
  split
  next => exact List.mem_map.mpr ⟨row, h, if_neg hne⟩
  next => exact List.mem_append_left _ h

namespace RepairEffect

variable {fileHash : String} {shardIndex : Nat}

theorem valid (h : RepairEffect P job fileHash shardIndex s t) (hv : s.db.Valid) : t.db.Valid := by
  rcases h.rows with heq | ⟨nodeId, addr, newShardHash, -, -, heq | heq⟩
  · rw [heq]
    exact hv
  · rw [heq]
    exact hv.upsertShard _ _ _ _ _
  · rw [heq]
    exact hv.replaceShard _ _ _ _ _

theorem keeps (h : RepairEffect P job fileHash shardIndex s t) {row : ShardRow}
    (hrow : row ∈ s.db.p2pShards)
    (hne : ¬(row.fileHash = fileHash ∧ row.shardIndex = asI32 shardIndex)) :
    row ∈ t.db.p2pShards := by
  rcases h.rows with heq | ⟨nodeId, addr, newShardHash, -, -, heq | heq⟩
  · rw [heq]
    exact hrow
  · rw [heq]
    exact Database.mem_upsertShard_of_ne hrow hne
  · rw [heq]
    exact List.mem_map.mpr ⟨row, hrow, if_neg hne⟩

theorem keeps_retrievable (h : RepairEffect P job fileHash shardIndex s t) {row : ShardRow}
    (hret : s.retrievable P row) : t.retrievable P row := by
  obtain ⟨addr, haddr, hheld⟩ := shardRetrievable_iff.mp hret
  exact shardRetrievable_iff.mpr ⟨addr, (h.addresses _).trans haddr, h.holds _ _ hheld⟩

/-- A row after a repair is an old one, or names the node the shard was uploaded to. -/
theorem row_cases (h : RepairEffect P job fileHash shardIndex s t) {row : ShardRow}
    (hrow : row ∈ t.db.p2pShards) : row ∈ s.db.p2pShards ∨ t.retrievable P row := by
  rcases h.rows with heq | ⟨nodeId, addr, newShardHash, haddr, hheld, heq⟩
  · exact Or.inl (heq ▸ hrow)
  · have hnew : row.nodeId = nodeId → row.shardHash = newShardHash → t.retrievable P row := by
      intro hnode hhash
      refine shardRetrievable_iff.mpr ⟨addr, ?_, hhash ▸ hheld⟩
      rw [h.addresses, hnode, haddr]
    rcases heq with heq | heq
    · rw [heq] at hrow
      rcases Database.mem_upsertShard hrow with ⟨-, -, hnode, hhash⟩ | ⟨hold, -⟩
      · exact Or.inr (hnew hnode hhash)
      · exact Or.inl hold
    · rw [heq] at hrow
      obtain ⟨old, hold, hreplaced⟩ := List.mem_map.mp hrow
      split at hreplaced
      next =>
        subst hreplaced
        exact Or.inr (hnew rfl rfl)
      next => exact Or.inl (hreplaced ▸ hold)

end RepairEffect

/-- What every step of the pass keeps: the constraints of the table, and the rows that are
still to be audited as they were read. -/
structure AuditConsistent (s : AuditState) : Prop where
  valid : s.db.Valid
  todo : ∀ row ∈ s.todo, row ∈ s.db.p2pShards
  nodup : s.todo.Nodup

theorem auditConsistent_start (job : AuditJob) (registry : PeerRegistry) {db : Database}
    (fleet : Fleet) (order : DueOrder db job.now) (hv : db.Valid) :
    AuditConsistent (AuditState.start job registry db fleet order) := by
  have hsub : (auditBatch order.1).Sublist order.1 := List.take_sublist _ _
  have hdue : (db.dueShards job.now).Sublist db.p2pShards := List.filter_sublist
  have hnodup : order.1.Nodup := order.2.nodup_iff.mpr ((hv.ids.of_map _).sublist hdue)
  refine ⟨hv, fun row hrow => ?_, hnodup.sublist hsub⟩
  exact hdue.subset (order.2.subset (hsub.subset hrow))

/-- The state with which `repair_file` is called differs only in what it does not touch. -/
theorem RepairEffect.of_learned {fileHash : String} {shardIndex : Nat} {registry : PeerRegistry}
    {verdicts : List Verdict}
    (haddrs : ∀ nodeId, nodeAddrOf registry s.db nodeId = nodeAddrOf s.registry s.db nodeId)
    (h : RepairEffect P job fileHash shardIndex { s with registry, verdicts } t) :
    RepairEffect P job fileHash shardIndex { s with verdicts } t := by
  refine ⟨h.todo, h.verdicts, fun nodeId => (h.addresses nodeId).trans (haddrs nodeId), h.holds, ?_⟩
  rcases h.rows with heq | ⟨nodeId, addr, newShardHash, haddr, hheld, heq⟩
  · exact Or.inl heq
  · exact Or.inr ⟨nodeId, addr, newShardHash, (haddrs nodeId).symm.trans haddr, hheld, heq⟩

/-- The three outcomes of the loop body: the row is skipped, found healthy, or handed to
`repair_file`. -/
theorem auditRow_cases (P : Primitives) (job : AuditJob) (s : AuditState) (row : ShardRow)
    (io : AuditIo) :
    ∃ registry, (∀ nodeId, nodeAddrOf registry s.db nodeId = nodeAddrOf s.registry s.db nodeId) ∧
      ((lookupNodeAddr s.registry s.db row.nodeId job.now io.lookupUp = (none, registry) ∧
        auditRow P job s row io = { s with registry }) ∨
      ∃ addr, lookupNodeAddr s.registry s.db row.nodeId job.now io.lookupUp = (some addr, registry) ∧
        ((shardHealthy P { s with registry } addr row io = true ∧
          ∃ db, (db = s.db ∨ db = s.db.touchShard row.id job.now) ∧
            auditRow P job s row io = { s with
              registry, db
              verdicts := s.verdicts ++ [⟨row, s.fleet.holds P addr row.shardHash, true⟩] }) ∨
        (shardHealthy P { s with registry } addr row io = false ∧
          RepairEffect P job row.fileHash (asUsize row.shardIndex) { s with
              verdicts := s.verdicts ++ [⟨row, s.fleet.holds P addr row.shardHash, false⟩] }
            (auditRow P job s row io)))) := by
  have haddrs := fun nodeId =>
    nodeAddrOf_lookup s.registry s.db row.nodeId nodeId job.now io.lookupUp
  unfold auditRow
  split
  next registry heq =>
    rw [heq] at haddrs
    exact ⟨registry, haddrs, Or.inl ⟨heq, rfl⟩⟩
  next addr registry heq =>
    rw [heq] at haddrs
    refine ⟨registry, haddrs, Or.inr ⟨addr, heq, ?_⟩⟩
    cases hhealthy : shardHealthy P { s with registry } addr row io with
    | true =>
      refine Or.inl ⟨rfl, ?_⟩
      cases hup : io.updateUp with
      | true => exact ⟨_, Or.inr rfl, by simp [hhealthy]⟩
      | false => exact ⟨_, Or.inl rfl, by simp [hhealthy]⟩
    | false =>
      refine Or.inr ⟨rfl, ?_⟩
      simp only [hhealthy, Bool.false_eq_true, if_false]
      exact RepairEffect.of_learned haddrs (repairFile_effect _ _ _)

theorem auditConsistent_touch {row : ShardRow} {todo : List ShardRow} {verdicts : List Verdict}
    {registry : PeerRegistry} {db : Database} (hs : AuditConsistent { s with todo := row :: todo })
    (hdb : db = s.db ∨ db = s.db.touchShard row.id job.now) :
    AuditConsistent { s with registry, db, todo, verdicts } := by
  have htodo := List.forall_mem_cons.mp hs.todo
  have hnodup := List.nodup_cons.mp hs.nodup
  rcases hdb with rfl | rfl
  · exact ⟨hs.valid, htodo.2, hnodup.2⟩
  · refine ⟨hs.valid.touchShard _ _, fun other hother => ?_, hnodup.2⟩
    refine List.mem_map.mpr ⟨other, htodo.2 other hother, if_neg fun hid => hnodup.1 ?_⟩
    rw [← List.inj_on_of_nodup_map hs.valid.ids (htodo.2 other hother) htodo.1 hid]
    exact hother

theorem auditConsistent_repair {row : ShardRow} {todo : List ShardRow}
    (hs : AuditConsistent { s with todo := row :: todo })
    {verdicts : List Verdict}
    (h : RepairEffect P job row.fileHash (asUsize row.shardIndex) { s with todo, verdicts } t) :
    AuditConsistent t := by
  have htodo := List.forall_mem_cons.mp hs.todo
  have hnodup := List.nodup_cons.mp hs.nodup
  obtain ⟨hlow, hhigh⟩ := hs.valid.indices row htodo.1
  refine ⟨h.valid hs.valid, fun other hother => ?_, by rw [h.todo]; exact hnodup.2⟩
  rw [h.todo] at hother
  refine h.keeps (htodo.2 other hother) fun hkey => hnodup.1 ?_
  rw [asI32_asUsize hlow hhigh] at hkey
  have hsame : (other.fileHash, other.shardIndex) = (row.fileHash, row.shardIndex) := by
    rw [hkey.1, hkey.2]
  rw [← List.inj_on_of_nodup_map hs.valid.keys (htodo.2 other hother) htodo.1 hsame]
  exact hother

theorem auditConsistent_step (hs : AuditConsistent s) {e : AuditEvent}
    (h : auditStep P job s e = some t) : AuditConsistent t := by
  cases e with
  | audit io =>
    simp only [auditStep] at h
    split at h
    next row todo htodo =>
      cases Option.some.inj h
      have hhead : AuditConsistent { s with todo := row :: todo } := by
        rw [← htodo]
        exact hs
      obtain ⟨registry, -, ⟨-, heq⟩ | ⟨addr, -, ⟨-, db, hdb, heq⟩ | ⟨-, heffect⟩⟩⟩ :=
        auditRow_cases P job { s with todo } row io
      · rw [heq]
        exact @auditConsistent_touch job _ _ _ _ _ _ hhead (Or.inl rfl)
      · rw [heq]
        exact auditConsistent_touch hhead hdb
      · exact auditConsistent_repair hhead heffect
    next => simp at h
  | repairMissing fileHash shardIndex io =>
    simp only [auditStep] at h
    split at h
    next hcheck =>
      cases Option.some.inj h
      have heffect := @repairFile_effect P job s fileHash shardIndex io
      have hempty := heffect.todo.trans hcheck.2.1
      exact ⟨heffect.valid hs.valid, by simp [hempty], by simp [hempty]⟩
    next => simp at h

theorem auditSound_learned {registry : PeerRegistry} {verdicts : List Verdict}
    (hsound : AuditSound P start s)
    (haddrs : ∀ nodeId, nodeAddrOf registry s.db nodeId = nodeAddrOf s.registry s.db nodeId)
    (hverdicts : ∀ verdict ∈ verdicts, verdict.healthy → verdict.held) :
    AuditSound P start { s with registry, verdicts } := by
  refine ⟨hverdicts, fun row hrow hadvanced => ?_⟩
  obtain ⟨addr, haddr, hheld⟩ := shardRetrievable_iff.mp (hsound.checked row hrow hadvanced)
  exact shardRetrievable_iff.mpr ⟨addr, (haddrs _).trans haddr, hheld⟩

/-- A row may be marked as checked if its node holds the shard. -/
theorem AuditSound.touch {row : ShardRow} (hsound : AuditSound P start s) (hvalid : s.db.Valid)
    (hmem : row ∈ s.db.p2pShards) (hret : s.retrievable P row) (now : Time) :
    AuditSound P start { s with db := s.db.touchShard row.id now } := by
  refine ⟨hsound.verdicts, fun touched htouched hadvanced => ?_⟩
  obtain ⟨old, hold, rfl⟩ := List.mem_map.mp htouched
  split
  next hid =>
    have hsame : old = row := List.inj_on_of_nodup_map hvalid.ids hold hmem hid
    rw [hsame]
    exact hret
  next hid =>
    rw [if_neg hid] at hadvanced
    exact hsound.checked old hold hadvanced

theorem auditSound_repair {fileHash : String} {shardIndex : Nat}
    (hsound : AuditSound P start s) (h : RepairEffect P job fileHash shardIndex s t) :
    AuditSound P start t := by
  refine ⟨by rw [h.verdicts]; exact hsound.verdicts, fun row hrow hadvanced => ?_⟩
  rcases h.row_cases hrow with hold | hret
  · exact h.keeps_retrievable (hsound.checked row hold hadvanced)
  · exact hret

theorem verdicts_append (hsound : AuditSound P start s) (verdict : Verdict)
    (h : verdict.healthy → verdict.held) :
    ∀ other ∈ s.verdicts ++ [verdict], other.healthy → other.held := by
  intro other hother
  rcases List.mem_append.mp hother with hother | hother
  · exact hsound.verdicts other hother
  · cases List.mem_singleton.mp hother
    exact h

/-- The looked up address and what the lookup teaches are determined by it. -/
theorem forall_lookup_iff {row : ShardRow} {io : AuditIo} {addr : SocketAddr}
    {registry : PeerRegistry} {motive : SocketAddr → PeerRegistry → Prop}
    (h : lookupNodeAddr s.registry s.db row.nodeId job.now io.lookupUp = (some addr, registry)) :
    (∀ found learned, lookupNodeAddr s.registry s.db row.nodeId job.now io.lookupUp =
      (some found, learned) → motive found learned) ↔ motive addr registry := by
  refine ⟨fun hall => hall addr registry h, fun hmotive found learned hfound => ?_⟩
  obtain ⟨haddr, hregistry⟩ := Prod.mk.inj (hfound.symm.trans h)
  cases Option.some.inj haddr
  cases hregistry
  exact hmotive

/-- Auditing one row is sound exactly if wrong bytes at its node are seen. -/
theorem auditSound_row_iff {row : ShardRow} (io : AuditIo) (hvalid : s.db.Valid)
    (hmem : row ∈ s.db.p2pShards) (hsound : AuditSound P start s) :
    AuditSound P start (auditRow P job s row io) ↔ ∀ addr registry,
      lookupNodeAddr s.registry s.db row.nodeId job.now io.lookupUp = (some addr, registry) →
        WrongBytesSeen P { s with registry } addr row io := by
  obtain ⟨registry, haddrs, ⟨hlookup, heq⟩ | ⟨addr, hlookup, hcase⟩⟩ := auditRow_cases P job s row io
  · rw [heq]
    refine ⟨fun _ addr other hsome => ?_, fun _ => auditSound_learned hsound haddrs hsound.verdicts⟩
    have hnone : none = some addr := congrArg Prod.fst (hlookup.symm.trans hsome)
    simp at hnone
  · rw [forall_lookup_iff hlookup, ← shardHealthy_sound_iff]
    have hrow : nodeAddrOf s.registry s.db row.nodeId = some addr :=
      lookupNodeAddr_fst (by rw [hlookup])
    rcases hcase with ⟨hhealthy, db, hdb, heq⟩ | ⟨hunhealthy, heffect⟩
    · rw [heq, hhealthy, eq_self, true_implies]
      constructor
      · intro h
        exact h.verdicts _ (List.mem_append_right _ (List.mem_singleton_self _)) rfl
      · intro hheld
        have hlearned := auditSound_learned hsound haddrs (verdicts_append hsound
          ⟨row, s.fleet.holds P addr row.shardHash, true⟩ fun _ => hheld)
        rcases hdb with rfl | rfl
        · exact hlearned
        · exact hlearned.touch hvalid hmem
            (shardRetrievable_iff.mpr ⟨addr, (haddrs _).trans hrow, hheld⟩) job.now
    · rw [hunhealthy]
      refine ⟨fun _ h => absurd h (by simp), fun _ => auditSound_repair ?_ heffect⟩
      exact auditSound_learned hsound (fun _ => rfl) (verdicts_append hsound _ (by simp))

theorem auditSound_step_iff (hs : AuditConsistent s) (hsound : AuditSound P start s)
    (e : AuditEvent) :
    (∀ t, auditStep P job s e = some t → AuditSound P start t) ↔ AuditSeesWrongBytes P job s e := by
  cases e with
  | audit io =>
    cases htodo : s.todo with
    | nil => simp [auditStep, AuditSeesWrongBytes, htodo]
    | cons row todo =>
      simp only [auditStep, AuditSeesWrongBytes, htodo, Option.some.injEq, forall_eq']
      have hmem : row ∈ s.db.p2pShards := hs.todo row (by simp [htodo])
      exact auditSound_row_iff (s := { s with todo }) io hs.valid hmem
        ⟨hsound.verdicts, hsound.checked⟩
  | repairMissing fileHash shardIndex io =>
    refine ⟨fun _ => trivial, fun _ t h => ?_⟩
    simp only [auditStep] at h
    split at h
    next =>
      cases Option.some.inj h
      exact auditSound_repair hsound (repairFile_effect fileHash shardIndex io)
    next => simp at h

theorem auditSound_start (job : AuditJob) (registry : PeerRegistry) (db : Database)
    (fleet : Fleet) (order : DueOrder db job.now) :
    AuditSound P (AuditState.start job registry db fleet order)
      (AuditState.start job registry db fleet order) :=
  ⟨by simp [AuditState.start], fun row hrow hadvanced => absurd rfl (hadvanced row hrow rfl)⟩

def auditedRow : ShardRow :=
  { id := 1, fileHash := "file", shardIndex := 0, nodeId := "node"
    shardHash := toHex (referenceHash [7]), lastCheckedAt := none }

def auditedAddr : SocketAddr := ⟨.v4 192 168 1 7, 5050⟩

def auditedRegistry : PeerRegistry := ⟨[⟨"node", auditedAddr, 0⟩], .open, by simp⟩

def auditedDatabase : Database :=
  ⟨[], [], [auditedRow], [⟨"node", some auditedAddr, 0, true⟩], 2⟩

/-- A server with the given bytes at the path of the audited shard. -/
def auditedFleet (stored : Bytes) : Fleet :=
  { shards := fun _ h => if h = referenceHash [7] then some stored else none
    identityAt := fun _ => some "node" }

/-- Every exchange gets through. -/
def flawlessIo : AuditIo :=
  { lookupUp := true, faults := ⟨true, true, true⟩, listed := true, updateUp := true
    repair := ⟨true, fun _ => true, true, none, fun _ => ⟨true, true, true⟩, .acknowledged, true⟩ }

def auditedJob : AuditJob := ⟨"secret", 0⟩

theorem auditedRow_due : [auditedRow].Perm (auditedDatabase.dueShards auditedJob.now) :=
  List.Perm.of_eq rfl

def auditedOrder : DueOrder auditedDatabase auditedJob.now := ⟨[auditedRow], auditedRow_due⟩

/-- A pass over the audited shard, whose file holds the given bytes. -/
def auditedStart (stored : Bytes) : AuditState :=
  AuditState.start auditedJob auditedRegistry auditedDatabase (auditedFleet stored) auditedOrder

theorem auditedDatabase_valid : auditedDatabase.Valid :=
  ⟨by simp [auditedDatabase], by simp [auditedDatabase, auditedRow],
    by simp [auditedDatabase, Database.shardKeys], by simp [auditedDatabase, auditedRow]⟩

end Reminisce

import Reminisce.StorageNode

namespace Reminisce

section

open FileSystem ShardMap

/-- The temporary file that a task works on. -/
def NodeTask.owned : NodeTask → Option DiskPath
  | .storeCreate _ _ tmp => some tmp
  | .storeWrite _ tmp _ _ => some tmp
  | .storeCleanup _ tmp => some tmp
  | .receiving tmp _ => some tmp
  | .chunkOpen tmp _ _ => some tmp
  | .chunkWrite tmp _ _ _ => some tmp
  | .streamDiscard tmp _ => some tmp
  | .finalizeOpen tmp _ _ => some tmp
  | .finalizeRename tmp _ => some tmp
  | _ => none

def ReadTarget.hash : ReadTarget → Option Digest
  | .shard shardHash => some shardHash
  | .shardStream shardHash => some shardHash
  | .pinned _ => none

/-- A listing names what some scan found. -/
def Scanned (ops : List StoreOp) (found : List Digest) : Prop :=
  ∀ h ∈ found, ∃ dir scanned, h ∈ scanned ∧ StoreOp.scan dir scanned ∈ ops

/-- An opened shard keeps its bytes, and they are what the map had when it was opened. -/
structure ReadOk (cfg : NodeConfig) (d : ShardDisk) (ops : List StoreOp) (shardHash : Digest)
    (ino : Nat) (chunks : List Bytes) : Prop where
  closed : d.Sealed Aside ino
  opened : .get shardHash (some (d.inodes ino).bytes) ∈ ops
  hash : cfg.blake3 (d.inodes ino).bytes = shardHash
  chunks : chunks.flatten <+: (d.inodes ino).bytes

/-- What a task relies on: its temporary file holds the bytes written so far, and with the
bytes still to be written it has the hash it is to be stored under. -/
def TaskOk (cfg : NodeConfig) (d : ShardDisk) (ops : List StoreOp) : NodeTask → Prop
  | .storePrepare shardHash data => cfg.blake3 data = shardHash
  | .storeCreate shardHash data _ => cfg.blake3 data = shardHash
  | .storeWrite shardHash tmp ino todo =>
    d.names.lookup tmp = some ino ∧ cfg.blake3 ((d.inodes ino).bytes ++ todo) = shardHash
  | .receiving tmp received => (d.read tmp).getD [] = received
  | .chunkOpen tmp received data => (d.read tmp).getD [] ++ data = received
  | .chunkWrite tmp received ino todo =>
    d.names.lookup tmp = some ino ∧ (d.inodes ino).bytes ++ todo = received
  | .finalizeOpen tmp received shardHash =>
    (d.read tmp).getD [] = received ∧ cfg.blake3 received = shardHash
  | .finalizeRename tmp shardHash => ∀ bytes, d.read tmp = some bytes → cfg.blake3 bytes = shardHash
  | .reading target ino chunks =>
    ∀ shardHash, target.hash = some shardHash → ReadOk cfg d ops shardHash ino chunks
  | .pinnedWrite name ino _ _ => d.names.lookup (pinnedPath cfg.blake3 name) = some ino
  | .listing _ _ found => Scanned ops found
  | _ => True

/-- A retrieved shard is what the map answered, and a listing names what was found. -/
def ReplyOk (ops : List StoreOp) : NodeReply → Prop
  | .retrieveShardResponse shardHash data => .get shardHash data ∈ ops
  | .retrieveShardStream requested chunks shardHash =>
    .get requested (some chunks.flatten) ∈ ops ∧ shardHash = requested
  | .listShardsResponse _ shards _ => Scanned ops shards
  | _ => True

/-- The paths of temporary files made so far; siblings of this process are numbered below
`seq`. -/
def OwnedPath (cfg : NodeConfig) (past : List NodeEvent) (seq : Nat) (p : DiskPath) : Prop :=
  (∃ h pid nanos n, n < seq ∧ p = uniqueTempSibling (getShardPath h) pid nanos n) ∨
    ∃ input ∈ past.filterMap NodeEvent.tempInput, p = tempPath (cfg.blake3 input)

/-- The paths that do not belong to one task. -/
def SharedPath (cfg : NodeConfig) (p : DiskPath) : Prop :=
  (∃ name, p = pinnedPath cfg.blake3 name) ∨ ∃ h, p = getShardPath h

/-- No two streams work on one temporary file. -/
def Apart (tasks : List NodeTask) : Prop :=
  ∀ (i j : Nat) a b p, i ≠ j → tasks[i]? = some a → tasks[j]? = some b → a.owned = some p →
    b.owned ≠ some p

structure NodeInv (cfg : NodeConfig) (past : List NodeEvent) (s : NodeState) : Prop where
  sound : s.disk.Sound
  known : ∀ p i, s.disk.names.lookup p = some i →
    SharedPath cfg p ∨ ∃ seq, OwnedPath cfg past seq p
  tasks : ∀ t ∈ s.tasks, TaskOk cfg s.disk s.ops t
  owned : ∀ t ∈ s.tasks, ∀ p, t.owned = some p → OwnedPath cfg past s.seq p
  apart : Apart s.tasks
  map : ∃ m, Replays cfg.blake3 s.ops m ∧ Represents s.disk m
  sent : ∀ r ∈ s.sent, ReplyOk s.ops r

variable {cfg : NodeConfig} {past : List NodeEvent} {s : NodeState} {d e : ShardDisk}
  {ops more : List StoreOp} {p : DiskPath} {seq : Nat}

theorem OwnedPath.aside (h : OwnedPath cfg past seq p) : Aside p := by
  rcases h with ⟨hash, pid, nanos, n, _, rfl⟩ | ⟨input, _, rfl⟩
  · exact aside_sibling _ _ _ _
  · exact aside_tempPath _

theorem OwnedPath.not_shared (h : OwnedPath cfg past seq p) : ¬ SharedPath cfg p := by
  rintro (⟨name, heq⟩ | ⟨hash, heq⟩)
  · rcases h with ⟨hash, pid, nanos, n, _, rfl⟩ | ⟨input, _, rfl⟩
    · exact pinnedPath_ne_sibling _ _ _ _ _ _ heq.symm
    · exact pinnedPath_ne_tempPath _ _ _ heq.symm
  · exact aside_ne_shard h.aside hash heq

theorem OwnedPath.later {later : Nat} (h : OwnedPath cfg past seq p) (hseq : seq ≤ later) :
    OwnedPath cfg past later p := by
  rcases h with ⟨hash, pid, nanos, n, hn, rfl⟩ | htemp
  · exact .inl ⟨hash, pid, nanos, n, Nat.lt_of_lt_of_le hn hseq, rfl⟩
  · exact .inr htemp

theorem OwnedPath.extend {event : NodeEvent} (h : OwnedPath cfg past seq p) :
    OwnedPath cfg (past ++ [event]) seq p := by
  rcases h with hsibling | ⟨input, hin, rfl⟩
  · exact .inl hsibling
  · refine .inr ⟨input, ?_, rfl⟩
    rw [List.filterMap_append]
    exact List.mem_append_left _ hin

theorem NodeInv.extend {event : NodeEvent} (h : NodeInv cfg past s) :
    NodeInv cfg (past ++ [event]) s where
  sound := h.sound
  known p i hi := (h.known p i hi).imp_right fun ⟨seq, hp⟩ => ⟨seq, hp.extend⟩
  tasks := h.tasks
  owned t ht p hp := (h.owned t ht p hp).extend
  apart := h.apart
  map := h.map
  sent := h.sent

theorem NodeInv.tidy (h : NodeInv cfg past s) : Tidy s.disk := by
  intro p i hi
  rcases h.known p i hi with (⟨name, rfl⟩ | ⟨hash, rfl⟩) | ⟨seq, hp⟩
  · exact .inl (aside_pinnedPath _ _)
  · exact .inr ⟨hash, rfl⟩
  · exact .inl hp.aside

/-- Every file at the path of a shard has the hash it is named after. -/
theorem NodeInv.content (h : NodeInv cfg past s) {shardHash : Digest} {bytes : Bytes}
    (hread : s.disk.read (getShardPath shardHash) = some bytes) : cfg.blake3 bytes = shardHash := by
  obtain ⟨m, hops, hm⟩ := h.map
  exact hops.content shardHash bytes (by rw [hm shardHash, hread])

theorem Scanned.mono {found : List Digest} (h : Scanned ops found) : Scanned (ops ++ more) found := by
  intro hash hmem
  obtain ⟨dir, scanned, hin, hop⟩ := h hash hmem
  exact ⟨dir, scanned, hin, List.mem_append_left _ hop⟩

theorem ReplyOk.mono {r : NodeReply} (h : ReplyOk ops r) : ReplyOk (ops ++ more) r := by
  cases r with
  | retrieveShardResponse hash data => exact List.mem_append_left _ h
  | retrieveShardStream requested chunks hash => exact ⟨List.mem_append_left _ h.1, h.2⟩
  | listShardsResponse dir shards space => exact Scanned.mono h
  | _ => trivial

/-- What other tasks do to the disk: they leave the temporary file of this one and opened
shards alone, and pinned objects keep their inodes. -/
theorem TaskOk.of_touches {touched : DiskPath → Prop} {t : NodeTask} (h : TaskOk cfg d ops t)
    (ht : Disk.Touches Aside touched d e) (howned : ∀ p, t.owned = some p → ¬ touched p)
    (hpinned : ∀ name i, d.names.lookup (pinnedPath cfg.blake3 name) = some i →
      e.names.lookup (pinnedPath cfg.blake3 name) = some i) :
    TaskOk cfg e (ops ++ more) t := by
  cases t with
  | storeWrite hash tmp ino todo =>
    have htmp := howned tmp rfl
    exact ⟨(ht.names tmp htmp).trans h.1, by rw [ht.bytes tmp ino htmp h.1]; exact h.2⟩
  | receiving tmp received =>
    simp only [TaskOk] at h ⊢
    rw [ht.read (howned tmp rfl)]
    exact h
  | chunkOpen tmp received data =>
    simp only [TaskOk] at h ⊢
    rw [ht.read (howned tmp rfl)]
    exact h
  | chunkWrite tmp received ino todo =>
    have htmp := howned tmp rfl
    exact ⟨(ht.names tmp htmp).trans h.1, by rw [ht.bytes tmp ino htmp h.1]; exact h.2⟩
  | finalizeOpen tmp received hash =>
    simp only [TaskOk] at h ⊢
    rw [ht.read (howned tmp rfl)]
    exact h
  | finalizeRename tmp hash =>
    simp only [TaskOk] at h ⊢
    rw [ht.read (howned tmp rfl)]
    exact h
  | reading target ino chunks =>
    intro hash hhash
    obtain ⟨hsealed, hop, hbytes, hchunks⟩ := h hash hhash
    obtain ⟨hsealed', heq⟩ := ht.sealed ino hsealed
    exact ⟨hsealed', by rw [heq]; exact List.mem_append_left _ hop, by rw [heq]; exact hbytes,
      by rw [heq]; exact hchunks⟩
  | pinnedWrite name ino offset todo => exact hpinned name ino h
  | listing dir todo found => exact Scanned.mono h
  | _ => exact h

end

open FileSystem ShardMap

/-- What a step of one task does to the node: it touches its own temporary file, pinned
objects and shards, and the operations it takes effect as are operations of the map. -/
structure StepOk (cfg : NodeConfig) (env : NodeEnv) (d : ShardDisk) (ops : List StoreOp)
    (t : NodeTask) (o : TaskOutcome) : Prop where
  touches : Disk.Touches Aside (fun p => t.owned = some p ∨ SharedPath cfg p) d o.disk
  pinned : ∀ name i, d.names.lookup (pinnedPath cfg.blake3 name) = some i →
    o.disk.names.lookup (pinnedPath cfg.blake3 name) = some i
  seq : env.seq ≤ o.seq
  owned : ∀ t', o.next = some t' → t'.owned = t.owned ∨ (t.owned = none ∧ env.seq < o.seq ∧
    ∃ h, t'.owned = some (uniqueTempSibling (getShardPath h) env.pid env.now env.seq))
  next : ∀ t', o.next = some t' → TaskOk cfg o.disk (ops ++ o.op.toList) t'
  map : ∀ m, Replays cfg.blake3 ops m → Represents d m →
    ∃ m', Replays cfg.blake3 (ops ++ o.op.toList) m' ∧ Represents o.disk m'
  sent : ∀ r ∈ o.sent, ReplyOk (ops ++ o.op.toList) r
  deletes : ∀ h, o.op = some (.delete h) → ∀ p, p ≠ getShardPath h → o.disk.read p = d.read p

variable {cfg : NodeConfig} {env : NodeEnv} {d e : ShardDisk} {ops : List StoreOp}
  {t t' : NodeTask} {p : DiskPath}

theorem stepOk_goOn (hd : d.Sound) (howned : t'.owned = t.owned) (hok : TaskOk cfg d ops t') :
    StepOk cfg env d ops t (goOn env d t') where
  touches := .refl hd
  pinned _ _ hi := hi
  seq := Nat.le_refl _
  owned _ hnext := by cases Option.some.inj hnext; exact .inl howned
  next _ hnext := by cases Option.some.inj hnext; simpa [goOn] using hok
  map m hops hm := ⟨m, by simpa [goOn] using hops, hm⟩
  sent _ hr := absurd hr List.not_mem_nil
  deletes h hop := by simp [goOn] at hop

theorem stepOk_finish {sent : List NodeReply} (hd : d.Sound) (hsent : ∀ r ∈ sent, ReplyOk ops r) :
    StepOk cfg env d ops t (finish env d sent) where
  touches := .refl hd
  pinned _ _ hi := hi
  seq := Nat.le_refl _
  owned _ hnext := by simp [finish] at hnext
  next _ hnext := by simp [finish] at hnext
  map m hops hm := ⟨m, by simpa [finish] using hops, hm⟩
  sent r hr := by simpa [finish] using hsent r hr
  deletes h hop := by simp [finish] at hop

/-- A step on a file aside, with the replies that speak of no shard. -/
theorem stepOk_aside {o : TaskOutcome} (hp : Aside p)
    (hreach : t.owned = some p ∨ ∃ name, p = pinnedPath cfg.blake3 name)
    (htouch : Disk.Touches Aside (· = p) d o.disk)
    (hpinned : ∀ name i, d.names.lookup (pinnedPath cfg.blake3 name) = some i →
      o.disk.names.lookup (pinnedPath cfg.blake3 name) = some i)
    (hseq : o.seq = env.seq) (hop : o.op = none)
    (hnext : ∀ t', o.next = some t' → t'.owned = t.owned ∧ TaskOk cfg o.disk ops t')
    (hsent : ∀ r ∈ o.sent, ReplyOk ops r) : StepOk cfg env d ops t o where
  touches := by
    refine htouch.mono ?_
    rintro q rfl
    rcases hreach with h | h
    · exact .inl h
    · exact .inr (.inl h)
  pinned := hpinned
  seq := Nat.le_of_eq hseq.symm
  owned t' ht' := .inl (hnext t' ht').1
  next t' ht' := by simpa [hop] using (hnext t' ht').2
  map m hops hm := by
    refine ⟨m, by simpa [hop] using hops, hm.of_touches htouch ?_⟩
    rintro q rfl
    exact hp
  sent r hr := by simpa [hop] using hsent r hr
  deletes h hdel := by simp [hop] at hdel

/-- An operation that only looks. -/
theorem stepOk_look {o : TaskOutcome} {op : StoreOp} (hd : d.Sound) (hdisk : o.disk = d)
    (hseq : o.seq = env.seq) (hop : o.op = some op)
    (hstep : ∀ m, Represents d m → ∃ m', Step cfg.blake3 m op m' ∧ Represents d m')
    (hnext : ∀ t', o.next = some t' → t'.owned = t.owned ∧ TaskOk cfg d (ops ++ [op]) t')
    (hsent : ∀ r ∈ o.sent, ReplyOk (ops ++ [op]) r) : StepOk cfg env d ops t o where
  touches := by rw [hdisk]; exact .refl hd
  pinned name i hi := by rw [hdisk]; exact hi
  seq := Nat.le_of_eq hseq.symm
  owned t' ht' := .inl (hnext t' ht').1
  next t' ht' := by simpa [hop, hdisk] using (hnext t' ht').2
  map m hops hm := by
    obtain ⟨m', hstep, hm'⟩ := hstep m hm
    refine ⟨m', ?_, by rw [hdisk]; exact hm'⟩
    rw [hop]
    exact .snoc ops op m m' hops hstep
  sent r hr := by simpa [hop] using hsent r hr
  deletes _ _ p _ := by rw [hdisk]

theorem pinned_of_ne (htouch : Disk.Touches Aside (· = p) d e)
    (hp : ∀ name, pinnedPath cfg.blake3 name ≠ p) (name : String) (i : Nat)
    (hi : d.names.lookup (pinnedPath cfg.blake3 name) = some i) :
    e.names.lookup (pinnedPath cfg.blake3 name) = some i :=
  (htouch.names _ (hp name)).trans hi

/-- A step on the temporary file of the task. -/
theorem stepOk_owned {o : TaskOutcome} (hp : Aside p) (hshared : ¬ SharedPath cfg p)
    (howned : t.owned = some p) (htouch : Disk.Touches Aside (· = p) d o.disk)
    (hseq : o.seq = env.seq) (hop : o.op = none)
    (hnext : ∀ t', o.next = some t' → t'.owned = t.owned ∧ TaskOk cfg o.disk ops t')
    (hsent : ∀ r ∈ o.sent, ReplyOk ops r) : StepOk cfg env d ops t o :=
  stepOk_aside hp (.inl howned) htouch
    (pinned_of_ne htouch fun name heq => hshared (.inl ⟨name, heq.symm⟩)) hseq hop hnext hsent

/-- The temporary file of the task becomes a shard. -/
theorem stepOk_rename {sent : List NodeReply} {i : Nat} {shardHash : Digest} (hd : d.Sound)
    (hp : Aside p) (hshared : ¬ SharedPath cfg p) (howned : t.owned = some p)
    (hi : d.names.lookup p = some i) (hhash : cfg.blake3 (d.inodes i).bytes = shardHash)
    (hsent : ∀ ops r, r ∈ sent → ReplyOk ops r) :
    StepOk cfg env d ops t
      { finish env (d.rename p (getShardPath shardHash)) sent with
        op := some (.put shardHash (d.inodes i).bytes) } where
  touches := by
    refine (Disk.touches_rename hd (not_aside_shard shardHash) hi).mono ?_
    rintro q (rfl | rfl)
    · exact .inl howned
    · exact .inr (.inr ⟨shardHash, rfl⟩)
  pinned name j hj := by
    have hne : pinnedPath cfg.blake3 name ≠ getShardPath shardHash :=
      aside_ne_shard (aside_pinnedPath _ _) _
    have hne' : pinnedPath cfg.blake3 name ≠ p := fun heq => hshared (.inl ⟨name, heq.symm⟩)
    simp only [finish]
    rw [Disk.lookup_rename hi, if_neg hne, if_neg hne', hj]
  seq := Nat.le_refl _
  owned _ hnext := by simp [finish] at hnext
  next _ hnext := by simp [finish] at hnext
  map m hops hm :=
    ⟨_, .snoc ops _ m _ hops (.put m shardHash _ hhash), hm.rename hd hp hi⟩
  sent r hr := hsent _ r hr
  deletes h hop := by simp at hop

/-- The file of a shard goes. -/
theorem stepOk_remove {sent : List NodeReply} {shardHash : Digest} (hd : d.Sound)
    (hsent : ∀ ops r, r ∈ sent → ReplyOk ops r) :
    StepOk cfg env d ops t
      { finish env (d.remove (getShardPath shardHash)) sent with
        op := some (.delete shardHash) } where
  touches := by
    refine (Disk.touches_remove hd (getShardPath shardHash)).mono ?_
    rintro q rfl
    exact .inr (.inr ⟨shardHash, rfl⟩)
  pinned name j hj := by
    have hne : pinnedPath cfg.blake3 name ≠ getShardPath shardHash :=
      aside_ne_shard (aside_pinnedPath _ _) _
    exact (AList.lookup_erase_ne hne).trans hj
  seq := Nat.le_refl _
  owned _ hnext := by simp [finish] at hnext
  next _ hnext := by simp [finish] at hnext
  map m hops hm := ⟨_, .snoc ops _ m _ hops (.delete m shardHash), hm.remove hd⟩
  sent r hr := hsent _ r hr
  deletes h hop q hq := by
    cases StoreOp.delete.inj (Option.some.inj hop)
    have htouch : Disk.Touches Aside (· = getShardPath shardHash) d _ := Disk.touches_remove hd _
    exact htouch.read hq

end Reminisce

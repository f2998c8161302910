import Reminisce.Handshake
import Reminisce.ReferencePrimitives
import Reminisce.NodeRuns

namespace Reminisce

open FileSystem ShardMap

variable {cfg : NodeConfig} {past : List NodeEvent} {s s' : NodeState} {env : NodeEnv}
  {salt : Salt} {req : NodeRequest} {t : NodeTask}

/-- What a request leads to: a task without a temporary file, or a streamed upload with one
named after its salt. -/
theorem handleRequest_task (h : (handleRequest cfg env salt req).1 = some t) :
    (t.owned = none ∧ ∀ d ops, TaskOk cfg d ops t) ∨
      ∃ fileHash shardIndex totalShardBytes token,
        req = .storeShardStreamInit fileHash shardIndex totalShardBytes token ∧
        t = .receiving (tempPath (cfg.blake3 (tempIdInput fileHash shardIndex salt))) [] := by
  cases req <;> simp only [handleRequest] at h
  case storeShardStreamInit =>
    split at h
    next => simp at h
    next =>
      split at h
      next => exact .inr ⟨_, _, _, _, rfl, (Option.some.inj h).symm⟩
      next => simp at h
  case storeShard =>
    split at h
    next => simp at h
    next hhash =>
      split at h
      next =>
        cases Option.some.inj h
        exact .inl ⟨rfl, fun _ _ => not_not.mp hhash⟩
      next => simp at h
  case listShards =>
    split at h
    next =>
      cases Option.some.inj h
      exact .inl ⟨rfl, fun _ _ hash hmem => absurd hmem List.not_mem_nil⟩
    next => simp at h
  case handshake => split at h <;> simp at h
  case heartbeat | other => simp at h
  all_goals
    split at h
    next =>
      cases Option.some.inj h
      exact .inl ⟨rfl, fun _ _ => trivial⟩
    next => simp at h

theorem handleRequest_replies (ops : List StoreOp) :
    ∀ r ∈ (handleRequest cfg env salt req).2, ReplyOk ops r := by
  have one : ∀ r r' : NodeReply, r ∈ [r'] → ReplyOk ops r' → ReplyOk ops r := by
    intro r r' hmem hr
    cases List.mem_singleton.mp hmem
    exact hr
  have empty : ∀ r : NodeReply, r ∈ ([] : List NodeReply) → ReplyOk ops r :=
    fun r hr => absurd hr List.not_mem_nil
  intro r hr
  cases req <;> simp only [handleRequest] at hr
  case storeShard | storeShardStreamInit =>
    split at hr
    next => exact one r _ hr trivial
    next =>
      split at hr
      next => first | exact empty r hr | exact one r _ hr trivial
      next => exact one r _ hr trivial
  case handshake => split at hr <;> exact one r _ hr trivial
  case heartbeat => exact empty r hr
  case other => exact one r _ hr trivial
  all_goals
    split at hr
    next => exact empty r hr
    next => exact one r _ hr trivial

/-- Streams draw different salts, and BLAKE3 tells the inputs of their names apart. -/
def SaltsDistinct (cfg : NodeConfig) (events : List NodeEvent) : Prop :=
  (events.filterMap NodeEvent.salt).Nodup ∧
    Set.InjOn cfg.blake3 {input | input ∈ events.filterMap NodeEvent.tempInput}

theorem saltsDistinct_dropLast {event : NodeEvent} (h : SaltsDistinct cfg (past ++ [event])) :
    SaltsDistinct cfg past := by
  obtain ⟨hsalts, hinj⟩ := h
  rw [List.filterMap_append] at hsalts
  refine ⟨hsalts.of_append_left, hinj.mono ?_⟩
  intro input hin
  have hmem : input ∈ (past ++ [event]).filterMap NodeEvent.tempInput := by
    rw [List.filterMap_append]
    exact List.mem_append_left _ hin
  exact hmem

/-- The temporary file of a new stream is nowhere yet. -/
theorem fresh_tempPath {space : Except String Nat} {fileHash : Digest} {shardIndex : UInt8}
    {total : UInt64} {token : ShardToken} {seq : Nat} {p : DiskPath}
    (hsalts : SaltsDistinct cfg (past ++
      [.request salt space (.storeShardStreamInit fileHash shardIndex total token)]))
    (hp : OwnedPath cfg past seq p) :
    p ≠ tempPath (cfg.blake3 (tempIdInput fileHash shardIndex salt)) := by
  rintro rfl
  rcases hp with ⟨h, pid, nanos, n, _, heq⟩ | ⟨input, hin, heq⟩
  · exact tempPath_ne_sibling _ _ _ _ _ heq
  · obtain ⟨hnodup, hinj⟩ := hsalts
    have hnew : tempIdInput fileHash shardIndex salt ∈ (past ++ [NodeEvent.request salt space
        (.storeShardStreamInit fileHash shardIndex total token)]).filterMap
          NodeEvent.tempInput := by
      simp [NodeEvent.tempInput]
    have hold : input ∈ (past ++ [NodeEvent.request salt space
        (.storeShardStreamInit fileHash shardIndex total token)]).filterMap
          NodeEvent.tempInput := by
      rw [List.filterMap_append]
      exact List.mem_append_left _ hin
    have hinput := hinj hnew hold (tempPath_injective heq)
    rw [← hinput] at hin
    rw [List.filterMap_append, List.nodup_append] at hnodup
    exact hnodup.2.2 salt (salt_mem_of_tempInput hin) salt (by simp [NodeEvent.salt]) rfl

/-- A task joins the others when its file is none of theirs. -/
theorem apart_append {tasks : List NodeTask} (h : Apart tasks)
    (hnew : ∀ a ∈ tasks, ∀ p, a.owned = some p → t.owned ≠ some p) : Apart (tasks ++ [t]) := by
  have place : ∀ {i : Nat} {a : NodeTask}, (tasks ++ [t])[i]? = some a →
      tasks[i]? = some a ∨ (i = tasks.length ∧ a = t) := by
    intro i a ha
    rw [List.getElem?_append] at ha
    split at ha
    next => exact .inl ha
    next hle =>
      rw [List.getElem?_singleton] at ha
      split at ha
      next hz => exact .inr ⟨by omega, (Option.some.inj ha).symm⟩
      next => simp at ha
  intro i j a b p hij ha hb hap hbp
  rcases place ha with hia | ⟨hi, hat⟩ <;> rcases place hb with hjb | ⟨hj, hbt⟩
  · exact h i j a b p hij hia hjb hap hbp
  · exact hnew a (List.mem_iff_getElem?.mpr ⟨i, hia⟩) p hap (hbt ▸ hbp)
  · exact hnew b (List.mem_iff_getElem?.mpr ⟨j, hjb⟩) p hbp (hat ▸ hap)
  · exact hij (hi.trans hj.symm)

theorem nodeInv_request {space : Except String Nat} (hinv : NodeInv cfg past s)
    (hsalts : SaltsDistinct cfg (past ++ [.request salt space req]))
    (h : nodeStep cfg s (.request salt space req) = some s') :
    NodeInv cfg (past ++ [.request salt space req]) s' := by
  cases Option.some.inj h
  have hext : NodeInv cfg (past ++ [.request salt space req]) s := hinv.extend
  have hsent : ∀ r ∈ s.sent ++ (handleRequest cfg (s.env space) salt req).2, ReplyOk s.ops r := by
    intro r hr
    rcases List.mem_append.mp hr with hold | hnew
    · exact hinv.sent r hold
    · exact handleRequest_replies s.ops r hnew
  cases htask : (handleRequest cfg (s.env space) salt req).1 with
  | none =>
    simp only [Option.toList_none, List.append_nil]
    exact { hext with sent := hsent }
  | some t =>
    have hfresh : ∀ p, t.owned = some p →
        OwnedPath cfg (past ++ [.request salt space req]) s.seq p ∧
          ∀ seq q, OwnedPath cfg past seq q → q ≠ p := by
      intro p hp
      rcases handleRequest_task htask with ⟨hnone, _⟩ | ⟨fileHash, i, total, token, rfl, rfl⟩
      · simp [hnone] at hp
      · cases Option.some.inj hp
        refine ⟨.inr ⟨tempIdInput fileHash i salt, by simp [NodeEvent.tempInput], rfl⟩, ?_⟩
        intro seq q hq
        exact fresh_tempPath hsalts hq
    have hok : TaskOk cfg s.disk s.ops t := by
      rcases handleRequest_task htask with ⟨_, hok⟩ | ⟨fileHash, i, total, token, rfl, rfl⟩
      · exact hok _ _
      · obtain ⟨hpath, hnew⟩ := hfresh _ rfl
        have hnone : s.disk.names.lookup
            (tempPath (cfg.blake3 (tempIdInput fileHash i salt))) = none := by
          cases hlook : s.disk.names.lookup
              (tempPath (cfg.blake3 (tempIdInput fileHash i salt))) with
          | none => rfl
          | some ino =>
            rcases hinv.known _ ino hlook with hshared | ⟨seq, hq⟩
            · exact absurd hshared hpath.not_shared
            · exact absurd rfl (hnew seq _ hq)
        simp [TaskOk, Disk.read, hnone]
    refine { hext with tasks := ?_, owned := ?_, apart := ?_, sent := hsent }
    · intro a ha
      rcases List.mem_append.mp ha with hold | hnew
      · exact hinv.tasks a hold
      · cases List.mem_singleton.mp hnew
        exact hok
    · intro a ha p hp
      rcases List.mem_append.mp ha with hold | hnew
      · exact hext.owned a hold p hp
      · cases List.mem_singleton.mp hnew
        exact (hfresh p hp).1
    · exact apart_append hinv.apart fun a ha p hap htp =>
        (hfresh p htp).2 _ p (hinv.owned a ha p hap) rfl

/-- Removing temporary files one after the other. -/
theorem cleanup_foldl {paths : List DiskPath} {d : ShardDisk} (hd : d.Sound)
    (htmp : ∀ p ∈ paths, tmpExtension <:+ p.name) :
    Disk.Touches Aside (fun p => tmpExtension <:+ p.name) d (paths.foldl Disk.remove d) ∧
      ∀ p i, (paths.foldl Disk.remove d).names.lookup p = some i →
        d.names.lookup p = some i := by
  induction paths generalizing d with
  | nil => exact ⟨.refl hd, fun _ _ h => h⟩
  | cons q paths ih =>
    have hq : Disk.Touches Aside (fun p => tmpExtension <:+ p.name) d (d.remove q) := by
      refine (Disk.touches_remove hd q).mono ?_
      rintro p rfl
      exact htmp p List.mem_cons_self
    obtain ⟨htouch, hsub⟩ := ih hq.sound fun p hp => htmp p (List.mem_cons_of_mem q hp)
    refine ⟨hq.trans htouch, ?_⟩
    intro p i hp
    have hrest := hsub p i hp
    by_cases hpq : p = q
    · subst hpq
      simp [Disk.remove] at hrest
    · rwa [Disk.remove, AList.lookup_erase_ne hpq] at hrest

/-- The start of a process: no stream is running, and the files that go are temporary. -/
theorem nodeInv_restart {pid : Nat} {removable : DiskPath → Bool} (hinv : NodeInv cfg past s)
    (h : nodeStep cfg s (.restart pid removable) = some s') : NodeInv cfg past s' := by
  cases Option.some.inj h
  have htmp : ∀ p ∈ s.disk.names.keys.filter fun p =>
      staleTemp s.disk s.now staleAge p && removable p, tmpExtension <:+ p.name := by
    intro p hp
    have hstale := (List.mem_filter.mp hp).2
    simp only [Bool.and_eq_true, staleTemp] at hstale
    split at hstale
    next => exact (of_decide_eq_true hstale.1).1
    next => simp at hstale
  obtain ⟨htouch, hsub⟩ := cleanup_foldl hinv.sound htmp
  refine ⟨htouch.sound, ?_, ?_, ?_, ?_, ?_, hinv.sent⟩
  · intro p i hp
    exact hinv.known p i (hsub p i hp)
  · intro t ht
    exact absurd ht List.not_mem_nil
  · intro t ht
    exact absurd ht List.not_mem_nil
  · intro i j a b p _ ha
    simp at ha
  · obtain ⟨m, hops, hm⟩ := hinv.map
    exact ⟨m, hops, hm.of_touches htouch fun p hp => .inr hp⟩

theorem nodeInv_nodeStep {event : NodeEvent} (hsalts : SaltsDistinct cfg (past ++ [event]))
    (hinv : NodeInv cfg past s) (h : nodeStep cfg s event = some s') :
    NodeInv cfg (past ++ [event]) s' := by
  cases event with
  | request salt space req => exact nodeInv_request hinv hsalts h
  | step i space input => exact (nodeInv_step hinv h).extend
  | cancel i => exact (nodeInv_cancel hinv h).extend
  | restart pid removable => exact (nodeInv_restart hinv h).extend
  | clock now =>
    cases Option.some.inj h
    have hext : NodeInv cfg (past ++ [.clock now]) s := hinv.extend
    exact ⟨hext.sound, hext.known, hext.tasks, hext.owned, hext.apart, hext.map, hext.sent⟩

theorem nodeInv_init (cfg : NodeConfig) (pid : Nat) : NodeInv cfg [] (.init pid) where
  sound := Disk.sound_empty
  known p i hi := by simp [NodeState.init, Disk.empty] at hi
  tasks t ht := absurd ht List.not_mem_nil
  owned t ht := absurd ht List.not_mem_nil
  apart i j a b p _ ha := by simp [NodeState.init] at ha
  map := ⟨∅, .nil, represents_empty⟩
  sent r hr := absurd hr List.not_mem_nil

theorem nodeInv_run {pid : Nat} {events : List NodeEvent} (hsalts : SaltsDistinct cfg events)
    (h : Runs.exec (nodeStep cfg) (.init pid) events = some s) : NodeInv cfg events s :=
  Runs.exec_history (fun _ _ => saltsDistinct_dropLast)
    (fun _ _ _ _ hgood hinv hstep => nodeInv_nodeStep hgood hinv hstep)
    (nodeInv_init cfg pid) hsalts h

/-- A listing with nothing in between scans every directory of one disk. -/
theorem listing_alone {i : Nat} {dir : Option String} {todo : List (List Char)}
    {found : List Digest} (space : Except String Nat)
    (hi : s.tasks[i]? = some (.listing dir todo found)) :
    ∃ s', Runs.exec (nodeStep cfg) s
        (List.replicate (todo.length + 1) (.step i space (.io 0))) = some s' ∧
      s'.sent = s.sent ++ [.listShardsResponse dir
        (sortHashes (found ++ todo.flatMap (scanDir s.disk))) (availableSpace space)] := by
  induction todo generalizing s found with
  | nil =>
    refine ⟨s.after i (finish (s.env space) s.disk
      [.listShardsResponse dir (sortHashes found) (availableSpace space)]), ?_, ?_⟩
    · simp [Runs.exec, nodeStep, hi, taskStep, listingTaskStep, NodeState.env]
    · simp [NodeState.after, finish]
  | cons next todo ih =>
    let u := s.after i { goOn (s.env space) s.disk
      (.listing dir todo (found ++ scanDir s.disk next)) with
        op := some (.scan next (scanDir s.disk next)) }
    have hlt : i < s.tasks.length := (List.getElem?_eq_some_iff.mp hi).1
    have hu : u.tasks[i]? = some (.listing dir todo (found ++ scanDir s.disk next)) := by
      simp [u, NodeState.after, resume, goOn, hlt]
    obtain ⟨s', hrun, hsent⟩ := ih hu
    refine ⟨s', ?_, ?_⟩
    · rw [List.length_cons, List.replicate_succ, Runs.exec]
      simp only [nodeStep, hi, Option.bind_some, taskStep, listingTaskStep, Option.map_some]
      exact hrun
    · rw [hsent]
      simp [u, NodeState.after, goOn]

/-- What a storage node keeps: every shard file has the hash of its name, the shard side is
a finite map on which the operations took effect one by one, replies tell what the map held,
listings are exact, and pinned objects and temporary files are no shards. -/
structure ShardStoreExact (cfg : NodeConfig) (s : NodeState) : Prop where
  content : ∀ h bytes, s.disk.read (getShardPath h) = some bytes → cfg.blake3 bytes = h
  map : ∃ m, Replays cfg.blake3 s.ops m ∧ Represents s.disk m
  replies : ∀ r ∈ s.sent, ReplyOk s.ops r
  deletes : ∀ event s' h, nodeStep cfg s event = some s' → s'.ops = s.ops ++ [.delete h] →
    ∀ p, p ≠ getShardPath h → s'.disk.read p = s.disk.read p
  ascending : (listShards s.disk none).Pairwise fun a b => hashKey a < hashKey b
  listed : ∀ h, h ∈ listShards s.disk none ↔ ∃ bytes, s.disk.read (getShardPath h) = some bytes
  listedDir : ∀ dir, listShards s.disk (some dir) =
    (listShards s.disk none).filter fun h => (toHex h).take 2 = dir
  listing : ∀ (i : Nat) dir space,
    s.tasks[i]? = some (.listing dir (listedDirs (dir.map String.toList)) []) →
      ∃ n s', Runs.exec (nodeStep cfg) s (List.replicate n (.step i space (.io 0))) = some s' ∧
        s'.sent = s.sent ++ [.listShardsResponse dir (listShards s.disk (dir.map String.toList))
          (availableSpace space)]
  files : ∀ p i, s.disk.names.lookup p = some i → Aside p ∨ ∃ h, p = getShardPath h
  pinned : ∀ name h, pinnedPath cfg.blake3 name ≠ getShardPath h
  temporary : ∀ p h, tmpExtension <:+ p.name → p ≠ getShardPath h

theorem deletes_one {past : List NodeEvent} (hinv : NodeInv cfg past s) {event : NodeEvent}
    {h : Digest} (hstep : nodeStep cfg s event = some s')
    (hops : s'.ops = s.ops ++ [.delete h]) (p : DiskPath) (hp : p ≠ getShardPath h) :
    s'.disk.read p = s.disk.read p := by
  have same : s'.ops = s.ops → s'.disk.read p = s.disk.read p := by
    intro heq
    rw [heq] at hops
    simp at hops
  cases event with
  | request salt space req => cases Option.some.inj hstep; exact same rfl
  | step i space input =>
    obtain ⟨t, hi, hstep⟩ := Option.bind_eq_some_iff.mp hstep
    obtain ⟨o, ho, rfl⟩ := Option.map_eq_some_iff.mp hstep
    have hop : o.op = some (.delete h) := by
      have := List.append_cancel_left hops
      cases hc : o.op with
      | none => simp [hc] at this
      | some op => simpa [hc] using this
    exact (stepOk_task hinv (List.mem_iff_getElem?.mpr ⟨_, hi⟩) ho).deletes h hop p hp
  | cancel i =>
    simp only [nodeStep] at hstep
    split at hstep
    next => cases Option.some.inj hstep; exact same rfl
    next => simp at hstep
  | restart pid removable => cases Option.some.inj hstep; exact same rfl
  | clock now => cases Option.some.inj hstep; exact same rfl

/-- The last 32 bytes from the end, so that streams with different salts have different
names. -/
def tailHash (data : Bytes) : Digest := referenceHash data.reverse

def sampleNode : NodeConfig where
  blake3 := tailHash
  scheme := sampleScheme
  nodeId := List.Vector.replicate 32 1
  allowedOwnerId := some (List.Vector.replicate 32 5)

def sampleToken (op : ShardOp) (shardHash : Digest) : ShardToken :=
  createShardToken sampleScheme (List.Vector.replicate 32 5) op shardHash 0

/-- Two uploads of one shard, streamed and in one frame, a crash in the middle of a third
one, and a retrieval. -/
def sampleUploads : List NodeEvent :=
  let hash := tailHash [7, 8]
  let room : Except String Nat := .ok (2 ^ 30)
  let init := fun salt : UInt8 => NodeEvent.request (List.Vector.replicate 16 salt) room
    (.storeShardStreamInit hash 0 2
      (sampleToken .store (streamBinding sampleNode hash 0)))
  [init 1, .request (List.Vector.replicate 16 0) room (.storeShard hash [7, 8] (sampleToken .store hash)),
    .step 0 room (.frame (.chunk [7, 8])), .step 0 room (.io 0), .step 1 room (.io 0),
    .step 1 room (.io 0), .step 0 room (.io 0), .step 1 room (.io 0), .step 0 room (.io 0),
    .step 1 room (.io 0), .step 0 room (.io 0), .step 0 room (.frame (.final hash)),
    .step 1 room (.io 0), .step 0 room (.io 0), .step 0 room (.io 0), init 2,
    .step 0 room (.frame (.chunk [7])), .step 0 room (.io 0), .restart 2 fun _ => true,
    .request (List.Vector.replicate 16 0) room (.retrieveShard hash (sampleToken .retrieve hash)),
    .step 0 room (.io 0), .step 0 room (.io 0), .step 0 room (.io 5), .step 0 room (.io 0)]

end Reminisce

import Reminisce.NodeTaskSteps

namespace Reminisce

open FileSystem ShardMap

section Answers

variable {cfg : NodeConfig} {env : NodeEnv} {d : ShardDisk} {ops : List StoreOp}
  {t : NodeTask} {input : TaskInput} {o : TaskOutcome}

/-- Looking a hash up is an operation of the map, whatever it finds. -/
theorem step_get (cfg : NodeConfig) (d : ShardDisk) (shardHash : Digest) (m : ShardMap)
    (hm : Represents d m) :
    ∃ m', Step cfg.blake3 m (.get shardHash (d.read (getShardPath shardHash))) m' ∧
      Represents d m' := by
  refine ⟨m, ?_, hm⟩
  rw [← hm shardHash]
  exact .get m shardHash

/-- A retrieval that finds nothing. -/
theorem stepOk_missing (hd : d.Sound) {target : ReadTarget}
    (hnone : d.names.lookup (target.path cfg) = none) :
    StepOk cfg env d ops t { finish env d [target.missing] with op := target.op none } := by
  have hread : d.read (target.path cfg) = none := by simp [Disk.read, hnone]
  cases target with
  | shard h =>
    refine stepOk_look hd rfl rfl rfl (fun m hm => hread ▸ step_get cfg d h m hm)
      (fun t' ht' => by simp [finish] at ht') ?_
    intro r hr
    cases List.mem_singleton.mp hr
    exact List.mem_append_right _ (List.mem_singleton.mpr rfl)
  | shardStream h =>
    refine stepOk_look hd rfl rfl rfl (fun m hm => hread ▸ step_get cfg d h m hm)
      (fun t' ht' => by simp [finish] at ht') ?_
    intro r hr
    cases List.mem_singleton.mp hr
    trivial
  | pinned name =>
    refine stepOk_finish hd ?_
    intro r hr
    cases List.mem_singleton.mp hr
    trivial

/-- An inode that is open as a shard has no name aside. -/
theorem sealed_of_shard (hd : d.Sound) {shardHash : Digest} {i : Nat}
    (hi : d.names.lookup (getShardPath shardHash) = some i) : d.Sealed Aside i := by
  refine ⟨hd.bounded _ _ hi, ?_⟩
  intro p hp
  rw [hd.separate p _ i hp hi]
  exact not_aside_shard shardHash

/-- A retrieval that opens its file. -/
theorem stepOk_open (hd : d.Sound)
    (hcontent : ∀ h bytes, d.read (getShardPath h) = some bytes → cfg.blake3 bytes = h)
    {target : ReadTarget} {i : Nat} {sent : List NodeReply} (howned : t.owned = none)
    (hi : d.names.lookup (target.path cfg) = some i) (hsent : ∀ ops, ∀ r ∈ sent, ReplyOk ops r) :
    StepOk cfg env d ops t
      { goOn env d (.reading target i []) with
        op := target.op (some (d.inodes i).bytes), sent } := by
  have hread : d.read (target.path cfg) = some (d.inodes i).bytes := by simp [Disk.read, hi]
  have shard : ∀ h, target.path cfg = getShardPath h →
      ReadOk cfg d (ops ++ [.get h (some (d.inodes i).bytes)]) h i [] := by
    intro h hpath
    rw [hpath] at hi hread
    exact ⟨sealed_of_shard hd hi, List.mem_append_right _ (List.mem_singleton.mpr rfl),
      hcontent h _ hread, List.nil_prefix⟩
  cases target with
  | shard h =>
    refine stepOk_look hd rfl rfl rfl (fun m hm => hread ▸ step_get cfg d h m hm) ?_ (hsent _)
    intro t' ht'
    cases Option.some.inj ht'
    refine ⟨howned.symm, ?_⟩
    intro h' hh'
    cases Option.some.inj hh'
    exact shard h rfl
  | shardStream h =>
    refine stepOk_look hd rfl rfl rfl (fun m hm => hread ▸ step_get cfg d h m hm) ?_ (hsent _)
    intro t' ht'
    cases Option.some.inj ht'
    refine ⟨howned.symm, ?_⟩
    intro h' hh'
    cases Option.some.inj hh'
    exact shard h rfl
  | pinned name =>
    have hquiet : StepOk cfg env d ops t (goOn env d (.reading (.pinned name) i [])) :=
      stepOk_goOn hd howned.symm fun h hh => by simp [ReadTarget.hash] at hh
    exact { hquiet with sent := fun r hr => hsent _ r hr }

/-- At the end of the file everything in it has been read. -/
theorem chunks_eq_of_drop {bytes : Bytes} {chunks : List Bytes} (hpre : chunks.flatten <+: bytes)
    (hend : bytes.drop chunks.flatten.length = []) : chunks.flatten = bytes := by
  obtain ⟨rest, rfl⟩ := hpre
  rw [List.drop_left] at hend
  rw [hend, List.append_nil]

theorem replyOk_answer {target : ReadTarget} {ino : Nat} {chunks : List Bytes}
    (ht : ∀ h, target.hash = some h → ReadOk cfg d ops h ino chunks)
    (hend : (d.inodes ino).bytes.drop chunks.flatten.length = []) :
    ReplyOk ops (target.answer cfg chunks) := by
  cases target with
  | shard h =>
    have hr := ht h rfl
    simp only [ReadTarget.answer, ReplyOk]
    rw [chunks_eq_of_drop hr.chunks hend]
    exact hr.opened
  | shardStream h =>
    have hr := ht h rfl
    simp only [ReadTarget.answer, ReplyOk]
    rw [chunks_eq_of_drop hr.chunks hend]
    exact ⟨hr.opened, hr.hash⟩
  | pinned name => trivial

theorem ReadOk.more {shardHash : Digest} {ino n : Nat} {chunks : List Bytes} {b : UInt8}
    {rest : Bytes} (h : ReadOk cfg d ops shardHash ino chunks)
    (hrest : (d.inodes ino).bytes.drop chunks.flatten.length = b :: rest) :
    ReadOk cfg d ops shardHash ino (chunks ++ [(b :: rest).take (n + 1)]) := by
  refine ⟨h.closed, h.opened, h.hash, ?_⟩
  obtain ⟨tail, htail⟩ := h.chunks
  rw [← htail, List.drop_left] at hrest
  rw [← htail, hrest, List.flatten_append, List.flatten_cons, List.flatten_nil, List.append_nil]
  have htake := List.take_prefix (n + 1) (b :: rest)
  exact (List.prefix_append_right_inj _).mpr htake

theorem stepOk_read (hd : d.Sound)
    (hcontent : ∀ h bytes, d.read (getShardPath h) = some bytes → cfg.blake3 bytes = h)
    (ht : TaskOk cfg d ops t) (h : readTaskStep env d cfg t input = some o) :
    StepOk cfg env d ops t o := by
  have hempty : ∀ r ∈ ([] : List NodeReply), ReplyOk ops r := fun r hr => absurd hr List.not_mem_nil
  unfold readTaskStep at h
  split at h
  next target _ =>
    split at h
    next hnone =>
      cases Option.some.inj h
      exact stepOk_missing hd hnone
    next =>
      split at h <;> cases Option.some.inj h <;> exact stepOk_goOn hd rfl trivial
  next =>
    split at h
    next =>
      cases Option.some.inj h
      exact stepOk_finish hd hempty
    next =>
      cases Option.some.inj h
      exact stepOk_goOn hd rfl trivial
  next =>
    cases Option.some.inj h
    exact stepOk_finish hd hempty
  next target totalBytes _ =>
    split at h
    next =>
      cases Option.some.inj h
      exact stepOk_finish hd hempty
    next i hi =>
      cases Option.some.inj h
      refine stepOk_open hd hcontent rfl hi ?_
      intro ops r hr
      cases target with
      | shardStream hash =>
        cases List.mem_singleton.mp hr
        trivial
      | _ => exact absurd hr List.not_mem_nil
  next =>
    cases Option.some.inj h
    exact stepOk_finish hd hempty
  next target ino chunks n =>
    split at h
    next hend =>
      cases Option.some.inj h
      refine stepOk_finish hd ?_
      intro r hr
      cases List.mem_singleton.mp hr
      exact replyOk_answer ht hend
    next b rest hrest =>
      cases Option.some.inj h
      exact stepOk_goOn hd rfl fun hash hh => (ht hash hh).more hrest
  next =>
    cases Option.some.inj h
    exact stepOk_finish hd hempty
  next => simp at h

theorem deleteAnswer_ok {shardHash : Digest} {success : Bool} (ops : List StoreOp) :
    ∀ r ∈ [NodeReply.deleteShardResponse shardHash success], ReplyOk ops r := by
  intro r hr
  cases List.mem_singleton.mp hr
  trivial

/-- Deleting a hash that is not stored leaves the map as it is. -/
theorem step_delete_absent (cfg : NodeConfig) {shardHash : Digest}
    (hnone : d.names.lookup (getShardPath shardHash) = none) (m : ShardMap)
    (hm : Represents d m) :
    ∃ m', Step cfg.blake3 m (.delete shardHash) m' ∧ Represents d m' := by
  refine ⟨m.erase shardHash, .delete m shardHash, ?_⟩
  intro hash
  by_cases hk : hash = shardHash
  · subst hk
    simp [Disk.read, hnone]
  · rw [Finmap.lookup_erase_ne hk, hm hash]

theorem stepOk_delete (hd : d.Sound) (h : deleteTaskStep env d t input = some o) :
    StepOk cfg env d ops t o := by
  unfold deleteTaskStep at h
  split at h
  next shardHash _ =>
    split at h
    next hnone =>
      cases Option.some.inj h
      exact stepOk_look hd rfl rfl rfl (step_delete_absent cfg hnone)
        (fun t' ht' => by simp [finish] at ht') (deleteAnswer_ok _)
    next =>
      cases Option.some.inj h
      exact stepOk_goOn hd rfl trivial
  next shardHash _ =>
    split at h
    next =>
      cases Option.some.inj h
      exact stepOk_finish hd (deleteAnswer_ok ops)
    next =>
      cases Option.some.inj h
      exact stepOk_remove hd fun ops => deleteAnswer_ok ops
  next =>
    cases Option.some.inj h
    exact stepOk_finish hd (deleteAnswer_ok ops)
  next => simp at h

theorem pinnedAnswer_ok {success : Bool} (ops : List StoreOp) :
    ∀ r ∈ [NodeReply.storePinnedResponse success], ReplyOk ops r := by
  intro r hr
  cases List.mem_singleton.mp hr
  trivial

theorem lookup_create_of_some {p q : DiskPath} {i now : Nat} (hi : d.names.lookup p = some i) :
    (d.create q now).1.names.lookup p = some i := by
  simp only [Disk.create, Disk.put, Disk.openAppend]
  split
  next => exact hi
  next hnone =>
    have hne : p ≠ q := by
      rintro rfl
      simp [hi] at hnone
    exact (AList.lookup_insert_ne hne).trans hi

theorem stepOk_pinned (hd : d.Sound) (ht : TaskOk cfg d ops t)
    (h : pinnedTaskStep env d cfg t input = some o) : StepOk cfg env d ops t o := by
  have hempty : ∀ r ∈ ([] : List NodeReply), ReplyOk ops r := fun r hr => absurd hr List.not_mem_nil
  unfold pinnedTaskStep at h
  split at h
  next name data _ =>
    cases Option.some.inj h
    have hp := aside_pinnedPath cfg.blake3 name
    refine stepOk_aside hp (.inr ⟨name, rfl⟩) (Disk.touches_create hd hp env.now)
      (fun other i hi => lookup_create_of_some hi) rfl rfl ?_ hempty
    intro t' ht'
    cases Option.some.inj ht'
    exact ⟨rfl, Disk.lookup_openAppend d _ env.now⟩
  next =>
    cases Option.some.inj h
    exact stepOk_finish hd (pinnedAnswer_ok ops)
  next name ino offset todo n =>
    split at h
    next =>
      cases Option.some.inj h
      exact stepOk_finish hd (pinnedAnswer_ok ops)
    next =>
      cases Option.some.inj h
      have hp := aside_pinnedPath cfg.blake3 name
      refine stepOk_aside hp (.inr ⟨name, rfl⟩) (Disk.touches_put hd hp ht _)
        (fun other i hi => hi) rfl rfl ?_ hempty
      intro t' ht'
      cases Option.some.inj ht'
      exact ⟨rfl, ht⟩
  next =>
    cases Option.some.inj h
    exact stepOk_finish hd (pinnedAnswer_ok ops)
  next => simp at h

theorem stepOk_listing (hd : d.Sound) (htidy : Tidy d) (ht : TaskOk cfg d ops t)
    (h : listingTaskStep env d t input = some o) : StepOk cfg env d ops t o := by
  unfold listingTaskStep at h
  split at h
  next dir found _ =>
    cases Option.some.inj h
    refine stepOk_finish hd ?_
    intro r hr
    cases List.mem_singleton.mp hr
    intro hash hmem
    exact ht hash ((perm_sortHashes found).mem_iff.mp hmem)
  next dir next todo found _ =>
    cases Option.some.inj h
    refine stepOk_look hd rfl rfl rfl (fun m hm => ⟨m, hm.scan htidy next, hm⟩) ?_
      (fun r hr => absurd hr List.not_mem_nil)
    intro t' ht'
    cases Option.some.inj ht'
    refine ⟨rfl, ?_⟩
    intro hash hmem
    rcases List.mem_append.mp hmem with hold | hnew
    · exact Scanned.mono ht hash hold
    · exact ⟨next, _, hnew, List.mem_append_right _ (List.mem_singleton.mpr rfl)⟩
  next =>
    cases Option.some.inj h
    exact stepOk_goOn hd rfl ht
  next => simp at h

/-- Every step of every task, from a node that meets the invariant. -/
theorem stepOk_task {past : List NodeEvent} {s : NodeState} {space : Except String Nat}
    (hinv : NodeInv cfg past s) (hmem : t ∈ s.tasks)
    (h : taskStep cfg (s.env space) s.disk t input = some o) :
    StepOk cfg (s.env space) s.disk s.ops t o := by
  have ht := hinv.tasks t hmem
  have hown : OwnsAside cfg t := fun p hp =>
    ⟨(hinv.owned t hmem p hp).aside, (hinv.owned t hmem p hp).not_shared⟩
  have hcontent : ∀ hash bytes, s.disk.read (getShardPath hash) = some bytes →
      cfg.blake3 bytes = hash := fun hash bytes => hinv.content
  unfold taskStep at h
  split at h
  all_goals first
    | exact stepOk_store hinv.sound hown ht h
    | exact stepOk_stream hinv.sound hown ht h
    | exact stepOk_finalize hinv.sound hown ht h
    | exact stepOk_read hinv.sound hcontent ht h
    | exact stepOk_delete hinv.sound h
    | exact stepOk_pinned hinv.sound ht h
    | exact stepOk_listing hinv.sound hinv.tidy ht h

end Answers

variable {cfg : NodeConfig} {past : List NodeEvent} {s : NodeState} {t : NodeTask}

/-- Where the task at a place stood before another one moved on. -/
def placeBefore (i : Nat) (next : Option NodeTask) (j : Nat) : Nat :=
  if next.isSome ∨ j < i then j else j + 1

theorem placeBefore_injective {i j k : Nat} {next : Option NodeTask} (hne : j ≠ k) :
    placeBefore i next j ≠ placeBefore i next k := by
  unfold placeBefore
  split <;> split <;> simp_all <;> omega

theorem resume_getElem? {tasks : List NodeTask} {i j : Nat} {next : Option NodeTask}
    (h : (resume tasks i next)[j]? = some t) :
    (placeBefore i next j = i ∧ next = some t) ∨
      (placeBefore i next j ≠ i ∧ tasks[placeBefore i next j]? = some t) := by
  cases next with
  | some t' =>
    simp only [resume, List.getElem?_set] at h
    simp only [placeBefore, Option.isSome_some, true_or, if_true]
    split at h
    next hij =>
      split at h
      next => exact .inl ⟨hij.symm, h⟩
      next => simp at h
    next hij => exact .inr ⟨fun hji => hij hji.symm, h⟩
  | none =>
    simp only [resume, List.getElem?_eraseIdx] at h
    simp only [placeBefore, Option.isSome_none, Bool.false_eq_true, false_or]
    split at h
    next hij => exact .inr ⟨by simp [hij]; omega, by simpa [hij] using h⟩
    next hij => exact .inr ⟨by simp [hij]; omega, by simpa [hij] using h⟩

theorem mem_resume {tasks : List NodeTask} {i : Nat} {next : Option NodeTask}
    (h : t ∈ resume tasks i next) : next = some t ∨ ∃ j ≠ i, tasks[j]? = some t := by
  obtain ⟨j, hj⟩ := List.mem_iff_getElem?.mp h
  rcases resume_getElem? hj with ⟨_, hnext⟩ | ⟨hne, hold⟩
  · exact .inl hnext
  · exact .inr ⟨_, hne, hold⟩

/-- A sibling that is being made is none of those made before. -/
theorem OwnedPath.ne_sibling {seq pid nanos : Nat} {h : Digest} {p : DiskPath}
    (hp : OwnedPath cfg past seq p) : p ≠ uniqueTempSibling (getShardPath h) pid nanos seq := by
  rintro rfl
  rcases hp with ⟨h', pid', nanos', n, hn, heq⟩ | ⟨input, _, heq⟩
  · have := sibling_seq heq
    omega
  · exact tempPath_ne_sibling _ _ _ _ _ heq.symm

section After

variable {i : Nat} {space : Except String Nat} {o : TaskOutcome}

theorem apart_after (hinv : NodeInv cfg past s) (hi : s.tasks[i]? = some t)
    (hstep : StepOk cfg (s.env space) s.disk s.ops t o) : Apart (resume s.tasks i o.next) := by
  have hmem : ∀ {j b}, s.tasks[j]? = some b → b ∈ s.tasks := fun h => List.mem_iff_getElem?.mpr ⟨_, h⟩
  have moved : ∀ (j : Nat) a b p, j ≠ i → o.next = some a → s.tasks[j]? = some b →
      a.owned = some p → b.owned ≠ some p := by
    intro j a b p hne hnext hb hp hbp
    rcases hstep.owned a hnext with heq | ⟨_, _, h, hfresh⟩
    · exact hinv.apart i j t b p hne.symm hi hb (heq ▸ hp) hbp
    · have hpath := hinv.owned b (hmem hb) p hbp
      rw [hfresh] at hp
      exact hpath.ne_sibling (Option.some.inj hp).symm
  intro j k a b p hjk ha hb hp hbp
  have hplace : placeBefore i o.next j ≠ placeBefore i o.next k := placeBefore_injective hjk
  rcases resume_getElem? ha with ⟨hja, hna⟩ | ⟨hja, hoa⟩ <;>
    rcases resume_getElem? hb with ⟨hkb, hnb⟩ | ⟨hkb, hob⟩
  · exact hplace (hja.trans hkb.symm)
  · exact moved _ a b p hkb hna hob hp hbp
  · exact moved _ b a p hja hnb hoa hbp hp
  · exact hinv.apart _ _ a b p hplace hoa hob hp hbp

theorem nodeInv_after (hinv : NodeInv cfg past s) (hi : s.tasks[i]? = some t)
    (hstep : StepOk cfg (s.env space) s.disk s.ops t o) : NodeInv cfg past (s.after i o) where
  sound := hstep.touches.sound
  known := by
    have hmem : t ∈ s.tasks := List.mem_iff_getElem?.mpr ⟨_, hi⟩
    intro p ino hp
    by_cases hreach : t.owned = some p ∨ SharedPath cfg p
    · rcases hreach with howned | hshared
      · exact .inr ⟨_, hinv.owned t hmem p howned⟩
      · exact .inl hshared
    · exact hinv.known p ino ((hstep.touches.names p hreach).symm.trans hp)
  tasks := by
    intro t' ht'
    rcases mem_resume ht' with hnext | ⟨j, hj, hold⟩
    · exact hstep.next t' hnext
    · have hmem' : t' ∈ s.tasks := List.mem_iff_getElem?.mpr ⟨_, hold⟩
      refine (hinv.tasks t' hmem').of_touches hstep.touches ?_ hstep.pinned
      rintro p hp (howned | hshared)
      · exact hinv.apart i j t t' p hj.symm hi hold howned hp
      · exact (hinv.owned t' hmem' p hp).not_shared hshared
  owned := by
    intro t' ht' p hp
    have grow : ∀ a, a ∈ s.tasks → a.owned = some p → OwnedPath cfg past o.seq p := by
      intro a ha hap
      exact (hinv.owned a ha p hap).later hstep.seq
    rcases mem_resume ht' with hnext | ⟨j, _, hold⟩
    · rcases hstep.owned t' hnext with heq | ⟨_, hlt, h, hfresh⟩
      · exact grow t (List.mem_iff_getElem?.mpr ⟨_, hi⟩) (heq ▸ hp)
      · rw [hfresh] at hp
        exact .inl ⟨h, _, _, _, hlt, (Option.some.inj hp).symm⟩
    · exact grow t' (List.mem_iff_getElem?.mpr ⟨_, hold⟩) hp
  apart := apart_after hinv hi hstep
  map := by
    obtain ⟨m, hops, hm⟩ := hinv.map
    exact hstep.map m hops hm
  sent := by
    intro r hr
    rcases List.mem_append.mp hr with hold | hnew
    · exact (hinv.sent r hold).mono
    · exact hstep.sent r hnew

end After

theorem nodeInv_step {i : Nat} {space : Except String Nat} {input : TaskInput} {s' : NodeState}
    (hinv : NodeInv cfg past s) (h : nodeStep cfg s (.step i space input) = some s') :
    NodeInv cfg past s' := by
  obtain ⟨t, hi, h⟩ := Option.bind_eq_some_iff.mp h
  obtain ⟨o, ho, rfl⟩ := Option.map_eq_some_iff.mp h
  exact nodeInv_after hinv hi (stepOk_task hinv (List.mem_iff_getElem?.mpr ⟨_, hi⟩) ho)

/-- Dropping a stream is a step without an effect. -/
theorem nodeInv_cancel {i : Nat} {s' : NodeState} (hinv : NodeInv cfg past s)
    (h : nodeStep cfg s (.cancel i) = some s') : NodeInv cfg past s' := by
  simp only [nodeStep] at h
  split at h
  next hlt =>
    cases Option.some.inj h
    have hi := List.getElem?_eq_getElem hlt
    have hstep : StepOk cfg (s.env (.ok 0)) s.disk s.ops s.tasks[i] (finish (s.env (.ok 0)) s.disk []) :=
      stepOk_finish hinv.sound fun r hr => absurd hr List.not_mem_nil
    simpa [NodeState.after, finish, resume, NodeState.env] using nodeInv_after hinv hi hstep
  next => simp at h

end Reminisce

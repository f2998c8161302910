import Reminisce.RetrievableShards

namespace Reminisce

open FileSystem ShardMap

/-- What comes to a node came in a frame. -/
def NodeEvent.Framed : NodeEvent → Prop
  | .request _ _ (.storeShard shardHash data token) =>
    (Message.storeShardRequest shardHash data token).frame.isSome
  | .step _ _ (.frame (.chunk data)) => (Message.storeShardChunk data).frame.isSome
  | _ => True

/-- A stream that is finalized has received a shard that can be relayed. -/
def FinalizedRelayable (s : NodeState) : NodeEvent → Prop
  | .step i _ (.frame (.final _)) => ∀ tmp received,
      s.tasks[i]? = some (.receiving tmp received) → received.length ≤ maxRelayable
  | _ => True

/-- What a task is about to store can be relayed. -/
def TaskRelayable (d : ShardDisk) : NodeTask → Prop
  | .storePrepare _ data => data.length ≤ maxRelayable
  | .storeCreate _ data _ => data.length ≤ maxRelayable
  | .storeWrite _ _ ino todo => ((d.inodes ino).bytes ++ todo).length ≤ maxRelayable
  | .finalizeOpen _ received _ => received.length ≤ maxRelayable
  | .finalizeRename tmp _ => ∀ bytes, d.read tmp = some bytes → bytes.length ≤ maxRelayable
  | _ => True

/-- Whatever is put can be relayed. -/
def PutsRelayable (ops : List StoreOp) : Prop :=
  ∀ shardHash data, .put shardHash data ∈ ops → data.length ≤ maxRelayable

structure NodeRelayable (s : NodeState) : Prop where
  tasks : ∀ t ∈ s.tasks, TaskRelayable s.disk t
  puts : PutsRelayable s.ops

/-- What a step of one task leads to. -/
structure OutcomeRelayable (o : TaskOutcome) : Prop where
  next : ∀ t, o.next = some t → TaskRelayable o.disk t
  put : PutsRelayable o.op.toList

variable {cfg : NodeConfig} {env : NodeEnv} {past events : List NodeEvent} {s s' : NodeState}
  {d e : ShardDisk} {ops : List StoreOp} {t : NodeTask} {input : TaskInput} {o : TaskOutcome}

theorem TaskRelayable.of_touches {touched : DiskPath → Prop} (h : TaskRelayable d t)
    (hok : TaskOk cfg d ops t) (ht : Disk.Touches Aside touched d e)
    (howned : ∀ p, t.owned = some p → ¬touched p) : TaskRelayable e t := by
  cases t with
  | storeWrite hash tmp ino todo =>
    have hbytes := ht.bytes tmp ino (howned tmp rfl) hok.1
    simp only [TaskRelayable] at h ⊢
    rw [hbytes]
    exact h
  | finalizeRename tmp hash =>
    intro bytes hread
    rw [ht.read (howned tmp rfl)] at hread
    exact h bytes hread
  | _ => exact h

theorem outcomeRelayable_finish {sent : List NodeReply} : OutcomeRelayable (finish env d sent) :=
  ⟨fun t ht => by simp [finish] at ht, fun shardHash data h => by simp [finish] at h⟩

theorem outcomeRelayable_goOn (h : TaskRelayable d t) : OutcomeRelayable (goOn env d t) := by
  refine ⟨fun t' ht' => ?_, fun shardHash data hput => by simp [goOn] at hput⟩
  cases Option.some.inj ht'
  exact h

theorem outcomeRelayable_store (ht : TaskOk cfg d ops t) (hfits : TaskRelayable d t)
    (h : storeTaskStep env d t input = some o) : OutcomeRelayable o := by
  unfold storeTaskStep at h
  split at h
  next shardHash data _ =>
    split at h
    next => cases Option.some.inj h; exact outcomeRelayable_finish
    next =>
      cases Option.some.inj h
      refine ⟨fun t' ht' => ?_, fun shardHash data hput => by simp [goOn] at hput⟩
      cases Option.some.inj ht'
      exact hfits
  next => cases Option.some.inj h; exact outcomeRelayable_finish
  next shardHash data tmp _ =>
    cases Option.some.inj h
    refine outcomeRelayable_goOn ?_
    simpa [TaskRelayable, Disk.create, Disk.put] using hfits
  next => cases Option.some.inj h; exact outcomeRelayable_goOn trivial
  next shardHash tmp ino todo n =>
    split at h
    next =>
      obtain ⟨hino, -⟩ := ht
      rw [hino] at h
      cases Option.some.inj h
      refine ⟨fun t' ht' => by simp [storeAnswer, finish] at ht', fun hash data hput => ?_⟩
      obtain ⟨-, rfl⟩ := StoreOp.put.inj (List.mem_singleton.mp hput)
      simpa [TaskRelayable] using hfits
    next =>
      cases Option.some.inj h
      refine outcomeRelayable_goOn ?_
      simp only [TaskRelayable, inodes_append_self, append_take_drop]
      exact hfits
  next => cases Option.some.inj h; exact outcomeRelayable_goOn trivial
  next => cases Option.some.inj h; exact outcomeRelayable_finish
  next => cases Option.some.inj h; exact outcomeRelayable_finish
  next => simp at h

theorem outcomeRelayable_stream {i : Nat} {space : Except String Nat}
    (hi : s.tasks[i]? = some t) (hcond : FinalizedRelayable s (.step i space input))
    (h : streamTaskStep env d cfg t input = some o) : OutcomeRelayable o := by
  unfold streamTaskStep at h
  split at h
  next =>
    split at h <;> cases Option.some.inj h <;> exact outcomeRelayable_goOn trivial
  next tmp received shardHash =>
    split at h
    next =>
      cases Option.some.inj h
      exact outcomeRelayable_goOn (hcond tmp received hi)
    next => cases Option.some.inj h; exact outcomeRelayable_goOn trivial
  next => cases Option.some.inj h; exact outcomeRelayable_goOn trivial
  next => cases Option.some.inj h; exact outcomeRelayable_goOn trivial
  next =>
    split at h
    next => cases Option.some.inj h; exact outcomeRelayable_goOn trivial
    next => split at h <;> cases Option.some.inj h <;> exact outcomeRelayable_goOn trivial
  next => cases Option.some.inj h; exact outcomeRelayable_goOn trivial
  next => split at h <;> cases Option.some.inj h <;> exact outcomeRelayable_goOn trivial
  next => cases Option.some.inj h; exact outcomeRelayable_goOn trivial
  next tmp answer _ =>
    cases Option.some.inj h
    split <;> exact outcomeRelayable_finish
  next tmp answer =>
    cases Option.some.inj h
    split <;> exact outcomeRelayable_finish
  next => simp at h

theorem outcomeRelayable_finalize (ht : TaskOk cfg d ops t) (hfits : TaskRelayable d t)
    (h : finalizeTaskStep env d t input = some o) : OutcomeRelayable o := by
  unfold finalizeTaskStep at h
  split at h
  next tmp received shardHash n =>
    obtain ⟨hread, -⟩ := ht
    split at h
    next =>
      cases Option.some.inj h
      refine outcomeRelayable_goOn fun bytes hbytes => ?_
      rw [hbytes, Option.getD_some] at hread
      rw [hread]
      exact hfits
    next => cases Option.some.inj h; exact outcomeRelayable_finish
  next tmp shardHash n =>
    split at h
    next ino hino =>
      cases Option.some.inj h
      refine ⟨fun t' ht' => by simp [streamAnswer, finish] at ht', fun hash data hput => ?_⟩
      obtain ⟨-, rfl⟩ := StoreOp.put.inj (List.mem_singleton.mp hput)
      exact hfits _ (Disk.read_of_lookup hino)
    next => cases Option.some.inj h; exact outcomeRelayable_finish
  next => cases Option.some.inj h; exact outcomeRelayable_finish
  next => cases Option.some.inj h; exact outcomeRelayable_finish
  next => simp at h

theorem putsRelayable_op (target : ReadTarget) (result : Option Bytes) :
    PutsRelayable (target.op result).toList := by
  intro shardHash data h
  cases target <;> simp [ReadTarget.op] at h

theorem outcomeRelayable_read (h : readTaskStep env d cfg t input = some o) :
    OutcomeRelayable o := by
  unfold readTaskStep at h
  split at h
  next target _ =>
    split at h
    next =>
      cases Option.some.inj h
      exact ⟨fun t' ht' => by simp [finish] at ht', putsRelayable_op target none⟩
    next => split at h <;> cases Option.some.inj h <;> exact outcomeRelayable_goOn trivial
  next =>
    split at h
    next => cases Option.some.inj h; exact outcomeRelayable_finish
    next => cases Option.some.inj h; exact outcomeRelayable_goOn trivial
  next => cases Option.some.inj h; exact outcomeRelayable_finish
  next target totalBytes _ =>
    split at h
    next => cases Option.some.inj h; exact outcomeRelayable_finish
    next i _ =>
      cases Option.some.inj h
      refine ⟨fun t' ht' => ?_, putsRelayable_op target _⟩
      cases Option.some.inj ht'
      trivial
  next => cases Option.some.inj h; exact outcomeRelayable_finish
  next =>
    split at h
    next => cases Option.some.inj h; exact outcomeRelayable_finish
    next => cases Option.some.inj h; exact outcomeRelayable_goOn trivial
  next => cases Option.some.inj h; exact outcomeRelayable_finish
  next => simp at h

theorem outcomeRelayable_delete (h : deleteTaskStep env d t input = some o) :
    OutcomeRelayable o := by
  unfold deleteTaskStep at h
  split at h
  next =>
    split at h
    next =>
      cases Option.some.inj h
      exact ⟨fun t' ht' => by simp [finish] at ht', fun hash data hput => by simp at hput⟩
    next => cases Option.some.inj h; exact outcomeRelayable_goOn trivial
  next =>
    split at h
    next => cases Option.some.inj h; exact outcomeRelayable_finish
    next =>
      cases Option.some.inj h
      exact ⟨fun t' ht' => by simp [finish] at ht', fun hash data hput => by simp at hput⟩
  next => cases Option.some.inj h; exact outcomeRelayable_finish
  next => simp at h

theorem outcomeRelayable_pinned (h : pinnedTaskStep env d cfg t input = some o) :
    OutcomeRelayable o := by
  unfold pinnedTaskStep at h
  split at h
  next => cases Option.some.inj h; exact outcomeRelayable_goOn trivial
  next => cases Option.some.inj h; exact outcomeRelayable_finish
  next =>
    split at h
    next => cases Option.some.inj h; exact outcomeRelayable_finish
    next => cases Option.some.inj h; exact outcomeRelayable_goOn trivial
  next => cases Option.some.inj h; exact outcomeRelayable_finish
  next => simp at h

theorem outcomeRelayable_listing (h : listingTaskStep env d t input = some o) :
    OutcomeRelayable o := by
  unfold listingTaskStep at h
  split at h
  next => cases Option.some.inj h; exact outcomeRelayable_finish
  next =>
    cases Option.some.inj h
    refine ⟨fun t' ht' => ?_, fun hash data hput => by simp at hput⟩
    cases Option.some.inj ht'
    trivial
  next => cases Option.some.inj h; exact outcomeRelayable_goOn trivial
  next => simp at h

theorem outcomeRelayable_task {i : Nat} {space : Except String Nat}
    (hi : s.tasks[i]? = some t) (hcond : FinalizedRelayable s (.step i space input))
    (ht : TaskOk cfg d ops t) (hfits : TaskRelayable d t)
    (h : taskStep cfg env d t input = some o) : OutcomeRelayable o := by
  unfold taskStep at h
  split at h
  all_goals first
    | exact outcomeRelayable_store ht hfits h
    | exact outcomeRelayable_stream hi hcond h
    | exact outcomeRelayable_finalize ht hfits h
    | exact outcomeRelayable_read h
    | exact outcomeRelayable_delete h
    | exact outcomeRelayable_pinned h
    | exact outcomeRelayable_listing h

theorem nodeRelayable_step {i : Nat} {space : Except String Nat} (hinv : NodeInv cfg past s)
    (hfits : NodeRelayable s) (hcond : FinalizedRelayable s (.step i space input))
    (h : nodeStep cfg s (.step i space input) = some s') : NodeRelayable s' := by
  obtain ⟨t, hi, h⟩ := Option.bind_eq_some_iff.mp h
  obtain ⟨o, ho, rfl⟩ := Option.map_eq_some_iff.mp h
  have hmem : t ∈ s.tasks := List.mem_iff_getElem?.mpr ⟨_, hi⟩
  have hstep := stepOk_task hinv hmem ho
  have hout := outcomeRelayable_task hi hcond (hinv.tasks t hmem) (hfits.tasks t hmem) ho
  refine ⟨fun t' ht' => ?_, fun hash data hput => ?_⟩
  · rcases mem_resume ht' with hnext | ⟨j, hj, hold⟩
    · exact hout.next t' hnext
    · have hmem' : t' ∈ s.tasks := List.mem_iff_getElem?.mpr ⟨_, hold⟩
      refine (hfits.tasks t' hmem').of_touches (hinv.tasks t' hmem') hstep.touches ?_
      rintro p hp (howned | hshared)
      · exact hinv.apart i j t t' p hj.symm hi hold howned hp
      · exact (hinv.owned t' hmem' p hp).not_shared hshared
  · rcases List.mem_append.mp hput with hold | hnew
    · exact hfits.puts hash data hold
    · exact hout.put hash data hnew

theorem nodeRelayable_request {salt : Salt} {space : Except String Nat} {req : NodeRequest}
    (hfits : NodeRelayable s) (hframed : (NodeEvent.request salt space req).Framed)
    (h : nodeStep cfg s (.request salt space req) = some s') : NodeRelayable s' := by
  cases Option.some.inj h
  refine ⟨fun t ht => ?_, hfits.puts⟩
  rcases List.mem_append.mp ht with hold | hnew
  · exact hfits.tasks t hold
  · have hsome : (handleRequest cfg (s.env space) salt req).1 = some t := Option.mem_toList.mp hnew
    cases req <;> simp only [handleRequest] at hsome
    case storeShard hash data token =>
      split at hsome
      next => simp at hsome
      next =>
        split at hsome
        next =>
          cases Option.some.inj hsome
          have hlen := frame_isSome.mp hframed
          rw [length_serialize_store] at hlen
          simp only [TaskRelayable, maxRelayable]
          omega
        next => simp at hsome
    case handshake => split at hsome <;> simp at hsome
    case heartbeat | other => simp at hsome
    case storeShardStreamInit =>
      split at hsome
      next => simp at hsome
      next =>
        split at hsome
        next => cases Option.some.inj hsome; trivial
        next => simp at hsome
    all_goals
      split at hsome
      next => cases Option.some.inj hsome; trivial
      next => simp at hsome

theorem nodeRelayable_nodeStep {event : NodeEvent} (hinv : NodeInv cfg past s)
    (hfits : NodeRelayable s) (hframed : event.Framed) (hcond : FinalizedRelayable s event)
    (h : nodeStep cfg s event = some s') : NodeRelayable s' := by
  cases event with
  | request salt space req => exact nodeRelayable_request hfits hframed h
  | step i space input => exact nodeRelayable_step hinv hfits hcond h
  | cancel i =>
    simp only [nodeStep] at h
    split at h
    next =>
      cases Option.some.inj h
      exact ⟨fun t ht => hfits.tasks t (List.mem_of_mem_eraseIdx ht), hfits.puts⟩
    next => simp at h
  | restart pid removable =>
    cases Option.some.inj h
    exact ⟨fun t ht => absurd ht List.not_mem_nil, hfits.puts⟩
  | clock now =>
    cases Option.some.inj h
    exact ⟨hfits.tasks, hfits.puts⟩

theorem nodeRelayable_run {pid : Nat} (hsalts : SaltsDistinct cfg events)
    (hframed : ∀ event ∈ events, event.Framed)
    (hcond : Runs.Meets (nodeStep cfg) FinalizedRelayable (.init pid) events)
    (h : Runs.exec (nodeStep cfg) (.init pid) events = some s) : NodeRelayable s := by
  induction events using List.reverseRecOn generalizing s with
  | nil =>
    cases Option.some.inj h
    exact ⟨fun t ht => absurd ht List.not_mem_nil, fun hash data hput => absurd hput List.not_mem_nil⟩
  | append_singleton past event ih =>
    obtain ⟨u, hu, hstep⟩ := Runs.exec_concat h
    obtain ⟨hpast, hlast⟩ := Runs.meets_append hcond hu
    have hbefore : SaltsDistinct cfg past := saltsDistinct_dropLast hsalts
    have hfits := ih hbefore (fun e he => hframed e (List.mem_append_left _ he)) hpast hu
    exact nodeRelayable_nodeStep (nodeInv_run hbefore hu) hfits
      (hframed event (List.mem_append_right _ (List.mem_singleton.mpr rfl))) hlast.1 hstep

/-- A shard in the map was put. -/
theorem ShardMap.Replays.put_of_lookup {blake3 : Bytes → Digest} {m : ShardMap} {shardHash : Digest}
    {data : Bytes} (h : Replays blake3 ops m) (hm : m.lookup shardHash = some data) :
    .put shardHash data ∈ ops := by
  induction h with
  | nil => simp at hm
  | snoc ops op m m' _ hstep ih =>
    cases hstep with
    | put hash bytes =>
      by_cases hk : shardHash = hash
      · subst hk
        rw [Finmap.lookup_insert] at hm
        cases Option.some.inj hm
        exact List.mem_append_right _ (List.mem_singleton.mpr rfl)
      · rw [Finmap.lookup_insert_of_ne m hk] at hm
        exact List.mem_append_left _ (ih hm)
    | get => exact List.mem_append_left _ (ih hm)
    | delete hash =>
      by_cases hk : shardHash = hash
      · subst hk
        simp at hm
      · rw [Finmap.lookup_erase_ne hk] at hm
        exact List.mem_append_left _ (ih hm)
    | scan => exact List.mem_append_left _ (ih hm)

theorem exec_task {i : Nat} {space : Except String Nat} {rest : List NodeEvent}
    (hi : s.tasks[i]? = some t) (h : taskStep cfg (s.env space) s.disk t input = some o) :
    Runs.exec (nodeStep cfg) s (.step i space input :: rest) =
      Runs.exec (nodeStep cfg) (s.after i o) rest := by
  rw [Runs.exec, nodeStep_task hi h, Option.bind_some]

/-- A chunk with nothing in between is written, whatever length was declared. -/
theorem chunk_alone {i : Nat} {tmp : DiskPath} {received data : Bytes} {space : Except String Nat}
    (hi : s.tasks[i]? = some (.receiving tmp received)) (hne : data ≠ [])
    (hlen : (received ++ data).length ≤ maxShardBytes)
    (hspace : ensureSufficientSpace space = .ok ()) :
    ∃ u, Runs.exec (nodeStep cfg) s [.step i space (.frame (.chunk data)), .step i space (.io 0),
        .step i space (.io data.length), .step i space (.io 0)] = some u ∧
      u.tasks[i]? = some (.receiving tmp (received ++ data)) := by
  have hdata : ¬maxShardBytes < data.length := by
    rw [List.length_append] at hlen
    omega
  have hchunk : taskStep cfg (s.env space) s.disk (.receiving tmp received) (.frame (.chunk data)) =
      some (goOn (s.env space) s.disk (.chunkOpen tmp (received ++ data) data)) := by
    rw [taskStep, streamTaskStep, if_neg (Nat.not_lt.mpr hlen)]
  rw [exec_task hi hchunk]
  have hopen := getElem?_after hi (o := goOn (s.env space) s.disk
    (.chunkOpen tmp (received ++ data) data)) rfl
  generalize s.after i _ = first at hopen ⊢
  have hopened : taskStep cfg (first.env space) first.disk (.chunkOpen tmp (received ++ data) data)
      (.io 0) = some (goOn (first.env space) (first.disk.openAppend tmp first.now).1
        (.chunkWrite tmp (received ++ data) (first.disk.openAppend tmp first.now).2 data)) := by
    simp only [taskStep, streamTaskStep, if_neg hdata, NodeState.env, hspace]
  rw [exec_task hopen hopened]
  have hwrite := getElem?_after hopen (o := goOn (first.env space)
    (first.disk.openAppend tmp first.now).1
    (.chunkWrite tmp (received ++ data) (first.disk.openAppend tmp first.now).2 data)) rfl
  generalize (first.disk.openAppend tmp first.now).2 = ino at hwrite ⊢
  generalize first.after i _ = second at hwrite ⊢
  obtain ⟨b, rest, rfl⟩ := List.exists_cons_of_ne_nil hne
  have hwritten : taskStep cfg (second.env space) second.disk
      (.chunkWrite tmp (received ++ b :: rest) ino (b :: rest)) (.io (b :: rest).length) =
      some (goOn (second.env space) (second.disk.append ino (b :: rest) second.now)
        (.chunkWrite tmp (received ++ b :: rest) ino [])) := by
    have htake : (b :: rest).take ((b :: rest).length + 1) = b :: rest :=
      List.take_of_length_le (Nat.le_succ _)
    have hdrop : (b :: rest).drop ((b :: rest).length + 1) = [] :=
      List.drop_eq_nil_of_le (Nat.le_succ _)
    simp only [taskStep, streamTaskStep, htake, hdrop, NodeState.env]
  rw [exec_task hwrite hwritten]
  have hdone := getElem?_after hwrite (o := goOn (second.env space)
    (second.disk.append ino (b :: rest) second.now)
    (.chunkWrite tmp (received ++ b :: rest) ino [])) rfl
  generalize second.after i _ = third at hdone ⊢
  have hback : taskStep cfg (third.env space) third.disk
      (.chunkWrite tmp (received ++ b :: rest) ino []) (.io 0) =
      some (goOn (third.env space) third.disk (.receiving tmp (received ++ b :: rest))) := rfl
  rw [exec_task hdone hback]
  exact ⟨_, rfl, getElem?_after hdone rfl⟩

/-- The final hash with nothing in between stores what the stream has received. -/
theorem final_alone {i : Nat} {tmp : DiskPath} {received : Bytes} {space : Except String Nat}
    (hinv : NodeInv cfg past s) (hi : s.tasks[i]? = some (.receiving tmp received))
    (hne : received ≠ []) :
    ∃ u, Runs.exec (nodeStep cfg) s [.step i space (.frame (.final (cfg.blake3 received))),
        .step i space (.io 0), .step i space (.io 0)] = some u ∧
      u.disk.read (getShardPath (cfg.blake3 received)) = some received ∧
      u.sent = s.sent ++ [.storeShardStreamResponse true (availableSpace space)] := by
  have hread : (s.disk.read tmp).getD [] = received :=
    hinv.tasks _ (List.mem_iff_getElem?.mpr ⟨_, hi⟩)
  obtain ⟨ino, hino⟩ : ∃ ino, s.disk.names.lookup tmp = some ino := by
    cases hlookup : s.disk.names.lookup tmp with
    | some ino => exact ⟨ino, rfl⟩
    | none =>
      rw [Disk.read, hlookup] at hread
      exact (hne hread.symm).elim
  rw [Disk.read_of_lookup hino, Option.getD_some] at hread
  have hfinal : taskStep cfg (s.env space) s.disk (.receiving tmp received)
      (.frame (.final (cfg.blake3 received))) = some (goOn (s.env space) s.disk
        (.finalizeOpen tmp received (cfg.blake3 received))) := by
    rw [taskStep, streamTaskStep, if_pos rfl]
  rw [exec_task hi hfinal]
  have hopen := getElem?_after hi (o := goOn (s.env space) s.disk
    (.finalizeOpen tmp received (cfg.blake3 received))) rfl
  have hfirst : (s.after i (goOn (s.env space) s.disk
      (.finalizeOpen tmp received (cfg.blake3 received)))).disk = s.disk := rfl
  have hsent : (s.after i (goOn (s.env space) s.disk
      (.finalizeOpen tmp received (cfg.blake3 received)))).sent = s.sent := List.append_nil _
  generalize s.after i _ = first at hopen hfirst hsent ⊢
  have hopened : taskStep cfg (first.env space) first.disk
      (.finalizeOpen tmp received (cfg.blake3 received)) (.io 0) =
      some (goOn (first.env space) first.disk (.finalizeRename tmp (cfg.blake3 received))) := by
    simp only [taskStep, finalizeTaskStep, hfirst, hino]
  rw [exec_task hopen hopened]
  have hrename := getElem?_after hopen (o := goOn (first.env space) first.disk
    (.finalizeRename tmp (cfg.blake3 received))) rfl
  have hsecond : (first.after i (goOn (first.env space) first.disk
      (.finalizeRename tmp (cfg.blake3 received)))).disk = s.disk := hfirst
  have hsent' : (first.after i (goOn (first.env space) first.disk
      (.finalizeRename tmp (cfg.blake3 received)))).sent = s.sent :=
    (List.append_nil _).trans hsent
  generalize first.after i _ = second at hrename hsecond hsent' ⊢
  have hrenamed : taskStep cfg (second.env space) second.disk
      (.finalizeRename tmp (cfg.blake3 received)) (.io 0) = some
      { streamAnswer (second.env space)
          (s.disk.rename tmp (getShardPath (cfg.blake3 received))) true with
        op := some (.put (cfg.blake3 received) received) } := by
    simp only [taskStep, finalizeTaskStep, hsecond, hino, hread]
  rw [exec_task hrename hrenamed]
  refine ⟨_, rfl, ?_, ?_⟩
  · simp [NodeState.after, streamAnswer, finish, Disk.read, Disk.rename, hino, hread]
  · simp [NodeState.after, streamAnswer, finish, hsent', NodeState.env]

/-- In every run, a stored shard is answered directly and through the relay with exactly its bytes
if and only if it is short enough, and it always is if no longer stream was finalized. -/
theorem stored_shards_answered {pid : Nat}
    (hsalts : (events.filterMap NodeEvent.salt).Nodup)
    (hinj : Set.InjOn cfg.blake3 {input | input ∈ events.filterMap NodeEvent.tempInput})
    (hframed : ∀ event ∈ events, event.Framed)
    (hrun : Runs.exec (nodeStep cfg) (.init pid) events = some s) :
    (∀ shardHash data, s.disk.read (getShardPath shardHash) = some data →
      (ShardAnswered cfg s shardHash data ↔ data.length ≤ maxRelayable)) ∧
    (Runs.Meets (nodeStep cfg) FinalizedRelayable (.init pid) events →
      ∀ shardHash data, s.disk.read (getShardPath shardHash) = some data →
        ShardAnswered cfg s shardHash data) := by
  refine ⟨fun _ _ => shardAnswered_iff, fun hcond shardHash data hread => ?_⟩
  have hinv := nodeInv_run ⟨hsalts, hinj⟩ hrun
  have hfits := nodeRelayable_run ⟨hsalts, hinj⟩ hframed hcond hrun
  obtain ⟨m, hops, hm⟩ := hinv.map
  have hput := hops.put_of_lookup ((hm shardHash).trans hread)
  exact (shardAnswered_iff hread).mpr (hfits.puts shardHash data hput)

def streamedHash : Digest := List.Vector.replicate 32 3

/-- A stream with a declared length that has received one chunk. -/
def streamedChunk (data : Bytes) (declared : UInt64) : List NodeEvent :=
  let room : Except String Nat := .ok (2 ^ 30)
  .request (List.Vector.replicate 16 1) room (.storeShardStreamInit streamedHash 0 declared
      (sampleToken .store (streamBinding sampleNode streamedHash 0))) ::
    [.step 0 room (.frame (.chunk data)), .step 0 room (.io 0), .step 0 room (.io data.length),
      .step 0 room (.io 0)]

def streamedUpload (data : Bytes) (declared : UInt64) : List NodeEvent :=
  let room : Except String Nat := .ok (2 ^ 30)
  streamedChunk data declared ++
    [.step 0 room (.frame (.final (sampleNode.blake3 data))), .step 0 room (.io 0),
      .step 0 room (.io 0)]

section Streamed

variable {data : Bytes} {declared : UInt64}

theorem saltsDistinct_one {salt : Salt} {input : Bytes}
    (hsalt : events.filterMap NodeEvent.salt = [salt])
    (hinput : events.filterMap NodeEvent.tempInput = [input]) : SaltsDistinct cfg events := by
  refine ⟨hsalt ▸ List.nodup_singleton salt, ?_⟩
  intro a ha b hb _
  rw [hinput] at ha hb
  exact (List.mem_singleton.mp ha).trans (List.mem_singleton.mp hb).symm

theorem streamedUpload_salts : SaltsDistinct sampleNode (streamedUpload data declared) :=
  saltsDistinct_one rfl rfl

theorem streamedUpload_framed (h : data.length + 12 ≤ maxMessageLen) :
    ∀ event ∈ streamedUpload data declared, event.Framed := by
  have hchunk : (Message.storeShardChunk data).frame.isSome := by
    refine frame_isSome.mpr ?_
    simp only [Message.serialize, List.length_append, ByteOrder.length_toLe, Bincode.length_vec]
    omega
  intro event hmem
  simp only [streamedUpload, streamedChunk, List.cons_append, List.nil_append, List.mem_cons,
    List.not_mem_nil, or_false] at hmem
  rcases hmem with rfl | rfl | rfl | rfl | rfl | rfl | rfl | rfl
  · trivial
  · exact hchunk
  all_goals trivial

theorem streamedChunk_received (hne : data ≠ []) (hlen : data.length ≤ maxShardBytes)
    (hdeclared : declared.toNat ≤ maxRetrievable) :
    ∃ u tmp, Runs.exec (nodeStep sampleNode) (.init 1) (streamedChunk data declared) = some u ∧
      u.tasks[0]? = some (.receiving tmp data) := by
  have hallowed : sampleNode.allows ((NodeState.init 1).env (.ok (2 ^ 30)))
      (sampleToken .store (streamBinding sampleNode streamedHash 0)) .store
      (streamBinding sampleNode streamedHash 0) = true := by decide +kernel
  let tmp := tempPath (sampleNode.blake3 (tempIdInput streamedHash 0 (List.Vector.replicate 16 1)))
  let first : NodeState := { NodeState.init 1 with
    tasks := [.receiving tmp []], sent := [.storeShardStreamAck true] }
  have hfirst : nodeStep sampleNode (.init 1) (.request (List.Vector.replicate 16 1) (.ok (2 ^ 30))
      (.storeShardStreamInit streamedHash 0 declared
        (sampleToken .store (streamBinding sampleNode streamedHash 0)))) = some first := by
    rw [nodeStep, handleRequest, if_neg (Nat.not_lt.mpr hdeclared), if_pos hallowed]
    rfl
  obtain ⟨u, hu, htask⟩ := @chunk_alone sampleNode first 0 tmp [] data (.ok (2 ^ 30)) rfl hne
    hlen (by decide)
  refine ⟨u, tmp, ?_, htask⟩
  rw [streamedChunk, Runs.exec, hfirst, Option.bind_some, hu]

/-- The upload is stored and acknowledged, if only the declared length is small. -/
theorem streamedUpload_stored (hne : data ≠ []) (hlen : data.length ≤ maxShardBytes)
    (hdeclared : declared.toNat ≤ maxRetrievable) :
    ∃ s, Runs.exec (nodeStep sampleNode) (.init 1) (streamedUpload data declared) = some s ∧
      s.disk.read (getShardPath (sampleNode.blake3 data)) = some data ∧
      .storeShardStreamResponse true (2 ^ 30) ∈ s.sent := by
  obtain ⟨u, tmp, hu, htask⟩ := streamedChunk_received hne hlen hdeclared
  have hinv := nodeInv_run (saltsDistinct_one rfl rfl) hu
  obtain ⟨s, hs, hread, hsent⟩ := @final_alone _ _ _ _ _ _ (.ok (2 ^ 30)) hinv htask hne
  refine ⟨s, ?_, hread, ?_⟩
  · rw [streamedUpload, Runs.exec_append, hu, Option.bind_some, hs]
  · rw [hsent]
    exact List.mem_append_right _ (List.mem_singleton.mpr rfl)

end Streamed

/-- A chunk that fills its frame. -/
def fullChunk : Bytes := List.replicate (maxMessageLen - 12) 0

/-- One full chunk under a declared length of one byte is acknowledged and cannot be sent back. -/
theorem full_chunk_not_answered : ∃ s,
    Runs.exec (nodeStep sampleNode) (.init 1) (streamedUpload fullChunk 1) = some s ∧
      (∀ event ∈ streamedUpload fullChunk 1, event.Framed) ∧
      .storeShardStreamResponse true (2 ^ 30) ∈ s.sent ∧
      s.disk.read (getShardPath (sampleNode.blake3 fullChunk)) = some fullChunk ∧
      ¬AnsweredDirectly (sampleNode.blake3 fullChunk) fullChunk ∧
      ¬ShardAnswered sampleNode s (sampleNode.blake3 fullChunk) fullChunk := by
  have hlen : fullChunk.length = maxMessageLen - 12 := List.length_replicate
  have hlimit : fullChunk.length + 12 = maxMessageLen := by
    rw [hlen]
    exact Nat.sub_add_cancel (by decide)
  generalize fullChunk = data at hlimit ⊢
  have hsmall := maxMessageLen_lt
  have hshards : maxShardBytes = 2 ^ 33 := by decide
  have hne : data ≠ [] := by
    rintro rfl
    exact absurd hlimit (by decide)
  have hdirect : ¬AnsweredDirectly (sampleNode.blake3 data) data := by
    rw [answeredDirectly_iff]
    omega
  obtain ⟨s, hrun, hread, hsent⟩ := @streamedUpload_stored data 1 hne (by omega) (by decide)
  exact ⟨s, hrun, streamedUpload_framed (by omega), hsent, hread, hdirect,
    fun answered => hdirect answered.direct⟩

/-- A short shard is answered both ways. -/
theorem stored_shards_answered_short : ∃ s,
    Runs.exec (nodeStep sampleNode) (.init 1) (streamedUpload [7, 8] 2) = some s ∧
      ShardAnswered sampleNode s (sampleNode.blake3 [7, 8]) [7, 8] := by
  obtain ⟨s, hrun, hread, -⟩ := @streamedUpload_stored [7, 8] 2 (by decide) (by decide) (by decide)
  obtain ⟨hsalts, hinj⟩ := @streamedUpload_salts [7, 8] 2
  obtain ⟨hiff, -⟩ := stored_shards_answered hsalts hinj (streamedUpload_framed (by decide)) hrun
  exact ⟨s, hrun, (hiff _ _ hread).mpr (by decide)⟩

end Reminisce

import Reminisce.NodeEffects

namespace Reminisce

open FileSystem ShardMap

variable {cfg : NodeConfig} {env : NodeEnv} {d : ShardDisk} {ops : List StoreOp}
  {t : NodeTask} {input : TaskInput} {o : TaskOutcome}

/-- What is known of a task's temporary file: it is no pinned object and no shard. -/
def OwnsAside (cfg : NodeConfig) (t : NodeTask) : Prop :=
  ∀ p, t.owned = some p → Aside p ∧ ¬ SharedPath cfg p

theorem storeAnswer_ok {shardHash : Digest} {success : Bool} {space : Nat} (ops : List StoreOp) :
    ∀ r ∈ [NodeReply.storeShardResponse shardHash success space], ReplyOk ops r := by
  intro r hr
  cases List.mem_singleton.mp hr
  trivial

theorem streamAnswer_ok {success : Bool} {space : Nat} (ops : List StoreOp) :
    ∀ r ∈ [NodeReply.storeShardStreamResponse success space], ReplyOk ops r := by
  intro r hr
  cases List.mem_singleton.mp hr
  trivial

theorem append_take_drop (bytes todo : Bytes) (n : Nat) :
    bytes ++ todo.take n ++ todo.drop n = bytes ++ todo := by
  rw [List.append_assoc, List.take_append_drop]

theorem inodes_append_self (d : ShardDisk) (i : Nat) (data : Bytes) (now : Nat) :
    ((d.append i data now).inodes i).bytes = (d.inodes i).bytes ++ data := by
  simp [Disk.append, Disk.put]

theorem stepOk_store (hd : d.Sound) (hown : OwnsAside cfg t) (ht : TaskOk cfg d ops t)
    (h : storeTaskStep env d t input = some o) : StepOk cfg env d ops t o := by
  unfold storeTaskStep at h
  split at h
  next shardHash data _ =>
    split at h
    next =>
      cases Option.some.inj h
      exact stepOk_finish hd (storeAnswer_ok ops)
    next =>
      cases Option.some.inj h
      have hquiet : StepOk cfg env d ops _ (goOn env d (.storePrepare shardHash data)) :=
        stepOk_goOn hd rfl ht
      exact { hquiet with
        seq := Nat.le_succ _
        owned := fun t' ht' => by
          cases Option.some.inj ht'
          exact .inr ⟨rfl, Nat.lt_succ_self _, shardHash, rfl⟩
        next := fun t' ht' => by
          cases Option.some.inj ht'
          exact ht }
  next =>
    cases Option.some.inj h
    exact stepOk_finish hd (storeAnswer_ok ops)
  next shardHash data tmp _ =>
    cases Option.some.inj h
    obtain ⟨hp, hshared⟩ := hown tmp rfl
    refine stepOk_owned hp hshared rfl (Disk.touches_create hd hp env.now) rfl rfl ?_
      (fun r hr => absurd hr List.not_mem_nil)
    intro t' ht'
    cases Option.some.inj ht'
    have hhash : cfg.blake3 data = shardHash := ht
    refine ⟨rfl, Disk.lookup_openAppend d tmp env.now, ?_⟩
    simpa [Disk.create, Disk.put, goOn] using hhash
  next =>
    cases Option.some.inj h
    exact stepOk_goOn hd rfl trivial
  next shardHash tmp ino todo n =>
    obtain ⟨hino, hhash⟩ := ht
    obtain ⟨hp, hshared⟩ := hown tmp rfl
    split at h
    next =>
      rw [List.append_nil] at hhash
      rw [hino] at h
      cases Option.some.inj h
      exact stepOk_rename hd hp hshared rfl hino hhash fun ops => storeAnswer_ok ops
    next =>
      cases Option.some.inj h
      refine stepOk_owned hp hshared rfl (Disk.touches_put hd hp hino _) rfl rfl ?_
        (fun r hr => absurd hr List.not_mem_nil)
      intro t' ht'
      cases Option.some.inj ht'
      refine ⟨rfl, hino, ?_⟩
      simp only [goOn]
      rw [inodes_append_self, append_take_drop, hhash]
  next =>
    cases Option.some.inj h
    exact stepOk_goOn hd rfl trivial
  next shardHash tmp _ =>
    cases Option.some.inj h
    obtain ⟨hp, hshared⟩ := hown tmp rfl
    exact stepOk_owned hp hshared rfl (Disk.touches_remove hd tmp) rfl rfl
      (fun t' ht' => by simp [storeAnswer, finish] at ht') (storeAnswer_ok ops)
  next =>
    cases Option.some.inj h
    exact stepOk_finish hd (storeAnswer_ok ops)
  next => simp at h

theorem read_openAppend (d : ShardDisk) (p : DiskPath) (now : Nat) :
    ((d.openAppend p now).1.inodes (d.openAppend p now).2).bytes = (d.read p).getD [] := by
  unfold Disk.openAppend Disk.read
  split
  next i hi => simp [hi]
  next hnone => simp [hnone]

theorem stepOk_discard (hd : d.Sound) {tmp : DiskPath} (howned : t.owned = some tmp)
    (answer : Bool) : StepOk cfg env d ops t (goOn env d (.streamDiscard tmp answer)) :=
  stepOk_goOn hd howned.symm trivial

theorem stepOk_stream (hd : d.Sound) (hown : OwnsAside cfg t) (ht : TaskOk cfg d ops t)
    (h : streamTaskStep env d cfg t input = some o) : StepOk cfg env d ops t o := by
  unfold streamTaskStep at h
  split at h
  next tmp received data =>
    split at h
    next =>
      cases Option.some.inj h
      exact stepOk_discard hd rfl true
    next =>
      cases Option.some.inj h
      exact stepOk_goOn hd rfl (congrArg (· ++ data) ht)
  next tmp received shardHash =>
    split at h
    next hhash =>
      cases Option.some.inj h
      exact stepOk_goOn hd rfl ⟨ht, hhash⟩
    next =>
      cases Option.some.inj h
      exact stepOk_discard hd rfl true
  next =>
    cases Option.some.inj h
    exact stepOk_discard hd rfl true
  next =>
    cases Option.some.inj h
    exact stepOk_discard hd rfl false
  next tmp received data _ =>
    obtain ⟨hp, hshared⟩ := hown tmp rfl
    split at h
    next =>
      cases Option.some.inj h
      exact stepOk_discard hd rfl true
    next =>
      split at h
      next =>
        cases Option.some.inj h
        exact stepOk_discard hd rfl true
      next =>
        cases Option.some.inj h
        refine stepOk_owned hp hshared rfl (Disk.touches_openAppend hd hp env.now) rfl rfl ?_
          (fun r hr => absurd hr List.not_mem_nil)
        intro t' ht'
        cases Option.some.inj ht'
        refine ⟨rfl, Disk.lookup_openAppend d tmp env.now, ?_⟩
        simp only [goOn]
        rw [read_openAppend]
        exact ht
  next =>
    cases Option.some.inj h
    exact stepOk_discard hd rfl true
  next tmp received ino todo n =>
    obtain ⟨hino, hbytes⟩ := ht
    obtain ⟨hp, hshared⟩ := hown tmp rfl
    split at h
    next =>
      cases Option.some.inj h
      rw [List.append_nil] at hbytes
      refine stepOk_goOn hd rfl ?_
      simpa [TaskOk, Disk.read, hino] using hbytes
    next =>
      cases Option.some.inj h
      refine stepOk_owned hp hshared rfl (Disk.touches_put hd hp hino _) rfl rfl ?_
        (fun r hr => absurd hr List.not_mem_nil)
      intro t' ht'
      cases Option.some.inj ht'
      refine ⟨rfl, hino, ?_⟩
      simp only [goOn]
      rw [inodes_append_self, append_take_drop, hbytes]
  next =>
    cases Option.some.inj h
    exact stepOk_discard hd rfl true
  next tmp answer _ =>
    cases Option.some.inj h
    obtain ⟨hp, hshared⟩ := hown tmp rfl
    cases answer with
    | true =>
      exact stepOk_owned hp hshared rfl (Disk.touches_remove hd tmp) rfl rfl
        (fun t' ht' => by simp [streamAnswer, finish] at ht') (streamAnswer_ok ops)
    | false =>
      exact stepOk_owned hp hshared rfl (Disk.touches_remove hd tmp) rfl rfl
        (fun t' ht' => by simp [finish] at ht') (fun r hr => absurd hr List.not_mem_nil)
  next tmp answer =>
    cases Option.some.inj h
    cases answer with
    | true => exact stepOk_finish hd (streamAnswer_ok ops)
    | false => exact stepOk_finish hd fun r hr => absurd hr List.not_mem_nil
  next => simp at h

theorem stepOk_finalize (hd : d.Sound) (hown : OwnsAside cfg t) (ht : TaskOk cfg d ops t)
    (h : finalizeTaskStep env d t input = some o) : StepOk cfg env d ops t o := by
  unfold finalizeTaskStep at h
  split at h
  next tmp received shardHash _ =>
    split at h
    next =>
      cases Option.some.inj h
      refine stepOk_goOn hd rfl ?_
      intro bytes hread
      obtain ⟨hreceived, hhash⟩ := ht
      rw [hread] at hreceived
      rw [show bytes = received from hreceived, hhash]
    next =>
      cases Option.some.inj h
      exact stepOk_finish hd (streamAnswer_ok ops)
  next tmp shardHash _ =>
    obtain ⟨hp, hshared⟩ := hown tmp rfl
    split at h
    next i hi =>
      cases Option.some.inj h
      refine stepOk_rename hd hp hshared rfl hi (ht _ ?_) fun ops => streamAnswer_ok ops
      simp [Disk.read, hi]
    next =>
      cases Option.some.inj h
      exact stepOk_finish hd (streamAnswer_ok ops)
  next =>
    cases Option.some.inj h
    exact stepOk_finish hd (streamAnswer_ok ops)
  next =>
    cases Option.some.inj h
    exact stepOk_finish hd (streamAnswer_ok ops)
  next => simp at h

end Reminisce

import Reminisce.Placement
import Reminisce.RestoreUploaded
import Reminisce.SweepProgress

namespace Reminisce

/-- The files that were not checked since the start. -/
def Database.uncheckedCount (db : Database) (start : Time) : Nat :=
  db.shardFiles.countP (db.uncheckedSince start)

variable {P : Primitives} {apiSecret fileHash : String} {db t : Database} {c : SweepCycle}
  {start : Time}

theorem countP_lt_of_mem {α : Type} {p q : α → Bool} {xs : List α} {x : α}
    (h : ∀ y ∈ xs, p y = true → q y = true) (hx : x ∈ xs) (hq : q x = true) (hp : p x = false) :
    xs.countP p < xs.countP q := by
  have hboth : (xs.filter q).countP p = xs.countP p := by
    rw [List.countP_filter]
    refine List.countP_congr fun y hy => ?_
    rw [Bool.and_eq_true]
    exact ⟨fun hpy => hpy.1, fun hpy => ⟨hpy, h y hy hpy⟩⟩
  rw [← hboth, List.countP_eq_length_filter (p := q)]
  exact List.countP_lt_length_iff.mpr ⟨x, List.mem_filter.mpr ⟨hx, hq⟩, hp⟩

theorem SweepCycle.mem_batch (h : fileHash ∈ c.batch db) :
    fileHash ∈ c.order ∧ db.needsRebalance (c.targetNodeCount db) c.now fileHash = true := by
  have hsorted := List.mem_of_mem_take h
  exact List.mem_filter.mp (List.mem_mergeSort.mp hsorted)

/-- What the guard of a cycle says of its batch, and what the cycle leaves. -/
theorem sweepCycle_swept (hruns : ∀ run ∈ c.runs, c.now ≤ run.now)
    (h : sweepCycle P apiSecret db c = some t) :
    (∀ f ∈ c.batch db, f ∈ db.shardFiles) ∧ Swept P apiSecret (c.batch db) c.now (c.database db) t := by
  unfold sweepCycle at h
  split at h
  next hguard =>
    have horder : c.order.Perm db.shardFiles := List.isPerm_iff.mp hguard.1
    have hnodup : (c.batch db).Nodup := by
      have hfilter : (c.order.filter (db.needsRebalance (c.targetNodeCount db) c.now)).Nodup :=
        (horder.nodup_iff.mpr (List.nodup_dedup _)).filter _
      exact ((List.mergeSort_perm _ _).nodup_iff.mpr hfilter).sublist (List.take_sublist _ _)
    have hmem : ∀ f ∈ c.batch db, f ∈ db.shardFiles := fun f hf =>
      horder.mem_iff.mp (SweepCycle.mem_batch hf).1
    exact ⟨hmem, sweepFiles_swept hnodup hmem hruns h⟩
  next => cases h

theorem needsRebalance_stamped {checked now : Time} (h : db.minChecked fileHash = some checked)
    (hle : now ≤ checked) (targetNodeCount : Nat) :
    db.needsRebalance targetNodeCount now fileHash = false := by
  unfold Database.needsRebalance
  rw [h]
  simp only [Bool.and_eq_false_iff, decide_eq_false_iff_not]
  exact Or.inr (Nat.not_lt.mpr (hle.trans (Nat.le_add_right checked _)))

/-- A cycle leaves fewer files eligible if and only if one file of its batch can be read. -/
theorem eligibleDecreases_iff (hruns : ∀ run ∈ c.runs, c.now ≤ run.now)
    (h : sweepCycle P apiSecret db c = some t) :
    EligibleDecreases P apiSecret db c ↔ BatchReadable P apiSecret db c := by
  obtain ⟨hmem, hswept⟩ := sweepCycle_swept hruns h
  have hthis : EligibleDecreases P apiSecret db c ↔
      t.eligibleCount (c.targetNodeCount db) c.now < db.eligibleCount (c.targetNodeCount db) c.now := by
    constructor
    · exact fun hall => hall t h
    · intro hless u hu
      cases Option.some.inj (h.symm.trans hu)
      exact hless
  have hfiles : t.shardFiles = db.shardFiles := hswept.shardFiles
  rw [hthis]
  unfold Database.eligibleCount
  rw [hfiles]
  constructor
  · intro hless
    by_contra hlocked
    have hsame : ∀ g, t.needsRebalance (c.targetNodeCount db) c.now g =
        db.needsRebalance (c.targetNodeCount db) c.now g := by
      intro g
      refine needsRebalance_congr (hswept.others g ?_) _ _
      by_cases hg : g ∈ c.batch db
      · exact Or.inr (Bool.eq_false_iff.mpr fun hok => hlocked ⟨g, hg, hok⟩)
      · exact Or.inl hg
    rw [funext hsame] at hless
    exact lt_irrefl _ hless
  · rintro ⟨f, hf, hok⟩
    obtain ⟨checked, hle, hstamp⟩ := hswept.stamped f hf hok
    refine countP_lt_of_mem (fun g _ hneeds => ?_) (hmem f hf) (SweepCycle.mem_batch hf).2
      (needsRebalance_stamped hstamp hle _)
    by_cases hg : g ∈ c.batch db
    · exact (SweepCycle.mem_batch hg).2
    · have hkept := needsRebalance_congr (hswept.others g (Or.inl hg)) (c.targetNodeCount db) c.now
      exact hkept.symm.trans hneeds

/-- Such a cycle also lowers the number of files that the sweep has not come to. -/
theorem uncheckedCount_lt (hhour : c.WithinHour start)
    (hread : BatchReadable P apiSecret db c) (h : sweepCycle P apiSecret db c = some t) :
    t.uncheckedCount start < db.uncheckedCount start := by
  obtain ⟨hstart, hend, hruns⟩ := hhour
  obtain ⟨hmem, hswept⟩ := sweepCycle_swept hruns h
  obtain ⟨f, hf, hok⟩ := hread
  have hfiles : t.shardFiles = db.shardFiles := hswept.shardFiles
  have hstamped : ∀ g ∈ c.batch db, readableFile P apiSecret db g = true →
      t.uncheckedSince start g = false := by
    intro g hg hreadable
    obtain ⟨checked, hle, hstamp⟩ := hswept.stamped g hg hreadable
    unfold Database.uncheckedSince
    rw [hstamp]
    exact decide_eq_false (Nat.not_lt.mpr (hstart.trans hle))
  unfold Database.uncheckedCount
  rw [hfiles]
  refine countP_lt_of_mem (fun g _ hunchecked => ?_) (hmem f hf) ?_ (hstamped f hf hok)
  · have hothers := hswept.others g (by
      by_cases hg : g ∈ c.batch db
      · exact Or.inr (Bool.eq_false_iff.mpr fun hreadable =>
          Bool.false_ne_true ((hstamped g hg hreadable).symm.trans hunchecked))
      · exact Or.inl hg)
    unfold Database.uncheckedSince at hunchecked ⊢
    rwa [minChecked_congr hothers] at hunchecked
  · have hneeds := (SweepCycle.mem_batch hf).2
    unfold Database.needsRebalance at hneeds
    unfold Database.uncheckedSince
    obtain ⟨-, hdue⟩ := Bool.and_eq_true_iff.mp hneeds
    cases hchecked : db.minChecked f with
    | none => rfl
    | some checked =>
      rw [hchecked] at hdue
      have hless : checked + secs 3600 < c.now := of_decide_eq_true hdue
      exact decide_eq_true (Nat.lt_of_add_lt_add_right (hless.trans_le hend))

/-- Within the hour, all cycles of a sweep make progress if and only if each finds a file that it
can read, and then there are no more cycles than files that wait for their check. -/
theorem sweep_progress_iff (P : Primitives) (apiSecret : String) (db t : Database)
    (cycles : List SweepCycle) (start : Time) (hhour : ∀ c ∈ cycles, c.WithinHour start)
    (hrun : Runs.exec (sweepCycle P apiSecret) db cycles = some t) :
    (Runs.Meets (sweepCycle P apiSecret) (EligibleDecreases P apiSecret) db cycles ↔
      Runs.Meets (sweepCycle P apiSecret) (BatchReadable P apiSecret) db cycles) ∧
    (Runs.Meets (sweepCycle P apiSecret) (BatchReadable P apiSecret) db cycles →
      cycles.length ≤ db.uncheckedCount start) := by
  constructor
  · exact Runs.meets_congr (fun s c u hc hstep => eligibleDecreases_iff hc.2.2 hstep) hhour hrun
  · intro hread
    have hbound := Runs.length_le_measure (Database.uncheckedCount · start)
      (fun s c u hc hok hstep => uncheckedCount_lt hc hok hstep) hhour hread hrun
    omega

/-- A file with one recorded shard, while two nodes are active. -/
def sweptDatabase (images : List MediaRow) : Database :=
  { images, videos := [], nextShardId := 1
    p2pShards := [⟨0, hexId '0', 0, hexId 'a', toHex (lastByteHash [7]), none⟩]
    p2pNodes := ['a', 'b'].map fun letter =>
      ⟨(letterNode letter).1, some (letterNode letter).2, 0, true⟩ }

/-- What `rebalance_file` meets when it can obtain no shard. -/
def unobtained : List RebalanceEvent :=
  [.consider ⟨false, none, false, ⟨false, false, false⟩⟩, .finish true]

/-- A cycle over that file in which no shard can be obtained. -/
def sweptCycle : SweepCycle :=
  { now := 0, nodes := (sweptDatabase []).p2pNodes, order := [hexId '0']
    runs := [{
      now := 0, registry := PeerRegistry.new .open, fleet := ⟨fun _ _ => none, fun _ => none⟩
      events := unobtained }] }

theorem sweptCycle_withinHour : ∀ c ∈ [sweptCycle], c.WithinHour 0 := by
  intro c hc
  cases List.mem_singleton.mp hc
  exact ⟨le_rfl, Nat.zero_le _, fun _ _ => Nat.zero_le _⟩

theorem length_placementTargets (db : Database) (now : Time) : (db.placementTargets now).length =
    ((db.p2pNodes.filter fun row => row.isActive ∧ now < row.lastSeen + secs 600).filterMap
      fun row => row.publicAddr.map (row.nodeId, ·)).length :=
  ((List.mergeSort_perm _ _).filterMap _).length_eq

theorem sweptCycle_target (images : List MediaRow) :
    sweptCycle.targetNodeCount (sweptDatabase images) = 2 := by
  unfold SweepCycle.targetNodeCount
  rw [length_placementTargets]
  rfl

theorem sweptCycle_batch (images : List MediaRow) :
    sweptCycle.batch (sweptDatabase images) = [hexId '0'] := by
  have hneeds : (sweptDatabase images).needsRebalance 2 0 (hexId '0') = true := by
    have hone : (sweptDatabase images).nodeCount (hexId '0') = 1 := by
      simp [Database.nodeCount, sweptDatabase]
    have hnever : (sweptDatabase images).minChecked (hexId '0') = none := by
      simp [Database.minChecked, sweptDatabase]
    simp [Database.needsRebalance, hone, hnever]
  unfold SweepCycle.batch rebalanceBatch
  rw [sweptCycle_target]
  simp [sweptCycle, hneeds, rebalanceBatchSize]

/-- A cycle over one file is the run over that file. -/
theorem sweepCycle_swept_eq (P : Primitives) (images : List MediaRow) :
    sweepCycle P "secret" (sweptDatabase images) sweptCycle =
      (sweepFile P "secret" ((sweptDatabase images).placementTargets 0) (sweptDatabase images)
        (hexId '0') ⟨0, PeerRegistry.new .open, ⟨fun _ _ => none, fun _ => none⟩, unobtained⟩).bind
          some := by
  have hperm : sweptCycle.order.isPerm (sweptDatabase images).shardFiles = true := by
    refine List.isPerm_iff.mpr ?_
    simp [sweptCycle, sweptDatabase, Database.shardFiles]
  unfold sweepCycle
  rw [sweptCycle_target, sweptCycle_batch, if_pos ⟨hperm, by decide, by simp⟩]
  rfl

theorem exec_unobtained {job : RebalanceJob} {s : RebalanceState} {row : ShardRow}
    (hideal : s.idealNodes ≠ []) (hphase : s.phase = .next [row]) :
    Runs.exec (rebalanceStep P job) s unobtained =
      some { s with db := s.db.touchShards job.fileHash job.now, phase := .stopped } := by
  have hconsider : considerShard P job s row [] ⟨false, none, false, ⟨false, false, false⟩⟩ =
      { s with phase := .next [] } := by
    have hlt : asUsize row.shardIndex % s.idealNodes.length < s.idealNodes.length :=
      Nat.mod_lt _ (List.length_pos_iff.mpr hideal)
    unfold considerShard
    rw [List.getElem?_eq_getElem hlt]
    simp only [migrationSource, Bool.false_eq_true, if_false]
    split <;> rfl
  simp only [unobtained, Runs.exec, rebalanceStep, hphase, hconsider, Option.bind_some, if_true]

/-- A file without a media row is stamped although its shard cannot be moved. -/
theorem sweptCycle_stamps (P : Primitives) : sweepCycle P "secret" (sweptDatabase []) sweptCycle =
    some ((sweptDatabase []).touchShards (hexId '0') 0) := by
  have hactive : (sweptDatabase []).placementTargets 0 ≠ [] := by
    refine List.ne_nil_of_length_pos ?_
    rw [length_placementTargets]
    decide
  have hinfo : findFileInfo P (sweptDatabase []) (hexId '0') "secret" = .ok none := rfl
  have hrows : (sweptDatabase []).shardsOf (hexId '0') = (sweptDatabase []).p2pShards := by
    simp [Database.shardsOf, sweptDatabase]
  rw [sweepCycle_swept_eq]
  generalize (sweptDatabase []).placementTargets 0 = activeNodes at hactive
  have hideal : rendezvousSelect P (hexId '0') activeNodes (min 5 activeNodes.length) ≠ [] := by
    have hpos := List.length_pos_iff.mpr hactive
    exact rendezvousSelect_ne_nil hactive (by omega)
  have hfinished : ∀ now registry fleet, (⟨now, registry, fleet, unobtained⟩ : FileRun).finished :=
    fun _ _ _ => rfl
  have hstart : RebalanceState.start P ⟨hexId '0', activeNodes, "secret", 0⟩
      (PeerRegistry.new .open) (sweptDatabase []) ⟨fun _ _ => none, fun _ => none⟩ =
        { registry := PeerRegistry.new .open, db := sweptDatabase []
          fleet := ⟨fun _ _ => none, fun _ => none⟩
          idealNodes := rendezvousSelect P (hexId '0') activeNodes (min 5 activeNodes.length)
          phase := .next (sweptDatabase []).p2pShards } := by
    simp only [RebalanceState.start, hinfo, hrows]
  unfold sweepFile
  simp only [hstart, hfinished, if_true]
  rw [exec_unobtained hideal rfl]
  rfl

/-- A key that was wrapped under another secret. -/
def lockedKey : Bytes :=
  1 :: (List.replicate 12 0 ++ (sampleKey 9 ++
    referenceTag (referenceHash (utf8 "former")).toList (List.replicate 12 0)))

theorem lockedKey_wrapped :
    encryptKey referencePrimitives (sampleKey 9) "former" (List.replicate 12 0) = .ok lockedKey := rfl

theorem lockedKey_refused : decryptKey referencePrimitives lockedKey "secret" =
    .error "Decryption failed: aead::Error" := by
  decide +kernel

def lockedDatabase : Database :=
  sweptDatabase [{ sampleRow with hash := hexId '0', p2pEncryptionKey := some lockedKey }]

theorem sweep_progress_example : [sweptCycle].length ≤ (sweptDatabase []).uncheckedCount 0 := by
  have hrun : Runs.exec (sweepCycle referencePrimitives "secret") (sweptDatabase []) [sweptCycle] =
      some ((sweptDatabase []).touchShards (hexId '0') 0) := by
    rw [Runs.exec, sweptCycle_stamps]
    rfl
  refine (sweep_progress_iff referencePrimitives "secret" (sweptDatabase []) _ [sweptCycle] 0
    sweptCycle_withinHour hrun).2 ⟨⟨hexId '0', ?_, rfl⟩, fun _ _ => trivial⟩
  rw [sweptCycle_batch]
  exact List.mem_singleton_self _

/-- A file whose key was wrapped under a former secret stays eligible: the same cycle returns
`Ok(true)` any number of times and changes nothing. -/
theorem locked_file_stalls_sweep :
    encryptKey referencePrimitives (sampleKey 9) "former" (List.replicate 12 0) = .ok lockedKey ∧
      sweptCycle.WithinHour 0 ∧
      ¬EligibleDecreases referencePrimitives "secret" lockedDatabase sweptCycle ∧
      ∀ n, Runs.exec (sweepCycle referencePrimitives "secret") lockedDatabase
        (List.replicate n sweptCycle) = some lockedDatabase := by
  have hinfo : findFileInfo referencePrimitives lockedDatabase (hexId '0') "secret" =
      .error "Decryption failed: aead::Error" := by
    simp [findFileInfo, lockedDatabase, sweptDatabase, fileInfoOf, lockedKey_refused]
    rfl
  have hstep : sweepCycle referencePrimitives "secret" lockedDatabase sweptCycle =
      some lockedDatabase := by
    unfold lockedDatabase at hinfo ⊢
    rw [sweepCycle_swept_eq]
    simp only [sweepFile, RebalanceState.start, hinfo]
    rfl
  refine ⟨lockedKey_wrapped, sweptCycle_withinHour _ (List.mem_singleton_self _), fun hless => ?_, ?_⟩
  · exact lt_irrefl _ (hless lockedDatabase hstep)
  · intro n
    induction n with
    | zero => rfl
    | succ n ih =>
      rw [List.replicate_succ, Runs.exec, hstep]
      exact ih

end Reminisce

import Reminisce.Library.Runs
import Reminisce.OrphanSweep
import Reminisce.ReferencePrimitives

namespace Reminisce

/-- No committed shard was swept between its acknowledgement and its commit. -/
def SweepSafe (s : SweepState) : Prop := s.lost = []

/-- What the phases of the sweep promise: the listed names are shard names, and the shards that
will be deleted are no uncommitted uploads. -/
def PhaseGuarded (s : SweepState) : Prop :=
  match s.phase with
  | .query _ _ _ hexShards _ => ∀ hex ∈ hexShards, ∃ h, toHex h = hex
  | .prune _ addr _ hexShards validSet _ => (∀ hex ∈ hexShards, ∃ h, toHex h = hex) ∧
      ∀ p ∈ s.pending, p.addr = addr → toHex p.shardHash ∈ hexShards → toHex p.shardHash ∈ validSet
  | _ => True

structure SweepClear (s : SweepState) : Prop where
  unswept : ∀ p ∈ s.pending, p.swept = false
  lost : s.lost = []
  guarded : PhaseGuarded s

variable {P : Primitives} {s t : SweepState}

/-- A step that keeps the phase and adds no uncommitted upload. -/
theorem sweepClear_of_pending (hs : SweepClear s) (hphase : t.phase = s.phase)
    (hpending : ∀ p ∈ t.pending, p ∈ s.pending) (hlost : t.lost = s.lost) : SweepClear t := by
  refine ⟨fun p hp => hs.unswept p (hpending p hp), hlost.trans hs.lost, ?_⟩
  have hguarded := hs.guarded
  unfold PhaseGuarded at hguarded ⊢
  rw [hphase]
  split
  next nodeId addr i hexShards todo heq =>
    simp only [heq] at hguarded
    exact hguarded
  next nodeId addr i hexShards validSet todo heq =>
    simp only [heq] at hguarded
    exact ⟨hguarded.1, fun p hp => hguarded.2 p (hpending p hp)⟩
  next => trivial

/-- A step to a phase that promises nothing about the uploads. -/
theorem sweepClear_of_phase (hs : SweepClear s) (hpending : t.pending = s.pending)
    (hlost : t.lost = s.lost) (hguarded : PhaseGuarded t) : SweepClear t :=
  ⟨fun p hp => hs.unswept p (hpending ▸ hp), hlost.trans hs.lost, hguarded⟩

theorem phaseGuarded_nextPrefix (s : SweepState) (nodeId : NodeId) (addr : SocketAddr) (i : Nat)
    (todo : List NodeId) :
    PhaseGuarded { s with phase := SweepState.nextPrefix nodeId addr i todo } := by
  unfold PhaseGuarded SweepState.nextPrefix
  by_cases h : i < 255
  · simp only [if_pos h]
  · simp only [if_neg h]

theorem sweepClear_acknowledge {path : UploadPath} {addr : SocketAddr} {data : Bytes}
    (hs : SweepClear s) (hc : SweepExcludesUploads P s (.acknowledge path addr data))
    (h : sweepStep P s (.acknowledge path addr data) = some t) : SweepClear t := by
  simp only [sweepStep] at h
  split at h
  next =>
    cases Option.some.inj h
    refine ⟨fun p hp => ?_, hs.lost, ?_⟩
    · rcases List.mem_append.mp hp with hp | hp
      · exact hs.unswept p hp
      · cases List.mem_singleton.mp hp
        rfl
    · have hguarded := hs.guarded
      unfold PhaseGuarded at hguarded ⊢
      simp only [SweepExcludesUploads] at hc
      cases hphase : s.phase with
      | prune nodeId swept i hexShards validSet todo =>
        simp only [hphase] at hguarded hc ⊢
        refine ⟨hguarded.1, fun p hp haddr => ?_⟩
        rcases List.mem_append.mp hp with hp | hp
        · exact hguarded.2 p hp haddr
        · cases List.mem_singleton.mp hp
          exact hc haddr
      | query nodeId addr i hexShards todo =>
        simp only [hphase] at hguarded
        exact hguarded
      | _ => trivial
  next => simp at h

theorem sweepClear_commit {i : Nat} (hs : SweepClear s)
    (h : sweepStep P s (.commit i) = some t) : SweepClear t := by
  simp only [sweepStep] at h
  split at h
  next store hstore =>
    split at h
    next =>
      cases Option.some.inj h
      have hunswept := hs.unswept store (List.mem_of_getElem? hstore)
      refine sweepClear_of_pending hs rfl (fun p hp => List.mem_of_mem_eraseIdx hp) ?_
      rw [if_neg (by simp [hunswept])]
    next => simp at h
  next => simp at h

theorem sweepClear_list {answer : Option (List Digest)} (hs : SweepClear s)
    (h : sweepStep P s (.list answer) = some t) : SweepClear t := by
  simp only [sweepStep] at h
  split at h
  next nodeId addr i todo hphase =>
    split at h
    next =>
      cases Option.some.inj h
      exact sweepClear_of_phase hs rfl rfl (phaseGuarded_nextPrefix s nodeId addr i todo)
    next shards =>
      split at h
      next =>
        cases Option.some.inj h
        refine sweepClear_of_phase hs rfl rfl ?_
        by_cases hempty : shards = []
        · simp only [if_pos hempty]
          exact phaseGuarded_nextPrefix s nodeId addr i todo
        · simp only [if_neg hempty]
          intro hex hmem
          obtain ⟨shardHash, -, heq⟩ := List.mem_map.mp hmem
          exact ⟨shardHash, heq⟩
      next => simp at h
  next => simp at h

theorem sweepClear_query {succeeds : Bool} (hs : SweepClear s)
    (hc : SweepExcludesUploads P s (.query succeeds))
    (h : sweepStep P s (.query succeeds) = some t) : SweepClear t := by
  simp only [sweepStep] at h
  split at h
  next nodeId addr i hexShards todo hphase =>
    cases succeeds with
    | false =>
      cases Option.some.inj h
      exact sweepClear_of_phase hs rfl rfl trivial
    | true =>
      cases Option.some.inj h
      have hguarded := hs.guarded
      simp only [PhaseGuarded, hphase] at hguarded
      simp only [SweepExcludesUploads, hphase] at hc
      refine sweepClear_of_phase hs rfl rfl ⟨hguarded, fun p hp haddr hlisted => ?_⟩
      exact List.mem_filter.mpr ⟨hlisted, decide_eq_true (hc p hp haddr hlisted)⟩
  next => simp at h

/-- The delete of a listed orphan touches no uncommitted upload. -/
theorem sweepClear_delete {addr : SocketAddr} {shardHash : Digest} (hs : SweepClear s)
    (hfree : ∀ p ∈ s.pending, ¬(p.addr = addr ∧ p.shardHash = shardHash)) :
    SweepClear (s.deleteShard addr shardHash) := by
  have hsame : (s.deleteShard addr shardHash).pending = s.pending := by
    unfold SweepState.deleteShard
    refine (List.map_congr_left fun p hp => ?_).trans (List.map_id _)
    rw [if_neg (hfree p hp)]
    rfl
  refine sweepClear_of_pending hs rfl (fun p hp => ?_) rfl
  rw [hsame] at hp
  exact hp

theorem sweepClear_prune {arrives : Bool} (hs : SweepClear s)
    (h : sweepStep P s (.prune arrives) = some t) : SweepClear t := by
  simp only [sweepStep] at h
  split at h
  next nodeId addr i hexShards validSet todo hphase =>
    cases Option.some.inj h
    have hguarded := hs.guarded
    simp only [PhaseGuarded, hphase] at hguarded
    cases hexShards with
    | nil => exact sweepClear_of_phase hs rfl rfl (phaseGuarded_nextPrefix s nodeId addr i todo)
    | cons hex rest =>
      have hrest : SweepClear { s with phase := .prune nodeId addr i rest validSet todo } := by
        refine sweepClear_of_phase hs rfl rfl ⟨fun x hx => hguarded.1 x (List.mem_cons_of_mem _ hx),
          fun p hp haddr hlisted => hguarded.2 p hp haddr (List.mem_cons_of_mem _ hlisted)⟩
      simp only [SweepState.pruneStep]
      split
      next => exact hrest
      next hkept =>
        split
        next => exact hrest
        next shardHash hparse =>
          split
          next =>
            refine sweepClear_delete hrest fun p hp hmatch => hkept (Or.inl ?_)
            obtain ⟨original, rfl⟩ := hguarded.1 hex List.mem_cons_self
            have hsame : p.shardHash = original := by
              rw [hmatch.2, ← Option.some.inj ((parseShardHash_toHex original).symm.trans hparse)]
            have hvalid := hguarded.2 p hp hmatch.1 (by rw [hsame]; exact List.mem_cons_self)
            rwa [hsame] at hvalid
          next => exact hrest
  next => simp at h

theorem sweepClear_step {e : SweepEvent} (hs : SweepClear s) (hc : SweepExcludesUploads P s e)
    (h : sweepStep P s e = some t) : SweepClear t := by
  cases e with
  | acknowledge path addr data => exact sweepClear_acknowledge hs hc h
  | receive i =>
    obtain ⟨store, -, rfl⟩ := Option.map_eq_some_iff.mp h
    unfold SweepState.receive
    split <;> exact sweepClear_of_pending hs rfl (fun _ hp => hp) rfl
  | commit i => exact sweepClear_commit hs h
  | abandon i =>
    cases Option.some.inj h
    exact sweepClear_of_pending hs rfl (fun p hp => List.mem_of_mem_eraseIdx hp) rfl
  | unreference shardHash =>
    cases Option.some.inj h
    exact sweepClear_of_pending hs rfl (fun _ hp => hp) rfl
  | tick nanos =>
    cases Option.some.inj h
    exact sweepClear_of_pending hs rfl (fun _ hp => hp) rfl
  | startSweep =>
    simp only [sweepStep] at h
    split at h
    next =>
      cases Option.some.inj h
      exact sweepClear_of_phase hs rfl rfl trivial
    next => simp at h
  | visit lookupUp =>
    simp only [sweepStep] at h
    split at h
    next =>
      cases Option.some.inj h
      exact sweepClear_of_phase hs rfl rfl trivial
    next =>
      split at h <;> cases Option.some.inj h <;> exact sweepClear_of_phase hs rfl rfl trivial
    next => simp at h
  | list answer => exact sweepClear_list hs h
  | query succeeds => exact sweepClear_query hs hc h
  | prune arrives => exact sweepClear_prune hs h

/-- In every interleaving whose steps meet the condition, no shard that is committed was swept
between its acknowledgement and its commit. -/
theorem sweep_safe_of_exclusion {registry : PeerRegistry} {db : Database} {fleet : Fleet}
    {referenced : List (List Char)} {now : Time} {es : List SweepEvent}
    (hc : Runs.Meets (sweepStep P) (SweepExcludesUploads P)
      (SweepState.init registry db fleet referenced now) es)
    (h : Runs.exec (sweepStep P) (SweepState.init registry db fleet referenced now) es = some t) :
    SweepSafe t := by
  have hinit : SweepClear (SweepState.init registry db fleet referenced now) :=
    ⟨by simp [SweepState.init], rfl, trivial⟩
  have hclear : SweepClear t :=
    Runs.exec_invariant (fun _ _ _ hs hc hstep => sweepClear_step hs hc hstep) hinit hc h
  exact hclear.lost

theorem noteRecentStore_checked (recent : RecentStores) (owner : StoreOwner)
    (shardHash : List Char) (now : Time) :
    (noteRecentStore recent owner shardHash now).checked = recent.checked := by
  simp only [noteRecentStore]
  split <;> rfl

theorem pruneStep_recent (nodeId : NodeId) (addr : SocketAddr) (i : Nat)
    (validSet : List (List Char)) (todo : List NodeId) (arrives : Bool)
    (hexShards : List (List Char)) :
    (s.pruneStep nodeId addr i validSet todo arrives hexShards).recent = s.recent := by
  cases hexShards with
  | nil => rfl
  | cons hex rest =>
    simp only [SweepState.pruneStep]
    split
    next => rfl
    next =>
      split
      next => rfl
      next => split <;> rfl

theorem checked_step {e : SweepEvent} (hs : s.recent.checked = [])
    (h : sweepStep P s e = some t) : t.recent.checked = [] := by
  cases e with
  | receive i =>
    obtain ⟨store, -, rfl⟩ := Option.map_eq_some_iff.mp h
    unfold SweepState.receive
    split
    next => exact (noteRecentStore_checked _ _ _ _).trans hs
    next => exact hs
  | prune arrives =>
    simp only [sweepStep] at h
    split at h
    next =>
      cases Option.some.inj h
      rw [pruneStep_recent]
      exact hs
    next => simp at h
  | _ =>
    simp only [sweepStep] at h
    repeat' split at h
    all_goals first | (cases Option.some.inj h; exact hs) | simp at h

/-- The map that the sweep reads is never written: no store counts as recent in any run. -/
theorem isRecentlyStored_never {registry : PeerRegistry} {db : Database} {fleet : Fleet}
    {referenced : List (List Char)} {now : Time} {es : List SweepEvent}
    (h : Runs.exec (sweepStep P) (SweepState.init registry db fleet referenced now) es = some t)
    (nodeId : NodeId) (shardHash : List Char) (time : Time) :
    isRecentlyStored t.recent nodeId shardHash time = false := by
  have hempty : t.recent.checked = [] :=
    Runs.exec_invariant_of_step (fun s e u (hs : s.recent.checked = []) hstep =>
      checked_step hs hstep) rfl h
  simp [isRecentlyStored, hempty]

def sweptAddr : SocketAddr := ⟨.v4 192 168 1 7, 5050⟩

noncomputable def sweptStart : SweepState :=
  SweepState.init ⟨[⟨"node", sweptAddr, 0⟩], .open, by simp⟩
    ⟨[], [], [], [⟨"node", some sweptAddr, 0, true⟩], 0⟩ ⟨fun _ _ => none, fun _ => some "node"⟩ [] 0

/-- The server holds one shard that no row names. -/
noncomputable def orphanStart : SweepState :=
  SweepState.init sweptStart.registry sweptStart.db
    (sweptStart.fleet.put sweptAddr (referenceHash [0, 9]) [0, 9]) [] 0

/-- The sweep lists the orphan; a shard of the same prefix is acknowledged before the query and
committed after the delete. -/
def uploadDuringSweep : List SweepEvent :=
  [.startSweep, .visit true, .list (some [referenceHash [0, 9]]),
    .acknowledge .streamOneShard sweptAddr [0, 7], .query true, .prune true, .commit 0]

instance (P : Primitives) (s : SweepState) : ∀ e, Decidable (SweepExcludesUploads P s e)
  | .query true =>
    match hphase : s.phase with
    | .query _ addr _ hexShards _ =>
      decidable_of_iff (∀ p ∈ s.pending, p.addr = addr → (∃ h ∈ hexShards, h = toHex p.shardHash) →
        ∃ h ∈ s.referenced, h = toHex p.shardHash) (by simp [SweepExcludesUploads, hphase])
    | .idle | .nodes _ | .list .. | .prune .. => isTrue (by simp [SweepExcludesUploads, hphase])
  | .acknowledge _ addr data =>
    match hphase : s.phase with
    | .prune _ swept _ hexShards validSet _ =>
      decidable_of_iff (addr = swept → (∃ h ∈ hexShards, h = toHex (P.blake3 data)) →
        ∃ h ∈ validSet, h = toHex (P.blake3 data)) (by simp [SweepExcludesUploads, hphase])
    | .idle | .nodes _ | .list .. | .query .. => isTrue (by simp [SweepExcludesUploads, hphase])
  | .query false | .receive _ | .commit _ | .abandon _ | .unreference _ | .tick _ | .startSweep
  | .visit _ | .list _ | .prune _ => isTrue trivial

theorem upload_during_sweep_safe :
    ∃ t, Runs.exec (sweepStep referencePrimitives) orphanStart uploadDuringSweep = some t ∧
      SweepSafe t ∧ toHex (referenceHash [0, 7]) ∈ t.referenced ∧
      t.fleet.shards sweptAddr (referenceHash [0, 7]) = some [0, 7] ∧
      t.fleet.shards sweptAddr (referenceHash [0, 9]) = none := by
  have hends : (Runs.exec (sweepStep referencePrimitives) orphanStart uploadDuringSweep).map
      (fun t => (decide (toHex (referenceHash [0, 7]) ∈ t.referenced),
        t.fleet.shards sweptAddr (referenceHash [0, 7]),
        t.fleet.shards sweptAddr (referenceHash [0, 9]))) = some (true, some [0, 7], none) := by
    decide +kernel
  obtain ⟨t, hrun, hfields⟩ := Option.map_eq_some_iff.mp hends
  obtain ⟨hreferenced, hshards⟩ := Prod.mk.inj hfields
  obtain ⟨hkept, hswept⟩ := Prod.mk.inj hshards
  have hmeets : Runs.Meets (sweepStep referencePrimitives)
      (SweepExcludesUploads referencePrimitives) orphanStart uploadDuringSweep := by
    decide +kernel
  have hsafe : SweepSafe t := sweep_safe_of_exclusion hmeets hrun
  exact ⟨t, hrun, hsafe, of_decide_eq_true hreferenced, hkept, hswept⟩

/-- The sweep lists, does not find referenced, and deletes a shard that `store_shard` has just
uploaded and noted; its row is committed right after. -/
theorem sweep_deletes_noted_upload :
    ∃ t, Runs.exec (sweepStep referencePrimitives) sweptStart
        [.acknowledge .storeShard sweptAddr [0], .receive 0, .startSweep, .visit true,
          .list (some [referenceHash [0]]), .query true, .prune true, .commit 0] = some t ∧
      ¬SweepSafe t := by
  have hlost : (Runs.exec (sweepStep referencePrimitives) sweptStart
      [.acknowledge .storeShard sweptAddr [0], .receive 0, .startSweep, .visit true,
        .list (some [referenceHash [0]]), .query true, .prune true, .commit 0]).map
      (fun t => t.lost.isEmpty) = some false := by decide +kernel
  obtain ⟨t, hrun, hempty⟩ := Option.map_eq_some_iff.mp hlost
  refine ⟨t, hrun, ?_⟩
  intro h
  rw [SweepSafe] at h
  simp [h] at hempty

end Reminisce

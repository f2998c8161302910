import Reminisce.PeerSync

namespace Reminisce

variable {s t : PeerSystem} {e : PeerEvent}

theorem Database.mem_upsertNode {db : Database} {nodeId : NodeId} {addr : SocketAddr} {now : Time}
    {row : NodeRow} (h : row ∈ (db.upsertNode nodeId addr now).p2pNodes) :
    row ∈ db.p2pNodes ∨ (row.nodeId = nodeId ∧ row.lastSeen = now) := by
  unfold upsertNode at h
  split at h
  next =>
    obtain ⟨old, hold, rfl⟩ := List.mem_map.mp h
    split
    next hid => exact Or.inr ⟨hid, rfl⟩
    next => exact Or.inl hold
  next =>
    rcases List.mem_append.mp h with h | h
    · exact Or.inl h
    · cases List.mem_singleton.mp h
      exact Or.inr ⟨rfl, rfl⟩

theorem Database.upsertNode_stamps (db : Database) (nodeId : NodeId) (addr : SocketAddr)
    (now : Time) :
    ∃ row ∈ (db.upsertNode nodeId addr now).p2pNodes, row.nodeId = nodeId ∧ row.lastSeen = now := by
  unfold upsertNode
  split
  next hany =>
    obtain ⟨row, hrow, hid⟩ := List.any_eq_true.mp hany
    refine ⟨_, List.mem_map.mpr ⟨row, hrow, rfl⟩, ?_⟩
    simp [of_decide_eq_true hid]
  next => exact ⟨_, List.mem_append_right _ (List.mem_singleton_self _), rfl, rfl⟩

theorem Database.mem_markInactive {db : Database} {now : Time} {row : NodeRow}
    (h : row ∈ (db.markInactive now).p2pNodes) :
    ∃ old ∈ db.p2pNodes, old.nodeId = row.nodeId ∧ old.lastSeen = row.lastSeen := by
  obtain ⟨old, hold, rfl⟩ := List.mem_map.mp h
  refine ⟨old, hold, ?_⟩
  split <;> exact ⟨rfl, rfl⟩

theorem Database.mem_placementTargets {db : Database} {now : Time} {nodeId : NodeId}
    {addr : SocketAddr} :
    (nodeId, addr) ∈ db.placementTargets now ↔ ∃ row ∈ db.p2pNodes,
      row.isActive ∧ now < row.lastSeen + secs 600 ∧ row.publicAddr = some addr ∧
        row.nodeId = nodeId := by
  simp [placementTargets, and_assoc]

/-- What a step changes, when `stamped` is the node it stamps without an announcement. -/
structure StepEffect (s t : PeerSystem) (stamped : Option NodeId) : Prop where
  now : s.now ≤ t.now
  announced : ∀ nodeId, t.lastAnnounced nodeId = s.lastAnnounced nodeId ∨
    t.lastAnnounced nodeId = some s.now
  swept : t.lastSweep = s.lastSweep ∨ (t.lastSweep = some s.now ∧
    ∀ p ∈ t.registry.peers, (s.now - p.lastSeen) / nanosPerSec < 3600)
  peers : ∀ p ∈ t.registry.peers, p ∈ s.registry.peers ∨ (p.lastSeen = s.now ∧
    (stamped = some p.nodeId ∨ t.lastAnnounced p.nodeId = some s.now))
  nodes : ∀ row ∈ t.db.p2pNodes,
    (∃ old ∈ s.db.p2pNodes, old.nodeId = row.nodeId ∧ old.lastSeen = row.lastSeen) ∨
      (row.lastSeen = s.now ∧ stamped = some row.nodeId)
  stamps : ∀ nodeId, stamped = some nodeId → t.lastAnnounced = s.lastAnnounced ∧
    ((∃ p ∈ t.registry.peers, p.nodeId = nodeId ∧ p.lastSeen = s.now) ∨
      ∃ row ∈ t.db.p2pNodes, row.nodeId = nodeId ∧ row.lastSeen = s.now)

theorem stepEffect_setPhase {stamped : Option NodeId} (h : StepEffect s t stamped) (i : Nat)
    (worker : Worker) (next : Option PassPhase) :
    StepEffect s (t.setPhase i worker next) stamped := by
  cases next <;> exact ⟨h.now, h.announced, h.swept, h.peers, h.nodes, h.stamps⟩

/-- A step that stamps nothing, keeps the node table and adds no peer. -/
theorem stepEffect_quiet (hnow : s.now ≤ t.now) (hheard : t.lastAnnounced = s.lastAnnounced)
    (hswept : t.lastSweep = s.lastSweep) (hpeers : ∀ p ∈ t.registry.peers, p ∈ s.registry.peers)
    (hdb : t.db = s.db) : StepEffect s t none where
  now := hnow
  announced nodeId := Or.inl (by rw [hheard])
  swept := Or.inl hswept
  peers p hp := Or.inl (hpeers p hp)
  nodes row hrow := Or.inl ⟨row, hdb ▸ hrow, rfl, rfl⟩
  stamps nodeId h := by simp at h

theorem stepEffect_upsertNode (nodeId : NodeId) (addr : SocketAddr) :
    StepEffect s { s with db := s.db.upsertNode nodeId addr s.now } (some nodeId) where
  now := Nat.le_refl _
  announced _ := Or.inl rfl
  swept := Or.inl rfl
  peers p hp := Or.inl hp
  nodes row hrow := by
    rcases Database.mem_upsertNode hrow with hold | ⟨hid, hseen⟩
    · exact Or.inl ⟨row, hold, rfl, rfl⟩
    · exact Or.inr ⟨hseen, congrArg some hid.symm⟩
  stamps other h := by
    cases Option.some.inj h
    exact ⟨rfl, Or.inr (Database.upsertNode_stamps _ _ _ _)⟩

theorem stepEffect_upsertPeer (nodeId : NodeId) (addr : SocketAddr) :
    StepEffect s { s with registry := s.registry.upsert nodeId addr s.now }
      (if s.registry.admission.allows nodeId then some nodeId else none) where
  now := Nat.le_refl _
  announced _ := Or.inl rfl
  swept := Or.inl rfl
  peers p hp := by
    rcases PeerRegistry.mem_upsert hp with hold | ⟨ha, hid, hseen⟩
    · exact Or.inl hold
    · exact Or.inr ⟨hseen, Or.inl (by rw [if_pos ha, hid])⟩
  nodes row hrow := Or.inl ⟨row, hrow, rfl, rfl⟩
  stamps other h := by
    rw [Option.ite_none_right_eq_some] at h
    cases Option.some.inj h.2
    exact ⟨rfl, Or.inl (PeerRegistry.upsert_stamps h.1 _ _)⟩

theorem stepEffect_announce (nodeId : NodeId) (addr : SocketAddr) :
    StepEffect s { s.hear nodeId with registry := s.registry.upsert nodeId addr s.now } none where
  now := Nat.le_refl _
  announced other := by
    by_cases h : other = nodeId
    · exact Or.inr (if_pos h)
    · exact Or.inl (if_neg h)
  swept := Or.inl rfl
  peers p hp := by
    rcases PeerRegistry.mem_upsert hp with hold | ⟨-, hid, hseen⟩
    · exact Or.inl hold
    · exact Or.inr ⟨hseen, Or.inr (if_pos hid)⟩
  nodes row hrow := Or.inl ⟨row, hrow, rfl, rfl⟩
  stamps other h := by simp at h

theorem stepEffect_sweep :
    StepEffect s { s with
      registry := s.registry.removeStale 3600 s.now, lastSweep := some s.now } none where
  now := Nat.le_refl _
  announced _ := Or.inl rfl
  swept := Or.inr ⟨rfl, fun p hp => (PeerRegistry.mem_removeStale.mp hp).2⟩
  peers p hp := Or.inl (PeerRegistry.mem_removeStale.mp hp).1
  nodes row hrow := Or.inl ⟨row, hrow, rfl, rfl⟩
  stamps other h := by simp at h

theorem advance_effect (worker : Worker) (phase : PassPhase) :
    StepEffect s (s.advance worker phase).1 (phase.restamps s.registry.admission) := by
  cases phase with
  | register nodes =>
    cases nodes with
    | nil =>
      refine ⟨Nat.le_refl _, fun _ => Or.inl rfl, Or.inl rfl, fun p hp => Or.inl hp, ?_, ?_⟩
      · exact fun row hrow => Or.inl (Database.mem_markInactive hrow)
      · intro nodeId h
        simp [PassPhase.restamps] at h
    | cons node rest => exact stepEffect_upsertNode node.1 node.2
  | query => exact stepEffect_quiet (Nat.le_refl _) rfl rfl (fun _ h => h) rfl
  | sync rows =>
    cases rows with
    | nil => exact stepEffect_quiet (Nat.le_refl _) rfl rfl (fun _ h => h) rfl
    | cons node rest => exact stepEffect_upsertPeer node.1 node.2
  | place activeNodes => exact stepEffect_quiet (Nat.le_refl _) rfl rfl (fun _ h => h) rfl

theorem lookup_effect (nodeId : NodeId) (dbUp : Bool) :
    StepEffect s { s with registry := (lookupNodeAddr s.registry s.db nodeId s.now dbUp).2 }
      (restamped s (.lookup nodeId dbUp)) := by
  simp only [restamped, lookupNodeAddr]
  split
  next peer hget =>
    rw [if_neg (by simp [hget])]
    exact stepEffect_quiet (Nat.le_refl _) rfl rfl (fun _ h => h) rfl
  next hget =>
    split
    next addr haddr =>
      have hup : dbUp = true ∧ s.db.nodeAddr nodeId = some addr := by
        cases dbUp with
        | false => simp at haddr
        | true => exact ⟨rfl, haddr⟩
      have heffect := stepEffect_upsertPeer (s := s) nodeId addr
      simpa [hget, hup.1, hup.2] using heffect
    next hnone =>
      have hcond : ¬(s.registry.get nodeId = none ∧ dbUp ∧ (s.db.nodeAddr nodeId).isSome ∧
          s.registry.admission.allows nodeId) := by
        rintro ⟨-, hup, hsome, -⟩
        rw [if_pos hup] at hnone
        simp [hnone] at hsome
      rw [if_neg hcond]
      exact stepEffect_quiet (Nat.le_refl _) rfl rfl (fun _ h => h) rfl

theorem step_effect (h : peerStep s e = some t) : StepEffect s t (restamped s e) := by
  cases e with
  | announce nodeId addr =>
    cases Option.some.inj h
    exact stepEffect_announce nodeId addr
  | contact nodeId =>
    cases Option.some.inj h
    refine ⟨Nat.le_refl _, fun other => ?_, Or.inl rfl, fun p hp => Or.inl hp,
      fun row hrow => Or.inl ⟨row, hrow, rfl, rfl⟩, by simp [restamped]⟩
    by_cases hid : other = nodeId
    · exact Or.inr (if_pos hid)
    · exact Or.inl (if_neg hid)
  | recordContact nodeId addr =>
    cases Option.some.inj h
    exact stepEffect_upsertNode nodeId addr
  | sweep =>
    cases Option.some.inj h
    exact stepEffect_sweep
  | start worker =>
    simp only [peerStep] at h
    split at h
    next =>
      cases Option.some.inj h
      exact stepEffect_quiet (Nat.le_refl _) rfl rfl (fun _ h => h) rfl
    next => simp at h
  | advance i =>
    simp only [peerStep] at h
    split at h
    next pass hpass =>
      cases Option.some.inj h
      simp only [restamped, hpass, Option.bind_some]
      exact stepEffect_setPhase (advance_effect pass.worker pass.phase) i _ _
    next => simp at h
  | dbError i =>
    simp only [peerStep] at h
    split at h
    next =>
      cases Option.some.inj h
      exact stepEffect_quiet (Nat.le_refl _) rfl rfl (fun _ h => h) rfl
    next => simp at h
  | lookup nodeId dbUp =>
    cases Option.some.inj h
    exact lookup_effect nodeId dbUp
  | restart =>
    cases Option.some.inj h
    exact stepEffect_quiet (Nat.le_refl _) rfl rfl (by simp [PeerRegistry.new]) rfl
  | tick nanos =>
    cases Option.some.inj h
    exact stepEffect_quiet (Nat.le_add_right _ _) rfl rfl (fun _ h => h) rfl

/-- What every step keeps: nothing was announced or swept in the future, and what is left of
a sweep was seen within the hour before it. -/
structure ClockConsistent (s : PeerSystem) : Prop where
  announced : ∀ nodeId heard, s.lastAnnounced nodeId = some heard → heard ≤ s.now
  swept : ∀ time, s.lastSweep = some time → time ≤ s.now ∧
    ∀ p ∈ s.registry.peers, (time - p.lastSeen) / nanosPerSec < 3600

theorem clockConsistent_init (db : Database) (admission : AdmissionPolicy) (now : Time) :
    ClockConsistent (PeerSystem.init db admission now) :=
  ⟨by simp [PeerSystem.init], by simp [PeerSystem.init]⟩

theorem lastSeenBounded_init (db : Database) (admission : AdmissionPolicy) (now : Time) :
    LastSeenBounded (PeerSystem.init db admission now) :=
  ⟨by simp [PeerSystem.init, PeerRegistry.new], by simp [PeerSystem.init]⟩

theorem clockConsistent_step (hs : ClockConsistent s) (h : peerStep s e = some t) :
    ClockConsistent t := by
  have heffect := step_effect h
  refine ⟨fun nodeId heard hheard => ?_, fun time htime => ?_⟩
  · rcases heffect.announced nodeId with hold | hnew
    · exact Nat.le_trans (hs.announced nodeId heard (hold ▸ hheard)) heffect.now
    · cases Option.some.inj (hnew.symm.trans hheard)
      exact heffect.now
  · rcases heffect.swept with hold | ⟨hnew, hleft⟩
    · obtain ⟨hle, hleft⟩ := hs.swept time (hold ▸ htime)
      refine ⟨Nat.le_trans hle heffect.now, fun p hp => ?_⟩
      rcases heffect.peers p hp with hp | ⟨hseen, -⟩
      · exact hleft p hp
      · rw [hseen, Nat.sub_eq_zero_of_le hle]
        simp
    · cases Option.some.inj (hnew.symm.trans htime)
      exact ⟨heffect.now, hleft⟩

theorem restamped_enabled {nodeId : NodeId} (h : restamped s e = some nodeId) :
    ∃ t, peerStep s e = some t := by
  cases e with
  | advance i =>
    obtain ⟨pass, hpass, -⟩ := Option.bind_eq_some_iff.mp h
    simp [peerStep, hpass]
  | recordContact nodeId addr => exact ⟨_, rfl⟩
  | lookup nodeId dbUp => exact ⟨_, rfl⟩
  | _ => simp [restamped] at h

theorem StepEffect.heardSince {stamped : Option NodeId} (heffect : StepEffect s t stamped)
    (hs : ClockConsistent s) {nodeId : NodeId} {time : Time} (h : s.HeardSince nodeId time) :
    t.HeardSince nodeId time := by
  obtain ⟨heard, hheard, hle⟩ := h
  rcases heffect.announced nodeId with hold | hnew
  · exact ⟨heard, hold.trans hheard, hle⟩
  · exact ⟨s.now, hnew, Nat.le_trans hle (hs.announced nodeId heard hheard)⟩

theorem lastSeenBounded_step (hs : ClockConsistent s) (hb : LastSeenBounded s)
    (hc : RestampsAnnounced s e) (h : peerStep s e = some t) : LastSeenBounded t := by
  have heffect := step_effect h
  have hnow : ∀ nodeId, restamped s e = some nodeId → t.HeardSince nodeId s.now :=
    fun nodeId hr => heffect.heardSince hs ⟨s.now, hc nodeId hr, Nat.le_refl _⟩
  refine ⟨fun p hp => ?_, fun row hrow => ?_⟩
  · rcases heffect.peers p hp with hp | ⟨hseen, hr | hheard⟩
    · exact heffect.heardSince hs (hb.peers p hp)
    · rw [hseen]
      exact hnow p.nodeId hr
    · exact ⟨s.now, hheard, Nat.le_of_eq hseen⟩
  · rcases heffect.nodes row hrow with ⟨old, hold, hid, hseen⟩ | ⟨hseen, hr⟩
    · rw [← hid, ← hseen]
      exact heffect.heardSince hs (hb.nodes old hold)
    · rw [hseen]
      exact hnow row.nodeId hr

/-- A step that re-stamps a node which did not just announce itself breaks the bound. -/
theorem restampsAnnounced_of_bounded (hs : ClockConsistent s)
    (hb : ∀ t, peerStep s e = some t → LastSeenBounded t) : RestampsAnnounced s e := by
  intro nodeId hr
  obtain ⟨t, ht⟩ := restamped_enabled hr
  obtain ⟨hsame, hstamped⟩ := (step_effect ht).stamps nodeId hr
  have hheard : t.HeardSince nodeId s.now := by
    rcases hstamped with ⟨p, hp, hid, hseen⟩ | ⟨row, hrow, hid, hseen⟩
    · rw [← hid, ← hseen]
      exact (hb t ht).peers p hp
    · rw [← hid, ← hseen]
      exact (hb t ht).nodes row hrow
  obtain ⟨heard, hheard, hle⟩ := hheard
  rw [hsame] at hheard
  rw [hheard, Nat.le_antisymm (hs.announced nodeId heard hheard) hle]

/-- The node's last announcement, if there is one, is `window` or more before `time`. -/
def PeerSystem.SilentFor (s : PeerSystem) (nodeId : NodeId) (window time : Time) : Prop :=
  ∀ heard, s.lastAnnounced nodeId = some heard → heard + window ≤ time

/-- A node that has been silent for ten minutes is no placement target. -/
theorem silent_not_target (hb : LastSeenBounded s) {nodeId : NodeId}
    (hsilent : s.SilentFor nodeId (secs 600) s.now) :
    nodeId ∉ (s.db.placementTargets s.now).map (·.1) := by
  intro hmem
  obtain ⟨node, hnode, rfl⟩ := List.mem_map.mp hmem
  obtain ⟨row, hrow, -, hrecent, -, hid⟩ := Database.mem_placementTargets.mp hnode
  obtain ⟨heard, hheard, hle⟩ := hb.nodes row hrow
  have hlate : s.now < s.now := calc
    s.now < row.lastSeen + secs 600 := hrecent
    _ ≤ heard + secs 600 := Nat.add_le_add_right hle _
    _ ≤ s.now := hsilent heard (hid ▸ hheard)
  exact Nat.lt_irrefl _ hlate

/-- A node that had been silent for an hour at the last sweep is not in the registry. -/
theorem silent_not_registered (hs : ClockConsistent s) (hb : LastSeenBounded s) {time : Time}
    (hsweep : s.lastSweep = some time) {nodeId : NodeId}
    (hsilent : s.SilentFor nodeId (secs 3600) time) : s.registry.get nodeId = none := by
  cases hget : s.registry.get nodeId with
  | none => rfl
  | some p =>
    obtain ⟨hp, rfl⟩ := PeerRegistry.mem_of_get hget
    obtain ⟨heard, hheard, hle⟩ := hb.peers p hp
    have hage := (hs.swept time hsweep).2 p hp
    have hyoung : time - p.lastSeen < secs 3600 := (Nat.div_lt_iff_lt_mul (by decide)).mp hage
    have hrecent : time < secs 3600 + p.lastSeen :=
      Nat.lt_of_not_le fun h => absurd hyoung (Nat.not_lt.mpr (Nat.le_sub_of_add_le h))
    have hlate : time < time := calc
      time < secs 3600 + p.lastSeen := hrecent
      _ ≤ secs 3600 + heard := Nat.add_le_add_left hle _
      _ = heard + secs 3600 := Nat.add_comm _ _
      _ ≤ time := hsilent heard hheard
    exact absurd hlate (Nat.lt_irrefl _)

/-- Along every run, `last_seen` stays within the announcements exactly when no step re-stamps
a node that did not just announce itself; then silent nodes drop out. -/
theorem last_seen_bounded_iff_restamps_announced (db : Database) (admission : AdmissionPolicy)
    (start : Time) (es : List PeerEvent) :
    (Runs.Throughout peerStep LastSeenBounded (PeerSystem.init db admission start) es ↔
      Runs.Meets peerStep RestampsAnnounced (PeerSystem.init db admission start) es) ∧
    (Runs.Meets peerStep RestampsAnnounced (PeerSystem.init db admission start) es →
      ∀ t, Runs.exec peerStep (PeerSystem.init db admission start) es = some t → ∀ nodeId,
        (t.SilentFor nodeId (secs 600) t.now →
          nodeId ∉ (t.db.placementTargets t.now).map (·.1)) ∧
        (∀ time, t.lastSweep = some time → t.SilentFor nodeId (secs 3600) time →
          t.registry.get nodeId = none)) := by
  have hclock := clockConsistent_init db admission start
  have hiff : Runs.Throughout peerStep LastSeenBounded (PeerSystem.init db admission start) es ↔
      Runs.Meets peerStep RestampsAnnounced (PeerSystem.init db admission start) es := by
    refine Runs.throughout_iff_meets (fun _ _ _ hs h => clockConsistent_step hs h) ?_ hclock
      (lastSeenBounded_init db admission start) es
    intro s e hs hb
    exact ⟨restampsAnnounced_of_bounded hs, fun hc t ht => lastSeenBounded_step hs hb hc ht⟩
  refine ⟨hiff, fun hmeets t ht nodeId => ?_⟩
  have hb : LastSeenBounded t := Runs.throughout_last (hiff.mpr hmeets) ht
  have hs : ClockConsistent t :=
    Runs.exec_invariant_of_step (fun _ _ _ hs h => clockConsistent_step hs h) hclock ht
  exact ⟨silent_not_target hb, fun time hsweep => silent_not_registered hs hb hsweep⟩

def silentAddr : SocketAddr := ⟨.v4 192 168 1 7, 5050⟩

/-- One announcement, 601 seconds without another, and the first statement of a rebalance
cycle. -/
def silentRun : List PeerEvent :=
  [.announce "node" silentAddr, .tick (secs 601), .start .rebalance, .advance 0]

/-- The cycle stamps the silent node with the present and takes it for a placement target. -/
theorem silent_node_becomes_target :
    ∃ t, Runs.exec peerStep (PeerSystem.init ⟨[], [], [], [], 0⟩ .open 0) silentRun = some t ∧
      ¬LastSeenBounded t ∧ t.SilentFor "node" (secs 600) t.now ∧
      ("node", silentAddr) ∈ t.db.placementTargets t.now := by
  refine ⟨_, rfl, ?_, ?_, ?_⟩
  · intro hb
    obtain ⟨heard, hheard, hle⟩ := hb.nodes ⟨"node", some silentAddr, secs 601, true⟩ (by decide)
    cases Option.some.inj hheard
    exact absurd hle (by decide)
  · intro heard hheard
    cases Option.some.inj hheard
    decide
  · refine Database.mem_placementTargets.mpr ⟨⟨"node", some silentAddr, secs 601, true⟩, ?_⟩
    decide

end Reminisce

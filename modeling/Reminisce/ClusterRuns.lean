import Reminisce.ClusterWrites

namespace Reminisce

section

variable {E : Type} {D : CosineDistance E}

namespace ClusterSystem

variable {s t : ClusterSystem E} {i person target face : Nat} {op other : ClusterOp E}
  {userId : UserId} {sources : List Nat} {todo : List (Nat × E)}

theorem opSound_at (h : s.ClustersKept) (hop : s.ops[i]? = some op) : s.OpSound op :=
  h.sound op (List.mem_of_getElem? hop)

theorem clusteringFaces (h : s.ClustersKept) {phase : ClusteringPhase E}
    (hop : s.ops[i]? = some (.clustering userId phase)) :
    ∀ face ∈ phase.faces, s.FaceOwner userId face :=
  (opSound_at h hop).1

/-- A clustering takes a step that leaves the tables as they are. -/
theorem kept_clustering (h : s.ClustersKept) {phase next : ClusteringPhase E}
    (hop : s.ops[i]? = some (.clustering userId phase))
    (hsound : s.OpSound (.clustering userId next))
    (hdue : ∀ person, s.Due (.clustering userId phase) person →
      s.Due (.clustering userId next) person ∨ s.RightWithout i person) :
    (s.setOp i (.clustering userId next)).ClustersKept :=
  kept_proceed h hop hsound (fun _ _ hmoving => hmoving.elim) (fun _ _ hupdating => hupdating.elim) hdue

theorem kept_end (h : s.ClustersKept) {phase : ClusteringPhase E}
    (hop : s.ops[i]? = some (.clustering userId phase))
    (hdue : ∀ person, s.Due (.clustering userId phase) person → s.RightWithout i person) :
    (s.setOp i .ended).ClustersKept :=
  kept_proceed h hop trivial (fun _ _ hmoving => hmoving.elim) (fun _ _ hupdating => hupdating.elim)
    fun person hwill => Or.inr (hdue person hwill)

theorem kept_query (h : s.ClustersKept) (hop : s.ops[i]? = some (.clustering userId .query)) :
    (s.setOp i (.clustering userId (.find (s.unclustered userId)))).ClustersKept := by
  refine kept_clustering h hop ⟨fun face hface => ?_, trivial⟩ fun person hdue => ?_
  · obtain ⟨entry, hentry, rfl⟩ := List.mem_map.mp hface
    obtain ⟨old, hold, rfl⟩ := List.mem_map.mp hentry
    obtain ⟨hold, hcond⟩ := List.mem_filter.mp hold
    simp only [Bool.and_eq_true, decide_eq_true_eq] at hcond
    exact ⟨old, hold, rfl, hcond.1⟩
  · simp [Due, ClusterOp.Unread] at hdue

/-- A face is found to be like those of a person of the same user. -/
theorem kept_similar (h : s.ClustersKept) {embedding : E}
    (hop : s.ops[i]? = some (.clustering userId (.find ((face, embedding) :: todo))))
    (hadmits : s.admits D userId embedding (some person) = true) :
    (s.setOp i (.clustering userId (.assign face person todo))).ClustersKept := by
  have hfaces := clusteringFaces h hop
  refine kept_clustering h hop ⟨hfaces, ?_⟩ fun person hdue => ?_
  · simp only [admits, Option.all_some, List.any_eq_true, Bool.and_eq_true, decide_eq_true_eq]
      at hadmits
    obtain ⟨entry, hentry, ⟨huser, hcommitted⟩, -⟩ := hadmits
    obtain ⟨row, hrow, -, hid, hsame⟩ := h.owned entry hentry person hcommitted
    exact ⟨row, hrow, hid, hsame.trans huser⟩
  · simp [Due, ClusterOp.Unread] at hdue

theorem kept_unlike (h : s.ClustersKept) {embedding : E}
    (hop : s.ops[i]? = some (.clustering userId (.find ((face, embedding) :: todo)))) :
    (s.setOp i (.clustering userId (.create face todo))).ClustersKept := by
  have hfaces := clusteringFaces h hop
  refine kept_clustering h hop ⟨hfaces, trivial⟩ fun person hdue => ?_
  simp [Due, ClusterOp.Unread] at hdue

/-- The statistics that a clustering reads are right, and stay so until a face comes. -/
theorem kept_readPerson (h : s.ClustersKept) {representative : Option Nat}
    (hop : s.ops[i]? = some (.clustering userId (.readStats person todo)))
    (hrep : representative.all (s.facesOf person).contains = true) :
    (s.setOp i (.clustering userId
      (.writeStats person ⟨(s.facesOf person).length, representative⟩ todo))).ClustersKept := by
  obtain ⟨hfaces, -, hsome⟩ := opSound_at h hop
  refine kept_clustering h hop ⟨hfaces, trivial⟩ fun other hdue => ?_
  have hsame : person = other := by simpa [Due, ClusterOp.Unread] using hdue
  subst hsame
  by_cases hlive : s.isLive person = true
  · refine Or.inl (Or.inr ⟨rfl, hsome hlive, rfl, fun id hid => ?_⟩)
    have hchosen : representative = some id := hid
    rw [hchosen] at hrep
    simpa using hrep
  · refine Or.inr fun row hrow hid stats hstats => ?_
    exact absurd (isLive_iff.mpr ⟨row, hrow, live_iff.mpr ⟨stats, hstats⟩, hid⟩) hlive

/-- A failure leaves the statistics right if it meets the condition. -/
theorem kept_fail (h : s.ClustersKept) (hop : s.ops[i]? = some op) (hkeeps : s.KeepsFailed i) :
    ((s.rollback i).setOp i .ended).ClustersKept := by
  have hright : ∀ person, s.Due op person → s.RightWithout i person := by
    intro person hdue
    simp only [KeepsFailed, hop] at hkeeps
    cases op with
    | clustering userId phase =>
      cases phase with
      | assign face other todo =>
        have hsame : other = person := by simpa [Due, ClusterOp.Unread] using hdue
        exact hsame ▸ hkeeps
      | readStats other todo =>
        have hsame : other = person := by simpa [Due, ClusterOp.Unread] using hdue
        exact hsame ▸ hkeeps
      | writeStats other stats todo =>
        have hsame : other = person := by
          simp only [Due, ClusterOp.Unread, false_or] at hdue
          exact hdue.1
        exact hsame ▸ hkeeps
      | query => simp [Due, ClusterOp.Unread] at hdue
      | find => simp [Due, ClusterOp.Unread] at hdue
      | create => simp [Due, ClusterOp.Unread] at hdue
    | merging => simp [Due, ClusterOp.Unread] at hdue
    | choosing => simp [Due, ClusterOp.Unread] at hdue
    | ended => simp [Due, ClusterOp.Unread] at hdue
  have hof : ∀ person, (s.rollback i).facesOf person = s.facesOf person :=
    fun person => facesOf_mapFaces fun _ _ => Iff.rfl
  have hdues : ∀ op person, (s.rollback i).Due op person ↔ s.Due op person := by
    intro op person
    unfold Due
    rw [hof]
  refine kept_setOp (kept_rollback h i) hop trivial ?_ ?_ fun person hdue => Or.inr ?_
  · intro entry hentry moved hwritten
    obtain ⟨old, hold, rfl⟩ := List.mem_map.mp hentry
    exact absurd rfl (Versioned.written_of_rollback hwritten).2
  · intro row hrow stats hwritten
    obtain ⟨old, hold, rfl⟩ := List.mem_map.mp hrow
    exact absurd rfl (Versioned.written_of_rollback hwritten).2
  · intro row hrow hid stats hstats
    obtain ⟨old, hold, rfl⟩ := List.mem_map.mp hrow
    rw [hof]
    simp only [hdues] at hdue ⊢
    exact hright person hdue old hold hid stats hstats

/-- The next statement of a clustering. -/
theorem kept_proceedClustering (h : s.ClustersKept) {phase : ClusteringPhase E}
    (hop : s.ops[i]? = some (.clustering userId phase)) (hkeeps : s.KeepsProceeding i)
    (hstep : proceedClustering s i userId phase = some t) : t.ClustersKept := by
  simp only [KeepsProceeding, hop] at hkeeps
  cases phase with
  | query =>
    cases Option.some.inj hstep
    exact kept_query h hop
  | find todo =>
    cases todo with
    | nil =>
      cases Option.some.inj hstep
      refine kept_end h hop fun person hdue => ?_
      simp [Due, ClusterOp.Unread] at hdue
    | cons first todo => simp [proceedClustering] at hstep
  | create face todo =>
    cases Option.some.inj hstep
    exact kept_createPerson h hop
  | assign face person todo =>
    simp only [proceedClustering] at hstep
    split at hstep
    next => simp at hstep
    next =>
      split at hstep
      next hlive =>
        cases Option.some.inj hstep
        obtain ⟨hfaces, hperson⟩ := opSound_at h hop
        have hface := hfaces face List.mem_cons_self
        have hassigned := kept_assignFace h hlive hface hperson (hkeeps hlive)
          ⟨_, List.mem_of_getElem? hop, rfl⟩
        refine kept_clustering hassigned hop ?_ fun other hdue => Or.inl (Or.inl ?_)
        · obtain ⟨hfaces', hperson'⟩ := opSound_at hassigned hop
          refine ⟨fun id hid => hfaces' id (List.mem_cons_of_mem face hid), hperson', fun _ hnil => ?_⟩
          obtain ⟨entry, hentry, hid, -⟩ := hface
          have hmem : entry.id ∈ (s.assignFace face person).facesOf person :=
            mem_facesOf_mapFaces.mpr ⟨entry, hentry, by rw [if_pos hid]; rfl, rfl⟩
          rw [hnil] at hmem
          simp at hmem
        · simpa [Due, ClusterOp.Unread] using hdue
      next hgone =>
        cases Option.some.inj hstep
        refine kept_end h hop fun other hdue row hrow hid stats hstats => ?_
        have hsame : person = other := by simpa [Due, ClusterOp.Unread] using hdue
        rw [← hsame] at hid
        exact absurd (isLive_iff.mpr ⟨row, hrow, live_iff.mpr ⟨stats, hstats⟩, hid⟩) hgone
  | readStats person todo => simp [proceedClustering] at hstep
  | writeStats person stats todo =>
    simp only [proceedClustering] at hstep
    split at hstep
    next => simp at hstep
    next =>
      cases Option.some.inj hstep
      have hright : ∀ row ∈ s.persons, row.id = person → ∀ old, row.stats.committed = some old →
          stats.Describes (s.facesOf person) ∨ ∃ op ∈ s.ops.eraseIdx i, s.Due op person :=
        fun row hrow hid old hold =>
          hkeeps (isLive_iff.mpr ⟨row, hrow, live_iff.mpr ⟨old, hold⟩, hid⟩)
      have hupdated : (s.updateStats person fun _ => stats).ClustersKept := by
        refine kept_updateStats h fun row hrow hid old hold => ?_
        exact (hright row hrow hid old hold).imp_right
          (Exists.imp fun _ => And.imp_left List.mem_of_mem_eraseIdx)
      have hfaces := clusteringFaces hupdated hop
      refine kept_clustering hupdated hop ⟨hfaces, trivial⟩ ?_
      intro other hdue
      refine Or.inr fun row hrow hid last hlast => ?_
      have hsame : person = other := by
        simp only [Due, ClusterOp.Unread, false_or] at hdue
        exact hdue.1
      subst hsame
      obtain ⟨old, hold, rfl⟩ := List.mem_map.mp hrow
      have holdId : old.id = person := hid
      simp only [holdId, if_true, Versioned.of] at hlast
      obtain ⟨before, hbefore, rfl⟩ := Option.map_eq_some_iff.mp hlast
      exact hright old hold holdId before hbefore

/-- A count that is full has counted every id. -/
theorem owner_of_count (h : s.ClustersKept) {ids : List Nat}
    (hcount : s.countOwned userId ids = ids.length) : ∀ person ∈ ids, s.PersonOwner userId person := by
  have hsub : ((s.persons.filter fun row => row.live && row.userId = userId &&
      ids.contains row.id).map PersonEntry.id) ⊆ ids := by
    intro id hid
    obtain ⟨row, hrow, rfl⟩ := List.mem_map.mp hid
    simpa using (Bool.and_eq_true_iff.mp (List.mem_filter.mp hrow).2).2
  have hperm := ((h.ids.sublist (List.filter_sublist.map _)).subperm hsub).perm_of_length_le (by
    rw [List.length_map, ← List.countP_eq_length_filter]
    exact hcount.ge)
  intro person hperson
  obtain ⟨row, hrow, hid⟩ := List.mem_map.mp (hperm.mem_iff.mpr hperson)
  obtain ⟨hrow, hcond⟩ := List.mem_filter.mp hrow
  simp only [Bool.and_eq_true, decide_eq_true_eq] at hcond
  exact ⟨row, hrow, hid, hcond.1.2⟩

/-- A merge takes a step that leaves the tables as they are. -/
theorem kept_merging (h : s.ClustersKept) {phase next : MergePhase}
    (hop : s.ops[i]? = some (.merging userId target sources phase))
    (hsound : s.OpSound (.merging userId target sources next))
    (hmoved : phase.hasMoved = true → next.hasMoved = true) (hfinish : phase ≠ .finish) :
    (s.setOp i (.merging userId target sources next)).ClustersKept := by
  refine kept_proceed h hop hsound ?_ ?_ fun person hdue => ?_
  · exact fun face person hmoving => ⟨hmoved hmoving.1, hmoving.2⟩
  · intro row stats hupdating
    cases phase <;> simp_all [Updating]
  · simp [Due, ClusterOp.Unread] at hdue

theorem kept_readTarget (h : s.ClustersKept) (stats : PersonStats)
    (hop : s.ops[i]? = some (.merging userId target sources .readStats)) :
    (s.setOp i (.merging userId target sources (.writeStats stats))).ClustersKept := by
  obtain ⟨hnodup, howner⟩ := opSound_at h hop
  exact kept_merging h hop ⟨hnodup, Or.inr (howner.resolve_left (by simp))⟩ (fun _ => rfl) (by simp)

/-- The locks of a merge end with it. -/
theorem kept_finish (h : s.ClustersKept)
    (hop : s.ops[i]? = some (.merging userId target sources .finish))
    (hfree : s.blocksDelete i sources = false) (hkeeps : s.KeepsProceeding i) :
    ((s.commitMerge i sources).setOp i .ended).ClustersKept := by
  simp only [KeepsProceeding, hop] at hkeeps
  refine kept_setOp (kept_commitMerge h hop hfree hkeeps) hop trivial ?_ ?_ fun person hdue => ?_
  · intro entry hentry moved hwritten
    obtain ⟨old, hold, rfl⟩ := List.mem_map.mp hentry
    by_cases hin : (old.person.seenBy i).any sources.contains = true
    · simp [hin, Versioned.of] at hwritten
    · simp only [hin, Bool.false_eq_true, if_false] at hwritten
      exact absurd rfl (Versioned.written_of_commit hwritten).2
  · intro row hrow stats hwritten
    obtain ⟨old, hold, rfl⟩ := List.mem_map.mp hrow
    by_cases hin : old.id ∈ sources
    · simp [hin, Versioned.of] at hwritten
    · simp only [List.contains_iff_mem, hin, if_false] at hwritten
      exact absurd rfl (Versioned.written_of_commit hwritten).2
  · simp [Due, ClusterOp.Unread] at hdue

/-- The end of a merge that has written nothing. -/
theorem kept_refuse (h : s.ClustersKept) {phase : MergePhase}
    (hop : s.ops[i]? = some (.merging userId target sources phase)) (hmoved : phase.hasMoved = false) :
    (s.setOp i .ended).ClustersKept := by
  refine kept_proceed h hop trivial ?_ ?_ fun person hdue => ?_
  · intro face person hmoving
    rw [hmoving.1] at hmoved
    simp at hmoved
  · intro row stats hupdating
    cases phase <;> simp_all [Updating, MergePhase.hasMoved]
  · simp [Due, ClusterOp.Unread] at hdue

/-- The next statement of a merge. -/
theorem kept_proceedMerge (h : s.ClustersKept) {phase : MergePhase}
    (hop : s.ops[i]? = some (.merging userId target sources phase)) (hkeeps : s.KeepsProceeding i)
    (hstep : proceedMerge s i userId target sources phase = some t) : t.ClustersKept := by
  obtain ⟨hnodup, howner⟩ := opSound_at h hop
  cases phase with
  | check =>
    simp only [proceedMerge] at hstep
    split at hstep
    next hcount =>
      cases Option.some.inj hstep
      have hall := owner_of_count h hcount
      refine kept_merging h hop ⟨hnodup, Or.inr fun person hperson => hall person ?_⟩
        (fun hmoved => by simp [MergePhase.hasMoved] at hmoved) (by simp)
      exact (List.perm_append_singleton target sources).mem_iff.mpr hperson
    next =>
      cases Option.some.inj hstep
      exact kept_refuse h hop rfl
  | snapshot =>
    cases Option.some.inj hstep
    exact kept_merging h hop ⟨hnodup, Or.inr (howner.resolve_left (by simp))⟩
      (fun hmoved => by simp [MergePhase.hasMoved] at hmoved) (by simp)
  | move candidates =>
    simp only [proceedMerge] at hstep
    split at hstep
    next => simp at hstep
    next =>
      split at hstep
      next hlive =>
        cases Option.some.inj hstep
        have hread : (s.setOp i (.merging userId target sources .readStats)).ClustersKept :=
          kept_merging h hop ⟨hnodup, Or.inr (howner.resolve_left (by simp))⟩
            (fun hmoved => by simp [MergePhase.hasMoved] at hmoved) (by simp)
        refine kept_moveFaces hread (setOp_self hop) fun face hface hmoves => ?_
        rcases Bool.or_eq_true_iff.mp hlive with hnone | hlive
        · have hmem : face ∈ s.faces.filter (moves candidates sources) :=
            List.mem_filter.mpr ⟨hface, hmoves⟩
          rw [List.isEmpty_iff.mp hnone] at hmem
          simp at hmem
        · exact hlive
      next =>
        cases Option.some.inj hstep
        exact kept_refuse h hop rfl
  | readStats => simp [proceedMerge] at hstep
  | writeStats stats =>
    simp only [proceedMerge] at hstep
    split at hstep
    next => simp at hstep
    next =>
      cases Option.some.inj hstep
      have hfinish : (s.setOp i (.merging userId target sources .finish)).ClustersKept :=
        kept_merging h hop ⟨hnodup, Or.inr (howner.resolve_left (by simp))⟩ (fun _ => rfl) (by simp)
      exact kept_writeTarget hfinish (setOp_self hop)
  | finish =>
    simp only [proceedMerge] at hstep
    split at hstep
    next => simp at hstep
    next hfree =>
      cases Option.some.inj hstep
      exact kept_finish h hop (Bool.eq_false_iff.mpr hfree) hkeeps

/-- A representative that is set is a face of the person still. -/
theorem kept_proceedRepresentative (h : s.ClustersKept) {checked : Bool}
    (hop : s.ops[i]? = some (.choosing userId person face checked))
    (hstep : proceedRepresentative s i userId person face checked = some t) : t.ClustersKept := by
  have hend : ∀ {u : ClusterSystem E}, u.ClustersKept →
      u.ops[i]? = some (.choosing userId person face checked) → (u.setOp i .ended).ClustersKept := by
    intro u hu hat
    refine kept_proceed hu hat trivial (fun _ _ hmoving => hmoving.elim)
      (fun _ _ hupdating => hupdating.elim) fun person hdue => ?_
    simp [Due, ClusterOp.Unread] at hdue
  unfold proceedRepresentative at hstep
  split at hstep
  next hchecked =>
    subst hchecked
    split at hstep
    next => simp at hstep
    next =>
      cases Option.some.inj hstep
      obtain ⟨-, hface⟩ := opSound_at h hop
      refine hend (kept_updateStats h fun row hrow hid stats hstats => ?_) hop
      have hmem := hface (isLive_iff.mpr ⟨row, hrow, live_iff.mpr ⟨stats, hstats⟩, hid⟩)
      have hdescribed := h.described row hrow stats hstats
      rw [hid] at hdescribed
      refine hdescribed.imp_left fun hold => ⟨hold.1, hold.2.1, fun id hchosen => ?_⟩
      cases Option.some.inj hchosen
      exact hmem
  next =>
    split at hstep
    next hfound =>
      cases Option.some.inj hstep
      simp only [Bool.and_eq_true, List.contains_iff_mem, List.any_eq_true, decide_eq_true_eq]
        at hfound
      obtain ⟨hmem, row, hrow, ⟨-, hid⟩, huser⟩ := hfound
      refine kept_proceed h hop ⟨⟨row, hrow, hid, huser⟩, fun _ => hmem⟩
        (fun _ _ hmoving => hmoving.elim) (fun _ _ hupdating => hupdating.elim) fun person hdue => ?_
      simp [Due, ClusterOp.Unread] at hdue
    next =>
      cases Option.some.inj hstep
      exact hend h hop

theorem clustersKept_step {e : ClusterEvent E} (h : s.ClustersKept) (hkeeps : s.KeepsClusters e)
    (hstep : clusterStep D s e = some t) : t.ClustersKept := by
  cases e with
  | storeFace userId embedding =>
    cases Option.some.inj hstep
    exact kept_storeFace h userId embedding
  | startClustering userId =>
    cases Option.some.inj hstep
    exact kept_start h ⟨by simp [ClusteringPhase.faces], trivial⟩
  | startMerge userId sourceIds target =>
    simp only [clusterStep] at hstep
    split at hstep
    next =>
      cases Option.some.inj hstep
      exact h
    next hvalid =>
      cases Option.some.inj hstep
      refine kept_start h ⟨List.nodup_cons.mpr ⟨?_, List.nodup_dedup _⟩, Or.inl rfl⟩
      intro hmem
      exact hvalid (Bool.or_eq_true_iff.mpr (Or.inr (List.contains_iff_mem.mpr hmem)))
  | startRepresentative userId person face =>
    cases Option.some.inj hstep
    exact kept_start h trivial
  | find i similar =>
    simp only [clusterStep] at hstep
    split at hstep
    next userId face embedding todo hop =>
      split at hstep
      next hadmits =>
        cases Option.some.inj hstep
        cases similar with
        | none => exact kept_unlike h hop
        | some person => exact kept_similar h hop hadmits
      next => simp at hstep
    next => simp at hstep
  | readStats i representative =>
    simp only [clusterStep] at hstep
    split at hstep
    next userId person todo hop =>
      split at hstep
      next hrep =>
        cases Option.some.inj hstep
        exact kept_readPerson h hop hrep
      next => simp at hstep
    next userId target sources hop =>
      split at hstep
      next =>
        cases Option.some.inj hstep
        exact kept_readTarget h _ hop
      next => simp at hstep
    next => simp at hstep
  | proceed i =>
    simp only [clusterStep] at hstep
    split at hstep
    next userId phase hop => exact kept_proceedClustering h hop hkeeps hstep
    next userId target sources phase hop => exact kept_proceedMerge h hop hkeeps hstep
    next userId person face checked hop => exact kept_proceedRepresentative h hop hstep
    next => simp at hstep
  | fail i =>
    simp only [clusterStep] at hstep
    split at hstep
    next => simp at hstep
    next op _ hop =>
      cases Option.some.inj hstep
      exact kept_fail h hop hkeeps
    next => simp at hstep

/-- Consistent tables that no operation works on. -/
structure Idle (s : ClusterSystem E) : Prop where
  ops : s.ops = []
  ids : (s.persons.map PersonEntry.id).Nodup
  faceIds : (s.faces.map FaceEntry.id).Nodup
  freshPersons : ∀ row ∈ s.persons, row.id < s.nextPersonId
  freshFaces : ∀ face ∈ s.faces, face.id < s.nextFaceId
  freeFaces : ∀ face ∈ s.faces, face.person.written = none
  freePersons : ∀ row ∈ s.persons, row.stats.written = none
  consistent : s.Consistent

theorem kept_of_idle (h : s.Idle) : s.ClustersKept where
  ids := h.ids
  faceIds := h.faceIds
  freshPersons := h.freshPersons
  freshFaces := h.freshFaces
  owned := h.consistent.owned
  described row hrow stats hstats := Or.inl (h.consistent.described row hrow stats hstats)
  sound := by simp [h.ops]
  moved face hface i person hwritten := by simp [h.freeFaces face hface] at hwritten
  updated row hrow i stats hwritten := by simp [h.freePersons row hrow] at hwritten

end ClusterSystem

/-- Whatever fails and however the statements follow each other, the clusters are consistent
whenever no operation is in progress, as long as no face is taken from a person, statistics are
written only while they are right, and no clustering breaks off before it has written its own. -/
theorem clusters_consistent_of_kept (D : CosineDistance E) {s : ClusterSystem E} (h : s.Idle)
    (es : List (ClusterEvent E)) (hmeets : Runs.Meets (clusterStep D) ClusterSystem.KeepsClusters s es) :
    Runs.Throughout (clusterStep D) (fun s => s.Quiet → s.Consistent) s es := by
  refine Runs.throughout_mono (fun t ht => ClusterSystem.consistent_of_kept ht)
    (Runs.throughout_of_meets (fun u e t hu hkeeps hstep => ?_) (ClusterSystem.kept_of_idle h) hmeets)
  exact ClusterSystem.clustersKept_step hu hkeeps hstep

end

instance (stats : PersonStats) (faces : List Nat) : Decidable (stats.Describes faces) :=
  inferInstanceAs (Decidable (_ ∧ _ ∧ ∀ face ∈ stats.representativeFaceId, face ∈ faces))

instance {E : Type} (op : ClusterOp E) (person : Nat) : Decidable (op.Unread person) := by
  unfold ClusterOp.Unread
  split <;> infer_instance

instance {E : Type} (s : ClusterSystem E) (op : ClusterOp E) (person : Nat) :
    Decidable (s.Due op person) := by
  unfold ClusterSystem.Due
  split <;> infer_instance

instance {E : Type} (s : ClusterSystem E) (i person : Nat) : Decidable (s.RightWithout i person) :=
  inferInstanceAs (Decidable (∀ row ∈ s.persons, row.id = person →
    ∀ stats ∈ row.stats.committed, stats.Describes (s.facesOf person) ∨
      ∃ op ∈ s.ops.eraseIdx i, s.Due op person))

instance {E : Type} (s : ClusterSystem E) (i target : Nat) :
    Decidable (∀ row ∈ s.persons, row.id = target → ∀ stats, row.stats.seenBy i = some stats →
      stats.Describes (s.facesSeen i target) ∨ ∃ op ∈ s.ops, op.Unread target) :=
  inferInstanceAs (Decidable (∀ row ∈ s.persons, row.id = target →
    ∀ stats ∈ row.stats.seenBy i, stats.Describes (s.facesSeen i target) ∨
      ∃ op ∈ s.ops, op.Unread target))

instance {E : Type} (s : ClusterSystem E) (e : ClusterEvent E) : Decidable (s.KeepsClusters e) := by
  unfold ClusterSystem.KeepsClusters ClusterSystem.KeepsProceeding ClusterSystem.KeepsFailed
  split <;> try split
  all_goals infer_instance

/-- Embeddings that are all alike. -/
def sameEmbeddings : CosineDistance Unit := ⟨fun _ _ => 0, fun _ _ => rfl⟩

theorem init_idle {E : Type} : (ClusterSystem.init : ClusterSystem E).Idle where
  ops := rfl
  ids := List.nodup_nil
  faceIds := List.nodup_nil
  freshPersons := by simp [ClusterSystem.init]
  freshFaces := by simp [ClusterSystem.init]
  freeFaces := by simp [ClusterSystem.init]
  freePersons := by simp [ClusterSystem.init]
  consistent := ⟨by simp [ClusterSystem.init], by simp [ClusterSystem.init]⟩

/-- Three persons of a user with one face each. -/
def threePersons : ClusterSystem Unit where
  faces := [⟨0, 1, (), .of (some 0)⟩, ⟨1, 1, (), .of (some 1)⟩, ⟨2, 1, (), .of (some 2)⟩]
  persons := [⟨0, 1, .of (some ⟨1, some 0⟩)⟩, ⟨1, 1, .of (some ⟨1, some 1⟩)⟩,
    ⟨2, 1, .of (some ⟨1, some 2⟩)⟩]
  nextFaceId := 3
  nextPersonId := 3
  ops := []

theorem threePersons_idle : threePersons.Idle where
  ops := rfl
  ids := by decide
  faceIds := by decide
  freshPersons := by decide
  freshFaces := by decide
  freeFaces := by decide
  freePersons := by decide
  consistent := by
    refine ⟨?_, ?_⟩
    · have hall : ∀ row ∈ threePersons.persons, ∀ stats ∈ row.stats.committed,
          stats.Describes (threePersons.facesOf row.id) := by decide
      exact hall
    · simp [threePersons, Versioned.of, PersonEntry.live]

/-- A clustering creates a person for a face and fails to assign the face to it. -/
def failedAssign : List (ClusterEvent Unit) :=
  [.storeFace 1 (), .startClustering 1, .proceed 0, .find 0 none, .proceed 0, .fail 0]

/-- Two merges into one target: the second reads its statistics before the first commits. -/
def crossedMerges : List (ClusterEvent Unit) :=
  [.startMerge 1 [1] 0, .startMerge 1 [2] 0, .proceed 0, .proceed 0, .proceed 0, .proceed 1,
    .proceed 1, .proceed 1, .readStats 0 (some 0), .proceed 0, .readStats 1 (some 0), .proceed 0,
    .proceed 1, .proceed 1]

/-- A clustering, a merge and a choice of a representative that all go well. -/
def interleavedClusters : List (ClusterEvent Unit) :=
  [.storeFace 1 (), .startClustering 1, .startMerge 1 [1] 0, .startRepresentative 1 0 0, .proceed 0,
    .proceed 1, .find 0 (some 2), .proceed 1, .proceed 0, .proceed 1, .proceed 2,
    .readStats 0 (some 3), .readStats 1 (some 1), .proceed 0, .proceed 2, .proceed 1, .proceed 1,
    .proceed 0]

theorem clusters_consistent_example :
    (∃ t ∈ Runs.exec (clusterStep sameEmbeddings) threePersons interleavedClusters, t.Quiet) ∧
      Runs.Throughout (clusterStep sameEmbeddings) (fun s => s.Quiet → s.Consistent) threePersons
        interleavedClusters := by
  refine ⟨?_, clusters_consistent_of_kept sameEmbeddings threePersons_idle interleavedClusters
    (by decide +kernel)⟩
  have hquiet : ((Runs.exec (clusterStep sameEmbeddings) threePersons interleavedClusters).map
      fun t => t.ops.all ClusterOp.isEnded) = some true := by decide +kernel
  obtain ⟨t, ht, hall⟩ := Option.map_eq_some_iff.mp hquiet
  exact ⟨t, ht, fun op hop => List.all_eq_true.mp hall op hop⟩

/-- Operations that have all ended leave a person whose statistics are not those of its faces. -/
theorem not_consistent_of_count {E : Type} {D : CosineDistance E} {s : ClusterSystem E}
    {es : List (ClusterEvent E)}
    (h : ((Runs.exec (clusterStep D) s es).map fun t => t.ops.all ClusterOp.isEnded &&
      t.persons.any fun row => row.stats.committed.any fun stats =>
        decide (stats.faceCount ≠ (t.facesOf row.id).length)) = some true) :
    ¬Runs.Throughout (clusterStep D) (fun s => s.Quiet → s.Consistent) s es := by
  obtain ⟨t, ht, hwrong⟩ := Option.map_eq_some_iff.mp h
  obtain ⟨hended, hany⟩ := Bool.and_eq_true_iff.mp hwrong
  obtain ⟨row, hrow, hstats⟩ := List.any_eq_true.mp hany
  obtain ⟨stats, hcommitted, hcount⟩ := (Option.any_eq_true _ _).mp hstats
  refine Runs.not_throughout_of_last ⟨t, ht, fun hconsistent => ?_⟩
  have hclusters := hconsistent fun op hop => List.all_eq_true.mp hended op hop
  exact of_decide_eq_true hcount (hclusters.described row hrow stats hcommitted).2.1

/-- A failure between two statements, and two merges into one person without any failure. -/
theorem clusters_left_inconsistent :
    (ClusterSystem.init : ClusterSystem Unit).Idle ∧
      ¬Runs.Throughout (clusterStep sameEmbeddings) (fun s => s.Quiet → s.Consistent) .init
        failedAssign ∧
      threePersons.Idle ∧
      ¬Runs.Throughout (clusterStep sameEmbeddings) (fun s => s.Quiet → s.Consistent) threePersons
        crossedMerges :=
  ⟨init_idle, not_consistent_of_count (by decide +kernel), threePersons_idle,
    not_consistent_of_count (by decide +kernel)⟩

end Reminisce

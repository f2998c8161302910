import Reminisce.ClusterSteps

namespace Reminisce

namespace ClusterSystem

variable {E : Type} {s t : ClusterSystem E} {i person target : Nat} {op other : ClusterOp E}
  {userId : UserId} {sources : List Nat}

/-- The statistics of one person are written outside a transaction. -/
theorem kept_updateStats (h : s.ClustersKept) {change : PersonStats → PersonStats}
    (hright : ∀ row ∈ s.persons, row.id = person → ∀ stats, row.stats.committed = some stats →
      (change stats).Describes (s.facesOf person) ∨ ∃ op ∈ s.ops, s.Due op person) :
    (s.updateStats person change).ClustersKept := by
  have hlive : ∀ row : PersonEntry, (if row.id = person then
      Versioned.of (row.stats.committed.map change) else row.stats).committed.isSome = row.live := by
    intro row
    split
    · simp [Versioned.of, PersonEntry.live]
    · rfl
  have hsame : ∀ other, (s.updateStats person change).isLive other = true ↔ s.isLive other = true := by
    intro other
    rw [updateStats, isLive_mapPersons, isLive_iff]
    simp only [hlive]
  refine ⟨?_, h.faceIds, ?_, h.freshFaces, ?_, ?_, ?_, ?_, ?_⟩
  · simpa [updateStats, mapPersons, List.map_map, Function.comp_def] using h.ids
  · simpa [updateStats, mapPersons] using h.freshPersons
  · intro face hface other hother
    obtain ⟨row, hrow, hrowLive, hid, huser⟩ := h.owned face hface other hother
    exact ⟨_, List.mem_map.mpr ⟨row, hrow, rfl⟩, (hlive row).trans hrowLive, hid, huser⟩
  · intro row hrow stats hstats
    obtain ⟨old, hold, rfl⟩ := List.mem_map.mp hrow
    by_cases hid : old.id = person
    · simp only [hid, if_true, Versioned.of] at hstats
      obtain ⟨before, hbefore, rfl⟩ := Option.map_eq_some_iff.mp hstats
      have hdone := hright old hold hid before hbefore
      rw [← hid] at hdone
      exact hdone
    · simp only [hid, if_false] at hstats
      exact h.described old hold stats hstats
  · intro op hop
    have hext : Extends s ((s.mapFaces FaceEntry.person).mapPersons fun row =>
        if row.id = person then .of (row.stats.committed.map change) else row.stats) := by
      refine extends_map fun other hother => ?_
      rw [mapFaces_self] at hother ⊢
      exact ⟨(hsame other).mp hother, List.Subset.refl _⟩
    rw [mapFaces_self] at hext
    exact hext.opSound (h.sound op hop)
  · intro face hface j moved hwritten
    obtain ⟨op, hop, hmoving⟩ := h.moved face hface j moved hwritten
    refine ⟨op, hop, ?_⟩
    cases op with
    | merging userId target sources phase =>
      exact ⟨hmoving.1, hmoving.2.1, hmoving.2.2.1, (hsame target).mpr hmoving.2.2.2⟩
    | clustering => exact hmoving
    | choosing => exact hmoving
    | ended => exact hmoving
  · intro row hrow j stats hwritten
    obtain ⟨old, hold, rfl⟩ := List.mem_map.mp hrow
    by_cases hid : old.id = person
    · simp [hid, Versioned.of] at hwritten
    · simp only [hid, if_false] at hwritten ⊢
      exact h.updated old hold j stats hwritten

/-- A free face is assigned to a person whose statistics are read afterwards. -/
theorem kept_assignFace (h : s.ClustersKept) {face : Nat} {owner : UserId}
    (hlive : s.isLive person = true) (hface : s.FaceOwner owner face)
    (hperson : s.PersonOwner owner person)
    (hkeeps : ∀ entry ∈ s.faces, entry.id = face →
      entry.person.committed = none ∨ entry.person.committed = some person)
    (hunread : ∃ op ∈ s.ops, op.Unread person) : (s.assignFace face person).ClustersKept := by
  have hother : ∀ other, other ≠ person →
      (s.assignFace face person).facesOf other = s.facesOf other := by
    intro other hne
    refine facesOf_mapFaces fun entry hentry => ?_
    split
    next hid =>
      have hne' : some person ≠ some other := fun heq => hne (Option.some.inj heq).symm
      rcases hkeeps entry hentry hid with hnone | hsome
      · simp [Versioned.of, hnone, hne.symm]
      · simp [Versioned.of, hsome]
    next => rfl
  have hsub : ∀ other, s.facesOf other ⊆ (s.assignFace face person).facesOf other := by
    intro other
    by_cases hsame : other = person
    · subst hsame
      intro id hid
      obtain ⟨entry, hentry, hcommitted, rfl⟩ := mem_facesOf.mp hid
      refine mem_facesOf_mapFaces.mpr ⟨entry, hentry, ?_, rfl⟩
      split
      · rfl
      · exact hcommitted
    · rw [hother other hsame]
      exact List.Subset.refl _
  refine ⟨h.ids, ?_, h.freshPersons, ?_, ?_, ?_, ?_, ?_, h.updated⟩
  · simpa [assignFace, mapFaces, List.map_map, Function.comp_def] using h.faceIds
  · intro entry hentry
    obtain ⟨old, hold, rfl⟩ := List.mem_map.mp hentry
    exact h.freshFaces old hold
  · intro entry hentry other hcommitted
    obtain ⟨old, hold, rfl⟩ := List.mem_map.mp hentry
    by_cases hid : old.id = face
    · simp only [hid, if_true, Versioned.of, Option.some.injEq] at hcommitted
      obtain ⟨row, hrow, hrowLive, hrowId⟩ := isLive_iff.mp hlive
      refine ⟨row, hrow, hrowLive, hrowId.trans hcommitted, ?_⟩
      exact (h.personUser hperson hrow hrowId).trans (h.faceUser hface hold hid).symm
    · simp only [hid, if_false] at hcommitted
      exact h.owned old hold other hcommitted
  · intro row hrow stats hstats
    by_cases hid : row.id = person
    · obtain ⟨op, hop, hwill⟩ := hunread
      exact Or.inr ⟨op, hop, Or.inl (hid ▸ hwill)⟩
    · rw [hother row.id hid]
      simp only [due_congr (hother row.id hid)]
      exact h.described row hrow stats hstats
  · intro op hop
    have hext : Extends s ((s.mapFaces fun entry =>
        if entry.id = face then .of (some person) else entry.person).mapPersons
          PersonEntry.stats) := by
      refine extends_map fun other hotherLive => ?_
      rw [mapPersons_self] at hotherLive ⊢
      exact ⟨hotherLive, hsub other⟩
    rw [mapPersons_self] at hext
    exact hext.opSound (h.sound op hop)
  · intro entry hentry j moved hwritten
    obtain ⟨old, hold, rfl⟩ := List.mem_map.mp hentry
    by_cases hid : old.id = face
    · simp [hid, Versioned.of] at hwritten
    · simp only [hid, if_false] at hwritten ⊢
      exact h.moved old hold j moved hwritten

/-- What a merge that commits makes of a face. -/
theorem commitMerge_face {face : FaceEntry E} {other : Nat} :
    (if (face.person.seenBy i).any sources.contains then Versioned.of none
      else face.person.commit i).committed = some other ↔
      face.person.seenBy i = some other ∧ other ∉ sources := by
  cases hseen : face.person.seenBy i with
  | none => simp [hseen]
  | some seen =>
    by_cases hin : seen ∈ sources
    · simp only [Option.any_some, List.contains_iff_mem, hin, if_true, Versioned.of]
      constructor
      · intro hnone
        simp at hnone
      · rintro ⟨heq, hnot⟩
        cases Option.some.inj heq
        exact absurd hin hnot
    · simp only [Option.any_some, List.contains_iff_mem, hin, if_false, Versioned.commit_committed,
        hseen, Option.some.injEq]
      constructor
      · rintro rfl
        exact ⟨rfl, hin⟩
      · exact fun heq => heq.1

/-- A merge sees a face of another person than its target as it is committed. -/
theorem seenBy_eq_iff (h : s.ClustersKept)
    (hop : s.ops[i]? = some (.merging userId target sources .finish)) {face : FaceEntry E}
    (hface : face ∈ s.faces) {other : Nat} (hnot : other ∉ sources) (hne : other ≠ target) :
    face.person.seenBy i = some other ↔ face.person.committed = some other := by
  cases hwritten : face.person.written with
  | none => rw [Versioned.seenBy_of_free hwritten]
  | some w =>
    obtain ⟨j, moved⟩ := w
    by_cases hj : j = i
    · subst hj
      obtain ⟨op, hop', hmoving⟩ := h.moved face hface j moved hwritten
      cases Option.some.inj (hop.symm.trans hop')
      obtain ⟨-, rfl, ⟨source, hsource, hcommitted⟩, -⟩ := hmoving
      rw [Versioned.seenBy_of_written hwritten, hcommitted]
      constructor
      · intro heq
        exact absurd (Option.some.inj heq).symm hne
      · intro heq
        exact absurd (Option.some.inj heq ▸ hsource) hnot
    · rw [Versioned.seenBy_of_other hwritten hj]

/-- A merge leaves the rows live that it does not delete. -/
theorem seenBy_isSome (h : s.ClustersKept)
    (hop : s.ops[i]? = some (.merging userId target sources .finish)) {row : PersonEntry}
    (hrow : row ∈ s.persons) : (row.stats.seenBy i).isSome = row.live := by
  cases hwritten : row.stats.written with
  | none => rw [Versioned.seenBy_of_free hwritten, PersonEntry.live]
  | some w =>
    obtain ⟨j, stats⟩ := w
    by_cases hj : j = i
    · subst hj
      obtain ⟨op, hop', hupdating⟩ := h.updated row hrow j stats hwritten
      cases Option.some.inj (hop.symm.trans hop')
      obtain ⟨-, hsome, hlive⟩ := hupdating
      rw [Versioned.seenBy_of_written hwritten, hlive]
      exact Option.isSome_iff_ne_none.mpr hsome
    · rw [Versioned.seenBy_of_other hwritten hj, PersonEntry.live]

/-- The statistics of a person other than the target are not the merge's. -/
theorem seenBy_eq_committed (h : s.ClustersKept)
    (hop : s.ops[i]? = some (.merging userId target sources .finish)) {row : PersonEntry}
    (hrow : row ∈ s.persons) (hne : row.id ≠ target) :
    row.stats.seenBy i = row.stats.committed := by
  cases hwritten : row.stats.written with
  | none => exact Versioned.seenBy_of_free hwritten
  | some w =>
    obtain ⟨j, stats⟩ := w
    by_cases hj : j = i
    · subst hj
      obtain ⟨op, hop', hupdating⟩ := h.updated row hrow j stats hwritten
      cases Option.some.inj (hop.symm.trans hop')
      exact absurd hupdating.1 hne
    · exact Versioned.seenBy_of_other hwritten hj

theorem isLive_commitMerge (h : s.ClustersKept)
    (hop : s.ops[i]? = some (.merging userId target sources .finish)) {other : Nat} :
    (s.commitMerge i sources).isLive other = true ↔ s.isLive other = true ∧ other ∉ sources := by
  rw [commitMerge, isLive_mapPersons, isLive_iff]
  constructor
  · rintro ⟨row, hrow, hlive, rfl⟩
    by_cases hin : row.id ∈ sources
    · simp [hin, Versioned.of] at hlive
    · simp only [List.contains_iff_mem, hin, if_false, Versioned.commit_committed,
        seenBy_isSome h hop hrow] at hlive
      exact ⟨⟨row, hrow, hlive, rfl⟩, hin⟩
  · rintro ⟨⟨row, hrow, hlive, rfl⟩, hnot⟩
    refine ⟨row, hrow, ?_, rfl⟩
    simp only [List.contains_iff_mem, hnot, if_false, Versioned.commit_committed,
      seenBy_isSome h hop hrow]
    exact hlive

/-- A merge takes no face from a person that it does not delete, and gives some to its target. -/
theorem facesOf_commitMerge (h : s.ClustersKept)
    (hop : s.ops[i]? = some (.merging userId target sources .finish)) {other : Nat}
    (hnot : other ∉ sources) (hne : other ≠ target) :
    (s.commitMerge i sources).facesOf other = s.facesOf other := by
  refine facesOf_mapFaces fun face hface => ?_
  rw [commitMerge_face, seenBy_eq_iff h hop hface hnot hne]
  exact and_iff_left hnot

theorem facesOf_commitMerge_target (s : ClusterSystem E) (i : Nat) (hnot : target ∉ sources) :
    (s.commitMerge i sources).facesOf target = s.facesSeen i target := by
  simp only [commitMerge, facesOf, facesSeen, mapFaces, mapPersons, List.filter_map, List.map_map]
  have hfilter : s.faces.filter ((fun face => decide (face.person.committed = some target)) ∘
      fun face => { face with person := if (face.person.seenBy i).any sources.contains then .of none
        else face.person.commit i }) =
      s.faces.filter fun face => decide (face.person.seenBy i = some target) := by
    refine List.filter_congr fun face _ => ?_
    simp only [Function.comp_apply, commitMerge_face, hnot, not_false_iff, and_true]
  rw [hfilter]
  rfl

/-- A merge has seen the faces that its target has. -/
theorem facesOf_subset_facesSeen (h : s.ClustersKept)
    (hop : s.ops[i]? = some (.merging userId target sources .finish)) :
    s.facesOf target ⊆ s.facesSeen i target := by
  intro id hid
  obtain ⟨face, hface, hcommitted, rfl⟩ := mem_facesOf.mp hid
  refine List.mem_map.mpr ⟨face, List.mem_filter.mpr ⟨hface, decide_eq_true ?_⟩, rfl⟩
  cases hwritten : face.person.written with
  | none => rw [Versioned.seenBy_of_free hwritten, hcommitted]
  | some w =>
    obtain ⟨j, moved⟩ := w
    by_cases hj : j = i
    · subst hj
      obtain ⟨op, hop', hmoving⟩ := h.moved face hface j moved hwritten
      cases Option.some.inj (hop.symm.trans hop')
      obtain ⟨-, rfl, -, -⟩ := hmoving
      exact Versioned.seenBy_of_written hwritten
    · rw [Versioned.seenBy_of_other hwritten hj, hcommitted]

/-- A face that a merge sees with its target belongs to the target's user. -/
theorem exists_target (h : s.ClustersKept)
    (hop : s.ops[i]? = some (.merging userId target sources .finish)) {face : FaceEntry E}
    (hface : face ∈ s.faces) (hseen : face.person.seenBy i = some target) :
    ∃ row ∈ s.persons, row.live = true ∧ row.id = target ∧ row.userId = face.userId := by
  obtain ⟨-, howners⟩ := h.sound _ (List.mem_of_getElem? hop)
  have howner := howners.resolve_left (by simp)
  have hcommitted : face.person.seenBy i = face.person.committed →
      ∃ row ∈ s.persons, row.live = true ∧ row.id = target ∧ row.userId = face.userId :=
    fun hsame => h.owned face hface target (hsame.symm.trans hseen)
  cases hwritten : face.person.written with
  | none => exact hcommitted (Versioned.seenBy_of_free hwritten)
  | some w =>
    obtain ⟨j, moved⟩ := w
    by_cases hj : j = i
    · subst hj
      obtain ⟨op, hop', hmoving⟩ := h.moved face hface j moved hwritten
      cases Option.some.inj (hop.symm.trans hop')
      obtain ⟨-, -, ⟨source, hsource, hsourceOf⟩, hlive⟩ := hmoving
      obtain ⟨row, hrow, hrowLive, hid⟩ := isLive_iff.mp hlive
      obtain ⟨old, hold, -, holdId, holdUser⟩ := h.owned face hface source hsourceOf
      refine ⟨row, hrow, hrowLive, hid, ?_⟩
      have htarget := h.personUser (howner target List.mem_cons_self) hrow hid
      have hsourceUser := h.personUser (howner source (List.mem_cons_of_mem target hsource)) hold holdId
      rw [htarget, ← holdUser, hsourceUser]
    · exact hcommitted (Versioned.seenBy_of_other hwritten hj)

theorem not_blocked (hfree : s.blocksDelete i sources = false) :
    (∀ row ∈ s.persons, row.stats.written ≠ none → row.id ∉ sources) ∧
      ∀ face ∈ s.faces, ∀ j moved, face.person.written = some (j, some moved) → j ≠ i →
        moved ∉ sources := by
  simp only [blocksDelete, Bool.or_eq_false_iff, List.any_eq_false] at hfree
  refine ⟨fun row hrow hwritten hin => hfree.1 row hrow ?_,
    fun face hface j moved hwritten hj hin => hfree.2 face hface ?_⟩
  · simp [Option.isSome_iff_ne_none.mpr hwritten, hin]
  · simp [hwritten, hj, hin]

theorem kept_commitMerge (h : s.ClustersKept)
    (hop : s.ops[i]? = some (.merging userId target sources .finish))
    (hfree : s.blocksDelete i sources = false)
    (hkeeps : ∀ row ∈ s.persons, row.id = target → ∀ stats, row.stats.seenBy i = some stats →
      stats.Describes (s.facesSeen i target) ∨ ∃ op ∈ s.ops, op.Unread target) :
    (s.commitMerge i sources).ClustersKept := by
  have hnot := (List.nodup_cons.mp (h.sound _ (List.mem_of_getElem? hop)).1).1
  obtain ⟨-, hmoving⟩ := not_blocked hfree
  refine ⟨?_, ?_, ?_, ?_, ?_, ?_, ?_, ?_, ?_⟩
  · simpa [commitMerge, mapPersons, mapFaces, List.map_map, Function.comp_def] using h.ids
  · simpa [commitMerge, mapPersons, mapFaces, List.map_map, Function.comp_def] using h.faceIds
  · simpa [commitMerge, mapPersons, mapFaces] using h.freshPersons
  · simpa [commitMerge, mapPersons, mapFaces] using h.freshFaces
  · intro face hface person hperson
    obtain ⟨old, hold, rfl⟩ := List.mem_map.mp hface
    obtain ⟨hseen, hout⟩ := commitMerge_face.mp hperson
    have hrow : ∃ row ∈ s.persons, row.live = true ∧ row.id = person ∧ row.userId = old.userId := by
      by_cases htarget : person = target
      · subst htarget
        exact exists_target h hop hold hseen
      · exact h.owned old hold person ((seenBy_eq_iff h hop hold hout htarget).mp hseen)
    obtain ⟨row, hrow, hlive, rfl, huser⟩ := hrow
    refine ⟨_, List.mem_map.mpr ⟨row, hrow, rfl⟩, ?_, rfl, huser⟩
    simp only [PersonEntry.live, List.contains_iff_mem, hout, if_false, Versioned.commit_committed]
    exact (seenBy_isSome h hop hrow).trans hlive
  · intro row hrow stats hstats
    obtain ⟨old, hold, rfl⟩ := List.mem_map.mp hrow
    by_cases hin : old.id ∈ sources
    · simp [hin, Versioned.of] at hstats
    · simp only [List.contains_iff_mem, hin, if_false, Versioned.commit_committed] at hstats
      by_cases htarget : old.id = target
      · simp only [htarget]
        rw [facesOf_commitMerge_target s i hnot]
        exact (hkeeps old hold htarget stats hstats).imp_right
          (Exists.imp fun _ => And.imp_right Or.inl)
      · rw [seenBy_eq_committed h hop hold htarget] at hstats
        simp only
        rw [facesOf_commitMerge h hop hin htarget]
        simp only [due_congr (facesOf_commitMerge h hop hin htarget)]
        exact h.described old hold stats hstats
  · intro op hop'
    refine (extends_map fun person hlive => ?_).opSound (h.sound op hop')
    obtain ⟨hlive, hin⟩ := (isLive_commitMerge h hop).mp hlive
    refine ⟨hlive, ?_⟩
    by_cases htarget : person = target
    · subst htarget
      exact (facesOf_commitMerge_target s i hnot) ▸ facesOf_subset_facesSeen h hop
    · exact (facesOf_commitMerge h hop hin htarget) ▸ List.Subset.refl _
  · intro face hface j moved hwritten
    obtain ⟨old, hold, rfl⟩ := List.mem_map.mp hface
    by_cases hin : (old.person.seenBy i).any sources.contains = true
    · simp [hin, Versioned.of] at hwritten
    · simp only [hin, Bool.false_eq_true, if_false] at hwritten ⊢
      obtain ⟨hold', hj⟩ := Versioned.written_of_commit hwritten
      obtain ⟨op, hop', hmoved⟩ := h.moved old hold j moved hold'
      refine ⟨op, hop', ?_⟩
      cases op with
      | merging otherUser otherTarget otherSources phase =>
        obtain ⟨hphase, rfl, hsource, hlive⟩ := hmoved
        refine ⟨hphase, rfl, ?_, (isLive_commitMerge h hop).mpr ⟨hlive, ?_⟩⟩
        · simpa only [Versioned.commit_committed, Versioned.seenBy_of_other hold' hj] using hsource
        · exact hmoving old hold j otherTarget hold' hj
      | clustering => exact hmoved
      | choosing => exact hmoved
      | ended => exact hmoved
  · intro row hrow j stats hwritten
    obtain ⟨old, hold, rfl⟩ := List.mem_map.mp hrow
    by_cases hin : old.id ∈ sources
    · simp [hin, Versioned.of] at hwritten
    · simp only [List.contains_iff_mem, hin, if_false] at hwritten ⊢
      obtain ⟨hold', hj⟩ := Versioned.written_of_commit hwritten
      obtain ⟨op, hop', hupdating⟩ := h.updated old hold j stats hold'
      refine ⟨op, hop', ?_⟩
      unfold Updating at hupdating ⊢
      simpa only [PersonEntry.live, Versioned.commit_committed,
        Versioned.seenBy_of_other hold' hj] using hupdating

/-- A face that is detected. -/
theorem kept_storeFace (h : s.ClustersKept) (owner : UserId) (embedding : E) :
    ClustersKept { s with
      faces := s.faces ++ [⟨s.nextFaceId, owner, embedding, .of none⟩]
      nextFaceId := s.nextFaceId + 1 } := by
  have hof : ∀ other, facesOf { s with
      faces := s.faces ++ [⟨s.nextFaceId, owner, embedding, .of none⟩]
      nextFaceId := s.nextFaceId + 1 } other = s.facesOf other := by
    intro other
    simp [facesOf, List.filter_append, Versioned.of]
  refine ⟨h.ids, Keyed.nodup_append h.faceIds fun face hface => (h.freshFaces face hface).ne,
    h.freshPersons, ?_, ?_, ?_, ?_, ?_, h.updated⟩
  · intro face hface
    rcases List.mem_append.mp hface with hold | hnew
    · exact Nat.lt_succ_of_lt (h.freshFaces face hold)
    · cases List.mem_singleton.mp hnew
      exact Nat.lt_succ_self _
  · intro face hface other hother
    rcases List.mem_append.mp hface with hold | hnew
    · exact h.owned face hold other hother
    · cases List.mem_singleton.mp hnew
      simp [Versioned.of] at hother
  · intro row hrow stats hstats
    rw [hof]
    simp only [due_congr (hof row.id)]
    exact h.described row hrow stats hstats
  · intro op hop
    refine Extends.opSound ⟨fun face hface => ⟨face, List.mem_append_left _ hface, rfl, rfl⟩,
      fun row hrow => ⟨row, hrow, rfl, rfl⟩, fun row _ hlive => ⟨hlive, ?_⟩⟩ (h.sound op hop)
    rw [hof]
    exact List.Subset.refl _
  · intro face hface j moved hwritten
    rcases List.mem_append.mp hface with hold | hnew
    · exact h.moved face hold j moved hwritten
    · cases List.mem_singleton.mp hnew
      simp [Versioned.of] at hwritten

/-- A clustering creates a person and goes on to assign the face to it. -/
theorem kept_createPerson (h : s.ClustersKept) {owner : UserId} {face : Nat} {todo : List (Nat × E)}
    (hop : s.ops[i]? = some (.clustering owner (.create face todo))) :
    ((s.createPerson owner face).setOp i
      (.clustering owner (.assign face s.nextPersonId todo))).ClustersKept := by
  have hfresh : ∀ row ∈ s.persons, row.id ≠ s.nextPersonId :=
    fun row hrow => (h.freshPersons row hrow).ne
  have hext : Extends s (s.createPerson owner face) := by
    refine ⟨fun entry hentry => ⟨entry, hentry, rfl, rfl⟩,
      fun row hrow => ⟨row, List.mem_append_left _ hrow, rfl, rfl⟩,
      fun old hold hlive => ⟨?_, List.Subset.refl _⟩⟩
    obtain ⟨row, hrow, hrowLive, hid⟩ := isLive_iff.mp hlive
    rcases List.mem_append.mp hrow with hrow | hnew
    · exact isLive_iff.mpr ⟨row, hrow, hrowLive, hid⟩
    · cases List.mem_singleton.mp hnew
      exact absurd hid.symm (hfresh old hold)
  have hlater : ∀ {op : ClusterOp E} {entry : FaceEntry E} {moved : Option Nat},
      s.Moving op entry moved → (s.createPerson owner face).Moving op entry moved := by
    intro op entry moved hmoving
    cases op with
    | merging userId target sources phase =>
      obtain ⟨row, hrow, hrowLive, hid⟩ := isLive_iff.mp hmoving.2.2.2
      exact ⟨hmoving.1, hmoving.2.1, hmoving.2.2.1,
        isLive_iff.mpr ⟨row, List.mem_append_left _ hrow, hrowLive, hid⟩⟩
    | clustering => exact hmoving
    | choosing => exact hmoving
    | ended => exact hmoving
  have hset : ∀ {op : ClusterOp E}, op ∈ s.ops → op = .clustering owner (.create face todo) ∨
      op ∈ s.ops.set i (.clustering owner (.assign face s.nextPersonId todo)) :=
    fun hmem => (eq_or_mem_eraseIdx hop hmem).imp_right mem_set_of_mem_eraseIdx
  have hat : ∀ {j : Nat} {op : ClusterOp E}, s.ops[j]? = some op → j ≠ i →
      (s.ops.set i (.clustering owner (.assign face s.nextPersonId todo)))[j]? = some op :=
    fun hj hne => (List.getElem?_set_ne (Ne.symm hne)).trans hj
  refine ⟨Keyed.nodup_append h.ids hfresh, h.faceIds, ?_, h.freshFaces, ?_, ?_, ?_, ?_, ?_⟩
  · intro row hrow
    rcases List.mem_append.mp hrow with hold | hnew
    · exact Nat.lt_succ_of_lt (h.freshPersons row hold)
    · cases List.mem_singleton.mp hnew
      exact Nat.lt_succ_self _
  · intro entry hentry other hother
    obtain ⟨row, hrow, hrest⟩ := h.owned entry hentry other hother
    exact ⟨row, List.mem_append_left _ hrow, hrest⟩
  · intro row hrow stats hstats
    rcases List.mem_append.mp hrow with hold | hnew
    · rcases h.described row hold stats hstats with hright | ⟨op, hmem, hdue⟩
      · exact Or.inl hright
      · rcases hset hmem with rfl | hmem
        · simp [Due, ClusterOp.Unread] at hdue
        · exact Or.inr ⟨op, hmem, hdue⟩
    · cases List.mem_singleton.mp hnew
      exact Or.inr ⟨_, List.mem_of_getElem? (setOp_self hop), Or.inl rfl⟩
  · intro op hmem
    rcases List.mem_or_eq_of_mem_set hmem with hmem | rfl
    · exact hext.opSound (h.sound op hmem)
    · refine ⟨fun id hid => hext.faceOwner ((h.sound _ (List.mem_of_getElem? hop)).1 id hid),
        ?_⟩
      exact ⟨_, List.mem_append_right _ (List.mem_singleton_self _), rfl, rfl⟩
  · intro entry hentry j moved hwritten
    obtain ⟨op, hj, hmoving⟩ := h.moved entry hentry j moved hwritten
    by_cases hij : j = i
    · subst hij
      cases Option.some.inj (hop.symm.trans hj)
      exact hmoving.elim
    · exact ⟨op, hat hj hij, hlater hmoving⟩
  · intro row hrow j stats hwritten
    rcases List.mem_append.mp hrow with hold | hnew
    · obtain ⟨op, hj, hupdating⟩ := h.updated row hold j stats hwritten
      by_cases hij : j = i
      · subst hij
        cases Option.some.inj (hop.symm.trans hj)
        exact hupdating.elim
      · exact ⟨op, hat hj hij, hupdating⟩
    · cases List.mem_singleton.mp hnew
      simp [Versioned.of] at hwritten

/-- A request that begins. -/
theorem kept_start (h : s.ClustersKept) (hsound : s.OpSound op) :
    ClustersKept { s with ops := s.ops ++ [op] } := by
  have hat : ∀ {j : Nat} {old : ClusterOp E}, s.ops[j]? = some old →
      (s.ops ++ [op])[j]? = some old := by
    intro j old hj
    obtain ⟨hlt, -⟩ := List.getElem?_eq_some_iff.mp hj
    rw [List.getElem?_append_left hlt]
    exact hj
  refine ⟨h.ids, h.faceIds, h.freshPersons, h.freshFaces, h.owned, ?_, ?_, ?_, ?_⟩
  · intro row hrow stats hstats
    exact (h.described row hrow stats hstats).imp_right
      (Exists.imp fun _ => And.imp_left (List.mem_append_left _))
  · intro old hold
    rcases List.mem_append.mp hold with hold | hnew
    · exact h.sound old hold
    · cases List.mem_singleton.mp hnew
      exact hsound
  · intro face hface j moved hwritten
    obtain ⟨old, hold, hmoving⟩ := h.moved face hface j moved hwritten
    exact ⟨old, hat hold, hmoving⟩
  · intro row hrow j stats hwritten
    obtain ⟨old, hold, hupdating⟩ := h.updated row hrow j stats hwritten
    exact ⟨old, hat hold, hupdating⟩

end ClusterSystem

end Reminisce

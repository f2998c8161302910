import Reminisce.PersonClusters

namespace Reminisce

section

variable {E : Type}

/-- The clustering has still to read the statistics that it writes. -/
def ClusterOp.Unread (op : ClusterOp E) (person : Nat) : Prop :=
  match op with
  | .clustering _ (.assign _ other _) => other = person
  | .clustering _ (.readStats other _) => other = person
  | _ => False

namespace ClusterSystem

/-- The clustering is going to write the right statistics of the person. -/
def Due (s : ClusterSystem E) (op : ClusterOp E) (person : Nat) : Prop :=
  op.Unread person ∨ match op with
    | .clustering _ (.writeStats other stats _) =>
      other = person ∧ stats.Describes (s.facesOf person)
    | _ => False

/-- The statistics of the person are right without the operation, or it is deleted. -/
def RightWithout (s : ClusterSystem E) (i person : Nat) : Prop :=
  ∀ row ∈ s.persons, row.id = person → ∀ stats, row.stats.committed = some stats →
    stats.Describes (s.facesOf person) ∨ ∃ op ∈ s.ops.eraseIdx i, s.Due op person

/-- The condition on a failure. -/
def KeepsFailed (s : ClusterSystem E) (i : Nat) : Prop :=
  match s.ops[i]? with
  | some (.clustering _ (.assign _ person _)) => s.RightWithout i person
  | some (.clustering _ (.readStats person _)) => s.RightWithout i person
  | some (.clustering _ (.writeStats person _ _)) => s.RightWithout i person
  | _ => True

/-- The condition on a statement: a face is taken from no other person, and statistics are written
while they are right, or before another clustering writes right ones. -/
def KeepsProceeding (s : ClusterSystem E) (i : Nat) : Prop :=
  match s.ops[i]? with
  | some (.clustering _ (.assign face person _)) => s.isLive person = true →
    ∀ entry ∈ s.faces, entry.id = face →
      entry.person.committed = none ∨ entry.person.committed = some person
  | some (.clustering _ (.writeStats person stats _)) => s.isLive person = true →
    stats.Describes (s.facesOf person) ∨ ∃ op ∈ s.ops.eraseIdx i, s.Due op person
  | some (.merging _ target _ .finish) =>
    ∀ row ∈ s.persons, row.id = target → ∀ stats, row.stats.seenBy i = some stats →
      stats.Describes (s.facesSeen i target) ∨ ∃ op ∈ s.ops, op.Unread target
  | _ => True

def KeepsClusters (s : ClusterSystem E) : ClusterEvent E → Prop
  | .proceed i => s.KeepsProceeding i
  | .fail i => s.KeepsFailed i
  | _ => True

end ClusterSystem

/-- The faces that a clustering has before it. -/
def ClusteringPhase.faces : ClusteringPhase E → List Nat
  | .query => []
  | .find todo => todo.map Prod.fst
  | .create face todo => face :: todo.map Prod.fst
  | .assign face _ todo => face :: todo.map Prod.fst
  | .readStats _ todo => todo.map Prod.fst
  | .writeStats _ _ todo => todo.map Prod.fst

def MergePhase.hasMoved : MergePhase → Bool
  | .check => false
  | .snapshot => false
  | .move _ => false
  | _ => true

namespace ClusterSystem

def FaceOwner (s : ClusterSystem E) (userId : UserId) (face : Nat) : Prop :=
  ∃ entry ∈ s.faces, entry.id = face ∧ entry.userId = userId

def PersonOwner (s : ClusterSystem E) (userId : UserId) (person : Nat) : Prop :=
  ∃ row ∈ s.persons, row.id = person ∧ row.userId = userId

/-- What an operation knows of the tables. -/
def OpSound (s : ClusterSystem E) : ClusterOp E → Prop
  | .clustering userId phase => (∀ face ∈ phase.faces, s.FaceOwner userId face) ∧
    match phase with
    | .assign _ person _ => s.PersonOwner userId person
    | .readStats person _ => s.PersonOwner userId person ∧
      (s.isLive person = true → s.facesOf person ≠ [])
    | _ => True
  | .merging userId target sources phase => (target :: sources).Nodup ∧
    (phase = .check ∨ ∀ person ∈ target :: sources, s.PersonOwner userId person)
  | .choosing userId person face true => s.PersonOwner userId person ∧
    (s.isLive person = true → face ∈ s.facesOf person)
  | _ => True

/-- The operation has moved the face, and so keeps its target from being deleted. -/
def Moving (s : ClusterSystem E) (op : ClusterOp E) (face : FaceEntry E) (person : Option Nat) :
    Prop :=
  match op with
  | .merging _ target sources phase => phase.hasMoved = true ∧ person = some target ∧
    (∃ source ∈ sources, face.person.committed = some source) ∧ s.isLive target = true
  | _ => False

/-- The operation has written the statistics of its target. -/
def Updating (op : ClusterOp E) (row : PersonEntry) (stats : Option PersonStats) : Prop :=
  match op with
  | .merging _ target _ .finish => row.id = target ∧ stats ≠ none ∧ row.live = true
  | _ => False

/-- What the statements keep. -/
structure ClustersKept (s : ClusterSystem E) : Prop where
  ids : (s.persons.map PersonEntry.id).Nodup
  faceIds : (s.faces.map FaceEntry.id).Nodup
  freshPersons : ∀ row ∈ s.persons, row.id < s.nextPersonId
  freshFaces : ∀ face ∈ s.faces, face.id < s.nextFaceId
  owned : ∀ face ∈ s.faces, ∀ person, face.person.committed = some person →
    ∃ row ∈ s.persons, row.live = true ∧ row.id = person ∧ row.userId = face.userId
  described : ∀ row ∈ s.persons, ∀ stats, row.stats.committed = some stats →
    stats.Describes (s.facesOf row.id) ∨ ∃ op ∈ s.ops, s.Due op row.id
  sound : ∀ op ∈ s.ops, s.OpSound op
  moved : ∀ face ∈ s.faces, ∀ i person, face.person.written = some (i, person) →
    ∃ op, s.ops[i]? = some op ∧ s.Moving op face person
  updated : ∀ row ∈ s.persons, ∀ i stats, row.stats.written = some (i, stats) →
    ∃ op, s.ops[i]? = some op ∧ Updating op row stats

variable {s t : ClusterSystem E} {i person target : Nat} {op other : ClusterOp E}
  {userId : UserId} {sources : List Nat}

theorem mem_facesOf {face : Nat} :
    face ∈ s.facesOf person ↔ ∃ entry ∈ s.faces, entry.person.committed = some person ∧
      entry.id = face := by
  simp [facesOf, and_assoc]

theorem isLive_iff :
    s.isLive person = true ↔ ∃ row ∈ s.persons, row.live = true ∧ row.id = person := by
  simp [isLive]

theorem live_iff {row : PersonEntry} : row.live = true ↔ ∃ stats, row.stats.committed = some stats :=
  Option.isSome_iff_exists

theorem due_congr (hof : t.facesOf person = s.facesOf person) :
    t.Due op person ↔ s.Due op person := by
  unfold Due
  rw [hof]

/-- Without operations in progress the invariant is the consistency of the clusters. -/
theorem consistent_of_kept (h : s.ClustersKept) (hquiet : s.Quiet) : s.Consistent where
  described row hrow stats hstats := by
    rcases h.described row hrow stats hstats with hright | ⟨op, hop, hdue⟩
    · exact hright
    · have hended := hquiet op hop
      cases op with
      | ended => simp [Due, ClusterOp.Unread] at hdue
      | clustering => simp [ClusterOp.isEnded] at hended
      | merging => simp [ClusterOp.isEnded] at hended
      | choosing => simp [ClusterOp.isEnded] at hended
  owned := h.owned

theorem mem_set_of_mem_eraseIdx {ops : List (ClusterOp E)} (h : other ∈ ops.eraseIdx i) :
    other ∈ ops.set i op := by
  obtain ⟨j, hne, hj⟩ := List.mem_eraseIdx_iff_getElem?.mp h
  exact List.mem_of_getElem? ((List.getElem?_set_ne (Ne.symm hne)).trans hj)

/-- Every operation is the one with the index or one of the others. -/
theorem eq_or_mem_eraseIdx {ops : List (ClusterOp E)} (hop : ops[i]? = some op)
    (h : other ∈ ops) : other = op ∨ other ∈ ops.eraseIdx i := by
  obtain ⟨j, hj⟩ := List.getElem?_of_mem h
  by_cases hij : j = i
  · subst hij
    exact Or.inl (Option.some.inj (hj.symm.trans hop))
  · exact Or.inr (List.mem_eraseIdx_iff_getElem?.mpr ⟨j, hij, hj⟩)

theorem setOp_self (hop : s.ops[i]? = some op) : (s.setOp i other).ops[i]? = some other := by
  obtain ⟨hi, -⟩ := List.getElem?_eq_some_iff.mp hop
  exact List.getElem?_set_self hi

/-- An operation goes on without a change to the tables. -/
theorem kept_setOp (h : s.ClustersKept) (hop : s.ops[i]? = some op) (hsound : s.OpSound other)
    (hmoved : ∀ face ∈ s.faces, ∀ person, face.person.written = some (i, person) →
      s.Moving other face person)
    (hupdated : ∀ row ∈ s.persons, ∀ stats, row.stats.written = some (i, stats) →
      Updating other row stats)
    (hdue : ∀ person, s.Due op person → s.Due other person ∨ s.RightWithout i person) :
    (s.setOp i other).ClustersKept where
  ids := h.ids
  faceIds := h.faceIds
  freshPersons := h.freshPersons
  freshFaces := h.freshFaces
  owned := h.owned
  described := by
    intro row hrow stats hstats
    rcases h.described row hrow stats hstats with hright | ⟨old, hold, hold'⟩
    · exact Or.inl hright
    · rcases eq_or_mem_eraseIdx hop hold with rfl | hother
      · rcases hdue row.id hold' with hnew | hright
        · exact Or.inr ⟨other, List.mem_of_getElem? (setOp_self hop), hnew⟩
        · rcases hright row hrow rfl stats hstats with hright | ⟨last, hlast, hlast'⟩
          · exact Or.inl hright
          · exact Or.inr ⟨last, mem_set_of_mem_eraseIdx hlast, hlast'⟩
      · exact Or.inr ⟨old, mem_set_of_mem_eraseIdx hother, hold'⟩
  sound := by
    intro old hold
    rcases List.mem_or_eq_of_mem_set hold with hold | rfl
    · exact h.sound old hold
    · exact hsound
  moved := by
    intro face hface j person hwritten
    by_cases hij : j = i
    · subst hij
      exact ⟨other, setOp_self hop, hmoved face hface person hwritten⟩
    · obtain ⟨old, hold, hmoving⟩ := h.moved face hface j person hwritten
      exact ⟨old, (List.getElem?_set_ne (Ne.symm hij)).trans hold, hmoving⟩
  updated := by
    intro row hrow j stats hwritten
    by_cases hij : j = i
    · subst hij
      exact ⟨other, setOp_self hop, hupdated row hrow stats hwritten⟩
    · obtain ⟨old, hold, hupdating⟩ := h.updated row hrow j stats hwritten
      exact ⟨old, (List.getElem?_set_ne (Ne.symm hij)).trans hold, hupdating⟩

/-- The locks of an operation are those its phase allows. -/
theorem kept_proceed (h : s.ClustersKept) (hop : s.ops[i]? = some op) (hsound : s.OpSound other)
    (hmoving : ∀ face person, s.Moving op face person → s.Moving other face person)
    (hupdating : ∀ row stats, Updating op row stats → Updating other row stats)
    (hdue : ∀ person, s.Due op person → s.Due other person ∨ s.RightWithout i person) :
    (s.setOp i other).ClustersKept := by
  refine kept_setOp h hop hsound ?_ ?_ hdue
  · intro face hface person hwritten
    obtain ⟨old, hold, hheld⟩ := h.moved face hface i person hwritten
    cases Option.some.inj (hop.symm.trans hold)
    exact hmoving face person hheld
  · intro row hrow stats hwritten
    obtain ⟨old, hold, hheld⟩ := h.updated row hrow i stats hwritten
    cases Option.some.inj (hop.symm.trans hold)
    exact hupdating row stats hheld

/-- What operations know survives in tables with the same rows and new ones, whose persons lose
faces only with their deletion. -/
structure Extends (s t : ClusterSystem E) : Prop where
  faces : ∀ face ∈ s.faces, ∃ new ∈ t.faces, new.id = face.id ∧ new.userId = face.userId
  persons : ∀ row ∈ s.persons, ∃ new ∈ t.persons, new.id = row.id ∧ new.userId = row.userId
  keeps : ∀ row ∈ s.persons, t.isLive row.id = true →
    s.isLive row.id = true ∧ s.facesOf row.id ⊆ t.facesOf row.id

theorem Extends.faceOwner (h : Extends s t) {face : Nat} (howner : s.FaceOwner userId face) :
    t.FaceOwner userId face := by
  obtain ⟨entry, hentry, rfl, rfl⟩ := howner
  exact h.faces entry hentry

theorem Extends.personOwner (h : Extends s t) (howner : s.PersonOwner userId person) :
    t.PersonOwner userId person := by
  obtain ⟨row, hrow, rfl, rfl⟩ := howner
  exact h.persons row hrow

theorem ClustersKept.faceUser (h : s.ClustersKept) {face : Nat} (howner : s.FaceOwner userId face)
    {entry : FaceEntry E} (hentry : entry ∈ s.faces) (hid : entry.id = face) :
    entry.userId = userId := by
  obtain ⟨old, hold, rfl, rfl⟩ := howner
  rw [List.inj_on_of_nodup_map h.faceIds hentry hold hid]

theorem ClustersKept.personUser (h : s.ClustersKept) (howner : s.PersonOwner userId person)
    {row : PersonEntry} (hrow : row ∈ s.persons) (hid : row.id = person) : row.userId = userId := by
  obtain ⟨old, hold, rfl, rfl⟩ := howner
  rw [List.inj_on_of_nodup_map h.ids hrow hold hid]

theorem Extends.opSound (h : Extends s t) (hsound : s.OpSound op) : t.OpSound op := by
  cases op with
  | clustering userId phase =>
    refine ⟨fun face hface => h.faceOwner (hsound.1 face hface), ?_⟩
    have hperson := hsound.2
    cases phase with
    | assign face person todo => exact h.personOwner hperson
    | readStats person todo =>
      obtain ⟨⟨row, hrow, rfl, huser⟩, hfaces⟩ := hperson
      refine ⟨h.personOwner ⟨row, hrow, rfl, huser⟩, fun hlive => ?_⟩
      obtain ⟨hold, hsub⟩ := h.keeps row hrow hlive
      exact fun hnil => hfaces hold (List.eq_nil_of_subset_nil (hnil ▸ hsub))
    | query => trivial
    | find => trivial
    | create => trivial
    | writeStats => trivial
  | merging userId target sources phase =>
    refine ⟨hsound.1, hsound.2.imp_right fun hall person hperson => ?_⟩
    exact h.personOwner (hall person hperson)
  | choosing userId person face checked =>
    cases checked with
    | false => trivial
    | true =>
      obtain ⟨⟨row, hrow, rfl, huser⟩, hfaces⟩ := hsound
      refine ⟨h.personOwner ⟨row, hrow, rfl, huser⟩, fun hlive => ?_⟩
      obtain ⟨hold, hsub⟩ := h.keeps row hrow hlive
      exact hsub (hfaces hold)
  | ended => trivial

theorem facesOf_mapFaces {change : FaceEntry E → Versioned (Option Nat)}
    (hsame : ∀ face ∈ s.faces, (change face).committed = some person ↔
      face.person.committed = some person) : (s.mapFaces change).facesOf person = s.facesOf person := by
  simp only [facesOf, mapFaces, List.filter_map, List.map_map]
  have hfilter : s.faces.filter ((fun face => decide (face.person.committed = some person)) ∘
      fun face => { face with person := change face }) =
      s.faces.filter fun face => decide (face.person.committed = some person) := by
    refine List.filter_congr fun face hface => ?_
    simp only [Function.comp_apply, hsame face hface]
  rw [hfilter]
  rfl

theorem mem_facesOf_mapFaces {change : FaceEntry E → Versioned (Option Nat)} {face : Nat} :
    face ∈ (s.mapFaces change).facesOf person ↔
      ∃ entry ∈ s.faces, (change entry).committed = some person ∧ entry.id = face := by
  simp [mem_facesOf, mapFaces]

theorem isLive_mapPersons {change : PersonEntry → Versioned (Option PersonStats)} :
    (s.mapPersons change).isLive person = true ↔
      ∃ row ∈ s.persons, (change row).committed.isSome = true ∧ row.id = person := by
  simp [isLive, mapPersons, PersonEntry.live]

theorem mapFaces_self (s : ClusterSystem E) : s.mapFaces FaceEntry.person = s := by
  simp [mapFaces]

theorem mapPersons_self (s : ClusterSystem E) : s.mapPersons PersonEntry.stats = s := by
  simp [mapPersons]

/-- Changes of cells keep the ids and the users. -/
theorem extends_map {faces : FaceEntry E → Versioned (Option Nat)}
    {persons : PersonEntry → Versioned (Option PersonStats)}
    (hkeeps : ∀ person, ((s.mapFaces faces).mapPersons persons).isLive person = true →
      s.isLive person = true ∧
        s.facesOf person ⊆ ((s.mapFaces faces).mapPersons persons).facesOf person) :
    Extends s ((s.mapFaces faces).mapPersons persons) where
  faces face hface := ⟨_, List.mem_map.mpr ⟨face, hface, rfl⟩, rfl, rfl⟩
  persons row hrow := ⟨_, List.mem_map.mpr ⟨row, hrow, rfl⟩, rfl, rfl⟩
  keeps row _ := hkeeps row.id

/-- Writes that are not committed, and their end. -/
theorem kept_written (h : s.ClustersKept) {faces : FaceEntry E → Versioned (Option Nat)}
    {persons : PersonEntry → Versioned (Option PersonStats)}
    (hfaces : ∀ face, (faces face).committed = face.person.committed)
    (hpersons : ∀ row, (persons row).committed = row.stats.committed)
    (hmoved : ∀ face ∈ s.faces, ∀ j person, (faces face).written = some (j, person) →
      ∃ op, s.ops[j]? = some op ∧ s.Moving op face person)
    (hupdated : ∀ row ∈ s.persons, ∀ j stats, (persons row).written = some (j, stats) →
      ∃ op, s.ops[j]? = some op ∧ Updating op row stats) :
    ((s.mapFaces faces).mapPersons persons).ClustersKept := by
  have hof : ∀ person, ((s.mapFaces faces).mapPersons persons).facesOf person = s.facesOf person :=
    fun person => facesOf_mapFaces fun face _ => by rw [hfaces]
  have hlive : ∀ person, ((s.mapFaces faces).mapPersons persons).isLive person = true ↔
      s.isLive person = true := by
    intro person
    rw [isLive_mapPersons, isLive_iff]
    simp only [hpersons, PersonEntry.live]
    rfl
  have hdue : ∀ op person, s.Due op person →
      ((s.mapFaces faces).mapPersons persons).Due op person := by
    intro op person hdue
    unfold Due at hdue ⊢
    rw [hof]
    exact hdue
  refine ⟨?_, ?_, ?_, ?_, ?_, ?_, ?_, ?_, ?_⟩
  · simpa [mapPersons, mapFaces, List.map_map, Function.comp_def] using h.ids
  · simpa [mapPersons, mapFaces, List.map_map, Function.comp_def] using h.faceIds
  · simpa [mapPersons, mapFaces] using h.freshPersons
  · simpa [mapPersons, mapFaces] using h.freshFaces
  · intro face hface person hperson
    obtain ⟨old, hold, rfl⟩ := List.mem_map.mp hface
    obtain ⟨row, hrow, hlive, hid, huser⟩ := h.owned old hold person ((hfaces old).symm.trans hperson)
    refine ⟨_, List.mem_map.mpr ⟨row, hrow, rfl⟩, ?_, hid, huser⟩
    simpa [PersonEntry.live, hpersons] using hlive
  · intro row hrow stats hstats
    obtain ⟨old, hold, rfl⟩ := List.mem_map.mp hrow
    rw [hof]
    exact (h.described old hold stats ((hpersons old).symm.trans hstats)).imp_right
      fun ⟨op, hop, hwill⟩ => ⟨op, hop, hdue op old.id hwill⟩
  · intro op hop
    refine (extends_map fun person hp => ⟨(hlive person).mp hp, ?_⟩).opSound (h.sound op hop)
    rw [hof]
    exact List.Subset.refl _
  · intro face hface j person hwritten
    obtain ⟨old, hold, rfl⟩ := List.mem_map.mp hface
    obtain ⟨op, hop, hmoving⟩ := hmoved old hold j person hwritten
    refine ⟨op, hop, ?_⟩
    cases op with
    | merging userId target sources phase =>
      obtain ⟨hphase, htarget, hsource, hheld⟩ := hmoving
      exact ⟨hphase, htarget, by simpa only [hfaces] using hsource, (hlive target).mpr hheld⟩
    | clustering => exact hmoving
    | choosing => exact hmoving
    | ended => exact hmoving
  · intro row hrow j stats hwritten
    obtain ⟨old, hold, rfl⟩ := List.mem_map.mp hrow
    obtain ⟨op, hop, hupdating⟩ := hupdated old hold j stats hwritten
    refine ⟨op, hop, ?_⟩
    unfold Updating at hupdating ⊢
    simpa only [PersonEntry.live, hpersons] using hupdating

theorem kept_rollback (h : s.ClustersKept) (i : Nat) : (s.rollback i).ClustersKept := by
  refine kept_written h (fun _ => rfl) (fun _ => rfl) ?_ ?_
  · intro face hface j person hwritten
    exact h.moved face hface j person (Versioned.written_of_rollback hwritten).1
  · intro row hrow j stats hwritten
    exact h.updated row hrow j stats (Versioned.written_of_rollback hwritten).1

theorem kept_moveFaces (h : s.ClustersKept) {candidates : List Nat}
    (hop : s.ops[i]? = some (.merging userId target sources .readStats))
    (hlive : ∀ face ∈ s.faces, moves candidates sources face = true → s.isLive target = true) :
    (s.moveFaces i target sources candidates).ClustersKept := by
  rw [← mapPersons_self (s.moveFaces i target sources candidates)]
  refine kept_written h (fun face => ?_) (fun _ => rfl) ?_ h.updated
  · split <;> rfl
  · intro face hface j person hwritten
    split at hwritten
    next hmoves =>
      cases Option.some.inj hwritten
      refine ⟨_, hop, rfl, rfl, ?_, hlive face hface hmoves⟩
      simp only [moves, Bool.and_eq_true, Option.any_eq_true, List.contains_iff_mem] at hmoves
      obtain ⟨-, source, hcommitted, hsource⟩ := hmoves
      exact ⟨source, hsource, hcommitted⟩
    next => exact h.moved face hface j person hwritten

theorem kept_writeTarget (h : s.ClustersKept) {stats : PersonStats}
    (hop : s.ops[i]? = some (.merging userId target sources .finish)) :
    (s.writeTarget i target stats).ClustersKept := by
  rw [writeTarget, ← mapFaces_self s]
  refine kept_written h (fun _ => rfl) (fun row => ?_) h.moved ?_
  · split <;> rfl
  · intro row hrow j written hwritten
    split at hwritten
    next htarget =>
      cases Option.some.inj hwritten
      simp only [Bool.and_eq_true, decide_eq_true_eq] at htarget
      exact ⟨_, hop, htarget.1, by simp, htarget.2⟩
    next => exact h.updated row hrow j written hwritten

end ClusterSystem

end

end Reminisce

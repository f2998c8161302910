import Reminisce.FaceCycles

namespace Reminisce

section

variable {F : Type}

namespace FaceSystem

/-- The faces of an image have been offered, or its user is going to be clustered. -/
def Awaited (s : FaceSystem F) (key : UserId × String) : Prop :=
  ∀ row ∈ s.rows, row.key = key → row.offered = true ∨ row.userId ∈ s.usersWithNewFaces

/-- An error that marks the image leaves none of its faces out. -/
def FailsWhole (detectFaces : UserId × String → List F) (s : FaceSystem F) (key : UserId × String)
    (err : String) (marked : Bool) : Prop :=
  (isPermanentFailure err && marked) = true → s.facesOf key = detectFaces key ∧ s.Awaited key

/-- The faces of an image are detected only while none are stored, a permanent failure leaves none
out, and no crash comes between the mark of an image with faces and the clustering. -/
def StoresOnce (detectFaces : UserId × String → List F) (s : FaceSystem F) : FaceCycleEvent → Prop
  | .detect i failure =>
    match s.tasks[i]?, failure with
    | some task, none => s.facesOf task.key = []
    | some task, some (err, marked) => s.FailsWhole detectFaces task.key err marked
    | none, _ => True
  | .insert i (some (err, marked)) =>
    match s.tasks[i]? with
    | some task => s.FailsWhole detectFaces task.key ("Failed to store face: " ++ err) marked
    | none => True
  | .crash => ∀ row ∈ s.rows, s.isCompleted row.key → row.offered = true
  | _ => True

instance (s : FaceSystem F) (key : UserId × String) : Decidable (s.Awaited key) := by
  unfold Awaited
  infer_instance

instance [DecidableEq F] (detectFaces : UserId × String → List F) (s : FaceSystem F)
    (key : UserId × String) (err : String) (marked : Bool) :
    Decidable (s.FailsWhole detectFaces key err marked) := by
  unfold FailsWhole
  infer_instance

instance [DecidableEq F] (detectFaces : UserId × String → List F) (s : FaceSystem F)
    (e : FaceCycleEvent) : Decidable (s.StoresOnce detectFaces e) := by
  unfold StoresOnce
  split <;> try split
  all_goals infer_instance

end FaceSystem

/-- A task that stores has stored what its image has, marked images have all their faces, and those
are offered or going to be. -/
structure FacesKept (detectFaces : UserId × String → List F) (s : FaceSystem F) : Prop where
  ids : ∀ row ∈ s.rows, row.id < s.nextId
  distinct : (s.tasks.map FaceTask.hash).Nodup
  storing : ∀ task ∈ s.tasks, ∀ rest storedCount, task.phase = .storing rest storedCount →
    s.facesOf task.key ++ rest = detectFaces task.key ∧ storedCount = (s.facesOf task.key).length
  exact : ∀ key ∈ s.completed, s.facesOf key = detectFaces key
  awaited : ∀ key ∈ s.completed, s.Awaited key

variable {detectFaces : UserId × String → List F} {s t : FaceSystem F} {i : Nat}
  {task : FaceTask F} {tasks : List (FaceTask F)} {key : UserId × String} {face : F}
  {rest : List F} {storedCount : Nat} {marked : Bool}

theorem isCompleted_iff : s.isCompleted key = true ↔ key ∈ s.completed := by
  simp [FaceSystem.isCompleted]

theorem facesExact_of_kept (h : FacesKept detectFaces s) : FacesExact detectFaces s := by
  intro key hkey
  rw [h.exact key hkey]

theorem facesOffered_of_kept (h : FacesKept detectFaces s) : FacesOffered s := by
  intro _ hnone row hrow hkey
  rcases h.awaited row.key hkey row hrow rfl with hoffered | hwaiting
  · exact hoffered
  · rw [hnone] at hwaiting
    simp at hwaiting

theorem nodup_addTask (h : (tasks.map FaceTask.hash).Nodup) (key : UserId × String) :
    ((addTask tasks key).map FaceTask.hash).Nodup := by
  unfold addTask
  split
  next => exact h
  next hnone =>
    refine Keyed.nodup_append h fun old hold heq => ?_
    exact hnone (List.any_eq_true.mpr ⟨old, hold, decide_eq_true heq⟩)

theorem nodup_addFaceTask (h : (tasks.map FaceTask.hash).Nodup) (key : UserId × String) :
    ((addFaceTask tasks key).map FaceTask.hash).Nodup := by
  unfold addFaceTask
  split
  next =>
    have hsame : (tasks.map fun task =>
        if task.hash = key.2 then { task with phase := .waiting } else task).map FaceTask.hash =
        tasks.map FaceTask.hash := by
      rw [List.map_map]
      refine List.map_congr_left fun task _ => ?_
      simp only [Function.comp_apply]
      split <;> rfl
    rw [hsame]
    exact h
  next hnone =>
    refine Keyed.nodup_append h fun old hold heq => ?_
    exact hnone (List.any_eq_true.mpr ⟨old, hold, decide_eq_true heq⟩)

/-- A new cycle has one task for a hash, and none of them stores. -/
theorem startTasks (others selected : List (UserId × String)) :
    ((selected.foldl addFaceTask (others.foldl addTask ([] : List (FaceTask F)))).map
        FaceTask.hash).Nodup ∧
      ∀ task ∈ selected.foldl addFaceTask (others.foldl addTask ([] : List (FaceTask F))),
        task.phase = .waiting ∨ task.phase = .done := by
  let Fresh (tasks : List (FaceTask F)) : Prop := (tasks.map FaceTask.hash).Nodup ∧
    ∀ task ∈ tasks, task.phase = .waiting ∨ task.phase = .done
  have hother : ∀ tasks key, Fresh tasks → Fresh (addTask tasks key) := by
    intro tasks key h
    refine ⟨nodup_addTask h.1 key, fun task htask => ?_⟩
    unfold addTask at htask
    split at htask
    next => exact h.2 task htask
    next =>
      rcases List.mem_append.mp htask with htask | htask
      · exact h.2 task htask
      · cases List.mem_singleton.mp htask
        exact Or.inr rfl
  have hface : ∀ tasks key, Fresh tasks → Fresh (addFaceTask tasks key) := by
    intro tasks key h
    refine ⟨nodup_addFaceTask h.1 key, fun task htask => ?_⟩
    unfold addFaceTask at htask
    split at htask
    next =>
      obtain ⟨old, hold, rfl⟩ := List.mem_map.mp htask
      split
      next => exact Or.inl rfl
      next => exact h.2 old hold
    next =>
      rcases List.mem_append.mp htask with htask | htask
      · exact h.2 task htask
      · cases List.mem_singleton.mp htask
        exact Or.inl rfl
  have hfold : ∀ (f : List (FaceTask F) → UserId × String → List (FaceTask F)),
      (∀ tasks key, Fresh tasks → Fresh (f tasks key)) →
        ∀ (keys : List (UserId × String)) (tasks : List (FaceTask F)), Fresh tasks →
          Fresh (keys.foldl f tasks) := by
    intro f hf keys
    induction keys with
    | nil => exact fun _ h => h
    | cons key keys ih => exact fun tasks h => ih (f tasks key) (hf tasks key h)
  exact hfold addFaceTask hface selected _ (hfold addTask hother others [] ⟨by simp, by simp⟩)

theorem hashes_setPhase (htask : s.tasks[i]? = some task) (phase : FacePhase F) :
    (s.tasks.set i { task with phase }).map FaceTask.hash = s.tasks.map FaceTask.hash := by
  have hhash : (s.tasks.map FaceTask.hash)[i]? = some task.hash := by
    rw [List.getElem?_map, htask]
    rfl
  obtain ⟨hi, hget⟩ := List.getElem?_eq_some_iff.mp hhash
  have hself := List.set_getElem_self hi
  rw [hget] at hself
  rw [List.map_set]
  exact hself

theorem facesKept_setPhase (h : FacesKept detectFaces s) (htask : s.tasks[i]? = some task)
    (phase : FacePhase F)
    (hphase : ∀ rest storedCount, phase = .storing rest storedCount →
      s.facesOf task.key ++ rest = detectFaces task.key ∧
        storedCount = (s.facesOf task.key).length) :
    FacesKept detectFaces (s.setPhase i task phase) := by
  refine ⟨h.ids, ?_, ?_, h.exact, h.awaited⟩
  · show ((s.tasks.set i { task with phase }).map FaceTask.hash).Nodup
    rw [hashes_setPhase htask]
    exact h.distinct
  · intro other hother rest storedCount hstoring
    rcases List.mem_or_eq_of_mem_set hother with hother | rfl
    · exact h.storing other hother rest storedCount hstoring
    · exact hphase rest storedCount hstoring

theorem facesKept_mark (marked : Bool) (h : FacesKept detectFaces s)
    (hwhole : marked = true → s.facesOf key = detectFaces key ∧ s.Awaited key) :
    FacesKept detectFaces (s.mark key marked) := by
  unfold FaceSystem.mark
  split
  next hmarked =>
    refine ⟨h.ids, h.distinct, h.storing, fun other hother => ?_, fun other hother => ?_⟩
    · rcases List.mem_cons.mp hother with rfl | hother
      · exact (hwhole hmarked).1
      · exact h.exact other hother
    · rcases List.mem_cons.mp hother with rfl | hother
      · exact (hwhole hmarked).2
      · exact h.awaited other hother
  next => exact h

theorem facesKept_fail {err : String} (h : FacesKept detectFaces s) (htask : s.tasks[i]? = some task)
    (hwhole : s.FailsWhole detectFaces task.key err marked) :
    FacesKept detectFaces (s.fail i task err marked) :=
  facesKept_mark _ (facesKept_setPhase h htask .done (by simp)) hwhole

theorem facesKept_detect (h : FacesKept detectFaces s) (htask : s.tasks[i]? = some task)
    (hnone : s.facesOf task.key = []) :
    FacesKept detectFaces (s.setPhase i task (.storing (detectFaces task.key) 0)) := by
  refine facesKept_setPhase h htask _ fun rest storedCount hphase => ?_
  cases hphase
  rw [hnone]
  exact ⟨rfl, rfl⟩

/-- One face more is stored. -/
def FaceSystem.withFace (s : FaceSystem F) (i : Nat) (task : FaceTask F) (face : F) (rest : List F)
    (storedCount : Nat) : FaceSystem F :=
  { s with
    rows := s.rows ++ [⟨s.nextId, task.userId, task.hash, face, false⟩]
    nextId := s.nextId + 1
    tasks := s.tasks.set i { task with phase := .storing rest storedCount } }

/-- The primary key is fresh, so the row is always inserted. -/
theorem insertFace_eq (h : FacesKept detectFaces s) (task : FaceTask F) (face : F) :
    (s.insertFace task face).1.setPhase i task
        (.storing rest (storedCount + (s.insertFace task face).2)) =
      s.withFace i task face rest (storedCount + 1) := by
  unfold FaceSystem.insertFace
  rw [if_neg]
  · rfl
  · intro hany
    obtain ⟨row, hrow, hid⟩ := List.any_eq_true.mp hany
    exact (h.ids row hrow).ne (of_decide_eq_true hid)

theorem facesOf_withFace_self (s : FaceSystem F) (i : Nat) (task : FaceTask F) (face : F)
    (rest : List F) (storedCount : Nat) :
    (s.withFace i task face rest storedCount).facesOf task.key = s.facesOf task.key ++ [face] := by
  unfold FaceSystem.facesOf FaceSystem.withFace
  rw [List.filter_append, List.map_append]
  simp [FaceRow.key, FaceTask.key]

theorem facesOf_withFace_ne (s : FaceSystem F) (hne : key ≠ task.key) :
    (s.withFace i task face rest storedCount).facesOf key = s.facesOf key := by
  unfold FaceSystem.facesOf FaceSystem.withFace
  have hrow : ¬(task.userId, task.hash) = key := fun heq => hne heq.symm
  rw [List.filter_append, List.map_append]
  simp [FaceRow.key, hrow]

/-- No two tasks of a cycle are about one image. -/
theorem eq_of_taskKey {other : FaceTask F} {j : Nat} (h : (s.tasks.map FaceTask.hash).Nodup)
    (htask : s.tasks[i]? = some task) (hother : s.tasks[j]? = some other)
    (hkey : other.key = task.key) : i = j := by
  have hi : (s.tasks.map FaceTask.hash)[i]? = some task.hash := by
    rw [List.getElem?_map, htask]
    rfl
  have hj : (s.tasks.map FaceTask.hash)[j]? = some task.hash := by
    rw [List.getElem?_map, hother]
    exact congrArg some (congrArg Prod.snd hkey)
  have hlt := (List.getElem?_eq_some_iff.mp hi).1
  exact (List.getElem?_inj hlt h).mp (hi.trans hj.symm)

theorem facesKept_insert (h : FacesKept detectFaces s) (htask : s.tasks[i]? = some task)
    (hphase : task.phase = .storing (face :: rest) storedCount) :
    FacesKept detectFaces (s.withFace i task face rest (storedCount + 1)) := by
  obtain ⟨hfaces, hcount⟩ :=
    h.storing task (List.mem_of_getElem? htask) (face :: rest) storedCount hphase
  have hopen : ∀ key ∈ s.completed, key ≠ task.key := by
    rintro key hcompleted rfl
    have hlength := congrArg List.length hfaces
    rw [h.exact task.key hcompleted, List.length_append, List.length_cons] at hlength
    omega
  refine ⟨fun row hrow => ?_, ?_, fun other hother rest' storedCount' hstoring => ?_,
    fun key hkey => ?_, fun key hkey row hrow heq => ?_⟩
  · rcases List.mem_append.mp hrow with hrow | hrow
    · exact (h.ids row hrow).trans (Nat.lt_succ_self _)
    · cases List.mem_singleton.mp hrow
      exact Nat.lt_succ_self _
  · show ((s.tasks.set i { task with phase := .storing rest (storedCount + 1) }).map
      FaceTask.hash).Nodup
    rw [hashes_setPhase htask]
    exact h.distinct
  · obtain ⟨j, hj⟩ := List.getElem?_of_mem hother
    by_cases hij : i = j
    · subst hij
      have hset := List.getElem?_set_self (a := { task with phase := .storing rest (storedCount + 1) })
        (List.getElem?_eq_some_iff.mp htask).1
      cases Option.some.inj (hset.symm.trans hj)
      cases hstoring
      have hself := facesOf_withFace_self s i task face rest (storedCount + 1)
      refine ⟨?_, ?_⟩
      · refine (congrArg (· ++ rest) hself).trans ?_
        simp only [List.append_assoc, List.cons_append, List.nil_append]
        exact hfaces
      · refine (Eq.trans ?_ (congrArg List.length hself).symm)
        rw [List.length_append, hcount]
        rfl
    · have hold : s.tasks[j]? = some other := (List.getElem?_set_ne hij).symm.trans hj
      have hkey : other.key ≠ task.key := fun heq => hij (eq_of_taskKey h.distinct htask hold heq)
      rw [facesOf_withFace_ne s hkey]
      exact h.storing other (List.mem_of_getElem? hold) rest' storedCount' hstoring
  · rw [facesOf_withFace_ne s (hopen key hkey)]
    exact h.exact key hkey
  · rcases List.mem_append.mp hrow with hrow | hrow
    · exact h.awaited key hkey row hrow heq
    · cases List.mem_singleton.mp hrow
      exact absurd heq.symm (hopen key hkey)

/-- Whoever has a face stored in this task is going to be clustered. -/
theorem facesKept_complete (h : FacesKept detectFaces s) (htask : s.tasks[i]? = some task)
    (hphase : task.phase = .storing [] storedCount) :
    FacesKept detectFaces (s.complete i task storedCount marked) := by
  obtain ⟨hfaces, hcount⟩ := h.storing task (List.mem_of_getElem? htask) [] storedCount hphase
  rw [List.append_nil] at hfaces
  have hdone := facesKept_setPhase h htask .done (by simp)
  unfold FaceSystem.complete
  simp only
  split
  next hpos =>
    let users := task.userId :: s.usersWithNewFaces.filter (· ≠ task.userId)
    have husers : ∀ user ∈ s.usersWithNewFaces, user ∈ users := by
      intro user huser
      by_cases heq : user = task.userId
      · exact heq ▸ List.mem_cons_self
      · exact List.mem_cons_of_mem _ (List.mem_filter.mpr ⟨huser, decide_eq_true heq⟩)
    have hwaiting : FacesKept detectFaces
        { s.setPhase i task .done with usersWithNewFaces := users } :=
      ⟨hdone.ids, hdone.distinct, hdone.storing, hdone.exact, fun key hkey row hrow heq =>
        (hdone.awaited key hkey row hrow heq).imp_right (husers row.userId)⟩
    have hself : ∀ row : FaceRow F, row.key = task.key → row.userId ∈ users := by
      intro row heq
      have huser : row.userId = task.userId := congrArg Prod.fst heq
      rw [huser]
      exact List.mem_cons_self
    have hmarked := facesKept_mark marked hwaiting fun _ =>
      ⟨hfaces, fun row _ heq => Or.inr (hself row heq)⟩
    unfold FaceSystem.mark at hmarked ⊢
    split
    next hm =>
      rw [if_pos hm] at hmarked
      exact hmarked
    next hm =>
      rw [if_neg hm] at hmarked
      exact hmarked
  next hzero =>
    refine facesKept_mark marked hdone fun _ => ⟨hfaces, fun row hrow heq => ?_⟩
    have hempty : s.facesOf task.key = [] := List.eq_nil_of_length_eq_zero (by omega)
    have hmem : row.face ∈ s.facesOf task.key :=
      List.mem_map_of_mem (List.mem_filter.mpr ⟨hrow, decide_eq_true heq⟩)
    rw [hempty] at hmem
    simp at hmem

theorem facesKept_cluster (h : FacesKept detectFaces s) (userId : UserId) :
    FacesKept detectFaces (s.cluster userId) := by
  have hfaces : ∀ key, (s.cluster userId).facesOf key = s.facesOf key := by
    intro key
    unfold FaceSystem.facesOf FaceSystem.cluster
    rw [List.filter_map, List.map_map]
    have hkey : ((fun row : FaceRow F => decide (row.key = key)) ∘ fun row : FaceRow F =>
        if row.userId = userId then { row with offered := true } else row) =
        fun row => decide (row.key = key) := by
      funext row
      simp only [Function.comp_apply]
      split <;> rfl
    rw [hkey]
    refine List.map_congr_left fun row _ => ?_
    simp only [Function.comp_apply]
    split <;> rfl
  refine ⟨fun row hrow => ?_, h.distinct, fun task htask rest storedCount hphase => ?_,
    fun key hkey => (hfaces key).trans (h.exact key hkey), fun key hkey row hrow heq => ?_⟩
  · obtain ⟨old, hold, rfl⟩ := List.mem_map.mp hrow
    split
    next => exact h.ids old hold
    next => exact h.ids old hold
  · rw [hfaces]
    exact h.storing task htask rest storedCount hphase
  · obtain ⟨old, hold, rfl⟩ := List.mem_map.mp hrow
    by_cases huser : old.userId = userId
    · rw [if_pos huser]
      exact Or.inl rfl
    · rw [if_neg huser] at heq ⊢
      exact (h.awaited key hkey old hold heq).imp_right fun hmem =>
        List.mem_filter.mpr ⟨hmem, decide_eq_true huser⟩

theorem facesKept_step [DecidableEq F] {e : FaceCycleEvent} (h : FacesKept detectFaces s)
    (honce : s.StoresOnce detectFaces e) (hstep : faceCycleStep detectFaces s e = some t) :
    FacesKept detectFaces t := by
  cases e with
  | start others selected =>
    simp only [faceCycleStep] at hstep
    split at hstep
    next =>
      cases Option.some.inj hstep
      obtain ⟨hdistinct, hphase⟩ := startTasks (F := F) others selected
      refine ⟨h.ids, hdistinct, fun task htask rest storedCount hstoring => ?_, h.exact, h.awaited⟩
      rcases hphase task htask with hwaiting | hdone
      · rw [hwaiting] at hstoring
        simp at hstoring
      · rw [hdone] at hstoring
        simp at hstoring
    next => simp at hstep
  | abandon i =>
    simp only [faceCycleStep] at hstep
    split at hstep
    next htask =>
      cases Option.some.inj hstep
      exact facesKept_setPhase h htask .done (by simp)
    next => simp at hstep
  | detect i failure =>
    simp only [faceCycleStep] at hstep
    split at hstep
    next htask =>
      simp only [FaceSystem.StoresOnce, htask] at honce
      cases failure with
      | none =>
        cases Option.some.inj hstep
        exact facesKept_detect h htask honce
      | some failure =>
        cases Option.some.inj hstep
        exact facesKept_fail h htask honce
    next => simp at hstep
  | insert i failure =>
    simp only [faceCycleStep] at hstep
    split at hstep
    next htask =>
      cases failure with
      | none =>
        cases Option.some.inj hstep
        rw [insertFace_eq h]
        exact facesKept_insert h htask rfl
      | some failure =>
        simp only [FaceSystem.StoresOnce, htask] at honce
        cases Option.some.inj hstep
        exact facesKept_fail h htask honce
    next => simp at hstep
  | complete i marked =>
    simp only [faceCycleStep] at hstep
    split at hstep
    next htask =>
      cases Option.some.inj hstep
      exact facesKept_complete h htask rfl
    next => simp at hstep
  | cluster userId =>
    simp only [faceCycleStep] at hstep
    split at hstep
    next =>
      cases Option.some.inj hstep
      exact facesKept_cluster h userId
    next => simp at hstep
  | finish =>
    simp only [faceCycleStep] at hstep
    split at hstep
    next =>
      cases Option.some.inj hstep
      exact ⟨h.ids, List.nodup_nil, by simp, h.exact, h.awaited⟩
    next => simp at hstep
  | crash =>
    cases Option.some.inj hstep
    refine ⟨h.ids, List.nodup_nil, by simp, h.exact, fun key hkey row hrow heq => ?_⟩
    exact Or.inl (honce row hrow (isCompleted_iff.mpr (heq ▸ hkey)))

/-- For every pattern of failures, the faces of a marked image are stored once and offered, as long
as faces are stored only for images without any, permanent failures leave none out, and no crash
comes between a mark and the clustering. -/
theorem faces_idempotent_of_once [DecidableEq F] (detectFaces : UserId × String → List F)
    (events : List FaceCycleEvent)
    (honce : Runs.Meets (faceCycleStep detectFaces) (fun s e => s.StoresOnce detectFaces e)
      FaceSystem.init events) :
    Runs.Throughout (faceCycleStep detectFaces)
      (fun s => FacesExact detectFaces s ∧ FacesOffered s) FaceSystem.init events := by
  have hstart : FacesKept detectFaces (FaceSystem.init : FaceSystem F) := by
    refine ⟨?_, ?_, ?_, ?_, ?_⟩
    · simp [FaceSystem.init]
    · simp [FaceSystem.init]
    · simp [FaceSystem.init]
    · simp [FaceSystem.init]
    · simp [FaceSystem.init]
  have hall := Runs.throughout_of_meets
    (fun _ _ _ h hcond hstep => facesKept_step h hcond hstep) hstart honce
  exact Runs.throughout_mono
    (fun _ h => ⟨facesExact_of_kept h, facesOffered_of_kept h⟩) hall

end

/-- Two faces in each image named `pair`, none in others. -/
def pairDetector (key : UserId × String) : List Nat := if key.2 = "pair" then [1, 2] else []

/-- A first insert that fails, a lost connection, a mark that fails for an image without faces and a
crash before any insert are made up for by later cycles. -/
theorem faces_idempotent_example :
    Runs.Throughout (faceCycleStep pairDetector)
      (fun s => FacesExact pairDetector s ∧ FacesOffered s) FaceSystem.init
      [.start [] [(1, "pair"), (1, "empty")], .detect 0 none, .insert 0 (some ("timeout", false)),
        .detect 1 none, .complete 1 false, .finish,
        .start [] [(1, "pair"), (1, "empty")], .abandon 0, .detect 1 none, .crash,
        .start [] [(1, "pair"), (1, "empty")], .detect 0 none, .insert 0 none, .insert 0 none,
        .detect 1 none, .complete 1 true, .complete 0 true, .cluster 1, .finish] :=
  faces_idempotent_of_once pairDetector _ (by decide +kernel)

/-- The second insert of an image fails and its retry stores the first face again; and a crash
after the mark leaves the faces to nobody. -/
theorem retry_duplicates_faces :
    (¬ ∀ (F : Type) [DecidableEq F] (detectFaces : UserId × String → List F)
      (events : List FaceCycleEvent), Runs.Throughout (faceCycleStep detectFaces)
        (FacesExact detectFaces) FaceSystem.init events) ∧
    ¬ ∀ (F : Type) [DecidableEq F] (detectFaces : UserId × String → List F)
      (events : List FaceCycleEvent), Runs.Throughout (faceCycleStep detectFaces)
        FacesOffered FaceSystem.init events := by
  constructor
  · intro h
    let events : List FaceCycleEvent :=
      [.start [] [(1, "pair")], .detect 0 none, .insert 0 none, .insert 0 (some ("timeout", false)),
        .finish, .start [] [(1, "pair")], .detect 0 none, .insert 0 none, .insert 0 none,
        .complete 0 true]
    have hexec : (Runs.exec (faceCycleStep pairDetector) FaceSystem.init events).map
        (fun t => (t.completed, t.facesOf (1, "pair"))) =
          some ([(1, "pair")], [1, 1, 2]) := by decide +kernel
    obtain ⟨t, ht, hstate⟩ := Option.map_eq_some_iff.mp hexec
    have hcompleted : t.completed = [(1, "pair")] := congrArg Prod.fst hstate
    have hfaces : t.facesOf (1, "pair") = [1, 1, 2] := congrArg Prod.snd hstate
    have hexact := Runs.throughout_last (h Nat pairDetector events) ht (1, "pair")
      (by simp [hcompleted])
    have hlength := hexact.length_eq
    rw [hfaces] at hlength
    simp [pairDetector] at hlength
  · intro h
    let events : List FaceCycleEvent :=
      [.start [] [(1, "pair")], .detect 0 none, .insert 0 none, .insert 0 none, .complete 0 true,
        .crash]
    have hexec : (Runs.exec (faceCycleStep pairDetector) FaceSystem.init events).map
        (fun t => (t.completed, t.tasks, t.usersWithNewFaces, t.rows)) =
          some ([(1, "pair")], [], [], [⟨0, 1, "pair", 1, false⟩, ⟨1, 1, "pair", 2, false⟩]) := by
      decide +kernel
    obtain ⟨t, ht, hstate⟩ := Option.map_eq_some_iff.mp hexec
    have hcompleted : t.completed = [(1, "pair")] := congrArg Prod.fst hstate
    have hrest := congrArg Prod.snd hstate
    have hoffered := Runs.throughout_last (h Nat pairDetector events) ht
      (congrArg Prod.fst hrest) (congrArg (fun p => p.2.1) hrest) ⟨0, 1, "pair", 1, false⟩
      (by rw [show t.rows = _ from congrArg (fun p => p.2.2) hrest]; simp)
      (by simp [hcompleted, FaceRow.key])
    simp at hoffered

end Reminisce

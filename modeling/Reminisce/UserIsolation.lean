import Reminisce.SharedSteps

namespace Reminisce

/-- A run with a user's requests and one without them, in what another user can see. -/
structure Related (A B : UserId) (hashes : String → Bool) (s t : LibraryState) : Prop where
  lib : SameFor (othersOf A hashes) hashes s.lib t.lib
  tasks : s.tasks.filter (taskInView (othersOf A hashes)) =
    t.tasks.filter (taskInView (othersOf A hashes))
  held : ∀ task ∈ t.tasks, hashes task.hash = true →
    (t.lib.files task.table task.hash task.ext).isSome = true
  rows : ∀ table, ∀ row ∈ t.lib.rows table, row.userId ≠ A
  owners : ∀ task ∈ t.tasks, task.userId ≠ A
  mine : ∀ table, ∀ row ∈ s.lib.rows table, row.userId = B → hashes row.hash = true
  mine' : ∀ table, ∀ row ∈ t.lib.rows table, row.userId = B → hashes row.hash = true

/-- The observer's requests name hashes of the set. -/
def NamesHashes (P : Primitives) (B : UserId) (hashes : String → Bool) (e : LibraryEvent) : Prop :=
  requestOf B e = true → ∀ h, e.hash P = some h → hashes h = true

variable {P : Primitives} {codec : ImageCodec} {hashes : String → Bool} {s t : LibraryState}
  {A B : UserId} {e : LibraryEvent}

theorem mine_step (hnames : NamesHashes P B hashes e)
    (hmine : ∀ table, ∀ row ∈ s.lib.rows table, row.userId = B → hashes row.hash = true) :
    ∀ table, ∀ row ∈ (libraryStep P codec s e).lib.rows table, row.userId = B →
      hashes row.hash = true := by
  intro table row hrow huser
  rcases mem_owner_step (List.mem_map_of_mem hrow) with
    hold | ⟨u, data, name, deviceId, io, rfl, _, hnew⟩ | ⟨u, m, io, rfl, _, hnew⟩
  · obtain ⟨old, hmem, heq⟩ := List.mem_map.mp hold
    have holdUser : old.userId = row.userId := congrArg Prod.fst heq
    have holdHash : old.hash = row.hash := congrArg Prod.snd heq
    rw [← holdHash]
    exact hmine table old hmem (holdUser.trans huser)
  · have hself : row.userId = u := congrArg Prod.fst hnew
    have hhash : row.hash = contentHash P data := congrArg Prod.snd hnew
    rw [hhash]
    exact hnames (by simp [requestOf, LibraryEvent.byWorker, LibraryEvent.actor, ← hself, huser]) _
      rfl
  · have hself : row.userId = u := congrArg Prod.fst hnew
    have hhash : row.hash = m.hash := congrArg Prod.snd hnew
    rw [hhash]
    exact hnames (by simp [requestOf, LibraryEvent.byWorker, LibraryEvent.actor, ← hself, huser]) _
      rfl

/-- A request of the user is seen by nobody else. -/
theorem related_aside (hr : Related A B hashes s t) (hspares : Spares P codec A hashes s e)
    (hnames : NamesHashes P B hashes e) (hA : requestOf A e = true) :
    Related A B hashes (libraryStep P codec s e) t := by
  have hactor : e.actor = A := by
    simp only [requestOf, Bool.and_eq_true, decide_eq_true_eq] at hA
    exact hA.2
  obtain ⟨hlib, htasks⟩ := @libraryStep_aside P codec hashes s e A hspares fun h _ => by
    simp [othersOf, hactor]
  exact { hr with
    lib := hlib.trans hr.lib
    tasks := htasks.trans hr.tasks
    mine := mine_step hnames hr.mine }

theorem files_isSome_mono {table : MediaTable} {hash ext : String}
    (h : (s.lib.files table hash ext).isSome = true) :
    ((libraryStep P codec s e).lib.files table hash ext).isSome = true := by
  rcases @libraryStep_files P codec s e with hfiles | ⟨_, _, _, _, _, _, _, _, hfiles⟩
  · rw [hfiles]
    exact h
  · rw [hfiles]
    exact Library.store_files_mono h

/-- A task of a step was there before, up to its verdict, or it was selected from a row. -/
theorem mem_tasks_step {task : VerifyTask} (h : task ∈ (libraryStep P codec s e).tasks) :
    (∃ old ∈ s.tasks, old.userId = task.userId ∧ old.table = task.table ∧ old.hash = task.hash ∧
      old.ext = task.ext) ∨
    ∃ row ∈ s.lib.rows task.table, row.userId = task.userId ∧ row.hash = task.hash ∧
      row.ext = task.ext := by
  have hold : task ∈ s.tasks → ∃ old ∈ s.tasks, old.userId = task.userId ∧
      old.table = task.table ∧ old.hash = task.hash ∧ old.ext = task.ext :=
    fun hmem => ⟨task, hmem, rfl, rfl, rfl, rfl⟩
  cases e with
  | content userId table data name deviceId io =>
    change task ∈ (contentUpload P codec s userId table data name deviceId io).tasks at h
    unfold contentUpload at h
    simp only at h
    split at h <;> exact Or.inl (hold h)
  | select userId table hash monthAgo =>
    change task ∈ (selectTask s userId table hash monthAgo).tasks at h
    unfold selectTask at h
    split at h
    next row hrow _ =>
      rcases List.mem_append.mp h with hmem | hnew
      · exact Or.inl (hold hmem)
      · rw [List.mem_singleton.mp hnew]
        exact Or.inr ⟨row, List.mem_of_find?_eq_some hrow, rfl, rfl, rfl⟩
    next => exact Or.inl (hold h)
  | check userId table hash io =>
    change task ∈ (checkTask P codec s userId table hash io).tasks at h
    rcases @checkTask_cases P codec s userId table hash io with
      hsame | ⟨read, verdict, hread, _, htasks, _⟩
    · rw [hsame] at h
      exact Or.inl (hold h)
    · rw [htasks] at h
      obtain ⟨old, hmem, heq⟩ := List.mem_map.mp h
      split at heq
      next => subst heq; exact Or.inl ⟨read, (taskOf_some hread).1, rfl, rfl, rfl, rfl⟩
      next => subst heq; exact Or.inl (hold hmem)
  | record userId table hash now stored =>
    change task ∈ (recordTask s userId table hash now stored).tasks at h
    unfold recordTask at h
    split at h
    next => exact Or.inl (hold h)
    next =>
      split at h
      next => exact Or.inl (hold h)
      next => exact Or.inl (hold (List.mem_of_mem_filter h))
  | abandon userId table hash => exact Or.inl (hold (List.mem_of_mem_filter h))
  | metadata | softDelete | restore | rotate | thumbnail | image | video | list =>
    exact Or.inl (hold h)

/-- The run without the user keeps clear of him, and its verifications are of stored files. -/
theorem related_own_step (hr : Related A B hashes s t) (hnamed : NamesStoredFiles hashes t.lib)
    (hA : requestOf A e = false) :
    (∀ task ∈ (libraryStep P codec t e).tasks, hashes task.hash = true →
      ((libraryStep P codec t e).lib.files task.table task.hash task.ext).isSome = true) ∧
    (∀ table, ∀ row ∈ (libraryStep P codec t e).lib.rows table, row.userId ≠ A) ∧
    ∀ task ∈ (libraryStep P codec t e).tasks, task.userId ≠ A := by
  refine ⟨fun task htask hin => files_isSome_mono ?_, fun table row hrow huser => ?_,
    fun task htask huser => ?_⟩
  · rcases mem_tasks_step htask with ⟨old, hold, _, htable, hhash, hext⟩ |
      ⟨row, hrow, _, hhash, hext⟩
    · rw [← htable, ← hhash, ← hext]
      exact hr.held old hold (by rw [hhash]; exact hin)
    · rw [← hhash, ← hext]
      exact hnamed task.table row hrow (by rw [hhash]; exact hin)
  · rcases mem_owner_step (List.mem_map_of_mem hrow) with
      hold | ⟨u, data, name, deviceId, io, rfl, _, hnew⟩ | ⟨u, m, io, rfl, _, hnew⟩
    · obtain ⟨old, hmem, heq⟩ := List.mem_map.mp hold
      have holdUser : old.userId = row.userId := congrArg Prod.fst heq
      exact hr.rows table old hmem (holdUser.trans huser)
    · have hself : row.userId = u := congrArg Prod.fst hnew
      simp [requestOf, LibraryEvent.byWorker, LibraryEvent.actor, ← hself, huser] at hA
    · have hself : row.userId = u := congrArg Prod.fst hnew
      simp [requestOf, LibraryEvent.byWorker, LibraryEvent.actor, ← hself, huser] at hA
  · rcases mem_tasks_step htask with ⟨old, hold, holdUser, _⟩ | ⟨row, hrow, hrowUser, _⟩
    · exact hr.owners old hold (holdUser.trans huser)
    · exact hr.rows task.table row hrow (hrowUser.trans huser)

/-- The worker finds nothing of the user to do in the run without him. -/
theorem libraryStep_idle (hr : Related A B hashes s t) (hworker : e.byWorker = true)
    (hactor : e.actor = A) : libraryStep P codec t e = t := by
  have hnone : ∀ table hash, t.taskOf A table hash = none := by
    intro table hash
    cases htask : t.taskOf A table hash with
    | none => rfl
    | some task =>
      obtain ⟨hmem, huser, _⟩ := taskOf_some htask
      exact absurd huser (hr.owners task hmem)
  cases e with
  | select userId table hash monthAgo =>
    obtain rfl : userId = A := hactor
    show selectTask t userId table hash monthAgo = t
    have hrow : ((t.lib.rows table).find? fun row =>
        row.isOf userId hash && row.due monthAgo) = none := by
      refine List.find?_eq_none.mpr fun row hmem hkey => ?_
      simp only [Bool.and_eq_true, LibraryRow.isOf_iff] at hkey
      exact hr.rows table row hmem hkey.1.1
    unfold selectTask
    rw [hrow]
  | check userId table hash io =>
    obtain rfl : userId = A := hactor
    show checkTask P codec t userId table hash io = t
    unfold checkTask
    rw [hnone table hash]
  | record userId table hash now stored =>
    obtain rfl : userId = A := hactor
    show recordTask t userId table hash now stored = t
    unfold recordTask
    rw [hnone table hash]
  | abandon userId table hash =>
    obtain rfl : userId = A := hactor
    have hall : dropTask userId table hash t.tasks = t.tasks := by
      refine List.filter_eq_self.mpr fun task hmem => ?_
      refine Bool.not_eq_true' _ |>.mpr (Bool.eq_false_iff.mpr fun hkey => ?_)
      exact hr.owners task hmem (VerifyTask.isOf_iff.mp hkey).1
    show { t with tasks := dropTask userId table hash t.tasks } = t
    rw [hall]
  | content | metadata | softDelete | restore | rotate | thumbnail | image | video | list =>
    simp [LibraryEvent.byWorker] at hworker

/-- A step of another user on a hash of the set, in both runs. -/
theorem libraryStep_both {h : String} (hr : Related A B hashes s t)
    (hnamed : NamesStoredFiles hashes t.lib) (hactor : e.actor ≠ A) (hhash : e.hash P = some h)
    (hin : hashes h = true) :
    SameFor (othersOf A hashes) hashes (libraryStep P codec s e).lib (libraryStep P codec t e).lib ∧
      (libraryStep P codec s e).tasks.filter (taskInView (othersOf A hashes)) =
        (libraryStep P codec t e).tasks.filter (taskInView (othersOf A hashes)) := by
  have hview : othersOf A hashes e.actor h = true := by simp [othersOf, hactor, hin]
  cases e with
  | content userId table data name deviceId io =>
    cases Option.some.inj hhash
    have htasks : ∀ u : LibraryState,
        (contentUpload P codec u userId table data name deviceId io).tasks = u.tasks := by
      intro u
      unfold contentUpload
      simp only
      split <;> rfl
    refine ⟨contentUpload_both hr.lib hview io, ?_⟩
    show (contentUpload P codec s userId table data name deviceId io).tasks.filter _ =
      (contentUpload P codec t userId table data name deviceId io).tasks.filter _
    rw [htasks, htasks]
    exact hr.tasks
  | metadata userId table m io =>
    cases Option.some.inj hhash
    exact ⟨uploadMetadata_both hr.lib hview io, hr.tasks⟩
  | softDelete =>
    cases Option.some.inj hhash
    exact ⟨setDeletedAt_both hr.lib hview _ _ _ _, hr.tasks⟩
  | restore =>
    cases Option.some.inj hhash
    exact ⟨setDeletedAt_both hr.lib hview _ _ _ _, hr.tasks⟩
  | rotate userId hash request io =>
    cases Option.some.inj hhash
    exact ⟨updateImageOrientation_both hr.lib hview hin hnamed request io, hr.tasks⟩
  | thumbnail userId hash io =>
    cases Option.some.inj hhash
    exact ⟨(getThumbnail_both hr.lib hview hin io).2, hr.tasks⟩
  | image | video | list => exact ⟨hr.lib, hr.tasks⟩
  | select userId table hash monthAgo =>
    cases Option.some.inj hhash
    refine ⟨?_, selectTask_both hr.lib hview hr.tasks monthAgo⟩
    show SameFor _ _ (selectTask s userId table h monthAgo).lib
      (selectTask t userId table h monthAgo).lib
    rw [selectTask_lib, selectTask_lib]
    exact hr.lib
  | check userId table hash io =>
    cases Option.some.inj hhash
    exact checkTask_both hr.lib hview hin hr.tasks hr.held io
  | record userId table hash now stored =>
    cases Option.some.inj hhash
    exact recordTask_both hr.lib hview hr.tasks now stored
  | abandon userId table hash =>
    refine ⟨hr.lib, ?_⟩
    show (dropTask userId table hash s.tasks).filter _ = (dropTask userId table hash t.tasks).filter _
    rw [filter_dropTask, filter_dropTask, hr.tasks]

theorem spares_of_actor (h : e.actor ≠ A) : Spares P codec A hashes s e := by
  cases e with
  | content | rotate | thumbnail | check => exact fun hA => absurd hA h
  | metadata | softDelete | restore | image | video | list | select | record | abandon => trivial

/-- Two runs whose libraries stay as they are for the view stay related for it. -/
theorem SameFor.aside_both {view : UserId → String → Bool} {a b c d : Library}
    (h : SameFor view hashes a b) (hc : SameFor view hashes c a) (hd : SameFor view hashes d b)
    (hfiles : ∀ t k ext, hashes k = true → d.files t k ext = b.files t k ext) :
    SameFor view hashes c d where
  rows t := ((hc.trans h).rows t).trans (hd.rows t).symm
  thumbs t k hk := ((hc.trans h).thumbs t k hk).trans (hd.thumbs t k hk).symm
  files t k ext data hk hfile := by
    rw [hfiles t k ext hk] at hfile
    exact (hc.trans h).files t k ext data hk hfile
  starred := (hc.trans h).starred.trans hd.starred.symm
  labels := (hc.trans h).labels.trans hd.labels.symm

/-- Every event but the user's requests keeps the two runs together. -/
theorem related_both (hr : Related A B hashes s t) (hnamed : NamesStoredFiles hashes t.lib)
    (hspares : Spares P codec A hashes s e) (hnames : NamesHashes P B hashes e)
    (hA : requestOf A e = false) :
    Related A B hashes (libraryStep P codec s e) (libraryStep P codec t e) := by
  obtain ⟨hheld, hrows, howners⟩ := @related_own_step P codec hashes s t A B e hr hnamed hA
  have hparts : SameFor (othersOf A hashes) hashes (libraryStep P codec s e).lib
        (libraryStep P codec t e).lib ∧
      (libraryStep P codec s e).tasks.filter (taskInView (othersOf A hashes)) =
        (libraryStep P codec t e).tasks.filter (taskInView (othersOf A hashes)) := by
    by_cases hactor : e.actor = A
    · have hworker : e.byWorker = true := by
        simp only [requestOf, hactor, decide_true, Bool.and_true, Bool.not_eq_false'] at hA
        exact hA
      rw [libraryStep_idle hr hworker hactor]
      obtain ⟨hlib, htasks⟩ := @libraryStep_aside P codec hashes s e A hspares fun h _ => by
        simp [othersOf, hactor]
      exact ⟨hlib.trans hr.lib, htasks.trans hr.tasks⟩
    · by_cases hin : ∃ h, e.hash P = some h ∧ hashes h = true
      · obtain ⟨h, hhash, hh⟩ := hin
        exact libraryStep_both hr hnamed hactor hhash hh
      · have hout : ∀ h, e.hash P = some h → othersOf A hashes e.actor h = false := by
          intro h hhash
          have hnot : hashes h = false := Bool.eq_false_iff.mpr fun hh => hin ⟨h, hhash, hh⟩
          simp [othersOf, hnot]
        obtain ⟨hlibS, htasksS⟩ := @libraryStep_aside P codec hashes s e A hspares hout
        obtain ⟨hlibT, htasksT⟩ := @libraryStep_aside P codec hashes t e A
          (spares_of_actor hactor) hout
        refine ⟨hr.lib.aside_both hlibS hlibT fun tb k ext hk => ?_,
          (htasksS.trans hr.tasks).trans htasksT.symm⟩
        rcases @libraryStep_files P codec t e with hfiles |
          ⟨u, table, data, name, deviceId, io, rfl, _, hfiles⟩
        · rw [hfiles]
        · rw [hfiles]
          refine Library.putFile_ne t.lib data fun hkey => hin ⟨k, ?_, hk⟩
          rw [hkey.2.1]
          rfl
  exact ⟨hparts.1, hparts.2, hheld, hrows, howners, mine_step hnames hr.mine,
    mine_step hnames hr.mine'⟩

/-- The observer is answered alike in both runs. -/
theorem observes_both (hr : Related A B hashes s t) (hnamed : NamesStoredFiles hashes t.lib)
    (hnames : NamesHashes P B hashes e) (hAB : A ≠ B) : observes B s e = observes B t e := by
  have hview : ∀ h, hashes h = true → othersOf A hashes B h = true := by
    intro h hin
    simp [othersOf, hin, hAB.symm]
  unfold observes
  split
  next hB =>
    have hin := hnames hB
    have hactor : e.actor = B := by
      simp only [requestOf, Bool.and_eq_true, decide_eq_true_eq] at hB
      exact hB.2
    cases e with
    | image userId hash io =>
      cases (show userId = B from hactor)
      have hhash := hin hash rfl
      exact congrArg _ (congrArg _ (getImage_both hr.lib (hview hash hhash) hhash hnamed io))
    | thumbnail userId hash io =>
      cases (show userId = B from hactor)
      have hhash := hin hash rfl
      exact congrArg _ (congrArg _ (getThumbnail_both hr.lib (hview hash hhash) hhash io).1)
    | list userId query tables =>
      cases (show userId = B from hactor)
      refine congrArg _ (congrArg _ (listMediaThumbnails_both hr.lib ?_ ?_ query tables))
      · intro table row hrow huser
        show othersOf A hashes row.userId row.hash = true
        rw [huser]
        exact hview row.hash (hr.mine table row hrow huser)
      · intro table row hrow huser
        show othersOf A hashes row.userId row.hash = true
        rw [huser]
        exact hview row.hash (hr.mine' table row hrow huser)
    | content | metadata | softDelete | restore | rotate | video | select | check | record
    | abandon => rfl
  next => rfl

/-- The run without the requests of a user. -/
def withoutRequestsOf (A : UserId) (es : List LibraryEvent) : List LibraryEvent :=
  es.filter fun e => !requestOf A e

/-- The answers that a user gets in a run. -/
def answersTo (P : Primitives) (codec : ImageCodec) (B : UserId) (s : LibraryState)
    (es : List LibraryEvent) : List LibraryAnswer :=
  Unwinding.seen (libraryStep P codec) (observes B) s es

/-- Without a user's requests the others are answered alike, if his requests and the verification
of his rows spare the store of the hashes that they name. -/
theorem users_do_not_interfere (P : Primitives) (codec : ImageCodec) {A B : UserId} (hAB : A ≠ B)
    {es : List LibraryEvent}
    (hown : Runs.Meets (libraryRun P codec) (fun s _ => NamesStoredFiles (namedBy P B es) s.lib)
      (LibraryState.start .empty) (withoutRequestsOf A es))
    (hspares : Runs.Meets (libraryRun P codec) (Spares P codec A (namedBy P B es))
      (LibraryState.start .empty) es) :
    answersTo P codec B (LibraryState.start .empty) es =
      answersTo P codec B (LibraryState.start .empty) (withoutRequestsOf A es) := by
  have hnames : ∀ e ∈ es, NamesHashes P B (namedBy P B es) e := by
    intro e he hB h hhash
    exact List.any_eq_true.mpr ⟨e, he, by simp [hB, hhash]⟩
  have hstart : Related A B (namedBy P B es) (LibraryState.start .empty)
      (LibraryState.start .empty) := by
    refine ⟨SameFor.refl _, rfl, ?_, ?_, ?_, ?_, ?_⟩
    all_goals
      intros
      simp_all [LibraryState.start, Library.empty]
  have hsilent : ∀ s e, requestOf A e = true → observes B s e = none := by
    intro s e hA
    simp only [requestOf, Bool.and_eq_true, decide_eq_true_eq] at hA
    exact if_neg (by simp [requestOf, hA.2, hAB])
  exact Unwinding.seen_filter hsilent (fun s t e hr hc he => related_aside hr hc.1 hc.2 he)
    (fun s t e hr hc hg he => ⟨related_both hr hg hc.1 hc.2 he, observes_both hr hg hc.2 hAB⟩)
    hstart (Runs.meets_and hspares (Runs.meets_of_mem (fun e he _ => hnames e he) _)) hown

def ThumbnailIo.fine : ThumbnailIo :=
  { queried := true, read := fun _ => true, reset := fun _ => true }

/-- The upload of the photo by a user, and its verification. -/
def uploadAndVerify (userId : UserId) (name : String) : List LibraryEvent :=
  [.content userId .images photoBytes name "phone" (.smooth 0),
    .select userId .images photoHash 0,
    .check userId .images photoHash { read := true, thumbMade := true },
    .record userId .images photoHash 5 true]

/-- Two owners of one photo, of whom the first describes, fetches and deletes his. -/
def sharedPhoto : List LibraryEvent :=
  uploadAndVerify 2 "b.jpg" ++ uploadAndVerify 1 "a.jpg" ++
    [.metadata 1 .images (plainMetadata photoHash "c.jpg" "jpg") .fine,
      .thumbnail 1 photoHash .fine, .softDelete 1 .images photoHash 6 .fine,
      .thumbnail 2 photoHash .fine, .image 2 photoHash { queried := true, read := true }]

theorem users_do_not_interfere_shared_photo :
    answersTo referencePrimitives plainCodec 2 (LibraryState.start .empty) sharedPhoto =
      answersTo referencePrimitives plainCodec 2 (LibraryState.start .empty)
        (withoutRequestsOf 1 sharedPhoto) :=
  users_do_not_interfere referencePrimitives plainCodec (by decide) (by decide +kernel)
    (by decide +kernel)

/-- The first owner turns the photo, and the second one fetches her thumbnail. -/
def sharedRotation : List LibraryEvent :=
  uploadAndVerify 2 "b.jpg" ++
    [.content 1 .images photoBytes "a.jpg" "phone" (.smooth 0),
      .rotate 1 photoHash { orientation := none, rotate := some "cw" }
        { queried := true, thumbWritten := true, stored := true },
      .thumbnail 2 photoHash .fine]

theorem rotation_turns_thumbnail_of_other :
    answersTo referencePrimitives plainCodec 2 (LibraryState.start .empty) sharedRotation =
        [.thumbnail (.served (.image photoBytes 6))] ∧
      answersTo referencePrimitives plainCodec 2 (LibraryState.start .empty)
          (withoutRequestsOf 1 sharedRotation) =
        [.thumbnail (.served (.image photoBytes 1))] := by
  refine ⟨?_, ?_⟩ <;> decide +kernel

end Reminisce

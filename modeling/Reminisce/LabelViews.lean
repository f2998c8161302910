import Mathlib.Data.String.Basic
import Reminisce.LabelOwners

namespace Reminisce

/-- What the tables hold of a user. -/
structure LabelView where
  media : MediaTable → List LabelledRow
  labels : List LabelRow
  attached : MediaTable → List LabelledMedia

def LabelDb.viewOf (db : LabelDb) (user : UserId) : LabelView :=
  { media := fun table => (db.media table).filter fun m => m.userId = user
    labels := db.labels.filter fun l => l.userId = user
    attached := fun table => (db.attached table).filter fun a => a.userId = user }

/-- What the user has been answered. -/
def LabelState.answers (s : LabelState) (user : UserId) : List LabelReply :=
  (s.replies.filter fun reply => reply.1 = user).map Prod.snd

/-- Whose event it is. -/
def LabelState.actor (s : LabelState) : LabelEvent → Option UserId
  | .newUser user | .deleteUser user | .putMedia _ user _ | .setMediaDeleted _ user _ _
  | .createLabel user _ _ _ | .deleteLabel user _ | .removeLabel _ user _ _
  | .addLabel _ user _ _ | .startImport user => some user
  | .query i | .queryFails i | .importName i _ _ | .importAttach i _ _ _ =>
    s.tasks[i]?.map LabelTask.user

section Filters

variable {α : Type} {l : List α} {p q : α → Bool}

theorem filter_filter_same (h : ∀ a ∈ l, p a → q a) : (l.filter q).filter p = l.filter p := by
  rw [List.filter_filter]
  refine List.filter_congr fun a ha => ?_
  by_cases hp : p a
  · simp [hp, h a ha hp]
  · simp [hp]

theorem filter_map_same {f : α → α} (hp : ∀ a ∈ l, p (f a) = p a) (hf : ∀ a ∈ l, p a → f a = a) :
    (l.map f).filter p = l.filter p := by
  rw [List.filter_map]
  have hsame : l.filter (p ∘ f) = l.filter p := List.filter_congr hp
  rw [hsame]
  conv_rhs => rw [← List.map_id (l.filter p)]
  refine List.map_congr_left fun a ha => ?_
  obtain ⟨ha, hpa⟩ := List.mem_filter.mp ha
  exact hf a ha hpa

theorem filter_append_same {a : α} (h : ¬p a) : (l ++ [a]).filter p = l.filter p := by
  have hp : p a = false := by simpa using h
  simp [List.filter_append, hp]

end Filters

section Others

variable {db db' : LabelDb} {table : MediaTable} {user other : UserId} {hash : String} {id : Nat}
  {name color : List Char} {now : Time} {row : LabelRow} {a : LabelledMedia}

/-- The label of an attachment of a user is a label of the user. -/
theorem LabelInv.owner_of_attached (h : LabelInv db) (ha : a ∈ db.attached table) {l : LabelRow}
    (hl : l ∈ db.labels) (hid : l.id = a.labelId) : l.userId = a.userId := by
  obtain ⟨-, k, hk, hkid, hkuser⟩ := h.owned table a ha
  rw [List.inj_on_of_nodup_map h.ids hl hk (hid.trans hkid.symm)]
  exact hkuser

theorem viewOf_putLabel {recolor : Bool} (h : LabelInv db) (hne : user ≠ other)
    (hput : db.putLabel user name color recolor now = some (row, db')) :
    db'.viewOf other = db.viewOf other := by
  obtain ⟨name', -, hput⟩ := Option.bind_eq_some_iff.mp hput
  obtain ⟨color', -, hup⟩ := Option.bind_eq_some_iff.mp hput
  unfold LabelDb.upsertLabel at hup
  split at hup
  next => cases hup
  next =>
    split at hup
    next l hfound =>
      have hl := List.mem_of_find?_eq_some hfound
      have hkey : l.userId = user ∧ l.name = name' := by simpa using List.find?_some hfound
      have huser : (if recolor then { l with color := color' } else l).userId = user := by
        split <;> exact hkey.1
      have howner : ∀ k ∈ db.labels, k.id = l.id → k.userId = user := fun k hk hid => by
        rw [List.inj_on_of_nodup_map h.ids hk hl hid]
        exact hkey.1
      cases hup
      simp only [LabelDb.viewOf, LabelView.mk.injEq, true_and, and_true]
      refine filter_map_same (fun k hk => ?_) fun k hk hother => ?_
      · split
        next hid => rw [huser, howner k hk hid]
        next => rfl
      · refine if_neg fun hid => hne ?_
        rw [← howner k hk hid]
        exact of_decide_eq_true hother
    next =>
      cases hup
      simp only [LabelDb.viewOf, LabelView.mk.injEq, true_and, and_true]
      exact filter_append_same (by simpa using hne)

theorem viewOf_deleteLabel (h : LabelInv db) (hne : user ≠ other)
    (hdel : db.deleteLabel user id = some db') : db'.viewOf other = db.viewOf other := by
  unfold LabelDb.deleteLabel at hdel
  split at hdel
  next hany =>
    obtain ⟨l, hl, hlid⟩ := List.any_eq_true.mp hany
    have hlid' : l.id = id ∧ l.userId = user := by simpa using hlid
    cases hdel
    simp only [LabelDb.viewOf, LabelView.mk.injEq, true_and]
    refine ⟨filter_filter_same fun k _ hk => ?_, funext fun t => filter_filter_same fun a ha hother => ?_⟩
    · have hk' : k.userId = other := by simpa using hk
      simp [hk', Ne.symm hne]
    · have hother' : a.userId = other := by simpa using hother
      refine decide_eq_true fun hid => hne ?_
      rw [← hlid'.2, ← hother']
      exact h.owner_of_attached ha hl (hlid'.1.trans hid.symm)
  next => cases hdel

theorem viewOf_attach (hne : a.userId ≠ other) (hatt : db.attach table a = some db') :
    db'.viewOf other = db.viewOf other := by
  unfold LabelDb.attach at hatt
  split at hatt
  next =>
    cases hatt
    split
    next => rfl
    next =>
      simp only [LabelDb.viewOf, LabelView.mk.injEq, true_and]
      refine funext fun t => ?_
      split
      next => exact filter_append_same (by simpa using hne)
      next => rfl
  next => cases hatt

theorem viewOf_detach (hne : a.userId ≠ other) :
    (db.detach table a).viewOf other = db.viewOf other := by
  simp only [LabelDb.viewOf, LabelDb.detach, LabelView.mk.injEq, true_and]
  refine funext fun t => ?_
  split
  next =>
    refine filter_filter_same fun b _ hb => decide_eq_true fun hba => hne ?_
    rw [← hba]
    exact of_decide_eq_true hb
  next => rfl

theorem filter_rows_same {rows : List LabelledRow} (deleted : Bool) (hne : user ≠ other) :
    ((rows.map fun m => if m.isOf user hash then { m with deleted := deleted } else m).filter
      fun m => m.userId = other) = rows.filter fun m => m.userId = other := by
  refine filter_map_same (fun m _ => ?_) fun m _ hm => if_neg fun hof => hne ?_
  · split <;> rfl
  · have hmuser : m.userId = user := by
      have := (Bool.and_eq_true_iff.mp hof).1
      simpa using this
    rw [← hmuser]
    exact of_decide_eq_true hm

theorem viewOf_putMedia (hne : user ≠ other) (hput : db.putMedia table user hash = some db') :
    db'.viewOf other = db.viewOf other := by
  unfold LabelDb.putMedia at hput
  split at hput
  next => cases hput
  next =>
    cases hput
    simp only [LabelDb.viewOf, LabelView.mk.injEq, and_true]
    refine funext fun t => ?_
    split
    next => rfl
    next =>
      split
      next => exact filter_rows_same false hne
      next => exact filter_append_same (by simpa using hne)

theorem viewOf_setMediaDeleted (deleted : Bool) (hne : user ≠ other) :
    (db.setMediaDeleted table user hash deleted).viewOf other = db.viewOf other := by
  simp only [LabelDb.viewOf, LabelDb.setMediaDeleted, LabelView.mk.injEq, and_true]
  refine funext fun t => ?_
  split
  next => rfl
  next => exact filter_rows_same deleted hne

/-- What goes along with a user is nobody else's. -/
theorem viewOf_deleteUser (h : LabelInv db) (hne : user ≠ other) :
    (db.deleteUser user).viewOf other = db.viewOf other := by
  have hneq : ∀ {u : UserId}, u = other → u ≠ user := fun hu hu' => hne (hu'.symm.trans hu)
  simp only [LabelDb.viewOf, LabelDb.deleteUser, LabelView.mk.injEq]
  refine ⟨funext fun t => filter_filter_same fun m _ hm => ?_,
    filter_filter_same fun l _ hl => ?_, funext fun t => filter_filter_same fun a ha hother => ?_⟩
  · simpa using hneq (of_decide_eq_true hm)
  · simpa using hneq (of_decide_eq_true hl)
  · have hother' := of_decide_eq_true hother
    refine decide_eq_true ⟨hneq hother', fun hany => ?_⟩
    obtain ⟨l, hl, hlid⟩ := List.any_eq_true.mp hany
    have hlid' : l.id = a.labelId ∧ l.userId = user := by simpa using hlid
    refine hneq hother' ?_
    rw [← hlid'.2]
    exact (h.owner_of_attached ha hl hlid'.1).symm

end Others

section States

variable {s s' : LabelState} {e : LabelEvent} {es past : List LabelEvent} {other : UserId}

theorem answers_append {db : LabelDb} {tasks : List LabelTask} {user : UserId}
    (hne : user ≠ other) (replies : List LabelReply) :
    LabelState.answers ⟨db, tasks, s.replies ++ replies.map fun reply => (user, reply)⟩ other =
      s.answers other := by
  have hnone : (replies.map fun reply => (user, reply)).filter (fun reply => reply.1 = other) =
      [] := by
    refine List.filter_eq_nil_iff.mpr fun reply hreply => ?_
    obtain ⟨text, -, rfl⟩ := List.mem_map.mp hreply
    simpa using hne
  simp only [LabelState.answers, List.filter_append, hnone, List.append_nil]

theorem answers_concat {db : LabelDb} {tasks : List LabelTask} {user : UserId}
    (hne : user ≠ other) (reply : LabelReply) :
    LabelState.answers ⟨db, tasks, s.replies ++ [(user, reply)]⟩ other = s.answers other :=
  answers_append hne [reply]

theorem viewOf_queryStep {db' : LabelDb} {task task' : LabelTask} {replies : List LabelReply}
    (hne : task.user ≠ other) (hq : queryStep s.db task = some (db', task', replies)) :
    db'.viewOf other = s.db.viewOf other := by
  cases task with
  | checkMedia table user hash labelId =>
    rw [queryStep] at hq
    split at hq <;> cases hq <;> rfl
  | checkLabel table user hash labelId =>
    rw [queryStep] at hq
    split at hq <;> cases hq <;> rfl
  | insert table user hash labelId =>
    rw [queryStep] at hq
    split at hq
    next hatt =>
      cases hq
      exact viewOf_attach hne hatt
    next =>
      cases hq
      rfl
  | importing | ended => cases hq

/-- An event of somebody else changes nothing of the user's. -/
theorem viewOf_step (h : LabelStateInv s) (hstep : labelStep s e = some s')
    (hother : s.actor e ≠ some other) :
    s'.db.viewOf other = s.db.viewOf other ∧ s'.answers other = s.answers other := by
  have hne : ∀ {user}, s.actor e = some user → user ≠ other := fun hactor heq =>
    hother (heq ▸ hactor)
  cases e with
  | newUser user =>
    cases hstep
    exact ⟨rfl, rfl⟩
  | deleteUser user =>
    cases hstep
    exact ⟨viewOf_deleteUser h.db (hne rfl), rfl⟩
  | putMedia table user hash =>
    obtain ⟨db, hput, rfl⟩ := Option.map_eq_some_iff.mp hstep
    exact ⟨viewOf_putMedia (hne rfl) hput, rfl⟩
  | setMediaDeleted table user hash deleted =>
    cases hstep
    exact ⟨viewOf_setMediaDeleted deleted (hne rfl), rfl⟩
  | createLabel user name color now =>
    rw [labelStep] at hstep
    split at hstep
    next =>
      cases hstep
      exact ⟨rfl, answers_concat (hne rfl) _⟩
    next =>
      split at hstep
      next row db hput =>
        cases hstep
        exact ⟨viewOf_putLabel h.db (hne rfl) hput, answers_concat (hne rfl) _⟩
      next =>
        cases hstep
        exact ⟨rfl, answers_concat (hne rfl) _⟩
  | deleteLabel user id =>
    rw [labelStep] at hstep
    split at hstep
    next db hdel =>
      cases hstep
      exact ⟨viewOf_deleteLabel h.db (hne rfl) hdel, answers_concat (hne rfl) _⟩
    next =>
      cases hstep
      exact ⟨rfl, answers_concat (hne rfl) _⟩
  | removeLabel table user hash labelId =>
    cases hstep
    exact ⟨viewOf_detach (hne rfl), answers_concat (hne rfl) _⟩
  | addLabel table user hash labelId =>
    cases hstep
    exact ⟨rfl, rfl⟩
  | query i =>
    obtain ⟨task, htask, hstep⟩ := Option.bind_eq_some_iff.mp hstep
    obtain ⟨⟨db, task', replies⟩, hq, rfl⟩ := Option.map_eq_some_iff.mp hstep
    have hactor : s.actor (.query i) = some task.user := by rw [LabelState.actor, htask]; rfl
    exact ⟨viewOf_queryStep (hne hactor) hq, answers_append (hne hactor) replies⟩
  | queryFails i =>
    obtain ⟨task, -, rfl⟩ := Option.map_eq_some_iff.mp hstep
    exact ⟨rfl, rfl⟩
  | startImport user =>
    cases hstep
    exact ⟨rfl, rfl⟩
  | importName i name now =>
    rw [labelStep] at hstep
    split at hstep
    next user cache htask =>
      have hactor : s.actor (.importName i name now) = some user := by
        rw [LabelState.actor, htask]; rfl
      split at hstep
      next =>
        split at hstep
        next row db hput =>
          cases hstep
          exact ⟨viewOf_putLabel h.db (hne hactor) hput, rfl⟩
        next =>
          cases hstep
          exact ⟨rfl, rfl⟩
      next => cases hstep
    next => cases hstep
  | importAttach i name table hash =>
    rw [labelStep] at hstep
    split at hstep
    next user cache htask =>
      obtain ⟨id, -, rfl⟩ := Option.map_eq_some_iff.mp hstep
      have hactor : s.actor (.importAttach i name table hash) = some user := by
        rw [LabelState.actor, htask]; rfl
      cases hatt : s.db.attach table ⟨hash, user, id⟩ with
      | none => exact ⟨rfl, rfl⟩
      | some db => exact ⟨viewOf_attach (hne hactor) hatt, rfl⟩
    next => cases hstep

/-- The list of labels is taken from what is the user's. -/
theorem getLabels_of_view {db db' : LabelDb} {user : UserId}
    (nameLe : List Char → List Char → Bool) (h : db'.viewOf user = db.viewOf user) :
    db'.getLabels nameLe user = db.getLabels nameLe user := by
  have hlabels := congrArg LabelView.labels h
  simp only [LabelDb.viewOf] at hlabels
  unfold LabelDb.getLabels
  rw [hlabels]

/-- As long as only others act, a user keeps the same rows, labels and attachments, is answered
nothing, and would be shown the same list of labels. -/
theorem labels_isolated (hpast : Runs.exec labelStep .init past = some s)
    (hrun : Runs.exec labelStep s es = some s')
    (hothers : Runs.Meets labelStep (fun t e => t.actor e ≠ some other) s es) :
    s'.db.viewOf other = s.db.viewOf other ∧ s'.answers other = s.answers other ∧
      ∀ nameLe, s'.db.getLabels nameLe other = s.db.getLabels nameLe other := by
  let Same (t : LabelState) : Prop :=
    t.db.viewOf other = s.db.viewOf other ∧ t.answers other = s.answers other
  have hkeeps : ∀ t e t', LabelStateInv t ∧ Same t → t.actor e ≠ some other →
      labelStep t e = some t' → LabelStateInv t' ∧ Same t' := by
    rintro t e t' ⟨hinv, hview, hanswers⟩ hactor hstep
    obtain ⟨hview', hanswers'⟩ := viewOf_step hinv hstep hactor
    exact ⟨labelStateInv_step hinv hstep, hview'.trans hview, hanswers'.trans hanswers⟩
  obtain ⟨-, hview, hanswers⟩ :=
    Runs.exec_invariant hkeeps ⟨labelStateInv_run hpast, rfl, rfl⟩ hothers hrun
  exact ⟨hview, hanswers, fun nameLe => getLabels_of_view nameLe hview⟩

/-- The first of two users with the same image labels it. -/
def labelledOnce : List LabelEvent :=
  [.newUser 1, .newUser 2, .putMedia .images 1 "cafe", .putMedia .images 2 "cafe",
    .createLabel 1 "trip".toList "#112233".toList 5, .addLabel .images 1 "cafe" 1,
    .query 0, .query 0, .query 0]

/-- The second user asks for the label, tries to delete it and is deleted. -/
theorem labels_isolated_second : ∃ s s', Runs.exec labelStep .init labelledOnce = some s ∧
    Runs.exec labelStep s [.deleteLabel 2 1, .addLabel .images 2 "cafe" 1, .query 1, .query 1,
      .deleteUser 2] = some s' ∧
    s'.db.viewOf 1 = s.db.viewOf 1 ∧ s'.answers 1 = s.answers 1 ∧
      ∀ nameLe, s'.db.getLabels nameLe 1 = s.db.getLabels nameLe 1 := by
  have hpast : (Runs.exec labelStep .init labelledOnce).isSome := by decide +kernel
  have hothers : Runs.Meets labelStep (fun t e => t.actor e ≠ some 1)
      ((Runs.exec labelStep .init labelledOnce).get hpast) [.deleteLabel 2 1,
        .addLabel .images 2 "cafe" 1, .query 1, .query 1, .deleteUser 2] := by
    decide +kernel +revert
  have hrun : (Runs.exec labelStep ((Runs.exec labelStep .init labelledOnce).get hpast)
      [.deleteLabel 2 1, .addLabel .images 2 "cafe" 1, .query 1, .query 1,
        .deleteUser 2]).isSome := by
    decide +kernel +revert
  exact ⟨_, _, Option.eq_some_of_isSome hpast, Option.eq_some_of_isSome hrun,
    labels_isolated (Option.eq_some_of_isSome hpast) (Option.eq_some_of_isSome hrun) hothers⟩

end States

section Shown

variable {db : LabelDb} {es : List LabelEvent} {s : LabelState} {table : MediaTable}
  {user : UserId} {hash : String}

/-- The join finds each label of the user once, where it is attached to the user's own row. -/
theorem flatMap_attached (h : LabelInv db) :
    (db.labels.flatMap fun l => ((db.attached table).filter fun a =>
      a.labelId = l.id ∧ a.hash = hash ∧ l.userId = user).map fun _ => l) =
    db.labels.filter fun l => l.userId = user ∧ ⟨hash, user, l.id⟩ ∈ db.attached table := by
  have hone : ∀ l ∈ db.labels, ((db.attached table).filter fun a =>
      a.labelId = l.id ∧ a.hash = hash ∧ l.userId = user).map (fun _ => l) =
      if l.userId = user ∧ ⟨hash, user, l.id⟩ ∈ db.attached table then [l] else [] := by
    intro l hl
    by_cases huser : l.userId = user
    · have hrow : (db.attached table).filter (fun a =>
          a.labelId = l.id ∧ a.hash = hash ∧ l.userId = user) =
          (db.attached table).filter (· == ⟨hash, user, l.id⟩) := by
        refine List.filter_congr fun a ha => ?_
        refine Bool.eq_iff_iff.mpr ?_
        rw [decide_eq_true_iff, beq_iff_eq]
        constructor
        · rintro ⟨hid, hhash, -⟩
          have howner := h.owner_of_attached ha hl hid.symm
          rw [← hid, ← hhash, ← huser, howner]
        · rintro rfl
          exact ⟨rfl, rfl, huser⟩
      rw [hrow, List.filter_beq, List.map_replicate, (h.once table).count]
      by_cases hmem : (⟨hash, user, l.id⟩ : LabelledMedia) ∈ db.attached table
      · simp [hmem, huser]
      · simp [hmem]
    · simp [huser]
  have hlabels : ∀ labels : List LabelRow, (∀ l ∈ labels, l ∈ db.labels) →
      (labels.flatMap fun l => ((db.attached table).filter fun a =>
        a.labelId = l.id ∧ a.hash = hash ∧ l.userId = user).map fun _ => l) =
      labels.filter fun l => l.userId = user ∧ ⟨hash, user, l.id⟩ ∈ db.attached table := by
    intro labels hsub
    induction labels with
    | nil => rfl
    | cons l labels ih =>
      rw [List.flatMap_cons, hone l (hsub l List.mem_cons_self),
        ih fun k hk => hsub k (List.mem_cons_of_mem _ hk), List.filter_cons]
      by_cases hl : l.userId = user ∧ ⟨hash, user, l.id⟩ ∈ db.attached table
      · simp [hl]
      · simp [hl]
  exact hlabels db.labels fun _ h => h

/-- The labels shown with a user's image are the user's labels on the user's own row, each once. -/
theorem getMediaLabels_exact (nameLe : List Char → List Char → Bool) (table : MediaTable)
    (user : UserId) (hash : String) (h : Runs.exec labelStep .init es = some s) :
    s.db.getMediaLabels nameLe table user hash =
      (s.db.labels.filter fun l => l.userId = user ∧
        ⟨hash, user, l.id⟩ ∈ s.db.attached table).mergeSort fun k l => nameLe k.name l.name := by
  rw [LabelDb.getMediaLabels, flatMap_attached (labelStateInv_run h).db]

theorem getMediaLabels_exact_once : ∃ s, Runs.exec labelStep .init labelledOnce = some s ∧
    s.db.getMediaLabels (fun k l => k ≤ l) .images 1 "cafe" =
      (s.db.labels.filter fun l => l.userId = 1 ∧
        ⟨"cafe", 1, l.id⟩ ∈ s.db.attached .images).mergeSort fun k l => k.name ≤ l.name := by
  obtain ⟨s, hs⟩ := Option.isSome_iff_exists.mp
    (by decide +kernel : (Runs.exec labelStep .init labelledOnce).isSome)
  exact ⟨s, hs, getMediaLabels_exact (fun k l => k ≤ l) .images 1 "cafe" hs⟩

end Shown

end Reminisce

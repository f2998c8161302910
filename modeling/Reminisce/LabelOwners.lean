import Reminisce.Library.Keyed
import Reminisce.Library.Runs
import Reminisce.LibraryReads
import Reminisce.SqlScripts

namespace Reminisce

/-- A row of `labels`. -/
structure LabelRow where
  id : Nat
  userId : UserId
  name : List Char
  color : List Char
  createdAt : Time
  deriving DecidableEq, Repr

/-- A row of `image_labels` or `video_labels`. -/
structure LabelledMedia where
  hash : String
  userId : UserId
  labelId : Nat
  deriving DecidableEq, Repr

/-- The key of a row of `images` or `videos`, and whether it is in the trash. -/
structure LabelledRow where
  userId : UserId
  hash : String
  deleted : Bool
  deriving DecidableEq, Repr

def LabelledRow.isOf (user : UserId) (hash : String) (m : LabelledRow) : Bool :=
  m.userId = user && m.hash = hash

/-- The tables that the labels live in, with the sequence of their ids. -/
structure LabelDb where
  users : List UserId
  media : MediaTable → List LabelledRow
  labels : List LabelRow
  nextLabel : Nat
  attached : MediaTable → List LabelledMedia

def LabelDb.empty : LabelDb := ⟨[], fun _ => [], [], 1, fun _ => []⟩

def defaultLabelColor : List Char := "#3B82F6".toList

/-- A text in a `VARCHAR(n)` column: blanks that do not fit are cut off. -/
def intoVarchar (n : Nat) (text : List Char) : Option (List Char) :=
  if '\x00' ∉ text ∧ (text.drop n).all (· = ' ') then some (text.take n) else none

namespace LabelDb

variable (db : LabelDb)

/-- `INSERT INTO labels .. ON CONFLICT (user_id, name) DO UPDATE .. RETURNING`, once the text fits
its columns. -/
def upsertLabel (user : UserId) (name color : List Char) (recolor : Bool) (now : Time) :
    Option (LabelRow × LabelDb) :=
  if user ∉ db.users ∨ 2147483648 ≤ db.nextLabel then none
  else match db.labels.find? (fun l => l.userId = user ∧ l.name = name) with
    | some l =>
      let row := if recolor then { l with color := color } else l
      some (row, { db with
        labels := db.labels.map fun k => if k.id = l.id then row else k
        nextLabel := db.nextLabel + 1 })
    | none =>
      let row : LabelRow := ⟨db.nextLabel, user, name, color, now⟩
      some (row, { db with labels := db.labels ++ [row], nextLabel := db.nextLabel + 1 })

def putLabel (user : UserId) (name color : List Char) (recolor : Bool) (now : Time) :
    Option (LabelRow × LabelDb) := do
  db.upsertLabel user (← intoVarchar 255 name) (← intoVarchar 7 color) recolor now

/-- `DELETE FROM labels WHERE id = $1 AND user_id = $2`, which takes the attachments along. -/
def deleteLabel (user : UserId) (id : Nat) : Option LabelDb :=
  if db.labels.any fun l => l.id = id ∧ l.userId = user then
    some { db with
      labels := db.labels.filter fun l => ¬(l.id = id ∧ l.userId = user)
      attached := fun table => (db.attached table).filter fun a => a.labelId ≠ id }
  else none

/-- `INSERT INTO image_labels .. ON CONFLICT DO NOTHING`, under both foreign keys. -/
def attach (table : MediaTable) (a : LabelledMedia) : Option LabelDb :=
  if (db.media table).any (·.isOf a.userId a.hash) ∧ db.labels.any fun l => l.id = a.labelId then
    some (if a ∈ db.attached table then db
      else { db with
        attached := fun t => if t = table then db.attached t ++ [a] else db.attached t })
  else none

def detach (table : MediaTable) (a : LabelledMedia) : LabelDb :=
  { db with
    attached := fun t => if t = table then (db.attached t).filter (· ≠ a) else db.attached t }

/-- `SELECT 1 FROM images WHERE hash = $1 AND user_id = $2 AND deleted_at IS NULL`. -/
def mediaExists (table : MediaTable) (user : UserId) (hash : String) : Bool :=
  (db.media table).any fun m => m.isOf user hash && !m.deleted

def labelExists (user : UserId) (id : Nat) : Bool :=
  db.labels.any fun l => l.id = id ∧ l.userId = user

/-- An upload: the row comes back from the trash or is new. -/
def putMedia (table : MediaTable) (user : UserId) (hash : String) : Option LabelDb :=
  if user ∉ db.users then none
  else some { db with
    media := fun t =>
      if t ≠ table then db.media t
      else if (db.media t).any (·.isOf user hash) then
        (db.media t).map fun m => if m.isOf user hash then { m with deleted := false } else m
      else db.media t ++ [⟨user, hash, false⟩] }

def setMediaDeleted (table : MediaTable) (user : UserId) (hash : String) (deleted : Bool) : LabelDb :=
  { db with
    media := fun t =>
      if t ≠ table then db.media t
      else (db.media t).map fun m => if m.isOf user hash then { m with deleted := deleted } else m }

/-- `DELETE FROM users`, which takes the rows and the labels of the user along, and all that is
attached to them. -/
def deleteUser (user : UserId) : LabelDb :=
  { db with
    users := db.users.filter (· ≠ user)
    media := fun table => (db.media table).filter fun m => m.userId ≠ user
    labels := db.labels.filter fun l => l.userId ≠ user
    attached := fun table => (db.attached table).filter fun a =>
      a.userId ≠ user ∧ ¬db.labels.any fun l => l.id = a.labelId ∧ l.userId = user }

variable (nameLe : List Char → List Char → Bool)

def getLabels (user : UserId) : List LabelRow :=
  (db.labels.filter fun l => l.userId = user).mergeSort fun k l => nameLe k.name l.name

/-- `labels l INNER JOIN image_labels il ON il.label_id = l.id WHERE il.image_hash = $1 AND
l.user_id = $2`: nothing is asked of `il.image_user_id`. -/
def getMediaLabels (table : MediaTable) (user : UserId) (hash : String) : List LabelRow :=
  (db.labels.flatMap fun l => ((db.attached table).filter fun a =>
      a.labelId = l.id ∧ a.hash = hash ∧ l.userId = user).map fun _ => l).mergeSort
    fun k l => nameLe k.name l.name

end LabelDb

inductive LabelReply
  | label (row : LabelRow)
  | message (text : String)
  | badRequest (error : String)
  | notFound (error : String)
  | internal (error : String)
  deriving DecidableEq, Repr

/-- A request between two of its queries, or a running import with the labels it has looked up. -/
inductive LabelTask
  | checkMedia (table : MediaTable) (user : UserId) (hash : String) (labelId : Nat)
  | checkLabel (table : MediaTable) (user : UserId) (hash : String) (labelId : Nat)
  | insert (table : MediaTable) (user : UserId) (hash : String) (labelId : Nat)
  | importing (user : UserId) (cache : List (List Char × Nat))
  | ended (user : UserId)

def LabelTask.user : LabelTask → UserId
  | checkMedia _ user _ _ => user
  | checkLabel _ user _ _ => user
  | insert _ user _ _ => user
  | importing user _ => user
  | ended user => user

structure LabelState where
  db : LabelDb
  tasks : List LabelTask
  replies : List (UserId × LabelReply)

def LabelState.init : LabelState := ⟨.empty, [], []⟩

inductive LabelEvent
  | newUser (user : UserId)
  | deleteUser (user : UserId)
  | putMedia (table : MediaTable) (user : UserId) (hash : String)
  | setMediaDeleted (table : MediaTable) (user : UserId) (hash : String) (deleted : Bool)
  | createLabel (user : UserId) (name color : List Char) (now : Time)
  | deleteLabel (user : UserId) (id : Nat)
  | removeLabel (table : MediaTable) (user : UserId) (hash : String) (labelId : Nat)
  | addLabel (table : MediaTable) (user : UserId) (hash : String) (labelId : Nat)
  | query (task : Nat)
  | queryFails (task : Nat)
  | startImport (user : UserId)
  | importName (task : Nat) (name : List Char) (now : Time)
  | importAttach (task : Nat) (name : List Char) (table : MediaTable) (hash : String)

def mediaName : MediaTable → String
  | .images => "Image"
  | .videos => "Video"

/-- What one query of a request does, with the reply if it is the last. -/
def queryStep (db : LabelDb) : LabelTask → Option (LabelDb × LabelTask × List LabelReply)
  | .checkMedia table user hash labelId =>
    if db.mediaExists table user hash then some (db, .checkLabel table user hash labelId, [])
    else some (db, .ended user, [.notFound (mediaName table ++ " not found")])
  | .checkLabel table user hash labelId =>
    if db.labelExists user labelId then some (db, .insert table user hash labelId, [])
    else some (db, .ended user, [.notFound "Label not found"])
  | .insert table user hash labelId =>
    match db.attach table ⟨hash, user, labelId⟩ with
    | some db' => some (db', .ended user,
        [.message ("Label added to " ++ (mediaName table).toLower)])
    | none => some (db, .ended user, [.internal "Failed to add label"])
  | _ => none

def labelStep (s : LabelState) : LabelEvent → Option LabelState
  | .newUser user => some { s with db := { s.db with users := s.db.users ++ [user] } }
  | .deleteUser user => some { s with db := s.db.deleteUser user }
  | .putMedia table user hash => (s.db.putMedia table user hash).map fun db => { s with db := db }
  | .setMediaDeleted table user hash deleted =>
    some { s with db := s.db.setMediaDeleted table user hash deleted }
  | .createLabel user name color now =>
    if trimChars name = [] then
      some { s with replies := s.replies ++ [(user, .badRequest "Label name cannot be empty")] }
    else match s.db.putLabel user (trimChars name) color true now with
      | some (row, db) => some { s with db := db, replies := s.replies ++ [(user, .label row)] }
      | none => some { s with
          replies := s.replies ++ [(user, .internal "Failed to create label")] }
  | .deleteLabel user id =>
    match s.db.deleteLabel user id with
    | some db => some { s with
        db := db, replies := s.replies ++ [(user, .message "Label deleted")] }
    | none => some { s with replies := s.replies ++ [(user, .notFound "Label not found")] }
  | .removeLabel table user hash labelId =>
    some { s with
      db := s.db.detach table ⟨hash, user, labelId⟩
      replies := s.replies ++
        [(user, .message ("Label removed from " ++ (mediaName table).toLower))] }
  | .addLabel table user hash labelId =>
    some { s with tasks := s.tasks ++ [.checkMedia table user hash labelId] }
  | .query i => s.tasks[i]?.bind fun task => (queryStep s.db task).map fun out =>
    { db := out.1, tasks := s.tasks.set i out.2.1
      replies := s.replies ++ out.2.2.map fun reply => (task.user, reply) }
  | .queryFails i => s.tasks[i]?.map fun task => { s with tasks := s.tasks.set i (.ended task.user) }
  | .startImport user => some { s with tasks := s.tasks ++ [.importing user []] }
  | .importName i name now =>
    match s.tasks[i]? with
    | some (.importing user cache) =>
      if cache.lookup name = none then
        match s.db.putLabel user name defaultLabelColor false now with
        | some (row, db) => some { s with
            db := db, tasks := s.tasks.set i (.importing user (cache ++ [(name, row.id)])) }
        | none => some s
      else none
    | _ => none
  | .importAttach i name table hash =>
    match s.tasks[i]? with
    | some (.importing user cache) => (cache.lookup name).map fun id =>
      { s with db := (s.db.attach table ⟨hash, user, id⟩).getD s.db }
    | _ => none

/-- Ids and names are unique, and what is attached is a label of the owner of the row. -/
structure LabelInv (db : LabelDb) : Prop where
  idsLt : ∀ l ∈ db.labels, l.id < db.nextLabel
  ids : (db.labels.map LabelRow.id).Nodup
  names : (db.labels.map fun l => (l.userId, l.name)).Nodup
  once : ∀ table, (db.attached table).Nodup
  owned : ∀ table, ∀ a ∈ db.attached table, (∃ m ∈ db.media table, m.isOf a.userId a.hash) ∧
    ∃ l ∈ db.labels, l.id = a.labelId ∧ l.userId = a.userId

/-- If the label is still there, it is one of the user's. -/
def LabelDb.Holds (db : LabelDb) (user : UserId) (id : Nat) : Prop :=
  id < db.nextLabel ∧ ∀ l ∈ db.labels, l.id = id → l.userId = user

/-- The labels a request goes on with. -/
def LabelTask.ids : LabelTask → List Nat
  | insert _ _ _ labelId => [labelId]
  | importing _ cache => cache.map Prod.snd
  | _ => []

structure LabelStateInv (s : LabelState) : Prop where
  db : LabelInv s.db
  tasks : ∀ task ∈ s.tasks, ∀ id ∈ task.ids, s.db.Holds task.user id

/-- No id is used again, and labels keep their owners. -/
structure LabelDb.Later (db db' : LabelDb) : Prop where
  next : db.nextLabel ≤ db'.nextLabel
  labels : ∀ l' ∈ db'.labels, db.nextLabel ≤ l'.id ∨
    ∃ l ∈ db.labels, l.id = l'.id ∧ l.userId = l'.userId

section Database

variable {db db' : LabelDb} {table : MediaTable} {user : UserId} {hash : String} {id : Nat}
  {name color : List Char} {now : Time} {row : LabelRow} {a : LabelledMedia}

theorem LabelDb.Later.refl (db : LabelDb) : db.Later db :=
  ⟨Nat.le_refl _, fun l hl => .inr ⟨l, hl, rfl, rfl⟩⟩

theorem LabelDb.Later.of_labels (hnext : db'.nextLabel = db.nextLabel)
    (h : ∀ l ∈ db'.labels, l ∈ db.labels) : db.Later db' :=
  ⟨hnext.ge, fun l hl => .inr ⟨l, h l hl, rfl, rfl⟩⟩

theorem LabelDb.Holds.later (h : db.Holds user id) (hlater : db.Later db') : db'.Holds user id := by
  refine ⟨Nat.lt_of_lt_of_le h.1 hlater.next, fun l' hl' hid => ?_⟩
  rcases hlater.labels l' hl' with hnew | ⟨l, hl, hid', huser⟩
  · have := h.1
    omega
  · rw [← huser]
    exact h.2 l hl (hid'.trans hid)

/-- A label with a new color keeps its place. -/
theorem map_recolored {α : Type} {labels : List LabelRow} {l : LabelRow} (f : LabelRow → α)
    (hids : (labels.map LabelRow.id).Nodup) (hl : l ∈ labels) (hrow : f row = f l) :
    (labels.map fun k => if k.id = l.id then row else k).map f = labels.map f := by
  rw [List.map_map]
  refine List.map_congr_left fun k hk => ?_
  rw [Function.comp_apply]
  split
  next hid => rw [hrow, List.inj_on_of_nodup_map hids hk hl hid]
  next => rfl

theorem upsertLabel_spec {recolor : Bool} (h : LabelInv db)
    (hup : db.upsertLabel user name color recolor now = some (row, db')) :
    LabelInv db' ∧ db.Later db' ∧ row ∈ db'.labels ∧ row.userId = user := by
  unfold LabelDb.upsertLabel at hup
  split at hup
  next => cases hup
  next =>
    split at hup
    next l hfound =>
      have hl := List.mem_of_find?_eq_some hfound
      have hkey : l.userId = user ∧ l.name = name := by simpa using List.find?_some hfound
      cases hup
      let row : LabelRow := if recolor then { l with color := color } else l
      have hid : row.id = l.id := by dsimp only [row]; split <;> rfl
      have huser : row.userId = l.userId := by dsimp only [row]; split <;> rfl
      have hname : row.name = l.name := by dsimp only [row]; split <;> rfl
      have hmem : ∀ k' ∈ db.labels.map fun k => if k.id = l.id then row else k,
          ∃ k ∈ db.labels, k.id = k'.id ∧ k.userId = k'.userId := by
        intro k' hk'
        obtain ⟨k, hk, rfl⟩ := List.mem_map.mp hk'
        split
        next => exact ⟨l, hl, hid.symm, huser.symm⟩
        next => exact ⟨k, hk, rfl, rfl⟩
      have hrow : row ∈ db.labels.map fun k => if k.id = l.id then row else k :=
        List.mem_map.mpr ⟨l, hl, if_pos rfl⟩
      refine ⟨⟨fun k' hk' => ?_, ?_, ?_, h.once, fun t a ha => ?_⟩,
        ⟨Nat.le_succ _, fun k' hk' => .inr (hmem k' hk')⟩, hrow, huser.trans hkey.1⟩
      · obtain ⟨k, hk, hkid, -⟩ := hmem k' hk'
        exact Nat.lt_succ_of_lt (hkid ▸ h.idsLt k hk)
      · rw [map_recolored LabelRow.id h.ids hl hid]
        exact h.ids
      · rw [map_recolored (fun l => (l.userId, l.name)) h.ids hl (Prod.ext huser hname)]
        exact h.names
      · obtain ⟨hmedia, k, hk, hkid, hkuser⟩ := h.owned t a ha
        refine ⟨hmedia, if k.id = l.id then row else k, List.mem_map.mpr ⟨k, hk, rfl⟩, ?_⟩
        split
        next hsame =>
          rw [hid, huser, ← hsame]
          refine ⟨hkid, ?_⟩
          rw [List.inj_on_of_nodup_map h.ids hl hk hsame.symm]
          exact hkuser
        next => exact ⟨hkid, hkuser⟩
    next hnone =>
      cases hup
      have hnew : ∀ l ∈ db.labels, l.id ≠ db.nextLabel := fun l hl => Nat.ne_of_lt (h.idsLt l hl)
      have hfree : ∀ l ∈ db.labels, (l.userId, l.name) ≠ (user, name) := by
        intro l hl heq
        have hno := List.find?_eq_none.mp hnone l hl
        simp [(Prod.mk.inj heq).1, (Prod.mk.inj heq).2] at hno
      refine ⟨⟨fun l hl => ?_, Keyed.nodup_append h.ids hnew, Keyed.nodup_append h.names hfree,
        h.once, fun t a ha => ?_⟩, ⟨Nat.le_succ _, fun l hl => ?_⟩,
        List.mem_append_right _ List.mem_cons_self, rfl⟩
      · rcases List.mem_append.mp hl with hl | hl
        · exact Nat.lt_succ_of_lt (h.idsLt l hl)
        · rw [List.mem_singleton.mp hl]
          exact Nat.lt_succ_self _
      · obtain ⟨hmedia, l, hl, howner⟩ := h.owned t a ha
        exact ⟨hmedia, l, List.mem_append_left _ hl, howner⟩
      · rcases List.mem_append.mp hl with hl | hl
        · exact .inr ⟨l, hl, rfl, rfl⟩
        · rw [List.mem_singleton.mp hl]
          exact .inl (Nat.le_refl _)

theorem putLabel_spec {recolor : Bool} (h : LabelInv db)
    (hput : db.putLabel user name color recolor now = some (row, db')) :
    LabelInv db' ∧ db.Later db' ∧ row ∈ db'.labels ∧ row.userId = user := by
  obtain ⟨name', -, hput⟩ := Option.bind_eq_some_iff.mp hput
  obtain ⟨color', -, hup⟩ := Option.bind_eq_some_iff.mp hput
  exact upsertLabel_spec h hup

theorem deleteLabel_spec (h : LabelInv db) (hdel : db.deleteLabel user id = some db') :
    LabelInv db' ∧ db.Later db' := by
  unfold LabelDb.deleteLabel at hdel
  split at hdel
  next hany =>
    cases hdel
    refine ⟨⟨fun l hl => h.idsLt l (List.mem_of_mem_filter hl),
      h.ids.sublist (List.filter_sublist.map _), h.names.sublist (List.filter_sublist.map _),
      fun t => (h.once t).filter _, fun t a ha => ?_⟩,
      .of_labels rfl fun l hl => List.mem_of_mem_filter hl⟩
    obtain ⟨ha, hne⟩ := List.mem_filter.mp ha
    obtain ⟨hmedia, l, hl, hid, huser⟩ := h.owned t a ha
    refine ⟨hmedia, l, List.mem_filter.mpr ⟨hl, ?_⟩, hid, huser⟩
    have hne' : a.labelId ≠ id := by simpa using hne
    simp [hid, hne']
  next => cases hdel

theorem attach_spec (h : LabelInv db) (hatt : db.attach table a = some db')
    (hholds : db.Holds a.userId a.labelId) : LabelInv db' ∧ db.Later db' := by
  unfold LabelDb.attach at hatt
  split at hatt
  next hkeys =>
    cases hatt
    split
    next => exact ⟨h, .refl db⟩
    next hnew =>
      obtain ⟨m, hm, hmof⟩ := List.any_eq_true.mp hkeys.1
      obtain ⟨l, hl, hlid⟩ := List.any_eq_true.mp hkeys.2
      have hlid' : l.id = a.labelId := by simpa using hlid
      refine ⟨⟨h.idsLt, h.ids, h.names, fun t => ?_, fun t b hb => ?_⟩,
        .of_labels rfl fun l hl => hl⟩
      · dsimp only
        split
        next ht =>
          subst ht
          exact List.nodup_append.mpr ⟨h.once _, List.nodup_singleton a, fun b hb c hc hbc =>
            hnew (List.mem_singleton.mp hc ▸ hbc ▸ hb)⟩
        next => exact h.once t
      · dsimp only at hb
        split at hb
        next ht =>
          subst ht
          rcases List.mem_append.mp hb with hb | hb
          · exact h.owned _ b hb
          · rw [List.mem_singleton.mp hb]
            exact ⟨⟨m, hm, hmof⟩, l, hl, hlid', hholds.2 l hl hlid'⟩
        next => exact h.owned t b hb
  next => cases hatt

theorem detach_spec (h : LabelInv db) (table : MediaTable) (a : LabelledMedia) :
    LabelInv (db.detach table a) ∧ db.Later (db.detach table a) := by
  refine ⟨⟨h.idsLt, h.ids, h.names, fun t => ?_, fun t b hb => ?_⟩, .of_labels rfl fun l hl => hl⟩
  · simp only [LabelDb.detach]
    split
    next => exact (h.once t).filter _
    next => exact h.once t
  · simp only [LabelDb.detach] at hb
    split at hb
    next => exact h.owned t b (List.mem_of_mem_filter hb)
    next => exact h.owned t b hb

/-- Changes of the rows that remove none of them. -/
theorem LabelInv.media (h : LabelInv db) (media : MediaTable → List LabelledRow)
    (hkeep : ∀ t user hash, (∃ m ∈ db.media t, m.isOf user hash) → ∃ m ∈ media t, m.isOf user hash) :
    LabelInv { db with media := media } :=
  ⟨h.idsLt, h.ids, h.names, h.once, fun t a ha =>
    ⟨hkeep t _ _ (h.owned t a ha).1, (h.owned t a ha).2⟩⟩

theorem exists_isOf_map {rows : List LabelledRow} {u : UserId} {k : String} (deleted : Bool)
    (h : ∃ m ∈ rows, m.isOf u k) :
    ∃ m ∈ rows.map fun m => if m.isOf user hash then { m with deleted := deleted } else m,
      m.isOf u k := by
  obtain ⟨m, hm, hof⟩ := h
  refine ⟨_, List.mem_map.mpr ⟨m, hm, rfl⟩, ?_⟩
  split
  next => exact hof
  next => exact hof

theorem putMedia_spec (h : LabelInv db) (hput : db.putMedia table user hash = some db') :
    LabelInv db' ∧ db.Later db' := by
  unfold LabelDb.putMedia at hput
  split at hput
  next => cases hput
  next =>
    cases hput
    refine ⟨h.media _ fun t u k hm => ?_, .of_labels rfl fun l hl => hl⟩
    split
    next => exact hm
    next =>
      split
      next => exact exists_isOf_map false hm
      next =>
        obtain ⟨m, hm, hof⟩ := hm
        exact ⟨m, List.mem_append_left _ hm, hof⟩

theorem setMediaDeleted_spec (h : LabelInv db) (table : MediaTable) (user : UserId) (hash : String)
    (deleted : Bool) : LabelInv (db.setMediaDeleted table user hash deleted) ∧
      db.Later (db.setMediaDeleted table user hash deleted) := by
  refine ⟨h.media _ fun t u k hm => ?_, .of_labels rfl fun l hl => hl⟩
  split
  next => exact hm
  next => exact exists_isOf_map deleted hm

theorem deleteUser_spec (h : LabelInv db) (user : UserId) :
    LabelInv (db.deleteUser user) ∧ db.Later (db.deleteUser user) := by
  refine ⟨⟨fun l hl => h.idsLt l (List.mem_of_mem_filter hl),
    h.ids.sublist (List.filter_sublist.map _), h.names.sublist (List.filter_sublist.map _),
    fun t => (h.once t).filter _, fun t a ha => ?_⟩,
    .of_labels rfl fun l hl => List.mem_of_mem_filter hl⟩
  obtain ⟨ha, hkeep⟩ := List.mem_filter.mp ha
  have hne : a.userId ≠ user := (of_decide_eq_true hkeep).1
  obtain ⟨⟨m, hm, hof⟩, l, hl, hid, howner⟩ := h.owned t a ha
  have hmuser : m.userId = a.userId := by
    have := (Bool.and_eq_true_iff.mp hof).1
    simpa using this
  refine ⟨⟨m, List.mem_filter.mpr ⟨hm, ?_⟩, hof⟩, l, List.mem_filter.mpr ⟨hl, ?_⟩, hid, howner⟩
  · simpa [hmuser] using hne
  · simpa [howner] using hne

end Database

section States

variable {s s' : LabelState} {e : LabelEvent} {es : List LabelEvent}

theorem LabelStateInv.quiet {db : LabelDb} {replies : List (UserId × LabelReply)}
    (h : LabelStateInv s) (hdb : LabelInv db ∧ s.db.Later db) :
    LabelStateInv ⟨db, s.tasks, replies⟩ :=
  ⟨hdb.1, fun task htask id hid => (h.tasks task htask id hid).later hdb.2⟩

theorem LabelStateInv.goOn {db : LabelDb} {replies : List (UserId × LabelReply)} {i : Nat}
    {task : LabelTask} (h : LabelStateInv s) (hdb : LabelInv db ∧ s.db.Later db)
    (htask : ∀ id ∈ task.ids, db.Holds task.user id) :
    LabelStateInv ⟨db, s.tasks.set i task, replies⟩ := by
  refine ⟨hdb.1, fun other hother id hid => ?_⟩
  rcases List.mem_or_eq_of_mem_set hother with hother | rfl
  · exact (h.tasks other hother id hid).later hdb.2
  · exact htask id hid

theorem LabelStateInv.begin {task : LabelTask} (h : LabelStateInv s) (htask : task.ids = []) :
    LabelStateInv { s with tasks := s.tasks ++ [task] } := by
  refine ⟨h.db, fun other hother id hid => ?_⟩
  rcases List.mem_append.mp hother with hother | hother
  · exact h.tasks other hother id hid
  · rw [List.mem_singleton.mp hother, htask] at hid
    cases hid

theorem queryStep_spec {db' : LabelDb} {task task' : LabelTask} {replies : List LabelReply}
    (h : LabelInv s.db) (htask : ∀ id ∈ task.ids, s.db.Holds task.user id)
    (hq : queryStep s.db task = some (db', task', replies)) :
    (LabelInv db' ∧ s.db.Later db') ∧ ∀ id ∈ task'.ids, db'.Holds task'.user id := by
  cases task with
  | checkMedia table user hash labelId =>
    rw [queryStep] at hq
    split at hq <;> cases hq <;> exact ⟨⟨h, .refl _⟩, nofun⟩
  | checkLabel table user hash labelId =>
    rw [queryStep] at hq
    split at hq
    next hexists =>
      cases hq
      refine ⟨⟨h, .refl _⟩, fun id hid => ?_⟩
      rw [List.mem_singleton.mp hid]
      obtain ⟨l, hl, hlid⟩ := List.any_eq_true.mp hexists
      have hlid' : l.id = labelId ∧ l.userId = user := by simpa using hlid
      refine ⟨hlid'.1 ▸ h.idsLt l hl, fun k hk hkid => ?_⟩
      rw [List.inj_on_of_nodup_map h.ids hk hl (hkid.trans hlid'.1.symm)]
      exact hlid'.2
    next =>
      cases hq
      exact ⟨⟨h, .refl _⟩, nofun⟩
  | insert table user hash labelId =>
    rw [queryStep] at hq
    split at hq
    next db'' hatt =>
      cases hq
      exact ⟨attach_spec h hatt (htask labelId List.mem_cons_self), nofun⟩
    next =>
      cases hq
      exact ⟨⟨h, .refl _⟩, nofun⟩
  | importing | ended => cases hq

theorem mem_of_lookup {cache : List (List Char × Nat)} {name : List Char} {id : Nat}
    (h : cache.lookup name = some id) : id ∈ cache.map Prod.snd := by
  induction cache with
  | nil => cases h
  | cons entry cache ih =>
    rw [List.lookup_cons] at h
    split at h
    next =>
      cases h
      exact List.mem_cons_self
    next => exact List.mem_cons_of_mem _ (ih h)

theorem labelStateInv_step (h : LabelStateInv s) (hstep : labelStep s e = some s') :
    LabelStateInv s' := by
  cases e with
  | newUser user =>
    cases hstep
    exact h.quiet ⟨⟨h.db.idsLt, h.db.ids, h.db.names, h.db.once, h.db.owned⟩,
      .of_labels rfl fun l hl => hl⟩
  | deleteUser user =>
    cases hstep
    exact h.quiet (deleteUser_spec h.db user)
  | putMedia table user hash =>
    obtain ⟨db, hput, rfl⟩ := Option.map_eq_some_iff.mp hstep
    exact h.quiet (putMedia_spec h.db hput)
  | setMediaDeleted table user hash deleted =>
    cases hstep
    exact h.quiet (setMediaDeleted_spec h.db table user hash deleted)
  | createLabel user name color now =>
    rw [labelStep] at hstep
    split at hstep
    next =>
      cases hstep
      exact h.quiet ⟨h.db, .refl _⟩
    next =>
      split at hstep
      next row db hup =>
        cases hstep
        obtain ⟨hdb, hlater, -⟩ := putLabel_spec h.db hup
        exact h.quiet ⟨hdb, hlater⟩
      next =>
        cases hstep
        exact h.quiet ⟨h.db, .refl _⟩
  | deleteLabel user id =>
    rw [labelStep] at hstep
    split at hstep
    next db hdel =>
      cases hstep
      exact h.quiet (deleteLabel_spec h.db hdel)
    next =>
      cases hstep
      exact h.quiet ⟨h.db, .refl _⟩
  | removeLabel table user hash labelId =>
    cases hstep
    exact h.quiet (detach_spec h.db table _)
  | addLabel table user hash labelId =>
    cases hstep
    exact h.begin rfl
  | query i =>
    obtain ⟨task, htask, hstep⟩ := Option.bind_eq_some_iff.mp hstep
    obtain ⟨⟨db, task', replies⟩, hq, rfl⟩ := Option.map_eq_some_iff.mp hstep
    obtain ⟨hdb, hids⟩ := queryStep_spec h.db (h.tasks task (List.mem_of_getElem? htask)) hq
    exact h.goOn hdb hids
  | queryFails i =>
    obtain ⟨task, -, rfl⟩ := Option.map_eq_some_iff.mp hstep
    exact h.goOn ⟨h.db, .refl _⟩ nofun
  | startImport user =>
    cases hstep
    exact h.begin rfl
  | importName i name now =>
    rw [labelStep] at hstep
    split at hstep
    next user cache htask =>
      split at hstep
      next =>
        split at hstep
        next row db hup =>
          cases hstep
          obtain ⟨hdb, hlater, hrow, huser⟩ := putLabel_spec h.db hup
          refine h.goOn ⟨hdb, hlater⟩ fun id hid => ?_
          rw [LabelTask.ids, List.map_append] at hid
          rcases List.mem_append.mp hid with hid | hid
          · exact (h.tasks _ (List.mem_of_getElem? htask) id hid).later hlater
          · rw [List.mem_singleton.mp hid]
            refine ⟨hdb.idsLt row hrow, fun l hl hid => ?_⟩
            rw [List.inj_on_of_nodup_map hdb.ids hl hrow hid]
            exact huser
        next =>
          cases hstep
          exact h
      next => cases hstep
    next => cases hstep
  | importAttach i name table hash =>
    rw [labelStep] at hstep
    split at hstep
    next user cache htask =>
      obtain ⟨id, hlookup, rfl⟩ := Option.map_eq_some_iff.mp hstep
      have hholds := h.tasks _ (List.mem_of_getElem? htask) id (mem_of_lookup hlookup)
      cases hatt : s.db.attach table ⟨hash, user, id⟩ with
      | none => exact h.quiet ⟨h.db, .refl _⟩
      | some db => exact h.quiet (attach_spec h.db hatt hholds)
    next => cases hstep

theorem labelStateInv_run (h : Runs.exec labelStep .init es = some s) : LabelStateInv s := by
  have hinit : LabelStateInv .init :=
    ⟨⟨nofun, List.nodup_nil, List.nodup_nil, fun _ => List.nodup_nil, nofun⟩, nofun⟩
  exact Runs.exec_invariant_of_step (fun _ _ _ => labelStateInv_step) hinit h

/-- However requests and imports are interleaved: ids and names of labels stay unique, and only a
user's own labels are attached to the user's rows. -/
theorem labels_owned (h : Runs.exec labelStep .init es = some s) : LabelInv s.db :=
  (labelStateInv_run h).db

/-- Two users, an import and a request at a time when the label of another user is deleted. -/
theorem labels_owned_sample : ∃ s, Runs.exec labelStep .init
    [.newUser 1, .newUser 2, .putMedia .images 1 "cafe", .putMedia .images 2 "cafe",
      .createLabel 1 "trip".toList "#112233".toList 5, .startImport 2,
      .addLabel .images 1 "cafe" 1, .importName 0 "2023".toList 6, .query 1, .query 1,
      .importAttach 0 "2023".toList .images "cafe", .deleteLabel 2 1, .query 1,
      .deleteLabel 2 2] = some s ∧ LabelInv s.db := by
  obtain ⟨s, hs⟩ := Option.isSome_iff_exists.mp (by decide +kernel : (Runs.exec labelStep .init
    [.newUser 1, .newUser 2, .putMedia .images 1 "cafe", .putMedia .images 2 "cafe",
      .createLabel 1 "trip".toList "#112233".toList 5, .startImport 2,
      .addLabel .images 1 "cafe" 1, .importName 0 "2023".toList 6, .query 1, .query 1,
      .importAttach 0 "2023".toList .images "cafe", .deleteLabel 2 1, .query 1,
      .deleteLabel 2 2]).isSome)
  exact ⟨s, hs, labels_owned hs⟩

end States

end Reminisce

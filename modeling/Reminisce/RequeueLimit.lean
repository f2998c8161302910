import Reminisce.Generations

namespace Reminisce

/-- The inner query of `requeue_under_replicated`: no condition but the number of shards.
`order` are the rows of the table in the order of their `created_at`. -/
def oldestUnderReplicated (db : Database) (now : Time) (targetShards limit : Nat)
    (order : List MediaRow) : List MediaRow :=
  (order.filter fun row => reachableShards db now row.hash < targetShards).take limit

/-- The rows that the inner query would give beyond its limit. -/
def beyondLimit (db : Database) (now : Time) (targetShards limit : Nat) (order : List MediaRow) :
    List MediaRow :=
  (order.filter fun row => reachableShards db now row.hash < targetShards).drop limit

/-- A file that is live, synced, past the cooldown of its last attempt, and short of shards. -/
def requeueable (db : Database) (now : Time) (targetShards : Nat) (row : MediaRow) : Bool :=
  decide (row.deletedAt = none ∧ row.p2pSyncedAt ≠ none ∧ cooledDown now row ∧
    reachableShards db now row.hash < targetShards)

def requeueableCount (db : Database) (now : Time) (targetShards : Nat) (table : MediaTable) : Nat :=
  (db.media table).countP (requeueable db now targetShards)

/-- The number of rows that the statement for the table changes. -/
def requeuedCount (db : Database) (now : Time) (targetShards : Nat) (oldest : List String)
    (table : MediaTable) : Nat :=
  (db.media table).countP fun row =>
    requeueable db now targetShards row && oldest.contains row.hash

/-- A call: the rows of each table in the order of their `created_at`. -/
abbrev RequeueCall := MediaTable → List MediaRow

def RequeueCall.oldest (call : RequeueCall) (db : Database) (now : Time) (targetShards limit : Nat)
    (table : MediaTable) : List String :=
  (oldestUnderReplicated db now targetShards limit (call table)).map (·.hash)

def requeueCall (now : Time) (targetShards limit : Nat) (db : Database) (call : RequeueCall) :
    Option Database :=
  if (call .images).isPerm db.images ∧ (call .videos).isPerm db.videos then
    some (requeueUnderReplicated db now targetShards (call.oldest db now targetShards limit))
  else none

/-- How many rows within the limit are not requeueable. -/
def placesLost (db : Database) (now : Time) (targetShards limit : Nat) (order : List MediaRow) :
    Nat :=
  (oldestUnderReplicated db now targetShards limit order).countP fun row =>
    !requeueable db now targetShards row

/-- How many requeueable rows beyond the limit share their hash with a row within it. -/
def sharedBeyond (db : Database) (now : Time) (targetShards limit : Nat) (order : List MediaRow) :
    Nat :=
  (beyondLimit db now targetShards limit order).countP fun row =>
    requeueable db now targetShards row &&
      ((oldestUnderReplicated db now targetShards limit order).map (·.hash)).contains row.hash

/-- How many other requeueable rows are beyond the limit. -/
def leftBeyond (db : Database) (now : Time) (targetShards limit : Nat) (order : List MediaRow) :
    Nat :=
  (beyondLimit db now targetShards limit order).countP fun row =>
    requeueable db now targetShards row &&
      !((oldestUnderReplicated db now targetShards limit order).map (·.hash)).contains row.hash

/-- No place of the limit is lost while a requeueable row is left beyond it; rows that share a hash
make up for lost places, and there are no more of them. -/
def LimitUsed (db : Database) (now : Time) (targetShards limit : Nat) (order : List MediaRow) :
    Prop :=
  sharedBeyond db now targetShards limit order ≤ placesLost db now targetShards limit order ∧
    (leftBeyond db now targetShards limit order = 0 ∨
      sharedBeyond db now targetShards limit order = placesLost db now targetShards limit order)

instance (db : Database) (now : Time) (targetShards limit : Nat) (order : List MediaRow) :
    Decidable (LimitUsed db now targetShards limit order) := inferInstanceAs (Decidable (_ ∧ _))

variable {db t : Database} {now : Time} {targetShards limit : Nat} {order : List MediaRow}
  {table : MediaTable} {oldest : List String} {row : MediaRow}

theorem requeueable_short (h : requeueable db now targetShards row = true) :
    reachableShards db now row.hash < targetShards := (of_decide_eq_true h).2.2.2

/-- The statement resets the rows that `requeuedCount` counts. -/
theorem requeueTable_eq (rows : List MediaRow) : requeueTable db now targetShards oldest rows =
    rows.map fun row =>
      if (requeueable db now targetShards row && oldest.contains row.hash) = true then
        { row with p2pSyncedAt := none } else row := by
  refine List.map_congr_left fun row _ => if_congr ?_ rfl rfl
  simp only [requeueable, Bool.and_eq_true, decide_eq_true_eq, List.contains_iff_mem]
  tauto

theorem countP_split (p q : MediaRow → Bool) (rows : List MediaRow) :
    rows.countP p = rows.countP (fun row => p row && q row) +
      rows.countP (fun row => p row && !q row) := by
  rw [List.countP_eq_countP_filter_add rows p q, List.countP_filter, List.countP_filter]

/-- What counts only rows short of shards can be counted within the limit and beyond it. -/
theorem countP_limit {p : MediaRow → Bool}
    (hp : ∀ row, p row = true → reachableShards db now row.hash < targetShards) (limit : Nat)
    (order : List MediaRow) :
    order.countP p = (oldestUnderReplicated db now targetShards limit order).countP p +
      (beyondLimit db now targetShards limit order).countP p := by
  unfold oldestUnderReplicated beyondLimit
  rw [← List.countP_append, List.take_append_drop, List.countP_filter]
  refine List.countP_congr fun row _ => ?_
  rw [Bool.and_eq_true, decide_eq_true_eq]
  exact ⟨fun h => ⟨h, hp row h⟩, fun h => h.1⟩

/-- Every place within the limit is lost or used. -/
theorem places_count (db : Database) (now : Time) (targetShards limit : Nat)
    (order : List MediaRow) :
    (oldestUnderReplicated db now targetShards limit order).countP (requeueable db now targetShards) +
      placesLost db now targetShards limit order =
        (oldestUnderReplicated db now targetShards limit order).length := by
  rw [List.length_eq_countP_add_countP (requeueable db now targetShards)]
  simp only [placesLost, decide_not, Bool.decide_eq_true]

/-- The limit is reached, or nothing is beyond it. -/
theorem limit_reached (db : Database) (now : Time) (targetShards limit : Nat)
    (order : List MediaRow) :
    (oldestUnderReplicated db now targetShards limit order).length ≤ limit ∧
      ((oldestUnderReplicated db now targetShards limit order).length = limit ∨
        beyondLimit db now targetShards limit order = []) := by
  unfold oldestUnderReplicated beyondLimit
  generalize order.filter (fun row => reachableShards db now row.hash < targetShards) = rows
  rw [List.length_take]
  refine ⟨Nat.min_le_left _ _, ?_⟩
  by_cases hle : rows.length ≤ limit
  · exact Or.inr (List.drop_of_length_le hle)
  · exact Or.inl (Nat.min_eq_left (by omega))

/-- All requeueable rows within the limit are reset, and those beyond it that share a hash. -/
theorem requeuedCount_eq (hp : order.Perm (db.media table)) :
    requeuedCount db now targetShards
        ((oldestUnderReplicated db now targetShards limit order).map (·.hash)) table =
      (oldestUnderReplicated db now targetShards limit order).countP
          (requeueable db now targetShards) + sharedBeyond db now targetShards limit order := by
  unfold requeuedCount
  rw [← hp.countP_eq, countP_limit (fun row h => requeueable_short (Bool.and_eq_true_iff.mp h).1)
    limit order]
  congr 1
  refine List.countP_congr fun row hrow => ?_
  have hhash : ((oldestUnderReplicated db now targetShards limit order).map (·.hash)).contains
      row.hash = true := List.contains_iff_mem.mpr (List.mem_map_of_mem hrow)
  rw [hhash, Bool.and_true]

theorem requeueableCount_eq (hp : order.Perm (db.media table)) (limit : Nat) :
    requeueableCount db now targetShards table =
      (oldestUnderReplicated db now targetShards limit order).countP
          (requeueable db now targetShards) + sharedBeyond db now targetShards limit order +
        leftBeyond db now targetShards limit order := by
  unfold requeueableCount sharedBeyond leftBeyond
  rw [← hp.countP_eq, countP_limit (fun _ => requeueable_short) limit order, Nat.add_assoc,
    ← countP_split]

/-- A call resets as many rows of a table as the limit and the requeueable rows allow if and only if
it uses its limit. -/
theorem requeued_eq_min_iff (hp : order.Perm (db.media table)) :
    requeuedCount db now targetShards
        ((oldestUnderReplicated db now targetShards limit order).map (·.hash)) table =
      min limit (requeueableCount db now targetShards table) ↔
        LimitUsed db now targetShards limit order := by
  have hplaces := places_count db now targetShards limit order
  obtain ⟨hle, hreached⟩ := limit_reached db now targetShards limit order
  rw [requeuedCount_eq hp, requeueableCount_eq hp limit]
  unfold LimitUsed
  rcases hreached with hfull | hnone
  · omega
  · have hshared : sharedBeyond db now targetShards limit order = 0 := by simp [sharedBeyond, hnone]
    have hleft : leftBeyond db now targetShards limit order = 0 := by simp [leftBeyond, hnone]
    omega

theorem requeueCall_perm {call : RequeueCall}
    (h : requeueCall now targetShards limit db call = some t) (table : MediaTable) :
    (call table).Perm (db.media table) := by
  unfold requeueCall at h
  split at h
  next hperm =>
    cases table with
    | images => exact List.isPerm_iff.mp hperm.1
    | videos => exact List.isPerm_iff.mp hperm.2
  next => cases h

/-- Of the requeueable rows those are left that were not reset. -/
theorem requeueableCount_after {call : RequeueCall}
    (h : requeueCall now targetShards limit db call = some t) (table : MediaTable) :
    requeuedCount db now targetShards (call.oldest db now targetShards limit table) table +
      requeueableCount t now targetShards table = requeueableCount db now targetShards table := by
  unfold requeueCall at h
  split at h
  next =>
    cases Option.some.inj h
    unfold requeueableCount requeuedCount
    rw [countP_split (requeueable db now targetShards)
      (fun row => (call.oldest db now targetShards limit table).contains row.hash)]
    congr 1
    have hmedia : (requeueUnderReplicated db now targetShards
        (call.oldest db now targetShards limit)).media table =
          requeueTable db now targetShards (call.oldest db now targetShards limit table)
            (db.media table) := by
      cases table <;> rfl
    rw [hmedia, requeueTable_eq, List.countP_map]
    refine List.countP_congr fun row _ => ?_
    have hsame : ∀ row, requeueable (requeueUnderReplicated db now targetShards
        (call.oldest db now targetShards limit)) now targetShards row =
          requeueable db now targetShards row := fun _ => rfl
    rw [Function.comp_apply, hsame]
    cases hhit : (requeueable db now targetShards row &&
        (call.oldest db now targetShards limit table).contains row.hash) with
    | true =>
      have hcontains := (Bool.and_eq_true_iff.mp hhit).2
      simp only [if_true, hcontains, Bool.not_true, Bool.and_false]
      simp [requeueable]
    | false =>
      simp only [Bool.false_eq_true, if_false]
      cases hrow : requeueable db now targetShards row with
      | false => simp
      | true =>
        rw [hrow, Bool.true_and] at hhit
        simp only [hhit, Bool.not_false, Bool.and_self]
  next => cases h

/-- Calls that use their limit requeue the rows, that many at a time. -/
theorem requeueable_after_calls {calls : List RequeueCall}
    (h : Runs.exec (requeueCall now targetShards limit) db calls = some t)
    (hused : Runs.Meets (requeueCall now targetShards limit)
      (fun db call => ∀ table, LimitUsed db now targetShards limit (call table)) db calls)
    (table : MediaTable) : requeueableCount t now targetShards table =
      requeueableCount db now targetShards table - calls.length * limit := by
  induction calls generalizing db with
  | nil =>
    cases Option.some.inj h
    simp
  | cons call calls ih =>
    obtain ⟨mid, hcall, hrest⟩ := Runs.exec_cons h
    have hreset : requeuedCount db now targetShards
        (call.oldest db now targetShards limit table) table =
          min limit (requeueableCount db now targetShards table) :=
      (requeued_eq_min_iff (requeueCall_perm hcall table)).mpr (hused.1 table)
    have hafter := requeueableCount_after hcall table
    rw [ih hrest (hused.2 mid hcall), List.length_cons, Nat.succ_mul]
    omega

/-- A call resets as many rows of each table as the limit and the requeueable rows allow if and only
if it uses its limit there; and repeated calls that do so come to every requeueable row. -/
theorem requeue_limit_iff (db : Database) (now : Time) (targetShards limit : Nat) :
    (∀ call t, requeueCall now targetShards limit db call = some t → ∀ table,
      (requeuedCount db now targetShards (call.oldest db now targetShards limit table) table =
          min limit (requeueableCount db now targetShards table) ↔
        LimitUsed db now targetShards limit (call table))) ∧
    ∀ calls t, Runs.exec (requeueCall now targetShards limit) db calls = some t →
      Runs.Meets (requeueCall now targetShards limit)
        (fun db call => ∀ table, LimitUsed db now targetShards limit (call table)) db calls →
      ∀ table, requeueableCount t now targetShards table =
        requeueableCount db now targetShards table - calls.length * limit :=
  ⟨fun _ _ hcall table => requeued_eq_min_iff (requeueCall_perm hcall table),
    fun _ _ hrun hused => requeueable_after_calls hrun hused⟩

/-- Two images without shards; the older one is not synced, as after a loss of its local file. -/
def olderImage : MediaRow := { sampleRow with hash := "0a", p2pLastAttemptAt := some 0 }

def newerImage : MediaRow := { sampleRow with hash := "0b", p2pSyncedAt := some 0 }

def imagesOnly (images : List MediaRow) : Database :=
  { images, videos := [], p2pShards := [], p2pNodes := [], nextShardId := 0 }

/-- The call that finds the images in the order of the table. -/
def inOrder (images : List MediaRow) : RequeueCall
  | .images => images
  | .videos => []

theorem requeue_limit_example :
    requeuedCount (imagesOnly [newerImage]) 0 3
      ((inOrder [newerImage]).oldest (imagesOnly [newerImage]) 0 3 1 .images) .images = 1 := by
  have hcall : ∃ t, requeueCall 0 3 1 (imagesOnly [newerImage]) (inOrder [newerImage]) = some t := by
    refine ⟨_, if_pos ⟨?_, ?_⟩⟩ <;> decide
  obtain ⟨t, hcall⟩ := hcall
  exact ((requeue_limit_iff (imagesOnly [newerImage]) 0 3 1).1 _ t hcall .images).mpr (by decide)

/-- The older image takes the only place and is not reset, in this call and in every later one. -/
theorem older_image_blocks_requeue :
    requeueableCount (imagesOnly [olderImage, newerImage]) 0 3 .images = 1 ∧
      requeuedCount (imagesOnly [olderImage, newerImage]) 0 3
        ((inOrder [olderImage, newerImage]).oldest (imagesOnly [olderImage, newerImage]) 0 3 1
          .images) .images = 0 ∧
      ∀ n, Runs.exec (requeueCall 0 3 1) (imagesOnly [olderImage, newerImage])
        (List.replicate n (inOrder [olderImage, newerImage])) =
          some (imagesOnly [olderImage, newerImage]) := by
  refine ⟨by decide, by decide, fun n => ?_⟩
  have hcall : requeueCall 0 3 1 (imagesOnly [olderImage, newerImage])
      (inOrder [olderImage, newerImage]) = some (imagesOnly [olderImage, newerImage]) := by
    decide
  induction n with
  | zero => rfl
  | succ n ih =>
    rw [List.replicate_succ, Runs.exec, hcall]
    exact ih

end Reminisce

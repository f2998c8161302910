import Reminisce.Database
import Reminisce.Library.Results

namespace Reminisce

open Results

/-- `SELECT ... FROM table WHERE hash = $1`, deleted rows included. -/
def Database.rowsWithHash (db : Database) (table : MediaTable) (hash : String) : List MediaRow :=
  (db.media table).filter (·.hash = hash)

/-- `SELECT count(*) FROM p2p_shards WHERE file_hash = $1`. -/
def Database.shardCount (db : Database) (fileHash : String) : Nat :=
  (db.p2pShards.filter (·.fileHash = fileHash)).length

/-- The CTE `synced_files`. -/
def Database.syncedFiles (db : Database) : List String :=
  ((db.images ++ db.videos).filter (·.p2pSyncedAt ≠ none)).map (·.hash)

/-- A subquery used as an expression: NULL without a row, an error with several. -/
def scalarSubquery : List (Option Int) → Except String (Option Int)
  | [] => .ok none
  | [value] => .ok value
  | _ => .error "more than one row returned by a subquery used as an expression"

/-- `COALESCE` over the two subqueries and 3; the second is only run when the first is NULL. -/
def Database.requiredShards (db : Database) (hash : String) : Except String Int := do
  match ← scalarSubquery ((db.rowsWithHash .images hash).map (·.p2pDataShards)) with
  | some dataShards => pure dataShards
  | none =>
    match ← scalarSubquery ((db.rowsWithHash .videos hash).map (·.p2pDataShards)) with
    | some dataShards => pure dataShards
    | none => pure 3

/-- The `WHERE` clause; a file without shard rows joins to NULL. -/
def Database.undersharded (db : Database) (hash : String) : Except String Bool := do
  if db.shardCount hash = 0 then pure true
  else
    let required ← db.requiredShards hash
    pure (decide ((db.shardCount hash : Int) < required))

/-- `find_undersharded_files`; `order` is the order in which the database happens to produce
the synced files. -/
def findUndershardedFiles (db : Database) (order : List String) (limit : Int) :
    Except String (List String) :=
  if limit < 0 then .error "LIMIT must not be negative"
  else filterLimit db.undersharded limit.toNat order

/-- The data shards a media row asks for. -/
def MediaRow.needs (row : MediaRow) : Int := row.p2pDataShards.getD 3

/-- A live synced row with fewer recorded shards than it needs. -/
def Database.LiveUndersharded (db : Database) (row : MediaRow) : Prop :=
  row ∈ db.images ++ db.videos ∧ row.deletedAt = none ∧ row.p2pSyncedAt ≠ none ∧
    (db.shardCount row.hash : Int) < row.needs

/-- Whatever the order of the rows and the limit, the query is answered, and with all the
live under-sharded files unless the limit is reached. -/
def FindsUndersharded (db : Database) : Prop :=
  ∀ (order : List String) (limit : Int), order.Perm db.syncedFiles → 0 ≤ limit →
    ∃ found, findUndershardedFiles db order limit = .ok found ∧
      ((found.length : Int) < limit → ∀ row, db.LiveUndersharded row → row.hash ∈ found)

/-- The rows that the subqueries read for a hash: one in `images` at most, and one in `videos`
at most when that one records no geometry. -/
def Database.OneGeometryRow (db : Database) (hash : String) : Prop :=
  (db.rowsWithHash .images hash).length ≤ 1 ∧
    ((∀ row ∈ db.rowsWithHash .images hash, row.p2pDataShards = none) →
      (db.rowsWithHash .videos hash).length ≤ 1)

/-- The first geometry recorded for a hash, images before videos. -/
def Database.firstGeometry (db : Database) (hash : String) : Int :=
  ((db.rowsWithHash .images hash ++ db.rowsWithHash .videos hash).findSome?
    (·.p2pDataShards)).getD 3

/-- No synced file with shards is looked up ambiguously, and none that is live and short of
shards shares its hash with a row that is looked up first and asks for no more than there are. -/
structure Database.GeometryUnshared (db : Database) : Prop where
  one : ∀ hash ∈ db.syncedFiles, 0 < db.shardCount hash → db.OneGeometryRow hash
  agree : ∀ row, db.LiveUndersharded row → 0 < db.shardCount row.hash →
    (db.shardCount row.hash : Int) < db.firstGeometry row.hash

variable {db : Database} {hash : String}

theorem scalarSubquery_ok {values : List (Option Int)} {value : Option Int}
    (h : scalarSubquery values = .ok value) :
    values.length ≤ 1 ∧ values.findSome? id = value := by
  unfold scalarSubquery at h
  split at h
  next =>
    cases Except.ok.inj h
    simp
  next =>
    cases Except.ok.inj h
    cases value <;> simp
  next => simp at h

theorem scalarSubquery_exists {values : List (Option Int)} (h : values.length ≤ 1) :
    scalarSubquery values = .ok (values.findSome? id) := by
  match values with
  | [] => rfl
  | [none] => rfl
  | [some value] => rfl
  | _ :: _ :: _ =>
    simp only [List.length_cons] at h
    omega

theorem findSome_map_dataShards (rows : List MediaRow) :
    (rows.map (·.p2pDataShards)).findSome? id = rows.findSome? (·.p2pDataShards) := by
  rw [List.findSome?_map]
  rfl

theorem requiredShards_ok {required : Int} (h : db.requiredShards hash = .ok required) :
    db.OneGeometryRow hash ∧ required = db.firstGeometry hash := by
  obtain ⟨image, hi, h⟩ := bind_ok h
  obtain ⟨hione, himage⟩ := scalarSubquery_ok hi
  rw [findSome_map_dataShards] at himage
  rw [List.length_map] at hione
  cases image with
  | some dataShards =>
    cases Except.ok.inj h
    obtain ⟨row, hrow, hdata⟩ := List.exists_of_findSome?_eq_some himage
    refine ⟨⟨hione, fun hnone => ?_⟩, ?_⟩
    · rw [hnone row hrow] at hdata
      simp at hdata
    · simp [Database.firstGeometry, List.findSome?_append, himage]
  | none =>
    obtain ⟨video, hv, h⟩ := bind_ok h
    obtain ⟨hvone, hvideo⟩ := scalarSubquery_ok hv
    rw [findSome_map_dataShards] at hvideo
    rw [List.length_map] at hvone
    refine ⟨⟨hione, fun _ => hvone⟩, ?_⟩
    cases video with
    | some dataShards =>
      cases Except.ok.inj h
      simp [Database.firstGeometry, List.findSome?_append, himage, hvideo]
    | none =>
      cases Except.ok.inj h
      simp [Database.firstGeometry, List.findSome?_append, himage, hvideo]

theorem requiredShards_exists (h : db.OneGeometryRow hash) :
    ∃ required, db.requiredShards hash = .ok required := by
  have himages : scalarSubquery ((db.rowsWithHash .images hash).map (·.p2pDataShards)) =
      .ok ((db.rowsWithHash .images hash).findSome? (·.p2pDataShards)) := by
    rw [scalarSubquery_exists (by simpa using h.1), findSome_map_dataShards]
  unfold Database.requiredShards
  rw [himages, ok_bind]
  cases hfirst : (db.rowsWithHash .images hash).findSome? (·.p2pDataShards) with
  | some dataShards => exact ⟨dataShards, rfl⟩
  | none =>
    have hone : (db.rowsWithHash .videos hash).length ≤ 1 := by
      apply h.2
      exact List.findSome?_eq_none_iff.mp hfirst
    simp only
    rw [scalarSubquery_exists (by simpa using hone), ok_bind]
    split <;> exact ⟨_, rfl⟩

/-- What the `WHERE` clause computes for one file. -/
theorem undersharded_ok {b : Bool} (h : db.undersharded hash = .ok b) :
    (db.shardCount hash = 0 ∧ b = true) ∨ (0 < db.shardCount hash ∧ db.OneGeometryRow hash ∧
      (b = true ↔ (db.shardCount hash : Int) < db.firstGeometry hash)) := by
  unfold Database.undersharded at h
  split at h
  next hzero => exact Or.inl ⟨hzero, (Except.ok.inj h).symm⟩
  next hpos =>
    obtain ⟨required, hr, h⟩ := bind_ok h
    cases Except.ok.inj h
    obtain ⟨hone, rfl⟩ := requiredShards_ok hr
    exact Or.inr ⟨by omega, hone, by simp⟩

theorem undersharded_exists (h : 0 < db.shardCount hash → db.OneGeometryRow hash) :
    ∃ b, db.undersharded hash = .ok b := by
  unfold Database.undersharded
  split
  next => exact ⟨true, rfl⟩
  next hpos =>
    obtain ⟨required, hr⟩ := requiredShards_exists (h (by omega))
    rw [hr]
    exact ⟨_, rfl⟩

theorem Database.LiveUndersharded.synced {row : MediaRow} (h : db.LiveUndersharded row) :
    row.hash ∈ db.syncedFiles := by
  obtain ⟨hmem, _, hsync, _⟩ := h
  refine List.mem_map.mpr ⟨row, List.mem_filter.mpr ⟨hmem, ?_⟩, rfl⟩
  simpa using hsync

theorem findsUndersharded_of_unshared (h : db.GeometryUnshared) : FindsUndersharded db := by
  intro order limit hperm hlimit
  have hok : ∀ hash ∈ order, ∃ b, db.undersharded hash = .ok b := by
    intro hash hhash
    exact undersharded_exists (h.one hash (hperm.mem_iff.mp hhash))
  obtain ⟨found, hfound, hall⟩ := filterLimit_complete hok limit.toNat
  have hnonneg : ¬ limit < 0 := by omega
  refine ⟨found, by rw [findUndershardedFiles, if_neg hnonneg, hfound], fun hlt row hrow => ?_⟩
  have hmem : row.hash ∈ order := hperm.mem_iff.mpr hrow.synced
  apply hall (by omega) row.hash hmem
  obtain ⟨b, hb⟩ := hok row.hash hmem
  rcases undersharded_ok hb with ⟨_, rfl⟩ | ⟨hpos, _, hiff⟩
  · exact hb
  · rw [hb, hiff.mpr (h.agree row hrow hpos)]

/-- A file whose lookup fails is met first in some order. -/
theorem oneGeometryRow_of_finds (h : FindsUndersharded db) {hash : String}
    (hsync : hash ∈ db.syncedFiles) (hpos : 0 < db.shardCount hash) : db.OneGeometryRow hash := by
  obtain ⟨before, after, hsplit⟩ := List.append_of_mem hsync
  have hperm : (hash :: (before ++ after)).Perm db.syncedFiles := by
    rw [hsplit]
    exact List.perm_middle.symm
  obtain ⟨found, hfound, _⟩ := h _ 1 hperm (by decide)
  obtain ⟨b, hb, _⟩ := bind_ok hfound
  rcases undersharded_ok hb with ⟨hzero, _⟩ | ⟨_, hone, _⟩
  · omega
  · exact hone

theorem findsUndersharded_iff : FindsUndersharded db ↔ db.GeometryUnshared := by
  refine ⟨fun h => ⟨fun hash hsync hpos => oneGeometryRow_of_finds h hsync hpos, ?_⟩,
    findsUndersharded_of_unshared⟩
  intro row hrow hpos
  obtain ⟨found, hfound, hall⟩ := h db.syncedFiles (db.syncedFiles.length + 1) (List.Perm.refl _)
    (by omega)
  have hnonneg : ¬ ((db.syncedFiles.length : Int) + 1) < 0 := by omega
  rw [findUndershardedFiles, if_neg hnonneg] at hfound
  have hlen := filterLimit_length hfound
  have hmem := hall (by omega) row hrow
  rcases undersharded_ok (filterLimit_mem hfound hmem) with ⟨hzero, _⟩ | ⟨_, _, hiff⟩
  · omega
  · exact hiff.mp rfl

end Reminisce

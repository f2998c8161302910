import Reminisce.RestoreUploaded

namespace Reminisce

open Results

/-- `restore_file`, whose fetcher looks the addresses of the nodes up in `p2p_nodes`; what the
nodes then answer is up to the network. -/
def restoreFile (P : Primitives) (db : Database) (network : List NodeRow → Fetch)
    (fileHash apiSecret : String) (ownerUserId : Option String) : Except Failure RestoredFile :=
  restoreFileWithFetcher P db fileHash ownerUserId (network db.p2pNodes) apiSecret

/-- A live media row of the user that `owner` names. -/
def Database.OwnsLive (P : Primitives) (db : Database) (owner fileHash : String) : Prop :=
  ∃ table, ∃ row ∈ db.media table, row.hash = fileHash ∧ row.deletedAt = none ∧
    P.parseUuid owner = some row.userId

def Database.rowsOwned (P : Primitives) (db : Database) (owner : String) (table : MediaTable) :
    List MediaRow :=
  (db.media table).filter fun row => P.parseUuid owner = some row.userId

/-- The databases differ only in media rows of users that `owner` does not name. -/
structure SameForOwner (P : Primitives) (owner : String) (db other : Database) : Prop where
  rows : ∀ table, db.rowsOwned P owner table = other.rowsOwned P owner table
  p2pShards : db.p2pShards = other.p2pShards
  p2pNodes : db.p2pNodes = other.p2pNodes

/-- A restore for `owner` needs a live row of that user, and rows of other users do not
change its result. -/
structure OwnerIsolated (P : Primitives) (owner : String) : Prop where
  owned : ∀ db network fileHash apiSecret restored,
    restoreFile P db network fileHash apiSecret (some owner) = .ok restored →
      db.OwnsLive P owner fileHash
  twoRuns : ∀ db other network fileHash apiSecret, SameForOwner P owner db other →
    restoreFile P db network fileHash apiSecret (some owner) =
      restoreFile P other network fileHash apiSecret (some owner)

variable {P : Primitives} {db other : Database} {owner fileHash apiSecret : String}
  {uid : UserId} {fetch : Fetch}

theorem queryFileRecord_of_restored {caller : Option String} {restored : RestoredFile}
    (h : restoreFileWithFetcher P db fileHash caller fetch apiSecret = .ok restored) :
    ∃ rec, queryFileRecord P db fileHash caller apiSecret = .ok (some rec) := by
  obtain ⟨found, hq, hrest⟩ := bind_ok h
  cases found with
  | none => simp at hrest
  | some rec => exact ⟨rec, hq⟩

/-- A parsed owner sees its own rows only. -/
theorem Database.visible_owned (hp : P.parseUuid owner = some uid) (table : MediaTable) :
    db.visible table fileHash (some uid) = (db.rowsOwned P owner table).filter fun row =>
      row.hash = fileHash ∧ row.deletedAt = none := by
  unfold visible rowsOwned
  rw [List.filter_filter]
  refine List.filter_congr fun row _ => ?_
  rw [hp]
  simp only [Option.mem_def, Option.some.injEq, forall_eq', ← Bool.decide_and]
  refine decide_eq_decide.mpr ?_
  constructor
  · rintro ⟨hhash, hlive, huser⟩
    exact ⟨⟨hhash, hlive⟩, huser.symm⟩
  · rintro ⟨⟨hhash, hlive⟩, huser⟩
    exact ⟨hhash, hlive, huser.symm⟩

theorem SameForOwner.visible (hs : SameForOwner P owner db other)
    (hp : P.parseUuid owner = some uid) (table : MediaTable) (fileHash : String) :
    db.visible table fileHash (some uid) = other.visible table fileHash (some uid) := by
  rw [Database.visible_owned hp, Database.visible_owned hp, hs.rows table]

theorem SameForOwner.queryFileRecord (hs : SameForOwner P owner db other)
    (hp : P.parseUuid owner = some uid) (fileHash apiSecret : String) :
    queryFileRecord P db fileHash (some owner) apiSecret =
      queryFileRecord P other fileHash (some owner) apiSecret := by
  have himages := hs.visible hp .images fileHash
  have hvideos := hs.visible hp .videos fileHash
  simp only [Reminisce.queryFileRecord, Option.bind_some, hp, himages, hvideos]

theorem SameForOwner.shardsOf (hs : SameForOwner P owner db other) (fileHash : String) :
    db.shardsOf fileHash = other.shardsOf fileHash := by
  simp only [Database.shardsOf, hs.p2pShards]

theorem ownerIsolated_of_parsed (hp : P.parseUuid owner = some uid) : OwnerIsolated P owner where
  owned db network fileHash apiSecret restored h := by
    obtain ⟨rec, hq⟩ := queryFileRecord_of_restored h
    obtain ⟨table, row, hf, _⟩ := found_of_queryFileRecord hq
    obtain ⟨hin, hhash, hlive, huser⟩ := hf.mem
    have hown : row.userId = uid := huser uid (by simp [hp])
    exact ⟨table, row, hin, hhash, hlive, by rw [hp, hown]⟩
  twoRuns db other network fileHash apiSecret hs := by
    have hquery := hs.queryFileRecord hp fileHash apiSecret
    have hshards := hs.shardsOf fileHash
    have hnodes := hs.p2pNodes
    simp only [restoreFile, restoreFileWithFetcher, hquery, hshards, hnodes]

/-- An owner id that does not parse restores as a caller without an owner does. -/
theorem restoreFile_unparsed (hp : P.parseUuid owner = none) (db : Database)
    (network : List NodeRow → Fetch) (fileHash apiSecret : String) :
    restoreFile P db network fileHash apiSecret (some owner) =
      restoreFile P db network fileHash apiSecret none := by
  have hquery : queryFileRecord P db fileHash (some owner) apiSecret =
      queryFileRecord P db fileHash none apiSecret := by
    simp only [queryFileRecord, Option.bind_some, hp, Option.bind_none]
  simp only [restoreFile, restoreFileWithFetcher, hquery]

/-- The row of any user changes the answer to an owner id that does not parse. -/
theorem not_ownerIsolated_of_unparsed (hp : P.parseUuid owner = none) :
    ¬ OwnerIsolated P owner := by
  intro h
  let emptied : Database := { sampleDatabase with images := [] }
  have hs : SameForOwner P owner emptied sampleDatabase := by
    refine ⟨fun table => ?_, rfl, rfl⟩
    cases table <;> simp [Database.rowsOwned, hp]
  have hsame := h.twoRuns emptied sampleDatabase (fun _ _ _ _ => none) "ab" "" hs
  rw [restoreFile_unparsed hp, restoreFile_unparsed hp] at hsame
  have hempty : restoreFile P emptied (fun _ _ _ _ => none) "ab" "" none =
      .error (.error "File ab not found in database") := rfl
  have hsample : restoreFile P sampleDatabase (fun _ _ _ _ => none) "ab" "" none =
      .error (.error "p2p_encryption_key is NULL") := rfl
  rw [hempty, hsample] at hsame
  simp at hsame

/-- Restore keeps to the owner exactly when the owner id parses. -/
theorem owner_isolated_iff_parsed (P : Primitives) (owner : String) :
    OwnerIsolated P owner ↔ (P.parseUuid owner).isSome := by
  constructor
  · intro h
    by_contra hn
    exact not_ownerIsolated_of_unparsed (by simpa using hn) h
  · intro h
    obtain ⟨uid, hp⟩ := Option.isSome_iff_exists.mp h
    exact ownerIsolated_of_parsed hp

/-- The file of user 7 is handed out to an owner id that is no user's. -/
theorem unparsed_owner_restores_file : ∃ after network,
    replicateSingleFile referencePrimitives segmentThreshold sampleDatabase .images "ab" "secret"
      3 2 (sampleRun 9 allAcks 100) = (.ok (), after) ∧
    referencePrimitives.parseUuid "nobody" = none ∧
    restoreFile referencePrimitives after network "ab" "secret" (some "nobody") =
      .ok { data := [1, 2, 3], filename := "holiday.jpg", mediaType := "image" } ∧
    ¬ OwnerIsolated referencePrimitives "nobody" := by
  obtain ⟨after, shards, hup, hshards, hcf, hcalls⟩ := sample_uploaded
  obtain ⟨uploaded, wrapped, mark, hc⟩ := committed_of_upload rfl hup hshards
  have hp : referencePrimitives.parseUuid "nobody" = none := by
    show referenceUuid "nobody" = none
    decide
  refine ⟨after, fun _ => honestFetch referencePrimitives shards, hup, hp, ?_,
    not_ownerIsolated_of_unparsed hp⟩
  rw [restoreFile_unparsed hp]
  exact hc.restores (by decide) (by decide) sampleDatabase_fresh hcf
    (show Found _ _ _ _ none sampleRow from ⟨rfl, by simp⟩) (by decide) hcalls

end Reminisce

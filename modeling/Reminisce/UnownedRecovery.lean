import Reminisce.SharedHashes

namespace Reminisce

open Slices Results

variable {P : Primitives} {db : Database}

/-- With the unique key of `p2p_shards`, recovery without an owner and the search for
under-sharded files do their work exactly where no lookup by hash meets a shared one. -/
theorem shared_hashes_handled_iff (hn : db.shardKeys.Nodup) :
    (∀ fileHash apiSecret table row file shards,
      db.Recoverable P fileHash apiSecret table row file shards →
        (RestoresUnowned P db fileHash apiSecret file shards ↔
          PicksBackup P db fileHash apiSecret file shards) ∧
        (db.OnlyLive fileHash row → PicksBackup P db fileHash apiSecret file shards)) ∧
    (FindsUndersharded db ↔ db.GeometryUnshared) := by
  refine ⟨fun fileHash apiSecret table row file shards h => ⟨⟨?_, ?_⟩, ?_⟩, findsUndersharded_iff⟩
  · exact h.picks_of_restores
  · exact h.restores_of_picks hn
  · exact h.picks_of_only

/-- What an upload of the sample file leaves behind, whoever has a row for it. -/
theorem sample_recoverable {images : List MediaRow} {row : MediaRow} (hrow : row ∈ images)
    (hsame : ∀ r ∈ images, r.hash = "ab" ∧ r.deletedAt = none ∧ r.p2pEncryptionKey = none ∧
      r.p2pSegmentCount = 1) :
    ∃ (after : Database) (shards : List Bytes) (mark : MediaRow → MediaRow),
      after.shardKeys.Nodup ∧ after.images = images.map mark ∧
      after.videos = [] ∧ (∀ r, (mark r).p2pSyncedAt ≠ none) ∧
      after.visible .images "ab" none = images.map mark ∧
      after.Recoverable referencePrimitives "ab" "secret" .images (mark row) [1, 2, 3] shards := by
  let before : Database := { sampleDatabase with images }
  have hfresh : Fresh before "ab" := by
    refine ⟨by simp [Database.shardKeys, before, sampleDatabase], by simp [before, sampleDatabase],
      fun table r hr _ => ?_⟩
    cases table with
    | images => exact (hsame r hr).2.2
    | videos => simp [before, sampleDatabase, Database.media] at hr
  have hnew : referencePrimitives.rs.new 3 2 = .ok () :=
    (referencePrimitives.rs.new_ok 3 2).mpr (by decide)
  obtain ⟨after, hup⟩ : ∃ after, replicateSingleFile referencePrimitives segmentThreshold before
      .images "ab" "secret" 3 2 (sampleRun 9 allAcks 100) = (.ok (), after) :=
    sampleRun_succeeds before 9 allAcks 100 hnew (by decide)
  obtain ⟨shards, hshards, hlens⟩ := sampleRun_backup 3 2 9 hnew
  obtain ⟨uploaded, wrapped, mark, hc⟩ := committed_of_upload rfl hup hshards
  have hvisible : before.visible .images "ab" none = images := by
    refine List.filter_eq_self.mpr fun r hr => ?_
    simp [(hsame r hr).1, (hsame r hr).2.1]
  have hmarked : after.visible .images "ab" none = images.map mark := by
    rw [hc.visible, hvisible]
  have himages : after.images = images.map mark := by
    have h := hc.media_same
    refine h.trans (List.map_congr_left fun r hr => ?_)
    rw [if_pos (hsame r hr).1]
  have hvideos : after.videos = [] := by
    have hother : after.media .videos = before.media .videos := hc.media_other (by simp)
    exact hother
  obtain ⟨hkey, size, hsize⟩ := hc.marks.key row
  obtain ⟨rec, hrec, _⟩ := fileRecordOf_exists .images hkey hsize hc.unwraps
  refine ⟨after, shards, mark, hc.unique hfresh.unique, himages, hvideos, fun r => ?_, hmarked, ?_⟩
  · cases hc.marks <;> simp [markSingle, markSegmented]
  · exact {
      live := by
        rw [hmarked]
        exact List.mem_map_of_mem hrow
      described := ⟨rec, hrec, hc.marks.describes hc.unwraps
        (fun _ => (hsame row hrow).2.2.2) hrec⟩
      recorded := hc.fresh_names hfresh (by decide) (by decide)
      enough := hc.rows_enough (by decide)
      stored := hc.shards_fit
      distinct := (referenceHash_injOn 11 (by decide)).mono fun s hs => hlens s hs }

/-- A file of one user is restored. -/
theorem unshared_hash_handled : ∃ (after : Database) (row : MediaRow) (shards : List Bytes), after.shardKeys.Nodup ∧
    after.Recoverable referencePrimitives "ab" "secret" .images row [1, 2, 3] shards ∧
    RestoresUnowned referencePrimitives after "ab" "secret" [1, 2, 3] shards := by
  have hrows : ∀ r ∈ [sampleRow], r.hash = "ab" ∧ r.deletedAt = none ∧
      r.p2pEncryptionKey = none ∧ r.p2pSegmentCount = 1 := by simp [sampleRow]
  obtain ⟨after, shards, mark, hn, _, hvideos, _, hvisible, hrec⟩ :=
    sample_recoverable (List.mem_singleton_self sampleRow) hrows
  refine ⟨after, mark sampleRow, shards, hn, hrec, ?_⟩
  obtain ⟨hiff, honly⟩ := (shared_hashes_handled_iff hn).1 _ _ _ _ _ _ hrec
  apply hiff.mpr
  apply honly
  have hnone : after.visible .videos "ab" none = [] := by
    simp [Database.visible, Database.media, hvideos]
  rw [Database.OnlyLive, hvisible, hnone]
  rfl

/-- Two users have the same file: neither lookup answers. -/
theorem shared_hash_lookups_fail : ∃ (after : Database) (row : MediaRow) (shards : List Bytes), after.shardKeys.Nodup ∧
    after.Recoverable referencePrimitives "ab" "secret" .images row [1, 2, 3] shards ∧
    ¬ RestoresUnowned referencePrimitives after "ab" "secret" [1, 2, 3] shards ∧
    findUndershardedFiles after after.syncedFiles 10 =
      .error "more than one row returned by a subquery used as an expression" := by
  let other : MediaRow := { sampleRow with userId := 8 }
  have hrows : ∀ r ∈ [sampleRow, other], r.hash = "ab" ∧ r.deletedAt = none ∧
      r.p2pEncryptionKey = none ∧ r.p2pSegmentCount = 1 := by simp [sampleRow, other]
  have hmem : sampleRow ∈ [sampleRow, other] := by simp
  obtain ⟨after, shards, mark, hn, himages, hvideos, hsynced, hvisible, hrec⟩ :=
    sample_recoverable hmem hrows
  refine ⟨after, mark sampleRow, shards, hn, hrec, fun hres => ?_, ?_⟩
  · obtain ⟨table, row, rec, hf, _⟩ := hrec.picks_of_restores hres
    have hone := hf.one
    cases table with
    | images =>
      have htwo : after.visible .images "ab" none = [row] := hone
      rw [hvisible] at htwo
      simp at htwo
    | videos =>
      have hnone : after.visible .images "ab" none = [] := hf.first rfl
      rw [hvisible] at hnone
      simp at hnone
  · have hhash : ∀ r ∈ after.images, r.hash = "ab" := by
      intro r hr
      rw [himages, ← hvisible] at hr
      exact (Database.mem_visible.mp hr).2.1
    have hfound : after.rowsWithHash .images "ab" = [mark sampleRow, mark other] := by
      have hself : after.rowsWithHash .images "ab" = after.images :=
        List.filter_eq_self.mpr fun r hr => by simpa using hhash r hr
      rw [hself, himages]
      rfl
    have hcount : after.shardCount "ab" ≠ 0 := by
      have henough := hrec.enough
      unfold Database.shardsOf at henough
      rw [List.length_mergeSort] at henough
      unfold Database.shardCount
      omega
    have hall : after.syncedFiles = ["ab", "ab"] := by
      have hfirst := hhash (mark sampleRow) (by simp [himages])
      have hsecond := hhash (mark other) (by simp [himages])
      simp [Database.syncedFiles, himages, hvideos, hsynced, hfirst, hsecond]
    have hfails : after.undersharded "ab" =
        .error "more than one row returned by a subquery used as an expression" := by
      rw [Database.undersharded, if_neg hcount, Database.requiredShards, hfound]
      rfl
    rw [hall]
    show filterLimit after.undersharded 10 ["ab", "ab"] = _
    rw [filterLimit, hfails, error_bind]

end Reminisce

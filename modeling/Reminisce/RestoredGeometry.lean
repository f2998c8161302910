import Reminisce.Geometry

namespace Reminisce

open Slices Results

variable {P : Primitives} {k m : Nat} {file key : Bytes} {shards : List Bytes}

theorem restoreFileWithFetcher_ok {db : Database} {fileHash apiSecret : String}
    {owner : Option String} {fetch : Fetch} {rec : FileRecord} {restored : RestoredFile}
    (hq : queryFileRecord P db fileHash owner apiSecret = .ok (some rec))
    (h : restoreFileWithFetcher P db fileHash owner fetch apiSecret = .ok restored) :
    decodeShards P rec (gotShards P db fileHash fetch) = .ok restored.data := by
  unfold restoreFileWithFetcher at h
  rw [hq, ok_bind] at h
  simp only at h
  split at h
  next => simp at h
  next =>
    split at h
    next => simp at h
    next =>
      obtain ⟨plaintext, hp, h⟩ := bind_ok h
      cases Except.ok.inj h
      exact hp

/-- The fetcher that answers the call for each row with the uploaded shard. -/
def completeFetch (rows : List ShardRow) (shards : List Bytes) : Fetch :=
  fun p _ _ => rows[p]?.bind fun row => shards[asUsize row.shardIndex]?

theorem intact_completeFetch {rows : List ShardRow} (hrows : ∀ row ∈ rows, row.Names P shards)
    (hlen : shards.length < 2 ^ 64) {p : Nat} (hp : p < rows.length) :
    Intact P (completeFetch rows shards) rows shards p := by
  obtain ⟨j, data, hj, hd, _⟩ := hrows rows[p] (List.getElem_mem _)
  obtain ⟨hlt, _⟩ := List.getElem?_eq_some_iff.mp hd
  have hidx : asUsize rows[p].shardIndex = j := by
    rw [hj]
    exact asUsize_natCast (by omega)
  refine ⟨rows[p], data, List.getElem?_eq_getElem hp, by rw [hidx, hd], ?_⟩
  simp [completeFetch, hp, hidx, hd]

/-- A complete upload of a file with a zero key. -/
def completeRun (file : Bytes) (total : Nat) : ReplicationRun :=
  { nodes := [("node", ⟨.v4 10 0 0 1, 5050⟩)], fileData := some file
    encryptionKey := List.Vector.replicate 32 0, wrapNonce := List.Vector.replicate 12 0
    acks := ⟨List.range total, List.nodup_range⟩, commits := true, now := 100 }

def zeroKey : Bytes := (List.Vector.replicate 32 0 : List.Vector UInt8 32).toList

/-- What exact restores of all files come down to, once the database is taken away. -/
theorem decode_of_restores (hnew : P.rs.new k m = .ok ()) (h : MediaRestoresExactly P k m)
    (hshards : backupShards P segmentThreshold file zeroKey k m = .ok shards)
    (hfits : ∀ s ∈ shards, s.length ≤ maxShardBytes) :
    ∃ rec got, rec.Describes P segmentThreshold k m file shards ∧ rec.encryptionKey = zeroKey ∧
      got.length = 5 ∧ (k + m = 5 → got = shards.map some) ∧
      decodeShards P rec got = .ok file := by
  obtain ⟨hk, hm, hkm⟩ := (P.rs.new_ok k m).mp hnew
  have hacks : ∀ idx < k + m, idx ∈ (completeRun file (k + m)).acks.order :=
    fun idx hidx => List.mem_range.mpr hidx
  have hmany : k ≤ ((completeRun file (k + m)).acks.order.filter (· < k + m)).length := by
    have hself : (List.range (k + m)).filter (· < k + m) = List.range (k + m) := by
      simp [List.filter_eq_self]
    simp only [completeRun, hself, List.length_range]
    omega
  obtain ⟨after, hup⟩ : ∃ after, replicateSingleFile P segmentThreshold sampleDatabase .images "ab"
      "secret" k m (completeRun file (k + m)) = (.ok (), after) :=
    replicateSingleFile_succeeds sampleDatabase .images "secret" (by simp [completeRun]) rfl hshards
      hfits hmany rfl
  obtain ⟨uploaded, wrapped, mark, hc⟩ := committed_of_upload rfl hup hshards
  have hfound : Found P sampleDatabase .images "ab" none sampleRow := ⟨rfl, by simp⟩
  obtain ⟨hkey, size, hsize⟩ := hc.marks.key sampleRow
  obtain ⟨rec, hrec, _⟩ := fileRecordOf_exists .images hkey hsize hc.unwraps
  have hq := queryFileRecord_found (hc.found hfound) hrec
  have hdesc := hc.describes sampleDatabase_fresh hq
  have hnames := hc.fresh_names sampleDatabase_fresh hk (by omega)
  have hlen := length_backupShards hshards
  have hall : ∀ p < (after.shardsOf "ab").length,
      Intact P (completeFetch (after.shardsOf "ab") shards) (after.shardsOf "ab") shards p :=
    fun p hp => intact_completeFetch hnames (by omega) hp
  obtain ⟨filename, mediaType, hres⟩ := h file "ab" "secret" .images sampleDatabase _ after shards
    _ none sampleRow sampleDatabase_fresh hfound rfl hacks hup hshards hall
  obtain ⟨w, _, hw, _, hunwrap, _⟩ := fileRecordOf_ok hrec
  cases Option.some.inj (hkey.symm.trans hw)
  refine ⟨rec, gotShards P after "ab" (completeFetch (after.shardsOf "ab") shards), hdesc,
    (Except.ok.inj (hc.unwraps.symm.trans hunwrap)).symm, length_fetchShards.trans rfl, ?_,
    restoreFileWithFetcher_ok hq hres⟩
  intro hfive
  obtain ⟨hright, hcount⟩ := fetchShards_complete hnames (hlen.trans hfive)
    (Database.shardsOf_nodup (hc.unique sampleDatabase_fresh.unique) "ab") hall
  have hrows := hc.rows_complete hk (by omega) hacks
  have hgot : (gotShards P after "ab" (completeFetch (after.shardsOf "ab") shards)).length = 5 :=
    length_fetchShards.trans rfl
  refine eq_map_some (by omega) hright (all_isSome_of_countP ?_)
  rw [hgot]
  exact (hfive ▸ hrows).trans hcount

/-- The single-shot decoder counts five shards, whatever the file was cut into. -/
theorem total_of_restores (hnew : P.rs.new k m = .ok ()) (h : MediaRestoresExactly P k m) :
    k + m = 5 := by
  obtain ⟨hk, _, hkm⟩ := (P.rs.new_ok k m).mp hnew
  obtain ⟨shards, size, hp⟩ : ∃ shards size,
      processForBackup P [0] zeroKey zeroKey k m = .ok (shards, size) :=
    processForBackup_exists _ rfl (by simp) hnew
  have hsize := processForBackup_size hp
  have hsmall : ¬ segmentThreshold < ([0] : Bytes).length := by decide
  have hshards : backupShards P segmentThreshold [0] zeroKey k m = .ok shards := by
    rw [backupShards, if_neg hsmall, hp]
    rfl
  obtain ⟨rec, got, hdesc, hkey, hlen, _, hdecode⟩ := decode_of_restores hnew h hshards (by
    intro s hs
    rw [processForBackup_shard_length hp hs, hsize]
    exact (divCeil_le _ hk).trans (by decide))
  by_contra hne
  cases hdesc with
  | single small process count encSize data parity =>
    rw [hkey, hp] at process
    cases Except.ok.inj process
    rw [decodeShards_single (by omega) (by omega) (by rw [hsize]; decide) count encSize data parity,
      restoreFromBackup_length_ne (by omega)] at hdecode
    simp [Except.mapError] at hdecode
  | segmented large => exact absurd large hsmall

end Reminisce

import Mathlib.Data.Finmap
import Reminisce.DiskStorage

namespace Reminisce

section

open FileSystem

theorem hashLe_trans (a b c : Digest) :
    decide (hashKey a ≤ hashKey b) → decide (hashKey b ≤ hashKey c) →
      decide (hashKey a ≤ hashKey c) := by
  simp only [decide_eq_true_eq]
  exact le_trans

theorem hashLe_total (a b : Digest) :
    (decide (hashKey a ≤ hashKey b) || decide (hashKey b ≤ hashKey a)) = true := by
  simp only [Bool.or_eq_true, decide_eq_true_eq]
  exact le_total _ _

theorem pairwise_sortHashes (hashes : List Digest) :
    (sortHashes hashes).Pairwise fun a b => hashKey a ≤ hashKey b := by
  have h := List.pairwise_mergeSort hashLe_trans hashLe_total hashes
  exact h.imp fun hab => of_decide_eq_true hab

theorem perm_sortHashes (hashes : List Digest) : (sortHashes hashes).Perm hashes :=
  List.mergeSort_perm hashes _

theorem ascending_sortHashes {hashes : List Digest} (h : hashes.Nodup) :
    (sortHashes hashes).Pairwise fun a b => hashKey a < hashKey b := by
  have hnodup : (sortHashes hashes).Nodup := (perm_sortHashes hashes).nodup_iff.mpr h
  refine ((pairwise_sortHashes hashes).and hnodup).imp ?_
  rintro a b ⟨hle, hne⟩
  exact lt_of_le_of_ne hle fun heq => hne (hashKey_injective heq)

/-- An ascending list is determined by what it contains. -/
theorem sortHashes_eq_of_ascending {hashes sorted : List Digest}
    (hasc : sorted.Pairwise fun a b => hashKey a < hashKey b) (hperm : sorted.Perm hashes) :
    sortHashes hashes = sorted := by
  refine List.Perm.eq_of_pairwise ?_ (pairwise_sortHashes hashes) (hasc.imp fun h => le_of_lt h)
    ((perm_sortHashes hashes).trans hperm.symm)
  intro a b _ _ hab hba
  exact hashKey_injective (le_antisymm hab hba)

theorem mem_hexDirs (h : Digest) : (getShardPath h).dir ∈ hexDirs := by
  obtain ⟨bytes, hlen⟩ := h
  cases bytes with
  | nil => simp at hlen
  | cons b rest =>
    refine List.mem_map.mpr ⟨b.toNat, List.mem_range.mpr b.toNat_lt, ?_⟩
    rw [UInt8.ofNat_toNat]
    rfl

theorem nodup_hexDirs : hexDirs.Nodup := by
  refine List.Nodup.map_on ?_ List.nodup_range
  intro i hi j hj heq
  have hbyte := congrArg UInt8.toNat (List.cons.inj (Hex.encode_injective heq)).1
  rw [List.mem_range] at hi hj
  rwa [UInt8.toNat_ofNat', UInt8.toNat_ofNat', Nat.mod_eq_of_lt hi, Nat.mod_eq_of_lt hj] at hbyte

variable {d : ShardDisk}

theorem nodup_scans (hd : Tidy d) {dirs : List (List Char)} (hdirs : dirs.Nodup) :
    (dirs.flatMap (scanDir d)).Nodup := by
  refine List.nodup_flatMap.mpr ⟨fun dir _ => nodup_scanDir hd dir, hdirs.imp ?_⟩
  intro dir dir' hne h hh hh'
  exact hne (((mem_scanDir hd).mp hh).2.symm.trans ((mem_scanDir hd).mp hh').2)

theorem mem_listShards_none (hd : Tidy d) (h : Digest) :
    h ∈ listShards d none ↔ ∃ bytes, d.read (getShardPath h) = some bytes := by
  rw [listShards, (perm_sortHashes _).mem_iff, List.mem_flatMap]
  have hread : (∃ bytes, d.read (getShardPath h) = some bytes) ↔ getShardPath h ∈ d.names.keys := by
    rw [mem_names_iff]
    simp [Disk.read]
  rw [hread]
  constructor
  · rintro ⟨dir, _, hh⟩
    exact ((mem_scanDir hd).mp hh).1
  · intro hp
    exact ⟨_, mem_hexDirs h, (mem_scanDir hd).mpr ⟨hp, rfl⟩⟩

theorem ascending_listShards_none (hd : Tidy d) :
    (listShards d none).Pairwise fun a b => hashKey a < hashKey b :=
  ascending_sortHashes (nodup_scans hd nodup_hexDirs)

/-- With a directory the listing is the part of the whole one that is in it. -/
theorem listShards_some (hd : Tidy d) (dir : List Char) :
    listShards d (some dir) = (listShards d none).filter fun h => (getShardPath h).dir = dir := by
  refine sortHashes_eq_of_ascending ((ascending_listShards_none hd).filter _) ?_
  have hone : ((listedDirs (some dir)).flatMap (scanDir d)).Nodup :=
    nodup_scans hd (List.nodup_singleton dir)
  have hall : (listShards d none).Nodup :=
    (perm_sortHashes _).nodup_iff.mpr (nodup_scans hd nodup_hexDirs)
  refine (List.perm_ext_iff_of_nodup (hall.filter _) hone).mpr ?_
  intro h
  have hread := mem_listShards_none hd h
  simp only [List.mem_filter, decide_eq_true_eq, listedDirs, List.flatMap_cons, List.flatMap_nil,
    List.append_nil, mem_scanDir hd, mem_names_iff, hread, Disk.read, Option.map_eq_some_iff]
  constructor
  · rintro ⟨⟨_, i, hi, _⟩, hdir⟩
    exact ⟨⟨i, hi⟩, hdir⟩
  · rintro ⟨⟨i, hi⟩, hdir⟩
    exact ⟨⟨_, i, hi, rfl⟩, hdir⟩

end

open FileSystem

/-- What a storage node is for: a finite map from hashes to bytes. -/
abbrev ShardMap := Finmap fun _ : Digest => Bytes

/-- The operations on the map, with what they answer. -/
inductive StoreOp
  | put (shardHash : Digest) (data : Bytes)
  | get (shardHash : Digest) (result : Option Bytes)
  | delete (shardHash : Digest)
  | scan (dir : List Char) (found : List Digest)

namespace ShardMap

/-- Only verified bytes are put, `get` answers what is stored, `delete` removes one hash, and
a scan finds every stored hash of its directory once. -/
inductive Step (blake3 : Bytes → Digest) : ShardMap → StoreOp → ShardMap → Prop
  | put (m : ShardMap) (shardHash : Digest) (data : Bytes) (hash : blake3 data = shardHash) :
      Step blake3 m (.put shardHash data) (m.insert shardHash data)
  | get (m : ShardMap) (shardHash : Digest) :
      Step blake3 m (.get shardHash (m.lookup shardHash)) m
  | delete (m : ShardMap) (shardHash : Digest) :
      Step blake3 m (.delete shardHash) (m.erase shardHash)
  | scan (m : ShardMap) (dir : List Char) (found : List Digest) (once : found.Nodup)
      (all : ∀ h, h ∈ found ↔ h ∈ m ∧ (toHex h).take 2 = dir) :
      Step blake3 m (.scan dir found) m

/-- The operations of the list, in this order, lead from the empty map to this one. -/
inductive Replays (blake3 : Bytes → Digest) : List StoreOp → ShardMap → Prop
  | nil : Replays blake3 [] ∅
  | snoc (ops : List StoreOp) (op : StoreOp) (m m' : ShardMap) (past : Replays blake3 ops m)
      (step : Step blake3 m op m') : Replays blake3 (ops ++ [op]) m'

/-- The shard side of the disk is the map. -/
def Represents (d : ShardDisk) (m : ShardMap) : Prop :=
  ∀ h, m.lookup h = d.read (getShardPath h)

variable {blake3 : Bytes → Digest} {m m' : ShardMap} {d e : ShardDisk} {ops : List StoreOp}

theorem Step.content {op : StoreOp} (h : Step blake3 m op m')
    (hm : ∀ hash bytes, m.lookup hash = some bytes → blake3 bytes = hash) :
    ∀ hash bytes, m'.lookup hash = some bytes → blake3 bytes = hash := by
  cases h with
  | put hash data heq =>
    intro other bytes hl
    by_cases hk : other = hash
    · subst hk
      rw [Finmap.lookup_insert] at hl
      exact Option.some.inj hl ▸ heq
    · rw [Finmap.lookup_insert_of_ne m hk] at hl
      exact hm other bytes hl
  | get => exact hm
  | delete hash =>
    intro other bytes hl
    by_cases hk : other = hash
    · subst hk
      simp at hl
    · rw [Finmap.lookup_erase_ne hk] at hl
      exact hm other bytes hl
  | scan => exact hm

/-- The map is content addressed after any operations. -/
theorem Replays.content (h : Replays blake3 ops m) :
    ∀ hash bytes, m.lookup hash = some bytes → blake3 bytes = hash := by
  induction h with
  | nil => simp
  | snoc ops op m m' _ hstep ih => exact hstep.content ih

theorem represents_empty : Represents Disk.empty ∅ := by
  intro h
  simp [Disk.read, Disk.empty]

/-- Work on pinned objects and temporary files leaves the map alone. -/
theorem Represents.of_touches {touched : DiskPath → Prop} (hm : Represents d m)
    (h : Disk.Touches Aside touched d e) (ht : ∀ p, touched p → Aside p) : Represents e m := by
  intro hash
  rw [hm hash, h.read fun hp => not_aside_shard hash (ht _ hp)]

/-- Giving a temporary file the path of a shard puts its bytes. -/
theorem Represents.rename {tmp : DiskPath} {shardHash : Digest} {i : Nat} (hd : d.Sound)
    (hm : Represents d m) (htmp : Aside tmp) (hi : d.names.lookup tmp = some i) :
    Represents (d.rename tmp (getShardPath shardHash))
      (m.insert shardHash (d.inodes i).bytes) := by
  intro hash
  by_cases hk : hash = shardHash
  · subst hk
    simp [Disk.read, Disk.rename, hi]
  · rw [Finmap.lookup_insert_of_ne m hk, hm hash]
    have ht := Disk.touches_rename hd (not_aside_shard shardHash) hi
    refine (ht.read ?_).symm
    rintro (hp | hp)
    · exact aside_ne_shard htmp hash hp.symm
    · exact hk (getShardPath_injective hp)

/-- Removing the file of a shard deletes that shard and no other. -/
theorem Represents.remove {shardHash : Digest} (hd : d.Sound) (hm : Represents d m) :
    Represents (d.remove (getShardPath shardHash)) (m.erase shardHash) := by
  intro hash
  by_cases hk : hash = shardHash
  · subst hk
    simp [Disk.read, Disk.remove]
  · rw [Finmap.lookup_erase_ne hk, hm hash]
    have ht : Disk.Touches Aside (· = getShardPath shardHash) d _ := Disk.touches_remove hd _
    exact (ht.read fun hp => hk (getShardPath_injective hp)).symm

theorem Represents.mem_iff (hm : Represents d m) (h : Digest) :
    h ∈ m ↔ ∃ i, d.names.lookup (getShardPath h) = some i := by
  rw [Finmap.mem_iff]
  simp [hm h, Disk.read]

theorem Represents.scan (hm : Represents d m) (hd : Tidy d) (dir : List Char) :
    Step blake3 m (.scan dir (scanDir d dir)) m := by
  refine .scan m dir _ (nodup_scanDir hd dir) ?_
  intro h
  rw [mem_scanDir hd, mem_names_iff, hm.mem_iff]
  rfl

end ShardMap

end Reminisce

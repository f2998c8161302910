import Mathlib.Data.List.Lex
import Mathlib.Data.List.Sort
import Reminisce.Library.FileSystem
import Reminisce.Primitives

namespace Reminisce

/-- A path under the base directory: every file is one directory down. -/
structure DiskPath where
  dir : List Char
  name : List Char
  deriving DecidableEq, Repr

def tmpExtension : List Char := ".tmp".toList

def pinnedDir : List Char := "pinned".toList

def getShardPath (shardHash : Digest) : DiskPath :=
  { dir := (toHex shardHash).take 2, name := (toHex shardHash).drop 2 }

def tempPath (tempId : Digest) : DiskPath :=
  { dir := (toHex tempId).take 2, name := (toHex tempId).drop 2 ++ tmpExtension }

def decimal (n : Nat) : List Char := Nat.toDigits 10 n

def uniqueTempSibling (finalPath : DiskPath) (pid nanos seq : Nat) : DiskPath :=
  { finalPath with
    name := finalPath.name ++ '.' :: decimal pid ++ '.' :: decimal nanos ++ '.' :: decimal seq ++
      tmpExtension }

def pinnedPath (blake3 : Bytes → Digest) (name : String) : DiskPath :=
  { dir := pinnedDir, name := toHex (blake3 (utf8 name)) }

/-- The paths of pinned objects and of temporary files. -/
def Aside (p : DiskPath) : Prop := p.dir = pinnedDir ∨ tmpExtension <:+ p.name

instance (p : DiskPath) : Decidable (Aside p) := inferInstanceAs (Decidable (_ ∨ _))

theorem dot_notMem_toHex (h : Digest) : '.' ∉ toHex h := by
  intro hmem
  obtain ⟨n, hn, hdot⟩ := Hex.mem_encode hmem
  exact Hex.digit_ne_dot hn hdot.symm

theorem dot_notMem_decimal (n : Nat) : '.' ∉ decimal n := by
  intro hmem
  have := Nat.isDigit_of_mem_toDigits (by decide) (by decide) hmem
  exact absurd this (by decide)

theorem decimal_injective : Function.Injective decimal := by
  intro a b h
  have hback := congrArg (Nat.ofDigitChars 10 · 0) h
  simpa [decimal, Nat.ofDigitChars_toDigits] using hback

theorem decimal_length_pos (n : Nat) : 0 < (decimal n).length := Nat.length_toDigits_pos

@[simp] theorem getShardPath_dir_length (h : Digest) : (getShardPath h).dir.length = 2 := by
  simp [getShardPath]

@[simp] theorem getShardPath_name_length (h : Digest) : (getShardPath h).name.length = 62 := by
  simp [getShardPath]

theorem getShardPath_hex (h : Digest) :
    (getShardPath h).dir ++ (getShardPath h).name = toHex h :=
  List.take_append_drop 2 (toHex h)

theorem getShardPath_injective : Function.Injective getShardPath := by
  intro a b h
  apply toHex_injective
  rw [← getShardPath_hex a, ← getShardPath_hex b, h]

theorem tempPath_injective : Function.Injective tempPath := by
  intro a b h
  obtain ⟨hdir, hname⟩ := DiskPath.mk.inj h
  apply toHex_injective
  rw [← List.take_append_drop 2 (toHex a), ← List.take_append_drop 2 (toHex b), hdir,
    List.append_cancel_right hname]

theorem pinnedDir_ne {dir : List Char} (h : dir.length = 2) : dir ≠ pinnedDir := by
  rintro rfl
  exact absurd h (by decide)

/-- No pinned object and no temporary file has the path of a shard. -/
theorem not_aside_shard (h : Digest) : ¬ Aside (getShardPath h) := by
  rintro (hdir | hname)
  · exact pinnedDir_ne (getShardPath_dir_length h) hdir
  · have hmem : '.' ∈ (getShardPath h).name := hname.subset (by decide)
    exact dot_notMem_toHex h (List.mem_of_mem_drop hmem)

theorem aside_ne_shard {p : DiskPath} (hp : Aside p) (h : Digest) : p ≠ getShardPath h := by
  rintro rfl
  exact not_aside_shard h hp

theorem aside_tempPath (id : Digest) : Aside (tempPath id) := .inr (List.suffix_append _ _)

theorem aside_sibling (p : DiskPath) (pid nanos seq : Nat) :
    Aside (uniqueTempSibling p pid nanos seq) := .inr (List.suffix_append _ _)

theorem aside_pinnedPath (blake3 : Bytes → Digest) (name : String) :
    Aside (pinnedPath blake3 name) := .inl rfl

/-- The two kinds of temporary files differ in the length of their names. -/
theorem tempPath_ne_sibling (id h : Digest) (pid nanos seq : Nat) :
    tempPath id ≠ uniqueTempSibling (getShardPath h) pid nanos seq := by
  intro heq
  have hlen := congrArg (fun p => p.name.length) heq
  have h₁ := decimal_length_pos pid
  have h₂ := decimal_length_pos nanos
  simp only [tempPath, uniqueTempSibling, List.length_append, List.length_drop, length_toHex,
    List.length_cons, getShardPath_name_length] at hlen
  omega

theorem pinnedPath_ne_tempPath (blake3 : Bytes → Digest) (name : String) (id : Digest) :
    pinnedPath blake3 name ≠ tempPath id := by
  intro heq
  exact pinnedDir_ne (by simp [tempPath]) (congrArg DiskPath.dir heq).symm

theorem pinnedPath_ne_sibling (blake3 : Bytes → Digest) (name : String) (h : Digest)
    (pid nanos seq : Nat) :
    pinnedPath blake3 name ≠ uniqueTempSibling (getShardPath h) pid nanos seq := by
  intro heq
  exact pinnedDir_ne (getShardPath_dir_length h) (congrArg DiskPath.dir heq).symm

theorem last_segment {c : Char} {ys : List Char} (hy : c ∉ ys) (xs : List Char) :
    (xs ++ c :: ys).reverse.takeWhile (· ≠ c) = ys.reverse := by
  rw [List.reverse_append, List.reverse_cons, List.append_assoc, List.takeWhile_append_of_pos]
  · simp
  · intro x hx
    have hne : x ≠ c := by
      rintro rfl
      exact hy (List.mem_reverse.mp hx)
    simpa using hne

/-- Two writers of one process never share a sibling. -/
theorem sibling_seq {p q : DiskPath} {pid pid' nanos nanos' seq seq' : Nat}
    (h : uniqueTempSibling p pid nanos seq = uniqueTempSibling q pid' nanos' seq') :
    seq = seq' := by
  have hname := List.append_cancel_right (congrArg DiskPath.name h)
  have hlast := congrArg (fun l => l.reverse.takeWhile (· ≠ '.')) hname
  simp only [last_segment (dot_notMem_decimal seq), last_segment (dot_notMem_decimal seq')] at hlast
  exact decimal_injective (List.reverse_injective hlast)

open FileSystem

abbrev ShardDisk := Disk DiskPath UInt8

/-- The text of a refused write, `none` when there is room. The free bytes are those of
`statvfs`, or its error. -/
def ensureSufficientSpace (avail : Except String Nat) : Except Np2pError Unit :=
  match avail with
  | .ok avail =>
    if avail < 100 * 1024 * 1024 then
      .error (.storage s!"Insufficient disk space on node: {avail} bytes available")
    else .ok ()
  | .error e => .error (.storage s!"Cannot determine free space on node: {e}")

def availableSpace (avail : Except String Nat) : Nat := avail.toOption.getD 0

/-- The file names of a directory, in no particular order. -/
def readDir (d : ShardDisk) (dir : List Char) : List (List Char) :=
  (d.names.keys.filter (·.dir = dir)).map (·.name)

def listedHash (dir name : List Char) : Option Digest :=
  if tmpExtension <:+ name ∨ name.length ≠ 62 then none
  else
    (Hex.decode (dir ++ name)).bind fun bytes =>
      if h : bytes.length = 32 then some ⟨bytes, h⟩ else none

/-- One directory of `list_shards`. -/
def scanDir (d : ShardDisk) (dir : List Char) : List Digest :=
  (readDir d dir).filterMap (listedHash dir)

def hexDirs : List (List Char) := (List.range 256).map fun i => Hex.encode [UInt8.ofNat i]

def listedDirs : Option (List Char) → List (List Char)
  | some dir => [dir]
  | none => hexDirs

/-- The order of `[u8; 32]`. -/
def hashKey (h : Digest) : List Nat := h.toList.map UInt8.toNat

def sortHashes (hashes : List Digest) : List Digest :=
  hashes.mergeSort fun a b => hashKey a ≤ hashKey b

def listShards (d : ShardDisk) (dir : Option (List Char)) : List Digest :=
  sortHashes ((listedDirs dir).flatMap (scanDir d))

/-- The files that `cleanup_stale_temp_files` goes for: `age` exists when the file is not
newer than the clock. -/
def staleTemp (d : ShardDisk) (now maxAge : Nat) (p : DiskPath) : Bool :=
  match d.names.lookup p with
  | some i => tmpExtension <:+ p.name ∧ (d.inodes i).mtime ≤ now ∧ maxAge ≤ now - (d.inodes i).mtime
  | none => false

/-- `removable` says which removals succeed. -/
def cleanupStaleTempFiles (d : ShardDisk) (now maxAge : Nat) (removable : DiskPath → Bool) :
    ShardDisk × Nat :=
  let stale := d.names.keys.filter fun p => staleTemp d now maxAge p && removable p
  (stale.foldl Disk.remove d, stale.length)

/-- Everything on disk is a shard, a temporary file or a pinned object. -/
def Tidy (d : ShardDisk) : Prop :=
  ∀ p i, d.names.lookup p = some i → Aside p ∨ ∃ h, p = getShardPath h

theorem hashKey_injective : Function.Injective hashKey := by
  intro a b h
  apply List.Vector.toList_injective
  exact List.map_injective_iff.mpr (fun x y hxy => UInt8.toNat_inj.mp hxy) h

theorem mem_names_iff {d : ShardDisk} {p : DiskPath} : p ∈ d.names.keys ↔ ∃ i, d.names.lookup p = some i := by
  rw [← AList.mem_keys, ← AList.lookup_isSome, Option.isSome_iff_exists]

theorem listedHash_shard (h : Digest) :
    listedHash (getShardPath h).dir (getShardPath h).name = some h := by
  have hext : ¬ tmpExtension <:+ (getShardPath h).name := fun hs => not_aside_shard h (.inr hs)
  have hdecode : Hex.decode ((getShardPath h).dir ++ (getShardPath h).name) = some h.toList := by
    rw [getShardPath_hex, toHex, Hex.decode_encode]
  unfold listedHash
  rw [if_neg (by simp [hext]), hdecode]
  simp

/-- In the directory of pinned objects and under temporary names nothing is listed. -/
theorem listedHash_aside {p : DiskPath} (hp : Aside p) : listedHash p.dir p.name = none := by
  unfold listedHash
  split
  next => rfl
  next hname =>
    rcases hp with hdir | hext
    · rw [hdir]
      rfl
    · exact absurd (.inl hext) hname

theorem mem_scanDir {d : ShardDisk} (hd : Tidy d) {dir : List Char} {h : Digest} :
    h ∈ scanDir d dir ↔ getShardPath h ∈ d.names.keys ∧ (getShardPath h).dir = dir := by
  simp only [scanDir, readDir, List.mem_filterMap, List.mem_map, List.mem_filter, decide_eq_true_eq]
  constructor
  · rintro ⟨name, ⟨p, ⟨hp, rfl⟩, rfl⟩, hlisted⟩
    obtain ⟨i, hi⟩ := mem_names_iff.mp hp
    rcases hd p i hi with haside | ⟨h', rfl⟩
    · rw [listedHash_aside haside] at hlisted
      simp at hlisted
    · rw [listedHash_shard] at hlisted
      cases Option.some.inj hlisted
      exact ⟨hp, rfl⟩
  · rintro ⟨hp, rfl⟩
    exact ⟨_, ⟨_, ⟨hp, rfl⟩, rfl⟩, listedHash_shard h⟩

theorem nodup_scanDir {d : ShardDisk} (hd : Tidy d) (dir : List Char) : (scanDir d dir).Nodup := by
  unfold scanDir readDir
  rw [List.filterMap_map, List.Nodup, List.pairwise_filterMap]
  refine ((d.names.keys_nodup).filter _).imp_of_mem ?_
  intro p q hp hq hne h hh h' hh' heq
  subst heq
  have path : ∀ r ∈ d.names.keys.filter (·.dir = dir), listedHash dir r.name = some h →
      r = getShardPath h := by
    intro r hr hlisted
    obtain ⟨hkeys, hdir⟩ := List.mem_filter.mp hr
    simp only [decide_eq_true_eq] at hdir
    obtain ⟨i, hi⟩ := mem_names_iff.mp hkeys
    rw [← hdir] at hlisted
    rcases hd r i hi with haside | ⟨h', rfl⟩
    · rw [listedHash_aside haside] at hlisted
      simp at hlisted
    · rw [listedHash_shard] at hlisted
      rw [Option.some.inj hlisted]
  exact hne ((path p hp hh).trans (path q hq hh').symm)

end Reminisce

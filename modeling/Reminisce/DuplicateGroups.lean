import Mathlib.Order.Bounds.Basic
import Reminisce.DuplicatePairs
import Reminisce.Library.DisjointSets

namespace Reminisce

open DisjointSets Relation

/-- A pair of duplicates with its similarity, a number that compares with all others. -/
structure HashPair where
  hashA : String
  hashB : String
  similarity : ℚ
  deriving DecidableEq, Repr

structure DuplicateImage where
  hash : String
  name : String
  createdAt : String
  thumbnailUrl : String
  aestheticScore : Option ℚ
  sharpnessScore : Option ℚ
  width : Option Int
  height : Option Int
  fileSizeBytes : Option Int
  deriving DecidableEq, Repr

structure DuplicateGroup where
  similarity : ℚ
  images : List DuplicateImage
  deriving DecidableEq, Repr

/-- The columns of `images` that duplicates are shown with; `deleted` says whether `deleted_at` is
set, and `createdAt` is the time as text. -/
structure ShownRow where
  userId : UserId
  deleted : Bool
  hash : String
  name : String
  createdAt : String
  aestheticScore : Option ℚ
  sharpnessScore : Option ℚ
  width : Option Int
  height : Option Int
  fileSizeBytes : Option Int
  deriving DecidableEq, Repr

def ShownRow.toImage (row : ShownRow) : DuplicateImage where
  hash := row.hash
  name := row.name
  createdAt := row.createdAt
  thumbnailUrl := "/api/thumbnail/" ++ row.hash
  aestheticScore := row.aestheticScore
  sharpnessScore := row.sharpnessScore
  width := row.width
  height := row.height
  fileSizeBytes := row.fileSizeBytes

/-- The order that a hash map is iterated in. -/
structure MapOrder where
  iterate : {A : Type} → List A → List A
  perm : ∀ {A : Type} (entries : List A), (iterate entries).Perm entries

def addHash (hashes : List String) (h : String) : List String :=
  if h ∈ hashes then hashes else hashes ++ [h]

/-- `hashes`, each hash once, in the order of the pairs. -/
def collectHashes (pairs : List HashPair) : List String :=
  pairs.foldl (fun hashes p => [p.hashA, p.hashB].foldl addHash hashes) []

/-- `hash_index`, which holds the place of every hash. -/
def hashIndex (hashes : List String) (h : String) : Option (Fin hashes.length) :=
  hashes.finIdxOf? h

/-- A pair by the places of its hashes. -/
structure IndexPair (n : Nat) where
  a : Fin n
  b : Fin n
  similarity : ℚ

def indexPairs (hashes : List String) (pairs : List HashPair) :
    Option (List (IndexPair hashes.length)) :=
  pairs.mapM fun p => do
    let a ← hashIndex hashes p.hashA
    let b ← hashIndex hashes p.hashB
    return ⟨a, b, p.similarity⟩

/-- `group_max_sim` after a pair whose root is known. -/
def recordSimilarity {n : Nat} (sims : Fin n → Option ℚ) (root : Fin n) (p : IndexPair n) :
    Fin n → Option ℚ :=
  let e := (sims root).getD 0
  Function.update sims root (some (if p.similarity > e then p.similarity else e))

/-- `group_members` after an image whose root is known. -/
def pushMember {n : Nat} (members : List (Fin n × List (Fin n))) (root : Fin n) (i : Fin n) :
    List (Fin n × List (Fin n)) :=
  let old := ((members.find? fun e => e.1 = root).map Prod.snd).getD []
  Keyed.put Prod.fst members (root, old ++ [i])

/-- The rows of the user's live images among the hashes. -/
def metaRows (images : List ShownRow) (userId : UserId) (hashes : List String) : List ShownRow :=
  images.filter fun row => row.hash ∈ hashes && row.userId = userId && !row.deleted

def metaMap (rows : List ShownRow) : List DuplicateImage :=
  rows.foldl (fun map row => Keyed.put DuplicateImage.hash map row.toImage) []

/-- The group of a root, unless fewer than two of its images are live. -/
def toGroup (hashes : List String) (map : List DuplicateImage) (sims : Fin hashes.length → Option ℚ)
    (entry : Fin hashes.length × List (Fin hashes.length)) : Option DuplicateGroup :=
  let images := entry.2.filterMap fun i => map.find? fun image => image.hash = hashes.get i
  if images.length < 2 then none else some ⟨(sims entry.1).getD 0, images⟩

def sortGroups (groups : List DuplicateGroup) : List DuplicateGroup :=
  groups.mergeSort fun a b => b.similarity ≤ a.similarity

/-- The groups as they come out of the hash map. -/
def unsortedGroups (fuel : Nat) (order : MapOrder) (images : List ShownRow) (userId : UserId)
    (pairs : List HashPair) : Option (List DuplicateGroup) := do
  let hashes := collectHashes pairs
  let indexed ← indexPairs hashes pairs
  let uf ← (UnionFind.new (Fin hashes.length)).unions fuel (indexed.map fun p => (p.a, p.b))
  let sims ← uf.foldRoots fuel IndexPair.a recordSimilarity indexed fun _ => none
  let members ← sims.1.foldRoots fuel id pushMember (List.finRange hashes.length) []
  let groups := (order.iterate members.2).filter fun entry => 2 ≤ entry.2.length
  return groups.filterMap (toGroup hashes (metaMap (metaRows images userId hashes)) sims.2)

/-- `build_groups`, `none` where a search runs out of fuel. -/
def buildGroups (fuel : Nat) (order : MapOrder) (images : List ShownRow) (userId : UserId)
    (pairs : List HashPair) : Option (List DuplicateGroup) :=
  if pairs.isEmpty then some []
  else (unsortedGroups fuel order images userId pairs).map sortGroups

/-- A chain of pairs joins two images. -/
def Joined (pairs : List HashPair) : String → String → Prop :=
  EqvGen fun a b => ∃ p ∈ pairs, p.hashA = a ∧ p.hashB = b

def LiveImage (images : List ShownRow) (userId : UserId) (h : String) : Prop :=
  ∃ row ∈ images, row.hash = h ∧ row.userId = userId ∧ row.deleted = false

/-- What is live of a component, and has at least two images. -/
def IsDuplicateComponent (pairs : List HashPair) (live : String → Prop) (c : Set String) : Prop :=
  c.Nontrivial ∧ ∃ a, c = {b | live b ∧ Joined pairs a b}

def DuplicateGroup.hashes (g : DuplicateGroup) : Set String := {h | ∃ i ∈ g.images, i.hash = h}

/-- The groups are the components of all the pairs, each cut down to its live images, with the
greatest similarity of the pairs of the whole component. -/
structure AreComponents (images : List ShownRow) (userId : UserId) (pairs : List HashPair)
    (groups : List DuplicateGroup) : Prop where
  components : ∀ c, (∃ g ∈ groups, g.hashes = c) ↔
    IsDuplicateComponent pairs (LiveImage images userId) c
  rows : ∀ g ∈ groups, ∀ i ∈ g.images,
    ∃ row ∈ images, row.userId = userId ∧ row.deleted = false ∧ i = row.toImage
  once : (groups.flatMap fun g => g.images.map DuplicateImage.hash).Nodup
  together : ∀ a b, LiveImage images userId a → LiveImage images userId b → a ≠ b →
    ((∃ g ∈ groups, a ∈ g.hashes ∧ b ∈ g.hashes) ↔ Joined pairs a b)
  similarity : ∀ g ∈ groups, ∀ h ∈ g.hashes,
    IsGreatest {s | ∃ p ∈ pairs, Joined pairs h p.hashA ∧ s = max 0 p.similarity} g.similarity

instance (images : List ShownRow) (userId : UserId) (h : String) :
    Decidable (LiveImage images userId h) :=
  inferInstanceAs (Decidable (∃ row ∈ images, row.hash = h ∧ row.userId = userId ∧
    row.deleted = false))

/-- The pairs of two live images of the user. -/
def livePairs (images : List ShownRow) (userId : UserId) (pairs : List HashPair) : List HashPair :=
  pairs.filter fun p => LiveImage images userId p.hashA ∧ LiveImage images userId p.hashB

/-- The groups are the components of the pairs of live images, with the greatest similarity of the
pairs inside. -/
structure AreLiveComponents (images : List ShownRow) (userId : UserId) (pairs : List HashPair)
    (groups : List DuplicateGroup) : Prop where
  components : ∀ c, (∃ g ∈ groups, g.hashes = c) ↔
    IsDuplicateComponent (livePairs images userId pairs) (LiveImage images userId) c
  similarity : ∀ g ∈ groups, IsGreatest
    {s | ∃ p ∈ pairs, p.hashA ∈ g.hashes ∧ p.hashB ∈ g.hashes ∧ s = p.similarity} g.similarity

theorem foldl_addHash (hs : List String) {hashes : List String} (hn : hashes.Nodup) :
    (hs.foldl addHash hashes).Nodup ∧ ∀ h, h ∈ hs.foldl addHash hashes ↔ h ∈ hashes ∨ h ∈ hs := by
  induction hs generalizing hashes with
  | nil => exact ⟨hn, fun h => by simp⟩
  | cons first rest ih =>
    have hadd : (addHash hashes first).Nodup ∧
        ∀ h, h ∈ addHash hashes first ↔ h ∈ hashes ∨ h = first := by
      unfold addHash
      split
      next hmem => exact ⟨hn, fun h => ⟨Or.inl, fun hh => hh.elim id fun heq => heq ▸ hmem⟩⟩
      next hnew =>
        refine ⟨List.nodup_append.mpr ⟨hn, List.nodup_singleton first, ?_⟩, fun h => by simp⟩
        intro a ha b hb heq
        rw [List.mem_singleton] at hb
        exact hnew (hb ▸ heq ▸ ha)
    obtain ⟨hrest, hmem⟩ := ih hadd.1
    refine ⟨hrest, fun h => ?_⟩
    rw [List.foldl_cons, hmem, hadd.2, List.mem_cons, or_assoc]

theorem collectHashes_eq (pairs : List HashPair) :
    collectHashes pairs = (pairs.flatMap fun p => [p.hashA, p.hashB]).foldl addHash [] :=
  List.foldl_flatMap.symm

theorem collectHashes_nodup (pairs : List HashPair) : (collectHashes pairs).Nodup := by
  rw [collectHashes_eq]
  exact (foldl_addHash _ List.nodup_nil).1

theorem mem_collectHashes {pairs : List HashPair} {h : String} :
    h ∈ collectHashes pairs ↔ ∃ p ∈ pairs, h = p.hashA ∨ h = p.hashB := by
  rw [collectHashes_eq, (foldl_addHash _ List.nodup_nil).2]
  simp [List.mem_flatMap]

def IndexPair.toPair (hashes : List String) (p : IndexPair hashes.length) : HashPair :=
  ⟨hashes.get p.a, hashes.get p.b, p.similarity⟩

theorem hashIndex_of_mem {hashes : List String} {h : String} (hmem : h ∈ hashes) :
    ∃ i, hashIndex hashes h = some i ∧ hashes.get i = h := by
  cases hfind : hashIndex hashes h with
  | none => exact absurd hmem (List.finIdxOf?_eq_none_iff.mp hfind)
  | some i => exact ⟨i, rfl, (List.finIdxOf?_eq_some_iff.mp hfind).1⟩

theorem indexPairs_of_mem {hashes : List String} {pairs : List HashPair}
    (h : ∀ p ∈ pairs, p.hashA ∈ hashes ∧ p.hashB ∈ hashes) :
    ∃ indexed, indexPairs hashes pairs = some indexed ∧
      indexed.map (IndexPair.toPair hashes) = pairs := by
  induction pairs with
  | nil => exact ⟨[], rfl, rfl⟩
  | cons p rest ih =>
    obtain ⟨indexed, hindexed, hmap⟩ := ih fun q hq => h q (List.mem_cons_of_mem p hq)
    obtain ⟨hA, hB⟩ := h p List.mem_cons_self
    obtain ⟨a, ha, hgeta⟩ := hashIndex_of_mem hA
    obtain ⟨b, hb, hgetb⟩ := hashIndex_of_mem hB
    refine ⟨⟨a, b, p.similarity⟩ :: indexed, ?_, ?_⟩
    · unfold indexPairs at hindexed ⊢
      rw [List.mapM_cons, hindexed, ha, hb]
      rfl
    · rw [List.map_cons, hmap, IndexPair.toPair, hgeta, hgetb]

theorem indexPairs_collectHashes (pairs : List HashPair) :
    ∃ indexed, indexPairs (collectHashes pairs) pairs = some indexed ∧
      indexed.map (IndexPair.toPair (collectHashes pairs)) = pairs :=
  indexPairs_of_mem fun p hp =>
    ⟨mem_collectHashes.mpr ⟨p, hp, Or.inl rfl⟩, mem_collectHashes.mpr ⟨p, hp, Or.inr rfl⟩⟩

theorem joined_equivalence (pairs : List HashPair) : Equivalence (Joined pairs) :=
  EqvGen.is_equivalence _

/-- A chain of pairs that moves at all joins hashes of the pairs. -/
theorem Joined.eq_or_mem {pairs : List HashPair} {a b : String} (h : Joined pairs a b) :
    a = b ∨ a ∈ collectHashes pairs ∧ b ∈ collectHashes pairs := by
  induction h with
  | rel a b h =>
    obtain ⟨p, hp, rfl, rfl⟩ := h
    exact Or.inr ⟨mem_collectHashes.mpr ⟨p, hp, Or.inl rfl⟩,
      mem_collectHashes.mpr ⟨p, hp, Or.inr rfl⟩⟩
  | refl a => exact Or.inl rfl
  | symm a b _ ih => exact ih.imp Eq.symm And.symm
  | trans a b c _ _ ih ih' =>
    rcases ih with rfl | ⟨ha, hb⟩
    · exact ih'
    · rcases ih' with rfl | ⟨-, hc⟩
      · exact Or.inr ⟨ha, hb⟩
      · exact Or.inr ⟨ha, hc⟩

theorem Joined.mem {pairs : List HashPair} {a b : String} (h : Joined pairs a b)
    (ha : a ∈ collectHashes pairs) : b ∈ collectHashes pairs := by
  rcases h.eq_or_mem with rfl | ⟨-, hb⟩
  · exact ha
  · exact hb

/-- Places are in one tree after the unions exactly where a chain of pairs joins their hashes. -/
theorem same_iff_joined {hashes : List String} (hn : hashes.Nodup)
    {indexed : List (IndexPair hashes.length)} {uf : UnionFind (Fin hashes.length)}
    (hsame : ∀ i j, Same uf i j ↔ EqvGen (fun i j => Same (.new (Fin hashes.length)) i j ∨
      (i, j) ∈ indexed.map fun p => (p.a, p.b)) i j) (i j : Fin hashes.length) :
    Same uf i j ↔
      Joined (indexed.map (IndexPair.toPair hashes)) (hashes.get i) (hashes.get j) := by
  have hget : Function.Injective hashes.get := List.nodup_iff_injective_get.mp hn
  have hnew : ∀ i j, Same (.new (Fin hashes.length)) i j ↔ i = j := by
    intro i j
    refine ⟨fun ⟨r, hi, hj⟩ => ?_, fun heq => ⟨i, .root rfl, heq ▸ .root rfl⟩⟩
    exact (hi.unique (.root rfl)).symm.trans (hj.unique (.root rfl))
  rw [hsame]
  constructor
  · refine eqvGen_le ((joined_equivalence _).comap hashes.get) fun i j hij => ?_
    rcases hij with hij | hij
    · rw [(hnew i j).mp hij]
      exact (joined_equivalence _).refl _
    · obtain ⟨p, hp, heq⟩ := List.mem_map.mp hij
      cases heq
      exact .rel _ _ ⟨_, List.mem_map_of_mem hp, rfl, rfl⟩
  · intro hij
    have hequiv := EqvGen.is_equivalence fun i j => Same (.new (Fin hashes.length)) i j ∨
      (i, j) ∈ indexed.map fun p => (p.a, p.b)
    have hplaces : ∀ {a b}, Joined (indexed.map (IndexPair.toPair hashes)) a b →
        a = b ∨ ∃ i j, hashes.get i = a ∧ hashes.get j = b ∧
          EqvGen (fun i j => Same (.new (Fin hashes.length)) i j ∨
            (i, j) ∈ indexed.map fun p => (p.a, p.b)) i j := by
      intro a b hab
      induction hab with
      | rel a b h =>
        obtain ⟨q, hq, rfl, rfl⟩ := h
        obtain ⟨p, hp, rfl⟩ := List.mem_map.mp hq
        exact Or.inr ⟨p.a, p.b, rfl, rfl, .rel _ _ (Or.inr (List.mem_map.mpr ⟨p, hp, rfl⟩))⟩
      | refl a => exact Or.inl rfl
      | symm a b _ ih =>
        exact ih.imp Eq.symm fun ⟨i, j, hi, hj, hij⟩ => ⟨j, i, hj, hi, hequiv.symm hij⟩
      | trans a b c _ _ ih ih' =>
        rcases ih with rfl | ⟨i, j, hi, hj, hij⟩
        · exact ih'
        · rcases ih' with rfl | ⟨j', k, hj', hk, hjk⟩
          · exact Or.inr ⟨i, j, hi, hj, hij⟩
          · cases hget (hj.trans hj'.symm)
            exact Or.inr ⟨i, k, hi, hk, hequiv.trans hij hjk⟩
    rcases hplaces hij with heq | ⟨i', j', hi, hj, hrel⟩
    · rw [hget heq]
      exact hequiv.refl j
    · rwa [hget hi, hget hj] at hrel

/-- The similarity of every root is the greatest one of its pairs, or 0. -/
theorem foldl_recordSimilarity {n : Nat} (root : Fin n → Fin n) (indexed : List (IndexPair n))
    (r : Fin n) :
    IsGreatest (insert 0 {s | ∃ p ∈ indexed, root p.a = r ∧ s = p.similarity})
      (((indexed.foldl (fun sims p => recordSimilarity sims (root p.a) p) fun _ => none) r).getD
        0) := by
  induction indexed using List.reverseRecOn with
  | nil => exact ⟨Set.mem_insert 0 _, fun s hs => le_of_eq (by simpa using hs)⟩
  | append_singleton done p ih =>
    rw [List.foldl_append, List.foldl_cons, List.foldl_nil]
    generalize done.foldl (fun sims p => recordSimilarity sims (root p.a) p) (fun _ => none) =
      sims at ih ⊢
    by_cases hr : root p.a = r
    · have hset : insert 0 {s | ∃ q ∈ done ++ [p], root q.a = r ∧ s = q.similarity} =
          insert p.similarity (insert 0 {s | ∃ q ∈ done, root q.a = r ∧ s = q.similarity}) := by
        ext s
        simp only [Set.mem_insert_iff, Set.mem_ofPred_eq, List.mem_append, List.mem_singleton]
        constructor
        · rintro (hs | ⟨q, hq | rfl, hrq, hs⟩)
          · exact Or.inr (Or.inl hs)
          · exact Or.inr (Or.inr ⟨q, hq, hrq, hs⟩)
          · exact Or.inl hs
        · rintro (hs | hs | ⟨q, hq, hrq, hs⟩)
          · exact Or.inr ⟨p, Or.inr rfl, hr, hs⟩
          · exact Or.inl hs
          · exact Or.inr ⟨q, Or.inl hq, hrq, hs⟩
      have hvalue : (recordSimilarity sims (root p.a) p r).getD 0 =
          max p.similarity ((sims r).getD 0) := by
        rw [recordSimilarity, hr, Function.update_self, Option.getD_some]
        split
        next hgt => exact (max_eq_left hgt.le).symm
        next hle => exact (max_eq_right (not_lt.mp hle)).symm
      rw [hset, hvalue]
      exact ih.insert p.similarity
    · have hset : {s | ∃ q ∈ done ++ [p], root q.a = r ∧ s = q.similarity} =
          {s | ∃ q ∈ done, root q.a = r ∧ s = q.similarity} := by
        ext s
        simp only [Set.mem_ofPred_eq, List.mem_append, List.mem_singleton]
        constructor
        · rintro ⟨q, hq | rfl, hrq, hs⟩
          · exact ⟨q, hq, hrq, hs⟩
          · exact absurd hrq hr
        · rintro ⟨q, hq, hrq, hs⟩
          exact ⟨q, Or.inl hq, hrq, hs⟩
      have hvalue : recordSimilarity sims (root p.a) p r = sims r :=
        Function.update_of_ne (Ne.symm hr) _ sims
      rw [hset, hvalue]
      exact ih

/-- The members of every root are the places whose root it is. -/
theorem foldl_pushMember {n : Nat} (root : Fin n → Fin n) (places : List (Fin n)) :
    ((places.foldl (fun members i => pushMember members (root i) i) []).map Prod.fst).Nodup ∧
      ∀ r members, (r, members) ∈ places.foldl (fun members i => pushMember members (root i) i) [] ↔
        members = places.filter (fun i => root i = r) ∧ members ≠ [] := by
  induction places using List.reverseRecOn with
  | nil =>
    refine ⟨List.nodup_nil, fun r members => ⟨fun h => by simp at h, ?_⟩⟩
    rintro ⟨rfl, hne⟩
    exact absurd rfl hne
  | append_singleton done i ih =>
    obtain ⟨hkeys, hmem⟩ := ih
    rw [List.foldl_append, List.foldl_cons, List.foldl_nil]
    generalize done.foldl (fun members i => pushMember members (root i) i) [] = entries at hkeys hmem ⊢
    have hold : ((entries.find? fun e => e.1 = root i).map Prod.snd).getD [] =
        done.filter fun j => root j = root i := by
      cases hfound : (entries.find? fun e => e.1 = root i).map Prod.snd with
      | some members => exact ((hmem _ _).mp (Keyed.mem_of_lookup hfound)).1
      | none =>
        by_contra hne
        have hentry := (hmem (root i) _).mpr ⟨rfl, Ne.symm hne⟩
        rw [Keyed.lookup_of_mem hkeys hentry] at hfound
        exact absurd hfound (by simp)
    refine ⟨Keyed.nodup_put hkeys _, fun r members => ?_⟩
    rw [pushMember, Keyed.mem_put, hold, List.filter_append, Prod.mk.injEq]
    by_cases hr : root i = r
    · subst hr
      have hne : ∀ members, members = done.filter (fun j => root j = root i) ++ [i] →
          members ≠ [] := by
        rintro _ rfl
        simp
      simpa using hne members
    · have hr' : r ≠ root i := Ne.symm hr
      simp [hmem, hr, hr']

theorem mem_metaRows {images : List ShownRow} {userId : UserId} {hashes : List String}
    {row : ShownRow} : row ∈ metaRows images userId hashes ↔
      row ∈ images ∧ row.hash ∈ hashes ∧ row.userId = userId ∧ row.deleted = false := by
  simp [metaRows, and_assoc]

theorem foldl_metaMap (rows : List ShownRow) :
    ((metaMap rows).map DuplicateImage.hash).Nodup ∧
      (∀ image ∈ metaMap rows, ∃ row ∈ rows, image = row.toImage) ∧
      ∀ row ∈ rows, ∃ image ∈ metaMap rows, image.hash = row.hash := by
  unfold metaMap
  induction rows using List.reverseRecOn with
  | nil => exact ⟨List.nodup_nil, by simp, by simp⟩
  | append_singleton done row ih =>
    obtain ⟨hkeys, hfrom, hinto⟩ := ih
    rw [List.foldl_append, List.foldl_cons, List.foldl_nil]
    refine ⟨Keyed.nodup_put hkeys _, fun image himage => ?_, fun other hother => ?_⟩
    · rcases Keyed.mem_put.mp himage with rfl | ⟨himage, -⟩
      · exact ⟨row, by simp, rfl⟩
      · obtain ⟨old, hmem, heq⟩ := hfrom image himage
        exact ⟨old, List.mem_append_left _ hmem, heq⟩
    · by_cases hhash : other.hash = row.hash
      · exact ⟨row.toImage, Keyed.mem_put.mpr (Or.inl rfl), hhash.symm⟩
      · rcases List.mem_append.mp hother with hmem | hmem
        · obtain ⟨image, himage, heq⟩ := hinto other hmem
          refine ⟨image, Keyed.mem_put.mpr (Or.inr ⟨himage, ?_⟩), heq⟩
          rw [heq]
          exact hhash
        · exact absurd (by rw [List.mem_singleton.mp hmem]) hhash

/-- A hash of the pairs has an image in the map exactly where the user has a live one. -/
theorem find_metaMap {images : List ShownRow} {userId : UserId} {hashes : List String} {h : String}
    (hmem : h ∈ hashes) :
    (((metaMap (metaRows images userId hashes)).find? fun image => image.hash = h).isSome ↔
      LiveImage images userId h) := by
  obtain ⟨-, hfrom, hinto⟩ := foldl_metaMap (metaRows images userId hashes)
  rw [List.find?_isSome]
  constructor
  · rintro ⟨image, himage, hhash⟩
    obtain ⟨row, hrow, rfl⟩ := hfrom image himage
    obtain ⟨hin, -, huser, hlive⟩ := mem_metaRows.mp hrow
    exact ⟨row, hin, of_decide_eq_true hhash, huser, hlive⟩
  · rintro ⟨row, hin, rfl, huser, hlive⟩
    obtain ⟨image, himage, hhash⟩ := hinto row (mem_metaRows.mpr ⟨hin, hmem, huser, hlive⟩)
    exact ⟨image, himage, by simpa using hhash⟩

/-- The two maps of `build_groups` and the roots they are keyed by. -/
structure Grouping (pairs : List HashPair) where
  root : Fin (collectHashes pairs).length → Fin (collectHashes pairs).length
  sims : Fin (collectHashes pairs).length → Option ℚ
  members : List (Fin (collectHashes pairs).length × List (Fin (collectHashes pairs).length))
  root_iff : ∀ i j, root i = root j ↔
    Joined pairs ((collectHashes pairs).get i) ((collectHashes pairs).get j)
  greatest : ∀ i, IsGreatest
    (insert 0 {s | ∃ p ∈ pairs, Joined pairs ((collectHashes pairs).get i) p.hashA ∧
      s = p.similarity}) ((sims (root i)).getD 0)
  keys_nodup : (members.map Prod.fst).Nodup
  mem_members : ∀ r places, (r, places) ∈ members ↔
    places = (List.finRange (collectHashes pairs).length).filter (fun i => root i = r) ∧ places ≠ []

namespace Grouping

variable {pairs : List HashPair} (G : Grouping pairs) (images : List ShownRow) (userId : UserId)

def groupOf (entry : Fin (collectHashes pairs).length × List (Fin (collectHashes pairs).length)) :
    Option DuplicateGroup :=
  toGroup (collectHashes pairs) (metaMap (metaRows images userId (collectHashes pairs))) G.sims entry

/-- The groups as they come out of a hash map. -/
def groups (order : MapOrder) : List DuplicateGroup :=
  ((order.iterate G.members).filter fun entry => 2 ≤ entry.2.length).filterMap
    (G.groupOf images userId)

end Grouping

/-- With fuel for every image the groups are computed, from one grouping in any order. -/
theorem exists_grouping {fuel : Nat} {pairs : List HashPair} (hne : pairs ≠ [])
    (hfuel : (collectHashes pairs).length ≤ fuel) :
    ∃ G : Grouping pairs, ∀ order images userId,
      buildGroups fuel order images userId pairs =
        some (sortGroups (G.groups images userId order)) := by
  have hcard : Fintype.card (Fin (collectHashes pairs).length) ≤ fuel := by
    rwa [Fintype.card_fin]
  have hn := collectHashes_nodup pairs
  obtain ⟨indexed, hindexed, hmap⟩ := indexPairs_collectHashes pairs
  obtain ⟨uf, hunions⟩ := UnionFind.unions_ends UnionFind.new_ranked hcard
    (indexed.map fun p => (p.a, p.b))
  obtain ⟨hranked, hsame⟩ := UnionFind.unions_some UnionFind.new_ranked hunions
  choose root hroot using fun x => hranked.exists_rootOf x
  obtain ⟨uf₁, hsims, hranked₁, hroot₁⟩ := UnionFind.foldRoots_eq IndexPair.a
    recordSimilarity hranked hcard hroot indexed fun _ => none
  obtain ⟨uf₂, hmembers, -, -⟩ := UnionFind.foldRoots_eq id pushMember
    hranked₁ hcard hroot₁ (List.finRange (collectHashes pairs).length) []
  have hiff : ∀ i j, root i = root j ↔
      Joined pairs ((collectHashes pairs).get i) ((collectHashes pairs).get j) := by
    intro i j
    have hjoined := same_iff_joined hn hsame i j
    rw [hmap] at hjoined
    rw [← hjoined]
    exact ⟨fun heq => ⟨root i, hroot i, heq ▸ hroot j⟩,
      fun ⟨r, hi, hj⟩ => ((hroot i).unique hi).trans ((hroot j).unique hj).symm⟩
  obtain ⟨hkeys, hmem⟩ := foldl_pushMember root (List.finRange (collectHashes pairs).length)
  refine ⟨⟨root, indexed.foldl (fun sims p => recordSimilarity sims (root p.a) p) fun _ => none, _,
    hiff, fun i => ?_, hkeys, hmem⟩, fun order images userId => ?_⟩
  · have hset : {s | ∃ p ∈ pairs, Joined pairs ((collectHashes pairs).get i) p.hashA ∧
        s = p.similarity} = {s | ∃ p ∈ indexed, root p.a = root i ∧ s = p.similarity} := by
      ext s
      constructor
      · rintro ⟨p, hp, hjoined, rfl⟩
        rw [← hmap] at hp
        obtain ⟨q, hq, rfl⟩ := List.mem_map.mp hp
        exact ⟨q, hq, ((hiff i q.a).mpr hjoined).symm, rfl⟩
      · rintro ⟨q, hq, hr, rfl⟩
        exact ⟨q.toPair _, (List.Perm.of_eq hmap).subset (List.mem_map_of_mem hq),
          (hiff i q.a).mp hr.symm, rfl⟩
    rw [hset]
    exact foldl_recordSimilarity root indexed (root i)
  · unfold buildGroups unsortedGroups
    rw [if_neg (by simpa using hne)]
    simp only [hindexed, hunions, Option.bind_eq_bind, Option.bind_some]
    rw [hsims]
    simp only [Option.bind_some]
    rw [hmembers]
    rfl

theorem two_le_length_iff {hs : List String} (hn : hs.Nodup) :
    2 ≤ hs.length ↔ {h | h ∈ hs}.Nontrivial := by
  match hs, hn with
  | [], _ => exact ⟨fun h => by simp at h, fun ⟨x, hx, _⟩ => absurd hx List.not_mem_nil⟩
  | [first], _ =>
    refine ⟨fun h => by simp at h, fun ⟨x, hx, y, hy, hne⟩ => ?_⟩
    exact absurd ((List.mem_singleton.mp hx).trans (List.mem_singleton.mp hy).symm) hne
  | first :: second :: rest, hn =>
    refine ⟨fun _ => ⟨first, List.mem_cons_self, second, by simp, ?_⟩, fun _ => by simp⟩
    exact fun heq => (List.nodup_cons.mp hn).1 (heq ▸ List.mem_cons_self)

namespace Grouping

variable {pairs : List HashPair} (G : Grouping pairs) (images : List ShownRow) (userId : UserId)

/-- The places whose root is given. -/
def placesOf (r : Fin (collectHashes pairs).length) : List (Fin (collectHashes pairs).length) :=
  (List.finRange (collectHashes pairs).length).filter fun i => G.root i = r

/-- The images of the places whose root is given. -/
def imagesOf (r : Fin (collectHashes pairs).length) : List DuplicateImage :=
  (G.placesOf r).filterMap fun i =>
    (metaMap (metaRows images userId (collectHashes pairs))).find? fun image =>
      image.hash = (collectHashes pairs).get i

theorem mem_imagesOf {r : Fin (collectHashes pairs).length} {image : DuplicateImage}
    (h : image ∈ G.imagesOf images userId r) :
    ∃ row ∈ images, row.userId = userId ∧ row.deleted = false ∧ image = row.toImage := by
  obtain ⟨i, -, hfound⟩ := List.mem_filterMap.mp h
  obtain ⟨row, hrow, heq⟩ := (foldl_metaMap _).2.1 image (List.mem_of_find?_eq_some hfound)
  obtain ⟨hin, -, huser, hlive⟩ := mem_metaRows.mp hrow
  exact ⟨row, hin, huser, hlive, heq⟩

theorem map_hash_imagesOf (r : Fin (collectHashes pairs).length) :
    (G.imagesOf images userId r).map DuplicateImage.hash =
      ((G.placesOf r).map (collectHashes pairs).get).filter fun h =>
        ((metaMap (metaRows images userId (collectHashes pairs))).find? fun image =>
          image.hash = h).isSome := by
  unfold imagesOf
  induction G.placesOf r with
  | nil => rfl
  | cons i rest ih =>
    rw [List.filterMap_cons, List.map_cons, List.filter_cons]
    cases hfound : (metaMap (metaRows images userId (collectHashes pairs))).find? fun image =>
        image.hash = (collectHashes pairs).get i with
    | none => simpa using ih
    | some image =>
      have hhash : image.hash = (collectHashes pairs).get i :=
        by simpa using List.find?_some hfound
      simpa [hhash] using ih

theorem hashes_nodup (r : Fin (collectHashes pairs).length) :
    ((G.imagesOf images userId r).map DuplicateImage.hash).Nodup := by
  rw [map_hash_imagesOf]
  refine List.Nodup.filter _ (List.Nodup.map ?_ ((List.nodup_finRange _).filter _))
  exact List.nodup_iff_injective_get.mp (collectHashes_nodup pairs)

theorem mem_hashes_iff {r : Fin (collectHashes pairs).length} {h : String} :
    h ∈ (G.imagesOf images userId r).map DuplicateImage.hash ↔
      LiveImage images userId h ∧ ∃ i, (collectHashes pairs).get i = h ∧ G.root i = r := by
  rw [map_hash_imagesOf, List.mem_filter, List.mem_map]
  simp only [placesOf, List.mem_filter, List.mem_finRange, true_and, decide_eq_true_eq]
  constructor
  · rintro ⟨⟨i, hr, rfl⟩, hfound⟩
    exact ⟨(find_metaMap (List.get_mem _ i)).mp hfound, i, rfl, hr⟩
  · rintro ⟨hlive, i, rfl, hr⟩
    exact ⟨⟨i, hr, rfl⟩, (find_metaMap (List.get_mem _ i)).mpr hlive⟩

/-- The live images of a component, by the place of one of its hashes. -/
theorem hashSet_eq (i : Fin (collectHashes pairs).length) :
    {h | h ∈ (G.imagesOf images userId (G.root i)).map DuplicateImage.hash} =
      {h | LiveImage images userId h ∧ Joined pairs ((collectHashes pairs).get i) h} := by
  ext h
  refine (G.mem_hashes_iff images userId).trans (and_congr_right fun _ => ?_)
  constructor
  · rintro ⟨j, rfl, hr⟩
    exact (G.root_iff i j).mp hr.symm
  · intro hjoined
    obtain ⟨j, rfl⟩ := List.mem_iff_get.mp (hjoined.mem (List.get_mem _ i))
    exact ⟨j, rfl, ((G.root_iff i j).mpr hjoined).symm⟩

theorem groupOf_eq (r : Fin (collectHashes pairs).length) :
    G.groupOf images userId (r, G.placesOf r) =
      if (G.imagesOf images userId r).length < 2 then none
      else some ⟨(G.sims r).getD 0, G.imagesOf images userId r⟩ := rfl

theorem mem_groups_iff {order : MapOrder} {g : DuplicateGroup} :
    g ∈ G.groups images userId order ↔ ∃ i, 2 ≤ (G.imagesOf images userId (G.root i)).length ∧
      g = ⟨(G.sims (G.root i)).getD 0, G.imagesOf images userId (G.root i)⟩ := by
  unfold groups
  rw [List.mem_filterMap]
  constructor
  · rintro ⟨⟨r, places⟩, hentry, hgroup⟩
    obtain ⟨hmem, -⟩ := List.mem_filter.mp hentry
    obtain ⟨hplaces, hne⟩ := (G.mem_members r places).mp ((order.perm _).subset hmem)
    obtain ⟨i, hi⟩ := List.exists_mem_of_ne_nil _ hne
    rw [hplaces] at hi
    have hr : G.root i = r := by simpa using (List.mem_filter.mp hi).2
    subst hr
    rw [show places = G.placesOf (G.root i) from hplaces, groupOf_eq] at hgroup
    split at hgroup
    next => simp at hgroup
    next hlen => exact ⟨i, by omega, (Option.some.inj hgroup).symm⟩
  · rintro ⟨i, hlen, rfl⟩
    have hi : i ∈ G.placesOf (G.root i) := by simp [placesOf]
    refine ⟨(G.root i, G.placesOf (G.root i)), List.mem_filter.mpr ⟨?_, ?_⟩, ?_⟩
    · exact (order.perm _).symm.subset ((G.mem_members _ _).mpr ⟨rfl, List.ne_nil_of_mem hi⟩)
    · have hle : (G.imagesOf images userId (G.root i)).length ≤ (G.placesOf (G.root i)).length :=
        List.length_filterMap_le _ _
      simpa using hlen.trans hle
    · rw [groupOf_eq, if_neg (by omega)]

theorem groups_disjoint (order : MapOrder) :
    ((G.groups images userId order).flatMap fun g => g.images.map DuplicateImage.hash).Nodup := by
  rw [List.nodup_flatMap]
  refine ⟨fun g hg => ?_, ?_⟩
  · obtain ⟨i, -, rfl⟩ := (G.mem_groups_iff images userId).mp hg
    exact G.hashes_nodup images userId _
  · have hkeys : (((order.iterate G.members).filter fun entry => 2 ≤ entry.2.length).map
        Prod.fst).Nodup :=
      (((order.perm G.members).map Prod.fst).nodup_iff.mpr G.keys_nodup).sublist
        (List.filter_sublist.map Prod.fst)
    unfold groups
    rw [List.pairwise_filterMap]
    refine (List.pairwise_map.mp hkeys).imp_of_mem ?_
    intro e e' he he' hne g hg g' hg'
    have hplaces : ∀ e ∈ (order.iterate G.members).filter fun entry => 2 ≤ entry.2.length,
        e.2 = G.placesOf e.1 := fun e he =>
      ((G.mem_members e.1 e.2).mp ((order.perm _).subset (List.mem_filter.mp he).1)).1
    have himages : ∀ e ∈ (order.iterate G.members).filter fun entry => 2 ≤ entry.2.length,
        ∀ g, G.groupOf images userId e = some g → g.images = G.imagesOf images userId e.1 := by
      intro e he g hg
      have heq : e = (e.1, G.placesOf e.1) := Prod.ext rfl (hplaces e he)
      rw [heq, groupOf_eq] at hg
      split at hg
      next => simp at hg
      next => cases Option.some.inj hg; rfl
    intro h hh hh'
    change h ∈ g.images.map DuplicateImage.hash at hh
    change h ∈ g'.images.map DuplicateImage.hash at hh'
    rw [himages e he g hg] at hh
    rw [himages e' he' g' hg'] at hh'
    obtain ⟨-, i, rfl, hr⟩ := (G.mem_hashes_iff images userId).mp hh
    obtain ⟨-, i', hi', hr'⟩ := (G.mem_hashes_iff images userId).mp hh'
    cases List.nodup_iff_injective_get.mp (collectHashes_nodup pairs) hi'
    exact hne (hr.symm.trans hr')

theorem groups_components (order : MapOrder) :
    AreComponents images userId pairs (G.groups images userId order) := by
  have hequiv := joined_equivalence pairs
  have hset : ∀ i, DuplicateGroup.hashes
      ⟨(G.sims (G.root i)).getD 0, G.imagesOf images userId (G.root i)⟩ =
        {h | LiveImage images userId h ∧ Joined pairs ((collectHashes pairs).get i) h} := by
    intro i
    rw [← G.hashSet_eq images userId i]
    ext h
    simp [DuplicateGroup.hashes]
  have hmany : ∀ i, 2 ≤ (G.imagesOf images userId (G.root i)).length ↔
      {h | LiveImage images userId h ∧
        Joined pairs ((collectHashes pairs).get i) h}.Nontrivial := by
    intro i
    have hlen := two_le_length_iff (G.hashes_nodup images userId (G.root i))
    rwa [List.length_map, G.hashSet_eq images userId i] at hlen
  refine ⟨fun c => ⟨?_, ?_⟩, ?_, G.groups_disjoint images userId order, ?_, ?_⟩
  · rintro ⟨g, hg, rfl⟩
    obtain ⟨i, hlen, rfl⟩ := (G.mem_groups_iff images userId).mp hg
    rw [hset]
    exact ⟨(hmany i).mp hlen, (collectHashes pairs).get i, rfl⟩
  · rintro ⟨hc, a, rfl⟩
    have hmoved : ∃ b ∈ collectHashes pairs, Joined pairs a b := by
      obtain ⟨b, ⟨-, hab⟩, b', ⟨-, hab'⟩, hne⟩ := hc
      have hbb' : Joined pairs b b' := hequiv.trans (hequiv.symm hab) hab'
      exact ⟨b, (hbb'.eq_or_mem.resolve_left hne).1, hab⟩
    obtain ⟨b, hb, hab⟩ := hmoved
    obtain ⟨i, rfl⟩ := List.mem_iff_get.mp hb
    have heq : {h | LiveImage images userId h ∧ Joined pairs a h} =
        {h | LiveImage images userId h ∧ Joined pairs ((collectHashes pairs).get i) h} := by
      ext h
      exact and_congr_right fun _ =>
        ⟨fun hah => hequiv.trans (hequiv.symm hab) hah, fun hbh => hequiv.trans hab hbh⟩
    rw [heq] at hc ⊢
    exact ⟨_, (G.mem_groups_iff images userId).mpr ⟨i, (hmany i).mpr hc, rfl⟩, hset i⟩
  · intro g hg image himage
    obtain ⟨i, -, rfl⟩ := (G.mem_groups_iff images userId).mp hg
    exact G.mem_imagesOf images userId himage
  · intro a b ha hb hne
    constructor
    · rintro ⟨g, hg, hag, hbg⟩
      obtain ⟨i, -, rfl⟩ := (G.mem_groups_iff images userId).mp hg
      rw [hset] at hag hbg
      exact hequiv.trans (hequiv.symm hag.2) hbg.2
    · intro hab
      obtain ⟨i, rfl⟩ := List.mem_iff_get.mp (hab.eq_or_mem.resolve_left hne).1
      have hin : ∀ {h}, LiveImage images userId h → Joined pairs ((collectHashes pairs).get i) h →
          h ∈ {h | LiveImage images userId h ∧ Joined pairs ((collectHashes pairs).get i) h} :=
        fun hlive hjoined => ⟨hlive, hjoined⟩
      have hselfin := hin ha (hequiv.refl _)
      have hbin := hin hb hab
      refine ⟨_, (G.mem_groups_iff images userId).mpr ⟨i, (hmany i).mpr ⟨_, hselfin, b, hbin, hne⟩,
        rfl⟩, ?_, ?_⟩
      · rw [hset]
        exact hselfin
      · rw [hset]
        exact hbin
  · intro g hg a ha
    obtain ⟨i, hlen, rfl⟩ := (G.mem_groups_iff images userId).mp hg
    rw [hset] at ha
    have hpairs : {s | ∃ p ∈ pairs, Joined pairs a p.hashA ∧ s = max 0 p.similarity} =
        {s | ∃ p ∈ pairs, Joined pairs ((collectHashes pairs).get i) p.hashA ∧
          s = max 0 p.similarity} := by
      ext s
      refine exists_congr fun p => and_congr_right fun _ => and_congr_left fun _ => ?_
      exact ⟨fun hap => hequiv.trans ha.2 hap, fun hip => hequiv.trans (hequiv.symm ha.2) hip⟩
    rw [hpairs]
    obtain ⟨hmem, hupper⟩ := G.greatest i
    have hpair : ∃ p ∈ pairs, Joined pairs ((collectHashes pairs).get i) p.hashA := by
      obtain ⟨p, hp, hA | hB⟩ := mem_collectHashes.mp (List.get_mem (collectHashes pairs) i)
      · exact ⟨p, hp, hA ▸ hequiv.refl _⟩
      · exact ⟨p, hp, hequiv.symm (hB ▸ .rel _ _ ⟨p, hp, rfl, rfl⟩)⟩
    have hzero := hupper (Set.mem_insert 0 _)
    refine ⟨?_, ?_⟩
    · rcases hmem with hmem | ⟨p, hp, hjoined, hmem⟩
      · obtain ⟨p, hp, hjoined⟩ := hpair
        have hle := hupper (Set.mem_insert_of_mem 0 ⟨p, hp, hjoined, rfl⟩)
        exact ⟨p, hp, hjoined, hmem.trans (max_eq_left (hle.trans_eq hmem)).symm⟩
      · exact ⟨p, hp, hjoined, hmem.trans (max_eq_right (hzero.trans_eq hmem)).symm⟩
    · rintro s ⟨p, hp, hjoined, rfl⟩
      exact max_le hzero (hupper (Set.mem_insert_of_mem 0 ⟨p, hp, hjoined, rfl⟩))

end Grouping

theorem sortGroups_perm (groups : List DuplicateGroup) : (sortGroups groups).Perm groups :=
  List.mergeSort_perm groups _

theorem AreComponents.perm {images : List ShownRow} {userId : UserId} {pairs : List HashPair}
    {groups groups' : List DuplicateGroup} (hperm : groups.Perm groups')
    (h : AreComponents images userId pairs groups) : AreComponents images userId pairs groups' where
  components c := by
    rw [← h.components c]
    exact exists_congr fun g => and_congr_left fun _ => hperm.mem_iff.symm
  rows g hg := h.rows g (hperm.mem_iff.mpr hg)
  once := (hperm.flatMap_right _).nodup_iff.mp h.once
  together a b ha hb hne := by
    rw [← h.together a b ha hb hne]
    exact exists_congr fun g => and_congr_left fun _ => hperm.mem_iff.symm
  similarity g hg := h.similarity g (hperm.mem_iff.mpr hg)

theorem joined_nil {a b : String} (h : Joined [] a b) : a = b :=
  h.eq_or_mem.elim id fun hmem => absurd hmem.1 (by simp [collectHashes])

theorem areComponents_nil (images : List ShownRow) (userId : UserId) :
    AreComponents images userId [] [] := by
  refine ⟨fun c => ⟨fun ⟨g, hg, _⟩ => absurd hg List.not_mem_nil, ?_⟩, fun g hg => ?_,
    List.nodup_nil, fun a b _ _ hne => ⟨fun ⟨g, hg, _⟩ => absurd hg List.not_mem_nil, ?_⟩,
    fun g hg => absurd hg List.not_mem_nil⟩
  · rintro ⟨⟨b, hb, b', hb', hne⟩, a, rfl⟩
    exact absurd ((joined_nil hb.2).symm.trans (joined_nil hb'.2)) hne
  · exact absurd hg List.not_mem_nil
  · exact fun hab => absurd (joined_nil hab) hne

theorem livePairs_eq {images : List ShownRow} {userId : UserId} {pairs : List HashPair}
    (h : ∀ p ∈ pairs, LiveImage images userId p.hashA ∧ LiveImage images userId p.hashB) :
    livePairs images userId pairs = pairs :=
  List.filter_eq_self.mpr fun p hp => decide_eq_true (h p hp)

/-- Where all images of the pairs are live, nothing is cut off. -/
theorem AreComponents.live {images : List ShownRow} {userId : UserId} {pairs : List HashPair}
    {groups : List DuplicateGroup} (h : AreComponents images userId pairs groups)
    (hlive : ∀ p ∈ pairs, LiveImage images userId p.hashA ∧ LiveImage images userId p.hashB)
    (hsim : ∀ p ∈ pairs, 0 ≤ p.similarity) : AreLiveComponents images userId pairs groups := by
  have hequiv := joined_equivalence pairs
  refine ⟨fun c => by rw [livePairs_eq hlive]; exact h.components c, fun g hg => ?_⟩
  obtain ⟨⟨a, ha, -⟩, root, hset⟩ := (h.components g.hashes).mp ⟨g, hg, rfl⟩
  have hmem : ∀ b, b ∈ g.hashes ↔ LiveImage images userId b ∧ Joined pairs root b := fun b => by
    rw [hset]
    rfl
  have hroot := ((hmem a).mp ha).2
  have hinside : {s | ∃ p ∈ pairs, p.hashA ∈ g.hashes ∧ p.hashB ∈ g.hashes ∧ s = p.similarity} =
      {s | ∃ p ∈ pairs, Joined pairs a p.hashA ∧ s = max 0 p.similarity} := by
    ext s
    refine exists_congr fun p => and_congr_right fun hp => ?_
    obtain ⟨hA, hB⟩ := hlive p hp
    have hedge : Joined pairs p.hashA p.hashB := .rel _ _ ⟨p, hp, rfl, rfl⟩
    rw [hmem, hmem, max_eq_right (hsim p hp), ← and_assoc]
    refine and_congr_left fun _ => ⟨fun hin => hequiv.trans (hequiv.symm hroot) hin.1.2, fun hap => ?_⟩
    have hjoined := hequiv.trans hroot hap
    exact ⟨⟨hA, hjoined⟩, hB, hequiv.trans hjoined hedge⟩
  rw [hinside]
  exact h.similarity g hg a ha

theorem buildGroups_areComponents {fuel : Nat} {pairs : List HashPair}
    (hfuel : (collectHashes pairs).length ≤ fuel) (order : MapOrder) (images : List ShownRow)
    (userId : UserId) : ∃ groups, buildGroups fuel order images userId pairs = some groups ∧
      AreComponents images userId pairs groups := by
  by_cases hne : pairs = []
  · subst hne
    exact ⟨[], rfl, areComponents_nil images userId⟩
  · obtain ⟨G, hG⟩ := exists_grouping hne hfuel
    exact ⟨_, hG order images userId,
      (G.groups_components images userId order).perm (sortGroups_perm _).symm⟩

/-- The groups are the components of the pairs, cut down to live images, and every search for a root
ends. -/
theorem buildGroups_components (images : List ShownRow) (userId : UserId) (pairs : List HashPair) :
    (∃ enough, ∀ fuel, enough ≤ fuel → ∀ order, ∃ groups,
        buildGroups fuel order images userId pairs = some groups ∧
          AreComponents images userId pairs groups ∧
          ((∀ p ∈ pairs, (LiveImage images userId p.hashA ∧ LiveImage images userId p.hashB) ∧
            0 ≤ p.similarity) → AreLiveComponents images userId pairs groups)) ∧
      ∀ n (uf : UnionFind (Fin n)), Reachable uf → Acyclic uf.parent ∧
        ∀ fuel, n ≤ fuel → ∀ x, ∃ r uf', uf.find fuel x = some (r, uf') := by
  refine ⟨⟨(collectHashes pairs).length, fun fuel hfuel order => ?_⟩, fun n uf huf => ?_⟩
  · obtain ⟨groups, hgroups, hare⟩ := buildGroups_areComponents hfuel order images userId
    exact ⟨groups, hgroups, hare, fun h => hare.live (fun p hp => (h p hp).1) fun p hp => (h p hp).2⟩
  · refine ⟨huf.ranked.acyclic, fun fuel hfuel => ?_⟩
    exact UnionFind.find_ends huf.ranked (by rwa [Fintype.card_fin])

/-- Two images that are joined through two others. -/
def chainPairs : List HashPair := [⟨"a", "x", 15 / 16⟩, ⟨"x", "y", 1⟩, ⟨"y", "b", 1 / 2⟩]

/-- The images of the chain, those in the middle deleted. -/
def chainRows : List ShownRow :=
  [⟨1, false, "a", "a.jpg", "2024-01-01T00:00:00+00:00", none, none, none, none, none⟩,
    ⟨1, true, "x", "x.jpg", "2024-01-01T00:00:00+00:00", none, none, none, none, none⟩,
    ⟨1, true, "y", "y.jpg", "2024-01-01T00:00:00+00:00", none, none, none, none, none⟩,
    ⟨1, false, "b", "b.jpg", "2024-01-01T00:00:00+00:00", none, none, none, none, none⟩]

/-- Two images are shown as one group of similarity 1, and no pair of live images joins them. -/
theorem buildGroups_joins_through_deleted : ∃ enough, ∀ fuel, enough ≤ fuel → ∀ order, ∃ groups,
    buildGroups fuel order chainRows 1 chainPairs = some groups ∧
      (∃ g ∈ groups, "a" ∈ g.hashes ∧ "b" ∈ g.hashes ∧ g.similarity = 1) ∧
      ¬AreLiveComponents chainRows 1 chainPairs groups := by
  refine ⟨(collectHashes chainPairs).length, fun fuel hfuel order => ?_⟩
  obtain ⟨groups, hgroups, h⟩ := buildGroups_areComponents hfuel order chainRows 1
  have hpair : ∀ p ∈ chainPairs, Joined chainPairs p.hashA p.hashB := fun p hp =>
    .rel _ _ ⟨p, hp, rfl, rfl⟩
  have hax : Joined chainPairs "a" "x" := hpair ⟨"a", "x", 15 / 16⟩ (by simp [chainPairs])
  have hxy : Joined chainPairs "x" "y" := hpair ⟨"x", "y", 1⟩ (by simp [chainPairs])
  have hyb : Joined chainPairs "y" "b" := hpair ⟨"y", "b", 1 / 2⟩ (by simp [chainPairs])
  obtain ⟨g, hg, ha, hb⟩ := (h.together "a" "b" (by decide) (by decide) (by decide)).mpr
    ((joined_equivalence chainPairs).trans hax ((joined_equivalence chainPairs).trans hxy hyb))
  have hone : IsGreatest {s | ∃ p ∈ chainPairs, Joined chainPairs "a" p.hashA ∧
      s = max 0 p.similarity} 1 := by
    refine ⟨⟨⟨"x", "y", 1⟩, by simp [chainPairs], hax, by decide +kernel⟩, ?_⟩
    rintro s ⟨p, hp, -, rfl⟩
    have hle : ∀ p ∈ chainPairs, max 0 p.similarity ≤ 1 := by decide +kernel
    exact hle p hp
  refine ⟨groups, hgroups, ⟨g, hg, ha, hb, (h.similarity g hg "a" ha).unique hone⟩, fun hlive => ?_⟩
  obtain ⟨⟨c, hc, d, hd, hne⟩, root, hset⟩ := (hlive.components g.hashes).mp ⟨g, hg, rfl⟩
  have hnone : livePairs chainRows 1 chainPairs = [] := by decide +kernel
  rw [hnone] at hset
  rw [hset] at hc hd
  exact hne ((joined_nil hc.2).symm.trans (joined_nil hd.2))

end Reminisce

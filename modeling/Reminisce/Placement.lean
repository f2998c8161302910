import Reminisce.Library.Ranking
import Reminisce.ReferencePrimitives
import Reminisce.Upload

namespace Reminisce

open Ranking

def nodeScore (P : Primitives) (idHash : String) (node : NodeId × SocketAddr) : Nat :=
  rendezvousScore P idHash node.1

/-- The nodes have pairwise distinct scores for the file. -/
abbrev DistinctScores (P : Primitives) (idHash : String) (nodes : List (NodeId × SocketAddr)) :
    Prop :=
  Distinct (nodeScore P idHash) nodes

/-- The node that the uploaders send the shard `idx` of a file to, over five nodes. -/
def assignedNode (P : Primitives) (idHash : String) (nodes : List (NodeId × SocketAddr))
    (idx : Nat) : Option (NodeId × SocketAddr) :=
  let targetNodes := rendezvousSelect P idHash nodes 5
  targetNodes[idx % targetNodes.length]?

/-- How many of the five shards are on nodes that are not lost. -/
def shardsLeft (P : Primitives) (idHash : String) (nodes : List (NodeId × SocketAddr))
    (lost : List NodeId) : Nat :=
  (List.range 5).countP fun idx =>
    (assignedNode P idHash nodes idx).any fun node => !lost.contains node.1

/-- How many of the five shards do not fall on the places when `selected` nodes are taken. -/
def shardsBeside (selected : Nat) (places : List Nat) : Nat :=
  (List.range 5).countP fun idx => !places.contains (idx % selected)

/-- What `rendezvous_select` takes of a node list. -/
structure SelectsHighest (P : Primitives) (idHash : String) (nodes : List (NodeId × SocketAddr))
    (count : Nat) : Prop where
  orderFree : ∀ other, other.Perm nodes →
    rendezvousSelect P idHash other count = rendezvousSelect P idHash nodes count
  size : (rendezvousSelect P idHash nodes count).length = min count nodes.length
  subset : ∀ node ∈ rendezvousSelect P idHash nodes count, node ∈ nodes
  decreasing : Decreasing (nodeScore P idHash) (rendezvousSelect P idHash nodes count)
  highest : ∀ node ∈ nodes, node ∉ rendezvousSelect P idHash nodes count →
    ∀ chosen ∈ rendezvousSelect P idHash nodes count,
      nodeScore P idHash node < nodeScore P idHash chosen
  initial : rendezvousSelect P idHash nodes count <+: rendezvousSelect P idHash nodes (count + 1)
  added : ∀ node, DistinctScores P idHash (node :: nodes) →
    ∃ p ≤ (rendezvousSelect P idHash nodes count).length,
      rendezvousSelect P idHash (node :: nodes) count =
        ((rendezvousSelect P idHash nodes count).take p ++
          node :: (rendezvousSelect P idHash nodes count).drop p).take count
  removed : ∀ node ∈ nodes, node ∉ rendezvousSelect P idHash nodes count →
    rendezvousSelect P idHash (nodes.erase node) count = rendezvousSelect P idHash nodes count

section Selection

variable {P : Primitives} {idHash : String} {nodes : List (NodeId × SocketAddr)} {count : Nat}

theorem rendezvousSelect_eq (P : Primitives) (idHash : String) (nodes : List (NodeId × SocketAddr))
    (count : Nat) :
    rendezvousSelect P idHash nodes count = (ranked (nodeScore P idHash) nodes).take count := rfl

theorem rendezvousSelect_min (P : Primitives) (idHash : String) (nodes : List (NodeId × SocketAddr))
    (count : Nat) : rendezvousSelect P idHash nodes (min count nodes.length) =
      rendezvousSelect P idHash nodes count := by
  rw [rendezvousSelect_eq, rendezvousSelect_eq]
  by_cases h : count ≤ nodes.length
  · rw [Nat.min_eq_left h]
  · rw [Nat.min_eq_right (by omega), List.take_of_length_le (by simp),
      List.take_of_length_le (by simp; omega)]

theorem length_rendezvousSelect :
    (rendezvousSelect P idHash nodes count).length = min count nodes.length := by
  rw [rendezvousSelect_eq, List.length_take, length_ranked]

theorem rendezvousSelect_max (hn : nodes ≠ []) (hcount : 0 < count) :
    rendezvousSelect P idHash nodes (max (min count nodes.length) 1) =
      rendezvousSelect P idHash nodes count := by
  have hpos := List.length_pos_iff.mpr hn
  rw [Nat.max_eq_left (by omega), rendezvousSelect_min]

theorem assignedNode_eq (P : Primitives) (idHash : String) (nodes : List (NodeId × SocketAddr))
    (idx : Nat) : assignedNode P idHash nodes idx =
      (ranked (nodeScore P idHash) nodes)[idx % min 5 nodes.length]? := by
  unfold assignedNode
  simp only
  rw [length_rendezvousSelect, rendezvousSelect_eq]
  by_cases hn : nodes = []
  · subst hn
    simp [ranked]
  · have hpos := List.length_pos_iff.mpr hn
    have hlt : idx % min 5 nodes.length < min 5 nodes.length := Nat.mod_lt _ (by omega)
    exact List.getElem?_take_of_lt (by omega)

/-- The node that `repair_file` and `rebalance_file` take for an index. -/
theorem idealNode_eq (P : Primitives) (idHash : String) (nodes : List (NodeId × SocketAddr))
    (idx : Nat) :
    (rendezvousSelect P idHash nodes (min 5 nodes.length))[
      idx % (rendezvousSelect P idHash nodes (min 5 nodes.length)).length]? =
      assignedNode P idHash nodes idx := by
  rw [rendezvousSelect_min]
  rfl

/-- An uploaded shard is on the node that its index is assigned to. -/
theorem runUploads_assigned {shards : List Bytes} {order : List Nat} {uploaded : List UploadedShard}
    (h : runUploads P nodes idHash shards order = .ok uploaded) (hshards : shards.length = 5)
    {s : UploadedShard} (hs : s ∈ uploaded) :
    assignedNode P idHash nodes s.idx = some (s.nodeId, s.addr) := by
  unfold runUploads at h
  simp only [hshards] at h
  split at h
  next => cases h
  next hnodes =>
    have hn : nodes ≠ [] := by
      rintro rfl
      have hnone : rendezvousSelect P idHash [] (max (min 5 0) 1) = [] := by
        simp [rendezvousSelect]
      exact hnodes ⟨hnone, List.ne_nil_of_length_pos (by omega)⟩
    cases Except.ok.inj h
    rw [rendezvousSelect_max hn (by decide)] at hs
    obtain ⟨idx, _, hidx⟩ := List.mem_filterMap.mp hs
    obtain ⟨data, _, hidx⟩ := Option.bind_eq_some_iff.mp hidx
    obtain ⟨⟨nodeId, addr⟩, hnode, hidx⟩ := Option.bind_eq_some_iff.mp hidx
    simp only at hidx
    split at hidx
    next =>
      cases Option.some.inj hidx
      exact hnode
    next => cases hidx

theorem selectsHighest (hd : DistinctScores P idHash nodes) (count : Nat) :
    SelectsHighest P idHash nodes count where
  orderFree other hp := by
    rw [rendezvousSelect_eq, rendezvousSelect_eq, ranked_of_perm hd hp]
  size := length_rendezvousSelect
  subset _ h := rendezvousSelect_subset h
  decreasing := (ranked_decreasing hd).sublist (List.take_sublist _ _)
  highest _ hnode hout _ hchosen := lt_of_take_ranked hd hnode hout hchosen
  initial := by
    rw [rendezvousSelect_eq, rendezvousSelect_eq]
    exact List.take_prefix_take_left (Nat.le_succ count)
  added _ hnew := take_ranked_cons hnew count
  removed _ hnode hout := take_ranked_erase hd hnode hout

/-- The selected nodes have distinct ids, so a lost id stands at one place at most. -/
theorem lost_place (hd : DistinctScores P idHash nodes) (count : Nat) (lost : NodeId) :
    ∃ p, ∀ (i : Nat) node, (rendezvousSelect P idHash nodes count)[i]? = some node →
      node.1 = lost → i = p := by
  have hids : ((rendezvousSelect P idHash nodes count).map Prod.fst).Nodup := by
    refine List.pairwise_map.mpr ((selectsHighest hd count).decreasing.imp fun hlt heq => ?_)
    unfold nodeScore at hlt
    rw [heq] at hlt
    exact lt_irrefl _ hlt
  by_cases hmem : ∃ (p : Nat) (node : NodeId × SocketAddr),
      (rendezvousSelect P idHash nodes count)[p]? = some node ∧ node.1 = lost
  · obtain ⟨p, node, hp, hlost⟩ := hmem
    refine ⟨p, fun i other hi hother => ?_⟩
    obtain ⟨hbound, _⟩ := List.getElem?_eq_some_iff.mp hi
    refine (List.getElem?_inj (by rwa [List.length_map]) hids).mp ?_
    rw [List.getElem?_map, List.getElem?_map, hi, hp, Option.map_some, Option.map_some, hother, hlost]
  · exact ⟨0, fun i node hi hlost => absurd ⟨i, node, hi, hlost⟩ hmem⟩

/-- Shards that do not fall on the places of lost nodes are left. -/
theorem countP_le_shardsLeft {lost : List NodeId} {places : List Nat} (hn : nodes ≠ [])
    (hplaces : ∀ id ∈ lost, ∃ p ∈ places, ∀ (i : Nat) node,
      (rendezvousSelect P idHash nodes 5)[i]? = some node → node.1 = id → i = p) :
    shardsBeside (min 5 nodes.length) places ≤ shardsLeft P idHash nodes lost := by
  have hpos : 0 < nodes.length := List.length_pos_iff.mpr hn
  have hlength : (rendezvousSelect P idHash nodes 5).length = min 5 nodes.length :=
    length_rendezvousSelect
  refine List.countP_mono_left fun idx _ hidx => ?_
  have hlt : idx % min 5 nodes.length < (rendezvousSelect P idHash nodes 5).length := by
    rw [hlength]
    exact Nat.mod_lt _ (by omega)
  have hget := List.getElem?_eq_getElem hlt
  unfold assignedNode
  simp only
  rw [hlength, hget, Option.any_some]
  simp only [Bool.not_eq_true', List.contains_eq_mem, decide_eq_false_iff_not] at hidx ⊢
  intro hlost
  obtain ⟨p, hp, hplace⟩ := hplaces _ hlost
  exact hidx (hplace _ _ hget rfl ▸ hp)

/-- A place among three or more takes two of the five shards at most. -/
theorem three_beside_place {selected : Nat} (h : selected ∈ [3, 4, 5]) (p : Nat) :
    3 ≤ shardsBeside selected [p] := by
  have hplaces : ∀ n ∈ [3, 4, 5], ∀ q ∈ List.range 5, 3 ≤ shardsBeside n [q] := by decide
  have hnone : ∀ n ∈ [3, 4, 5], ∀ idx ∈ List.range 5, idx % n < 5 := by decide
  by_cases hp : p < 5
  · exact hplaces selected h p (List.mem_range.mpr hp)
  · have hall : shardsBeside selected [p] = 5 := by
      refine List.countP_eq_length.mpr fun idx hidx => ?_
      have hlt := hnone selected h idx hidx
      simp only [List.contains_cons, List.contains_nil, Bool.or_false, Bool.not_eq_true',
        beq_eq_false_iff_ne]
      omega
    omega

/-- Two places among five take two of the five shards at most. -/
theorem three_beside_two_places (p q : Nat) :
    3 ≤ shardsBeside 5 [p, q] := by
  have hplaces : ∀ a ∈ List.range 6, ∀ b ∈ List.range 6, 3 ≤ shardsBeside 5 [a, b] := by decide
  have hsame : shardsBeside 5 [p, q] = shardsBeside 5 [min p 5, min q 5] := by
    refine List.countP_congr fun idx _ => ?_
    have hlt : idx % 5 < 5 := Nat.mod_lt _ (by decide)
    have hp : idx % 5 = p ↔ idx % 5 = min p 5 := by omega
    have hq : idx % 5 = q ↔ idx % 5 = min q 5 := by omega
    simp only [List.contains_eq_mem, List.mem_cons, List.not_mem_nil, or_false, hp, hq]
  rw [hsame]
  exact hplaces _ (List.mem_range.mpr (by omega)) _ (List.mem_range.mpr (by omega))

theorem shardsLeft_one (hd : DistinctScores P idHash nodes) (hn : 3 ≤ nodes.length) (lost : NodeId) :
    3 ≤ shardsLeft P idHash nodes [lost] := by
  obtain ⟨p, hp⟩ := lost_place hd 5 lost
  have hne : nodes ≠ [] := by
    rintro rfl
    simp at hn
  have hselected : min 5 nodes.length ∈ [3, 4, 5] := by
    simp only [List.mem_cons, List.not_mem_nil, or_false]
    omega
  have hplaces : ∀ id ∈ [lost], ∃ q ∈ [p], ∀ (i : Nat) node,
      (rendezvousSelect P idHash nodes 5)[i]? = some node → node.1 = id → i = q := by
    simpa using hp
  exact (three_beside_place hselected p).trans (countP_le_shardsLeft hne hplaces)

theorem shardsLeft_two (hd : DistinctScores P idHash nodes) (hn : 5 ≤ nodes.length)
    (lost other : NodeId) : 3 ≤ shardsLeft P idHash nodes [lost, other] := by
  obtain ⟨p, hp⟩ := lost_place hd 5 lost
  obtain ⟨q, hq⟩ := lost_place hd 5 other
  have hne : nodes ≠ [] := by
    rintro rfl
    simp at hn
  have hplaces : ∀ id ∈ [lost, other], ∃ r ∈ [p, q], ∀ (i : Nat) node,
      (rendezvousSelect P idHash nodes 5)[i]? = some node → node.1 = id → i = r := by
    intro id hid
    rcases List.mem_cons.mp hid with rfl | hid
    · exact ⟨p, by simp, hp⟩
    · cases List.mem_singleton.mp hid
      exact ⟨q, by simp, hq⟩
  have hle := countP_le_shardsLeft hne hplaces
  rw [Nat.min_eq_left hn] at hle
  exact (three_beside_two_places p q).trans hle

/-- The selection depends on the scores alone, changes by the node that comes or goes, and five
shards over it survive one lost node of three and two lost nodes of five. -/
theorem rendezvousSelect_places (P : Primitives) (idHash : String) (nodes : List (NodeId × SocketAddr))
    (hd : DistinctScores P idHash nodes) :
    (∀ count, SelectsHighest P idHash nodes count) ∧
      (3 ≤ nodes.length → ∀ lost, 3 ≤ shardsLeft P idHash nodes [lost]) ∧
      (5 ≤ nodes.length → ∀ lost other, 3 ≤ shardsLeft P idHash nodes [lost, other]) :=
  ⟨selectsHighest hd, shardsLeft_one hd, shardsLeft_two hd⟩

/-- An id of 64 equal hex digits. -/
def hexId (digit : Char) : String := String.ofList (List.replicate 64 digit)

def letterNode (letter : Char) : NodeId × SocketAddr :=
  (hexId letter, ⟨.v4 10 0 0 1, UInt16.ofNat letter.toNat⟩)

/-- A digest that begins with the last byte. -/
def lastByteHash (data : Bytes) : Digest := ⟨data.getLastD 0 :: List.replicate 31 0, rfl⟩

/-- Primitives under which later letters score higher. -/
noncomputable def letterPrimitives : Primitives := { referencePrimitives with blake3 := lastByteHash }

theorem letterNodes_distinct :
    DistinctScores letterPrimitives (hexId '0') (['a', 'b', 'c', 'd', 'e', 'f'].map letterNode) := by
  decide +kernel

theorem rendezvousSelect_places_example :
    SelectsHighest letterPrimitives (hexId '0') (['a', 'b', 'c', 'd', 'e', 'f'].map letterNode) 5 ∧
      3 ≤ shardsLeft letterPrimitives (hexId '0') (['a', 'b', 'c', 'd', 'e', 'f'].map letterNode)
        [hexId 'a', hexId 'f'] := by
  obtain ⟨hselect, -, htwo⟩ := rendezvousSelect_places letterPrimitives (hexId '0')
    (['a', 'b', 'c', 'd', 'e', 'f'].map letterNode) letterNodes_distinct
  exact ⟨hselect 5, htwo (by decide) (hexId 'a') (hexId 'f')⟩

end Selection

/-- How many of the five shards are assigned to different nodes over the two lists. -/
def displaced (P : Primitives) (idHash : String) (nodes other : List (NodeId × SocketAddr)) : Nat :=
  (List.range 5).countP fun idx =>
    !(assignedNode P idHash nodes idx == assignedNode P idHash other idx)

variable {P : Primitives} {idHash : String} {nodes other : List (NodeId × SocketAddr)}
  {node : NodeId × SocketAddr}

theorem displaced_comm (P : Primitives) (idHash : String) (nodes other : List (NodeId × SocketAddr)) :
    displaced P idHash nodes other = displaced P idHash other nodes := by
  refine List.countP_congr fun idx _ => ?_
  simp only [Bool.not_eq_true', beq_eq_false_iff_ne, ne_comm]

theorem displaced_of_perm {same : List (NodeId × SocketAddr)} (hd : DistinctScores P idHash other)
    (hp : same.Perm other) : displaced P idHash nodes same = displaced P idHash nodes other := by
  refine List.countP_congr fun idx _ => ?_
  rw [assignedNode_eq P idHash same, assignedNode_eq P idHash other, ranked_of_perm hd hp,
    hp.length_eq]

theorem countP_le_range (r n : Nat) : (List.range n).countP (fun idx => decide (r ≤ idx)) = n - r := by
  induction n with
  | zero => simp
  | succ n ih =>
    rw [List.range_succ, List.countP_append, ih, List.countP_singleton]
    by_cases h : r ≤ n
    · rw [if_pos (decide_eq_true h)]
      omega
    · rw [if_neg (by simpa using h)]
      omega

/-- All shards from the rank of the new node on change their node. -/
theorem assignedNode_cons_ne_iff (hd : DistinctScores P idHash (node :: nodes))
    (hn : 4 ≤ nodes.length) {idx : Nat} (hidx : idx < 5) :
    assignedNode P idHash nodes idx ≠ assignedNode P idHash (node :: nodes) idx ↔
      rank (nodeScore P idHash) node nodes ≤ idx := by
  obtain ⟨hnew, hrest⟩ := List.nodup_cons.mp hd
  have hnodup : (ranked (nodeScore P idHash) nodes).Nodup := ranked_nodup hrest
  have hrank : rank (nodeScore P idHash) node nodes ≤ nodes.length := rank_le
  have hlength : (ranked (nodeScore P idHash) nodes).length = nodes.length := length_ranked
  have hfive : min 5 (node :: nodes).length = 5 := by
    rw [List.length_cons]
    omega
  rw [assignedNode_eq, assignedNode_eq, hfive, Nat.mod_eq_of_lt hidx, ranked_cons_insertIdx hd]
  rcases Nat.lt_trichotomy idx (rank (nodeScore P idHash) node nodes) with hlt | rfl | hgt
  · have hsame : idx % min 5 nodes.length = idx := Nat.mod_eq_of_lt (by omega)
    rw [List.getElem?_insertIdx_of_lt hlt, hsame]
    simpa using hlt
  · rw [List.getElem?_insertIdx_self, if_pos (by omega)]
    refine iff_of_true (fun hnode => hnew ?_) le_rfl
    exact List.mem_map.mpr ⟨node, mem_ranked.mp (List.mem_of_getElem? hnode), rfl⟩
  · rw [List.getElem?_insertIdx_of_gt hgt]
    refine iff_of_true (fun heq => ?_) hgt.le
    have hbefore : idx - 1 < (ranked (nodeScore P idHash) nodes).length := by omega
    have hplace : idx - 1 = idx % min 5 nodes.length :=
      (List.getElem?_inj hbefore hnodup).mp heq.symm
    by_cases hwrap : idx < min 5 nodes.length
    · rw [Nat.mod_eq_of_lt hwrap] at hplace
      omega
    · have hfour : idx = 4 ∧ min 5 nodes.length = 4 := by omega
      rw [hfour.1, hfour.2] at hplace
      omega

theorem displaced_cons (hd : DistinctScores P idHash (node :: nodes)) (hn : 4 ≤ nodes.length) :
    displaced P idHash nodes (node :: nodes) = 5 - rank (nodeScore P idHash) node nodes := by
  rw [← countP_le_range]
  refine List.countP_congr fun idx hidx => ?_
  rw [decide_eq_true_iff, ← assignedNode_cons_ne_iff hd hn (List.mem_range.mp hidx)]
  simp

/-- A node that comes or goes displaces one shard at most if and only if four others of the nodes
score higher. -/
theorem displaced_le_one_iff (P : Primitives) (idHash : String)
    (nodes : List (NodeId × SocketAddr)) (hn : 5 ≤ nodes.length) :
    (∀ node larger, larger.Perm (node :: nodes) → DistinctScores P idHash larger →
      (displaced P idHash nodes larger ≤ 1 ↔ 4 ≤ rank (nodeScore P idHash) node nodes)) ∧
      ∀ node smaller, nodes.Perm (node :: smaller) → DistinctScores P idHash nodes →
        (displaced P idHash nodes smaller ≤ 1 ↔ 4 ≤ rank (nodeScore P idHash) node nodes) := by
  refine ⟨fun node larger hp hd => ?_, fun node smaller hp hd => ?_⟩
  · have hcons := hd.of_perm hp.symm
    rw [displaced_of_perm hcons hp, displaced_cons hcons (by omega)]
    omega
  · have hcons := hd.of_perm hp.symm
    have hlength := hp.length_eq
    rw [List.length_cons] at hlength
    rw [displaced_comm, displaced_of_perm hcons hp, displaced_cons hcons (by omega),
      rank_of_perm hp, rank_cons_self]
    omega

theorem displaced_le_one_example :
    displaced letterPrimitives (hexId '0') (['b', 'c', 'd', 'e', 'f'].map letterNode)
        (['a', 'b', 'c', 'd', 'e', 'f'].map letterNode) ≤ 1 ∧
      displaced letterPrimitives (hexId '0') (['a', 'b', 'c', 'd', 'e', 'f'].map letterNode)
        (['b', 'c', 'd', 'e', 'f'].map letterNode) ≤ 1 := by
  constructor
  · exact ((displaced_le_one_iff letterPrimitives (hexId '0')
      (['b', 'c', 'd', 'e', 'f'].map letterNode) (by decide)).1 (letterNode 'a') _ (.refl _)
        letterNodes_distinct).mpr (by decide +kernel)
  · exact ((displaced_le_one_iff letterPrimitives (hexId '0')
      (['a', 'b', 'c', 'd', 'e', 'f'].map letterNode) (by decide)).2 (letterNode 'a') _ (.refl _)
        letterNodes_distinct).mpr (by decide +kernel)

/-- The node with the highest score moves every shard when it comes and when it goes. -/
theorem highest_node_displaces :
    DistinctScores letterPrimitives (hexId '0') (['f', 'a', 'b', 'c', 'd', 'e'].map letterNode) ∧
      displaced letterPrimitives (hexId '0') (['a', 'b', 'c', 'd', 'e'].map letterNode)
        (['f', 'a', 'b', 'c', 'd', 'e'].map letterNode) = 5 ∧
      displaced letterPrimitives (hexId '0') (['f', 'a', 'b', 'c', 'd', 'e'].map letterNode)
        (['a', 'b', 'c', 'd', 'e'].map letterNode) = 5 := by
  have hd : DistinctScores letterPrimitives (hexId '0')
      (letterNode 'f' :: ['a', 'b', 'c', 'd', 'e'].map letterNode) := by decide +kernel
  have hrank : rank (nodeScore letterPrimitives (hexId '0')) (letterNode 'f')
      (['a', 'b', 'c', 'd', 'e'].map letterNode) = 0 := by decide +kernel
  have hall := displaced_cons hd (by decide)
  rw [hrank] at hall
  exact ⟨hd, hall, (displaced_comm _ _ _ _).trans hall⟩

end Reminisce

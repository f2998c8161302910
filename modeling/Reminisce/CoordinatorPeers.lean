import Reminisce.PeerRegistry

namespace Reminisce

/-- An entry of the coordinator's peer map. -/
structure PeerEntry where
  nodeId : NodeId
  ip : IpAddr
  quicPort : UInt16
  lastSeen : Time
  deriving DecidableEq, Repr

/-- Namespace and node id. -/
abbrev PeerKey := String × NodeId

/-- The map of the coordinator, in an order of its iteration. -/
structure PeerMap where
  entries : List (PeerKey × PeerEntry)
  nodup : (entries.map Prod.fst).Nodup
  keyed : ∀ e ∈ entries, e.1.2 = e.2.nodeId
  deriving DecidableEq

/-- An entry of `peers.json`; the address text is the printed form of `ip`. -/
structure PersistedPeer where
  ns : String
  nodeId : NodeId
  ip : IpAddr
  quicPort : UInt16
  lastSeenSecs : Nat
  deriving DecidableEq, Repr

namespace PeerMap

def empty : PeerMap := ⟨[], List.nodup_nil, by simp⟩

def get (map : PeerMap) (key : PeerKey) : Option PeerEntry :=
  (map.entries.find? (·.1 = key)).map Prod.snd

theorem insert_nodup (map : PeerMap) (key : PeerKey) (entry : PeerEntry) :
    ((map.entries.filter (·.1 ≠ key) ++ [(key, entry)]).map Prod.fst).Nodup :=
  Keyed.nodup_put map.nodup (key, entry)

/-- `HashMap::insert` under the namespace and the node id of the entry. -/
def insert (map : PeerMap) (ns : String) (entry : PeerEntry) : PeerMap where
  entries := map.entries.filter (·.1 ≠ (ns, entry.nodeId)) ++ [((ns, entry.nodeId), entry)]
  nodup := map.insert_nodup _ _
  keyed := by
    intro e he
    rcases List.mem_append.mp he with he | he
    · exact map.keyed e (List.mem_filter.mp he).1
    · cases List.mem_singleton.mp he
      rfl

/-- `HashMap::retain`. -/
def retain (map : PeerMap) (keep : PeerEntry → Bool) : PeerMap where
  entries := map.entries.filter fun e => keep e.2
  nodup := map.nodup.sublist (List.filter_sublist.map _)
  keyed := fun e he => map.keyed e (List.mem_filter.mp he).1

/-- The list that `save_persisted_peers` collects; `currentSecs` is the wall clock. -/
def persisted (map : PeerMap) (now : Time) (currentSecs : Nat) : List PersistedPeer :=
  map.entries.map fun (key, p) =>
    { ns := key.1, nodeId := p.nodeId, ip := p.ip, quicPort := p.quicPort
      lastSeenSecs := currentSecs - (now - p.lastSeen) / nanosPerSec }

end PeerMap

/-- The entry that a line of the file is loaded as. -/
def PersistedPeer.entry (p : PersistedPeer) (now : Time) (currentSecs : Nat) : PeerEntry :=
  let elapsed := (currentSecs - p.lastSeenSecs) * nanosPerSec
  { nodeId := p.nodeId, ip := p.ip, quicPort := p.quicPort
    lastSeen := if elapsed ≤ now then now - elapsed else now }

/-- `load_persisted_peers`; without a readable file the map is empty. -/
def loadPersistedPeers (file : Option (List PersistedPeer)) (now : Time) (currentSecs : Nat) :
    PeerMap :=
  (file.getD []).foldl (fun map p => map.insert p.ns (p.entry now currentSecs)) PeerMap.empty

/-- Where a peer is reached. -/
def PeerEntry.endpoint (p : PeerEntry) : NodeId × IpAddr × UInt16 := (p.nodeId, p.ip, p.quicPort)

/-- The maps have the same peers, whenever these were last seen. -/
def PeerMap.SamePeers (map other : PeerMap) : Prop :=
  ∀ key, (map.get key).map PeerEntry.endpoint = (other.get key).map PeerEntry.endpoint

variable {map : PeerMap} {now : Time} {currentSecs : Nat}

/-- Lines with new keys are appended in their order. -/
theorem foldl_insert_entries {list : List PersistedPeer} {start : PeerMap}
    (hnodup : (list.map fun p => (p.ns, p.nodeId)).Nodup)
    (hnew : ∀ p ∈ list, ∀ e ∈ start.entries, e.1 ≠ (p.ns, p.nodeId)) :
    (list.foldl (fun map p => map.insert p.ns (p.entry now currentSecs)) start).entries =
      start.entries ++ list.map fun p => ((p.ns, p.nodeId), p.entry now currentSecs) := by
  induction list generalizing start with
  | nil => simp
  | cons p list ih =>
    have hkeep : (start.insert p.ns (p.entry now currentSecs)).entries =
        start.entries ++ [((p.ns, p.nodeId), p.entry now currentSecs)] := by
      have hall : start.entries.filter (·.1 ≠ (p.ns, p.nodeId)) = start.entries := by
        refine List.filter_eq_self.mpr fun e he => ?_
        simpa using hnew p (by simp) e he
      show start.entries.filter (·.1 ≠ (p.ns, p.nodeId)) ++ _ = _
      rw [hall]
      rfl
    obtain ⟨hp, hrest⟩ := List.nodup_cons.mp hnodup
    rw [List.foldl_cons, ih hrest, hkeep]
    · simp
    · intro q hq e he
      rw [hkeep] at he
      rcases List.mem_append.mp he with he | he
      · exact hnew q (List.mem_cons_of_mem p hq) e he
      · cases List.mem_singleton.mp he
        intro heq
        apply hp
        have hsame : (p.ns, p.nodeId) = (q.ns, q.nodeId) := heq
        show (p.ns, p.nodeId) ∈ _
        rw [hsame]
        exact List.mem_map.mpr ⟨q, hq, rfl⟩

theorem PeerMap.persisted_keys (map : PeerMap) (now : Time) (currentSecs : Nat) :
    (map.persisted now currentSecs).map (fun p => (p.ns, p.nodeId)) = map.entries.map Prod.fst := by
  unfold persisted
  rw [List.map_map]
  refine List.map_congr_left fun e he => ?_
  have hkey := map.keyed e he
  simp only [Function.comp_apply]
  exact Prod.ext rfl hkey.symm

theorem find_map_keys {α β : Type} (entries : List (PeerKey × α)) (f : PeerKey × α → β)
    (key : PeerKey) : ((entries.map fun e => (e.1, f e)).find? (·.1 = key)) =
      (entries.find? (·.1 = key)).map fun e => (e.1, f e) := by
  rw [List.find?_map]
  rfl

/-- What is loaded from a saved map are the peers of that map. -/
theorem load_persisted_samePeers (map : PeerMap) (saved loaded : Time) (savedSecs loadedSecs : Nat) :
    (loadPersistedPeers (some (map.persisted saved savedSecs)) loaded loadedSecs).SamePeers map := by
  intro key
  have hnodup : ((map.persisted saved savedSecs).map fun p => (p.ns, p.nodeId)).Nodup := by
    rw [PeerMap.persisted_keys]
    exact map.nodup
  have hentries : (loadPersistedPeers (some (map.persisted saved savedSecs)) loaded
      loadedSecs).entries = map.entries.map fun e => (e.1, PersistedPeer.entry
        { ns := e.1.1, nodeId := e.2.nodeId, ip := e.2.ip, quicPort := e.2.quicPort
          lastSeenSecs := savedSecs - (saved - e.2.lastSeen) / nanosPerSec } loaded loadedSecs) := by
    unfold loadPersistedPeers
    rw [Option.getD_some, foldl_insert_entries hnodup (by simp [PeerMap.empty])]
    simp only [PeerMap.empty, List.nil_append, PeerMap.persisted, List.map_map]
    refine List.map_congr_left fun e he => ?_
    have hkey : (e.1.1, e.2.nodeId) = e.1 := Prod.ext rfl (map.keyed e he).symm
    simp only [Function.comp_apply, hkey]
  unfold PeerMap.get
  rw [hentries, find_map_keys]
  cases hfind : map.entries.find? (·.1 = key) with
  | none => simp
  | some e => simp [PeerEntry.endpoint, PersistedPeer.entry]

end Reminisce

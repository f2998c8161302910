import Reminisce.AddressRoundTrips

namespace Reminisce

/-- `PersistedPeer` of the source, with the address as text. -/
structure PeerLine where
  ns : String
  nodeId : NodeId
  ip : List Char
  quicPort : UInt16
  lastSeenSecs : Nat
  deriving Repr

def PersistedPeer.line (p : PersistedPeer) : PeerLine :=
  { ns := p.ns, nodeId := p.nodeId, ip := p.ip.display, quicPort := p.quicPort
    lastSeenSecs := p.lastSeenSecs }

/-- A line whose address does not parse is left out. -/
def PeerLine.parsed (line : PeerLine) : Option PersistedPeer :=
  (parseIpAddr line.ip).map fun ip =>
    { ns := line.ns, nodeId := line.nodeId, ip, quicPort := line.quicPort
      lastSeenSecs := line.lastSeenSecs }

/-- `save_persisted_peers`: the lines of `peers.json`. -/
def PeerMap.savedLines (map : PeerMap) (now : Time) (currentSecs : Nat) : List PeerLine :=
  (map.persisted now currentSecs).map PersistedPeer.line

/-- `load_persisted_peers` from the lines of the file. -/
def loadPeerLines (file : Option (List PeerLine)) (now : Time) (currentSecs : Nat) : PeerMap :=
  loadPersistedPeers (file.map (·.filterMap PeerLine.parsed)) now currentSecs

/-- A save and the load after it, each with its clocks. -/
structure SaveLoad where
  saved : Time
  savedSecs : Nat
  loaded : Time
  loadedSecs : Nat

def PeerMap.saveLoad (map : PeerMap) (cycle : SaveLoad) : PeerMap :=
  loadPeerLines (some (map.savedLines cycle.saved cycle.savedSecs)) cycle.loaded cycle.loadedSecs

def PeerMap.saveLoads (map : PeerMap) (cycles : List SaveLoad) : PeerMap :=
  cycles.foldl PeerMap.saveLoad map

/-- `current_peer_list`. -/
def currentPeerList (map : PeerMap) (ns : String) (ttl : Nat) (now : Time) :
    List (NodeId × List Char) :=
  (map.entries.filter fun e =>
    e.1.1 = ns ∧ (now - e.2.lastSeen) / nanosPerSec < ttl).map fun e =>
      (e.2.nodeId, displayEndpoint e.2.ip e.2.quicPort)

/-- The peers that `run_once` of the node `own` puts into its registry. -/
def runOncePeers (own : NodeId) (peers : List (NodeId × List Char)) : List (NodeId × SocketAddr) :=
  peers.filterMap fun (peerNodeId, addr) =>
    if peerNodeId = own then none else (parseSocketAddr addr).map (peerNodeId, ·)

/-- The peer is received under its id with its own address and no other one. -/
def PeerEntry.Arrives (p : PeerEntry) (received : List (NodeId × SocketAddr)) : Prop :=
  ∀ addr, (p.nodeId, addr) ∈ received ↔ addr = ⟨p.ip, p.quicPort⟩

def PeerMap.WellFormed (map : PeerMap) : Prop := ∀ e ∈ map.entries, e.2.ip.WellFormed

variable {map : PeerMap} {ns : String} {ttl : Nat} {now : Time} {own : NodeId}

/-- Every saved line is parsed into what was saved. -/
theorem savedLines_parsed (h : map.WellFormed) (now : Time) (currentSecs : Nat) :
    (map.savedLines now currentSecs).filterMap PeerLine.parsed = map.persisted now currentSecs := by
  unfold PeerMap.savedLines
  rw [List.filterMap_map]
  have hline : ∀ p ∈ map.persisted now currentSecs,
      (PeerLine.parsed ∘ PersistedPeer.line) p = some p := by
    intro p hp
    obtain ⟨e, he, rfl⟩ := List.mem_map.mp hp
    simp [PeerLine.parsed, PersistedPeer.line, parseIpAddr_display (h e he)]
  rw [List.filterMap_congr hline]
  exact List.filterMap_some

theorem PeerMap.mem_entries {key : PeerKey} {p : PeerEntry} :
    (key, p) ∈ map.entries ↔ map.get key = some p :=
  ⟨Keyed.lookup_of_mem map.nodup, Keyed.mem_of_lookup⟩

/-- A save and a load keep every peer. -/
theorem saveLoad_samePeers (h : map.WellFormed) (cycle : SaveLoad) :
    (map.saveLoad cycle).SamePeers map := by
  unfold PeerMap.saveLoad loadPeerLines
  rw [Option.map_some, savedLines_parsed h]
  exact load_persisted_samePeers map cycle.saved cycle.loaded cycle.savedSecs cycle.loadedSecs

theorem PeerMap.SamePeers.wellFormed {other : PeerMap} (hsame : other.SamePeers map)
    (h : map.WellFormed) : other.WellFormed := by
  rintro ⟨key, p⟩ he
  have hget := PeerMap.mem_entries.mp he
  have hendpoint := hsame key
  rw [hget, Option.map_some] at hendpoint
  obtain ⟨q, hq, hpq⟩ := Option.map_eq_some_iff.mp hendpoint.symm
  have hip : q.ip = p.ip := congrArg (fun x => x.2.1) hpq
  have hwell := h _ (PeerMap.mem_entries.mpr hq)
  exact hip ▸ hwell

/-- So do any number of them. -/
theorem saveLoads_samePeers (h : map.WellFormed) (cycles : List SaveLoad) :
    (map.saveLoads cycles).SamePeers map := by
  induction cycles generalizing map with
  | nil => exact fun key => rfl
  | cons cycle cycles ih =>
    have hfirst := saveLoad_samePeers h cycle
    intro key
    exact (ih (hfirst.wellFormed h) key).trans (hfirst key)

theorem mem_currentPeerList {nodeId : NodeId} {text : List Char} :
    (nodeId, text) ∈ currentPeerList map ns ttl now ↔
      ∃ p, map.get (ns, nodeId) = some p ∧ (now - p.lastSeen) / nanosPerSec < ttl ∧
        text = displayEndpoint p.ip p.quicPort := by
  unfold currentPeerList
  rw [List.mem_map]
  constructor
  · rintro ⟨⟨key, p⟩, he, heq⟩
    obtain ⟨hmem, hkeep⟩ := List.mem_filter.mp he
    obtain ⟨hns, hfresh⟩ := of_decide_eq_true hkeep
    have hkey := map.keyed _ hmem
    obtain ⟨hid, htext⟩ := Prod.ext_iff.mp heq
    simp only at hns hkey hid htext
    have hfull : key = (ns, nodeId) := Prod.ext hns (hkey.trans hid)
    rw [hfull] at hmem
    exact ⟨p, PeerMap.mem_entries.mp hmem, hfresh, htext.symm⟩
  · rintro ⟨p, hget, hfresh, rfl⟩
    have hmem := PeerMap.mem_entries.mpr hget
    have hid : nodeId = p.nodeId := map.keyed _ hmem
    refine ⟨((ns, nodeId), p), List.mem_filter.mpr ⟨hmem, ?_⟩, by rw [hid]⟩
    simp [hfresh]

/-- A peer that is listed is received as what its text parses to. -/
theorem mem_runOncePeers {p : PeerEntry} {addr : SocketAddr}
    (hget : map.get (ns, p.nodeId) = some p)
    (hfresh : (now - p.lastSeen) / nanosPerSec < ttl) :
    (p.nodeId, addr) ∈ runOncePeers own (currentPeerList map ns ttl now) ↔
      p.nodeId ≠ own ∧ parseSocketAddr (displayEndpoint p.ip p.quicPort) = some addr := by
  unfold runOncePeers
  rw [List.mem_filterMap]
  constructor
  · rintro ⟨⟨nodeId, text⟩, hmem, heq⟩
    obtain ⟨q, hq, -, rfl⟩ := mem_currentPeerList.mp hmem
    simp only at heq
    split at heq
    next => cases heq
    next hother =>
      obtain ⟨parsed, hparsed, hpair⟩ := Option.map_eq_some_iff.mp heq
      cases hpair
      rw [hget] at hq
      cases Option.some.inj hq
      exact ⟨hother, hparsed⟩
  · rintro ⟨hother, hparsed⟩
    refine ⟨_, mem_currentPeerList.mpr ⟨p, hget, hfresh, rfl⟩, ?_⟩
    simp [hother, hparsed]

/-- Over any saves and loads, what another node receives of a registered peer is its address if
that is an IPv4 address. -/
theorem peer_arrives_iff (hmap : map.WellFormed) (cycles : List SaveLoad) (ns : String) (own : NodeId)
    (ttl : Nat) (now : Time) (p : PeerEntry) (hget : map.get (ns, p.nodeId) = some p)
    (hfresh : ∀ q, (map.saveLoads cycles).get (ns, p.nodeId) = some q →
      (now - q.lastSeen) / nanosPerSec < ttl) :
    p.Arrives (runOncePeers own (currentPeerList (map.saveLoads cycles) ns ttl now)) ↔
      p.nodeId ≠ own ∧ ∃ a b c d, p.ip = .v4 a b c d := by
  have hsame := saveLoads_samePeers hmap cycles (ns, p.nodeId)
  rw [hget, Option.map_some] at hsame
  obtain ⟨q, hq, hpq⟩ := Option.map_eq_some_iff.mp hsame
  obtain ⟨hid, hip, hport⟩ : q.nodeId = p.nodeId ∧ q.ip = p.ip ∧ q.quicPort = p.quicPort := by
    simpa [PeerEntry.endpoint] using hpq
  have hreceived : ∀ addr, (p.nodeId, addr) ∈
      runOncePeers own (currentPeerList (map.saveLoads cycles) ns ttl now) ↔
        p.nodeId ≠ own ∧ parseSocketAddr (displayEndpoint p.ip p.quicPort) = some addr := by
    intro addr
    have hmem : (q.nodeId, addr) ∈
        runOncePeers own (currentPeerList (map.saveLoads cycles) ns ttl now) ↔ _ :=
      mem_runOncePeers (hid ▸ hq) (hfresh q hq)
    rwa [hid, hip, hport] at hmem
  unfold PeerEntry.Arrives
  simp only [hreceived]
  cases hfamily : p.ip with
  | v4 a b c d =>
    rw [parseSocketAddr_displayV4]
    constructor
    · intro h
      exact ⟨((h _).mpr rfl).1, a, b, c, d, rfl⟩
    · rintro ⟨hother, -⟩ addr
      simp [hother, eq_comm]
  | v6 segments =>
    rw [parseSocketAddr_displayV6]
    constructor
    · intro h
      cases ((h _).mpr rfl).2
    · rintro ⟨-, a, b, c, d, hv4⟩
      cases hv4

/-- A peer map with one peer. -/
def onePeer (ip : IpAddr) : PeerMap := PeerMap.empty.insert "home" ⟨"peer", ip, 5050, 0⟩

theorem peer_arrives_example :
    let map := (onePeer (.v4 192 0 2 1)).saveLoads [⟨0, 0, 0, 0⟩]
    PeerEntry.Arrives ⟨"peer", .v4 192 0 2 1, 5050, 0⟩
      (runOncePeers "own" (currentPeerList map "home" 60 0)) := by
  have hmap : (onePeer (.v4 192 0 2 1)).WellFormed := by
    intro e he
    cases List.mem_singleton.mp he
    trivial
  refine (peer_arrives_iff hmap [⟨0, 0, 0, 0⟩] "home" "own" 60 0
    ⟨"peer", .v4 192 0 2 1, 5050, 0⟩ (by decide) ?_).mpr ⟨by decide, 192, 0, 2, 1, rfl⟩
  intro q _
  rw [Nat.zero_sub]
  decide

/-- An IPv6 peer is on the list and the client drops it. -/
theorem ipv6_peer_dropped :
    let map := (onePeer (.v6 [8193, 3512, 0, 0, 0, 0, 0, 1])).saveLoads [⟨0, 0, 0, 0⟩]
    (currentPeerList map "home" 60 0).length = 1 ∧
      runOncePeers "own" (currentPeerList map "home" 60 0) = [] ∧
      ¬ PeerEntry.Arrives ⟨"peer", .v6 [8193, 3512, 0, 0, 0, 0, 0, 1], 5050, 0⟩
        (runOncePeers "own" (currentPeerList map "home" 60 0)) := by
  have hnone : runOncePeers "own" (currentPeerList ((onePeer (.v6
      [8193, 3512, 0, 0, 0, 0, 0, 1])).saveLoads [⟨0, 0, 0, 0⟩]) "home" 60 0) = [] := by
    decide
  refine ⟨by decide, hnone, fun h => ?_⟩
  have hmem := (h _).mpr rfl
  rw [hnone] at hmem
  cases hmem

end Reminisce

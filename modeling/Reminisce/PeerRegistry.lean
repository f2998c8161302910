import Reminisce.Database
import Reminisce.Library.Keyed

namespace Reminisce

/-- Clock readings are in nanoseconds. -/
def nanosPerSec : Nat := 10 ^ 9

structure PeerInfo where
  nodeId : NodeId
  addr : SocketAddr
  lastSeen : Time
  deriving DecidableEq, Repr

inductive AdmissionPolicy
  | open
  | allowList (list : List NodeId)
  deriving DecidableEq, Repr

def AdmissionPolicy.allows : AdmissionPolicy → NodeId → Bool
  | .open, _ => true
  | .allowList list, nodeId => list.any (· = nodeId)

/-- `is_private`, `is_loopback` or `is_link_local`; for version 6 only the loopback. -/
def isPrivateIp : IpAddr → Bool
  | .v4 a b _ _ =>
    (a = 10 ∨ (a = 172 ∧ 16 ≤ b ∧ b ≤ 31) ∨ (a = 192 ∧ b = 168)) ∨ a = 127 ∨ (a = 169 ∧ b = 254)
  | .v6 segments => segments = [0, 0, 0, 0, 0, 0, 0, 1]

/-- The map of known peers, one entry for each node id. -/
structure PeerRegistry where
  peers : List PeerInfo
  admission : AdmissionPolicy
  nodup : (peers.map (·.nodeId)).Nodup
  deriving DecidableEq

namespace PeerRegistry

def new (admission : AdmissionPolicy) : PeerRegistry := ⟨[], admission, List.nodup_nil⟩

def get (registry : PeerRegistry) (nodeId : NodeId) : Option PeerInfo :=
  registry.peers.find? (·.nodeId = nodeId)

theorem nodup_insert {peers : List PeerInfo} (h : (peers.map (·.nodeId)).Nodup)
    (info : PeerInfo) :
    ((peers.filter (·.nodeId ≠ info.nodeId) ++ [info]).map (·.nodeId)).Nodup :=
  Keyed.nodup_put h info

/-- `HashMap::insert`. -/
def insert (registry : PeerRegistry) (info : PeerInfo) : PeerRegistry where
  peers := registry.peers.filter (·.nodeId ≠ info.nodeId) ++ [info]
  admission := registry.admission
  nodup := nodup_insert registry.nodup info

/-- A known LAN address is kept when a public one is reported; either way the entry is
stamped with the present. -/
def upsert (registry : PeerRegistry) (nodeId : NodeId) (addr : SocketAddr) (now : Time) :
    PeerRegistry :=
  if registry.admission.allows nodeId then
    match registry.get nodeId with
    | some existing =>
      if isPrivateIp existing.addr.ip ∧ ¬isPrivateIp addr.ip then
        registry.insert { existing with lastSeen := now }
      else registry.insert ⟨nodeId, addr, now⟩
    | none => registry.insert ⟨nodeId, addr, now⟩
  else registry

def removeStale (registry : PeerRegistry) (timeoutSecs : Nat) (now : Time) : PeerRegistry where
  peers := registry.peers.filter fun p => (now - p.lastSeen) / nanosPerSec < timeoutSecs
  admission := registry.admission
  nodup := registry.nodup.sublist (List.filter_sublist.map _)

/-- `upsert` keeps the LAN address it has against a public one. -/
def keepsAddr (registry : PeerRegistry) (nodeId : NodeId) (addr : SocketAddr) : Bool :=
  (registry.get nodeId).any fun existing =>
    isPrivateIp existing.addr.ip && !isPrivateIp addr.ip

/-- The node registered at an address, before a dial. -/
def findByAddr (registry : PeerRegistry) (addr : SocketAddr) : Option NodeId :=
  (registry.peers.find? (·.addr = addr)).map (·.nodeId)

variable {registry : PeerRegistry} {nodeId : NodeId} {addr : SocketAddr} {now : Time}
  {peer : PeerInfo}

theorem mem_of_get (h : registry.get nodeId = some peer) :
    peer ∈ registry.peers ∧ peer.nodeId = nodeId :=
  ⟨List.mem_of_find?_eq_some h, by simpa using List.find?_some h⟩

theorem get_of_mem (h : peer ∈ registry.peers) : registry.get peer.nodeId = some peer :=
  Keyed.find_of_mem registry.nodup h

theorem mem_insert {info : PeerInfo} :
    peer ∈ (registry.insert info).peers ↔
      peer = info ∨ (peer ∈ registry.peers ∧ peer.nodeId ≠ info.nodeId) :=
  Keyed.mem_put

theorem get_insert_self (registry : PeerRegistry) (info : PeerInfo) :
    (registry.insert info).get info.nodeId = some info :=
  Keyed.find_put_self PeerInfo.nodeId registry.peers info

theorem get_insert_ne {info : PeerInfo} (hne : nodeId ≠ info.nodeId) :
    (registry.insert info).get nodeId = registry.get nodeId :=
  Keyed.find_put_ne info hne

/-- Which address the entry of an admitted node has afterwards. -/
theorem upsert_stores (h : registry.admission.allows nodeId) (addr : SocketAddr) (now : Time) :
    ∃ kept, registry.upsert nodeId addr now = registry.insert ⟨nodeId, kept, now⟩ ∧
      ((registry.keepsAddr nodeId addr = true ∧
          ∃ p ∈ registry.peers, p.nodeId = nodeId ∧ p.addr = kept) ∨
        (registry.keepsAddr nodeId addr = false ∧ kept = addr)) := by
  unfold upsert keepsAddr
  rw [if_pos h]
  split
  next existing hget =>
    obtain ⟨hmem, hid⟩ := mem_of_get hget
    split
    next hkeep =>
      exact ⟨existing.addr, by rw [← hid], Or.inl ⟨by simp [hget, hkeep], existing, hmem, hid, rfl⟩⟩
    next hnot => exact ⟨addr, rfl, Or.inr ⟨by simpa [hget] using hnot, rfl⟩⟩
  next hget => exact ⟨addr, rfl, Or.inr ⟨by simp [hget], rfl⟩⟩

/-- What `upsert` does to an admitted node: its entry is replaced by one seen now. -/
theorem upsert_eq_insert (h : registry.admission.allows nodeId) (addr : SocketAddr) (now : Time) :
    ∃ kept, registry.upsert nodeId addr now = registry.insert ⟨nodeId, kept, now⟩ := by
  obtain ⟨kept, heq, -⟩ := upsert_stores h addr now
  exact ⟨kept, heq⟩

theorem mem_of_findByAddr (h : registry.findByAddr addr = some nodeId) :
    ∃ p ∈ registry.peers, p.nodeId = nodeId ∧ p.addr = addr := by
  obtain ⟨p, hp, rfl⟩ := Option.map_eq_some_iff.mp h
  exact ⟨p, List.mem_of_find?_eq_some hp, rfl, by simpa using List.find?_some hp⟩

@[simp] theorem upsert_admission :
    (registry.upsert nodeId addr now).admission = registry.admission := by
  unfold upsert
  split
  next =>
    split
    next => split <;> rfl
    next => rfl
  next => rfl

theorem mem_upsert (h : peer ∈ (registry.upsert nodeId addr now).peers) :
    peer ∈ registry.peers ∨
      (registry.admission.allows nodeId ∧ peer.nodeId = nodeId ∧ peer.lastSeen = now) := by
  by_cases ha : registry.admission.allows nodeId
  · obtain ⟨kept, hk⟩ := upsert_eq_insert ha addr now
    rw [hk, mem_insert] at h
    rcases h with rfl | ⟨h, -⟩
    · exact Or.inr ⟨ha, rfl, rfl⟩
    · exact Or.inl h
  · rw [upsert, if_neg ha] at h
    exact Or.inl h

theorem upsert_stamps (h : registry.admission.allows nodeId) (addr : SocketAddr) (now : Time) :
    ∃ p ∈ (registry.upsert nodeId addr now).peers, p.nodeId = nodeId ∧ p.lastSeen = now := by
  obtain ⟨kept, hk⟩ := upsert_eq_insert h addr now
  rw [hk]
  exact ⟨_, mem_insert.mpr (Or.inl rfl), rfl, rfl⟩

theorem mem_removeStale {timeoutSecs : Nat} :
    peer ∈ (registry.removeStale timeoutSecs now).peers ↔
      peer ∈ registry.peers ∧ (now - peer.lastSeen) / nanosPerSec < timeoutSecs := by
  simp [removeStale]

end PeerRegistry

end Reminisce

import Reminisce.CoordinatorPeers
import Reminisce.Library.Runs

namespace Reminisce

/-- A spawned write of `save_persisted_peers`, with the number of its request. -/
structure SaveTask where
  number : Nat
  list : List PersistedPeer
  deriving DecidableEq

/-- The peer map, the maps for which a save was requested, the writes that have not taken the
lock yet, those that replaced the file, and the file. -/
structure PeerStore where
  peers : PeerMap
  requested : List PeerMap
  pending : List SaveTask
  writes : List Nat
  file : Option (List PersistedPeer)
  deriving DecidableEq

def PeerStore.start (file : Option (List PersistedPeer)) (now : Time) (currentSecs : Nat) :
    PeerStore :=
  { peers := loadPersistedPeers file now currentSecs, requested := [], pending := [], writes := []
    file }

/-- `write` takes the lock for any of the pending writes; `succeeds` says whether creating,
writing and renaming the temporary file all did. -/
inductive PeerStoreEvent
  | register (ns : String) (nodeId : NodeId) (ip : IpAddr) (quicPort : UInt16) (now : Time)
  | clean (ttl : Nat) (now : Time)
  | save (now : Time) (currentSecs : Nat)
  | write (position : Nat) (succeeds : Bool)

def peerStoreStep (s : PeerStore) : PeerStoreEvent → Option PeerStore
  | .register ns nodeId ip quicPort now =>
    some { s with peers := s.peers.insert ns ⟨nodeId, ip, quicPort, now⟩ }
  | .clean ttl now => some { s with
      peers := s.peers.retain fun p => (now - p.lastSeen) / nanosPerSec < ttl }
  | .save now currentSecs => some { s with
      requested := s.requested ++ [s.peers]
      pending := s.pending ++ [⟨s.requested.length, s.peers.persisted now currentSecs⟩] }
  | .write position succeeds =>
    match s.pending[position]? with
    | none => none
    | some task =>
      if succeeds then some { s with
        pending := s.pending.eraseIdx position
        writes := s.writes ++ [task.number]
        file := some task.list }
      else some { s with pending := s.pending.eraseIdx position }

/-- The file holds the peers of `map`, and they are what a restart loads. -/
def PeerStore.Holds (s : PeerStore) (map : PeerMap) : Prop :=
  (∃ now currentSecs, s.file = some (map.persisted now currentSecs)) ∧
    ∀ now currentSecs, (loadPersistedPeers s.file now currentSecs).SamePeers map

/-- No older snapshot replaced a newer one, and when no write is pending the file holds the
map of the last request. -/
def PeerStore.Latest (s : PeerStore) : Prop :=
  s.writes.Pairwise (· < ·) ∧
    (s.pending = [] → ∀ map, s.requested.getLast? = some map → s.Holds map)

/-- The writes take the lock in the order of their requests, and the one for the latest
request does not fail. -/
def WritesInOrder (s : PeerStore) : PeerStoreEvent → Prop
  | .write position succeeds => position = 0 ∧ ∀ task, s.pending[position]? = some task →
      task.number + 1 = s.requested.length → succeeds = true
  | _ => True

/-- The latest request is still pending or it is in the file. -/
structure PeerStore.Ordered (s : PeerStore) : Prop where
  pendingSorted : (s.pending.map (·.number)).Pairwise (· < ·)
  requestOf : ∀ task ∈ s.pending, ∃ map now currentSecs, s.requested[task.number]? = some map ∧
    task.list = map.persisted now currentSecs
  writesSorted : s.writes.Pairwise (· < ·)
  before : ∀ n ∈ s.writes, n < s.requested.length ∧ ∀ task ∈ s.pending, n < task.number
  latest : ∀ last map, last + 1 = s.requested.length → s.requested[last]? = some map →
    (∃ task ∈ s.pending, task.number = last) ∨ (last ∈ s.writes ∧ s.Holds map)

variable {s t : PeerStore}

theorem PeerStore.holds_persisted {map : PeerMap} {now : Time} {currentSecs : Nat}
    (h : s.file = some (map.persisted now currentSecs)) : s.Holds map := by
  refine ⟨⟨now, currentSecs, h⟩, fun loaded loadedSecs => ?_⟩
  rw [h]
  exact load_persisted_samePeers map now loaded currentSecs loadedSecs

theorem PeerStore.Ordered.number_lt (ho : s.Ordered) {task : SaveTask} (h : task ∈ s.pending) :
    task.number < s.requested.length := by
  obtain ⟨map, _, _, hmap, _⟩ := ho.requestOf task h
  exact (List.getElem?_eq_some_iff.mp hmap).1

/-- A change of the map alone. -/
theorem PeerStore.Ordered.of_peers (ho : s.Ordered) (peers : PeerMap) :
    ({ s with peers } : PeerStore).Ordered :=
  ⟨ho.pendingSorted, ho.requestOf, ho.writesSorted, ho.before, ho.latest⟩

theorem PeerStore.Ordered.save (ho : s.Ordered) (now : Time) (currentSecs : Nat) :
    ({ s with
      requested := s.requested ++ [s.peers]
      pending := s.pending ++ [⟨s.requested.length, s.peers.persisted now currentSecs⟩] } :
        PeerStore).Ordered := by
  refine ⟨?_, ?_, ho.writesSorted, ?_, ?_⟩
  · simp only [List.map_append, List.map_cons, List.map_nil]
    refine List.pairwise_append.mpr ⟨ho.pendingSorted, by simp, ?_⟩
    intro n hn last hlast
    obtain ⟨task, htask, rfl⟩ := List.mem_map.mp hn
    rw [List.mem_singleton.mp hlast]
    exact ho.number_lt htask
  · intro task htask
    rcases List.mem_append.mp htask with hold | hnew
    · obtain ⟨map, saved, secs, hmap, hlist⟩ := ho.requestOf task hold
      have hlt := ho.number_lt hold
      refine ⟨map, saved, secs, ?_, hlist⟩
      rw [List.getElem?_append_left hlt, hmap]
    · cases List.mem_singleton.mp hnew
      exact ⟨s.peers, now, currentSecs, by simp, rfl⟩
  · intro n hn
    obtain ⟨hlt, hpending⟩ := ho.before n hn
    refine ⟨by simp only [List.length_append, List.length_singleton]; omega, ?_⟩
    intro task htask
    rcases List.mem_append.mp htask with hold | hnew
    · exact hpending task hold
    · cases List.mem_singleton.mp hnew
      exact hlt
  · intro last map hlast hmap
    left
    refine ⟨⟨s.requested.length, s.peers.persisted now currentSecs⟩, by simp, ?_⟩
    simp only [List.length_append, List.length_singleton] at hlast
    simp only
    omega

/-- The oldest pending write is done. -/
theorem PeerStore.Ordered.write (ho : s.Ordered) {task : SaveTask} {rest : List SaveTask}
    (hp : s.pending = task :: rest) :
    ({ s with pending := rest, writes := s.writes ++ [task.number], file := some task.list } :
      PeerStore).Ordered := by
  have hmem : task ∈ s.pending := by simp [hp]
  have hsorted := ho.pendingSorted
  rw [hp, List.map_cons, List.pairwise_cons] at hsorted
  have hin : ∀ other ∈ rest, other ∈ s.pending := fun other h => by simp [hp, h]
  refine ⟨hsorted.2, fun other h => ho.requestOf other (hin other h), ?_, ?_, ?_⟩
  · refine List.pairwise_append.mpr ⟨ho.writesSorted, by simp, ?_⟩
    intro n hn last hlast
    rw [List.mem_singleton.mp hlast]
    exact (ho.before n hn).2 task hmem
  · intro n hn
    rcases List.mem_append.mp hn with hold | hnew
    · exact ⟨(ho.before n hold).1, fun other h => (ho.before n hold).2 other (hin other h)⟩
    · rw [List.mem_singleton.mp hnew]
      refine ⟨ho.number_lt hmem, fun other h => ?_⟩
      exact hsorted.1 _ (List.mem_map_of_mem h)
  · intro last map hlast hmap
    by_cases heq : task.number = last
    · right
      obtain ⟨saved, now, secs, hsaved, hlist⟩ := ho.requestOf task hmem
      rw [heq] at hsaved
      cases Option.some.inj (hsaved.symm.trans hmap)
      refine ⟨by simp [heq], ?_⟩
      have hfile : some task.list = some (map.persisted now secs) := congrArg some hlist
      exact PeerStore.holds_persisted hfile
    · rcases ho.latest last map hlast hmap with ⟨other, hother, hnum⟩ | ⟨hwritten, _⟩
      · rw [hp] at hother
        rcases List.mem_cons.mp hother with rfl | hother
        · exact absurd hnum heq
        · exact Or.inl ⟨other, hother, hnum⟩
      · have hlater := (ho.before last hwritten).2 task hmem
        have hlt := ho.number_lt hmem
        have hlast' : last + 1 = s.requested.length := hlast
        omega

/-- A write that fails is not the one for the latest request. -/
theorem PeerStore.Ordered.drop (ho : s.Ordered) {task : SaveTask} {rest : List SaveTask}
    (hp : s.pending = task :: rest) (hnot : task.number + 1 ≠ s.requested.length) :
    ({ s with pending := rest } : PeerStore).Ordered := by
  have hsorted := ho.pendingSorted
  rw [hp, List.map_cons, List.pairwise_cons] at hsorted
  have hin : ∀ other ∈ rest, other ∈ s.pending := fun other h => by simp [hp, h]
  refine ⟨hsorted.2, fun other h => ho.requestOf other (hin other h), ho.writesSorted, ?_, ?_⟩
  · intro n hn
    exact ⟨(ho.before n hn).1, fun other h => (ho.before n hn).2 other (hin other h)⟩
  · intro last map hlast hmap
    rcases ho.latest last map hlast hmap with ⟨other, hother, hnum⟩ | hheld
    · rw [hp] at hother
      rcases List.mem_cons.mp hother with rfl | hother
      · rw [hnum] at hnot
        exact absurd hlast hnot
      · exact Or.inl ⟨other, hother, hnum⟩
    · exact Or.inr hheld

theorem peerStoreStep_ordered {e : PeerStoreEvent} (ho : s.Ordered) (hc : WritesInOrder s e)
    (h : peerStoreStep s e = some t) : t.Ordered := by
  cases e with
  | register ns nodeId ip quicPort now =>
    cases Option.some.inj h
    exact ho.of_peers _
  | clean ttl now =>
    cases Option.some.inj h
    exact ho.of_peers _
  | save now currentSecs =>
    cases Option.some.inj h
    exact ho.save now currentSecs
  | write position succeeds =>
    obtain ⟨rfl, hlast⟩ := hc
    simp only [peerStoreStep] at h
    cases hp : s.pending with
    | nil => simp [hp] at h
    | cons task rest =>
      simp only [hp, List.getElem?_cons_zero, List.eraseIdx_cons_zero] at h
      cases succeeds with
      | true =>
        cases Option.some.inj h
        exact ho.write hp
      | false =>
        cases Option.some.inj h
        refine ho.drop hp fun hnum => ?_
        have := hlast task (by simp [hp]) hnum
        simp at this

theorem PeerStore.Ordered.isLatest (ho : s.Ordered) : s.Latest := by
  refine ⟨ho.writesSorted, fun hnone map hmap => ?_⟩
  have hlen : s.requested ≠ [] := by
    rintro hnil
    simp [hnil] at hmap
  have hpos := List.length_pos_iff.mpr hlen
  rw [List.getLast?_eq_getElem?] at hmap
  rcases ho.latest (s.requested.length - 1) map (by omega) hmap with ⟨task, htask, _⟩ | ⟨_, hheld⟩
  · simp [hnone] at htask
  · exact hheld

/-- In every run whose writes take the lock in the order of their requests, the latest of them
without a failure, the file ends up with the peers of the last requested save. -/
theorem peers_file_latest_of_order {file : Option (List PersistedPeer)} {now : Time}
    {currentSecs : Nat} {events : List PeerStoreEvent}
    (hc : Runs.Meets peerStoreStep WritesInOrder (PeerStore.start file now currentSecs) events)
    (h : Runs.exec peerStoreStep (PeerStore.start file now currentSecs) events = some s) :
    s.Latest := by
  have hstart : (PeerStore.start file now currentSecs).Ordered := by
    refine ⟨List.Pairwise.nil, ?_, List.Pairwise.nil, ?_, ?_⟩
    · intro task htask
      simp [PeerStore.start] at htask
    · intro n hn
      simp [PeerStore.start] at hn
    · intro last map hlast
      simp [PeerStore.start] at hlast
  have ho : s.Ordered :=
    Runs.exec_invariant (fun _ _ _ ho hc hstep => peerStoreStep_ordered ho hc hstep) hstart hc h
  exact ho.isLatest

/-- Two nodes register, each registration saves, and the writes run at `first` and then at
the front. -/
def twoSaves (first : Nat) : List PeerStoreEvent :=
  [.register "home" "a" (.v4 10 0 0 1) 5050 0, .save 0 100,
    .register "home" "b" (.v4 10 0 0 2) 5050 0, .save 0 100, .write first true, .write 0 true]

theorem two_saves_in_order : ∃ t,
    Runs.exec peerStoreStep (PeerStore.start none 0 100) (twoSaves 0) = some t ∧
    t.pending = [] ∧ t.requested.length = 2 ∧ t.Latest := by
  have hmeets : Runs.Meets peerStoreStep WritesInOrder (PeerStore.start none 0 100)
      (twoSaves 0) := by
    refine ⟨trivial, fun _ h => ?_⟩
    cases Option.some.inj h
    refine ⟨trivial, fun _ h => ?_⟩
    cases Option.some.inj h
    refine ⟨trivial, fun _ h => ?_⟩
    cases Option.some.inj h
    refine ⟨trivial, fun _ h => ?_⟩
    cases Option.some.inj h
    refine ⟨⟨rfl, fun _ _ _ => rfl⟩, fun _ h => ?_⟩
    cases Option.some.inj h
    exact ⟨⟨rfl, fun _ _ _ => rfl⟩, fun _ _ => trivial⟩
  have hend : ((Runs.exec peerStoreStep (PeerStore.start none 0 100) (twoSaves 0)).map
      fun t => (t.pending, t.requested.length)) = some ([], 2) := by decide
  obtain ⟨t, ht, hpair⟩ := Option.map_eq_some_iff.mp hend
  obtain ⟨hpending, hrequested⟩ := Prod.mk.inj hpair
  exact ⟨t, ht, hpending, hrequested, peers_file_latest_of_order hmeets ht⟩

/-- The write of the second save takes the lock first: the file loses the second node. -/
theorem older_save_overwrites_newer : ∃ t,
    Runs.exec peerStoreStep (PeerStore.start none 0 100) (twoSaves 1) = some t ∧
    t.pending = [] ∧ ¬ t.Latest ∧
    t.file = some [⟨"home", "a", .v4 10 0 0 1, 5050, 100⟩] ∧
    (t.requested.getLast?.map fun map => map.entries.length) = some 2 := by
  refine ⟨_, rfl, rfl, fun hlatest => ?_, rfl, rfl⟩
  have hsorted := hlatest.1
  revert hsorted
  decide

end Reminisce

import Mathlib.Data.List.AList
import Reminisce.Database
import Reminisce.Identity
import Reminisce.Library.Runs

namespace Reminisce

/-- A QUIC connection of the coordinator. The serial number tells all connections of a run
apart; `stable_id` only those that somebody still holds. -/
structure Link where
  serial : Nat
  stableId : Nat
  deriving DecidableEq, Repr

/-- Which of the two maps a connection registers in. -/
inductive LinkKind
  | tunnel
  | channel
  deriving DecidableEq, Repr

inductive LinkPhase
  | accepted
  | registered (kind : LinkKind) (nodeId : NodeId)
  deriving DecidableEq, Repr

/-- The task of an accepted connection. -/
structure LinkTask where
  stableId : Nat
  phase : LinkPhase
  deriving DecidableEq, Repr

structure LinkRegistration where
  kind : LinkKind
  nodeId : NodeId
  link : Link
  deriving DecidableEq, Repr

abbrev LinkMap := AList fun _ : NodeId => Link

/-- The coordinator's maps and tasks, with the connections that have closed, all
registrations so far and the connections whose cleanup ran. -/
structure CoordinatorLinks where
  nextSerial : Nat
  tasks : AList fun _ : Nat => LinkTask
  tunnels : LinkMap
  channels : LinkMap
  closed : List Nat
  registrations : List LinkRegistration
  cleaned : List Nat

def CoordinatorLinks.init : CoordinatorLinks :=
  { nextSerial := 0, tasks := ∅, tunnels := ∅, channels := ∅, closed := [], registrations := []
    cleaned := [] }

def CoordinatorLinks.links (s : CoordinatorLinks) : LinkKind → LinkMap
  | .tunnel => s.tunnels
  | .channel => s.channels

def CoordinatorLinks.setLinks (s : CoordinatorLinks) (kind : LinkKind) (map : LinkMap) :
    CoordinatorLinks :=
  match kind with
  | .tunnel => { s with tunnels := map }
  | .channel => { s with channels := map }

/-- Who may register as a tunnel backend. -/
structure TunnelPolicy where
  allowedTunnelNodeId : Option NodeId
  allowAnyTunnel : Bool

def TunnelPolicy.admits (policy : TunnelPolicy) (nodeId : NodeId) : Bool :=
  match policy.allowedTunnelNodeId with
  | some allowed => nodeId = allowed
  | none => policy.allowAnyTunnel

/-- The signature on the challenge verifies under the key that the node id spells. -/
def authenticated (S : SigningScheme) (nodeId : NodeId) (nonce signature : Bytes) : Bool :=
  match Hex.decode nodeId.toList with
  | none => false
  | some bytes =>
    if h : bytes.length = 32 then verifySignature S ⟨bytes, h⟩ nonce signature else false

/-- A map without the entry of `nodeId`, if that entry is the connection itself. -/
def removeOwn (map : LinkMap) (nodeId : NodeId) (stableId : Nat) : LinkMap :=
  match map.lookup nodeId with
  | some link => if link.stableId = stableId then map.erase nodeId else map
  | none => map

/-- No task and no map holds a connection with this `stable_id`. -/
def CoordinatorLinks.unheld (s : CoordinatorLinks) (stableId : Nat) : Bool :=
  (s.tasks.entries.all fun e => e.2.stableId ≠ stableId) &&
    (s.tunnels.entries.all fun e => e.2.stableId ≠ stableId) &&
    (s.channels.entries.all fun e => e.2.stableId ≠ stableId)

inductive LinkEvent
  | accept (stableId : Nat)
  | register (serial : Nat) (kind : LinkKind) (nodeId : NodeId) (nonce signature : Bytes)
  | drop (serial : Nat)
  | close (serial : Nat)
  | cleanup (serial : Nat)

/-- The tasks of the coordinator, in any interleaving; a connection closes whenever it
likes. -/
def linkStep (S : SigningScheme) (policy : TunnelPolicy) (s : CoordinatorLinks) :
    LinkEvent → Option CoordinatorLinks
  | .accept stableId =>
    if s.unheld stableId then
      some { s with
        nextSerial := s.nextSerial + 1
        tasks := s.tasks.insert s.nextSerial ⟨stableId, .accepted⟩ }
    else none
  | .register serial kind nodeId nonce signature =>
    match s.tasks.lookup serial with
    | some ⟨stableId, .accepted⟩ =>
      if (kind = .channel ∨ policy.admits nodeId) ∧ authenticated S nodeId nonce signature then
        some { s.setLinks kind ((s.links kind).insert nodeId ⟨serial, stableId⟩) with
          tasks := s.tasks.insert serial ⟨stableId, .registered kind nodeId⟩
          registrations := s.registrations ++ [⟨kind, nodeId, ⟨serial, stableId⟩⟩] }
      else some { s with tasks := s.tasks.erase serial }
    | _ => none
  | .drop serial =>
    match s.tasks.lookup serial with
    | some ⟨_, .accepted⟩ => some { s with tasks := s.tasks.erase serial }
    | _ => none
  | .close serial => some { s with closed := s.closed ++ [serial] }
  | .cleanup serial =>
    match s.tasks.lookup serial with
    | some ⟨stableId, .registered kind nodeId⟩ =>
      if serial ∈ s.closed then
        some { s.setLinks kind (removeOwn (s.links kind) nodeId stableId) with
          tasks := s.tasks.erase serial
          cleaned := s.cleaned ++ [serial] }
      else none
    | _ => none

/-- The most recent registration of a node in one of the maps. -/
def CoordinatorLinks.lastRegistered (s : CoordinatorLinks) (kind : LinkKind) (nodeId : NodeId) :
    Option Link :=
  ((s.registrations.filter fun r => r.kind = kind ∧ r.nodeId = nodeId).getLast?).map (·.link)

variable {S : SigningScheme} {policy : TunnelPolicy} {s t : CoordinatorLinks} {kind other : LinkKind}
  {nodeId n : NodeId} {link : Link}

@[simp] theorem links_setLinks_self (map : LinkMap) : (s.setLinks kind map).links kind = map := by
  cases kind <;> rfl

@[simp] theorem links_setLinks_ne (map : LinkMap) (h : other ≠ kind) :
    (s.setLinks kind map).links other = s.links other := by
  cases kind <;> cases other <;> first | rfl | exact absurd rfl h

theorem lastRegistered_append_self (r : LinkRegistration) (registrations : List LinkRegistration) :
    (((registrations ++ [r]).filter fun q => q.kind = r.kind ∧ q.nodeId = r.nodeId).getLast?).map
      (·.link) = some r.link := by
  rw [List.filter_append]
  simp

theorem lastRegistered_append_ne {r : LinkRegistration} {registrations : List LinkRegistration}
    (h : ¬ (r.kind = kind ∧ r.nodeId = nodeId)) :
    (registrations ++ [r]).filter (fun q => q.kind = kind ∧ q.nodeId = nodeId) =
      registrations.filter fun q => q.kind = kind ∧ q.nodeId = nodeId := by
  rw [List.filter_append, List.filter_singleton]
  simp [h]

/-- An entry is the last registration, of a task that is still there; registrations whose
cleanup has not run have their task; and held connections differ in `stable_id`. -/
structure CoordinatorLinks.Current (s : CoordinatorLinks) : Prop where
  entry : ∀ kind nodeId link, (s.links kind).lookup nodeId = some link ↔
    s.lastRegistered kind nodeId = some link ∧
      s.tasks.lookup link.serial = some ⟨link.stableId, .registered kind nodeId⟩
  waiting : ∀ kind nodeId link, s.lastRegistered kind nodeId = some link →
    link.serial < s.nextSerial ∧ (link.serial ∉ s.cleaned →
      s.tasks.lookup link.serial = some ⟨link.stableId, .registered kind nodeId⟩)
  gone : ∀ serial ∈ s.cleaned, serial < s.nextSerial ∧ serial ∈ s.closed ∧
    s.tasks.lookup serial = none
  fresh : ∀ serial task, s.tasks.lookup serial = some task → serial < s.nextSerial
  stable : ∀ a b ta tb, s.tasks.lookup a = some ta → s.tasks.lookup b = some tb →
    ta.stableId = tb.stableId → a = b

theorem current_init : CoordinatorLinks.init.Current := by
  refine ⟨?_, ?_, ?_, ?_, ?_⟩
  · intro kind nodeId link
    cases kind <;> simp [CoordinatorLinks.init, CoordinatorLinks.links,
      CoordinatorLinks.lastRegistered]
  · intro kind nodeId link h
    simp [CoordinatorLinks.init, CoordinatorLinks.lastRegistered] at h
  · intro serial h
    simp [CoordinatorLinks.init] at h
  · intro serial task h
    simp [CoordinatorLinks.init] at h
  · intro a b ta tb h
    simp [CoordinatorLinks.init] at h

theorem unheld_task {stableId : Nat} (h : s.unheld stableId) {serial : Nat} {task : LinkTask}
    (ht : s.tasks.lookup serial = some task) : task.stableId ≠ stableId := by
  unfold CoordinatorLinks.unheld at h
  simp only [Bool.and_eq_true, List.all_eq_true] at h
  have hmem : (⟨serial, task⟩ : Sigma fun _ : Nat => LinkTask) ∈ s.tasks.entries :=
    AList.mem_lookup_iff.mp ht
  simpa using h.1.1 _ hmem

end Reminisce

import Reminisce.Library.Runs
import Reminisce.PeerRegistry

namespace Reminisce

/-- A node id in 64 hexadecimal digits. -/
def IsNodeId (name : List Char) : Bool :=
  decide (name.length = 64) && name.all fun c => (Hex.value c).isSome

/-- Two DNS labels of 32 digits each. -/
def sniForNodeId (nodeId : NodeId) : Except Np2pError (List Char) :=
  if IsNodeId nodeId.toList then .ok (nodeId.toList.take 32 ++ '.' :: nodeId.toList.drop 32)
  else .error (.crypto s!"Connection server name must be a 64-hex Node ID, got '{nodeId}'")

/-- `VerifyNodeCertificate::verify_server_cert`, for a certificate with the key `pubkey`. -/
def verifyServerCert (pubkey : Digest) (serverName : List Char) : Except String Unit :=
  let name := serverName.filter (· ≠ '.')
  if IsNodeId name then
    match Hex.decode name with
    | none => .error "Failed to decode server name as hex"
    | some expected =>
      if pubkey.toList ≠ expected then
        .error "Certificate public key does not match expected Node ID"
      else .ok ()
  else .error ("Server name '" ++ String.ofList name ++
    "' does not encode a 64-hex Node ID — refusing unverified connection")

/-- `Node::connect` to a server with the given certificate key succeeds; `serverName` says
which server names the TLS library takes. -/
def connects (serverName : List Char → Bool) (nodeId : NodeId) (key : Digest) : Bool :=
  match sniForNodeId nodeId with
  | .error _ => false
  | .ok sni => serverName sni && (verifyServerCert key sni).isOk

/-- A call of `send_message` that has read the address of its target. -/
structure PendingSend where
  target : NodeId
  addr : SocketAddr
  message : Bytes
  deriving DecidableEq

/-- A message that went out over a direct connection to the holder of `peerKey`, whose answer
is taken for the answer of the target. -/
structure DirectDelivery where
  target : NodeId
  message : Bytes
  peerKey : Digest
  answered : Bool
  deriving DecidableEq

structure Messenger where
  registry : PeerRegistry
  pending : List PendingSend
  delivered : List DirectDelivery
  relayed : List (NodeId × Bytes)
  deriving DecidableEq

def Messenger.init (admission : AdmissionPolicy) : Messenger :=
  { registry := PeerRegistry.new admission, pending := [], delivered := [], relayed := [] }

/-- In `dial`, `found` is the entry that the iteration of `find_by_addr` meets first. -/
inductive MessengerEvent
  | announce (nodeId : NodeId) (addr : SocketAddr) (now : Time)
  | sweep (timeoutSecs : Nat) (now : Time)
  | send (target : NodeId) (message : Bytes)
  | dial (index : Nat) (found : PeerInfo) (key : Digest) (answered : Bool)
  | fail (index : Nat)

/-- The registry and the calls of `send_message`; between the two lookups of a call anything
may happen to the registry. -/
def messengerStep (serverName : List Char → Bool) (s : Messenger) :
    MessengerEvent → Option Messenger
  | .announce nodeId addr now => some { s with registry := s.registry.upsert nodeId addr now }
  | .sweep timeoutSecs now => some { s with registry := s.registry.removeStale timeoutSecs now }
  | .send target message =>
    match s.registry.get target with
    | some peer => some { s with pending := s.pending ++ [⟨target, peer.addr, message⟩] }
    | none => some { s with relayed := s.relayed ++ [(target, message)] }
  | .dial index found key answered =>
    match s.pending[index]? with
    | none => none
    | some send =>
      if found ∈ s.registry.peers ∧ found.addr = send.addr ∧
          connects serverName found.nodeId key then
        some { s with
          pending := s.pending.eraseIdx index
          delivered := s.delivered ++ [⟨send.target, send.message, key, answered⟩]
          relayed := if answered then s.relayed else s.relayed ++ [(send.target, send.message)] }
      else none
  | .fail index =>
    match s.pending[index]? with
    | none => none
    | some send => some { s with
        pending := s.pending.eraseIdx index
        relayed := s.relayed ++ [(send.target, send.message)] }

/-- The certificate carried the key that the target names. -/
def DirectDelivery.ReachedTarget (d : DirectDelivery) : Prop :=
  Hex.decode d.target.toList = some d.peerKey.toList

def Messenger.AllReached (s : Messenger) : Prop := ∀ d ∈ s.delivered, d.ReachedTarget

/-- A connection that verifies some certificate can be made under this id. -/
def Dialable (serverName : List Char → Bool) (nodeId : NodeId) : Prop :=
  IsNodeId nodeId.toList ∧ serverName (nodeId.toList.take 32 ++ '.' :: nodeId.toList.drop 32)

/-- No id registered at the dialed address, other than spellings of the target, can be
dialed. -/
def BoundToTarget (serverName : List Char → Bool) (registry : PeerRegistry) (send : PendingSend) :
    Prop :=
  ∀ peer ∈ registry.peers, peer.addr = send.addr → Dialable serverName peer.nodeId →
    Hex.decode peer.nodeId.toList = Hex.decode send.target.toList

/-- The direct attempts of a run are made only where the address is bound to the target. -/
def DialsBound (serverName : List Char → Bool) (s : Messenger) : MessengerEvent → Prop
  | .dial index _ _ _ => ∀ send, s.pending[index]? = some send →
      BoundToTarget serverName s.registry send
  | _ => True

variable {serverName : List Char → Bool} {nodeId : NodeId} {key : Digest} {s t : Messenger}

theorem filter_dot_sni (h : IsNodeId nodeId.toList) :
    (nodeId.toList.take 32 ++ '.' :: nodeId.toList.drop 32).filter (· ≠ '.') = nodeId.toList := by
  have hdigits : ∀ c ∈ nodeId.toList, decide (c ≠ '.') = true := by
    intro c hc
    simp only [IsNodeId, Bool.and_eq_true, List.all_eq_true] at h
    have hvalue := h.2 c hc
    simp only [decide_eq_true_eq]
    rintro rfl
    simp [Hex.value_dot] at hvalue
  have htake : (nodeId.toList.take 32).filter (· ≠ '.') = nodeId.toList.take 32 :=
    List.filter_eq_self.mpr fun c hc => hdigits c (List.mem_of_mem_take hc)
  have hdrop : (nodeId.toList.drop 32).filter (· ≠ '.') = nodeId.toList.drop 32 :=
    List.filter_eq_self.mpr fun c hc => hdigits c (List.mem_of_mem_drop hc)
  rw [List.filter_append, List.filter_cons, htake, hdrop]
  simp

theorem isNodeId_decode {name : List Char} (h : IsNodeId name) :
    ∃ key : Digest, Hex.decode name = some key.toList := by
  simp only [IsNodeId, Bool.and_eq_true, decide_eq_true_eq, List.all_eq_true] at h
  obtain ⟨bytes, hbytes⟩ := Hex.decode_exists (n := 32) (by omega) h.2
  have hlen := Hex.length_decode hbytes
  exact ⟨⟨bytes, by omega⟩, hbytes⟩

/-- The reassembled server name binds the connection to the key of the id. -/
theorem connects_iff : connects serverName nodeId key ↔
    Dialable serverName nodeId ∧ Hex.decode nodeId.toList = some key.toList := by
  unfold connects Dialable sniForNodeId
  by_cases hid : IsNodeId nodeId.toList
  · obtain ⟨expected, hexp⟩ := isNodeId_decode hid
    simp only [hid, if_true, verifyServerCert, filter_dot_sni hid, hexp, true_and,
      Bool.and_eq_true, Option.some.injEq]
    refine and_congr_right fun _ => ?_
    by_cases heq : key.toList = expected.toList
    · simp [heq, Except.isOk, Except.toBool]
    · simp [heq, Ne.symm heq, Except.isOk, Except.toBool]
  · simp [hid]

/-- What a direct attempt does: it takes an id registered at the address and delivers to the
holder of that key. -/
theorem messengerStep_dial {index : Nat} {found : PeerInfo} {answered : Bool}
    (h : messengerStep serverName s (.dial index found key answered) = some t) :
    ∃ send, s.pending[index]? = some send ∧ found ∈ s.registry.peers ∧ found.addr = send.addr ∧
      connects serverName found.nodeId key ∧
      t.delivered = s.delivered ++ [⟨send.target, send.message, key, answered⟩] := by
  simp only [messengerStep] at h
  cases hsend : s.pending[index]? with
  | none => simp [hsend] at h
  | some send =>
    simp only [hsend] at h
    split at h
    next hc =>
      cases Option.some.inj h
      exact ⟨send, rfl, hc.1, hc.2.1, hc.2.2, rfl⟩
    next => simp at h

/-- Nothing else delivers directly. -/
theorem messengerStep_delivered {e : MessengerEvent}
    (h : messengerStep serverName s e = some t) (hd : ∀ i f k a, e ≠ .dial i f k a) :
    t.delivered = s.delivered := by
  cases e with
  | announce nodeId addr now =>
    cases Option.some.inj h
    rfl
  | sweep timeoutSecs now =>
    cases Option.some.inj h
    rfl
  | send target message =>
    simp only [messengerStep] at h
    split at h <;> cases Option.some.inj h <;> rfl
  | dial index found key answered => exact absurd rfl (hd index found key answered)
  | fail index =>
    simp only [messengerStep] at h
    cases hsend : s.pending[index]? with
    | none => simp [hsend] at h
    | some send =>
      simp only [hsend] at h
      cases Option.some.inj h
      rfl

theorem BoundToTarget.reaches {send : PendingSend} {found : PeerInfo}
    (hb : BoundToTarget serverName s.registry send) (hfound : found ∈ s.registry.peers)
    (haddr : found.addr = send.addr) (hc : connects serverName found.nodeId key) :
    Hex.decode send.target.toList = some key.toList := by
  obtain ⟨hdial, hkey⟩ := connects_iff.mp hc
  rw [← hb found hfound haddr hdial, hkey]

theorem messengerStep_reaches {e : MessengerEvent} (hs : s.AllReached)
    (hb : DialsBound serverName s e) (h : messengerStep serverName s e = some t) :
    t.AllReached := by
  intro d hd
  by_cases hdial : ∃ i f k a, e = .dial i f k a
  · obtain ⟨index, found, key, answered, rfl⟩ := hdial
    obtain ⟨send, hsend, hfound, haddr, hc, hdel⟩ := messengerStep_dial h
    rw [hdel] at hd
    rcases List.mem_append.mp hd with hold | hnew
    · exact hs d hold
    · cases List.mem_singleton.mp hnew
      exact (hb send hsend).reaches hfound haddr hc
  · have hsame := messengerStep_delivered h fun i f k a he => hdial ⟨i, f, k, a, he⟩
    rw [hsame] at hd
    exact hs d hd

/-- The call with this index can be delivered to the holder of `key`. -/
def CanReach (serverName : List Char → Bool) (s : Messenger) (index : Nat) (key : Digest) : Prop :=
  ∃ found answered t, messengerStep serverName s (.dial index found key answered) = some t

theorem canReach_iff {index : Nat} {send : PendingSend} (hsend : s.pending[index]? = some send) :
    CanReach serverName s index key ↔ ∃ found ∈ s.registry.peers, found.addr = send.addr ∧
      connects serverName found.nodeId key := by
  constructor
  · rintro ⟨found, answered, t, h⟩
    obtain ⟨send', hsend', hfound, haddr, hc, _⟩ := messengerStep_dial h
    cases Option.some.inj (hsend.symm.trans hsend')
    exact ⟨found, hfound, haddr, hc⟩
  · rintro ⟨found, hfound, haddr, hc⟩
    have henabled : (messengerStep serverName s (.dial index found key true)).isSome := by
      simp [messengerStep, hsend, hfound, haddr, hc]
    obtain ⟨t, ht⟩ := Option.isSome_iff_exists.mp henabled
    exact ⟨found, true, t, ht⟩

theorem canReach_only_target_iff {index : Nat} {send : PendingSend}
    (hsend : s.pending[index]? = some send) :
    (∀ key, CanReach serverName s index key → Hex.decode send.target.toList = some key.toList) ↔
      BoundToTarget serverName s.registry send := by
  constructor
  · intro h peer hpeer haddr hdial
    obtain ⟨key, hkey⟩ := isNodeId_decode hdial.1
    have hc := connects_iff.mpr ⟨hdial, hkey⟩
    rw [hkey, h key ((canReach_iff hsend).mpr ⟨peer, hpeer, haddr, hc⟩)]
  · intro hb key hreach
    obtain ⟨found, hfound, haddr, hc⟩ := (canReach_iff hsend).mp hreach
    exact hb.reaches hfound haddr hc

/-- In every run whose direct attempts find the address bound to the target, all direct
messages reach their target; and in every state of a run, a call reaches nobody else exactly
when its address is bound to the target. -/
theorem direct_messages_reach_target {admission : AdmissionPolicy} {events : List MessengerEvent}
    (h : Runs.exec (messengerStep serverName) (Messenger.init admission) events = some s) :
    (Runs.Meets (messengerStep serverName) (DialsBound serverName) (Messenger.init admission)
      events → s.AllReached) ∧
    ∀ index send, s.pending[index]? = some send →
      ((∀ key, CanReach serverName s index key →
          Hex.decode send.target.toList = some key.toList) ↔
        BoundToTarget serverName s.registry send) := by
  constructor
  · intro hm
    have hstart : (Messenger.init admission).AllReached := by
      intro d hd
      simp [Messenger.init] at hd
    exact Runs.exec_invariant (fun _ _ _ hs hb hstep => messengerStep_reaches hs hb hstep) hstart
      hm h
  · intro index send hsend
    exact canReach_only_target_iff hsend

def sharedAddr : SocketAddr := ⟨.v4 192 168 1 9, 5050⟩

def nodeA : NodeId := String.ofList (List.replicate 64 'a')

def nodeB : NodeId := String.ofList (List.replicate 64 'b')

/-- A server that is alone on its host gets its message. -/
theorem lone_host_reached : ∃ t,
    Runs.exec (messengerStep fun _ => true) (Messenger.init .open)
      [.announce nodeA sharedAddr 1, .send nodeA [1, 2, 3],
        .dial 0 ⟨nodeA, sharedAddr, 1⟩ (List.Vector.replicate 32 0xaa) true] = some t ∧
    t.delivered ≠ [] ∧ t.AllReached := by
  have hrun : ((Runs.exec (messengerStep fun _ => true) (Messenger.init .open)
      [.announce nodeA sharedAddr 1, .send nodeA [1, 2, 3],
        .dial 0 ⟨nodeA, sharedAddr, 1⟩ (List.Vector.replicate 32 0xaa) true]).map (·.delivered)) =
      some [⟨nodeA, [1, 2, 3], List.Vector.replicate 32 0xaa, true⟩] := by
    decide +kernel
  obtain ⟨t, ht, hdel⟩ := Option.map_eq_some_iff.mp hrun
  refine ⟨t, ht, by simp [hdel], (direct_messages_reach_target ht).1 ?_⟩
  refine ⟨trivial, fun s hs => ⟨trivial, fun u hu => ⟨?_, fun _ _ => trivial⟩⟩⟩
  cases Option.some.inj hs
  cases Option.some.inj hu
  intro send hsend
  cases Option.some.inj hsend
  intro peer hpeer _ _
  have hone : peer = ⟨nodeA, sharedAddr, 1⟩ := List.mem_singleton.mp hpeer
  rw [hone]

/-- Two servers share a host: the message for one is delivered to the other, whose answer
counts as the answer of the first. -/
theorem message_reaches_other_node : ∃ t,
    Runs.exec (messengerStep fun _ => true) (Messenger.init .open)
      [.announce nodeA sharedAddr 1, .announce nodeB sharedAddr 2, .send nodeA [1, 2, 3],
        .dial 0 ⟨nodeB, sharedAddr, 2⟩ (List.Vector.replicate 32 0xbb) true] = some t ∧
    ¬ t.AllReached := by
  have hrun : ((Runs.exec (messengerStep fun _ => true) (Messenger.init .open)
      [.announce nodeA sharedAddr 1, .announce nodeB sharedAddr 2, .send nodeA [1, 2, 3],
        .dial 0 ⟨nodeB, sharedAddr, 2⟩ (List.Vector.replicate 32 0xbb) true]).map
        (·.delivered)) =
      some [⟨nodeA, [1, 2, 3], List.Vector.replicate 32 0xbb, true⟩] := by
    decide +kernel
  obtain ⟨t, ht, hdel⟩ := Option.map_eq_some_iff.mp hrun
  refine ⟨t, ht, fun hall => ?_⟩
  have hright : Hex.decode nodeA.toList =
      some (List.Vector.replicate 32 0xbb : Digest).toList :=
    hall ⟨nodeA, [1, 2, 3], List.Vector.replicate 32 0xbb, true⟩ (by simp [hdel])
  revert hright
  decide +kernel

end Reminisce

import Reminisce.Handshake
import Reminisce.PeerSync
import Reminisce.Identity
import Reminisce.PeerRegistry

namespace Reminisce

/-- The JSON object of a discovery datagram. -/
structure DiscoveryAnnouncement where
  nodeId : NodeId
  quicPort : UInt16
  timestamp : UInt64
  signature : String
  deriving DecidableEq, Repr

/-- `hex::encode` of a node's public key. -/
def nodeIdHex (key : Digest) : NodeId := String.ofList (toHex key)

/-- What a storage node broadcasts. -/
def announcement (S : SigningScheme) (signingKey : Digest) (quicPort : UInt16)
    (timestamp : UInt64) : DiscoveryAnnouncement :=
  let nodeId := S.publicKey signingKey
  { nodeId := nodeIdHex nodeId, quicPort, timestamp
    signature := String.ofList
      (Hex.encode (S.sign signingKey (announcementMessage nodeId quicPort timestamp))) }

/-- `verify_signature` for byte strings of any length. -/
def verifySignatureBytes (S : SigningScheme) (nodeIdBytes msg signature : Bytes) : Bool :=
  if h : nodeIdBytes.length = 32 then verifySignature S ⟨nodeIdBytes, h⟩ msg signature else false

/-- The checks of the listener, in their order. -/
def acceptsAnnouncement (S : SigningScheme) (ourNodeId : NodeId) (currentSecs : Nat)
    (ann : DiscoveryAnnouncement) : Bool :=
  if ann.nodeId = ourNodeId then false
  else if currentSecs + 10 < ann.timestamp.toNat ∨ 60 < currentSecs - ann.timestamp.toNat then
    false
  else
    match Hex.decode ann.nodeId.toList, Hex.decode ann.signature.toList with
    | some nodeIdBytes, some sigBytes =>
      verifySignatureBytes S nodeIdBytes
        (nodeIdBytes ++ (toBeBytes 2 ann.quicPort.toNat ++ toBeBytes 8 ann.timestamp.toNat)) sigBytes
    | _, _ => false

/-- One round of the listener's loop: a datagram from `peerIp`, with what the JSON parser makes
of it. -/
def receiveDatagram (S : SigningScheme) (ourNodeId : NodeId) (registry : PeerRegistry)
    (peerIp : IpAddr) (parsed : Option DiscoveryAnnouncement) (now : Time) : PeerRegistry :=
  match parsed with
  | some ann =>
    if acceptsAnnouncement S ourNodeId (now / nanosPerSec) ann then
      registry.upsert ann.nodeId ⟨peerIp, ann.quicPort⟩ now
    else registry
  | none => registry

/-- One entry of a coordinator's peer list; the address is `none` when its text does not parse. -/
def receiveListed (ourNodeId : NodeId) (registry : PeerRegistry) (peerNodeId : NodeId)
    (addr : Option SocketAddr) (now : Time) : PeerRegistry :=
  if peerNodeId = ourNodeId then registry
  else
    match addr with
    | some addr => registry.upsert peerNodeId addr now
    | none => registry

/-- The public key that a node id spells, in either letter case. -/
def keyOf (nodeId : NodeId) : Option Digest :=
  match Hex.decode nodeId.toList with
  | some bytes => if h : bytes.length = 32 then some ⟨bytes, h⟩ else none
  | none => none

def lowerCase (nodeId : NodeId) : List Char := nodeId.toList.map Char.toLower

section Registry

variable {S : SigningScheme} {ourNodeId nodeId other : NodeId} {currentSecs : Nat}
  {ann : DiscoveryAnnouncement} {key : Digest}

/-- The spellings of a key differ in letter case only. -/
theorem keyOf_eq_some_iff : keyOf nodeId = some key ↔ lowerCase nodeId = toHex key := by
  unfold lowerCase toHex
  rw [← Hex.decode_eq_some_iff]
  unfold keyOf
  split
  next bytes hbytes =>
    rw [hbytes, Option.some.injEq]
    constructor
    · intro h
      split at h
      next => cases Option.some.inj h; rfl
      next => simp at h
    · rintro rfl
      rw [dif_pos (by simp)]
      rfl
  next hnone => simp [hnone]

theorem keyOf_nodeIdHex (key : Digest) : keyOf (nodeIdHex key) = some key := by
  unfold keyOf nodeIdHex toHex
  rw [String.toList_ofList, Hex.decode_encode]
  simp only [List.Vector.toList_length, dite_true]
  rfl

theorem lowerCase_eq_of_keyOf (h : keyOf nodeId = some key) (ho : keyOf other = some key) :
    lowerCase nodeId = lowerCase other :=
  (keyOf_eq_some_iff.mp h).trans (keyOf_eq_some_iff.mp ho).symm

theorem keyOf_of_lowerCase_eq (h : keyOf nodeId = some key)
    (heq : lowerCase nodeId = lowerCase other) : keyOf other = some key :=
  keyOf_eq_some_iff.mpr (heq.symm.trans (keyOf_eq_some_iff.mp h))

/-- An accepted announcement names a key, in another text than the server's own id. -/
theorem acceptsAnnouncement_key (h : acceptsAnnouncement S ourNodeId currentSecs ann) :
    ann.nodeId ≠ ourNodeId ∧ ∃ key, keyOf ann.nodeId = some key := by
  unfold acceptsAnnouncement at h
  split at h
  next => simp at h
  next hne =>
    refine ⟨hne, ?_⟩
    split at h
    next => simp at h
    next =>
      split at h
      next nodeIdBytes sigBytes hid _ =>
        unfold verifySignatureBytes at h
        split at h
        next hlen => exact ⟨⟨nodeIdBytes, hlen⟩, by unfold keyOf; rw [hid]; simp [hlen]⟩
        next => simp at h
      next => simp at h

/-- The signature is checked over decoded bytes: within its time an announcement is accepted
under every other spelling of its node id, whoever sends it. -/
theorem accepts_respelled {signingKey : Digest} (quicPort : UInt16) {timestamp : UInt64}
    (hspelled : keyOf nodeId = some (S.publicKey signingKey)) (hne : nodeId ≠ ourNodeId)
    (hfuture : timestamp.toNat ≤ currentSecs + 10) (hpast : currentSecs ≤ timestamp.toNat + 60) :
    acceptsAnnouncement S ourNodeId currentSecs
      { announcement S signingKey quicPort timestamp with nodeId := nodeId } := by
  have hid : Hex.decode nodeId.toList = some (S.publicKey signingKey).toList := by
    rw [Hex.decode_eq_some_iff]
    exact keyOf_eq_some_iff.mp hspelled
  have htime : ¬(currentSecs + 10 < timestamp.toNat ∨ 60 < currentSecs - timestamp.toNat) := by
    omega
  unfold acceptsAnnouncement announcement
  simp only [if_neg hne, if_neg htime, hid, String.toList_ofList, Hex.decode_encode]
  have hlen : (S.publicKey signingKey).toList.length = 32 := by simp
  unfold verifySignatureBytes
  rw [dif_pos hlen]
  have hkey : (⟨(S.publicKey signingKey).toList, hlen⟩ : Digest) = S.publicKey signingKey := rfl
  have hmsg : (S.publicKey signingKey).toList ++
      (toBeBytes 2 quicPort.toNat ++ toBeBytes 8 timestamp.toNat) =
      announcementMessage (S.publicKey signingKey) quicPort timestamp := rfl
  rw [hkey, hmsg]
  simp [verifySignature, S.sign_length, S.verify_sign]

theorem receiveDatagram_stores (registry : PeerRegistry) (peerIp : IpAddr) {now : Time}
    (hallows : registry.admission.allows ann.nodeId)
    (hacc : acceptsAnnouncement S ourNodeId (now / nanosPerSec) ann) :
    ∃ p ∈ (receiveDatagram S ourNodeId registry peerIp (some ann) now).peers,
      p.nodeId = ann.nodeId := by
  obtain ⟨p, hp, hid, _⟩ := PeerRegistry.upsert_stamps hallows ⟨peerIp, ann.quicPort⟩ now
  refine ⟨p, ?_, hid⟩
  unfold receiveDatagram
  simp only
  rwa [if_pos hacc]

end Registry

/-- The registry of a server with what happens around it: `announced` records which node
broadcast from which address, `onLan` the ids whose address came with a datagram. -/
structure LanState where
  now : Time
  registry : PeerRegistry
  announced : List (Digest × SocketAddr)
  onLan : List NodeId

inductive LanEvent
  | announce (signingKey : Digest) (addr : SocketAddr)
  | datagram (peerIp : IpAddr) (parsed : Option DiscoveryAnnouncement)
  | listed (peerNodeId : NodeId) (addr : Option SocketAddr)
  | removeStale
  | tick (nanos : Nat)

namespace LanState

def init (now : Time) : LanState :=
  { now, registry := PeerRegistry.new .open, announced := [], onLan := [] }

/-- The datagram is accepted and gives its node an address. -/
def setsLan (S : SigningScheme) (own : Digest) (s : LanState) (peerIp : IpAddr)
    (ann : DiscoveryAnnouncement) : Bool :=
  acceptsAnnouncement S (nodeIdHex own) (s.now / nanosPerSec) ann &&
    !s.registry.keepsAddr ann.nodeId ⟨peerIp, ann.quicPort⟩

def hearDatagram (S : SigningScheme) (own : Digest) (s : LanState) (peerIp : IpAddr)
    (parsed : Option DiscoveryAnnouncement) : LanState :=
  { s with
    registry := receiveDatagram S (nodeIdHex own) s.registry peerIp parsed s.now
    onLan := match parsed with
      | some ann => if s.setsLan S own peerIp ann then ann.nodeId :: s.onLan else s.onLan
      | none => s.onLan }

def hearListed (own : Digest) (s : LanState) (peerNodeId : NodeId) (addr : Option SocketAddr) :
    LanState :=
  { s with
    registry := receiveListed (nodeIdHex own) s.registry peerNodeId addr s.now
    onLan := match addr with
      | some addr =>
        if peerNodeId = nodeIdHex own ∨ s.registry.keepsAddr peerNodeId addr then s.onLan
        else s.onLan.filter (· ≠ peerNodeId)
      | none => s.onLan }

end LanState

/-- One step: a node broadcasts, any datagram arrives from any address, an entry of a
coordinator's list, the hourly eviction, the clock. -/
def lanNext (S : SigningScheme) (own : Digest) (s : LanState) : LanEvent → LanState
  | .announce signingKey addr =>
    { s with announced := (S.publicKey signingKey, addr) :: s.announced }
  | .datagram peerIp parsed => s.hearDatagram S own peerIp parsed
  | .listed peerNodeId addr => s.hearListed own peerNodeId addr
  | .removeStale => { s with registry := s.registry.removeStale 3600 s.now }
  | .tick nanos => { s with now := s.now + nanos }

def lanStep (S : SigningScheme) (own : Digest) (s : LanState) (e : LanEvent) : Option LanState :=
  some (lanNext S own s e)

/-- No two entries are one node and none is the server itself. -/
structure DistinctNodes (own : Digest) (registry : PeerRegistry) : Prop where
  distinct : ∀ p ∈ registry.peers, ∀ q ∈ registry.peers, ∀ key,
    keyOf p.nodeId = some key → keyOf q.nodeId = some key → p = q
  foreign : ∀ p ∈ registry.peers, keyOf p.nodeId ≠ some own

/-- A node discovered on the LAN is stored under an address it announced from. -/
def LanAddressed (s : LanState) : Prop :=
  ∀ p ∈ s.registry.peers, p.nodeId ∈ s.onLan →
    ∃ key, keyOf p.nodeId = some key ∧ (key, p.addr) ∈ s.announced

def RegistryAuthentic (own : Digest) (s : LanState) : Prop :=
  DistinctNodes own s.registry ∧ LanAddressed s

/-- The id is not that of the server or of a known node in another letter case. -/
def SpelledAsKnown (own : Digest) (registry : PeerRegistry) (nodeId : NodeId) : Prop :=
  (keyOf nodeId).isSome → ∀ known ∈ nodeIdHex own :: registry.peers.map (·.nodeId),
    lowerCase nodeId = lowerCase known → nodeId = known

/-- What the signature does not cover is as the node sent it: an accepted datagram spells the
node's id as it is known and, if its address is stored, comes from where the node announced. -/
def SentAsAnnounced (S : SigningScheme) (own : Digest) (s : LanState) : LanEvent → Prop
  | .datagram peerIp (some ann) =>
    acceptsAnnouncement S (nodeIdHex own) (s.now / nanosPerSec) ann = true →
      SpelledAsKnown own s.registry ann.nodeId ∧
        (s.registry.keepsAddr ann.nodeId ⟨peerIp, ann.quicPort⟩ = true ∨
          ∃ key, keyOf ann.nodeId = some key ∧
            (key, (⟨peerIp, ann.quicPort⟩ : SocketAddr)) ∈ s.announced)
  | .listed peerNodeId (some _) =>
    peerNodeId = nodeIdHex own ∨ SpelledAsKnown own s.registry peerNodeId
  | _ => True

variable {S : SigningScheme} {own : Digest} {registry : PeerRegistry} {nodeId : NodeId}
  {addr : SocketAddr} {now : Time} {s t : LanState}

/-- Storing a node leaves the nodes distinct exactly if its id is spelled as known. -/
theorem distinct_upsert_iff (hopen : registry.admission = .open) (hne : nodeId ≠ nodeIdHex own)
    (hd : DistinctNodes own registry) :
    DistinctNodes own (registry.upsert nodeId addr now) ↔ SpelledAsKnown own registry nodeId := by
  have hallows : registry.admission.allows nodeId := by rw [hopen]; rfl
  obtain ⟨kept, heq⟩ := PeerRegistry.upsert_eq_insert hallows addr now
  rw [heq]
  have hself : (⟨nodeId, kept, now⟩ : PeerInfo) ∈ (registry.insert ⟨nodeId, kept, now⟩).peers :=
    PeerRegistry.mem_insert.mpr (Or.inl rfl)
  constructor
  · intro h hsome known hknown hlower
    obtain ⟨key, hkey⟩ := Option.isSome_iff_exists.mp hsome
    have hsame := keyOf_of_lowerCase_eq hkey hlower
    rcases List.mem_cons.mp hknown with rfl | hknown
    · rw [keyOf_nodeIdHex] at hsame
      rw [← hsame] at hkey
      exact absurd hkey (h.foreign _ hself)
    · obtain ⟨p, hp, rfl⟩ := List.mem_map.mp hknown
      by_contra hother
      have hp' : p ∈ (registry.insert ⟨nodeId, kept, now⟩).peers :=
        PeerRegistry.mem_insert.mpr (Or.inr ⟨hp, fun h => hother h.symm⟩)
      exact hother (congrArg PeerInfo.nodeId (h.distinct _ hself p hp' key hkey hsame))
  · intro hspelled
    have hold : ∀ p ∈ registry.peers, p.nodeId ≠ nodeId → ∀ key, keyOf nodeId = some key →
        keyOf p.nodeId ≠ some key := by
      intro p hp hpne key hkey hpkey
      have hlower := lowerCase_eq_of_keyOf hkey hpkey
      have := hspelled (by simp [hkey]) p.nodeId
        (List.mem_cons_of_mem _ (List.mem_map_of_mem hp)) hlower
      exact hpne this.symm
    refine ⟨?_, ?_⟩
    · intro p hp q hq key hpkey hqkey
      rcases PeerRegistry.mem_insert.mp hp with rfl | ⟨hp, hpne⟩
      · rcases PeerRegistry.mem_insert.mp hq with rfl | ⟨hq, hqne⟩
        · rfl
        · exact absurd hqkey (hold q hq hqne key hpkey)
      · rcases PeerRegistry.mem_insert.mp hq with rfl | ⟨hq, _⟩
        · exact absurd hpkey (hold p hp hpne key hqkey)
        · exact hd.distinct p hp q hq key hpkey hqkey
    · intro p hp hown
      rcases PeerRegistry.mem_insert.mp hp with rfl | ⟨hp, _⟩
      · have hlower := lowerCase_eq_of_keyOf hown (keyOf_nodeIdHex own)
        exact hne (hspelled (by simp [hown]) _ List.mem_cons_self hlower)
      · exact hd.foreign p hp hown

theorem distinct_removeStale (hd : DistinctNodes own registry) (timeoutSecs : Nat) :
    DistinctNodes own (registry.removeStale timeoutSecs now) where
  distinct p hp q hq := hd.distinct p (PeerRegistry.mem_removeStale.mp hp).1 q
    (PeerRegistry.mem_removeStale.mp hq).1
  foreign p hp := hd.foreign p (PeerRegistry.mem_removeStale.mp hp).1

/-- Every step leaves the admission open. -/
theorem lanNext_open {e : LanEvent} (hopen : s.registry.admission = .open) :
    (lanNext S own s e).registry.admission = .open := by
  cases e with
  | announce signingKey addr => exact hopen
  | datagram peerIp parsed =>
    simp only [lanNext, LanState.hearDatagram]
    unfold receiveDatagram
    split
    next =>
      split
      next => rw [PeerRegistry.upsert_admission]; exact hopen
      next => exact hopen
    next => exact hopen
  | listed peerNodeId addr =>
    simp only [lanNext, LanState.hearListed]
    unfold receiveListed
    split
    next => exact hopen
    next =>
      split
      next => rw [PeerRegistry.upsert_admission]; exact hopen
      next => exact hopen
  | removeStale => exact hopen
  | tick nanos => exact hopen

/-- The entry of an admitted node is new in its address, or only in its time. -/
theorem lanAddressed_insert {kept : SocketAddr} {onLan : List NodeId}
    (hs : LanAddressed s)
    (hother : ∀ id ∈ onLan, id ≠ nodeId → id ∈ s.onLan)
    (hself : nodeId ∈ onLan → ∃ key, keyOf nodeId = some key ∧ (key, kept) ∈ s.announced) :
    LanAddressed { s with registry := s.registry.insert ⟨nodeId, kept, now⟩, onLan := onLan } := by
  intro p hp hlan
  rcases PeerRegistry.mem_insert.mp hp with rfl | ⟨hp, hne⟩
  · exact hself hlan
  · exact hs p hp (hother _ hlan hne)

/-- What an accepted datagram needs for the registry to stay authentic. -/
theorem hearDatagram_iff {peerIp : IpAddr} {ann : DiscoveryAnnouncement}
    (hopen : s.registry.admission = .open) (hs : RegistryAuthentic own s)
    (hacc : acceptsAnnouncement S (nodeIdHex own) (s.now / nanosPerSec) ann = true) :
    RegistryAuthentic own (s.hearDatagram S own peerIp (some ann)) ↔
      SpelledAsKnown own s.registry ann.nodeId ∧
        (s.registry.keepsAddr ann.nodeId ⟨peerIp, ann.quicPort⟩ = true ∨
          ∃ key, keyOf ann.nodeId = some key ∧
            (key, (⟨peerIp, ann.quicPort⟩ : SocketAddr)) ∈ s.announced) := by
  have hallows : s.registry.admission.allows ann.nodeId := by rw [hopen]; rfl
  have hne := (acceptsAnnouncement_key hacc).1
  obtain ⟨kept, heq, haddr⟩ :=
    PeerRegistry.upsert_stores hallows ⟨peerIp, ann.quicPort⟩ s.now
  have hreg : (s.hearDatagram S own peerIp (some ann)).registry =
      s.registry.upsert ann.nodeId ⟨peerIp, ann.quicPort⟩ s.now := by
    simp [LanState.hearDatagram, receiveDatagram, hacc]
  unfold RegistryAuthentic
  rw [hreg, distinct_upsert_iff hopen hne hs.1]
  refine and_congr_right fun _ => ?_
  rcases haddr with ⟨hkeep, p, hp, hid, rfl⟩ | ⟨hstore, rfl⟩
  · refine iff_of_true ?_ (Or.inl hkeep)
    have hstate : s.hearDatagram S own peerIp (some ann) =
        { s with registry := s.registry.insert ⟨ann.nodeId, p.addr, s.now⟩ } := by
      rw [← heq]
      simp [LanState.hearDatagram, receiveDatagram, LanState.setsLan, hacc, hkeep]
    rw [hstate]
    refine lanAddressed_insert hs.2 (fun _ h _ => h) fun hlan => ?_
    rw [← hid] at hlan ⊢
    exact hs.2 p hp hlan
  · have hstate : s.hearDatagram S own peerIp (some ann) =
        { s with
          registry := s.registry.insert ⟨ann.nodeId, ⟨peerIp, ann.quicPort⟩, s.now⟩
          onLan := ann.nodeId :: s.onLan } := by
      rw [← heq]
      simp [LanState.hearDatagram, receiveDatagram, LanState.setsLan, hacc, hstore]
    rw [hstate, hstore]
    constructor
    · intro h
      exact Or.inr (h ⟨ann.nodeId, ⟨peerIp, ann.quicPort⟩, s.now⟩
        (PeerRegistry.mem_insert.mpr (Or.inl rfl)) List.mem_cons_self)
    · intro h
      refine lanAddressed_insert hs.2 (fun id hid hidne => ?_) fun _ => ?_
      · exact (List.mem_cons.mp hid).resolve_left hidne
      · exact h.resolve_left (by simp)

/-- What an entry of a coordinator's list needs. -/
theorem hearListed_iff (hopen : s.registry.admission = .open) (hs : RegistryAuthentic own s)
    (hne : nodeId ≠ nodeIdHex own) :
    RegistryAuthentic own (s.hearListed own nodeId (some addr)) ↔
      SpelledAsKnown own s.registry nodeId := by
  have hallows : s.registry.admission.allows nodeId := by rw [hopen]; rfl
  obtain ⟨kept, heq, haddr⟩ := PeerRegistry.upsert_stores hallows addr s.now
  have hreg : (s.hearListed own nodeId (some addr)).registry =
      s.registry.upsert nodeId addr s.now := by
    simp [LanState.hearListed, receiveListed, hne]
  unfold RegistryAuthentic
  rw [hreg, distinct_upsert_iff hopen hne hs.1, and_iff_left_iff_imp]
  intro _
  rcases haddr with ⟨hkeep, p, hp, hid, rfl⟩ | ⟨hstore, rfl⟩
  · have hstate : s.hearListed own nodeId (some addr) =
        { s with registry := s.registry.insert ⟨nodeId, p.addr, s.now⟩ } := by
      rw [← heq]
      simp [LanState.hearListed, receiveListed, hne, hkeep]
    rw [hstate]
    refine lanAddressed_insert hs.2 (fun _ h _ => h) fun hlan => ?_
    rw [← hid] at hlan ⊢
    exact hs.2 p hp hlan
  · have hstate : s.hearListed own nodeId (some kept) =
        { s with
          registry := s.registry.insert ⟨nodeId, kept, s.now⟩
          onLan := s.onLan.filter (· ≠ nodeId) } := by
      rw [← heq]
      simp [LanState.hearListed, receiveListed, hne, hstore]
    rw [hstate]
    refine lanAddressed_insert hs.2 (fun id hid _ => (List.mem_filter.mp hid).1) fun hlan => ?_
    have := (List.mem_filter.mp hlan).2
    simp at this

/-- One step leaves the registry authentic exactly if it is as it was announced. -/
theorem lanNext_authentic_iff (hopen : s.registry.admission = .open)
    (hs : RegistryAuthentic own s) (e : LanEvent) :
    RegistryAuthentic own (lanNext S own s e) ↔ SentAsAnnounced S own s e := by
  cases e with
  | announce signingKey addr =>
    refine iff_of_true ⟨hs.1, fun p hp hlan => ?_⟩ trivial
    obtain ⟨key, hkey, hmem⟩ := hs.2 p hp hlan
    exact ⟨key, hkey, List.mem_cons_of_mem _ hmem⟩
  | datagram peerIp parsed =>
    cases parsed with
    | none => exact iff_of_true hs trivial
    | some ann =>
      by_cases hacc : acceptsAnnouncement S (nodeIdHex own) (s.now / nanosPerSec) ann = true
      · rw [show SentAsAnnounced S own s (.datagram peerIp (some ann)) ↔ _ from
          forall_prop_of_true hacc]
        exact hearDatagram_iff hopen hs hacc
      · have hstate : lanNext S own s (.datagram peerIp (some ann)) = s := by
          simp [lanNext, LanState.hearDatagram, receiveDatagram, LanState.setsLan, hacc]
        refine iff_of_true ?_ fun h => absurd h hacc
        rw [hstate]
        exact hs
  | listed peerNodeId addr =>
    cases addr with
    | none =>
      have hstate : lanNext S own s (.listed peerNodeId none) = s := by
        simp [lanNext, LanState.hearListed, receiveListed]
      refine iff_of_true ?_ trivial
      rw [hstate]
      exact hs
    | some addr =>
      by_cases hown : peerNodeId = nodeIdHex own
      · have hstate : lanNext S own s (.listed peerNodeId (some addr)) = s := by
          simp [lanNext, LanState.hearListed, receiveListed, hown]
        refine iff_of_true ?_ (Or.inl hown)
        rw [hstate]
        exact hs
      · exact (hearListed_iff hopen hs hown).trans (or_iff_right hown).symm
  | removeStale =>
    refine iff_of_true ⟨distinct_removeStale hs.1 3600, fun p hp hlan => ?_⟩ trivial
    exact hs.2 p (PeerRegistry.mem_removeStale.mp hp).1 hlan
  | tick nanos => exact iff_of_true hs trivial

/-- The registry stays authentic exactly as long as every accepted datagram and listed node is
spelled as known and comes from where the node announced. -/
theorem registry_authentic_iff (S : SigningScheme) (own : Digest) (now : Time)
    (events : List LanEvent) :
    Runs.Throughout (lanStep S own) (RegistryAuthentic own) (LanState.init now) events ↔
      Runs.Meets (lanStep S own) (SentAsAnnounced S own) (LanState.init now) events := by
  have hempty : RegistryAuthentic own (LanState.init now) := by
    refine ⟨⟨?_, ?_⟩, ?_⟩ <;> intro p hp <;> simp [LanState.init, PeerRegistry.new] at hp
  have hkept : ∀ (s : LanState) (e : LanEvent) (t : LanState),
      s.registry.admission = .open → lanStep S own s e = some t → t.registry.admission = .open := by
    intro s e t hopen hstep
    cases Option.some.inj hstep
    exact lanNext_open hopen
  refine Runs.throughout_iff_meets hkept ?_ rfl hempty events
  intro s e hopen hs
  rw [← lanNext_authentic_iff hopen hs e]
  constructor
  · exact fun h => h _ rfl
  · intro h t hstep
    cases Option.some.inj hstep
    exact h

/-- A node announces itself and is heard, then its announcement is sent again from another
address with the node id in another spelling. -/
def replayEvents (S : SigningScheme) (signingKey : Digest) (quicPort : UInt16)
    (timestamp : UInt64) (spelled : NodeId) (peerIp attackerIp : IpAddr) : List LanEvent :=
  let ann := announcement S signingKey quicPort timestamp
  [.announce signingKey ⟨peerIp, quicPort⟩, .datagram peerIp (some ann),
    .datagram attackerIp (some { ann with nodeId := spelled })]

/-- Within its time a genuine announcement can be replayed so. -/
theorem replay_not_authentic {signingKey : Digest} (quicPort : UInt16) {timestamp : UInt64}
    {spelled : NodeId} (peerIp attackerIp : IpAddr)
    (hspelled : keyOf spelled = some (S.publicKey signingKey))
    (hother : spelled ≠ nodeIdHex (S.publicKey signingKey)) (hown : S.publicKey signingKey ≠ own)
    (hfuture : timestamp.toNat ≤ now / nanosPerSec + 10)
    (hpast : now / nanosPerSec ≤ timestamp.toNat + 60) :
    ¬Runs.Throughout (lanStep S own) (RegistryAuthentic own) (LanState.init now)
      (replayEvents S signingKey quicPort timestamp spelled peerIp attackerIp) := by
  have hne : ∀ id, keyOf id = some (S.publicKey signingKey) → id ≠ nodeIdHex own := by
    rintro id hid rfl
    rw [keyOf_nodeIdHex] at hid
    exact hown (Option.some.inj hid).symm
  have hgenuine := accepts_respelled quicPort (keyOf_nodeIdHex _) (hne _ (keyOf_nodeIdHex _))
    hfuture hpast
  have hagain := accepts_respelled quicPort hspelled (hne _ hspelled) hfuture hpast
  intro hrun
  obtain ⟨hfirst, hrun⟩ := (hrun.2 _ rfl).2 _ rfl
  have hopen : (lanNext S own (LanState.init now)
      (.announce signingKey ⟨peerIp, quicPort⟩)).registry.admission = .open := lanNext_open rfl
  obtain ⟨hknown, _⟩ :=
    (hearDatagram_iff (lanNext_open hopen) hfirst hagain).mp (hrun _ rfl)
  obtain ⟨p, hp, hid⟩ := receiveDatagram_stores (PeerRegistry.new .open) peerIp rfl hgenuine
  refine hother ((hknown (by simp [hspelled]) p.nodeId ?_ ?_).trans hid)
  · exact List.mem_cons_of_mem _ (List.mem_map_of_mem hp)
  · rw [hid]
    exact lowerCase_eq_of_keyOf hspelled (keyOf_nodeIdHex _)

/-- The registry then has the node twice. -/
theorem replay_splits_node :
    ¬ ∀ (S : SigningScheme) (own : Digest) (now : Time) (events : List LanEvent),
      Runs.Throughout (lanStep S own) (RegistryAuthentic own) (LanState.init now) events := by
  intro h
  let key : Digest := List.Vector.replicate 32 0xaa
  let own : Digest := List.Vector.replicate 32 0x11
  have hhex : toHex key = List.replicate 64 'a' := by decide
  have hspelled : keyOf (String.ofList (List.replicate 64 'A')) = some key := by
    rw [keyOf_eq_some_iff, hhex, lowerCase, String.toList_ofList]
    decide
  have hother : String.ofList (List.replicate 64 'A') ≠ nodeIdHex key := by
    rw [nodeIdHex, hhex, ne_eq, String.ofList_inj]
    decide
  have hfuture : (1000 : UInt64).toNat ≤ secs 1000 / nanosPerSec + 10 := by decide
  have hpast : secs 1000 / nanosPerSec ≤ (1000 : UInt64).toNat + 60 := by decide
  exact replay_not_authentic 4433 (.v4 192 168 1 5) (.v4 192 168 1 66) hspelled hother
    (by decide : key ≠ own) hfuture hpast (h sampleScheme own _ _)

/-- A dial to an address of the LAN expects the node that announced it. -/
theorem findByAddr_announced (hs : RegistryAuthentic own s)
    (hfind : s.registry.findByAddr addr = some nodeId) (hlan : nodeId ∈ s.onLan) :
    ∃ key, keyOf nodeId = some key ∧ (key, addr) ∈ s.announced := by
  obtain ⟨p, hp, rfl, rfl⟩ := PeerRegistry.mem_of_findByAddr hfind
  exact hs.2 p hp hlan

end Reminisce

import Reminisce.AuditRepair
import Reminisce.Library.Runs

namespace Reminisce

def AuditState.retrievable (P : Primitives) (s : AuditState) (row : ShardRow) : Bool :=
  shardRetrievable P s.registry s.db s.fleet row

/-- The pass has moved the `last_checked_at` of the row. -/
def AuditState.Advanced (start : AuditState) (row : ShardRow) : Prop :=
  ∀ before ∈ start.db.p2pShards, before.id = row.id → before.lastCheckedAt ≠ row.lastCheckedAt

/-- Only rows whose node holds the recorded shard are counted as healthy or marked as checked;
all others that were looked at went to `repair_file`. -/
structure AuditSound (P : Primitives) (start s : AuditState) : Prop where
  verdicts : ∀ verdict ∈ s.verdicts, verdict.healthy → verdict.held
  checked : ∀ row ∈ s.db.p2pShards, start.Advanced row → s.retrievable P row

/-- The retrieval hands the stored bytes over: in one frame, or streamed with the right hash. -/
def Delivered (P : Primitives) (s : AuditState) (addr : SocketAddr) (faults : RetrieveFaults)
    (shardHash : Digest) (bytes : Bytes) : Prop :=
  faults.connected ∧ s.fleet.reachable s.registry addr ∧
    if faults.streamed then P.blake3 bytes = shardHash else faults.singleFrame

/-- Where the node of the audited row stores other bytes under the recorded hash, they are
delivered or the inventory is not available. -/
def WrongBytesSeen (P : Primitives) (s : AuditState) (addr : SocketAddr) (row : ShardRow)
    (io : AuditIo) : Prop :=
  ∀ shardHash bytes, parseShardHash row.shardHash = some shardHash →
    s.fleet.shards addr shardHash = some bytes → toHex (P.blake3 bytes) ≠ row.shardHash →
    io.listed → listedRemotely s addr row.shardHash → Delivered P s addr io.faults shardHash bytes

def AuditSeesWrongBytes (P : Primitives) (job : AuditJob) (s : AuditState) : AuditEvent → Prop
  | .audit io =>
    match s.todo with
    | row :: _ => ∀ addr registry,
      lookupNodeAddr s.registry s.db row.nodeId job.now io.lookupUp = (some addr, registry) →
        WrongBytesSeen P { s with registry } addr row io
    | [] => True
  | .repairMissing _ _ _ => True

variable {P : Primitives} {job : AuditJob} {start s t : AuditState}

theorem length_of_parseShardHash {hex : List Char} {shardHash : Digest}
    (h : parseShardHash hex = some shardHash) : hex.length = 64 := by
  unfold parseShardHash at h
  split at h
  next => simp at h
  next bytes hdecode =>
    split at h
    next hlen => rw [Hex.length_decode hdecode, hlen]
    next => simp at h

theorem retrieve_ok {fleet : Fleet} {registry : PeerRegistry} {addr : SocketAddr}
    {hex : List Char} {faults : RetrieveFaults} {shardHash : Digest} {data : Bytes}
    (hparse : parseShardHash hex = some shardHash)
    (h : fleet.retrieve P registry addr hex faults = .ok data) :
    fleet.shards addr shardHash = some data := by
  simp only [Fleet.retrieve, retrieveShard, hparse] at h
  split at h
  next =>
    split at h
    next =>
      split at h
      next => simp at h
      next bytes hheld =>
        split at h
        next => rw [hheld, Except.ok.inj h]
        next => simp at h
    next =>
      unfold retrieveSingleFrame at h
      split at h
      next =>
        split at h
        next bytes hheld => rw [hheld, Except.ok.inj h]
        next => simp at h
      next => simp at h
  next => simp at h

theorem retrieve_delivered {addr : SocketAddr} {faults : RetrieveFaults} {hex : List Char}
    {shardHash : Digest} {bytes : Bytes} (hparse : parseShardHash hex = some shardHash)
    (hheld : s.fleet.shards addr shardHash = some bytes) :
    s.fleet.retrieve P s.registry addr hex faults = .ok bytes ↔
      Delivered P s addr faults shardHash bytes := by
  simp only [Fleet.retrieve, retrieveShard, hparse, hheld, retrieveSingleFrame, Delivered,
    Bool.and_eq_true]
  by_cases hup : faults.connected = true ∧ s.fleet.reachable s.registry addr = true
  · rw [if_pos hup]
    by_cases hstream : faults.streamed = true
    · simp only [if_pos hstream, hup.1, hup.2, true_and]
      split <;> simp_all
    · simp only [if_neg hstream, hup.1, hup.2, true_and]
      split <;> simp_all
  · rw [if_neg hup]
    simp only [reduceCtorEq, false_iff]
    exact fun h => hup ⟨h.1, h.2.1⟩

theorem holds_of_stored {fleet : Fleet} {addr : SocketAddr} {hex : List Char} {shardHash : Digest}
    {bytes : Bytes} (hparse : parseShardHash hex = some shardHash)
    (hheld : fleet.shards addr shardHash = some bytes) :
    fleet.holds P addr hex ↔ toHex (P.blake3 bytes) = hex := by
  simp [Fleet.holds, hparse, hheld]

/-- A healthy verdict is right exactly if wrong bytes are seen. -/
theorem shardHealthy_sound_iff {addr : SocketAddr} {row : ShardRow} {io : AuditIo} :
    (shardHealthy P s addr row io → s.fleet.holds P addr row.shardHash) ↔
      WrongBytesSeen P s addr row io := by
  constructor
  · intro h shardHash bytes hparse hheld hwrong hlisted hlist
    rw [← retrieve_delivered hparse hheld]
    cases hret : s.fleet.retrieve P s.registry addr row.shardHash io.faults with
    | ok data =>
      rw [retrieve_ok hparse hret] at hheld
      rw [Option.some.inj hheld]
    | error error =>
      have hlen := length_of_parseShardHash hparse
      have hhealthy : shardHealthy P s addr row io := by
        simp [shardHealthy, hret, hlisted, hlist, hlen]
      exact absurd ((holds_of_stored hparse hheld).mp (h hhealthy)) hwrong
  · intro h hhealthy
    cases hparse : parseShardHash row.shardHash with
    | none => simp [shardHealthy, Fleet.retrieve, retrieveShard, listedRemotely, hparse] at hhealthy
    | some shardHash =>
      cases hret : s.fleet.retrieve P s.registry addr row.shardHash io.faults with
      | ok data =>
        refine (holds_of_stored hparse (retrieve_ok hparse hret)).mpr ?_
        simpa [shardHealthy, hret] using hhealthy
      | error error =>
        simp only [shardHealthy, hret, Bool.and_eq_true] at hhealthy
        obtain ⟨⟨-, hlisted⟩, hlist⟩ := hhealthy
        obtain ⟨bytes, hheld⟩ : ∃ bytes, s.fleet.shards addr shardHash = some bytes := by
          have hstored := hlist
          simp only [listedRemotely, hparse, Bool.and_eq_true] at hstored
          exact Option.isSome_iff_exists.mp hstored.1.2
        refine (holds_of_stored hparse hheld).mpr (not_not.mp fun hwrong => ?_)
        have hdelivered := h shardHash bytes hparse hheld hwrong hlisted hlist
        rw [← retrieve_delivered hparse hheld, hret] at hdelivered
        simp at hdelivered

end Reminisce

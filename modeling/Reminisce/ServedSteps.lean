import Reminisce.NodeTaskSteps
import Reminisce.RelayedTokens

namespace Reminisce

open FileSystem Overwrites

/-- Where an entry of the maps lies on the disk. -/
def MapKey.path : MapKey → DiskPath
  | .shard shardHash => getShardPath shardHash
  | .pinned nameHash => { dir := pinnedDir, name := toHex nameHash }

/-- The maps as they are on the disk. -/
def diskMaps (d : ShardDisk) : NodeMaps := fun k => d.read k.path

/-- A stream that is handled alone: its frames come in order and no operation fails. Time and
free space may change. -/
inductive Serves (cfg : NodeConfig) :
    ShardDisk → Option NodeTask → List NodeFrame → ShardDisk → Prop
  | ended (d : ShardDisk) (frames : List NodeFrame) : Serves cfg d none frames d
  | frame (env : NodeEnv) (d e : ShardDisk) (task : NodeTask) (frame : NodeFrame)
      (frames : List NodeFrame) (o : TaskOutcome)
      (step : taskStep cfg env d task (.frame frame) = some o)
      (rest : Serves cfg o.disk o.next frames e) : Serves cfg d (some task) (frame :: frames) e
  | io (env : NodeEnv) (d e : ShardDisk) (task : NodeTask) (n : Nat) (frames : List NodeFrame)
      (o : TaskOutcome) (step : taskStep cfg env d task (.io n) = some o)
      (rest : Serves cfg o.disk o.next frames e) : Serves cfg d (some task) frames e

/-- The path of a temporary file. -/
def Temporary (p : DiskPath) : Prop := p.dir ≠ pinnedDir ∧ tmpExtension <:+ p.name

/-- What the finished upload sets. -/
def streamEntry (cfg : NodeConfig) (received : Option Bytes) (frames : List NodeFrame) :
    Option (MapKey × Option Bytes) :=
  (receivedShard cfg received frames).map fun stored => (.shard stored.1, some stored.2)

/-- The task has still to set the entry, and the maps are as they were. -/
def StillSets (cfg : NodeConfig) (entry : Option (MapKey × Option Bytes)) (frames : List NodeFrame)
    (d : ShardDisk) : NodeTask → Prop
  | .storePrepare shardHash data => entry = some (.shard shardHash, some data)
  | .storeCreate shardHash data tmp => Temporary tmp ∧ entry = some (.shard shardHash, some data)
  | .storeWrite shardHash tmp ino todo => Temporary tmp ∧ d.names.lookup tmp = some ino ∧
      entry = some (.shard shardHash, some ((d.inodes ino).bytes ++ todo))
  | .storeCleanup _ tmp => Temporary tmp
  | .receiving tmp received => Temporary tmp ∧ (d.read tmp).getD [] = received ∧
      entry = streamEntry cfg (d.read tmp) frames
  | .chunkOpen tmp received data => Temporary tmp ∧ (d.read tmp).getD [] ++ data = received ∧
      entry = streamEntry cfg (some received) frames
  | .chunkWrite tmp received ino todo => Temporary tmp ∧ d.names.lookup tmp = some ino ∧
      (d.inodes ino).bytes ++ todo = received ∧ entry = streamEntry cfg (some received) frames
  | .streamDiscard tmp _ => Temporary tmp
  | .finalizeOpen tmp _ shardHash => Temporary tmp ∧
      entry = (d.read tmp).map fun bytes => (.shard shardHash, some bytes)
  | .finalizeRename tmp shardHash => Temporary tmp ∧
      entry = (d.read tmp).map fun bytes => (.shard shardHash, some bytes)
  | .deleteCheck shardHash => entry = some (.shard shardHash, none)
  | .deleteRemove shardHash => entry = some (.shard shardHash, none)
  | .pinnedCreate name data => entry = some (.pinned (cfg.blake3 (utf8 name)), some data)
  | .pinnedWrite _ _ _ _ => False
  | _ => True

/-- How far the service of a message is: only a pinned object changes before the last step. -/
def Serving (cfg : NodeConfig) (maps : NodeMaps) (entry : Option (MapKey × Option Bytes))
    (frames : List NodeFrame) (d : ShardDisk) : Option NodeTask → Prop
  | none => d.Sound ∧ (diskMaps d = maps ∨ diskMaps d = write maps entry)
  | some (.pinnedWrite name ino offset todo) =>
    d.Sound ∧ d.names.lookup (pinnedPath cfg.blake3 name) = some ino ∧
      (d.inodes ino).bytes.length = offset ∧
      diskMaps d = Function.update maps (.pinned (cfg.blake3 (utf8 name)))
        (some (d.inodes ino).bytes) ∧
      entry = some (.pinned (cfg.blake3 (utf8 name)), some ((d.inodes ino).bytes ++ todo))
  | some task => d.Sound ∧ diskMaps d = maps ∧ StillSets cfg entry frames d task

section Paths

variable {cfg : NodeConfig} {d e : ShardDisk} {p : DiskPath}

theorem mapKey_path_injective : Function.Injective MapKey.path := by
  intro a b h
  cases a with
  | shard a =>
    cases b with
    | shard b => exact congrArg MapKey.shard (getShardPath_injective h)
    | pinned b => exact absurd (congrArg DiskPath.dir h) (pinnedDir_ne (getShardPath_dir_length a))
  | pinned a =>
    cases b with
    | shard b =>
      exact absurd (congrArg DiskPath.dir h).symm (pinnedDir_ne (getShardPath_dir_length b))
    | pinned b => exact congrArg MapKey.pinned (toHex_injective (congrArg DiskPath.name h))

theorem Temporary.ne_path (h : Temporary p) (k : MapKey) : k.path ≠ p := by
  rintro rfl
  cases k with
  | shard shardHash => exact not_aside_shard shardHash (.inr h.2)
  | pinned nameHash => exact h.1 rfl

/-- Work on a temporary file leaves the maps. -/
theorem diskMaps_of_temporary {maps : NodeMaps} (h : Disk.Touches Aside (· = p) d e)
    (hp : Temporary p) (hmaps : diskMaps d = maps) : diskMaps e = maps := by
  rw [← hmaps]
  funext k
  exact h.read (hp.ne_path k)

theorem diskMaps_update {k : MapKey} (h : Disk.Touches Aside (· = k.path) d e) :
    diskMaps e = Function.update (diskMaps d) k (e.read k.path) := by
  funext other
  by_cases hk : other = k
  · subst hk
    simp [diskMaps]
  · rw [Function.update_of_ne hk]
    exact h.read fun heq => hk (mapKey_path_injective heq)

theorem diskMaps_rename {i : Nat} {shardHash : Digest} (hd : d.Sound) (hp : Temporary p)
    (hi : d.names.lookup p = some i) :
    diskMaps (d.rename p (getShardPath shardHash)) =
      Function.update (diskMaps d) (.shard shardHash) (some (d.inodes i).bytes) := by
  funext other
  by_cases hk : other = .shard shardHash
  · subst hk
    simp [diskMaps, MapKey.path, Disk.read, Disk.rename, hi]
  · rw [Function.update_of_ne hk]
    refine (Disk.touches_rename hd (not_aside_shard shardHash) hi).read ?_
    intro hor
    rcases hor with heq | heq
    · exact hp.ne_path other heq
    · exact hk (mapKey_path_injective heq)

theorem temporary_sibling (shardHash : Digest) (pid nanos seq : Nat) :
    Temporary (uniqueTempSibling (getShardPath shardHash) pid nanos seq) :=
  ⟨pinnedDir_ne (getShardPath_dir_length shardHash), List.suffix_append _ _⟩

theorem temporary_tempPath (id : Digest) : Temporary (tempPath id) :=
  ⟨pinnedDir_ne (by simp [tempPath]), List.suffix_append _ _⟩

/-- Work on a pinned object changes its entry only. -/
theorem diskMaps_pinned {name : String} {i : Nat}
    (h : Disk.Touches Aside (· = pinnedPath cfg.blake3 name) d e)
    (hi : e.names.lookup (pinnedPath cfg.blake3 name) = some i) :
    diskMaps e = Function.update (diskMaps d) (.pinned (cfg.blake3 (utf8 name)))
      (some (e.inodes i).bytes) := by
  have hupdate : diskMaps e = Function.update (diskMaps d) (.pinned (cfg.blake3 (utf8 name)))
      (e.read (pinnedPath cfg.blake3 name)) := diskMaps_update h
  rw [hupdate, Disk.read_of_lookup hi]

end Paths

variable {cfg : NodeConfig} {env : NodeEnv} {d e : ShardDisk} {maps : NodeMaps} {p : DiskPath}
  {entry : Option (MapKey × Option Bytes)} {frames : List NodeFrame} {task : NodeTask} {n : Nat}
  {o : TaskOutcome}

theorem serving_store (hd : d.Sound) (hmaps : diskMaps d = maps)
    (hsets : StillSets cfg entry frames d task)
    (h : storeTaskStep env d task (.io n) = some o) :
    Serving cfg maps entry frames o.disk o.next := by
  unfold storeTaskStep at h
  split at h
  next shardHash data _ heq =>
    split at h
    next =>
      cases Option.some.inj h
      exact ⟨hd, Or.inl hmaps⟩
    next =>
      cases Option.some.inj h
      exact ⟨hd, hmaps, temporary_sibling _ _ _ _, hsets⟩
  next heq => simp at heq
  next shardHash data tmp _ heq =>
    cases Option.some.inj h
    obtain ⟨htmp, hentry⟩ := hsets
    have htouch : Disk.Touches Aside (· = tmp) d _ :=
      Disk.touches_create hd (.inr htmp.2) env.now
    refine ⟨htouch.sound, diskMaps_of_temporary htouch htmp hmaps, htmp,
      Disk.lookup_openAppend d tmp env.now, ?_⟩
    · rw [hentry]
      simp [goOn, Disk.create, Disk.put]
  next heq => simp at heq
  next shardHash tmp ino todo _ heq =>
    obtain ⟨htmp, hino, hentry⟩ := hsets
    split at h
    next =>
      rw [hino] at h
      cases Option.some.inj h
      refine ⟨(Disk.touches_rename hd (not_aside_shard shardHash) hino).sound, Or.inr ?_⟩
      rw [List.append_nil] at hentry
      rw [hentry, ← hmaps]
      exact diskMaps_rename hd htmp hino
    next =>
      cases Option.some.inj h
      have htouch : ∀ file, Disk.Touches Aside (· = tmp) d (d.put ino file) :=
        Disk.touches_put hd (.inr htmp.2) hino
      refine ⟨(htouch _).sound, ?_, htmp, hino, ?_⟩
      · exact diskMaps_of_temporary (htouch _) htmp hmaps
      · rw [hentry]
        simp only [goOn]
        rw [inodes_append_self, append_take_drop]
  next heq => simp at heq
  next shardHash tmp _ heq =>
    cases Option.some.inj h
    have htouch : Disk.Touches Aside (· = tmp) d _ := Disk.touches_remove hd tmp
    exact ⟨htouch.sound, Or.inl (diskMaps_of_temporary htouch hsets hmaps)⟩
  next heq => simp at heq
  next => simp at h

/-- The frames of an upload, one by one. -/
theorem serving_frame {tmp : DiskPath} {received : Bytes} {frame : NodeFrame} (hd : d.Sound)
    (hmaps : diskMaps d = maps)
    (hsets : StillSets cfg entry (frame :: frames) d (.receiving tmp received))
    (h : streamTaskStep env d cfg (.receiving tmp received) (.frame frame) = some o) :
    Serving cfg maps entry frames o.disk o.next := by
  obtain ⟨htmp, hreceived, hentry⟩ := hsets
  cases frame with
  | chunk data =>
    simp only [streamTaskStep] at h
    split at h
    next =>
      cases Option.some.inj h
      exact ⟨hd, hmaps, htmp⟩
    next hcap =>
      cases Option.some.inj h
      refine ⟨hd, hmaps, htmp, congrArg (· ++ data) hreceived, ?_⟩
      subst hreceived
      rw [hentry, streamEntry, receivedShard, if_neg hcap]
      rfl
  | final shardHash =>
    simp only [streamTaskStep] at h
    split at h
    next hhash =>
      cases Option.some.inj h
      refine ⟨hd, hmaps, htmp, ?_⟩
      show entry = (d.read tmp).map fun bytes => (.shard shardHash, some bytes)
      rw [hentry, streamEntry]
      cases hread : d.read tmp with
      | none => rfl
      | some bytes =>
        rw [hread] at hreceived
        have hbytes : bytes = received := hreceived
        rw [receivedShard, if_pos (hbytes ▸ hhash)]
        rfl
    next =>
      cases Option.some.inj h
      exact ⟨hd, hmaps, htmp⟩
  | broken =>
    cases Option.some.inj h
    exact ⟨hd, hmaps, htmp⟩
  | timeout =>
    cases Option.some.inj h
    exact ⟨hd, hmaps, htmp⟩

theorem serving_stream (hd : d.Sound) (hmaps : diskMaps d = maps)
    (hsets : StillSets cfg entry frames d task)
    (h : streamTaskStep env d cfg task (.io n) = some o) :
    Serving cfg maps entry frames o.disk o.next := by
  unfold streamTaskStep at h
  split at h
  next heq => simp at heq
  next heq => simp at heq
  next heq => simp at heq
  next heq => simp at heq
  next tmp received data _ heq =>
    obtain ⟨htmp, hreceived, hentry⟩ := hsets
    split at h
    next =>
      cases Option.some.inj h
      exact ⟨hd, hmaps, htmp⟩
    next =>
      split at h
      next =>
        cases Option.some.inj h
        exact ⟨hd, hmaps, htmp⟩
      next =>
        cases Option.some.inj h
        have htouch : Disk.Touches Aside (· = tmp) d _ :=
          Disk.touches_openAppend hd (.inr htmp.2) env.now
        refine ⟨htouch.sound, ?_, htmp, Disk.lookup_openAppend d tmp env.now, ?_, hentry⟩
        · exact diskMaps_of_temporary htouch htmp hmaps
        · simp only [goOn]
          rw [read_openAppend]
          exact hreceived
  next heq => simp at heq
  next tmp received ino todo _ heq =>
    obtain ⟨htmp, hino, hreceived, hentry⟩ := hsets
    split at h
    next =>
      cases Option.some.inj h
      rw [List.append_nil] at hreceived
      refine ⟨hd, hmaps, htmp, ?_, ?_⟩
      · show (d.read tmp).getD [] = received
        rw [Disk.read_of_lookup hino]
        exact hreceived
      · show entry = streamEntry cfg (d.read tmp) frames
        rw [hentry, Disk.read_of_lookup hino, hreceived]
    next =>
      cases Option.some.inj h
      have htouch : ∀ file, Disk.Touches Aside (· = tmp) d (d.put ino file) :=
        Disk.touches_put hd (.inr htmp.2) hino
      refine ⟨(htouch _).sound, ?_, htmp, hino, ?_, hentry⟩
      · exact diskMaps_of_temporary (htouch _) htmp hmaps
      · simp only [goOn]
        rw [inodes_append_self, append_take_drop, hreceived]
  next heq => simp at heq
  next tmp answer _ heq =>
    cases Option.some.inj h
    have htouch : Disk.Touches Aside (· = tmp) d _ := Disk.touches_remove hd tmp
    have hsame : diskMaps (d.remove tmp) = maps := diskMaps_of_temporary htouch hsets hmaps
    cases answer with
    | true => exact ⟨htouch.sound, Or.inl hsame⟩
    | false => exact ⟨htouch.sound, Or.inl hsame⟩
  next heq => simp at heq
  next => simp at h

theorem serving_finalize (hd : d.Sound) (hmaps : diskMaps d = maps)
    (hsets : StillSets cfg entry frames d task)
    (h : finalizeTaskStep env d task (.io n) = some o) :
    Serving cfg maps entry frames o.disk o.next := by
  unfold finalizeTaskStep at h
  split at h
  next tmp received shardHash _ heq =>
    split at h
    next =>
      cases Option.some.inj h
      exact ⟨hd, hmaps, hsets⟩
    next =>
      cases Option.some.inj h
      exact ⟨hd, Or.inl hmaps⟩
  next tmp shardHash _ heq =>
    obtain ⟨htmp, hentry⟩ := hsets
    split at h
    next i hi =>
      cases Option.some.inj h
      refine ⟨(Disk.touches_rename hd (not_aside_shard shardHash) hi).sound, Or.inr ?_⟩
      rw [hentry, Disk.read_of_lookup hi, ← hmaps]
      exact diskMaps_rename hd htmp hi
    next =>
      cases Option.some.inj h
      exact ⟨hd, Or.inl hmaps⟩
  next heq => simp at heq
  next heq => simp at heq
  next => simp at h

theorem serving_delete (hd : d.Sound) (hmaps : diskMaps d = maps)
    (hsets : StillSets cfg entry frames d task)
    (h : deleteTaskStep env d task (.io n) = some o) :
    Serving cfg maps entry frames o.disk o.next := by
  unfold deleteTaskStep at h
  split at h
  next shardHash _ heq =>
    split at h
    next hnone =>
      cases Option.some.inj h
      exact ⟨hd, Or.inl hmaps⟩
    next =>
      cases Option.some.inj h
      exact ⟨hd, hmaps, hsets⟩
  next shardHash _ heq =>
    split at h
    next =>
      cases Option.some.inj h
      exact ⟨hd, Or.inl hmaps⟩
    next =>
      cases Option.some.inj h
      have htouch : Disk.Touches Aside (· = (MapKey.shard shardHash).path) d _ :=
        Disk.touches_remove hd (getShardPath shardHash)
      have hentry : entry = some (.shard shardHash, none) := hsets
      refine ⟨htouch.sound, Or.inr ?_⟩
      rw [hentry, ← hmaps]
      refine (diskMaps_update htouch).trans ?_
      simp [write, Disk.read, Disk.remove, MapKey.path]
  next heq => simp at heq
  next => simp at h

theorem serving_pinnedCreate {name : String} {data : Bytes} (hd : d.Sound)
    (hmaps : diskMaps d = maps) (hsets : StillSets cfg entry frames d (.pinnedCreate name data))
    (h : pinnedTaskStep env d cfg (.pinnedCreate name data) (.io n) = some o) :
    Serving cfg maps entry frames o.disk o.next := by
  cases Option.some.inj h
  have htouch : Disk.Touches Aside (· = pinnedPath cfg.blake3 name) d _ :=
    Disk.touches_create hd (aside_pinnedPath cfg.blake3 name) env.now
  have hlookup : (d.create (pinnedPath cfg.blake3 name) env.now).1.names.lookup
      (pinnedPath cfg.blake3 name) = some (d.create (pinnedPath cfg.blake3 name) env.now).2 :=
    Disk.lookup_openAppend d (pinnedPath cfg.blake3 name) env.now
  have hempty : ((d.create (pinnedPath cfg.blake3 name) env.now).1.inodes
      (d.create (pinnedPath cfg.blake3 name) env.now).2).bytes = [] := by
    simp [Disk.create, Disk.put]
  refine ⟨htouch.sound, hlookup, ?_, ?_, ?_⟩
  · simp only [goOn]
    rw [hempty]
    rfl
  · rw [← hmaps]
    exact diskMaps_pinned htouch hlookup
  · simp only [goOn]
    rw [hempty]
    exact hsets

theorem serving_pinnedWrite {name : String} {ino offset : Nat} {todo : Bytes}
    (hserving : Serving cfg maps entry frames d (some (.pinnedWrite name ino offset todo)))
    (h : pinnedTaskStep env d cfg (.pinnedWrite name ino offset todo) (.io n) = some o) :
    Serving cfg maps entry frames o.disk o.next := by
  obtain ⟨hd, hino, hlen, hmaps, hentry⟩ := hserving
  simp only [pinnedTaskStep] at h
  split at h
  next =>
    cases Option.some.inj h
    refine ⟨hd, Or.inr ?_⟩
    rw [hentry, List.append_nil]
    exact hmaps
  next =>
    cases Option.some.inj h
    have htouch : ∀ file, Disk.Touches Aside (· = pinnedPath cfg.blake3 name) d (d.put ino file) :=
      Disk.touches_put hd (aside_pinnedPath cfg.blake3 name) hino
    refine ⟨(htouch _).sound, hino, ?_, ?_, ?_⟩
    · simp only [goOn]
      rw [Disk.bytes_writeAt_end hlen, List.length_append, hlen]
    · refine (diskMaps_pinned (htouch _) hino).trans ?_
      rw [hmaps, Function.update_idem]
      rfl
    · simp only [goOn]
      rw [Disk.bytes_writeAt_end hlen, append_take_drop]
      exact hentry

/-- Retrievals leave the disk alone. -/
theorem serving_read (hd : d.Sound) (hmaps : diskMaps d = maps)
    (h : readTaskStep env d cfg task (.io n) = some o) :
    Serving cfg maps entry frames o.disk o.next := by
  unfold readTaskStep at h
  split at h
  next target _ heq =>
    split at h
    next =>
      cases Option.some.inj h
      exact ⟨hd, Or.inl hmaps⟩
    next =>
      split at h
      next =>
        cases Option.some.inj h
        exact ⟨hd, hmaps, trivial⟩
      next =>
        cases Option.some.inj h
        exact ⟨hd, hmaps, trivial⟩
  next shardHash _ heq =>
    split at h
    next =>
      cases Option.some.inj h
      exact ⟨hd, Or.inl hmaps⟩
    next =>
      cases Option.some.inj h
      exact ⟨hd, hmaps, trivial⟩
  next heq => simp at heq
  next target totalBytes _ heq =>
    split at h
    next =>
      cases Option.some.inj h
      exact ⟨hd, Or.inl hmaps⟩
    next =>
      cases Option.some.inj h
      exact ⟨hd, hmaps, trivial⟩
  next heq => simp at heq
  next target ino chunks _ heq =>
    split at h
    next =>
      cases Option.some.inj h
      exact ⟨hd, Or.inl hmaps⟩
    next =>
      cases Option.some.inj h
      exact ⟨hd, hmaps, trivial⟩
  next heq => simp at heq
  next => simp at h

theorem serving_listing {dir : Option String} {todo : List (List Char)} {found : List Digest}
    (hd : d.Sound) (hmaps : diskMaps d = maps)
    (h : listingTaskStep env d (.listing dir todo found) (.io n) = some o) :
    Serving cfg maps entry frames o.disk o.next := by
  cases todo with
  | nil =>
    cases Option.some.inj h
    exact ⟨hd, Or.inl hmaps⟩
  | cons next todo =>
    cases Option.some.inj h
    exact ⟨hd, hmaps, trivial⟩

/-- One operation of a task that is served alone. -/
theorem serving_io (hserving : Serving cfg maps entry frames d (some task))
    (h : taskStep cfg env d task (.io n) = some o) :
    Serving cfg maps entry frames o.disk o.next := by
  cases task with
  | pinnedWrite => exact serving_pinnedWrite hserving h
  | storePrepare | storeCreate | storeWrite | storeCleanup =>
    simp only [taskStep] at h
    exact serving_store hserving.1 hserving.2.1 hserving.2.2 h
  | receiving | chunkOpen | chunkWrite | streamDiscard =>
    simp only [taskStep] at h
    exact serving_stream hserving.1 hserving.2.1 hserving.2.2 h
  | finalizeOpen | finalizeRename =>
    simp only [taskStep] at h
    exact serving_finalize hserving.1 hserving.2.1 hserving.2.2 h
  | readCheck | readMetadata | readOpen | reading =>
    simp only [taskStep] at h
    exact serving_read hserving.1 hserving.2.1 h
  | deleteCheck | deleteRemove =>
    simp only [taskStep] at h
    exact serving_delete hserving.1 hserving.2.1 hserving.2.2 h
  | pinnedCreate =>
    simp only [taskStep] at h
    exact serving_pinnedCreate hserving.1 hserving.2.1 hserving.2.2 h
  | listing =>
    simp only [taskStep] at h
    exact serving_listing hserving.1 hserving.2.1 h

/-- One message of the stream: only an upload waits for one. -/
theorem serving_message {frame : NodeFrame}
    (hserving : Serving cfg maps entry (frame :: frames) d (some task))
    (h : taskStep cfg env d task (.frame frame) = some o) :
    Serving cfg maps entry frames o.disk o.next := by
  cases task with
  | receiving => exact serving_frame hserving.1 hserving.2.1 hserving.2.2 h
  | listing dir todo found => cases todo <;> simp [taskStep, listingTaskStep] at h
  | _ =>
    simp [taskStep, storeTaskStep, streamTaskStep, finalizeTaskStep, readTaskStep, deleteTaskStep,
      pinnedTaskStep] at h

/-- The whole service, by induction on its steps. -/
theorem serves_maps {next : Option NodeTask} (h : Serves cfg d next frames e)
    (hserving : Serving cfg maps entry frames d next) :
    e.Sound ∧ (diskMaps e = maps ∨ diskMaps e = write maps entry) := by
  induction h with
  | ended => exact hserving
  | frame env d e task frame frames o hstep _ ih => exact ih (serving_message hserving hstep)
  | io env d e task n frames o hstep _ ih => exact ih (serving_io hserving hstep)

end Reminisce

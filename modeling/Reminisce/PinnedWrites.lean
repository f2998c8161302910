import Reminisce.ShardStore

namespace Reminisce

open FileSystem

/-- An accepted request for the pinned object: the bytes of a store, none for a retrieval, the
requests that were over when it came, and the stores acknowledged by then. -/
structure PinnedRequest where
  data : Option Bytes
  ended : List Nat
  acked : List Nat
  deriving DecidableEq

/-- A storage node as far as one pinned object goes. Requests are numbered in the order they
come; `running` has the streams that still handle one. -/
structure PinnedNode where
  disk : ShardDisk
  requests : List PinnedRequest
  running : Nat → Option NodeTask
  acked : List Nat
  answers : List (Nat × Option Bytes)

/-- A request may come, a stream may move on or be dropped, in any order. `restart` is a crash
at this point with the start of the next process. -/
inductive PinnedEvent
  | store (env : NodeEnv) (salt : Salt) (data : Bytes) (token : ShardToken)
  | get (env : NodeEnv) (salt : Salt) (token : ShardToken)
  | step (i : Nat) (env : NodeEnv) (input : TaskInput)
  | cancel (i : Nat)
  | restart (now : Nat) (removable : DiskPath → Bool)

def PinnedNode.start : PinnedNode :=
  { disk := Disk.empty, requests := [], running := fun _ => none, acked := [], answers := [] }

/-- The requests that are no longer handled. -/
def PinnedNode.ended (n : PinnedNode) : List Nat :=
  (List.range n.requests.length).filter fun i => (n.running i).isNone

/-- A request goes on as a task or is refused. -/
def PinnedNode.accept (n : PinnedNode) (data : Option Bytes) : Option NodeTask → PinnedNode
  | none => n
  | some task => { n with
      requests := n.requests ++ [⟨data, n.ended, n.acked⟩]
      running := Function.update n.running n.requests.length (some task) }

/-- What stream `i` does in one step; its answers are noted. -/
def PinnedNode.after (n : PinnedNode) (i : Nat) (o : TaskOutcome) : PinnedNode :=
  { n with
    disk := o.disk
    running := Function.update n.running i o.next
    acked := if .storePinnedResponse true ∈ o.sent then n.acked ++ [i] else n.acked
    answers := n.answers ++ o.sent.filterMap fun
      | .pinnedObjectResponse data => some (i, data)
      | _ => none }

def pinnedStep (cfg : NodeConfig) (name : String) (n : PinnedNode) :
    PinnedEvent → Option PinnedNode
  | .store env salt data token =>
    some (n.accept (some data) (handleRequest cfg env salt (.storePinnedObject name data token)).1)
  | .get env salt token =>
    some (n.accept none (handleRequest cfg env salt (.getPinnedObject name token)).1)
  | .step i env input =>
    (n.running i).bind fun task => (taskStep cfg env n.disk task input).map fun o => n.after i o
  | .cancel i =>
    if (n.running i).isSome then some { n with running := Function.update n.running i none }
    else none
  | .restart now removable =>
    some { n with
      disk := (cleanupStaleTempFiles n.disk now staleAge removable).1
      running := fun _ => none }

/-- Request `x` was over before one of the stores in `acked` came. -/
def PinnedNode.Superseded (n : PinnedNode) (acked : List Nat) (x : Nat) : Prop :=
  ∃ y ∈ acked, ∃ r, n.requests[y]? = some r ∧ x ∈ r.ended

/-- The object as it may be found once the stores in `acked` are acknowledged: nothing when
there is none, or the complete data of a store that is not older than one of them. -/
def PinnedNode.Complete (n : PinnedNode) (acked : List Nat) : Option Bytes → Prop
  | none => acked = []
  | some data => ∃ x r, n.requests[x]? = some r ∧ r.data = some data ∧ ¬ n.Superseded acked x

/-- The task is a store of the pinned object. -/
def NodeTask.storesPinned : NodeTask → Bool
  | .pinnedCreate _ _ => true
  | .pinnedWrite _ _ _ _ => true
  | _ => false

/-- Every retrieval was answered with a complete object, and whenever no store is under way,
as after a crash, there is one on the disk. -/
structure PinnedSafe (cfg : NodeConfig) (name : String) (n : PinnedNode) : Prop where
  answers : ∀ answer ∈ n.answers, ∀ r, n.requests[answer.1]? = some r →
    n.Complete r.acked answer.2
  atRest : (∀ i task, n.running i = some task → task.storesPinned = false) →
    n.Complete n.acked (n.disk.read (pinnedPath cfg.blake3 name))

/-- The object is emptied and not yet written to its end. -/
def NodeTask.overwriting : NodeTask → Bool
  | .pinnedWrite _ _ _ (_ :: _) => true
  | _ => false

def NodeTask.isReading : NodeTask → Bool
  | .reading _ _ _ => true
  | _ => false

/-- The next successful step of the task empties the object. -/
def NodeTask.empties : NodeTask → Bool
  | .pinnedCreate _ _ => true
  | _ => false

/-- The next successful step of the task opens the object for reading. -/
def NodeTask.opens : NodeTask → Bool
  | .readOpen _ _ => true
  | _ => false

/-- No stream is in the state `busy`. -/
def PinnedNode.Without (n : PinnedNode) (busy : NodeTask → Bool) : Prop :=
  ∀ i < n.requests.length, ∀ task ∈ n.running i, busy task = false

instance (n : PinnedNode) (busy : NodeTask → Bool) : Decidable (n.Without busy) :=
  inferInstanceAs (Decidable (∀ i < n.requests.length, ∀ task ∈ n.running i, busy task = false))

/-- No store empties the object while another one overwrites it or a reader has it open, no
reader opens it while it is overwritten, and no overwrite is cut short by an error, by the end
of its stream or by a crash. -/
def Undisturbed (n : PinnedNode) : PinnedEvent → Prop
  | .step i _ (.io _) => ∀ task ∈ n.running i,
    (task.empties = true → n.Without NodeTask.overwriting ∧ n.Without NodeTask.isReading) ∧
      (task.opens = true → n.Without NodeTask.overwriting)
  | .step i _ .fail => ∀ task ∈ n.running i, task.overwriting = false
  | .cancel i => ∀ task ∈ n.running i, task.overwriting = false
  | .restart _ _ => n.Without NodeTask.overwriting
  | _ => True

instance (n : PinnedNode) : ∀ e, Decidable (Undisturbed n e)
  | .step i _ (.io _) => inferInstanceAs (Decidable (∀ task ∈ n.running i,
      (task.empties = true → n.Without NodeTask.overwriting ∧ n.Without NodeTask.isReading) ∧
        (task.opens = true → n.Without NodeTask.overwriting)))
  | .step i _ .fail => inferInstanceAs (Decidable (∀ task ∈ n.running i, task.overwriting = false))
  | .step _ _ (.frame _) => inferInstanceAs (Decidable True)
  | .cancel i => inferInstanceAs (Decidable (∀ task ∈ n.running i, task.overwriting = false))
  | .restart _ _ => inferInstanceAs (Decidable (n.Without NodeTask.overwriting))
  | .store _ _ _ _ => inferInstanceAs (Decidable True)
  | .get _ _ _ => inferInstanceAs (Decidable True)

def NodeTask.writesPinned : NodeTask → Bool
  | .pinnedWrite _ _ _ _ => true
  | _ => false

/-- What the stream of a request does: it stores or retrieves the object, and a stream that
has the object open has the file that is there. -/
def TaskFits (cfg : NodeConfig) (name : String) (d : ShardDisk) (r : PinnedRequest) :
    NodeTask → Prop
  | .pinnedCreate object data => object = name ∧ r.data = some data
  | .pinnedWrite object ino _ _ =>
    object = name ∧ d.names.lookup (pinnedPath cfg.blake3 name) = some ino
  | .readCheck target => target = .pinned name
  | .readOpen target _ => target = .pinned name
  | .reading target ino _ =>
    target = .pinned name ∧ d.names.lookup (pinnedPath cfg.blake3 name) = some ino
  | _ => False

def PinnedNode.NoneOverwriting (n : PinnedNode) : Prop :=
  ∀ i task, n.running i = some task → task.overwriting = false

/-- Store `x` was the last one to empty the object. -/
structure LastWriter (n : PinnedNode) (x : Nat) (data : Bytes) : Prop where
  stored : ∃ r, n.requests[x]? = some r ∧ r.data = some data
  current : ¬ n.Superseded n.acked x
  later : ∀ y task r, n.running y = some task → task.writesPinned = true →
    n.requests[y]? = some r → x ∉ r.ended

/-- The object on the disk: not there, whole, or being overwritten by one stream with no
reader. -/
inductive PinnedContent (cfg : NodeConfig) (name : String) (n : PinnedNode) : Prop
  | absent (lookup : n.disk.names.lookup (pinnedPath cfg.blake3 name) = none) (acked : n.acked = [])
  | whole (ino x : Nat) (data : Bytes)
      (lookup : n.disk.names.lookup (pinnedPath cfg.blake3 name) = some ino)
      (writer : LastWriter n x data) (bytes : (n.disk.inodes ino).bytes = data)
      (none : n.NoneOverwriting)
      (readers : ∀ i target ino chunks, n.running i = some (.reading target ino chunks) →
        chunks.flatten <+: data)
  | partly (ino x : Nat) (data : Bytes) (offset : Nat)
      (lookup : n.disk.names.lookup (pinnedPath cfg.blake3 name) = some ino)
      (writer : LastWriter n x data)
      (task : n.running x = some (.pinnedWrite name ino offset (data.drop offset)))
      (offset_lt : offset < data.length) (bytes : (n.disk.inodes ino).bytes = data.take offset)
      (others : ∀ j task, n.running j = some task → j ≠ x → task.overwriting = false)
      (readers : ∀ j task, n.running j = some task → task.isReading = false)

/-- What every undisturbed run keeps. -/
structure PinnedInv (cfg : NodeConfig) (name : String) (n : PinnedNode) : Prop where
  fits : ∀ i task, n.running i = some task →
    ∃ r, n.requests[i]? = some r ∧ TaskFits cfg name n.disk r task
  ended : ∀ (y : Nat) (r : PinnedRequest), n.requests[y]? = some r → ∀ x ∈ r.ended, x < y ∧ n.running x = none
  earlier : ∀ (y : Nat) (r : PinnedRequest), n.requests[y]? = some r → ∀ x ∈ r.acked, x ∈ n.acked
  acked : ∀ y ∈ n.acked, y < n.requests.length
  content : PinnedContent cfg name n
  answered : ∀ answer ∈ n.answers, answer.1 < n.requests.length
  answers : ∀ answer ∈ n.answers, ∀ r, n.requests[answer.1]? = some r →
    n.Complete r.acked answer.2

variable {cfg : NodeConfig} {name : String} {n : PinnedNode} {i : Nat} {task : NodeTask}
  {o : TaskOutcome}

theorem overwriting_drop {ino offset : Nat} {data : Bytes} (hlt : offset < data.length) :
    (NodeTask.pinnedWrite name ino offset (data.drop offset)).overwriting = true := by
  cases hdrop : data.drop offset with
  | nil =>
    have hle := List.drop_eq_nil_iff.mp hdrop
    omega
  | cons b rest => rfl

/-- The streams of a node are those of its requests. -/
theorem PinnedInv.without (hinv : PinnedInv cfg name n) {busy : NodeTask → Bool}
    (h : n.Without busy) (hi : n.running i = some task) : busy task = false := by
  obtain ⟨r, hr, _⟩ := hinv.fits i task hi
  obtain ⟨hlt, _⟩ := List.getElem?_eq_some_iff.mp hr
  exact h i hlt task hi

theorem superseded_append {acked : List Nat} {x : Nat}
    (h : n.Superseded (acked ++ [i]) x) :
    n.Superseded acked x ∨ ∃ r, n.requests[i]? = some r ∧ x ∈ r.ended := by
  obtain ⟨y, hy, r, hr, hx⟩ := h
  rcases List.mem_append.mp hy with hy | hy
  · exact Or.inl ⟨y, hy, r, hr, hx⟩
  · cases List.mem_singleton.mp hy
    exact Or.inr ⟨r, hr, hx⟩

theorem PinnedNode.Superseded.mono {acked more : List Nat} {x : Nat} (hsub : ∀ y ∈ acked, y ∈ more)
    (h : n.Superseded acked x) : n.Superseded more x := by
  obtain ⟨y, hy, hrest⟩ := h
  exact ⟨y, hsub y hy, hrest⟩

/-- A stream that writes nothing moves on or ends. -/
theorem LastWriter.move {x : Nat} {data : Bytes} (h : LastWriter n x data)
    (hi : n.running i = some task)
    (hack : .storePinnedResponse true ∈ o.sent → task.writesPinned = true)
    (hnext : ∀ t, o.next = some t → t.writesPinned = false) : LastWriter (n.after i o) x data where
  stored := h.stored
  current := by
    simp only [PinnedNode.after]
    split
    next hsent =>
      intro hsup
      rcases superseded_append hsup with hold | ⟨r, hr, hx⟩
      · exact h.current hold
      · exact h.later i task r hi (hack hsent) hr hx
    next => exact h.current
  later y t r hy hw hr := by
    simp only [PinnedNode.after, Function.update_apply] at hy
    split at hy
    next =>
      rw [hnext t hy] at hw
      simp at hw
    next => exact h.later y t r hy hw hr

theorem after_running {j : Nat} {t : NodeTask} (h : (n.after i o).running j = some t) :
    (j = i ∧ o.next = some t) ∨ (j ≠ i ∧ n.running j = some t) := by
  simp only [PinnedNode.after, Function.update_apply] at h
  split at h
  next hj => exact Or.inl ⟨hj, h⟩
  next hj => exact Or.inr ⟨hj, h⟩

/-- The content does not change when a stream does not touch the disk, unless the stream is
the one that overwrites the object. -/
theorem PinnedContent.move (h : PinnedContent cfg name n) (hi : n.running i = some task)
    (hnot : task.overwriting = false) (hdisk : o.disk = n.disk)
    (hack : .storePinnedResponse true ∈ o.sent → task.writesPinned = true)
    (hfits : task.writesPinned = true → ∃ ino,
      n.disk.names.lookup (pinnedPath cfg.blake3 name) = some ino)
    (hnext : ∀ t, o.next = some t → t.writesPinned = false ∧ t.overwriting = false)
    (hread : ∀ target ino chunks, o.next = some (.reading target ino chunks) →
      n.NoneOverwriting ∧ n.disk.names.lookup (pinnedPath cfg.blake3 name) = some ino ∧
        chunks.flatten <+: (n.disk.inodes ino).bytes) :
    PinnedContent cfg name (n.after i o) := by
  have hwriter : ∀ {x data}, LastWriter n x data → LastWriter (n.after i o) x data :=
    fun hw => hw.move hi hack fun t ht => (hnext t ht).1
  have hdisk' : (n.after i o).disk = n.disk := hdisk
  cases h with
  | absent lookup acked =>
    refine .absent (by rw [hdisk', lookup]) ?_
    simp only [PinnedNode.after]
    split
    next hsent =>
      obtain ⟨ino, hino⟩ := hfits (hack hsent)
      simp [lookup] at hino
    next => exact acked
  | whole ino x data lookup writer bytes none readers =>
    refine .whole ino x data (by rw [hdisk', lookup]) (hwriter writer) (by rw [hdisk', bytes]) ?_ ?_
    · intro j t ht
      rcases after_running ht with ⟨_, ht⟩ | ⟨_, ht⟩
      · exact (hnext t ht).2
      · exact none j t ht
    · intro j target other chunks ht
      rcases after_running ht with ⟨_, ht⟩ | ⟨_, ht⟩
      · obtain ⟨_, hother, hchunks⟩ := hread target other chunks ht
        cases Option.some.inj (lookup.symm.trans hother)
        rwa [bytes] at hchunks
      · exact readers j target other chunks ht
  | partly ino x data offset lookup writer taskx offset_lt bytes others readers =>
    have hover := @overwriting_drop name ino offset data offset_lt
    have hne : x ≠ i := by
      rintro rfl
      cases Option.some.inj (hi.symm.trans taskx)
      rw [hover] at hnot
      simp at hnot
    refine .partly ino x data offset (by rw [hdisk', lookup]) (hwriter writer) ?_ offset_lt
      (by rw [hdisk', bytes]) ?_ ?_
    · simp only [PinnedNode.after, Function.update_apply, if_neg hne, taskx]
    · intro j t ht hjx
      rcases after_running ht with ⟨_, ht⟩ | ⟨_, ht⟩
      · exact (hnext t ht).2
      · exact others j t ht hjx
    · intro j t ht
      rcases after_running ht with ⟨_, ht⟩ | ⟨_, ht⟩
      · cases t with
        | reading target other chunks =>
          have hnone := (hread target other chunks ht).1 x _ taskx
          rw [hover] at hnone
          simp at hnone
        | _ => rfl
      · exact readers j t ht

/-- The rest of the invariant, for a stream that leaves the object's name where it is. -/
theorem PinnedInv.after (hinv : PinnedInv cfg name n) (hi : n.running i = some task)
    (hlookup : ∀ ino, n.disk.names.lookup (pinnedPath cfg.blake3 name) = some ino →
      o.disk.names.lookup (pinnedPath cfg.blake3 name) = some ino)
    (hfits : ∀ t, o.next = some t → ∀ r, n.requests[i]? = some r → TaskFits cfg name n.disk r task →
      TaskFits cfg name o.disk r t)
    (hans : ∀ data, .pinnedObjectResponse data ∈ o.sent → ∀ r, n.requests[i]? = some r →
      n.Complete r.acked data)
    (hcontent : PinnedContent cfg name (n.after i o)) : PinnedInv cfg name (n.after i o) where
  fits := by
    intro j t ht
    rcases after_running ht with ⟨hj, hnext⟩ | ⟨_, ht⟩
    · subst hj
      obtain ⟨r, hr, hfit⟩ := hinv.fits j task hi
      exact ⟨r, hr, hfits t hnext r hr hfit⟩
    · obtain ⟨r, hr, hfit⟩ := hinv.fits j t ht
      refine ⟨r, hr, ?_⟩
      cases t with
      | pinnedWrite object ino offset todo => exact ⟨hfit.1, hlookup ino hfit.2⟩
      | reading target ino chunks => exact ⟨hfit.1, hlookup ino hfit.2⟩
      | _ => exact hfit
  ended := by
    intro y r hr x hx
    obtain ⟨hlt, hnone⟩ := hinv.ended y r hr x hx
    refine ⟨hlt, ?_⟩
    have hne : x ≠ i := by
      rintro rfl
      rw [hi] at hnone
      simp at hnone
    simp only [PinnedNode.after, Function.update_apply, if_neg hne, hnone]
  earlier := by
    intro y r hr x hx
    have hold := hinv.earlier y r hr x hx
    simp only [PinnedNode.after]
    split
    · exact List.mem_append_left _ hold
    · exact hold
  acked := by
    intro y hy
    simp only [PinnedNode.after] at hy
    split at hy
    next =>
      rcases List.mem_append.mp hy with hy | hy
      · exact hinv.acked y hy
      · cases List.mem_singleton.mp hy
        obtain ⟨r, hr, _⟩ := hinv.fits i task hi
        exact (List.getElem?_eq_some_iff.mp hr).1
    next => exact hinv.acked y hy
  content := hcontent
  answered := by
    intro answer hanswer
    rcases List.mem_append.mp hanswer with hold | hnew
    · exact hinv.answered answer hold
    · obtain ⟨reply, _, heq⟩ := List.mem_filterMap.mp hnew
      split at heq
      next =>
        cases Option.some.inj heq
        obtain ⟨r, hr, _⟩ := hinv.fits i task hi
        exact (List.getElem?_eq_some_iff.mp hr).1
      next => simp at heq
  answers := by
    intro answer hanswer r hr
    rcases List.mem_append.mp hanswer with hold | hnew
    · exact hinv.answers answer hold r hr
    · obtain ⟨reply, hreply, heq⟩ := List.mem_filterMap.mp hnew
      split at heq
      next data =>
        cases Option.some.inj heq
        exact hans data hreply r hr
      next => simp at heq

end Reminisce

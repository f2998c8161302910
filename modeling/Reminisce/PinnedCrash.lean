import Reminisce.PinnedOverwrites
import Reminisce.PinnedWrites

namespace Reminisce

section

variable {cfg : NodeConfig} {name : String} {n : PinnedNode} {task : NodeTask}

/-- More requests, the same stores and acknowledgements: what was complete stays so. -/
theorem PinnedNode.Complete.accept {m : PinnedNode} {request : PinnedRequest} {acked : List Nat}
    {found : Option Bytes} (h : n.Complete acked found)
    (hm : m.requests = n.requests ++ [request]) (hacked : ∀ y ∈ acked, y < n.requests.length) :
    m.Complete acked found := by
  cases found with
  | none => exact h
  | some data =>
    obtain ⟨x, r, hr, hdata, hcurrent⟩ := h
    obtain ⟨hlt, _⟩ := List.getElem?_eq_some_iff.mp hr
    refine ⟨x, r, by rw [hm, List.getElem?_append_left hlt, hr], hdata, ?_⟩
    rintro ⟨y, hy, r', hr', hx⟩
    rw [hm, List.getElem?_append_left (hacked y hy)] at hr'
    exact hcurrent ⟨y, hy, r', hr', hx⟩

theorem accept_running {data : Option Bytes} {j : Nat} {t : NodeTask}
    (h : (n.accept data (some task)).running j = some t) :
    (j = n.requests.length ∧ t = task) ∨ (j ≠ n.requests.length ∧ n.running j = some t) := by
  simp only [PinnedNode.accept, Function.update_apply] at h
  split at h
  next hj => exact Or.inl ⟨hj, (Option.some.inj h).symm⟩
  next hj => exact Or.inr ⟨hj, h⟩

/-- The request with a number: an old one, or the new one. -/
theorem accept_request {data : Option Bytes} {j : Nat} {r : PinnedRequest}
    (h : (n.accept data (some task)).requests[j]? = some r) :
    n.requests[j]? = some r ∨ (j = n.requests.length ∧ r = ⟨data, n.ended, n.acked⟩) := by
  simp only [PinnedNode.accept] at h
  by_cases hlt : j < n.requests.length
  · rw [List.getElem?_append_left hlt] at h
    exact Or.inl h
  · rw [List.getElem?_append_right (by omega)] at h
    obtain ⟨hj, hr⟩ := List.getElem?_eq_some_iff.mp h
    simp only [List.length_singleton] at hj
    have hzero : j - n.requests.length = 0 := by omega
    simp only [hzero, List.getElem_cons_zero] at hr
    exact Or.inr ⟨by omega, hr.symm⟩

theorem mem_ended {x : Nat} : x ∈ n.ended ↔ x < n.requests.length ∧ n.running x = none := by
  simp [PinnedNode.ended, List.mem_filter]

theorem LastWriter.accept {x : Nat} {written : Bytes} (h : LastWriter n x written)
    (hacked : ∀ y ∈ n.acked, y < n.requests.length) {data : Option Bytes}
    (hnew : task.writesPinned = false) : LastWriter (n.accept data (some task)) x written where
  stored := by
    obtain ⟨r, hr, hdata⟩ := h.stored
    obtain ⟨hlt, _⟩ := List.getElem?_eq_some_iff.mp hr
    exact ⟨r, by rw [PinnedNode.accept, List.getElem?_append_left hlt, hr], hdata⟩
  current := by
    rintro ⟨y, hy, r, hr, hx⟩
    rw [PinnedNode.accept, List.getElem?_append_left (hacked y hy)] at hr
    exact h.current ⟨y, hy, r, hr, hx⟩
  later y t r ht hw hr := by
    rcases accept_running ht with ⟨_, rfl⟩ | ⟨hne, ht⟩
    · rw [hnew] at hw
      simp at hw
    · rcases accept_request hr with hr | ⟨hj, _⟩
      · exact h.later y t r ht hw hr
      · exact absurd hj hne

theorem PinnedContent.accept (h : PinnedContent cfg name n)
    (hacked : ∀ y ∈ n.acked, y < n.requests.length) {data : Option Bytes}
    (hfresh : n.running n.requests.length = none) (hwrites : task.writesPinned = false)
    (hover : task.overwriting = false) (hreads : task.isReading = false) :
    PinnedContent cfg name (n.accept data (some task)) := by
  cases h with
  | absent lookup acked => exact .absent lookup acked
  | whole ino x written lookup writer bytes none readers =>
    refine .whole ino x written lookup (writer.accept hacked hwrites) bytes ?_ ?_
    · intro j t ht
      rcases accept_running ht with ⟨_, rfl⟩ | ⟨_, ht⟩
      · exact hover
      · exact none j t ht
    · intro j target other chunks ht
      rcases accept_running ht with ⟨_, rfl⟩ | ⟨_, ht⟩
      · simp [NodeTask.isReading] at hreads
      · exact readers j target other chunks ht
  | partly ino x written offset lookup writer taskx offset_lt bytes others readers =>
    have hne : x ≠ n.requests.length := by
      rintro rfl
      rw [hfresh] at taskx
      simp at taskx
    refine .partly ino x written offset lookup (writer.accept hacked hwrites) ?_ offset_lt bytes ?_ ?_
    · simp only [PinnedNode.accept, Function.update_apply, if_neg hne, taskx]
    · intro j t ht hj
      rcases accept_running ht with ⟨_, rfl⟩ | ⟨_, ht⟩
      · exact hover
      · exact others j t ht hj
    · intro j t ht
      rcases accept_running ht with ⟨_, rfl⟩ | ⟨_, ht⟩
      · exact hreads
      · exact readers j t ht

/-- A new request is the last one, and nothing of it is on the disk yet. -/
theorem pinnedInv_accept (hinv : PinnedInv cfg name n) {data : Option Bytes}
    (hfits : ∀ r : PinnedRequest, r.data = data → TaskFits cfg name n.disk r task)
    (hwrites : task.writesPinned = false) (hover : task.overwriting = false)
    (hreads : task.isReading = false) :
    PinnedInv cfg name (n.accept data (some task)) := by
  have hfresh : n.running n.requests.length = none := by
    cases hrun : n.running n.requests.length with
    | none => rfl
    | some t =>
      obtain ⟨r, hr, _⟩ := hinv.fits _ t hrun
      simp at hr
  constructor
  · intro j t ht
    rcases accept_running ht with ⟨rfl, rfl⟩ | ⟨_, ht⟩
    · exact ⟨⟨data, n.ended, n.acked⟩, by simp [PinnedNode.accept], hfits _ rfl⟩
    · obtain ⟨r, hr, hfit⟩ := hinv.fits j t ht
      obtain ⟨hlt, _⟩ := List.getElem?_eq_some_iff.mp hr
      exact ⟨r, by rw [PinnedNode.accept, List.getElem?_append_left hlt, hr], hfit⟩
  · intro y r hr x hx
    rcases accept_request hr with hr | ⟨rfl, rfl⟩
    · obtain ⟨hlt, hnone⟩ := hinv.ended y r hr x hx
      obtain ⟨hy, _⟩ := List.getElem?_eq_some_iff.mp hr
      have hne : x ≠ n.requests.length := by omega
      exact ⟨hlt, by simp only [PinnedNode.accept, Function.update_apply, if_neg hne, hnone]⟩
    · obtain ⟨hlt, hnone⟩ := mem_ended.mp hx
      have hne : x ≠ n.requests.length := by omega
      exact ⟨hlt, by simp only [PinnedNode.accept, Function.update_apply, if_neg hne, hnone]⟩
  · intro y r hr x hx
    rcases accept_request hr with hr | ⟨rfl, rfl⟩
    · exact hinv.earlier y r hr x hx
    · exact hx
  · intro y hy
    have := hinv.acked y hy
    simp only [PinnedNode.accept, List.length_append, List.length_singleton]
    omega
  · exact hinv.content.accept hinv.acked hfresh hwrites hover hreads
  · intro answer hanswer
    have := hinv.answered answer hanswer
    simp only [PinnedNode.accept, List.length_append, List.length_singleton]
    omega
  · intro answer hanswer r hr
    have hlt := hinv.answered answer hanswer
    rcases accept_request hr with hr | ⟨hj, _⟩
    · refine (hinv.answers answer hanswer r hr).accept rfl fun y hy => ?_
      exact hinv.acked y (hinv.earlier _ r hr y hy)
    · omega

end

open FileSystem

variable {cfg : NodeConfig} {name : String} {n m : PinnedNode} {e : PinnedEvent}

/-- The start of a process removes temporary files only. -/
theorem lookup_foldl_remove {paths : List DiskPath} {p : DiskPath} (d : ShardDisk)
    (hp : p ∉ paths) : (paths.foldl Disk.remove d).names.lookup p = d.names.lookup p ∧
      (paths.foldl Disk.remove d).inodes = d.inodes := by
  induction paths generalizing d with
  | nil => exact ⟨rfl, rfl⟩
  | cons q paths ih =>
    rw [List.foldl_cons]
    obtain ⟨hlookup, hinodes⟩ := ih (d.remove q) fun hmem => hp (List.mem_cons_of_mem _ hmem)
    have hne : p ≠ q := fun heq => hp (heq ▸ List.mem_cons_self)
    refine ⟨?_, hinodes⟩
    rw [hlookup, Disk.remove, AList.lookup_erase_ne hne]

theorem pinned_not_stale (d : ShardDisk) (now maxAge : Nat) :
    staleTemp d now maxAge (pinnedPath cfg.blake3 name) = false := by
  have hext : ¬ tmpExtension <:+ (pinnedPath cfg.blake3 name).name := by
    intro hsuffix
    have hdot : '.' ∈ tmpExtension := by decide
    exact dot_notMem_toHex _ (hsuffix.subset hdot)
  unfold staleTemp
  split
  · simp [hext]
  · rfl

theorem cleanup_pinned (d : ShardDisk) (now maxAge : Nat) (removable : DiskPath → Bool) :
    (cleanupStaleTempFiles d now maxAge removable).1.names.lookup (pinnedPath cfg.blake3 name) =
        d.names.lookup (pinnedPath cfg.blake3 name) ∧
      (cleanupStaleTempFiles d now maxAge removable).1.inodes = d.inodes := by
  apply lookup_foldl_remove
  intro hmem
  have hstale := (List.mem_filter.mp hmem).2
  rw [pinned_not_stale] at hstale
  simp at hstale

/-- A crash while nothing is half written. -/
theorem pinnedInv_restart (hinv : PinnedInv cfg name n) (hnone : n.NoneOverwriting) (now : Nat)
    (removable : DiskPath → Bool) :
    PinnedInv cfg name { n with
      disk := (cleanupStaleTempFiles n.disk now staleAge removable).1
      running := fun _ => none } := by
  have hclean := @cleanup_pinned cfg name n.disk now staleAge removable
  obtain ⟨hlookup, hinodes⟩ := hclean
  refine ⟨by simp, fun y r hr x hx => ⟨(hinv.ended y r hr x hx).1, rfl⟩, hinv.earlier, hinv.acked,
    ?_, hinv.answered, hinv.answers⟩
  cases hinv.content with
  | absent lookup acked => exact .absent (hlookup.trans lookup) acked
  | whole ino x data lookup writer bytes _ _ =>
    refine .whole ino x data (hlookup.trans lookup) ⟨writer.stored, writer.current, by simp⟩ ?_
      (by simp [PinnedNode.NoneOverwriting]) (by simp)
    simp only [hinodes, bytes]
  | partly ino x data offset lookup writer taskx offset_lt bytes _ _ =>
    have hover := hnone x _ taskx
    rw [overwriting_drop offset_lt] at hover
    simp at hover

theorem pinnedInv_start : PinnedInv cfg name .start where
  fits := by simp [PinnedNode.start]
  ended := by simp [PinnedNode.start]
  earlier := by simp [PinnedNode.start]
  acked := by simp [PinnedNode.start]
  content := .absent (by simp [PinnedNode.start, Disk.empty]) rfl
  answered := by simp [PinnedNode.start]
  answers := by simp [PinnedNode.start]

theorem pinnedInv_pinnedStep (hinv : PinnedInv cfg name n) (hc : Undisturbed n e)
    (h : pinnedStep cfg name n e = some m) : PinnedInv cfg name m := by
  cases e with
  | store env salt data token =>
    cases Option.some.inj h
    simp only [handleRequest]
    split
    · exact pinnedInv_accept hinv (fun r hr => ⟨rfl, hr⟩) rfl rfl rfl
    · exact hinv
  | get env salt token =>
    cases Option.some.inj h
    simp only [handleRequest]
    split
    · exact pinnedInv_accept hinv (fun _ _ => rfl) rfl rfl rfl
    · exact hinv
  | step i env input =>
    obtain ⟨task, hi, h⟩ := Option.bind_eq_some_iff.mp h
    obtain ⟨o, ho, rfl⟩ := Option.map_eq_some_iff.mp h
    exact pinnedInv_step hinv hi hc ho
  | cancel i =>
    simp only [pinnedStep] at h
    split at h
    next hsome =>
      cases Option.some.inj h
      obtain ⟨task, hi⟩ := Option.isSome_iff_exists.mp hsome
      exact pinnedInv_cancel hinv hi (hc task hi)
    next => simp at h
  | restart now removable =>
    cases Option.some.inj h
    exact pinnedInv_restart hinv (fun j t ht => hinv.without hc ht) now removable

theorem PinnedInv.safe (hinv : PinnedInv cfg name n) : PinnedSafe cfg name n where
  answers := hinv.answers
  atRest hrest := by
    cases hinv.content with
    | absent lookup acked =>
      rw [Disk.read, lookup]
      exact acked
    | whole ino x data lookup writer bytes _ _ =>
      obtain ⟨r, hr, hdata⟩ := writer.stored
      rw [Disk.read, lookup, Option.map_some, bytes]
      exact ⟨x, r, hr, hdata, writer.current⟩
    | partly ino x data offset lookup writer taskx offset_lt bytes _ _ =>
      have hstore := hrest x _ taskx
      simp [NodeTask.storesPinned] at hstore

/-- In every run in which no overwrite of the object is interrupted or overlapped, the object
is found complete and not older than the last acknowledged store. -/
theorem pinned_safe_of_undisturbed {es : List PinnedEvent}
    (hc : Runs.Meets (pinnedStep cfg name) Undisturbed .start es)
    (h : Runs.exec (pinnedStep cfg name) .start es = some n) : PinnedSafe cfg name n := by
  have hinv : PinnedInv cfg name n :=
    Runs.exec_invariant (fun _ _ _ hs hcond hstep => pinnedInv_pinnedStep hs hcond hstep)
      pinnedInv_start hc h
  exact hinv.safe

def latestToken (op : ShardOp) : ShardToken := sampleToken op (tailHash (utf8 "latest"))

def pinnedEnv : NodeEnv := { now := 0, pid := 1, seq := 0, space := .ok (2 ^ 30) }

def storeLatest (data : Bytes) : PinnedEvent :=
  .store pinnedEnv (List.Vector.replicate 16 0) data (latestToken .store)

def getLatest : PinnedEvent := .get pinnedEnv (List.Vector.replicate 16 0) (latestToken .retrieve)

def stepLatest (i : Nat) : PinnedEvent := .step i pinnedEnv (.io 0)

def crash : PinnedEvent := .restart 0 fun _ => true

/-- A store, a second one that the node crashes before it has opened the object, and a
retrieval. -/
def crashBeforeOverwrite : List PinnedEvent :=
  [storeLatest [7, 8], stepLatest 0, stepLatest 0, stepLatest 0, stepLatest 0, storeLatest [9],
    crash, getLatest, stepLatest 2, stepLatest 2, stepLatest 2, stepLatest 2, stepLatest 2]

theorem crash_before_overwrite_safe :
    ∃ n, Runs.exec (pinnedStep sampleNode "latest") .start crashBeforeOverwrite = some n ∧
      n.answers = [(2, some [7, 8])] ∧ PinnedSafe sampleNode "latest" n := by
  have hanswers : (Runs.exec (pinnedStep sampleNode "latest") .start crashBeforeOverwrite).map
      (·.answers) = some [(2, some [7, 8])] := by decide +kernel
  obtain ⟨n, hrun, hanswers⟩ := Option.map_eq_some_iff.mp hanswers
  have hmeets : Runs.Meets (pinnedStep sampleNode "latest") Undisturbed .start
      crashBeforeOverwrite := by decide +kernel
  exact ⟨n, hrun, hanswers, pinned_safe_of_undisturbed hmeets hrun⟩

/-- A crash right after the second store has emptied the object. -/
def crashDuringOverwrite : List PinnedEvent :=
  [storeLatest [7, 8], stepLatest 0, stepLatest 0, stepLatest 0, stepLatest 0, storeLatest [9],
    stepLatest 1, crash, getLatest, stepLatest 2, stepLatest 2, stepLatest 2]

/-- The acknowledged object is gone: the retrieval after the crash finds an empty one. -/
theorem crash_destroys_pinned_object :
    ¬ ∀ es n, Runs.exec (pinnedStep sampleNode "latest") .start es = some n →
      PinnedSafe sampleNode "latest" n := by
  intro h
  have hseen : (Runs.exec (pinnedStep sampleNode "latest") .start crashDuringOverwrite).map
      (fun n => (n.requests, n.answers)) =
      some ([⟨some [7, 8], [], []⟩, ⟨some [9], [0], [0]⟩, ⟨none, [0, 1], [0]⟩], [(2, some [])]) := by
    decide +kernel
  obtain ⟨n, hrun, hseen⟩ := Option.map_eq_some_iff.mp hseen
  obtain ⟨hrequests, hanswers⟩ := Prod.mk.inj hseen
  have hcomplete := (h _ n hrun).answers (2, some []) (by simp [hanswers]) ⟨none, [0, 1], [0]⟩
    (by simp [hrequests])
  obtain ⟨x, r, hr, hdata, _⟩ := hcomplete
  have hmem := List.mem_of_getElem? hr
  rw [hrequests] at hmem
  simp only [List.mem_cons, List.not_mem_nil, or_false] at hmem
  rcases hmem with rfl | rfl | rfl <;> simp at hdata

end Reminisce

import Reminisce.PinnedWrites

namespace Reminisce

section

open FileSystem

variable {cfg : NodeConfig} {name : String} {n : PinnedNode} {i : Nat} {task : NodeTask}
  {o : TaskOutcome} {env : NodeEnv}

/-- A step that leaves the disk alone. -/
theorem PinnedInv.move (hinv : PinnedInv cfg name n) (hi : n.running i = some task)
    (hnot : task.overwriting = false) (hdisk : o.disk = n.disk)
    (hack : .storePinnedResponse true ∈ o.sent → task.writesPinned = true)
    (hnext : ∀ t, o.next = some t → t.writesPinned = false ∧
      ∀ r, TaskFits cfg name n.disk r task → TaskFits cfg name n.disk r t)
    (hread : ∀ target ino chunks, o.next = some (.reading target ino chunks) →
      n.NoneOverwriting ∧ n.disk.names.lookup (pinnedPath cfg.blake3 name) = some ino ∧
        chunks.flatten <+: (n.disk.inodes ino).bytes)
    (hans : ∀ data, .pinnedObjectResponse data ∈ o.sent → ∀ r, n.requests[i]? = some r →
      n.Complete r.acked data) : PinnedInv cfg name (n.after i o) := by
  refine hinv.after hi (fun ino hino => by rwa [hdisk]) ?_ hans ?_
  · intro t ht r _ hfit
    rw [hdisk]
    exact (hnext t ht).2 r hfit
  · refine hinv.content.move hi hnot hdisk hack ?_ ?_ hread
    · intro hwrites
      obtain ⟨r, _, hfit⟩ := hinv.fits i task hi
      cases task with
      | pinnedWrite object ino offset todo => exact ⟨ino, hfit.2⟩
      | _ => simp [NodeTask.writesPinned] at hwrites
    · intro t ht
      have hwrites := (hnext t ht).1
      refine ⟨hwrites, ?_⟩
      cases t with
      | pinnedWrite => simp [NodeTask.writesPinned] at hwrites
      | _ => rfl

/-- A stream that ends without an answer of its own. -/
theorem PinnedInv.quit (hinv : PinnedInv cfg name n) (hi : n.running i = some task)
    (hnot : task.overwriting = false) {sent : List NodeReply}
    (hack : .storePinnedResponse true ∈ sent → task.writesPinned = true)
    (hans : ∀ data, .pinnedObjectResponse data ∈ sent → ∀ r, n.requests[i]? = some r →
      n.Complete r.acked data) :
    PinnedInv cfg name (n.after i (finish env n.disk sent)) :=
  hinv.move hi hnot rfl hack (fun t ht => by simp [finish] at ht)
    (fun target ino chunks ht => by simp [finish] at ht) hans

/-- The reader of a whole object reads that object. -/
theorem complete_of_read (hinv : PinnedInv cfg name n) {data : Bytes} {ino : Nat}
    (hnone : n.NoneOverwriting)
    (hino : n.disk.names.lookup (pinnedPath cfg.blake3 name) = some ino)
    (hbytes : (n.disk.inodes ino).bytes = data) {r : PinnedRequest} (hr : n.requests[i]? = some r) :
    n.Complete r.acked (some data) := by
  cases hinv.content with
  | absent lookup _ => simp [lookup] at hino
  | whole ino' x written lookup writer bytes _ _ =>
    cases Option.some.inj (lookup.symm.trans hino)
    rw [hbytes] at bytes
    subst bytes
    obtain ⟨rx, hrx, hdata⟩ := writer.stored
    exact ⟨x, rx, hrx, hdata, fun hsup =>
      writer.current (hsup.mono fun y hy => hinv.earlier i r hr y hy)⟩
  | partly ino' x written offset lookup writer taskx offset_lt bytes _ _ =>
    have hover := hnone x _ taskx
    rw [overwriting_drop offset_lt] at hover
    simp at hover

/-- While a stream reads, nobody overwrites the object. -/
theorem PinnedInv.reader_alone (hinv : PinnedInv cfg name n) {target : ReadTarget} {ino : Nat}
    {chunks : List Bytes} (hi : n.running i = some (.reading target ino chunks)) :
    n.NoneOverwriting ∧ n.disk.names.lookup (pinnedPath cfg.blake3 name) = some ino ∧
      chunks.flatten <+: (n.disk.inodes ino).bytes := by
  obtain ⟨r, hr, _, hino⟩ := hinv.fits i _ hi
  cases hinv.content with
  | absent lookup _ => simp [lookup] at hino
  | whole ino' x written lookup writer bytes none readers =>
    cases Option.some.inj (lookup.symm.trans hino)
    refine ⟨none, hino, ?_⟩
    rw [bytes]
    exact readers i target ino chunks hi
  | partly ino' x written offset lookup writer taskx offset_lt bytes others readers =>
    have := readers i _ hi
    simp [NodeTask.isReading] at this

theorem pinnedInv_readCheck (hinv : PinnedInv cfg name n) {target : ReadTarget}
    (hi : n.running i = some (.readCheck target)) {input : TaskInput}
    (h : taskStep cfg env n.disk (.readCheck target) input = some o) :
    PinnedInv cfg name (n.after i o) := by
  obtain ⟨r, hr, rfl⟩ := hinv.fits i _ hi
  cases input with
  | io m =>
    simp only [taskStep, readTaskStep, ReadTarget.path] at h
    cases hlookup : n.disk.names.lookup (pinnedPath cfg.blake3 name) with
    | none =>
      simp only [hlookup] at h
      cases Option.some.inj h
      refine hinv.move hi rfl rfl (fun hsent => by simp [finish, ReadTarget.missing] at hsent)
        (fun t ht => by simp [finish] at ht) (fun _ _ _ ht => by simp [finish] at ht) ?_
      intro data hdata r' hr'
      have hnone : data = none := by simpa [finish, ReadTarget.missing] using hdata
      subst hnone
      cases hinv.content with
      | absent _ acked =>
        refine List.eq_nil_iff_forall_not_mem.mpr fun y hy => ?_
        have := hinv.earlier i r' hr' y hy
        simp [acked] at this
      | whole ino x written lookup => simp [lookup] at hlookup
      | partly ino x written offset lookup => simp [lookup] at hlookup
    | some ino =>
      simp only [hlookup] at h
      cases Option.some.inj h
      refine hinv.move hi rfl rfl (fun hsent => by simp [goOn] at hsent) ?_ ?_ ?_
      · intro t ht
        cases Option.some.inj ht
        exact ⟨rfl, fun _ hfit => hfit⟩
      · intro _ _ _ ht
        simp [goOn] at ht
      · intro _ hsent
        simp [goOn] at hsent
  | frame frame => simp [taskStep, readTaskStep] at h
  | fail => simp [taskStep, readTaskStep] at h

theorem pinnedInv_readOpen (hinv : PinnedInv cfg name n) {target : ReadTarget} {total : Nat}
    (hi : n.running i = some (.readOpen target total)) {input : TaskInput}
    (hc : Undisturbed n (.step i env input))
    (h : taskStep cfg env n.disk (.readOpen target total) input = some o) :
    PinnedInv cfg name (n.after i o) := by
  obtain ⟨r, hr, rfl⟩ := hinv.fits i _ hi
  cases input with
  | io m =>
    simp only [taskStep, readTaskStep, ReadTarget.path] at h
    cases hlookup : n.disk.names.lookup (pinnedPath cfg.blake3 name) with
    | none =>
      simp only [hlookup] at h
      cases Option.some.inj h
      exact hinv.quit hi rfl (by simp) (by simp)
    | some ino =>
      simp only [hlookup] at h
      cases Option.some.inj h
      refine hinv.move hi rfl rfl (fun hsent => by simp at hsent) ?_ ?_ ?_
      · intro t ht
        cases Option.some.inj ht
        exact ⟨rfl, fun _ _ => ⟨rfl, hlookup⟩⟩
      · intro _ _ _ ht
        cases Option.some.inj ht
        exact ⟨fun j t ht => hinv.without ((hc _ hi).2 rfl) ht, hlookup, by simp⟩
      · intro _ hsent
        simp at hsent
  | frame frame => simp [taskStep, readTaskStep] at h
  | fail =>
    cases Option.some.inj h
    exact hinv.quit hi rfl (by simp) (by simp)

theorem pinnedInv_reading (hinv : PinnedInv cfg name n) {target : ReadTarget} {ino : Nat}
    {chunks : List Bytes} (hi : n.running i = some (.reading target ino chunks))
    {input : TaskInput} (h : taskStep cfg env n.disk (.reading target ino chunks) input = some o) :
    PinnedInv cfg name (n.after i o) := by
  obtain ⟨hnone, hino, hchunks⟩ := hinv.reader_alone hi
  obtain ⟨rest, hrest⟩ := hchunks
  have hdrop : (n.disk.inodes ino).bytes.drop chunks.flatten.length = rest := by
    rw [← hrest, List.drop_left]
  obtain ⟨r, hr, rfl, _⟩ := hinv.fits i _ hi
  cases input with
  | io m =>
    simp only [taskStep, readTaskStep, hdrop] at h
    cases rest with
    | nil =>
      cases Option.some.inj h
      refine hinv.quit hi rfl (by simp [ReadTarget.answer]) ?_
      intro data hsent r' hr'
      have hdata : data = some chunks.flatten := by simpa [ReadTarget.answer] using hsent
      subst hdata
      rw [List.append_nil] at hrest
      exact complete_of_read hinv hnone hino hrest.symm hr'
    | cons b rest =>
      cases Option.some.inj h
      refine hinv.move hi rfl rfl (fun hsent => by simp [goOn] at hsent) ?_ ?_ ?_
      · intro t ht
        cases Option.some.inj ht
        exact ⟨rfl, fun _ hfit => hfit⟩
      · intro _ _ _ ht
        cases Option.some.inj ht
        refine ⟨hnone, hino, ?_⟩
        rw [List.flatten_concat, ← hrest]
        exact (List.prefix_append_right_inj _).mpr (List.take_prefix _ _)
      · intro _ hsent
        simp [goOn] at hsent
  | frame frame => simp [taskStep, readTaskStep] at h
  | fail =>
    cases Option.some.inj h
    exact hinv.quit hi rfl (by simp) (by simp)

end

open FileSystem

variable {cfg : NodeConfig} {name : String} {n : PinnedNode} {i : Nat} {task : NodeTask}
  {o : TaskOutcome} {env : NodeEnv}

/-- A stream that is still running is in no list of requests that were over. -/
theorem PinnedInv.running_not_over (hinv : PinnedInv cfg name n) (hi : n.running i = some task)
    {y : Nat} {r : PinnedRequest} (hr : n.requests[y]? = some r) : i ∉ r.ended := by
  intro hover
  have hnone := (hinv.ended y r hr i hover).2
  rw [hi] at hnone
  simp at hnone

/-- The store that empties the object is the last one to do so. -/
theorem lastWriter_create (hinv : PinnedInv cfg name n) {object : String} {data : Bytes}
    (hi : n.running i = some (.pinnedCreate object data)) :
    LastWriter (n.after i o) i data where
  stored := by
    obtain ⟨r, hr, _, hdata⟩ := hinv.fits i _ hi
    exact ⟨r, hr, hdata⟩
  current := by
    rintro ⟨y, _, r, hr, hover⟩
    exact hinv.running_not_over hi hr hover
  later _ _ r _ _ hr := hinv.running_not_over hi hr

theorem pinnedInv_create (hinv : PinnedInv cfg name n) {object : String} {data : Bytes}
    (hi : n.running i = some (.pinnedCreate object data)) (hnone : n.NoneOverwriting)
    (hreaders : ∀ j task, n.running j = some task → task.isReading = false) :
    PinnedInv cfg name (n.after i (goOn env (n.disk.create (pinnedPath cfg.blake3 name) env.now).1
      (.pinnedWrite name (n.disk.create (pinnedPath cfg.blake3 name) env.now).2 0 data))) := by
  have hlookup : (n.disk.create (pinnedPath cfg.blake3 name) env.now).1.names.lookup
      (pinnedPath cfg.blake3 name) =
      some (n.disk.create (pinnedPath cfg.blake3 name) env.now).2 :=
    Disk.lookup_openAppend _ _ _
  have hbytes : ((n.disk.create (pinnedPath cfg.blake3 name) env.now).1.inodes
      (n.disk.create (pinnedPath cfg.blake3 name) env.now).2).bytes = [] := by
    simp [Disk.create, Disk.put]
  have hwriter := lastWriter_create (o := goOn env
    (n.disk.create (pinnedPath cfg.blake3 name) env.now).1 (.pinnedWrite name
      (n.disk.create (pinnedPath cfg.blake3 name) env.now).2 0 data)) hinv hi
  refine hinv.after hi (fun ino hino => lookup_create_of_some hino) ?_
    (fun _ hsent => by simp [goOn] at hsent) ?_
  · intro t ht r _ _
    cases Option.some.inj ht
    exact ⟨rfl, hlookup⟩
  · cases data with
    | nil =>
      refine .whole _ i [] hlookup hwriter hbytes ?_ ?_
      · intro j t ht
        rcases after_running ht with ⟨_, ht⟩ | ⟨_, ht⟩
        · cases Option.some.inj ht
          rfl
        · exact hnone j t ht
      · intro j target ino chunks ht
        rcases after_running ht with ⟨_, ht⟩ | ⟨_, ht⟩
        · simp [goOn] at ht
        · have := hreaders j _ ht
          simp [NodeTask.isReading] at this
    | cons b rest =>
      refine .partly _ i (b :: rest) 0 hlookup hwriter ?_ (by simp) hbytes ?_ ?_
      · simp [PinnedNode.after, goOn]
      · intro j t ht hj
        rcases after_running ht with ⟨hji, _⟩ | ⟨_, ht⟩
        · exact absurd hji hj
        · exact hnone j t ht
      · intro j t ht
        rcases after_running ht with ⟨_, ht⟩ | ⟨_, ht⟩
        · cases Option.some.inj ht
          rfl
        · exact hreaders j t ht

/-- One piece of the object goes to the end of what is written. -/
theorem writeAt_piece (d : ShardDisk) {ino offset now : Nat} {data : Bytes} (m : Nat)
    (hbytes : (d.inodes ino).bytes = data.take offset) (hlt : offset < data.length) :
    ((d.writeAt 0 ino offset ((data.drop offset).take m) now).inodes ino).bytes =
      data.take (offset + ((data.drop offset).take m).length) := by
  have hlen : (d.inodes ino).bytes.length = offset := by
    rw [hbytes, List.length_take]
    omega
  rw [Disk.bytes_writeAt_end hlen, hbytes, List.take_add]
  congr 1
  rw [List.length_take, List.take_eq_take_iff]
  simp

theorem drop_piece (data : Bytes) (offset m : Nat) :
    (data.drop offset).drop m = data.drop (offset + ((data.drop offset).take m).length) := by
  rw [List.drop_drop, List.length_take, List.length_drop]
  by_cases hle : m ≤ data.length - offset
  · rw [Nat.min_eq_left hle]
  · rw [List.drop_eq_nil_of_le (by omega), List.drop_eq_nil_of_le (by omega)]

/-- A stream in the middle of an overwrite is the one that wrote what there is. -/
theorem PinnedInv.overwriter (hinv : PinnedInv cfg name n) {object : String} {ino offset : Nat}
    {todo : Bytes} (hi : n.running i = some (.pinnedWrite object ino offset todo))
    (htodo : todo ≠ []) :
    ∃ written, object = name ∧ todo = written.drop offset ∧ offset < written.length ∧
      LastWriter n i written ∧ (n.disk.inodes ino).bytes = written.take offset ∧
      (∀ j task, n.running j = some task → j ≠ i → task.overwriting = false) ∧
      ∀ j task, n.running j = some task → task.isReading = false := by
  have hover : (NodeTask.pinnedWrite object ino offset todo).overwriting = true := by
    cases todo with
    | nil => exact absurd rfl htodo
    | cons b rest => rfl
  obtain ⟨r, hr, hobject, hino⟩ := hinv.fits i _ hi
  cases hinv.content with
  | absent lookup _ => simp [lookup] at hino
  | whole ino' x written lookup writer bytes none _ =>
    have hfalse := none i _ hi
    rw [hover] at hfalse
    simp at hfalse
  | partly ino' x written offset' lookup writer taskx offset_lt bytes others readers =>
    have hx : x = i := by
      by_contra hne
      have hfalse := others i _ hi fun heq => hne heq.symm
      rw [hover] at hfalse
      simp at hfalse
    subst hx
    cases Option.some.inj (hi.symm.trans taskx)
    exact ⟨written, rfl, rfl, offset_lt, writer, bytes, others, readers⟩

theorem pinnedInv_write (hinv : PinnedInv cfg name n) {object : String} {ino offset m : Nat}
    {todo : Bytes} (hi : n.running i = some (.pinnedWrite object ino offset todo))
    (htodo : todo ≠ []) :
    PinnedInv cfg name (n.after i (goOn env (n.disk.writeAt 0 ino offset (todo.take m) env.now)
      (.pinnedWrite object ino (offset + (todo.take m).length) (todo.drop m)))) := by
  obtain ⟨r, hr, _, hino⟩ := hinv.fits i _ hi
  obtain ⟨written, rfl, rfl, offset_lt, writer, bytes, others, readers⟩ :=
    hinv.overwriter hi htodo
  refine hinv.after hi (fun _ hlookup => hlookup) ?_ (fun _ hsent => by simp [goOn] at hsent) ?_
  · intro t ht r _ hfit
    cases Option.some.inj ht
    exact hfit
  · let piece := (written.drop offset).take m
    have hbytes : ((n.disk.writeAt 0 ino offset piece env.now).inodes ino).bytes =
        written.take (offset + piece.length) := writeAt_piece n.disk m bytes offset_lt
    rw [drop_piece written offset m]
    have hwriter : LastWriter (n.after i (goOn env (n.disk.writeAt 0 ino offset piece env.now)
        (.pinnedWrite object ino (offset + piece.length)
          (written.drop (offset + piece.length))))) i written := by
      refine ⟨writer.stored, ?_, ?_⟩
      · rintro ⟨y, _, r', hr', hx⟩
        exact hinv.running_not_over hi hr' hx
      · intro y t r' _ _ hr'
        exact hinv.running_not_over hi hr'
    have hreaders : ∀ j t, (n.after i (goOn env (n.disk.writeAt 0 ino offset piece env.now)
        (.pinnedWrite object ino (offset + piece.length)
          (written.drop (offset + piece.length))))).running j = some t → t.isReading = false := by
      intro j t ht
      rcases after_running ht with ⟨_, ht⟩ | ⟨_, ht⟩
      · cases Option.some.inj ht
        rfl
      · exact readers j t ht
    by_cases hend : offset + piece.length < written.length
    · refine .partly ino i written (offset + piece.length) hino hwriter ?_ hend hbytes ?_ hreaders
      · exact Function.update_self i _ n.running
      · intro j t ht hj
        rcases after_running ht with ⟨hji, _⟩ | ⟨_, ht⟩
        · exact absurd hji hj
        · exact others j t ht hj
    · have hall : written.take (offset + piece.length) = written :=
        List.take_of_length_le (by omega)
      have hnil : written.drop (offset + piece.length) = [] := List.drop_eq_nil_of_le (by omega)
      refine .whole ino i written hino hwriter (hbytes.trans hall) ?_ ?_
      · intro j t ht
        rcases after_running ht with ⟨_, ht⟩ | ⟨hj, ht⟩
        · cases Option.some.inj ht
          rw [hnil]
          rfl
        · exact others j t ht hj
      · intro j target other chunks ht
        have hfalse := hreaders j _ ht
        simp [NodeTask.isReading] at hfalse

/-- A running stream for the object takes a step. -/
theorem pinnedInv_step (hinv : PinnedInv cfg name n) (hi : n.running i = some task)
    {input : TaskInput} (hc : Undisturbed n (.step i env input))
    (h : taskStep cfg env n.disk task input = some o) : PinnedInv cfg name (n.after i o) := by
  obtain ⟨r, hr, hfit⟩ := hinv.fits i task hi
  cases task with
  | pinnedCreate object data =>
    obtain ⟨rfl, _⟩ := hfit
    cases input with
    | io m =>
      cases Option.some.inj h
      obtain ⟨hnone, hreaders⟩ := (hc _ hi).1 rfl
      exact pinnedInv_create hinv hi (fun j t ht => hinv.without hnone ht)
        fun j t ht => hinv.without hreaders ht
    | frame frame => simp [taskStep, pinnedTaskStep] at h
    | fail =>
      cases Option.some.inj h
      exact hinv.quit hi rfl (by simp) (by simp)
  | pinnedWrite object ino offset todo =>
    cases input with
    | io m =>
      cases todo with
      | nil =>
        cases Option.some.inj h
        exact hinv.quit hi rfl (fun _ => rfl) (by simp)
      | cons b rest =>
        cases Option.some.inj h
        exact pinnedInv_write hinv hi (by simp)
    | frame frame => simp [taskStep, pinnedTaskStep] at h
    | fail =>
      cases Option.some.inj h
      exact hinv.quit hi (hc _ hi) (by simp) (by simp)
  | readCheck target => exact pinnedInv_readCheck hinv hi h
  | readOpen target total => exact pinnedInv_readOpen hinv hi hc h
  | reading target ino chunks => exact pinnedInv_reading hinv hi h
  | _ => exact absurd hfit id

theorem pinnedInv_cancel (hinv : PinnedInv cfg name n) (hi : n.running i = some task)
    (hnot : task.overwriting = false) :
    PinnedInv cfg name { n with running := Function.update n.running i none } := by
  have hquit : PinnedInv cfg name (n.after i (finish ⟨0, 0, 0, .ok 0⟩ n.disk [])) :=
    hinv.quit hi hnot (by simp) (by simp)
  simpa [PinnedNode.after, finish] using hquit

end Reminisce

import Reminisce.CoordinatorLinks
import Reminisce.Handshake

namespace Reminisce

section Step

variable {s : CoordinatorLinks} {kind other : LinkKind} {nodeId n : NodeId} {link : Link}
  {serial stableId : Nat}

theorem CoordinatorLinks.Current.accept (hs : s.Current) (hfree : s.unheld stableId) :
    ({ s with
      nextSerial := s.nextSerial + 1
      tasks := s.tasks.insert s.nextSerial ⟨stableId, .accepted⟩ } : CoordinatorLinks).Current := by
  have hold : ∀ x, x < s.nextSerial → (s.tasks.insert s.nextSerial ⟨stableId, .accepted⟩).lookup x =
      s.tasks.lookup x := fun x hx => AList.lookup_insert_ne (by omega)
  have hcases : ∀ x task, (s.tasks.insert s.nextSerial ⟨stableId, .accepted⟩).lookup x = some task →
      (x = s.nextSerial ∧ task = ⟨stableId, .accepted⟩) ∨ s.tasks.lookup x = some task := by
    intro x task h
    by_cases hx : x = s.nextSerial
    · subst hx
      rw [AList.lookup_insert] at h
      exact Or.inl ⟨rfl, (Option.some.inj h).symm⟩
    · rw [AList.lookup_insert_ne hx] at h
      exact Or.inr h
  refine ⟨?_, ?_, ?_, ?_, ?_⟩
  · intro kind nodeId link
    refine (hs.entry kind nodeId link).trans (and_congr_right fun hlast => ?_)
    have hlt := (hs.waiting kind nodeId link hlast).1
    rw [hold _ hlt]
  · intro kind nodeId link hlast
    obtain ⟨hlt, hwait⟩ := hs.waiting kind nodeId link hlast
    refine ⟨by simp only; omega, fun hnot => ?_⟩
    rw [hold _ hlt]
    exact hwait hnot
  · intro x hx
    obtain ⟨hlt, hclosed, hnone⟩ := hs.gone x hx
    exact ⟨by simp only; omega, hclosed, by rw [hold _ hlt]; exact hnone⟩
  · intro x task h
    rcases hcases x task h with ⟨rfl, _⟩ | hold'
    · simp only
      omega
    · have := hs.fresh x task hold'
      simp only
      omega
  · intro a b ta tb ha hb heq
    rcases hcases a ta ha with ⟨rfl, rfl⟩ | ha' <;> rcases hcases b tb hb with ⟨rfl, rfl⟩ | hb'
    · rfl
    · exact absurd heq.symm (unheld_task hfree hb')
    · exact absurd heq (unheld_task hfree ha')
    · exact hs.stable a b ta tb ha' hb' heq

theorem lookup_of_erase {x : Nat} {task : LinkTask} (h : (s.tasks.erase serial).lookup x = some task) :
    x ≠ serial ∧ s.tasks.lookup x = some task := by
  by_cases hx : x = serial
  · subst hx
    simp at h
  · exact ⟨hx, by rwa [AList.lookup_erase_ne hx] at h⟩

/-- A task that never registered ends. -/
theorem CoordinatorLinks.Current.drop (hs : s.Current)
    (htask : s.tasks.lookup serial = some ⟨stableId, .accepted⟩) :
    ({ s with tasks := s.tasks.erase serial } : CoordinatorLinks).Current := by
  have hkeep : ∀ x kind nodeId id, s.tasks.lookup x = some ⟨id, .registered kind nodeId⟩ ↔
      (s.tasks.erase serial).lookup x = some ⟨id, .registered kind nodeId⟩ := by
    intro x kind nodeId id
    by_cases hx : x = serial
    · subst hx
      simp [htask]
    · rw [AList.lookup_erase_ne hx]
  refine ⟨?_, ?_, ?_, ?_, ?_⟩
  · intro kind nodeId link
    exact (hs.entry kind nodeId link).trans (and_congr_right fun _ => hkeep _ _ _ _)
  · intro kind nodeId link hlast
    obtain ⟨hlt, hwait⟩ := hs.waiting kind nodeId link hlast
    exact ⟨hlt, fun hnot => (hkeep _ _ _ _).mp (hwait hnot)⟩
  · intro x hx
    obtain ⟨hlt, hclosed, hnone⟩ := hs.gone x hx
    refine ⟨hlt, hclosed, ?_⟩
    cases hlook : (s.tasks.erase serial).lookup x with
    | none => rfl
    | some task =>
      rw [(lookup_of_erase hlook).2] at hnone
      simp at hnone
  · exact fun x task h => hs.fresh x task (lookup_of_erase h).2
  · exact fun a b ta tb ha hb =>
      hs.stable a b ta tb (lookup_of_erase ha).2 (lookup_of_erase hb).2

theorem CoordinatorLinks.Current.close (hs : s.Current) (serial : Nat) :
    ({ s with closed := s.closed ++ [serial] } : CoordinatorLinks).Current := by
  refine ⟨hs.entry, hs.waiting, fun x hx => ?_, hs.fresh, hs.stable⟩
  obtain ⟨hlt, hclosed, hnone⟩ := hs.gone x hx
  exact ⟨hlt, List.mem_append_left _ hclosed, hnone⟩

/-- The state after a registration that was accepted. -/
def CoordinatorLinks.registered (s : CoordinatorLinks) (kind : LinkKind) (nodeId : NodeId)
    (link : Link) : CoordinatorLinks :=
  { s.setLinks kind ((s.links kind).insert nodeId link) with
    tasks := s.tasks.insert link.serial ⟨link.stableId, .registered kind nodeId⟩
    registrations := s.registrations ++ [⟨kind, nodeId, link⟩] }

theorem registered_links_self : (s.registered kind nodeId link).links kind =
    (s.links kind).insert nodeId link := by
  cases kind <;> rfl

theorem registered_links_ne (h : other ≠ kind) :
    (s.registered kind nodeId link).links other = s.links other := by
  cases kind <;> cases other <;> first | rfl | exact absurd rfl h

theorem registered_lookup : ((s.registered kind nodeId link).links other).lookup n =
    if other = kind ∧ n = nodeId then some link else (s.links other).lookup n := by
  by_cases hk : other = kind
  · subst hk
    rw [registered_links_self]
    by_cases hn : n = nodeId
    · subst hn
      simp [AList.lookup_insert]
    · rw [AList.lookup_insert_ne hn]
      simp [hn]
  · rw [registered_links_ne hk]
    simp [hk]

theorem registered_last : (s.registered kind nodeId link).lastRegistered other n =
    if other = kind ∧ n = nodeId then some link else s.lastRegistered other n := by
  have hregs : (s.registered kind nodeId link).registrations =
      s.registrations ++ [⟨kind, nodeId, link⟩] := by cases kind <;> rfl
  unfold CoordinatorLinks.lastRegistered
  rw [hregs]
  by_cases h : other = kind ∧ n = nodeId
  · obtain ⟨rfl, rfl⟩ := h
    rw [if_pos ⟨rfl, rfl⟩]
    exact lastRegistered_append_self ⟨other, n, link⟩ s.registrations
  · rw [if_neg h, lastRegistered_append_ne]
    rintro ⟨hk, hn⟩
    exact h ⟨hk.symm, hn.symm⟩

@[simp] theorem registered_tasks : (s.registered kind nodeId link).tasks =
    s.tasks.insert link.serial ⟨link.stableId, .registered kind nodeId⟩ := by
  cases kind <;> rfl

@[simp] theorem registered_cleaned : (s.registered kind nodeId link).cleaned = s.cleaned := by
  cases kind <;> rfl

@[simp] theorem registered_closed : (s.registered kind nodeId link).closed = s.closed := by
  cases kind <;> rfl

@[simp] theorem registered_nextSerial :
    (s.registered kind nodeId link).nextSerial = s.nextSerial := by
  cases kind <;> rfl

/-- The task of the connection holds the registration in one map under one node id. -/
theorem registered_task_other {x id : Nat}
    (htask : s.tasks.lookup link.serial = some ⟨link.stableId, .accepted⟩)
    (hkn : ¬ (other = kind ∧ n = nodeId)) :
    (s.registered kind nodeId link).tasks.lookup x = some ⟨id, .registered other n⟩ ↔
      s.tasks.lookup x = some ⟨id, .registered other n⟩ := by
  rw [registered_tasks]
  by_cases hx : x = link.serial
  · rw [hx, AList.lookup_insert, htask]
    constructor
    · intro h
      simp only [Option.some.injEq, LinkTask.mk.injEq, LinkPhase.registered.injEq] at h
      exact absurd ⟨h.2.1.symm, h.2.2.symm⟩ hkn
    · intro h
      simp at h
  · rw [AList.lookup_insert_ne hx]

/-- Registering keeps the `stable_id` of every task. -/
theorem registered_task_old {x : Nat} {task : LinkTask}
    (htask : s.tasks.lookup link.serial = some ⟨link.stableId, .accepted⟩)
    (h : (s.registered kind nodeId link).tasks.lookup x = some task) :
    ∃ old, s.tasks.lookup x = some old ∧ old.stableId = task.stableId := by
  rw [registered_tasks] at h
  by_cases hx : x = link.serial
  · rw [hx, AList.lookup_insert] at h
    cases Option.some.inj h
    rw [hx]
    exact ⟨_, htask, rfl⟩
  · rw [AList.lookup_insert_ne hx] at h
    exact ⟨task, h, rfl⟩

/-- A connection with a task has not been cleaned up. -/
theorem CoordinatorLinks.Current.ne_of_cleaned {x : Nat} {task : LinkTask} (hs : s.Current)
    (htask : s.tasks.lookup serial = some task) (hx : x ∈ s.cleaned) : x ≠ serial := by
  rintro rfl
  have hnone := (hs.gone x hx).2.2
  rw [htask] at hnone
  simp at hnone

theorem CoordinatorLinks.Current.register (hs : s.Current)
    (htask : s.tasks.lookup link.serial = some ⟨link.stableId, .accepted⟩) :
    (s.registered kind nodeId link).Current := by
  have hself : (s.registered kind nodeId link).tasks.lookup link.serial =
      some ⟨link.stableId, .registered kind nodeId⟩ := by
    rw [registered_tasks, AList.lookup_insert]
  refine ⟨?_, ?_, ?_, ?_, ?_⟩
  · intro k m l
    rw [registered_lookup, registered_last]
    by_cases hkm : k = kind ∧ m = nodeId
    · obtain ⟨rfl, rfl⟩ := hkm
      simp only [and_self, if_true]
      constructor
      · intro h
        cases Option.some.inj h
        exact ⟨rfl, hself⟩
      · exact fun h => h.1
    · rw [if_neg hkm, if_neg hkm, registered_task_other htask hkm]
      exact hs.entry k m l
  · intro k m l
    rw [registered_last, registered_cleaned, registered_nextSerial]
    by_cases hkm : k = kind ∧ m = nodeId
    · obtain ⟨rfl, rfl⟩ := hkm
      simp only [and_self, if_true]
      intro h
      cases Option.some.inj h
      exact ⟨hs.fresh _ _ htask, fun _ => hself⟩
    · rw [if_neg hkm, registered_task_other htask hkm]
      exact hs.waiting k m l
  · intro x hx
    rw [registered_cleaned] at hx
    obtain ⟨hlt, hc, hnone⟩ := hs.gone x hx
    rw [registered_nextSerial, registered_closed, registered_tasks,
      AList.lookup_insert_ne (hs.ne_of_cleaned htask hx)]
    exact ⟨hlt, hc, hnone⟩
  · intro x task h
    obtain ⟨old, hold, _⟩ := registered_task_old htask h
    rw [registered_nextSerial]
    exact hs.fresh x old hold
  · intro a b ta tb ha hb heq
    obtain ⟨oa, hoa, hia⟩ := registered_task_old htask ha
    obtain ⟨ob, hob, hib⟩ := registered_task_old htask hb
    exact hs.stable a b oa ob hoa hob (by rw [hia, hib, heq])

/-- The state after the cleanup of a closed connection. -/
def CoordinatorLinks.afterCleanup (s : CoordinatorLinks) (kind : LinkKind) (nodeId : NodeId)
    (link : Link) : CoordinatorLinks :=
  { s.setLinks kind (removeOwn (s.links kind) nodeId link.stableId) with
    tasks := s.tasks.erase link.serial
    cleaned := s.cleaned ++ [link.serial] }

theorem afterCleanup_lookup : ((s.afterCleanup kind nodeId link).links other).lookup n =
    if other = kind ∧ n = nodeId ∧
        ((s.links kind).lookup nodeId).any (·.stableId = link.stableId) then none
    else (s.links other).lookup n := by
  by_cases hk : other = kind
  · subst hk
    have hmap : (s.afterCleanup other nodeId link).links other =
        removeOwn (s.links other) nodeId link.stableId := by cases other <;> rfl
    rw [hmap, removeOwn]
    cases hentry : (s.links other).lookup nodeId with
    | none => simp
    | some entry =>
      by_cases hid : entry.stableId = link.stableId
      · by_cases hn : n = nodeId
        · subst hn
          simp [hid, AList.lookup_erase]
        · simp [hid, hn]
      · simp [hid]
  · have hmap : (s.afterCleanup kind nodeId link).links other = s.links other := by
      cases kind <;> cases other <;> first | rfl | exact absurd rfl hk
    rw [hmap]
    simp [hk]

/-- The entry that a cleanup removes is the one of its own connection. -/
theorem CoordinatorLinks.Current.own_entry (hs : s.Current)
    (htask : s.tasks.lookup link.serial = some ⟨link.stableId, .registered kind nodeId⟩)
    {found : Link} (hfound : (s.links kind).lookup nodeId = some found) :
    found.stableId = link.stableId ↔ found.serial = link.serial := by
  obtain ⟨_, hlook⟩ := (hs.entry kind nodeId found).mp hfound
  constructor
  · exact hs.stable _ _ _ _ hlook htask
  · intro h
    rw [h, htask] at hlook
    simp only [Option.some.injEq, LinkTask.mk.injEq] at hlook
    exact hlook.1.symm

@[simp] theorem afterCleanup_tasks :
    (s.afterCleanup kind nodeId link).tasks = s.tasks.erase link.serial := by
  cases kind <;> rfl

@[simp] theorem afterCleanup_cleaned :
    (s.afterCleanup kind nodeId link).cleaned = s.cleaned ++ [link.serial] := by
  cases kind <;> rfl

@[simp] theorem afterCleanup_closed : (s.afterCleanup kind nodeId link).closed = s.closed := by
  cases kind <;> rfl

@[simp] theorem afterCleanup_nextSerial :
    (s.afterCleanup kind nodeId link).nextSerial = s.nextSerial := by
  cases kind <;> rfl

@[simp] theorem afterCleanup_last :
    (s.afterCleanup kind nodeId link).lastRegistered other n = s.lastRegistered other n := by
  cases kind <;> rfl

/-- The entries after a cleanup are the last registrations of the tasks that are left. -/
theorem CoordinatorLinks.Current.cleanup_entry (hs : s.Current)
    (htask : s.tasks.lookup link.serial = some ⟨link.stableId, .registered kind nodeId⟩)
    (l : Link) :
    ((s.afterCleanup kind nodeId link).links other).lookup n = some l ↔
      s.lastRegistered other n = some l ∧
        (s.tasks.erase link.serial).lookup l.serial = some ⟨l.stableId, .registered other n⟩ := by
  rw [afterCleanup_lookup]
  by_cases hserial : l.serial = link.serial
  · have hright : ¬ (s.lastRegistered other n = some l ∧ (s.tasks.erase link.serial).lookup
        l.serial = some ⟨l.stableId, .registered other n⟩) := by
      rw [hserial, AList.lookup_erase]
      simp
    refine iff_of_false ?_ hright
    intro hleft
    split at hleft
    next => simp at hleft
    next hnot =>
      obtain ⟨_, hlook⟩ := (hs.entry other n l).mp hleft
      rw [hserial, htask] at hlook
      simp only [Option.some.injEq, LinkTask.mk.injEq, LinkPhase.registered.injEq] at hlook
      obtain ⟨hid, rfl, rfl⟩ := hlook
      exact hnot ⟨rfl, rfl, by simp [hleft, hid]⟩
  · rw [AList.lookup_erase_ne hserial, ← hs.entry other n l]
    split
    next hgone =>
      obtain ⟨rfl, rfl, hany⟩ := hgone
      obtain ⟨found, hfound, hid⟩ := (Option.any_eq_true _ _).mp hany
      have hown := (hs.own_entry htask hfound).mp (by simpa using hid)
      refine iff_of_false (by simp) fun hl => ?_
      cases Option.some.inj (hfound.symm.trans hl)
      exact hserial hown
    next => exact Iff.rfl

theorem CoordinatorLinks.Current.cleanup (hs : s.Current) (hclosed : link.serial ∈ s.closed)
    (htask : s.tasks.lookup link.serial = some ⟨link.stableId, .registered kind nodeId⟩) :
    (s.afterCleanup kind nodeId link).Current := by
  refine ⟨?_, ?_, ?_, ?_, ?_⟩
  · intro k m l
    rw [afterCleanup_last, afterCleanup_tasks]
    exact hs.cleanup_entry htask l
  · intro k m l hl
    rw [afterCleanup_last] at hl
    obtain ⟨hlt, hwait⟩ := hs.waiting k m l hl
    rw [afterCleanup_nextSerial, afterCleanup_cleaned, afterCleanup_tasks]
    refine ⟨hlt, fun hnot => ?_⟩
    simp only [List.mem_append, List.mem_singleton, not_or] at hnot
    rw [AList.lookup_erase_ne hnot.2]
    exact hwait hnot.1
  · intro x hx
    rw [afterCleanup_cleaned] at hx
    rw [afterCleanup_nextSerial, afterCleanup_closed, afterCleanup_tasks]
    rcases List.mem_append.mp hx with hold | hnew
    · obtain ⟨hlt, hc, hnone⟩ := hs.gone x hold
      rw [AList.lookup_erase_ne (hs.ne_of_cleaned htask hold)]
      exact ⟨hlt, hc, hnone⟩
    · rw [List.mem_singleton.mp hnew, AList.lookup_erase]
      exact ⟨hs.fresh _ _ htask, hclosed, rfl⟩
  · intro x task h
    rw [afterCleanup_tasks] at h
    rw [afterCleanup_nextSerial]
    exact hs.fresh x task (lookup_of_erase h).2
  · intro a b ta tb ha hb
    rw [afterCleanup_tasks] at ha hb
    exact hs.stable a b ta tb (lookup_of_erase ha).2 (lookup_of_erase hb).2

end Step

variable {S : SigningScheme} {policy : TunnelPolicy} {s t : CoordinatorLinks}

/-- Every event of the coordinator keeps the entries current. -/
theorem linkStep_current {e : LinkEvent} (hs : s.Current) (h : linkStep S policy s e = some t) :
    t.Current := by
  cases e with
  | accept stableId =>
    simp only [linkStep] at h
    split at h
    next hfree =>
      cases Option.some.inj h
      exact hs.accept hfree
    next => simp at h
  | register serial kind nodeId nonce signature =>
    simp only [linkStep] at h
    split at h
    next stableId htask =>
      split at h
      next =>
        cases Option.some.inj h
        exact hs.register (show s.tasks.lookup (Link.mk serial stableId).serial = _ from htask)
      next =>
        cases Option.some.inj h
        exact hs.drop htask
    next => simp at h
  | drop serial =>
    simp only [linkStep] at h
    split at h
    next stableId htask =>
      cases Option.some.inj h
      exact hs.drop htask
    next => simp at h
  | close serial =>
    cases Option.some.inj h
    exact hs.close serial
  | cleanup serial =>
    simp only [linkStep] at h
    split at h
    next stableId kind nodeId htask =>
      split at h
      next hclosed =>
        cases Option.some.inj h
        exact hs.cleanup hclosed (show s.tasks.lookup (Link.mk serial stableId).serial = _ from htask)
      next => simp at h
    next => simp at h

/-- In both maps: while the most recently registered connection of a node is open, the entry
of the node is that connection; once it has closed and its cleanup ran there is no entry, nor
is there one for a node that never registered. -/
theorem link_entries_current {events : List LinkEvent}
    (h : Runs.exec (linkStep S policy) CoordinatorLinks.init events = some s) (kind : LinkKind)
    (nodeId : NodeId) :
    (∀ link, s.lastRegistered kind nodeId = some link →
      (link.serial ∉ s.closed → (s.links kind).lookup nodeId = some link) ∧
      (link.serial ∈ s.closed → link.serial ∈ s.cleaned →
        (s.links kind).lookup nodeId = none)) ∧
    (s.lastRegistered kind nodeId = none → (s.links kind).lookup nodeId = none) := by
  have hs : s.Current :=
    Runs.exec_invariant_of_step (fun _ _ _ hs hstep => linkStep_current hs hstep) current_init h
  refine ⟨fun link hlast => ⟨fun hopen => ?_, fun _ hcleaned => ?_⟩, fun hnever => ?_⟩
  · have hnot : link.serial ∉ s.cleaned := fun hc => hopen (hs.gone _ hc).2.1
    exact (hs.entry kind nodeId link).mpr ⟨hlast, (hs.waiting kind nodeId link hlast).2 hnot⟩
  · cases hentry : (s.links kind).lookup nodeId with
    | none => rfl
    | some found =>
      obtain ⟨hfound, htask⟩ := (hs.entry kind nodeId found).mp hentry
      cases Option.some.inj (hlast.symm.trans hfound)
      rw [(hs.gone _ hcleaned).2.2] at htask
      simp at htask
  · cases hentry : (s.links kind).lookup nodeId with
    | none => rfl
    | some found =>
      obtain ⟨hfound, _⟩ := (hs.entry kind nodeId found).mp hentry
      rw [hnever] at hfound
      simp at hfound

/-- A node opens a second channel, then the first one closes and is cleaned up. -/
def reconnectRun (node : NodeId) : List LinkEvent :=
  let signature := sampleScheme.sign (List.Vector.replicate 32 0xaa) [7]
  [.accept 10, .register 0 .channel node [7] signature, .accept 11,
    .register 1 .channel node [7] signature, .close 0, .cleanup 0]

theorem reconnected_entry_kept : ∃ t,
    Runs.exec (linkStep sampleScheme ⟨none, false⟩) CoordinatorLinks.init
      (reconnectRun (String.ofList (List.replicate 64 'a'))) = some t ∧
    (t.links .channel).lookup (String.ofList (List.replicate 64 'a')) = some ⟨1, 11⟩ := by
  have hrun : ((Runs.exec (linkStep sampleScheme ⟨none, false⟩) CoordinatorLinks.init
      (reconnectRun (String.ofList (List.replicate 64 'a')))).map fun t =>
        (t.lastRegistered .channel (String.ofList (List.replicate 64 'a')), t.closed)) =
      some (some ⟨1, 11⟩, [0]) := by
    decide +kernel
  obtain ⟨t, ht, hpair⟩ := Option.map_eq_some_iff.mp hrun
  obtain ⟨hlast, hclosed⟩ := Prod.mk.inj hpair
  have hopen : 1 ∉ t.closed := by simp [hclosed]
  exact ⟨t, ht, ((link_entries_current ht .channel _).1 _ hlast).1 hopen⟩

end Reminisce

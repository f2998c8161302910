import Reminisce.StatusCache

namespace Reminisce

/-- Every answered lookup gave a status that its user had from the last change on whose invalidation
had returned when it started. -/
def RevocationImmediate (s : StatusSystem) : Prop :=
  ∀ lookup ∈ s.lookups, ∀ status, lookup.phase = .returned (.ok status) →
    some status ∈ (s.history lookup.userId).drop lookup.floor

/-- No status goes into the cache that was read before a change whose invalidation has returned. -/
def InsertsCurrent (s : StatusSystem) : StatusEvent → Prop
  | .insert i =>
    match s.lookups[i]? with
    | some lookup => s.invalidated lookup.userId ≤ lookup.version
    | none => True
  | _ => True

instance (s : StatusSystem) (e : StatusEvent) : Decidable (InsertsCurrent s e) := by
  unfold InsertsCurrent
  split
  next => split <;> infer_instance
  next => infer_instance

/-- The status is the one after the change `version`, which is not before `floor`. -/
def StatusSystem.Reflects (s : StatusSystem) (userId : UserId) (floor version : Nat)
    (status : String × Bool) : Prop :=
  floor ≤ version ∧ (s.history userId)[version]? = some (some status)

def StatusLookup.Sound (s : StatusSystem) (lookup : StatusLookup) : Prop :=
  lookup.floor ≤ s.invalidated lookup.userId ∧
    ∀ status, lookup.phase = .fetched status ∨ lookup.phase = .returned (.ok status) →
      s.Reflects lookup.userId lookup.floor lookup.version status

/-- The cache is not behind the invalidations that returned, nor are the lookups behind those
before their start. -/
structure CacheCurrent (s : StatusSystem) : Prop where
  current : ∀ userId, (s.history userId).getLast? = some (s.users userId)
  known : ∀ userId, s.invalidated userId < (s.history userId).length
  due : ∀ c ∈ s.changes, c.2 < (s.history c.1).length
  cached : ∀ userId status, s.cache.get userId = some status →
    s.Reflects userId (s.invalidated userId) (s.cachedVersion userId) (status.role, status.isActive)
  lookups : ∀ lookup ∈ s.lookups, lookup.Sound s

variable {s t : StatusSystem} {userId : UserId} {lookup : StatusLookup} {i : Nat}
  {status : String × Bool}

/-- A sound lookup that has its status gave one from its floor on. -/
theorem revocation_of_current (h : CacheCurrent s) : RevocationImmediate s := by
  intro lookup hmem status hphase
  obtain ⟨hfloor, hread⟩ := (h.lookups lookup hmem).2 status (Or.inr hphase)
  refine List.mem_of_getElem? (i := lookup.version - lookup.floor) ?_
  rw [List.getElem?_drop, Nat.add_sub_cancel' hfloor]
  exact hread

theorem StatusSystem.Reflects.mono {floor version : Nat}
    (h : s.Reflects userId floor version status) (hhistory : s.history userId <+: t.history userId) :
    t.Reflects userId floor version status := by
  refine ⟨h.1, ?_⟩
  obtain ⟨hlt, _⟩ := List.getElem?_eq_some_iff.mp h.2
  obtain ⟨rest, hrest⟩ := hhistory
  rw [← hrest, List.getElem?_append_left hlt]
  exact h.2

/-- Changes only append to the history and invalidations only raise the floor of later lookups. -/
theorem StatusLookup.Sound.mono (h : lookup.Sound s)
    (hhistory : (s.history lookup.userId) <+: (t.history lookup.userId))
    (hinvalidated : s.invalidated lookup.userId ≤ t.invalidated lookup.userId) :
    lookup.Sound t :=
  ⟨h.1.trans hinvalidated, fun status hphase => (h.2 status hphase).mono hhistory⟩

theorem sound_setLookup (h : CacheCurrent s) (hnew : lookup.Sound s) :
    ∀ l ∈ (s.setLookup i lookup).lookups, l.Sound (s.setLookup i lookup) := by
  intro l hl
  rcases List.mem_or_eq_of_mem_set hl with hl | rfl
  · exact h.lookups l hl
  · exact hnew

theorem current_setLookup (h : CacheCurrent s) (hnew : lookup.Sound s) :
    CacheCurrent (s.setLookup i lookup) where
  current := h.current
  known := h.known
  due := h.due
  cached := h.cached
  lookups := sound_setLookup h hnew

theorem current_start (h : CacheCurrent s) (userId : UserId) : CacheCurrent (s.start userId) where
  current := h.current
  known := h.known
  due := h.due
  cached u status hget := h.cached u status (UserCache.get_purge hget)
  lookups := by
    intro l hl
    rcases List.mem_append.mp hl with hl | hl
    · exact h.lookups l hl
    · cases List.mem_singleton.mp hl
      exact ⟨le_rfl, by simp⟩

/-- A hit reflects every invalidation that has returned. -/
theorem current_probe (h : CacheCurrent s) (hl : lookup ∈ s.lookups) :
    CacheCurrent (s.probe i lookup) := by
  have hfloor := (h.lookups lookup hl).1
  unfold StatusSystem.probe
  split
  next status hhit =>
    obtain ⟨cached, hget, rfl⟩ := UserCache.hit_status hhit
    obtain ⟨hinvalidated, hread⟩ := h.cached _ _ hget
    refine current_setLookup h ⟨hfloor, fun other hphase => ?_⟩
    rcases hphase with hphase | hphase
    · simp at hphase
    · cases hphase
      exact ⟨hfloor.trans hinvalidated, hread⟩
  next => exact current_setLookup h ⟨hfloor, by simp⟩

theorem current_query (h : CacheCurrent s) (hl : lookup ∈ s.lookups) (connected queried : Bool) :
    CacheCurrent (s.query i lookup connected queried) := by
  have hfloor := (h.lookups lookup hl).1
  have hknown := h.known lookup.userId
  have hlast := h.current lookup.userId
  rw [List.getLast?_eq_getElem?] at hlast
  refine current_setLookup h ⟨hfloor, fun status hphase => ⟨?_, ?_⟩⟩
  · simp only
    omega
  · simp only at hphase ⊢
    unfold queryUserStatus at hphase
    split at hphase
    next => simp at hphase
    next =>
      split at hphase
      next => simp at hphase
      next =>
        split at hphase
        next found hfound =>
          simp only [LookupPhase.fetched.injEq, reduceCtorEq, or_false] at hphase
          rw [hlast, hfound, hphase]
        next => simp at hphase

/-- An insert that is not behind the invalidations keeps the cache so. -/
theorem current_insert (h : CacheCurrent s) (hl : lookup ∈ s.lookups)
    (hphase : lookup.phase = .fetched status) (hcurrent : s.invalidated lookup.userId ≤ lookup.version) :
    CacheCurrent (s.insert i lookup status) := by
  obtain ⟨hfloor, hsound⟩ := h.lookups lookup hl
  obtain ⟨hle, hread⟩ := hsound status (Or.inl hphase)
  have hreturned : StatusLookup.Sound s { lookup with phase := .returned (.ok status) } := by
    refine ⟨hfloor, fun other hother => ?_⟩
    rcases hother with hother | hother
    · simp at hother
    · cases hother
      exact ⟨hle, hread⟩
  refine ⟨h.current, h.known, h.due, ?_, sound_setLookup h hreturned⟩
  intro u cached hget
  by_cases hu : u = lookup.userId
  · subst hu
    have hnew := UserCache.get_insert_self s.cache lookup.userId
      { role := status.1, isActive := status.2, fetchedAt := s.now }
    cases Option.some.inj (hnew.symm.trans hget)
    simp only [StatusSystem.Reflects, StatusSystem.insert, Function.update_self]
    exact ⟨hcurrent, hread⟩
  · have hold : s.cache.get u = some cached := by
      rw [← UserCache.get_insert_ne hu]
      exact hget
    simp only [StatusSystem.Reflects, StatusSystem.insert, Function.update_of_ne hu]
    exact h.cached u cached hold

theorem history_change (s : StatusSystem) (userId : UserId) (status : Option (String × Bool))
    (u : UserId) : s.history u <+: (s.change userId status).history u := by
  by_cases hu : u = userId
  · subst hu
    simp [StatusSystem.change]
  · simp [StatusSystem.change, Function.update_of_ne hu]

theorem current_change (h : CacheCurrent s) (userId : UserId) (status : Option (String × Bool)) :
    CacheCurrent (s.change userId status) where
  current u := by
    by_cases hu : u = userId
    · subst hu
      simp [StatusSystem.change]
    · simp only [StatusSystem.change, Function.update_of_ne hu]
      exact h.current u
  known u := (h.known u).trans_le (history_change s userId status u).length_le
  due c hc := by
    rcases List.mem_append.mp hc with hc | hc
    · exact (h.due c hc).trans_le (history_change s userId status c.1).length_le
    · cases List.mem_singleton.mp hc
      simp [StatusSystem.change]
  cached u cached hget := (h.cached u cached hget).mono (history_change s userId status u)
  lookups l hl := (h.lookups l hl).mono (history_change s userId status l.userId) le_rfl

/-- An invalidation leaves no entry of its user, so the floor may rise. -/
theorem current_invalidate {c : UserId × Nat} (h : CacheCurrent s) (hc : s.changes[i]? = some c) :
    CacheCurrent (s.invalidate i c.1 c.2) := by
  have hdue := h.due c (List.mem_of_getElem? hc)
  have hraised : ∀ u, s.invalidated u ≤ (s.invalidate i c.1 c.2).invalidated u := by
    intro u
    by_cases hu : u = c.1
    · subst hu
      simp [StatusSystem.invalidate]
    · simp [StatusSystem.invalidate, Function.update_of_ne hu]
  refine ⟨h.current, fun u => ?_, fun d hd => h.due d (List.mem_of_mem_eraseIdx hd), ?_, ?_⟩
  · by_cases hu : u = c.1
    · subst hu
      simp only [StatusSystem.invalidate, Function.update_self]
      exact max_lt (h.known _) hdue
    · simp only [StatusSystem.invalidate, Function.update_of_ne hu]
      exact h.known u
  · intro u cached hget
    obtain ⟨hu, hold⟩ := UserCache.get_remove hget
    simp only [StatusSystem.Reflects, StatusSystem.invalidate, Function.update_of_ne hu]
    exact h.cached u cached hold
  · intro l hl
    exact (h.lookups l hl).mono (List.prefix_refl _) (hraised _)

theorem current_step {e : StatusEvent} (h : CacheCurrent s) (hcurrent : InsertsCurrent s e)
    (hstep : statusStep s e = some t) : CacheCurrent t := by
  cases e with
  | start userId =>
    cases Option.some.inj hstep
    exact current_start h userId
  | probe i =>
    simp only [statusStep] at hstep
    split at hstep
    next hl =>
      cases Option.some.inj hstep
      exact current_probe h (List.mem_of_getElem? hl)
    next => simp at hstep
  | query i connected queried =>
    simp only [statusStep] at hstep
    split at hstep
    next hl =>
      cases Option.some.inj hstep
      exact current_query h (List.mem_of_getElem? hl) connected queried
    next => simp at hstep
  | insert i =>
    simp only [statusStep] at hstep
    split at hstep
    next hl =>
      cases Option.some.inj hstep
      simp only [InsertsCurrent, hl] at hcurrent
      exact current_insert h (List.mem_of_getElem? hl) rfl hcurrent
    next => simp at hstep
  | change userId status =>
    cases Option.some.inj hstep
    exact current_change h userId status
  | invalidate i =>
    obtain ⟨c, hc, rfl⟩ := Option.map_eq_some_iff.mp hstep
    exact current_invalidate h hc
  | tick nanos =>
    cases Option.some.inj hstep
    exact ⟨h.current, h.known, h.due, h.cached, h.lookups⟩

/-- For every interleaving of lookups with changes a revocation is immediate as long as no lookup
puts into the cache what it read before a change that was invalidated meanwhile. -/
theorem revocation_immediate_of_inserts_current (users : UserId → Option (String × Bool))
    (now : Time) (events : List StatusEvent)
    (hcurrent : Runs.Meets statusStep InsertsCurrent (StatusSystem.init users now) events) :
    Runs.Throughout statusStep RevocationImmediate (StatusSystem.init users now) events := by
  have hstart : CacheCurrent (StatusSystem.init users now) := by
    refine ⟨fun _ => rfl, fun _ => ?_, ?_, ?_, ?_⟩
    · simp [StatusSystem.init]
    · simp [StatusSystem.init]
    · simp [StatusSystem.init, UserCache.get, UserCache.empty]
    · simp [StatusSystem.init]
  have hall := Runs.throughout_of_meets
    (fun _ _ _ h hcond hstep => current_step h hcond hstep) hstart hcurrent
  exact Runs.throughout_mono (fun _ h => revocation_of_current h) hall

/-- Whatever a lookup puts into the cache answers the next lookup of its user, however many
invalidations have returned since it was read. -/
theorem inserted_status_served {floor version : Nat}
    (hl : s.lookups[i]? = some ⟨userId, .fetched status, floor, version⟩) :
    ∃ t, Runs.exec statusStep s [.insert i, .start userId, .probe s.lookups.length] = some t ∧
      t.lookups[s.lookups.length]? =
        some ⟨userId, .returned (.ok status), s.invalidated userId, version⟩ := by
  obtain ⟨role, isActive⟩ := status
  let after := (s.insert i ⟨userId, .fetched (role, isActive), floor, version⟩
    (role, isActive)).start userId
  let next : StatusLookup := ⟨userId, .started, s.invalidated userId, 0⟩
  have hhit : after.cache.hit userId after.now = some (role, isActive) :=
    UserCache.hit_insert s.cache userId role isActive s.now
  have hversion : after.cachedVersion userId = version := Function.update_self ..
  have hlookup : after.lookups[s.lookups.length]? = some next := by
    simp [after, next, StatusSystem.start, StatusSystem.insert, StatusSystem.setLookup]
  have hprobe : after.probe s.lookups.length next = after.setLookup s.lookups.length
      ⟨userId, .returned (.ok (role, isActive)), s.invalidated userId, version⟩ := by
    simp only [StatusSystem.probe, next, hhit, hversion]
  refine ⟨after.probe s.lookups.length next, ?_, ?_⟩
  · have hinsert : statusStep s (.insert i) =
        some (s.insert i ⟨userId, .fetched (role, isActive), floor, version⟩ (role, isActive)) := by
      simp only [statusStep, hl]
    have hlast : statusStep after (.probe s.lookups.length) =
        some (after.probe s.lookups.length next) := by
      simp only [statusStep, hlookup, next]
    simp only [Runs.exec, hinsert, Option.bind_some]
    exact congrArg (fun o : Option StatusSystem => o.bind some) hlast
  · rw [hprobe]
    exact List.getElem?_set_self (List.getElem?_eq_some_iff.mp hlookup).1

def sampleUsers : UserId → Option (String × Bool) := fun _ => some ("admin", true)

/-- A lookup caches a status that a change then revokes, and one begun during the change ends
before its invalidation. -/
theorem revocation_immediate_example :
    Runs.Throughout statusStep RevocationImmediate (StatusSystem.init sampleUsers 0)
      [.start 7, .probe 0, .query 0 true true, .insert 0, .start 7,
        .change 7 (some ("user", true)), .probe 1, .invalidate 0, .start 7, .probe 2,
        .query 2 true true, .insert 2, .tick 1000, .start 7, .probe 3] :=
  revocation_immediate_of_inserts_current sampleUsers 0 _ (by decide +kernel)

/-- A lookup that read before the change caches the old status after the invalidation. -/
theorem revoked_status_served :
    ¬ ∀ (users : UserId → Option (String × Bool)) (now : Time) (events : List StatusEvent),
      Runs.Throughout statusStep RevocationImmediate (StatusSystem.init users now) events := by
  intro h
  let events : List StatusEvent := [.start 7, .probe 0, .query 0 true true,
    .change 7 (some ("user", true)), .invalidate 0, .insert 0, .start 7, .probe 1]
  have hexec : ∃ t, Runs.exec statusStep (StatusSystem.init sampleUsers 0) events = some t ∧
      t.lookups[1]? = some ⟨7, .returned (.ok ("admin", true)), 1, 0⟩ ∧
      t.history 7 = [some ("admin", true), some ("user", true)] := ⟨_, rfl, rfl, rfl⟩
  obtain ⟨t, ht, hlookup, hhistory⟩ := hexec
  have hserved := Runs.throughout_last (h sampleUsers 0 events) ht _ (List.mem_of_getElem? hlookup)
    ("admin", true) rfl
  rw [hhistory] at hserved
  simp at hserved

end Reminisce

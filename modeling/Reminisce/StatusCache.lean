import Reminisce.AccountRuns
import Reminisce.Library.Keyed

namespace Reminisce

/-- The cache of user statuses under its lock. -/
structure UserCache where
  entries : List (UserId × CachedUserStatus)
  nodup : (entries.map Prod.fst).Nodup
  deriving DecidableEq

namespace UserCache

def empty : UserCache := ⟨[], List.nodup_nil⟩

def get (cache : UserCache) (userId : UserId) : Option CachedUserStatus :=
  (cache.entries.find? (·.1 = userId)).map Prod.snd

def insert (cache : UserCache) (userId : UserId) (status : CachedUserStatus) : UserCache :=
  ⟨Keyed.put Prod.fst cache.entries (userId, status), Keyed.nodup_put cache.nodup (userId, status)⟩

def remove (cache : UserCache) (userId : UserId) : UserCache :=
  ⟨cache.entries.filter (·.1 ≠ userId), cache.nodup.sublist (List.filter_sublist.map _)⟩

/-- A map of more than 500 entries loses those of the last minute's past. -/
def purge (cache : UserCache) (now : Time) : UserCache :=
  if 500 < cache.entries.length then
    ⟨cache.entries.filter fun e => now < e.2.fetchedAt + secs 60,
      cache.nodup.sublist (List.filter_sublist.map _)⟩
  else cache

/-- A status that is not older than five seconds. -/
def hit (cache : UserCache) (userId : UserId) (now : Time) : Option (String × Bool) :=
  ((cache.get userId).filter fun c => now < c.fetchedAt + secs 5).map fun c => (c.role, c.isActive)

variable {cache : UserCache} {userId other : UserId} {status : CachedUserStatus} {now : Time}
  {answer : String × Bool}

theorem mem_of_get (h : cache.get userId = some status) : (userId, status) ∈ cache.entries :=
  Keyed.mem_of_lookup h

theorem get_of_mem (h : (userId, status) ∈ cache.entries) : cache.get userId = some status :=
  Keyed.lookup_of_mem cache.nodup h

theorem get_insert_self (cache : UserCache) (userId : UserId) (status : CachedUserStatus) :
    (cache.insert userId status).get userId = some status := by
  unfold get insert
  rw [Keyed.find_put_self Prod.fst cache.entries (userId, status)]
  rfl

theorem get_insert_ne (h : other ≠ userId) :
    (cache.insert userId status).get other = cache.get other := by
  unfold get insert
  rw [Keyed.find_put_ne (userId, status) h]

theorem get_remove (h : (cache.remove userId).get other = some status) :
    other ≠ userId ∧ cache.get other = some status := by
  obtain ⟨hmem, hne⟩ := List.mem_filter.mp (mem_of_get h)
  exact ⟨by simpa using hne, get_of_mem hmem⟩

theorem get_purge (h : (cache.purge now).get userId = some status) :
    cache.get userId = some status := by
  unfold purge at h
  split at h
  next => exact get_of_mem (List.mem_filter.mp (mem_of_get h)).1
  next => exact h

theorem hit_status (h : cache.hit userId now = some answer) :
    ∃ status, cache.get userId = some status ∧ answer = (status.role, status.isActive) := by
  obtain ⟨status, hstatus, rfl⟩ := Option.map_eq_some_iff.mp h
  exact ⟨status, (Option.filter_eq_some_iff.mp hstatus).1, rfl⟩

/-- What was just inserted is a hit. -/
theorem hit_insert (cache : UserCache) (userId : UserId) (role : String) (isActive : Bool)
    (now : Time) :
    ((cache.insert userId { role, isActive, fetchedAt := now }).purge now).hit userId now =
      some (role, isActive) := by
  have hfresh : now < now + secs 5 := Nat.lt_add_of_pos_right (by decide)
  have hkept : now < now + secs 60 := Nat.lt_add_of_pos_right (by decide)
  have hmem := mem_of_get (get_insert_self cache userId { role, isActive, fetchedAt := now })
  have hget : ((cache.insert userId { role, isActive, fetchedAt := now }).purge now).get userId =
      some { role, isActive, fetchedAt := now } := by
    unfold purge
    split
    next => exact get_of_mem (List.mem_filter.mpr ⟨hmem, by simpa using hkept⟩)
    next => exact get_insert_self _ _ _
  unfold hit
  rw [hget]
  simp [hfresh]

end UserCache

/-- Where a call of `get_cached_or_query_user_status` stands: its hit still to be looked for, a
miss that waits for the database, a row read and not yet in the cache, answered. -/
inductive LookupPhase
  | started
  | missed
  | fetched (status : String × Bool)
  | returned (result : Except AccountResponse (String × Bool))

/-- A call. `floor` and `version` count changes of the user: those whose invalidation had returned
when the call started, and those its row reflects; no code reads them. -/
structure StatusLookup where
  userId : UserId
  phase : LookupPhase
  floor : Nat
  version : Nat

/-- The table and the cache with the calls under way, and with the changes that are committed and
whose invalidation is still due. `history` has the statuses of each user in the order of its
changes, `cachedVersion` the change a cached status reflects, `invalidated` the last change whose
invalidation has returned. -/
structure StatusSystem where
  now : Time
  users : UserId → Option (String × Bool)
  cache : UserCache
  lookups : List StatusLookup
  changes : List (UserId × Nat)
  history : UserId → List (Option (String × Bool))
  cachedVersion : UserId → Nat
  invalidated : UserId → Nat

inductive StatusEvent
  | start (userId : UserId)
  | probe (i : Nat)
  | query (i : Nat) (connected queried : Bool)
  | insert (i : Nat)
  | change (userId : UserId) (status : Option (String × Bool))
  | invalidate (i : Nat)
  | tick (nanos : Nat)

/-- What the pool and the query give to a miss. -/
def queryUserStatus (users : UserId → Option (String × Bool)) (userId : UserId)
    (connected queried : Bool) : LookupPhase :=
  if ¬connected then .returned (.error (.internalServerError "Database connection failed"))
  else if ¬queried then .returned (.error (.internalServerError "Database error"))
  else
    match users userId with
    | some status => .fetched status
    | none => .returned (.error (.unauthorized "User not found"))

namespace StatusSystem

def init (users : UserId → Option (String × Bool)) (now : Time) : StatusSystem :=
  { now, users, cache := UserCache.empty, lookups := [], changes := []
    history := fun userId => [users userId], cachedVersion := fun _ => 0
    invalidated := fun _ => 0 }

def setLookup (s : StatusSystem) (i : Nat) (lookup : StatusLookup) : StatusSystem :=
  { s with lookups := s.lookups.set i lookup }

def start (s : StatusSystem) (userId : UserId) : StatusSystem :=
  { s with
    cache := s.cache.purge s.now
    lookups := s.lookups ++ [⟨userId, .started, s.invalidated userId, 0⟩] }

def probe (s : StatusSystem) (i : Nat) (lookup : StatusLookup) : StatusSystem :=
  match s.cache.hit lookup.userId s.now with
  | some status =>
    s.setLookup i { lookup with
      phase := .returned (.ok status), version := s.cachedVersion lookup.userId }
  | none => s.setLookup i { lookup with phase := .missed }

def query (s : StatusSystem) (i : Nat) (lookup : StatusLookup) (connected queried : Bool) :
    StatusSystem :=
  s.setLookup i { lookup with
    phase := queryUserStatus s.users lookup.userId connected queried
    version := (s.history lookup.userId).length - 1 }

def insert (s : StatusSystem) (i : Nat) (lookup : StatusLookup) (status : String × Bool) :
    StatusSystem :=
  { s.setLookup i { lookup with phase := .returned (.ok status) } with
    cache := s.cache.insert lookup.userId
      { role := status.1, isActive := status.2, fetchedAt := s.now }
    cachedVersion := Function.update s.cachedVersion lookup.userId lookup.version }

def change (s : StatusSystem) (userId : UserId) (status : Option (String × Bool)) : StatusSystem :=
  { s with
    users := Function.update s.users userId status
    changes := s.changes ++ [(userId, (s.history userId).length)]
    history := Function.update s.history userId (s.history userId ++ [status]) }

/-- `invalidate_user_cache` for a committed change. -/
def invalidate (s : StatusSystem) (i : Nat) (userId : UserId) (version : Nat) : StatusSystem :=
  { s with
    cache := s.cache.remove userId
    changes := s.changes.eraseIdx i
    invalidated := Function.update s.invalidated userId (max (s.invalidated userId) version) }

end StatusSystem

def statusStep (s : StatusSystem) : StatusEvent → Option StatusSystem
  | .start userId => some (s.start userId)
  | .probe i =>
    match s.lookups[i]? with
    | some ⟨userId, .started, floor, version⟩ => some (s.probe i ⟨userId, .started, floor, version⟩)
    | _ => none
  | .query i connected queried =>
    match s.lookups[i]? with
    | some ⟨userId, .missed, floor, version⟩ =>
      some (s.query i ⟨userId, .missed, floor, version⟩ connected queried)
    | _ => none
  | .insert i =>
    match s.lookups[i]? with
    | some ⟨userId, .fetched status, floor, version⟩ =>
      some (s.insert i ⟨userId, .fetched status, floor, version⟩ status)
    | _ => none
  | .change userId status => some (s.change userId status)
  | .invalidate i => (s.changes[i]?).map fun c => s.invalidate i c.1 c.2
  | .tick nanos => some { s with now := s.now + nanos }

end Reminisce

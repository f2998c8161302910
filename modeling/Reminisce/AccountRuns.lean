import Reminisce.Library.Runs
import Reminisce.PeerSync
import Reminisce.Primitives

namespace Reminisce

section

/-- `Uuid::parse_str`, which reads several spellings of one id, and `Uuid::to_string`. -/
structure UuidFormat where
  parse : String → Option UserId
  toText : UserId → String

/-- A row of `users`; the address, the password and the times are left out. -/
structure UserAccount where
  id : UserId
  username : String
  role : String
  isActive : Bool
  deriving DecidableEq, Repr

/-- The claims of a token, after authentication with the role of the user's row. -/
structure Claims where
  userId : String
  username : String
  role : String
  scope : Option String
  deriving DecidableEq, Repr

structure CreateUserRequest where
  username : String
  password : String
  role : Option String
  deriving DecidableEq, Repr

structure UpdateUserRequest where
  role : Option String
  isActive : Option Bool
  password : Option String
  deriving DecidableEq, Repr

structure SetupRequest where
  username : String
  password : String
  deriving DecidableEq, Repr

inductive AccountResponse
  | badRequest (message : String)
  | unauthorized (message : String)
  | forbidden (message : String)
  | notFound (message : String)
  | internalServerError (message : String)
  deriving DecidableEq, Repr

/-- What a request meets: the pool, the transaction, its statements, the hash of a password, the
commit, and the id of a new row. -/
structure AccountIo where
  connected : Bool
  began : Bool
  queried : Bool
  hashed : Bool
  stored : Bool
  committed : Bool
  newId : UserId
  deriving DecidableEq, Repr

def memberRoles : List String := ["admin", "user", "viewer"]

def UserAccount.isAdmin (user : UserAccount) : Bool := user.role = "admin" && user.isActive

/-- Whether an `INSERT INTO users` violates a unique column. -/
def insertClashes (users : List UserAccount) (id : UserId) (username : String) : Bool :=
  users.any fun user => user.id = id || user.username = username

/-- The users after a request that succeeds, or its refusal, which leaves them as they are. -/
def createUser (users : List UserAccount) (claims : Claims) (request : CreateUserRequest)
    (io : AccountIo) : Except AccountResponse (List UserAccount) :=
  let role := request.role.getD "user"
  if claims.role ≠ "admin" then .error (.forbidden "Admin only")
  else if request.username.utf8ByteSize < 3 ∨ request.password.utf8ByteSize < 8 then
    .error (.badRequest "Username must be ≥3 chars and password ≥8 chars")
  else if role ∉ memberRoles then .error (.badRequest "Role must be admin, user, or viewer")
  else if ¬io.hashed then .error (.internalServerError "Failed to hash password")
  else if ¬io.connected then .error (.internalServerError "Failed to get database connection")
  else if insertClashes users io.newId request.username then
    .error (.badRequest "Username already exists")
  else if ¬io.stored then .error (.internalServerError "Database query failed")
  else .ok (users ++ [{ id := io.newId, username := request.username, role, isActive := true }])

/-- The `UPDATE` statements of one transaction. -/
def applyUpdate (target : UserId) (request : UpdateUserRequest) (users : List UserAccount) :
    List UserAccount :=
  users.map fun user =>
    if user.id = target then
      { user with
        role := request.role.getD user.role
        isActive := request.isActive.getD user.isActive }
    else user

/-- The checks of an update inside its transaction. -/
def updateInTransaction (users : List UserAccount) (target : UserId) (request : UpdateUserRequest)
    (io : AccountIo) : Except AccountResponse (List UserAccount) :=
  if ¬io.queried then .error (.internalServerError "Database error")
  else if ¬users.any (·.id = target) then .error (.notFound "User not found")
  else if request.role.any (· ∉ memberRoles) then .error (.badRequest "Invalid role")
  else if request.role.isSome ∧ ¬io.stored then
    .error (.internalServerError "Failed to update role")
  else if request.isActive.isSome ∧ ¬io.stored then
    .error (.internalServerError "Failed to update active status")
  else if request.password.any (·.utf8ByteSize < 8) then
    .error (.badRequest "Password must be ≥8 chars")
  else if request.password.isSome ∧ ¬io.hashed then
    .error (.internalServerError "Failed to hash password")
  else if request.password.isSome ∧ ¬io.stored then
    .error (.internalServerError "Failed to update password")
  else if ¬io.committed then .error (.internalServerError "Failed to commit changes")
  else .ok (applyUpdate target request users)

def updateUser (fmt : UuidFormat) (users : List UserAccount) (claims : Claims) (path : String)
    (request : UpdateUserRequest) (io : AccountIo) :
    Except AccountResponse (UserId × List UserAccount) :=
  if claims.role ≠ "admin" then .error (.forbidden "Admin only")
  else
    match fmt.parse path with
    | none => .error (.badRequest "Invalid user ID")
    | some target =>
      if fmt.toText target = claims.userId ∧
          (request.role = some "user" ∨ request.role = some "viewer") then
        .error (.badRequest "Cannot remove your own admin role")
      else if fmt.toText target = claims.userId ∧ request.isActive = some false then
        .error (.badRequest "Cannot deactivate your own account")
      else if ¬io.connected then .error (.internalServerError "Failed to get database connection")
      else if ¬io.began then .error (.internalServerError "Failed to start transaction")
      else (updateInTransaction users target request io).map fun users => (target, users)

def deleteUser (fmt : UuidFormat) (users : List UserAccount) (claims : Claims) (path : String)
    (io : AccountIo) : Except AccountResponse (UserId × List UserAccount) :=
  if claims.role ≠ "admin" then .error (.forbidden "Admin only")
  else
    match fmt.parse path with
    | none => .error (.badRequest "Invalid user ID")
    | some target =>
      if fmt.toText target = claims.userId then
        .error (.badRequest "Cannot delete your own account")
      else if ¬io.connected then .error (.internalServerError "Failed to get database connection")
      else if ¬io.stored then .error (.internalServerError "Database query failed")
      else if ¬users.any (·.id = target) then .error (.notFound "User not found")
      else .ok (target, users.filter (·.id ≠ target))

variable {fmt : UuidFormat} {users after : List UserAccount} {claims : Claims} {path : String}
  {io : AccountIo} {target : UserId}

theorem createUser_ok {request : CreateUserRequest} (h : createUser users claims request io = .ok after) :
    ∃ user, after = users ++ [user] := by
  unfold createUser at h
  dsimp only at h
  split_ifs at h
  exact ⟨_, (Except.ok.inj h).symm⟩

theorem updateInTransaction_ok {request : UpdateUserRequest}
    (h : updateInTransaction users target request io = .ok after) :
    after = applyUpdate target request users ∧ (∀ role ∈ request.role, role ∈ memberRoles) ∧
      ∀ password ∈ request.password, 8 ≤ password.utf8ByteSize := by
  unfold updateInTransaction at h
  split_ifs at h with _ _ hrole _ _ hpassword
  refine ⟨(Except.ok.inj h).symm, fun role hmem => ?_, fun password hmem => ?_⟩
  · rw [Option.mem_def.mp hmem] at hrole
    simpa using hrole
  · rw [Option.mem_def.mp hmem] at hpassword
    simpa using hpassword

/-- An update that succeeds was asked for by an admin, and passed the guard for the own account. -/
theorem updateUser_ok {request : UpdateUserRequest}
    (h : updateUser fmt users claims path request io = .ok (target, after)) :
    claims.role = "admin" ∧ fmt.parse path = some target ∧
      (fmt.toText target = claims.userId → request.role ≠ some "user" ∧ request.role ≠ some "viewer" ∧
        request.isActive ≠ some false) ∧
      updateInTransaction users target request io = .ok after := by
  unfold updateUser at h
  split at h
  next => simp at h
  next hadmin =>
    split at h
    next => simp at h
    next parsed hparse =>
      split_ifs at h with hrole hactive
      cases htx : updateInTransaction users parsed request io with
      | error => rw [htx] at h; simp [Except.map] at h
      | ok result =>
        rw [htx] at h
        obtain ⟨rfl, rfl⟩ := Prod.mk.inj (Except.ok.inj h)
        refine ⟨not_not.mp hadmin, hparse, fun hself => ?_, htx⟩
        refine ⟨fun hr => hrole ⟨hself, Or.inl hr⟩, fun hr => hrole ⟨hself, Or.inr hr⟩, fun ha => ?_⟩
        exact hactive ⟨hself, ha⟩

theorem deleteUser_ok (h : deleteUser fmt users claims path io = .ok (target, after)) :
    claims.role = "admin" ∧ fmt.parse path = some target ∧ fmt.toText target ≠ claims.userId ∧
      after = users.filter (·.id ≠ target) := by
  unfold deleteUser at h
  split at h
  next => simp at h
  next hadmin =>
    split at h
    next => simp at h
    next parsed hparse =>
      split_ifs at h with hself
      obtain ⟨rfl, rfl⟩ := Prod.mk.inj (Except.ok.inj h)
      exact ⟨not_not.mp hadmin, hparse, hself, rfl⟩

end

structure CachedUserStatus where
  role : String
  isActive : Bool
  fetchedAt : Time
  deriving DecidableEq, Repr

inductive UserRequest
  | create (request : CreateUserRequest)
  | update (path : String) (request : UpdateUserRequest)
  | delete (path : String)
  deriving DecidableEq, Repr

/-- A request between authentication and its effect, and between its effect and the invalidation of
the cache. -/
inductive PendingRequest
  | authorised (claims : Claims) (request : UserRequest)
  | committed (target : UserId)
  deriving DecidableEq, Repr

/-- The users, the cache of their status with the statuses that were read and are not in it yet, the
requests under way under their numbers, and the setup that holds the advisory lock; `setups` counts
the setups that were answered with success. -/
structure AccountState where
  users : List UserAccount
  cache : UserId → Option CachedUserStatus
  seen : List (UserId × String × Bool)
  requests : List (Option PendingRequest)
  setup : Option SetupRequest
  setups : Nat

inductive AccountEvent
  | authenticate (token : Claims) (request : UserRequest) (queried : Bool) (now : Time)
  | remember (i : Nat) (now : Time)
  | handle (i : Nat) (io : AccountIo)
  | invalidate (i : Nat)
  | beginSetup (request : SetupRequest) (io : AccountIo)
  | commitSetup (io : AccountIo)

namespace AccountState

def start (users : List UserAccount) : AccountState :=
  { users, cache := fun _ => none, seen := [], requests := [], setup := none, setups := 0 }

def requestOf (s : AccountState) (i : Nat) : Option PendingRequest := (s.requests[i]?).join

def setRequest (s : AccountState) (i : Nat) (request : Option PendingRequest) : AccountState :=
  { s with requests := s.requests.set i request }

/-- The status in the cache, for five seconds. -/
def cachedStatus (s : AccountState) (userId : UserId) (now : Time) : Option (String × Bool) :=
  ((s.cache userId).filter fun c => now < c.fetchedAt + secs 5).map fun c => (c.role, c.isActive)

/-- `SELECT role, is_active FROM users WHERE id = $1`. -/
def queryStatus (s : AccountState) (userId : UserId) : Option (String × Bool) :=
  (s.users.find? (·.id = userId)).map fun user => (user.role, user.isActive)

end AccountState

/-- The status of a user, and whether it comes from the table. -/
def getCachedOrQueryUserStatus (s : AccountState) (userId : UserId) (queried : Bool) (now : Time) :
    Except AccountResponse ((String × Bool) × Bool) :=
  match s.cachedStatus userId now with
  | some status => .ok (status, false)
  | none =>
    if queried then
      match s.queryStatus userId with
      | some status => .ok (status, true)
      | none => .error (.unauthorized "User not found")
    else .error (.internalServerError "Database error")

section Step

variable (fmt : UuidFormat)

/-- The claims of a request to the user routes, with the role of the user's status. -/
def authenticateClaims (s : AccountState) (token : Claims) (queried : Bool) (now : Time) :
    Except AccountResponse (Claims × Option (UserId × String × Bool)) :=
  if token.scope = some "media_read" then
    .error (.forbidden "Token is restricted to media read access only")
  else
    match fmt.parse token.userId with
    | none => .error (.unauthorized "Invalid user ID in token")
    | some userId =>
      match getCachedOrQueryUserStatus s userId queried now with
      | .error response => .error response
      | .ok ((role, isActive), fromTable) =>
        if isActive then
          .ok ({ token with role }, if fromTable then some (userId, role, isActive) else none)
        else .error (.unauthorized "Account is disabled")

/-- A request is admitted with its claims, and a status from the table waits for the cache. -/
def admitRequest (s : AccountState) (request : UserRequest) (claims : Claims)
    (read : Option (UserId × String × Bool)) : AccountState :=
  { s with
    seen := s.seen ++ read.toList
    requests := s.requests ++ [some (.authorised claims request)] }

def rememberStatus (s : AccountState) (status : UserId × String × Bool) (now : Time) :
    AccountState :=
  { s with cache := fun userId =>
      if userId = status.1 then
        some { role := status.2.1, isActive := status.2.2, fetchedAt := now }
      else s.cache userId }

/-- A change of one user, whose status is then dropped from the cache. -/
def commitChange (s : AccountState) (i : Nat)
    (result : Except AccountResponse (UserId × List UserAccount)) : AccountState :=
  match result with
  | .ok (target, users) => { s with users }.setRequest i (some (.committed target))
  | .error _ => s.setRequest i none

def handleUserRequest (s : AccountState) (i : Nat) (claims : Claims) (io : AccountIo) :
    UserRequest → AccountState
  | .create request =>
    match createUser s.users claims request io with
    | .ok users => { s with users }.setRequest i none
    | .error _ => s.setRequest i none
  | .update path request => commitChange s i (updateUser fmt s.users claims path request io)
  | .delete path => commitChange s i (deleteUser fmt s.users claims path io)

def invalidateUserCache (s : AccountState) (target : UserId) : AccountState :=
  { s with cache := fun userId => if userId = target then none else s.cache userId }

/-- A setup takes the lock and counts the users. -/
def beginSetup (s : AccountState) (request : SetupRequest) (io : AccountIo) :
    Except AccountResponse AccountState :=
  if request.username.utf8ByteSize < 3 ∨ request.password.utf8ByteSize < 8 then
    .error (.badRequest "Username must be ≥3 chars and password ≥8 chars")
  else if ¬io.connected then .error (.internalServerError "")
  else if ¬io.began then .error (.internalServerError "Database transaction failed")
  else if ¬io.queried then .error (.internalServerError "Database query failed")
  else if 0 < s.users.length then .error (.forbidden "Setup already completed")
  else .ok { s with setup := some request }

/-- The insert and the commit of the setup that holds the lock. -/
def commitSetup (s : AccountState) (request : SetupRequest) (io : AccountIo) : AccountState :=
  if io.hashed ∧ insertClashes s.users io.newId request.username = false ∧ io.stored ∧
      io.committed then
    { s with
      users := s.users ++
        [{ id := io.newId, username := request.username, role := "admin", isActive := true }]
      setup := none
      setups := s.setups + 1 }
  else { s with setup := none }

def accountStep (s : AccountState) : AccountEvent → Option AccountState
  | .authenticate token request queried now =>
    match authenticateClaims fmt s token queried now with
    | .ok (claims, read) => some (admitRequest s request claims read)
    | .error _ => some s
  | .remember i now => (s.seen[i]?).map fun status => rememberStatus s status now
  | .handle i io =>
    match s.requestOf i with
    | some (.authorised claims request) => some (handleUserRequest fmt s i claims io request)
    | _ => none
  | .invalidate i =>
    match s.requestOf i with
    | some (.committed target) => some ((invalidateUserCache s target).setRequest i none)
    | _ => none
  | .beginSetup request io =>
    match s.setup with
    | none =>
      match beginSetup s request io with
      | .ok next => some next
      | .error _ => some s
    | some _ => none
  | .commitSetup io => s.setup.map fun request => commitSetup s request io

end Step

end Reminisce

import Reminisce.Library.Runs
import Reminisce.LoginFailures

namespace Reminisce

/-- A row of `users` as the login reads it. -/
structure LoginRow where
  id : UserId
  username : String
  passwordHash : String
  role : String
  isActive : Bool
  deriving DecidableEq, Repr

structure LoginError where
  status : Nat
  message : String
  deriving DecidableEq, Repr

/-- The token of a login, which is also the value of its cookie, and the user. -/
structure LoginOutcome where
  accessToken : String
  userId : UserId
  username : String
  role : String
  deriving DecidableEq, Repr

/-- Where a call of `perform_login` stands: past the lockout check and waiting for the database,
about to verify, about to record a failure, about to issue the token, answered. -/
inductive LoginPhase
  | querying (username password : String)
  | verifying (row : LoginRow) (username password : String)
  | recording (username : String) (refusal : LoginError)
  | issuing (row : LoginRow) (username : String)
  | done (response : Except LoginError LoginOutcome)

/-- What the pool and the query give. -/
inductive UserQuery
  | noConnection
  | failed
  | answered
  deriving DecidableEq, Repr

/-- What the configuration and the encoding of the claims give. -/
inductive TokenResult
  | noApiKey (message : String)
  | notEncoded
  | token (text : String)
  deriving DecidableEq, Repr

def beginLogin (env : LoginEnv) (store : LoginFailureStore) (username password : String)
    (now : Time) : LoginFailureStore × LoginPhase :=
  if env.trim username = "" ∨ password = "" then
    (store, .done (.error ⟨400, "Username and password are required"⟩))
  else
    let (store, allowed) := loginAllowedForAccount env store username now
    if allowed then (store, .querying username password)
    else (store, .done (.error ⟨429, "Too many failed attempts. Try again later."⟩))

def answerLogin (users : List LoginRow) (username password : String) : UserQuery → LoginPhase
  | .noConnection => .done (.error ⟨500, "Database connection failed"⟩)
  | .failed => .done (.error ⟨500, "Login failed"⟩)
  | .answered =>
    match users.find? (·.username = username) with
    | none => .recording username ⟨401, "Invalid username or password"⟩
    | some row =>
      if row.isActive then .verifying row username password
      else .recording username ⟨401, "Account is disabled"⟩

def verifyLogin (env : LoginEnv) (row : LoginRow) (username password : String) : LoginPhase :=
  match env.verifyPassword password row.passwordHash with
  | some true => .issuing row username
  | some false => .recording username ⟨401, "Invalid username or password"⟩
  | none => .done (.error ⟨500, "Authentication failed"⟩)

def issueToken (row : LoginRow) : TokenResult → Except LoginError LoginOutcome
  | .noApiKey message => .error ⟨500, "Configuration error: " ++ message⟩
  | .notEncoded => .error ⟨500, "Failed to generate token"⟩
  | .token text => .ok { accessToken := text, userId := row.id, username := row.username
                         role := row.role }

/-- The calls under way with the store they share. `failed` records the wrong passwords verified
for each account since its last login and is read by no code. -/
structure LoginSystem where
  now : Time
  users : List LoginRow
  store : LoginFailureStore
  calls : List LoginPhase
  failed : List (String × Time)

inductive LoginEvent
  | call (username password : String)
  | answer (i : Nat) (query : UserQuery)
  | verify (i : Nat)
  | record (i : Nat)
  | issue (i : Nat) (result : TokenResult)
  | tick (nanos : Nat)

namespace LoginSystem

def init (users : List LoginRow) (now : Time) : LoginSystem :=
  { now, users, store := LoginFailureStore.empty, calls := [], failed := [] }

def setCall (s : LoginSystem) (i : Nat) (phase : LoginPhase) : LoginSystem :=
  { s with calls := s.calls.set i phase }

def begin (env : LoginEnv) (s : LoginSystem) (username password : String) : LoginSystem :=
  let (store, phase) := beginLogin env s.store username password s.now
  { s with store, calls := s.calls ++ [phase] }

def verify (env : LoginEnv) (s : LoginSystem) (i : Nat) (row : LoginRow)
    (username password : String) : LoginSystem :=
  let s := s.setCall i (verifyLogin env row username password)
  if env.verifyPassword password row.passwordHash = some false then
    { s with failed := (row.username, s.now) :: s.failed }
  else s

/-- The failures are cleared when the token is there. -/
def issue (env : LoginEnv) (s : LoginSystem) (i : Nat) (row : LoginRow) (username : String)
    (result : TokenResult) : LoginSystem :=
  let response := issueToken row result
  let s := s.setCall i (.done response)
  if response.isOk then
    { s with
      store := clearLoginFailures env s.store username
      failed := s.failed.filter (·.1 ≠ row.username) }
  else s

end LoginSystem

/-- One step of one call between two points where others may come in, or the clock. -/
def loginStep (env : LoginEnv) (s : LoginSystem) : LoginEvent → Option LoginSystem
  | .call username password => some (s.begin env username password)
  | .answer i query =>
    match s.calls[i]? with
    | some (.querying username password) =>
      some (s.setCall i (answerLogin s.users username password query))
    | _ => none
  | .verify i =>
    match s.calls[i]? with
    | some (.verifying row username password) => some (s.verify env i row username password)
    | _ => none
  | .record i =>
    match s.calls[i]? with
    | some (.recording username refusal) =>
      some { s.setCall i (.done (.error refusal)) with
        store := recordLoginFailure env s.store username s.now }
    | _ => none
  | .issue i result =>
    match s.calls[i]? with
    | some (.issuing row username) => some (s.issue env i row username result)
    | _ => none
  | .tick nanos => some { s with now := s.now + nanos }

/-- Since its last login at most eight passwords of an account failed in any 900 seconds. -/
def LockoutHolds (s : LoginSystem) : Prop :=
  ∀ (username : String) (start : Time),
    s.failed.countP (fun g => decide (g.1 = username ∧ start ≤ g.2 ∧ g.2 < start + secs 900)) ≤ 8

def LoginPhase.records (env : LoginEnv) (key : String) : LoginPhase → Bool
  | .recording username _ => env.key username = key
  | _ => false

/-- The calls about to record a failure for a name. -/
def LoginSystem.pending (env : LoginEnv) (s : LoginSystem) (key : String) : Nat :=
  s.calls.countP (·.records env key)

/-- A wrong password is verified only while the failures of its name, stored or about to be, are
fewer than eight, and a login clears no recent failure of another account. -/
def CountedInTime (env : LoginEnv) (s : LoginSystem) : LoginEvent → Prop
  | .verify i =>
    match s.calls[i]? with
    | some (.verifying row username password) =>
      env.verifyPassword password row.passwordHash = some false →
        s.store.recent (env.key username) s.now + s.pending env (env.key username) < 8
    | _ => True
  | .issue i (.token _) =>
    match s.calls[i]? with
    | some (.issuing row username) =>
      ∀ g ∈ s.failed, env.key g.1 = env.key username →
        g.1 = row.username ∨ g.2 + secs 900 ≤ s.now
    | _ => True
  | _ => True

instance (env : LoginEnv) (s : LoginSystem) (e : LoginEvent) : Decidable (CountedInTime env s e) := by
  unfold CountedInTime
  split
  next => split <;> infer_instance
  next => split <;> infer_instance
  next => infer_instance

/-- The wrong passwords verified for an account from some moment on. -/
def LoginSystem.guessesSince (s : LoginSystem) (username : String) (start : Time) : Nat :=
  s.failed.countP fun g => decide (g.1 = username ∧ start ≤ g.2)

/-- The names a call carries are those its lockout check and its query went through with. -/
def LoginPhase.Named (env : LoginEnv) : LoginPhase → Prop
  | .querying username _ => env.key username ≠ ""
  | .verifying row username _ => env.key username ≠ "" ∧ row.username = username
  | .recording username _ => env.key username ≠ ""
  | .issuing row username => row.username = username
  | .done _ => True

/-- Every recent wrong password is stored under its name or about to be. -/
structure FailuresBooked (env : LoginEnv) (s : LoginSystem) : Prop where
  past : ∀ g ∈ s.failed, g.2 ≤ s.now
  named : ∀ phase ∈ s.calls, phase.Named env
  booked : ∀ username start, s.now < start + secs 900 →
    s.guessesSince username start ≤
      s.store.countSince (env.key username) start + s.pending env (env.key username)
  holds : LockoutHolds s

variable {env : LoginEnv} {s t : LoginSystem} {i : Nat} {phase old : LoginPhase}
  {username password key : String} {start now : Time} {row : LoginRow}

theorem beginLogin_countSince (hstart : now < start + secs 900) (store : LoginFailureStore) :
    (beginLogin env store username password now).1.countSince key start =
      store.countSince key start := by
  have hcheck : (loginAllowedForAccount env store username now).1.countSince key start =
      store.countSince key start :=
    LoginFailureStore.countSince_loginAllowed hstart username key
  unfold beginLogin
  split
  next => rfl
  next =>
    simp only
    split
    next => exact hcheck
    next => exact hcheck

theorem loginAllowed_key {store : LoginFailureStore}
    (h : (loginAllowedForAccount env store username now).2 = true) : env.key username ≠ "" := by
  intro hkey
  simp [loginAllowedForAccount, hkey] at h

/-- A call that begins is refused or goes on under a name. -/
theorem beginLogin_phase (env : LoginEnv) (store : LoginFailureStore)
    (username password key : String) (now : Time) :
    (beginLogin env store username password now).2.Named env ∧
      (beginLogin env store username password now).2.records env key = false := by
  unfold beginLogin
  split
  next => exact ⟨trivial, rfl⟩
  next =>
    simp only
    split
    next hallowed => exact ⟨loginAllowed_key hallowed, rfl⟩
    next => exact ⟨trivial, rfl⟩

theorem answerLogin_named {users : List LoginRow} (h : env.key username ≠ "") (query : UserQuery) :
    (answerLogin users username password query).Named env := by
  unfold answerLogin
  split
  next => trivial
  next => trivial
  next =>
    split
    next => exact h
    next row hrow =>
      have hname : row.username = username := by simpa using List.find?_some hrow
      split
      next => exact ⟨h, hname⟩
      next => exact h

theorem pending_setCall (env : LoginEnv) (key : String) (phase : LoginPhase)
    (h : s.calls[i]? = some old) :
    (s.setCall i phase).pending env key + (if old.records env key then 1 else 0) =
      s.pending env key + (if phase.records env key then 1 else 0) := by
  obtain ⟨hi, hold⟩ := List.getElem?_eq_some_iff.mp h
  have hset := List.countP_set (p := (·.records env key)) (a := phase) hi
  have hpos : (if old.records env key then 1 else 0) ≤ s.calls.countP (·.records env key) := by
    split
    next hrecords =>
      exact List.countP_pos_iff.mpr ⟨old, List.mem_of_getElem? h, hrecords⟩
    next => exact Nat.zero_le _
  simp only [LoginSystem.pending, LoginSystem.setCall]
  rw [hset, hold]
  omega

theorem named_setCall (h : FailuresBooked env s) (hphase : phase.Named env) :
    ∀ p ∈ (s.setCall i phase).calls, p.Named env := by
  intro p hp
  rcases List.mem_or_eq_of_mem_set hp with hp | rfl
  · exact h.named p hp
  · exact hphase

/-- Steps that verify no password and clear nothing only have to keep the failures. -/
theorem FailuresBooked.keep (h : FailuresBooked env s) (hfailed : t.failed = s.failed)
    (hnow : t.now = s.now) (hnamed : ∀ phase ∈ t.calls, phase.Named env)
    (hcount : ∀ key start, s.now < start + secs 900 → start ≤ s.now →
      s.store.countSince key start + s.pending env key ≤
        t.store.countSince key start + t.pending env key) : FailuresBooked env t where
  past := by rw [hfailed, hnow]; exact h.past
  named := hnamed
  booked := by
    intro username start hstart
    rw [hnow] at hstart
    have hguesses : t.guessesSince username start = s.guessesSince username start := by
      simp only [LoginSystem.guessesSince, hfailed]
    rw [hguesses]
    by_cases hle : start ≤ s.now
    · exact (h.booked username start hstart).trans (hcount _ _ hstart hle)
    · have hzero : s.guessesSince username start = 0 := by
        refine List.countP_eq_zero.mpr fun g hg => ?_
        have := h.past g hg
        simp only [decide_eq_true_eq]
        rintro ⟨_, hge⟩
        exact hle (hge.trans this)
      rw [hzero]
      exact Nat.zero_le _
  holds := by
    intro username start
    rw [hfailed]
    exact h.holds username start

theorem booked_begin (h : FailuresBooked env s) :
    FailuresBooked env (s.begin env username password) := by
  refine h.keep rfl rfl ?_ ?_
  · intro phase hphase
    rcases List.mem_append.mp hphase with hphase | hphase
    · exact h.named phase hphase
    · cases List.mem_singleton.mp hphase
      exact (beginLogin_phase env s.store username password username s.now).1
  · intro key start hstart _
    have hphase := (beginLogin_phase env s.store username password key s.now).2
    have hpending : (s.begin env username password).pending env key = s.pending env key := by
      simp only [LoginSystem.pending, LoginSystem.begin, List.countP_append, List.countP_singleton,
        hphase]
      simp
    rw [hpending]
    exact Nat.add_le_add_right (beginLogin_countSince hstart s.store).ge _

/-- A call that goes on without recording anything. -/
theorem booked_setCall (h : FailuresBooked env s) (hold : s.calls[i]? = some old)
    (hphase : phase.Named env) (hsame : ∀ key, old.records env key = false) :
    FailuresBooked env (s.setCall i phase) := by
  refine h.keep rfl rfl (named_setCall h hphase) fun key start _ _ => ?_
  have hpending := pending_setCall env key phase hold
  rw [hsame key] at hpending
  refine Nat.add_le_add_left ?_ _
  simp only [Bool.false_eq_true, if_false, add_zero] at hpending
  omega

theorem booked_record {refusal : LoginError} (h : FailuresBooked env s)
    (hold : s.calls[i]? = some (.recording username refusal)) :
    FailuresBooked env { s.setCall i (.done (.error refusal)) with
      store := recordLoginFailure env s.store username s.now } := by
  have hkey : env.key username ≠ "" := h.named _ (List.mem_of_getElem? hold)
  refine h.keep rfl rfl (named_setCall h trivial) fun key start hstart hle => ?_
  have hpending := pending_setCall env key (.done (.error refusal)) hold
  simp only [LoginPhase.records, Bool.false_eq_true, if_false, add_zero, decide_eq_true_eq]
    at hpending
  by_cases heq : env.key username = key
  · subst heq
    rw [if_pos rfl] at hpending
    rw [LoginFailureStore.countSince_record_self hkey hle hstart]
    have : ∀ a b c : Nat, b + 1 = c → a + c ≤ a + 1 + b := by omega
    exact this _ _ _ hpending
  · rw [if_neg heq, add_zero] at hpending
    rw [LoginFailureStore.countSince_record_ne (Ne.symm heq)]
    exact Nat.add_le_add_left hpending.ge _

/-- A wrong password that is verified in time. -/
theorem booked_wrong {refusal : LoginError} (h : FailuresBooked env s)
    (hold : s.calls[i]? = some (.verifying row username password))
    (hlimit : s.store.recent (env.key username) s.now + s.pending env (env.key username) < 8) :
    FailuresBooked env { s.setCall i (.recording username refusal) with
      failed := (row.username, s.now) :: s.failed } := by
  obtain ⟨hkey, hname⟩ := h.named _ (List.mem_of_getElem? hold)
  have hguesses : ∀ user start, s.now < start + secs 900 →
      ((row.username, s.now) :: s.failed).countP
        (fun g => decide (g.1 = user ∧ start ≤ g.2)) ≤
      s.store.countSince (env.key user) start +
        (s.setCall i (.recording username refusal)).pending env (env.key user) := by
    intro user start hstart
    have hbefore := h.booked user start hstart
    have hpending := pending_setCall env (env.key user) (.recording username refusal) hold
    simp only [LoginPhase.records, Bool.false_eq_true, if_false, add_zero, decide_eq_true_eq]
      at hpending
    rw [List.countP_cons, hpending]
    unfold LoginSystem.guessesSince at hbefore
    by_cases huser : row.username = user
    · have hsame : env.key username = env.key user := by rw [← huser, hname]
      rw [if_pos hsame, ← Nat.add_assoc]
      refine Nat.add_le_add hbefore ?_
      split <;> simp
    · rw [if_neg (by simp [huser]), add_zero]
      exact hbefore.trans (by omega)
  refine ⟨?_, named_setCall h hkey, hguesses, ?_⟩
  · intro g hg
    rcases List.mem_cons.mp hg with rfl | hg
    · exact le_rfl
    · exact h.past g hg
  · intro user start
    by_cases hin : row.username = user ∧ start ≤ s.now ∧ s.now < start + secs 900
    · obtain ⟨rfl, hle, hstart⟩ := hin
      have hbefore := h.booked row.username start hstart
      rw [hname] at hbefore
      have hrecent := LoginFailureStore.countSince_le_recent s.store (env.key username)
        hstart
      have hwindow : s.failed.countP (fun g => decide
          (g.1 = row.username ∧ start ≤ g.2 ∧ g.2 < start + secs 900)) ≤
          s.guessesSince row.username start := by
        refine List.countP_mono_left fun g _ hg => ?_
        simp only [decide_eq_true_eq] at hg ⊢
        exact ⟨hg.1, hg.2.1⟩
      rw [hname] at hwindow
      simp only [hname] at hwindow ⊢
      rw [List.countP_cons_of_pos (by simp [hle, hstart])]
      omega
    · rw [List.countP_cons_of_neg (by simpa using hin)]
      exact h.holds user start

theorem booked_verify (h : FailuresBooked env s)
    (hold : s.calls[i]? = some (.verifying row username password))
    (hlimit : env.verifyPassword password row.passwordHash = some false →
      s.store.recent (env.key username) s.now + s.pending env (env.key username) < 8) :
    FailuresBooked env (s.verify env i row username password) := by
  obtain ⟨hkey, hname⟩ := h.named _ (List.mem_of_getElem? hold)
  unfold LoginSystem.verify
  simp only
  split
  next hwrong =>
    have hphase : verifyLogin env row username password =
        .recording username ⟨401, "Invalid username or password"⟩ := by
      simp [verifyLogin, hwrong]
    rw [hphase]
    exact booked_wrong h hold (hlimit hwrong)
  next hnot =>
    refine booked_setCall h hold ?_ fun _ => rfl
    unfold verifyLogin
    split
    next => exact hname
    next hwrong => exact absurd hwrong hnot
    next => trivial

/-- A login clears the failures of its name, of which the recent ones are its account's. -/
theorem booked_issue {result : TokenResult} (h : FailuresBooked env s)
    (hold : s.calls[i]? = some (.issuing row username))
    (hown : ∀ text, result = .token text → ∀ g ∈ s.failed, env.key g.1 = env.key username →
      g.1 = row.username ∨ g.2 + secs 900 ≤ s.now) :
    FailuresBooked env (s.issue env i row username result) := by
  have hset : FailuresBooked env (s.setCall i (.done (issueToken row result))) :=
    booked_setCall h hold trivial fun _ => rfl
  unfold LoginSystem.issue
  simp only
  split
  next hok =>
    obtain ⟨text, rfl⟩ : ∃ text, result = .token text := by
      cases result with
      | noApiKey message => simp [issueToken, Except.isOk, Except.toBool] at hok
      | notEncoded => simp [issueToken, Except.isOk, Except.toBool] at hok
      | token text => exact ⟨text, rfl⟩
    refine ⟨fun g hg => hset.past g (List.mem_filter.mp hg).1, hset.named, ?_, ?_⟩
    · intro user start hstart
      by_cases hzero : (s.failed.filter (·.1 ≠ row.username)).countP
          (fun g => decide (g.1 = user ∧ start ≤ g.2)) = 0
      · exact hzero.le.trans (Nat.zero_le _)
      · obtain ⟨g, hg, hguess⟩ := List.countP_pos_iff.mp (Nat.pos_of_ne_zero hzero)
        obtain ⟨hmem, hother⟩ := List.mem_filter.mp hg
        simp only [decide_eq_true_eq] at hguess hother
        obtain ⟨rfl, hle⟩ := hguess
        have hkey : env.key g.1 ≠ env.key username := by
          intro heq
          have hold := (hown text rfl g hmem heq).resolve_left hother
          have := (hstart.trans_le (Nat.add_le_add_right hle (secs 900))).trans_le hold
          exact absurd this (lt_irrefl _)
        have hbefore := hset.booked g.1 start hstart
        rw [LoginFailureStore.countSince_clear_ne hkey]
        refine Nat.le_trans ?_ hbefore
        exact List.filter_sublist.countP_le
    · intro user start
      exact (List.filter_sublist.countP_le).trans (hset.holds user start)
  next => exact hset

theorem booked_tick (h : FailuresBooked env s) (nanos : Nat) :
    FailuresBooked env { s with now := s.now + nanos } where
  past g hg := (h.past g hg).trans (Nat.le_add_right _ _)
  named := h.named
  booked username start hstart :=
    h.booked username start ((Nat.le_add_right _ _).trans_lt hstart)
  holds := h.holds

theorem failuresBooked_step {e : LoginEvent} (h : FailuresBooked env s)
    (hcounted : CountedInTime env s e) (hstep : loginStep env s e = some t) :
    FailuresBooked env t := by
  cases e with
  | call username password =>
    cases Option.some.inj hstep
    exact booked_begin h
  | answer i query =>
    simp only [loginStep] at hstep
    split at hstep
    next username password hcall =>
      cases Option.some.inj hstep
      have hkey := h.named _ (List.mem_of_getElem? hcall)
      exact booked_setCall h hcall (answerLogin_named hkey query) fun _ => rfl
    next => simp at hstep
  | verify i =>
    simp only [loginStep] at hstep
    split at hstep
    next row username password hcall =>
      cases Option.some.inj hstep
      refine booked_verify h hcall ?_
      simpa only [CountedInTime, hcall] using hcounted
    next => simp at hstep
  | record i =>
    simp only [loginStep] at hstep
    split at hstep
    next username refusal hcall =>
      cases Option.some.inj hstep
      exact booked_record h hcall
    next => simp at hstep
  | issue i result =>
    simp only [loginStep] at hstep
    split at hstep
    next row username hcall =>
      cases Option.some.inj hstep
      refine booked_issue h hcall ?_
      rintro text rfl
      simpa only [CountedInTime, hcall] using hcounted
    next => simp at hstep
  | tick nanos =>
    cases Option.some.inj hstep
    exact booked_tick h nanos

/-- For every interleaving of calls the lockout holds as long as every wrong password is counted
in time. -/
theorem lockout_holds_of_counted (env : LoginEnv) (users : List LoginRow) (now : Time)
    (events : List LoginEvent)
    (hcounted : Runs.Meets (loginStep env) (CountedInTime env) (LoginSystem.init users now) events) :
    Runs.Throughout (loginStep env) LockoutHolds (LoginSystem.init users now) events := by
  have hstart : FailuresBooked env (LoginSystem.init users now) := by
    refine ⟨?_, ?_, ?_, ?_⟩
    · simp [LoginSystem.init]
    · simp [LoginSystem.init]
    · simp [LoginSystem.init, LoginSystem.guessesSince]
    · simp [LockoutHolds, LoginSystem.init]
  have hbooked := Runs.throughout_of_meets
    (fun _ _ _ h hcond hstep => failuresBooked_step h hcond hstep) hstart hcounted
  exact Runs.throughout_mono (fun _ h => h.holds) hbooked

/-- Plain texts in place of hashes, and the ASCII part of the normalisation. -/
def sampleLoginEnv : LoginEnv where
  trim username := String.ofList
    (((username.toList.dropWhile Char.isWhitespace).reverse.dropWhile Char.isWhitespace).reverse)
  toLowercase username := String.ofList (username.toList.map Char.toLower)
  verifyPassword password hash := some (decide (password = hash))

def sampleUser : LoginRow :=
  { id := 1, username := "bob", passwordHash := "secret", role := "user", isActive := true }

/-- A wrong password, a wrong name that is counted with it, then a login. -/
theorem lockout_holds_serial :
    Runs.Throughout (loginStep sampleLoginEnv) LockoutHolds (LoginSystem.init [sampleUser] 0)
      [.call "bob" "guess", .answer 0 .answered, .verify 0, .record 0,
        .call " Bob" "guess", .answer 1 .answered, .record 1, .tick 1000,
        .call "bob" "secret", .answer 2 .answered, .verify 2, .issue 2 (.token "token")] :=
  lockout_holds_of_counted sampleLoginEnv [sampleUser] 0 _ (by decide +kernel)

/-- Nine calls pass the check before any of them has failed. -/
theorem concurrent_guesses_pass :
    ¬ ∀ (env : LoginEnv) (users : List LoginRow) (now : Time) (events : List LoginEvent),
      Runs.Throughout (loginStep env) LockoutHolds (LoginSystem.init users now) events := by
  intro h
  let events : List LoginEvent := List.replicate 9 (.call "bob" "guess") ++
    (List.range 9).map (fun i => .answer i .answered) ++ (List.range 9).map .verify
  have hfailed : (Runs.exec (loginStep sampleLoginEnv) (LoginSystem.init [sampleUser] 0) events).map
      (·.failed) = some (List.replicate 9 ("bob", 0)) := by decide +kernel
  obtain ⟨t, ht, hlist⟩ := Option.map_eq_some_iff.mp hfailed
  have hholds := Runs.throughout_last (h sampleLoginEnv [sampleUser] 0 events) ht "bob" 0
  rw [hlist] at hholds
  revert hholds
  decide +kernel

end Reminisce

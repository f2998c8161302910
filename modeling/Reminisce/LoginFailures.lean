import Reminisce.Library.Keyed
import Reminisce.PeerSync

namespace Reminisce

/-- `str::trim` and `str::to_lowercase`, and the check of a password against its stored hash, whose
result is `none` when the hash is malformed. -/
structure LoginEnv where
  trim : String → String
  toLowercase : String → String
  verifyPassword : (password hash : String) → Option Bool

def LoginEnv.key (env : LoginEnv) (username : String) : String :=
  env.toLowercase (env.trim username)

def loginFailureThreshold : Nat := 8

def loginFailureWindowSecs : Nat := 900

/-- The failures of each normalised name, in an order of the map's iteration. -/
structure LoginFailureStore where
  entries : List (String × List Time)
  nodup : (entries.map Prod.fst).Nodup
  deriving DecidableEq

def isRecent (now t : Time) : Bool := (now - t) / nanosPerSec < loginFailureWindowSecs

namespace LoginFailureStore

def empty : LoginFailureStore := ⟨[], List.nodup_nil⟩

def get (store : LoginFailureStore) (key : String) : Option (List Time) :=
  (store.entries.find? (·.1 = key)).map Prod.snd

def put (store : LoginFailureStore) (key : String) (failures : List Time) : LoginFailureStore :=
  ⟨Keyed.put Prod.fst store.entries (key, failures), Keyed.nodup_put store.nodup (key, failures)⟩

def remove (store : LoginFailureStore) (key : String) : LoginFailureStore :=
  ⟨store.entries.filter (·.1 ≠ key), store.nodup.sublist (List.filter_sublist.map _)⟩

theorem nodup_trimmed {entries : List (String × List Time)} (h : (entries.map Prod.fst).Nodup)
    (trim : List Time → List Time) :
    (((entries.map fun e => (e.1, trim e.2)).filter fun e => e.2 ≠ []).map Prod.fst).Nodup := by
  refine List.Nodup.sublist (List.filter_sublist.map _) ?_
  rw [List.map_map]
  exact h

/-- `retain` with a closure that first shortens each list and then asks whether it is empty. -/
def retainTrimmed (store : LoginFailureStore) (trim : List Time → List Time) :
    LoginFailureStore :=
  ⟨(store.entries.map fun e => (e.1, trim e.2)).filter fun e => e.2 ≠ [],
    nodup_trimmed store.nodup trim⟩

end LoginFailureStore

def loginAllowedForAccount (env : LoginEnv) (store : LoginFailureStore) (username : String)
    (now : Time) : LoginFailureStore × Bool :=
  let key := env.key username
  if key = "" then (store, false)
  else
    let (store, allowed) :=
      match store.get key with
      | some failures =>
        let failures := failures.filter (isRecent now)
        (store.put key failures, decide (failures.length < loginFailureThreshold))
      | none => (store, true)
    if 500 < store.entries.length then (store.retainTrimmed (·.filter (isRecent now)), allowed)
    else (store, allowed)

def recordLoginFailure (env : LoginEnv) (store : LoginFailureStore) (username : String)
    (now : Time) : LoginFailureStore :=
  let key := env.key username
  if key = "" then store
  else
    let failures := (store.get key).getD [] ++ [now]
    (store.put key (failures.filter (isRecent now))).retainTrimmed id

def clearLoginFailures (env : LoginEnv) (store : LoginFailureStore) (username : String) :
    LoginFailureStore :=
  let key := env.key username
  if key = "" then store else store.remove key

namespace LoginFailureStore

/-- How many failures of a name are stored from some moment on. -/
def countSince (store : LoginFailureStore) (key : String) (start : Time) : Nat :=
  ((store.get key).getD []).countP fun t => decide (start ≤ t)

variable {env : LoginEnv} {store : LoginFailureStore} {key other username : String}
  {failures : List Time} {start now t : Time}

theorem isRecent_iff : isRecent now t = true ↔ now < t + secs 900 := by
  have hsub : ∀ a b window : Nat, 0 < window → (a - b < window ↔ a < b + window) := by omega
  unfold isRecent loginFailureWindowSecs
  rw [decide_eq_true_eq, Nat.div_lt_iff_lt_mul (by decide)]
  exact hsub now t (secs 900) (by decide)

theorem get_put_self (store : LoginFailureStore) (key : String) (failures : List Time) :
    (store.put key failures).get key = some failures := by
  unfold get put
  rw [Keyed.find_put_self Prod.fst store.entries (key, failures)]
  rfl

theorem get_put_ne (h : other ≠ key) : (store.put key failures).get other = store.get other := by
  unfold get put
  rw [Keyed.find_put_ne (key, failures) h]

theorem get_remove_ne (h : other ≠ key) : (store.remove key).get other = store.get other := by
  unfold get remove
  rw [List.find?_filter]
  congr 2
  funext e
  by_cases he : e.1 = other <;> simp [he, h]

theorem find_trimmed {entries : List (String × List Time)} (h : (entries.map Prod.fst).Nodup)
    (trim : List Time → List Time) (key : String) :
    ((((entries.map fun e => (e.1, trim e.2)).filter fun e => e.2 ≠ []).find? (·.1 = key)).map
      Prod.snd).getD [] = (((entries.find? (·.1 = key)).map Prod.snd).map trim).getD [] := by
  induction entries with
  | nil => rfl
  | cons e rest ih =>
    obtain ⟨hnew, hrest⟩ := List.nodup_cons.mp h
    have ih := ih hrest
    by_cases hkey : e.1 = key
    · by_cases hempty : trim e.2 = []
      · have hnone : rest.find? (·.1 = key) = none := by
          refine List.find?_eq_none.mpr fun x hx heq => hnew ?_
          simp only [decide_eq_true_eq] at heq
          rw [hkey, ← heq]
          exact List.mem_map_of_mem hx
        rw [hnone] at ih
        simpa [hkey, hempty] using ih
      · simp [hkey, hempty]
    · by_cases hempty : trim e.2 = []
      · simpa [hkey, hempty] using ih
      · simpa [hkey, hempty] using ih

/-- Entries that become empty are the only ones to go. -/
theorem get_retainTrimmed (store : LoginFailureStore) (trim : List Time → List Time)
    (key : String) :
    ((store.retainTrimmed trim).get key).getD [] = ((store.get key).map trim).getD [] :=
  find_trimmed store.nodup trim key

/-- A failure from `start` on that is recent at `now` outlives the trimming. -/
theorem countP_recent (hstart : now < start + secs 900) (failures : List Time) :
    (failures.filter (isRecent now)).countP (fun t => decide (start ≤ t)) =
      failures.countP fun t => decide (start ≤ t) := by
  rw [List.countP_filter]
  refine List.countP_congr fun t _ => ?_
  simp only [Bool.and_eq_true, decide_eq_true_eq, isRecent_iff, and_iff_left_iff_imp]
  intro hle
  exact hstart.trans_le (Nat.add_le_add_right hle _)

theorem countSince_put_self (store : LoginFailureStore) (key : String) (failures : List Time)
    (start : Time) :
    (store.put key failures).countSince key start =
      failures.countP fun t => decide (start ≤ t) := by
  unfold countSince
  rw [get_put_self]
  rfl

theorem countSince_put_ne (h : other ≠ key) :
    (store.put key failures).countSince other start = store.countSince other start := by
  unfold countSince
  rw [get_put_ne h]

theorem countSince_retainTrimmed (trim : List Time → List Time)
    (htrim : ∀ failures : List Time, (trim failures).countP (fun t => decide (start ≤ t)) =
      failures.countP fun t => decide (start ≤ t)) :
    (store.retainTrimmed trim).countSince key start = store.countSince key start := by
  unfold countSince
  rw [get_retainTrimmed]
  cases store.get key with
  | none => rfl
  | some failures => exact htrim failures

/-- The check forgets no failure that is still recent. -/
theorem countSince_loginAllowed (hstart : now < start + secs 900) (username : String)
    (key : String) :
    (loginAllowedForAccount env store username now).1.countSince key start =
      store.countSince key start := by
  have hsweep : ∀ s : LoginFailureStore,
      (s.retainTrimmed (·.filter (isRecent now))).countSince key start = s.countSince key start :=
    fun s => countSince_retainTrimmed _ (countP_recent hstart)
  have hkept : ∀ failures, store.get (env.key username) = some failures →
      (store.put (env.key username) (failures.filter (isRecent now))).countSince key start =
        store.countSince key start := by
    intro failures hget
    by_cases hkey : key = env.key username
    · subst hkey
      rw [countSince_put_self, countP_recent hstart, countSince, hget]
      rfl
    · exact countSince_put_ne hkey
  unfold loginAllowedForAccount
  simp only
  split
  next => rfl
  next =>
    split
    next failures hget =>
      split
      next => rw [hsweep]; exact hkept failures hget
      next => exact hkept failures hget
    next =>
      split
      next => rw [hsweep]
      next => rfl

/-- A recorded failure is counted under its name. -/
theorem countSince_record_self (hkey : env.key username ≠ "") (hle : start ≤ now)
    (hstart : now < start + secs 900) :
    (recordLoginFailure env store username now).countSince (env.key username) start =
      store.countSince (env.key username) start + 1 := by
  unfold recordLoginFailure
  simp only
  rw [if_neg hkey, countSince_retainTrimmed id fun _ => rfl, countSince_put_self,
    countP_recent hstart, List.countP_append, List.countP_singleton, if_pos (by simpa using hle)]
  rfl

theorem countSince_record_ne (h : key ≠ env.key username) :
    (recordLoginFailure env store username now).countSince key start =
      store.countSince key start := by
  unfold recordLoginFailure
  simp only
  split
  next => rfl
  next => rw [countSince_retainTrimmed id fun _ => rfl, countSince_put_ne h]

theorem countSince_clear_ne (h : key ≠ env.key username) :
    (clearLoginFailures env store username).countSince key start = store.countSince key start := by
  unfold clearLoginFailures
  simp only
  split
  next => rfl
  next =>
    unfold countSince
    rw [get_remove_ne h]

/-- The failures stored for a name that the window still holds. -/
def recent (store : LoginFailureStore) (key : String) (now : Time) : Nat :=
  ((store.get key).getD []).countP (isRecent now)

theorem countSince_le_recent (store : LoginFailureStore) (key : String)
    (hstart : now < start + secs 900) :
    store.countSince key start ≤ store.recent key now := by
  refine List.countP_mono_left fun t _ hle => ?_
  simp only [decide_eq_true_eq] at hle
  exact isRecent_iff.mpr (hstart.trans_le (Nat.add_le_add_right hle _))

end LoginFailureStore

end Reminisce

import Reminisce.AccountRuns
import Reminisce.MachineInts
import Reminisce.ReferencePrimitives

namespace Reminisce

def ActiveAdmin (users : List UserAccount) (id : UserId) : Prop :=
  ∃ user ∈ users, user.id = id ∧ user.isAdmin = true

instance {users : List UserAccount} {id : UserId} : Decidable (ActiveAdmin users id) :=
  inferInstanceAs (Decidable (∃ _ ∈ _, _))

/-- At most one setup succeeded, and since then there is an active administrator. -/
def AdminKept (s : AccountState) : Prop :=
  s.setups ≤ 1 ∧ (1 ≤ s.setups → ∃ user ∈ s.users, user.isAdmin = true)

instance : DecidablePred AdminKept := fun _ => inferInstanceAs (Decidable (_ ∧ (_ → ∃ _ ∈ _, _)))

/-- An accepted update that takes the administrator's role or the account away. -/
def UpdateUserRequest.Demotes (request : UpdateUserRequest) : Prop :=
  (request.role = some "user" ∨ request.role = some "viewer" ∨ request.isActive = some false) ∧
    (∀ role ∈ request.role, role ∈ memberRoles) ∧
      ∀ password ∈ request.password, 8 ≤ password.utf8ByteSize

instance (request : UpdateUserRequest) : Decidable request.Demotes :=
  inferInstanceAs (Decidable (_ ∧ (∀ _ ∈ _, _) ∧ ∀ _ ∈ _, _))

/-- The user that a request deletes, deactivates or demotes. -/
def UserRequest.removes (fmt : UuidFormat) : UserRequest → Option UserId
  | .create _ => none
  | .update path request => if request.Demotes then fmt.parse path else none
  | .delete path => fmt.parse path

/-- An administrator is removed by another user who is still an administrator. -/
def RemovedByAdmin (fmt : UuidFormat) (users : List UserAccount) (claims : Claims)
    (request : UserRequest) : Prop :=
  claims.role = "admin" → ∀ target ∈ request.removes fmt, ActiveAdmin users target →
    fmt.toText target ≠ claims.userId →
      ∃ requester ∈ fmt.parse claims.userId, requester ≠ target ∧ ActiveAdmin users requester

instance {fmt : UuidFormat} {users : List UserAccount} {claims : Claims} {request : UserRequest} :
    Decidable (RemovedByAdmin fmt users claims request) :=
  inferInstanceAs (Decidable (_ → ∀ _ ∈ _, _ → _ → ∃ _ ∈ _, _))

def KeepsAdmin (fmt : UuidFormat) (s : AccountState) : AccountEvent → Prop
  | .handle i _ =>
    match s.requestOf i with
    | some (.authorised claims request) => RemovedByAdmin fmt s.users claims request
    | _ => True
  | _ => True

instance {fmt : UuidFormat} {s : AccountState} : DecidablePred (KeepsAdmin fmt s)
  | .handle i _ => by
    unfold KeepsAdmin
    dsimp only
    split
    · infer_instance
    · exact isTrue trivial
  | .authenticate .. | .remember .. | .invalidate _ | .beginSetup .. | .commitSetup _ =>
    isTrue trivial

/-- The setup that holds the lock is the first. -/
structure AdminInv (s : AccountState) : Prop where
  kept : AdminKept s
  first : s.setup ≠ none → s.setups = 0

variable {fmt : UuidFormat} {users after : List UserAccount} {claims : Claims} {path : String}
  {io : AccountIo} {target : UserId} {s t : AccountState} {i : Nat}

theorem applyUpdate_other {request : UpdateUserRequest} {user : UserAccount} (hmem : user ∈ users)
    (hid : user.id ≠ target) : user ∈ applyUpdate target request users :=
  List.mem_map.mpr ⟨user, hmem, if_neg hid⟩

/-- An update that does not demote leaves an administrator one. -/
theorem applyUpdate_keeps {request : UpdateUserRequest} {user : UserAccount} (hmem : user ∈ users)
    (hadmin : user.isAdmin = true) (hroles : ∀ role ∈ request.role, role ∈ memberRoles)
    (hkeeps : request.role ≠ some "user" ∧ request.role ≠ some "viewer" ∧
      request.isActive ≠ some false) :
    ∃ kept ∈ applyUpdate target request users, kept.isAdmin = true := by
  by_cases hid : user.id = target
  · have hchanged := List.mem_map_of_mem (f := fun user : UserAccount => if user.id = target then
      { user with
        role := request.role.getD user.role
        isActive := request.isActive.getD user.isActive }
      else user) hmem
    refine ⟨_, hchanged, ?_⟩
    rw [if_pos hid]
    simp only [UserAccount.isAdmin, Bool.and_eq_true, decide_eq_true_eq] at hadmin ⊢
    constructor
    · cases hrole : request.role with
      | none => exact hadmin.1
      | some role =>
        have hmember := hroles role hrole
        simp only [memberRoles, List.mem_cons, List.not_mem_nil, or_false] at hmember
        rcases hmember with rfl | rfl | rfl
        · rfl
        · exact absurd hrole hkeeps.1
        · exact absurd hrole hkeeps.2.1
    · cases hactive : request.isActive with
      | none => exact hadmin.2
      | some active =>
        cases active with
        | true => rfl
        | false => exact absurd hactive hkeeps.2.2
  · exact ⟨user, applyUpdate_other hmem hid, hadmin⟩

/-- The administrator that is left when another user than the target is one. -/
theorem admin_left (hexists : ∃ user ∈ users, user.isAdmin = true)
    (hremoved : ActiveAdmin users target →
      ∃ requester, requester ≠ target ∧ ActiveAdmin users requester) :
    ∃ user ∈ users, user.id ≠ target ∧ user.isAdmin = true := by
  obtain ⟨user, hmem, hadmin⟩ := hexists
  by_cases hid : user.id = target
  · obtain ⟨requester, hne, other, hother, rfl, hotherAdmin⟩ := hremoved ⟨user, hmem, hid, hadmin⟩
    exact ⟨other, hother, hne, hotherAdmin⟩
  · exact ⟨user, hmem, hid, hadmin⟩

theorem updateUser_keeps {request : UpdateUserRequest}
    (hexists : ∃ user ∈ users, user.isAdmin = true)
    (hcond : RemovedByAdmin fmt users claims (.update path request))
    (h : updateUser fmt users claims path request io = .ok (target, after)) :
    ∃ user ∈ after, user.isAdmin = true := by
  obtain ⟨hrole, hparse, hguard, htx⟩ := updateUser_ok h
  obtain ⟨rfl, hroles, hpasswords⟩ := updateInTransaction_ok htx
  by_cases hdemotes : request.Demotes
  · have hself : fmt.toText target ≠ claims.userId := by
      intro hself
      obtain ⟨huser, hviewer, hactive⟩ := hguard hself
      rcases hdemotes.1 with hr | hr | ha
      · exact huser hr
      · exact hviewer hr
      · exact hactive ha
    have hremoves : target ∈ (UserRequest.update path request).removes fmt := by
      show (if request.Demotes then fmt.parse path else none) = some target
      rw [if_pos hdemotes, hparse]
    obtain ⟨user, hmem, hid, hadmin⟩ := admin_left hexists fun hactive => by
      obtain ⟨requester, _, hne, hrequester⟩ := hcond hrole target hremoves hactive hself
      exact ⟨requester, hne, hrequester⟩
    exact ⟨user, applyUpdate_other hmem hid, hadmin⟩
  · obtain ⟨user, hmem, hadmin⟩ := hexists
    refine applyUpdate_keeps hmem hadmin hroles ⟨fun hr => ?_, fun hr => ?_, fun ha => ?_⟩
    · exact hdemotes ⟨Or.inl hr, hroles, hpasswords⟩
    · exact hdemotes ⟨Or.inr (Or.inl hr), hroles, hpasswords⟩
    · exact hdemotes ⟨Or.inr (Or.inr ha), hroles, hpasswords⟩

theorem deleteUser_keeps (hexists : ∃ user ∈ users, user.isAdmin = true)
    (hcond : RemovedByAdmin fmt users claims (.delete path))
    (h : deleteUser fmt users claims path io = .ok (target, after)) :
    ∃ user ∈ after, user.isAdmin = true := by
  obtain ⟨hrole, hparse, hself, rfl⟩ := deleteUser_ok h
  obtain ⟨user, hmem, hid, hadmin⟩ := admin_left hexists fun hactive => by
    obtain ⟨requester, _, hne, hrequester⟩ := hcond hrole target hparse hactive hself
    exact ⟨requester, hne, hrequester⟩
  exact ⟨user, List.mem_filter.mpr ⟨hmem, by simpa using hid⟩, hadmin⟩

/-- A step that counts no setup and leaves an administrator if there was one. -/
theorem AdminInv.next (h : AdminInv s) (hsetups : t.setups = s.setups) (hsetup : t.setup = s.setup)
    (husers : (∃ user ∈ s.users, user.isAdmin = true) → ∃ user ∈ t.users, user.isAdmin = true) :
    AdminInv t := by
  refine ⟨⟨?_, fun hpos => ?_⟩, fun hpending => ?_⟩
  · rw [hsetups]
    exact h.kept.1
  · rw [hsetups] at hpos
    exact husers (h.kept.2 hpos)
  · rw [hsetups]
    rw [hsetup] at hpending
    exact h.first hpending

theorem commitChange_inv {result : Except AccountResponse (UserId × List UserAccount)}
    (h : AdminInv s) (hkeeps : ∀ target after, result = .ok (target, after) →
      (∃ user ∈ s.users, user.isAdmin = true) → ∃ user ∈ after, user.isAdmin = true) :
    AdminInv (commitChange s i result) := by
  unfold commitChange
  split
  next target after => exact h.next rfl rfl (hkeeps target after rfl)
  next => exact h.next rfl rfl id

theorem handleUserRequest_inv {request : UserRequest} (h : AdminInv s)
    (hcond : RemovedByAdmin fmt s.users claims request) :
    AdminInv (handleUserRequest fmt s i claims io request) := by
  cases request with
  | create request =>
    unfold handleUserRequest
    dsimp only
    split
    next after hafter =>
      obtain ⟨new, rfl⟩ := createUser_ok hafter
      refine h.next rfl rfl fun hexists => ?_
      obtain ⟨user, hmem, hadmin⟩ := hexists
      exact ⟨user, List.mem_append_left _ hmem, hadmin⟩
    next => exact h.next rfl rfl id
  | update path request =>
    exact commitChange_inv h fun _ _ hok hexists => updateUser_keeps hexists hcond hok
  | delete path =>
    exact commitChange_inv h fun _ _ hok hexists => deleteUser_keeps hexists hcond hok

theorem beginSetup_inv {request : SetupRequest} (h : AdminInv s)
    (hok : beginSetup s request io = .ok t) : AdminInv t := by
  unfold beginSetup at hok
  split_ifs at hok with _ _ _ _ hcount
  cases Except.ok.inj hok
  have hempty : s.users = [] := List.length_eq_zero_iff.mp (by omega)
  refine ⟨h.kept, fun _ => ?_⟩
  have hzero : ¬1 ≤ s.setups := by
    intro hpos
    obtain ⟨user, hmem, _⟩ := h.kept.2 hpos
    rw [hempty] at hmem
    simp at hmem
  show s.setups = 0
  omega

theorem commitSetup_inv {request : SetupRequest} (h : AdminInv s) (hpending : s.setup = some request) :
    AdminInv (commitSetup s request io) := by
  have hzero : s.setups = 0 := h.first (by simp [hpending])
  unfold commitSetup
  split
  next =>
    refine ⟨⟨?_, fun _ => ?_⟩, fun hnone => absurd rfl hnone⟩
    · show s.setups + 1 ≤ 1
      omega
    · exact ⟨_, List.mem_append_right _ (List.mem_singleton_self _), rfl⟩
  next => exact ⟨h.kept, fun hnone => absurd rfl hnone⟩

theorem accountStep_inv {e : AccountEvent} (h : AdminInv s) (hcond : KeepsAdmin fmt s e)
    (hstep : accountStep fmt s e = some t) : AdminInv t := by
  cases e with
  | authenticate token request queried now =>
    simp only [accountStep] at hstep
    split at hstep
    next => cases Option.some.inj hstep; exact h.next rfl rfl id
    next => cases Option.some.inj hstep; exact h
  | remember i now =>
    obtain ⟨status, _, rfl⟩ := Option.map_eq_some_iff.mp hstep
    exact h.next rfl rfl id
  | handle i io =>
    simp only [accountStep] at hstep
    unfold KeepsAdmin at hcond
    dsimp only at hcond
    cases hrequest : s.requestOf i with
    | none => simp [hrequest] at hstep
    | some pending =>
      cases pending with
      | committed => simp [hrequest] at hstep
      | authorised claims request =>
        rw [hrequest] at hstep hcond
        cases Option.some.inj hstep
        exact handleUserRequest_inv h hcond
  | invalidate i =>
    simp only [accountStep] at hstep
    split at hstep
    next => cases Option.some.inj hstep; exact h.next rfl rfl id
    next => simp at hstep
  | beginSetup request io =>
    simp only [accountStep] at hstep
    split at hstep
    next =>
      split at hstep
      next hok => cases Option.some.inj hstep; exact beginSetup_inv h hok
      next => cases Option.some.inj hstep; exact h
    next => simp at hstep
  | commitSetup io =>
    obtain ⟨request, hpending, rfl⟩ := Option.map_eq_some_iff.mp hstep
    exact commitSetup_inv h hpending

/-- While administrators are removed only by others who still are administrators, there is one
after the setup, and only one setup succeeds. -/
theorem admin_kept_of_removed_by_admin (fmt : UuidFormat) (users : List UserAccount)
    (events : List AccountEvent)
    (h : Runs.Meets (accountStep fmt) (KeepsAdmin fmt) (AccountState.start users) events) :
    Runs.Throughout (accountStep fmt) AdminKept (AccountState.start users) events := by
  have hstart : AdminInv (AccountState.start users) :=
    ⟨⟨Nat.zero_le 1, fun hpos => absurd hpos (Nat.not_succ_le_zero 0)⟩, fun hnone => absurd rfl hnone⟩
  have hinv : Runs.Throughout (accountStep fmt) AdminInv (AccountState.start users) events :=
    Runs.throughout_of_meets (fun _ _ _ hs hc hstep => accountStep_inv hs hc hstep) hstart h
  exact Runs.throughout_mono (fun _ hs => hs.kept) hinv

/-- The hyphenated form of a UUID in lower case, and its spellings with digits of either case. -/
def referenceUuidFormat : UuidFormat where
  parse text := referenceUuid (String.ofList ((text.toList.filter (· ≠ '-')).map Char.toLower))
  toText id :=
    let digits := Hex.encode (toBeBytes 16 id)
    String.ofList (digits.take 8 ++ '-' :: (digits.drop 8).take 4 ++ '-' :: (digits.drop 12).take 4 ++
      '-' :: (digits.drop 16).take 4 ++ '-' :: digits.drop 20)

def AccountIo.smooth (newId : UserId) : AccountIo :=
  { connected := true, began := true, queried := true, hashed := true, stored := true
    committed := true, newId }

def tokenOf (userId : String) : Claims := { userId, username := "", role := "", scope := none }

def firstId : String := "00000000-0000-0000-0000-00000000000a"
def secondId : String := "00000000-0000-0000-0000-00000000000b"

def demote : UpdateUserRequest := { role := some "user", isActive := none, password := none }

/-- A setup, and a second administrator that the first one creates. -/
def twoAdmins : List AccountEvent :=
  [.beginSetup ⟨"first", "password"⟩ (.smooth 0), .commitSetup (.smooth 10),
    .authenticate (tokenOf firstId) (.create ⟨"second", "password", some "admin"⟩) true 0,
    .handle 0 (.smooth 11)]

theorem admin_kept_one_by_one :
    Runs.Throughout (accountStep referenceUuidFormat) AdminKept (AccountState.start [])
      (twoAdmins ++ [.authenticate (tokenOf firstId) (.update secondId demote) true 0,
        .handle 1 (.smooth 0), .invalidate 1,
        .authenticate (tokenOf firstId) (.update firstId demote) true 0, .handle 2 (.smooth 0),
        .authenticate (tokenOf firstId) (.delete secondId) true 0, .handle 3 (.smooth 0),
        .beginSetup ⟨"third", "password"⟩ (.smooth 0)]) :=
  admin_kept_of_removed_by_admin _ _ _ (by decide +kernel)

/-- Two administrators who were both authenticated demote each other; and one whose token spells
the id in capitals deletes the own account, after which a second setup succeeds. -/
theorem last_admin_removed :
    (¬Runs.Throughout (accountStep referenceUuidFormat) AdminKept (AccountState.start [])
        (twoAdmins ++ [.authenticate (tokenOf firstId) (.update secondId demote) true 0,
          .authenticate (tokenOf secondId) (.update firstId demote) true 0,
          .handle 1 (.smooth 0), .handle 2 (.smooth 0)])) ∧
      ¬Runs.Throughout (accountStep referenceUuidFormat) (fun s => s.setups ≤ 1)
        (AccountState.start [])
        [.beginSetup ⟨"first", "password"⟩ (.smooth 0), .commitSetup (.smooth 10),
          .authenticate (tokenOf "00000000-0000-0000-0000-00000000000A") (.delete firstId) true 0,
          .handle 0 (.smooth 0), .beginSetup ⟨"other", "password"⟩ (.smooth 0),
          .commitSetup (.smooth 12)] := by
  constructor
  · exact Runs.not_throughout_of_last (by decide +kernel)
  · exact Runs.not_throughout_of_last (by decide +kernel)

end Reminisce

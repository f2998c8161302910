import Reminisce.Handshake
import Reminisce.Library.Binary64
import Reminisce.Library.Results

namespace Reminisce

open Binary64 Results

/-- A value of `gen_range(-0.2f64..0.2)`. -/
structure Jitter where
  value : ℚ
  lower : -rounded (1 / 5) ≤ value
  upper : value < rounded (1 / 5)

structure ReconnectBackoff where
  initialSecs : Nat
  maxSecs : Nat
  currentSecs : Nat
  deriving DecidableEq, Repr

/-- `((base as f64) * (1.0 + jitter)).round().max(1.0) as u64`. -/
def jittered (base : Nat) (jitter : Jitter) : Nat :=
  min (max (roundHalfUp (rounded (rounded base * rounded (1 + jitter.value)))) 1).toNat (2 ^ 64 - 1)

namespace ReconnectBackoff

def new (initialSecs maxSecs : Nat) : ReconnectBackoff :=
  { initialSecs := max initialSecs 1, maxSecs := max maxSecs 1, currentSecs := max initialSecs 1 }

def reset (backoff : ReconnectBackoff) : ReconnectBackoff :=
  { backoff with currentSecs := backoff.initialSecs }

def skipToMax (backoff : ReconnectBackoff) : ReconnectBackoff :=
  { backoff with currentSecs := backoff.maxSecs }

/-- The doubling saturates at 64 bits. -/
def advance (backoff : ReconnectBackoff) : ReconnectBackoff :=
  { backoff with currentSecs := min (min (backoff.currentSecs * 2) (2 ^ 64 - 1)) backoff.maxSecs }

def nextDelay (backoff : ReconnectBackoff) (jitter : Jitter) : Nat × ReconnectBackoff :=
  (jittered backoff.currentSecs jitter, backoff.advance)

end ReconnectBackoff

/-- Why `bincode` cannot read a frame as a message. -/
inductive DecodeError
  | unknownVariant (index : Nat)
  | endOfInput
  | invalidUtf8 (errorLen : Option Nat) (validUpTo : Nat)
  | invalidBool (byte : Nat)
  | invalidTag (tag : Nat)
  deriving DecidableEq, Repr

/-- The texts that `bincode` 1.3.3 gives them; that of a variant is from `serde` 1.0.228. -/
def DecodeError.text : DecodeError → String
  | .unknownVariant index =>
    "invalid value: integer `" ++ toString index ++ "`, expected variant index 0 <= i < 38"
  | .endOfInput => "io error: "
  | .invalidUtf8 (some errorLen) validUpTo =>
    "string is not valid utf8: invalid utf-8 sequence of " ++ toString errorLen ++
      " bytes from index " ++ toString validUpTo
  | .invalidUtf8 none validUpTo =>
    "string is not valid utf8: incomplete utf-8 byte sequence from index " ++ toString validUpTo
  | .invalidBool byte =>
    "invalid u8 while decoding bool, expected 0 or 1, found " ++ toString byte
  | .invalidTag tag => "tag for enum is not valid, found " ++ toString tag

/-- Why no message is received: the stream fails or announces too long a frame, or the frame is not
a message. -/
inductive ReceiveFailure
  | network (message : String)
  | decode (e : DecodeError)
  deriving DecidableEq, Repr

/-- How `Protocol::receive` reports a failure: by whether a text contains another. -/
def ReceiveFailure.report : ReceiveFailure → Np2pError
  | .network message => .network message
  | .decode e =>
    if "expected a variant index".toList <:+: e.text.toList then .unknownMessage e.text
    else .serialization e.text

/-- What a session meets: the connection with the first message sent, what is received while it
registers, the streams that are accepted afterwards, and how the connection is lost. -/
structure Session where
  connect : Except String Unit
  received : List (Except ReceiveFailure HandshakeMessage)
  streams : Nat
  loss : String
  deriving Repr

inductive SessionError
  | connect (message : String)
  | handshake (e : HandshakeError)
  | connection (message : String)
  deriving DecidableEq, Repr

/-- The loop over `accept_bi`, which an error of the connection ends. -/
def acceptLoop : Nat → String → Except SessionError Unit
  | 0, loss => .error (.connection loss)
  | streams + 1, loss => acceptLoop streams loss

/-- `run_tunnel` and `run_channel`. -/
def runSession (S : SigningScheme) (key : Digest) (reg : Registration) (session : Session) :
    Except SessionError Unit := do
  session.connect.mapError .connect
  (reg.run S key (session.received.map (·.mapError ReceiveFailure.report))).2.mapError .handshake
  acceptLoop session.streams session.loss

/-- What the loop does to the backoff when a session returns. -/
def afterSession (backoff : ReconnectBackoff) : Except SessionError Unit → ReconnectBackoff
  | .ok _ => backoff.reset
  | .error (.handshake (.receive (.unknownMessage _))) => backoff.skipToMax
  | .error _ => backoff

/-- A pause between two sessions, with the delay it was drawn from. -/
structure Pause where
  base : Nat
  delay : Nat
  deriving DecidableEq, Repr

/-- The loop of the client over the sessions that end, with the jitter drawn after each. -/
def clientLoop (S : SigningScheme) (key : Digest) (reg : Registration) :
    ReconnectBackoff → List (Session × Jitter) → List Pause
  | _, [] => []
  | backoff, (session, jitter) :: rest =>
    let backoff := afterSession backoff (runSession S key reg session)
    let (delay, next) := backoff.nextDelay jitter
    ⟨backoff.currentSecs, delay⟩ :: clientLoop S key reg next rest

def reconnectDelaySecs : Nat := 5

def maxReconnectDelaySecs : Nat := 60

def startTunnelClient (S : SigningScheme) (key : Digest) (sessions : List (Session × Jitter)) :
    List Pause :=
  clientLoop S key .tunnel (.new reconnectDelaySecs maxReconnectDelaySecs) sessions

def startChannelClient (S : SigningScheme) (key : Digest) (sessions : List (Session × Jitter)) :
    List Pause :=
  clientLoop S key .channel (.new reconnectDelaySecs maxReconnectDelaySecs) sessions

def Registration.startClient (S : SigningScheme) (key : Digest) :
    Registration → List (Session × Jitter) → List Pause
  | .tunnel => startTunnelClient S key
  | .channel => startChannelClient S key

inductive SessionOutcome
  | failed
  | mismatch
  | registered
  deriving DecidableEq, Repr

/-- How the coordinator's answers end the registration: in a mismatch where one is a message that
the client does not know. -/
def answersOutcome (role : HandshakeRole) :
    List (Except ReceiveFailure HandshakeMessage) → SessionOutcome
  | .error (.decode (.unknownVariant _)) :: _ => .mismatch
  | .ok first :: rest =>
    if (role.challenge first).isSome then
      match rest with
      | .error (.decode (.unknownVariant _)) :: _ => .mismatch
      | .ok answer :: _ => if answer = role.accepted then .registered else .failed
      | _ => .failed
    else .failed
  | _ => .failed

def Session.outcome (role : HandshakeRole) (session : Session) : SessionOutcome :=
  match session.connect with
  | .error _ => .failed
  | .ok _ => answersOutcome role session.received

/-- The delay that is due after a session, given the one before. -/
def dueBase (initialSecs maxSecs : Nat) (previous : Option Nat) : SessionOutcome → Nat
  | .registered => initialSecs
  | .mismatch => maxSecs
  | .failed =>
    match previous with
    | none => initialSecs
    | some base => min (2 * base) maxSecs

/-- Every base delay is the one that is due. -/
def FollowsLaw (initialSecs maxSecs : Nat) : Option Nat → List (SessionOutcome × Pause) → Prop
  | _, [] => True
  | previous, (outcome, pause) :: rest =>
    pause.base = dueBase initialSecs maxSecs previous outcome ∧
      FollowsLaw initialSecs maxSecs (some pause.base) rest

/-- Within a fifth of the base, and so within six fifths of the maximum. -/
structure Pause.Near (maxSecs : Nat) (pause : Pause) : Prop where
  lower : 4 * pause.base ≤ 5 * pause.delay
  upper : 5 * pause.delay ≤ 6 * pause.base
  below : 5 * pause.delay ≤ 6 * maxSecs

section Sessions

variable {S : SigningScheme} {key : Digest} {reg : Registration} {backoff : ReconnectBackoff}

theorem acceptLoop_eq (streams : Nat) (loss : String) :
    acceptLoop streams loss = .error (.connection loss) := by
  induction streams with
  | zero => rfl
  | succ streams ih => exact ih

/-- What of a text is no digit. -/
def lettersOf (text : String) : List Char := text.toList.filter (!·.isDigit)

theorem lettersOf_append (text text' : String) :
    lettersOf (text ++ text') = lettersOf text ++ lettersOf text' := by
  rw [lettersOf, String.toList_append, List.filter_append]
  rfl

theorem lettersOf_toString (n : Nat) : lettersOf (toString n) = [] := by
  refine List.filter_eq_nil_iff.mpr fun c hc => ?_
  have hdigit : c ∈ Nat.toDigits 10 n := by simpa using hc
  simp [Nat.isDigit_of_mem_toDigits (by decide) (by decide) hdigit]

/-- A text cannot be found in another where its letters cannot. -/
theorem not_infix_of_letters {text text' : String}
    (h : ¬lettersOf text <:+: lettersOf text') : ¬text.toList <:+: text'.toList :=
  fun happears => h (happears.filter _)

/-- No text of a decode error is the one that is looked for. -/
theorem DecodeError.not_infix_text (e : DecodeError) :
    ¬"expected a variant index".toList <:+: e.text.toList := by
  apply not_infix_of_letters
  cases e with
  | unknownVariant index =>
    change ¬_ <:+: lettersOf (_ ++ toString index ++ _)
    rw [lettersOf_append, lettersOf_append, lettersOf_toString]
    decide +kernel
  | endOfInput => decide +kernel
  | invalidUtf8 errorLen validUpTo =>
    cases errorLen with
    | none =>
      change ¬_ <:+: lettersOf (_ ++ toString validUpTo)
      rw [lettersOf_append, lettersOf_toString]
      decide +kernel
    | some errorLen =>
      change ¬_ <:+: lettersOf (_ ++ toString errorLen ++ _ ++ toString validUpTo)
      rw [lettersOf_append, lettersOf_append, lettersOf_append, lettersOf_toString,
        lettersOf_toString]
      decide +kernel
  | invalidBool byte =>
    change ¬_ <:+: lettersOf (_ ++ toString byte)
    rw [lettersOf_append, lettersOf_toString]
    decide +kernel
  | invalidTag tag =>
    change ¬_ <:+: lettersOf (_ ++ toString tag)
    rw [lettersOf_append, lettersOf_toString]
    decide +kernel

/-- So a version mismatch is never told from corruption. -/
theorem ReceiveFailure.report_ne (failure : ReceiveFailure) (message : String) :
    failure.report ≠ .unknownMessage message := by
  cases failure with
  | network text => exact nofun
  | decode e =>
    have hreport : (ReceiveFailure.decode e).report = .serialization e.text :=
      if_neg e.not_infix_text
    rw [hreport]
    exact nofun

/-- A registration fails in no mismatch that the client could tell. -/
theorem run_ne_unknownMessage (received : List (Except ReceiveFailure HandshakeMessage))
    (message : String) : (reg.run S key (received.map (·.mapError ReceiveFailure.report))).2 ≠
      .error (.receive (.unknownMessage message)) := by
  have hreport : ∀ failure : ReceiveFailure, (.error (.receive failure.report) :
      Except HandshakeError Unit) ≠ .error (.receive (.unknownMessage message)) := by
    intro failure h
    exact failure.report_ne message (HandshakeError.receive.inj (Except.error.inj h))
  rw [Registration.run_eq]
  unfold runRegistration
  match received with
  | [] => exact nofun
  | .error failure :: _ => exact hreport failure
  | .ok first :: rest =>
    simp only [List.map_cons, Except.mapError]
    cases reg.role.challenge first with
    | none => exact nofun
    | some nonce =>
      match rest with
      | [] => exact nofun
      | .error failure :: _ => exact hreport failure
      | .ok answer :: _ =>
        cases answer with
        | error code text => exact nofun
        | _ =>
          simp only [List.map_cons]
          split
          · exact nofun
          · exact nofun

/-- No session returns without an error, and none with a mismatch, so the backoff is neither reset
nor skipped. -/
theorem afterSession_runSession (session : Session) :
    afterSession backoff (runSession S key reg session) = backoff := by
  unfold runSession
  cases session.connect with
  | error message => rfl
  | ok =>
    cases hrun : (reg.run S key (session.received.map (·.mapError ReceiveFailure.report))).2 with
    | ok =>
      change afterSession backoff (acceptLoop session.streams session.loss) = backoff
      rw [acceptLoop_eq]
      rfl
    | error e =>
      change afterSession backoff (.error (.handshake e)) = backoff
      unfold afterSession
      split
      next h => cases h
      next message h =>
        cases h
        exact absurd hrun (run_ne_unknownMessage session.received message)
      next => rfl

end Sessions

section Delays

variable {base : Nat}

theorem Jitter.factor_bounds (jitter : Jitter) :
    4 / 5 - 1 / 10 ^ 15 ≤ rounded (1 + jitter.value) ∧
      rounded (1 + jitter.value) ≤ 6 / 5 + 1 / 10 ^ 15 := by
  obtain ⟨_, hfifth⟩ := rounded_bounds (x := 1 / 5) (by norm_num)
  have hlower := jitter.lower
  have hupper := jitter.upper
  norm_num at hfifth hlower hupper
  obtain ⟨hlow, hhigh⟩ := rounded_bounds (x := 1 + jitter.value) (by linarith)
  norm_num at hlow hhigh ⊢
  constructor <;> linarith

/-- The product before it is rounded to whole seconds. -/
theorem jittered_product (jitter : Jitter) (hbase : base ≤ 10 ^ 12) :
    (base : ℚ) * (4 / 5) - 1 / 4 ≤ rounded (rounded base * rounded (1 + jitter.value)) ∧
      rounded (rounded base * rounded (1 + jitter.value)) ≤ (base : ℚ) * (6 / 5) + 1 / 4 := by
  have hnonneg : (0 : ℚ) ≤ base := Nat.cast_nonneg base
  have hbound : (base : ℚ) ≤ 1000000000000 := by exact_mod_cast hbase
  obtain ⟨hfactor, hfactor'⟩ := jitter.factor_bounds
  obtain ⟨hcast, hcast'⟩ := rounded_bounds hnonneg
  have hcastpos : 0 ≤ rounded (base : ℚ) := le_trans (by norm_num) hcast
  have hproduct : (base : ℚ) * (1 - 1 / 2 ^ 53) * (4 / 5 - 1 / 10 ^ 15) ≤
      rounded base * rounded (1 + jitter.value) := by
    gcongr
  have hproduct' : rounded base * rounded (1 + jitter.value) ≤
      (base : ℚ) * (1 + 1 / 2 ^ 53) * (6 / 5 + 1 / 10 ^ 15) := by
    gcongr
  have hpos : 0 ≤ rounded base * rounded (1 + jitter.value) :=
    le_trans (by norm_num) hproduct
  obtain ⟨hround, hround'⟩ := rounded_bounds hpos
  norm_num at hproduct hproduct' hround hround'
  constructor <;> linarith

/-- A delay lies within a fifth of a base that is a multiple of five. -/
theorem jittered_bounds (jitter : Jitter) (hpos : 0 < base) (hbase : base ≤ 10 ^ 12)
    (hfive : 5 ∣ base) :
    4 * base ≤ 5 * jittered base jitter ∧ 5 * jittered base jitter ≤ 6 * base := by
  obtain ⟨n, rfl⟩ := hfive
  obtain ⟨hlow, hhigh⟩ := jittered_product jitter hbase
  push_cast at hlow hhigh
  have hle : roundHalfUp (rounded (rounded ((5 * n : ℕ) : ℚ) * rounded (1 + jitter.value))) ≤
      6 * (n : ℤ) := by
    apply roundHalfUp_le
    push_cast
    linarith
  have hge : 4 * (n : ℤ) ≤
      roundHalfUp (rounded (rounded ((5 * n : ℕ) : ℚ) * rounded (1 + jitter.value))) := by
    apply le_roundHalfUp
    push_cast
    linarith
  unfold jittered
  omega

end Delays

section Law

variable {S : SigningScheme} {key : Digest} {reg : Registration} {backoff : ReconnectBackoff}
  {sessions : List (Session × Jitter)}

/-- The backoff of a client between two sessions. -/
structure ReconnectBackoff.Steady (backoff : ReconnectBackoff) : Prop where
  initialSecs_eq : backoff.initialSecs = reconnectDelaySecs
  maxSecs_eq : backoff.maxSecs = maxReconnectDelaySecs
  five_dvd : 5 ∣ backoff.currentSecs
  initial_le : reconnectDelaySecs ≤ backoff.currentSecs
  le_max : backoff.currentSecs ≤ maxReconnectDelaySecs

theorem ReconnectBackoff.steady_new :
    (ReconnectBackoff.new reconnectDelaySecs maxReconnectDelaySecs).Steady :=
  ⟨rfl, rfl, by decide, by decide, by decide⟩

/-- The doubling stays below 64 bits, so only the maximum caps it. -/
theorem ReconnectBackoff.Steady.advance_currentSecs (h : backoff.Steady) :
    backoff.advance.currentSecs = min (2 * backoff.currentSecs) maxReconnectDelaySecs := by
  have hle := h.le_max
  rw [← h.maxSecs_eq] at hle ⊢
  have hmax := h.maxSecs_eq
  unfold maxReconnectDelaySecs at hmax
  simp only [advance]
  omega

theorem ReconnectBackoff.Steady.advance (h : backoff.Steady) : backoff.advance.Steady := by
  have hcurrent := h.advance_currentSecs
  have hfive := h.five_dvd
  have hinitial := h.initial_le
  refine ⟨h.initialSecs_eq, h.maxSecs_eq, ?_, ?_, ?_⟩
  all_goals
    rw [hcurrent]
    unfold reconnectDelaySecs at *
    unfold maxReconnectDelaySecs
    omega

theorem clientLoop_cons (session : Session) (jitter : Jitter) :
    clientLoop S key reg backoff ((session, jitter) :: sessions) =
      ⟨backoff.currentSecs, jittered backoff.currentSecs jitter⟩ ::
        clientLoop S key reg backoff.advance sessions := by
  rw [clientLoop, afterSession_runSession]
  rfl

/-- All the delays of a client lie near their bases. -/
theorem clientLoop_near (h : backoff.Steady) :
    ∀ pause ∈ clientLoop S key reg backoff sessions, pause.Near maxReconnectDelaySecs := by
  induction sessions generalizing backoff with
  | nil => simp [clientLoop]
  | cons attempt sessions ih =>
    obtain ⟨session, jitter⟩ := attempt
    have hinitial := h.initial_le
    have hmax := h.le_max
    unfold reconnectDelaySecs at hinitial
    have hbounds := jittered_bounds jitter (by omega) (hmax.trans (by decide)) h.five_dvd
    rw [clientLoop_cons]
    intro pause hpause
    rcases List.mem_cons.mp hpause with rfl | hpause
    · exact ⟨hbounds.1, hbounds.2, hbounds.2.trans (Nat.mul_le_mul_left 6 hmax)⟩
    · exact ih h.advance pause hpause

def outcomes (reg : Registration) (sessions : List (Session × Jitter)) : List SessionOutcome :=
  sessions.map fun attempt => attempt.1.outcome reg.role

/-- Four doublings reach the maximum. -/
theorem max_le_doubled {done : Nat} :
    maxReconnectDelaySecs ≤ reconnectDelaySecs * 2 ^ done ↔ 4 ≤ done := by
  unfold maxReconnectDelaySecs reconnectDelaySecs
  constructor
  · intro hle
    by_contra hsmall
    have hpow : 2 ^ done ≤ 2 ^ 3 := Nat.pow_le_pow_right Nat.zero_lt_two (by omega)
    omega
  · intro hle
    have hpow : 2 ^ 4 ≤ 2 ^ done := Nat.pow_le_pow_right Nat.zero_lt_two hle
    omega

/-- The doubled base is due unless the session registers, or ends in a mismatch while the maximum is
not reached. -/
theorem doubled_due_iff {current previous done : Nat} (hprevious : reconnectDelaySecs ≤ previous)
    (hcurrent : current = min (2 * previous) maxReconnectDelaySecs)
    (hdone : current = min (reconnectDelaySecs * 2 ^ done) maxReconnectDelaySecs)
    (outcome : SessionOutcome) :
    current = dueBase reconnectDelaySecs maxReconnectDelaySecs (some previous) outcome ↔
      outcome ≠ .registered ∧ (done < 4 → outcome ≠ .mismatch) := by
  cases outcome with
  | failed => simp [dueBase, hcurrent]
  | mismatch =>
    have hlarge := @max_le_doubled done
    simp only [dueBase, hdone, ne_eq, reduceCtorEq, not_false_eq_true, not_true_eq_false, true_and,
      imp_false]
    omega
  | registered =>
    have hfive : 5 ≤ previous := hprevious
    simp only [dueBase, hcurrent, ne_eq, not_true_eq_false, false_and, iff_false]
    unfold reconnectDelaySecs maxReconnectDelaySecs
    omega

theorem forall_mem_take_cons {α : Type} {p : α → Prop} {x : α} {xs : List α} {n done : Nat} :
    (∀ y ∈ (x :: xs).take (n - done), p y) ↔
      (done < n → p x) ∧ ∀ y ∈ xs.take (n - (done + 1)), p y := by
  by_cases hsmall : done < n
  · have hleft : n - done = n - (done + 1) + 1 := by omega
    rw [hleft, List.take_succ_cons, List.forall_mem_cons, imp_iff_right hsmall]
  · have hnone : n - done = 0 := by omega
    have hnone' : n - (done + 1) = 0 := by omega
    simp [hnone, hnone', hsmall]

/-- Behind a first pause, the law holds as long as no session registers, and none ends in a mismatch
before the delays have reached their maximum. -/
theorem followsLaw_iff_of_previous (S : SigningScheme) (key : Digest) (reg : Registration)
    (sessions : List (Session × Jitter)) {previous done : Nat} (h : backoff.Steady)
    (hprevious : reconnectDelaySecs ≤ previous)
    (hcurrent : backoff.currentSecs = min (2 * previous) maxReconnectDelaySecs)
    (hdone : backoff.currentSecs = min (reconnectDelaySecs * 2 ^ done) maxReconnectDelaySecs) :
    FollowsLaw reconnectDelaySecs maxReconnectDelaySecs (some previous)
        ((outcomes reg sessions).zip (clientLoop S key reg backoff sessions)) ↔
      (∀ attempt ∈ sessions, attempt.1.outcome reg.role ≠ .registered) ∧
        ∀ attempt ∈ sessions.take (4 - done), attempt.1.outcome reg.role ≠ .mismatch := by
  induction sessions generalizing backoff previous done with
  | nil => simp [outcomes, FollowsLaw]
  | cons attempt sessions ih =>
    obtain ⟨session, jitter⟩ := attempt
    have hnext : backoff.advance.currentSecs =
        min (reconnectDelaySecs * 2 ^ (done + 1)) maxReconnectDelaySecs := by
      rw [h.advance_currentSecs, hdone, pow_succ]
      unfold reconnectDelaySecs maxReconnectDelaySecs
      omega
    have hrest := ih h.advance h.initial_le h.advance_currentSecs hnext
    have hfirst := doubled_due_iff hprevious hcurrent hdone (session.outcome reg.role)
    simp only [outcomes] at hrest
    simp only [outcomes, List.map_cons, clientLoop_cons, List.zip_cons_cons, FollowsLaw, hrest,
      hfirst, forall_mem_take_cons, List.forall_mem_cons]
    tauto

theorem followsLaw_iff (h : backoff.Steady) (hcurrent : backoff.currentSecs = reconnectDelaySecs) :
    FollowsLaw reconnectDelaySecs maxReconnectDelaySecs none
        ((outcomes reg sessions).zip (clientLoop S key reg backoff sessions)) ↔
      (∀ attempt ∈ sessions.tail, attempt.1.outcome reg.role ≠ .registered) ∧
        ∀ attempt ∈ sessions.take 4, attempt.1.outcome reg.role ≠ .mismatch := by
  cases sessions with
  | nil => simp [outcomes, FollowsLaw]
  | cons attempt sessions =>
    obtain ⟨session, jitter⟩ := attempt
    have hrest := @followsLaw_iff_of_previous backoff.advance S key reg sessions
      backoff.currentSecs 1 h.advance h.initial_le h.advance_currentSecs (by
        rw [h.advance_currentSecs, hcurrent, pow_one, Nat.mul_comm])
    simp only [outcomes] at hrest
    simp only [outcomes, List.map_cons, clientLoop_cons, List.zip_cons_cons, FollowsLaw, hrest,
      List.tail_cons, List.take_succ_cons, List.forall_mem_cons]
    have hfirst : backoff.currentSecs = dueBase reconnectDelaySecs maxReconnectDelaySecs none
        (session.outcome reg.role) ↔ session.outcome reg.role ≠ .mismatch := by
      rw [hcurrent]
      cases session.outcome reg.role <;> decide
    rw [hfirst]
    tauto

/-- The pauses of a client follow the law, near their bases, as long as no session behind the first
registers and none of the first four ends in a mismatch. -/
theorem startClient_followsLaw_iff (S : SigningScheme) (key : Digest) (reg : Registration)
    (sessions : List (Session × Jitter)) :
    (FollowsLaw reconnectDelaySecs maxReconnectDelaySecs none
          ((outcomes reg sessions).zip (reg.startClient S key sessions)) ∧
        ∀ pause ∈ reg.startClient S key sessions, pause.Near maxReconnectDelaySecs) ↔
      (∀ attempt ∈ sessions.tail, attempt.1.outcome reg.role ≠ .registered) ∧
        ∀ attempt ∈ sessions.take 4, attempt.1.outcome reg.role ≠ .mismatch := by
  have hstart : reg.startClient S key sessions = clientLoop S key reg
      (.new reconnectDelaySecs maxReconnectDelaySecs) sessions := by
    cases reg <;> rfl
  rw [hstart, and_iff_left (clientLoop_near ReconnectBackoff.steady_new)]
  exact followsLaw_iff ReconnectBackoff.steady_new rfl

/-- A jitter of nothing. -/
def noJitter : Jitter := ⟨0, by decide +kernel, by decide +kernel⟩

/-- A coordinator that is not reached. -/
def unreachedSession : Session := ⟨.error "Tunnel connect timed out", [], 0, ""⟩

/-- A session that registers, serves two streams and is lost. -/
def lostSession : Session :=
  ⟨.ok (), [.ok (.tunnelChallenge []), .ok .tunnelAccepted], 2, "connection lost"⟩

/-- A coordinator whose first answer is a message of a later version. -/
def newerSession : Session := ⟨.ok (), [.error (.decode (.unknownVariant 99))], 0, ""⟩

def lostRun : List (Session × Jitter) := [(unreachedSession, noJitter), (lostSession, noJitter)]

def newerRun : List (Session × Jitter) := [(newerSession, noJitter)]

/-- Neither the session behind a registered one nor that behind a mismatch is retried when due. -/
theorem startTunnelClient_keeps_backoff :
    (outcomes .tunnel lostRun = [.failed, .registered] ∧
      startTunnelClient sampleScheme (.replicate 32 0) lostRun = [⟨5, 5⟩, ⟨10, 10⟩] ∧
      ¬FollowsLaw reconnectDelaySecs maxReconnectDelaySecs none
        ((outcomes .tunnel lostRun).zip
          (startTunnelClient sampleScheme (.replicate 32 0) lostRun))) ∧
    outcomes .tunnel newerRun = [.mismatch] ∧
      startTunnelClient sampleScheme (.replicate 32 0) newerRun = [⟨5, 5⟩] ∧
      ¬FollowsLaw reconnectDelaySecs maxReconnectDelaySecs none
        ((outcomes .tunnel newerRun).zip
          (startTunnelClient sampleScheme (.replicate 32 0) newerRun)) := by
  refine ⟨⟨by decide +kernel, by decide +kernel, ?_⟩, by decide +kernel, by decide +kernel, ?_⟩
  · rintro ⟨_, hbase, _⟩
    revert hbase
    decide +kernel
  · rintro ⟨hbase, _⟩
    revert hbase
    decide +kernel

end Law

end Reminisce

import Reminisce.Library.Runs
import Reminisce.PeerSync
import Mathlib.Data.List.Infix
import Mathlib.Data.Rat.Defs
import Reminisce.Database

namespace Reminisce

/-- `str::contains`. -/
def containsText (text part : String) : Bool := decide (part.toList <:+: text.toList)

def permanentCodes : List String :=
  ["InvalidArgument", "PermissionDenied", "Unauthenticated", "Unimplemented", "FailedPrecondition",
    "OutOfRange"]

/-- A failure that no retry of the call will mend. -/
def isPermanentFailure (err : String) : Bool := permanentCodes.any (containsText err)

/-- The answer of the orientation classifier; its label is only logged. -/
structure DetectedOrientation where
  orientationValue : Int
  confidence : Rat
  deriving DecidableEq, Repr

def orientationMinConfidence : Rat := 1 / 2

/-- The orientation that an answer is trusted for. -/
def DetectedOrientation.trusted (detection : DetectedOrientation) : Option Int :=
  if detection.orientationValue ∈ [1, 3, 6, 8] ∧
      orientationMinConfidence ≤ detection.confidence then some detection.orientationValue
  else none

theorem DetectedOrientation.trusted_range {detection : DetectedOrientation} {o : Int}
    (h : detection.trusted = some o) : 1 ≤ o ∧ o ≤ 8 := by
  unfold DetectedOrientation.trusted at h
  split at h
  next hv =>
    cases Option.some.inj h
    have hmem := hv.1
    simp only [List.mem_cons, List.not_mem_nil, or_false] at hmem
    omega
  next => simp at h

def processingMarker : String := "[__processing__]"

def skippedMarker : String := "[skipped]"

def descFailCap : Int := 5

/-- The columns of an image's row that the description tasks use. -/
structure DescriptionRow where
  description : Option String
  failedAttempts : Int
  startedAt : Option Time
  deriving DecidableEq, Repr

/-- The numbers of the placeholders in a line. -/
def placeholders : List Char → List Nat
  | [] => []
  | '$' :: rest =>
    (rest.takeWhile Char.isDigit).foldl (fun n c => n * 10 + (c.toNat - '0'.toNat)) 0 ::
      placeholders rest
  | _ :: rest => placeholders rest

/-- A statement in lines, with the number of parameters it is given, and what it does to the row. -/
structure DescriptionStatement where
  sql : List String
  params : Nat
  change : DescriptionRow → DescriptionRow

namespace DescriptionStatement

def numbers (st : DescriptionStatement) : List Nat :=
  st.sql.flatMap fun line => placeholders line.toList

/-- The server prepares a statement whose placeholders are its parameters, one by one. -/
def Accepted (st : DescriptionStatement) : Prop :=
  (∀ n ∈ st.numbers, 1 ≤ n ∧ n ≤ st.params) ∧ ∀ n < st.params, n + 1 ∈ st.numbers

instance (st : DescriptionStatement) : Decidable st.Accepted :=
  inferInstanceAs (Decidable ((∀ _ ∈ _, _) ∧ ∀ _ < _, _))

/-- The row after a statement, `none` where it fails; `done` says whether the server answers. -/
def execute (st : DescriptionStatement) (row : DescriptionRow) (done : Bool) :
    Option DescriptionRow :=
  if st.Accepted ∧ done then some (st.change row) else none

/-- The same, with the error ignored. -/
def run (st : DescriptionStatement) (row : DescriptionRow) (done : Bool) : DescriptionRow :=
  (st.execute row done).getD row

end DescriptionStatement

def startStatement (now : Time) : DescriptionStatement where
  sql := ["UPDATE images SET description = $1, description_started_at = NOW()",
    "WHERE hash = $2 AND user_id = $3"]
  params := 3
  change row := { row with description := some processingMarker, startedAt := some now }

/-- The statement of a success, an empty answer, a permanent failure, and an image given up. -/
def finishStatement (text : String) : DescriptionStatement where
  sql := ["UPDATE images SET description = $1, description_failed_attempts = 0,",
    "description_started_at = NULL WHERE hash = $2 AND user_id = $3"]
  params := 3
  change _ := { description := some text, failedAttempts := 0, startedAt := none }

def outageStatement : DescriptionStatement where
  sql := ["UPDATE images SET description = NULL, description_failed_attempts = 0,",
    "description_started_at = NULL WHERE hash = $2 AND user_id = $3"]
  params := 2
  change _ := { description := none, failedAttempts := 0, startedAt := none }

def bumpStatement : DescriptionStatement where
  sql := ["UPDATE images SET description_failed_attempts = description_failed_attempts + 1,",
    "description_started_at = NULL WHERE hash = $2 AND user_id = $3",
    "RETURNING description_failed_attempts"]
  params := 2
  change row := { row with failedAttempts := row.failedAttempts + 1, startedAt := none }

def retryStatement : DescriptionStatement where
  sql := ["UPDATE images SET description = NULL WHERE hash = $2 AND user_id = $3"]
  params := 2
  change row := { row with description := none }

/-- The sweep of the markers that are older than 15 minutes. -/
def sweepStatement (now : Time) : DescriptionStatement where
  sql := ["UPDATE images SET description =",
    "CASE WHEN description_failed_attempts >= $2 THEN '[skipped]' ELSE NULL END,",
    "description_started_at = NULL",
    "WHERE description = $1 AND description_started_at < NOW() - INTERVAL '15 minutes'"]
  params := 2
  change row :=
    if row.description = some processingMarker ∧ row.startedAt.any (· + secs 900 < now) then
      { row with
        description := if descFailCap ≤ row.failedAttempts then some skippedMarker else none
        startedAt := none }
    else row

/-- How a request for a description fails: while the file is read and resized, without a connection,
or in the call. -/
inductive DescriptionFailure
  | unreadable (err : String)
  | invalidUrl (url err : String)
  | refused (err : String)
  | timedOut (url : String)
  | call (status : String)
  deriving DecidableEq, Repr

/-- The text of the error that reaches the worker. -/
def DescriptionFailure.text : DescriptionFailure → String
  | .unreadable err => err
  | .invalidUrl url err => "invalid gRPC URL '" ++ url ++ "': " ++ err
  | .refused err => "gRPC connect failed: " ++ err
  | .timedOut url => "gRPC connect to " ++ url ++ " timed out after 10s"
  | .call status => "DescribeImage gRPC call failed: " ++ status

/-- A failure of a call for this image that a retry might mend. -/
def DescriptionFailure.imageSpecific (failure : DescriptionFailure) : Bool :=
  match failure with
  | .call _ => !isPermanentFailure failure.text
  | _ => false

/-- Whether the first and the second statement after the call are answered. -/
structure DescriptionIo where
  done : Bool
  thenDone : Bool
  deriving DecidableEq, Repr

/-- The branches of the worker on the result of a call. -/
def handleDescription (row : DescriptionRow) (result : Except DescriptionFailure String)
    (io : DescriptionIo) : DescriptionRow :=
  match result with
  | .ok text =>
    if text ≠ "" then (finishStatement text).run row io.done
    else (finishStatement skippedMarker).run row io.done
  | .error failure =>
    if isPermanentFailure failure.text then (finishStatement skippedMarker).run row io.done
    else if containsText failure.text "gRPC connect failed" then outageStatement.run row io.done
    else
      match bumpStatement.execute row io.done with
      | some bumped =>
        if descFailCap ≤ bumped.failedAttempts then
          (finishStatement skippedMarker).run bumped io.thenDone
        else retryStatement.run bumped io.thenDone
      | none => retryStatement.run row io.thenDone

inductive DescriptionPhase
  | selected
  | sent
  deriving DecidableEq, Repr

/-- One image with its task; `failures` counts the calls that failed because of the image, and
`handled` says that the worker has handled a result and not started again. -/
structure DescriptionState where
  row : DescriptionRow
  task : Option DescriptionPhase
  failures : Nat
  handled : Bool
  deriving DecidableEq, Repr

/-- The steps of the worker; a process that crashes leaves the row as it is. -/
inductive DescriptionEvent
  | select
  | start (now : Time) (done : Bool)
  | finish (result : Except DescriptionFailure String) (io : DescriptionIo)
  | drop
  | crash
  | sweep (now : Time) (done : Bool)

def DescriptionState.init : DescriptionState :=
  { row := { description := none, failedAttempts := 0, startedAt := none }
    task := none, failures := 0, handled := false }

def failureCount : Except DescriptionFailure String → Nat
  | .ok _ => 0
  | .error failure => if failure.imageSpecific then 1 else 0

def descriptionStep (s : DescriptionState) : DescriptionEvent → Option DescriptionState
  | .select =>
    if s.task = none ∧ s.row.description = none then some { s with task := some .selected } else none
  | .start now done =>
    if s.task = some .selected then
      some { s with
        row := (startStatement now).run s.row done, task := some .sent, handled := false }
    else none
  | .finish result io =>
    if s.task = some .sent then
      some { row := handleDescription s.row result io, task := none
             failures := s.failures + failureCount result, handled := true }
    else none
  | .drop => if s.task = some .selected then some { s with task := none } else none
  | .crash =>
    some { s with
      task := none
      failures := if s.task = some .sent then s.failures + 1 else s.failures }
  | .sweep now done => some { s with row := (sweepStatement now).run s.row done }

variable {row : DescriptionRow} {done : Bool}

theorem startStatement_accepted (now : Time) : (startStatement now).Accepted := by
  unfold DescriptionStatement.Accepted DescriptionStatement.numbers startStatement
  dsimp only
  decide +kernel

theorem finishStatement_accepted (text : String) : (finishStatement text).Accepted := by
  unfold DescriptionStatement.Accepted DescriptionStatement.numbers finishStatement
  dsimp only
  decide +kernel

theorem sweepStatement_accepted (now : Time) : (sweepStatement now).Accepted := by
  unfold DescriptionStatement.Accepted DescriptionStatement.numbers sweepStatement
  dsimp only
  decide +kernel

/-- The three statements that leave out the first placeholder are refused. -/
theorem retry_statements_refused :
    ¬outageStatement.Accepted ∧ ¬bumpStatement.Accepted ∧ ¬retryStatement.Accepted := by
  decide +kernel

theorem DescriptionStatement.run_refused {st : DescriptionStatement} (h : ¬st.Accepted) :
    st.run row done = row := by
  unfold DescriptionStatement.run DescriptionStatement.execute
  rw [if_neg fun hboth => h hboth.1]
  rfl

theorem DescriptionStatement.run_accepted {st : DescriptionStatement} (h : st.Accepted) :
    st.run row true = st.change row := by
  unfold DescriptionStatement.run DescriptionStatement.execute
  rw [if_pos ⟨h, rfl⟩]
  rfl

theorem DescriptionStatement.run_undone {st : DescriptionStatement} : st.run row false = row := by
  unfold DescriptionStatement.run DescriptionStatement.execute
  rw [if_neg fun hboth => Bool.false_ne_true hboth.2]
  rfl

theorem finishStatement_run (text : String) (row : DescriptionRow) (done : Bool) :
    (finishStatement text).run row done =
      if done then { description := some text, failedAttempts := 0, startedAt := none } else row := by
  cases done with
  | false => exact DescriptionStatement.run_undone
  | true => exact DescriptionStatement.run_accepted (finishStatement_accepted text)

end Reminisce

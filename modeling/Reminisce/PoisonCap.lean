import Reminisce.AiDescriptions

namespace Reminisce

/-- At most as many calls as the cap fail because of the image, nothing else is counted, and a
handled result leaves no marker. -/
def PoisonCapped (s : DescriptionState) : Prop :=
  (s.failures : Int) ≤ descFailCap ∧ s.row.failedAttempts ≤ s.failures ∧
    (s.handled = true → s.row.description ≠ some processingMarker)

instance : DecidablePred PoisonCapped := fun _ => inferInstanceAs (Decidable (_ ∧ _ ∧ (_ → _)))

/-- The statement of a success, an empty answer or a permanent failure takes the marker away; on any
other failure the row must not carry it. -/
def LosesMarker (row : DescriptionRow) (result : Except DescriptionFailure String)
    (io : DescriptionIo) : Prop :=
  match result with
  | .ok text => if io.done then text ≠ processingMarker else row.description ≠ some processingMarker
  | .error failure =>
    (io.done = true ∧ isPermanentFailure failure.text = true) ∨
      row.description ≠ some processingMarker

/-- No result is handled that leaves the marker, and no more calls fail because of the image than
the cap allows. -/
def KeepsCap (s : DescriptionState) : DescriptionEvent → Prop
  | .finish result io => s.task = some .sent →
      LosesMarker s.row result io ∧ ((s.failures + failureCount result : Nat) : Int) ≤ descFailCap
  | .crash => s.task = some .sent → ((s.failures + 1 : Nat) : Int) ≤ descFailCap
  | _ => True

variable {s : DescriptionState} {row : DescriptionRow} {io : DescriptionIo}

/-- A failure that is not permanent leaves the row as it was. -/
theorem handleDescription_error {failure : DescriptionFailure} :
    handleDescription row (.error failure) io =
      if isPermanentFailure failure.text = true ∧ io.done = true then
        { description := some skippedMarker, failedAttempts := 0, startedAt := none }
      else row := by
  obtain ⟨houtage, hbump, hretry⟩ := retry_statements_refused
  have hnone : bumpStatement.execute row io.done = none := by
    unfold DescriptionStatement.execute
    exact if_neg fun hboth => hbump hboth.1
  unfold handleDescription
  dsimp only
  rw [hnone]
  dsimp only
  rw [DescriptionStatement.run_refused houtage, DescriptionStatement.run_refused hretry, ite_self,
    finishStatement_run]
  by_cases hpermanent : isPermanentFailure failure.text = true
  · simp [hpermanent]
  · simp [hpermanent]

theorem handleDescription_ok {text : String} :
    handleDescription row (.ok text) io =
      if io.done = true then
        { description := some (if text ≠ "" then text else skippedMarker), failedAttempts := 0
          startedAt := none }
      else row := by
  unfold handleDescription
  dsimp only
  by_cases htext : text ≠ ""
  · rw [if_pos htext, if_pos htext, finishStatement_run]
  · rw [if_neg htext, if_neg htext, finishStatement_run]

/-- No statement of the worker that counts an attempt is executed. -/
theorem handleDescription_attempts {result : Except DescriptionFailure String}
    (h : row.failedAttempts = 0) : (handleDescription row result io).failedAttempts = 0 := by
  cases result with
  | ok text =>
    rw [handleDescription_ok]
    split
    next => rfl
    next => exact h
  | error failure =>
    rw [handleDescription_error]
    split
    next => rfl
    next => exact h

theorem handleDescription_marker {result : Except DescriptionFailure String} :
    (handleDescription row result io).description ≠ some processingMarker ↔
      LosesMarker row result io := by
  have hskipped : some skippedMarker ≠ some processingMarker := by decide
  cases result with
  | ok text =>
    rw [handleDescription_ok]
    unfold LosesMarker
    by_cases hdone : io.done = true
    · rw [if_pos hdone]
      dsimp only
      rw [if_pos hdone]
      by_cases htext : text = ""
      · subst htext
        exact iff_of_true hskipped (by decide)
      · rw [if_pos htext]
        exact not_congr (by rw [Option.some.injEq])
    · rw [if_neg hdone]
      dsimp only
      rw [if_neg hdone]
  | error failure =>
    rw [handleDescription_error]
    unfold LosesMarker
    by_cases hpermanent : isPermanentFailure failure.text = true ∧ io.done = true
    · rw [if_pos hpermanent]
      exact iff_of_true hskipped (Or.inl ⟨hpermanent.2, hpermanent.1⟩)
    · rw [if_neg hpermanent]
      constructor
      · exact Or.inr
      · intro h
        exact h.resolve_left fun hboth => hpermanent ⟨hboth.2, hboth.1⟩

theorem startStatement_attempts {now : Time} {done : Bool} :
    ((startStatement now).run row done).failedAttempts = row.failedAttempts := by
  unfold DescriptionStatement.run DescriptionStatement.execute
  split <;> rfl

theorem sweepStatement_attempts {now : Time} {done : Bool} :
    ((sweepStatement now).run row done).failedAttempts = row.failedAttempts := by
  unfold DescriptionStatement.run DescriptionStatement.execute
  split
  next =>
    show (if _ then _ else row : DescriptionRow).failedAttempts = _
    split <;> rfl
  next => rfl

/-- The sweep writes no marker. -/
theorem sweepStatement_marker {now : Time} {done : Bool}
    (h : row.description ≠ some processingMarker) :
    ((sweepStatement now).run row done).description ≠ some processingMarker := by
  unfold DescriptionStatement.run DescriptionStatement.execute
  split
  next =>
    show (if row.description = some processingMarker ∧ _ then _ else row : DescriptionRow).description ≠ _
    rw [if_neg fun hmarker => h hmarker.1]
    exact h
  next => exact h

theorem descriptionStep_attempts {t : DescriptionState} {e : DescriptionEvent}
    (h : s.row.failedAttempts = 0) (hstep : descriptionStep s e = some t) :
    t.row.failedAttempts = 0 := by
  cases e with
  | select =>
    simp only [descriptionStep] at hstep
    split at hstep
    next => cases Option.some.inj hstep; exact h
    next => simp at hstep
  | start now done =>
    simp only [descriptionStep] at hstep
    split at hstep
    next => cases Option.some.inj hstep; exact startStatement_attempts.trans h
    next => simp at hstep
  | finish result io =>
    simp only [descriptionStep] at hstep
    split at hstep
    next => cases Option.some.inj hstep; exact handleDescription_attempts h
    next => simp at hstep
  | drop =>
    simp only [descriptionStep] at hstep
    split at hstep
    next => cases Option.some.inj hstep; exact h
    next => simp at hstep
  | crash => cases Option.some.inj hstep; exact h
  | sweep now done =>
    simp only [descriptionStep, Option.some.injEq] at hstep
    subst hstep
    show ((sweepStatement now).run s.row done).failedAttempts = 0
    rw [sweepStatement_attempts]
    exact h

/-- A step keeps the cap and takes the marker away exactly if it meets the condition. -/
theorem descriptionStep_capped (hbase : s.row.failedAttempts = 0) (h : PoisonCapped s)
    (e : DescriptionEvent) :
    (∀ t, descriptionStep s e = some t → PoisonCapped t) ↔ KeepsCap s e := by
  have hcounted : ∀ t, descriptionStep s e = some t → t.row.failedAttempts ≤ t.failures := by
    intro t hstep
    rw [descriptionStep_attempts hbase hstep]
    exact Int.natCast_nonneg _
  cases e with
  | select =>
    refine iff_of_true (fun t hstep => ?_) trivial
    simp only [descriptionStep] at hstep
    split at hstep
    next => cases Option.some.inj hstep; exact h
    next => simp at hstep
  | start now done =>
    refine iff_of_true (fun t hstep => ?_) trivial
    have hattempts := hcounted t hstep
    simp only [descriptionStep] at hstep
    split at hstep
    next =>
      cases Option.some.inj hstep
      exact ⟨h.1, hattempts, fun hhandled => absurd hhandled Bool.false_ne_true⟩
    next => simp at hstep
  | finish result io =>
    by_cases hsent : s.task = some .sent
    · have hstep : descriptionStep s (.finish result io) =
          some { row := handleDescription s.row result io, task := none
                 failures := s.failures + failureCount result, handled := true } := if_pos hsent
      constructor
      · intro hall _
        obtain ⟨hcap, _, hmarker⟩ := hall _ hstep
        exact ⟨handleDescription_marker.mp (hmarker rfl), hcap⟩
      · intro hcond t ht
        have hattempts := hcounted t ht
        obtain ⟨hmarker, hcap⟩ := hcond hsent
        cases Option.some.inj (hstep.symm.trans ht)
        exact ⟨hcap, hattempts, fun _ => handleDescription_marker.mpr hmarker⟩
    · refine iff_of_true (fun t hstep => ?_) fun hsent' => absurd hsent' hsent
      simp [descriptionStep, hsent] at hstep
  | drop =>
    refine iff_of_true (fun t hstep => ?_) trivial
    simp only [descriptionStep] at hstep
    split at hstep
    next => cases Option.some.inj hstep; exact h
    next => simp at hstep
  | crash =>
    constructor
    · intro hall hsent
      have hcap := (hall _ rfl).1
      dsimp only at hcap
      rwa [if_pos hsent] at hcap
    · intro hcond t hstep
      have hattempts := hcounted t hstep
      cases Option.some.inj hstep
      refine ⟨?_, hattempts, h.2.2⟩
      dsimp only
      split
      next hsent => exact hcond hsent
      next => exact h.1
  | sweep now done =>
    refine iff_of_true (fun t hstep => ?_) trivial
    have hattempts := hcounted t hstep
    simp only [descriptionStep, Option.some.injEq] at hstep
    subst hstep
    refine ⟨h.1, hattempts, fun hhandled => ?_⟩
    show ((sweepStatement now).run s.row done).description ≠ _
    exact sweepStatement_marker (h.2.2 hhandled)

/-- The cap holds and no handled result leaves the marker exactly in the runs whose calls end with
a success, an empty answer or a permanent failure that is stored, and with fewer crashes. -/
theorem poison_cap_iff (events : List DescriptionEvent) :
    Runs.Throughout descriptionStep PoisonCapped .init events ↔
      Runs.Meets descriptionStep KeepsCap .init events := by
  have hinit : PoisonCapped .init := by decide
  exact Runs.throughout_iff_meets (fun _ _ _ hb hstep => descriptionStep_attempts hb hstep)
    (fun _ e hb h => descriptionStep_capped hb h e) rfl hinit events

/-- A call that fails, and not for good, leaves the marker. -/
theorem failedCall_exec (failure : DescriptionFailure) (io : DescriptionIo) (now : Time)
    (htask : s.task = none) (hrow : s.row.description = none)
    (hfailure : isPermanentFailure failure.text = false) :
    Runs.exec descriptionStep s [.select, .start now true, .finish (.error failure) io] =
      some { row := { s.row with description := some processingMarker, startedAt := some now }
             task := none, failures := s.failures + failureCount (.error failure)
             handled := true } := by
  have hmarked : (startStatement now).run s.row true =
      { s.row with description := some processingMarker, startedAt := some now } := by
    rw [DescriptionStatement.run_accepted (startStatement_accepted now)]
    rfl
  have hselect : descriptionStep s .select = some { s with task := some .selected } :=
    if_pos ⟨htask, hrow⟩
  have hstart : descriptionStep { s with task := some .selected } (.start now true) =
      some { s with
        row := { s.row with description := some processingMarker, startedAt := some now }
        task := some .sent, handled := false } := by
    simp only [descriptionStep, if_true, hmarked]
  have hkept : ∀ row, handleDescription row (.error failure) io = row := by
    intro row
    rw [handleDescription_error, if_neg]
    intro hpermanent
    exact Bool.false_ne_true (hfailure.symm.trans hpermanent.1)
  simp only [Runs.exec, hselect, hstart, Option.bind_some]
  simp only [descriptionStep, if_true, hkept, Option.bind_some]

/-- The sweep makes the image due again, with no attempt counted. -/
theorem sweepStatement_unparks {started now : Time} (hmarker : row.description = some processingMarker)
    (hstarted : row.startedAt = some started) (hattempts : row.failedAttempts = 0)
    (hold : started + secs 900 < now) :
    (sweepStatement now).run row true = { row with description := none, startedAt := none } := by
  have hdue : row.startedAt.any (fun t => decide (t + secs 900 < now)) = true := by
    rw [hstarted, Option.any_some]
    exact decide_eq_true hold
  have hattempts : ¬descFailCap ≤ row.failedAttempts := by
    rw [hattempts]
    decide
  rw [DescriptionStatement.run_accepted (sweepStatement_accepted now)]
  simp only [sweepStatement, hmarker, hdue, and_self, if_true, if_neg hattempts]

/-- One attempt that ends in the middle of the call, and the sweep 20 minutes later. -/
def failedAttempt (status : String) (now : Time) : List DescriptionEvent :=
  [.select, .start now true, .finish (.error (.call status)) ⟨true, true⟩,
    .sweep (now + secs 1200) true]

/-- An image on which every call fails is sent again after every sweep, whenever the attempts
start. -/
theorem failedAttempts_unbounded (status : String) (starts : List Time)
    (hstatus : isPermanentFailure (DescriptionFailure.call status).text = false)
    (htask : s.task = none)
    (hrow : s.row = { description := none, failedAttempts := 0, startedAt := none }) :
    ∃ t, Runs.exec descriptionStep s (starts.flatMap (failedAttempt status)) = some t ∧
      t.failures = s.failures + starts.length := by
  induction starts generalizing s with
  | nil => exact ⟨s, rfl, rfl⟩
  | cons now starts ih =>
    have hcount : failureCount (.error (.call status)) = 1 := by
      simp [failureCount, DescriptionFailure.imageSpecific, hstatus]
    have hone : Runs.exec descriptionStep s (failedAttempt status now) =
        some { row := { description := none, failedAttempts := 0, startedAt := none }, task := none
               failures := s.failures + 1, handled := true } := by
      have hsplit : failedAttempt status now = [.select, .start now true,
        .finish (.error (.call status)) ⟨true, true⟩] ++ [.sweep (now + secs 1200) true] := rfl
      rw [hsplit, Runs.exec_append, failedCall_exec _ _ now htask (by rw [hrow]) hstatus, hcount,
        Option.bind_some]
      show some _ = some _
      rw [sweepStatement_unparks rfl rfl (by rw [hrow]) (by simp [secs, nanosPerSec]), hrow]
    obtain ⟨t, hrun, hfailures⟩ := ih (s := { row := ⟨none, 0, none⟩, task := none
                                              failures := s.failures + 1, handled := true }) rfl rfl
    refine ⟨t, ?_, by rw [hfailures, List.length_cons]; dsimp only; omega⟩
    rw [List.flatMap_cons, Runs.exec_append, hone]
    exact hrun

/-- Attempts that start when the sweep has made the image due again. -/
def attemptStarts (n : Nat) : List Time := (List.range n).map fun i => i * secs 1200

/-- The marker survives an outage and a connect timeout; and an image is sent a sixth time after
five calls that failed in the middle. -/
theorem poison_cap_exceeded :
    (¬Runs.Throughout descriptionStep
        (fun s => s.handled = true → s.row.description ≠ some processingMarker) .init
        [.select, .start 0 true, .finish (.error (.refused "transport error")) ⟨true, true⟩]) ∧
      (¬Runs.Throughout descriptionStep
        (fun s => s.handled = true → s.row.description ≠ some processingMarker) .init
        [.select, .start 0 true, .finish (.error (.timedOut "http://ai:50051")) ⟨true, true⟩]) ∧
      ¬Runs.Throughout descriptionStep (fun s => (s.failures : Int) ≤ descFailCap) .init
        ((attemptStarts 6).flatMap (failedAttempt "status: Unavailable")) := by
  refine ⟨?_, ?_, ?_⟩
  · have hexec := failedCall_exec (s := .init) (.refused "transport error") ⟨true, true⟩ 0 rfl rfl
      (by decide +kernel)
    exact Runs.not_throughout_of_last ⟨_, Option.mem_def.mpr hexec, by simp⟩
  · have hexec := failedCall_exec (s := .init) (.timedOut "http://ai:50051") ⟨true, true⟩ 0 rfl rfl
      (by decide +kernel)
    exact Runs.not_throughout_of_last ⟨_, Option.mem_def.mpr hexec, by simp⟩
  · obtain ⟨t, hexec, hfailures⟩ := failedAttempts_unbounded (s := .init) "status: Unavailable"
      (attemptStarts 6) (by decide +kernel) rfl rfl
    refine Runs.not_throughout_of_last ⟨t, Option.mem_def.mpr hexec, ?_⟩
    rw [hfailures]
    decide

end Reminisce

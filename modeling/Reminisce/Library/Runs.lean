import Mathlib.Data.List.Induction

namespace Runs

variable {S E : Type}

/-- The state after a list of events, `none` as soon as one of them is not enabled. -/
def exec (step : S → E → Option S) : S → List E → Option S
  | s, [] => some s
  | s, e :: es => (step s e).bind fun t => exec step t es

/-- Every event of the list meets `cond` in the state it is taken from. -/
def Meets (step : S → E → Option S) (cond : S → E → Prop) : S → List E → Prop
  | _, [] => True
  | s, e :: es => cond s e ∧ ∀ t, step s e = some t → Meets step cond t es

/-- The property holds in the first state and in every state the events lead to. -/
def Throughout (step : S → E → Option S) (prop : S → Prop) : S → List E → Prop
  | s, [] => prop s
  | s, e :: es => prop s ∧ ∀ t, step s e = some t → Throughout step prop t es

/-- Whether a run meets a decidable condition is found by taking its steps. -/
instance decidableMeets (step : S → E → Option S) (cond : S → E → Prop)
    [∀ s e, Decidable (cond s e)] : ∀ s es, Decidable (Meets step cond s es)
  | _, [] => isTrue trivial
  | s, e :: es =>
    match hstep : step s e with
    | none => decidable_of_iff (cond s e) (by simp [Meets, hstep])
    | some t =>
      have := decidableMeets step cond t es
      decidable_of_iff (cond s e ∧ Meets step cond t es) (by simp [Meets, hstep])

variable {step : S → E → Option S}

@[simp] theorem exec_nil (s : S) : exec step s [] = some s := rfl

theorem exec_cons {s t : S} {e : E} {es : List E} (h : exec step s (e :: es) = some t) :
    ∃ u, step s e = some u ∧ exec step u es = some t :=
  Option.bind_eq_some_iff.mp h

theorem exec_append (s : S) (es fs : List E) :
    exec step s (es ++ fs) = (exec step s es).bind fun t => exec step t fs := by
  induction es generalizing s with
  | nil => rfl
  | cons e es ih =>
    simp only [List.cons_append, exec]
    cases step s e with
    | none => rfl
    | some u => exact ih u

theorem exec_concat {s t : S} {es : List E} {e : E} (h : exec step s (es ++ [e]) = some t) :
    ∃ u, exec step s es = some u ∧ step u e = some t := by
  rw [exec_append] at h
  obtain ⟨u, hu, ht⟩ := Option.bind_eq_some_iff.mp h
  obtain ⟨v, hv, hn⟩ := exec_cons ht
  cases Option.some.inj hn
  exact ⟨u, hu, hv⟩

/-- The events of a longer list meet the condition in their states too. -/
theorem meets_append {cond : S → E → Prop} {s t : S} {es fs : List E}
    (h : Meets step cond s (es ++ fs)) (hr : exec step s es = some t) :
    Meets step cond s es ∧ Meets step cond t fs := by
  induction es generalizing s with
  | nil =>
    cases Option.some.inj hr
    exact ⟨trivial, h⟩
  | cons e es ih =>
    obtain ⟨u, hu, ht⟩ := exec_cons hr
    refine ⟨⟨h.1, fun v hv => ?_⟩, (ih (h.2 u hu) ht).2⟩
    cases Option.some.inj (hu.symm.trans hv)
    exact (ih (h.2 u hu) ht).1

/-- A condition on the events and a property of all the states are one condition. -/
theorem meets_throughout {cond : S → E → Prop} {prop : S → Prop} {s : S} {es : List E}
    (hc : Meets step cond s es) (hp : Throughout step prop s es) :
    Meets step (fun s e => cond s e ∧ prop s) s es := by
  induction es generalizing s with
  | nil => trivial
  | cons e es ih => exact ⟨⟨hc.1, hp.1⟩, fun t ht => ih (hc.2 t ht) (hp.2 t ht)⟩

/-- An invariant kept by every step that meets the condition holds after every run
whose steps meet it. -/
theorem exec_invariant {cond : S → E → Prop} {inv : S → Prop}
    (keeps : ∀ s e t, inv s → cond s e → step s e = some t → inv t)
    {s t : S} {es : List E} (hs : inv s) (hc : Meets step cond s es)
    (h : exec step s es = some t) : inv t := by
  induction es generalizing s with
  | nil => cases Option.some.inj h; exact hs
  | cons e es ih =>
    obtain ⟨u, hu, ht⟩ := exec_cons h
    exact ih (keeps s e u hs hc.1 hu) (hc.2 u hu) ht

/-- The unconditional form: an invariant of every step is an invariant of every run. -/
theorem exec_invariant_of_step {inv : S → Prop}
    (keeps : ∀ s e t, inv s → step s e = some t → inv t)
    {s t : S} {es : List E} (hs : inv s) (h : exec step s es = some t) : inv t := by
  induction es generalizing s with
  | nil => cases Option.some.inj h; exact hs
  | cons e es ih =>
    obtain ⟨u, hu, ht⟩ := exec_cons h
    exact ih (keeps s e u hs hu) ht

/-- An invariant that may speak of the events taken so far, for runs whose event list is
in a class closed under dropping the last event. -/
theorem exec_history {inv : List E → S → Prop} {good : List E → Prop}
    (closed : ∀ past e, good (past ++ [e]) → good past)
    (keeps : ∀ past s e t, good (past ++ [e]) → inv past s → step s e = some t →
      inv (past ++ [e]) t)
    {s t : S} {es : List E} (hs : inv [] s) (hg : good es)
    (h : exec step s es = some t) : inv es t := by
  induction es using List.reverseRecOn generalizing t with
  | nil => cases Option.some.inj h; exact hs
  | append_singleton es e ih =>
    obtain ⟨u, hu, ht⟩ := exec_concat h
    exact keeps es u e t hg (ih (closed es e hg) hu) ht

theorem throughout_head {prop : S → Prop} {s : S} {es : List E}
    (h : Throughout step prop s es) : prop s := by
  cases es with
  | nil => exact h
  | cons e es => exact h.1

/-- When each step ends in the property exactly if it meets the condition, a run stays in
the property exactly if all its steps meet the condition. -/
theorem throughout_iff_meets {cond : S → E → Prop} {base prop : S → Prop}
    (kept : ∀ s e t, base s → step s e = some t → base t)
    (exact_step : ∀ s e, base s → prop s →
      ((∀ t, step s e = some t → prop t) ↔ cond s e))
    {s : S} (hb : base s) (hp : prop s) (es : List E) :
    Throughout step prop s es ↔ Meets step cond s es := by
  induction es generalizing s with
  | nil => exact ⟨fun _ => trivial, fun _ => hp⟩
  | cons e es ih =>
    constructor
    · intro h
      have hc := (exact_step s e hb hp).mp fun t ht => throughout_head (h.2 t ht)
      refine ⟨hc, fun t ht => ?_⟩
      exact (ih (kept s e t hb ht) (throughout_head (h.2 t ht))).mp (h.2 t ht)
    · intro h
      have hn := (exact_step s e hb hp).mpr h.1
      exact ⟨hp, fun t ht => (ih (kept s e t hb ht) (hn t ht)).mpr (h.2 t ht)⟩

/-- A property that holds throughout a run holds in the state the run ends in. -/
theorem throughout_last {prop : S → Prop} {s t : S} {es : List E}
    (h : Throughout step prop s es) (hr : exec step s es = some t) : prop t := by
  induction es generalizing s with
  | nil => cases Option.some.inj hr; exact h
  | cons e es ih =>
    obtain ⟨u, hu, ht⟩ := exec_cons hr
    exact ih (h.2 u hu) ht

theorem not_throughout_of_last {prop : S → Prop} {s : S} {es : List E}
    (h : ∃ t ∈ exec step s es, ¬prop t) : ¬Throughout step prop s es := by
  obtain ⟨t, ht, hn⟩ := h
  exact fun hp => hn (throughout_last hp ht)

theorem throughout_mono {prop weaker : S → Prop} (h : ∀ s, prop s → weaker s) {s : S} {es : List E}
    (hp : Throughout step prop s es) : Throughout step weaker s es := by
  induction es generalizing s with
  | nil => exact h s hp
  | cons e es ih => exact ⟨h s hp.1, fun t ht => ih (hp.2 t ht)⟩

theorem throughout_invariant {inv : S → Prop} (keeps : ∀ s e t, inv s → step s e = some t → inv t)
    {s : S} (hs : inv s) (es : List E) : Throughout step inv s es := by
  induction es generalizing s with
  | nil => exact hs
  | cons e es ih => exact ⟨hs, fun t ht => ih (keeps s e t hs ht)⟩

theorem throughout_and {prop other : S → Prop} {s : S} {es : List E}
    (hp : Throughout step prop s es) (ho : Throughout step other s es) :
    Throughout step (fun s => prop s ∧ other s) s es := by
  induction es generalizing s with
  | nil => exact ⟨hp, ho⟩
  | cons e es ih => exact ⟨⟨hp.1, ho.1⟩, fun t ht => ih (hp.2 t ht) (ho.2 t ht)⟩

/-- An invariant kept by every step that meets the condition holds in every state of a run
whose steps meet it. -/
theorem throughout_of_meets {cond : S → E → Prop} {inv : S → Prop}
    (keeps : ∀ s e t, inv s → cond s e → step s e = some t → inv t)
    {s : S} {es : List E} (hs : inv s) (hc : Meets step cond s es) : Throughout step inv s es := by
  induction es generalizing s with
  | nil => exact hs
  | cons e es ih => exact ⟨hs, fun t ht => ih (keeps s e t hs hc.1 ht) (hc.2 t ht)⟩

/-- What an invariant allows at each step is met by every run that keeps the invariant. -/
theorem meets_of_invariant {cond allowed : S → E → Prop} {inv : S → Prop}
    (keeps : ∀ s e t, inv s → cond s e → step s e = some t → inv t)
    (allows : ∀ s e, inv s → cond s e → allowed s e) {s : S} {es : List E} (hs : inv s)
    (hc : Meets step cond s es) : Meets step allowed s es := by
  induction es generalizing s with
  | nil => trivial
  | cons e es ih =>
    exact ⟨allows s e hs hc.1, fun t ht => ih (keeps s e t hs hc.1 ht) (hc.2 t ht)⟩

/-- One step that does not meet the condition spoils every run that comes to it. -/
theorem not_meets_of_step {cond : S → E → Prop} {s t : S} {e : E} {past rest : List E}
    (hr : exec step s past = some t) (hn : ¬cond t e) : ¬Meets step cond s (past ++ e :: rest) :=
  fun h => hn (meets_append h hr).2.1

theorem meets_of_mem {cond : S → E → Prop} {es : List E} (h : ∀ e ∈ es, ∀ s, cond s e) (s : S) :
    Meets step cond s es := by
  induction es generalizing s with
  | nil => trivial
  | cons e es ih =>
    exact ⟨h e (by simp) s, fun t _ => ih (fun f hf => h f (List.mem_cons_of_mem _ hf)) t⟩

theorem meets_and {cond other : S → E → Prop} {s : S} {es : List E}
    (hc : Meets step cond s es) (ho : Meets step other s es) :
    Meets step (fun s e => cond s e ∧ other s e) s es := by
  induction es generalizing s with
  | nil => trivial
  | cons e es ih => exact ⟨⟨hc.1, ho.1⟩, fun t ht => ih (hc.2 t ht) (ho.2 t ht)⟩

/-- Along a run of allowed events, conditions that agree on the enabled steps are met together. -/
theorem meets_congr {cond other : S → E → Prop} {allowed : E → Prop}
    (agree : ∀ s e t, allowed e → step s e = some t → (cond s e ↔ other s e)) {s t : S}
    {es : List E} (ha : ∀ e ∈ es, allowed e) (h : exec step s es = some t) :
    Meets step cond s es ↔ Meets step other s es := by
  induction es generalizing s with
  | nil => exact Iff.rfl
  | cons e es ih =>
    obtain ⟨u, hu, ht⟩ := exec_cons h
    have hrest := ih (fun f hf => ha f (List.mem_cons_of_mem _ hf)) ht
    refine and_congr (agree s e u (ha e (by simp)) hu) (forall_congr' fun v => ?_)
    refine forall_congr' fun hv => ?_
    cases Option.some.inj (hu.symm.trans hv)
    exact hrest

/-- A run is no longer than a measure that each of its steps lowers. -/
theorem length_le_measure {cond : S → E → Prop} {allowed : E → Prop} (measure : S → Nat)
    (lowers : ∀ s e t, allowed e → cond s e → step s e = some t → measure t < measure s) {s t : S}
    {es : List E} (ha : ∀ e ∈ es, allowed e) (hc : Meets step cond s es)
    (h : exec step s es = some t) : es.length + measure t ≤ measure s := by
  induction es generalizing s with
  | nil =>
    cases Option.some.inj h
    simp
  | cons e es ih =>
    obtain ⟨u, hu, ht⟩ := exec_cons h
    have hless := lowers s e u (ha e (by simp)) hc.1 hu
    have hrest := ih (fun f hf => ha f (List.mem_cons_of_mem _ hf)) (hc.2 u hu) ht
    rw [List.length_cons]
    omega

/-- Steps that are always enabled can be taken one after the other. -/
theorem exec_total (h : ∀ s e, ∃ t, step s e = some t) (s : S) (es : List E) :
    ∃ t, exec step s es = some t := by
  induction es generalizing s with
  | nil => exact ⟨s, rfl⟩
  | cons e es ih =>
    obtain ⟨u, hu⟩ := h s e
    obtain ⟨t, ht⟩ := ih u
    exact ⟨t, by rw [exec, hu, Option.bind_some, ht]⟩

/-- A second system follows every run of the first if it can follow each step. -/
theorem exec_simulates {T : Type} {step' : T → E → Option T} {cond : S → E → Prop}
    {rel : S → T → Prop}
    (follows : ∀ s t e s', rel s t → cond s e → step s e = some s' →
      ∃ t', step' t e = some t' ∧ rel s' t')
    {s s' : S} {t : T} {es : List E} (hs : rel s t) (hc : Meets step cond s es)
    (h : exec step s es = some s') : ∃ t', exec step' t es = some t' ∧ rel s' t' := by
  induction es generalizing s t with
  | nil =>
    cases Option.some.inj h
    exact ⟨t, rfl, hs⟩
  | cons e es ih =>
    obtain ⟨u, hu, hrest⟩ := exec_cons h
    obtain ⟨v, hv, hrel⟩ := follows s t e u hs hc.1 hu
    obtain ⟨t', ht', hlast⟩ := ih hrel (hc.2 u hu) hrest
    exact ⟨t', by rw [exec, hv, Option.bind_some, ht'], hlast⟩

end Runs

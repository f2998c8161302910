import Reminisce.Library.Runs

namespace Unwinding

open Runs

variable {S E O : Type}

/-- What an observer sees of a run. -/
def seen (step : S → E → S) (observe : S → E → Option O) : S → List E → List O
  | _, [] => []
  | s, e :: es => (observe s e).toList ++ seen step observe (step s e) es

def always (step : S → E → S) (s : S) (e : E) : Option S := some (step s e)

variable {step : S → E → S} {observe : S → E → Option O} {hidden : E → Bool}

/-- The events that are hidden can be taken out of a run without a change of what is seen, if a
relation is kept by them on one side and by every other event on both sides. -/
theorem seen_filter {related : S → S → Prop} {cond given : S → E → Prop}
    (silent : ∀ s e, hidden e = true → observe s e = none)
    (aside : ∀ s t e, related s t → cond s e → hidden e = true → related (step s e) t)
    (both : ∀ s t e, related s t → cond s e → given t e → hidden e = false →
      related (step s e) (step t e) ∧ observe s e = observe t e)
    {s t : S} {es : List E} (hr : related s t) (hc : Meets (always step) cond s es)
    (hg : Meets (always step) given t (es.filter fun e => !hidden e)) :
    seen step observe s es = seen step observe t (es.filter fun e => !hidden e) := by
  induction es generalizing s t with
  | nil => rfl
  | cons e es ih =>
    have hcrest := hc.2 (step s e) rfl
    cases he : hidden e with
    | true =>
      have hskip : (e :: es).filter (fun e => !hidden e) = es.filter fun e => !hidden e :=
        List.filter_cons_of_neg (by simp [he])
      rw [hskip] at hg ⊢
      rw [seen, silent s e he]
      exact ih (aside s t e hr hc.1 he) hcrest hg
    | false =>
      have hkeep : (e :: es).filter (fun e => !hidden e) = e :: es.filter fun e => !hidden e :=
        List.filter_cons_of_pos (by simp [he])
      rw [hkeep] at hg ⊢
      obtain ⟨hrel, heq⟩ := both s t e hr hc.1 hg.1 he
      rw [seen, seen, heq]
      exact congrArg _ (ih hrel hcrest (hg.2 _ rfl))

end Unwinding

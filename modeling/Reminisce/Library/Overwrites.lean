import Mathlib.Data.List.Dedup
import Mathlib.Logic.Function.Basic

namespace Overwrites

variable {K V O : Type} [DecidableEq K]

/-- One entry of a map is set, or none. -/
def write (m : K → V) : Option (K × V) → K → V
  | none => m
  | some entry => Function.update m entry.1 entry.2

/-- The map after a list of operations. What an operation sets does not depend on the map. -/
def runWrites (effect : O → Option (K × V)) (m : K → V) (ops : List O) : K → V :=
  ops.foldl (fun m o => write m (effect o)) m

variable {effect : O → Option (K × V)} {m m' : K → V}

theorem runWrites_cons (effect : O → Option (K × V)) (m : K → V) (o : O) (ops : List O) :
    runWrites effect m (o :: ops) = runWrites effect (write m (effect o)) ops := rfl

/-- Entries that the operations set anyway may differ before. -/
theorem runWrites_congr {ops : List O}
    (h : ∀ k, m k = m' k ∨ ∃ o ∈ ops, ∃ v, effect o = some (k, v)) :
    runWrites effect m ops = runWrites effect m' ops := by
  induction ops generalizing m m' with
  | nil =>
    funext k
    rcases h k with heq | ⟨o, ho, _⟩
    · exact heq
    · simp at ho
  | cons o ops ih =>
    rw [runWrites_cons, runWrites_cons]
    apply ih
    intro k
    cases heffect : effect o with
    | none =>
      rcases h k with heq | ⟨other, hother, v, hv⟩
      · exact Or.inl heq
      · rcases List.mem_cons.mp hother with rfl | hother
        · rw [heffect] at hv
          simp at hv
        · exact Or.inr ⟨other, hother, v, hv⟩
    | some entry =>
      by_cases hk : k = entry.1
      · left
        simp [write, hk]
      · rcases h k with heq | ⟨other, hother, v, hv⟩
        · left
          simp [write, hk, heq]
        · rcases List.mem_cons.mp hother with rfl | hother
          · rw [heffect] at hv
            cases Option.some.inj hv
            exact absurd rfl hk
          · exact Or.inr ⟨other, hother, v, hv⟩

/-- An operation that comes again later may be left out. -/
theorem runWrites_drop {o : O} {ops : List O} (h : o ∈ ops) :
    runWrites effect (write m (effect o)) ops = runWrites effect m ops := by
  apply runWrites_congr
  intro k
  cases heffect : effect o with
  | none => exact Or.inl rfl
  | some entry =>
    by_cases hk : k = entry.1
    · subst hk
      exact Or.inr ⟨o, h, entry.2, heffect⟩
    · left
      simp [write, hk]

/-- Replays do not matter: the last occurrence of each operation is enough. -/
theorem runWrites_dedup [DecidableEq O] (m : K → V) (ops : List O) :
    runWrites effect m ops.dedup = runWrites effect m ops := by
  induction ops generalizing m with
  | nil => rfl
  | cons o ops ih =>
    by_cases hmem : o ∈ ops
    · rw [List.dedup_cons_of_mem hmem, ih, runWrites_cons, runWrites_drop hmem]
    · rw [List.dedup_cons_of_notMem hmem, runWrites_cons, runWrites_cons, ih]

end Overwrites

import Mathlib.Algebra.Order.Field.Basic
import Mathlib.Tactic.Linarith

namespace RateBound

section

variable {K : Type} [LinearOrder K]

/-- How many of the moments lie between two others, both included. -/
def countIn (start stop : K) (times : List K) : Nat :=
  times.countP fun t => decide (start ≤ t ∧ t ≤ stop)

variable {start stop : K} {times : List K}

theorem countIn_congr {other : K} (h : ∀ t ∈ times, t ≤ stop ↔ t ≤ other) :
    countIn start stop times = countIn start other times := by
  refine List.countP_congr fun t ht => ?_
  simp [h t ht]

/-- No moment is counted after the last one. -/
theorem countIn_eq_zero (h : ∀ t ∈ times, t < start) : countIn start stop times = 0 := by
  refine List.countP_eq_zero.mpr fun t ht => ?_
  have := h t ht
  simp only [decide_eq_true_eq]
  rintro ⟨hle, _⟩
  exact absurd hle (not_le.mpr this)

end

variable {K : Type} [Field K] [LinearOrder K] [IsStrictOrderedRing K]

/-- `level` is what is left at `now` of a stock of at most `cap` that grows at `rate`, after one
unit was taken at each of the moments. -/
structure Credit (cap rate : K) (times : List K) (now level : K) : Prop where
  nonneg : 0 ≤ level
  le_cap : level ≤ cap
  past : ∀ t ∈ times, t ≤ now
  since : ∀ start ≤ now, (countIn start now times : K) + level ≤ cap + rate * (now - start)
  bounded : ∀ start stop, start ≤ stop →
    (countIn start stop times : K) ≤ cap + rate * (stop - start)

variable {cap rate now later level next : K} {times : List K}

namespace Credit

theorem full (hcap : 0 ≤ cap) (hrate : 0 ≤ rate) (now : K) : Credit cap rate [] now cap where
  nonneg := hcap
  le_cap := le_rfl
  past := by simp
  since := by
    intro start hle
    have := mul_nonneg hrate (sub_nonneg.mpr hle)
    simp only [countIn, List.countP_nil, Nat.cast_zero]
    linarith
  bounded := by
    intro start stop hle
    have := mul_nonneg hrate (sub_nonneg.mpr hle)
    simp only [countIn, List.countP_nil, Nat.cast_zero]
    linarith

/-- While nothing is taken the stock may grow at its rate, or shrink. -/
theorem wait (h : Credit cap rate times now level) (hrate : 0 ≤ rate) (hlater : now ≤ later)
    (hnonneg : 0 ≤ next) (hcap : next ≤ cap) (hgrowth : next ≤ level + rate * (later - now)) :
    Credit cap rate times later next where
  nonneg := hnonneg
  le_cap := hcap
  past t ht := (h.past t ht).trans hlater
  since := by
    intro start hle
    by_cases hstart : start ≤ now
    · have hcount : countIn start later times = countIn start now times :=
        countIn_congr fun t ht => iff_of_true ((h.past t ht).trans hlater) (h.past t ht)
      have hbefore := h.since start hstart
      have hsplit : rate * (later - start) = rate * (later - now) + rate * (now - start) := by
        rw [← mul_add, sub_add_sub_cancel]
      rw [hcount, hsplit]
      linarith
    · have hzero : countIn start later times = 0 :=
        countIn_eq_zero fun t ht => (h.past t ht).trans_lt (not_le.mp hstart)
      have := mul_nonneg hrate (sub_nonneg.mpr hle)
      rw [hzero, Nat.cast_zero]
      linarith
  bounded := h.bounded

/-- A whole unit can be taken now. -/
theorem take (h : Credit cap rate times now level) (hrate : 0 ≤ rate) (hone : 1 ≤ level) :
    Credit cap rate (now :: times) now (level - 1) where
  nonneg := sub_nonneg.mpr hone
  le_cap := (sub_le_self level zero_le_one).trans h.le_cap
  past t ht := (List.mem_cons.mp ht).elim le_of_eq (h.past t)
  since := by
    intro start hle
    have hcount : countIn start now (now :: times) = countIn start now times + 1 :=
      List.countP_cons_of_pos (by simp [hle])
    have hbefore := h.since start hle
    rw [hcount, Nat.cast_add, Nat.cast_one]
    linarith
  bounded := by
    intro start stop hle
    by_cases hin : start ≤ now ∧ now ≤ stop
    · have hcount : countIn start stop (now :: times) = countIn start stop times + 1 :=
        List.countP_cons_of_pos (by simp [hin])
      have hpast : countIn start stop times = countIn start now times :=
        countIn_congr fun t ht => iff_of_true ((h.past t ht).trans hin.2) (h.past t ht)
      have hbefore := h.since start hin.1
      have hgrow : rate * (now - start) ≤ rate * (stop - start) :=
        mul_le_mul_of_nonneg_left (sub_le_sub_right hin.2 start) hrate
      rw [hcount, hpast, Nat.cast_add, Nat.cast_one]
      linarith
    · have hcount : countIn start stop (now :: times) = countIn start stop times :=
        List.countP_cons_of_neg (by simpa using hin)
      rw [hcount]
      exact h.bounded start stop hle

end Credit

end RateBound

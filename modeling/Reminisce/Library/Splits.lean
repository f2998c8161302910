import Mathlib.Data.List.Basic

namespace Splits

variable {α : Type} [DecidableEq α]

/-- The texts before and behind the first separator. -/
def splitOnce (sep : α) : List α → Option (List α × List α)
  | [] => none
  | x :: xs => if x = sep then some ([], xs) else (splitOnce sep xs).map fun p => (x :: p.1, p.2)

/-- The texts before and behind the last separator. -/
def rsplitOnce (sep : α) (xs : List α) : Option (List α × List α) :=
  (splitOnce sep xs.reverse).map fun p => (p.2.reverse, p.1.reverse)

variable {sep : α} {xs ys zs : List α}

theorem splitOnce_append (h : sep ∉ xs) : splitOnce sep (xs ++ sep :: ys) = some (xs, ys) := by
  induction xs with
  | nil => simp [splitOnce]
  | cons x xs ih =>
    simp only [List.mem_cons, not_or] at h
    simp [splitOnce, Ne.symm h.1, ih h.2]

theorem splitOnce_eq_none (h : sep ∉ xs) : splitOnce sep xs = none := by
  induction xs with
  | nil => rfl
  | cons x xs ih =>
    simp only [List.mem_cons, not_or] at h
    simp [splitOnce, Ne.symm h.1, ih h.2]

theorem splitOnce_cases (sep : α) (zs : List α) :
    (sep ∉ zs ∧ splitOnce sep zs = none) ∨
      ∃ xs ys, zs = xs ++ sep :: ys ∧ sep ∉ xs ∧ splitOnce sep zs = some (xs, ys) := by
  by_cases h : sep ∈ zs
  · obtain ⟨xs, ys, heq, hxs⟩ := List.eq_append_cons_of_mem h
    exact Or.inr ⟨xs, ys, heq, hxs, heq ▸ splitOnce_append hxs⟩
  · exact Or.inl ⟨h, splitOnce_eq_none h⟩

theorem rsplitOnce_append (h : sep ∉ ys) : rsplitOnce sep (xs ++ sep :: ys) = some (xs, ys) := by
  have hsplit : splitOnce sep (ys.reverse ++ sep :: xs.reverse) = _ :=
    splitOnce_append (mt List.mem_reverse.mp h)
  simp [rsplitOnce, hsplit]

theorem rsplitOnce_eq_none (h : sep ∉ xs) : rsplitOnce sep xs = none := by
  simp [rsplitOnce, splitOnce_eq_none (mt List.mem_reverse.mp h)]

theorem rsplitOnce_cases (sep : α) (zs : List α) :
    (sep ∉ zs ∧ rsplitOnce sep zs = none) ∨
      ∃ xs ys, zs = xs ++ sep :: ys ∧ sep ∉ ys ∧ rsplitOnce sep zs = some (xs, ys) := by
  rcases splitOnce_cases sep zs.reverse with ⟨h, _⟩ | ⟨ys, xs, heq, hys, _⟩
  · have hzs : sep ∉ zs := fun hmem => h (List.mem_reverse.mpr hmem)
    exact Or.inl ⟨hzs, rsplitOnce_eq_none hzs⟩
  · have hzs : zs = xs.reverse ++ sep :: ys.reverse := by
      rw [← List.reverse_reverse zs, heq]
      simp
    have hys' : sep ∉ ys.reverse := mt List.mem_reverse.mp hys
    exact Or.inr ⟨xs.reverse, ys.reverse, hzs, hys', hzs ▸ rsplitOnce_append hys'⟩

theorem takeWhile_eq_self (h : sep ∉ xs) : xs.takeWhile (· ≠ sep) = xs := by
  induction xs with
  | nil => rfl
  | cons x xs ih =>
    simp only [List.mem_cons, not_or] at h
    rw [List.takeWhile_cons, if_pos (by simpa using Ne.symm h.1), ih h.2]

theorem takeWhile_append (h : sep ∉ xs) : (xs ++ sep :: ys).takeWhile (· ≠ sep) = xs := by
  rw [List.takeWhile_append_of_pos fun x hx => by simpa using ne_of_mem_of_not_mem hx h]
  simp

theorem isPrefixOf?_eq_some_iff : xs.isPrefixOf? zs = some ys ↔ zs = xs ++ ys := by
  induction xs generalizing zs with
  | nil => simp [List.isPrefixOf?]
  | cons x xs ih =>
    cases zs with
    | nil => simp [List.isPrefixOf?]
    | cons z zs =>
      by_cases h : x = z
      · simp [List.isPrefixOf?, h, ih]
      · simp [List.isPrefixOf?, h, Ne.symm h]

end Splits

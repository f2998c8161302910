import Mathlib.LinearAlgebra.Lagrange

namespace EvaluationCode

open Polynomial

section Samples

variable {F : Type} [Field F]

/-- The value at point `j` of the polynomial through the samples `value` on `s`. -/
noncomputable def sample (point : ℕ → F) (s : Finset ℕ) (value : ℕ → F) (j : ℕ) : F :=
  (Lagrange.interpolate s point value).eval (point j)

variable {point : ℕ → F} {s : Finset ℕ} {value : ℕ → F} {n k j : ℕ}

theorem sample_of_mem (inj : Set.InjOn point s) (hj : j ∈ s) :
    sample point s value j = value j :=
  Lagrange.eval_interpolate_at_node value inj hj

theorem sample_congr {value' : ℕ → F} (h : ∀ i ∈ s, value i = value' i) :
    sample point s value j = sample point s value' j := by
  unfold sample
  rw [Lagrange.interpolate_eq_of_values_eq_on (v := point) value value' h]

/-- Any `k` points of a codeword of dimension `k` determine the whole codeword. -/
theorem sample_of_samples (inj : Set.InjOn point (Finset.range n)) (hk : k ≤ n)
    (hs : s ⊆ Finset.range n) (hcard : k ≤ s.card) :
    sample point s (sample point (Finset.range k) value) j =
      sample point (Finset.range k) value j := by
  have hsub : Finset.range k ⊆ Finset.range n := Finset.range_subset_range.mpr hk
  have injk : Set.InjOn point (Finset.range k) := inj.mono (Finset.coe_subset.mpr hsub)
  have injs : Set.InjOn point s := inj.mono (Finset.coe_subset.mpr hs)
  have hdeg : (Lagrange.interpolate (Finset.range k) point value).degree < s.card := by
    refine lt_of_lt_of_le (Lagrange.degree_interpolate_lt value injk) ?_
    simpa using hcard
  have heq := Lagrange.eq_interpolate_of_eval_eq
    (sample point (Finset.range k) value) injs hdeg (fun _ _ => rfl)
  unfold sample at heq ⊢
  rw [← heq]

end Samples

section Rows

variable {F α : Type} [Field F] [Inhabited α]

/-- The `n` rows of length `len` whose columns are the codewords through the rows in `s`. -/
noncomputable def spread (e : α ≃ F) (point : ℕ → F) (s : Finset ℕ) (n len : ℕ)
    (rows : ℕ → List α) : List (List α) :=
  (List.range n).map fun j => (List.range len).map fun i =>
    e.symm (sample point s (fun r => e ((rows r)[i]?.getD default)) j)

variable {e : α ≃ F} {point : ℕ → F} {s : Finset ℕ} {n len k j : ℕ} {rows : ℕ → List α}

@[simp] theorem length_spread : (spread e point s n len rows).length = n := by
  simp [spread]

theorem length_of_mem_spread {row : List α} (h : row ∈ spread e point s n len rows) :
    row.length = len := by
  obtain ⟨j, _, rfl⟩ := List.mem_map.mp h
  simp

theorem spread_getElem? (hj : j < n) :
    (spread e point s n len rows)[j]? = some ((List.range len).map fun i =>
      e.symm (sample point s (fun r => e ((rows r)[i]?.getD default)) j)) := by
  simp [spread, hj]

/-- A row the code was built from is itself a row of the result. -/
theorem spread_of_mem (inj : Set.InjOn point s) (hs : j ∈ s) (hj : j < n)
    (hlen : (rows j).length = len) :
    (spread e point s n len rows)[j]? = some (rows j) := by
  rw [spread_getElem? hj]
  refine congrArg some (List.ext_getElem (by simp [hlen]) ?_)
  intro i hi hi'
  simp [sample_of_mem inj hs, hi']

/-- Rebuilding from any `k` rows of an encoding of `k` rows gives the encoding back. -/
theorem spread_of_spread (inj : Set.InjOn point (Finset.range n)) (hk : k ≤ n)
    (hs : s ⊆ Finset.range n) (hcard : k ≤ s.card) {got : ℕ → List α}
    (hgot : ∀ r ∈ s, (spread e point (Finset.range k) n len rows)[r]? = some (got r)) :
    spread e point s n len got = spread e point (Finset.range k) n len rows := by
  unfold spread
  refine List.map_congr_left fun j _ => List.map_congr_left fun i hi => ?_
  have hil : i < len := List.mem_range.mp hi
  have hcol : ∀ r ∈ s, e ((got r)[i]?.getD default) =
      sample point (Finset.range k) (fun r => e ((rows r)[i]?.getD default)) r := by
    intro r hr
    have hrn : r < n := Finset.mem_range.mp (hs hr)
    have hrow := hgot r hr
    rw [spread_getElem? hrn] at hrow
    rw [← Option.some.inj hrow]
    simp [hil]
  rw [sample_congr hcol, sample_of_samples inj hk hs hcard]

/-- A column of the result depends on that column of the given rows only. -/
theorem spread_column {rows' : ℕ → List α} {i : ℕ} {len' : ℕ} (hi : i < len) (hi' : i < len')
    (hcol : ∀ r ∈ s, (rows r)[i]?.getD default = (rows' r)[i]?.getD default) (hj : j < n) :
    ((spread e point s n len rows)[j]?.getD [])[i]? =
      ((spread e point s n len' rows')[j]?.getD [])[i]? := by
  rw [spread_getElem? hj, spread_getElem? hj]
  have hval : ∀ r ∈ s, e ((rows r)[i]?.getD default) = e ((rows' r)[i]?.getD default) :=
    fun r hr => congrArg e (hcol r hr)
  simp only [Option.getD_some, List.getElem?_map, List.getElem?_range hi,
    List.getElem?_range hi', Option.map_some]
  rw [sample_congr hval]

end Rows

end EvaluationCode

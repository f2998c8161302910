import Mathlib.Data.Finset.Card
import Mathlib.Data.Fintype.BigOperators
import Mathlib.Data.Fintype.Vector
import Mathlib.Data.List.Basic
import Mathlib.Data.List.Induction

namespace Slices

variable {α : Type}

/-- `div_ceil`: the number of pieces of size `b` that cover `a` items. -/
def divCeil (a b : Nat) : Nat := (a + b - 1) / b

theorem le_divCeil_mul (a : Nat) {b : Nat} (hb : 0 < b) : a ≤ divCeil a b * b := by
  have h := Nat.div_add_mod (a + b - 1) b
  have hm := Nat.mod_lt (a + b - 1) hb
  rw [Nat.mul_comm] at h
  unfold divCeil
  omega

theorem divCeil_pos {a b : Nat} (ha : 0 < a) (hb : 0 < b) : 0 < divCeil a b :=
  Nat.div_pos (by omega) hb

theorem divCeil_le (a : Nat) {b : Nat} (hb : 0 < b) : divCeil a b ≤ a := by
  unfold divCeil
  cases a with
  | zero => exact Nat.le_of_eq (Nat.div_eq_of_lt (by omega))
  | succ a =>
    refine Nat.div_le_of_le_mul ?_
    have h := Nat.mul_le_mul_left a hb
    rw [Nat.mul_add, Nat.mul_one, Nat.mul_comm b a]
    omega

/-- `Vec::resize`. -/
def resize (n : Nat) (filler : α) (xs : List α) : List α :=
  xs.take n ++ List.replicate (n - xs.length) filler

@[simp] theorem length_resize (n : Nat) (filler : α) (xs : List α) :
    (resize n filler xs).length = n := by
  simp only [resize, List.length_append, List.length_take, List.length_replicate]
  omega

theorem resize_of_le {n : Nat} {filler : α} {xs : List α} (h : xs.length ≤ n) :
    resize n filler xs = xs ++ List.replicate (n - xs.length) filler := by
  rw [resize, List.take_of_length_le h]

theorem head_resize {n : Nat} {filler : α} {xs : List α} (hn : 0 < n) (hx : xs ≠ []) :
    (resize n filler xs).head? = xs.head? := by
  unfold resize
  cases xs with
  | nil => exact absurd rfl hx
  | cons x xs =>
    obtain ⟨k, rfl⟩ := Nat.exists_eq_succ_of_ne_zero (Nat.ne_of_gt hn)
    simp

theorem getElem?_resize_congr {n p : Nat} {filler : α} {xs ys : List α} (hx : xs.length ≤ n)
    (hlen : xs.length = ys.length) (hp : xs[p]? = ys[p]?) :
    (resize n filler xs)[p]? = (resize n filler ys)[p]? := by
  rw [resize_of_le hx, resize_of_le (hlen ▸ hx), List.getElem?_append, List.getElem?_append, hlen, hp]

theorem take_resize_of_le {n l : Nat} {filler : α} {xs : List α} (h : xs.length ≤ n)
    (hl : l ≤ xs.length) : (resize n filler xs).take l = xs.take l := by
  rw [resize_of_le h, List.take_append_of_le_length hl]

theorem take_resize {n : Nat} {filler : α} {xs : List α} (h : xs.length ≤ n) :
    (resize n filler xs).take xs.length = xs := by
  rw [resize_of_le h]
  exact List.take_left' rfl

/-- `chunks_exact`: the whole pieces of size `n`, a shorter rest dropped. -/
def chunksExact (n : Nat) (xs : List α) : List (List α) :=
  (List.range (xs.length / n)).map fun i => (xs.drop (i * n)).take n

theorem flatten_pieces (n k : Nat) (xs : List α) :
    ((List.range k).map fun i => (xs.drop (i * n)).take n).flatten = xs.take (k * n) := by
  induction k with
  | zero => simp
  | succ k ih =>
    rw [List.range_succ, List.map_append, List.flatten_append, ih, Nat.succ_mul, List.take_add]
    simp

theorem chunksExact_of_length {n k : Nat} {xs : List α} (hn : 0 < n) (h : xs.length = k * n) :
    chunksExact n xs = (List.range k).map fun i => (xs.drop (i * n)).take n := by
  rw [chunksExact, h, Nat.mul_div_cancel _ hn]

theorem length_piece {n k i : Nat} {xs : List α} (h : xs.length = k * n) (hi : i < k) :
    ((xs.drop (i * n)).take n).length = n := by
  have hle : i * n + n ≤ k * n := by
    rw [← Nat.succ_mul]
    exact Nat.mul_le_mul_right n hi
  simp only [List.length_take, List.length_drop, h]
  omega

/-- The pieces `chunks` yields: size `n` each, the last one possibly shorter. The first
argument bounds the number of pieces. -/
def chunks (n : Nat) : Nat → List α → List (List α)
  | 0, _ => []
  | fuel + 1, xs => if (xs.take n).length = 0 then [] else xs.take n :: chunks n fuel (xs.drop n)

theorem chunks_nil (n fuel : Nat) : chunks n fuel ([] : List α) = [] := by
  cases fuel <;> simp [chunks]

theorem chunks_of_le {n fuel : Nat} {xs : List α} (hx : xs ≠ []) (hn : xs.length ≤ n) :
    chunks n (fuel + 1) xs = [xs] := by
  have hlen : xs.length ≠ 0 := fun h => hx (List.length_eq_zero_iff.mp h)
  rw [chunks, List.take_of_length_le hn, List.drop_of_length_le hn, chunks_nil, if_neg hlen]

theorem chunks_two {n fuel : Nat} {first last : List α} (hn : 0 < n) (hfirst : first.length = n)
    (hpos : 0 < last.length) (hle : last.length ≤ n) (hf : 2 ≤ fuel) :
    chunks n fuel (first ++ last) = [first, last] := by
  obtain ⟨fuel, rfl⟩ := Nat.exists_eq_add_of_le' hf
  have htake : (first ++ last).take n = first := List.take_left' hfirst
  have hdrop : (first ++ last).drop n = last := List.drop_left' hfirst
  have hlast : last.take n = last := List.take_of_length_le hle
  have hnil : last.drop n = [] := List.drop_of_length_le hle
  simp only [chunks, htake, hdrop, hlast, hnil, chunks_nil]
  rw [if_neg (by omega), if_neg (by omega)]

theorem flatten_chunks {n fuel : Nat} {xs : List α} (hn : 0 < n) (hf : xs.length < fuel) :
    (chunks n fuel xs).flatten = xs := by
  induction fuel generalizing xs with
  | zero => omega
  | succ fuel ih =>
    unfold chunks
    split
    next h =>
      simp only [List.length_take] at h
      have : xs = [] := List.length_eq_zero_iff.mp (by omega)
      simp [this]
    next h =>
      simp only [List.length_take] at h
      have hd : (xs.drop n).length < fuel := by simp only [List.length_drop]; omega
      simp [ih hd]

/-- More than one piece comes out exactly when the list does not fit one piece. -/
theorem one_lt_length_chunks {n fuel : Nat} {xs : List α} (hn : 0 < n) (hf : xs.length < fuel)
    (h : n < xs.length) : 1 < (chunks n fuel xs).length := by
  cases fuel with
  | zero => omega
  | succ fuel =>
    have h1 : ¬(xs.take n).length = 0 := by simp only [List.length_take]; omega
    cases fuel with
    | zero => omega
    | succ fuel =>
      have h2 : ¬((xs.drop n).take n).length = 0 := by
        simp only [List.length_take, List.length_drop]
        omega
      rw [chunks, if_neg h1, chunks, if_neg h2]
      simp

/-- All pieces but the last are full. -/
theorem length_chunks_mul {n : Nat} (hn : 0 < n) (fuel : Nat) (xs : List α) :
    (chunks n fuel xs).length * n < xs.length + n := by
  induction fuel generalizing xs with
  | zero => simp only [chunks, List.length_nil]; omega
  | succ fuel ih =>
    unfold chunks
    split
    next => simp only [List.length_nil]; omega
    next hsome =>
      simp only [List.length_take] at hsome
      rw [List.length_cons, Nat.succ_mul]
      by_cases hle : xs.length ≤ n
      · rw [List.drop_of_length_le hle, chunks_nil]
        simp only [List.length_nil]
        omega
      · have hrest := ih (xs.drop n)
        rw [List.length_drop] at hrest
        omega

/-- Distinct places that hold a value are no more than the values there are. -/
theorem card_le_countP {α : Type} {xs : List (Option α)} {s : Finset Nat}
    (h : ∀ j ∈ s, ∃ x, xs[j]? = some (some x)) : s.card ≤ xs.countP Option.isSome := by
  induction xs using List.reverseRecOn generalizing s with
  | nil =>
    have hs : s = ∅ := Finset.eq_empty_of_forall_notMem fun j hj => by simpa using h j hj
    simp [hs]
  | append_singleton xs last ih =>
    have hrest : (s.erase xs.length).card ≤ xs.countP Option.isSome := by
      refine ih fun j hj => ?_
      obtain ⟨hne, hj⟩ := Finset.mem_erase.mp hj
      obtain ⟨x, hx⟩ := h j hj
      obtain ⟨hlt, _⟩ := List.getElem?_eq_some_iff.mp hx
      rw [List.length_append, List.length_singleton] at hlt
      rw [List.getElem?_append_left (by omega)] at hx
      exact ⟨x, hx⟩
    rw [List.countP_append]
    by_cases hmem : xs.length ∈ s
    · obtain ⟨x, hx⟩ := h _ hmem
      rw [List.getElem?_concat_length] at hx
      cases Option.some.inj hx
      have := Finset.card_erase_add_one hmem
      simp only [List.countP_singleton, Option.isSome_some, if_true]
      omega
    · rw [Finset.erase_eq_of_notMem hmem] at hrest
      omega

theorem take_take_append {l n : Nat} {xs ys : List α} (hl : l ≤ n) (hx : l ≤ xs.length) :
    ((xs ++ ys).take n).take l = xs.take l := by
  rw [List.take_take, Nat.min_eq_left hl, List.take_append_of_le_length hx]

/-- A full list of right values is the list of all of them. -/
theorem eq_map_some {xs : List (Option α)} {ys : List α} (hlen : xs.length = ys.length)
    (hright : ∀ (j : Nat) y, xs[j]? = some (some y) → ys[j]? = some y)
    (hfull : xs.all Option.isSome) : xs = ys.map some := by
  refine List.ext_getElem? fun j => ?_
  by_cases hj : j < xs.length
  · obtain ⟨y, hy⟩ := Option.isSome_iff_exists.mp (List.all_eq_true.mp hfull _ (List.getElem_mem hj))
    have hget : xs[j]? = some (some y) := by rw [List.getElem?_eq_getElem hj, hy]
    rw [hget, List.getElem?_map, hright j y hget, Option.map_some]
  · rw [List.getElem?_eq_none (by omega), List.getElem?_eq_none (by simp; omega)]

theorem all_isSome_of_countP {xs : List (Option α)} (h : xs.length ≤ xs.countP Option.isSome) :
    xs.all Option.isSome :=
  List.all_eq_true.mpr (List.countP_eq_length.mp (Nat.le_antisymm List.countP_le_length h))

/-- A list is determined by what is left after a window, when the window is too. -/
theorem eq_of_outside {xs ys : List α} {a w : Nat} (hlen : xs.length = ys.length)
    (hcut : xs.take a ++ xs.drop (a + w) = ys.take a ++ ys.drop (a + w))
    (hwindow : (∀ p, p < a ∨ a + w ≤ p → xs[p]? = ys[p]?) → ∀ i < w, xs[a + i]? = ys[a + i]?) :
    xs = ys := by
  obtain ⟨htake, hdrop⟩ := List.append_inj hcut (by simp [hlen])
  have houtside : ∀ p, p < a ∨ a + w ≤ p → xs[p]? = ys[p]? := by
    rintro p (hp | hp)
    · have h := congrArg (·[p]?) htake
      simpa [List.getElem?_take, hp] using h
    · have h := congrArg (·[p - (a + w)]?) hdrop
      simp only [List.getElem?_drop] at h
      rwa [show a + w + (p - (a + w)) = p by omega] at h
  refine List.ext_getElem? fun p => ?_
  by_cases hp : p < a ∨ a + w ≤ p
  · exact houtside p hp
  · have h := hwindow houtside (p - a) (by omega)
    rwa [show a + (p - a) = p by omega] at h

/-- Lists of one length do not fit into the lists that are one shorter. -/
theorem not_injOn_shorter [Fintype α] [Nontrivial α] {n : Nat} {f : List α → List α}
    (hlen : ∀ xs : List α, xs.length = n + 1 → (f xs).length = n) :
    ¬ Set.InjOn f {xs | xs.length = n + 1} := by
  intro hinj
  let g : List.Vector α (n + 1) → List.Vector α n := fun v => ⟨f v.toList, hlen _ v.2⟩
  have hg : Function.Injective g := by
    intro v w h
    exact List.Vector.toList_injective (hinj v.2 w.2 (congrArg List.Vector.toList h))
  have hcard := Fintype.card_le_of_injective g hg
  rw [card_vector, card_vector] at hcard
  have hone : 1 < Fintype.card α := Fintype.one_lt_card
  exact absurd hcard (Nat.not_le.mpr (Nat.pow_lt_pow_right hone (Nat.lt_succ_self n)))

end Slices

import Mathlib.Data.List.Sort

namespace Ranking

variable {α β : Type} {score : α → β} {xs ys : List α} {x y : α} {k : Nat}

abbrev Distinct (score : α → β) (xs : List α) : Prop := (xs.map score).Nodup

theorem Distinct.of_perm (h : Distinct score xs) (hp : ys.Perm xs) : Distinct score ys :=
  (hp.map score).nodup_iff.mpr h

variable [LinearOrder β]

/-- The entries by decreasing score, equal scores in the order of the list. -/
def ranked (score : α → β) (xs : List α) : List α :=
  xs.mergeSort fun a b => decide (score b ≤ score a)

/-- How many of the entries have a higher score. -/
def rank (score : α → β) (x : α) (xs : List α) : Nat := xs.countP fun y => score x < score y

abbrev Decreasing (score : α → β) (xs : List α) : Prop := xs.Pairwise fun a b => score b < score a

theorem ranked_perm (score : α → β) (xs : List α) : (ranked score xs).Perm xs :=
  List.mergeSort_perm _ _

@[simp] theorem mem_ranked : x ∈ ranked score xs ↔ x ∈ xs := List.mem_mergeSort

@[simp] theorem length_ranked : (ranked score xs).length = xs.length := List.length_mergeSort _

theorem Decreasing.distinct (h : Decreasing score xs) : Distinct score xs :=
  List.pairwise_map.mpr (h.imp fun hlt => (ne_of_lt hlt).symm)

theorem ranked_decreasing (h : Distinct score xs) : Decreasing score (ranked score xs) := by
  have hsorted : (ranked score xs).Pairwise fun a b => decide (score b ≤ score a) = true := by
    refine List.pairwise_mergeSort ?_ ?_ xs
    · simpa using fun a b c hab hbc => le_trans hbc hab
    · simpa using fun a b => le_total (score b) (score a)
  have hne : (ranked score xs).Pairwise fun a b => score a ≠ score b :=
    List.pairwise_map.mp (h.of_perm (ranked_perm score xs))
  refine (hsorted.and hne).imp fun h => ?_
  exact lt_of_le_of_ne (of_decide_eq_true h.1) h.2.symm

/-- A decreasing order of the entries is the only one. -/
theorem ranked_eq (hp : ys.Perm xs) (hd : Decreasing score ys) : ranked score xs = ys := by
  refine List.Perm.eq_of_pairwise ?_ (ranked_decreasing (hd.distinct.of_perm hp.symm)) hd
    ((ranked_perm score xs).trans hp.symm)
  exact fun a b _ _ hab hba => absurd hab (lt_asymm hba)

/-- The order of the list does not matter. -/
theorem ranked_of_perm (hd : Distinct score xs) (hp : ys.Perm xs) :
    ranked score ys = ranked score xs :=
  ranked_eq ((ranked_perm score xs).trans hp.symm) (ranked_decreasing hd)

theorem rank_of_perm (hp : ys.Perm xs) : rank score x ys = rank score x xs := hp.countP_eq _

theorem rank_le : rank score x xs ≤ xs.length := List.countP_le_length

/-- In a decreasing list the higher scores stand before the rank, the others from it on. -/
theorem Decreasing.split (hd : Decreasing score xs) :
    (∀ a ∈ xs.take (rank score x xs), score x < score a) ∧
      ∀ a ∈ xs.drop (rank score x xs), score a ≤ score x := by
  induction xs with
  | nil => simp
  | cons a xs ih =>
    obtain ⟨hfirst, hrest⟩ := List.pairwise_cons.mp hd
    obtain ⟨htake, hdrop⟩ := ih hrest
    by_cases hlt : score x < score a
    · have hrank : rank score x (a :: xs) = rank score x xs + 1 := by simp [rank, hlt]
      rw [hrank, List.take_succ_cons, List.drop_succ_cons]
      refine ⟨fun b hb => ?_, hdrop⟩
      rcases List.mem_cons.mp hb with rfl | hb
      · exact hlt
      · exact htake b hb
    · have hle : score a ≤ score x := not_lt.mp hlt
      have hrank : rank score x (a :: xs) = 0 := by
        refine List.countP_eq_zero.mpr fun b hb => ?_
        rcases List.mem_cons.mp hb with rfl | hb
        · simpa using hle
        · simpa using (hfirst b hb).le.trans hle
      rw [hrank]
      refine ⟨by simp, fun b hb => ?_⟩
      rcases List.mem_cons.mp hb with rfl | hb
      · exact hle
      · exact (hfirst b hb).le.trans hle

/-- A new entry goes to the place of its rank. -/
theorem ranked_cons (hd : Distinct score (x :: xs)) :
    ranked score (x :: xs) = (ranked score xs).take (rank score x xs) ++
      x :: (ranked score xs).drop (rank score x xs) := by
  obtain ⟨hnew, hrest⟩ := List.nodup_cons.mp hd
  have hdec := ranked_decreasing hrest
  obtain ⟨htake, hdrop⟩ := hdec.split (x := x)
  rw [rank_of_perm (ranked_perm score xs)] at htake hdrop
  refine ranked_eq ?_ ?_
  · have hmiddle : ((ranked score xs).take (rank score x xs) ++
        x :: (ranked score xs).drop (rank score x xs)).Perm
          (x :: ((ranked score xs).take (rank score x xs) ++
            (ranked score xs).drop (rank score x xs))) := List.perm_middle
    rw [List.take_append_drop] at hmiddle
    exact hmiddle.trans ((ranked_perm score xs).cons x)
  · refine List.pairwise_append.mpr ⟨hdec.sublist (List.take_sublist _ _), ?_, ?_⟩
    · refine List.pairwise_cons.mpr ⟨fun a ha => ?_, hdec.sublist (List.drop_sublist _ _)⟩
      refine lt_of_le_of_ne (hdrop a ha) fun heq => hnew (List.mem_map.mpr ⟨a, ?_, heq⟩)
      exact mem_ranked.mp (List.mem_of_mem_drop ha)
    · intro a ha b hb
      rcases List.mem_cons.mp hb with rfl | hb
      · exact htake a ha
      · exact (hdrop b hb).trans_lt (htake a ha)

/-- The entries behind the new one move by one place. -/
theorem ranked_cons_insertIdx (hd : Distinct score (x :: xs)) :
    ranked score (x :: xs) = (ranked score xs).insertIdx (rank score x xs) x := by
  have hle : rank score x xs ≤ (ranked score xs).length := by
    rw [length_ranked]
    exact rank_le
  obtain ⟨before, after, hsplit, hlength, hinsert⟩ := List.exists_of_modifyTailIdx (List.cons x) hle
  rw [ranked_cons hd, List.insertIdx, hinsert, ← hlength, hsplit, List.take_left, List.drop_left]

theorem rank_cons_self : rank score x (x :: xs) = rank score x xs := by simp [rank]

theorem ranked_nodup (hd : Distinct score xs) : (ranked score xs).Nodup :=
  (ranked_decreasing hd).imp fun hlt heq => (heq ▸ hlt).false

/-- The first entries are the same when the new one ranks behind them. -/
theorem take_ranked_cons_of_le (hd : Distinct score (x :: xs)) (hk : k ≤ rank score x xs) :
    (ranked score (x :: xs)).take k = (ranked score xs).take k := by
  have hle : rank score x xs ≤ (ranked score xs).length := by
    rw [length_ranked]
    exact rank_le
  rw [ranked_cons hd, List.take_append_of_le_length (by rw [List.length_take]; omega),
    List.take_take, Nat.min_eq_left hk]

/-- Otherwise it takes its place among them and the last one drops out. -/
theorem take_ranked_cons_of_lt (hd : Distinct score (x :: xs)) (hk : rank score x xs < k) :
    (ranked score (x :: xs)).take k = (ranked score xs).take (rank score x xs) ++
      x :: ((ranked score xs).drop (rank score x xs)).take (k - rank score x xs - 1) := by
  have hlength : ((ranked score xs).take (rank score x xs)).length = rank score x xs := by
    rw [List.length_take, length_ranked]
    exact Nat.min_eq_left rank_le
  obtain ⟨m, rfl⟩ : ∃ m, k = rank score x xs + (m + 1) := ⟨k - rank score x xs - 1, by omega⟩
  rw [ranked_cons hd, List.take_append, List.take_of_length_le (by rw [hlength]; omega), hlength]
  congr 1
  rw [show rank score x xs + (m + 1) - rank score x xs = m + 1 by omega, List.take_succ_cons]
  rfl

/-- Either way it is put at one place, and the order of the others stays. -/
theorem take_ranked_cons (hd : Distinct score (x :: xs)) (k : Nat) :
    ∃ p ≤ ((ranked score xs).take k).length, (ranked score (x :: xs)).take k =
      (((ranked score xs).take k).take p ++ x :: ((ranked score xs).take k).drop p).take k := by
  have hrank : rank score x xs ≤ xs.length := rank_le
  by_cases hk : k ≤ rank score x xs
  · have hlength : ((ranked score xs).take k).length = k := by
      rw [List.length_take, length_ranked]
      omega
    refine ⟨k, by omega, ?_⟩
    rw [take_ranked_cons_of_le hd hk, List.take_take, Nat.min_self, List.take_left' hlength]
  · have hlt : rank score x xs < k := Nat.lt_of_not_le hk
    refine ⟨rank score x xs, by rw [List.length_take, length_ranked]; omega, ?_⟩
    have hlength : ((ranked score xs).take (rank score x xs)).length = rank score x xs := by
      rw [List.length_take, length_ranked]
      omega
    have hbefore : ((ranked score xs).take k).take (rank score x xs) =
        (ranked score xs).take (rank score x xs) := by
      rw [List.take_take, Nat.min_eq_left hlt.le]
    rw [take_ranked_cons_of_lt hd hlt, hbefore, List.drop_take, List.take_append, hlength,
      List.take_take, Nat.min_eq_right hlt.le]
    obtain ⟨m, hm⟩ : ∃ m, k - rank score x xs = m + 1 := ⟨k - rank score x xs - 1, by omega⟩
    rw [hm, List.take_succ_cons, List.take_take, Nat.min_eq_left (Nat.le_succ m)]
    rfl

/-- The first entries score higher than all that are not among them. -/
theorem lt_of_take_ranked (hd : Distinct score xs) (hx : x ∈ xs) (hout : x ∉ (ranked score xs).take k)
    (hy : y ∈ (ranked score xs).take k) : score x < score y := by
  have hsplit : x ∈ (ranked score xs).take k ++ (ranked score xs).drop k := by
    rw [List.take_append_drop]
    exact mem_ranked.mpr hx
  have hlater := (List.mem_append.mp hsplit).resolve_left hout
  have hdec := ranked_decreasing hd
  rw [← List.take_append_drop k (ranked score xs)] at hdec
  exact (List.pairwise_append.mp hdec).2.2 y hy x hlater

/-- Taking out an entry that is not among the first ones leaves them as they are. -/
theorem take_ranked_erase [BEq α] [LawfulBEq α] (hd : Distinct score xs) (hx : x ∈ xs)
    (hout : x ∉ (ranked score xs).take k) :
    (ranked score (xs.erase x)).take k = (ranked score xs).take k := by
  have hp := List.perm_cons_erase hx
  have hcons : Distinct score (x :: xs.erase x) := hd.of_perm hp.symm
  have hsame := ranked_of_perm hd hp.symm
  rw [← hsame] at hout ⊢
  refine (take_ranked_cons_of_le hcons ?_).symm
  refine Nat.le_of_not_lt fun hlt => hout ?_
  rw [take_ranked_cons_of_lt hcons hlt]
  simp

end Ranking

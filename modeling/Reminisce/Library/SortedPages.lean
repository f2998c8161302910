import Mathlib.Data.List.Sort
import Mathlib.Data.List.Nodup
import Mathlib.Order.Basic

namespace SortedPages

variable {A K : Type} [LinearOrder K] (f : A → K)

/-- The highest keys come first. -/
def Descending (entries : List A) : Prop := entries.Pairwise fun a b => f b ≤ f a

/-- An order of the entries, ties in any order. -/
def IsOrder (all entries : List A) : Prop := entries.Perm all ∧ Descending f entries

/-- The entries in an order. -/
def sorted (all : List A) : List A := all.mergeSort fun a b => f b ≤ f a

/-- A page of the given size, counted from 0. -/
def page (entries : List A) (limit k : Nat) : List A := (entries.drop (k * limit)).take limit

/-- The end of a page lies between entries of one key. -/
def Straddles (all : List A) (limit : Nat) : Prop :=
  ∃ s k, (all.filter fun a => s < f a).length < k * limit ∧
    k * limit < (all.filter fun a => s ≤ f a).length

variable {f} {all entries left right : List A} {limit n : Nat}

theorem isOrder_sorted (all : List A) : IsOrder f all (sorted f all) := by
  have htrans : ∀ a b c : A, decide (f b ≤ f a) → decide (f c ≤ f b) → decide (f c ≤ f a) := by
    simpa using fun a b c hab hbc => hbc.trans hab
  have htotal : ∀ a b : A, decide (f b ≤ f a) || decide (f a ≤ f b) := by
    simpa using fun a b => le_total (f b) (f a)
  exact ⟨List.mergeSort_perm all _,
    (List.pairwise_mergeSort htrans htotal all).imp of_decide_eq_true⟩

/-- Entries that are in order stay as they are. -/
theorem sorted_eq_self (h : Descending f entries) : sorted f entries = entries :=
  List.mergeSort_of_pairwise (h.imp fun hle => decide_eq_true hle)

/-- Lower entries are added behind, in their order. -/
theorem isOrder_append_sorted {first rest : List A} (hfirst : Descending f first)
    (hle : ∀ a ∈ first, ∀ b ∈ rest, f b ≤ f a) :
    IsOrder f (first ++ rest) (first ++ sorted f rest) := by
  have hrest := isOrder_sorted (f := f) rest
  exact ⟨hrest.1.append_left first, List.pairwise_append.mpr
    ⟨hfirst, hrest.2, fun a ha b hb => hle a ha b (hrest.1.subset hb)⟩⟩

/-- The entries from a key on are those above it and those of the key. -/
theorem length_filter_le_add (all : List A) (s : K) :
    (all.filter fun a => s ≤ f a).length ≤
      (all.filter fun a => s < f a).length + all.countP fun a => f a = s := by
  induction all with
  | nil => exact Nat.le_refl 0
  | cons a rest ih =>
    rw [List.filter_cons, List.filter_cons, List.countP_cons]
    rcases lt_trichotomy s (f a) with hlt | rfl | hgt
    · simp only [hlt, hlt.le, hlt.ne', decide_true, decide_false, if_true, if_false,
        Bool.false_eq_true, List.length_cons]
      omega
    · simp only [le_refl, lt_irrefl, decide_true, decide_false, if_true, if_false,
        Bool.false_eq_true, List.length_cons]
      omega
    · simpa only [hgt.not_ge, hgt.not_gt, hgt.ne, decide_false, if_false, Bool.false_eq_true,
        Nat.add_zero] using ih

/-- Entries of different keys are never on both sides of the end of a page as equals. -/
theorem not_straddles_of_nodup (h : (all.map f).Nodup) : ¬Straddles f all limit := by
  rintro ⟨s, k, hlow, hhigh⟩
  have hequal := List.nodup_iff_count_le_one.mp h s
  have hle := length_filter_le_add (f := f) all s
  have hcount : (all.map f).count s = all.countP fun a => f a = s := by
    rw [List.count, List.countP_map]
    refine List.countP_congr fun a _ => ?_
    simp
  omega

theorem take_append_sorted {first rest : List A} (hlen : first.length ≤ n)
    (hrest : first.length < n → rest = []) : (first ++ sorted f rest).take n = first := by
  rcases Nat.eq_or_lt_of_le hlen with heq | hlt
  · exact List.take_left' heq
  · rw [hrest hlt, sorted, List.mergeSort_nil, List.append_nil, List.take_of_length_le hlen]

/-- What goes up with the key holds of the first entries. -/
theorem Descending.filter_eq_take (h : Descending f entries) {p : A → Bool}
    (hp : ∀ a b, f b ≤ f a → p b → p a) :
    entries.filter p = entries.take (entries.filter p).length := by
  induction entries with
  | nil => rfl
  | cons a rest ih =>
    obtain ⟨hfirst, hrest⟩ := List.pairwise_cons.mp h
    by_cases ha : p a
    · rw [List.filter_cons_of_pos ha, List.length_cons, List.take_succ_cons, ← ih hrest]
    · have hnone : rest.filter p = [] :=
        List.filter_eq_nil_iff.mpr fun b hb hpb => ha (hp a b (hfirst b hb) hpb)
      rw [List.filter_cons_of_neg ha, hnone]
      rfl

theorem Descending.lt_length_iff (h : Descending f entries) {p : A → Bool}
    (hp : ∀ a b, f b ≤ f a → p b → p a) {i : Nat} (hi : i < entries.length) :
    i < (entries.filter p).length ↔ p entries[i] := by
  constructor
  · intro hlt
    have hmem : entries[i] ∈ entries.filter p := by
      rw [h.filter_eq_take hp, List.mem_take_iff_getElem]
      exact ⟨i, by omega, rfl⟩
    exact (List.mem_filter.mp hmem).2
  · intro hpi
    by_contra hge
    have hall : ∀ a ∈ entries.take (i + 1), p a := by
      intro a ha
      obtain ⟨j, hj, rfl⟩ := List.mem_take_iff_getElem.mp ha
      rcases Nat.lt_or_ge j i with hlt | hle
      · exact hp _ _ (List.pairwise_iff_getElem.mp h j i (by omega) hi hlt) hpi
      · have heq : j = i := by omega
        subst heq
        exact hpi
    have hcount : (entries.take (i + 1)).length ≤ (entries.filter p).length := by
      rw [← List.filter_eq_self.mpr hall]
      exact ((List.take_sublist (i + 1) entries).filter p).length_le
    rw [List.length_take] at hcount
    omega

theorem from_upward (s : K) : ∀ a b : A, f b ≤ f a → decide (s ≤ f b) → decide (s ≤ f a) :=
  fun _ _ hba hb => decide_eq_true ((of_decide_eq_true hb).trans hba)

theorem above_upward (s : K) : ∀ a b : A, f b ≤ f a → decide (s < f b) → decide (s < f a) :=
  fun _ _ hba hb => decide_eq_true ((of_decide_eq_true hb).trans_le hba)

/-- Where no tie lies across the end of a page, every order has the same entries before it. -/
theorem take_perm (h : ¬Straddles f all limit) {l l' : List A} (hl : IsOrder f all l)
    (hl' : IsOrder f all l') (k : Nat) : (l.take (k * limit)).Perm (l'.take (k * limit)) := by
  have hlen := hl.1.length_eq
  have hlen' := hl'.1.length_eq
  rcases Nat.eq_zero_or_pos (k * limit) with hzero | hpos
  · rw [hzero, List.take_zero, List.take_zero]
  · rcases Nat.lt_or_ge (k * limit - 1) l.length with hin | hout
    · have hfrom := hl.2.lt_length_iff (from_upward (f l[k * limit - 1])) hin
      have habove := hl.2.lt_length_iff (above_upward (f l[k * limit - 1])) hin
      have hle : (all.filter fun a => f l[k * limit - 1] ≤ f a).length ≤ k * limit := by
        by_contra hlt
        refine h ⟨f l[k * limit - 1], k, ?_, by omega⟩
        rw [← (hl.1.filter _).length_eq]
        have hnot := mt habove.mp (by simp)
        omega
      have hcount : (l.filter fun a => f l[k * limit - 1] ≤ f a).length = k * limit := by
        have hlt := hfrom.mpr (by simp)
        have heq := (hl.1.filter fun a => decide (f l[k * limit - 1] ≤ f a)).length_eq
        omega
      have hcount' : (l'.filter fun a => f l[k * limit - 1] ≤ f a).length = k * limit :=
        ((hl'.1.trans hl.1.symm).filter _).length_eq.trans hcount
      have htake := hl.2.filter_eq_take (from_upward (f l[k * limit - 1]))
      have htake' := hl'.2.filter_eq_take (from_upward (f l[k * limit - 1]))
      rw [hcount] at htake
      rw [hcount'] at htake'
      rw [← htake, ← htake']
      exact (hl.1.trans hl'.1.symm).filter _
    · rw [List.take_of_length_le (by omega), List.take_of_length_le (by omega)]
      exact hl.1.trans hl'.1.symm

/-- Pages from any orders are the entries before their end. -/
theorem pages_perm (h : ¬Straddles f all limit) {orders : Nat → List A}
    (horders : ∀ k, IsOrder f all (orders k)) {entries : List A} (hentries : IsOrder f all entries)
    (m : Nat) :
    ((List.range m).flatMap fun k => page (orders k) limit k).Perm (entries.take (m * limit)) := by
  induction m generalizing entries with
  | zero => simp
  | succ m ih =>
    have hnext : (orders m).take ((m + 1) * limit) =
        (orders m).take (m * limit) ++ page (orders m) limit m := by
      rw [Nat.succ_mul, List.take_add]
      rfl
    rw [List.range_succ, List.flatMap_append, List.flatMap_singleton]
    refine ((ih (horders m)).append_right _).trans ?_
    rw [← hnext]
    exact take_perm h (horders m) hentries (m + 1)

/-- What is cut off from one of the united lists is below the first entries. -/
theorem le_of_dropped {l c : List A} (hl : Descending f l) (hc : Descending f c)
    (hsub : ∀ p : A → Bool, ((l.take n).filter p).length ≤ (c.filter p).length) {a b : A}
    (ha : a ∈ c.take n) (hb : b ∈ l.drop n) : f b ≤ f a := by
  obtain ⟨i, hi, rfl⟩ := List.mem_take_iff_getElem.mp ha
  have hlen : n < l.length := by
    by_contra hle
    rw [List.drop_of_length_le (by omega)] at hb
    exact absurd hb List.not_mem_nil
  have hfilter : (l.take n).filter (fun x => f b ≤ f x) = l.take n := by
    rw [← List.take_append_drop n l] at hl
    exact List.filter_eq_self.mpr fun x hx =>
      decide_eq_true ((List.pairwise_append.mp hl).2.2 x hx b hb)
  have hcount := hsub fun x => f b ≤ f x
  rw [hfilter, List.length_take] at hcount
  exact of_decide_eq_true ((hc.lt_length_iff (from_upward (f b)) (by omega)).mp (by omega))

/-- The first entries of two lists together are found among the first of each. -/
theorem exists_order_of_arms {l r c : List A} (hl : IsOrder f left l) (hr : IsOrder f right r)
    (hc : IsOrder f (l.take n ++ r.take n) c) :
    ∃ entries, IsOrder f (left ++ right) entries ∧ entries.take n = c.take n := by
  have hlen := hc.1.length_eq
  rw [List.length_append, List.length_take, List.length_take] at hlen
  have hle : ∀ a ∈ c.take n, ∀ b ∈ c.drop n ++ (l.drop n ++ r.drop n), f b ≤ f a := by
    intro a ha b hb
    rcases List.mem_append.mp hb with hb | hb
    · have hpair := hc.2
      rw [← List.take_append_drop n c] at hpair
      exact (List.pairwise_append.mp hpair).2.2 a ha b hb
    · have hcount : ∀ p : A → Bool, (c.filter p).length =
          ((l.take n).filter p).length + ((r.take n).filter p).length := by
        intro p
        rw [(hc.1.filter p).length_eq, List.filter_append, List.length_append]
      rcases List.mem_append.mp hb with hb | hb
      · exact le_of_dropped hl.2 hc.2 (fun p => by rw [hcount]; omega) ha hb
      · exact le_of_dropped hr.2 hc.2 (fun p => by rw [hcount]; omega) ha hb
  have hfirst : Descending f (c.take n) := hc.2.sublist (List.take_sublist n c)
  have horder := isOrder_append_sorted hfirst hle
  refine ⟨_, ⟨horder.1.trans ?_, horder.2⟩, take_append_sorted (List.length_take_le n c) ?_⟩
  · rw [← List.append_assoc, List.take_append_drop]
    refine (hc.1.append_right _).trans ?_
    have hswap : (l.take n ++ r.take n ++ (l.drop n ++ r.drop n)).Perm
        (l.take n ++ l.drop n ++ (r.take n ++ r.drop n)) := by
      simp only [List.append_assoc]
      exact (List.perm_append_comm_assoc _ _ _).append_left _
    refine hswap.trans ?_
    rw [List.take_append_drop, List.take_append_drop]
    exact hl.1.append hr.1
  · intro hlt
    rw [List.length_take] at hlt
    rw [List.drop_of_length_le (by omega), List.drop_of_length_le (by omega),
      List.drop_of_length_le (by omega)]
    rfl

/-- Every order of two lists together comes from orders of them. -/
theorem exists_arms_of_order (h : IsOrder f (left ++ right) entries) {p : A → Bool}
    (hleft : ∀ a ∈ left, p a) (hright : ∀ a ∈ right, !p a) (n : Nat) :
    ∃ l r c, IsOrder f left l ∧ IsOrder f right r ∧ IsOrder f (l.take n ++ r.take n) c ∧
      c.take n = entries.take n := by
  have hl : IsOrder f left (entries.filter p) := by
    refine ⟨(h.1.filter p).trans ?_, h.2.filter p⟩
    rw [List.filter_append, List.filter_eq_self.mpr hleft,
      List.filter_eq_nil_iff.mpr fun a ha hpa => by simpa [hpa] using hright a ha,
      List.append_nil]
  have hr : IsOrder f right (entries.filter fun a => !p a) := by
    refine ⟨(h.1.filter _).trans ?_, h.2.filter _⟩
    rw [List.filter_append, List.filter_eq_self.mpr hright,
      List.filter_eq_nil_iff.mpr fun a ha hpa => by simp [hleft a ha] at hpa, List.nil_append]
  have htake : ∀ q : A → Bool, (entries.filter q).take n = (entries.take n).filter q ++
      ((entries.drop n).filter q).take (n - ((entries.take n).filter q).length) := by
    intro q
    have hlen : ((entries.take n).filter q).length ≤ n :=
      (List.length_filter_le _ _).trans (List.length_take_le n entries)
    conv_lhs => rw [← List.take_append_drop n entries, List.filter_append, List.take_append]
    rw [List.take_of_length_le hlen]
  have hsplit := h.2
  rw [← List.take_append_drop n entries] at hsplit
  obtain ⟨hfirst, -, hbelow⟩ := List.pairwise_append.mp hsplit
  have hrest : ∀ a ∈ entries.take n, ∀ b ∈
      ((entries.drop n).filter p).take (n - ((entries.take n).filter p).length) ++
        ((entries.drop n).filter fun a => !p a).take
          (n - ((entries.take n).filter fun a => !p a).length), f b ≤ f a := by
    intro a ha b hb
    refine hbelow a ha b ?_
    rcases List.mem_append.mp hb with hb | hb
    · exact (List.mem_filter.mp (List.mem_of_mem_take hb)).1
    · exact (List.mem_filter.mp (List.mem_of_mem_take hb)).1
  have horder := isOrder_append_sorted hfirst hrest
  refine ⟨_, _, _, hl, hr, ⟨horder.1.trans ?_, horder.2⟩,
    take_append_sorted (List.length_take_le n entries) fun hlt => ?_⟩
  · rw [htake p, htake fun a => !p a]
    refine ((List.filter_append_perm p _).symm.append_right _).trans ?_
    simp only [List.append_assoc]
    exact (List.perm_append_comm_assoc _ _ _).append_left _
  · rw [List.length_take] at hlt
    rw [List.drop_of_length_le (by omega)]
    simp

/-- An entry on two pages is not there once. -/
theorem not_nodup_of_pages {shown : Nat → List A} {a : A} {k m : Nat} (ha : a ∈ shown k)
    (ha' : a ∈ shown (k + 1)) (hm : k + 1 < m) : ¬((List.range m).flatMap shown).Nodup := by
  intro hnodup
  have hdisjoint := List.pairwise_iff_getElem.mp (List.nodup_flatMap.mp hnodup).2 k (k + 1)
    (by simp; omega) (by simpa using hm) (by omega)
  simp only [List.getElem_range, Function.onFun] at hdisjoint
  exact hdisjoint ha ha'

/-- Pages give the entry at every position they reach. -/
theorem getElem?_page (entries : List A) {limit : Nat} (hlimit : 0 < limit) (i : Nat) :
    (page entries limit (i / limit))[i % limit]? = entries[i]? := by
  rw [page, List.getElem?_take_of_lt (Nat.mod_lt i hlimit), List.getElem?_drop, Nat.mul_comm,
    Nat.div_add_mod]

/-- The pages that start below a bound tell lists up to that length apart. -/
theorem eq_of_pages {entries entries' : List A} {limit bound : Nat} (hlimit : 0 < limit)
    (hlen : entries.length ≤ bound) (hlen' : entries'.length ≤ bound)
    (h : ∀ k, k * limit < bound → page entries limit k = page entries' limit k) :
    entries = entries' := by
  refine List.ext_getElem? fun i => ?_
  rcases Nat.lt_or_ge i bound with hlt | hge
  · have hstart : i / limit * limit < bound := (Nat.div_mul_le_self i limit).trans_lt hlt
    rw [← getElem?_page entries hlimit, ← getElem?_page entries' hlimit, h _ hstart]
  · rw [List.getElem?_eq_none (hlen.trans hge), List.getElem?_eq_none (hlen'.trans hge)]

/-- Where no two entries tie there is only one order. -/
theorem mergeSort_eq_of_perm {le : A → A → Bool} {l l' : List A}
    (htrans : ∀ a b c, le a b → le b c → le a c) (htotal : ∀ a b, le a b || le b a)
    (hanti : ∀ a ∈ l, ∀ b ∈ l, le a b → le b a → a = b) (h : l.Perm l') :
    l.mergeSort le = l'.mergeSort le := by
  refine List.Perm.eq_of_pairwise ?_ (List.pairwise_mergeSort htrans htotal l)
    (List.pairwise_mergeSort htrans htotal l')
    ((List.mergeSort_perm l le).trans (h.trans (List.mergeSort_perm l' le).symm))
  intro a b ha hb hab hba
  exact hanti a ((List.mergeSort_perm l le).subset ha) b
    (h.symm.subset ((List.mergeSort_perm l' le).subset hb)) hab hba

/-- Neighbors of one key change places. -/
theorem Descending.swap {first rest : List A} {a b : A}
    (h : Descending f (first ++ a :: b :: rest)) (hab : f a = f b) :
    Descending f (first ++ b :: a :: rest) := by
  unfold Descending at h ⊢
  simp only [List.pairwise_append, List.pairwise_cons, List.mem_cons, forall_eq_or_imp] at h ⊢
  obtain ⟨hfirst, ⟨⟨-, ha⟩, hb, hrest⟩, hall⟩ := h
  exact ⟨hfirst, ⟨⟨hab.le, hb⟩, ha, hrest⟩, fun x hx =>
    ⟨(hall x hx).2.1, (hall x hx).1, (hall x hx).2.2⟩⟩

/-- Where a tie lies across the end of a page, one of its entries can be on both sides of it. -/
theorem exists_repeated (h : Straddles f all limit) :
    ∃ l l' a k, IsOrder f all l ∧ IsOrder f all l' ∧
      a ∈ page l limit k ∧ a ∈ page l' limit (k + 1) := by
  obtain ⟨s, k, hlow, hhigh⟩ := h
  have hlimit : 0 < k * limit := by omega
  have hsorted := isOrder_sorted (f := f) all
  generalize sorted f all = l at hsorted
  rw [← (hsorted.1.filter _).length_eq] at hlow hhigh
  have hin : k * limit < l.length := hhigh.trans_le (List.length_filter_le _ l)
  have hin' : k * limit - 1 < l.length := by omega
  have hfrom : ∀ {i} (hi : i < l.length), i ≤ k * limit → s ≤ f l[i] := fun hi hle =>
    of_decide_eq_true ((hsorted.2.lt_length_iff (from_upward s) hi).mp (by omega))
  have habove : ∀ {i} (hi : i < l.length), k * limit ≤ i + 1 → f l[i] ≤ s := fun hi hle => by
    have hnot := mt (hsorted.2.lt_length_iff (above_upward s) hi).mpr (by omega)
    simpa using hnot
  obtain ⟨k, rfl⟩ : ∃ i, k = i + 1 := Nat.exists_eq_add_one.mpr (Nat.pos_of_mul_pos_right hlimit)
  have hpos : 0 < limit := Nat.pos_of_mul_pos_left hlimit
  have hab : f l[(k + 1) * limit - 1] = f l[(k + 1) * limit] := by
    have hlow := habove hin' (by omega)
    have hlow' := habove hin (by omega)
    exact (hlow.antisymm (hfrom hin' (by omega))).trans (hlow'.antisymm (hfrom hin le_rfl)).symm
  have hsplit : l = l.take ((k + 1) * limit - 1) ++ l[(k + 1) * limit - 1] ::
      l[(k + 1) * limit] :: l.drop ((k + 1) * limit + 1) := by
    have hnext : (k + 1) * limit - 1 + 1 = (k + 1) * limit := by omega
    conv_lhs => rw [← List.take_append_drop ((k + 1) * limit - 1) l,
      List.drop_eq_getElem_cons hin']
    simp only [hnext]
    rw [List.drop_eq_getElem_cons hin]
  have hlen : (l.take ((k + 1) * limit - 1)).length = (k + 1) * limit - 1 :=
    List.length_take_of_le hin'.le
  generalize l.take ((k + 1) * limit - 1) = first at hsplit hlen
  generalize l.drop ((k + 1) * limit + 1) = rest at hsplit
  generalize l[(k + 1) * limit - 1] = a at hsplit hab
  generalize l[(k + 1) * limit] = b at hsplit hab
  rw [hsplit] at hsorted
  have hswap : (first ++ b :: a :: rest).Perm (first ++ a :: b :: rest) :=
    (List.Perm.swap a b rest).append_left first
  have hmul : (k + 1) * limit = k * limit + limit := Nat.succ_mul k limit
  refine ⟨_, _, a, k, hsorted, ⟨hswap.trans hsorted.1, hsorted.2.swap hab⟩, ?_, ?_⟩
  · rw [page, List.mem_take_iff_getElem]
    refine ⟨limit - 1, by simp; omega, ?_⟩
    rw [List.getElem_drop, List.getElem_append_right (by omega)]
    simp [hlen, hmul, show k * limit + (limit - 1) - (k * limit + limit - 1) = 0 by omega]
  · rw [page, List.mem_take_iff_getElem]
    refine ⟨0, by simp; omega, ?_⟩
    rw [List.getElem_drop, List.getElem_append_right (by omega)]
    simp [hlen, show (k + 1) * limit - ((k + 1) * limit - 1) = 1 by omega]

end SortedPages

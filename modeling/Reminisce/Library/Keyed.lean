import Mathlib.Data.List.Basic
import Mathlib.Data.List.Induction
import Mathlib.Data.List.Nodup

namespace Keyed

variable {A K V : Type} {key : A → K} {entries : List A} {entry other : A} {k : K}

/-- A map with one key only has at most one entry. -/
theorem length_le_one (hn : (entries.map key).Nodup) (h : ∀ e ∈ entries, key e = k) :
    entries.length ≤ 1 := by
  rcases entries with _ | ⟨first, _ | ⟨second, rest⟩⟩
  · simp
  · simp
  · have hfirst := h first (by simp)
    have hsecond := h second (by simp)
    simp [hfirst, hsecond] at hn

/-- An entry with a new key leaves the keys unique. -/
theorem nodup_append (h : (entries.map key).Nodup) (hnew : ∀ e ∈ entries, key e ≠ key entry) :
    ((entries ++ [entry]).map key).Nodup := by
  rw [List.map_append]
  refine List.nodup_append.mpr ⟨h, List.nodup_singleton (key entry), ?_⟩
  intro a ha b hb heq
  obtain ⟨e, he, rfl⟩ := List.mem_map.mp ha
  exact hnew e he (heq.trans (List.mem_singleton.mp hb))

variable [DecidableEq K]

/-- The entries of a map after one was inserted under its key. -/
def put (key : A → K) (entries : List A) (entry : A) : List A :=
  entries.filter (fun e => key e ≠ key entry) ++ [entry]

theorem mem_put : other ∈ put key entries entry ↔
    other = entry ∨ (other ∈ entries ∧ key other ≠ key entry) := by
  simp [put, or_comm]

/-- Keys stay unique. -/
theorem nodup_put (h : (entries.map key).Nodup) (entry : A) :
    ((put key entries entry).map key).Nodup := by
  refine nodup_append (h.sublist (List.filter_sublist.map _)) fun e he => ?_
  simpa using (List.mem_filter.mp he).2

theorem find_put_self (key : A → K) (entries : List A) (entry : A) :
    (put key entries entry).find? (fun e => key e = key entry) = some entry := by
  have hnone : (entries.filter fun e => key e ≠ key entry).find? (fun e => key e = key entry) =
      none := by
    simp [List.find?_eq_none]
  unfold put
  rw [List.find?_append, hnone]
  simp

theorem find_put_ne (entry : A) (h : k ≠ key entry) :
    (put key entries entry).find? (fun e => key e = k) = entries.find? (fun e => key e = k) := by
  have hkeep : (fun e => decide (decide (key e ≠ key entry) = true ∧ decide (key e = k) = true)) =
      fun e => decide (key e = k) := by
    funext e
    by_cases he : key e = k <;> simp [he, h]
  unfold put
  rw [List.find?_append, List.find?_filter, hkeep]
  simp [h.symm]

/-- With unique keys the entries are those that are found. -/
theorem find_of_mem (hn : (entries.map key).Nodup) (h : entry ∈ entries) :
    entries.find? (fun e => key e = key entry) = some entry := by
  cases hget : entries.find? (fun e => key e = key entry) with
  | none => simpa using List.find?_eq_none.mp hget entry h
  | some found =>
    have hkey : key found = key entry := by simpa using List.find?_some hget
    rw [List.inj_on_of_nodup_map hn (List.mem_of_find?_eq_some hget) h hkey]

theorem filter_of_nodup (hn : ((entry :: entries).map key).Nodup) :
    entries.filter (fun e => key e ≠ key entry) = entries := by
  obtain ⟨hnew, _⟩ := List.nodup_cons.mp hn
  refine List.filter_eq_self.mpr fun e he => ?_
  have hne : key e ≠ key entry := fun heq => hnew (heq ▸ List.mem_map_of_mem he)
  simpa using hne

/-- With unique keys an entry stands beside those with other keys. -/
theorem perm_filter (hn : (entries.map key).Nodup) (h : entry ∈ entries) :
    entries.Perm (entry :: entries.filter fun e => key e ≠ key entry) := by
  obtain ⟨before, after, rfl⟩ := List.append_of_mem h
  have hfront : (before ++ entry :: after).Perm (entry :: (before ++ after)) := List.perm_middle
  have hfilter := (hfront.filter fun e => key e ≠ key entry)
  have hself : (entry :: (before ++ after)).filter (fun e => key e ≠ key entry) =
      before ++ after := by
    rw [List.filter_cons_of_neg (by simp)]
    exact filter_of_nodup ((hfront.map key).nodup_iff.mp hn)
  rw [hself] at hfilter
  exact hfront.trans (hfilter.symm.cons entry)

/-- A change of the entry with one key leaves the others as they are. -/
theorem map_perm (hn : (entries.map key).Nodup) (h : entry ∈ entries) (change : A → A) :
    (entries.map fun e => if key e = key entry then change e else e).Perm
      (change entry :: entries.filter fun e => key e ≠ key entry) := by
  have hothers : ((entries.filter fun e => key e ≠ key entry).map fun e =>
      if key e = key entry then change e else e) = entries.filter fun e => key e ≠ key entry := by
    refine (List.map_congr_left fun e he => ?_).trans (List.map_id _)
    have hne : key e ≠ key entry := by simpa using (List.mem_filter.mp he).2
    rw [if_neg hne, id]
  have hperm := (perm_filter hn h).map fun e => if key e = key entry then change e else e
  rwa [List.map_cons, if_pos rfl, hothers] at hperm

/-- The first entry of each key. -/
def firsts (key : A → K) (entries : List A) : List A :=
  entries.foldl (fun kept e => if kept.any (fun x => key x = key e) then kept else kept ++ [e]) []

theorem firsts_concat (key : A → K) (entries : List A) (e : A) :
    firsts key (entries ++ [e]) =
      if (firsts key entries).any (fun x => key x = key e) then firsts key entries
      else firsts key entries ++ [e] := by
  rw [firsts, List.foldl_append]
  rfl

/-- Every key is kept. -/
theorem mem_map_firsts (key : A → K) (entries : List A) :
    k ∈ (firsts key entries).map key ↔ k ∈ entries.map key := by
  induction entries using List.reverseRecOn with
  | nil => rfl
  | append_singleton entries e ih =>
    rw [firsts_concat]
    split
    next hany =>
      have hkey : key e ∈ (firsts key entries).map key := by
        obtain ⟨x, hx, heq⟩ := List.any_eq_true.mp hany
        exact List.mem_map.mpr ⟨x, hx, of_decide_eq_true heq⟩
      rw [ih, List.map_append, List.mem_append, List.map_singleton, List.mem_singleton]
      exact ⟨Or.inl, fun h => h.elim id fun heq => ih.mp (heq ▸ hkey)⟩
    next =>
      rw [List.map_append, List.map_append, List.mem_append, List.mem_append, ih]

theorem nodup_firsts (key : A → K) (entries : List A) : ((firsts key entries).map key).Nodup := by
  induction entries using List.reverseRecOn with
  | nil => exact List.nodup_nil
  | append_singleton entries e ih =>
    rw [firsts_concat]
    split
    next => exact ih
    next hany =>
      refine nodup_append ih fun x hx heq => hany ?_
      exact List.any_eq_true.mpr ⟨x, hx, decide_eq_true heq⟩

theorem length_firsts_le (key : A → K) (entries : List A) :
    (firsts key entries).length ≤ entries.length := by
  induction entries using List.reverseRecOn with
  | nil => simp [firsts]
  | append_singleton entries e ih =>
    rw [firsts_concat]
    split
    next => simp; omega
    next => simpa using ih

/-- An entry is kept if it is the first one with its key. -/
theorem mem_firsts (key : A → K) (entries : List A) :
    entry ∈ firsts key entries ↔ entries.find? (fun e => key e = key entry) = some entry := by
  induction entries using List.reverseRecOn with
  | nil => simp [firsts]
  | append_singleton entries e ih =>
    have hfind : ((firsts key entries).any fun x => key x = key e) ↔
        ∃ x, entries.find? (fun x => key x = key e) = some x := by
      rw [← Option.isSome_iff_exists, List.find?_isSome, List.any_eq_true]
      simpa using mem_map_firsts (k := key e) key entries
    rw [firsts_concat, List.find?_append]
    split
    next hany =>
      obtain ⟨x, hx⟩ := hfind.mp hany
      rw [ih]
      by_cases heq : key e = key entry
      · rw [← heq, hx]
        rfl
      · simp [heq]
    next hany =>
      rw [List.mem_append, ih, List.mem_singleton]
      by_cases heq : key e = key entry
      · have hnone : entries.find? (fun x => key x = key e) = none := by
          cases hx : entries.find? (fun x => key x = key e) with
          | none => rfl
          | some x => exact absurd (hfind.mpr ⟨x, hx⟩) hany
        rw [← heq, hnone]
        simp [eq_comm]
      · have hne : entry ≠ e := fun h => heq (congrArg key h.symm)
        simp [heq, hne]

variable {pairs : List (K × V)} {v : V}

theorem mem_of_lookup (h : (pairs.find? (·.1 = k)).map Prod.snd = some v) : (k, v) ∈ pairs := by
  obtain ⟨e, he, rfl⟩ := Option.map_eq_some_iff.mp h
  have hkey : e.1 = k := by simpa using List.find?_some he
  rw [← hkey]
  exact List.mem_of_find?_eq_some he

theorem lookup_of_mem (hn : (pairs.map Prod.fst).Nodup) (h : (k, v) ∈ pairs) :
    (pairs.find? (·.1 = k)).map Prod.snd = some v := by
  rw [find_of_mem hn h]
  rfl

end Keyed

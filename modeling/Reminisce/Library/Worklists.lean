import Mathlib.Data.List.Nodup
import Mathlib.Logic.Relation

namespace Worklists

variable {α β : Type}

/-- Work that is taken from the end of a list, and what it gives and leaves to do. -/
structure System (α β : Type) where
  output : α → List β
  children : α → List α

namespace System

variable (sys : System α β)

/-- The loop over a stack, for so many rounds; the last is taken first. -/
def drain : (rounds : Nat) → List α → List β → Option (List β)
  | _, [], found => some found
  | 0, _ :: _, _ => none
  | rounds + 1, x :: stack, found =>
    drain rounds ((sys.children x).reverse ++ stack) (found ++ sys.output x)

/-- What comes of one piece of work, so many levels deep. -/
def below : (levels : Nat) → α → List β
  | 0, _ => []
  | levels + 1, x => sys.output x ++ (sys.children x).reverse.flatMap (below levels)

/-- The work that a piece of work leads to. -/
abbrev Leads : α → α → Prop := Relation.ReflTransGen fun x y => y ∈ sys.children x

variable {sys} {rank : α → Nat} {rounds levels : Nat} {x : α} {b : β} {stack : List α}
  {found : List β}

theorem drain_succ {found' : List β} (h : sys.drain rounds stack found = some found') :
    sys.drain (rounds + 1) stack found = some found' := by
  induction rounds generalizing stack found with
  | zero =>
    cases stack with
    | nil => exact h
    | cons x stack => cases h
  | succ rounds ih =>
    cases stack with
    | nil => exact h
    | cons x stack => exact ih h

theorem drain_le {found' : List β} {more : Nat} (h : sys.drain rounds stack found = some found')
    (hle : rounds ≤ more) : sys.drain more stack found = some found' := by
  induction hle with
  | refl => exact h
  | step _ ih => exact drain_succ ih

/-- What is on top of a stack is done first. -/
theorem drain_append {rounds' : Nat} {stack' : List α} {found' found'' : List β}
    (h : sys.drain rounds stack found = some found')
    (h' : sys.drain rounds' stack' found' = some found'') :
    sys.drain (rounds + rounds') (stack ++ stack') found = some found'' := by
  induction rounds generalizing stack found with
  | zero =>
    cases stack with
    | nil =>
      cases h
      exact drain_le h' (Nat.le_add_left _ _)
    | cons x stack => cases h
  | succ rounds ih =>
    cases stack with
    | nil =>
      cases h
      exact drain_le h' (Nat.le_add_left _ _)
    | cons x stack =>
      rw [Nat.succ_add, List.cons_append, drain, ← List.append_assoc]
      exact ih h

/-- The loop ends, and finds what lies below the stack. -/
theorem drain_below (hrank : ∀ x, ∀ y ∈ sys.children x, rank y < rank x)
    (hlevels : ∀ x ∈ stack, rank x < levels) (found : List β) : ∃ rounds,
      sys.drain rounds stack found = some (found ++ stack.flatMap (sys.below levels)) := by
  induction levels generalizing stack found with
  | zero =>
    cases stack with
    | nil => exact ⟨0, by simp [drain]⟩
    | cons x stack => exact absurd (hlevels x List.mem_cons_self) (Nat.not_lt_zero _)
  | succ levels ih =>
    induction stack generalizing found with
    | nil => exact ⟨0, by simp [drain]⟩
    | cons x stack ihstack =>
      obtain ⟨hx, hstack⟩ := List.forall_mem_cons.mp hlevels
      have hchildren : ∀ y ∈ (sys.children x).reverse, rank y < levels := fun y hy => by
        have hlt := hrank x y (List.mem_reverse.mp hy)
        omega
      obtain ⟨rounds, hrounds⟩ := ih hchildren (found ++ sys.output x)
      have hone : sys.drain (rounds + 1) [x] found = some (found ++ sys.below (levels + 1) x) := by
        rw [drain, List.append_nil, hrounds, below, List.append_assoc]
      obtain ⟨rounds', hrounds'⟩ := ihstack hstack (found ++ sys.below (levels + 1) x)
      refine ⟨rounds + 1 + rounds', ?_⟩
      rw [List.flatMap_cons, ← List.append_assoc]
      exact drain_append hone hrounds'

theorem mem_below (hrank : ∀ x, ∀ y ∈ sys.children x, rank y < rank x) (hx : rank x < levels) :
    b ∈ sys.below levels x ↔ ∃ y, sys.Leads x y ∧ b ∈ sys.output y := by
  induction levels generalizing x with
  | zero => omega
  | succ levels ih =>
    have hchildren : ∀ y ∈ sys.children x, rank y < levels := fun y hy => by
      have hlt := hrank x y hy
      omega
    rw [below, List.mem_append, List.mem_flatMap]
    constructor
    · rintro (hb | ⟨y, hy, hb⟩)
      · exact ⟨x, .refl, hb⟩
      · have hy := List.mem_reverse.mp hy
        obtain ⟨z, hz, hb⟩ := (ih (hchildren y hy)).mp hb
        exact ⟨z, .head hy hz, hb⟩
    · rintro ⟨y, hy, hb⟩
      rcases hy.cases_head with rfl | ⟨z, hz, hy⟩
      · exact .inl hb
      · exact .inr ⟨z, List.mem_reverse.mpr hz, (ih (hchildren z hz)).mpr ⟨y, hy, hb⟩⟩

theorem rank_le_of_leads (hrank : ∀ x, ∀ y ∈ sys.children x, rank y < rank x) {y : α}
    (h : sys.Leads x y) : rank y ≤ rank x := by
  induction h with
  | refl => exact Nat.le_refl _
  | tail _ hstep ih => exact Nat.le_of_lt (Nat.lt_of_lt_of_le (hrank _ _ hstep) ih)

/-- Where each piece of work has one parent and each finding one owner, nothing is found twice. -/
theorem nodup_below (hrank : ∀ x, ∀ y ∈ sys.children x, rank y < rank x) {parent : α → α}
    {owner : β → α} (hparent : ∀ x, ∀ y ∈ sys.children x, parent y = x)
    (howner : ∀ x, ∀ b ∈ sys.output x, owner b = x) (houtput : ∀ x, (sys.output x).Nodup)
    (hchildren : ∀ x, (sys.children x).Nodup) (levels : Nat) (x : α) (hx : rank x < levels) :
    (sys.below levels x).Nodup := by
  have hunique : Relator.RightUnique (Function.swap fun x y => y ∈ sys.children x) :=
    fun z x y hxz hyz => (hparent x z hxz).symm.trans (hparent y z hyz)
  have hchain : ∀ {y z w}, sys.Leads y w → sys.Leads z w → sys.Leads y z ∨ sys.Leads z y := by
    intro y z w hy hz
    have htotal := Relation.ReflTransGen.total_of_right_unique hunique
      (Relation.reflTransGen_swap.mpr hy) (Relation.reflTransGen_swap.mpr hz)
    rcases htotal with h | h
    · exact .inr (Relation.reflTransGen_swap.mp h)
    · exact .inl (Relation.reflTransGen_swap.mp h)
  have hsibling : ∀ {x y z}, y ∈ sys.children x → z ∈ sys.children x → sys.Leads y z → y = z := by
    intro x y z hy hz hlead
    rcases hlead.cases_tail with rfl | ⟨w, hyw, hwz⟩
    · rfl
    · have hxw : x = w := (hparent x z hz).symm.trans (hparent w z hwz)
      have hle := rank_le_of_leads hrank hyw
      have hlt := hrank x y hy
      rw [hxw] at hlt
      omega
  induction levels generalizing x with
  | zero => omega
  | succ levels ih =>
    have hlower : ∀ y ∈ sys.children x, rank y < levels := fun y hy => by
      have hlt := hrank x y hy
      omega
    rw [below]
    refine List.nodup_append.mpr ⟨houtput x, List.nodup_flatMap.mpr ⟨fun y hy =>
      ih y (hlower y (List.mem_reverse.mp hy)), ?_⟩, ?_⟩
    · refine (List.nodup_reverse.mpr (hchildren x)).imp_of_mem fun {y z} hy hz hne => ?_
      have hy := List.mem_reverse.mp hy
      have hz := List.mem_reverse.mp hz
      intro b hby hbz
      obtain ⟨v, hyv, hbv⟩ := (mem_below hrank (hlower y hy)).mp hby
      obtain ⟨w, hzw, hbw⟩ := (mem_below hrank (hlower z hz)).mp hbz
      obtain rfl : v = w := (howner v b hbv).symm.trans (howner w b hbw)
      rcases hchain hyv hzw with h | h
      · exact hne (hsibling hy hz h)
      · exact hne (hsibling hz hy h).symm
    · intro b hb c hc hbc
      obtain ⟨y, hy, hc⟩ := List.mem_flatMap.mp hc
      have hy := List.mem_reverse.mp hy
      obtain ⟨z, hyz, hcz⟩ := (mem_below hrank (hlower y hy)).mp hc
      subst hbc
      obtain rfl : x = z := (howner x b hb).symm.trans (howner z b hcz)
      have hle := rank_le_of_leads hrank hyz
      have hlt := hrank x y hy
      omega

end System

end Worklists

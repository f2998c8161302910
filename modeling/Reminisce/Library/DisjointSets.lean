import Mathlib.Data.Fintype.Card
import Mathlib.Logic.Relation

namespace DisjointSets

/-- The arrays of a union-find structure; every entry of `parent` is an element. -/
structure UnionFind (α : Type) where
  parent : α → α
  rank : α → Nat

variable {α : Type} [DecidableEq α]

/-- The loop of a search with path halving, `none` where the fuel does not reach its end. -/
def findLoop : Nat → (α → α) → α → Option (α × (α → α))
  | 0, _, _ => none
  | fuel + 1, parent, x =>
    if parent x = x then some (x, parent)
    else
      let parent := Function.update parent x (parent (parent x))
      findLoop fuel parent (parent x)

namespace UnionFind

def new (α : Type) : UnionFind α := ⟨id, fun _ => 0⟩

def find (fuel : Nat) (uf : UnionFind α) (x : α) : Option (α × UnionFind α) :=
  (findLoop fuel uf.parent x).map fun found => (found.1, { uf with parent := found.2 })

/-- One of two roots under the other, by rank. -/
def link (uf : UnionFind α) (rx ry : α) : UnionFind α :=
  if uf.rank rx < uf.rank ry then { uf with parent := Function.update uf.parent rx ry }
  else if uf.rank rx > uf.rank ry then { uf with parent := Function.update uf.parent ry rx }
  else
    { parent := Function.update uf.parent ry rx
      rank := Function.update uf.rank rx (uf.rank rx + 1) }

def union (fuel : Nat) (uf : UnionFind α) (x y : α) : Option (UnionFind α) := do
  let fx ← uf.find fuel x
  let fy ← fx.2.find fuel y
  return if fx.1 = fy.1 then fy.2 else fy.2.link fx.1 fy.1

/-- Unions of pairs, one after the other. -/
def unions (fuel : Nat) (uf : UnionFind α) (pairs : List (α × α)) : Option (UnionFind α) :=
  pairs.foldlM (fun uf p => uf.union fuel p.1 p.2) uf

/-- A loop that searches the root of every item, and does something with it. -/
def foldRoots {A M : Type} (fuel : Nat) (element : A → α) (f : M → α → A → M) (uf : UnionFind α)
    (items : List A) (m : M) : Option (UnionFind α × M) :=
  items.foldlM (fun s item => (s.1.find fuel (element item)).map fun found =>
    (found.2, f s.2 found.1 item)) (uf, m)

end UnionFind

omit [DecidableEq α] in
/-- The parents end in a root. -/
inductive RootOf (parent : α → α) : α → α → Prop
  | root {r : α} (h : parent r = r) : RootOf parent r r
  | step {x r : α} (h : parent x ≠ x) (hrest : RootOf parent (parent x) r) : RootOf parent x r

/-- The ranks rise along the parents. -/
def Ranked (parent : α → α) (rank : α → Nat) : Prop :=
  ∀ x, parent x ≠ x → rank x < rank (parent x)

/-- Only a root is its own ancestor. -/
def Acyclic (parent : α → α) : Prop :=
  ∀ x k, 0 < k → parent^[k] x = x → parent x = x

section

omit [DecidableEq α]

variable {parent : α → α} {rank : α → Nat}

theorem RootOf.isRoot {x r : α} (h : RootOf parent x r) : parent r = r := by
  induction h with
  | root h => exact h
  | step _ _ ih => exact ih

theorem RootOf.unique {x r r' : α} (h : RootOf parent x r) (h' : RootOf parent x r') : r = r' := by
  induction h with
  | root hr =>
    cases h' with
    | root => rfl
    | step hne _ => exact absurd hr hne
  | step hne _ ih =>
    cases h' with
    | root hr => exact absurd hr hne
    | step _ hrest => exact ih hrest

theorem rootOf_parent_iff {x r : α} : RootOf parent (parent x) r ↔ RootOf parent x r := by
  by_cases hx : parent x = x
  · rw [hx]
  · constructor
    · exact .step hx
    · intro h
      cases h with
      | root hr => exact absurd hr hx
      | step _ hrest => exact hrest

theorem Ranked.rank_le (h : Ranked parent rank) (x : α) : rank x ≤ rank (parent x) := by
  by_cases hx : parent x = x
  · rw [hx]
  · exact (h x hx).le

theorem Ranked.iterate_le (h : Ranked parent rank) (k : Nat) (x : α) :
    rank x ≤ rank (parent^[k] x) := by
  induction k with
  | zero => exact le_rfl
  | succ k ih =>
    rw [Function.iterate_succ_apply']
    exact ih.trans (h.rank_le _)

theorem Ranked.acyclic (h : Ranked parent rank) : Acyclic parent := by
  intro x k hk hx
  obtain ⟨k, rfl⟩ := Nat.exists_eq_succ_of_ne_zero hk.ne'
  by_contra hne
  have hstep := h x hne
  have hrest := h.iterate_le k (parent x)
  rw [← Function.iterate_succ_apply, hx] at hrest
  omega

/-- The elements above one, of which there are fewer above its parent. -/
theorem Ranked.card_above_lt [Fintype α] (h : Ranked parent rank) {x : α} (hx : parent x ≠ x) :
    (Finset.univ.filter fun y => rank (parent x) < rank y).card <
      (Finset.univ.filter fun y => rank x < rank y).card := by
  have hstep := h x hx
  refine Finset.card_lt_card (Finset.ssubset_iff_of_subset ?_ |>.mpr ⟨parent x, ?_, ?_⟩)
  · intro y hy
    simp only [Finset.mem_filter, Finset.mem_univ, true_and] at hy ⊢
    exact hstep.trans hy
  · simpa using hstep
  · simp

theorem Ranked.exists_rootOf [Fintype α] (h : Ranked parent rank) (x : α) :
    ∃ r, RootOf parent x r := by
  induction hcard : (Finset.univ.filter fun y => rank x < rank y).card using
    Nat.strong_induction_on generalizing x with
  | _ n ih =>
    by_cases hx : parent x = x
    · exact ⟨x, .root hx⟩
    · have hlt := h.card_above_lt hx
      rw [hcard] at hlt
      obtain ⟨r, hr⟩ := ih _ hlt (parent x) rfl
      exact ⟨r, .step hx hr⟩

end

/-- One turn of the loop. -/
def halve (parent : α → α) (x : α) : α → α := Function.update parent x (parent (parent x))

section

variable {parent : α → α} {rank : α → Nat}

@[simp] theorem halve_self (x : α) : halve parent x x = parent (parent x) :=
  Function.update_self x _ parent

theorem halve_of_ne {x y : α} (h : y ≠ x) : halve parent x y = parent y :=
  Function.update_of_ne h _ parent

theorem Ranked.halve (h : Ranked parent rank) (x : α) : Ranked (halve parent x) rank := by
  intro y hy
  by_cases heq : y = x
  · subst heq
    rw [halve_self] at hy ⊢
    have hmoved : parent y ≠ y := by
      intro hroot
      rw [hroot, hroot] at hy
      exact hy rfl
    exact (h y hmoved).trans_le (h.rank_le (parent y))
  · rw [halve_of_ne heq] at hy ⊢
    exact h y hy

theorem Ranked.rootOf_halve (h : Ranked parent rank) (x : α) {y r : α} (hy : RootOf parent y r) :
    RootOf (DisjointSets.halve parent x) y r := by
  induction hy with
  | @root r hr =>
    refine .root ?_
    by_cases heq : r = x
    · subst heq
      rw [halve_self, hr, hr]
    · rw [halve_of_ne heq, hr]
  | @step y r hne hrest ih =>
    have hmoved : DisjointSets.halve parent x y ≠ y := by
      intro hroot
      by_cases heq : y = x
      · subst heq
        rw [halve_self] at hroot
        have hone := h y hne
        have htwo := h.rank_le (parent y)
        rw [hroot] at htwo
        omega
      · exact hne ((halve_of_ne heq).symm.trans hroot)
    refine .step hmoved ?_
    by_cases heq : y = x
    · subst heq
      have hnext : DisjointSets.halve parent y (parent y) = parent (parent y) := halve_of_ne hne
      rw [halve_self, ← hnext]
      exact rootOf_parent_iff.mpr ih
    · rw [halve_of_ne heq]
      exact ih

theorem Ranked.halve_self_ne (h : Ranked parent rank) {x : α} (hx : parent x ≠ x) :
    DisjointSets.halve parent x x ≠ x := by
  have hone := h x hx
  have htwo := h.rank_le (parent x)
  rw [halve_self]
  intro heq
  rw [heq] at htwo
  omega

theorem findLoop_succ (fuel : Nat) {x : α} (hx : parent x ≠ x) :
    findLoop (fuel + 1) parent x =
      findLoop fuel (halve parent x) (halve parent x x) := by
  rw [findLoop, if_neg hx]
  rfl

/-- A search finds the root, and leaves every root as it was. -/
theorem findLoop_some [Fintype α] {fuel : Nat} (h : Ranked parent rank) {x r : α}
    {parent' : α → α} (hfound : findLoop fuel parent x = some (r, parent')) :
    RootOf parent x r ∧ Ranked parent' rank ∧ ∀ y s, RootOf parent y s → RootOf parent' y s := by
  induction fuel generalizing parent x with
  | zero => simp [findLoop] at hfound
  | succ fuel ih =>
    by_cases hx : parent x = x
    · rw [findLoop, if_pos hx] at hfound
      cases Option.some.inj hfound
      exact ⟨.root hx, h, fun _ _ hs => hs⟩
    · rw [findLoop_succ fuel hx] at hfound
      obtain ⟨hroot, hranked, hkeep⟩ := ih (h.halve x) hfound
      refine ⟨?_, hranked, fun y s hs => hkeep y s (h.rootOf_halve x hs)⟩
      obtain ⟨s, hs⟩ := h.exists_rootOf x
      have hsame := (rootOf_parent_iff.mp hroot).unique (h.rootOf_halve x hs)
      exact hsame ▸ hs

/-- The loop ends within as many turns as there are elements. -/
theorem findLoop_ends [Fintype α] {fuel : Nat} (h : Ranked parent rank) {x : α}
    (hfuel : (Finset.univ.filter fun y => rank x < rank y).card < fuel) :
    ∃ found, findLoop fuel parent x = some found := by
  induction fuel generalizing parent x with
  | zero => omega
  | succ fuel ih =>
    by_cases hx : parent x = x
    · exact ⟨_, if_pos hx⟩
    · have hlt := (h.halve x).card_above_lt (h.halve_self_ne hx)
      rw [findLoop_succ fuel hx]
      exact ih (h.halve x) (by omega)

omit [DecidableEq α] in
theorem card_above_lt_card [Fintype α] (rank : α → Nat) (x : α) :
    (Finset.univ.filter fun y => rank x < rank y).card < Fintype.card α := by
  refine Finset.card_lt_card (Finset.ssubset_iff_of_subset (Finset.subset_univ _) |>.mpr ⟨x, ?_⟩)
  simp

/-- A root under another: the elements of its tree move to the other. -/
theorem RootOf.update {rx ry x r : α} (hrx : parent rx = rx) (hry : parent ry = ry)
    (hne : rx ≠ ry) (h : RootOf parent x r) :
    RootOf (Function.update parent ry rx) x (if r = ry then rx else r) := by
  have hat : Function.update parent ry rx ry = rx := Function.update_self ry rx parent
  have hoff : ∀ z, z ≠ ry → Function.update parent ry rx z = parent z := fun z hz =>
    Function.update_of_ne hz rx parent
  induction h with
  | @root r hr =>
    split
    next heq =>
      rw [heq]
      refine .step (by rw [hat]; exact hne) ?_
      rw [hat]
      exact .root ((hoff rx hne).trans hrx)
    next hother => exact .root ((hoff r hother).trans hr)
  | @step x r hx _ ih =>
    have hother : x ≠ ry := fun heq => hx (heq ▸ hry)
    refine .step (by rw [hoff x hother]; exact hx) ?_
    rw [hoff x hother]
    exact ih

end

/-- Two elements have one root. -/
def Same (uf : UnionFind α) (a b : α) : Prop :=
  ∃ r, RootOf uf.parent a r ∧ RootOf uf.parent b r

def UnionFind.Ranked (uf : UnionFind α) : Prop := DisjointSets.Ranked uf.parent uf.rank

namespace UnionFind

variable {uf uf' : UnionFind α}

omit [DecidableEq α] in
theorem new_ranked : (new α).Ranked := fun _ hx => absurd rfl hx

omit [DecidableEq α] in
theorem Ranked.same_equivalence [Fintype α] (h : uf.Ranked) : Equivalence (Same uf) where
  refl a := by
    obtain ⟨r, hr⟩ := h.exists_rootOf a
    exact ⟨r, hr, hr⟩
  symm := fun ⟨r, ha, hb⟩ => ⟨r, hb, ha⟩
  trans := fun ⟨_, ha, hb⟩ ⟨_, hb', hc⟩ => ⟨_, ha, hb.unique hb' ▸ hc⟩

theorem find_some [Fintype α] {fuel : Nat} (h : uf.Ranked) {x r : α}
    (hfound : uf.find fuel x = some (r, uf')) :
    RootOf uf.parent x r ∧ uf'.Ranked ∧ ∀ y s, RootOf uf.parent y s ↔ RootOf uf'.parent y s := by
  obtain ⟨found, hloop, heq⟩ := Option.map_eq_some_iff.mp hfound
  cases heq
  obtain ⟨hroot, hranked, hkeep⟩ := findLoop_some h hloop
  refine ⟨hroot, hranked, fun y s => ⟨hkeep y s, fun hs => ?_⟩⟩
  obtain ⟨s', hs'⟩ := h.exists_rootOf y
  exact (hkeep y s' hs').unique hs ▸ hs'

theorem find_ends [Fintype α] {fuel : Nat} (h : uf.Ranked) (hfuel : Fintype.card α ≤ fuel)
    (x : α) : ∃ r uf', uf.find fuel x = some (r, uf') := by
  obtain ⟨found, hfound⟩ := findLoop_ends h ((card_above_lt_card uf.rank x).trans_le hfuel)
  exact ⟨found.1, _, by rw [find, hfound]; rfl⟩

theorem link_ranked (h : uf.Ranked) {rx ry : α} (hrx : uf.parent rx = rx)
    (hry : uf.parent ry = ry) (hne : rx ≠ ry) : (uf.link rx ry).Ranked := by
  have hplain : ∀ top bottom : α, uf.rank bottom < uf.rank top →
      DisjointSets.Ranked (Function.update uf.parent bottom top) uf.rank := by
    intro top bottom hlt x hx
    by_cases heq : x = bottom
    · rw [heq, Function.update_self]
      exact hlt
    · rw [Function.update_of_ne heq] at hx ⊢
      exact h x hx
  unfold link
  split
  next hlt => exact hplain ry rx hlt
  next hle =>
    split
    next hlt => exact hplain rx ry hlt
    next hge =>
      intro x hx
      by_cases heq : x = ry
      · subst heq
        simp only [Function.update_self, Function.update_of_ne hne.symm]
        omega
      · simp only [Function.update_of_ne heq] at hx ⊢
        have hstep := h x hx
        have hmoved : x ≠ rx := fun hroot => hx (hroot ▸ hrx)
        rw [Function.update_of_ne hmoved]
        by_cases htop : uf.parent x = rx
        · rw [htop, Function.update_self]
          rw [htop] at hstep
          omega
        · rw [Function.update_of_ne htop]
          exact hstep

/-- The root that a link leaves, with the other one under it. -/
theorem link_parent (uf : UnionFind α) (rx ry : α) :
    (uf.link rx ry).parent = Function.update uf.parent rx ry ∨
      (uf.link rx ry).parent = Function.update uf.parent ry rx := by
  unfold link
  split
  next => exact Or.inl rfl
  next =>
    split
    next => exact Or.inr rfl
    next => exact Or.inr rfl

/-- Two classes are one after their roots are linked. -/
theorem same_update [Fintype α] (h : uf.Ranked) {rx ry : α} (hrx : uf.parent rx = rx)
    (hry : uf.parent ry = ry) (hne : rx ≠ ry)
    (hlinked : uf'.parent = Function.update uf.parent ry rx) (a b : α) :
    Same uf' a b ↔ Same uf a b ∨ (Same uf a rx ∧ Same uf b ry) ∨ (Same uf a ry ∧ Same uf b rx) := by
  have hmove : ∀ {x r}, RootOf uf.parent x r → RootOf uf'.parent x (if r = ry then rx else r) := by
    intro x r hx
    rw [hlinked]
    exact hx.update hrx hry hne
  have hto : ∀ {x r s}, RootOf uf.parent x r → uf.parent s = s → (Same uf x s ↔ r = s) := by
    intro x r s hx hs
    exact ⟨fun ⟨_, hx', hs'⟩ => (hx.unique hx').trans (hs'.unique (.root hs)),
      fun heq => ⟨s, heq ▸ hx, .root hs⟩⟩
  obtain ⟨ra, ha⟩ := h.exists_rootOf a
  obtain ⟨rb, hb⟩ := h.exists_rootOf b
  have hsame : Same uf a b ↔ ra = rb :=
    ⟨fun ⟨_, ha', hb'⟩ => (ha.unique ha').trans (hb.unique hb').symm,
      fun heq => ⟨ra, ha, heq ▸ hb⟩⟩
  have hlinkedSame : Same uf' a b ↔
      (if ra = ry then rx else ra) = (if rb = ry then rx else rb) :=
    ⟨fun ⟨_, ha', hb'⟩ => ((hmove ha).unique ha').trans ((hmove hb).unique hb').symm,
      fun heq => ⟨_, hmove ha, heq ▸ hmove hb⟩⟩
  rw [hlinkedSame, hsame, hto ha hrx, hto hb hry, hto ha hry, hto hb hrx]
  by_cases haroot : ra = ry
  · by_cases hbroot : rb = ry
    · simp [haroot, hbroot]
    · simp [haroot, hbroot, Ne.symm hbroot, eq_comm]
  · by_cases hbroot : rb = ry
    · simp [haroot, hbroot]
    · simp [haroot, hbroot]

theorem union_some [Fintype α] {fuel : Nat} (h : uf.Ranked) {x y : α}
    (hunion : uf.union fuel x y = some uf') :
    uf'.Ranked ∧ ∀ a b, Same uf' a b ↔
      Same uf a b ∨ (Same uf a x ∧ Same uf b y) ∨ (Same uf a y ∧ Same uf b x) := by
  obtain ⟨fx, hfx, hrest⟩ := Option.bind_eq_some_iff.mp hunion
  obtain ⟨fy, hfy, hresult⟩ := Option.bind_eq_some_iff.mp hrest
  obtain ⟨hrootx, hranked, hkeep⟩ := find_some h hfx
  obtain ⟨hrooty, hranked', hkeep'⟩ := find_some hranked hfy
  have hroots : ∀ a r, RootOf uf.parent a r ↔ RootOf fy.2.parent a r := fun a r =>
    (hkeep a r).trans (hkeep' a r)
  have hsame : ∀ a b, Same fy.2 a b ↔ Same uf a b := fun a b =>
    exists_congr fun r => and_congr (hroots a r).symm (hroots b r).symm
  have hx : RootOf fy.2.parent x fx.1 := (hroots x fx.1).mp hrootx
  have hy : RootOf fy.2.parent y fy.1 := (hkeep' y fy.1).mp hrooty
  have hequiv := h.same_equivalence
  have hatx : ∀ a, Same fy.2 a fx.1 ↔ Same uf a x := fun a => by
    rw [hsame]
    have hself : Same uf fx.1 x := (hsame _ _).mp ⟨fx.1, .root hx.isRoot, hx⟩
    exact ⟨fun ha => hequiv.trans ha hself, fun ha => hequiv.trans ha (hequiv.symm hself)⟩
  have haty : ∀ a, Same fy.2 a fy.1 ↔ Same uf a y := fun a => by
    rw [hsame]
    have hself : Same uf fy.1 y := (hsame _ _).mp ⟨fy.1, .root hy.isRoot, hy⟩
    exact ⟨fun ha => hequiv.trans ha hself, fun ha => hequiv.trans ha (hequiv.symm hself)⟩
  cases Option.some.inj hresult
  by_cases heq : fx.1 = fy.1
  · rw [if_pos heq]
    refine ⟨hranked', fun a b => ?_⟩
    have hxy : Same uf x y := (hsame _ _).mp ⟨fx.1, hx, heq ▸ hy⟩
    rw [hsame]
    refine ⟨Or.inl, ?_⟩
    rintro (hab | ⟨ha, hb⟩ | ⟨ha, hb⟩)
    · exact hab
    · exact hequiv.trans ha (hequiv.trans hxy (hequiv.symm hb))
    · exact hequiv.trans ha (hequiv.trans (hequiv.symm hxy) (hequiv.symm hb))
  · rw [if_neg heq]
    refine ⟨link_ranked hranked' hx.isRoot hy.isRoot heq, fun a b => ?_⟩
    rw [← hsame, ← hatx a, ← hatx b, ← haty a, ← haty b]
    rcases link_parent fy.2 fx.1 fy.1 with hlink | hlink
    · rw [same_update hranked' hy.isRoot hx.isRoot (Ne.symm heq) hlink]
      tauto
    · exact same_update hranked' hx.isRoot hy.isRoot heq hlink a b

theorem union_ends [Fintype α] {fuel : Nat} (h : uf.Ranked) (hfuel : Fintype.card α ≤ fuel)
    (x y : α) : ∃ uf', uf.union fuel x y = some uf' := by
  obtain ⟨rx, uf₁, hfx⟩ := find_ends h hfuel x
  obtain ⟨ry, uf₂, hfy⟩ := find_ends (find_some h hfx).2.1 hfuel y
  exact ⟨_, by rw [union, hfx, Option.bind_eq_bind, Option.bind_some, hfy]; rfl⟩

end UnionFind

open Relation in
omit [DecidableEq α] in
theorem eqvGen_le {r s : α → α → Prop} (hs : Equivalence s) (h : ∀ a b, r a b → s a b) {a b : α}
    (hab : EqvGen r a b) : s a b :=
  hs.eqvGen_iff.mp (EqvGen.mono h a b hab)

open Relation in
/-- The classes after unions are the classes before, joined along the pairs. -/
theorem UnionFind.unions_some [Fintype α] {fuel : Nat} {uf uf' : UnionFind α} (h : uf.Ranked)
    {pairs : List (α × α)} (hunions : uf.unions fuel pairs = some uf') :
    uf'.Ranked ∧ ∀ a b, Same uf' a b ↔ EqvGen (fun a b => Same uf a b ∨ (a, b) ∈ pairs) a b := by
  induction pairs generalizing uf with
  | nil =>
    cases Option.some.inj hunions
    refine ⟨h, fun a b => ⟨fun hab => .rel a b (Or.inl hab), ?_⟩⟩
    exact eqvGen_le h.same_equivalence fun a b hab => hab.resolve_right (List.not_mem_nil)
  | cons p rest ih =>
    obtain ⟨mid, hmid, hrest⟩ := Option.bind_eq_some_iff.mp hunions
    obtain ⟨hranked, hsame⟩ := union_some h hmid
    obtain ⟨hranked', hrest⟩ := ih hranked hrest
    have hequiv := h.same_equivalence
    refine ⟨hranked', fun a b => (hrest a b).trans ⟨?_, ?_⟩⟩
    · refine eqvGen_le (EqvGen.is_equivalence _) fun a b hab => ?_
      have hold : ∀ {a b}, Same uf a b →
          EqvGen (fun a b => Same uf a b ∨ (a, b) ∈ p :: rest) a b := fun hab =>
        .rel _ _ (Or.inl hab)
      have hpair : EqvGen (fun a b => Same uf a b ∨ (a, b) ∈ p :: rest) p.1 p.2 :=
        .rel _ _ (Or.inr List.mem_cons_self)
      rcases hab with hab | hab
      · rcases (hsame a b).mp hab with hab | ⟨ha, hb⟩ | ⟨ha, hb⟩
        · exact hold hab
        · exact ((hold ha).trans _ _ _ hpair).trans _ _ _ (hold hb).symm
        · exact ((hold ha).trans _ _ _ hpair.symm).trans _ _ _ (hold hb).symm
      · exact .rel _ _ (Or.inr (List.mem_cons_of_mem p hab))
    · refine eqvGen_le (EqvGen.is_equivalence _) fun a b hab => ?_
      rcases hab with hab | hab
      · exact .rel _ _ (Or.inl ((hsame a b).mpr (Or.inl hab)))
      · rcases List.mem_cons.mp hab with heq | hab
        · cases heq
          exact .rel _ _ (Or.inl ((hsame a b).mpr
            (Or.inr (Or.inl ⟨hequiv.refl a, hequiv.refl b⟩))))
        · exact .rel _ _ (Or.inr hab)

theorem UnionFind.unions_ends [Fintype α] {fuel : Nat} {uf : UnionFind α} (h : uf.Ranked)
    (hfuel : Fintype.card α ≤ fuel) (pairs : List (α × α)) :
    ∃ uf', uf.unions fuel pairs = some uf' := by
  induction pairs generalizing uf with
  | nil => exact ⟨uf, rfl⟩
  | cons p rest ih =>
    obtain ⟨mid, hmid⟩ := union_ends h hfuel p.1 p.2
    obtain ⟨uf', hrest⟩ := ih (union_some h hmid).1
    exact ⟨uf', Option.bind_eq_some_iff.mpr ⟨mid, hmid, hrest⟩⟩

/-- The searches of such a loop find the roots that were there before it. -/
theorem UnionFind.foldRoots_eq [Fintype α] {A M : Type} {fuel : Nat} (element : A → α)
    (f : M → α → A → M) {uf : UnionFind α} {root : α → α} (h : uf.Ranked)
    (hfuel : Fintype.card α ≤ fuel) (hroot : ∀ x, RootOf uf.parent x (root x)) (items : List A)
    (m : M) :
    ∃ uf', uf.foldRoots fuel element f items m =
        some (uf', items.foldl (fun m item => f m (root (element item)) item) m) ∧
      uf'.Ranked ∧ ∀ x, RootOf uf'.parent x (root x) := by
  induction items generalizing uf m with
  | nil => exact ⟨uf, rfl, h, hroot⟩
  | cons item rest ih =>
    obtain ⟨r, mid, hfind⟩ := find_ends h hfuel (element item)
    obtain ⟨hr, hranked, hkeep⟩ := find_some h hfind
    obtain ⟨uf', hrest, hranked', hroot'⟩ := ih hranked (fun x => (hkeep x _).mp (hroot x))
      (f m (root (element item)) item)
    refine ⟨uf', ?_, hranked', hroot'⟩
    rw [List.foldl_cons, ← hrest, ← hr.unique (hroot _), foldRoots, List.foldlM_cons, hfind]
    rfl

/-- What searches and unions make of the structure of single elements. -/
inductive Reachable : UnionFind α → Prop
  | new : Reachable (.new α)
  | find {uf uf' : UnionFind α} {fuel : Nat} {x r : α} (h : Reachable uf)
      (hfind : uf.find fuel x = some (r, uf')) : Reachable uf'
  | union {uf uf' : UnionFind α} {fuel : Nat} {x y : α} (h : Reachable uf)
      (hunion : uf.union fuel x y = some uf') : Reachable uf'

theorem Reachable.ranked [Fintype α] {uf : UnionFind α} (h : Reachable uf) : uf.Ranked := by
  induction h with
  | new => exact UnionFind.new_ranked
  | find _ hfind ih => exact (UnionFind.find_some ih hfind).2.1
  | union _ hunion ih => exact (UnionFind.union_some ih hunion).1

end DisjointSets

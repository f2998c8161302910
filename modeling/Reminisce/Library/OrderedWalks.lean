import Mathlib.Data.Fintype.Card
import Mathlib.Logic.Relation

namespace OrderedWalks

/-- Why a walk does not return: it may not go deeper from here, or its calls are used up. -/
inductive Halt
  | blocked
  | unfinished
  deriving DecidableEq, Repr

variable {V : Type}

/-- The nodes that are called one after the other from a node, until one fails, and whether the
node itself is fine behind them. -/
structure System (V : Type) where
  calls : V → List V
  fine : V → Bool

/-- The calls of one node. -/
def visitAll (walk : V → Except Halt Bool) (blocked fine : Bool) : List V → Except Halt Bool
  | [] => .ok fine
  | y :: ys =>
    if blocked then .error .blocked
    else
      match walk y with
      | .error halt => .error halt
      | .ok false => .ok false
      | .ok true => visitAll walk blocked fine ys

namespace System

variable (sys : System V) (blocked : V → Bool)

/-- The walk from a node, within so many nested calls. -/
def walk : Nat → V → Except Halt Bool
  | 0, _ => .error .unfinished
  | n + 1, x => visitAll (walk n) (blocked x) (sys.fine x) (sys.calls x)

/-- All that is called from the node is fine. -/
inductive Passes : V → Prop
  | intro (x : V) (calls : ∀ y ∈ sys.calls x, Passes y) (fine : sys.fine x) : Passes x

/-- The second node is called from the first, all calls before it having passed. -/
def Opens (x y : V) : Prop :=
  ∃ before after, sys.calls x = before ++ y :: after ∧ ∀ z ∈ before, sys.Passes z

/-- No node is called from itself again, through others or not, on the way from this one. -/
def Loopless (root : V) : Prop :=
  ∀ x, Relation.ReflTransGen sys.Opens root x → ¬Relation.TransGen sys.Opens x x

/-- Nothing is called from a blocked node on the way from this one. -/
def Unblocked (root : V) : Prop :=
  ∀ x y, Relation.ReflTransGen sys.Opens root x → sys.Opens x y → blocked x = false

variable {sys} {blocked} {n : Nat} {x y root : V} {r : Bool} {halt : Halt}

theorem visitAll_cons {walk : V → Except Halt Bool} {stop fine : Bool} {ys : List V} :
    visitAll walk stop fine (y :: ys) =
      if stop then .error .blocked
      else
        match walk y with
        | .error halt => .error halt
        | .ok false => .ok false
        | .ok true => visitAll walk stop fine ys := rfl

/-- More nested calls change nothing. -/
theorem visitAll_mono {walk walk' : V → Except Halt Bool} {stop fine : Bool} {ys : List V}
    (hmono : ∀ y r, walk y = .ok r → walk' y = .ok r) (h : visitAll walk stop fine ys = .ok r) :
    visitAll walk' stop fine ys = .ok r := by
  induction ys with
  | nil => exact h
  | cons y ys ih =>
    rw [visitAll_cons] at h ⊢
    split at h
    next => simp at h
    next hfree =>
      rw [if_neg hfree]
      cases hy : walk y with
      | error halt => simp [hy] at h
      | ok passed =>
        rw [hmono y passed hy]
        rw [hy] at h
        cases passed with
        | false => exact h
        | true => exact ih h

theorem walk_succ (h : sys.walk blocked n x = .ok r) : sys.walk blocked (n + 1) x = .ok r := by
  induction n generalizing x r with
  | zero => simp [walk] at h
  | succ n ih => exact visitAll_mono (fun y r hy => ih hy) h

theorem walk_le {m : Nat} (hle : n ≤ m) (h : sys.walk blocked n x = .ok r) : sys.walk blocked m x = .ok r := by
  induction m, hle using Nat.le_induction with
  | base => exact h
  | succ m _ ih => exact walk_succ ih

/-- A walk that returns tells whether the node passes. -/
theorem passes_of_walk (h : sys.walk blocked n x = .ok true) : sys.Passes x := by
  induction n generalizing x with
  | zero => simp [walk] at h
  | succ n ih =>
    have hall : ∀ ys, visitAll (sys.walk blocked n) (blocked x) (sys.fine x) ys = .ok true →
        (∀ y ∈ ys, sys.Passes y) ∧ sys.fine x = true := by
      intro ys
      induction ys with
      | nil => exact fun h => ⟨by simp, Except.ok.inj h⟩
      | cons y ys ihys =>
        intro h
        rw [visitAll_cons] at h
        split at h
        next => simp at h
        next =>
          split at h
          next => simp at h
          next => simp at h
          next hy =>
            obtain ⟨hys, hfine⟩ := ihys h
            exact ⟨List.forall_mem_cons.mpr ⟨ih hy, hys⟩, hfine⟩
    obtain ⟨hcalls, hfine⟩ := hall _ h
    exact .intro x hcalls hfine

theorem walk_of_passes (hp : sys.Passes x) (h : sys.walk blocked n x = .ok r) : r = true := by
  induction hp generalizing n r with
  | intro x calls fine ih =>
    cases n with
    | zero => simp [walk] at h
    | succ n =>
      have hall : ∀ ys, (∀ y ∈ ys, y ∈ sys.calls x) →
          visitAll (sys.walk blocked n) (blocked x) (sys.fine x) ys = .ok r → r = true := by
        intro ys hys
        induction ys with
        | nil => exact fun h => (Except.ok.inj h).symm.trans fine
        | cons y ys ihys =>
          intro h
          obtain ⟨hy, hys⟩ := List.forall_mem_cons.mp hys
          rw [visitAll_cons] at h
          split at h
          next => simp at h
          next =>
            split at h
            next => simp at h
            next hwalk => exact absurd (ih y hy hwalk) (by decide)
            next => exact ihys hys h
      exact hall _ (fun _ hy => hy) h

/-- A walk that returns has returned from every node that it opened, one call less deep. -/
theorem walk_opened (h : sys.walk blocked (n + 1) x = .ok r) (ho : sys.Opens x y) :
    blocked x = false ∧ ∃ r', sys.walk blocked n y = .ok r' := by
  obtain ⟨before, after, hcalls, hpass⟩ := ho
  rw [walk, hcalls] at h
  clear hcalls
  induction before with
  | nil =>
    rw [List.nil_append, visitAll_cons] at h
    split at h
    next => simp at h
    next hfree =>
      refine ⟨Bool.not_eq_true _ ▸ hfree, ?_⟩
      cases hy : sys.walk blocked n y with
      | error halt => simp [hy] at h
      | ok r' => exact ⟨r', rfl⟩
  | cons z before ih =>
    obtain ⟨hz, hbefore⟩ := List.forall_mem_cons.mp hpass
    rw [List.cons_append, visitAll_cons] at h
    split at h
    next => simp at h
    next =>
      split at h
      next => simp at h
      next hwalk => exact absurd (walk_of_passes hz hwalk) (by decide)
      next => exact ih h hbefore

/-- One more call of the node has passed. -/
theorem calls_concat {before after : List V} (hcalls : sys.calls x = before ++ y :: after)
    (hpass : ∀ z ∈ before, sys.Passes z) (hy : sys.Passes y) :
    sys.calls x = (before ++ [y]) ++ after ∧ ∀ z ∈ before ++ [y], sys.Passes z := by
  refine ⟨by rw [hcalls, List.append_assoc]; rfl, fun z hz => ?_⟩
  rcases List.mem_append.mp hz with hz | hz
  · exact hpass z hz
  · cases List.mem_singleton.mp hz
    exact hy

theorem walk_of_opened (h : ∀ y, sys.Opens x y → ∃ m r', sys.walk blocked m y = .ok r')
    (hfree : ∀ y, sys.Opens x y → blocked x = false) : ∃ m r, sys.walk blocked m x = .ok r := by
  have hall : ∀ before after, sys.calls x = before ++ after → (∀ z ∈ before, sys.Passes z) →
      ∃ m r, visitAll (sys.walk blocked m) (blocked x) (sys.fine x) after = .ok r := by
    intro before after
    induction after generalizing before with
    | nil => exact fun _ _ => ⟨0, _, rfl⟩
    | cons y after ih =>
      intro hcalls hpass
      have ho : sys.Opens x y := ⟨before, after, hcalls, hpass⟩
      obtain ⟨m, passed, hy⟩ := h y ho
      cases passed with
      | false =>
        refine ⟨m, false, ?_⟩
        rw [visitAll_cons, hfree y ho, hy]
        rfl
      | true =>
        obtain ⟨hcalls', hpass'⟩ := calls_concat hcalls hpass (passes_of_walk hy)
        obtain ⟨k, r, hrest⟩ := ih (before ++ [y]) hcalls' hpass'
        refine ⟨max m k, r, ?_⟩
        rw [hfree y ho] at hrest
        rw [visitAll_cons, hfree y ho, walk_le (Nat.le_max_left m k) hy]
        exact visitAll_mono (fun z r' hz => walk_le (Nat.le_max_right m k) hz) hrest
  obtain ⟨m, r, hm⟩ := hall [] (sys.calls x) rfl (by simp)
  exact ⟨m + 1, r, hm⟩

/-- A walk that returns opens no node from a blocked one, and none again from itself. -/
theorem walk_meets (h : sys.walk blocked n root = .ok r) :
    sys.Unblocked blocked root ∧ sys.Loopless root := by
  have hdown : ∀ {n r x y}, sys.walk blocked n x = .ok r → sys.Opens x y →
      blocked x = false ∧ ∃ m < n, ∃ r', sys.walk blocked m y = .ok r' := by
    intro n r x y h ho
    cases n with
    | zero => simp [walk] at h
    | succ n =>
      obtain ⟨hfree, r', hr'⟩ := walk_opened h ho
      exact ⟨hfree, n, Nat.lt_succ_self n, r', hr'⟩
  have hreach : ∀ x, Relation.ReflTransGen sys.Opens root x → ∃ m r', sys.walk blocked m x = .ok r' := by
    intro x hx
    induction hx with
    | refl => exact ⟨n, r, h⟩
    | tail _ ho ih =>
      obtain ⟨m, r', hm⟩ := ih
      obtain ⟨-, k, -, r'', hk⟩ := hdown hm ho
      exact ⟨k, r'', hk⟩
  have hloop : ∀ m x r', sys.walk blocked m x = .ok r' → ¬Relation.TransGen sys.Opens x x := by
    intro m
    induction m using Nat.strong_induction_on with
    | _ m ih =>
      intro x r' hm hcycle
      obtain ⟨y, ho, hback⟩ := Relation.TransGen.head'_iff.mp hcycle
      obtain ⟨-, k, hk, r'', hy⟩ := hdown hm ho
      exact ih k hk y r'' hy (Relation.TransGen.tail' hback ho)
  refine ⟨fun x y hx ho => ?_, fun x hx => ?_⟩
  · obtain ⟨m, r', hm⟩ := hreach x hx
    exact (hdown hm ho).1
  · obtain ⟨m, r', hm⟩ := hreach x hx
    exact hloop m x r' hm

/-- Among finitely many nodes, a walk returns if it opens no node from a blocked one and none
again from itself. -/
theorem walk_returns (hfinite : {x | Relation.ReflTransGen sys.Opens root x}.Finite)
    (hfree : sys.Unblocked blocked root) (hloop : sys.Loopless root) :
    ∃ n r, sys.walk blocked n root = .ok r := by
  let Reached := {x // Relation.ReflTransGen sys.Opens root x}
  have hfin : Finite Reached := hfinite
  let below : Reached → Reached → Prop := fun y x => Relation.TransGen sys.Opens x.1 y.1
  have htrans : IsTrans Reached below := ⟨fun a b c hab hbc => hbc.trans hab⟩
  have hirrefl : Std.Irrefl below := ⟨fun a => hloop a.1 a.2⟩
  have hwf : WellFounded below := Finite.wellFounded_of_trans_of_irrefl below
  have hall : ∀ x : Reached, ∃ n r, sys.walk blocked n x.1 = .ok r := by
    intro x
    induction x using hwf.induction with
    | _ x ih =>
      refine walk_of_opened (fun y ho => ?_) fun y ho => hfree x.1 y x.2 ho
      exact ih ⟨y, x.2.tail ho⟩ (Relation.TransGen.single ho)
  exact hall ⟨root, .refl⟩

/-- A walk that opens no node from a blocked one returns as if none was. -/
theorem walk_unblocked (hfree : sys.Unblocked blocked root)
    (h : sys.walk (fun _ => false) n root = .ok r) : sys.walk blocked n root = .ok r := by
  have hall : ∀ n x r, Relation.ReflTransGen sys.Opens root x →
      sys.walk (fun _ => false) n x = .ok r → sys.walk blocked n x = .ok r := by
    intro n
    induction n with
    | zero =>
      intro x r _ h
      simp [walk] at h
    | succ n ih =>
      intro x r hx h
      have hcalls : ∀ before after, sys.calls x = before ++ after → (∀ z ∈ before, sys.Passes z) →
          visitAll (sys.walk (fun _ => false) n) false (sys.fine x) after = .ok r →
          visitAll (sys.walk blocked n) (blocked x) (sys.fine x) after = .ok r := by
        intro before after
        induction after generalizing before with
        | nil => exact fun _ _ h => h
        | cons y after ihcalls =>
          intro hcalls hpass h
          have ho : sys.Opens x y := ⟨before, after, hcalls, hpass⟩
          rw [visitAll_cons, if_neg (by simp)] at h
          rw [visitAll_cons, hfree x y hx ho, if_neg (by simp)]
          cases hy : sys.walk (fun _ => false) n y with
          | error halt => simp [hy] at h
          | ok passed =>
            rw [ih y passed (hx.tail ho) hy]
            rw [hy] at h
            cases passed with
            | false => exact h
            | true =>
              obtain ⟨hcalls', hpass'⟩ := calls_concat hcalls hpass (passes_of_walk hy)
              rw [← hfree x y hx ho]
              exact ihcalls (before ++ [y]) hcalls' hpass' h
      exact hcalls [] (sys.calls x) rfl (by simp) h
  exact hall n root r .refl h

end System

end OrderedWalks

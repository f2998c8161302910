import Mathlib.Data.List.Basic

namespace Results

variable {ε α β : Type}

@[simp] theorem ok_bind (a : α) (f : α → Except ε β) : (Except.ok a >>= f) = f a := rfl

@[simp] theorem error_bind (e : ε) (f : α → Except ε β) :
    (Except.error e >>= f) = .error e := rfl

@[simp] theorem pure_eq_ok (a : α) : (pure a : Except ε α) = .ok a := rfl

/-- A sequence of two computations succeeds exactly through both of them. -/
theorem bind_ok {x : Except ε α} {f : α → Except ε β} {b : β}
    (h : (x >>= f) = .ok b) : ∃ a, x = .ok a ∧ f a = .ok b := by
  cases x with
  | error e => cases h
  | ok a => exact ⟨a, rfl, h⟩

theorem mapError_ok {δ : Type} {x : Except ε α} {f : ε → δ} {a : α}
    (h : x.mapError f = .ok a) : x = .ok a := by
  cases x with
  | error e => cases h
  | ok b => cases Except.ok.inj h; rfl

@[simp] theorem mapError_ok_eq {δ : Type} (f : ε → δ) (a : α) :
    (Except.ok a : Except ε α).mapError f = .ok a := rfl

/-- A list processed entry by entry without a failure is mapped by the results. -/
theorem mapM_ok_of_forall {f : α → Except ε β} {g : α → β} {xs : List α}
    (h : ∀ x ∈ xs, f x = .ok (g x)) : xs.mapM f = .ok (xs.map g) := by
  induction xs with
  | nil => rfl
  | cons x xs ih =>
    rw [List.mapM_cons, h x (by simp), ih fun y hy => h y (List.mem_cons_of_mem x hy)]
    rfl

theorem map_ok {x : Except ε α} {f : α → β} {b : β} (h : x.map f = .ok b) :
    ∃ a, x = .ok a ∧ f a = b := by
  cases x with
  | error e => simp [Except.map] at h
  | ok a => exact ⟨a, rfl, Except.ok.inj h⟩

/-- A list walked without an error has no element that ends in one. -/
theorem mapM_ok_mem {f : α → Except ε β} {xs : List α} {ys : List β} (h : xs.mapM f = .ok ys)
    {x : α} (hx : x ∈ xs) : ∃ y, f x = .ok y := by
  induction xs generalizing ys with
  | nil => simp at hx
  | cons first xs ih =>
    rw [List.mapM_cons] at h
    obtain ⟨y, hy, h⟩ := bind_ok h
    obtain ⟨rest, hrest, _⟩ := bind_ok h
    rcases List.mem_cons.mp hx with rfl | hx
    · exact ⟨y, hy⟩
    · exact ih hrest hx

/-- The first `limit` entries that pass a test which may fail; nothing after them is
tested. -/
def filterLimit (test : α → Except ε Bool) : Nat → List α → Except ε (List α)
  | 0, _ => .ok []
  | _ + 1, [] => .ok []
  | limit + 1, x :: xs => do
    if ← test x then
      let rest ← filterLimit test limit xs
      pure (x :: rest)
    else filterLimit test (limit + 1) xs

variable {test : α → Except ε Bool}

theorem filterLimit_length {limit : Nat} {xs found : List α}
    (h : filterLimit test limit xs = .ok found) : found.length ≤ xs.length := by
  induction xs generalizing limit found with
  | nil => cases limit <;> cases Except.ok.inj h <;> simp
  | cons x xs ih =>
    cases limit with
    | zero =>
      cases Except.ok.inj h
      simp
    | succ limit =>
      obtain ⟨passed, _, h⟩ := bind_ok h
      cases passed with
      | false =>
        have := ih h
        simp only [List.length_cons]
        omega
      | true =>
        obtain ⟨rest, hrest, h⟩ := bind_ok h
        cases Except.ok.inj h
        have := ih hrest
        simp only [List.length_cons]
        omega

theorem filterLimit_mem {limit : Nat} {xs found : List α}
    (h : filterLimit test limit xs = .ok found) {x : α} (hx : x ∈ found) : test x = .ok true := by
  induction xs generalizing limit found with
  | nil =>
    cases limit <;> cases Except.ok.inj h <;> simp at hx
  | cons first xs ih =>
    cases limit with
    | zero =>
      cases Except.ok.inj h
      simp at hx
    | succ limit =>
      obtain ⟨passed, htest, h⟩ := bind_ok h
      cases passed with
      | false => exact ih h hx
      | true =>
        obtain ⟨rest, hrest, h⟩ := bind_ok h
        cases Except.ok.inj h
        rcases List.mem_cons.mp hx with rfl | hx
        · exact htest
        · exact ih hrest hx

/-- Where no test fails the entries are found, all of them below the limit. -/
theorem filterLimit_complete {xs : List α} (hok : ∀ x ∈ xs, ∃ b, test x = .ok b) (limit : Nat) :
    ∃ found, filterLimit test limit xs = .ok found ∧
      (found.length < limit → ∀ x ∈ xs, test x = .ok true → x ∈ found) := by
  induction xs generalizing limit with
  | nil =>
    refine ⟨[], ?_, by simp⟩
    cases limit <;> rfl
  | cons first xs ih =>
    cases limit with
    | zero => exact ⟨[], rfl, by simp⟩
    | succ limit =>
      obtain ⟨passed, htest⟩ := hok first (by simp)
      have hrest := fun x hx => hok x (List.mem_cons_of_mem first hx)
      cases passed with
      | false =>
        obtain ⟨found, hfound, hall⟩ := ih hrest (limit + 1)
        refine ⟨found, by simp [filterLimit, htest, hfound], fun hlt x hx hpass => ?_⟩
        rcases List.mem_cons.mp hx with rfl | hx
        · simp [htest] at hpass
        · exact hall hlt x hx hpass
      | true =>
        obtain ⟨found, hfound, hall⟩ := ih hrest limit
        refine ⟨first :: found, by simp [filterLimit, htest, hfound], fun hlt x hx hpass => ?_⟩
        simp only [List.length_cons] at hlt
        rcases List.mem_cons.mp hx with rfl | hx
        · simp
        · exact List.mem_cons_of_mem _ (hall (by omega) x hx hpass)

end Results

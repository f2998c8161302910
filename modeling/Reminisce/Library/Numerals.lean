import Reminisce.Library.Hex
import Mathlib.Data.List.Forall2

namespace Numerals

/-- The value of a digit of a radix up to sixteen, in either letter case. -/
def digitValue (radix : Nat) (c : Char) : Option Nat := (Hex.value c).filter (· < radix)

/-- The longest run of digits at the start, and what follows it. -/
def readDigits (radix : Nat) : List Char → List Nat × List Char
  | [] => ([], [])
  | c :: cs =>
    match digitValue radix c with
    | none => ([], c :: cs)
    | some d => (d :: (readDigits radix cs).1, (readDigits radix cs).2)

def ofDigits (radix : Nat) (digits : List Nat) : Nat :=
  digits.foldl (fun n d => n * radix + d) 0

/-- A number below `bound` at the start of the text, and what follows it; `maxDigits` limits the
digits, and without `zeroPrefix` a number of several digits starts with another one than zero. -/
def readNumber (radix : Nat) (maxDigits : Option Nat) (zeroPrefix : Bool) (bound : Nat)
    (cs : List Char) : Option (Nat × List Char) :=
  let (digits, rest) := readDigits radix cs
  if digits = [] ∨ maxDigits.any (· < digits.length) then none
  else if !zeroPrefix ∧ digits.head? = some 0 ∧ 1 < digits.length then none
  else if ofDigits radix digits < bound then some (ofDigits radix digits, rest)
  else none

/-- Lower-case digits of a number, the highest first. -/
def numeral (radix n : Nat) : List Char := Nat.toDigits radix n

/-- The text does not go on with a digit. -/
def Ended (radix : Nat) (cs : List Char) : Prop :=
  ∀ c, cs.head? = some c → digitValue radix c = none

/-- The characters are the digits of these values. -/
abbrev Spells (radix : Nat) (text : List Char) (digits : List Nat) : Prop :=
  List.Forall₂ (fun c d => digitValue radix c = some d) text digits

variable {radix n : Nat} {text rest : List Char} {digits : List Nat}

theorem digitValue_digitChar {d : Nat} (hradix : radix ≤ 16) (hd : d < radix) :
    digitValue radix (Nat.digitChar d) = some d := by
  have all : ∀ m ∈ List.range 16, Hex.value (Nat.digitChar m) = some m := by decide
  have hvalue := all d (List.mem_range.mpr (by omega))
  simp [digitValue, hvalue, hd]

theorem ended_nil : Ended radix [] := by simp [Ended]

theorem ended_cons {c : Char} (h : digitValue radix c = none) : Ended radix (c :: rest) := by
  intro x hx
  cases Option.some.inj hx
  exact h

theorem readDigits_ended (h : Ended radix rest) : readDigits radix rest = ([], rest) := by
  cases rest with
  | nil => rfl
  | cons c cs => simp [readDigits, h c rfl]

theorem Spells.readDigits (h : Spells radix text digits) (hrest : Ended radix rest) :
    readDigits radix (text ++ rest) = (digits, rest) := by
  induction h with
  | nil => exact readDigits_ended hrest
  | cons hc _ ih => simp [Numerals.readDigits, hc, ih]

theorem ofDigits_append_singleton {d : Nat} :
    ofDigits radix (digits ++ [d]) = ofDigits radix digits * radix + d := by
  simp [ofDigits]

/-- The digits of a numeral: they make up the number and start with zero only for zero. -/
theorem numeral_spells (hbase : 1 < radix) (hradix : radix ≤ 16) (n : Nat) :
    ∃ digits, Spells radix (numeral radix n) digits ∧ ofDigits radix digits = n ∧
      (digits.head? = some 0 → n = 0) := by
  induction n using Nat.strongRecOn with
  | _ n ih =>
    unfold numeral
    by_cases hlt : n < radix
    · rw [Nat.toDigits_of_lt_base hlt]
      refine ⟨[n], .cons (digitValue_digitChar hradix hlt) .nil, by simp [ofDigits], ?_⟩
      simp
    · have hdiv : n / radix < n := Nat.div_lt_self (by omega) hbase
      obtain ⟨digits, hspells, hvalue, hzero⟩ := ih (n / radix) hdiv
      have hlast := digitValue_digitChar hradix (Nat.mod_lt n (by omega : radix > 0))
      rw [Nat.toDigits_of_base_le hbase (by omega)]
      refine ⟨digits ++ [n % radix], List.rel_append hspells (.cons hlast .nil), ?_, ?_⟩
      · rw [ofDigits_append_singleton, hvalue, Nat.mul_comm]
        exact Nat.div_add_mod n radix
      · intro hhead
        have hquot : 0 < n / radix := Nat.div_pos (by omega) (by omega)
        cases digits with
        | nil => simp [ofDigits] at hvalue; omega
        | cons d ds => have := hzero (by simpa using hhead); omega

theorem Spells.isDigit {c : Char} (h : Spells radix text digits) (hc : c ∈ text) :
    (digitValue radix c).isSome := by
  induction h with
  | nil => simp at hc
  | cons hd _ ih =>
    rcases List.mem_cons.mp hc with rfl | hmem
    · simp [hd]
    · exact ih hmem

theorem isDigit_of_mem_numeral {c : Char} (hbase : 1 < radix) (hradix : radix ≤ 16)
    (hc : c ∈ numeral radix n) : (digitValue radix c).isSome := by
  obtain ⟨digits, hspells, _⟩ := numeral_spells hbase hradix n
  exact hspells.isDigit hc

theorem Spells.length_eq (h : Spells radix text digits) : text.length = digits.length :=
  List.Forall₂.length_eq h

/-- A numeral is read back up to its end. -/
theorem readNumber_numeral {maxDigits : Option Nat} {zeroPrefix : Bool} {bound : Nat}
    (hbase : 1 < radix) (hradix : radix ≤ 16) (hbound : n < bound)
    (hdigits : ∀ m, maxDigits = some m → (numeral radix n).length ≤ m)
    (hrest : Ended radix rest) :
    readNumber radix maxDigits zeroPrefix bound (numeral radix n ++ rest) = some (n, rest) := by
  obtain ⟨digits, hspells, hvalue, hzero⟩ := numeral_spells hbase hradix n
  have hlength := hspells.length_eq
  have hne : digits ≠ [] := by
    intro hnil
    rw [hnil] at hlength
    exact Nat.toDigits_ne_nil (List.length_eq_zero_iff.mp hlength)
  have hmax : maxDigits.any (· < digits.length) = false := by
    cases maxDigits with
    | none => rfl
    | some m => simpa [hlength] using hdigits m rfl
  have hprefix : ¬ (digits.head? = some 0 ∧ 1 < digits.length) := by
    rintro ⟨hhead, hlong⟩
    have hn := hzero hhead
    rw [hn, numeral, Nat.toDigits_zero] at hlength
    simp at hlength
    omega
  unfold readNumber
  simp only [hspells.readDigits hrest, hne, hmax, hvalue, hbound, false_or, if_true,
    Bool.false_eq_true, if_false]
  rw [if_neg fun h => hprefix h.2]

/-- Without a digit there is no number. -/
theorem readNumber_ended {maxDigits : Option Nat} {zeroPrefix : Bool} {bound : Nat}
    (hrest : Ended radix rest) : readNumber radix maxDigits zeroPrefix bound rest = none := by
  simp [readNumber, readDigits_ended hrest]

theorem readNumber_rest {maxDigits : Option Nat} {zeroPrefix : Bool} {bound : Nat} {cs : List Char}
    (h : readNumber radix maxDigits zeroPrefix bound cs = some (n, rest)) :
    rest = (readDigits radix cs).2 := by
  unfold readNumber at h
  simp only at h
  split at h
  next => cases h
  next =>
    split at h
    next => cases h
    next =>
      split at h
      next =>
        cases Option.some.inj h
        rfl
      next => cases h

theorem readDigits_spells (radix : Nat) (cs : List Char) :
    ∃ text, cs = text ++ (readDigits radix cs).2 ∧ Spells radix text (readDigits radix cs).1 := by
  induction cs with
  | nil => exact ⟨[], rfl, .nil⟩
  | cons c cs ih =>
    unfold readDigits
    split
    next => exact ⟨[], rfl, .nil⟩
    next d hd =>
      obtain ⟨text, htext, hspells⟩ := ih
      exact ⟨c :: text, by rw [List.cons_append, ← htext], .cons hd hspells⟩

/-- A number that was read is spelled by digits at the start of the text. -/
theorem readNumber_spells {maxDigits : Option Nat} {zeroPrefix : Bool} {bound : Nat}
    {cs : List Char} (h : readNumber radix maxDigits zeroPrefix bound cs = some (n, rest)) :
    ∃ text digits, cs = text ++ rest ∧ Spells radix text digits ∧ digits ≠ [] ∧
      ofDigits radix digits = n ∧ n < bound := by
  obtain ⟨text, htext, hspells⟩ := readDigits_spells radix cs
  rw [← readNumber_rest h] at htext
  unfold readNumber at h
  simp only at h
  split at h
  next => cases h
  next hdigits =>
    split at h
    next => cases h
    next =>
      split at h
      next hbound =>
        cases Option.some.inj h
        exact ⟨text, _, htext, hspells, fun hnil => hdigits (Or.inl hnil), rfl, hbound⟩
      next => cases h

theorem length_numeral_le {k : Nat} (hbase : 1 < radix) (hk : 0 < k) (h : n < radix ^ k) :
    (numeral radix n).length ≤ k :=
  (Nat.length_toDigits_le_iff hbase hk).mpr h

/-- The last `width` digits of a number. -/
def padded (radix : Nat) : Nat → Nat → List Char
  | 0, _ => []
  | width + 1, n => padded radix width (n / radix) ++ [Nat.digitChar (n % radix)]

@[simp]
theorem length_padded {width : Nat} : (padded radix width n).length = width := by
  induction width generalizing n with
  | zero => rfl
  | succ width ih => simp [padded, ih]

theorem digitChar_lt {m : Nat} (h : m < n) (hn : n < 16) : Nat.digitChar m < Nat.digitChar n := by
  have all : ∀ b ∈ List.range 16, ∀ a ∈ List.range b, Nat.digitChar a < Nat.digitChar b := by
    decide
  exact all n (List.mem_range.mpr hn) m (List.mem_range.mpr h)

/-- Of two texts of one length the order does not depend on what follows them. -/
theorem append_lt_append {text' rest' : List Char} (hlength : text.length = text'.length)
    (h : text < text') : text ++ rest < text' ++ rest' := by
  induction text generalizing text' with
  | nil =>
    cases text' with
    | nil => exact absurd h (List.lt_irrefl _)
    | cons c cs => simp at hlength
  | cons c cs ih =>
    cases text' with
    | nil => simp at hlength
    | cons c' cs' =>
      rw [List.cons_append, List.cons_append]
      rcases List.cons_lt_cons_iff.mp h with hlt | ⟨rfl, hlt⟩
      · exact List.cons_lt_cons_iff.mpr (Or.inl hlt)
      · exact List.cons_lt_cons_iff.mpr (Or.inr ⟨rfl, ih (by simpa using hlength) hlt⟩)

/-- Texts of one width are ordered as their numbers. -/
theorem padded_lt {m width : Nat} (hbase : 0 < radix) (hradix : radix ≤ 16) (h : m < n)
    (hn : n < radix ^ width) : padded radix width m < padded radix width n := by
  induction width generalizing m n with
  | zero => simp at hn; omega
  | succ width ih =>
    have hquot : n / radix < radix ^ width := by
      rw [Nat.div_lt_iff_lt_mul hbase, ← Nat.pow_succ]
      exact hn
    have hm := Nat.div_add_mod m radix
    have hd := Nat.div_add_mod n radix
    rcases Nat.lt_or_ge (m / radix) (n / radix) with hlt | hge
    · exact append_lt_append (by simp) (ih hlt hquot)
    · have heq : m / radix = n / radix := Nat.le_antisymm (Nat.div_le_div_right h.le) hge
      have hlast : m % radix < n % radix := by
        rw [heq] at hm
        omega
      unfold padded
      rw [heq]
      apply List.append_left_lt
      apply List.Lex.rel
      have := Nat.mod_lt n hbase
      exact digitChar_lt hlast (by omega)

/-- A field of a fixed width decides the order, and the rest decides between equal fields. -/
theorem padded_append_lt {m width : Nat} {rest' : List Char} (hbase : 0 < radix)
    (hradix : radix ≤ 16) (hn : n < radix ^ width) (h : m < n ∨ m = n ∧ rest < rest') :
    padded radix width m ++ rest < padded radix width n ++ rest' := by
  rcases h with hlt | ⟨rfl, hrest⟩
  · exact append_lt_append (by simp) (padded_lt hbase hradix hlt hn)
  · exact List.append_left_lt hrest

theorem mem_padded {width : Nat} {c : Char} (hbase : 0 < radix) (hc : c ∈ padded radix width n) :
    ∃ d < radix, c = Nat.digitChar d := by
  induction width generalizing n with
  | zero => simp [padded] at hc
  | succ width ih =>
    rcases List.mem_append.mp hc with hc | hc
    · exact ih hc
    · exact ⟨n % radix, Nat.mod_lt n hbase, List.mem_singleton.mp hc⟩

theorem padded_add (radix n width low : Nat) :
    padded radix (width + low) n = padded radix width (n / radix ^ low) ++ padded radix low n := by
  induction low generalizing n with
  | zero => simp [padded]
  | succ low ih =>
    rw [← Nat.add_assoc, padded, padded, ih, Nat.div_div_eq_div_mul, ← Nat.pow_succ',
      List.append_assoc]

theorem padded_mod (radix n width : Nat) : padded radix width (n % radix ^ width) = padded radix width n := by
  induction width generalizing n with
  | zero => rfl
  | succ width ih =>
    have hquot : n % radix ^ (width + 1) / radix = n / radix % radix ^ width := by
      rw [Nat.pow_succ', Nat.mod_mul_right_div_self]
    have hlast : n % radix ^ (width + 1) % radix = n % radix :=
      Nat.mod_mod_of_dvd n ⟨radix ^ width, Nat.pow_succ'⟩
    rw [padded, padded, hquot, hlast, ih]

theorem padded_head (n width : Nat) (hbase : 0 < radix) :
    ∃ d rest, d < radix ∧ padded radix (width + 1) n = Nat.digitChar d :: rest := by
  induction width generalizing n with
  | zero => exact ⟨n % radix, [], Nat.mod_lt n hbase, rfl⟩
  | succ width ih =>
    obtain ⟨d, rest, hd, heq⟩ := ih (n / radix)
    exact ⟨d, rest ++ [Nat.digitChar (n % radix)], hd, by rw [padded, heq, List.cons_append]⟩

end Numerals

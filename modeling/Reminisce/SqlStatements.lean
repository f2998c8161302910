import Reminisce.AiDescriptions

namespace Reminisce

/-- A text without placeholders. -/
def noDollar (s : String) : Bool := s.toList.all (· ≠ '$')

/-- Such a text that can follow a placeholder. -/
def isPlain (s : String) : Bool := noDollar s && !s.toList.head?.any Char.isDigit

theorem noDollar_ofList {cs : List Char} (h : cs.all (· ≠ '$')) : noDollar (String.ofList cs) := by
  rw [noDollar, String.toList_ofList, h]

theorem isPlain_ofList {cs : List Char} (h : cs.all (· ≠ '$') && !cs.head?.any Char.isDigit) :
    isPlain (String.ofList cs) := by
  rw [isPlain, noDollar, String.toList_ofList, h]

theorem noDollar_append {s t : String} (hs : noDollar s) (ht : noDollar t) : noDollar (s ++ t) := by
  unfold noDollar at *
  rw [String.toList_append, List.all_append, hs, ht]
  rfl

/-- What the text around a placeholder asks for. -/
inductive Slot
  | user
  | embedding
  | queryText
  | perBranchLimit
  | limit
  | offset
  | device
  | label
  | startDate
  | endDate
  | lon
  | lat
  deriving DecidableEq, Repr

inductive SqlValue
  | uuid (userId : UserId)
  | vector (coordinates : List Rat)
  | text (s : String)
  | int4 (n : Int)
  | int8 (n : Int)
  | timestamptz (seconds : Int)
  | float8 (x : Rat)
  deriving DecidableEq, Repr

/-- A part of a statement: text, or `$n`. -/
inductive SqlPiece
  | text (s : String) (plain : isPlain s)
  | param (slot : Slot) (n : Nat)

abbrev Sql := List SqlPiece

def sqlText (s : String) (plain : isPlain s := by exact isPlain_ofList rfl) :
    SqlPiece := .text s plain

/-- A condition of a `WHERE` clause, which starts with text. -/
structure SqlCondition where
  lead : String
  noDollar : noDollar lead
  rest : Sql

def sqlCondition (lead : String) (rest : Sql)
    (h : noDollar lead := by exact noDollar_ofList rfl) : SqlCondition :=
  ⟨lead, h, rest⟩

theorem isPlain_append {s t : String} (hs : isPlain s) (ht : noDollar t) (hne : s ≠ "") :
    isPlain (s ++ t) := by
  unfold isPlain at *
  simp only [Bool.and_eq_true] at hs ⊢
  refine ⟨noDollar_append hs.1 ht, ?_⟩
  rw [String.toList_append]
  cases hcs : s.toList with
  | nil => exact absurd (String.toList_eq_nil_iff.mp hcs) hne
  | cons c cs =>
    rw [hcs] at hs
    exact hs.2

/-- `WHERE` and the conditions, with `AND` between them. -/
def whereClause : List SqlCondition → Sql
  | [] => []
  | first :: others =>
    .text ("WHERE " ++ first.lead)
        (isPlain_append (isPlain_ofList rfl) first.noDollar (by decide)) ::
      first.rest ++
        others.flatMap fun c =>
          .text (" AND " ++ c.lead)
            (isPlain_append (isPlain_ofList rfl) c.noDollar (by decide)) :: c.rest

namespace SqlPiece

def render : SqlPiece → List Char
  | text s _ => s.toList
  | param _ n => '$' :: Nat.toDigits 10 n

def slot? : SqlPiece → Option (Slot × Nat)
  | text _ _ => none
  | param slot n => some (slot, n)

end SqlPiece

/-- The placeholders of a statement. -/
def Sql.slots (sql : Sql) : List (Slot × Nat) := sql.filterMap SqlPiece.slot?

@[simp] theorem Sql.slots_nil : Sql.slots [] = [] := rfl

@[simp] theorem Sql.slots_text (s : String) (plain : isPlain s) (rest : Sql) :
    Sql.slots (.text s plain :: rest) = Sql.slots rest := rfl

@[simp] theorem Sql.slots_sqlText (s : String) (plain : isPlain s) (rest : Sql) :
    Sql.slots (sqlText s plain :: rest) = Sql.slots rest := rfl

@[simp] theorem Sql.slots_param (slot : Slot) (n : Nat) (rest : Sql) :
    Sql.slots (.param slot n :: rest) = (slot, n) :: Sql.slots rest := rfl

@[simp] theorem Sql.slots_append (a b : Sql) : Sql.slots (a ++ b) = Sql.slots a ++ Sql.slots b :=
  List.filterMap_append

theorem slots_whereClause (conds : List SqlCondition) :
    Sql.slots (whereClause conds) = conds.flatMap fun c => Sql.slots c.rest := by
  cases conds with
  | nil => rfl
  | cons first others =>
    rw [whereClause, List.cons_append, Sql.slots_text, Sql.slots_append, List.flatMap_cons]
    congr 1
    exact List.filterMap_flatMap

def Sql.text (sql : Sql) : List Char := sql.flatMap SqlPiece.render

/-- A statement and the parameters it is executed with. -/
structure SqlStatement where
  sql : Sql
  params : List SqlValue

/-- The placeholders in the text are `$1` to `$n`, for `n` parameters, and each stands for the value
that the text around it asks for. -/
def SqlStatement.Matches (st : SqlStatement) (wanted : Slot → Option SqlValue) : Prop :=
  (∀ i, i ∈ placeholders st.sql.text ↔ 1 ≤ i ∧ i ≤ st.params.length) ∧
    ∀ slot n, (slot, n) ∈ st.sql.slots → ∃ v, wanted slot = some v ∧ st.params[n - 1]? = some v

theorem placeholders_append {cs : List Char} (h : cs.all (· ≠ '$')) (rest : List Char) :
    placeholders (cs ++ rest) = placeholders rest := by
  induction cs with
  | nil => rfl
  | cons c cs ih =>
    simp only [List.all_cons, Bool.and_eq_true, decide_eq_true_eq] at h
    rw [List.cons_append, placeholders.eq_3 _ _ h.1, ih h.2]

theorem value_toDigits (n : Nat) :
    (Nat.toDigits 10 n).foldl (fun n c => n * 10 + (c.toNat - '0'.toNat)) 0 = n := by
  have hvalue := Nat.ofDigitChars_toDigits (b := 10) (n := n) (by decide) (by decide)
  rw [Nat.ofDigitChars_eq_foldl] at hvalue
  simpa only [Nat.mul_comm] using hvalue

theorem isDigit_toDigits {n : Nat} {c : Char} (h : c ∈ Nat.toDigits 10 n) : c.isDigit :=
  Nat.isDigit_of_mem_toDigits (by decide) (by decide) h

/-- A text that can follow a placeholder leaves its number as it is. -/
theorem placeholders_param (n : Nat) {rest : List Char} (h : rest.head?.all (!·.isDigit)) :
    placeholders (('$' :: Nat.toDigits 10 n) ++ rest) = n :: placeholders rest := by
  have hdigits : (Nat.toDigits 10 n ++ rest).takeWhile Char.isDigit = Nat.toDigits 10 n := by
    rw [List.takeWhile_append_of_pos fun c hc => isDigit_toDigits hc]
    cases rest with
    | nil => simp
    | cons c cs =>
      have hc : c.isDigit = false := by simpa using h
      rw [List.takeWhile_cons_of_neg (by simp [hc]), List.append_nil]
  have hnone : (Nat.toDigits 10 n).all (· ≠ '$') := by
    rw [List.all_eq_true]
    intro c hc
    have hdigit := isDigit_toDigits hc
    refine decide_eq_true ?_
    rintro rfl
    exact absurd hdigit (by decide)
  rw [List.cons_append, placeholders, hdigits, value_toDigits, placeholders_append hnone]

namespace Sql

theorem text_cons (piece : SqlPiece) (sql : Sql) : text (piece :: sql) = piece.render ++ text sql :=
  List.flatMap_cons

theorem text_head (sql : Sql) : (text sql).head?.all (!·.isDigit) := by
  induction sql with
  | nil => rfl
  | cons piece sql ih =>
    rw [text_cons]
    cases piece with
    | text s plain =>
      rw [SqlPiece.render]
      cases hs : s.toList with
      | nil => exact ih
      | cons c cs =>
        have hhead := (Bool.and_eq_true_iff.mp plain).2
        rw [hs] at hhead
        simpa using hhead
    | param slot n => rfl

/-- The text has exactly the placeholders that it was put together from. -/
theorem placeholders_text (sql : Sql) : placeholders (text sql) = (slots sql).map Prod.snd := by
  induction sql with
  | nil => rfl
  | cons piece sql ih =>
    rw [text_cons]
    cases piece with
    | text s plain =>
      rw [SqlPiece.render, placeholders_append (Bool.and_eq_true_iff.mp plain).1, ih]
      rfl
    | param slot n =>
      rw [SqlPiece.render, placeholders_param n (text_head sql), ih]
      rfl

end Sql

/-- A placeholder has the number of its slot. -/
def Placed (order : List Slot) (p : Slot × Nat) : Prop := 1 ≤ p.2 ∧ order[p.2 - 1]? = some p.1

/-- Every placeholder has the number of its slot, and every number is used. -/
def Numbers (slots : List (Slot × Nat)) (order : List Slot) : Prop :=
  (∀ p ∈ slots, Placed order p) ∧ ∀ n < order.length, ∃ s, (s, n + 1) ∈ slots

section Numbering

variable {order : List Slot} {wanted : Slot → Option SqlValue} {st : SqlStatement}
  {slots slots' : List (Slot × Nat)} {p : Slot × Nat} {s : Slot}

theorem Placed.append (h : Placed order p) (more : List Slot) : Placed (order ++ more) p := by
  obtain ⟨hlt, -⟩ := List.getElem?_eq_some_iff.mp h.2
  exact ⟨h.1, (List.getElem?_append_left hlt).trans h.2⟩

theorem placed_last (order : List Slot) (s : Slot) :
    Placed (order ++ [s]) (s, order.length + 1) :=
  ⟨Nat.le_add_left 1 _, by simp⟩

/-- A further slot takes the next number. -/
theorem Numbers.concat (h : Numbers slots order)
    (hmem : ∀ p, p ∈ slots' ↔ p ∈ slots ∨ p = (s, order.length + 1)) :
    Numbers slots' (order ++ [s]) := by
  refine ⟨fun p hp => ?_, fun n hn => ?_⟩
  · rcases (hmem p).mp hp with hp | rfl
    · exact (h.1 p hp).append [s]
    · exact placed_last order s
  · rw [List.length_append, List.length_singleton] at hn
    rcases Nat.lt_or_ge n order.length with hlt | hge
    · obtain ⟨s', hs'⟩ := h.2 n hlt
      exact ⟨s', (hmem _).mpr (Or.inl hs')⟩
    · refine ⟨s, (hmem _).mpr (Or.inr ?_)⟩
      rw [show n = order.length by omega]

/-- The slots of an order with their numbers. -/
theorem numbers_zipIdx (order : List Slot) : Numbers (order.zipIdx 1) order := by
  refine ⟨fun p hp => List.mk_mem_zipIdx_iff_le_and_getElem?_sub.mp hp, fun n hn => ?_⟩
  exact ⟨order[n], List.mk_mem_zipIdx_iff_le_and_getElem?_sub.mpr
    ⟨by omega, List.getElem?_eq_getElem hn⟩⟩

/-- A number can be used again. -/
theorem Numbers.again (h : Numbers slots order) (hsub : slots ⊆ slots')
    (hplaced : ∀ p ∈ slots', Placed order p) : Numbers slots' order := by
  refine ⟨hplaced, fun n hn => ?_⟩
  obtain ⟨s, hs⟩ := h.2 n hn
  exact ⟨s, hsub hs⟩

/-- Every slot that is counted is used. -/
theorem Numbers.exists_mem (h : Numbers slots order) (hs : s ∈ order) : ∃ n, (s, n) ∈ slots := by
  obtain ⟨n, hn, rfl⟩ := List.mem_iff_getElem.mp hs
  obtain ⟨s, hused⟩ := h.2 n hn
  have hget := (h.1 _ hused).2
  simp only [Nat.add_sub_cancel, List.getElem?_eq_getElem hn, Option.some.injEq] at hget
  exact ⟨n + 1, hget ▸ hused⟩

theorem length_filterMap_wanted (h : ∀ s ∈ order, (wanted s).isSome) :
    (order.filterMap wanted).length = order.length := by
  induction order with
  | nil => rfl
  | cons s order ih =>
    obtain ⟨v, hv⟩ := Option.isSome_iff_exists.mp (h s List.mem_cons_self)
    rw [List.filterMap_cons_some hv, List.length_cons, List.length_cons,
      ih fun s hs => h s (List.mem_cons_of_mem _ hs)]

theorem getElem?_filterMap_wanted (h : ∀ s ∈ order, (wanted s).isSome) (i : Nat) :
    (order.filterMap wanted)[i]? = order[i]?.bind wanted := by
  induction order generalizing i with
  | nil => rfl
  | cons s order ih =>
    obtain ⟨v, hv⟩ := Option.isSome_iff_exists.mp (h s List.mem_cons_self)
    rw [List.filterMap_cons_some hv]
    cases i with
    | zero => simp [hv]
    | succ i => simpa using ih (fun s hs => h s (List.mem_cons_of_mem _ hs)) i

/-- A statement that numbers its slots in the order in which it pushes their values matches its
parameters if every slot has a value and every number is used. -/
theorem SqlStatement.matches_iff (hparams : st.params = order.filterMap wanted)
    (hplaced : ∀ p ∈ st.sql.slots, Placed order p)
    (hwanted : ∀ s ∈ order, (wanted s).isSome ∨ ∃ n, (s, n) ∈ st.sql.slots) :
    st.Matches wanted ↔ (∀ s ∈ order, (wanted s).isSome) ∧
      ∀ n < order.length, ∃ s, (s, n + 1) ∈ st.sql.slots := by
  have hmem : ∀ i, i ∈ placeholders st.sql.text ↔ ∃ s, (s, i) ∈ st.sql.slots := by
    intro i
    rw [Sql.placeholders_text, List.mem_map]
    constructor
    · rintro ⟨p, hp, rfl⟩
      exact ⟨p.1, hp⟩
    · rintro ⟨s, hs⟩
      exact ⟨(s, i), hs, rfl⟩
  constructor
  · rintro ⟨hnumbers, hbound⟩
    have hall : ∀ s ∈ order, (wanted s).isSome := by
      intro s hs
      rcases hwanted s hs with hsome | ⟨n, hn⟩
      · exact hsome
      · obtain ⟨v, hv, -⟩ := hbound s n hn
        rw [hv]
        rfl
    refine ⟨hall, fun n hn => (hmem (n + 1)).mp ((hnumbers (n + 1)).mpr ?_)⟩
    rw [hparams, length_filterMap_wanted hall]
    omega
  · rintro ⟨hall, hused⟩
    have hlength : st.params.length = order.length := by
      rw [hparams, length_filterMap_wanted hall]
    refine ⟨fun i => ?_, fun slot n hn => ?_⟩
    · rw [hmem, hlength]
      constructor
      · rintro ⟨s, hs⟩
        obtain ⟨hpos, hget⟩ := hplaced (s, i) hs
        obtain ⟨hlt, -⟩ := List.getElem?_eq_some_iff.mp hget
        simp only at hpos hlt
        omega
      · rintro ⟨hpos, hle⟩
        obtain ⟨s, hs⟩ := hused (i - 1) (by omega)
        exact ⟨s, by rwa [Nat.sub_add_cancel hpos] at hs⟩
    · obtain ⟨-, hget⟩ := hplaced (slot, n) hn
      obtain ⟨v, hv⟩ := Option.isSome_iff_exists.mp (hall slot (List.mem_of_getElem? hget))
      refine ⟨v, hv, ?_⟩
      rw [hparams, getElem?_filterMap_wanted hall, hget]
      exact hv

theorem SqlStatement.matches_iff_of_numbers (hparams : st.params = order.filterMap wanted)
    (h : Numbers st.sql.slots order) :
    st.Matches wanted ↔ ∀ s ∈ order, (wanted s).isSome := by
  rw [matches_iff hparams h.1 fun s hs => Or.inr (h.exists_mem hs)]
  exact and_iff_left h.2

/-- A statement without placeholders has no parameters. -/
theorem SqlStatement.not_matches (hslots : st.sql.slots = []) (hparams : st.params ≠ []) :
    ¬st.Matches wanted := by
  rintro ⟨hnumbers, -⟩
  have hone := (hnumbers 1).mpr ⟨le_rfl, List.length_pos_iff.mpr hparams⟩
  rw [Sql.placeholders_text, hslots] at hone
  exact List.not_mem_nil hone

end Numbering

end Reminisce

import Mathlib.Algebra.Group.Nat.Defs
import Mathlib.Data.List.Induction

namespace Der

abbrev Octets := List UInt8

/-- The number that octets spell in base 256. -/
def number (octets : Octets) : Nat := octets.foldl (fun n b => n * 256 + b.toNat) 0

/-- A definite length: in one octet if it is below 128, else a count of one to four octets and
then these. -/
inductive SpellsLength : Nat → Octets → Prop
  | short (n : Nat) (h : n < 128) : SpellsLength n [UInt8.ofNat n]
  | long (digits : Octets) (hpos : 0 < digits.length) (hle : digits.length ≤ 4) :
      SpellsLength (number digits) (UInt8.ofNat (128 + digits.length) :: digits)

/-- An element with the octets that spell the length of its content. -/
structure Element where
  tag : UInt8
  lengthOctets : Octets
  content : Octets
  spells : SpellsLength content.length lengthOctets

def Element.octets (e : Element) : Octets := e.tag :: (e.lengthOctets ++ e.content)

/-- The element whose length takes one octet. -/
def Element.short (tag : UInt8) (content : Octets) (h : content.length < 128) : Element :=
  ⟨tag, [UInt8.ofNat content.length], content, .short _ h⟩

def octetsOf (es : List Element) : Octets := es.flatMap Element.octets

/-- Tag, start and length of the content of an element that stands at a position. -/
def Element.place (start : Nat) (e : Element) : UInt8 × Nat × Nat :=
  (e.tag, start + 1 + e.lengthOctets.length, e.content.length)

/-- The places of elements that stand one after the other. -/
def places : Nat → List Element → List (UInt8 × Nat × Nat)
  | _, [] => []
  | start, e :: es => e.place start :: places (start + e.octets.length) es

/-- The tag of a SEQUENCE. -/
def sequenceTag : UInt8 := 0x30

/-- The element is a SEQUENCE of these. -/
structure Element.IsSequence (e : Element) (es : List Element) : Prop where
  tag : e.tag = sequenceTag
  content : e.content = octetsOf es

/-- The element stands at this position of the octets. -/
def Stands (octets : Octets) (pos : Nat) (e : Element) : Prop :=
  ∃ before after, octets = before ++ e.octets ++ after ∧ before.length = pos

variable {e inner : Element} {es : List Element} {start pos : Nat} {octets : Octets}

theorem number_append (octets : Octets) (b : UInt8) :
    number (octets ++ [b]) = number octets * 256 + b.toNat := by
  simp [number]

theorem number_lt (octets : Octets) : number octets < 256 ^ octets.length := by
  induction octets using List.reverseRecOn with
  | nil => decide
  | append_singleton octets b ih =>
    have hb := b.toNat_lt
    rw [number_append, List.length_append, List.length_singleton, Nat.pow_succ]
    omega

theorem SpellsLength.lt {n : Nat} {octets : Octets} (h : SpellsLength n octets) : n < 2 ^ 32 := by
  cases h with
  | short _ h => omega
  | long digits _ hle =>
    have hpow : 256 ^ digits.length ≤ 256 ^ 4 := Nat.pow_le_pow_right (by decide) hle
    exact Nat.lt_of_lt_of_le (number_lt digits) hpow

theorem SpellsLength.length_le {n : Nat} {octets : Octets} (h : SpellsLength n octets) :
    octets.length ≤ 5 := by
  cases h with
  | short _ h => exact Nat.le_add_left 1 4
  | long digits _ hle => exact Nat.succ_le_succ hle

theorem Element.length_octets (e : Element) :
    e.octets.length = 1 + e.lengthOctets.length + e.content.length := by
  simp only [Element.octets, List.length_cons, List.length_append]
  omega

@[simp] theorem Element.length_short (tag : UInt8) (content : Octets) (h : content.length < 128) :
    (Element.short tag content h).octets.length = 2 + content.length := by
  rw [Element.length_octets]
  rfl

theorem Element.length_octets_lt (e : Element) : e.octets.length < 2 ^ 33 := by
  have hn := e.spells.lt
  have ho := e.spells.length_le
  rw [e.length_octets]
  omega

@[simp] theorem octetsOf_nil : octetsOf [] = [] := rfl

@[simp] theorem octetsOf_cons : octetsOf (e :: es) = e.octets ++ octetsOf es := rfl

@[simp] theorem length_places : (places start es).length = es.length := by
  induction es generalizing start with
  | nil => rfl
  | cons e es ih => simp [places, ih]

/-- The place of an element is the one behind the octets before it. -/
theorem getElem?_places {i : Nat} (h : es[i]? = some e) :
    ∃ before after, es = before ++ e :: after ∧ before.length = i ∧
      (places start es)[i]? = some (e.place (start + (octetsOf before).length)) := by
  induction es generalizing start i with
  | nil => simp at h
  | cons first es ih =>
    cases i with
    | zero =>
      cases Option.some.inj h
      exact ⟨[], es, rfl, rfl, by simp [places]⟩
    | succ i =>
      obtain ⟨before, after, rfl, hlen, hplace⟩ := @ih (start + first.octets.length) i h
      refine ⟨first :: before, after, rfl, by simp [hlen], ?_⟩
      rw [octetsOf_cons, List.length_append, ← Nat.add_assoc]
      exact hplace

/-- An element stands before and after other octets, and so does its content. -/
theorem Stands.content (h : Stands octets pos e) :
    ∃ before after, octets = before ++ e.content ++ after ∧
      before.length = (e.place pos).2.1 := by
  obtain ⟨before, after, rfl, rfl⟩ := h
  refine ⟨before ++ e.tag :: e.lengthOctets, after, by simp [Element.octets], ?_⟩
  simp only [Element.place, List.length_append, List.length_cons]
  omega

theorem Stands.take_content (h : Stands octets pos e) :
    (octets.drop (e.place pos).2.1).take (e.place pos).2.2 = e.content := by
  obtain ⟨before, after, rfl, hlen⟩ := h.content
  rw [← hlen, List.append_assoc, List.drop_left]
  exact List.take_left

theorem Stands.end_le (h : Stands octets pos e) :
    (e.place pos).2.1 + (e.place pos).2.2 ≤ octets.length := by
  obtain ⟨before, after, rfl, hlen⟩ := h.content
  rw [← hlen, List.length_append, List.length_append]
  exact Nat.le_add_right _ _

theorem Stands.end_eq (pos : Nat) (e : Element) :
    (e.place pos).2.1 + (e.place pos).2.2 = pos + e.octets.length := by
  rw [e.length_octets]
  simp only [Element.place]
  omega

theorem length_le_octetsOf (es : List Element) : es.length ≤ (octetsOf es).length := by
  induction es with
  | nil => exact Nat.le_refl 0
  | cons e es ih =>
    have := e.length_octets
    rw [octetsOf_cons, List.length_append, List.length_cons]
    omega

/-- The elements of a sequence stand in it. -/
theorem Stands.child (h : Stands octets pos e) (hcontent : e.content = octetsOf es) {i : Nat}
    (hinner : es[i]? = some inner) : ∃ place, Stands octets place inner ∧
      place + inner.octets.length ≤ pos + e.octets.length ∧
      (places (e.place pos).2.1 es)[i]? = some (inner.place place) := by
  obtain ⟨first, last, rfl, hlen⟩ := h.content
  obtain ⟨before, after, rfl, -, hplace⟩ := @getElem?_places inner es (e.place pos).2.1 i hinner
  refine ⟨_, ⟨first ++ octetsOf before, octetsOf after ++ last, ?_, ?_⟩, ?_, hplace⟩
  · rw [hcontent]
    simp [octetsOf]
  · rw [List.length_append, hlen]
  · rw [← Stands.end_eq pos e]
    simp only [Element.place, hcontent, octetsOf, List.flatMap_append, List.flatMap_cons,
      List.length_append]
    omega

end Der

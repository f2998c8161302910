import Mathlib.Algebra.Group.Nat.Defs
import Mathlib.Data.Nat.Init

namespace ByteVecs

/-- The largest allocation. -/
def isizeMax : Nat := 2 ^ 63 - 1

/-- A growable vector of bytes, with the room that is allocated for it. -/
structure ByteVec where
  bytes : List UInt8
  capacity : Nat
  fits : bytes.length ≤ capacity
  small : capacity ≤ isizeMax

/-- The vector doubles when it grows. -/
def grownTo (capacity needed : Nat) : Nat := max 8 (max (2 * capacity) needed)

/-- Chunks of these lengths can be appended one after the other. -/
def Room : (capacity length : Nat) → List Nat → Prop
  | _, _, [] => True
  | capacity, length, n :: ns =>
    if length + n ≤ capacity then Room capacity (length + n) ns
    else grownTo capacity (length + n) ≤ isizeMax ∧
      Room (grownTo capacity (length + n)) (length + n) ns

namespace ByteVec

def withCapacity (capacity : Nat) : Option ByteVec :=
  if h : capacity ≤ isizeMax then some ⟨[], capacity, Nat.zero_le capacity, h⟩ else none

def extendFromSlice (v : ByteVec) (chunk : List UInt8) : Option ByteVec :=
  if hfits : (v.bytes ++ chunk).length ≤ v.capacity then some ⟨_, v.capacity, hfits, v.small⟩
  else if hsmall : grownTo v.capacity (v.bytes ++ chunk).length ≤ isizeMax then
    some ⟨v.bytes ++ chunk, _, Nat.le_trans (Nat.le_max_right _ _) (Nat.le_max_right _ _), hsmall⟩
  else none

/-- There is room for the rest behind a chunk that has been appended. -/
def RoomFor (v : ByteVec) (lengths : List Nat) : Prop := Room v.capacity v.bytes.length lengths

variable {v w : ByteVec} {chunk : List UInt8} {lengths : List Nat}

theorem roomFor_nil : v.RoomFor [] := trivial

theorem withCapacity_eq_none {capacity : Nat} :
    withCapacity capacity = none ↔ isizeMax < capacity := by
  unfold withCapacity
  split
  next h => exact iff_of_false (by simp) (Nat.not_lt.mpr h)
  next h => exact iff_of_true rfl (Nat.not_le.mp h)

theorem withCapacity_some {capacity : Nat} (h : withCapacity capacity = some v) :
    v.bytes = [] ∧ v.capacity = capacity := by
  unfold withCapacity at h
  split at h
  next =>
    cases Option.some.inj h
    exact ⟨rfl, rfl⟩
  next => simp at h

theorem roomFor_cons : v.RoomFor (chunk.length :: lengths) ↔
    if (v.bytes ++ chunk).length ≤ v.capacity then
      Room v.capacity (v.bytes ++ chunk).length lengths
    else grownTo v.capacity (v.bytes ++ chunk).length ≤ isizeMax ∧
      Room (grownTo v.capacity (v.bytes ++ chunk).length) (v.bytes ++ chunk).length lengths := by
  rw [List.length_append]
  exact Iff.rfl

/-- A chunk is appended if there is room for it. -/
theorem extendFromSlice_some (h : v.extendFromSlice chunk = some w) :
    w.bytes = v.bytes ++ chunk ∧ (v.RoomFor (chunk.length :: lengths) ↔ w.RoomFor lengths) := by
  unfold extendFromSlice at h
  rw [roomFor_cons]
  split at h
  next hfits =>
    cases Option.some.inj h
    rw [if_pos hfits]
    exact ⟨rfl, Iff.rfl⟩
  next hfits =>
    split at h
    next hsmall =>
      cases Option.some.inj h
      rw [if_neg hfits, and_iff_right hsmall]
      exact ⟨rfl, Iff.rfl⟩
    next => simp at h

theorem extendFromSlice_none (h : v.extendFromSlice chunk = none) :
    ¬v.RoomFor (chunk.length :: lengths) := by
  unfold extendFromSlice at h
  rw [roomFor_cons]
  split at h
  next => simp at h
  next hfits =>
    split at h
    next => simp at h
    next hsmall =>
      rw [if_neg hfits]
      exact fun hroom => hsmall hroom.1

end ByteVec

end ByteVecs

import Mathlib.Data.List.Basic
import Reminisce.Library.ByteOrder

namespace Bincode

open ByteOrder

/-- A byte vector behind its length. -/
def vec (data : Octets) : Octets := toLe 8 data.length ++ data

/-- An optional byte vector behind a byte that says whether it is there. -/
def optionVec : Option Octets → Octets
  | none => [0]
  | some data => 1 :: vec data

def readUint : (width : Nat) → Octets → Option (Nat × Octets)
  | 0, octets => some (0, octets)
  | _ + 1, [] => none
  | width + 1, b :: octets =>
    (readUint width octets).map fun r => (b.toNat + 256 * r.1, r.2)

/-- The next so many bytes. -/
def readExact (n : Nat) (octets : Octets) : Option (Octets × Octets) :=
  if n ≤ octets.length then some (octets.take n, octets.drop n) else none

def readVec (octets : Octets) : Option (Octets × Octets) :=
  (readUint 8 octets).bind fun r => readExact r.1 r.2

def readOptionVec : Octets → Option (Option Octets × Octets)
  | 0 :: rest => some (none, rest)
  | 1 :: rest => (readVec rest).map fun r => (some r.1, r.2)
  | _ => none

variable {n width : Nat} {data rest : Octets}

@[simp] theorem length_vec (data : Octets) : (vec data).length = 8 + data.length := by
  rw [vec, List.length_append, length_toLe]

/-- A number that fits is read back. -/
theorem readUint_toLe (h : n < 256 ^ width) (rest : Octets) :
    readUint width (toLe width n ++ rest) = some (n, rest) := by
  induction width generalizing n with
  | zero =>
    obtain rfl : n = 0 := Nat.lt_one_iff.mp h
    rfl
  | succ width ih =>
    have hsmall : n / 256 < 256 ^ width := by
      rw [Nat.pow_succ] at h
      omega
    have hmod : (UInt8.ofNat n).toNat = n % 256 := by simp
    rw [toLe, List.cons_append, readUint, ih hsmall, Option.map_some, hmod, Nat.mod_add_div]

theorem readExact_append (data rest : Octets) :
    readExact data.length (data ++ rest) = some (data, rest) := by
  rw [readExact, if_pos (by simp), List.take_left, List.drop_left]

theorem readVec_vec (h : data.length < 2 ^ 64) (rest : Octets) :
    readVec (vec data ++ rest) = some (data, rest) := by
  rw [readVec, vec, List.append_assoc, readUint_toLe (by simpa using h), Option.bind_some,
    readExact_append]

theorem readOptionVec_some (h : data.length < 2 ^ 64) (rest : Octets) :
    readOptionVec (optionVec (some data) ++ rest) = some (some data, rest) := by
  rw [optionVec, List.cons_append, readOptionVec, readVec_vec h, Option.map_some]

end Bincode

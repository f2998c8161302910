import Mathlib.Data.Int.Init
import Mathlib.Data.List.Induction
import Mathlib.Tactic.Ring

namespace Reminisce

/-- `as i32` of an unsigned integer. -/
@[irreducible] def asI32 (n : Nat) : Int := Int.bmod n (2 ^ 32)

/-- `as i64` of an unsigned integer. -/
@[irreducible] def asI64 (n : Nat) : Int := Int.bmod n (2 ^ 64)

/-- `as usize` of a signed integer. -/
@[irreducible] def asUsize (x : Int) : Nat := (x % 2 ^ 64).toNat

/-- An unsigned integer of a width, `none` where a number does not fit. -/
def checkedUint (width n : Nat) : Option Nat := if n < 2 ^ width then some n else none

theorem asI32_of_lt {n : Nat} (h : n < 2 ^ 31) : asI32 n = n := by
  unfold asI32
  rw [Int.bmod_eq_of_le] <;> omega

theorem asI64_of_lt {n : Nat} (h : n < 2 ^ 63) : asI64 n = n := by
  unfold asI64
  rw [Int.bmod_eq_of_le] <;> omega

theorem asUsize_natCast {n : Nat} (h : n < 2 ^ 64) : asUsize n = n := by
  unfold asUsize
  omega

theorem asUsize_asI32 {n : Nat} (h : n < 2 ^ 31) : asUsize (asI32 n) = n := by
  rw [asI32_of_lt h, asUsize_natCast (by omega)]

theorem asUsize_asI64 {n : Nat} (h : n < 2 ^ 63) : asUsize (asI64 n) = n := by
  rw [asI64_of_lt h, asUsize_natCast (by omega)]

theorem checkedUint_of_lt {width n : Nat} (h : n < 2 ^ width) : checkedUint width n = some n :=
  if_pos h

theorem checkedUint_eq_none {width n : Nat} (h : 2 ^ width ≤ n) : checkedUint width n = none :=
  if_neg (by omega)

theorem isSome_checkedUint {width n : Nat} : (checkedUint width n).isSome ↔ n < 2 ^ width := by
  unfold checkedUint
  split <;> simp_all

theorem exists_checkedUint_map {A : Type} (width n : Nat) (f : Nat → A) (p : A → Prop) :
    (∃ a, (checkedUint width n).map f = some a ∧ p a) ↔ n < 2 ^ width ∧ p (f n) := by
  unfold checkedUint
  split <;> simp_all

/-- `u32::to_le_bytes`. -/
def toLeBytes32 (n : Nat) : List UInt8 :=
  (List.range 4).map fun i => UInt8.ofNat (n / 256 ^ i)

/-- `u64::to_be_bytes` and its shorter relatives: `width` bytes, most significant first. -/
def toBeBytes (width n : Nat) : List UInt8 :=
  (List.range width).map fun i => UInt8.ofNat (n / 256 ^ (width - 1 - i))

@[simp] theorem length_toBeBytes (width n : Nat) : (toBeBytes width n).length = width := by
  simp [toBeBytes]

theorem toBeBytes_succ (width n : Nat) :
    toBeBytes (width + 1) n = toBeBytes width (n / 256) ++ [UInt8.ofNat n] := by
  unfold toBeBytes
  rw [List.range_succ, List.map_append, List.map_singleton]
  congr 1
  · refine List.map_congr_left fun i hi => ?_
    have hlt := List.mem_range.mp hi
    rw [Nat.div_div_eq_div_mul, ← Nat.pow_succ',
      show width + 1 - 1 - i = (width - 1 - i).succ by omega]
  · simp

/-- Every byte string of the width is the encoding of a number that fits. -/
theorem exists_toBeBytes (bs : List UInt8) :
    ∃ n < 256 ^ bs.length, toBeBytes bs.length n = bs := by
  induction bs using List.reverseRecOn with
  | nil => exact ⟨0, by simp, rfl⟩
  | append_singleton bs b ih =>
    obtain ⟨n, hn, heq⟩ := ih
    have hb := b.toNat_lt
    refine ⟨n * 256 + b.toNat, ?_, ?_⟩
    · rw [List.length_append, List.length_singleton, Nat.pow_succ]
      omega
    · rw [List.length_append, List.length_singleton, toBeBytes_succ,
        show (n * 256 + b.toNat) / 256 = n by omega, heq]
      congr 2
      exact UInt8.toNat_inj.mp (by simp)

end Reminisce

import Mathlib.Data.List.Basic
import Mathlib.Data.UInt

namespace Hex

/-- The lower-case digit of a value below sixteen. -/
def digit (n : Nat) : Char :=
  if n < 10 then Char.ofNat (48 + n) else Char.ofNat (87 + n)

/-- The value of a hexadecimal digit of either letter case. -/
def value (c : Char) : Option Nat :=
  if 48 ≤ c.toNat ∧ c.toNat ≤ 57 then some (c.toNat - 48)
  else if 97 ≤ c.toNat ∧ c.toNat ≤ 102 then some (c.toNat - 87)
  else if 65 ≤ c.toNat ∧ c.toNat ≤ 70 then some (c.toNat - 55)
  else none

/-- Two lower-case digits for each byte, high half first. -/
def encode : List UInt8 → List Char
  | [] => []
  | b :: bs => digit (b.toNat / 16) :: digit (b.toNat % 16) :: encode bs

/-- The bytes a digit string stands for; odd lengths and foreign characters are refused. -/
def decode : List Char → Option (List UInt8)
  | [] => some []
  | [_] => none
  | c :: d :: rest => do
    let high ← value c
    let low ← value d
    let tail ← decode rest
    pure (UInt8.ofNat (high * 16 + low) :: tail)

theorem value_digit {n : Nat} (h : n < 16) : value (digit n) = some n := by
  have all : ∀ m ∈ List.range 16, value (digit m) = some m := by decide
  exact all n (List.mem_range.mpr h)

theorem digit_ne_dot {n : Nat} (h : n < 16) : digit n ≠ '.' := by
  have all : ∀ m ∈ List.range 16, digit m ≠ '.' := by decide
  exact all n (List.mem_range.mpr h)

theorem ofNat_halves (b : UInt8) : UInt8.ofNat (b.toNat / 16 * 16 + b.toNat % 16) = b := by
  rw [show b.toNat / 16 * 16 + b.toNat % 16 = b.toNat by omega]
  exact UInt8.ofNat_toNat

@[simp] theorem decode_encode (bs : List UInt8) : decode (encode bs) = some bs := by
  induction bs with
  | nil => rfl
  | cons b bs ih =>
    have hb : b.toNat < 256 := b.toNat_lt
    have hh := value_digit (show b.toNat / 16 < 16 by omega)
    have hl := value_digit (show b.toNat % 16 < 16 by omega)
    simp only [encode, decode, hh, hl, ih, Option.bind_eq_bind, Option.bind_some,
      ofNat_halves]
    rfl

theorem encode_injective : Function.Injective encode := by
  intro a b h
  have := congrArg decode h
  simpa using this

@[simp] theorem length_encode (bs : List UInt8) : (encode bs).length = 2 * bs.length := by
  induction bs with
  | nil => rfl
  | cons b bs ih => simp only [encode, List.length_cons, ih]; omega

/-- Every character of an encoding is the digit of a value below sixteen. -/
theorem mem_encode {bs : List UInt8} {c : Char} (h : c ∈ encode bs) : ∃ n < 16, c = digit n := by
  induction bs with
  | nil => simp [encode] at h
  | cons b bs ih =>
    have hb : b.toNat < 256 := b.toNat_lt
    rcases List.mem_cons.mp h with rfl | h
    · exact ⟨b.toNat / 16, by omega, rfl⟩
    · rcases List.mem_cons.mp h with rfl | h
      · exact ⟨b.toNat % 16, by omega, rfl⟩
      · exact ih h

theorem length_decode {cs : List Char} {bs : List UInt8} (h : decode cs = some bs) :
    cs.length = 2 * bs.length := by
  induction cs using decode.induct generalizing bs with
  | case1 => cases Option.some.inj h; rfl
  | case2 c => simp [decode] at h
  | case3 c d rest ih =>
    obtain ⟨high, _, h⟩ := Option.bind_eq_some_iff.mp h
    obtain ⟨low, _, h⟩ := Option.bind_eq_some_iff.mp h
    obtain ⟨tail, ht, h⟩ := Option.bind_eq_some_iff.mp h
    cases Option.some.inj h
    have := ih ht
    simp only [List.length_cons]
    omega

theorem value_dot : value '.' = none := by decide

/-- An even number of digits of either letter case is decoded. -/
theorem decode_exists {cs : List Char} {n : Nat} (hlen : cs.length = 2 * n)
    (hdigits : ∀ c ∈ cs, (value c).isSome) : ∃ bs, decode cs = some bs := by
  induction n generalizing cs with
  | zero =>
    cases List.length_eq_zero_iff.mp (by simpa using hlen)
    exact ⟨[], rfl⟩
  | succ n ih =>
    match cs with
    | [] => simp at hlen
    | [_] =>
      simp only [List.length_cons, List.length_nil] at hlen
      omega
    | c :: d :: rest =>
      obtain ⟨high, hh⟩ := Option.isSome_iff_exists.mp (hdigits c (by simp))
      obtain ⟨low, hl⟩ := Option.isSome_iff_exists.mp (hdigits d (by simp))
      have hrest : rest.length = 2 * n := by
        simp only [List.length_cons] at hlen
        omega
      obtain ⟨bs, hbs⟩ := ih hrest fun x hx => hdigits x (by simp [hx])
      exact ⟨_, by simp only [decode, hh, hl, hbs, Option.bind_eq_bind, Option.bind_some]; rfl⟩

theorem value_lt {c : Char} {n : Nat} (h : value c = some n) : n < 16 := by
  unfold value at h
  split at h
  next => cases Option.some.inj h; omega
  next =>
    split at h
    next => cases Option.some.inj h; omega
    next =>
      split at h
      next => cases Option.some.inj h; omega
      next => simp at h

/-- A character stands for a value exactly when its lower case is the value's digit. -/
theorem value_eq_some_iff {c : Char} {n : Nat} (hn : n < 16) :
    value c = some n ↔ c.toLower = digit n := by
  have small : ∀ m ∈ List.range 128, ∀ k ∈ List.range 16,
      (value (Char.ofNat m) = some k ↔ (Char.ofNat m).toLower = digit k) := by decide +kernel
  by_cases hc : c.toNat < 128
  · have := small c.toNat (List.mem_range.mpr hc) n (List.mem_range.mpr hn)
    rwa [Char.ofNat_toNat] at this
  · have hdigits : ∀ k ∈ List.range 16, (digit k).toNat < 128 := by decide
    have hlow : c.toLower = c := by
      unfold Char.toLower
      rw [dif_neg]
      intro h
      have := h.2
      simp only [UInt32.le_iff_toNat_le] at this
      have hz : ('Z' : Char).val.toNat = 90 := rfl
      have : c.val.toNat = c.toNat := rfl
      omega
    constructor
    · intro h
      unfold value at h
      rw [if_neg (by omega), if_neg (by omega), if_neg (by omega)] at h
      simp at h
    · intro h
      rw [hlow] at h
      have := hdigits n (List.mem_range.mpr hn)
      rw [← h] at this
      omega

/-- The texts of one byte string differ in letter case only. -/
theorem decode_eq_some_iff {cs : List Char} {bs : List UInt8} :
    decode cs = some bs ↔ cs.map Char.toLower = encode bs := by
  induction cs using decode.induct generalizing bs with
  | case1 => cases bs <;> simp [decode, encode]
  | case2 c => cases bs <;> simp [decode, encode]
  | case3 c d rest ih =>
    constructor
    · intro h
      obtain ⟨high, hh, h⟩ := Option.bind_eq_some_iff.mp h
      obtain ⟨low, hl, h⟩ := Option.bind_eq_some_iff.mp h
      obtain ⟨tail, ht, h⟩ := Option.bind_eq_some_iff.mp h
      cases Option.some.inj h
      have hhigh := value_lt hh
      have hlow := value_lt hl
      have hbyte : (UInt8.ofNat (high * 16 + low)).toNat = high * 16 + low := by
        rw [UInt8.toNat_ofNat', Nat.mod_eq_of_lt (by omega)]
      simp only [List.map_cons, encode, hbyte, ih.mp ht,
        (value_eq_some_iff hhigh).mp hh, (value_eq_some_iff hlow).mp hl]
      rw [show (high * 16 + low) / 16 = high by omega, show (high * 16 + low) % 16 = low by omega]
    · intro h
      cases bs with
      | nil => simp [encode] at h
      | cons b bs =>
        have hb : b.toNat < 256 := b.toNat_lt
        simp only [List.map_cons, encode, List.cons.injEq] at h
        obtain ⟨hhigh, hlow, hrest⟩ := h
        simp only [decode, (value_eq_some_iff (by omega)).mpr hhigh,
          (value_eq_some_iff (by omega)).mpr hlow, ih.mpr hrest, Option.bind_eq_bind,
          Option.bind_some, ofNat_halves]
        rfl

end Hex

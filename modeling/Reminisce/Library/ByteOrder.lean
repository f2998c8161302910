import Mathlib.Algebra.Group.Nat.Defs
import Mathlib.Order.Basic

namespace ByteOrder

abbrev Octets := List UInt8

/-- A number in so many bytes, the least significant first. -/
def toLe : (width n : Nat) → Octets
  | 0, _ => []
  | width + 1, n => UInt8.ofNat n :: toLe width (n / 256)

def ofLe : Octets → Nat
  | [] => 0
  | b :: octets => b.toNat + 256 * ofLe octets

inductive Order
  | little
  | big
  deriving DecidableEq, Repr

namespace Order

/-- A number in so many bytes, in this order. -/
def encode (order : Order) (width n : Nat) : Octets :=
  match order with
  | .little => toLe width n
  | .big => (toLe width n).reverse

def decode (order : Order) (octets : Octets) : Nat :=
  match order with
  | .little => ofLe octets
  | .big => ofLe octets.reverse

end Order

variable {order : Order} {width n : Nat} {octets : Octets}

@[simp] theorem length_toLe (width n : Nat) : (toLe width n).length = width := by
  induction width generalizing n with
  | zero => rfl
  | succ width ih => rw [toLe, List.length_cons, ih]

theorem ofLe_toLe (h : n < 256 ^ width) : ofLe (toLe width n) = n := by
  induction width generalizing n with
  | zero => exact (Nat.lt_one_iff.mp h).symm
  | succ width ih =>
    have hsmall : n / 256 < 256 ^ width := by
      rw [Nat.pow_succ] at h
      omega
    have hmod : (UInt8.ofNat n).toNat = n % 256 := by simp
    rw [toLe, ofLe, ih hsmall, hmod, Nat.mod_add_div]

theorem toLe_ofLe (octets : Octets) : toLe octets.length (ofLe octets) = octets := by
  induction octets with
  | nil => rfl
  | cons b octets ih =>
    have hb := b.toNat_lt
    have hdiv : (b.toNat + 256 * ofLe octets) / 256 = ofLe octets := by omega
    have hmod : UInt8.ofNat (b.toNat + 256 * ofLe octets) = b := by
      refine UInt8.toNat_inj.mp ?_
      simp only [UInt8.toNat_ofNat']
      omega
    rw [ofLe, List.length_cons, toLe, hdiv, hmod, ih]

theorem ofLe_lt (octets : Octets) : ofLe octets < 256 ^ octets.length := by
  induction octets with
  | nil => decide
  | cons b octets ih =>
    have hb := b.toNat_lt
    rw [ofLe, List.length_cons, Nat.pow_succ]
    omega

namespace Order

@[simp] theorem length_encode (order : Order) (width n : Nat) :
    (order.encode width n).length = width := by
  cases order with
  | little => exact length_toLe width n
  | big => exact (List.length_reverse).trans (length_toLe width n)

/-- A number that fits is read back. -/
theorem decode_encode (h : n < 256 ^ width) : order.decode (order.encode width n) = n := by
  cases order with
  | little => exact ofLe_toLe h
  | big =>
    rw [encode, decode, List.reverse_reverse]
    exact ofLe_toLe h

theorem encode_decode (order : Order) (octets : Octets) :
    order.encode octets.length (order.decode octets) = octets := by
  cases order with
  | little => exact toLe_ofLe octets
  | big =>
    have hback := toLe_ofLe octets.reverse
    rw [List.length_reverse] at hback
    rw [encode, decode, hback, List.reverse_reverse]

theorem decode_lt (order : Order) (octets : Octets) :
    order.decode octets < 256 ^ octets.length := by
  cases order with
  | little => exact ofLe_lt octets
  | big =>
    have hlt := ofLe_lt octets.reverse
    rwa [List.length_reverse] at hlt

end Order

end ByteOrder

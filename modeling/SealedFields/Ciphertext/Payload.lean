import SealedFields.Bytes

/-!
Payloads as polynomials over the integers modulo 256, the constant term first. Trailing zero bytes count:
a sum is as long as its longer operand, a product as long as both together.
-/

namespace SealedFields.Payload

/-- Byte-wise sum; the shorter operand is filled up with zeros. -/
def add : Bytes → Bytes → Bytes
  | [], b => b
  | x :: a, [] => x :: a
  | x :: a, y :: b => (x + y) :: add a b

def scale (x : UInt8) (b : Bytes) : Bytes := b.map (x * ·)

/-- The product, filled up with zeros to the length of both operands together. -/
def mul : Bytes → Bytes → Bytes
  | [], b => List.replicate b.length 0
  | x :: a, b => add (scale x b) (0 :: mul a b)

def negate (a : Bytes) : Bytes := a.map (0 - ·)

/-- Cyclic shift to the right; a negative amount shifts to the left. -/
def rotate (amount : Int) (a : Bytes) : Bytes :=
  let k := a.length - (amount % (a.length : Int)).toNat
  a.drop k ++ a.take k

theorem length_add (a b : Bytes) : (add a b).length = max a.length b.length := by
  induction a generalizing b with
  | nil => simp [add]
  | cons x a ih =>
    cases b with
    | nil => simp [add]
    | cons y b => simp [add, ih, Nat.succ_max_succ]

theorem length_mul (a b : Bytes) : (mul a b).length = a.length + b.length := by
  induction a with
  | nil => simp [mul]
  | cons x a ih =>
    simp only [mul, length_add, scale, List.length_map, List.length_cons, ih]
    omega

theorem length_negate (a : Bytes) : (negate a).length = a.length := by simp [negate]

theorem length_rotate (amount : Int) (a : Bytes) : (rotate amount a).length = a.length := by
  simp only [rotate, List.length_append, List.length_drop, List.length_take]
  omega

end SealedFields.Payload

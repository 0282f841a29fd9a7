/-!
# Digits of a number

The last digits of a number in a base, as many as are asked for.
-/

namespace ConstPromotion

/-- The last `width` digits of a number, the most significant one first. -/
def lastDigits (base : Nat) : (width : Nat) → Nat → List Nat
  | 0, _ => []
  | width + 1, n => lastDigits base width (n / base) ++ [n % base]

@[simp] theorem length_lastDigits (base width n : Nat) :
    (lastDigits base width n).length = width := by
  induction width generalizing n with
  | zero => rfl
  | succ width ih => simp [lastDigits, ih]

end ConstPromotion

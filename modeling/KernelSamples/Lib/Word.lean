import Mathlib.Data.Nat.ModEq

/-! Unsigned machine words as natural numbers below a power of two. -/

namespace Lib

/-- The value an unsigned word of `bits` bits keeps. -/
def wrap (bits value : Nat) : Nat := value % 2 ^ bits

theorem wrap_of_lt {bits value : Nat} (small : value < 2 ^ bits) : wrap bits value = value :=
  Nat.mod_eq_of_lt small

/-- Incrementing a wrapped count is wrapping the incremented count. -/
theorem wrap_succ (bits value : Nat) : wrap bits (wrap bits value + 1) = wrap bits (value + 1) :=
  Nat.mod_add_mod value (2 ^ bits) 1

@[simp] theorem wrap_zero (bits : Nat) : wrap bits 0 = 0 := Nat.zero_mod _

end Lib

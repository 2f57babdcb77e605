import KernelSamples.Lib.Buffer
import Mathlib.Data.List.Induction
import Mathlib.Logic.Function.Basic

/-! Decimal numerals without leading zeros, and dotted sequences of them. -/

namespace Lib

def decimalValue (digits : List Char) : Nat := Nat.ofDigitChars 10 digits 0

/-- A numeral as it is printed: digits, and a zero in front only of nothing else. -/
structure Canonical (digits : List Char) : Prop where
  nonempty : digits ≠ []
  decimal : ∀ char ∈ digits, char.isDigit = true
  leading : digits.head? = some '0' → digits = ['0']

/-- A digit is printed for its value. -/
theorem digit_value {char : Char} (digit : char.isDigit = true) :
    char.toNat - '0'.toNat < 10 ∧ Nat.digitChar (char.toNat - '0'.toNat) = char := by
  have range : 48 ≤ char.toNat ∧ char.toNat ≤ 57 := by
    simpa [Char.isDigit, UInt32.le_iff_toNat_le] using digit
  have zero : '0'.toNat = 48 := rfl
  refine ⟨by omega, ?_⟩
  apply Char.toNat_inj.mp
  rw [Nat.toNat_digitChar_of_lt_ten (by omega)]
  omega

/-- Printing the value of a numeral gives the numeral. -/
theorem toDigits_decimalValue {digits : List Char} (canonical : Canonical digits) :
    Nat.toDigits 10 (decimalValue digits) = digits := by
  induction digits using List.reverseRecOn with
  | nil => exact absurd rfl canonical.nonempty
  | append_singleton front last ih =>
    obtain ⟨small, printed⟩ := digit_value (canonical.decimal last (by simp))
    have value : decimalValue (front ++ [last]) =
        10 * decimalValue front + (last.toNat - '0'.toNat) := by
      simp [decimalValue, Nat.ofDigitChars_append, Nat.ofDigitChars_cons]
    rw [value]
    by_cases single : front = []
    · subst single
      rw [show decimalValue [] = 0 from rfl, Nat.mul_zero, Nat.zero_add,
        Nat.toDigits_of_lt_base small, printed, List.nil_append]
    · have frontCanonical : Canonical front := by
        refine ⟨single, fun char member => canonical.decimal char (by simp [member]), ?_⟩
        intro zero
        have whole := canonical.leading (by
          rw [List.head?_append, zero]
          rfl)
        exact absurd (by simpa using congrArg List.length whole) single
      have front_printed := ih frontCanonical
      have positive : 0 < decimalValue front := by
        apply Nat.pos_of_ne_zero
        intro none
        rw [none, Nat.toDigits_zero] at front_printed
        have whole := canonical.leading (by simp [← front_printed])
        simp [← front_printed] at whole
      rw [← Nat.toDigits_append_toDigits (by decide) positive small, front_printed,
        Nat.toDigits_of_lt_base small, printed]

/-- Numerals separated by dots. -/
def dotted (numbers : List Nat) : List Char :=
  ['.'].intercalate (numbers.map (Nat.toDigits 10))

theorem mem_dotted {numbers : List Nat} {char : Char} (member : char ∈ dotted numbers) :
    char.isDigit = true ∨ char = '.' := by
  by_contra neither
  obtain ⟨notDigit, notDot⟩ := not_or.mp neither
  refine not_mem_intercalate (by simpa using notDot) ?_ member
  intro digits printed inside
  obtain ⟨number, -, rfl⟩ := List.mem_map.mp printed
  exact notDigit (Nat.isDigit_of_mem_toDigits (by decide) (by decide) inside)

/-- The numbers of a dotted text. -/
def components (text : List Char) : List Nat :=
  if text = [] then [] else (text.splitOn '.').map decimalValue

theorem components_dotted (numbers : List Nat) : components (dotted numbers) = numbers := by
  cases numbers with
  | nil => rfl
  | cons first rest =>
    have nonempty : dotted (first :: rest) ≠ [] := by
      cases rest with
      | nil => simp [dotted]
      | cons second rest => simp [dotted, List.intercalate_cons_cons]
    have noDots : ∀ digits ∈ (first :: rest).map (Nat.toDigits 10), '.' ∉ digits := by
      intro digits member dot
      obtain ⟨number, -, rfl⟩ := List.mem_map.mp member
      exact absurd (Nat.isDigit_of_mem_toDigits (by decide) (by decide) dot) (by decide)
    rw [components, if_neg nonempty, dotted, List.splitOn_intercalate '.' noDots (by simp),
      List.map_map]
    have same : decimalValue ∘ Nat.toDigits 10 = id := by
      funext number
      simp [decimalValue]
    rw [same, List.map_id]

theorem dotted_injective : Function.Injective dotted :=
  Function.LeftInverse.injective components_dotted

end Lib

import Mathlib.Algebra.Group.Nat.Defs
import Mathlib.Data.List.Basic

/-! A clock kept in a machine word: deadlines are compared by the sign of a wrapped
difference. -/

namespace Lib

variable {width now deadline gap first : Nat}

/-- `now` is not before `deadline`, read off the sign of the wrapped difference. -/
def timeAfterEq (now deadline : BitVec width) : Bool :=
  decide (0 ≤ (now - deadline).toInt)

theorem timeAfterEq_ofNat (early : 2 * deadline ≤ 2 * now + 2 ^ width)
    (late : 2 * now < 2 * deadline + 2 ^ width) :
    timeAfterEq (BitVec.ofNat width now) (BitVec.ofNat width deadline) =
      decide (deadline ≤ now) := by
  have difference : (BitVec.ofNat width now - BitVec.ofNat width deadline).toInt =
      (now : Int) - deadline := by
    rw [BitVec.toInt_sub, BitVec.toInt_ofNat', BitVec.toInt_ofNat', Int.bmod_sub_bmod,
      Int.sub_bmod_bmod]
    apply Int.bmod_eq_of_le <;> omega
  rw [timeAfterEq, difference]
  apply decide_eq_decide.mpr
  omega

/-- A deadline no more than half the word's range ahead is never taken for past, however
often the word wraps between the two. -/
theorem timeAfterEq_early (ahead : now < deadline) (near : 2 * deadline ≤ 2 * now + 2 ^ width) :
    timeAfterEq (BitVec.ofNat width now) (BitVec.ofNat width deadline) = false := by
  rw [timeAfterEq_ofNat near (by omega)]
  exact decide_eq_false (by omega)

/-- Moments in order, each at least a gap after all earlier ones. -/
def Spaced (gap : Nat) (moments : List Nat) : Prop :=
  moments.Pairwise fun earlier later => earlier + gap ≤ later

theorem Spaced.snoc {moments : List Nat} (spaced : Spaced gap moments)
    (after : ∀ moment ∈ moments, moment + gap ≤ now) : Spaced gap (moments ++ [now]) := by
  refine List.pairwise_append.mpr ⟨spaced, List.pairwise_singleton _ _, ?_⟩
  intro moment present later only
  rw [List.mem_singleton.mp only]
  exact after moment present

/-- Spaced moments that are over by `now` are no more than the gaps that fit. -/
theorem Spaced.fit {moments : List Nat} (spaced : Spaced gap (first :: moments))
    (passed : ∀ moment ∈ first :: moments, moment ≤ now) :
    first + moments.length * gap ≤ now := by
  induction moments generalizing first with
  | nil => simpa using passed first (by simp)
  | cons second rest ih =>
    obtain ⟨after, later⟩ := List.pairwise_cons.mp spaced
    have step : first + gap ≤ second := after second (by simp)
    have remaining := ih later fun moment present => passed moment (by simp [present])
    rw [List.length_cons, Nat.add_mul, Nat.one_mul]
    omega

end Lib

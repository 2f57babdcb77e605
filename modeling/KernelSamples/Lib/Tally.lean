import Mathlib.Algebra.BigOperators.Group.Finset.Basic
import Mathlib.Algebra.BigOperators.Ring.Finset
import Mathlib.Algebra.Order.BigOperators.Group.Finset
import Mathlib.Data.Fintype.BigOperators

/-! Bookkeeping over finitely many parties: each party's local state has a weight, and a
step that changes one party changes the total by exactly that party's weight. -/

namespace Lib

universe u v

variable {Party : Type u} {Local : Type v} [Fintype Party] [DecidableEq Party]

/-- Total weight of the parties' local states. -/
def tally (weight : Local → Nat) (states : Party → Local) : Nat :=
  ∑ party, weight (states party)

theorem tally_split (weight : Local → Nat) (states : Party → Local) (party : Party) :
    tally weight states =
      weight (states party) + ∑ other ∈ Finset.univ.erase party, weight (states other) :=
  (Finset.add_sum_erase _ _ (Finset.mem_univ party)).symm

/-- Moving one party exchanges its old weight for its new one. -/
theorem tally_update (weight : Local → Nat) (states : Party → Local) (party : Party)
    (moved : Local) :
    tally weight (Function.update states party moved) + weight (states party) =
      tally weight states + weight moved := by
  have others : ∑ other ∈ Finset.univ.erase party,
      weight (Function.update states party moved other) =
      ∑ other ∈ Finset.univ.erase party, weight (states other) := by
    apply Finset.sum_congr rfl
    intro other member
    rw [Function.update_of_ne (Finset.ne_of_mem_erase member)]
  rw [tally_split weight (Function.update states party moved) party,
    tally_split weight states party, others, Function.update_self]
  omega

theorem le_tally (weight : Local → Nat) (states : Party → Local) (party : Party) :
    weight (states party) ≤ tally weight states := by
  rw [tally_split weight states party]
  exact Nat.le_add_right _ _

omit [DecidableEq Party] in
/-- A weight of at most `bound`, and zero outside `active`, totals at most `bound` for
each active party. -/
theorem tally_le_card (weight : Local → Nat) (states : Party → Local) (bound : Nat)
    (active : Finset Party) (bounded : ∀ party, weight (states party) ≤ bound)
    (idle : ∀ party, party ∉ active → weight (states party) = 0) :
    tally weight states ≤ bound * active.card := by
  have supported : tally weight states = ∑ party ∈ active, weight (states party) :=
    (Finset.sum_subset (Finset.subset_univ active)
      (fun party _ absent => idle party absent)).symm
  rw [supported, Nat.mul_comm]
  exact Finset.sum_le_card_nsmul active _ bound fun party _ => bounded party

end Lib

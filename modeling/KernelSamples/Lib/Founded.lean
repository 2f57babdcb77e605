import Mathlib.Data.List.Basic
import Mathlib.Data.List.Nodup

/-! Stacks whose elements rest on older ones: released newest first, nothing is taken
away from under what still uses it. -/

namespace Lib

universe u

variable {Item : Type u}

/-- Whatever an element of the stack uses lies below it. The newest element comes first. -/
def Founded (uses : Item → List Item) : List Item → Prop
  | [] => True
  | newest :: older => (∀ used ∈ uses newest, used ∈ older) ∧ Founded uses older

namespace Founded

variable {uses : Item → List Item} {stack older : List Item} {user used newest : Item}

theorem below (founded : Founded uses stack) (present : user ∈ stack) (needed : used ∈ uses user) :
    used ∈ stack.tail := by
  induction stack with
  | nil => cases present
  | cons newest older ih =>
    rcases List.mem_cons.mp present with rfl | present
    · exact founded.1 used needed
    · exact List.mem_of_mem_tail (ih founded.2 present)

theorem closed (founded : Founded uses stack) (present : user ∈ stack) (needed : used ∈ uses user) :
    used ∈ stack :=
  List.mem_of_mem_tail (founded.below present needed)

theorem newest_unused (founded : Founded uses (newest :: older))
    (distinct : (newest :: older).Nodup) (present : user ∈ newest :: older) :
    newest ∉ uses user := by
  intro needed
  exact (List.nodup_cons.mp distinct).1 (founded.below present needed)

end Founded

end Lib

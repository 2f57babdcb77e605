import Mathlib.Data.List.Basic
import Mathlib.Data.List.Infix

/-! Replacement of a pattern in a sequence, from the left and without overlap, and the
substitution of single symbols. -/

namespace Lib

universe u

variable {Symbol : Type u} [DecidableEq Symbol]

/-- Replacement with `skip` symbols of the last match still to pass over. -/
def replaceFrom (old new : List Symbol) : Nat → List Symbol → List Symbol
  | _, [] => []
  | skip + 1, _ :: rest => replaceFrom old new skip rest
  | 0, symbol :: rest =>
    if old <+: symbol :: rest then new ++ replaceFrom old new (old.length - 1) rest
    else symbol :: replaceFrom old new 0 rest

/-- Every occurrence of a non-empty `old`, found from the left, becomes `new`. -/
def replace (old new text : List Symbol) : List Symbol := replaceFrom old new 0 text

/-- Every occurrence of one symbol becomes `new`. -/
def substitute (old : Symbol) (new text : List Symbol) : List Symbol :=
  text.flatMap fun symbol => if symbol = old then new else [symbol]

variable {old new text rest : List Symbol} {symbol first second target : Symbol}

@[simp] theorem replace_nil : replace old new [] = [] := rfl

theorem replace_cons (noMatch : ¬ old <+: symbol :: text) :
    replace old new (symbol :: text) = symbol :: replace old new text := by
  simp only [replace, replaceFrom, noMatch, if_false]

theorem replace_pair :
    replace [first, second] new (first :: second :: text) =
      new ++ replace [first, second] new text := by
  have found : [first, second] <+: first :: second :: text := ⟨text, rfl⟩
  simp only [replace, replaceFrom, found, if_true, List.length_cons, List.length_nil]

/-- No match starts where the first symbol of the pattern does not stand. -/
theorem replace_append (absent : first ∉ text) :
    replace (first :: old) new (text ++ rest) = text ++ replace (first :: old) new rest := by
  induction text with
  | nil => rfl
  | cons symbol text ih =>
    have noMatch : ¬ first :: old <+: symbol :: (text ++ rest) := fun found =>
      absent ((List.cons_prefix_cons.mp found).1 ▸ List.mem_cons_self)
    rw [List.cons_append, replace_cons noMatch,
      ih fun member => absent (List.mem_cons_of_mem _ member)]
    rfl

/-- A text that lacks a symbol of the pattern has nothing to replace. -/
theorem replace_absent (needed : symbol ∈ old) (absent : symbol ∉ text) :
    replace old new text = text := by
  induction text with
  | nil => rfl
  | cons head rest ih =>
    have noMatch : ¬ old <+: head :: rest := fun found => absent (found.subset needed)
    rw [replace_cons noMatch, ih fun member => absent (List.mem_cons_of_mem _ member)]

@[simp] theorem substitute_nil : substitute target new [] = [] := rfl

theorem substitute_cons (symbol : Symbol) (text : List Symbol) :
    substitute target new (symbol :: text) =
      (if symbol = target then new else [symbol]) ++ substitute target new text := rfl

theorem substitute_append (text rest : List Symbol) :
    substitute target new (text ++ rest) =
      substitute target new text ++ substitute target new rest :=
  List.flatMap_append

theorem substitute_absent (absent : target ∉ text) : substitute target new text = text := by
  induction text with
  | nil => rfl
  | cons symbol rest ih =>
    have different : symbol ≠ target := fun same => absent (by simp [same])
    rw [substitute_cons, if_neg different, ih fun member => absent (List.mem_cons_of_mem _ member)]
    rfl

theorem substitute_nonempty (nonempty : new ≠ []) :
    substitute target new text = [] ↔ text = [] := by
  cases text with
  | nil => simp
  | cons symbol rest =>
    rw [substitute_cons]
    split <;> simp [nonempty]

/-- A pair cannot start at another symbol: before a target that follows it stands the mark. -/
theorem not_prefix_substitute (different : symbol ≠ target) (mark : Symbol)
    (text : List Symbol) :
    ¬ [mark, target] <+: symbol :: substitute target [mark, target] text := by
  intro found
  obtain ⟨rfl, later⟩ := List.cons_prefix_cons.mp found
  cases text with
  | nil => simp at later
  | cons head rest =>
    rw [substitute_cons] at later
    by_cases isTarget : head = target
    · rw [if_pos isTarget] at later
      exact different (List.cons_prefix_cons.mp later).1.symm
    · rw [if_neg isTarget] at later
      exact isTarget (List.cons_prefix_cons.mp later).1.symm

/-- A mark put before every occurrence of a symbol is taken away again, whatever the text:
the mark may stand in it already, and may be the symbol itself. -/
theorem replace_substitute (mark target : Symbol) (text : List Symbol) :
    replace [mark, target] [target] (substitute target [mark, target] text) = text := by
  induction text with
  | nil => rfl
  | cons symbol rest ih =>
    rw [substitute_cons]
    by_cases isTarget : symbol = target
    · rw [if_pos isTarget, isTarget]
      exact replace_pair.trans (congrArg _ ih)
    · rw [if_neg isTarget]
      exact (replace_cons (not_prefix_substitute isTarget mark rest)).trans (congrArg _ ih)

theorem not_mem_substitute (absent : target ∉ new) : target ∉ substitute target new text := by
  intro member
  obtain ⟨symbol, _, inside⟩ := List.mem_flatMap.mp member
  split at inside
  next => exact absent inside
  next different => exact different (List.mem_singleton.mp inside).symm

/-- Nothing comes in but what is put in. -/
theorem mem_of_substitute {symbol : Symbol} (member : symbol ∈ substitute target new text) :
    symbol ∈ new ∨ symbol ∈ text := by
  obtain ⟨original, present, inside⟩ := List.mem_flatMap.mp member
  split at inside
  next => exact .inl inside
  next => exact .inr (List.mem_singleton.mp inside ▸ present)

end Lib

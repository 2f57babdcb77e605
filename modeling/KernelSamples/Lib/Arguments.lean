import Mathlib.Data.List.Basic

/-! The words of a command line, read from left to right: options, of which some take the next
word as their value, and operands. -/

namespace Lib

universe u

variable {Word : Type u}

structure Grammar (Word : Type u) where
  option : Word → Bool
  valued : Word → Bool

namespace Grammar

variable (grammar : Grammar Word)

/-- `pending` is the option that waits for its value. -/
def pairsFrom (pending : Option Word) : List Word → List (Word × Word)
  | [] => []
  | word :: rest =>
    match pending with
    | some option => (option, word) :: pairsFrom none rest
    | none =>
      pairsFrom (if grammar.option word && grammar.valued word then some word else none) rest

/-- The options that take a value, each with its value. -/
def pairs (words : List Word) : List (Word × Word) := grammar.pairsFrom none words

def operandsFrom (pending : Bool) : List Word → List Word
  | [] => []
  | word :: rest =>
    if pending then operandsFrom false rest
    else if grammar.option word then operandsFrom (grammar.valued word) rest
    else word :: operandsFrom false rest

/-- The words that are neither options nor values. -/
def operands (words : List Word) : List Word := grammar.operandsFrom false words

variable {grammar} {word : Word} {rest words : List Word} {rewrite : Word → Option Word}

theorem pairsFrom_valued (isOption : grammar.option word = true)
    (valued : grammar.valued word = true) :
    grammar.pairsFrom none (word :: rest) = grammar.pairsFrom (some word) rest := by
  simp [pairsFrom, isOption, valued]

theorem pairsFrom_other (other : (grammar.option word && grammar.valued word) = false) :
    grammar.pairsFrom none (word :: rest) = grammar.pairsFrom none rest := by
  simp [pairsFrom, other]

/-- Only options come first in a pair. -/
theorem option_of_mem_pairs {pair : Word × Word} {pending : Option Word}
    (isOption : ∀ option ∈ pending, (grammar.option option && grammar.valued option) = true)
    (member : pair ∈ grammar.pairsFrom pending words) :
    (grammar.option pair.1 && grammar.valued pair.1) = true := by
  induction words generalizing pending with
  | nil => exact absurd member List.not_mem_nil
  | cons word rest ih =>
    cases pending with
    | some option =>
      rcases List.mem_cons.mp member with rfl | later
      · exact isOption option rfl
      · exact ih (fun option none => by cases none) later
    | none =>
      apply ih _ member
      intro option found
      split at found
      next valued => exact Option.some.inj found ▸ valued
      next => cases found

theorem operand_of_mem {pending : Bool} (member : word ∈ grammar.operandsFrom pending words) :
    grammar.option word = false := by
  induction words generalizing pending with
  | nil => exact absurd member List.not_mem_nil
  | cons head rest ih =>
    rw [operandsFrom] at member
    split at member
    · exact ih member
    · split at member
      · exact ih member
      · rename_i operand
        rcases List.mem_cons.mp member with rfl | later
        · simpa using operand
        · exact ih later

/-- A rewriting of single words that drops options only, and each with its value, leaves no
operand that was none before. -/
theorem operandsFrom_filterMap {pending : Option Word}
    (together : ∀ pair ∈ grammar.pairsFrom pending words,
      (rewrite pair.1).isSome = (rewrite pair.2).isSome)
    (options : ∀ word, grammar.option word = true → rewrite word = none ∨ rewrite word = some word)
    (operands : ∀ word, grammar.option word = false →
      ∃ rewritten, rewrite word = some rewritten ∧ grammar.option rewritten = false) :
    grammar.operandsFrom (pending.any fun option => (rewrite option).isSome)
        (words.filterMap rewrite) =
      (grammar.operandsFrom pending.isSome words).filterMap rewrite := by
  induction words generalizing pending with
  | nil => rfl
  | cons word rest ih =>
    cases pending with
    | some option =>
      have here : (rewrite option).isSome = (rewrite word).isSome :=
        together (option, word) List.mem_cons_self
      have others := @ih none fun pair later => together pair (List.mem_cons_of_mem _ later)
      cases kept : rewrite word with
      | none => simpa [kept, here, operandsFrom] using others
      | some rewritten => simpa [kept, here, operandsFrom] using others
    | none =>
      cases isOption : grammar.option word with
      | false =>
        have others := @ih none (by rwa [pairsFrom_other (by simp [isOption])] at together)
        obtain ⟨rewritten, kept, operand⟩ := operands word isOption
        simpa [kept, operand, isOption, operandsFrom] using others
      | true =>
        cases valued : grammar.valued word with
        | false =>
          have others := @ih none (by rwa [pairsFrom_other (by simp [valued])] at together)
          rcases options word isOption with dropped | kept
          · simpa [dropped, isOption, valued, operandsFrom] using others
          · simpa [kept, isOption, valued, operandsFrom] using others
        | true =>
          have others := @ih (some word) (by rwa [pairsFrom_valued isOption valued] at together)
          rcases options word isOption with dropped | kept
          · simpa [dropped, isOption, valued, operandsFrom] using others
          · simpa [kept, isOption, valued, operandsFrom] using others

end Grammar

end Lib

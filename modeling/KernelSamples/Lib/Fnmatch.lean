import Mathlib.Data.List.Infix
import Mathlib.Data.Char

/-! Shell patterns for file names, as Python's `fnmatch` reads them. -/

namespace Lib

inductive Glyph where
  | star
  | any
  | one (char : Char)
  | set (negated : Bool) (items : List Char)
  deriving DecidableEq

/-- Whether a bracket's items have the character. -/
def inItems (char : Char) : List Char → Bool
  | low :: '-' :: high :: rest => (low ≤ char && char ≤ high) || inItems char rest
  | item :: rest => item = char || inItems char rest
  | [] => false

/-- The inside of a bracket and what follows it. A `]` that comes first does not close it. -/
def bracket (text : List Char) : Option (List Char × List Char) :=
  let opening := match text with
    | '!' :: ']' :: _ => 2
    | '!' :: _ => 1
    | ']' :: _ => 1
    | _ => 0
  match (text.drop opening).dropWhile (· ≠ ']') with
  | [] => none
  | _ :: rest => some (text.take opening ++ (text.drop opening).takeWhile (· ≠ ']'), rest)

/-- `fuel` is the length of the pattern. A `[` that nothing closes is a plain character. -/
def glyphsFrom : Nat → List Char → List Glyph
  | 0, _ => []
  | _, [] => []
  | fuel + 1, '*' :: rest => .star :: glyphsFrom fuel rest
  | fuel + 1, '?' :: rest => .any :: glyphsFrom fuel rest
  | fuel + 1, '[' :: rest =>
    match bracket rest with
    | some ('!' :: items, rest) => .set true items :: glyphsFrom fuel rest
    | some (items, rest) => .set false items :: glyphsFrom fuel rest
    | none => .one '[' :: glyphsFrom fuel rest
  | fuel + 1, char :: rest => .one char :: glyphsFrom fuel rest

def glyphs (pattern : List Char) : List Glyph := glyphsFrom pattern.length pattern

def matchGlyphs : List Glyph → List Char → Bool
  | [], name => name.isEmpty
  | .star :: rest, name => name.tails.any (matchGlyphs rest)
  | _ :: _, [] => false
  | .any :: rest, _ :: name => matchGlyphs rest name
  | .one expected :: rest, char :: name => char = expected && matchGlyphs rest name
  | .set negated items :: rest, char :: name =>
    (inItems char items != negated) && matchGlyphs rest name

def fnmatch (pattern name : List Char) : Bool := matchGlyphs (glyphs pattern) name

/-- `glob.has_magic` -/
def hasMagic (text : List Char) : Bool := text.any (· ∈ ['*', '?', '['])

variable {rest : List Glyph} {name text : List Char}

theorem matchGlyphs_star :
    matchGlyphs (.star :: rest) name = true ↔
      ∃ skipped tail, name = skipped ++ tail ∧ matchGlyphs rest tail = true := by
  rw [matchGlyphs, List.any_eq_true]
  constructor
  · intro found
    obtain ⟨tail, suffix, matched⟩ := found
    obtain ⟨skipped, rfl⟩ := (List.mem_tails tail name).mp suffix
    exact ⟨skipped, tail, rfl, matched⟩
  · intro found
    obtain ⟨skipped, tail, rfl, matched⟩ := found
    exact ⟨tail, (List.mem_tails _ _).mpr (List.suffix_append skipped tail), matched⟩

/-- Plain characters match themselves. -/
theorem matchGlyphs_ones :
    matchGlyphs (text.map .one ++ rest) name = true ↔
      ∃ tail, name = text ++ tail ∧ matchGlyphs rest tail = true := by
  induction text generalizing name with
  | nil => simp
  | cons char text ih =>
    cases name with
    | nil => simp [matchGlyphs]
    | cons head name =>
      rw [List.map_cons, List.cons_append, matchGlyphs, Bool.and_eq_true, ih]
      simp only [decide_eq_true_eq, List.cons_append, List.cons.injEq]
      constructor
      · intro matched
        obtain ⟨rfl, tail, rfl, matched⟩ := matched
        exact ⟨tail, ⟨rfl, rfl⟩, matched⟩
      · intro matched
        obtain ⟨tail, ⟨rfl, rfl⟩, matched⟩ := matched
        exact ⟨rfl, tail, rfl, matched⟩

theorem matchGlyphs_nil : matchGlyphs [] name = true ↔ name = [] := by
  rw [matchGlyphs, List.isEmpty_iff]

/-- A pattern that ends in its only star matches what begins as it does. -/
theorem matchGlyphs_stem : matchGlyphs (text.map .one ++ [.star]) name = true ↔ text <+: name := by
  rw [matchGlyphs_ones]
  constructor
  · intro found
    obtain ⟨tail, rfl, _⟩ := found
    exact List.prefix_append text tail
  · intro found
    obtain ⟨tail, rfl⟩ := found
    exact ⟨tail, rfl, matchGlyphs_star.mpr ⟨tail, [], (List.append_nil tail).symm, rfl⟩⟩

/-- A pattern with one star matches what begins and ends as it does, without an overlap. -/
theorem matchGlyphs_ends {ending : List Char} :
    matchGlyphs (text.map .one ++ .star :: ending.map .one) name = true ↔
      ∃ middle, name = text ++ middle ++ ending := by
  rw [matchGlyphs_ones]
  constructor
  · intro found
    obtain ⟨tail, rfl, matched⟩ := found
    obtain ⟨middle, last, rfl, ended⟩ := matchGlyphs_star.mp matched
    rw [← List.append_nil (ending.map Glyph.one), matchGlyphs_ones] at ended
    obtain ⟨none, rfl, nothing⟩ := ended
    obtain rfl := matchGlyphs_nil.mp nothing
    exact ⟨middle, by simp⟩
  · intro found
    obtain ⟨middle, rfl⟩ := found
    refine ⟨middle ++ ending, by simp, matchGlyphs_star.mpr ⟨middle, ending, rfl, ?_⟩⟩
    rw [← List.append_nil (ending.map Glyph.one), matchGlyphs_ones]
    exact ⟨[], by simp, rfl⟩

end Lib

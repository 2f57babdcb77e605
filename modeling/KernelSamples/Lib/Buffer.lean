import Mathlib.Data.List.TakeWhile

/-! Bounded writes into a buffer of fixed size that keep it terminated, and what a series of
appends leaves in it. -/

namespace Lib

universe u

variable {Cell : Type u}

/-- Write at most `size - 1` cells of a text at an offset, then the terminator, and return
how many cells of the text were written. A write outside of the buffer has no result. -/
def writeBounded (terminator : Cell) (buffer : List Cell) (offset size : Nat)
    (text : List Cell) : Option (List Cell × Nat) :=
  if size = 0 then some (buffer, 0)
  else
    let written := min (size - 1) text.length
    if offset + written < buffer.length then
      some (buffer.take offset ++ text.take (size - 1) ++
        terminator :: buffer.drop (offset + written + 1), written)
    else none

/-- The buffer begins with as much of a text as fits, terminated, and `len` is how much. -/
structure Shows (terminator : Cell) (buffer text : List Cell) (len : Nat) : Prop where
  length : len = min (buffer.length - 1) text.length
  shown : buffer.take (len + 1) = text.take len ++ [terminator]

namespace Shows

variable {terminator : Cell} {buffer text : List Cell} {len : Nat}

theorem empty (starts : buffer.head? = some terminator) : Shows terminator buffer [] 0 := by
  obtain ⟨rest, rfl⟩ := List.head?_eq_some_iff.mp starts
  exact ⟨by simp, by simp⟩

theorem take (shows : Shows terminator buffer text len) : buffer.take len = text.take len := by
  have bound : len ≤ text.length := shows.length ▸ Nat.min_le_right _ _
  have shorter := congrArg (List.take len) shows.shown
  rwa [List.take_take, Nat.min_eq_left (Nat.le_succ len),
    List.take_append_of_le_length (by simp [bound]), List.take_take, Nat.min_self] at shorter

/-- Appending at `len` with the room left shows both texts, cut only at the buffer's end. -/
theorem append (shows : Shows terminator buffer text len) (room : 0 < buffer.length)
    (more : List Cell) :
    ∃ next written,
      writeBounded terminator buffer len (buffer.length - len) more = some (next, written) ∧
      next.length = buffer.length ∧ Shows terminator next (text ++ more) (len + written) := by
  have length := shows.length
  have below : len < buffer.length := by omega
  let written := min (buffer.length - len - 1) more.length
  have inside : len + written < buffer.length := by omega
  have sizeLeft : buffer.length - len ≠ 0 := by omega
  let next := buffer.take len ++ more.take (buffer.length - len - 1) ++
    terminator :: buffer.drop (len + written + 1)
  have same : next.length = buffer.length := by
    simp only [next, List.length_append, List.length_take, List.length_cons, List.length_drop]
    omega
  have start : (buffer.take len ++ more.take (buffer.length - len - 1)).length = len + written := by
    simp only [List.length_append, List.length_take]
    omega
  have begins : next.take (len + written + 1) =
      buffer.take len ++ more.take (buffer.length - len - 1) ++ [terminator] := by
    rw [← start, List.take_length_add_append]
    simp
  have texts : (text ++ more).take (len + written) =
      text.take len ++ more.take (buffer.length - len - 1) := by
    rw [List.take_append]
    by_cases cut : buffer.length - 1 ≤ text.length
    · have full : buffer.length - len - 1 = 0 := by omega
      have none : written = 0 := by omega
      rw [none, full, Nat.add_zero, show len - text.length = 0 by omega]
    · have all : len = text.length := by omega
      rw [all, Nat.add_sub_cancel_left, List.take_of_length_le (Nat.le_add_right _ _),
        List.take_length, List.append_cancel_left_eq, List.take_eq_take_iff]
      omega
  refine ⟨next, written, ?_, same, ?_, ?_⟩
  · simp only [writeBounded, if_neg sizeLeft]
    exact if_pos inside
  · rw [same, List.length_append]
    omega
  · rw [begins, texts, shows.take]

/-- Reading up to the terminator gives the text, as far as it fits. -/
theorem read [DecidableEq Cell] (shows : Shows terminator buffer text len)
    (absent : terminator ∉ text) :
    buffer.takeWhile (fun cell => cell ≠ terminator) = text.take len := by
  have split : buffer = text.take len ++ terminator :: buffer.drop (len + 1) := by
    have whole := List.take_append_drop (len + 1) buffer
    rw [shows.shown, List.append_assoc] at whole
    exact whole.symm
  have before : ∀ cell ∈ text.take len, decide (cell ≠ terminator) = true := by
    intro cell member
    exact decide_eq_true fun same => absent (same ▸ List.mem_of_mem_take member)
  rw [split, List.takeWhile_append_of_pos before, List.takeWhile_cons_of_neg (by simp),
    List.append_nil]

end Shows

section Joins

variable {separator : List Cell} {texts : List (List Cell)}

/-- Joining one more text. -/
theorem intercalate_concat (text : List Cell) (nonempty : texts ≠ []) :
    separator.intercalate (texts ++ [text]) =
      separator.intercalate texts ++ (separator ++ text) := by
  induction texts with
  | nil => exact absurd rfl nonempty
  | cons first rest ih =>
    cases rest with
    | nil => simp [List.intercalate]
    | cons second rest =>
      rw [List.cons_append, List.cons_append, List.intercalate_cons_cons,
        List.intercalate_cons_cons, ← List.cons_append, ih (by simp)]
      simp only [List.append_assoc]

theorem length_intercalate_le {bound : Nat} (short : ∀ text ∈ texts, text.length ≤ bound) :
    (separator.intercalate texts).length ≤ texts.length * (bound + separator.length) := by
  induction texts with
  | nil => simp [List.intercalate]
  | cons first rest ih =>
    have head := short first List.mem_cons_self
    have tail := ih fun text member => short text (List.mem_cons_of_mem _ member)
    have more : (first :: rest).length * (bound + separator.length) =
        rest.length * (bound + separator.length) + (bound + separator.length) := by
      rw [List.length_cons, Nat.succ_mul]
    cases rest with
    | nil =>
      simp only [List.intercalate_singleton]
      omega
    | cons second rest =>
      rw [List.intercalate_cons_cons, List.length_append, List.length_append]
      omega

theorem not_mem_intercalate {cell : Cell} (outside : cell ∉ separator)
    (absent : ∀ text ∈ texts, cell ∉ text) : cell ∉ separator.intercalate texts := by
  induction texts with
  | nil => simp [List.intercalate]
  | cons first rest ih =>
    have here := absent first List.mem_cons_self
    have later := ih fun text member => absent text (List.mem_cons_of_mem _ member)
    cases rest with
    | nil => simpa using here
    | cons second rest =>
      rw [List.intercalate_cons_cons]
      simp [here, outside, later]

end Joins

end Lib

import Mathlib.Logic.Function.Basic
import Mathlib.Data.List.TakeWhile

/-! Names for files, and files that stay themselves when they are renamed, replaced or
written through a descriptor opened earlier. -/

namespace Lib

universe u v

variable {Name : Type u} {Cell : Type v}

/-- `inode` is the file a name stands for, `fresh` a file that no name has stood for. -/
structure Files (Name : Type u) (Cell : Type v) where
  inode : Name → Option Nat
  contents : Nat → List Cell
  fresh : Nat

/-- What a text becomes when a chunk is written at an offset, which may be past its end. -/
def writeAt (blank : Cell) (text : List Cell) (offset : Nat) (chunk : List Cell) : List Cell :=
  (text ++ List.replicate (offset - text.length) blank).take offset ++ chunk ++
    text.drop (offset + chunk.length)

/-- Writing the next part of a text after what is written of it. -/
theorem writeAt_prefix (blank : Cell) {text : List Cell} {offset : Nat}
    (within : offset ≤ text.length) (count : Nat) :
    writeAt blank (text.take offset) offset ((text.drop offset).take count) =
      text.take (offset + ((text.drop offset).take count).length) := by
  have written : (text.take offset).length = offset := by simp [within]
  have rest : (text.take offset).drop (offset + ((text.drop offset).take count).length) = [] := by
    apply List.drop_of_length_le
    omega
  have chunk : (text.drop offset).take ((text.drop offset).take count).length =
      (text.drop offset).take count := by
    rw [List.take_eq_take_iff, List.length_take]
    omega
  rw [writeAt, rest, List.append_nil, written, Nat.sub_self, List.replicate_zero, List.append_nil,
    List.take_take, Nat.min_self, List.take_add, chunk]

namespace Files

variable [DecidableEq Name] {files next : Files Name Cell} {name other source target : Name}
variable {inode : Nat}

def read (files : Files Name Cell) (name : Name) : Option (List Cell) :=
  (files.inode name).map files.contents

/-- Open for writing: a file that is there is emptied, and keeps its other names. -/
def openTruncate (files : Files Name Cell) (name : Name) : Files Name Cell × Nat :=
  match files.inode name with
  | some inode => ({ files with contents := Function.update files.contents inode [] }, inode)
  | none =>
    ({ inode := Function.update files.inode name (some files.fresh)
       contents := Function.update files.contents files.fresh []
       fresh := files.fresh + 1 }, files.fresh)

def write (blank : Cell) (files : Files Name Cell) (inode offset : Nat) (chunk : List Cell) :
    Files Name Cell :=
  { files with
    contents := Function.update files.contents inode
      (writeAt blank (files.contents inode) offset chunk) }

/-- The target's file loses its name, the source's file takes it over. -/
def rename (files : Files Name Cell) (source target : Name) : Option (Files Name Cell) :=
  (files.inode source).map fun inode =>
    { files with
      inode := Function.update (Function.update files.inode source none) target (some inode) }

/-- Every file has one name, and the next file has none yet. -/
structure Sound (files : Files Name Cell) : Prop where
  distinct : ∀ {first second inode}, files.inode first = some inode →
    files.inode second = some inode → first = second
  below : ∀ {name inode}, files.inode name = some inode → inode < files.fresh

omit [DecidableEq Name] in
theorem Sound.apart (sound : files.Sound) (here : files.inode name = some inode)
    (different : other ≠ name) : files.inode other ≠ some inode :=
  fun there => different (sound.distinct there here)

theorem openTruncate_spec (sound : files.Sound) (name : Name) :
    (files.openTruncate name).1.Sound ∧
      (files.openTruncate name).1.inode name = some (files.openTruncate name).2 ∧
      (files.openTruncate name).1.contents (files.openTruncate name).2 = [] ∧
      ∀ other ≠ name, (files.openTruncate name).1.read other = files.read other := by
  unfold openTruncate
  cases here : files.inode name with
  | some inode =>
    refine ⟨⟨sound.distinct, sound.below⟩, here, Function.update_self .., ?_⟩
    intro other different
    simp only [read]
    cases there : files.inode other with
    | none => rfl
    | some found =>
      have apart : found ≠ inode := by
        rintro rfl
        exact sound.apart here different there
      simp [apart]
  | none =>
    have old : ∀ {other found}, files.inode other = some found → found ≠ files.fresh := by
      intro other found there
      exact (sound.below there).ne
    refine ⟨⟨?_, ?_⟩, Function.update_self .., Function.update_self .., ?_⟩
    · intro first second inode atFirst atSecond
      by_cases isFirst : first = name <;> by_cases isSecond : second = name
      · rw [isFirst, isSecond]
      · simp only [Function.update_of_ne isSecond, isFirst, Function.update_self,
          Option.some.injEq] at atFirst atSecond
        exact absurd atFirst.symm (old atSecond)
      · simp only [Function.update_of_ne isFirst, isSecond, Function.update_self,
          Option.some.injEq] at atFirst atSecond
        exact absurd atSecond.symm (old atFirst)
      · simp only [Function.update_of_ne isFirst, Function.update_of_ne isSecond]
          at atFirst atSecond
        exact sound.distinct atFirst atSecond
    · intro other inode there
      by_cases same : other = name
      · simp only [same, Function.update_self, Option.some.injEq] at there
        subst there
        exact Nat.lt_succ_self _
      · simp only [Function.update_of_ne same] at there
        exact (sound.below there).trans (Nat.lt_succ_self _)
    · intro other different
      simp only [read, Function.update_of_ne different]
      cases there : files.inode other with
      | none => rfl
      | some found => simp [old there]

omit [DecidableEq Name] in
/-- Writing a file changes what its names read, and nothing else. -/
theorem write_read (blank : Cell) (offset : Nat) (chunk : List Cell)
    (elsewhere : files.inode other ≠ some inode) :
    (files.write blank inode offset chunk).read other = files.read other := by
  simp only [read, write]
  cases there : files.inode other with
  | none => rfl
  | some found =>
    have apart : found ≠ inode := by
      rintro rfl
      exact elsewhere there
    simp [apart]

theorem rename_spec (sound : files.Sound) (different : source ≠ target)
    (renamed : files.rename source target = some next) :
    next.Sound ∧ next.inode source = none ∧ next.read target = files.read source := by
  obtain ⟨inode, here, rfl⟩ := Option.map_eq_some_iff.mp renamed
  have others : ∀ {name found}, name ≠ target → Function.update (Function.update files.inode
      source none) target (some inode) name = some found →
      files.inode name = some found ∧ found ≠ inode := by
    intro name found apart there
    rw [Function.update_of_ne apart] at there
    by_cases same : name = source
    · rw [same, Function.update_self] at there
      cases there
    · rw [Function.update_of_ne same] at there
      refine ⟨there, ?_⟩
      rintro rfl
      exact sound.apart here same there
  refine ⟨⟨?_, ?_⟩, ?_, ?_⟩
  · intro first second found atFirst atSecond
    by_cases isFirst : first = target <;> by_cases isSecond : second = target
    · rw [isFirst, isSecond]
    · rw [isFirst] at atFirst
      simp only [Function.update_self, Option.some.injEq] at atFirst
      exact absurd atFirst.symm (others isSecond atSecond).2
    · rw [isSecond] at atSecond
      simp only [Function.update_self, Option.some.injEq] at atSecond
      exact absurd atSecond.symm (others isFirst atFirst).2
    · exact sound.distinct (others isFirst atFirst).1 (others isSecond atSecond).1
  · intro name found there
    by_cases same : name = target
    · rw [same] at there
      simp only [Function.update_self, Option.some.injEq] at there
      exact there ▸ sound.below here
    · exact sound.below (others same there).1
  · simp [different]
  · simp [read, here]

end Files

end Lib

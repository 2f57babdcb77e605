import KernelSamples.Compdb.Shlex
import Mathlib.Data.List.TakeWhile

/-! The command line of an object: `parse` reads it from the `.cmd` file and `split` breaks it
into words. kbuild writes it there escaped for make. -/

namespace KernelSamples.Compdb

open Lib

/-- The lines of a text file, each without its end, which is `\n`, `\r` or `\r\n`. -/
def fileLinesFrom (line : Str) : Str → List Str
  | [] => if line = [] then [] else [line]
  | '\r' :: '\n' :: rest => line :: fileLinesFrom [] rest
  | '\r' :: rest => line :: fileLinesFrom [] rest
  | '\n' :: rest => line :: fileLinesFrom [] rest
  | char :: rest => fileLinesFrom (line ++ [char]) rest

def fileLines (text : Str) : List Str := fileLinesFrom [] text

/-- What `\s` matches. -/
def reSpace (char : Char) : Bool :=
  let code := char.toNat
  (9 ≤ code && code ≤ 13) || (28 ≤ code && code ≤ 32) ||
    (0x2000 ≤ code && code ≤ 0x200a) ||
    code ∈ [0x85, 0xa0, 0x1680, 0x2028, 0x2029, 0x202f, 0x205f, 0x3000]

/-- `\S+` followed by the suffix, and nothing else. -/
def fileName (suffix name : Str) : Bool :=
  name.all (fun char => !reSpace char) && suffix.isSuffixOf name && suffix.length < name.length

/-- What a line assigns to the object whose name follows the key. The name ends at the first
space, since `\S+` cannot go past one. -/
def assigned (key line : Str) : Option Str := do
  let rest ← List.isPrefixOf? key line
  let object := rest.takeWhile fun char => !reSpace char
  if fileName ".o".toList object then
    List.isPrefixOf? " := ".toList (rest.dropWhile fun char => !reSpace char)
  else none

def matchSaved (line : Str) : Option Str := assigned "savedcmd_".toList line

def matchSource (line : Str) : Option Str :=
  (assigned "source_".toList line).filter (fileName ".c".toList)

def truthy (value : Option Str) : Bool := value.any (· ≠ [])

/-- The loop of `parse`, which ends early once both values are there. -/
def parseFrom (cmd src : Option Str) : List Str → Option Str × Option Str
  | [] => (cmd, src)
  | line :: rest =>
    let cmd := (matchSaved line).or cmd
    let src := (matchSource line).or src
    if truthy cmd && truthy src then (cmd, src) else parseFrom cmd src rest

def parse (file : Str) : Option Str × Option Str := parseFrom none none (fileLines file)

/-- The words `split` drops. -/
def dependencyFlag (word : Str) : Bool :=
  "-Wp,-MMD".toList.isPrefixOf word || "-Wp,-MD".toList.isPrefixOf word

def split (cmd : Str) : Except ShlexError (List Str) := do
  let tokens ← shlexSplit (replace ['$', '$'] ['$'] (replace ['\\', '#'] ['#'] cmd))
  return (tokens.takeWhile (· ≠ [';'])).filter (!dependencyFlag ·)

def pound : Str := ['$', '(', 'p', 'o', 'u', 'n', 'd', ')']

/-- A command line as kbuild writes it into a makefile. -/
def kbuildEscape (command : Str) : Str := substitute '#' pound (substitute '$' ['$', '$'] command)

def OneLine (line : Str) : Prop := '\n' ∉ line ∧ '\r' ∉ line

instance (line : Str) : Decidable (OneLine line) := inferInstanceAs (Decidable (_ ∧ _))

/-- A `.cmd` file with its only saved command. -/
structure CmdFile where
  before : List Str
  object : Str
  saved : Str
  after : List Str
  objectName : fileName ".o".toList object = true
  savedLine : OneLine saved
  otherLines : ∀ line ∈ before ++ after, OneLine line ∧ matchSaved line = none

namespace CmdFile

variable (file : CmdFile)

def savedText : Str := "savedcmd_".toList ++ (file.object ++ (" := ".toList ++ file.saved))

def lines : List Str := file.before ++ file.savedText :: file.after

def text : Str := file.lines.flatMap (· ++ ['\n'])

end CmdFile

variable {cmd src : Option Str} {line text word : Str} {lines before after words : List Str}

theorem OneLine.append (first : OneLine line) (second : OneLine text) : OneLine (line ++ text) :=
  ⟨List.not_mem_append first.1 second.1, List.not_mem_append first.2 second.2⟩

theorem fileLinesFrom_line (oneLine : OneLine text) (rest : Str) :
    fileLinesFrom line (text ++ '\n' :: rest) = (line ++ text) :: fileLinesFrom [] rest := by
  induction text generalizing line with
  | nil => simp [fileLinesFrom]
  | cons char text ih =>
    obtain ⟨noNewline, noReturn⟩ := oneLine
    have newline : char ≠ '\n' := fun same => noNewline (same ▸ List.mem_cons_self)
    have carriageReturn : char ≠ '\r' := fun same => noReturn (same ▸ List.mem_cons_self)
    have oneLine' : OneLine text :=
      ⟨fun member => noNewline (List.mem_cons_of_mem _ member),
        fun member => noReturn (List.mem_cons_of_mem _ member)⟩
    rw [List.cons_append, fileLinesFrom, ih oneLine', List.append_assoc]
    · rfl
    · rintro _ rfl
      exact absurd rfl carriageReturn
    · exact carriageReturn
    · exact newline

/-- Lines written out are read back. -/
theorem fileLines_flatMap (oneLine : ∀ line ∈ lines, OneLine line) :
    fileLines (lines.flatMap (· ++ ['\n'])) = lines := by
  induction lines with
  | nil => rfl
  | cons line rest ih =>
    have first := oneLine line List.mem_cons_self
    have others := ih fun line member => oneLine line (List.mem_cons_of_mem _ member)
    rw [List.flatMap_cons, List.append_assoc, List.singleton_append, fileLines,
      fileLinesFrom_line first]
    exact congrArg _ others

theorem isPrefixOf?_append (key rest : Str) : List.isPrefixOf? key (key ++ rest) = some rest := by
  induction key with
  | nil => cases rest <;> rfl
  | cons char key ih => simp [List.isPrefixOf?, ih]

theorem fileName_solid {suffix name : Str} (named : fileName suffix name = true) :
    ∀ char ∈ name, reSpace char = false := by
  simp only [fileName, Bool.and_eq_true, List.all_eq_true, Bool.not_eq_true'] at named
  exact named.1.1

theorem assigned_append {key object value : Str} (named : fileName ".o".toList object = true) :
    assigned key (key ++ (object ++ (" := ".toList ++ value))) = some value := by
  have solid : ∀ char ∈ object, (!reSpace char) = true := fun char member => by
    rw [fileName_solid named char member]
    rfl
  have sign : " := ".toList = [' ', ':', '=', ' '] := rfl
  have space : reSpace ' ' = true := rfl
  have taken : (object ++ (" := ".toList ++ value)).takeWhile (!reSpace ·) = object := by
    rw [List.takeWhile_append_of_pos solid, sign]
    simp [space]
  have dropped : (object ++ (" := ".toList ++ value)).dropWhile (!reSpace ·) =
      " := ".toList ++ value := by
    rw [List.dropWhile_append_of_pos solid, sign]
    simp [space]
  simp only [assigned, isPrefixOf?_append, Option.bind_eq_bind, Option.bind_some, taken, dropped,
    named, if_true]

theorem CmdFile.matchSaved_savedText (file : CmdFile) :
    matchSaved file.savedText = some file.saved :=
  assigned_append file.objectName

theorem CmdFile.oneLine (file : CmdFile) : ∀ line ∈ file.lines, OneLine line := by
  have solid := fileName_solid file.objectName
  have object : OneLine file.object :=
    ⟨fun member => absurd (solid _ member) (by decide),
      fun member => absurd (solid _ member) (by decide)⟩
  have key : OneLine "savedcmd_".toList := by decide
  have sign : OneLine " := ".toList := by decide
  have savedText : OneLine file.savedText :=
    key.append (object.append (sign.append file.savedLine))
  intro line member
  rcases List.mem_append.mp member with earlier | later
  · exact (file.otherLines line (List.mem_append_left _ earlier)).1
  · rcases List.mem_cons.mp later with rfl | later
    · exact savedText
    · exact (file.otherLines line (List.mem_append_right _ later)).1

/-- Lines that save no command leave the one found. -/
theorem parseFrom_others (others : ∀ line ∈ lines, matchSaved line = none) :
    (parseFrom cmd src lines).1 = cmd := by
  induction lines generalizing src with
  | nil => rfl
  | cons line rest ih =>
    have here := others line List.mem_cons_self
    simp only [parseFrom, here, Option.none_or]
    split
    · rfl
    · exact ih fun line member => others line (List.mem_cons_of_mem _ member)

/-- The only saved command is the one found, wherever it stands. -/
theorem parseFrom_saved {saved : Str} (others : ∀ line ∈ before ++ after, matchSaved line = none)
    (found : matchSaved text = some saved) :
    (parseFrom none src (before ++ text :: after)).1 = some saved := by
  induction before generalizing src with
  | nil =>
    simp only [List.nil_append, parseFrom, found, Option.some_or]
    split
    · rfl
    · exact parseFrom_others others
  | cons line rest ih =>
    have here := others line List.mem_cons_self
    simp only [List.cons_append, parseFrom, here, Option.none_or]
    exact ih fun line member => others line (List.mem_cons_of_mem _ member)

/-- `parse` finds the command a file saves. -/
theorem CmdFile.parse_text (file : CmdFile) : (parse file.text).1 = some file.saved := by
  rw [parse, CmdFile.text, fileLines_flatMap file.oneLine]
  exact parseFrom_saved (fun line member => (file.otherLines line member).2)
    file.matchSaved_savedText

theorem pound_plain : ∀ char ∈ pound, Plain char := by
  simp [pound, Plain, shlexWhitespace, shlexQuote]

theorem kbuildEscape_cons (char : Char) (command : Str) :
    kbuildEscape (char :: command) =
      (if char = '$' then ['$', '$'] else if char = '#' then pound else [char]) ++
        kbuildEscape command := by
  have pound_apart : '$' ≠ '#' := by decide
  rw [kbuildEscape, substitute_cons, substitute_append]
  split
  · simp only [substitute_cons, pound_apart, if_false]
    rfl
  · rw [substitute_cons]
    simp [kbuildEscape]

theorem pound_not_mem_kbuildEscape (command : Str) : '#' ∉ kbuildEscape command :=
  not_mem_substitute (by decide)

/-- What `split` undoes leaves `$(pound)` for `#`: a command kbuild wrote has no `#`, and
every `$` that stood in it is doubled. -/
theorem unescape_kbuildEscape (command : Str) :
    replace ['$', '$'] ['$'] (replace ['\\', '#'] ['#'] (kbuildEscape command)) =
      substitute '#' pound command := by
  have needed : '#' ∈ ['\\', '#'] := by decide
  rw [replace_absent needed (pound_not_mem_kbuildEscape command)]
  induction command with
  | nil => rfl
  | cons char command ih =>
    rw [kbuildEscape_cons, substitute_cons, ← ih]
    by_cases dollar : char = '$'
    · subst dollar
      exact replace_pair
    · rw [if_neg dollar]
      split
      · have noMatch : ¬ ['$', '$'] <+: pound ++ kbuildEscape command := by
          simp [pound, List.cons_prefix_cons]
        have absent : '$' ∉ pound.tail := by decide
        exact (replace_cons noMatch).trans (congrArg _ (replace_append absent))
      · exact replace_append fun member => dollar (List.mem_singleton.mp member).symm

/-- A command without `;` and without dependency flags. -/
def SimpleWords (words : List Str) : Prop :=
  ∀ word ∈ words, word ≠ [';'] ∧ dependencyFlag word = false

instance (words : List Str) : Decidable (SimpleWords words) :=
  inferInstanceAs (Decidable (∀ word ∈ words, _ ∧ _))

theorem shlexSplit_pound (command : Str) :
    shlexSplit (substitute '#' pound command) =
      (shlexSplit command).map (List.map (substitute '#' pound)) :=
  shlexSplit_substitute (by decide) pound_plain

theorem split_kbuildEscape {command : Str} (splits : shlexSplit command = .ok words) :
    split (kbuildEscape command) =
      .ok (((words.map (substitute '#' pound)).takeWhile (· ≠ [';'])).filter
        (!dependencyFlag ·)) := by
  rw [split, unescape_kbuildEscape, shlexSplit_pound, splits]
  rfl

theorem keep_simpleWords (simple : SimpleWords words) :
    (words.takeWhile (· ≠ [';'])).filter (!dependencyFlag ·) = words := by
  have taken : words.takeWhile (· ≠ [';']) = words :=
    List.takeWhile_eq_self_iff.mpr fun word member => decide_eq_true (simple word member).1
  have kept : words.filter (!dependencyFlag ·) = words :=
    List.filter_eq_self.mpr fun word member => by rw [(simple word member).2]; rfl
  rw [taken, kept]

/-- `$(pound)` is not turned back, so no word that `split` returns has a `#`. -/
theorem pound_not_mem_split {command : Str} {words found : List Str}
    (splits : shlexSplit command = .ok words)
    (returned : split (kbuildEscape command) = .ok found) : ∀ word ∈ found, '#' ∉ word := by
  rw [split_kbuildEscape splits] at returned
  cases returned
  intro word member
  have inMap := (List.takeWhile_sublist _).subset (List.mem_of_mem_filter member)
  obtain ⟨original, _, rfl⟩ := List.mem_map.mp inMap
  exact not_mem_substitute (by decide)

/-- The words come back unless the command, which has no line end (`CmdFile.oneLine`), has a `#`:
kbuild writes `$(pound)` for it, and `split` undoes `\#` only. -/
theorem split_restores_iff (file : CmdFile) (command : Str)
    (stored : file.saved = kbuildEscape command) (splits : shlexSplit command = .ok words)
    (simple : SimpleWords words) :
    (parse file.text).1.map split = some (.ok words) ↔ '#' ∉ command := by
  rw [file.parse_text, stored, Option.map_some, Option.some.injEq]
  constructor
  · intro restored member
    obtain ⟨word, inWords, inWord⟩ := mem_shlexSplit (by decide : Plain '#') member splits
    exact pound_not_mem_split splits restored word inWords inWord
  · intro absent
    have same := shlexSplit_pound command
    rw [substitute_absent absent, splits] at same
    have untouched : words = words.map (substitute '#' pound) := Except.ok.inj same
    rw [split_kbuildEscape splits, ← untouched, keep_simpleWords simple]

/-- What kbuild leaves beside `a.o`. -/
def savedBeside (command : Str) (oneLine : OneLine (kbuildEscape command)) : CmdFile where
  before := []
  object := "a.o".toList
  saved := kbuildEscape command
  after := ["".toList, "source_a.o := a.c".toList]
  objectName := by decide
  savedLine := oneLine
  otherLines := by decide

def dollarCommand : Str := "gcc -DX='$Y' -c a.c".toList

def dollarWords : List Str := ["gcc", "-DX=$Y", "-c", "a.c"].map String.toList

theorem split_restores_iff_dollar :
    (parse (savedBeside dollarCommand (by decide)).text).1.map split = some (.ok dollarWords) :=
  (split_restores_iff _ dollarCommand rfl (by decide) (by decide)).mpr (by decide)

def hashCommand : Str := "gcc -DX=# -c a.c".toList

def hashWords : List Str := ["gcc", "-DX=#", "-c", "a.c"].map String.toList

def poundWords : List Str := ["gcc", "-DX=$(pound)", "-c", "a.c"].map String.toList

theorem split_keeps_pound :
    shlexSplit hashCommand = .ok hashWords ∧ SimpleWords hashWords ∧
      (parse (savedBeside hashCommand (by decide)).text).1.map split = some (.ok poundWords) ∧
      poundWords ≠ hashWords := by
  decide

end KernelSamples.Compdb

import KernelSamples.Compdb.Parse

/-! What `split` undoes: a shell command stored in a `.cmd` file with every `$` and `#`
escaped, and the quoting of its words. -/

namespace KernelSamples.Compdb

open Lib

/-- A command stored with every `$` doubled and every `#` written `\#`. -/
def storedForm (command : Str) : Str :=
  substitute '#' ['\\', '#'] (substitute '$' ['$', '$'] command)

/-- The two replacements of `split`. -/
def unescape (cmd : Str) : Str := replace ['$', '$'] ['$'] (replace ['\\', '#'] ['#'] cmd)

/-- Characters that `shlex.quote` leaves without quotes. -/
def quoteSafe (char : Char) : Bool :=
  char.isAlphanum || char ∈ ['_', '@', '%', '+', '=', ':', ',', '.', '/', '-']

/-- `shlex.quote`. -/
def shellQuote (word : Str) : Str :=
  if word = [] then ['\'', '\'']
  else if word.all quoteSafe then word
  else '\'' :: (substitute '\'' ['\'', '"', '\'', '"', '\''] word ++ ['\''])

/-- `shlex.join`. -/
def shellJoin (words : List Str) : Str := List.intercalate [' '] (words.map shellQuote)

/-- A `;` that stands alone, and the commands after it. -/
def thenFurther (further : Str) : Str :=
  if further = [] then [' ', ';'] else ' ' :: ';' :: ' ' :: further

variable {word quoting token : Str} {words found : List Str}

theorem split_eq (cmd : Str) :
    split cmd = (shlexSplit (unescape cmd)).map fun tokens =>
      (tokens.takeWhile (· ≠ [';'])).filter (!dependencyFlag ·) := by
  unfold split unescape
  cases shlexSplit _ <;> rfl

/-- The first replacement leaves every `$` doubled as it was, and the second halves them. -/
theorem unescape_storedForm (command : Str) : unescape (storedForm command) = command := by
  rw [unescape, storedForm, replace_substitute, replace_substitute]

theorem split_storedForm (splits : shlexSplit quoting = .ok words) :
    split (storedForm quoting) =
      .ok ((words.takeWhile (· ≠ [';'])).filter (!dependencyFlag ·)) := by
  rw [split_eq, unescape_storedForm, splits]
  rfl

theorem Plain.of_quoteSafe {char : Char} (safe : quoteSafe char = true) : Plain char := by
  have apart : ∀ {other : Char}, quoteSafe other = false → char ≠ other := by
    intro other notSafe same
    rw [← same, safe] at notSafe
    cases notSafe
  refine ⟨?_, ?_, apart rfl⟩
  · simp [shlexWhitespace, @apart ' ' rfl, @apart '\t' rfl, @apart '\r' rfl, @apart '\n' rfl]
  · simp [shlexQuote, @apart '\'' rfl, @apart '"' rfl]

/-- The lexer takes back what stands between single quotes, each `'` of it being written
`'"'"'`. -/
theorem foldl_singleQuoted (word token : Str) (quoted : Bool) (words : List Str) :
    (substitute '\'' ['\'', '"', '\'', '"', '\''] word ++ ['\'']).foldl Lexer.feed
        ⟨.quoted '\'', token, quoted, words⟩ =
      ⟨.word, token ++ word, true, words⟩ := by
  induction word generalizing token quoted with
  | nil =>
    rw [List.append_nil]
    rfl
  | cons char rest ih =>
    rw [substitute_cons]
    by_cases isQuote : char = '\''
    · subst isQuote
      exact (ih (token ++ ['\'']) true).trans (by simp)
    · have pushed : Lexer.feed ⟨.quoted '\'', token, quoted, words⟩ char =
          ⟨.quoted '\'', token ++ [char], true, words⟩ := by
        simp [Lexer.feed, Lexer.push, isQuote]
      rw [if_neg isQuote, List.append_assoc, List.singleton_append, List.foldl_cons, pushed, ih]
      simp

/-- A quoted word is split into that word. -/
theorem shlexSplit_shellQuote (word : Str) : shlexSplit (shellQuote word) = .ok [word] := by
  unfold shellQuote
  split
  next empty =>
    subst empty
    rfl
  next nonempty =>
    split
    next safe =>
      obtain ⟨char, rest, rfl⟩ := List.exists_cons_of_ne_nil nonempty
      have plain : ∀ other ∈ char :: rest, Plain other := fun other member =>
        .of_quoteSafe (List.all_eq_true.mp safe other member)
      have first : Lexer.initial.feed char = ⟨.word, [char], false, []⟩ :=
        Lexer.feed_plain rfl (plain char List.mem_cons_self)
      have copied := @Lexer.feed_copying ⟨.word, [char], false, []⟩ rest (.inl rfl)
        fun other member => plain other (List.mem_cons_of_mem _ member)
      rw [shlexSplit, List.foldl_cons, first, copied]
      rfl
    next =>
      have opened : Lexer.initial.feed '\'' = ⟨.quoted '\'', [], false, []⟩ := rfl
      rw [shlexSplit, List.foldl_cons, opened, foldl_singleQuoted]
      simp [Lexer.close, Lexer.emit]

/-- Splitting the quoted join of a word list gives that list back. -/
theorem shlexSplit_shellJoin (words : List Str) : shlexSplit (shellJoin words) = .ok words := by
  induction words with
  | nil => rfl
  | cons word rest ih =>
    cases rest with
    | nil =>
      rw [shellJoin, List.map_singleton, List.intercalate_singleton]
      exact shlexSplit_shellQuote word
    | cons next rest =>
      have joined : shellJoin (word :: next :: rest) =
          shellQuote word ++ ' ' :: shellJoin (next :: rest) := by
        rw [shellJoin, List.map_cons, List.map_cons, List.intercalate_cons_cons, List.append_assoc]
        rfl
      rw [joined, shlexSplit_append (shlexSplit_shellQuote word), ih]
      rfl

/-- A standalone `;` is a word of its own, between those before and after it. -/
theorem shlexSplit_thenFurther (splits : shlexSplit quoting = .ok words) (further : Str) :
    shlexSplit (quoting ++ thenFurther further) =
      (shlexSplit further).map (words ++ [';'] :: ·) := by
  have semicolon : shlexSplit [';'] = .ok [[';']] := rfl
  unfold thenFurther
  split
  next none =>
    rw [none, shlexSplit_append splits, semicolon]
    rfl
  next =>
    have further' := @shlexSplit_append [';'] further _ semicolon
    rw [shlexSplit_append splits, ← List.singleton_append, further']
    cases shlexSplit further <;> rfl

theorem bare_passes (bare : [';'] ∉ words) : ∀ word ∈ words, decide (word ≠ [';']) = true :=
  fun _ member => decide_eq_true fun same => bare (same ▸ member)

/-- Only the words before the standalone `;` are left. What follows it matters only in that
it has to be split as well. -/
theorem split_thenFurther (bare : [';'] ∉ words) (splits : shlexSplit quoting = .ok words)
    (further : Str) :
    split (storedForm (quoting ++ thenFurther further)) =
      (shlexSplit further).map fun _ => words.filter (!dependencyFlag ·) := by
  rw [split_eq, unescape_storedForm, shlexSplit_thenFurther splits]
  cases shlexSplit further with
  | error error => rfl
  | ok later =>
    have cut : (words ++ [';'] :: later).takeWhile (· ≠ [';']) = words := by
      rw [List.takeWhile_append_of_pos (bare_passes bare)]
      simp
    simp only [Except.map, cut]

/-- The replacements give back every command that is stored with `$` and `#` escaped. If it
is a quoting of words among which there is no `;`, alone or before a standalone `;`, then
`split` returns these words without the dependency flags. -/
theorem split_undoes_escaping (bare : [';'] ∉ words)
    (splits : shlexSplit quoting = .ok words) :
    (∀ command, unescape (storedForm command) = command ∧
      ∀ file : CmdFile, file.saved = storedForm command →
        (parse file.text).1.map unescape = some command) ∧
    shlexSplit (shellJoin words) = .ok words ∧
    split (storedForm quoting) = .ok (words.filter (!dependencyFlag ·)) ∧
    ∀ further, split (storedForm (quoting ++ thenFurther further)) =
      (shlexSplit further).map fun _ => words.filter (!dependencyFlag ·) := by
  refine ⟨?_, shlexSplit_shellJoin words, ?_, split_thenFurther bare splits⟩
  · intro command
    refine ⟨unescape_storedForm command, ?_⟩
    intro file stored
    rw [file.parse_text, stored, Option.map_some, unescape_storedForm]
  · rw [split_storedForm splits, List.takeWhile_eq_self_iff.mpr (bare_passes bare)]

/-- `gcc` with dependency flags, a quoted `;` and every kind of escaping, before objtool. -/
def objtoolQuoting : Str :=
  "gcc -Wp,-MMD,./.a.o.d '-DX=\\#$$#' -DY=\\\\\\# -D\"Z=a;$\" -Wp,-MD,b -c a.c".toList

def objtoolWords : List Str :=
  ["gcc", "-Wp,-MMD,./.a.o.d", "-DX=\\#$$#", "-DY=\\#", "-DZ=a;$", "-Wp,-MD,b", "-c",
    "a.c"].map String.toList

theorem split_undoes_escaping_objtool :
    split (storedForm (objtoolQuoting ++ thenFurther "objtool --Werror a.o ; true".toList)) =
      .ok (["gcc", "-DX=\\#$$#", "-DY=\\#", "-DZ=a;$", "-c", "a.c"].map String.toList) := by
  have quoted : shlexSplit objtoolQuoting = .ok objtoolWords := by decide
  rw [(split_undoes_escaping (by decide) quoted).2.2.2]
  decide

/-- The commands after the `;` are split with the rest: one that is not closed takes the words
before it with it. -/
theorem unclosed_further_loses_words :
    shlexSplit "gcc -c a.c".toList = .ok (["gcc", "-c", "a.c"].map String.toList) ∧
      split (storedForm ("gcc -c a.c".toList ++ thenFurther "echo done # don't".toList)) =
        .error .noClosingQuotation := by
  decide

end KernelSamples.Compdb

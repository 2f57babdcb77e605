import KernelSamples.Lib.Replace

/-! `shlex.split` as `compdb.py` calls it: POSIX mode, words split at whitespace only, no
comments. -/

namespace KernelSamples.Compdb

open Lib

abbrev Str := List Char

def shlexWhitespace (char : Char) : Bool := char ∈ [' ', '\t', '\r', '\n']

def shlexQuote (char : Char) : Bool := char ∈ ['\'', '"']

/-- Where the lexer stands. An escape goes back to what it interrupted: a word, or a quoted
stretch that its quote will end. -/
inductive LexState where
  | space
  | word
  | quoted (quote : Char)
  | escape (back : Option Char)
  deriving DecidableEq

/-- The words so far, the token under way and whether part of it was quoted. -/
structure Lexer where
  state : LexState
  token : Str
  quoted : Bool
  words : List Str

def Lexer.initial : Lexer := ⟨.space, [], false, []⟩

/-- A token is a word unless it is empty and was not quoted. -/
def Lexer.emit (lexer : Lexer) : Lexer :=
  if lexer.token ≠ [] ∨ lexer.quoted = true then
    { lexer with token := [], quoted := false, words := lexer.words ++ [lexer.token] }
  else lexer

def Lexer.push (lexer : Lexer) (char : Char) : Lexer :=
  { lexer with token := lexer.token ++ [char] }

/-- One round of the loop in `read_token`. -/
def Lexer.feed (lexer : Lexer) (char : Char) : Lexer :=
  match lexer.state with
  | .space =>
    if shlexWhitespace char then lexer.emit
    else if char = '\\' then { lexer with state := .escape none }
    else if shlexQuote char then { lexer with state := .quoted char }
    else { lexer with state := .word, token := [char] }
  | .word =>
    if shlexWhitespace char then { lexer with state := .space }.emit
    else if shlexQuote char then { lexer with state := .quoted char }
    else if char = '\\' then { lexer with state := .escape none }
    else lexer.push char
  | .quoted quote =>
    if char = quote then { lexer with state := .word, quoted := true }
    else if char = '\\' ∧ quote = '"' then
      { lexer with state := .escape (some quote), quoted := true }
    else { lexer with quoted := true }.push char
  | .escape none => { lexer with state := .word }.push char
  | .escape (some quote) =>
    -- Within quotes only the quote itself and the backslash can be escaped.
    if char ≠ '\\' ∧ char ≠ quote then
      ({ lexer with state := .quoted quote }.push '\\').push char
    else { lexer with state := .quoted quote }.push char

inductive ShlexError where
  | noClosingQuotation
  | noEscapedCharacter
  deriving DecidableEq

/-- The end of the text. -/
def Lexer.close (lexer : Lexer) : Except ShlexError (List Str) :=
  match lexer.state with
  | .space | .word => .ok lexer.emit.words
  | .quoted _ => .error .noClosingQuotation
  | .escape _ => .error .noEscapedCharacter

def shlexSplit (text : Str) : Except ShlexError (List Str) :=
  (text.foldl Lexer.feed .initial).close

/-- A character the lexer only ever copies into a token. -/
def Plain (char : Char) : Prop :=
  shlexWhitespace char = false ∧ shlexQuote char = false ∧ char ≠ '\\'

instance (char : Char) : Decidable (Plain char) := inferInstanceAs (Decidable (_ ∧ _ ∧ _))

namespace Lexer

variable {lexer : Lexer} {char target : Char} {new text : Str}

/-- The lexer as it stands after a text in which a character was written out longer. -/
def substitute (target : Char) (new : Str) (lexer : Lexer) : Lexer :=
  { lexer with
    token := Lib.substitute target new lexer.token
    words := lexer.words.map (Lib.substitute target new) }

/-- States in which a plain character is simply appended. -/
def Copying (lexer : Lexer) : Prop :=
  lexer.state = .word ∨ ∃ quote, lexer.state = .quoted quote ∧ shlexQuote quote = true ∧
    lexer.quoted = true

/-- There is no token between words. The quote that ends the stretch the lexer is in is a
quote, and an escape inside of it has seen part of the stretch. -/
def Coherent (lexer : Lexer) : Prop :=
  match lexer.state with
  | .space => lexer.token = []
  | .quoted quote => shlexQuote quote = true
  | .escape (some quote) => shlexQuote quote = true ∧ lexer.quoted = true
  | _ => True

theorem plain_ne_quote (plain : Plain char) {quote : Char} (isQuote : shlexQuote quote = true) :
    char ≠ quote := by
  rintro rfl
  exact absurd isQuote (by simp [plain.2.1])

theorem emit_state (lexer : Lexer) : lexer.emit.state = lexer.state := by
  unfold emit
  split <;> rfl

theorem emit_token (lexer : Lexer) : lexer.emit.token = [] := by
  unfold emit
  split
  next => rfl
  next silent => exact not_not.mp fun kept => silent (.inl kept)

theorem Coherent.feed (coherent : lexer.Coherent) (char : Char) : (lexer.feed char).Coherent := by
  unfold Lexer.feed
  cases state : lexer.state with
  | space =>
    dsimp only
    split
    · simp only [Coherent, emit_state, state, emit_token]
    · split
      · trivial
      · split
        · rename_i quote
          exact quote
        · trivial
  | word =>
    dsimp only
    split
    · simp only [Coherent, emit_state, emit_token]
    · split
      · rename_i quote
        exact quote
      · split
        · trivial
        · simp only [Coherent, push, state]
  | quoted quote =>
    simp only [Coherent, state] at coherent
    dsimp only
    split
    · trivial
    · split
      · exact ⟨coherent, rfl⟩
      · simp only [Coherent, push]
        exact coherent
  | escape back =>
    cases back with
    | none => trivial
    | some quote =>
      simp only [Coherent, state] at coherent
      dsimp only
      split <;> exact coherent.1

theorem Copying.coherent (copying : lexer.Copying) : lexer.Coherent := by
  rcases copying with state | ⟨quote, state, isQuote, _⟩
  · simp only [Coherent, state]
  · simp only [Coherent, state, isQuote]

/-- The lexer just before it appends a plain character. -/
def ready (lexer : Lexer) : Lexer :=
  match lexer.state with
  | .space => { lexer with state := .word, token := [] }
  | .word => lexer
  | .quoted _ => { lexer with quoted := true }
  | .escape none => { lexer with state := .word }
  | .escape (some quote) => { lexer with state := .quoted quote, token := lexer.token ++ ['\\'] }

theorem Copying.ready (copying : lexer.Copying) : lexer.ready = lexer := by
  obtain ⟨state, token, quoted, words⟩ := lexer
  rcases copying with rfl | ⟨quote, rfl, _, rfl⟩ <;> rfl

theorem Coherent.copying_ready (coherent : lexer.Coherent) : lexer.ready.Copying := by
  obtain ⟨state, token, quoted, words⟩ := lexer
  cases state with
  | space => exact .inl rfl
  | word => exact .inl rfl
  | quoted quote => exact .inr ⟨quote, rfl, coherent, rfl⟩
  | escape back =>
    cases back with
    | none => exact .inl rfl
    | some quote => exact .inr ⟨quote, rfl, coherent.1, coherent.2⟩

theorem feed_plain (coherent : lexer.Coherent) (plain : Plain char) :
    lexer.feed char = lexer.ready.push char := by
  obtain ⟨blank, quote, escape⟩ := plain
  cases state : lexer.state with
  | space => simp [feed, ready, push, state, blank, quote, escape]
  | word => simp [feed, ready, push, state, blank, quote, escape]
  | quoted mark =>
    simp only [Coherent, state] at coherent
    have stays := plain_ne_quote ⟨blank, quote, escape⟩ coherent
    simp [feed, ready, push, state, stays, escape]
  | escape back =>
    cases back with
    | none => simp [feed, ready, push, state]
    | some mark =>
      simp only [Coherent, state] at coherent
      have stays := plain_ne_quote ⟨blank, quote, escape⟩ coherent.1
      simp [feed, ready, push, state, stays, escape]

/-- Feeding plain characters in a copying state appends them. -/
theorem feed_copying (copying : lexer.Copying) (plain : ∀ char ∈ text, Plain char) :
    text.foldl feed lexer = { lexer with token := lexer.token ++ text } := by
  induction text generalizing lexer with
  | nil => simp
  | cons char rest ih =>
    have copying' : (lexer.push char).Copying := copying
    rw [List.foldl_cons, feed_plain copying.coherent (plain char List.mem_cons_self), copying.ready,
      ih copying' fun char member => plain char (List.mem_cons_of_mem _ member)]
    simp [push]

theorem substitute_push (different : char ≠ target) :
    (lexer.push char).substitute target new = (lexer.substitute target new).push char := by
  simp [substitute, push, substitute_append, substitute_cons, different]

theorem substitute_emit (nonempty : new ≠ []) :
    lexer.emit.substitute target new = (lexer.substitute target new).emit := by
  have same : Lib.substitute target new lexer.token = [] ↔ lexer.token = [] :=
    substitute_nonempty nonempty
  unfold emit
  by_cases emits : lexer.token ≠ [] ∨ lexer.quoted = true
  · have emits' : (lexer.substitute target new).token ≠ [] ∨
        (lexer.substitute target new).quoted = true := by
      simpa [substitute, same] using emits
    rw [if_pos emits, if_pos emits']
    simp [substitute]
  · have silent : ¬ ((lexer.substitute target new).token ≠ [] ∨
        (lexer.substitute target new).quoted = true) := by
      simpa [substitute, same] using emits
    rw [if_neg emits, if_neg silent]

/-- A character that is not written out longer is lexed as before. -/
theorem feed_other (plain : Plain target) (nonempty : new ≠ []) (different : char ≠ target) :
    (lexer.feed char).substitute target new = (lexer.substitute target new).feed char := by
  have kept : Lib.substitute target new [char] = [char] := by
    rw [substitute_cons, if_neg different]
    rfl
  have same : (lexer.substitute target new).state = lexer.state := rfl
  unfold feed
  rw [same]
  cases lexer.state with
  | space =>
    dsimp only
    split
    · exact substitute_emit nonempty
    · split
      · rfl
      · split
        · rfl
        · simp only [substitute, kept]
  | word =>
    dsimp only
    split
    · exact substitute_emit nonempty
    · split
      · rfl
      · split
        · rfl
        · exact substitute_push different
  | quoted quote =>
    dsimp only
    split
    · rfl
    · split
      · rfl
      · exact substitute_push different
  | escape back =>
    cases back with
    | none => exact substitute_push different
    | some quote =>
      dsimp only
      split
      · rw [substitute_push different, substitute_push plain.2.2.symm]
        rfl
      · exact substitute_push different

theorem Coherent.substitute (coherent : lexer.Coherent) (target : Char) (new : Str) :
    (lexer.substitute target new).Coherent := by
  obtain ⟨state, token, quoted, words⟩ := lexer
  cases state with
  | space =>
    have empty : token = [] := coherent
    subst empty
    rfl
  | word => trivial
  | quoted quote => exact coherent
  | escape back =>
    cases back with
    | none => trivial
    | some quote => exact coherent

theorem substitute_ready (plain : Plain target) :
    lexer.ready.substitute target new = (lexer.substitute target new).ready := by
  obtain ⟨state, token, quoted, words⟩ := lexer
  cases state with
  | space => rfl
  | word => rfl
  | quoted quote => rfl
  | escape back =>
    cases back with
    | none => rfl
    | some quote =>
      simp [ready, substitute, substitute_append, substitute_cons, plain.2.2.symm]

/-- A character written out as plain characters is copied as these. -/
theorem feed_target {first : Char} (coherent : lexer.Coherent) (plain : Plain target)
    (plainNew : ∀ char ∈ first :: text, Plain char) :
    (lexer.feed target).substitute target (first :: text) =
      (first :: text).foldl feed (lexer.substitute target (first :: text)) := by
  have coherent' := coherent.substitute target (first :: text)
  have copying : ((lexer.substitute target (first :: text)).ready.push first).Copying :=
    coherent'.copying_ready
  have plainRest : ∀ char ∈ text, Plain char := fun char member =>
    plainNew char (List.mem_cons_of_mem _ member)
  rw [List.foldl_cons, feed_plain coherent' (plainNew first List.mem_cons_self),
    feed_copying copying plainRest, feed_plain coherent plain, ← substitute_ready plain]
  simp [push, substitute, substitute_append, substitute_cons]

/-- Writing a plain character out longer, before or after lexing, comes to the same. -/
theorem foldl_substitute {first : Char} {rest : Str} (coherent : lexer.Coherent)
    (plain : Plain target) (plainNew : ∀ char ∈ first :: rest, Plain char) :
    (text.foldl feed lexer).substitute target (first :: rest) =
      (Lib.substitute target (first :: rest) text).foldl feed
        (lexer.substitute target (first :: rest)) := by
  induction text generalizing lexer with
  | nil => rfl
  | cons char text ih =>
    rw [List.foldl_cons, ih (coherent.feed char), substitute_cons, List.foldl_append]
    split
    next same => rw [same, feed_target coherent plain plainNew]
    next different =>
      rw [feed_other plain (List.cons_ne_nil _ _) different]
      rfl

theorem close_substitute (nonempty : new ≠ []) :
    (lexer.substitute target new).close =
      lexer.close.map (List.map (Lib.substitute target new)) := by
  have same : (lexer.substitute target new).state = lexer.state := rfl
  unfold close
  rw [same, ← substitute_emit nonempty]
  cases lexer.state <;> rfl

/-- Some word has the character, or will have it. -/
def Holds (lexer : Lexer) (target : Char) : Prop :=
  target ∈ lexer.token ∨ ∃ word ∈ lexer.words, target ∈ word

theorem Holds.push (holds : lexer.Holds target) (char : Char) :
    (lexer.push char).Holds target :=
  holds.imp_left (List.mem_append_left _)

theorem Holds.emit (holds : lexer.Holds target) : ∃ word ∈ lexer.emit.words, target ∈ word := by
  unfold Lexer.emit
  rcases holds with inToken | ⟨word, member, inWord⟩
  · rw [if_pos (.inl (List.ne_nil_of_mem inToken))]
    exact ⟨lexer.token, List.mem_append_right _ List.mem_cons_self, inToken⟩
  · split
    · exact ⟨word, List.mem_append_left _ member, inWord⟩
    · exact ⟨word, member, inWord⟩

/-- What a word has it keeps. -/
theorem Holds.feed (holds : lexer.Holds target) (coherent : lexer.Coherent) (char : Char) :
    (lexer.feed char).Holds target := by
  unfold Lexer.feed
  cases state : lexer.state with
  | space =>
    simp only [Coherent, state] at coherent
    have inWords : ∃ word ∈ lexer.words, target ∈ word := by simpa [Holds, coherent] using holds
    dsimp only
    split
    · exact .inr holds.emit
    · split
      · exact holds
      · split
        · exact holds
        · exact .inr inWords
  | word =>
    dsimp only
    split
    · have moved : { lexer with state := LexState.space }.Holds target := holds
      exact .inr moved.emit
    · split
      · exact holds
      · split
        · exact holds
        · exact holds.push char
  | quoted quote =>
    dsimp only
    split
    · exact holds
    · split
      · exact holds
      · exact holds.push char
  | escape back =>
    cases back with
    | none => exact holds.push char
    | some quote =>
      dsimp only
      split
      · exact (holds.push '\\').push char
      · exact holds.push char

theorem foldl_holds (coherent : lexer.Coherent) (plain : Plain target)
    (starts : lexer.Holds target ∨ target ∈ text) : (text.foldl feed lexer).Holds target := by
  induction text generalizing lexer with
  | nil => exact starts.resolve_right List.not_mem_nil
  | cons char text ih =>
    apply ih (coherent.feed char)
    rcases starts with holds | member
    · exact .inl (holds.feed coherent char)
    · rcases List.mem_cons.mp member with rfl | member
      · rw [feed_plain coherent plain]
        exact .inl (.inl (List.mem_append_right _ List.mem_cons_self))
      · exact .inr member

theorem Holds.close {words : List Str} (holds : lexer.Holds target)
    (closed : lexer.close = .ok words) : ∃ word ∈ words, target ∈ word := by
  unfold Lexer.close at closed
  split at closed
  · cases closed
    exact holds.emit
  · cases closed
    exact holds.emit
  · cases closed
  · cases closed

/-- The lexer between two words. -/
def between (words : List Str) : Lexer := ⟨.space, [], false, words⟩

/-- The lexer with words found earlier in front. -/
def after (earlier : List Str) (lexer : Lexer) : Lexer :=
  { lexer with words := earlier ++ lexer.words }

variable {earlier words : List Str}

theorem emit_quoted (lexer : Lexer) : lexer.emit.quoted = false := by
  unfold emit
  split
  next => rfl
  next silent => exact Bool.eq_false_iff.mpr fun quoted => silent (.inr quoted)

theorem emit_eq_between (space : lexer.state = .space) :
    lexer.emit = between lexer.emit.words := by
  have state := (emit_state lexer).trans space
  have token := emit_token lexer
  have quoted := emit_quoted lexer
  generalize lexer.emit = emitted at state token quoted
  obtain ⟨_, _, _, words⟩ := emitted
  cases state
  cases token
  cases quoted
  rfl

/-- Where a text can end, a blank brings the lexer between two words. -/
theorem feed_blank (closes : lexer.close = .ok words) (blank : shlexWhitespace char = true) :
    lexer.feed char = between words := by
  obtain ⟨state, token, quoted, found⟩ := lexer
  cases state with
  | space =>
    cases closes
    simp only [feed, blank, if_true]
    exact emit_eq_between rfl
  | word =>
    have same : Lexer.emit ⟨.space, token, quoted, found⟩ = between words := by
      rw [emit_eq_between rfl]
      cases closes
      unfold emit
      split <;> rfl
    simpa only [feed, blank, if_true] using same
  | quoted quote => cases closes
  | escape back => cases closes

theorem emit_after (earlier : List Str) (lexer : Lexer) :
    (lexer.after earlier).emit = lexer.emit.after earlier := by
  unfold emit after
  split
  · simp
  · rfl

/-- The words found earlier do not change how the lexer goes on. -/
theorem feed_after (earlier : List Str) (lexer : Lexer) (char : Char) :
    (lexer.after earlier).feed char = (lexer.feed char).after earlier := by
  obtain ⟨state, token, quoted, found⟩ := lexer
  have emits := emit_after earlier ⟨.space, token, quoted, found⟩
  unfold after at emits
  cases state with
  | space =>
    simp only [feed, after, emits]
    split
    · rfl
    · split
      · rfl
      · split <;> rfl
  | word =>
    simp only [feed, after, emits]
    split
    · rfl
    · split
      · rfl
      · split <;> rfl
  | quoted quote =>
    simp only [feed, after]
    split
    · rfl
    · split <;> rfl
  | escape back =>
    cases back with
    | none => rfl
    | some quote =>
      simp only [feed, after]
      split <;> rfl

theorem foldl_after (earlier : List Str) (lexer : Lexer) (text : Str) :
    text.foldl feed (lexer.after earlier) = (text.foldl feed lexer).after earlier := by
  induction text generalizing lexer with
  | nil => rfl
  | cons char rest ih => rw [List.foldl_cons, List.foldl_cons, feed_after, ih]

theorem close_after (earlier : List Str) (lexer : Lexer) :
    (lexer.after earlier).close = lexer.close.map (earlier ++ ·) := by
  have emits := emit_after earlier lexer
  obtain ⟨state, token, quoted, found⟩ := lexer
  cases state with
  | space => exact congrArg (fun lexer : Lexer => Except.ok lexer.words) emits
  | word => exact congrArg (fun lexer : Lexer => Except.ok lexer.words) emits
  | quoted quote => rfl
  | escape back => rfl

end Lexer

/-- A plain character of the text turns up in a word. -/
theorem mem_shlexSplit {target : Char} {text : Str} {words : List Str} (plain : Plain target)
    (member : target ∈ text) (splits : shlexSplit text = .ok words) :
    ∃ word ∈ words, target ∈ word :=
  have initial : Lexer.initial.Coherent := rfl
  (Lexer.foldl_holds initial plain (.inr member)).close splits

/-- Splitting commutes with writing a plain character out as plain characters. -/
theorem shlexSplit_substitute {target first : Char} {rest text : Str} (plain : Plain target)
    (plainNew : ∀ char ∈ first :: rest, Plain char) :
    shlexSplit (substitute target (first :: rest) text) =
      (shlexSplit text).map (List.map (substitute target (first :: rest))) := by
  have initial : Lexer.initial.Coherent := rfl
  have folded := @Lexer.foldl_substitute .initial target text first rest initial plain plainNew
  unfold shlexSplit
  rw [← Lexer.close_substitute (List.cons_ne_nil _ _), folded]
  rfl

/-- Texts that can be split on their own are split apart at a space between them. -/
theorem shlexSplit_append {text rest : Str} {words : List Str}
    (splits : shlexSplit text = .ok words) :
    shlexSplit (text ++ ' ' :: rest) = (shlexSplit rest).map (words ++ ·) := by
  have between : (text.foldl Lexer.feed .initial).feed ' ' = Lexer.initial.after words := by
    rw [Lexer.feed_blank splits rfl]
    exact congrArg (Lexer.mk .space [] false) (List.append_nil words).symm
  rw [shlexSplit, List.foldl_append, List.foldl_cons, between, Lexer.foldl_after,
    Lexer.close_after]
  rfl

end KernelSamples.Compdb

import KernelSamples.Compdb.Rewrite
import KernelSamples.Lib.Arguments

/-! An option and the word it takes as its value, in the command and in the entry. Which
options take one is the compiler's affair; `WITH_VALUE` lists some of them. -/

namespace KernelSamples.Compdb

open Lib

def commandGrammar (takesValue : Str → Bool) : Grammar Str where
  option := dashed
  valued := takesValue

/-- What is known of the compiler and of the probe. -/
structure Compiler (takesValue : Str → Bool) (probe : Str → Option Str → Bool) : Prop where
  withValue : ∀ option ∈ withValue, takesValue option = true
  unused : takesValue unusedArguments = false
  target : ∀ triple, takesValue (targetOption triple) = false
  rejects : ∀ option triple, takesValue option = true → probe option triple = false

/-- Paths do not look like options. -/
structure Record.Paths (record : Record) : Prop where
  src : dashed record.src = false
  real : dashed record.real = false

/-- What the loop over `args[1:]` makes of one word. -/
def Record.emitted (known : List (Query × Bool)) (record : Record) (word : Str) :
    Option Str :=
  if word = record.src then some record.real
  else if (known.lookup (word, record.triple)).getD true then some word
  else none

def Record.pairs (takesValue : Str → Bool) (record : Record) : List (Str × Str) :=
  (commandGrammar takesValue).pairs record.options

/-- Both words of a pair are kept or neither is, and the operands are those of the command,
with the source replaced by its real path. -/
structure Record.Together (takesValue : Str → Bool) (known : List (Query × Bool))
    (record : Record) : Prop where
  pairs : ∀ pair ∈ record.pairs takesValue,
    (record.emitted known pair.1).isSome = (record.emitted known pair.2).isSome
  operands : ∃ rest, (entry known record).arguments = record.driver :: rest ∧
    (commandGrammar takesValue).operands rest =
      ((commandGrammar takesValue).operands record.options).map fun word =>
        if word = record.src then record.real else word

/-- The word stands in the command behind an even number of words of `WITH_VALUE`, and so not
where the last of them would have its value. -/
def Record.Shown (record : Record) (word : Str) : Prop :=
  ∃ front rest, record.options = front ++ word :: rest ∧
    (front.rtakeWhile withValue.contains).length % 2 = 0

/-- The word is of the kind that clang is asked about and stands in a command for this target,
here or in another `.cmd` file, where it is not taken for a value. -/
def Asked (records : List Record) (triple : Option Str) (word : Str) : Prop :=
  Candidate word ∧ ∃ record ∈ records, triple = record.triple ∧ record.Shown word

variable {takesValue : Str → Bool} {probe : Str → Option Str → Bool} {records : List Record}
  {record : Record} {word option value : Str} {words : List Str}
  {known : List (Query × Bool)} {skip : Bool}

theorem keep_eq_emitted : keep known record words = words.filterMap (record.emitted known) := by
  induction words with
  | nil => rfl
  | cons word rest ih =>
    rw [keep, ih, List.filterMap_cons, Record.emitted]
    by_cases source : word = record.src
    · simp [source]
    · by_cases kept : (known.lookup (word, record.triple)).getD true = true
      · simp [source, kept]
      · simp [source, kept]

theorem dashed_of_candidate (candidate : Candidate word) : dashed word = true := by
  have isProbed := candidate.2
  simp only [probed, Bool.and_eq_true] at isProbed
  exact isProbed.1.1

/-- Whether the scan takes the next word for a value. -/
def skipsNext (skip : Bool) (word : Str) : Bool := !skip && withValue.contains word

theorem mem_candidatesFrom_iff :
    word ∈ candidatesFrom skip words ↔ Candidate word ∧
      ∃ front rest, words = front ++ word :: rest ∧ front.foldl skipsNext skip = false := by
  induction words generalizing skip with
  | nil => simp [candidatesFrom]
  | cons first words ih =>
    have splits : (∃ front rest, first :: words = front ++ word :: rest ∧
        front.foldl skipsNext skip = false) ↔ (first = word ∧ skip = false) ∨
        ∃ front rest, words = front ++ word :: rest ∧
          front.foldl skipsNext (skipsNext skip first) = false := by
      constructor
      · rintro ⟨_ | ⟨_, front⟩, rest, same, passes⟩
        · exact .inl ⟨(List.cons.inj same).1, passes⟩
        · obtain ⟨rfl, later⟩ := List.cons.inj same
          exact .inr ⟨front, rest, later, passes⟩
      · rintro (⟨rfl, passes⟩ | ⟨front, rest, rfl, passes⟩)
        · exact ⟨[], words, rfl, passes⟩
        · exact ⟨first :: front, rest, rfl, passes⟩
    have step : word ∈ candidatesFrom skip (first :: words) ↔
        (Candidate word ∧ first = word ∧ skip = false) ∨
          word ∈ candidatesFrom (skipsNext skip first) words := by
      cases skip with
      | true => simp [candidatesFrom, skipsNext]
      | false =>
        rw [candidatesFrom_cons, List.mem_append, skipsNext, List.contains_eq_mem]
        apply or_congr _ Iff.rfl
        by_cases candidate : Candidate first
        · rw [if_pos candidate, List.mem_singleton]
          constructor
          · rintro rfl
            exact ⟨candidate, rfl, rfl⟩
          · exact fun found => found.2.1.symm
        · rw [if_neg candidate]
          constructor
          · exact fun none => absurd none List.not_mem_nil
          · rintro ⟨found, rfl, -⟩
            exact absurd found candidate
    rw [step, ih, splits, and_or_left]

/-- The scan takes every second word of a run of `WITH_VALUE` words for a value. -/
theorem foldl_skipsNext (front : List Str) : front.foldl skipsNext false = false ↔
    (front.rtakeWhile withValue.contains).length % 2 = 0 := by
  induction front using List.reverseRecOn with
  | nil => simp
  | append_singleton front last ih =>
    rw [List.foldl_concat, skipsNext, List.rtakeWhile_concat]
    cases withValue.contains last with
    | false => simp
    | true =>
      rw [if_pos rfl, List.length_append, List.length_singleton]
      cases skip : front.foldl skipsNext false with
      | true =>
        rw [skip] at ih
        simp only [Bool.true_eq_false, false_iff] at ih
        simp only [Bool.not_true, Bool.false_and, true_iff]
        omega
      | false =>
        have even := ih.mp skip
        simp only [Bool.not_false, Bool.and_self, Bool.true_eq_false, false_iff]
        omega

/-- These are the words that `candidates` yields. -/
theorem asked_iff {triple : Option Str} : Asked records triple word ↔
    ∃ record ∈ records, word ∈ candidates record.args ∧ triple = record.triple := by
  have yielded (record : Record) : word ∈ candidates record.args ↔
      Candidate word ∧ record.Shown word := by
    rw [candidates, Record.args, List.tail_cons, mem_candidatesFrom_iff]
    simp only [foldl_skipsNext, Record.Shown]
  simp only [yielded, Asked]
  constructor
  · rintro ⟨candidate, record, recorded, triple, shown⟩
    exact ⟨record, recorded, ⟨candidate, shown⟩, triple⟩
  · rintro ⟨record, recorded, ⟨candidate, shown⟩, triple⟩
    exact ⟨candidate, record, recorded, triple, shown⟩

theorem isSome_emitted_iff :
    (record.emitted (verdicts probe (wanted records)) word).isSome = true ↔
      ¬ (Asked records record.triple word ∧ probe word record.triple = false ∧
        word ≠ record.src) := by
  rw [Record.emitted]
  by_cases source : word = record.src
  · simp [source]
  · rw [lookup_verdicts]
    by_cases asked : (word, record.triple) ∈ wanted records
    · have asked' : Asked records record.triple word := asked_iff.mpr (mem_wanted.mp asked)
      cases accepted : probe word record.triple with
      | true => simp [source, asked]
      | false => simp [source, asked, asked']
    · have unasked : ¬ Asked records record.triple word :=
        fun asked' => asked (mem_wanted.mpr (asked_iff.mp asked'))
      simp [source, asked, unasked]

/-- A word that does not look like an option is never dropped. -/
theorem emitted_operand (undashed : dashed word = false) :
    record.emitted (verdicts probe (wanted records)) word =
      some (if word = record.src then record.real else word) := by
  have kept : (record.emitted (verdicts probe (wanted records)) word).isSome = true := by
    apply isSome_emitted_iff.mpr
    intro rejected
    rw [dashed_of_candidate rejected.1.1] at undashed
    cases undashed
  rw [Record.emitted] at kept ⊢
  split
  · rfl
  · rename_i other
    rw [if_neg other] at kept
    split
    · rfl
    · rename_i rejected
      rw [if_neg rejected] at kept
      cases kept

theorem emitted_option (paths : record.Paths) (isOption : dashed word = true) :
    record.emitted known word = none ∨ record.emitted known word = some word := by
  have other : word ≠ record.src := by
    rintro rfl
    rw [paths.src] at isOption
    cases isOption
  rw [Record.emitted, if_neg other]
  split
  · exact .inr rfl
  · exact .inl rfl

theorem option_of_mem_pairs {pair : Str × Str} (member : pair ∈ record.pairs takesValue) :
    dashed pair.1 = true ∧ takesValue pair.1 = true := by
  have isOption := Grammar.option_of_mem_pairs
    (fun option (found : option ∈ none) => by cases found) member
  simpa [commandGrammar] using isOption

/-- What `entry` puts in after the driver is an option that takes no value. -/
theorem operands_added (compiler : Compiler takesValue probe) :
    ∃ rest, (entry known record).arguments = record.driver :: rest ∧
      (commandGrammar takesValue).operands rest =
        (commandGrammar takesValue).operands (keep known record record.options) := by
  have unused : dashed unusedArguments = true := by decide
  have target : ∀ triple, dashed (targetOption triple) = true := fun triple => rfl
  rw [entry]
  by_cases targeted : truthy record.triple = true
  · refine ⟨unusedArguments :: targetOption (record.triple.getD []) ::
      keep known record record.options, by simp [targeted], ?_⟩
    simp [Grammar.operands, Grammar.operandsFrom, commandGrammar, unused, target,
      compiler.unused, compiler.target]
  · refine ⟨unusedArguments :: keep known record record.options, by simp [targeted], ?_⟩
    simp [Grammar.operands, Grammar.operandsFrom, commandGrammar, unused, compiler.unused]

/-- Pairs that live or die together are all that it takes. -/
theorem together_iff_pairs (compiler : Compiler takesValue probe) (paths : record.Paths) :
    record.Together takesValue (verdicts probe (wanted records)) ↔
      ∀ pair ∈ record.pairs takesValue,
        (record.emitted (verdicts probe (wanted records)) pair.1).isSome =
          (record.emitted (verdicts probe (wanted records)) pair.2).isSome := by
  constructor
  · exact fun together => together.pairs
  · intro pairs
    obtain ⟨rest, arguments, added⟩ := @operands_added _ _ record
      (verdicts probe (wanted records)) compiler
    refine ⟨pairs, rest, arguments, ?_⟩
    have operands : ∀ word, dashed word = false →
        ∃ rewritten, record.emitted (verdicts probe (wanted records)) word =
          some rewritten ∧ dashed rewritten = false := by
      intro word operand
      refine ⟨_, emitted_operand operand, ?_⟩
      split
      · exact paths.real
      · exact operand
    have kept := @Grammar.operandsFrom_filterMap _ (commandGrammar takesValue) record.options
      (record.emitted (verdicts probe (wanted records))) none pairs
      (fun word isOption => emitted_option paths isOption) operands
    rw [added, keep_eq_emitted, Grammar.operands]
    refine kept.trans ?_
    rw [← List.filterMap_eq_map]
    apply List.filterMap_congr
    intro word member
    exact emitted_operand (Grammar.operand_of_mem member)

/-- The scan and the compiler agree on what is a value, where no value looks like an option. -/
theorem yielded_of_pair {pair : Str × Str} {pending : Option Str}
    (compiler : Compiler takesValue probe) (waits : skip = true → pending.isSome = true)
    (undashed : ∀ pair ∈ (commandGrammar takesValue).pairsFrom pending words,
      dashed pair.2 = false)
    (member : pair ∈ (commandGrammar takesValue).pairsFrom pending words)
    (candidate : Candidate pair.1) :
    pair.1 ∈ candidatesFrom skip words ∨ pending = some pair.1 := by
  induction words generalizing skip pending with
  | nil => exact absurd member List.not_mem_nil
  | cons word rest ih =>
    cases pending with
    | some option =>
      rcases List.mem_cons.mp member with rfl | later
      · exact .inr rfl
      · left
        have unlisted : word ∉ withValue := by
          intro listed
          have isDashed : ∀ option ∈ withValue, dashed option = true := by decide
          have value := undashed _ List.mem_cons_self
          rw [isDashed word listed] at value
          cases value
        have found := @ih false none (fun waits => by cases waits)
          (fun pair inside => undashed pair (List.mem_cons_of_mem _ inside)) later
        have found := found.resolve_right (fun none => by cases none)
        cases skip with
        | true => exact found
        | false =>
          rw [candidatesFrom_cons]
          simpa [unlisted] using Or.inr found
    | none =>
      have awake : skip = false := by
        cases skip with
        | true => exact absurd (waits rfl) (by decide)
        | false => rfl
      subst awake
      rw [candidatesFrom_cons]
      have found := @ih (word ∈ withValue) _ ?_ undashed member
      · rcases found with yielded | here
        · exact .inl (List.mem_append_right _ yielded)
        · left
          split at here
          next valued =>
            obtain rfl := Option.some.inj here
            rw [if_pos candidate]
            exact List.mem_append_left _ List.mem_cons_self
          next => cases here
      · intro listed
        have isDashed : ∀ option ∈ withValue, dashed option = true := by decide
        have listed := of_decide_eq_true listed
        simp [commandGrammar, isDashed word listed, compiler.withValue word listed]

/-- An option and its value live or die together exactly where the option is a word that clang is
asked about just when the value is one and clang rejects it. Where no value looks like an option,
this is: no option with a value is of the kind that `candidates` yields. -/
theorem option_values_together_iff (takesValue : Str → Bool) (probe : Str → Option Str → Bool)
    (compiler : Compiler takesValue probe) (records : List Record) (record : Record)
    (recorded : record ∈ records) (paths : record.Paths) :
    (record.Together takesValue (verdicts probe (wanted records)) ↔
      ∀ pair ∈ record.pairs takesValue,
        (Asked records record.triple pair.1 ↔
          Asked records record.triple pair.2 ∧ probe pair.2 record.triple = false ∧
            pair.2 ≠ record.src)) ∧
    ((∀ pair ∈ record.pairs takesValue, dashed pair.2 = false) →
      (record.Together takesValue (verdicts probe (wanted records)) ↔
        ∀ pair ∈ record.pairs takesValue, ¬ Candidate pair.1)) := by
  have general : record.Together takesValue (verdicts probe (wanted records)) ↔
      ∀ pair ∈ record.pairs takesValue,
        (Asked records record.triple pair.1 ↔
          Asked records record.triple pair.2 ∧ probe pair.2 record.triple = false ∧
            pair.2 ≠ record.src) := by
    rw [together_iff_pairs compiler paths]
    apply forall₂_congr
    intro pair member
    obtain ⟨isOption, valued⟩ := option_of_mem_pairs member
    have other : pair.1 ≠ record.src := by
      intro same
      rw [same, paths.src] at isOption
      cases isOption
    have rejected := compiler.rejects pair.1 record.triple valued
    rw [Bool.eq_iff_iff, isSome_emitted_iff, isSome_emitted_iff, not_iff_not]
    simp only [rejected, other, ne_eq, not_false_eq_true, and_true]
  refine ⟨general, fun undashed => general.trans ?_⟩
  apply forall₂_congr
  intro pair member
  have unasked : ¬ Asked records record.triple pair.2 := by
    intro asked
    have value := undashed pair member
    rw [dashed_of_candidate asked.1] at value
    cases value
  constructor
  · intro alike candidate
    have yielded := @yielded_of_pair _ _ _ false pair none compiler
      (fun waits => by cases waits) undashed member candidate
    have yielded := yielded.resolve_right (fun none => by cases none)
    exact unasked (alike.mp (asked_iff.mpr ⟨record, recorded, yielded, rfl⟩)).1
  · intro never
    constructor
    · exact fun asked => absurd asked.1 never
    · exact fun both => absurd both.1 unasked

/-- gcc's `--param` is not in `WITH_VALUE`. -/
def valuedByGcc (word : Str) : Bool := ("--param".toList :: withValue).contains word

def rejectsAlone (flag : Str) (_ : Option Str) : Bool := !valuedByGcc flag

theorem compiler_valuedByGcc : Compiler valuedByGcc rejectsAlone where
  withValue := fun option listed =>
    List.contains_iff_mem.mpr (List.mem_cons_of_mem _ listed)
  unused := by decide
  target := by
    intro triple
    apply Bool.eq_false_iff.mpr
    intro member
    rw [valuedByGcc, List.contains_iff_mem] at member
    have apart : ∀ word ∈ "--param".toList :: withValue,
        ¬ "--target=".toList.isPrefixOf word = true := by decide
    apply apart _ member
    exact List.isPrefixOf_iff_prefix.mpr (List.prefix_append _ _)
  rejects := fun option _ valued => by rw [rejectsAlone, valued]; rfl

theorem option_values_together_iff_listed :
    (listRecord "arm64-gcc").Together valuedByGcc
      (verdicts rejectsAlone (wanted [listRecord "x86_64-gcc", listRecord "arm64-gcc"])) :=
  ((option_values_together_iff valuedByGcc rejectsAlone compiler_valuedByGcc _
    (listRecord "arm64-gcc") (by simp) ⟨by decide, by decide⟩).2 (by decide)).mpr (by decide)

/-- What a kernel with KASAN is built with. -/
def kasanRecord : Record where
  directory := "/s/.build-list".toList
  src := "../list.c".toList
  real := "/s/list.c".toList
  driver := "gcc".toList
  options := ["-include", "./a.h", "--param", "asan-stack=1", "-c", "-o", "list.o",
    "../list.c"].map String.toList

theorem param_value_orphaned :
    Compiler valuedByGcc rejectsAlone ∧ kasanRecord.Paths ∧
      (entries rejectsAlone [kasanRecord]).map Entry.arguments =
        [["gcc", "-Qunused-arguments", "-include", "./a.h", "asan-stack=1", "-c", "-o", "list.o",
          "/s/list.c"].map String.toList] ∧
      ¬ kasanRecord.Together valuedByGcc (verdicts rejectsAlone (wanted [kasanRecord])) := by
  refine ⟨compiler_valuedByGcc, ⟨by decide, by decide⟩, by decide +kernel, ?_⟩
  intro together
  have both := together.pairs ("--param".toList, "asan-stack=1".toList) (by decide +kernel)
  exact absurd both (by decide +kernel)

end KernelSamples.Compdb

import KernelSamples.Compdb.Parse
import Mathlib.Data.List.Dedup
import Mathlib.Data.List.DropRight

/-! The second half of `main`: every option of every command is put to clang once for its
target, and the entries leave out what clang rejected. -/

namespace KernelSamples.Compdb

def basename (path : Str) : Str := path.rtakeWhile (· ≠ '/')

def tripleOf (driver : Str) : Option Str :=
  let name := basename driver
  if "-gcc".toList.isSuffixOf name then some (name.rdrop "-gcc".toList.length) else none

/-- The options whose value is the next word. -/
def withValue : List Str :=
  ["-include", "-isystem", "-o", "-MF", "-x", "-idirafter", "-imacros"].map String.toList

def noProbe : List Str := ["-I", "-D", "-U", "-Wp,"].map String.toList

def dashed (word : Str) : Bool := ['-'].isPrefixOf word

/-- What `candidates` asks of a word that it takes for an option without a value. -/
def probed (word : Str) : Bool :=
  dashed word && !noProbe.any (·.isPrefixOf word) && word ∉ ["-c".toList, "-nostdinc".toList]

def candidatesFrom (skip : Bool) : List Str → List Str
  | [] => []
  | word :: rest =>
    if skip then candidatesFrom false rest
    else if word ∈ withValue then candidatesFrom true rest
    else if probed word then word :: candidatesFrom false rest
    else candidatesFrom false rest

def candidates (args : List Str) : List Str := candidatesFrom false args.tail

/-- What `main` collects of a `.cmd` file. Its words are the driver and the options, since a
command without words raises an error. -/
structure Record where
  directory : Str
  src : Str
  real : Str
  driver : Str
  options : List Str

def Record.args (record : Record) : List Str := record.driver :: record.options

def Record.triple (record : Record) : Option Str := tripleOf record.driver

structure Entry where
  directory : Str
  file : Str
  arguments : List Str
  deriving DecidableEq

/-- An option and the target it is tried for. -/
abbrev Query := Str × Option Str

def wanted (records : List Record) : List Query :=
  (records.flatMap fun record => (candidates record.args).map (·, record.triple)).dedup

def verdicts (probe : Str → Option Str → Bool) (wanted : List Query) : List (Query × Bool) :=
  wanted.map fun query => (query, probe query.1 query.2)

/-- The loop over `args[1:]`. -/
def keep (verdicts : List (Query × Bool)) (record : Record) : List Str → List Str
  | [] => []
  | word :: rest =>
    if word = record.src then record.real :: keep verdicts record rest
    else if (verdicts.lookup (word, record.triple)).getD true then
      word :: keep verdicts record rest
    else keep verdicts record rest

def unusedArguments : Str := "-Qunused-arguments".toList

def targetOption (triple : Str) : Str := "--target=".toList ++ triple

def entry (verdicts : List (Query × Bool)) (record : Record) : Entry :=
  let kept := record.driver :: keep verdicts record record.options
  let kept :=
    if truthy record.triple then kept.insertIdx 1 (targetOption (record.triple.getD []))
    else kept
  { directory := record.directory
    file := record.real
    arguments := kept.insertIdx 1 unusedArguments }

def entries (probe : Str → Option Str → Bool) (records : List Record) : List Entry :=
  records.map (entry (verdicts probe (wanted records)))

/-- The words that follow an option with a value. -/
def optionValues (skip : Bool) : List Str → List Str
  | [] => []
  | word :: rest =>
    if skip then word :: optionValues false rest else optionValues (word ∈ withValue) rest

/-- Neither the source nor the value of an option looks like an option. -/
structure Record.Undashed (record : Record) : Prop where
  src : dashed record.src = false
  values : ∀ value ∈ optionValues false record.options, dashed value = false

/-- What becomes of one word, by its own record and the probe. -/
def Record.rewrite (probe : Str → Option Str → Bool) (record : Record) (word : Str) :
    Option Str :=
  if word = record.src then some record.real
  else if word ∈ candidates record.args ∧ probe word record.triple = false then none
  else some word

/-- The entry as it should be, by its own record and the probe. -/
def Record.rewritten (probe : Str → Option Str → Bool) (record : Record) : Entry where
  directory := record.directory
  file := record.real
  arguments :=
    [record.driver, unusedArguments] ++
      (record.triple.filter (· ≠ [])).toList.map targetOption ++
      record.options.filterMap (record.rewrite probe)

variable {probe : Str → Option Str → Bool} {records : List Record} {record : Record}
  {word : Str} {words options : List Str} {skip : Bool}

/-- A word of the kind `candidates` yields where it does not skip. -/
def Candidate (word : Str) : Prop := word ∉ withValue ∧ probed word = true

instance (word : Str) : Decidable (Candidate word) := inferInstanceAs (Decidable (_ ∧ _))

theorem candidatesFrom_cons (option : Str) (rest : List Str) :
    candidatesFrom false (option :: rest) =
      (if Candidate option then [option] else []) ++
        candidatesFrom (option ∈ withValue) rest := by
  simp only [candidatesFrom, Candidate, Bool.false_eq_true, if_false]
  by_cases valued : option ∈ withValue
  · simp [valued]
  · by_cases isProbed : probed option = true
    · simp [valued, isProbed]
    · simp [valued, isProbed]

theorem candidate_of_mem (member : word ∈ candidatesFrom skip options) : Candidate word := by
  induction options generalizing skip with
  | nil => exact absurd member List.not_mem_nil
  | cons option rest ih =>
    cases skip with
    | true => exact ih member
    | false =>
      rw [candidatesFrom_cons] at member
      rcases List.mem_append.mp member with here | later
      · split at here
        next candidate => exact List.mem_singleton.mp here ▸ candidate
        next => exact absurd here List.not_mem_nil
      · exact ih later

/-- Where no value looks like an option, the scan skips nothing it would have yielded. -/
theorem mem_candidatesFrom (undashed : ∀ value ∈ optionValues skip options, dashed value = false)
    (member : word ∈ options) (candidate : Candidate word) :
    word ∈ candidatesFrom skip options := by
  induction options generalizing skip with
  | nil => exact absurd member List.not_mem_nil
  | cons option rest ih =>
    cases skip with
    | true =>
      have value := undashed option List.mem_cons_self
      have different : word ≠ option := by
        rintro rfl
        simp [Candidate, probed, value] at candidate
      exact ih (fun value later => undashed value (List.mem_cons_of_mem _ later))
        ((List.mem_cons.mp member).resolve_left different)
    | false =>
      rw [candidatesFrom_cons]
      rcases List.mem_cons.mp member with rfl | later
      · rw [if_pos candidate]
        exact List.mem_append_left _ List.mem_cons_self
      · exact List.mem_append_right _ (ih undashed later)

theorem mem_candidates_iff (undashed : record.Undashed) (member : word ∈ record.options) :
    word ∈ candidates record.args ↔ Candidate word :=
  ⟨candidate_of_mem, mem_candidatesFrom undashed.values member⟩

theorem lookup_verdicts (queries : List Query) (query : Query) :
    (verdicts probe queries).lookup query =
      if query ∈ queries then some (probe query.1 query.2) else none := by
  induction queries with
  | nil => rfl
  | cons head rest ih =>
    have split : (verdicts probe (head :: rest)).lookup query =
        if query = head then some (probe head.1 head.2)
        else (verdicts probe rest).lookup query := by
      simp only [verdicts, List.map_cons, List.lookup_cons]
      split <;> simp_all
    rw [split, ih]
    by_cases same : query = head
    · simp [same]
    · simp [same]

theorem mem_wanted {query : Query} :
    query ∈ wanted records ↔
      ∃ record ∈ records, query.1 ∈ candidates record.args ∧ query.2 = record.triple := by
  obtain ⟨flag, triple⟩ := query
  simp only [wanted, List.mem_dedup, List.mem_flatMap, List.mem_map, Prod.mk.injEq]
  constructor
  · rintro ⟨record, member, word, yielded, rfl, rfl⟩
    exact ⟨record, member, yielded, rfl⟩
  · rintro ⟨record, member, yielded, rfl⟩
    exact ⟨record, member, flag, yielded, rfl, rfl⟩

/-- The pooled verdicts say of a word of a record what its own candidates and the probe say. -/
theorem verdict_eq (recorded : record ∈ records) (undashed : record.Undashed)
    (member : word ∈ record.options) :
    ((verdicts probe (wanted records)).lookup (word, record.triple)).getD true =
      !decide (word ∈ candidates record.args ∧ probe word record.triple = false) := by
  rw [lookup_verdicts]
  by_cases own : word ∈ candidates record.args
  · have asked : (word, record.triple) ∈ wanted records :=
      mem_wanted.mpr ⟨record, recorded, own, rfl⟩
    rw [if_pos asked]
    simp [own]
  · -- Another record may only have asked for it if this one had yielded it too.
    have unasked : (word, record.triple) ∉ wanted records := by
      intro asked
      obtain ⟨other, _, yielded, _⟩ := mem_wanted.mp asked
      exact own ((mem_candidates_iff undashed member).mpr (candidate_of_mem yielded))
    rw [if_neg unasked]
    simp [own]

theorem keep_eq_filterMap {verdicts : List (Query × Bool)}
    (agree : ∀ word ∈ words, (verdicts.lookup (word, record.triple)).getD true =
      !decide (word ∈ candidates record.args ∧ probe word record.triple = false)) :
    keep verdicts record words = words.filterMap (record.rewrite probe) := by
  induction words with
  | nil => rfl
  | cons word rest ih =>
    have here := agree word List.mem_cons_self
    have others := ih fun word later => agree word (List.mem_cons_of_mem _ later)
    rw [keep, others, here, List.filterMap_cons, Record.rewrite]
    by_cases source : word = record.src
    · simp [source]
    · by_cases dropped : word ∈ candidates record.args ∧ probe word record.triple = false
      · simp [source, dropped]
      · simp only [source, dropped, if_false, decide_false, Bool.not_false, if_true]

theorem entry_eq_rewritten {verdicts : List (Query × Bool)}
    (kept : keep verdicts record record.options =
      record.options.filterMap (record.rewrite probe)) :
    entry verdicts record = record.rewritten probe := by
  simp only [entry, Record.rewritten, kept]
  cases record.triple with
  | none => rfl
  | some triple =>
    cases triple with
    | nil => rfl
    | cons char rest => rfl

theorem entries_rewritten {index : Nat} (recorded : records[index]? = some record)
    (undashed : record.Undashed) :
    (entries probe records)[index]? = some (record.rewritten probe) := by
  have member := List.mem_of_getElem? recorded
  rw [entries, List.getElem?_map, recorded, Option.map_some, entry_eq_rewritten]
  exact keep_eq_filterMap fun word inside => verdict_eq member undashed inside

/-- An entry is what its own record and the probe make of it, whatever else was collected. -/
theorem entries_exact (probe : Str → Option Str → Bool) (records : List Record) (index : Nat)
    (record : Record) (recorded : records[index]? = some record) (undashed : record.Undashed) :
    (entries probe records)[index]? = some (record.rewritten probe) ∧
      ∀ (others : List Record) (place : Nat), others[place]? = some record →
        (entries probe others)[place]? = (entries probe records)[index]? := by
  have here := @entries_rewritten probe records record index recorded undashed
  refine ⟨here, fun others place elsewhere => ?_⟩
  rw [here, entries_rewritten elsewhere undashed]

/-- One source built by two compilers, and a flag that clang takes for one target only. -/
def listRecord (driver : String) : Record where
  directory := "/s/.build-list".toList
  src := "../list.c".toList
  real := "/s/list.c".toList
  driver := driver.toList
  options := ["-mno-red-zone", "-include", "./a.h", "-c", "-o", "list.o", "../list.c"].map
    String.toList

def x86Only (flag : Str) (triple : Option Str) : Bool :=
  flag ≠ "-mno-red-zone".toList || triple = some "x86_64".toList

theorem entries_exact_two_targets :
    ((entries x86Only [listRecord "/bin/x86_64-gcc", listRecord "arm64-gcc"])[1]?).map
        Entry.arguments =
      some (["arm64-gcc", "-Qunused-arguments", "--target=arm64", "-include", "./a.h", "-c", "-o",
        "list.o", "/s/list.c"].map String.toList) := by
  rw [(entries_exact x86Only _ 1 (listRecord "arm64-gcc") rfl ⟨by decide, by decide⟩).1]
  decide

end KernelSamples.Compdb

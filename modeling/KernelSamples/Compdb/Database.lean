import KernelSamples.Compdb.Publication
import KernelSamples.Compdb.Rewrite
import KernelSamples.Lib.Json

/-! The document that `main` writes, as `json.dump` puts it down and as a reader of the database
takes it. -/

namespace KernelSamples.Compdb

open Lib

/-- An entry as `json.dump` gets it. -/
def Entry.json (entry : Entry) : Json :=
  .object [("directory".toList, .string entry.directory), ("file".toList, .string entry.file),
    ("arguments".toList, .array (entry.arguments.map .string))]

/-- What is written to the temporary file. -/
def document (entries : List Entry) : Str :=
  Json.write 0 (.array (entries.map Entry.json)) ++ ['\n']

def textOf : Json → Option Str
  | .string text => some text
  | _ => none

/-- What a reader of the database takes for an entry. -/
def entryOf : Json → Option Entry
  | .object fields => do
    let directory ← (fields.lookup "directory".toList).bind textOf
    let file ← (fields.lookup "file".toList).bind textOf
    match fields.lookup "arguments".toList with
    | some (.array words) => return ⟨directory, file, ← words.mapM textOf⟩
    | _ => none
  | _ => none

/-- The entries of a database. -/
def readDatabase (text : Str) : Option (List Entry) :=
  match Json.read text with
  | some (.array items) => items.mapM entryOf
  | _ => none

theorem entryOf_json (entry : Entry) : entryOf entry.json = some entry := by
  have words : (entry.arguments.map Json.string).mapM textOf = some entry.arguments := by
    induction entry.arguments with
    | nil => rfl
    | cons word rest ih => rw [List.map_cons, List.mapM_cons, ih]; rfl
  have arguments : List.lookup "arguments".toList
      [("directory".toList, Json.string entry.directory), ("file".toList, .string entry.file),
        ("arguments".toList, .array (entry.arguments.map .string))] =
      some (.array (entry.arguments.map .string)) := rfl
  simp only [Entry.json, entryOf, arguments, words]
  rfl

theorem mapM_entryOf (entries : List Entry) :
    (entries.map Entry.json).mapM entryOf = some entries := by
  induction entries with
  | nil => rfl
  | cons entry rest ih => rw [List.map_cons, List.mapM_cons, ih, entryOf_json]; rfl

theorem readDatabase_document (entries : List Entry) :
    readDatabase (document entries) = some entries := by
  rw [document, readDatabase, Json.read_write]
  exact mapM_entryOf entries

theorem ascii_document (entries : List Entry) : ∀ char ∈ document entries, Json.Ascii char := by
  intro char member
  rcases List.mem_append.mp member with inside | last
  · exact Json.ascii_write _ _ char inside
  · rw [List.mem_singleton.mp last]
    decide

/-- A part of a database is no database, unless only the end of its last line is missing. -/
theorem readDatabase_part {entries : List Entry} {part : Str} (front : part <+: document entries)
    (short : part.length + 1 < (document entries).length) : readDatabase part = none := by
  rw [readDatabase]
  cases read : Json.read part with
  | none => rfl
  | some value =>
    obtain ⟨rfl, whole⟩ := Json.read_prefix front read
    rcases whole with rfl | rfl
    · rw [document, List.length_append, List.length_singleton] at short
      omega
    · rw [document] at short
      omega

/-- While runs open the temporary file one after another, the output has what it had before or
reads as the entries of a run that is through, in ASCII; and nobody takes what a run has written
so far for a database, unless only the end of the last line is missing. -/
theorem published_database_reads {Run : Type} [DecidableEq Run] (entriesOf : Run → List Entry)
    {before : Files OutputName Char} {state : Publication Run} {events : List (MainEvent Run)}
    (sound : before.Sound)
    (guarded : (publicationMachine (document ∘ entriesOf) before).Guarded Publication.OneWriter
      (publicationMachine (document ∘ entriesOf) before).initial events)
    (onward : (publicationMachine (document ∘ entriesOf) before).run
      (publicationMachine (document ∘ entriesOf) before).initial events = some state) :
    (state.files.read .out = before.read .out ∨
      ∃ run text, state.main run = .replaced ∧ state.files.read .out = some text ∧
        readDatabase text = some (entriesOf run) ∧ ∀ char ∈ text, Json.Ascii char) ∧
    ∀ run inode offset, state.main run = .writing inode offset →
      offset + 1 < (document (entriesOf run)).length →
        ∃ text, state.files.read .tmp = some text ∧ readDatabase text = none := by
  have start : (publicationMachine (document ∘ entriesOf) before).initial.Atomic
      (document ∘ entriesOf) (before.read .out) :=
    ⟨sound, by simp [publicationMachine, MainPoint.holdsTmp], by simp [publicationMachine],
      by simp [publicationMachine], .inl rfl⟩
  have atomic : state.Atomic (document ∘ entriesOf) (before.read .out) :=
    Machine.guarded_invariant (Publication.Atomic (document ∘ entriesOf) (before.read .out))
      (fun atomic allowed taken => (atomic.step allowed taken).1) start guarded onward
  constructor
  · rcases atomic.output with untouched | ⟨run, through, whole⟩
    · exact .inl untouched
    · exact .inr ⟨run, _, through, whole, readDatabase_document _, ascii_document _⟩
  · intro run inode offset at_ short
    obtain ⟨within, opened, contents⟩ := atomic.writing at_
    refine ⟨(document (entriesOf run)).take offset, ?_, ?_⟩
    · rw [Files.read, opened, Option.map_some, contents]
      rfl
    · apply readDatabase_part (List.take_prefix _ _)
      rw [List.length_take]
      omega

def twoDatabases (run : Bool) : List Entry :=
  if run then [⟨"/s".toList, "/s/ä.c".toList, ["gcc".toList]⟩] else []

/-- A run that is killed after two characters, and one that is through. -/
theorem published_database_reads_after_kill :
    ∃ state : Publication Bool, ∃ text, state.main true = .writing 0 2 ∧
      state.files.read .tmp = some text ∧ readDatabase text = none := by
  obtain ⟨state, guarded, onward, checked⟩ :=
    Machine.guarded_of_run (publicationMachine (document ∘ twoDatabases) Publication.noFiles)
      Publication.OneWriter [.openTmp true, .write true 2]
      (fun state => state.main true = .writing 0 2) (by decide +kernel)
  have at_ : state.main true = .writing 0 2 := of_decide_eq_true checked
  obtain ⟨text, found, unreadable⟩ := (published_database_reads twoDatabases
    Publication.noFiles_sound guarded onward).2 true 0 2 at_ (by decide +kernel)
  exact ⟨state, text, at_, found, unreadable⟩

end KernelSamples.Compdb

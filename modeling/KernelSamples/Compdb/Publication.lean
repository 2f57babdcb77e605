import Mathlib.Data.Fintype.Basic
import KernelSamples.Lib.Files
import KernelSamples.Lib.Machine

/-! The end of `compdb.py`'s `main`: a run writes its document to one fixed temporary name
and replaces the output by it, while other runs do the same. -/

namespace KernelSamples.Compdb

open Lib

/-- `out` and `out + ".tmp"`. -/
inductive OutputName where
  | out
  | tmp
  deriving DecidableEq

/-- Where a run of `main` stands. Before `open` it collects and probes, `written` is between
the end of the `with` block and `os.replace`. -/
inductive MainPoint where
  | collecting
  | writing (inode offset : Nat)
  | written
  | replaced
  | failed
  deriving DecidableEq

/-- The run has opened the temporary file and neither replaced the output nor ended. -/
def MainPoint.holdsTmp : MainPoint → Bool
  | .writing _ _ | .written => true
  | _ => false

structure Publication (Run : Type) where
  files : Files OutputName Char
  main : Run → MainPoint

/-- A step of a run. `fail` is an exception or a kill at any of its steps. -/
inductive MainEvent (Run : Type) where
  | openTmp (run : Run)
  | write (run : Run) (count : Nat)
  | close (run : Run)
  | replace (run : Run)
  | fail (run : Run)

namespace Publication

variable {Run : Type} [DecidableEq Run]

def move (state : Publication Run) (run : Run) (files : Files OutputName Char)
    (point : MainPoint) : Publication Run where
  files := files
  main := Function.update state.main run point

def step (document : Run → List Char) (state : Publication Run) :
    MainEvent Run → Option (Publication Run)
  | .openTmp run =>
    match state.main run with
    | .collecting =>
      let (files, inode) := state.files.openTruncate .tmp
      some (state.move run files (.writing inode 0))
    | _ => none
  | .write run count =>
    match state.main run with
    | .writing inode offset =>
      let chunk := ((document run).drop offset).take count
      some (state.move run (state.files.write '\x00' inode offset chunk)
        (.writing inode (offset + chunk.length)))
    | _ => none
  | .close run =>
    match state.main run with
    | .writing _ offset =>
      if offset = (document run).length then some (state.move run state.files .written) else none
    | _ => none
  | .replace run =>
    match state.main run with
    | .written =>
      match state.files.rename .tmp .out with
      | some files => some (state.move run files .replaced)
      | none => some (state.move run state.files .failed)
    | _ => none
  | .fail run =>
    match state.main run with
    | .replaced | .failed => none
    | _ => some (state.move run state.files .failed)

/-- A run opens the temporary file only while no other run holds it. -/
def OneWriter (state : Publication Run) : MainEvent Run → Prop
  | .openTmp _ => ∀ other, (state.main other).holdsTmp = false
  | _ => True

instance [Fintype Run] (state : Publication Run) :
    ∀ event, Decidable (state.OneWriter event)
  | .openTmp _ => inferInstanceAs (Decidable (∀ other, (state.main other).holdsTmp = false))
  | .write _ _ | .close _ | .replace _ | .fail _ => .isTrue trivial

end Publication

/-- Runs that write these documents, on what is there before the first of them. -/
def publicationMachine {Run : Type} [DecidableEq Run] (document : Run → List Char)
    (before : Files OutputName Char) : Machine (Publication Run) (MainEvent Run) where
  initial := ⟨before, fun _ => .collecting⟩
  step := Publication.step document

namespace Publication

variable {Run : Type} {document : Run → List Char} {before : Option (List Char)}
variable {state next : Publication Run} {run other : Run}

/-- At most one run holds the temporary file, which has what that run wrote so far, and the
output is untouched or one whole document. -/
structure Atomic (document : Run → List Char) (before : Option (List Char))
    (state : Publication Run) : Prop where
  sound : state.files.Sound
  single : ∀ {first second}, (state.main first).holdsTmp = true →
    (state.main second).holdsTmp = true → first = second
  writing : ∀ {run inode offset}, state.main run = .writing inode offset →
    offset ≤ (document run).length ∧ state.files.inode .tmp = some inode ∧
      state.files.contents inode = (document run).take offset
  written : ∀ {run}, state.main run = .written → state.files.read .tmp = some (document run)
  output : state.files.read .out = before ∨
    ∃ run, state.main run = .replaced ∧ state.files.read .out = some (document run)

variable [DecidableEq Run]

omit [DecidableEq Run] in
theorem Atomic.alone (atomic : state.Atomic document before)
    (holds : (state.main run).holdsTmp = true) :
    ∀ other ≠ run, (state.main other).holdsTmp = false := by
  intro other different
  rw [← Bool.not_eq_true]
  intro too
  exact different (atomic.single too holds)

/-- A run moves on. It is the only one to hold the temporary file if it holds it or changes
any file. -/
theorem Atomic.move (atomic : state.Atomic document before) {files : Files OutputName Char}
    {point : MainPoint} (unpublished : state.main run ≠ .replaced) (sound : files.Sound)
    (alone : point.holdsTmp = true ∨ files ≠ state.files →
      ∀ other ≠ run, (state.main other).holdsTmp = false)
    (writing : ∀ inode offset, point = .writing inode offset → offset ≤ (document run).length ∧
      files.inode .tmp = some inode ∧ files.contents inode = (document run).take offset)
    (written : point = .written → files.read .tmp = some (document run))
    (output : files.read .out = state.files.read .out ∨
      point = .replaced ∧ files.read .out = some (document run)) :
    (state.move run files point).Atomic document before := by
  have here : (state.move run files point).main run = point := Function.update_self ..
  have there : ∀ {other}, other ≠ run →
      (state.move run files point).main other = state.main other :=
    fun different => Function.update_of_ne different ..
  have same : ∀ {other}, other ≠ run → (state.main other).holdsTmp = true →
      files = state.files := by
    intro other different holds
    by_contra changed
    rw [alone (.inr changed) other different] at holds
    cases holds
  refine ⟨sound, ?_, ?_, ?_, ?_⟩
  · intro first second atFirst atSecond
    by_cases isFirst : first = run <;> by_cases isSecond : second = run
    · rw [isFirst, isSecond]
    · rw [isFirst, here] at atFirst
      rw [there isSecond, alone (.inl atFirst) second isSecond] at atSecond
      cases atSecond
    · rw [isSecond, here] at atSecond
      rw [there isFirst, alone (.inl atSecond) first isFirst] at atFirst
      cases atFirst
    · rw [there isFirst] at atFirst
      rw [there isSecond] at atSecond
      exact atomic.single atFirst atSecond
  · intro other inode offset at_
    by_cases isRun : other = run
    · subst isRun
      rw [here] at at_
      exact writing inode offset at_
    · rw [there isRun] at at_
      have unchanged := same isRun (by rw [at_]; rfl)
      subst unchanged
      exact atomic.writing at_
  · intro other at_
    by_cases isRun : other = run
    · subst isRun
      rw [here] at at_
      exact written at_
    · rw [there isRun] at at_
      have unchanged := same isRun (by rw [at_]; rfl)
      subst unchanged
      exact atomic.written at_
  · rcases output with kept | ⟨published, whole⟩
    · rcases atomic.output with untouched | ⟨publisher, published, whole⟩
      · exact .inl (kept.trans untouched)
      · have different : publisher ≠ run := by
          rintro rfl
          exact unpublished published
        exact .inr ⟨publisher, (there different).trans published, kept.trans whole⟩
    · exact .inr ⟨run, here.trans published, whole⟩

/-- An allowed step keeps all that, and only a replace changes what the output reads. -/
theorem Atomic.step {event : MainEvent Run} (atomic : state.Atomic document before)
    (allowed : state.OneWriter event) (taken : state.step document event = some next) :
    next.Atomic document before ∧ (next.files.read .out = state.files.read .out ∨
      ∃ run, event = .replace run ∧ next.main run = .replaced ∧
        next.files.read .out = some (document run)) := by
  cases event with
  | openTmp run =>
    simp only [Publication.step] at taken
    split at taken
    · rename_i collecting
      cases taken
      obtain ⟨sound, opened, emptied, others⟩ :=
        Files.openTruncate_spec atomic.sound .tmp
      have output := others .out (by simp)
      refine ⟨atomic.move (by simp [collecting]) sound (fun _ other _ => allowed other) ?_
        (by simp) (.inl output), .inl output⟩
      rintro inode offset ⟨⟩
      exact ⟨Nat.zero_le _, opened, emptied⟩
    · cases taken
  | write run count =>
    simp only [Publication.step] at taken
    split at taken
    · rename_i inode offset at_
      cases taken
      obtain ⟨within, opened, contents⟩ := atomic.writing at_
      have output : (state.files.write '\x00' inode offset
          (((document run).drop offset).take count)).read .out = state.files.read .out :=
        Files.write_read _ _ _ (atomic.sound.apart opened (by simp))
      refine ⟨atomic.move (by simp [at_]) ⟨atomic.sound.distinct, atomic.sound.below⟩
        (fun _ => atomic.alone (by rw [at_]; rfl)) ?_ (by simp) (.inl output), .inl output⟩
      rintro inode' offset' ⟨⟩
      refine ⟨?_, opened, ?_⟩
      · rw [List.length_take, List.length_drop]
        omega
      · simp only [Files.write, Function.update_self, contents]
        exact writeAt_prefix _ within count
    · cases taken
  | close run =>
    simp only [Publication.step] at taken
    split at taken
    · rename_i inode offset at_
      split at taken
      · rename_i complete
        cases taken
        obtain ⟨-, opened, contents⟩ := atomic.writing at_
        refine ⟨atomic.move (by simp [at_]) atomic.sound
          (fun _ => atomic.alone (by rw [at_]; rfl)) (by simp) ?_ (.inl rfl), .inl rfl⟩
        intro _
        rw [Files.read, opened, Option.map_some, contents, complete, List.take_length]
      · cases taken
    · cases taken
  | replace run =>
    simp only [Publication.step] at taken
    split at taken
    · rename_i at_
      have whole := atomic.written at_
      split at taken
      · rename_i files renamed
        cases taken
        obtain ⟨sound, -, output⟩ := Files.rename_spec atomic.sound (by simp) renamed
        refine ⟨atomic.move (by simp [at_]) sound (fun _ => atomic.alone (by rw [at_]; rfl))
          (by simp) (by simp) (.inr ⟨rfl, output.trans whole⟩),
          .inr ⟨run, rfl, Function.update_self .., output.trans whole⟩⟩
      · cases taken
        refine ⟨atomic.move (by simp [at_]) atomic.sound ?_ (by simp) (by simp) (.inl rfl),
          .inl rfl⟩
        rintro (holds | changed)
        · cases holds
        · exact absurd rfl changed
    · cases taken
  | fail run =>
    simp only [Publication.step] at taken
    split at taken
    · cases taken
    · cases taken
    · rename_i unpublished _
      cases taken
      refine ⟨atomic.move unpublished atomic.sound ?_ (by simp) (by simp) (.inl rfl), .inl rfl⟩
      rintro (holds | changed)
      · cases holds
      · exact absurd rfl changed

/-- In every run of the system in which a run opens the temporary file only while no other
holds it: the output reads as before the first run or as one whole document, and a step other
than a replace leaves it as it was. The temporary name must not be another name of the
output file. -/
theorem publication_atomic {before : Files OutputName Char} {events : List (MainEvent Run)}
    (sound : before.Sound)
    (guarded : (publicationMachine document before).Guarded OneWriter
      (publicationMachine document before).initial events)
    (onward : (publicationMachine document before).run
      (publicationMachine document before).initial events = some state) :
    (state.files.read .out = before.read .out ∨
      ∃ run, state.main run = .replaced ∧ state.files.read .out = some (document run)) ∧
    ∀ event next, state.OneWriter event →
      (publicationMachine document before).step state event = some next →
      next.files.read .out = state.files.read .out ∨
        ∃ run, event = .replace run ∧ next.main run = .replaced ∧
          next.files.read .out = some (document run) := by
  have start : (publicationMachine document before).initial.Atomic document
      (before.read .out) :=
    ⟨sound, by simp [publicationMachine, MainPoint.holdsTmp], by simp [publicationMachine],
      by simp [publicationMachine], .inl rfl⟩
  have atomic : state.Atomic document (before.read .out) :=
    Machine.guarded_invariant (Atomic document (before.read .out))
      (fun atomic allowed taken => (atomic.step allowed taken).1) start guarded onward
  refine ⟨atomic.output, ?_⟩
  intro event next allowed taken
  exact (atomic.step allowed taken).2

/-- No output and no temporary file. -/
def noFiles : Files OutputName Char where
  inode _ := none
  contents _ := []
  fresh := 0

theorem noFiles_sound : noFiles.Sound := ⟨by simp [noFiles], by simp [noFiles]⟩

def twoDocuments (run : Bool) : List Char := if run then ['a', 'b'] else ['c', 'd']

/-- The second run empties the file the first one then publishes. -/
theorem empty_output_published :
    ∃ state, (publicationMachine twoDocuments noFiles).Reachable state ∧
      state.files.read .out ≠ noFiles.read .out ∧
      ∀ run, state.files.read .out ≠ some (twoDocuments run) := by
  obtain ⟨state, reached, checked⟩ :=
    Machine.reachable_of_run (publicationMachine twoDocuments noFiles)
      [.openTmp true, .write true 2, .close true, .openTmp false, .replace true]
      (fun state => state.files.read .out = some []) (by decide +kernel)
  have published : state.files.read .out = some [] := of_decide_eq_true checked
  refine ⟨state, reached, ?_, ?_⟩
  · rw [published]
    decide
  · rw [published]
    decide

/-- A run killed while it writes, and another one after it. -/
theorem publication_atomic_after_kill :
    ∃ state : Publication Bool, state.files.read .out = some (twoDocuments false) ∧
      ∀ event next, state.OneWriter event →
        (publicationMachine twoDocuments noFiles).step state event = some next →
        next.files.read .out = state.files.read .out ∨
          ∃ run, event = .replace run ∧ next.main run = .replaced ∧
            next.files.read .out = some (twoDocuments run) := by
  obtain ⟨state, guarded, onward, checked⟩ :=
    Machine.guarded_of_run (publicationMachine twoDocuments noFiles) OneWriter
      [.openTmp true, .write true 1, .fail true, .openTmp false, .write false 1, .write false 1,
        .close false, .replace false]
      (fun state => state.main true = .failed ∧ state.files.read .out ≠ none)
      (by decide +kernel)
  obtain ⟨failed, present⟩ := of_decide_eq_true checked
  obtain ⟨output, later⟩ := publication_atomic noFiles_sound guarded onward
  refine ⟨state, ?_, later⟩
  rcases output with untouched | ⟨run, published, whole⟩
  · exact absurd untouched present
  · cases run with
    | true =>
      rw [failed] at published
      cases published
    | false => exact whole

end Publication

end KernelSamples.Compdb

import KernelSamples.Compdb.Parse
import KernelSamples.Scripts.Build

/-! The commands that kbuild saves in the build directory of a sample, and what is there at each
point of `build`. -/

namespace KernelSamples.Scripts

open Lib Compdb

/-- What kbuild saves of a command that made an object: if it compiled a source, the source too,
and what the object depends on. -/
structure SavedCommand where
  object : Str
  command : Str
  compiled : Option (Str × Str)
  objectName : fileName ".o".toList object = true
  nonempty : command ≠ []
  oneLine : OneLine (kbuildEscape command)
  sourceName : ∀ {source dependencies}, compiled = some (source, dependencies) →
    fileName ".c".toList source = true
  sourceNul : ∀ {source dependencies}, compiled = some (source, dependencies) → '\x00' ∉ source

namespace SavedCommand

variable (saved : SavedCommand)

def savedLine : Str :=
  "savedcmd_".toList ++ (saved.object ++ (" := ".toList ++ kbuildEscape saved.command))

def sourceLine (source : Str) : Str :=
  "source_".toList ++ (saved.object ++ (" := ".toList ++ source))

def text : Str :=
  saved.savedLine ++ '\n' ::
    match saved.compiled with
    | none => []
    | some (source, dependencies) => '\n' :: (saved.sourceLine source ++ '\n' :: dependencies)

end SavedCommand

/-- A source is named from the build directory or in full. -/
def Names (bdir : List Str) (source : Str) (place : List Str) : Prop :=
  source = pathText place ∨ place = bdir ++ [source]

def cmdName (stem : Str) : Str := ".".toList ++ stem ++ ".o.cmd".toList

/-- `.stem.o.cmd` -/
def Kmod.cmd (kmod : Kmod) (stem : Str) : List Str := kmod.bdir ++ [cmdName stem]

def Kmod.source (kmod : Kmod) (stem : Str) : List Str := kmod.bdir ++ [stem ++ ".c".toList]

/-- The object was compiled from its source in the build directory, by a command that begins with
the compiler and has no NUL. -/
def Kmod.Compiled (kmod : Kmod) (tree : Tree) (stem : Str) : Prop :=
  ∃ (saved : SavedCommand) (source dependencies driver : Str) (options : List Str),
    tree (kmod.cmd stem) = some (.file saved.text) ∧
    saved.compiled = some (source, dependencies) ∧ Names kmod.bdir source (kmod.source stem) ∧
    shlexSplit saved.command = .ok (driver :: options) ∧
    driver ≠ [';'] ∧ dependencyFlag driver = false ∧ '#' ∉ driver ∧
    ∀ word ∈ driver :: options, '\x00' ∉ word

/-- The object was linked, or compiled from a source that is generated here or the kernel's. -/
def Kmod.Stray (kmod : Kmod) (kernel : List Str → Prop) (tree : Tree) (stem : Str) : Prop :=
  ∃ saved : SavedCommand, tree (kmod.cmd stem) = some (.file saved.text) ∧
    ∀ {source dependencies}, saved.compiled = some (source, dependencies) →
      ∃ place, Names kmod.bdir source place ∧ (∀ name ∈ place, EntryName name) ∧
        (kernel place ∨ ∃ name ∉ kmod.srcs, place = kmod.bdir ++ [name] ∧
          ∀ target, tree place ≠ some (.symlink target))

/-- The build directory is new, or other builds of the sample were here before. -/
structure Kmod.Tidy (kmod : Kmod) (kernel : List Str → Prop) (tree : Tree) : Prop where
  sources : ∀ c ∈ kmod.srcs, tree (kmod.bdir ++ [c]) ≠ none →
    tree (kmod.bdir ++ [c]) = some (.symlink (kmod.src ++ [c]))
  compiled : ∀ stem, stem ++ ".c".toList ∈ kmod.srcs → tree (kmod.cmd stem) ≠ none →
    kmod.Compiled tree stem
  strays : ∀ stem, stem ++ ".c".toList ∉ kmod.srcs → tree (kmod.cmd stem) ≠ none →
    kmod.Stray kernel tree stem

/-- All objects of the module are made. -/
structure Kmod.Complete (kmod : Kmod) (kernel : List Str → Prop) (tree : Tree) : Prop
    extends kmod.Tidy kernel tree where
  directory : tree kmod.bdir = some .directory
  found : ∀ c ∈ kmod.srcs, tree (kmod.bdir ++ [c]) ≠ none
  saved : ∀ stem, stem ++ ".c".toList ∈ kmod.srcs → tree (kmod.cmd stem) ≠ none

/-- kbuild succeeds once it has compiled all objects that the `Kbuild` names from their sources,
and it saves each command beside its object. -/
def Kmod.Recorded {Progress KbuildInput : Type} (kmod : Kmod) (kernel : List Str → Prop)
    (kbuild : Recipe (List (List Char)) (Option Node) Progress KbuildInput) : Prop :=
  ∀ {start inputs progress tree}, kmod.Tidy kernel start →
    start (kmod.bdir ++ ["Kbuild".toList]) = some (.file (kmod.objM ++ kmod.objsLine)) →
    (kbuild.alone start).run (kbuild.alone start).initial inputs = some (progress, tree) →
    kbuild.outcome progress = some true → kmod.Complete kernel tree

section Text

variable (saved : SavedCommand) {source dependencies : Str}

theorem kbuildEscape_nonempty {command : Str} (nonempty : command ≠ []) :
    kbuildEscape command ≠ [] := by
  obtain ⟨char, rest, rfl⟩ := List.exists_cons_of_ne_nil nonempty
  rw [kbuildEscape_cons]
  split
  · simp
  · split <;> simp [pound]

theorem OneLine.solid {line : Str} (solid : ∀ char ∈ line, reSpace char = false) :
    OneLine line :=
  ⟨fun member => absurd (solid _ member) (by decide),
    fun member => absurd (solid _ member) (by decide)⟩

theorem OneLine.assignment {key object value : Str} (keyLine : OneLine key)
    (named : fileName ".o".toList object = true) (valueLine : OneLine value) :
    OneLine (key ++ (object ++ (" := ".toList ++ value))) := by
  have sign : OneLine " := ".toList := by decide
  exact keyLine.append ((OneLine.solid (fileName_solid named)).append (sign.append valueLine))

theorem fileLines_cons {line : Str} (oneLine : OneLine line) (rest : Str) :
    fileLines (line ++ '\n' :: rest) = line :: fileLines rest := by
  rw [fileLines, fileLinesFrom_line oneLine]
  rfl

theorem assigned_other {key line : Str} (other : List.isPrefixOf? key line = none) :
    assigned key line = none := by
  rw [assigned, other]
  rfl

theorem keys_apart (rest : Str) :
    List.isPrefixOf? "savedcmd_".toList ("source_".toList ++ rest) = none ∧
      List.isPrefixOf? "source_".toList ("savedcmd_".toList ++ rest) = none := by
  have saved : "savedcmd_".toList = 's' :: 'a' :: "vedcmd_".toList := rfl
  have source : "source_".toList = 's' :: 'o' :: "urce_".toList := rfl
  simp only [saved, source, List.cons_append, List.isPrefixOf?]
  simp

theorem matchSaved_sourceLine : matchSaved (saved.sourceLine source) = none :=
  assigned_other (keys_apart _).1

theorem matchSource_savedLine : matchSource saved.savedLine = none := by
  have other : assigned "source_".toList saved.savedLine = none :=
    assigned_other (keys_apart _).2
  rw [matchSource, other]
  rfl

/-- `parse` gets the command back, and the source of a compiled object. -/
theorem SavedCommand.parse_text :
    parse saved.text = (some (kbuildEscape saved.command), saved.compiled.map Prod.fst) := by
  have commandLine : OneLine saved.savedLine :=
    OneLine.assignment (by decide) saved.objectName saved.oneLine
  have command : matchSaved saved.savedLine = some (kbuildEscape saved.command) :=
    assigned_append saved.objectName
  have nonempty := kbuildEscape_nonempty saved.nonempty
  rw [parse, SavedCommand.text, fileLines_cons commandLine]
  cases compiled : saved.compiled with
  | none =>
    simp [fileLines, fileLinesFrom, parseFrom, command, matchSource_savedLine, truthy]
  | some pair =>
    obtain ⟨source, dependencies⟩ := pair
    have named := saved.sourceName compiled
    have sourceLine : OneLine (saved.sourceLine source) :=
      OneLine.assignment (by decide) saved.objectName (OneLine.solid (fileName_solid named))
    have found : matchSource (saved.sourceLine source) = some source := by
      have value : assigned "source_".toList (saved.sourceLine source) = some source :=
        assigned_append saved.objectName
      rw [matchSource, value]
      exact Option.filter_some_pos named
    have given : source ≠ [] := by
      rintro rfl
      cases named
    have blank : fileLines ('\n' :: (saved.sourceLine source ++ '\n' :: dependencies)) =
        [] :: fileLines (saved.sourceLine source ++ '\n' :: dependencies) :=
      fileLines_cons (by decide : OneLine []) _
    have none : matchSaved [] = none ∧ matchSource [] = none := ⟨rfl, rfl⟩
    simp only [blank, fileLines_cons sourceLine, parseFrom, command, matchSource_savedLine, none,
      matchSaved_sourceLine, found, truthy]
    simp [nonempty, given]

theorem split_saved {driver : Str} {options : List Str}
    (splits : shlexSplit saved.command = .ok (driver :: options)) (further : driver ≠ [';'])
    (program : dependencyFlag driver = false) (plain : '#' ∉ driver)
    (whole : ∀ word ∈ driver :: options, '\x00' ∉ word) :
    ∃ options, split (kbuildEscape saved.command) = .ok (driver :: options) ∧
      ∀ word ∈ driver :: options, '\x00' ∉ word := by
  refine ⟨((options.map (substitute '#' pound)).takeWhile (· ≠ [';'])).filter
    (!dependencyFlag ·), ?_, ?_⟩
  · rw [split_kbuildEscape splits, List.map_cons, substitute_absent plain,
      List.takeWhile_cons_of_pos (by simpa using further),
      List.filter_cons_of_pos (by rw [program]; rfl)]
  · intro word member
    rcases List.mem_cons.mp member with rfl | option
    · exact whole _ List.mem_cons_self
    · obtain ⟨named, -⟩ := List.mem_filter.mp option
      obtain ⟨original, listed, rfl⟩ :=
        List.mem_map.mp ((List.takeWhile_prefix _).subset named)
      intro nul
      rcases mem_of_substitute nul with pound | kept
      · revert pound
        decide
      · exact whole original (List.mem_cons_of_mem _ listed) kept

end Text

/-- The build directory as kbuild is started on it. -/
structure Kmod.Begun (kmod : Kmod) (kernel : List Str → Prop) (tree : Tree) : Prop
    extends kmod.Tidy kernel tree where
  kbuild : tree (kmod.bdir ++ ["Kbuild".toList]) = some (.file (kmod.objM ++ kmod.objsLine))

section Stages

variable {Progress KbuildInput : Type} {host : Host} {kmod : Kmod} {tree tree' : Tree}
  {kernel : List Str → Prop}
  {kbuild : Recipe (List (List Char)) (Option Node) Progress KbuildInput}
  {point point' : BuildPoint Progress} {input : BuildInput KbuildInput}
  {shared : List Str → Bool}
  {moves : List (Recipe.Move (List Str) (Option Node) (BuildInput KbuildInput))} {stem c : Str}

/-- What is in the build directory at each point. What is shared makes no difference to kbuild. -/
def Kmod.Stage (kmod : Kmod) (kernel : List Str → Prop) (shared : List Str → Bool)
    (kbuild : Recipe (List (List Char)) (Option Node) Progress KbuildInput) (tree : Tree) :
    BuildPoint Progress → Prop
  | .preflight | .mkdir | .objM => kmod.Tidy kernel tree
  | .link rest => kmod.Tidy kernel tree ∧ rest ⊆ kmod.srcs
  | .objs => kmod.Tidy kernel tree ∧ tree (kmod.bdir ++ ["Kbuild".toList]) = some (.file kmod.objM)
  | .make => kmod.Begun kernel tree
  | .kbuild progress => ∃ start inputs alone, kmod.Begun kernel start ∧
      (kbuild.alone start).run (kbuild.alone start).initial inputs = some (progress, alone) ∧
      ∀ place, shared place = false → tree place = alone place
  | .copy | .copying _ | .testTool | .testKey | .testCert | .findOpenssl | .writeKey | .writeCert
  | .sign | .built => kmod.Complete kernel tree
  | .stopped _ | .failed => True

theorem stem_of_mem_srcs
    (objects : ∀ object ∈ kmod.sampleMk.sampleObjs, ".o".toList <:+ object)
    (member : c ∈ kmod.srcs) : ∃ stem, c = stem ++ ".c".toList := by
  rw [Kmod.srcs] at member
  split at member
  · exact ⟨_, List.mem_singleton.mp member⟩
  · obtain ⟨object, named, rfl⟩ := List.mem_map.mp member
    obtain ⟨stem, rfl⟩ := objects object named
    exact ⟨stem, sourceOf_object stem⟩

theorem cmd_ne_source (stem other : Str) :
    kmod.cmd stem ≠ kmod.bdir ++ [other ++ ".c".toList] := by
  intro same
  have names := (List.append_singleton_inj.mp same).2
  have ends := congrArg List.getLast? names
  rw [cmdName, List.getLast?_append, List.getLast?_append] at ends
  simp at ends

theorem cmd_ne_shown (shown : c.head? ≠ some '.') (stem : Str) :
    kmod.cmd stem ≠ kmod.bdir ++ [c] := by
  intro same
  rw [← (List.append_singleton_inj.mp same).2] at shown
  exact shown rfl

theorem cmd_injective {stem other : Str} (same : kmod.cmd stem = kmod.cmd other) :
    stem = other := by
  have names := (List.append_singleton_inj.mp same).2
  exact List.append_cancel_left (List.append_cancel_right names)

theorem Kmod.Compiled.kept (compiled : kmod.Compiled tree stem)
    (command : tree' (kmod.cmd stem) = tree (kmod.cmd stem)) : kmod.Compiled tree' stem := by
  rwa [Kmod.Compiled, command]

/-- No link has taken the place of a source that is generated. -/
theorem Kmod.Stray.kept (stray : kmod.Stray kernel tree stem)
    (command : tree' (kmod.cmd stem) = tree (kmod.cmd stem))
    (links : ∀ name ∉ kmod.srcs, ∀ target,
      tree' (kmod.bdir ++ [name]) = some (.symlink target) →
        tree (kmod.bdir ++ [name]) = some (.symlink target)) : kmod.Stray kernel tree' stem := by
  obtain ⟨saved, text, elsewhere⟩ := stray
  refine ⟨saved, command.trans text, fun compiled => ?_⟩
  obtain ⟨place, named, names, away | ⟨name, unlisted, rfl, plain⟩⟩ := elsewhere compiled
  · exact ⟨place, named, names, .inl away⟩
  · exact ⟨_, named, names, .inr ⟨name, unlisted, rfl, fun target link =>
      plain target (links name unlisted target link)⟩⟩

/-- Only what is below the build directory matters. -/
theorem Kmod.Tidy.congr (tidy : kmod.Tidy kernel tree)
    (same : ∀ rest, tree' (kmod.bdir ++ rest) = tree (kmod.bdir ++ rest)) :
    kmod.Tidy kernel tree' := by
  have command : ∀ stem, tree' (kmod.cmd stem) = tree (kmod.cmd stem) := fun stem => same _
  refine ⟨?_, ?_, ?_⟩
  · intro c member
    rw [same]
    exact tidy.sources c member
  · intro stem member present
    rw [command] at present
    exact (tidy.compiled stem member present).kept (command stem)
  · intro stem absent present
    rw [command] at present
    refine (tidy.strays stem absent present).kept (command stem) fun name _ target link => ?_
    rwa [← same]

theorem Kmod.Complete.congr (complete : kmod.Complete kernel tree)
    (same : ∀ rest, tree' (kmod.bdir ++ rest) = tree (kmod.bdir ++ rest)) :
    kmod.Complete kernel tree' := by
  have directory := same []
  rw [List.append_nil] at directory
  refine ⟨complete.toTidy.congr same, directory.trans complete.directory, ?_, ?_⟩
  · intro c member
    rw [same]
    exact complete.found c member
  · intro stem member
    rw [Kmod.cmd, same]
    exact complete.saved stem member

/-- A node is written that is none of the commands; a link is written for a source only. -/
theorem Kmod.Tidy.write (tidy : kmod.Tidy kernel tree) {place : List Str} {node : Node}
    (apart : ∀ stem, kmod.cmd stem ≠ place)
    (source : ∀ c ∈ kmod.srcs, kmod.bdir ++ [c] = place → node = .symlink (kmod.src ++ [c]))
    (plain : ∀ name ∉ kmod.srcs, kmod.bdir ++ [name] = place →
      ∀ target, node ≠ .symlink target) :
    kmod.Tidy kernel (Function.update tree place (some node)) := by
  have command : ∀ stem, Function.update tree place (some node) (kmod.cmd stem) =
      tree (kmod.cmd stem) := fun stem => Function.update_of_ne (apart stem) ..
  refine ⟨?_, ?_, ?_⟩
  · intro c member present
    by_cases here : kmod.bdir ++ [c] = place
    · rw [here, Function.update_self, source c member here]
    · rw [Function.update_of_ne here] at present ⊢
      exact tidy.sources c member present
  · intro stem member present
    rw [command] at present
    exact (tidy.compiled stem member present).kept (command stem)
  · intro stem absent present
    rw [command] at present
    refine (tidy.strays stem absent present).kept (command stem)
      fun name unlisted target link => ?_
    by_cases here : kmod.bdir ++ [name] = place
    · rw [here, Function.update_self] at link
      exact absurd (Option.some.inj link) (plain name unlisted here target)
    · rwa [Function.update_of_ne here] at link

/-- A command is saved. -/
theorem Kmod.Tidy.save (tidy : kmod.Tidy kernel tree)
    (objects : ∀ object ∈ kmod.sampleMk.sampleObjs, ".o".toList <:+ object) (text : Str)
    (compiled : stem ++ ".c".toList ∈ kmod.srcs →
      kmod.Compiled (Function.update tree (kmod.cmd stem) (some (.file text))) stem)
    (stray : stem ++ ".c".toList ∉ kmod.srcs →
      kmod.Stray kernel (Function.update tree (kmod.cmd stem) (some (.file text))) stem) :
    kmod.Tidy kernel (Function.update tree (kmod.cmd stem) (some (.file text))) := by
  refine ⟨?_, ?_, ?_⟩
  · intro c member present
    obtain ⟨other, rfl⟩ := stem_of_mem_srcs objects member
    rw [Function.update_of_ne (cmd_ne_source stem other).symm] at present ⊢
    exact tidy.sources _ member present
  · intro other member present
    by_cases same : other = stem
    · subst same
      exact compiled member
    · have command : Function.update tree (kmod.cmd stem) (some (.file text)) (kmod.cmd other) =
          tree (kmod.cmd other) := Function.update_of_ne (fun here => same (cmd_injective here)) ..
      rw [command] at present
      exact (tidy.compiled other member present).kept command
  · intro other absent present
    by_cases same : other = stem
    · subst same
      exact stray absent
    · have command : Function.update tree (kmod.cmd stem) (some (.file text)) (kmod.cmd other) =
          tree (kmod.cmd other) := Function.update_of_ne (fun here => same (cmd_injective here)) ..
      rw [command] at present
      refine (tidy.strays other absent present).kept command fun name _ target link => ?_
      by_cases here : kmod.bdir ++ [name] = kmod.cmd stem
      · rw [here, Function.update_self] at link
        cases link
      · rwa [Function.update_of_ne here] at link

/-- A file is written where no source and no command belongs. -/
theorem Kmod.Tidy.writeFile (tidy : kmod.Tidy kernel tree) (shown : c.head? ≠ some '.')
    (unlisted : c ∉ kmod.srcs) (text : Str) :
    kmod.Tidy kernel (Function.update tree (kmod.bdir ++ [c]) (some (.file text))) := by
  refine tidy.write (cmd_ne_shown shown) ?_ (by simp)
  intro other member same
  rw [(List.append_singleton_inj.mp same).2] at member
  exact absurd member unlisted

theorem Kmod.Tidy.writeDirectory (tidy : kmod.Tidy kernel tree) :
    kmod.Tidy kernel (Function.update tree kmod.bdir (some .directory)) := by
  have below : ∀ name, kmod.bdir ++ [name] ≠ kmod.bdir := by simp
  refine tidy.write (fun stem => below _) ?_ (by simp)
  exact fun c _ same => absurd same (below c)

theorem Kmod.Tidy.link (tidy : kmod.Tidy kernel tree)
    (objects : ∀ object ∈ kmod.sampleMk.sampleObjs, ".o".toList <:+ object)
    (member : c ∈ kmod.srcs) :
    kmod.Tidy kernel
      (Function.update tree (kmod.bdir ++ [c]) (some (.symlink (kmod.src ++ [c])))) := by
  obtain ⟨stem, rfl⟩ := stem_of_mem_srcs objects member
  refine tidy.write (fun other => cmd_ne_source other stem) ?_ ?_
  · intro other _ same
    rw [(List.append_singleton_inj.mp same).2]
  · intro name unlisted same
    rw [(List.append_singleton_inj.mp same).2] at unlisted
    exact absurd member unlisted

theorem Kmod.Complete.writeModule (complete : kmod.Complete kernel tree)
    (outside : ¬ kmod.bdir <+: kmod.ko) (node : Node) :
    kmod.Complete kernel (Function.update tree kmod.ko (some node)) := by
  refine complete.congr fun rest => ?_
  apply Function.update_of_ne
  intro same
  exact outside (same ▸ List.prefix_append _ _)

/-- What others write to what is shared makes no difference. -/
theorem Kmod.Stage.congr (shares : kmod.Shares shared)
    (stage : kmod.Stage kernel shared kbuild tree point)
    (same : ∀ place, shared place = false → tree' place = tree place) :
    kmod.Stage kernel shared kbuild tree' point := by
  have below : ∀ rest, tree' (kmod.bdir ++ rest) = tree (kmod.bdir ++ rest) :=
    fun rest => same _ (shares.own _ (owns_bdir rest))
  cases point with
  | preflight | mkdir | objM => exact Kmod.Tidy.congr stage below
  | link rest => exact ⟨stage.1.congr below, stage.2⟩
  | objs => exact ⟨stage.1.congr below, (below _).trans stage.2⟩
  | make => exact ⟨stage.toTidy.congr below, (below _).trans stage.kbuild⟩
  | kbuild progress =>
    obtain ⟨start, inputs, alone, begun, onward, agrees⟩ := stage
    exact ⟨start, inputs, alone, begun, onward,
      fun place apart => (same place apart).trans (agrees place apart)⟩
  | copy | copying text | testTool | testKey | testCert | findOpenssl | writeKey | writeCert | sign
  | built => exact Kmod.Complete.congr stage below
  | stopped why | failed => trivial

theorem stage_goes (recorded : kmod.Recorded kernel kbuild)
    (objects : ∀ object ∈ kmod.sampleMk.sampleObjs, ".o".toList <:+ object)
    (outside : ¬ kmod.bdir <+: kmod.ko) (shares : kmod.Shares shared)
    (stage : kmod.Stage kernel shared kbuild tree point)
    (taken : buildGoes kbuild host kmod tree point = some (point', tree')) :
    kmod.Stage kernel shared kbuild tree' point' := by
  have unlisted := kbuild_not_mem_srcs objects
  cases point with
  | preflight =>
    simp only [buildGoes] at taken
    split at taken <;> cases taken
    · trivial
    · exact stage
  | mkdir =>
    simp only [buildGoes] at taken
    split at taken <;> cases taken
    · exact ⟨Kmod.Tidy.writeDirectory stage, List.Subset.refl _⟩
    · exact ⟨stage, List.Subset.refl _⟩
    · trivial
  | link rest =>
    obtain ⟨tidy, listed⟩ := stage
    cases rest with
    | nil =>
      cases taken
      exact tidy
    | cons c rest =>
      rw [buildGoes] at taken
      split at taken <;> cases taken
      obtain ⟨member, later⟩ := List.cons_subset.mp listed
      exact ⟨tidy.link objects member, later⟩
  | objM =>
    simp only [buildGoes] at taken
    split at taken <;> cases taken <;>
      exact ⟨Kmod.Tidy.writeFile stage (by decide) unlisted _, Function.update_self ..⟩
  | objs =>
    simp only [buildGoes] at taken
    obtain ⟨tidy, text⟩ := stage
    rw [text] at taken
    cases taken
    exact ⟨tidy.writeFile (by decide) unlisted _, Function.update_self ..⟩
  | make =>
    cases taken
    exact ⟨tree, [], tree, stage, rfl, fun _ _ => rfl⟩
  | kbuild progress =>
    obtain ⟨start, inputs, alone, begun, onward, agrees⟩ := stage
    simp only [buildGoes] at taken
    split at taken <;> cases taken
    · rename_i succeeded
      exact (recorded begun.toTidy begun.kbuild onward succeeded).congr
        fun rest => agrees _ (shares.own _ (owns_bdir rest))
    · trivial
  | copy =>
    simp only [buildGoes] at taken
    split at taken <;> cases taken
    · exact Kmod.Complete.writeModule stage outside _
    · exact Kmod.Complete.writeModule stage outside _
    · trivial
  | copying text =>
    cases taken
    have complete := Kmod.Complete.writeModule stage outside (.file text)
    by_cases sign : kmod.sign = true
    · rw [if_pos sign]
      exact complete
    · rw [if_neg sign]
      exact complete
  | testTool | testKey | testCert | findOpenssl =>
    cases taken
    split <;> exact stage
  | stopped why | writeKey | writeCert | sign | built | failed => cases taken

theorem stage_step (recorded : kmod.Recorded kernel kbuild)
    (objects : ∀ object ∈ kmod.sampleMk.sampleObjs, ".o".toList <:+ object)
    (outside : ¬ kmod.bdir <+: kmod.ko) (shares : kmod.Shares shared)
    (sightless : kbuild.Blind (shared · = true))
    (stage : kmod.Stage kernel shared kbuild tree point)
    (taken : buildStep kbuild host kmod point tree input = some (point', tree')) :
    kmod.Stage kernel shared kbuild tree' point' := by
  cases input with
  | go => exact stage_goes recorded objects outside shares stage taken
  | fails =>
    obtain rfl := buildFails_tree taken
    simp only [buildStep] at taken
    unfold buildFails at taken
    split at taken <;> cases taken
    · exact ⟨stage.1, (List.cons_subset.mp stage.2).2⟩
    all_goals trivial
  | kbuild moved =>
    simp only [buildStep] at taken
    split at taken
    · obtain ⟨next, went, same⟩ := Option.map_eq_some_iff.mp taken
      cases same
      obtain ⟨start, inputs, alone, begun, onward, agrees⟩ := stage
      obtain ⟨alone', follows, agrees'⟩ := sightless
        (fun place apart => agrees place (Bool.eq_false_iff.mpr apart)) went
      refine ⟨start, inputs ++ [moved], alone', begun,
        Machine.run_trans onward (Machine.run_single.mpr follows), fun place apart => ?_⟩
      exact agrees' place (Bool.eq_false_iff.mp apart)
    · cases taken
  | wrote text =>
    have complete : kmod.Complete kernel tree := by
      obtain ⟨-, -, -, -, -, ⟨rfl, -⟩ | ⟨rfl, -⟩⟩ := buildWrites_cases taken <;> exact stage
    have kept : kmod.Complete kernel tree' := complete.congr fun rest =>
      buildWrites_keeps shares taken (owns_bdir rest)
    obtain ⟨-, -, -, -, -, ⟨-, rfl⟩ | ⟨-, rfl⟩⟩ := buildWrites_cases taken <;> exact kept
  | signed signature =>
    obtain ⟨rfl, rfl, key, cert, text, -, -, -, -, rfl⟩ := buildSigns_cases taken
    exact Kmod.Complete.writeModule stage outside _
  | killed =>
    rw [buildStep] at taken
    split at taken <;> cases taken
    trivial

/-- A sample that is built, however often its links and commands were made before, has all of
them. -/
theorem built_complete (recorded : kmod.Recorded kernel kbuild)
    (objects : ∀ object ∈ kmod.sampleMk.sampleObjs, ".o".toList <:+ object)
    (outside : ¬ kmod.bdir <+: kmod.ko) (shares : kmod.Shares shared)
    (sightless : kbuild.Blind (shared · = true)) {start : Tree} (tidy : kmod.Tidy kernel start)
    (onward : ((build kbuild host kmod).among shared start).run
      ((build kbuild host kmod).among shared start).initial moves = some (.built, tree)) :
    kmod.Complete kernel tree := by
  refine @Machine.run_invariant _ _ ((build kbuild host kmod).among shared start)
    (fun state => kmod.Stage kernel shared kbuild state.2 state.1) ?_
    ((build kbuild host kmod).among shared start).initial (.built, tree) moves tidy onward
  intro state move next stage taken
  cases move with
  | own input => exact stage_step recorded objects outside shares sightless stage taken
  | others seen =>
    obtain rfl := Option.some.inj taken
    exact stage.congr shares fun place apart =>
      if_neg (by rw [apart]; exact Bool.false_ne_true)

end Stages

end KernelSamples.Scripts

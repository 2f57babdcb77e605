import KernelSamples.Compdb.Main
import KernelSamples.Scripts.Disk
import KernelSamples.Scripts.Makefile

/-! `make` as a whole: what `scripts/compdb.py` makes of the tree that it is started on, with
every sample built. -/

namespace KernelSamples.Scripts

open Lib Compdb

variable {count : Nat}

def outputNames : List Str :=
  outputs (.compdb : Target 0) ++ outputs (.tags : Target 0) ++ outputs (.cscope : Target 0)

/-- A directory on the way to a sample. -/
structure DirName (name : Str) : Prop where
  entry : EntryName name
  plain : hasMagic name = false
  shown : FileTree.hidden name = false
  noModule : ".ko".toList.isSuffixOf name = false
  noOutput : outputNames.contains name = false

instance (name : Str) : Decidable (DirName name) :=
  decidable_of_iff (EntryName name ∧ hasMagic name = false ∧ FileTree.hidden name = false ∧
      ".ko".toList.isSuffixOf name = false ∧ outputNames.contains name = false)
    ⟨fun dir => ⟨dir.1, dir.2.1, dir.2.2.1, dir.2.2.2.1, dir.2.2.2.2⟩,
      fun dir => ⟨dir.entry, dir.plain, dir.shown, dir.noModule, dir.noOutput⟩⟩

/-- The names of the Makefile's directory, of the samples and of what they are built from. -/
structure Layout (curdir : List Str) (kmods : Fin count → Kmod) : Prop where
  nonempty : curdir ≠ []
  names : ∀ name ∈ curdir, EntryName name
  plain : curdir.any hasMagic = false
  dirs : ∀ index, ∀ name ∈ (kmods index).sample.dropLast, DirName name
  modules : ∀ index, EntryName (".build-".toList ++ (kmods index).mod) ∧
    hasMagic (".build-".toList ++ (kmods index).mod) = false
  objects : ∀ index, ∀ object ∈ (kmods index).sampleMk.sampleObjs, ".o".toList <:+ object
  sources : ∀ index, ∀ c ∈ (kmods index).srcs, EntryName c ∧ FileTree.hidden c = false

/-- The repository: the directories of the samples are there, and build directories and symbolic
links are at most those of earlier builds. -/
structure Checkout (kernel : List Str → Prop) (curdir : List Str) (kmods : Fin count → Kmod)
    (tree : Tree) : Prop where
  directories : ∀ index above, above <+: (kmods index).src → tree above = some .directory
  links : ∀ {place target}, tree place = some (.symlink target) →
    place <+: curdir ∨ curdir <+: place → ∃ index, (kmods index).bdir <+: place
  builds : ∀ {place name}, curdir <+: place → buildName name = true →
    tree (place ++ [name]) = some .directory → ∃ index, (kmods index).bdir <+: place ++ [name]
  tidy : ∀ index, (kmods index).Tidy kernel tree

/-- The repository with every sample built. -/
structure Built (kernel : List Str → Prop) (curdir : List Str) (kmods : Fin count → Kmod)
    (tree : Tree) : Prop extends Checkout kernel curdir kmods tree where
  complete : ∀ index, (kmods index).Complete kernel tree

/-- Where an entry says its command was run, and what file it is for. -/
def placeOf (entry : Entry) : Str × Str := (entry.directory, entry.file)

/-- `ROOT` is the directory of the Makefile. -/
theorem rootOf_script {curdir : List Str} (names : ∀ name ∈ curdir, EntryName name) :
    rootOf (pathText (curdir ++ ["scripts".toList, "compdb.py".toList])) = ⟨false, curdir⟩ := by
  have entries : ∀ name ∈ curdir ++ ["scripts".toList, "compdb.py".toList], EntryName name :=
    List.forall_mem_append.mpr ⟨names, by decide⟩
  have resolved : Symlinks.empty.realpath
      (pathText (curdir ++ ["scripts".toList, "compdb.py".toList])) =
        curdir ++ ["scripts".toList, "compdb.py".toList] := by
    rw [Symlinks.realpath_pathText _ entries]
    exact @Symlinks.Real.walk_down _ Symlinks.empty [] _ fun above _ => rfl
  have single : ['/', '/'].isPrefixOf
      (pathText (curdir ++ ["scripts".toList, "compdb.py".toList])) = false := by
    rw [Bool.eq_false_iff]
    intro doubled
    exact not_doubled entries _ (List.isPrefixOf_iff_prefix.mp doubled)
  rw [rootOf, resolved, single, List.dropLast_append_of_ne_nil (by simp)]
  simp

section Found

variable {kernel : List Str → Prop} {curdir dirs bdir place : List Str}
  {kmods : Fin count → Kmod} {disk : FileTree} {tree : Tree} {index : Fin count}
  {name stem : Str} {file : Located}

theorem src_below (apart : Apart curdir kmods) (index : Fin count) :
    (kmods index).src = curdir ++ (kmods index).sample.dropLast := by
  rw [Kmod.src, apart.sameCurdir]

theorem bdir_below (apart : Apart curdir kmods) (index : Fin count) : (kmods index).bdir =
    curdir ++ ((kmods index).sample.dropLast ++ [".build-".toList ++ (kmods index).mod]) := by
  rw [Kmod.bdir, src_below apart, List.append_assoc]

theorem names_bdir (layout : Layout curdir kmods) (apart : Apart curdir kmods)
    (index : Fin count) : ∀ name ∈ (kmods index).bdir, EntryName name := by
  rw [bdir_below apart]
  refine List.forall_mem_append.mpr ⟨layout.names, List.forall_mem_append.mpr ⟨?_, ?_⟩⟩
  · exact fun name member => (layout.dirs index name member).entry
  · exact List.forall_mem_singleton.mpr (layout.modules index).1

theorem names_source (layout : Layout curdir kmods) (apart : Apart curdir kmods) {c : Str}
    (member : c ∈ (kmods index).srcs) : ∀ name ∈ (kmods index).src ++ [c], EntryName name := by
  have names := (List.forall_mem_append.mp (names_bdir layout apart index)).1
  exact List.forall_mem_append.mpr ⟨names,
    List.forall_mem_singleton.mpr (layout.sources index c member).1⟩

/-- A build directory is hidden. -/
theorem not_above_shown (apart : Apart curdir kmods)
    (shown : ∀ name ∈ dirs, FileTree.hidden name = false) (index : Fin count) :
    ¬ (kmods index).bdir <+: curdir ++ dirs := by
  intro above
  rw [bdir_below apart, List.prefix_append_right_inj] at above
  have member := above.subset (List.mem_append_right _ List.mem_cons_self)
  have hidden := shown _ member
  cases hidden

theorem shown_dirs (layout : Layout curdir kmods) (index : Fin count) :
    ∀ name ∈ (kmods index).sample.dropLast, FileTree.hidden name = false :=
  fun name member => (layout.dirs index name member).shown

theorem real_shown (apart : Apart curdir kmods) (built : Built kernel curdir kmods tree)
    (shows : Shows disk tree) (shown : ∀ name ∈ dirs, FileTree.hidden name = false) :
    disk.links.Real (curdir ++ dirs) := by
  refine shows.real fun above inside target link => ?_
  obtain ⟨index, below⟩ := built.links link
    (List.prefix_or_prefix_of_prefix inside (List.prefix_append _ _))
  exact not_above_shown apart shown index (below.trans inside)

theorem real_curdir (apart : Apart curdir kmods) (built : Built kernel curdir kmods tree)
    (shows : Shows disk tree) : disk.links.Real curdir := by
  have real : disk.links.Real (curdir ++ []) :=
    real_shown apart built shows fun name none => by cases none
  rwa [List.append_nil] at real

theorem real_bdir (layout : Layout curdir kmods) (apart : Apart curdir kmods)
    (built : Built kernel curdir kmods tree) (shows : Shows disk tree) (index : Fin count) :
    disk.links.Real (kmods index).bdir := by
  intro above inside
  rcases List.prefix_concat_iff.mp inside with rfl | inside
  · refine shows.plain fun target link => ?_
    rw [← Kmod.bdir, (built.complete index).directory] at link
    cases link
  · rw [src_below apart] at inside
    exact real_shown apart built shows (shown_dirs layout index) above inside

theorem real_entry (layout : Layout curdir kmods) (apart : Apart curdir kmods)
    (built : Built kernel curdir kmods tree) (shows : Shows disk tree)
    (plain : ∀ target, tree ((kmods index).bdir ++ [name]) ≠ some (.symlink target)) :
    disk.links.Real ((kmods index).bdir ++ [name]) := by
  intro above inside
  rcases List.prefix_concat_iff.mp inside with rfl | inside
  · exact shows.plain plain
  · exact real_bdir layout apart built shows index above inside

/-- The build directories that are found are those of the samples. -/
theorem buildDir_iff (layout : Layout curdir kmods) (apart : Apart curdir kmods)
    (built : Built kernel curdir kmods tree) (shows : Shows disk tree) :
    BuildDir disk ⟨false, curdir⟩ bdir ↔ ∃ index, bdir = (kmods index).bdir := by
  constructor
  · intro found
    obtain ⟨dirs, name, rfl, below, entry, named, isDirectory⟩ := found
    have shown : ∀ name ∈ dirs, FileTree.hidden name = false := FileTree.shown_of_below below
    have sample : ∀ index, (kmods index).bdir <+: curdir ++ dirs ++ [name] →
        curdir ++ dirs ++ [name] = (kmods index).bdir := by
      intro index above
      rcases List.prefix_concat_iff.mp above with same | inside
      · exact same.symm
      · exact absurd inside (not_above_shown apart shown index)
    have real := real_shown apart built shows shown
    by_cases link : ∃ target, tree (curdir ++ dirs ++ [name]) = some (.symlink target)
    · obtain ⟨target, link⟩ := link
      obtain ⟨index, above⟩ := built.links link
        (.inr (by rw [List.append_assoc]; exact List.prefix_append _ _))
      exact ⟨index, sample index above⟩
    · have plain : ∀ target, tree (curdir ++ dirs ++ [name]) ≠ some (.symlink target) :=
        fun target here => link ⟨target, here⟩
      have whole : disk.links.Real (curdir ++ dirs ++ [name]) := by
        intro above inside
        rcases List.prefix_concat_iff.mp inside with rfl | inside
        · exact shows.plain plain
        · exact real above inside
      obtain ⟨index, above⟩ := built.builds (List.prefix_append curdir dirs) named
        ((shows.isdir whole).mp isDirectory)
      exact ⟨index, sample index above⟩
  · intro found
    obtain ⟨index, rfl⟩ := found
    have directories := built.directories index
    rw [src_below apart] at directories
    have shown := shown_dirs layout index
    have real := real_shown apart built shows shown
    refine ⟨(kmods index).sample.dropLast, ".build-".toList ++ (kmods index).mod, ?_,
      shows.below real directories shown, ?_, rfl, ?_⟩
    · rw [bdir_below apart, List.append_assoc]
    · rw [shows.mem_scandir real (directories _ (List.prefix_refl _)), List.append_assoc,
        ← bdir_below apart, (built.complete index).directory]
      simp
    · exact (shows.isdir (real_bdir layout apart built shows index)).mpr
        (built.complete index).directory

/-- The files that are found are the commands that kbuild saved. -/
theorem commandFile_iff (layout : Layout curdir kmods) (apart : Apart curdir kmods)
    (built : Built kernel curdir kmods tree) (shows : Shows disk tree) :
    CommandFile disk ⟨false, curdir⟩ file ↔ ∃ index stem,
      file = ((kmods index).bdir, (kmods index).cmd stem) ∧
      tree ((kmods index).cmd stem) ≠ none := by
  have entries (index : Fin count) (name : Str) :
      name ∈ disk.scandir (kmods index).bdir ↔ tree ((kmods index).bdir ++ [name]) ≠ none :=
    shows.mem_scandir (real_bdir layout apart built shows index) (built.complete index).directory
  constructor
  · intro found
    obtain ⟨isBuild, stem, path, entry⟩ := found
    obtain ⟨index, directory⟩ := (buildDir_iff layout apart built shows).mp isBuild
    rw [directory] at path entry
    exact ⟨index, stem, Prod.ext directory path, (entries index _).mp entry⟩
  · intro found
    obtain ⟨index, stem, rfl, present⟩ := found
    exact ⟨(buildDir_iff layout apart built shows).mpr ⟨index, rfl⟩, stem, rfl,
      (entries index _).mpr present⟩

theorem saved_of_present (built : Built kernel curdir kmods tree)
    (present : tree ((kmods index).cmd stem) ≠ none) :
    ∃ saved : SavedCommand, tree ((kmods index).cmd stem) = some (.file saved.text) := by
  have tidy := (built.complete index).toTidy
  by_cases member : stem ++ ".c".toList ∈ (kmods index).srcs
  · obtain ⟨saved, -, -, -, -, text, -⟩ := tidy.compiled stem member present
    exact ⟨saved, text⟩
  · obtain ⟨saved, text, -⟩ := tidy.strays stem member present
    exact ⟨saved, text⟩

theorem real_cmd (layout : Layout curdir kmods) (apart : Apart curdir kmods)
    (built : Built kernel curdir kmods tree) (shows : Shows disk tree)
    (present : tree ((kmods index).cmd stem) ≠ none) :
    disk.links.Real ((kmods index).cmd stem) := by
  obtain ⟨saved, text⟩ := saved_of_present built present
  refine real_entry layout apart built shows fun target link => ?_
  rw [← Kmod.cmd, text] at link
  cases link

/-- A link in a build directory leads to the source beside it. -/
theorem locate_source (layout : Layout curdir kmods) (apart : Apart curdir kmods)
    (built : Built kernel curdir kmods tree) (shows : Shows disk tree) {c : Str}
    (member : c ∈ (kmods index).srcs) :
    disk.locate ((kmods index).bdir ++ [c]) = (kmods index).src ++ [c] := by
  have complete := built.complete index
  have link := shows.link (complete.sources c member (complete.found c member))
  have real : disk.links.Real ((kmods index).src ++ [c]) := by
    rw [src_below apart, List.append_assoc]
    refine real_shown apart built shows (List.forall_mem_append.mpr ⟨shown_dirs layout index, ?_⟩)
    exact List.forall_mem_singleton.mpr (layout.sources index c member).2
  have above := FileTree.locate_real (real_bdir layout apart built shows index)
  rw [FileTree.locate] at above
  rw [FileTree.locate, List.map_append, Symlinks.walk_append, above, List.map_singleton,
    Symlinks.walk, Symlinks.enter, link, Option.getD_some, FileTree.locate_real real]
  rfl

theorem buildName_of_shown (shown : FileTree.hidden name = false) : buildName name = false := by
  rw [Bool.eq_false_iff]
  intro build
  obtain ⟨rest, rfl⟩ := List.isPrefixOf_iff_prefix.mp build
  cases shown

/-- The sources of the kernel are not in the repository. -/
def Outside (disk : FileTree) (curdir : List Str) (kernel : List Str → Prop) : Prop :=
  ∀ place, kernel place → ¬ curdir <+: disk.locate place

/-- The source of a command that is saved for a sample's object is found beside the build
directory. -/
theorem real_source (layout : Layout curdir kmods) (apart : Apart curdir kmods)
    (built : Built kernel curdir kmods tree) (shows : Shows disk tree) {source : Str}
    (member : stem ++ ".c".toList ∈ (kmods index).srcs)
    (named : Names (kmods index).bdir source ((kmods index).source stem)) :
    Root.real disk ⟨false, curdir⟩ ((kmods index).bdir, (kmods index).cmd stem) source =
      (kmods index).src ++ [stem ++ ".c".toList] := by
  have names := names_bdir layout apart index
  have leads := @Names.leads disk _ _ _ named names (List.forall_mem_append.mpr ⟨names,
    List.forall_mem_singleton.mpr (layout.sources index _ member).1⟩)
  exact leads.trans (locate_source layout apart built shows member)

/-- The command of a stray object compiles nothing of the repository. -/
theorem not_compiles_stray (layout : Layout curdir kmods) (apart : Apart curdir kmods)
    (built : Built kernel curdir kmods tree) (shows : Shows disk tree)
    (outside : Outside disk curdir kernel) (stray : (kmods index).Stray kernel tree stem) :
    ¬ Compiles disk ⟨false, curdir⟩ curdir ((kmods index).bdir, (kmods index).cmd stem) := by
  intro compiles
  obtain ⟨text, cmd, src, rest, read, parsed, -, -, -, below, -, outer⟩ := compiles
  obtain ⟨saved, here, elsewhere⟩ := stray
  have present : tree ((kmods index).cmd stem) ≠ none := by
    rw [here]
    simp
  rw [shows.read (real_cmd layout apart built shows present) here, Option.some.injEq] at read
  subst read
  rw [saved.parse_text] at parsed
  obtain ⟨pair, compiled, rfl⟩ := Option.map_eq_some_iff.mp (Prod.mk.inj parsed).2
  obtain ⟨source, dependencies⟩ := pair
  obtain ⟨place, named, names, away⟩ := elsewhere compiled
  have leads : disk.locate place = curdir ++ rest :=
    (Names.leads named (names_bdir layout apart index) names).symm.trans below
  rcases away with away | ⟨name, -, rfl, plain⟩
  · exact outside place away (leads ▸ List.prefix_append _ _)
  · rw [FileTree.locate_real (real_entry layout apart built shows plain), bdir_below apart,
      List.append_assoc, List.append_cancel_left_eq] at leads
    have inside : ".build-".toList ++ (kmods index).mod ∈ rest := by
      rw [← leads]
      simp
    have build := outer _ inside
    cases build

/-- `compdb.py` takes the commands that compiled the sources of the samples. -/
theorem eligible_iff (layout : Layout curdir kmods) (apart : Apart curdir kmods)
    (built : Built kernel curdir kmods tree) (shows : Shows disk tree)
    (outside : Outside disk curdir kernel) :
    Eligible disk ⟨false, curdir⟩ file ↔ ∃ index stem, stem ++ ".c".toList ∈ (kmods index).srcs ∧
      file = ((kmods index).bdir, (kmods index).cmd stem) := by
  rw [Eligible, commandFile_iff layout apart built shows,
    FileTree.locate_real (real_curdir apart built shows)]
  constructor
  · intro both
    obtain ⟨⟨index, stem, rfl, present⟩, compiles⟩ := both
    refine ⟨index, stem, ?_, rfl⟩
    by_contra absent
    exact not_compiles_stray layout apart built shows outside
      ((built.complete index).strays stem absent present) compiles
  · intro found
    obtain ⟨index, stem, member, rfl⟩ := found
    have complete := built.complete index
    have present := complete.saved stem member
    refine ⟨⟨index, stem, rfl, present⟩, ?_⟩
    obtain ⟨saved, source, dependencies, driver, options, text, compiled, named, -⟩ :=
      complete.compiled stem member present
    have given : source ≠ [] := by
      rintro rfl
      have none := saved.sourceName compiled
      cases none
    refine ⟨saved.text, kbuildEscape saved.command, source,
      (kmods index).sample.dropLast ++ [stem ++ ".c".toList],
      shows.read (real_cmd layout apart built shows present) text, ?_,
      kbuildEscape_nonempty saved.nonempty, given, saved.sourceNul compiled, ?_, by simp, ?_⟩
    · rw [saved.parse_text, compiled]
      rfl
    · rw [real_source layout apart built shows member named, src_below apart, List.append_assoc]
    · refine List.forall_mem_append.mpr ⟨?_, ?_⟩
      · exact fun name inside => buildName_of_shown (shown_dirs layout index name inside)
      · exact List.forall_mem_singleton.mpr
          (buildName_of_shown (layout.sources index _ member).2)

theorem built_plain (layout : Layout curdir kmods) (apart : Apart curdir kmods)
    (built : Built kernel curdir kmods tree) (shows : Shows disk tree) :
    PlainNames disk ⟨false, curdir⟩ := by
  refine ⟨layout.plain, fun bdir isBuild => ?_⟩
  obtain ⟨index, rfl⟩ := (buildDir_iff layout apart built shows).mp isBuild
  have dirs : (kmods index).sample.dropLast.any hasMagic = false := by
    rw [List.any_eq_false]
    exact fun name member => by rw [(layout.dirs index name member).plain]; decide
  rw [bdir_below apart, List.any_append, List.any_append, layout.plain, dirs, List.any_cons,
    (layout.modules index).2]
  rfl

theorem built_collectable (layout : Layout curdir kmods) (apart : Apart curdir kmods)
    (built : Built kernel curdir kmods tree) (shows : Shows disk tree)
    (outside : Outside disk curdir kernel) : Collectable disk ⟨false, curdir⟩ := by
  have eligible := @eligible_iff _ kernel curdir kmods disk tree
  refine ⟨?_, ?_, ?_, ?_⟩
  · intro file command
    obtain ⟨index, stem, rfl, present⟩ := (commandFile_iff layout apart built shows).mp command
    obtain ⟨saved, text⟩ := saved_of_present built present
    refine ⟨saved.text, shows.read (real_cmd layout apart built shows present) text, ?_⟩
    intro cmd src parsed _
    rw [saved.parse_text] at parsed
    obtain ⟨pair, compiled, rfl⟩ := Option.map_eq_some_iff.mp (Prod.mk.inj parsed).2
    exact saved.sourceNul compiled
  · exact fun file _ => ⟨rfl, layout.nonempty, real_curdir apart built shows⟩
  · intro file isEligible text cmd src read parsed
    obtain ⟨index, stem, member, rfl⟩ := (eligible layout apart built shows outside).mp isEligible
    have complete := built.complete index
    have present := complete.saved stem member
    obtain ⟨saved, source, dependencies, driver, options, here, compiled, named, splits, single,
      program, plain, whole⟩ := complete.compiled stem member present
    rw [shows.read (real_cmd layout apart built shows present) here, Option.some.injEq] at read
    subst read
    rw [saved.parse_text] at parsed
    obtain rfl := Option.some.inj (Prod.mk.inj parsed).1
    obtain ⟨options, divided, -⟩ := split_saved saved splits single program plain whole
    exact ⟨driver, options, divided⟩
  · intro file other isEligible isEligible' same
    obtain ⟨index, stem, member, rfl⟩ := (eligible layout apart built shows outside).mp isEligible
    obtain ⟨index', stem', member', rfl⟩ :=
      (eligible layout apart built shows outside).mp isEligible'
    have present := (built.complete index).saved stem member
    have present' := (built.complete index').saved stem' member'
    rw [SameFile, FileTree.locate_real (real_cmd layout apart built shows present),
      FileTree.locate_real (real_cmd layout apart built shows present')] at same
    exact Prod.ext (List.append_singleton_inj.mp same).1 same

theorem record_place (layout : Layout curdir kmods) (apart : Apart curdir kmods)
    (built : Built kernel curdir kmods tree) (shows : Shows disk tree) {record : Record}
    (member : stem ++ ".c".toList ∈ (kmods index).srcs)
    (isOf : record.Of disk ⟨false, curdir⟩ ((kmods index).bdir, (kmods index).cmd stem)) :
    record.directory = pathText (kmods index).bdir ∧
      record.real = pathText ((kmods index).src ++ [stem ++ ".c".toList]) ∧
      ∀ word ∈ record.args, '\x00' ∉ word := by
  have complete := built.complete index
  have present := complete.saved stem member
  obtain ⟨saved, source, dependencies, driver, options, here, compiled, named, splits, single,
    program, plain, whole⟩ := complete.compiled stem member present
  obtain ⟨text, cmd, read, parsed, divided⟩ := isOf.said
  rw [shows.read (real_cmd layout apart built shows present) here, Option.some.injEq] at read
  subst read
  rw [saved.parse_text, compiled] at parsed
  obtain ⟨command, source⟩ := Prod.mk.inj parsed
  obtain rfl := Option.some.inj command
  obtain rfl := Option.some.inj source
  obtain ⟨options, again, words⟩ := split_saved saved splits single program plain whole
  refine ⟨isOf.directory, isOf.real.trans
    (congrArg pathText (real_source layout apart built shows member named)), ?_⟩
  rw [again] at divided
  exact Except.ok.inj divided ▸ words

/-- With every sample built, the database has each source of each sample once, under its own
path, and nothing else. -/
theorem built_database (layout : Layout curdir kmods) (apart : Apart curdir kmods)
    (built : Built kernel curdir kmods tree) (shows : Shows disk tree)
    (outside : Outside disk curdir kernel) {iterate : List Query → List Query}
    (order : ∀ queries, (iterate queries).Perm queries) (probe : Str → Option Str → Bool) :
    ∃ written entries, main iterate (some probe) disk ⟨false, curdir⟩ = .ok written ∧
      readDatabase written.document = some entries ∧ (entries.map placeOf).Nodup ∧
      ∀ place, place ∈ entries.map placeOf ↔ ∃ index, ∃ c ∈ (kmods index).srcs,
        place = (pathText (kmods index).bdir, pathText ((kmods index).src ++ [c])) := by
  obtain ⟨found, selected, honest, listed, ordered⟩ := select_collectable layout.names
    (built_plain layout apart built shows) (built_collectable layout apart built shows outside)
  have eligible := @eligible_iff _ kernel curdir kmods disk tree
  have origin : ∀ item ∈ found, ∃ index stem, stem ++ ".c".toList ∈ (kmods index).srcs ∧
      item.1 = ((kmods index).bdir, (kmods index).cmd stem) ∧
      item.2.directory = pathText (kmods index).bdir ∧
      item.2.real = pathText ((kmods index).src ++ [stem ++ ".c".toList]) ∧
      ∀ word ∈ item.2.args, '\x00' ∉ word := by
    intro item member
    obtain ⟨index, stem, source, located⟩ := (eligible layout apart built shows outside).mp
      ((listed item.1).mp (List.mem_map_of_mem member))
    have isOf := honest item member
    rw [located] at isOf
    exact ⟨index, stem, source, located, record_place layout apart built shows source isOf⟩
  have distinct : (found.map Prod.fst).Nodup := by
    refine ordered.imp fun before same => ?_
    subst same
    rcases before with less | ⟨-, less⟩
    · exact lt_irrefl _ less
    · exact lt_irrefl _ less
  have whole : ∀ item ∈ found, ∀ word ∈ item.2.args, '\x00' ∉ word := by
    intro item member
    obtain ⟨-, -, -, -, -, -, words⟩ := origin item member
    exact words
  obtain ⟨written, ran, documented⟩ := main_ran selected order whole probe
  refine ⟨written, _, ran, by rw [documented, readDatabase_document], ?_, ?_⟩
  · rw [List.map_map, List.map_map]
    refine List.Nodup.map_on ?_ distinct.of_map
    intro item inFound other inFound' same
    obtain ⟨index, stem, source, located, directory, real, -⟩ := origin item inFound
    obtain ⟨index', stem', source', located', directory', real', -⟩ := origin other inFound'
    obtain ⟨sameDirectory, sameReal⟩ := Prod.mk.inj same
    refine List.inj_on_of_nodup_map distinct inFound inFound' ?_
    have bdirs := pathText_injective (names_bdir layout apart index)
      (names_bdir layout apart index') (directory.symm.trans (sameDirectory.trans directory'))
    have reals := pathText_injective (names_source layout apart source)
      (names_source layout apart source') (real.symm.trans (sameReal.trans real'))
    have stems := List.append_cancel_right (List.append_singleton_inj.mp reals).2
    rw [located, located', Kmod.cmd, Kmod.cmd, bdirs, stems]
  · intro place
    simp only [List.map_map, List.mem_map]
    constructor
    · intro member
      obtain ⟨item, inFound, rfl⟩ := member
      obtain ⟨index, stem, source, -, directory, real, -⟩ := origin item inFound
      exact ⟨index, _, source, Prod.ext directory real⟩
    · intro wanted
      obtain ⟨index, c, source, rfl⟩ := wanted
      obtain ⟨stem, rfl⟩ := stem_of_mem_srcs (layout.objects index) source
      have inFound := (listed ((kmods index).bdir, (kmods index).cmd stem)).mpr
        ((eligible layout apart built shows outside).mpr ⟨index, stem, source, rfl⟩)
      obtain ⟨item, member, located⟩ := List.mem_map.mp inFound
      have isOf := honest item member
      rw [located] at isOf
      obtain ⟨directory, real, -⟩ := record_place layout apart built shows source isOf
      exact ⟨item, member, Prod.ext directory real⟩

end Found

/-- The samples of the repository, wherever it is. -/
theorem repository_layout {pass : Pass} (same : pass.sampleMk = sampleMk)
    (nonempty : pass.curdir ≠ []) (names : ∀ name ∈ pass.curdir, EntryName name)
    (plain : pass.curdir.any hasMagic = false) :
    Layout pass.curdir fun index : Fin repositorySamples.length =>
      pass.kmod (repositorySamples.get index) := by
  obtain ⟨curdir, kdir, arch, crossCompile, sign, sampleMk⟩ := pass
  cases same
  have dirs : ∀ index, ∀ name ∈ (trialKmods index).sample.dropLast, DirName name := by decide
  have modules : ∀ index, EntryName (".build-".toList ++ (trialKmods index).mod) ∧
      hasMagic (".build-".toList ++ (trialKmods index).mod) = false := by decide
  have sources : ∀ index, ∀ c ∈ (trialKmods index).srcs,
      EntryName c ∧ FileTree.hidden c = false := by decide
  exact ⟨nonempty, names, plain, dirs, modules, fun _ _ none => (by cases none), sources⟩

section Trial

def listKmod : Kmod := trialPass.kmod ["data_structure".toList, "list".toList]

/-- The only sample of a repository. -/
def listKmods (_ : Fin 1) : Kmod := listKmod

def onlyIndex : Fin 1 := ⟨0, by decide⟩

def inKernel (place : List Str) : Prop := ["k".toList] <+: place

def savedList : SavedCommand where
  object := "list.o".toList
  command := "gcc -c -o list.o list.c".toList
  compiled := some ("list.c".toList, [])
  objectName := by decide
  nonempty := by decide
  oneLine := by decide
  sourceName same := by
    cases same
    decide
  sourceNul same := by
    cases same
    decide

def savedListMod : SavedCommand where
  object := "list.mod.o".toList
  command := "gcc -c -o list.mod.o list.mod.c".toList
  compiled := some ("list.mod.c".toList, [])
  objectName := by decide
  nonempty := by decide
  oneLine := by decide
  sourceName same := by
    cases same
    decide
  sourceNul same := by
    cases same
    decide

def listMade (tree : Tree) : Tree :=
  Function.update (Function.update (Function.update (Function.update tree
    listKmod.linked (some (.file "ELF".toList)))
    (listKmod.source "list.mod".toList) (some (.file [])))
    (listKmod.cmd "list.mod".toList) (some (.file savedListMod.text)))
    (listKmod.cmd "list".toList) (some (.file savedList.text))

/-- A kbuild that compiles `list.c` and the `list.mod.c` that it generates, and links them. -/
def listOnly : Recipe (List (List Char)) (Option Node) Bool Unit where
  start := false
  step through tree _ :=
    if through ∨ tree listKmod.bdir ≠ some .directory ∨
      tree (listKmod.source "list".toList) = none then none
    else some (true, listMade tree)
  outcome through := if through then some true else none
  halted {point succeeded} through store input := by
    cases point with
    | false => cases through
    | true => rfl

variable {tree : Tree}

theorem listMade_other {place : List Str}
    (other : place ∉ [listKmod.linked, listKmod.source "list.mod".toList,
      listKmod.cmd "list.mod".toList, listKmod.cmd "list".toList]) :
    listMade tree place = tree place := by
  simp only [List.mem_cons, List.not_mem_nil, or_false, not_or] at other
  obtain ⟨linked, generated, commandMod, command⟩ := other
  rw [listMade, Function.update_of_ne command, Function.update_of_ne commandMod,
    Function.update_of_ne generated, Function.update_of_ne linked]

theorem srcs_list : listKmod.srcs = ["list.c".toList] := by decide

theorem complete_listMade (tidy : listKmod.Tidy inKernel tree)
    (directory : tree listKmod.bdir = some .directory)
    (source : tree (listKmod.source "list".toList) ≠ none) :
    listKmod.Complete inKernel (listMade tree) := by
  have objects : ∀ object ∈ listKmod.sampleMk.sampleObjs, ".o".toList <:+ object := by decide
  have made : listKmod.Tidy inKernel (listMade tree) := by
    have linked := tidy.writeFile (c := "list.ko".toList) (by decide) (by decide) "ELF".toList
    have further := linked.writeFile (c := "list.mod.c".toList) (by decide) (by decide) []
    have saved := @Kmod.Tidy.save _ _ _ "list.mod".toList further objects savedListMod.text
      (fun listed => absurd listed (by decide)) fun _ =>
        ⟨savedListMod, Function.update_self .., fun compiled => ?_⟩
    · exact saved.save objects savedList.text (fun _ => ⟨savedList, _, _, "gcc".toList,
        ["-c", "-o", "list.o", "list.c"].map String.toList, Function.update_self .., rfl, .inr rfl,
        by decide, by decide, by decide, by decide, by decide⟩)
        (fun unlisted => absurd (by decide) unlisted)
    · cases compiled
      refine ⟨listKmod.source "list.mod".toList, .inr rfl, by decide, .inr ⟨"list.mod.c".toList,
        by decide, rfl, fun target link => ?_⟩⟩
      rw [Function.update_of_ne (by decide)] at link
      cases (Function.update_self ..).symm.trans link
  refine ⟨made, ?_, ?_, ?_⟩
  · rw [listMade_other (by decide), directory]
  · intro c member
    obtain rfl := List.mem_singleton.mp (srcs_list ▸ member)
    rw [listMade_other (by decide)]
    exact source
  · intro stem member
    have name := List.mem_singleton.mp (srcs_list ▸ member)
    obtain rfl : stem = "list".toList := List.append_cancel_right (name.trans rfl)
    rw [listMade, Function.update_self]
    simp

theorem listOnly_step {through : Bool} {input : Unit} {point : Bool} {tree' : Tree}
    (taken : listOnly.step through tree input = some (point, tree')) :
    through = false ∧ tree listKmod.bdir = some .directory ∧
      tree (listKmod.source "list".toList) ≠ none ∧ point = true ∧ tree' = listMade tree := by
  simp only [listOnly] at taken
  split at taken
  · cases taken
  · rename_i ready
    cases taken
    simp only [not_or, Bool.not_eq_true, ne_eq, not_not] at ready
    exact ⟨ready.1, ready.2.1, ready.2.2, rfl, rfl⟩

theorem listOnly_recorded : listKmod.Recorded inKernel listOnly := by
  intro start inputs progress tree tidy _ onward succeeded
  have stands : progress = false ∧ tree = start ∨ listKmod.Complete inKernel tree := by
    refine @Machine.run_invariant _ _ (listOnly.alone start)
      (fun state => state.1 = false ∧ state.2 = start ∨ listKmod.Complete inKernel state.2) ?_
      (listOnly.alone start).initial (progress, tree) inputs (.inl ⟨rfl, rfl⟩) onward
    intro state input next known taken
    obtain ⟨waiting, directory, source, -, same⟩ := @listOnly_step _ _ input _ _ taken
    right
    rw [same]
    rcases known with ⟨-, same'⟩ | complete
    · rw [same'] at directory source ⊢
      exact complete_listMade tidy directory source
    · exact complete_listMade complete.toTidy directory source
  rcases stands with ⟨rfl, -⟩ | complete
  · cases succeeded
  · exact complete

/-- It is one of the samples of the repository. -/
def listIndex : Fin repositorySamples.length := ⟨14, by decide⟩

theorem list_apart : Apart ["r".toList] listKmods := by
  refine ⟨fun _ => rfl, fun _ _ _ _ => Subsingleton.elim _ _, by decide, by decide, by decide, ?_,
    by decide⟩
  intro _ place key goal
  cases goal with
  | sample _ => exact trial_apart.keys listIndex place key (.sample listIndex)
  | all => exact trial_apart.keys listIndex place key .all
  | target => exact trial_apart.keys listIndex place key .target
  | compdb => exact trial_apart.keys listIndex place key .compdb
  | tags => exact trial_apart.keys listIndex place key .tags
  | cscope => exact trial_apart.keys listIndex place key .cscope

theorem list_confined : Confined (fun _ => listOnly) (fun _ : Target 1 => idle) ["r".toList]
    listKmods := by
  refine ⟨?_, ?_, ?_⟩
  · intro index through tree input point tree' taken place apart
    obtain ⟨-, -, -, -, rfl⟩ := listOnly_step taken
    refine listMade_other fun member => apart ?_
    simp only [List.mem_cons, List.not_mem_nil, or_false] at member
    rcases member with rfl | rfl | rfl | rfl <;> exact List.prefix_append _ _
  · intro index through tree input point tree' other agrees taken
    obtain ⟨rfl, directory, source, rfl, rfl⟩ := listOnly_step taken
    have own (place : List Str) (mine : listKmod.bdir <+: place) : tree place = other place := by
      refine agrees place (not_or.mpr ⟨?_, fun key => ?_⟩)
      · exact @own_not_foreign _ _ _ index _ list_apart (.inl mine)
      · exact not_own_of_key list_apart key (.sample index) (.inl mine)
    rw [own _ (List.prefix_refl _)] at directory
    rw [own (listKmod.source "list".toList) (List.prefix_append _ _)] at source
    refine ⟨listMade other, ?_, ?_⟩
    · exact if_neg (not_or.mpr ⟨Bool.false_ne_true, not_or.mpr ⟨not_not.mpr directory, source⟩⟩)
    · exact update_agrees (update_agrees (update_agrees (update_agrees agrees _ _) _ _) _ _) _ _
  · intro goal _ point tree input point' tree' taken
    cases taken

theorem list_layout : Layout ["r".toList] listKmods := by
  refine ⟨by decide, by decide, by decide, ?_, ?_, ?_, ?_⟩ <;> decide

/-- The repository in `/r` and a kernel tree in `/k`. -/
def listNodes : List (List Str × Node) :=
  [([], .directory), (["r".toList], .directory),
    (["r".toList, "data_structure".toList], .directory),
    (["r".toList, "data_structure".toList, "list.c".toList], .file []),
    (["k".toList], .directory), (["k".toList, "Makefile".toList], .file [])]

theorem list_checkout : Checkout inKernel ["r".toList] listKmods (treeOf listNodes) := by
  have directories : ∀ above ∈ listKmod.src.inits, treeOf listNodes above = some .directory := by
    decide
  have plain : ∀ entry ∈ listNodes, entry.2.targets = [] ∧
      ∀ name ∈ entry.1, buildName name = false := by
    decide
  have absent : ∀ rest, treeOf listNodes (listKmod.bdir ++ rest) = none := by
    intro rest
    by_contra present
    obtain ⟨node, here⟩ := Option.ne_none_iff_exists'.mp present
    have build := (plain _ (mem_of_treeOf here)).2 ".build-list".toList
      (List.mem_append_left _ (by decide))
    cases build
  refine ⟨?_, ?_, ?_, ?_⟩
  · exact fun _ above inside => directories above ((List.mem_inits _ _).mpr inside)
  · intro place target link _
    cases (plain _ (mem_of_treeOf link)).1
  · intro place name _ named here
    rw [(plain _ (mem_of_treeOf here)).2 name (List.mem_append_right _ List.mem_cons_self)] at named
    cases named
  · intro index
    exact ⟨fun _ _ present => absurd (absent _) present,
      fun _ _ present => absurd (absent _) present, fun _ _ present => absurd (absent _) present⟩

abbrev listMake := makefile (fun _ => listOnly) (fun _ : Target 1 => idle) fullHost listKmods

def listEvents : List (MakeEvent (Target 1) (InputOf Unit Unit)) :=
  [.start .target, .start (.sample onlyIndex)] ++
    List.replicate 7 (.step (.sample onlyIndex) .go) ++
    [.step (.sample onlyIndex) (.kbuild ())] ++
    List.replicate 6 (.step (.sample onlyIndex) .go) ++
    [.step (.sample onlyIndex) (.wrote "pair".toList),
      .step (.sample onlyIndex) (.wrote "pair".toList),
      .step (.sample onlyIndex) (.signed "pair".toList), .start .compdb]

def listWrites : List (List Str × Node) :=
  [(listKmod.bdir, .directory),
    (listKmod.source "list".toList, .symlink (listKmod.src ++ ["list.c".toList])),
    (listKmod.bdir ++ ["Kbuild".toList], .file listKmod.objM),
    (listKmod.bdir ++ ["Kbuild".toList], .file (listKmod.objM ++ listKmod.objsLine)),
    (listKmod.linked, .file "ELF".toList),
    (listKmod.source "list.mod".toList, .file []),
    (listKmod.cmd "list.mod".toList, .file savedListMod.text),
    (listKmod.cmd "list".toList, .file savedList.text),
    (listKmod.ko, .file []), (listKmod.ko, .file "ELF".toList),
    (listKmod.signKey, .file "pair".toList), (listKmod.signCert, .file "pair".toList),
    (listKmod.ko, .file "ELFpair".toList)]

def writeAll (tree : Tree) : List (List Str × Node) → Tree
  | [] => tree
  | (place, node) :: rest => writeAll (Function.update tree place (some node)) rest

theorem writeAll_treeOf (writes nodes : List (List Str × Node)) :
    writeAll (treeOf nodes) writes = treeOf (writes.reverse ++ nodes) := by
  induction writes generalizing nodes with
  | nil => rfl
  | cons entry rest ih =>
    rw [writeAll, update_treeOf, ih, List.reverse_cons, List.append_assoc]
    rfl

def listBuilt : List (List Str × Node) := listWrites.reverse ++ listNodes

theorem list_run : ∃ state, (listMake.parallel (treeOf listNodes)).Reachable state ∧
    state.store = treeOf listBuilt ∧ (state.point .compdb).isSome = true := by
  have ran : ((listMake.parallel (treeOf listNodes)).run
      (listMake.parallel (treeOf listNodes)).initial listEvents).map
        (fun state => (state.store, (state.point .compdb).isSome)) =
      some (writeAll (treeOf listNodes) listWrites, true) := rfl
  obtain ⟨state, onward, same⟩ := Option.map_eq_some_iff.mp ran
  obtain ⟨store, begun⟩ := Prod.mk.inj same
  exact ⟨state, ⟨_, onward⟩, store.trans (writeAll_treeOf _ _), begun⟩

theorem list_resolved : Resolved listBuilt := by
  refine ⟨?_, ?_, ?_⟩ <;> decide +kernel

def listDisk : FileTree := diskOf listBuilt list_resolved

theorem list_outside : Outside listDisk ["r".toList] inKernel := by
  have inside : ∀ entry ∈ listBuilt, entry.2.targets ≠ [] → entry.1.head? = some "r".toList := by
    decide +kernel
  intro place kernel below
  obtain ⟨rest, rfl⟩ := kernel
  have real : listDisk.links.Real (["k".toList] ++ rest) := by
    refine (shows_diskOf list_resolved).real fun above front target link => ?_
    have first := inside _ (mem_of_treeOf link) (by simp [Node.targets])
    obtain ⟨tail, whole⟩ := front
    have same : above ++ tail = "k".toList :: rest := whole
    cases above with
    | nil => cases first
    | cons name names =>
      obtain rfl : name = "k".toList := (List.cons.inj same).1
      cases first
  have passed : ["r".toList] <+: ["k".toList] ++ rest := FileTree.locate_real real ▸ below
  have names := (List.cons_prefix_cons.mp passed).1
  cases names

end Trial

section Runs

variable {Progress KbuildInput Point Input : Type} {host : Host}
  {kbuild : Fin count → Recipe (List (List Char)) (Option Node) Progress KbuildInput}
  {others : Target count → Recipe (List (List Char)) (Option Node) Point Input}
  {kernel : List Str → Prop} {curdir place : List Str} {kmods : Fin count → Kmod}
  {start : Tree} {node : Node}
  {state : Making (Target count) (List (List Char)) (Option Node) (PointOf Progress Point)}

/-- A recipe makes files only. -/
def WritesFiles (recipe : Recipe (List (List Char)) (Option Node) Point Input) : Prop :=
  ∀ {point store input point' store'}, recipe.step point store input = some (point', store') →
    ∀ place node, store' place = some node →
      store place = some node ∨ ∃ text, node = .file text

/-- Outside of what the samples own there is what was there before, and files. -/
theorem unowned_node (confined : Confined kbuild others curdir kmods)
    (files : ∀ goal, WritesFiles (others goal))
    (reached : ((makefile kbuild others host kmods).parallel start).Reachable state)
    (free : ∀ index, ¬ (kmods index).Owns place) (here : state.store place = some node) :
    start place = some node ∨ ∃ text, node = .file text := by
  refine Machine.Reachable.invariant (fun state : Making (Target count) (List (List Char))
    (Option Node) (PointOf Progress Point) => ∀ node, state.store place = some node →
      start place = some node ∨ ∃ text, node = .file text) ?_ ?_ reached node here
  · exact fun node same => .inl same
  · intro state event next known taken node here
    cases event with
    | start begun =>
      obtain ⟨-, -, rfl⟩ := Makefile.step_start taken
      exact known node here
    | step moved input =>
      obtain ⟨point, point', store, -, went, rfl⟩ := Makefile.step_step taken
      have wrote : state.store place = some node ∨ ∃ text, node = .file text := by
        cases moved with
        | sample index => exact step_node (confined.below index) went (free index) here
        | all | target | compdb | tags | cscope => exact files _ went place node here
      rcases wrote with before | file
      · exact known node before
      · exact .inr file

/-- A directory that no target makes stays. -/
theorem directory_stays (confined : Confined kbuild others curdir kmods)
    (reached : ((makefile kbuild others host kmods).parallel start).Reachable state)
    (free : ∀ goal, ¬ Own curdir kmods goal place) (here : start place = some .directory) :
    state.store place = some .directory := by
  refine Machine.Reachable.invariant (fun state : Making (Target count) (List (List Char))
    (Option Node) (PointOf Progress Point) => state.store place = some .directory) here ?_ reached
  intro state event next known taken
  cases event with
  | start begun =>
    obtain ⟨-, -, rfl⟩ := Makefile.step_start taken
    exact known
  | step moved input =>
    obtain ⟨point, point', store, -, went, rfl⟩ := Makefile.step_step taken
    by_cases sample : ∃ index, moved = .sample index
    · obtain ⟨index, rfl⟩ := sample
      exact step_keeps_directory (confined.below index) went (free (.sample index)) known
    · exact (other_writes confined (not_exists.mp sample) went place (free moved)).trans known

theorem mem_outputNames {goal : Target count} {name : Str} (named : name ∈ outputs goal) :
    name ∈ outputNames := by
  cases goal with
  | compdb => exact List.mem_append_left _ (List.mem_append_left _ named)
  | tags => exact List.mem_append_left _ (List.mem_append_right _ named)
  | cscope => exact List.mem_append_right _ named
  | all | target | sample index => cases named

theorem not_own_above (layout : Layout curdir kmods) (apart : Apart curdir kmods)
    {index : Fin count} {above : List Str} (inside : above <+: (kmods index).src)
    (goal : Target count) : ¬ Own curdir kmods goal above := by
  rw [src_below apart] at inside
  have passed : ∀ rest name, curdir ++ (rest ++ [name]) <+: curdir ++
      (kmods index).sample.dropLast → DirName name := by
    intro rest name front
    rw [List.prefix_append_right_inj] at front
    exact layout.dirs index name (front.subset (List.mem_append_right _ List.mem_cons_self))
  intro owned
  cases goal with
  | sample other =>
    rcases owned with below | rfl
    · rw [← src_below apart] at inside
      exact apart.outside other index (below.trans inside)
    · rw [Kmod.ko, src_below apart, List.append_assoc] at inside
      have module := List.isSuffixOf_iff_suffix.mpr
        (List.suffix_append (kmods other).mod ".ko".toList)
      rw [(passed _ _ inside).noModule] at module
      cases module
  | all | target | compdb | tags | cscope =>
    obtain ⟨name, named, rfl⟩ := owned
    have output := List.contains_iff_mem.mpr (mem_outputNames named)
    rw [(passed [] name inside).noOutput] at output
    cases output

/-- Where `compdb` is started the repository is as it is with every sample built. -/
theorem built_of_reached (layout : Layout curdir kmods) (apart : Apart curdir kmods)
    (confined : Confined kbuild others curdir kmods)
    (files : ∀ goal, WritesFiles (others goal))
    (recorded : ∀ index, (kmods index).Recorded kernel (kbuild index))
    (checkout : Checkout kernel curdir kmods start)
    (reached : ((makefile kbuild others host kmods).parallel start).Reachable state)
    (begun : state.point .compdb ≠ none ∨ state.point .all ≠ none) :
    Built kernel curdir kmods state.store := by
  obtain ⟨events, onward⟩ := reached
  have sample (index : Fin count) : (kmods index).Complete kernel state.store ∧
      ∃ text, state.store (kmods index).ko = some (.file text) := by
    obtain ⟨moves, tree, -, -, among, agrees⟩ := sample_among apart confined index onward
    rw [samples_built ⟨events, onward⟩ begun index, Option.getD_some] at among
    have objects := layout.objects index
    have shares := shares_of_apart apart index
    have sightless : (kbuild index).Blind (shared kmods · = true) :=
      kbuild_blind apart confined index fun place reaches => .inr (shared_iff.mp reaches)
    constructor
    · refine Kmod.Complete.congr (built_complete (recorded index) objects
        (not_above_module apart index index) shares sightless (checkout.tidy index) among)
          fun rest => ?_
      exact (agrees _ (owns_bdir rest)).symm
    · obtain ⟨text, signature, -, module, -⟩ := copied_reached apart confined ⟨events, onward⟩
        (samples_built ⟨events, onward⟩ begun index)
      exact ⟨text ++ signature, module⟩
  have origin : ∀ place node, state.store place = some node →
      (∃ index, (kmods index).bdir <+: place) ∨ (∃ text, node = .file text) ∨
        start place = some node := by
    intro place node here
    by_cases owned : ∃ index, (kmods index).Owns place
    · obtain ⟨index, below | rfl⟩ := owned
      · exact .inl ⟨index, below⟩
      · obtain ⟨text, module⟩ := (sample index).2
        exact .inr (.inl ⟨text, Option.some.inj (here.symm.trans module)⟩)
    · rcases unowned_node confined files ⟨events, onward⟩ (not_exists.mp owned) here with
        before | file
      · exact .inr (.inr before)
      · exact .inr (.inl file)
  refine ⟨⟨?_, ?_, ?_, fun index => (sample index).1.toTidy⟩, fun index => (sample index).1⟩
  · intro index above inside
    exact directory_stays confined ⟨events, onward⟩ (not_own_above layout apart inside)
      (checkout.directories index above inside)
  · intro place target link near
    rcases origin place _ link with inside | ⟨text, file⟩ | before
    · exact inside
    · cases file
    · exact checkout.links before near
  · intro place name near named here
    rcases origin _ _ here with inside | ⟨text, file⟩ | before
    · exact inside
    · cases file
    · exact checkout.builds near named before

/-- However `make -j` interleaves the builds, the first or later ones, from the start of `compdb`
on the script finds in the repository each source of each sample once, under its own path, and
nothing else, and the samples can be built again. -/
theorem database_of_make (layout : Layout curdir kmods) (apart : Apart curdir kmods)
    (confined : Confined kbuild others curdir kmods)
    (files : ∀ goal, WritesFiles (others goal))
    (recorded : ∀ index, (kmods index).Recorded kernel (kbuild index))
    (checkout : Checkout kernel curdir kmods start)
    (reached : ((makefile kbuild others host kmods).parallel start).Reachable state)
    (begun : state.point .compdb ≠ none ∨ state.point .all ≠ none) {disk : FileTree}
    (shows : Shows disk state.store) (outside : Outside disk curdir kernel)
    {iterate : List Query → List Query} (order : ∀ queries, (iterate queries).Perm queries)
    (probe : Str → Option Str → Bool) :
    Checkout kernel curdir kmods state.store ∧ ∃ written entries,
      main iterate (some probe) disk
        (rootOf (pathText (curdir ++ ["scripts".toList, "compdb.py".toList]))) = .ok written ∧
      readDatabase written.document = some entries ∧ (entries.map placeOf).Nodup ∧
      ∀ place, place ∈ entries.map placeOf ↔ ∃ index, ∃ c ∈ (kmods index).srcs,
        place = (pathText (kmods index).bdir, pathText ((kmods index).src ++ [c])) := by
  have built := built_of_reached layout apart confined files recorded checkout reached begun
  rw [rootOf_script layout.names]
  exact ⟨built.toCheckout, built_database layout apart built shows outside order probe⟩

theorem database_of_make_list : ∃ written entries,
    main List.reverse (some x86Only) listDisk (rootOf "/r/scripts/compdb.py".toList) = .ok written ∧
      readDatabase written.document = some entries ∧
      ("/r/data_structure/.build-list".toList, "/r/data_structure/list.c".toList) ∈
        entries.map placeOf := by
  obtain ⟨state, reached, store, begun⟩ := list_run
  have shows : Shows listDisk state.store := by
    rw [store]
    exact shows_diskOf list_resolved
  obtain ⟨-, written, entries, ran, database, -, listed⟩ := database_of_make list_layout list_apart
    list_confined (fun goal => fun taken => by cases taken) (fun _ => listOnly_recorded)
    list_checkout reached (.inl (Option.isSome_iff_ne_none.mp begun)) shows list_outside
    List.reverse_perm x86Only
  exact ⟨written, entries, ran, database,
    (listed _).mpr ⟨onlyIndex, "list.c".toList, List.mem_singleton.mpr rfl, by decide⟩⟩

end Runs

end KernelSamples.Scripts

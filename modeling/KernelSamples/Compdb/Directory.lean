import KernelSamples.Compdb.Rewrite
import KernelSamples.Lib.Places

/-! The directory of an entry and the directory that kbuild ran the compiler in. -/

namespace KernelSamples.Compdb

open Lib

structure Release where
  major : Nat
  minor : Nat

def Release.before (release : Release) (major minor : Nat) : Prop :=
  release.major < major ∨ release.major = major ∧ release.minor < minor

instance (release : Release) (major minor : Nat) : Decidable (release.before major minor) :=
  inferInstanceAs (Decidable (_ ∨ _ ∧ _))

/-- What `kmod.mk` builds a sample from and against. -/
structure Build where
  release : Release
  kdir : Str
  src : Str
  mod : Str

/-- It is `M=` on the command line of the kernel's `make`. -/
def Build.bdir (build : Build) : Str := build.src ++ "/.build-".toList ++ build.mod

/-- The directory in which kbuild runs the compiler for an `M=` build. -/
def Build.workdir (build : Build) : Str :=
  if build.release.before 6 13 then build.kdir else build.bdir

/-- Each relative path of the arguments is the same file from either directory. -/
def SamePaths (links : Symlinks Str) (first second : Str) (paths : List Str) : Prop :=
  ∀ path ∈ paths, isAbs path = false →
    links.realpath (joinPath first path) = links.realpath (joinPath second path)

/-- From neither directory does a relative path meet a symbolic link. -/
def StraightPaths (links : Symlinks Str) (first second : Str) (paths : List Str) : Prop :=
  ∀ path ∈ paths, isAbs path = false →
    links.Straight (links.realpath first) (pathComponents path) ∧
      links.Straight (links.realpath second) (pathComponents path)

/-- Each relative path climbs out of both directories to the same ancestor before it meets a
symbolic link. -/
def LeavingPaths (links : Symlinks Str) (first second : Str) (paths : List Str) : Prop :=
  ∀ path ∈ paths, isAbs path = false → ∃ front rest, pathComponents path = front ++ rest ∧
    links.Straight (links.realpath first) front ∧ links.Straight (links.realpath second) front ∧
    (links.realpath first).rdrop (climb front) = (links.realpath second).rdrop (climb front)

variable {links : Symlinks Str} {first second other : Str} {paths : List Str}
  {probe : Str → Option Str → Bool} {records : List Record} {record : Record} {index : Nat}

theorem samePaths_of_same (same : links.realpath first = links.realpath second) :
    SamePaths links first second paths := by
  intro path _ relative
  rw [links.realpath_joinPath first relative, links.realpath_joinPath second relative, same]

/-- Where the two walks have met they stay together, whatever links the rest of the path
meets. -/
theorem samePaths_of_leaving (leaving : LeavingPaths links first second paths) :
    SamePaths links first second paths := by
  intro path member relative
  obtain ⟨front, rest, parts, fromFirst, fromSecond, met⟩ := leaving path member relative
  rw [links.realpath_joinPath first relative, links.realpath_joinPath second relative, parts,
    Symlinks.walk_append, Symlinks.walk_append,
    (Symlinks.walk_eq_walk_iff fromFirst fromSecond).mpr met]

theorem leaving_of_samePaths (straight : StraightPaths links first second paths)
    (same : SamePaths links first second paths) : LeavingPaths links first second paths := by
  intro path member relative
  obtain ⟨fromFirst, fromSecond⟩ := straight path member relative
  have met := same path member relative
  rw [links.realpath_joinPath first relative, links.realpath_joinPath second relative] at met
  exact ⟨pathComponents path, [], (List.append_nil _).symm, fromFirst, fromSecond,
    (Symlinks.walk_eq_walk_iff fromFirst fromSecond).mp met⟩

theorem samePaths_congr (same : links.realpath first = links.realpath second) :
    SamePaths links first other paths ↔ SamePaths links second other paths := by
  apply forall₃_congr
  intro path _ relative
  rw [links.realpath_joinPath first relative, links.realpath_joinPath second relative, same]

theorem directory_of_entry (recorded : records[index]? = some record) :
    ((entries probe records)[index]?).map Entry.directory = some record.directory := by
  rw [entries, List.getElem?_map, recorded]
  rfl

/-- An entry means the compile that was recorded from 6.13 on, and before where every relative
path climbs out of the kernel's directory and of the sample's before it meets a symbolic link.
Where no relative path meets one these are all the entries that do. `pathsIn` is how the compiler
finds the paths among its arguments. -/
theorem entry_means_compile_iff (links : Symlinks Str) (pathsIn : List Str → List Str)
    (probe : Str → Option Str → Bool) (records : List Record) (index : Nat) (record : Record)
    (recorded : records[index]? = some record) (build : Build)
    (built : links.realpath record.directory = links.realpath build.bdir) :
    ∃ directory, ((entries probe records)[index]?).map Entry.directory = some directory ∧
      (¬ build.release.before 6 13 ∨
          LeavingPaths links build.bdir build.kdir (pathsIn record.args) →
        SamePaths links directory build.workdir (pathsIn record.args)) ∧
      (StraightPaths links build.bdir build.kdir (pathsIn record.args) →
        (SamePaths links directory build.workdir (pathsIn record.args) ↔
          ¬ build.release.before 6 13 ∨
            LeavingPaths links build.bdir build.kdir (pathsIn record.args))) := by
  have sameIf (met : ¬ build.release.before 6 13 ∨
      LeavingPaths links build.bdir build.kdir (pathsIn record.args)) :
      SamePaths links build.bdir build.workdir (pathsIn record.args) := by
    by_cases old : build.release.before 6 13
    · rw [Build.workdir, if_pos old]
      exact samePaths_of_leaving (met.resolve_left (fun recent => recent old))
    · rw [Build.workdir, if_neg old]
      exact samePaths_of_same rfl
  refine ⟨record.directory, directory_of_entry recorded, ?_, ?_⟩
  · rw [samePaths_congr built]
    exact sameIf
  · intro straight
    rw [samePaths_congr built]
    refine ⟨?_, sameIf⟩
    intro same
    by_cases old : build.release.before 6 13
    · rw [Build.workdir, if_pos old] at same
      exact .inr (leaving_of_samePaths straight same)
    · exact .inl old

/-- The paths that follow `-I`, joined to it or not, and those that `WITH_VALUE` options take. -/
def pathsAmong : List Str → List Str
  | [] => []
  | [word] => if "-I".toList.isPrefixOf word then [word.drop 2] else []
  | word :: value :: rest =>
    if word = "-I".toList ∨ word ∈ withValue ∧ word ≠ "-x".toList then value :: pathsAmong rest
    else if "-I".toList.isPrefixOf word then word.drop 2 :: pathsAmong (value :: rest)
    else pathsAmong (value :: rest)

def buildAgainst (release : Release) : Build where
  release := release
  kdir := "/usr/src/linux".toList
  src := "/s".toList
  mod := "list".toList

def includeRecord (paths : List String) : Record :=
  { listRecord "gcc" with options := (paths.map fun path => "-I".toList ++ path.toList) }

theorem entry_means_compile_iff_climbing :
    ∃ directory, ((entries x86Only [includeRecord ["../../../usr/include"]])[0]?).map
        Entry.directory = some directory ∧
      SamePaths .empty directory (buildAgainst ⟨6, 12⟩).workdir
        (pathsAmong (includeRecord ["../../../usr/include"]).args) := by
  obtain ⟨directory, found, means, _⟩ := entry_means_compile_iff .empty pathsAmong x86Only
    [includeRecord ["../../../usr/include"]] 0 _ rfl (buildAgainst ⟨6, 12⟩) (by decide)
  refine ⟨directory, found, means (.inr ?_)⟩
  intro path inside _
  have listed : pathsAmong (includeRecord ["../../../usr/include"]).args =
      ["../../../usr/include".toList] := by decide
  rw [listed, List.mem_singleton] at inside
  subst inside
  exact ⟨[.up, .up, .up], [.down "usr".toList, .down "include".toList], by decide,
    Symlinks.straight_empty _ _, Symlinks.straight_empty _ _, by decide⟩

theorem generated_include_moved :
    Symlinks.empty.realpath (includeRecord ["./arch/x86/include/generated"]).directory =
        Symlinks.empty.realpath (buildAgainst ⟨6, 12⟩).bdir ∧
      ((entries x86Only [includeRecord ["./arch/x86/include/generated"]])[0]?).map
        Entry.directory = some "/s/.build-list".toList ∧
      ¬ SamePaths .empty "/s/.build-list".toList (buildAgainst ⟨6, 12⟩).workdir
        (pathsAmong (includeRecord ["./arch/x86/include/generated"]).args) := by
  refine ⟨by decide, by decide, ?_⟩
  intro same
  have moved := same "./arch/x86/include/generated".toList (by decide) (by decide)
  exact absurd moved (by decide)

end KernelSamples.Compdb

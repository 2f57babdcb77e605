import KernelSamples.Compdb.Rewrite
import KernelSamples.Lib.Glob
import Mathlib.Data.List.Lex
import Mathlib.Data.List.Sort

/-! The first half of `main`: it finds the `.cmd` files of the build directories and keeps those
that compile a source of the repository. -/

namespace KernelSamples.Compdb

open Lib

/-- `ROOT`. `os.path.abspath` keeps two slashes at the front, if they are two. -/
structure Root where
  doubled : Bool
  names : List Str

def rootOf (file : Str) : Root where
  doubled := ['/', '/'].isPrefixOf file && !(['/', '/', '/'].isPrefixOf file)
  names := (Symlinks.empty.realpath file).dropLast.dropLast

/-- The text of a path below `ROOT`. -/
def Root.path (root : Root) (names : List Str) : Str :=
  if root.doubled then '/' :: pathText names else pathText names

/-- `real.startswith(ROOT + os.sep)` -/
def Root.inside (root : Root) (real : List Str) : Bool :=
  (root.path root.names ++ ['/']).isPrefixOf (pathText real)

/-- The components of `os.path.relpath`. -/
def relpath : List Str → List Str → List Str
  | name :: path, other :: start =>
    if name = other then relpath path start
    else (other :: start).map (fun _ => ['.', '.']) ++ name :: path
  | path, start => start.map (fun _ => ['.', '.']) ++ path

def buildName (name : Str) : Bool := ".build-".toList.isPrefixOf name

/-- The exceptions that end `main`: `nullByte` is raised by `os.path.realpath`, `untried` by
`subprocess.run`, which finds no clang or is given an argument with a NUL. -/
inductive Failure where
  | unreadable (path : List Str)
  | nullByte
  | shlex (error : ShlexError)
  | noDriver
  | untried
  deriving DecidableEq

/-- The record of the words that `split` returns, if it returns any. -/
def recordFrom (directory src real : Str) :
    Except ShlexError (List Str) → Except Failure (Option Record)
  | .error error => .error (.shlex error)
  | .ok [] => .error .noDriver
  | .ok (driver :: options) => .ok (some ⟨directory, src, real, driver, options⟩)

/-- The body of the loop over the `.cmd` files. -/
def selectFile (tree : FileTree) (root : Root) (bdir cmdfile : List Str) :
    Except Failure (Option Record) :=
  match tree.read cmdfile with
  | none => .error (.unreadable cmdfile)
  | some text =>
    match parse text with
    | (some cmd, some src) =>
      if cmd = [] ∨ src = [] then .ok none
      else if src.contains '\x00' then .error .nullByte
      else
        let real := tree.links.realpath (joinPath (root.path bdir) src)
        if !root.inside real then .ok none
        else if (relpath real root.names).any buildName then .ok none
        else recordFrom (root.path bdir) src (pathText real) (split cmd)
    | _ => .ok none

def sorted (paths : List (List Str)) : List (List Str) :=
  paths.insertionSort fun first second => pathText first ≤ pathText second

def buildDirs (tree : FileTree) (root : Root) : List (List Str) :=
  (sorted (tree.glob true (root.names ++ [['*', '*'], ".build-*".toList]))).filter tree.isdir

def cmdFiles (tree : FileTree) (bdir : List Str) : List (List Str) :=
  sorted (tree.glob false (bdir ++ [".*.o.cmd".toList]))

/-- A build directory and a file in it. -/
abbrev Located := List Str × List Str

/-- The records, each with the file it is from. -/
def selectFrom (tree : FileTree) (root : Root) :
    List Located → Except Failure (List (Located × Record))
  | [] => .ok []
  | file :: rest => do
    let record ← selectFile tree root file.1 file.2
    let others ← selectFrom tree root rest
    return record.toList.map (file, ·) ++ others

def files (tree : FileTree) (root : Root) : List Located :=
  (buildDirs tree root).flatMap fun bdir => (cmdFiles tree bdir).map (bdir, ·)

def select (tree : FileTree) (root : Root) : Except Failure (List (Located × Record)) :=
  selectFrom tree root (files tree root)

/-- A directory `.build-*` below the directories of the repository that are not hidden. -/
def BuildDir (tree : FileTree) (root : Root) (bdir : List Str) : Prop :=
  ∃ dirs name, bdir = root.names ++ dirs ++ [name] ∧ tree.Below root.names dirs ∧
    name ∈ tree.scandir (root.names ++ dirs) ∧ buildName name = true ∧ tree.isdir bdir = true

/-- A file `.*.o.cmd` in such a directory. -/
def CommandFile (tree : FileTree) (root : Root) (file : Located) : Prop :=
  BuildDir tree root file.1 ∧
    ∃ middle, file.2 = file.1 ++ [".".toList ++ middle ++ ".o.cmd".toList] ∧
      ".".toList ++ middle ++ ".o.cmd".toList ∈ tree.scandir file.1

/-- A directory that `ROOT/**/.build-*` matches in this way, with `ROOT` as a part of the
pattern. -/
structure FoundDir (tree : FileTree) (root : Root) (bdir : List Str)
    (parts : List (List Str)) : Prop where
  matched : tree.Matched true (root.names ++ [['*', '*']]) ".build-*".toList bdir parts
  isdir : tree.isdir bdir = true

/-- A file that `.*.o.cmd` matches below such a directory, with its path as a part of the
pattern. -/
structure FoundFile (tree : FileTree) (root : Root) (file : Located) : Prop where
  directory : ∃ parts, FoundDir tree root file.1 parts
  matched : ∃ parts, tree.Matched false file.1 ".*.o.cmd".toList file.2 parts

/-- No pattern of the globs has a `*`, `?` or `[` that is part of a name. -/
structure PlainNames (tree : FileTree) (root : Root) : Prop where
  above : root.names.any hasMagic = false
  builds : ∀ bdir, BuildDir tree root bdir → bdir.any hasMagic = false

variable {tree : FileTree} {root : Root} {bdir path rest : List Str} {name : Str}
  {file : Located}

theorem recordFrom_ok {directory src real : Str} {words : Except ShlexError (List Str)}
    {result : Option Record} (fine : recordFrom directory src real words = .ok result) :
    ∃ driver options, words = .ok (driver :: options) ∧
      result = some ⟨directory, src, real, driver, options⟩ := by
  cases words with
  | error error => cases fine
  | ok words =>
    cases words with
    | nil => cases fine
    | cons driver options => exact ⟨driver, options, rfl, (Except.ok.inj fine).symm⟩

theorem mem_sorted {paths : List (List Str)} : path ∈ sorted paths ↔ path ∈ paths :=
  List.mem_insertionSort _

theorem nodup_sorted {paths : List (List Str)} (distinct : paths.Nodup) : (sorted paths).Nodup :=
  (List.perm_insertionSort _ paths).nodup_iff.mpr distinct

theorem fnmatch_build : fnmatch ".build-*".toList name = true ↔ buildName name = true := by
  have pattern : glyphs ".build-*".toList = ".build-".toList.map .one ++ [.star] := by decide
  rw [fnmatch, pattern, matchGlyphs_stem, buildName, List.isPrefixOf_iff_prefix]

theorem fnmatch_cmd : fnmatch ".*.o.cmd".toList name = true ↔
    ∃ middle, name = ".".toList ++ middle ++ ".o.cmd".toList := by
  have pattern : glyphs ".*.o.cmd".toList =
      ".".toList.map .one ++ .star :: ".o.cmd".toList.map .one := by decide
  rw [fnmatch, pattern, matchGlyphs_ends]

theorem mem_buildDirs_iff :
    bdir ∈ buildDirs tree root ↔ ∃ parts, FoundDir tree root bdir parts := by
  have split : root.names ++ [['*', '*'], ".build-*".toList] =
      root.names ++ [['*', '*']] ++ [".build-*".toList] := by simp
  rw [buildDirs, List.mem_filter, mem_sorted, split,
    FileTree.mem_glob (by decide) (by decide)]
  constructor
  · intro found
    obtain ⟨⟨parts, matched⟩, isdir⟩ := found
    exact ⟨parts, matched, isdir⟩
  · intro found
    obtain ⟨parts, matched, isdir⟩ := found
    exact ⟨⟨parts, matched⟩, isdir⟩

theorem count_buildDirs (isdir : tree.isdir bdir = true) :
    (buildDirs tree root).count bdir = 1 ↔ ∃! parts, FoundDir tree root bdir parts := by
  have split : root.names ++ [['*', '*'], ".build-*".toList] =
      root.names ++ [['*', '*']] ++ [".build-*".toList] := by simp
  have only : ∀ parts, FoundDir tree root bdir parts ↔
      tree.Matched true (root.names ++ [['*', '*']]) ".build-*".toList bdir parts :=
    fun parts => ⟨FoundDir.matched, fun matched => ⟨matched, isdir⟩⟩
  rw [buildDirs, List.count_filter isdir, sorted, (List.perm_insertionSort _ _).count_eq, split,
    FileTree.count_glob (by decide) (by decide)]
  simp only [only]

theorem mem_cmdFiles_iff : path ∈ cmdFiles tree bdir ↔
    ∃ parts, tree.Matched false bdir ".*.o.cmd".toList path parts := by
  rw [cmdFiles, mem_sorted, FileTree.mem_glob (by decide) (by decide)]

theorem nodup_cmdFiles : (cmdFiles tree bdir).Nodup :=
  nodup_sorted (FileTree.nodup_glob (by decide) (by decide))

/-- The globs find what their patterns match. -/
theorem mem_files_iff : file ∈ files tree root ↔ FoundFile tree root file := by
  rw [files, List.mem_flatMap]
  constructor
  · intro found
    obtain ⟨directory, isBuild, member⟩ := found
    obtain ⟨path, isCmd, rfl⟩ := List.mem_map.mp member
    exact ⟨mem_buildDirs_iff.mp isBuild, mem_cmdFiles_iff.mp isCmd⟩
  · intro found
    exact ⟨file.1, mem_buildDirs_iff.mpr found.directory,
      List.mem_map.mpr ⟨file.2, mem_cmdFiles_iff.mpr found.matched, rfl⟩⟩

/-- A file is found as often as the pattern of its directory matches in different ways. -/
theorem count_files (found : FoundFile tree root file) :
    (files tree root).count file = 1 ↔ ∃! parts, FoundDir tree root file.1 parts := by
  obtain ⟨parts, directory⟩ := found.directory
  have member : file.2 ∈ cmdFiles tree file.1 := mem_cmdFiles_iff.mpr found.matched
  rw [files, count_flatMap_pairs, List.count_eq_one_of_mem nodup_cmdFiles member, Nat.mul_one,
    count_buildDirs directory.isdir]

/-- Where `ROOT` is plain it stands for itself, and `**` for what is below it. -/
theorem foundDir_iff (above : root.names.any hasMagic = false) {parts : List (List Str)} :
    FoundDir tree root bdir parts ↔ ∃ dirs name, parts = dirs :: root.names.reverse.map ([·]) ∧
      bdir = root.names ++ dirs ++ [name] ∧ tree.Below root.names dirs ∧
      name ∈ tree.scandir (root.names ++ dirs) ∧ buildName name = true ∧
      tree.isdir bdir = true := by
  have plain : root.names.reverse.any hasMagic = false := by rw [List.any_reverse, above]
  have stands : tree.Stands true (root.names ++ [['*', '*']]).reverse parts ↔
      ∃ dirs, parts = dirs :: root.names.reverse.map ([·]) ∧ tree.Below root.names dirs := by
    have stars : (['*', '*'] :: root.names.reverse).any hasMagic = true := by
      rw [List.any_cons]
      rfl
    have fits : ∀ dirs, tree.Fits true root.names ['*', '*'] dirs ↔
        tree.Below root.names dirs := by
      intro dirs
      rw [FileTree.Fits, if_pos (by decide), if_pos ⟨rfl, rfl⟩]
    rw [List.reverse_append, List.reverse_singleton, List.singleton_append, FileTree.Stands,
      if_pos stars]
    constructor
    · intro found
      obtain ⟨dirs, rest, rfl, rooted, below⟩ := found
      obtain rfl := (FileTree.stands_plain plain).mp rooted
      rw [FileTree.place_singles, List.reverse_reverse] at below
      exact ⟨dirs, rfl, (fits dirs).mp below⟩
    · intro found
      obtain ⟨dirs, rfl, below⟩ := found
      refine ⟨dirs, _, rfl, (FileTree.stands_plain plain).mpr rfl, ?_⟩
      rw [FileTree.place_singles, List.reverse_reverse]
      exact (fits dirs).mpr below
  have placed : ∀ dirs, FileTree.place (dirs :: root.names.reverse.map ([·])) =
      root.names ++ dirs := by
    intro dirs
    rw [FileTree.place_cons, FileTree.place_singles, List.reverse_reverse]
  constructor
  · intro found
    obtain ⟨⟨standing, name, rfl, entry, -, named⟩, isdir⟩ := found
    obtain ⟨dirs, rfl, below⟩ := stands.mp standing
    rw [placed] at entry isdir ⊢
    exact ⟨dirs, name, rfl, rfl, below, entry, fnmatch_build.mp named, isdir⟩
  · intro found
    obtain ⟨dirs, name, rfl, rfl, below, entry, named, isdir⟩ := found
    refine ⟨⟨stands.mpr ⟨dirs, rfl, below⟩, name, by rw [placed], ?_, .inl (by decide),
      fnmatch_build.mpr named⟩, isdir⟩
    rwa [placed]

theorem mem_buildDirs (above : root.names.any hasMagic = false) :
    bdir ∈ buildDirs tree root ↔ BuildDir tree root bdir := by
  rw [mem_buildDirs_iff]
  simp only [foundDir_iff above]
  constructor
  · intro found
    obtain ⟨_, dirs, name, rfl, build⟩ := found
    exact ⟨dirs, name, build⟩
  · intro found
    obtain ⟨dirs, name, build⟩ := found
    exact ⟨_, dirs, name, rfl, build⟩

theorem nodup_buildDirs (above : root.names.any hasMagic = false) :
    (buildDirs tree root).Nodup := by
  rw [List.nodup_iff_count_eq_one]
  intro bdir member
  obtain ⟨parts, found⟩ := mem_buildDirs_iff.mp member
  refine (count_buildDirs found.isdir).mpr ⟨parts, found, ?_⟩
  intro other found'
  obtain ⟨dirs, name, rfl, same, -⟩ := (foundDir_iff above).mp found
  obtain ⟨dirs', name', rfl, same', -⟩ := (foundDir_iff above).mp found'
  rw [same] at same'
  have same := List.append_cancel_left (List.append_singleton_inj.mp same').1
  rw [same]

theorem mem_cmdFiles (plain : bdir.any hasMagic = false) :
    path ∈ cmdFiles tree bdir ↔ ∃ middle, path = bdir ++ [".".toList ++ middle ++ ".o.cmd".toList] ∧
      ".".toList ++ middle ++ ".o.cmd".toList ∈ tree.scandir bdir := by
  have reversed : bdir.reverse.any hasMagic = false := by rw [List.any_reverse, plain]
  have placed : FileTree.place (bdir.reverse.map ([·])) = bdir := by
    rw [FileTree.place_singles, List.reverse_reverse]
  rw [mem_cmdFiles_iff]
  constructor
  · intro found
    obtain ⟨parts, standing, name, rfl, entry, -, named⟩ := found
    obtain rfl := (FileTree.stands_plain reversed).mp standing
    obtain ⟨middle, rfl⟩ := fnmatch_cmd.mp named
    rw [placed] at entry ⊢
    exact ⟨middle, rfl, entry⟩
  · intro found
    obtain ⟨middle, rfl, entry⟩ := found
    refine ⟨_, (FileTree.stands_plain reversed).mpr rfl, _, by rw [placed], ?_,
      .inl (by decide), fnmatch_cmd.mpr ⟨middle, rfl⟩⟩
    rwa [placed]

/-- The globs find the files they are meant to find. -/
theorem mem_files (plain : PlainNames tree root) :
    file ∈ files tree root ↔ CommandFile tree root file := by
  rw [files, List.mem_flatMap]
  constructor
  · intro found
    obtain ⟨directory, isBuild, member⟩ := found
    obtain ⟨path, isCmd, rfl⟩ := List.mem_map.mp member
    have build := (mem_buildDirs plain.above).mp isBuild
    exact ⟨build, (mem_cmdFiles (plain.builds _ build)).mp isCmd⟩
  · intro found
    obtain ⟨build, isCmd⟩ := found
    have member := (mem_cmdFiles (plain.builds _ build)).mpr isCmd
    exact ⟨file.1, (mem_buildDirs plain.above).mpr build, List.mem_map.mpr ⟨file.2, member, rfl⟩⟩

/-- No file is found twice. -/
theorem nodup_files (above : root.names.any hasMagic = false) : (files tree root).Nodup :=
  nodup_flatMap_pairs (nodup_buildDirs above) fun _ => nodup_cmdFiles

/-- A file in a directory that the globs find: every name on its path with a `*`, `?` or `[`
matches itself. -/
theorem FoundFile.self_matching (found : FoundFile tree root file)
    (inside : ∃ name, file.2 = file.1 ++ [name]) :
    ∀ name ∈ file.1, hasMagic name = true → fnmatch name name = true := by
  obtain ⟨parts, standing, name, placed, -⟩ := found.matched
  obtain ⟨names, rfl⟩ := standing.singles
  obtain ⟨last, same⟩ := inside
  rw [same, FileTree.place_singles] at placed
  obtain rfl : names = file.1.reverse := by
    rw [(List.append_singleton_inj.mp placed).1, List.reverse_reverse]
  intro name member
  exact standing.self name (List.mem_reverse.mpr member)

theorem magic_of_below (plain : ∀ place, ∀ name ∈ tree.names place, hasMagic name = false)
    (below : tree.Below path rest) : ∀ name ∈ rest, hasMagic name = false := by
  induction rest generalizing path with
  | nil => exact fun name none => absurd none List.not_mem_nil
  | cons first rest ih =>
    obtain ⟨entry, _, _, below⟩ := below
    intro name member
    rcases List.mem_cons.mp member with rfl | later
    · rw [FileTree.scandir, if_pos (FileTree.isdir_of_scandir entry)] at entry
      exact plain _ _ entry
    · exact ih below name later

/-- Nothing special happens in a tree without special names. -/
theorem plainNames_of_names (above : root.names.any hasMagic = false)
    (plain : ∀ place, ∀ name ∈ tree.names place, hasMagic name = false) :
    PlainNames tree root := by
  refine ⟨above, fun bdir build => ?_⟩
  obtain ⟨dirs, name, rfl, below, entry, _⟩ := build
  rw [FileTree.scandir, if_pos (FileTree.isdir_of_scandir entry)] at entry
  have inner := magic_of_below plain below
  simp only [List.any_append, above, List.any_cons, plain _ _ entry, List.any_nil, Bool.or_false,
    Bool.false_or, List.any_eq_false]
  exact fun name member => by rw [inner name member]; decide

/-- What a file adds to the records. -/
def taken (tree : FileTree) (root : Root) (file : Located) : Option (Located × Record) :=
  match selectFile tree root file.1 file.2 with
  | .ok (some record) => some (file, record)
  | _ => none

theorem selectFrom_ok_iff {list : List Located} {found : List (Located × Record)} :
    selectFrom tree root list = .ok found ↔
      (∀ file ∈ list, ∃ record, selectFile tree root file.1 file.2 = .ok record) ∧
        found = list.filterMap (taken tree root) := by
  induction list generalizing found with
  | nil => simp [selectFrom, eq_comm]
  | cons file rest ih =>
    rw [selectFrom, List.forall_mem_cons, List.filterMap_cons, taken]
    cases here : selectFile tree root file.1 file.2 with
    | error failure => simp [bind, Except.bind]
    | ok record =>
      cases others : selectFrom tree root rest with
      | error failure =>
        have failed : ¬ ∀ file ∈ rest, ∃ record,
            selectFile tree root file.1 file.2 = .ok record := by
          intro fine
          rw [ih.mpr ⟨fine, rfl⟩] at others
          cases others
        constructor
        · exact fun impossible => by cases impossible
        · exact fun both => absurd both.1.2 failed
      | ok tail =>
        obtain ⟨fine, rfl⟩ := ih.mp others
        have first :
            ∃ found, Except.ok record = (Except.ok found : Except Failure (Option Record)) :=
          ⟨record, rfl⟩
        cases record with
        | none =>
          constructor
          · intro same
            obtain rfl := Except.ok.inj same
            exact ⟨⟨first, fine⟩, rfl⟩
          · intro both
            rw [both.2]
            rfl
        | some record =>
          constructor
          · intro same
            obtain rfl := Except.ok.inj same
            exact ⟨⟨first, fine⟩, rfl⟩
          · intro both
            rw [both.2]
            rfl

/-- The files of the records are the files that add one, in their order. -/
theorem map_fst_filterMap (list : List Located) :
    (list.filterMap (taken tree root)).map Prod.fst =
      list.filter fun file => (taken tree root file).isSome := by
  induction list with
  | nil => rfl
  | cons file rest ih =>
    cases added : taken tree root file with
    | none => simp [added, ih]
    | some entry =>
      have key : entry.1 = file := by
        rw [taken] at added
        split at added
        · obtain rfl := Option.some.inj added
          rfl
        · cases added
      simp [added, ih, key]

/-- A file adds as many records as it is found times. -/
theorem count_taken {list : List Located} (added : (taken tree root file).isSome = true) :
    (list.filterMap (taken tree root)).countP (fun entry => entry.1 = file) = list.count file := by
  have asKeys : (list.filterMap (taken tree root)).countP (fun entry => entry.1 = file) =
      ((list.filterMap (taken tree root)).map Prod.fst).count file := by
    rw [List.count, List.countP_map]
    apply List.countP_congr
    intro entry _
    simp
  rw [asKeys, map_fst_filterMap]
  exact List.count_filter added

end KernelSamples.Compdb

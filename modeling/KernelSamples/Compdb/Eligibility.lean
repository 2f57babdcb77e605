import KernelSamples.Compdb.Selection

/-! Which files `main` makes a record of, and which it is meant to. -/

namespace KernelSamples.Compdb

open Lib

def Root.real (tree : FileTree) (root : Root) (file : Located) (src : Str) : List Str :=
  tree.links.realpath (joinPath (root.path file.1) src)

/-- The file records a command and a source, which is a path (no NUL is part of one) and whose
resolved path lies in the repository, below no directory whose name begins with `.build-`. -/
def Compiles (tree : FileTree) (root : Root) (repository : List Str) (file : Located) : Prop :=
  ∃ text cmd src rest, tree.read file.2 = some text ∧ parse text = (some cmd, some src) ∧
    cmd ≠ [] ∧ src ≠ [] ∧ '\x00' ∉ src ∧ root.real tree file src = repository ++ rest ∧
    rest ≠ [] ∧ ∀ name ∈ rest, buildName name = false

def Eligible (tree : FileTree) (root : Root) (file : Located) : Prop :=
  CommandFile tree root file ∧ Compiles tree root (tree.locate root.names) file

/-- The record is what the file says. -/
structure Record.Of (tree : FileTree) (root : Root) (file : Located) (record : Record) :
    Prop where
  directory : record.directory = root.path file.1
  said : ∃ text cmd, tree.read file.2 = some text ∧ parse text = (some cmd, some record.src) ∧
    split cmd = .ok record.args
  real : record.real = pathText (root.real tree file record.src)

/-- Two paths of one file. -/
def SameFile (tree : FileTree) (first second : Located) : Prop :=
  tree.locate first.2 = tree.locate second.2

instance (tree : FileTree) (first second : Located) : Decidable (SameFile tree first second) :=
  inferInstanceAs (Decidable (_ = _))

/-- There is one record for each eligible file and none for any other. -/
def Selects (tree : FileTree) (root : Root) : Prop :=
  ∃ found, select tree root = .ok found ∧
    (∀ entry ∈ found, Eligible tree root entry.1 ∧ entry.2.Of tree root entry.1) ∧
    ∀ file, Eligible tree root file → found.countP (fun entry => SameFile tree entry.1 file) = 1

/-- `ROOT` is its own real path, and not the root of the file system. -/
structure Root.Settled (tree : FileTree) (root : Root) : Prop where
  single : root.doubled = false
  nonempty : root.names ≠ []
  real : tree.links.Real root.names

/-- What the file saves as its command is one. -/
def Splits (tree : FileTree) (path : List Str) : Prop :=
  ∀ text cmd src, tree.read path = some text → parse text = (some cmd, src) →
    ∃ driver options, split cmd = .ok (driver :: options)

/-- The file can be read, and a source that it records beside a command has no NUL. -/
def Legible (tree : FileTree) (path : List Str) : Prop :=
  ∃ text, tree.read path = some text ∧
    ∀ cmd src, parse text = (some cmd, some src) → cmd ≠ [] → '\x00' ∉ src

/-- What the two patterns match can be read, what of it is taken belongs to the repository, and
each eligible file is matched by one of its paths, in one way. -/
structure GlobsFit (tree : FileTree) (root : Root) : Prop where
  legible : ∀ found, FoundFile tree root found → Legible tree found.2
  own : ∀ found, FoundFile tree root found → root.Settled tree →
    Compiles tree root root.names found → CommandFile tree root found ∧ Splits tree found.2
  settled : ∀ wanted, Eligible tree root wanted → root.Settled tree
  once : ∀ wanted, Eligible tree root wanted →
    ∃ only, Eligible tree root only ∧ SameFile tree only wanted ∧ FoundFile tree root only ∧
      (∃! parts, FoundDir tree root only.1 parts) ∧
      ∀ other, FoundFile tree root other → Eligible tree root other →
        SameFile tree other wanted → other = only

/-- The same, where the patterns match the files they are meant to match. -/
structure Collectable (tree : FileTree) (root : Root) : Prop where
  legible : ∀ found, CommandFile tree root found → Legible tree found.2
  settled : ∀ wanted, Eligible tree root wanted → root.Settled tree
  splits : ∀ wanted, Eligible tree root wanted → Splits tree wanted.2
  single : ∀ wanted other, Eligible tree root wanted → Eligible tree root other →
    SameFile tree other wanted → other = wanted

variable {tree : FileTree} {root : Root} {bdir path rest : List Str} {name : Str}
  {file : Located}

theorem names_rootOf (file : Str) : ∀ name ∈ (rootOf file).names, EntryName name := by
  intro name member
  have inside := List.dropLast_subset _ (List.dropLast_subset _ member)
  refine Symlinks.walk_names (fun name none => by cases none) ?_ ?_ name inside
  · exact fun name down => entryName_of_down down
  · exact fun place reached found => by cases found

theorem names_realpath (tree : FileTree) (text : Str) :
    ∀ name ∈ tree.links.realpath text, EntryName name :=
  Symlinks.walk_names (fun name none => by cases none) (fun name down => entryName_of_down down)
    tree.targetNames

theorem inside_iff {real : List Str} (rootNames : ∀ name ∈ root.names, EntryName name)
    (realNames : ∀ name ∈ real, EntryName name) :
    root.inside real = true ↔
      root.doubled = false ∧ root.names ≠ [] ∧ ∃ rest ≠ [], real = root.names ++ rest := by
  rw [Root.inside, List.isPrefixOf_iff_prefix, Root.path]
  cases doubled : root.doubled with
  | false =>
    simp only [Bool.false_eq_true, if_false, true_and]
    exact pathText_prefix_iff rootNames realNames
  | true =>
    have slash : pathText root.names = '/' :: (pathText root.names).tail := by
      cases root.names <;> rfl
    constructor
    · intro inside
      rw [if_pos rfl, slash] at inside
      exact absurd inside (not_doubled realNames _)
    · exact fun never => by cases never.1

theorem relpath_append (names rest : List Str) : relpath (names ++ rest) names = rest := by
  induction names with
  | nil => cases rest <;> rfl
  | cons name names ih => rw [List.cons_append, relpath, if_pos rfl, ih]

theorem locate_settled (settled : root.Settled tree) : tree.locate root.names = root.names :=
  Symlinks.Real.walk_down settled.real

/-- Where a source is found to lie inside `ROOT`, `ROOT` is its own real path. -/
theorem settled_of_inside (rootNames : ∀ name ∈ root.names, EntryName name) {text : Str}
    (inside : root.inside (tree.links.realpath text) = true) : root.Settled tree := by
  obtain ⟨single, nonempty, rest, _, below⟩ :=
    (inside_iff rootNames (names_realpath tree text)).mp inside
  refine ⟨single, nonempty, ?_⟩
  apply (tree.links.real_realpath text).ancestor
  rw [below]
  exact List.prefix_append _ _

/-- A file whose record is not wanted is skipped. -/
theorem selectFile_skips (rootNames : ∀ name ∈ root.names, EntryName name)
    (legible : Legible tree file.2)
    (unwanted : ¬ (root.Settled tree ∧ Compiles tree root root.names file)) :
    selectFile tree root file.1 file.2 = .ok none := by
  obtain ⟨text, read, paths⟩ := legible
  rw [selectFile, read]
  dsimp only
  split
  · rename_i cmd src parsed
    split
    · rfl
    · rename_i both
      obtain ⟨cmdNonempty, srcNonempty⟩ := not_or.mp both
      have noNul := paths cmd src parsed cmdNonempty
      rw [if_neg (by rwa [List.contains_iff_mem])]
      split
      · rfl
      · rename_i inside
        have inside : root.inside (root.real tree file src) = true := by
          simpa [Root.real] using inside
        obtain ⟨_, _, rest, nonempty, below⟩ :=
          (inside_iff rootNames (names_realpath tree _)).mp inside
        split
        · rfl
        · rename_i outside
          rw [show tree.links.realpath _ = _ from below, relpath_append] at outside
          have outside : ∀ name ∈ rest, buildName name = false := by simpa using outside
          exact absurd ⟨settled_of_inside rootNames inside, text, cmd, src, rest, read, parsed,
            cmdNonempty, srcNonempty, noNul, below, nonempty, outside⟩ unwanted
  · rfl

/-- A file whose record is wanted is split. -/
theorem selectFile_takes (rootNames : ∀ name ∈ root.names, EntryName name)
    (settled : root.Settled tree) (compiles : Compiles tree root root.names file) :
    ∃ text cmd src, tree.read file.2 = some text ∧ parse text = (some cmd, some src) ∧
      selectFile tree root file.1 file.2 =
        recordFrom (root.path file.1) src (pathText (root.real tree file src)) (split cmd) := by
  obtain ⟨text, cmd, src, rest, read, parsed, cmdNonempty, srcNonempty, noNul, below, nonempty,
    outside⟩ := compiles
  refine ⟨text, cmd, src, read, parsed, ?_⟩
  have inside : root.inside (root.real tree file src) = true :=
    (inside_iff rootNames (names_realpath tree _)).mpr
      ⟨settled.single, settled.nonempty, rest, nonempty, below⟩
  have unbuilt : (relpath (root.real tree file src) root.names).any buildName = false := by
    rw [below, relpath_append, List.any_eq_false]
    exact fun name member => by rw [outside name member]; decide
  have path : ¬ src.contains '\x00' = true := by rwa [List.contains_iff_mem]
  rw [selectFile, read]
  dsimp only
  rw [parsed]
  rw [Root.real] at inside unbuilt
  simp only [Root.real, cmdNonempty, srcNonempty, path, inside, unbuilt, or_self, if_false,
    Bool.not_true, Bool.false_eq_true]

/-- A file at which no error ends the run. -/
theorem legible_of_fine {record : Option Record}
    (fine : selectFile tree root file.1 file.2 = .ok record) : Legible tree file.2 := by
  cases read : tree.read file.2 with
  | none => simp [selectFile, read] at fine
  | some text =>
    refine ⟨text, read, ?_⟩
    intro cmd src parsed cmdNonempty nul
    have srcNonempty : src ≠ [] := List.ne_nil_of_mem nul
    have found : src.contains '\x00' = true := List.contains_iff_mem.mpr nul
    rw [selectFile, read] at fine
    dsimp only at fine
    rw [parsed] at fine
    simp only [cmdNonempty, srcNonempty, or_self, if_false, found, if_true] at fine
    cases fine

/-- A file that adds a record is one that compiles a source below `ROOT`. -/
theorem taken_some {entry : Located × Record}
    (rootNames : ∀ name ∈ root.names, EntryName name)
    (added : taken tree root file = some entry) :
    root.Settled tree ∧ Compiles tree root root.names file ∧ entry.1 = file ∧
      entry.2.Of tree root file ∧ Splits tree file.2 := by
  rw [taken] at added
  split at added
  · rename_i record selected
    obtain rfl := Option.some.inj added
    have wanted : root.Settled tree ∧ Compiles tree root root.names file := by
      by_contra unwanted
      rw [selectFile_skips rootNames (legible_of_fine selected) unwanted] at selected
      cases selected
    obtain ⟨settled, compiles⟩ := wanted
    obtain ⟨text, cmd, src, read, parsed, same⟩ := selectFile_takes rootNames settled compiles
    rw [same] at selected
    obtain ⟨driver, options, splits, found⟩ := recordFrom_ok selected
    obtain rfl := Option.some.inj found
    refine ⟨settled, compiles, rfl, ⟨rfl, ⟨text, cmd, read, parsed, splits⟩, rfl⟩, ?_⟩
    intro text' cmd' src' read' parsed'
    rw [read] at read'
    obtain rfl := Option.some.inj read'
    rw [parsed] at parsed'
    obtain rfl := Option.some.inj (Prod.mk.inj parsed').1
    exact ⟨driver, options, splits⟩
  · cases added

/-- A file that compiles a source below `ROOT` adds a record, unless an error ends the run. -/
theorem taken_of_compiles (rootNames : ∀ name ∈ root.names, EntryName name)
    (settled : root.Settled tree) (compiles : Compiles tree root root.names file)
    (fine : ∃ record, selectFile tree root file.1 file.2 = .ok record) :
    ∃ record, taken tree root file = some (file, record) := by
  obtain ⟨result, selected⟩ := fine
  obtain ⟨text, cmd, src, read, parsed, same⟩ := selectFile_takes rootNames settled compiles
  rw [taken, selected]
  rw [same] at selected
  obtain ⟨driver, options, _, rfl⟩ := recordFrom_ok selected
  exact ⟨_, rfl⟩

/-- No error ends the run at a file just when it can be read and, if it is wanted, split. -/
theorem selectFile_fine (rootNames : ∀ name ∈ root.names, EntryName name) :
    (∃ record, selectFile tree root file.1 file.2 = .ok record) ↔
      Legible tree file.2 ∧
        (root.Settled tree → Compiles tree root root.names file → Splits tree file.2) := by
  constructor
  · intro fine
    constructor
    · obtain ⟨record, selected⟩ := fine
      exact legible_of_fine selected
    · intro settled compiles
      obtain ⟨record, added⟩ := taken_of_compiles rootNames settled compiles fine
      exact (taken_some rootNames added).2.2.2.2
  · intro both
    obtain ⟨legible, splits⟩ := both
    by_cases wanted : root.Settled tree ∧ Compiles tree root root.names file
    · obtain ⟨text, cmd, src, read, parsed, same⟩ :=
        selectFile_takes rootNames wanted.1 wanted.2
      obtain ⟨driver, options, divided⟩ := splits wanted.1 wanted.2 text cmd src read parsed
      rw [same, divided]
      exact ⟨_, rfl⟩
    · exact ⟨none, selectFile_skips rootNames legible wanted⟩

/-- A file that is found and compiles a source below `ROOT` has a record. -/
theorem added_of_compiles (rootNames : ∀ name ∈ root.names, EntryName name)
    (fine : ∀ file ∈ files tree root, ∃ record, selectFile tree root file.1 file.2 = .ok record)
    (settled : root.Settled tree) (member : file ∈ files tree root)
    (compiles : Compiles tree root root.names file) :
    ∃ record, (file, record) ∈ (files tree root).filterMap (taken tree root) := by
  obtain ⟨record, added⟩ := taken_of_compiles rootNames settled compiles (fine file member)
  exact ⟨record, List.mem_filterMap.mpr ⟨file, member, added⟩⟩

theorem globsFit_of_selects (rootNames : ∀ name ∈ root.names, EntryName name)
    (selects : Selects tree root) : GlobsFit tree root := by
  obtain ⟨found, selected, honest, complete⟩ := selects
  obtain ⟨fine, rfl⟩ := selectFrom_ok_iff.mp selected
  have present : ∀ file, Eligible tree root file →
      ∃ entry only, taken tree root only = some entry ∧ only ∈ files tree root ∧
        SameFile tree entry.1 file := by
    intro file eligible
    have some : 0 < ((files tree root).filterMap (taken tree root)).countP
        (fun entry => SameFile tree entry.1 file) := by
      rw [complete file eligible]
      exact Nat.one_pos
    obtain ⟨entry, inside, same⟩ := List.countP_pos_iff.mp some
    obtain ⟨only, member, added⟩ := List.mem_filterMap.mp inside
    exact ⟨entry, only, added, member, of_decide_eq_true same⟩
  refine ⟨?_, ?_, ?_, ?_⟩
  · intro file isFound
    exact ((selectFile_fine rootNames).mp (fine file (mem_files_iff.mpr isFound))).1
  · intro file isFound settled compiles
    have member := mem_files_iff.mpr isFound
    obtain ⟨record, inside⟩ := added_of_compiles rootNames fine settled member compiles
    exact ⟨(honest _ inside).1.1,
      ((selectFile_fine rootNames).mp (fine file member)).2 settled compiles⟩
  · intro file eligible
    obtain ⟨entry, only, added, _, _⟩ := present file eligible
    exact (taken_some rootNames added).1
  · intro file eligible
    obtain ⟨entry, only, added, member, same⟩ := present file eligible
    have inside := List.mem_filterMap.mpr ⟨only, member, added⟩
    obtain ⟨settled, _, key, _⟩ := taken_some rootNames added
    subst key
    have isFound := mem_files_iff.mp member
    refine ⟨entry.1, (honest entry inside).1, same, isFound, ?_, ?_⟩
    · rw [← count_files isFound, ← count_taken (Option.isSome_iff_exists.mpr ⟨entry, added⟩)]
      apply Nat.le_antisymm
      · rw [← complete file eligible]
        apply List.countP_mono_left
        intro other _ isOnly
        rw [of_decide_eq_true isOnly]
        exact decide_eq_true same
      · apply List.countP_pos_iff.mpr
        exact ⟨entry, inside, decide_eq_true rfl⟩
    · intro other isFound' eligible' same'
      have compiles' := eligible'.2
      have member' := mem_files_iff.mpr isFound'
      rw [locate_settled settled] at compiles'
      obtain ⟨record, inside'⟩ := added_of_compiles rootNames fine settled member' compiles'
      have equal := eq_of_countP_one (complete file eligible) inside' inside
        (decide_eq_true same') (decide_eq_true same)
      rw [← equal]

theorem selects_of_globsFit (rootNames : ∀ name ∈ root.names, EntryName name)
    (fit : GlobsFit tree root) : Selects tree root := by
  have fine : ∀ file ∈ files tree root,
      ∃ record, selectFile tree root file.1 file.2 = .ok record := by
    intro file member
    have isFound := mem_files_iff.mp member
    exact (selectFile_fine rootNames).mpr ⟨fit.legible file isFound,
      fun settled compiles => (fit.own file isFound settled compiles).2⟩
  refine ⟨_, selectFrom_ok_iff.mpr ⟨fine, rfl⟩, ?_, ?_⟩
  · intro entry inside
    obtain ⟨file, member, added⟩ := List.mem_filterMap.mp inside
    obtain ⟨settled, compiles, rfl, isOf, _⟩ := taken_some rootNames added
    refine ⟨⟨(fit.own _ (mem_files_iff.mp member) settled compiles).1, ?_⟩, isOf⟩
    rwa [locate_settled settled]
  · intro file eligible
    have settled := fit.settled file eligible
    obtain ⟨only, eligible', same, isFound, once, unique⟩ := fit.once file eligible
    have compiles := eligible'.2
    rw [locate_settled settled] at compiles
    have member := mem_files_iff.mpr isFound
    rw [← count_files isFound] at once
    obtain ⟨record, added⟩ := taken_of_compiles rootNames settled compiles (fine only member)
    rw [← once, ← count_taken (Option.isSome_iff_exists.mpr ⟨_, added⟩)]
    apply List.countP_congr
    intro entry inside
    obtain ⟨other, member', added'⟩ := List.mem_filterMap.mp inside
    obtain ⟨_, compiles', rfl, _⟩ := taken_some rootNames added'
    rw [decide_eq_true_iff, decide_eq_true_iff]
    constructor
    · intro same'
      have isFound' := mem_files_iff.mp member'
      apply unique entry.1 isFound' ⟨(fit.own _ isFound' settled compiles').1, ?_⟩ same'
      rwa [locate_settled settled]
    · intro isOnly
      rw [isOnly]
      exact same

/-- What it takes, in terms of what the patterns of the globs match. -/
theorem selects_iff_globsFit (rootNames : ∀ name ∈ root.names, EntryName name) :
    Selects tree root ↔ GlobsFit tree root :=
  ⟨globsFit_of_selects rootNames, selects_of_globsFit rootNames⟩

theorem foundFile_iff (plain : PlainNames tree root) :
    FoundFile tree root file ↔ CommandFile tree root file := by
  rw [← mem_files_iff, mem_files plain]

theorem globsFit_iff_collectable (plain : PlainNames tree root) :
    GlobsFit tree root ↔ Collectable tree root := by
  constructor
  · intro fit
    refine ⟨?_, fit.settled, ?_, ?_⟩
    · exact fun file command => fit.legible file ((foundFile_iff plain).mpr command)
    · intro wanted eligible
      have settled := fit.settled wanted eligible
      have compiles := eligible.2
      rw [locate_settled settled] at compiles
      exact (fit.own wanted ((foundFile_iff plain).mpr eligible.1) settled compiles).2
    · intro wanted other eligible eligible' same
      obtain ⟨only, -, -, -, -, unique⟩ := fit.once wanted eligible
      rw [unique wanted ((foundFile_iff plain).mpr eligible.1) eligible rfl]
      exact unique other ((foundFile_iff plain).mpr eligible'.1) eligible' same
  · intro collectable
    refine ⟨?_, ?_, collectable.settled, ?_⟩
    · exact fun file found => collectable.legible file ((foundFile_iff plain).mp found)
    · intro file found settled compiles
      have command := (foundFile_iff plain).mp found
      rw [← locate_settled settled] at compiles
      exact ⟨command, collectable.splits file ⟨command, compiles⟩⟩
    · intro wanted eligible
      have found := (foundFile_iff plain).mpr eligible.1
      refine ⟨wanted, eligible, rfl, found, ?_, ?_⟩
      · exact (count_files found).mp
          (List.count_eq_one_of_mem (nodup_files plain.above) (mem_files_iff.mpr found))
      · exact fun other _ eligible' same => collectable.single wanted other eligible eligible' same

/-- Where a file is selected that has one path below the repository, each name on the path of its
directory with a `*`, `?` or `[` matches itself. -/
theorem GlobsFit.self_matching (fit : GlobsFit tree root) {wanted : Located}
    (eligible : Eligible tree root wanted) :
    ∃ only, Eligible tree root only ∧ SameFile tree only wanted ∧
      ∀ name ∈ only.1, hasMagic name = true → fnmatch name name = true := by
  obtain ⟨only, eligible', same, found, -, -⟩ := fit.once wanted eligible
  obtain ⟨-, middle, path, -⟩ := eligible'.1
  exact ⟨only, eligible', same, found.self_matching ⟨_, path⟩⟩

/-- `main` selects the eligible files exactly where what the patterns of its globs match fits:
that takes each name on the path of a build directory, `ROOT` included, that has a `*`, `?` or `[`
to match itself. Where no name has one, it is exactly where every file found can be read and, if
one is eligible, `ROOT` is its own real path and the file has one path and one command. -/
theorem selection_exact_iff (tree : FileTree) (file : Str) :
    (Selects tree (rootOf file) ↔ GlobsFit tree (rootOf file)) ∧
      (Selects tree (rootOf file) → ∀ wanted, Eligible tree (rootOf file) wanted →
        ∃ only, Eligible tree (rootOf file) only ∧ SameFile tree only wanted ∧
          ∀ name ∈ only.1, hasMagic name = true → fnmatch name name = true) ∧
      (PlainNames tree (rootOf file) →
        (Selects tree (rootOf file) ↔ Collectable tree (rootOf file))) := by
  have general := @selects_iff_globsFit tree (rootOf file) (names_rootOf file)
  refine ⟨general, ?_, fun plain => general.trans (globsFit_iff_collectable plain)⟩
  exact fun selects wanted eligible => (general.mp selects).self_matching eligible

def sampleBuild : Str := ".build-m".toList

def sampleCmd : Str := ".m.o.cmd".toList

def sampleText (repository : Str) : Str :=
  "savedcmd_m.o := gcc -c m.c\nsource_m.o := /".toList ++ repository ++ "/x/m.c\n".toList

/-- A symbolic link `/l` to the repository. -/
def sampleLinks (repository : Str) (other : repository ≠ ['l']) : Symlinks Str where
  target := fun place => if place = [['l']] then some [repository] else none
  followed := by
    intro place reached found above inside
    split at found
    · obtain rfl := Option.some.inj found
      apply if_neg
      rintro rfl
      simp [eq_comm, other] at inside
    · cases found

/-- A repository with one sample that is built. -/
def sampleTree (repository : Str) (proper : EntryName repository) (other : repository ≠ ['l']) :
    FileTree where
  links := sampleLinks repository other
  directory := fun place =>
    place ∈ [[], [repository], [repository, ['x']], [repository, ['x'], sampleBuild]]
  names := fun place =>
    if place = [] then [repository, ['l']]
    else if place = [repository] then [['x']]
    else if place = [repository, ['x']] then [sampleBuild]
    else if place = [repository, ['x'], sampleBuild] then [sampleCmd]
    else []
  contents := fun place =>
    if place = [repository, ['x'], sampleBuild, sampleCmd] then some (sampleText repository)
    else none
  longest := 64
  distinct := by
    intro place
    split_ifs <;> simp [other]
  entryNames := by
    have known : EntryName ['l'] ∧ EntryName ['x'] ∧ EntryName sampleBuild ∧
        EntryName sampleCmd := by decide
    intro place
    split_ifs <;> simp [proper, known]
  targetNames := by
    intro place reached found
    dsimp only [sampleLinks] at found
    split at found
    · obtain rfl := Option.some.inj found
      simp [proper]
    · cases found

def rTree : FileTree := sampleTree ['r'] (by decide) (by decide)

/-- Its build directory and what is in it, reached from the given entry of the root. -/
def sampleFile (top : Str) : Located :=
  ([top, ['x'], sampleBuild], [top, ['x'], sampleBuild, sampleCmd])

theorem selection_exact_iff_sample : Selects rTree (rootOf "/r/scripts/compdb.py".toList) := by
  have plain : PlainNames rTree (rootOf "/r/scripts/compdb.py".toList) := by
    apply plainNames_of_names (by decide)
    intro place name member
    simp only [rTree, sampleTree] at member
    split_ifs at member <;> simp at member
    · rcases member with rfl | rfl <;> decide
    · rw [member]; decide
    · rw [member]; decide
    · rw [member]; decide
  have found : files rTree (rootOf "/r/scripts/compdb.py".toList) = [sampleFile ['r']] := by
    decide +kernel
  have only : ∀ file, CommandFile rTree (rootOf "/r/scripts/compdb.py".toList) file →
      file = sampleFile ['r'] := by
    intro file command
    have member := (mem_files plain).mpr command
    rw [found] at member
    exact List.mem_singleton.mp member
  apply ((selection_exact_iff rTree "/r/scripts/compdb.py".toList).2.2 plain).mpr
  constructor
  · intro file command
    rw [only file command]
    refine ⟨sampleText ['r'], by decide +kernel, ?_⟩
    intro cmd src parsed _
    have saved : parse (sampleText ['r']) =
        (some "gcc -c m.c".toList, some "/r/x/m.c".toList) := by decide +kernel
    rw [saved] at parsed
    obtain rfl := Option.some.inj (Prod.mk.inj parsed).2
    decide
  · intro file _
    refine ⟨by decide, by decide, ?_⟩
    intro above inside
    have names : (rootOf "/r/scripts/compdb.py".toList).names = [['r']] := by decide
    rw [names] at inside
    apply if_neg
    rintro rfl
    simp at inside
  · intro file eligible text cmd src read parsed
    obtain rfl := only file eligible.1
    have saved : (rTree.read (sampleFile ['r']).2).map parse =
        some (some "gcc -c m.c".toList, some "/r/x/m.c".toList) := by decide +kernel
    rw [read, Option.map_some, parsed] at saved
    obtain rfl := Option.some.inj (Prod.mk.inj (Option.some.inj saved)).1
    exact ⟨"gcc".toList, ["-c".toList, "m.c".toList], by decide +kernel⟩
  · intro file other eligible eligible' _
    rw [only file eligible.1, only other eligible'.1]

theorem not_selects_of_none (eligible : Eligible tree root file)
    (nothing : (select tree root).toOption.map List.length = some 0) : ¬ Selects tree root := by
  intro selects
  obtain ⟨found, selected, _, complete⟩ := selects
  have once := complete file eligible
  rw [selected] at nothing
  have empty : found = [] := List.eq_nil_of_length_eq_zero (Option.some.inj nothing)
  rw [empty] at once
  cases once

/-- A repository whose directory has a bracket in its name. -/
def bracketTree : FileTree :=
  sampleTree "r[1]".toList (by decide) (by decide)

/-- A symbolic link in the path of the script, and a bracket in it. -/
theorem nothing_selected :
    (Eligible rTree (rootOf "/l/scripts/compdb.py".toList) (sampleFile ['l']) ∧
      ¬ Selects rTree (rootOf "/l/scripts/compdb.py".toList)) ∧
    Eligible bracketTree (rootOf "/r[1]/scripts/compdb.py".toList) (sampleFile "r[1]".toList) ∧
      ¬ Selects bracketTree (rootOf "/r[1]/scripts/compdb.py".toList) := by
  have linked : Eligible rTree (rootOf "/l/scripts/compdb.py".toList) (sampleFile ['l']) := by
    have build : BuildDir rTree (rootOf "/l/scripts/compdb.py".toList) (sampleFile ['l']).1 :=
      ⟨[['x']], sampleBuild, by decide⟩
    exact ⟨⟨build, ['m'], by decide⟩, sampleText ['r'], "gcc -c m.c".toList, "/r/x/m.c".toList,
      [['x'], "m.c".toList], by decide +kernel⟩
  have bracketed : Eligible bracketTree (rootOf "/r[1]/scripts/compdb.py".toList)
      (sampleFile "r[1]".toList) := by
    have build : BuildDir bracketTree (rootOf "/r[1]/scripts/compdb.py".toList)
        (sampleFile "r[1]".toList).1 := ⟨[['x']], sampleBuild, by decide⟩
    exact ⟨⟨build, ['m'], by decide⟩, sampleText "r[1]".toList, "gcc -c m.c".toList,
      "/r[1]/x/m.c".toList, [['x'], "m.c".toList], by decide +kernel⟩
  exact ⟨⟨linked, not_selects_of_none linked (by decide +kernel)⟩, bracketed,
    not_selects_of_none bracketed (by decide +kernel)⟩

end KernelSamples.Compdb

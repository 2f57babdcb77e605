import KernelSamples.Lib.Fnmatch
import KernelSamples.Lib.Places
import Mathlib.Data.List.Nodup
import Mathlib.Data.List.Perm.Basic

/-! A file tree as the calls of a program see it, and `glob.glob` over it. Paths are absolute
and given by their names. -/

namespace Lib

/-- `names` are the entries of a directory, the symbolic links among them; `longest` is the
length of the longest path that a call takes. -/
structure FileTree where
  links : Symlinks (List Char)
  directory : List (List Char) → Bool
  names : List (List Char) → List (List Char)
  contents : List (List Char) → Option (List Char)
  longest : Nat
  distinct : ∀ place, (names place).Nodup
  entryNames : ∀ place, ∀ name ∈ names place, EntryName name
  targetNames : ∀ place reached, links.target place = some reached →
    ∀ name ∈ reached, EntryName name

namespace FileTree

variable (tree : FileTree)

def locate (path : List (List Char)) : List (List Char) := tree.links.walk [] (path.map .down)

/-- `os.path.isdir` -/
def isdir (path : List (List Char)) : Bool :=
  path.length ≤ tree.longest && tree.directory (tree.locate path)

/-- `os.scandir`, without entries where it fails. -/
def scandir (path : List (List Char)) : List (List Char) :=
  if tree.isdir path then tree.names (tree.locate path) else []

/-- What a program reads from the file that it opens, if it can. -/
def read (path : List (List Char)) : Option (List Char) :=
  if path.length ≤ tree.longest then tree.contents (tree.locate path) else none

/-- `os.path.lexists` of an entry. -/
def lexists (path : List (List Char)) (name : List Char) : Bool :=
  path.length + 1 ≤ tree.longest && (tree.scandir path).contains name

def hidden (name : List Char) : Bool := ['.'].isPrefixOf name

/-- `_iterdir` -/
def iterdir (dironly : Bool) (path : List (List Char)) : List (List Char) :=
  (tree.scandir path).filter fun name => !dironly || tree.isdir (path ++ [name])

/-- `_rlistdir`. It ends because a path cannot be longer than `longest`. -/
def rlistdir (dironly : Bool) : Nat → List (List Char) → List (List (List Char))
  | 0, _ => []
  | fuel + 1, path =>
    ((tree.iterdir dironly path).filter (!hidden ·)).flatMap fun name =>
      [name] :: (rlistdir dironly fuel (path ++ [name])).map (name :: ·)

/-- `_glob2`: what is below a directory, which comes first. -/
def glob2 (dironly : Bool) (path : List (List Char)) : List (List (List Char)) :=
  [] :: tree.rlistdir dironly (tree.longest + 1) path

/-- `_glob1` -/
def glob1 (dironly : Bool) (path : List (List Char)) (pattern : List Char) : List (List Char) :=
  (tree.iterdir dironly path).filter fun name =>
    (hidden pattern || !hidden name) && fnmatch pattern name

/-- `_glob0` -/
def glob0 (path : List (List Char)) (basename : List Char) : List (List Char) :=
  if tree.lexists path basename then [basename] else []

/-- `_iglob` of a pattern whose last component comes first. -/
def iglob (recursive dironly : Bool) : List (List Char) → List (List (List Char))
  | [] => [[]]
  | basename :: above =>
    let dirs := if above.any hasMagic then iglob recursive true above else [above.reverse]
    dirs.flatMap fun path =>
      if hasMagic basename then
        if recursive && basename = ['*', '*'] then (tree.glob2 dironly path).map (path ++ ·)
        else (tree.glob1 dironly path basename).map fun name => path ++ [name]
      else (tree.glob0 path basename).map fun name => path ++ [name]

/-- `glob.glob` -/
def glob (recursive : Bool) (pattern : List (List Char)) : List (List (List Char)) :=
  tree.iglob recursive false pattern.reverse

/-- A chain of directories below one another, none of them hidden. -/
def Below (path : List (List Char)) : List (List Char) → Prop
  | [] => True
  | name :: rest =>
    name ∈ tree.scandir path ∧ hidden name = false ∧ tree.isdir (path ++ [name]) = true ∧
      Below (path ++ [name]) rest

instance decidableBelow : (path rest : List (List Char)) → Decidable (tree.Below path rest)
  | _, [] => inferInstanceAs (Decidable True)
  | path, name :: rest =>
    have := decidableBelow (path ++ [name]) rest
    inferInstanceAs (Decidable (_ ∧ _ ∧ _ ∧ _))

variable {tree} {path rest : List (List Char)} {name basename : List Char}

theorem locate_real (real : tree.links.Real path) : tree.locate path = path :=
  @Symlinks.Real.walk_down _ _ [] path real

theorem shown_of_below (below : tree.Below path rest) : ∀ name ∈ rest, hidden name = false := by
  induction rest generalizing path with
  | nil => exact fun name none => absurd none List.not_mem_nil
  | cons first rest ih =>
    obtain ⟨-, shown, -, below⟩ := below
    intro name member
    rcases List.mem_cons.mp member with rfl | later
    · exact shown
    · exact ih below name later

theorem nodup_scandir : (tree.scandir path).Nodup := by
  rw [scandir]
  split
  · exact tree.distinct _
  · exact List.nodup_nil

theorem length_le_of_isdir (found : tree.isdir path = true) : path.length ≤ tree.longest := by
  rw [isdir, Bool.and_eq_true] at found
  exact of_decide_eq_true found.1

theorem isdir_of_scandir (entry : name ∈ tree.scandir path) : tree.isdir path = true := by
  rw [scandir] at entry
  split at entry
  · assumption
  · cases entry

/-- The recursive listing has the chains of directories that are not hidden. -/
theorem mem_rlistdir {fuel : Nat} (enough : tree.longest < path.length + fuel) :
    rest ∈ tree.rlistdir true fuel path ↔ rest ≠ [] ∧ tree.Below path rest := by
  induction fuel generalizing path rest with
  | zero =>
    constructor
    · exact fun member => absurd member List.not_mem_nil
    · intro chain
      obtain ⟨nonempty, below⟩ := chain
      cases rest with
      | nil => exact absurd rfl nonempty
      | cons name rest =>
        have short := length_le_of_isdir (isdir_of_scandir below.1)
        omega
  | succ fuel ih =>
    have deeper : ∀ name, tree.longest < (path ++ [name]).length + fuel := by
      intro name
      rw [List.length_append, List.length_singleton]
      omega
    simp only [rlistdir, List.mem_flatMap, List.mem_filter, iterdir, List.mem_cons, List.mem_map]
    constructor
    · intro found
      obtain ⟨name, ⟨⟨entry, found⟩, shown⟩, here⟩ := found
      have shown : hidden name = false := by simpa using shown
      have found : tree.isdir (path ++ [name]) = true := by simpa using found
      rcases here with rfl | ⟨further, member, rfl⟩
      · exact ⟨List.cons_ne_nil _ _, entry, shown, found, trivial⟩
      · have below := ((ih (deeper name)).mp member).2
        exact ⟨List.cons_ne_nil _ _, entry, shown, found, below⟩
    · intro chain
      obtain ⟨nonempty, below⟩ := chain
      cases rest with
      | nil => exact absurd rfl nonempty
      | cons name rest =>
        obtain ⟨entry, shown, found, below⟩ := below
        refine ⟨name, ⟨⟨entry, by simp [found]⟩, by simp [shown]⟩, ?_⟩
        cases rest with
        | nil => exact .inl rfl
        | cons next rest =>
          exact .inr ⟨next :: rest, (ih (deeper name)).mpr ⟨List.cons_ne_nil _ _, below⟩, rfl⟩

theorem nodup_rlistdir {fuel : Nat} (enough : tree.longest < path.length + fuel) :
    (tree.rlistdir true fuel path).Nodup := by
  induction fuel generalizing path with
  | zero => exact List.nodup_nil
  | succ fuel ih =>
    have deeper : ∀ name, tree.longest < (path ++ [name]).length + fuel := by
      intro name
      rw [List.length_append, List.length_singleton]
      omega
    rw [rlistdir, List.nodup_flatMap]
    constructor
    · intro name _
      rw [List.nodup_cons]
      constructor
      · intro member
        obtain ⟨further, inside, same⟩ := List.mem_map.mp member
        exact ((mem_rlistdir (deeper name)).mp inside).1 (List.cons.inj same).2
      · exact (ih (deeper name)).map fun first second same => (List.cons.inj same).2
    · have distinct := ((@nodup_scandir tree path).filter
        (fun name => !true || tree.isdir (path ++ [name]))).filter (!hidden ·)
      refine distinct.imp ?_
      intro first second different
      have heads : ∀ name chain, chain ∈ [name] ::
          (tree.rlistdir true fuel (path ++ [name])).map (name :: ·) → chain.head? = some name := by
        intro name chain member
        rcases List.mem_cons.mp member with rfl | member
        · rfl
        · obtain ⟨further, _, rfl⟩ := List.mem_map.mp member
          rfl
      intro chain inFirst inSecond
      have atFirst := heads first chain inFirst
      rw [heads second chain inSecond] at atFirst
      exact different (Option.some.inj atFirst).symm

theorem mem_glob2 : rest ∈ tree.glob2 true path ↔ tree.Below path rest := by
  rw [glob2, List.mem_cons, mem_rlistdir (by omega)]
  constructor
  · intro either
    rcases either with rfl | ⟨_, below⟩
    · trivial
    · exact below
  · intro below
    by_cases empty : rest = []
    · exact .inl empty
    · exact .inr ⟨empty, below⟩

theorem nodup_glob2 : (tree.glob2 true path).Nodup := by
  rw [glob2, List.nodup_cons]
  constructor
  · intro member
    exact ((mem_rlistdir (by omega)).mp member).1 rfl
  · exact nodup_rlistdir (by omega)

theorem nodup_glob1 {dironly : Bool} {pattern : List Char} :
    (tree.glob1 dironly path pattern).Nodup :=
  (nodup_scandir.filter _).filter _

/-- The same tree, with the entries of each directory listed in another order. -/
structure Shuffled (tree other : FileTree) : Prop where
  links : tree.links = other.links
  directory : tree.directory = other.directory
  contents : tree.contents = other.contents
  longest : tree.longest = other.longest
  names : ∀ place, (tree.names place).Perm (other.names place)

namespace Shuffled

variable {other : FileTree} {dironly recursive : Bool} {pattern : List Char}
  {patterns : List (List Char)}

theorem locate (same : Shuffled tree other) : tree.locate path = other.locate path := by
  rw [FileTree.locate, same.links, FileTree.locate]

theorem isdir (same : Shuffled tree other) : tree.isdir path = other.isdir path := by
  rw [FileTree.isdir, same.longest, same.directory, same.locate, FileTree.isdir]

theorem read (same : Shuffled tree other) : tree.read path = other.read path := by
  rw [FileTree.read, same.longest, same.contents, same.locate, FileTree.read]

theorem scandir (same : Shuffled tree other) :
    (tree.scandir path).Perm (other.scandir path) := by
  rw [FileTree.scandir, same.isdir, same.locate, FileTree.scandir]
  split
  · exact same.names _
  · exact .nil

theorem lexists (same : Shuffled tree other) :
    tree.lexists path name = other.lexists path name := by
  rw [FileTree.lexists, same.longest, same.scandir.contains_eq, FileTree.lexists]

theorem iterdir (same : Shuffled tree other) :
    (tree.iterdir dironly path).Perm (other.iterdir dironly path) := by
  simp only [FileTree.iterdir, same.isdir]
  exact same.scandir.filter _

theorem rlistdir (same : Shuffled tree other) (fuel : Nat) :
    (tree.rlistdir dironly fuel path).Perm (other.rlistdir dironly fuel path) := by
  induction fuel generalizing path with
  | zero => exact .nil
  | succ fuel ih =>
    rw [FileTree.rlistdir, FileTree.rlistdir]
    exact (same.iterdir.filter _).flatMap fun name _ => .cons _ (ih.map _)

theorem glob2 (same : Shuffled tree other) :
    (tree.glob2 dironly path).Perm (other.glob2 dironly path) := by
  rw [FileTree.glob2, same.longest, FileTree.glob2]
  exact .cons _ (same.rlistdir _)

theorem glob1 (same : Shuffled tree other) :
    (tree.glob1 dironly path pattern).Perm (other.glob1 dironly path pattern) :=
  same.iterdir.filter _

theorem glob0 (same : Shuffled tree other) :
    tree.glob0 path basename = other.glob0 path basename := by
  rw [FileTree.glob0, same.lexists, FileTree.glob0]

theorem iglob (same : Shuffled tree other) :
    (tree.iglob recursive dironly patterns).Perm (other.iglob recursive dironly patterns) := by
  induction patterns generalizing dironly with
  | nil => exact .refl _
  | cons basename above ih =>
    rw [FileTree.iglob, FileTree.iglob]
    refine List.Perm.flatMap ?_ fun path _ => ?_
    · split
      · exact ih
      · exact .refl _
    · split
      · split
        · exact same.glob2.map _
        · exact same.glob1.map _
      · rw [same.glob0]

/-- A glob finds the same paths, in some order. -/
theorem glob (same : Shuffled tree other) :
    (tree.glob recursive patterns).Perm (other.glob recursive patterns) :=
  same.iglob

end Shuffled

theorem entryName_of_scandir (entry : name ∈ tree.scandir path) : EntryName name := by
  rw [scandir, if_pos (isdir_of_scandir entry)] at entry
  exact tree.entryNames _ name entry

theorem names_rlistdir {dironly : Bool} {fuel : Nat}
    (member : rest ∈ tree.rlistdir dironly fuel path) :
    ∀ name ∈ rest, EntryName name := by
  induction fuel generalizing path rest with
  | zero => exact absurd member List.not_mem_nil
  | succ fuel ih =>
    obtain ⟨first, entry, here⟩ := List.mem_flatMap.mp member
    have entryName := entryName_of_scandir (List.mem_of_mem_filter (List.mem_of_mem_filter entry))
    rcases List.mem_cons.mp here with rfl | deeper
    · exact List.forall_mem_singleton.mpr entryName
    · obtain ⟨further, inside, rfl⟩ := List.mem_map.mp deeper
      exact List.forall_mem_cons.mpr ⟨entryName, ih inside⟩

/-- A glob of names finds names. -/
theorem names_iglob {recursive dironly : Bool} {patterns : List (List Char)}
    (patternNames : ∀ name ∈ patterns, EntryName name)
    (found : path ∈ tree.iglob recursive dironly patterns) : ∀ name ∈ path, EntryName name := by
  induction patterns generalizing dironly path with
  | nil =>
    rw [List.mem_singleton.mp found]
    exact fun name none => absurd none List.not_mem_nil
  | cons basename above ih =>
    have aboveNames := (List.forall_mem_cons.mp patternNames).2
    rw [iglob] at found
    obtain ⟨directory, inside, found⟩ := List.mem_flatMap.mp found
    have directoryNames : ∀ name ∈ directory, EntryName name := by
      split at inside
      · exact ih aboveNames inside
      · rw [List.mem_singleton.mp inside]
        exact fun name member => aboveNames name (List.mem_reverse.mp member)
    split at found
    · split at found
      · obtain ⟨rest, member, rfl⟩ := List.mem_map.mp found
        refine List.forall_mem_append.mpr ⟨directoryNames, ?_⟩
        rcases List.mem_cons.mp member with rfl | below
        · exact fun name none => absurd none List.not_mem_nil
        · exact names_rlistdir below
      · obtain ⟨last, member, rfl⟩ := List.mem_map.mp found
        have entry := List.mem_of_mem_filter (List.mem_of_mem_filter member)
        exact List.forall_mem_append.mpr
          ⟨directoryNames, List.forall_mem_singleton.mpr (entryName_of_scandir entry)⟩
    · obtain ⟨last, member, rfl⟩ := List.mem_map.mp found
      rw [glob0] at member
      split at member
      · rename_i present
        rw [List.mem_singleton.mp member]
        rw [FileTree.lexists, Bool.and_eq_true, List.contains_iff_mem] at present
        exact List.forall_mem_append.mpr
          ⟨directoryNames, List.forall_mem_singleton.mpr (entryName_of_scandir present.2)⟩
      · exact absurd member List.not_mem_nil

theorem names_glob {recursive : Bool} {patterns : List (List Char)}
    (patternNames : ∀ name ∈ patterns, EntryName name)
    (found : path ∈ tree.glob recursive patterns) : ∀ name ∈ path, EntryName name :=
  names_iglob (fun name member => patternNames name (List.mem_reverse.mp member)) found

end FileTree

end Lib

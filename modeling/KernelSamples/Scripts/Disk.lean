import KernelSamples.Lib.FileTree
import KernelSamples.Scripts.Commands
import Mathlib.Data.List.Dedup
import Mathlib.Data.List.Infix

/-! What a program sees of the tree that the builds work on. -/

namespace KernelSamples.Scripts

open Lib Compdb

/-- What the calls of a program see is this tree. -/
structure Shows (disk : FileTree) (tree : Tree) : Prop where
  link : ∀ {place target}, tree place = some (.symlink target) →
    disk.links.target place = some (disk.locate target)
  plain : ∀ {place}, (∀ target, tree place ≠ some (.symlink target)) →
    disk.links.target place = none
  directory : ∀ place, disk.directory place = true ↔ tree place = some .directory
  names : ∀ {place}, tree place = some .directory →
    ∀ name, name ∈ disk.names place ↔ tree (place ++ [name]) ≠ none
  contents : ∀ place, disk.contents place = tree.text place
  longest : ∀ {place}, tree place ≠ none → place.length ≤ disk.longest

/-- The place that a symbolic link leads to. -/
def Node.targets : Node → List (List Str)
  | .symlink target => [target]
  | _ => []

/-- A tree with these nodes only. -/
def treeOf (nodes : List (List Str × Node)) : Tree := fun place => nodes.lookup place

/-- The names are those of entries, and no link stands on the way to where a link leads. -/
structure Resolved (nodes : List (List Str × Node)) : Prop where
  names : ∀ entry ∈ nodes, ∀ name ∈ entry.1, EntryName name
  targetNames : ∀ entry ∈ nodes, ∀ target ∈ entry.2.targets, ∀ name ∈ target, EntryName name
  followed : ∀ entry ∈ nodes, ∀ target ∈ entry.2.targets, ∀ above ∈ target.inits,
    (treeOf nodes above).toList.flatMap Node.targets = []

section Disk

variable {disk : FileTree} {tree : Tree} {place bdir rest : List Str} {name source text : Str}

theorem Shows.real (shows : Shows disk tree)
    (unlinked : ∀ above, above <+: place → ∀ target, tree above ≠ some (.symlink target)) :
    disk.links.Real place :=
  fun above inside => shows.plain (unlinked above inside)

theorem Shows.isdir (shows : Shows disk tree) (real : disk.links.Real place) :
    disk.isdir place = true ↔ tree place = some .directory := by
  rw [FileTree.isdir, FileTree.locate_real real, Bool.and_eq_true, decide_eq_true_iff,
    shows.directory]
  constructor
  · exact fun both => both.2
  · exact fun here => ⟨shows.longest (by simp [here]), here⟩

theorem Shows.mem_scandir (shows : Shows disk tree) (real : disk.links.Real place)
    (here : tree place = some .directory) :
    name ∈ disk.scandir place ↔ tree (place ++ [name]) ≠ none := by
  rw [FileTree.scandir, if_pos ((shows.isdir real).mpr here), FileTree.locate_real real]
  exact shows.names here name

theorem Shows.read (shows : Shows disk tree) (real : disk.links.Real place)
    (here : tree place = some (.file text)) : disk.read place = some text := by
  rw [FileTree.read, if_pos (shows.longest (by simp [here])), FileTree.locate_real real,
    shows.contents, Tree.text, here]

/-- Directories that are not hidden are gone through. -/
theorem Shows.below (shows : Shows disk tree) (real : disk.links.Real (place ++ rest))
    (directories : ∀ above, above <+: place ++ rest → tree above = some .directory)
    (shown : ∀ name ∈ rest, FileTree.hidden name = false) : disk.Below place rest := by
  induction rest generalizing place with
  | nil => trivial
  | cons name rest ih =>
    rw [List.append_cons] at real directories
    have inside : place <+: (place ++ [name]) ++ rest := by
      rw [List.append_assoc]
      exact List.prefix_append _ _
    have entered := directories (place ++ [name]) (List.prefix_append _ _)
    refine ⟨?_, shown name List.mem_cons_self, ?_, ih real directories fun other member =>
      shown other (List.mem_cons_of_mem _ member)⟩
    · rw [shows.mem_scandir (real.ancestor inside) (directories place inside), entered]
      simp
    · exact (shows.isdir (real.ancestor (List.prefix_append _ _))).mpr entered

/-- A source leads where its names do, whichever way it is named. -/
theorem Names.leads (named : Names bdir source place) (bdirNames : ∀ name ∈ bdir, EntryName name)
    (names : ∀ name ∈ place, EntryName name) :
    disk.links.realpath (joinPath (pathText bdir) source) = disk.locate place := by
  rcases named with rfl | rfl
  · rw [joinPath, isAbs_pathText, if_pos rfl, Symlinks.realpath_pathText _ names]
    rfl
  · have entry := names source (List.mem_append_right _ List.mem_cons_self)
    rw [Symlinks.realpath_joinPath _ _ entry.relative, Symlinks.realpath_pathText _ bdirNames,
      pathComponents_entry entry, FileTree.locate, List.map_append, Symlinks.walk_append]
    rfl

end Disk

section Finite

variable {nodes : List (List Str × Node)} {place target above : List Str} {node : Node} {name : Str}

theorem mem_of_treeOf (here : treeOf nodes place = some node) : (place, node) ∈ nodes := by
  obtain ⟨before, after, rfl, -⟩ := List.lookup_eq_some_iff.mp here
  exact List.mem_append_right _ List.mem_cons_self

theorem treeOf_ne_none : treeOf nodes place ≠ none ↔ place ∈ nodes.map Prod.fst := by
  constructor
  · intro present
    obtain ⟨node, here⟩ := Option.ne_none_iff_exists'.mp present
    exact List.mem_map.mpr ⟨_, mem_of_treeOf here, rfl⟩
  · intro member absent
    obtain ⟨entry, inside, rfl⟩ := List.mem_map.mp member
    have missing := List.lookup_eq_none_iff.mp absent entry inside
    simp at missing

theorem update_treeOf (place : List Str) (node : Node) :
    Function.update (treeOf nodes) place (some node) = treeOf ((place, node) :: nodes) := by
  funext other
  by_cases same : other = place
  · subst same
    rw [Function.update_self, treeOf, List.lookup_cons_self]
  · rw [Function.update_of_ne same, treeOf, treeOf, List.lookup_cons, beq_false_of_ne same]

/-- What the calls of a program see of such a tree. -/
def diskOf (nodes : List (List Str × Node)) (resolved : Resolved nodes) : FileTree where
  links :=
    { target := fun place => ((treeOf nodes place).toList.flatMap Node.targets).head?
      followed := by
        intro place reached found above inside
        obtain ⟨node, inTree, led⟩ := List.mem_flatMap.mp (List.mem_of_mem_head? found)
        have here := Option.mem_toList.mp inTree
        rw [resolved.followed _ (mem_of_treeOf here) reached led above
          ((List.mem_inits _ _).mpr inside)]
        rfl }
  directory place := treeOf nodes place = some .directory
  names place := ((nodes.map Prod.fst).filterMap fun path =>
    if path.dropLast = place then path.getLast? else none).dedup
  contents := (treeOf nodes).text
  longest := (nodes.map fun entry => entry.1.length).foldr max 0
  distinct place := List.nodup_dedup _
  entryNames := by
    intro place name member
    obtain ⟨path, inside, ends⟩ := List.mem_filterMap.mp (List.mem_dedup.mp member)
    obtain ⟨entry, listed, rfl⟩ := List.mem_map.mp inside
    split at ends
    · exact resolved.names entry listed name (List.mem_of_getLast? ends)
    · cases ends
  targetNames := by
    intro place reached found
    obtain ⟨node, inTree, led⟩ := List.mem_flatMap.mp (List.mem_of_mem_head? found)
    exact resolved.targetNames _ (mem_of_treeOf (Option.mem_toList.mp inTree)) reached led

theorem le_longest (member : place ∈ nodes.map Prod.fst) :
    place.length ≤ (nodes.map fun entry => entry.1.length).foldr max 0 := by
  induction nodes with
  | nil => cases member
  | cons entry rest ih =>
    rw [List.map_cons, List.foldr_cons]
    rcases List.mem_cons.mp member with rfl | later
    · exact le_max_left _ _
    · exact (ih later).trans (le_max_right _ _)

/-- There is such a view of every finite tree whose links lead somewhere. -/
theorem shows_diskOf (resolved : Resolved nodes) :
    Shows (diskOf nodes resolved) (treeOf nodes) := by
  refine ⟨?_, ?_, ?_, ?_, fun place => rfl, ?_⟩
  · intro place target link
    have led : (diskOf nodes resolved).links.target place = some target := by
      simp [diskOf, link, Node.targets]
    rw [led, FileTree.locate_real ((diskOf nodes resolved).links.followed led)]
  · intro place plain
    cases here : treeOf nodes place with
    | none => simp [diskOf, here]
    | some node =>
      cases node with
      | symlink target => exact absurd here (plain target)
      | directory | file text => simp [diskOf, here, Node.targets]
  · exact fun place => decide_eq_true_iff
  · intro place _ name
    rw [treeOf_ne_none]
    refine List.mem_dedup.trans (List.mem_filterMap.trans ?_)
    constructor
    · intro found
      obtain ⟨path, member, ends⟩ := found
      split at ends
      · rename_i above
        obtain ⟨front, rfl⟩ := List.getLast?_eq_some_iff.mp ends
        rw [List.dropLast_concat] at above
        rwa [← above]
      · cases ends
    · intro member
      refine ⟨place ++ [name], member, ?_⟩
      rw [List.dropLast_concat, if_pos rfl, List.getLast?_concat]
  · intro place present
    exact le_longest (treeOf_ne_none.mp present)

end Finite

end KernelSamples.Scripts

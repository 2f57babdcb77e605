import Mathlib.Data.List.DropRight

/-! Places in a file tree, named from the root, and the place that a path leads to through
symbolic links. -/

namespace Lib

universe u

/-- What a component of a path does: stay, go to the parent, go to an entry. -/
inductive Component (Name : Type u) where
  | here
  | up
  | down (name : Name)
  deriving DecidableEq

/-- Where symbolic links stand, and where each leads once all links on its way are followed. A
link that leads back to itself leads nowhere, and is left out. -/
structure Symlinks (Name : Type u) where
  target : List Name → Option (List Name)
  followed : ∀ {place reached}, target place = some reached →
    ∀ above, above <+: reached → target above = none

namespace Symlinks

variable {Name : Type u} (links : Symlinks Name)

/-- No link stands at the place or above it. -/
def Real (place : List Name) : Prop := ∀ above, above <+: place → links.target above = none

/-- One step down into a directory. -/
def enter (place : List Name) (name : Name) : List Name :=
  (links.target (place ++ [name])).getD (place ++ [name])

def walk (place : List Name) : List (Component Name) → List Name
  | [] => place
  | .here :: rest => walk place rest
  | .up :: rest => walk place.dropLast rest
  | .down name :: rest => walk (links.enter place name) rest

/-- The walk meets no link. -/
def Straight (place : List Name) : List (Component Name) → Prop
  | [] => True
  | .here :: rest => Straight place rest
  | .up :: rest => Straight place.dropLast rest
  | .down name :: rest => links.target (place ++ [name]) = none ∧ Straight (place ++ [name]) rest

end Symlinks

/-- How many levels a path climbs out of the directory it starts from, and what it descends to
from there. -/
def climbFrom {Name : Type u} (climbed : Nat) (descent : List Name) :
    List (Component Name) → Nat × List Name
  | [] => (climbed, descent)
  | .here :: rest => climbFrom climbed descent rest
  | .up :: rest =>
    match descent with
    | [] => climbFrom (climbed + 1) [] rest
    | name :: names => climbFrom climbed (name :: names).dropLast rest
  | .down name :: rest => climbFrom climbed (descent ++ [name]) rest

def climb {Name : Type u} (path : List (Component Name)) : Nat := (climbFrom 0 [] path).1

variable {Name : Type u} {links : Symlinks Name} {place first second names : List Name}
  {path rest : List (Component Name)} {name : Name}

theorem dropLast_rdrop (place : List Name) (climbed : Nat) :
    (place.rdrop climbed).dropLast = place.rdrop (climbed + 1) := by
  simp only [List.rdrop, List.dropLast_eq_take, List.length_take, List.take_take]
  congr 1
  omega

namespace Symlinks

/-- A tree without symbolic links. -/
def empty : Symlinks Name := ⟨fun _ => none, fun found => by cases found⟩

theorem straight_empty (place : List Name) (path : List (Component Name)) :
    empty.Straight place path := by
  induction path generalizing place with
  | nil => trivial
  | cons component rest ih =>
    cases component with
    | here => exact ih place
    | up => exact ih place.dropLast
    | down name => exact ⟨rfl, ih _⟩

/-- A walk ends with names of where it starts, of the path or of a link on the way. -/
theorem walk_names {holds : Name → Prop} (start : ∀ name ∈ place, holds name)
    (downs : ∀ name, .down name ∈ path → holds name)
    (targets : ∀ place reached, links.target place = some reached → ∀ name ∈ reached, holds name) :
    ∀ name ∈ links.walk place path, holds name := by
  induction path generalizing place with
  | nil => exact start
  | cons component rest ih =>
    have later : ∀ name, .down name ∈ rest → holds name :=
      fun name inside => downs name (List.mem_cons_of_mem _ inside)
    cases component with
    | here => exact ih start later
    | up => exact ih (fun name inside => start name (List.dropLast_subset place inside)) later
    | down name =>
      apply ih _ later
      intro other inside
      rw [Symlinks.enter] at inside
      cases found : links.target (place ++ [name]) with
      | some reached =>
        rw [found] at inside
        exact targets _ reached found other inside
      | none =>
        rw [found] at inside
        rcases List.mem_append.mp inside with old | new
        · exact start other old
        · rw [List.mem_singleton.mp new]
          exact downs name List.mem_cons_self

theorem real_nil : links.Real [] := by
  intro above inside
  cases found : links.target above with
  | none => rfl
  | some reached =>
    -- A link at the root would stand above whatever it leads to.
    obtain rfl := List.prefix_nil.mp inside
    have none := links.followed found [] List.nil_prefix
    rw [found] at none
    cases none

theorem Real.ancestor {ancestor : List Name} (real : links.Real place)
    (inside : ancestor <+: place) : links.Real ancestor :=
  fun further prefixed => real further (prefixed.trans inside)

theorem Real.enter (real : links.Real place) (name : Name) :
    links.Real (links.enter place name) := by
  intro above inside
  rw [Symlinks.enter] at inside
  cases found : links.target (place ++ [name]) with
  | some reached =>
    rw [found] at inside
    exact links.followed found above inside
  | none =>
    rw [found] at inside
    rcases List.prefix_concat_iff.mp inside with rfl | inside
    · exact found
    · exact real above inside

/-- A walk that starts without links above it ends so. -/
theorem Real.walk (real : links.Real place) (path : List (Component Name)) :
    links.Real (links.walk place path) := by
  induction path generalizing place with
  | nil => exact real
  | cons component rest ih =>
    cases component with
    | here => exact ih real
    | up => exact ih (real.ancestor (List.dropLast_prefix place))
    | down name => exact ih (real.enter name)

theorem walk_append :
    links.walk place (path ++ rest) = links.walk (links.walk place path) rest := by
  induction path generalizing place with
  | nil => rfl
  | cons component path ih =>
    cases component with
    | here => exact ih
    | up => exact ih
    | down name => exact ih

/-- Where no link stands the names of a place lead to it. -/
theorem Real.walk_down (real : links.Real (place ++ names)) :
    links.walk place (names.map .down) = place ++ names := by
  induction names generalizing place with
  | nil => exact (List.append_nil place).symm
  | cons name names ih =>
    have step : links.target (place ++ [name]) = none :=
      real _ (List.prefix_append_right_inj place |>.mpr (List.prefix_append [name] names))
    rw [List.append_cons] at real ⊢
    rw [List.map_cons, Symlinks.walk, Symlinks.enter, step]
    exact ih real

/-- A walk that meets no link ends at its descent, below the place it climbs to. -/
theorem walk_straight {climbed : Nat}
    (straight : links.Straight (place.rdrop climbed ++ names) path) :
    links.walk (place.rdrop climbed ++ names) path =
      place.rdrop (climbFrom climbed names path).1 ++ (climbFrom climbed names path).2 := by
  induction path generalizing climbed names with
  | nil => rfl
  | cons component rest ih =>
    cases component with
    | here => exact ih straight
    | down name =>
      obtain ⟨step, straight⟩ := straight
      rw [Symlinks.walk, Symlinks.enter, step, climbFrom]
      simp only [Option.getD_none, List.append_assoc] at straight ⊢
      exact ih straight
    | up =>
      rw [Symlinks.Straight] at straight
      cases names with
      | nil =>
        rw [List.append_nil, dropLast_rdrop] at straight
        rw [Symlinks.walk, climbFrom, List.append_nil, dropLast_rdrop]
        have found := @ih [] (climbed + 1)
        rw [List.append_nil] at found
        exact found straight
      | cons name names =>
        rw [List.dropLast_append_of_ne_nil (List.cons_ne_nil _ _)] at straight
        rw [Symlinks.walk, climbFrom, List.dropLast_append_of_ne_nil (List.cons_ne_nil _ _)]
        exact ih straight

/-- Without links, a path leads to one place from two directories just when it climbs out of
both to the same ancestor. -/
theorem walk_eq_walk_iff (fromFirst : links.Straight first path)
    (fromSecond : links.Straight second path) :
    links.walk first path = links.walk second path ↔
      first.rdrop (climb path) = second.rdrop (climb path) := by
  have ends : ∀ place, links.Straight place path →
      links.walk place path = place.rdrop (climb path) ++ (climbFrom 0 [] path).2 := by
    intro place straight
    have found := @walk_straight _ links place [] path 0
    rw [List.rdrop_zero, List.append_nil] at found
    exact found straight
  rw [ends first fromFirst, ends second fromSecond]
  exact List.append_left_inj _

end Symlinks

/-! Paths as texts. -/

/-- A name that a directory entry can have. -/
structure EntryName (name : List Char) : Prop where
  nonempty : name ≠ []
  slash : '/' ∉ name
  dot : name ≠ ['.']
  dots : name ≠ ['.', '.']

instance (name : List Char) : Decidable (EntryName name) :=
  decidable_of_iff (name ≠ [] ∧ '/' ∉ name ∧ name ≠ ['.'] ∧ name ≠ ['.', '.'])
    ⟨fun entry => ⟨entry.1, entry.2.1, entry.2.2.1, entry.2.2.2⟩,
      fun entry => ⟨entry.nonempty, entry.slash, entry.dot, entry.dots⟩⟩

def component (name : List Char) : Component (List Char) :=
  if name = [] ∨ name = ['.'] then .here
  else if name = ['.', '.'] then .up
  else .down name

def pathComponents (text : List Char) : List (Component (List Char)) :=
  (text.splitOn '/').map component

/-- `os.path.isabs` -/
def isAbs (path : List Char) : Bool := ['/'].isPrefixOf path

/-- `os.path.join` -/
def joinPath (directory path : List Char) : List Char :=
  if isAbs path then path
  else if directory = [] ∨ directory.getLast? = some '/' then directory ++ path
  else directory ++ '/' :: path

/-- `os.path.realpath` of an absolute path. -/
def Symlinks.realpath (links : Symlinks (List Char)) (path : List Char) : List (List Char) :=
  links.walk [] (pathComponents path)

theorem not_mem_splitOn {separator : Char} {text part : List Char}
    (member : part ∈ text.splitOn separator) : separator ∉ part := by
  induction text generalizing part with
  | nil =>
    rw [List.splitOn_nil, List.mem_singleton] at member
    rw [member]
    exact List.not_mem_nil
  | cons char text ih =>
    rw [List.splitOn_cons_eq_if_modifyHead] at member
    split at member
    · rcases List.mem_cons.mp member with rfl | later
      · exact List.not_mem_nil
      · exact ih later
    · rename_i different
      obtain ⟨head, tail, parts⟩ := List.exists_cons_of_ne_nil (List.splitOn_ne_nil separator text)
      rw [parts] at member ih
      rcases List.mem_cons.mp member with rfl | later
      · intro inside
        rcases List.mem_cons.mp inside with rfl | inside
        · exact different (BEq.refl _)
        · exact ih List.mem_cons_self inside
      · exact ih (List.mem_cons_of_mem _ later)

/-- What a path goes down to has the name of an entry. -/
theorem entryName_of_down {text name : List Char} (member : .down name ∈ pathComponents text) :
    EntryName name := by
  obtain ⟨part, inside, same⟩ := List.mem_map.mp member
  rw [component] at same
  split at same
  · cases same
  · rename_i shown
    split at same
    · cases same
    · rename_i proper
      obtain rfl := Component.down.inj same
      obtain ⟨nonempty, dot⟩ := not_or.mp shown
      exact ⟨nonempty, not_mem_splitOn inside, dot, proper⟩

/-- The text of an absolute path. -/
def pathText (names : List (List Char)) : List Char :=
  if names = [] then ['/'] else names.flatMap ('/' :: ·)

theorem prefix_of_slash {first second firstRest secondRest : List Char}
    (firstName : '/' ∉ first) (secondName : '/' ∉ second)
    (stops : ∀ char ∈ secondRest.head?, char = '/') :
    first ++ '/' :: firstRest <+: second ++ secondRest ↔
      first = second ∧ '/' :: firstRest <+: secondRest := by
  constructor
  · intro inside
    induction first generalizing second with
    | nil =>
      cases second with
      | nil => exact ⟨rfl, inside⟩
      | cons char second =>
        obtain ⟨rfl, _⟩ := List.cons_prefix_cons.mp inside
        exact absurd List.mem_cons_self secondName
    | cons char first ih =>
      have apart : char ≠ '/' := fun same => firstName (same ▸ List.mem_cons_self)
      cases second with
      | nil =>
        cases secondRest with
        | nil => exact absurd (List.prefix_nil.mp inside) (List.cons_ne_nil _ _)
        | cons other secondRest =>
          obtain ⟨rfl, _⟩ := List.cons_prefix_cons.mp inside
          exact absurd (stops char rfl) apart
      | cons other second =>
        obtain ⟨rfl, later⟩ := List.cons_prefix_cons.mp inside
        obtain ⟨rfl, last⟩ := ih (fun member => firstName (List.mem_cons_of_mem _ member))
          (fun member => secondName (List.mem_cons_of_mem _ member)) later
        exact ⟨rfl, last⟩
  · intro both
    obtain ⟨rfl, inside⟩ := both
    exact (List.prefix_append_right_inj first).mpr inside

theorem slash_of_head (names : List (List Char)) :
    ∀ char ∈ (names.flatMap ('/' :: ·)).head?, char = '/' := by
  intro char first
  cases names with
  | nil => cases first
  | cons name names => exact (Option.some.inj first).symm

theorem flatMap_prefix_iff {above names : List (List Char)}
    (aboveNames : ∀ name ∈ above, '/' ∉ name) (namesNames : ∀ name ∈ names, '/' ∉ name) :
    above.flatMap ('/' :: ·) ++ ['/'] <+: names.flatMap ('/' :: ·) ↔
      ∃ rest ≠ [], names = above ++ rest := by
  induction above generalizing names with
  | nil =>
    cases names with
    | nil => simp
    | cons name names => simp
  | cons first above ih =>
    cases names with
    | nil => simp
    | cons name names =>
      have here := aboveNames first List.mem_cons_self
      have there := namesNames name List.mem_cons_self
      have others := @ih names (fun name member => aboveNames name (List.mem_cons_of_mem _ member))
        (fun name member => namesNames name (List.mem_cons_of_mem _ member))
      have follows : above.flatMap ('/' :: ·) ++ ['/'] =
          '/' :: (above.flatMap ('/' :: ·) ++ ['/']).tail := by
        cases above <;> rfl
      simp only [List.flatMap_cons, List.cons_append, List.append_assoc, List.cons_prefix_cons,
        true_and]
      rw [follows, prefix_of_slash here there (slash_of_head names), ← follows, others]
      simp only [List.cons.injEq]
      constructor
      · intro both
        obtain ⟨rfl, rest, nonempty, rfl⟩ := both
        exact ⟨rest, nonempty, rfl, rfl⟩
      · intro found
        obtain ⟨rest, nonempty, rfl, rfl⟩ := found
        exact ⟨rfl, rest, nonempty, rfl⟩

theorem pathComponents_join (directory path : List Char) :
    pathComponents (directory ++ '/' :: path) =
      pathComponents directory ++ pathComponents path := by
  rw [pathComponents, List.splitOn_append_cons_self, List.map_append]
  rfl

/-- A relative path is resolved from the place of the directory it is joined to. -/
theorem Symlinks.realpath_joinPath (links : Symlinks (List Char)) (directory : List Char)
    {path : List Char} (relative : isAbs path = false) :
    links.realpath (joinPath directory path) =
      links.walk (links.realpath directory) (pathComponents path) := by
  rw [joinPath, relative]
  simp only [Bool.false_eq_true, if_false]
  split
  · rename_i ending
    rcases ending with rfl | slash
    · rfl
    · obtain ⟨initial, rfl⟩ := List.getLast?_eq_some_iff.mp slash
      rw [List.append_assoc, List.singleton_append, Symlinks.realpath, Symlinks.realpath,
        pathComponents_join, pathComponents_join, walk_append, walk_append]
      rfl
  · rw [Symlinks.realpath, pathComponents_join, walk_append]
    rfl

theorem component_entry {name : List Char} (entry : EntryName name) :
    component name = .down name := by
  rw [component, if_neg (not_or.mpr ⟨entry.nonempty, entry.dot⟩), if_neg entry.dots]

theorem pathComponents_entry {name : List Char} (entry : EntryName name) :
    pathComponents name = [.down name] := by
  rw [pathComponents, List.splitOn_eq_singleton entry.slash, List.map_singleton,
    component_entry entry]

theorem pathComponents_flatMap {name : List Char} {names : List (List Char)}
    (entry : EntryName name) (entries : ∀ name ∈ names, EntryName name) :
    pathComponents (name ++ names.flatMap ('/' :: ·)) = .down name :: names.map .down := by
  induction names generalizing name with
  | nil => rw [List.flatMap_nil, List.append_nil, pathComponents_entry entry, List.map_nil]
  | cons next rest ih =>
    obtain ⟨first, later⟩ := List.forall_mem_cons.mp entries
    rw [List.flatMap_cons, List.cons_append, pathComponents_join, pathComponents_entry entry,
      ih first later]
    rfl

/-- The text of a path leads where its names do. -/
theorem Symlinks.realpath_pathText (links : Symlinks (List Char)) {names : List (List Char)}
    (entries : ∀ name ∈ names, EntryName name) :
    links.realpath (pathText names) = links.walk [] (names.map .down) := by
  cases names with
  | nil => rfl
  | cons first rest =>
    obtain ⟨entry, later⟩ := List.forall_mem_cons.mp entries
    have text : pathText (first :: rest) = [] ++ '/' :: (first ++ rest.flatMap ('/' :: ·)) := rfl
    rw [Symlinks.realpath, text, pathComponents_join, pathComponents_flatMap entry later]
    rfl

theorem isAbs_pathText (names : List (List Char)) : isAbs (pathText names) = true := by
  cases names <;> rfl

theorem EntryName.relative {name : List Char} (entry : EntryName name) : isAbs name = false := by
  cases name with
  | nil => rfl
  | cons char rest =>
    rw [Bool.eq_false_iff]
    intro absolute
    obtain ⟨rfl, -⟩ := List.cons_prefix_cons.mp (List.isPrefixOf_iff_prefix.mp absolute)
    exact entry.slash List.mem_cons_self

theorem Symlinks.real_realpath (links : Symlinks (List Char)) (path : List Char) :
    links.Real (links.realpath path) :=
  real_nil.walk _

/-- A path begins as another one does, with a slash after it, just when it lies below it. -/
theorem pathText_prefix_iff {above names : List (List Char)}
    (aboveNames : ∀ name ∈ above, EntryName name) (namesNames : ∀ name ∈ names, EntryName name) :
    pathText above ++ ['/'] <+: pathText names ↔
      above ≠ [] ∧ ∃ rest ≠ [], names = above ++ rest := by
  cases names with
  | nil =>
    have short : pathText ([] : List (List Char)) = ['/'] := rfl
    cases above with
    | nil => simp [short]
    | cons first above =>
      have nonempty := (aboveNames first List.mem_cons_self).nonempty
      simp [pathText, nonempty]
  | cons name names =>
    have first := namesNames name List.mem_cons_self
    cases above with
    | nil =>
      obtain ⟨char, rest, rfl⟩ := List.exists_cons_of_ne_nil first.nonempty
      have apart : char ≠ '/' := fun same => first.slash (same ▸ List.mem_cons_self)
      simp [pathText, apart.symm]
    | cons other above =>
      have below := @flatMap_prefix_iff (other :: above) (name :: names)
        (fun name member => (aboveNames name member).slash)
        (fun name member => (namesNames name member).slash)
      simpa [pathText] using below

/-- No path begins with two slashes. -/
theorem not_doubled {names : List (List Char)} (entryNames : ∀ name ∈ names, EntryName name)
    (text : List Char) : ¬ '/' :: '/' :: text <+: pathText names := by
  cases names with
  | nil =>
    intro inside
    have short := inside.length_le
    simp [pathText] at short
  | cons name names =>
    have first := entryNames name List.mem_cons_self
    obtain ⟨char, rest, rfl⟩ := List.exists_cons_of_ne_nil first.nonempty
    have apart : char ≠ '/' := fun same => first.slash (same ▸ List.mem_cons_self)
    simp [pathText, apart.symm]

theorem prefix_of_flatMap {first second : List (List Char)}
    (firstNames : ∀ name ∈ first, '/' ∉ name)
    (secondNames : ∀ name ∈ second, '/' ∉ name)
    (same : first.flatMap ('/' :: ·) = second.flatMap ('/' :: ·)) : first <+: second := by
  have names : ∀ name ∈ second ++ [['.']], '/' ∉ name := by
    intro name member
    rcases List.mem_append.mp member with inside | last
    · exact secondNames name inside
    · rw [List.mem_singleton.mp last]
      decide
  obtain ⟨rest, nonempty, whole⟩ := (flatMap_prefix_iff firstNames names).mp (by simp [same])
  rw [← List.dropLast_append_getLast nonempty, ← List.append_assoc] at whole
  rw [(List.append_singleton_inj.mp whole).1]
  exact List.prefix_append _ _

/-- The text of a path tells the path. -/
theorem pathText_injective {first second : List (List Char)}
    (firstNames : ∀ name ∈ first, EntryName name) (secondNames : ∀ name ∈ second, EntryName name)
    (same : pathText first = pathText second) : first = second := by
  have longer : ∀ {name : List Char} {rest : List (List Char)}, EntryName name →
      pathText [] ≠ pathText (name :: rest) := by
    intro name rest entry same
    exact entry.nonempty (List.append_eq_nil_iff.mp (List.cons.inj same).2.symm).1
  cases first with
  | nil =>
    cases second with
    | nil => rfl
    | cons name rest => exact absurd same (longer (secondNames name List.mem_cons_self))
  | cons name rest =>
    cases second with
    | nil => exact absurd same.symm (longer (firstNames name List.mem_cons_self))
    | cons other others =>
      have texts : (name :: rest).flatMap ('/' :: ·) = (other :: others).flatMap ('/' :: ·) := same
      have there := prefix_of_flatMap (fun name member => (firstNames name member).slash)
        (fun name member => (secondNames name member).slash) texts
      have back := prefix_of_flatMap (fun name member => (secondNames name member).slash)
        (fun name member => (firstNames name member).slash) texts.symm
      exact there.eq_of_length (Nat.le_antisymm there.length_le back.length_le)

end Lib

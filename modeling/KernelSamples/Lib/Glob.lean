import KernelSamples.Lib.FileTree

/-! What a glob pattern stands for, part by part: a name for each component, and for `**` a chain
of directories. `glob.glob` finds a path once for each way to take it apart so. -/

namespace Lib

theorem nodup_flatMap_pairs {First Second : Type} {firsts : List First}
    {seconds : First → List Second} (distinct : firsts.Nodup)
    (inner : ∀ first, (seconds first).Nodup) :
    (firsts.flatMap fun first => (seconds first).map (first, ·)).Nodup := by
  rw [List.nodup_flatMap]
  constructor
  · exact fun first _ => (inner first).map fun _ _ same => (Prod.mk.inj same).2
  · apply distinct.imp
    intro first second different pair inFirst inSecond
    obtain ⟨_, _, rfl⟩ := List.mem_map.mp inFirst
    obtain ⟨_, _, same⟩ := List.mem_map.mp inSecond
    exact different (Prod.mk.inj same).1.symm

theorem count_flatMap_pairs {First Second : Type} [BEq First] [LawfulBEq First] [BEq Second]
    [LawfulBEq Second] (firsts : List First) (seconds : First → List Second)
    (pair : First × Second) :
    (firsts.flatMap fun first => (seconds first).map (first, ·)).count pair =
      firsts.count pair.1 * (seconds pair.1).count pair.2 := by
  induction firsts with
  | nil => simp
  | cons first firsts ih =>
    rw [List.flatMap_cons, List.count_append, ih, List.count_cons, Nat.add_mul, Nat.add_comm]
    congr 1
    by_cases same : first = pair.1
    · subst same
      rw [if_pos (BEq.refl _), Nat.one_mul, List.count, List.countP_map, List.count]
      apply List.countP_congr
      intro second _
      simp [Prod.ext_iff]
    · rw [if_neg (by simpa using same), Nat.zero_mul, List.count_eq_zero]
      intro member
      obtain ⟨second, -, rfl⟩ := List.mem_map.mp member
      exact same rfl

theorem count_map_eq_one_iff {First Second : Type} [BEq Second] [LawfulBEq Second]
    {firsts : List First} {image : First → Second} (distinct : firsts.Nodup) (second : Second) :
    (firsts.map image).count second = 1 ↔
      ∃! first, first ∈ firsts ∧ image first = second := by
  rw [List.count, List.countP_map, List.countP_eq_length_filter, List.length_eq_one_iff]
  constructor
  · intro once
    obtain ⟨only, once⟩ := once
    have inside : ∀ first, first ∈ firsts ∧ image first = second ↔ first = only := by
      intro first
      have member := @List.mem_filter _ ((· == second) ∘ image) firsts first
      rw [once, List.mem_singleton] at member
      rw [member, Function.comp_apply, beq_iff_eq]
    exact ⟨only, (inside only).mpr rfl, fun first member => (inside first).mp member⟩
  · intro once
    obtain ⟨only, ⟨member, same⟩, unique⟩ := once
    refine ⟨only, List.perm_singleton.mp ?_⟩
    apply (List.perm_ext_iff_of_nodup (distinct.filter _) (List.nodup_singleton _)).mpr
    intro first
    rw [List.mem_filter, List.mem_singleton]
    constructor
    · intro found
      exact unique first ⟨found.1, by simpa using found.2⟩
    · rintro rfl
      exact ⟨member, by simpa using same⟩

theorem eq_of_countP_one {Item : Type} {list : List Item} {holds : Item → Bool}
    {first second : Item} (once : list.countP holds = 1) (inFirst : first ∈ list)
    (inSecond : second ∈ list) (holdsFirst : holds first = true)
    (holdsSecond : holds second = true) : first = second := by
  rw [List.countP_eq_length_filter, List.length_eq_one_iff] at once
  obtain ⟨only, once⟩ := once
  have atFirst := List.mem_filter.mpr ⟨inFirst, holdsFirst⟩
  have atSecond := List.mem_filter.mpr ⟨inSecond, holdsSecond⟩
  rw [once, List.mem_singleton] at atFirst atSecond
  rw [atFirst, atSecond]

namespace FileTree

/-- The path that is put together from its parts, the last of which comes first. -/
def place (parts : List (List (List Char))) : List (List Char) := parts.reverse.flatten

variable (tree : FileTree)

/-- What a component stands for in a directory, if more is to follow: a directory that it
matches, for `**` a chain of directories, without a `*`, `?` or `[` the entry of its name. -/
def Fits (recursive : Bool) (path : List (List Char)) (pattern : List Char)
    (part : List (List Char)) : Prop :=
  if hasMagic pattern = true then
    if recursive = true ∧ pattern = ['*', '*'] then tree.Below path part
    else ∃ name, part = [name] ∧ name ∈ tree.scandir path ∧
      tree.isdir (path ++ [name]) = true ∧ (hidden pattern = true ∨ hidden name = false) ∧
      fnmatch pattern name = true
  else part = [pattern] ∧ path.length + 1 ≤ tree.longest ∧ pattern ∈ tree.scandir path

/-- What the components of a pattern stand for, the last of them first. Those before the first
one with a `*`, `?` or `[` are taken as they are. -/
def Stands (recursive : Bool) : List (List Char) → List (List (List Char)) → Prop
  | [], parts => parts = []
  | pattern :: above, parts =>
    if (pattern :: above).any hasMagic = true then
      ∃ part rest, parts = part :: rest ∧ Stands recursive above rest ∧
        tree.Fits recursive (place rest) pattern part
    else parts = (pattern :: above).map ([·])

/-- A way in which a pattern, whose last component is `basename`, matches a path. -/
structure Matched (recursive : Bool) (above : List (List Char)) (basename : List Char)
    (path : List (List Char)) (parts : List (List (List Char))) : Prop where
  stands : tree.Stands recursive above.reverse parts
  entry : ∃ name, path = place parts ++ [name] ∧ name ∈ tree.scandir (place parts) ∧
    (hidden basename = true ∨ hidden name = false) ∧ fnmatch basename name = true

variable {tree} {recursive : Bool} {path above patterns : List (List Char)}
  {pattern basename name : List Char} {part : List (List Char)}
  {parts : List (List (List Char))}

theorem place_cons (part : List (List Char)) (rest : List (List (List Char))) :
    place (part :: rest) = place rest ++ part := by
  rw [place, List.reverse_cons, List.flatten_append, List.flatten_singleton, place]

/-- A path that is taken apart name by name. -/
theorem place_singles (names : List (List Char)) : place (names.map ([·])) = names.reverse := by
  induction names with
  | nil => rfl
  | cons name names ih => rw [List.map_cons, place_cons, ih, List.reverse_cons]

theorem stands_plain (plain : patterns.any hasMagic = false) :
    tree.Stands recursive patterns parts ↔ parts = patterns.map ([·]) := by
  cases patterns with
  | nil => exact Iff.rfl
  | cons pattern above => rw [Stands, if_neg (by rw [plain]; decide)]

/-- What `_iglob` puts after a directory for one component. -/
def fitting (tree : FileTree) (recursive : Bool) (path : List (List Char))
    (pattern : List Char) : List (List (List Char)) :=
  if hasMagic pattern then
    if recursive && pattern = ['*', '*'] then tree.glob2 true path
    else (tree.glob1 true path pattern).map ([·])
  else (tree.glob0 path pattern).map ([·])

theorem mem_fitting : part ∈ tree.fitting recursive path pattern ↔
    tree.Fits recursive path pattern part := by
  rw [fitting, Fits]
  by_cases magic : hasMagic pattern = true
  · rw [if_pos magic, if_pos magic]
    by_cases stars : recursive = true ∧ pattern = ['*', '*']
    · rw [if_pos stars, if_pos (by simpa using stars)]
      exact mem_glob2
    · rw [if_neg stars, if_neg (by simpa using stars), List.mem_map]
      constructor
      · intro found
        obtain ⟨name, member, rfl⟩ := found
        simp only [glob1, iterdir, List.mem_filter, Bool.not_true, Bool.false_or,
          Bool.and_eq_true, Bool.or_eq_true, Bool.not_eq_true'] at member
        obtain ⟨⟨entry, directory⟩, shown, matched⟩ := member
        exact ⟨name, rfl, entry, directory, shown, matched⟩
      · intro found
        obtain ⟨name, rfl, entry, directory, shown, matched⟩ := found
        refine ⟨name, ?_, rfl⟩
        simp only [glob1, iterdir, List.mem_filter, Bool.not_true, Bool.false_or,
          Bool.and_eq_true, Bool.or_eq_true, Bool.not_eq_true']
        exact ⟨⟨entry, directory⟩, shown, matched⟩
  · rw [if_neg magic, if_neg magic, glob0]
    by_cases present : tree.lexists path pattern = true
    · rw [if_pos present]
      rw [lexists, Bool.and_eq_true, decide_eq_true_iff, List.contains_iff_mem] at present
      simp [present]
    · rw [if_neg present]
      rw [lexists, Bool.and_eq_true, decide_eq_true_iff, List.contains_iff_mem] at present
      simp only [List.map_nil, List.not_mem_nil, false_iff]
      exact fun both => present both.2

theorem nodup_fitting : (tree.fitting recursive path pattern).Nodup := by
  have single : ∀ {names : List (List Char)}, names.Nodup → (names.map ([·])).Nodup :=
    fun distinct => distinct.map fun first second same => (List.cons.inj same).1
  rw [fitting]
  split
  · split
    · exact nodup_glob2
    · exact single nodup_glob1
  · apply single
    rw [glob0]
    split
    · exact List.nodup_singleton _
    · exact List.nodup_nil

theorem iglob_cons (basename : List Char) (above : List (List Char)) :
    tree.iglob recursive true (basename :: above) =
      (if above.any hasMagic then tree.iglob recursive true above
        else [above.reverse]).flatMap fun path =>
          (tree.fitting recursive path basename).map (path ++ ·) := by
  rw [iglob]
  apply List.flatMap_congr
  intro path _
  rw [fitting]
  split
  · split
    · rfl
    · rw [List.map_map]
      rfl
  · rw [List.map_map]
    rfl

/-- The directories of a pattern are those that its components stand for, each as often as there
are ways to take it apart. -/
theorem dirs_eq (recursive : Bool) (patterns : List (List Char)) :
    ∃ found : List (List (List (List Char))), found.Nodup ∧
      (∀ parts, parts ∈ found ↔ tree.Stands recursive patterns parts) ∧
      (if patterns.any hasMagic then tree.iglob recursive true patterns
        else [patterns.reverse]) = found.map place := by
  induction patterns with
  | nil => exact ⟨[[]], List.nodup_singleton _, fun parts => by simp [Stands], rfl⟩
  | cons basename above ih =>
    by_cases magic : (basename :: above).any hasMagic = true
    · obtain ⟨found, distinct, stands, dirs⟩ := ih
      let pairs := found.flatMap fun rest =>
        (tree.fitting recursive (place rest) basename).map (rest, ·)
      refine ⟨pairs.map fun pair => pair.2 :: pair.1, ?_, ?_, ?_⟩
      · refine (nodup_flatMap_pairs distinct fun rest => nodup_fitting).map ?_
        intro first second same
        obtain ⟨last, rest⟩ := List.cons.inj same
        exact Prod.ext rest last
      · intro parts
        rw [Stands, if_pos magic]
        simp only [pairs, List.mem_map, List.mem_flatMap, stands, mem_fitting]
        constructor
        · intro inside
          obtain ⟨_, ⟨rest, above, part, fits, rfl⟩, rfl⟩ := inside
          exact ⟨part, rest, rfl, above, fits⟩
        · intro inside
          obtain ⟨part, rest, rfl, above, fits⟩ := inside
          exact ⟨_, ⟨rest, above, part, fits, rfl⟩, rfl⟩
      · rw [if_pos magic, iglob_cons, dirs, List.flatMap_map, List.map_flatMap]
        rw [List.map_flatMap]
        apply List.flatMap_congr
        intro rest _
        rw [List.map_map, List.map_map]
        apply List.map_congr_left
        intro part _
        exact (place_cons part rest).symm
    · refine ⟨[(basename :: above).map ([·])], List.nodup_singleton _, ?_, ?_⟩
      · intro parts
        rw [Stands, if_neg magic, List.mem_singleton]
      · rw [if_neg magic, List.map_singleton, place_singles]

/-- A glob finds a path for each way in which its pattern matches it. -/
theorem glob_eq (recursive : Bool) (above : List (List Char))
    (magic : hasMagic basename = true) (single : basename ≠ ['*', '*']) :
    ∃ found : List (List (List (List Char)) × List Char), found.Nodup ∧
      tree.glob recursive (above ++ [basename]) =
        found.map (fun pair => place pair.1 ++ [pair.2]) ∧
      ∀ path parts, tree.Matched recursive above basename path parts ↔
        ∃ name, (parts, name) ∈ found ∧ place parts ++ [name] = path := by
  obtain ⟨found, distinct, stands, dirs⟩ := @dirs_eq tree recursive above.reverse
  refine ⟨found.flatMap fun parts => (tree.glob1 false (place parts) basename).map (parts, ·),
    nodup_flatMap_pairs distinct fun parts => nodup_glob1, ?_, ?_⟩
  · rw [glob, List.reverse_append, List.reverse_singleton, List.singleton_append, iglob]
    simp only [dirs, magic, if_true, single, decide_false, Bool.and_false, Bool.false_eq_true,
      if_false]
    rw [List.flatMap_map, List.map_flatMap]
    apply List.flatMap_congr
    intro parts _
    rw [List.map_map]
    rfl
  · intro path parts
    simp only [List.mem_flatMap, List.mem_map, glob1, iterdir, List.mem_filter, Bool.not_false,
      Bool.true_or, and_true, Bool.and_eq_true, Bool.or_eq_true, Bool.not_eq_true']
    constructor
    · intro matched
      obtain ⟨inside, name, rfl, entry, shown, named⟩ := matched
      exact ⟨name, ⟨parts, (stands parts).mpr inside, name, ⟨entry, shown, named⟩, rfl⟩, rfl⟩
    · intro matched
      obtain ⟨name, ⟨_, inside, _, ⟨entry, shown, named⟩, same⟩, rfl⟩ := matched
      obtain ⟨rfl, rfl⟩ := Prod.mk.inj same
      exact ⟨(stands _).mp inside, _, rfl, entry, shown, named⟩

theorem mem_glob (magic : hasMagic basename = true) (single : basename ≠ ['*', '*']) :
    path ∈ tree.glob recursive (above ++ [basename]) ↔
      ∃ parts, tree.Matched recursive above basename path parts := by
  obtain ⟨found, -, same, matched⟩ := @glob_eq tree basename recursive above magic single
  simp only [same, matched, List.mem_map, Prod.exists]

theorem count_glob (magic : hasMagic basename = true) (single : basename ≠ ['*', '*']) :
    (tree.glob recursive (above ++ [basename])).count path = 1 ↔
      ∃! parts, tree.Matched recursive above basename path parts := by
  obtain ⟨found, distinct, same, matched⟩ := @glob_eq tree basename recursive above magic single
  rw [same, count_map_eq_one_iff distinct]
  simp only [matched]
  constructor
  · intro once
    obtain ⟨⟨parts, name⟩, ⟨member, placed⟩, unique⟩ := once
    refine ⟨parts, ⟨name, member, placed⟩, ?_⟩
    intro other found
    obtain ⟨name, member, placed⟩ := found
    exact (Prod.mk.inj (unique (other, name) ⟨member, placed⟩)).1
  · intro once
    obtain ⟨parts, ⟨name, member, placed⟩, unique⟩ := once
    refine ⟨(parts, name), ⟨member, placed⟩, ?_⟩
    intro other found
    obtain ⟨member', placed'⟩ := found
    obtain rfl := unique other.1 ⟨other.2, member', placed'⟩
    rw [← placed] at placed'
    exact Prod.ext rfl (List.append_singleton_inj.mp placed').2

/-- Without `**` a pattern is matched name by name. -/
theorem Stands.singles (stands : tree.Stands false patterns parts) :
    ∃ names : List (List Char), parts = names.map ([·]) := by
  induction patterns generalizing parts with
  | nil => exact ⟨[], stands⟩
  | cons pattern above ih =>
    rw [Stands] at stands
    split at stands
    · obtain ⟨part, rest, rfl, inside, fits⟩ := stands
      obtain ⟨names, rfl⟩ := ih inside
      have one : ∃ name, part = [name] := by
        rw [Fits] at fits
        split at fits
        · rw [if_neg (by simp)] at fits
          obtain ⟨name, same, -⟩ := fits
          exact ⟨name, same⟩
        · exact ⟨pattern, fits.1⟩
      obtain ⟨name, rfl⟩ := one
      exact ⟨name :: names, rfl⟩
    · exact ⟨pattern :: above, stands⟩

/-- There is one way at most to do so. -/
theorem Matched.unique {other : List (List (List Char))}
    (matched : tree.Matched false above basename path parts)
    (matched' : tree.Matched false above basename path other) : other = parts := by
  obtain ⟨names, rfl⟩ := matched.stands.singles
  obtain ⟨names', rfl⟩ := matched'.stands.singles
  obtain ⟨name, rfl, -⟩ := matched.entry
  obtain ⟨name', same, -⟩ := matched'.entry
  have same := (List.append_singleton_inj.mp same).1
  rw [place_singles, place_singles, List.reverse_inj] at same
  rw [same]

theorem nodup_glob (magic : hasMagic basename = true) (single : basename ≠ ['*', '*']) :
    (tree.glob false (above ++ [basename])).Nodup := by
  rw [List.nodup_iff_count_eq_one]
  intro path found
  obtain ⟨parts, matched⟩ := (mem_glob magic single).mp found
  exact (count_glob magic single).mpr ⟨parts, matched, fun other => matched.unique⟩

/-- Where a pattern stands for itself, each of its components with a `*`, `?` or `[` matches
itself. -/
theorem Stands.self (stands : tree.Stands false patterns (patterns.map ([·]))) :
    ∀ name ∈ patterns, hasMagic name = true → fnmatch name name = true := by
  induction patterns with
  | nil => exact fun name none => absurd none List.not_mem_nil
  | cons pattern above ih =>
    rw [Stands] at stands
    split at stands
    · obtain ⟨part, rest, same, inside, fits⟩ := stands
      obtain ⟨rfl, rfl⟩ := List.cons.inj same
      intro name member magic
      rcases List.mem_cons.mp member with rfl | later
      · rw [Fits, if_pos magic, if_neg (by simp)] at fits
        obtain ⟨_, same, -, -, -, matched⟩ := fits
        obtain rfl := (List.cons.inj same).1
        exact matched
      · exact ih inside name later magic
    · rename_i plain
      intro name member magic
      rw [List.any_eq_true] at plain
      exact absurd ⟨name, member, magic⟩ plain

end FileTree

end Lib

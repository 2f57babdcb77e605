import KernelSamples.Compdb.Database
import KernelSamples.Compdb.Eligibility
import KernelSamples.Compdb.OptionValues

/-! `main` from the tree to the document and to what it prints. -/

namespace KernelSamples.Compdb

open Lib

/-- `rejected` -/
def rejected (verdicts : List (Query × Bool)) : List Str :=
  ((verdicts.filter (!·.2)).map (·.1.1)).dedup.insertionSort (· ≤ ·)

/-- The lines that `main` prints. -/
def printed (entries : List Entry) (rejected : List Str) : List Str :=
  ("compile_commands.json: ".toList ++ Nat.toDigits 10 entries.length ++ " entries, ".toList ++
      Nat.toDigits 10 rejected.length ++ " gcc-only flags dropped".toList) ::
    rejected.map ("  dropped ".toList ++ ·)

/-- What a run of `main` leaves. -/
structure Written where
  document : Str
  printed : List Str

/-- A program can be given the flag and the target. -/
def passable (query : Query) : Bool :=
  !query.1.contains '\x00' && !(query.2.getD []).contains '\x00'

/-- What the pool's probes say. `clang` is what its runs say, where it is installed. -/
def tried (clang : Option (Str → Option Str → Bool)) (queries : List Query) :
    Except Failure (List (Query × Bool)) :=
  match clang with
  | some probe => if queries.all passable then .ok (verdicts probe queries) else .error .untried
  | none => if queries.isEmpty then .ok [] else .error .untried

/-- `iterate` is the order in which Python goes through the set `wanted`. -/
def main (iterate : List Query → List Query) (clang : Option (Str → Option Str → Bool))
    (tree : FileTree) (root : Root) : Except Failure Written := do
  let found ← select tree root
  let raw := found.map Prod.snd
  let verdicts ← tried clang (iterate (wanted raw))
  let entries := raw.map (entry verdicts)
  return ⟨document entries, printed entries (rejected verdicts)⟩

variable {iterate : List Query → List Query} {probe : Str → Option Str → Bool}
  {clang : Option (Str → Option Str → Bool)} {tree : FileTree} {root : Root}
  {records : List Record} {record : Record} {flag : Str}

/-- The order in which a set is gone through is all that may differ. -/
theorem lookup_perm {queries others : List Query} (perm : queries.Perm others) (query : Query) :
    (verdicts probe queries).lookup query = (verdicts probe others).lookup query := by
  rw [lookup_verdicts, lookup_verdicts]
  simp only [perm.mem_iff]

theorem keep_congr {known other : List (Query × Bool)}
    (agree : ∀ query, known.lookup query = other.lookup query) (words : List Str) :
    keep known record words = keep other record words := by
  induction words with
  | nil => rfl
  | cons word rest ih => rw [keep, keep, ih, agree]

theorem entry_congr {known other : List (Query × Bool)}
    (agree : ∀ query, known.lookup query = other.lookup query) :
    entry known record = entry other record := by
  rw [entry, entry, keep_congr agree]

theorem mem_rejected {queries : List Query} :
    flag ∈ rejected (verdicts probe queries) ↔
      ∃ triple, (flag, triple) ∈ queries ∧ probe flag triple = false := by
  simp only [rejected, List.mem_insertionSort, List.mem_dedup, List.mem_map, List.mem_filter,
    verdicts]
  constructor
  · intro found
    obtain ⟨_, ⟨⟨⟨word, triple⟩, member, rfl⟩, refused⟩, rfl⟩ := found
    exact ⟨triple, member, by simpa using refused⟩
  · intro found
    obtain ⟨triple, member, refused⟩ := found
    exact ⟨_, ⟨⟨_, member, rfl⟩, by simpa using refused⟩, rfl⟩

/-- No flag is named twice, and they are in order. -/
theorem pairwise_rejected (verdicts : List (Query × Bool)) :
    (rejected verdicts).Pairwise (· < ·) := by
  have ordered := List.pairwise_insertionSort (fun first second : Str => first ≤ second)
    ((verdicts.filter (!·.2)).map (·.1.1)).dedup
  have distinct : (rejected verdicts).Nodup :=
    (List.perm_insertionSort _ _).nodup_iff.mpr (List.nodup_dedup _)
  exact ordered.imp₂ (fun first second below different => lt_of_le_of_ne below different) distinct

theorem rejected_perm {queries others : List Query} (perm : queries.Perm others) :
    rejected (verdicts probe queries) = rejected (verdicts probe others) := by
  have first := pairwise_rejected (verdicts probe queries)
  have second := pairwise_rejected (verdicts probe others)
  refine List.Perm.eq_of_pairwise ?_ first second ?_
  · exact fun flag other _ _ below above => absurd above (lt_asymm below)
  · apply (List.perm_ext_iff_of_nodup (first.imp ne_of_lt) (second.imp ne_of_lt)).mpr
    intro flag
    simp only [mem_rejected, perm.mem_iff]

theorem pairwise_sorted (paths : List (List Str)) :
    (sorted paths).Pairwise fun first second => pathText first ≤ pathText second := by
  have total : Std.Total fun first second : List Str => pathText first ≤ pathText second :=
    ⟨fun first second => le_total _ _⟩
  have trans : IsTrans (List Str) fun first second => pathText first ≤ pathText second :=
    ⟨fun first second third => le_trans⟩
  exact List.pairwise_insertionSort _ paths

theorem sorted_perm {paths others : List (List Str)} (perm : paths.Perm others)
    (names : ∀ path ∈ paths, ∀ name ∈ path, EntryName name) : sorted paths = sorted others := by
  refine List.Perm.eq_of_pairwise ?_ (pairwise_sorted paths) (pairwise_sorted others) ?_
  · intro first second inPaths inOthers below above
    exact pathText_injective (names first (mem_sorted.mp inPaths))
      (names second (perm.mem_iff.mpr (mem_sorted.mp inOthers))) (le_antisymm below above)
  · exact (List.perm_insertionSort _ paths).trans
      (perm.trans (List.perm_insertionSort _ others).symm)

variable {other : FileTree}

theorem names_buildDirs (rootNames : ∀ name ∈ root.names, EntryName name) {bdir : List Str}
    (found : bdir ∈ buildDirs tree root) : ∀ name ∈ bdir, EntryName name := by
  have member := mem_sorted.mp (List.mem_of_mem_filter found)
  refine FileTree.names_glob (List.forall_mem_append.mpr ⟨rootNames, ?_⟩) member
  decide

theorem buildDirs_shuffled (rootNames : ∀ name ∈ root.names, EntryName name)
    (same : tree.Shuffled other) : buildDirs tree root = buildDirs other root := by
  have dirs : tree.isdir = other.isdir := funext fun path => same.isdir
  rw [buildDirs, buildDirs, dirs, sorted_perm same.glob]
  intro path found
  refine FileTree.names_glob (List.forall_mem_append.mpr ⟨rootNames, ?_⟩) found
  decide

theorem cmdFiles_shuffled {bdir : List Str} (names : ∀ name ∈ bdir, EntryName name)
    (same : tree.Shuffled other) : cmdFiles tree bdir = cmdFiles other bdir := by
  apply sorted_perm same.glob
  intro path found
  refine FileTree.names_glob (List.forall_mem_append.mpr ⟨names, ?_⟩) found
  decide

theorem files_shuffled (rootNames : ∀ name ∈ root.names, EntryName name)
    (same : tree.Shuffled other) : files tree root = files other root := by
  rw [files, files, ← buildDirs_shuffled rootNames same]
  apply List.flatMap_congr
  intro bdir found
  rw [cmdFiles_shuffled (names_buildDirs rootNames found) same]

theorem selectFrom_shuffled (same : tree.Shuffled other) (found : List Located) :
    selectFrom tree root found = selectFrom other root found := by
  have each : ∀ bdir cmdfile, selectFile tree root bdir cmdfile =
      selectFile other root bdir cmdfile := by
    intro bdir cmdfile
    rw [selectFile, selectFile, same.read, same.links]
  induction found with
  | nil => rfl
  | cons file rest ih => rw [selectFrom, selectFrom, each, ih]

/-- What comes of the verdicts does not depend on the order of the queries. -/
theorem tried_perm {queries others : List Query} (perm : queries.Perm others)
    (records : List Record) :
    ((tried clang queries).map fun known => (records.map (entry known), rejected known)) =
      (tried clang others).map fun known => (records.map (entry known), rejected known) := by
  cases clang with
  | some probe =>
    have entries : entry (verdicts probe queries) = entry (verdicts probe others) :=
      funext fun record => entry_congr fun query => lookup_perm perm query
    simp only [tried, perm.all_eq]
    split
    · simp only [Except.map, entries, rejected_perm perm]
    · rfl
  | none => simp only [tried, perm.isEmpty_eq]

/-- The document and what is printed depend neither on the order in which directories list their
entries nor on the order in which Python goes through the flags to try. -/
theorem main_order_free (file : Str) (same : tree.Shuffled other)
    {iterate again : List Query → List Query} (order : ∀ queries, (iterate queries).Perm queries)
    (reorder : ∀ queries, (again queries).Perm queries)
    (clang : Option (Str → Option Str → Bool)) :
    main iterate clang tree (rootOf file) = main again clang other (rootOf file) := by
  have selected : select tree (rootOf file) = select other (rootOf file) := by
    rw [select, select, files_shuffled (names_rootOf file) same, selectFrom_shuffled same]
  have perm : ∀ queries, (iterate queries).Perm (again queries) :=
    fun queries => (order queries).trans (reorder queries).symm
  have written : ∀ (found : List (Located × Record)) queries,
      (do
        let known ← tried clang queries
        return (⟨document ((found.map Prod.snd).map (entry known)),
          printed ((found.map Prod.snd).map (entry known)) (rejected known)⟩ : Written)) =
      ((tried clang queries).map fun known =>
        ((found.map Prod.snd).map (entry known), rejected known)).map fun both =>
          (⟨document both.1, printed both.1 both.2⟩ : Written) := by
    intro found queries
    cases tried clang queries <;> rfl
  rw [main, main, selected]
  congr 1
  funext found
  dsimp only
  rw [written, written, tried_perm (perm _)]

/-- The sample with a flag that clang does not take for the target of the host. -/
def flagTree : FileTree :=
  { rTree with
    contents := fun place =>
      if place = [['r'], ['x'], sampleBuild, sampleCmd] then
        some "savedcmd_m.o := gcc -mno-red-zone -c m.c\nsource_m.o := /r/x/m.c\n".toList
      else none }

def flagScript : Str := "/r/scripts/compdb.py".toList

/-- Each directory listed from its end. -/
def backwards (tree : FileTree) : FileTree :=
  { tree with
    names := fun place => (tree.names place).reverse
    distinct := fun place => List.nodup_reverse.mpr (tree.distinct place)
    entryNames := fun place name member => tree.entryNames place name (List.mem_reverse.mp member) }

theorem shuffled_backwards (tree : FileTree) : tree.Shuffled (backwards tree) :=
  ⟨rfl, rfl, rfl, rfl, fun _ => (List.reverse_perm _).symm⟩

theorem main_order_free_backwards :
    main id (some x86Only) flagTree (rootOf flagScript) =
      main List.reverse (some x86Only) (backwards flagTree) (rootOf flagScript) :=
  main_order_free flagScript (shuffled_backwards flagTree) (fun queries => .refl queries)
    List.reverse_perm (some x86Only)

theorem subset_candidates {skip : Bool} {words : List Str}
    (yielded : flag ∈ candidatesFrom skip words) : flag ∈ words := by
  induction words generalizing skip with
  | nil => exact yielded
  | cons word rest ih =>
    cases skip with
    | true => exact List.mem_cons_of_mem _ (ih yielded)
    | false =>
      rw [candidatesFrom_cons] at yielded
      rcases List.mem_append.mp yielded with here | later
      · split at here
        · rw [List.mem_singleton.mp here]
          exact List.mem_cons_self
        · exact absurd here List.not_mem_nil
      · exact List.mem_cons_of_mem _ (ih later)

/-- What an entry has of the recorded command, after the driver. -/
def Entry.kept (triple : Option Str) (entry : Entry) : List Str :=
  entry.arguments.drop (if truthy triple then 3 else 2)

/-- `main` goes through the build directories in the order of their paths, and in each through
the files in the order of theirs. -/
def Located.before (first second : Located) : Prop :=
  pathText first.1 < pathText second.1 ∨
    first.1 = second.1 ∧ pathText first.2 < pathText second.2

theorem strict_of_pairwise {paths : List (List Str)}
    (ordered : paths.Pairwise fun first second => pathText first ≤ pathText second)
    (distinct : paths.Nodup) (names : ∀ path ∈ paths, ∀ name ∈ path, EntryName name) :
    paths.Pairwise fun first second => pathText first < pathText second := by
  refine (ordered.and distinct).imp_of_mem ?_
  intro first second inFirst inSecond both
  refine lt_of_le_of_ne both.1 fun same => both.2 ?_
  exact pathText_injective (names first inFirst) (names second inSecond) same

theorem names_cmdFiles {bdir path : List Str} (names : ∀ name ∈ bdir, EntryName name)
    (found : path ∈ cmdFiles tree bdir) : ∀ name ∈ path, EntryName name := by
  refine FileTree.names_glob (List.forall_mem_append.mpr ⟨names, ?_⟩) (mem_sorted.mp found)
  decide

theorem pairwise_files (rootNames : ∀ name ∈ root.names, EntryName name)
    (plain : PlainNames tree root) : (files tree root).Pairwise Located.before := by
  rw [files, List.pairwise_flatMap]
  constructor
  · intro bdir found
    have build := (mem_buildDirs plain.above).mp found
    have names := names_buildDirs rootNames found
    rw [List.pairwise_map]
    refine (strict_of_pairwise (pairwise_sorted _) nodup_cmdFiles
      fun path inside => names_cmdFiles names inside).imp ?_
    exact fun below => .inr ⟨rfl, below⟩
  · refine (strict_of_pairwise ((pairwise_sorted _).filter _) (nodup_buildDirs plain.above)
      fun bdir found => names_buildDirs rootNames found).imp ?_
    intro first second below file inFirst other inSecond
    obtain ⟨_, _, rfl⟩ := List.mem_map.mp inFirst
    obtain ⟨_, _, rfl⟩ := List.mem_map.mp inSecond
    exact .inl below

theorem mem_taken_iff (rootNames : ∀ name ∈ root.names, EntryName name)
    (plain : PlainNames tree root) (collectable : Collectable tree root)
    (fine : ∀ file ∈ files tree root, ∃ record, selectFile tree root file.1 file.2 = .ok record)
    {file : Located} :
    file ∈ (files tree root).filter (fun file => (taken tree root file).isSome) ↔
      Eligible tree root file := by
  rw [List.mem_filter]
  constructor
  · intro both
    obtain ⟨member, added⟩ := both
    obtain ⟨entry, added⟩ := Option.isSome_iff_exists.mp added
    obtain ⟨settled, compiles, -⟩ := taken_some rootNames added
    rw [← locate_settled settled] at compiles
    exact ⟨(mem_files plain).mp member, compiles⟩
  · intro eligible
    have settled := collectable.settled file eligible
    have compiles := eligible.2
    rw [locate_settled settled] at compiles
    have member := (mem_files plain).mpr eligible.1
    obtain ⟨record, added⟩ := taken_of_compiles rootNames settled compiles (fine file member)
    exact ⟨member, by rw [added]; rfl⟩

theorem selectFile_fine_of_collectable (rootNames : ∀ name ∈ root.names, EntryName name)
    (plain : PlainNames tree root) (collectable : Collectable tree root) :
    ∀ file ∈ files tree root, ∃ record, selectFile tree root file.1 file.2 = .ok record := by
  intro file member
  have command := (mem_files plain).mp member
  refine (selectFile_fine rootNames).mpr ⟨collectable.legible file command, ?_⟩
  intro settled compiles
  rw [← locate_settled settled] at compiles
  exact collectable.splits file ⟨command, compiles⟩

/-- Whatever the order of the set, an entry is what its own record and the probe make of it. -/
theorem entry_rewritten {queries : List Query} (perm : queries.Perm (wanted records))
    (recorded : record ∈ records) (undashed : record.Undashed) :
    entry (verdicts probe queries) record = record.rewritten probe := by
  rw [entry_congr (lookup_perm perm)]
  exact entry_eq_rewritten (keep_eq_filterMap fun word inside =>
    verdict_eq recorded undashed inside)

/-- In a tree that can be collected there is one record for each eligible file and none for any
other, in the order of their paths. -/
theorem select_collectable (rootNames : ∀ name ∈ root.names, EntryName name)
    (plain : PlainNames tree root) (collectable : Collectable tree root) :
    ∃ found : List (Located × Record), select tree root = .ok found ∧
      (∀ entry ∈ found, entry.2.Of tree root entry.1) ∧
      (∀ wanted, wanted ∈ found.map Prod.fst ↔ Eligible tree root wanted) ∧
      (found.map Prod.fst).Pairwise Located.before := by
  have fine := selectFile_fine_of_collectable rootNames plain collectable
  have firsts := @map_fst_filterMap tree root (files tree root)
  refine ⟨(files tree root).filterMap (taken tree root), selectFrom_ok_iff.mpr ⟨fine, rfl⟩,
    ?_, ?_, ?_⟩
  · intro entry member
    obtain ⟨other, _, added⟩ := List.mem_filterMap.mp member
    obtain ⟨-, -, rfl, isOf, -⟩ := taken_some rootNames added
    exact isOf
  · intro wanted
    rw [firsts]
    exact mem_taken_iff rootNames plain collectable fine
  · rw [firsts]
    exact (pairwise_files rootNames plain).filter _

theorem not_mem_triple {char : Char} (absent : char ∉ record.driver) :
    char ∉ record.triple.getD [] := by
  have name : char ∉ basename record.driver := fun member =>
    absent ((List.rtakeWhile_suffix _ _).subset member)
  rw [Record.triple, tripleOf]
  split
  · exact fun member => name (List.mem_of_mem_take member)
  · exact List.not_mem_nil

/-- Words without a NUL can be tried. -/
theorem passable_wanted (whole : ∀ record ∈ records, ∀ word ∈ record.args, '\x00' ∉ word)
    {query : Query} (asked : query ∈ wanted records) : passable query = true := by
  obtain ⟨record, member, yielded, same⟩ := mem_wanted.mp asked
  have flag := whole record member _ (List.mem_cons_of_mem _ (subset_candidates yielded))
  have triple := not_mem_triple (whole record member _ List.mem_cons_self)
  rw [passable, same]
  simp [flag, triple]

/-- With clang installed `main` succeeds where what it selects can be split into words without a
NUL. -/
theorem main_ran {found : List (Located × Record)} (selected : select tree root = .ok found)
    (order : ∀ queries, (iterate queries).Perm queries)
    (whole : ∀ entry ∈ found, ∀ word ∈ entry.2.args, '\x00' ∉ word)
    (probe : Str → Option Str → Bool) :
    ∃ written, main iterate (some probe) tree root = .ok written ∧
      written.document = document ((found.map Prod.snd).map
        (entry (verdicts probe (iterate (wanted (found.map Prod.snd)))))) := by
  have passes : (iterate (wanted (found.map Prod.snd))).all passable = true := by
    rw [(order _).all_eq, List.all_eq_true]
    refine fun query asked => passable_wanted (fun record member => ?_) asked
    obtain ⟨entry, inside, rfl⟩ := List.mem_map.mp member
    exact whole entry inside
  let known := verdicts probe (iterate (wanted (found.map Prod.snd)))
  let entries := (found.map Prod.snd).map (entry known)
  refine ⟨⟨document entries, printed entries (rejected known)⟩, ?_, rfl⟩
  simp only [main, selected, bind, Except.bind, tried, if_pos passes]
  rfl

/-- In a tree that can be collected, and with clang installed, what `main` writes reads as one
entry for each eligible file and none for any other, in the order of their paths, and each is what
the command in its file and the probe make of it. Without clang it fails at the first option there
is to try. -/
theorem main_writes_eligible (file : Str) (plain : PlainNames tree (rootOf file))
    (collectable : Collectable tree (rootOf file))
    (undashed : ∀ wanted (record : Record), Eligible tree (rootOf file) wanted →
      record.Of tree (rootOf file) wanted → record.Undashed)
    (whole : ∀ wanted (record : Record), Eligible tree (rootOf file) wanted →
      record.Of tree (rootOf file) wanted → ∀ word ∈ record.args, '\x00' ∉ word)
    (order : ∀ queries, (iterate queries).Perm queries) (probe : Str → Option Str → Bool) :
    ∃ (written : Written) (found : List (Located × Record)),
      select tree (rootOf file) = .ok found ∧
      main iterate (some probe) tree (rootOf file) = .ok written ∧
      (wanted (found.map Prod.snd) ≠ [] →
        main iterate none tree (rootOf file) = .error .untried) ∧
      readDatabase written.document = some (found.map fun entry => entry.2.rewritten probe) ∧
      (∀ entry ∈ found, entry.2.Of tree (rootOf file) entry.1) ∧
      (∀ wanted, wanted ∈ found.map Prod.fst ↔ Eligible tree (rootOf file) wanted) ∧
      (found.map Prod.fst).Pairwise Located.before := by
  obtain ⟨found, selected, honest, listed, ordered⟩ :=
    select_collectable (names_rootOf file) plain collectable
  have eligible : ∀ entry ∈ found, Eligible tree (rootOf file) entry.1 :=
    fun entry member => (listed entry.1).mp (List.mem_map_of_mem member)
  obtain ⟨written, ran, documented⟩ := main_ran selected order (fun entry member =>
    whole entry.1 entry.2 (eligible entry member) (honest entry member)) probe
  refine ⟨written, found, selected, ran, ?_, ?_, honest, listed, ordered⟩
  · intro asked
    have some : (iterate (wanted (found.map Prod.snd))).isEmpty = false := by
      rw [(order _).isEmpty_eq]
      simpa using asked
    simp only [main, selected, bind, Except.bind, tried, some]
    rfl
  · rw [documented, readDatabase_document, List.map_map]
    refine congrArg _ (List.map_congr_left fun entry member => ?_)
    exact entry_rewritten (order _) (List.mem_map_of_mem member)
      (undashed entry.1 entry.2 (eligible entry member) (honest entry member))

theorem flagTree_plain : PlainNames flagTree (rootOf flagScript) := by
  apply plainNames_of_names (by decide)
  intro place name member
  simp only [flagTree, rTree, sampleTree] at member
  split_ifs at member <;> simp at member
  · rcases member with rfl | rfl <;> decide
  · rw [member]; decide
  · rw [member]; decide
  · rw [member]; decide

theorem flagTree_only {file : Located} (command : CommandFile flagTree (rootOf flagScript) file) :
    file = sampleFile ['r'] := by
  have found : files flagTree (rootOf flagScript) = [sampleFile ['r']] := by decide +kernel
  have member := (mem_files flagTree_plain).mpr command
  rw [found] at member
  exact List.mem_singleton.mp member

theorem flagTree_parsed : (flagTree.read (sampleFile ['r']).2).map parse =
    some (some "gcc -mno-red-zone -c m.c".toList, some "/r/x/m.c".toList) := by
  decide +kernel

theorem flagTree_split : (split "gcc -mno-red-zone -c m.c".toList).toOption =
    some ["gcc".toList, "-mno-red-zone".toList, "-c".toList, "m.c".toList] := by
  decide +kernel

theorem flagTree_collectable : Collectable flagTree (rootOf flagScript) := by
  constructor
  · intro file command
    rw [flagTree_only command]
    obtain ⟨text, read, saved⟩ := Option.map_eq_some_iff.mp flagTree_parsed
    refine ⟨text, read, ?_⟩
    intro cmd src parsed _
    rw [saved] at parsed
    obtain rfl := Option.some.inj (Prod.mk.inj parsed).2
    decide
  · intro file _
    refine ⟨by decide, by decide, ?_⟩
    intro above inside
    have names : (rootOf flagScript).names = [['r']] := by decide
    rw [names] at inside
    apply if_neg
    rintro rfl
    simp at inside
  · intro file eligible text cmd src read parsed
    obtain rfl := flagTree_only eligible.1
    have saved := flagTree_parsed
    rw [read, Option.map_some, parsed] at saved
    obtain rfl := Option.some.inj (Prod.mk.inj (Option.some.inj saved)).1
    exact ⟨"gcc".toList, ["-mno-red-zone".toList, "-c".toList, "m.c".toList], by decide +kernel⟩
  · intro file other eligible eligible' _
    rw [flagTree_only eligible.1, flagTree_only eligible'.1]

/-- What the only eligible file records. -/
theorem flagTree_record {wanted : Located} {record : Record}
    (isEligible : Eligible flagTree (rootOf flagScript) wanted)
    (isOf : record.Of flagTree (rootOf flagScript) wanted) :
    record.src = "/r/x/m.c".toList ∧
      record.args = ["gcc", "-mno-red-zone", "-c", "m.c"].map String.toList := by
  obtain ⟨text, cmd, read, parsed, divided⟩ := isOf.said
  obtain rfl := flagTree_only isEligible.1
  have saved := flagTree_parsed
  rw [read, Option.map_some, parsed] at saved
  obtain ⟨command, source⟩ := Prod.mk.inj (Option.some.inj saved)
  obtain rfl := Option.some.inj command
  have words := flagTree_split
  rw [divided] at words
  exact ⟨Option.some.inj source, Option.some.inj words⟩

theorem main_writes_eligible_flag :
    ∃ (written : Written) (found : List (Located × Record)),
      main List.reverse (some x86Only) flagTree (rootOf flagScript) = .ok written ∧
      main List.reverse none flagTree (rootOf flagScript) = .error .untried ∧
      readDatabase written.document = some (found.map fun entry => entry.2.rewritten x86Only) ∧
      ∀ wanted, wanted ∈ found.map Prod.fst ↔ Eligible flagTree (rootOf flagScript) wanted := by
  have queries : (select flagTree (rootOf flagScript)).toOption.map
      (fun found => wanted (found.map Prod.snd)) = some [("-mno-red-zone".toList, none)] := by
    decide +kernel
  obtain ⟨written, found, selected, ran, missing, database, -, eligible, -⟩ := main_writes_eligible
    flagScript flagTree_plain flagTree_collectable (by
      intro wanted record isEligible isOf
      obtain ⟨source, words⟩ := flagTree_record isEligible isOf
      have options : record.options = _ := (List.cons.inj words).2
      constructor
      · rw [source]
        decide
      · rw [options]
        decide) (by
      intro wanted record isEligible isOf
      rw [(flagTree_record isEligible isOf).2]
      decide) List.reverse_perm x86Only
  rw [selected] at queries
  have asked : wanted (found.map Prod.snd) = [("-mno-red-zone".toList, none)] :=
    Option.some.inj queries
  exact ⟨written, found, ran, missing (by rw [asked]; exact List.cons_ne_nil _ _), database,
    eligible⟩

end KernelSamples.Compdb

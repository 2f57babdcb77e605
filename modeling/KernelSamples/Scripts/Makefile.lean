import KernelSamples.Scripts.Build

/-! `make -j` with the `Makefile`: the samples, each by a run of `kmod.mk`, and what comes after
them. The key files of the signatures belong to no target: all samples may write them. -/

namespace KernelSamples.Scripts

open Lib

/-- The targets, the samples among them by their places in `SAMPLES`. -/
inductive Target (count : Nat) where
  | all
  | target
  | compdb
  | tags
  | cscope
  | sample (index : Fin count)
  deriving DecidableEq

variable {count : Nat}

def samples (count : Nat) : List (Target count) := (List.finRange count).map .sample

/-- What a target waits for, the order-only `target` among it. -/
def prerequisites : Target count → List (Target count)
  | .all => samples count ++ [.compdb, .tags, .cscope]
  | .compdb => samples count
  | .sample _ => [.target]
  | .target | .tags | .cscope => []

/-- What `scripts/compdb.py`, ctags and cscope write in the directory of the Makefile. -/
def outputs : Target count → List (List Char)
  | .compdb => ["compile_commands.json".toList, "compile_commands.json.tmp".toList]
  | .tags => ["tags".toList]
  | .cscope => ["cscope.out".toList, "cscope.in.out".toList, "cscope.po.out".toList]
  | .all | .target | .sample _ => []

/-- A sample whose directory has no `manifest.mk`, or one that lists none. -/
inductive ManifestError where
  | notFound (dir : List (List Char))
  | empty (dir : List (List Char))

def ManifestError.dir : ManifestError → List (List Char)
  | .notFound dir | .empty dir => dir

def ManifestError.message : ManifestError → List Char
  | .notFound dir =>
    ['/'].intercalate dir ++ "/manifest.mk: not found (listed in SAMPLE_DIRS)".toList
  | .empty dir => ['/'].intercalate dir ++ "/manifest.mk: samples is empty".toList

/-- `SAMPLES` from the manifests of `SAMPLE_DIRS`. -/
def importManifests (manifest : List (List Char) → Option (List (List Char))) :
    List (List (List Char)) → Except ManifestError (List (List (List Char)))
  | [] => .ok []
  | dir :: rest =>
    match manifest dir with
    | none => .error (.notFound dir)
    | some [] => .error (.empty dir)
    | some (name :: names) =>
      (importManifests manifest rest).map ((name :: names).map (fun name => dir ++ [name]) ++ ·)

/-- What the Makefile passes on to each run of `kmod.mk`, and what `sample.mk` sets there. -/
structure Pass where
  curdir : List (List Char)
  kdir : List Char
  arch : List Char
  crossCompile : List Char
  sign : Bool
  sampleMk : List (List Char) → SampleMk

/-- `SIGN_KEY` and `SIGN_CERT` are those that `kmod.mk` sets. -/
def Pass.kmod (pass : Pass) (sample : List (List Char)) : Kmod where
  curdir := pass.curdir
  sample := sample
  kdir := pass.kdir
  arch := pass.arch
  crossCompile := pass.crossCompile
  sign := pass.sign
  signKey := pass.curdir ++ ["MOK.priv".toList]
  signCert := pass.curdir ++ ["MOK.der".toList]
  sampleMk := pass.sampleMk sample

/-- The directories of `SAMPLE_DIRS`, each with the `samples` of its `manifest.mk`. -/
def manifests : List (List (List Char) × List (List Char)) :=
  [(["smp".toList, "percpu".toList], ["percpu_parallel".toList]),
    (["interrupts".toList, "hardirq".toList],
      ["hardirq".toList, "irq_none".toList, "disable_irq".toList]),
    (["interrupts".toList, "deferred".toList],
      ["tasklet".toList, "bh_workqueue".toList, "workqueue_sample".toList, "threaded_irq".toList,
        "timer_softirq".toList, "net_rx_softirq".toList]),
    (["interrupts".toList, "danger".toList],
      ["sleep_in_hardirq_danger".toList, "sleep_in_softirq_danger".toList]),
    (["interrupts".toList, "concurrency".toList], ["interrupt_competition".toList]),
    (["data_structure".toList], ["container_of".toList, "list".toList])]

def sampleDirs : List (List (List Char)) := manifests.map Prod.fst

/-- `sample.mk` of these directories. -/
def sampleMk (sample : List (List Char)) : SampleMk :=
  { SampleMk.unset with
    sampleRequiredConfigs :=
      if sample.dropLast = ["smp".toList, "percpu".toList] then ["CONFIG_SMP".toList]
      else if sample.dropLast = ["interrupts".toList, "hardirq".toList] ∨
          sample.dropLast = ["interrupts".toList, "concurrency".toList] then
        ["CONFIG_IRQ_SIM".toList]
      else if sample.dropLast = ["interrupts".toList, "danger".toList] then
        ["CONFIG_IRQ_SIM".toList, "CONFIG_DEBUG_FS".toList]
      else if sample.dropLast = ["interrupts".toList, "deferred".toList] then
        if sample.getLastD [] = "net_rx_softirq".toList then ["CONFIG_NETFILTER".toList]
        else if sample.getLastD [] ≠ "timer_softirq".toList then ["CONFIG_IRQ_SIM".toList]
        else []
      else [] }

def repositorySamples : List (List (List Char)) :=
  manifests.flatMap fun entry => entry.2.map fun name => entry.1 ++ [name]

section Rules

variable {Progress KbuildInput Point Input : Type}

/-- Where the recipe of a target stands. -/
def PointOf (Progress Point : Type) : Target count → Type
  | .sample _ => BuildPoint Progress
  | _ => Point

def InputOf (KbuildInput Input : Type) : Target count → Type
  | .sample _ => BuildInput KbuildInput
  | _ => Input

/-- The Makefile for these runs of `kmod.mk`. The recipes of the other targets are as given. -/
def makefile (kbuild : Fin count → Recipe (List (List Char)) (Option Node) Progress KbuildInput)
    (others : Target count → Recipe (List (List Char)) (Option Node) Point Input) (host : Host)
    (kmods : Fin count → Kmod) :
    Makefile (Target count) (List (List Char)) (Option Node) (PointOf Progress Point)
      (InputOf KbuildInput Input) where
  prerequisites := prerequisites
  recipe
    | .sample index => build (kbuild index) host (kmods index)
    | .all => others .all
    | .target => others .target
    | .compdb => others .compdb
    | .tags => others .tags
    | .cscope => others .cscope

/-- Where the recipe of a sample stands, and what it was given. -/
def samplePoint
    (state : Making (Target count) (List (List Char)) (Option Node) (PointOf Progress Point))
    (index : Fin count) : Option (BuildPoint Progress) :=
  state.point (.sample index)

def sampleInputs (index : Fin count)
    (events : List (MakeEvent (Target count) (InputOf KbuildInput Input))) :
    List (BuildInput KbuildInput) :=
  @Makefile.inputsOf _ (InputOf KbuildInput Input) _ (.sample index) events

/-- The key files of all samples. -/
def allKeyFiles (kmods : Fin count → Kmod) : List (List (List Char)) :=
  (List.finRange count).flatMap fun index => (kmods index).keyFiles

/-- What several samples write to. -/
def shared (kmods : Fin count → Kmod) (place : List (List Char)) : Bool :=
  (allKeyFiles kmods).contains place

/-- The places of a target. -/
def Own (curdir : List (List Char)) (kmods : Fin count → Kmod) :
    Target count → List (List Char) → Prop
  | .sample index => (kmods index).Owns
  | goal => fun place => ∃ name ∈ outputs goal, place = curdir ++ [name]

/-- What the other targets write. -/
def Foreign (curdir : List (List Char)) (kmods : Fin count → Kmod) (index : Fin count)
    (place : List (List Char)) : Prop :=
  ∃ goal ≠ .sample index, Own curdir kmods goal place

/-- What the Makefile and the samples see to: a sample is known by its directory and its module,
no directory of sources is inside a build directory, and the key files are none of what targets
make or read otherwise. -/
structure Apart (curdir : List (List Char)) (kmods : Fin count → Kmod) : Prop where
  sameCurdir : ∀ index, (kmods index).curdir = curdir
  distinct : ∀ first second, (kmods first).src = (kmods second).src →
    (kmods first).mod = (kmods second).mod → first = second
  outside : ∀ first second, ¬ (kmods first).bdir <+: (kmods second).src
  modules : ∀ index, '.' ∉ (kmods index).mod
  sources : ∀ index, '.' ∉ (kmods index).srcBase
  keys : ∀ index, ∀ place ∈ (kmods index).keyFiles, ∀ goal, ¬ Own curdir kmods goal place
  keySources : ∀ first second, (kmods first).cSource ∉ (kmods second).keyFiles

/-- kbuild works in the directory it is given, whatever other samples do; ctags, cscope and
`compdb.py` write their outputs. -/
structure Confined
    (kbuild : Fin count → Recipe (List (List Char)) (Option Node) Progress KbuildInput)
    (others : Target count → Recipe (List (List Char)) (Option Node) Point Input)
    (curdir : List (List Char)) (kmods : Fin count → Kmod) : Prop where
  below : ∀ index, (kbuild index).Writes ((kmods index).bdir <+: ·)
  sightless : ∀ index, (kbuild index).Blind
    fun place => Foreign curdir kmods index place ∨ place ∈ allKeyFiles kmods
  others : ∀ goal, (∀ index, goal ≠ .sample index) →
    (others goal).Writes fun place => ∃ name ∈ outputs goal, place = curdir ++ [name]

end Rules

section Places

variable {curdir : List (List Char)} {kmods : Fin count → Kmod} {kmod : Kmod}
  {first second index : Fin count} {base rest place : List (List Char)} {name : List Char}
  {goal : Target count}

theorem not_owns_below (outside : ¬ kmod.bdir <+: base)
    (names : ∀ name ∈ rest, ¬ ".build-".toList <+: name)
    (last : ∀ name, rest.getLast? = some name → ¬ ".ko".toList <:+ name) (nonempty : rest ≠ []) :
    ¬ kmod.Owns (base ++ rest) := by
  rintro (inside | module)
  · rcases List.prefix_or_prefix_of_prefix inside (List.prefix_append base rest) with
      above | ⟨tail, same⟩
    · exact outside above
    · have tailed : tail ≠ [] := by
        rintro rfl
        rw [List.append_nil] at same
        exact outside (same ▸ List.prefix_refl _)
      have front : tail <+: rest := by
        rw [← same] at inside
        exact (List.prefix_append_right_inj base).mp inside
      have named : tail.getLast tailed = ".build-".toList ++ kmod.mod := by
        have ends := congrArg List.getLast? same
        rw [Kmod.bdir, List.getLast?_append, List.getLast?_concat,
          List.getLast?_eq_some_getLast tailed] at ends
        exact Option.some.inj ends
      exact names _ (front.subset (List.getLast_mem tailed)) (named ▸ List.prefix_append _ _)
  · have ends := congrArg List.getLast? module
    rw [Kmod.ko, List.getLast?_append, List.getLast?_concat,
      List.getLast?_eq_some_getLast nonempty] at ends
    exact last _ (List.getLast?_eq_some_getLast nonempty)
      ((Option.some.inj ends) ▸ List.suffix_append _ _)

/-- No output of the Makefile's directory is named like a build directory or a module. -/
theorem output_names (named : name ∈ outputs goal) :
    ¬ ".build-".toList <+: name ∧ ¬ ".ko".toList <:+ name ∧ ¬ ".c".toList <:+ name ∧
      name ≠ "MOK.priv".toList ∧ name ≠ "MOK.der".toList := by
  cases goal with
  | compdb =>
    rcases List.mem_pair.mp named with rfl | rfl <;> decide
  | tags =>
    obtain rfl := List.mem_singleton.mp named
    decide
  | cscope =>
    simp only [outputs, List.mem_cons, List.not_mem_nil, or_false] at named
    rcases named with rfl | rfl | rfl <;> decide
  | all | target | sample index => cases named

theorem source_name {stem : List Char} (dotless : '.' ∉ stem) :
    ¬ ".build-".toList <+: stem ++ ".c".toList ∧ ¬ ".ko".toList <:+ stem ++ ".c".toList := by
  constructor
  · rintro ⟨tail, same⟩
    cases stem with
    | nil => simp at same
    | cons char chars =>
      have dot : '.' = char := (List.cons.inj same).1
      exact dotless (dot ▸ List.mem_cons_self)
  · rintro ⟨front, same⟩
    have ends := congrArg List.getLast? same
    simp at ends

theorem append_single_inj {name other : List Char} (same : base ++ rest = place ++ [name])
    (last : rest.getLast? = some other) : other = name := by
  have ends := congrArg List.getLast? same
  rw [List.getLast?_append, List.getLast?_concat, last] at ends
  exact Option.some.inj ends

/-- What lies below no build directory and is named like nothing that a target makes. -/
theorem not_foreign_below (outside : ∀ index, ¬ (kmods index).bdir <+: base)
    (names : ∀ name ∈ rest, ¬ ".build-".toList <+: name) {last : List Char}
    (ends : rest.getLast? = some last) (noModule : ¬ ".ko".toList <:+ last)
    (noOutput : ∀ goal : Target count, last ∉ outputs goal) :
    ¬ Foreign curdir kmods index (base ++ rest) := by
  rintro ⟨goal, other, owned⟩
  have nonempty : rest ≠ [] := by
    rintro rfl
    cases ends
  have isLast : ∀ name, rest.getLast? = some name → ¬ ".ko".toList <:+ name := by
    intro name found
    rw [ends, Option.some.injEq] at found
    exact found ▸ noModule
  cases goal with
  | sample second => exact not_owns_below (outside second) names isLast nonempty owned
  | all | target | compdb | tags | cscope =>
    obtain ⟨name, named, same⟩ := owned
    rw [append_single_inj same ends] at noOutput
    exact noOutput _ named

theorem not_above_module (apart : Apart curdir kmods) (first second : Fin count) :
    ¬ (kmods first).bdir <+: (kmods second).ko := by
  intro above
  rcases List.prefix_concat_iff.mp above with same | inside
  · have parts := List.append_inj' same rfl
    have name : ".build-".toList ++ (kmods first).mod = (kmods second).mod ++ ".ko".toList := by
      simpa using parts.2
    have dotless := apart.modules second
    cases mod : (kmods second).mod with
    | nil => simp [mod] at name
    | cons char chars =>
      rw [mod] at name dotless
      exact dotless ((List.cons.inj name).1 ▸ List.mem_cons_self)
  · exact apart.outside first second inside

theorem owns_apart (apart : Apart curdir kmods) (different : first ≠ second)
    (mine : (kmods first).Owns place) : ¬ (kmods second).Owns place := by
  have reach : ∀ first second, first ≠ second →
      (kmods first).bdir <+: (kmods second).bdir → False := by
    intro first second different above
    rcases List.prefix_concat_iff.mp above with same | inside
    · have parts := List.append_inj' same rfl
      refine different (apart.distinct first second parts.1 ?_)
      simpa using parts.2
    · exact apart.outside first second inside
  rintro (inside | module)
  · rcases mine with inside' | module'
    · rcases List.prefix_or_prefix_of_prefix inside inside' with above | above
      · exact reach second first (Ne.symm different) above
      · exact reach first second different above
    · exact not_above_module apart second first (module' ▸ inside)
  · rcases mine with inside' | module'
    · exact not_above_module apart first second (module ▸ inside')
    · have parts := List.append_inj' (module'.symm.trans module) rfl
      refine different (apart.distinct first second parts.1 ?_)
      simpa using parts.2

theorem own_not_foreign (apart : Apart curdir kmods) (mine : (kmods index).Owns place) :
    ¬ Foreign curdir kmods index place := by
  rintro ⟨goal, other, owned⟩
  cases goal with
  | sample second =>
    have different : index ≠ second := by
      rintro rfl
      exact other rfl
    exact owns_apart apart different mine owned
  | all | target | compdb | tags | cscope =>
    obtain ⟨name, named, rfl⟩ := owned
    have plain := output_names named
    refine not_owns_below ?_ ?_ ?_ (List.cons_ne_nil _ _) mine
    · intro above
      have shorter := above.length_le
      rw [Kmod.bdir, Kmod.src, apart.sameCurdir index] at shorter
      simp only [List.length_append, List.length_singleton] at shorter
      omega
    · intro other member
      exact List.mem_singleton.mp member ▸ plain.1
    · intro other last
      exact Option.some.inj last ▸ plain.2.1

theorem mem_allKeyFiles {kmods : Fin count → Kmod} :
    place ∈ allKeyFiles kmods ↔ ∃ index, place ∈ (kmods index).keyFiles := by
  simp [allKeyFiles]

theorem shared_iff {kmods : Fin count → Kmod} :
    shared kmods place = true ↔ place ∈ allKeyFiles kmods :=
  List.contains_iff_mem

theorem not_shared {kmods : Fin count → Kmod} (absent : place ∉ allKeyFiles kmods) :
    shared kmods place = false :=
  Bool.eq_false_iff.mpr fun reaches => absent (shared_iff.mp reaches)

theorem not_own_of_key (apart : Apart curdir kmods) (key : place ∈ allKeyFiles kmods)
    (goal : Target count) : ¬ Own curdir kmods goal place := by
  obtain ⟨index, member⟩ := mem_allKeyFiles.mp key
  exact apart.keys index place member goal

theorem clear_of_apart (apart : Apart curdir kmods) (index : Fin count) :
    (kmods index).Clear (Foreign curdir kmods index) := by
  refine ⟨fun place mine => own_not_foreign apart mine, ?_, ?_⟩
  · refine not_foreign_below (fun second => apart.outside second index) ?_ rfl ?_ ?_
    · intro name member
      exact List.mem_singleton.mp member ▸ (source_name (apart.sources index)).1
    · exact (source_name (apart.sources index)).2
    · intro goal named
      exact (output_names named).2.2.1 (List.suffix_append _ _)
  · rintro place key ⟨goal, -, owned⟩
    exact apart.keys index place key goal owned

theorem shares_of_apart (apart : Apart curdir kmods) (index : Fin count) :
    (kmods index).Shares (shared kmods) := by
  refine ⟨?_, ?_, ?_⟩
  · exact fun place key => shared_iff.mpr (mem_allKeyFiles.mpr ⟨index, key⟩)
  · exact fun place owned => not_shared fun key => not_own_of_key apart key (.sample index) owned
  · refine not_shared fun key => ?_
    obtain ⟨other, member⟩ := mem_allKeyFiles.mp key
    exact apart.keySources index other member

end Places

section Manifests

variable {manifest : List (List Char) → Option (List (List Char))}
  {dirs found : List (List (List Char))} {pass : Pass} {sample : List (List Char)}

theorem importManifests_ok (imported : importManifests manifest dirs = .ok found) :
    found = dirs.flatMap fun dir => ((manifest dir).getD []).map fun name => dir ++ [name] := by
  induction dirs generalizing found with
  | nil => exact (Except.ok.inj imported).symm
  | cons dir rest ih =>
    rw [importManifests] at imported
    cases listed : manifest dir with
    | none =>
      rw [listed] at imported
      cases imported
    | some names =>
      cases names with
      | nil =>
        rw [listed] at imported
        cases imported
      | cons name names =>
        simp only [listed] at imported
        cases others : importManifests manifest rest with
        | error why =>
          rw [others] at imported
          cases imported
        | ok later =>
          rw [others] at imported
          rw [List.flatMap_cons, listed, ← ih others]
          exact (Except.ok.inj imported).symm

/-- A manifest that is missing or empty is named in the message. -/
theorem importManifests_error {why : ManifestError}
    (failed : importManifests manifest dirs = .error why) :
    why.dir ∈ dirs ∧ (manifest why.dir).getD [] = [] ∧
      ['/'].intercalate why.dir <:+: why.message := by
  induction dirs with
  | nil => cases failed
  | cons dir rest ih =>
    rw [importManifests] at failed
    split at failed
    · rename_i absent
      obtain rfl := Except.error.inj failed
      exact ⟨List.mem_cons_self, by rw [ManifestError.dir, absent]; rfl, List.infix_append_left⟩
    · rename_i empty
      obtain rfl := Except.error.inj failed
      exact ⟨List.mem_cons_self, by rw [ManifestError.dir, empty]; rfl, List.infix_append_left⟩
    · cases later : importManifests manifest rest with
      | ok found =>
        rw [later] at failed
        cases failed
      | error other =>
        rw [later] at failed
        obtain rfl := Except.error.inj failed
        obtain ⟨member, none, named⟩ := ih later
        exact ⟨List.mem_cons_of_mem _ member, none, named⟩

theorem mem_samples (imported : importManifests manifest dirs = .ok found)
    (member : sample ∈ found) : ∃ dir ∈ dirs, ∃ names, manifest dir = some names ∧
      ∃ name ∈ names, sample = dir ++ [name] := by
  rw [importManifests_ok imported, List.mem_flatMap] at member
  obtain ⟨dir, inDirs, listed⟩ := member
  obtain ⟨name, named, same⟩ := List.mem_map.mp listed
  cases names : manifest dir with
  | none =>
    rw [names] at named
    cases named
  | some list =>
    rw [names] at named
    exact ⟨dir, inDirs, list, names, name, named, same.symm⟩

theorem nodup_samples (imported : importManifests manifest dirs = .ok found) (once : dirs.Nodup)
    (names : ∀ dir ∈ dirs, ∀ names, manifest dir = some names → names.Nodup) : found.Nodup := by
  rw [importManifests_ok imported, List.nodup_flatMap]
  constructor
  · intro dir member
    refine List.Nodup.map ?_ ?_
    · intro first second same
      simpa using same
    · cases listed : manifest dir with
      | none => exact List.nodup_nil
      | some list => exact names dir member list listed
  · refine once.imp ?_
    intro first second different sample inFirst inSecond
    obtain ⟨name, -, rfl⟩ := List.mem_map.mp inFirst
    obtain ⟨other, -, same⟩ := List.mem_map.mp inSecond
    exact different (List.append_inj' same rfl).1.symm

theorem kmod_src (dir : List (List Char)) (name : List Char) :
    (pass.kmod (dir ++ [name])).src = pass.curdir ++ dir := by
  simp [Pass.kmod, Kmod.src]

theorem kmod_mod (dir : List (List Char)) (name : List Char)
    (unset : ∀ sample, (pass.sampleMk sample).sampleModule = []) :
    (pass.kmod (dir ++ [name])).mod = name := by
  simp [Pass.kmod, Kmod.mod, Kmod.srcBase, unset]

/-- Samples that the manifests list once each, without names of their own for their modules, do
not get into each other's way. -/
theorem apart_of_manifests (imported : importManifests manifest dirs = .ok found)
    (once : dirs.Nodup)
    (names : ∀ dir ∈ dirs, ∀ names, manifest dir = some names →
      names.Nodup ∧ ∀ name ∈ names, '.' ∉ name)
    (unset : ∀ sample, (pass.sampleMk sample).sampleModule = [])
    (dirNames : ∀ dir ∈ dirs, ∀ name ∈ dir, ¬ ".build-".toList <+: name) :
    Apart pass.curdir fun index : Fin found.length => pass.kmod (found.get index) := by
  have parts (index : Fin found.length) : ∃ dir ∈ dirs, ∃ name, '.' ∉ name ∧
      found.get index = dir ++ [name] := by
    obtain ⟨dir, member, list, listed, name, named, same⟩ :=
      mem_samples imported (List.get_mem found index)
    exact ⟨dir, member, name, (names dir member list listed).2 name named, same⟩
  have bdirs (index : Fin found.length) : ∃ dir name,
      (pass.kmod (found.get index)).bdir = pass.curdir ++ (dir ++ [".build-".toList ++ name]) := by
    obtain ⟨dir, -, name, -, same⟩ := parts index
    refine ⟨dir, name, ?_⟩
    rw [same, Kmod.bdir, kmod_src, kmod_mod _ _ unset, List.append_assoc]
  have key : ∀ index, ∀ place ∈ (pass.kmod (found.get index)).keyFiles,
      ∃ name, place = pass.curdir ++ [name] ∧ (name = "MOK.priv".toList ∨ name = "MOK.der".toList) ∧
        ¬ ".build-".toList <+: name ∧ ¬ ".ko".toList <:+ name ∧ ¬ ".c".toList <:+ name := by
    intro _ place member
    rcases List.mem_pair.mp member with rfl | rfl
    · exact ⟨_, rfl, .inl rfl, by decide, by decide, by decide⟩
    · exact ⟨_, rfl, .inr rfl, by decide, by decide, by decide⟩
  refine ⟨fun _ => rfl, ?_, ?_, ?_, ?_, ?_, ?_⟩
  · intro first second sameSrc sameMod
    obtain ⟨dir, -, name, -, here⟩ := parts first
    obtain ⟨dir', -, name', -, here'⟩ := parts second
    rw [here, here', kmod_src, kmod_src, List.append_cancel_left_eq] at sameSrc
    rw [here, here', kmod_mod _ _ unset, kmod_mod _ _ unset] at sameMod
    have same : found.get first = found.get second := by rw [here, here', sameSrc, sameMod]
    exact (nodup_samples imported once fun dir member list listed =>
      (names dir member list listed).1).get_inj_iff.mp same
  · intro first second above
    obtain ⟨dir, name, bdir⟩ := bdirs first
    obtain ⟨dir', member, name', -, here⟩ := parts second
    rw [bdir, here, kmod_src, List.prefix_append_right_inj] at above
    exact dirNames dir' member _ (above.subset (List.mem_append_right _ List.mem_cons_self))
      (List.prefix_append _ _)
  · intro index
    obtain ⟨dir, -, name, dotless, here⟩ := parts index
    rwa [here, kmod_mod _ _ unset]
  · intro index
    obtain ⟨dir, -, name, dotless, here⟩ := parts index
    rw [here]
    simpa [Pass.kmod, Kmod.srcBase] using dotless
  · intro index place member goal owned
    obtain ⟨name, rfl, known, noBuild, noModule, -⟩ := key index place member
    cases goal with
    | sample second =>
      obtain ⟨dir, other, bdir⟩ := bdirs second
      refine not_owns_below ?_ ?_ ?_ (List.cons_ne_nil _ _) owned
      · intro above
        have shorter := above.length_le
        rw [bdir] at shorter
        simp only [List.length_append, List.length_singleton] at shorter
        omega
      · exact fun name member => List.mem_singleton.mp member ▸ noBuild
      · exact fun name last => Option.some.inj last ▸ noModule
    | all | target | compdb | tags | cscope =>
      obtain ⟨output, named, same⟩ := owned
      obtain rfl := (List.append_singleton_inj.mp same).2
      obtain ⟨-, -, -, noKey, noCert⟩ := output_names named
      exact known.elim noKey noCert
  · intro first second member
    obtain ⟨name, same, -, -, -, noSource⟩ := key second _ member
    exact noSource ((List.append_singleton_inj.mp same).2 ▸ List.suffix_append _ _)

theorem import_repository :
    importManifests (fun dir => manifests.lookup dir) sampleDirs = .ok repositorySamples := rfl

/-- The samples of the repository, wherever it is. -/
theorem repository_apart (same : pass.sampleMk = sampleMk) :
    Apart pass.curdir fun index : Fin repositorySamples.length =>
      pass.kmod (repositorySamples.get index) := by
  refine apart_of_manifests import_repository (by decide) ?_ (fun sample => by rw [same]; rfl)
    (by decide)
  intro dir member names listed
  have all : ∀ dir ∈ sampleDirs, ∀ names ∈ manifests.lookup dir,
      names.Nodup ∧ ∀ name ∈ names, '.' ∉ name := by decide
  exact all dir member names listed

end Manifests

section Trial

/-- A kbuild that only links the module. -/
def linkOnly (kmod : Kmod) : Recipe (List (List Char)) (Option Node) Bool Unit where
  start := false
  step through tree _ :=
    if through then none
    else some (true, Function.update tree kmod.linked (some (.file "ELF".toList)))
  outcome through := if through then some true else none
  halted {point succeeded} through store input := by
    cases point with
    | false => cases through
    | true => rfl

/-- A recipe that does nothing. -/
def idle : Recipe (List (List Char)) (Option Node) Unit Unit where
  start := ()
  step _ _ _ := none
  outcome _ := some true
  halted _ _ _ := rfl

def sortByInsertion : VersionSort where
  sort lines := lines.insertionSort fun first second => components first ≤ components second
  orders versions := by
    refine ⟨versions.insertionSort fun first second => first ≤ second, ?_,
      List.perm_insertionSort _ _, List.pairwise_insertionSort _ versions⟩
    refine (List.map_insertionSort _ _ _ _ ?_).symm
    intro first _ second _
    rw [components_dotted, components_dotted]

/-- A kernel tree that may have debugfs. -/
def trialKernel (debugFs : List Char) : KernelTree where
  makefile := true
  dotConfig := some ("CONFIG_SMP=y\nCONFIG_NETFILTER=y\nCONFIG_IRQ_SIM=m\n".toList ++ debugFs)
  kernelRelease := some "6.12.1\n".toList
  signFile := true

def trialHost (debugFs : List Char) : Host where
  uname := "x86_64".toList
  command name := name = "openssl".toList
  kernelTree _ := trialKernel debugFs
  versionSort := sortByInsertion
  brokenQuotes := id
  signs key cert _ signature := key = cert ∧ signature = key

/-- The kernel has what all samples need. -/
def fullHost : Host := trialHost "CONFIG_DEBUG_FS=y\n".toList

/-- The repository in `/r`. -/
def trialPass : Pass :=
  ⟨["r".toList], "/lib/modules/6.12.1/build".toList, [], [], true, sampleMk⟩

def trialKmods (index : Fin repositorySamples.length) : Kmod :=
  trialPass.kmod (repositorySamples.get index)

def trialTree : Tree := fun place =>
  if ".c".toList.isSuffixOf (place.getLastD []) then some (.file []) else none

abbrev trial (host : Host) := makefile (fun index => linkOnly (trialKmods index))
  (fun _ : Target repositorySamples.length => idle) host trialKmods

theorem trial_apart : Apart ["r".toList] trialKmods := @repository_apart trialPass rfl

theorem trial_confined : Confined (fun index => linkOnly (trialKmods index))
    (fun _ : Target repositorySamples.length => idle) ["r".toList] trialKmods := by
  refine ⟨?_, ?_, ?_⟩
  · intro index point tree input point' tree' taken place apart
    cases point with
    | true => cases taken
    | false =>
      cases taken
      apply Function.update_of_ne
      rintro rfl
      exact apart (List.prefix_append _ _)
  · intro index point tree input point' tree' other agrees taken
    cases point with
    | true => cases taken
    | false =>
      cases taken
      exact ⟨_, rfl, update_agrees agrees _ _⟩
  · intro goal _ point tree input point' tree' taken
    cases taken

/-- One step of each of these samples. -/
def each (indices : List (Fin repositorySamples.length)) (input : BuildInput Unit) :
    List (MakeEvent (Target repositorySamples.length) (InputOf Unit Unit)) :=
  indices.map fun index => .step (.sample index) input

/-- All these samples side by side, up to the start of kbuild. -/
def sideBySide (indices : List (Fin repositorySamples.length)) :
    List (MakeEvent (Target repositorySamples.length) (InputOf Unit Unit)) :=
  .start .target :: indices.map (fun index => .start (.sample index)) ++
    (List.replicate 6 .go).flatMap (each indices)

/-- The rest of their recipes, where no key file is there. -/
def toTheEnd (indices : List (Fin repositorySamples.length)) :
    List (MakeEvent (Target repositorySamples.length) (InputOf Unit Unit)) :=
  [.go, .kbuild (), .go, .go, .go, .go, .go, .go, .wrote "pair".toList, .wrote "pair".toList,
    .signed "pair".toList].flatMap (each indices)

/-- The same with both of them. -/
def withKeys (indices : List (Fin repositorySamples.length)) :
    List (MakeEvent (Target repositorySamples.length) (InputOf Unit Unit)) :=
  [.go, .kbuild (), .go, .go, .go, .go, .go, .go, .signed "pair".toList].flatMap (each indices)

def irqNone : Fin repositorySamples.length := ⟨2, by decide⟩

def sleepInHardirq : Fin repositorySamples.length := ⟨10, by decide⟩

def sleepInSoftirq : Fin repositorySamples.length := ⟨11, by decide⟩

def dangerSamples : List (Fin repositorySamples.length) := [sleepInHardirq, sleepInSoftirq]

def allSamples : List (Fin repositorySamples.length) := List.finRange repositorySamples.length

theorem trial_run (host : Host) (tree : Tree)
    (events : List (MakeEvent (Target repositorySamples.length) (InputOf Unit Unit)))
    (check : Making (Target repositorySamples.length) (List (List Char)) (Option Node)
      (PointOf Bool Unit) → Bool)
    (passes : (((trial host).parallel tree).run ((trial host).parallel tree).initial events).any
      check = true) :
    ∃ state, ((trial host).parallel tree).run ((trial host).parallel tree).initial events =
      some state ∧ check state = true :=
  (Option.any_eq_true _ _).mp passes

end Trial

section Runs

variable {Progress KbuildInput Point Input : Type} {host : Host}
  {kbuild : Fin count → Recipe (List (List Char)) (Option Node) Progress KbuildInput}
  {others : Target count → Recipe (List (List Char)) (Option Node) Point Input}
  {curdir : List (List Char)} {kmods : Fin count → Kmod} {start : Tree} {index : Fin count}
  {state : Making (Target count) (List (List Char)) (Option Node) (PointOf Progress Point)}
  {events : List (MakeEvent (Target count) (InputOf KbuildInput Input))}
  {goal : Target count}

theorem other_writes (confined : Confined kbuild others curdir kmods)
    (plain : ∀ index, goal ≠ .sample index) :
    ((makefile kbuild others host kmods).recipe goal).Writes (Own curdir kmods goal) := by
  cases goal with
  | sample index => exact absurd rfl (plain index)
  | all | target | compdb | tags | cscope => exact confined.others _ plain

theorem recipe_writes (confined : Confined kbuild others curdir kmods) (goal : Target count) :
    ((makefile kbuild others host kmods).recipe goal).Writes
      fun place => Own curdir kmods goal place ∨ place ∈ allKeyFiles kmods := by
  intro point tree input point' tree' taken place apart
  by_cases sample : ∃ index, goal = .sample index
  · obtain ⟨index, rfl⟩ := sample
    refine build_writes (confined.below index) taken place fun written => apart ?_
    exact written.imp id fun key => mem_allKeyFiles.mpr ⟨index, key⟩
  · exact other_writes confined (not_exists.mp sample) taken place fun output => apart (.inl output)

/-- kbuild sees nothing of what it does not write. -/
theorem kbuild_blind (apart : Apart curdir kmods) (confined : Confined kbuild others curdir kmods)
    (index : Fin count) {fewer : List (List Char) → Prop}
    (less : ∀ place, fewer place → Foreign curdir kmods index place ∨ place ∈ allKeyFiles kmods) :
    (kbuild index).Blind fewer := by
  refine Recipe.Blind.narrow (confined.sightless index) (confined.below index) less ?_
  rintro place (away | key) - inside
  · exact own_not_foreign apart (.inl inside) away
  · exact not_own_of_key apart key (.sample index) (.inl inside)

theorem recipe_blind (apart : Apart curdir kmods) (confined : Confined kbuild others curdir kmods)
    (index : Fin count) : ((makefile kbuild others host kmods).recipe (.sample index)).Blind
      (Foreign curdir kmods index) :=
  build_blind (clear_of_apart apart index) (kbuild_blind apart confined index fun _ => .inl)

/-- A sample's recipe gets as far as it does among others that write to the key files what is
there in the run, and makes the same of its places. -/
theorem sample_among (apart : Apart curdir kmods) (confined : Confined kbuild others curdir kmods)
    (index : Fin count)
    (onward : ((makefile kbuild others host kmods).parallel start).run
      ((makefile kbuild others host kmods).parallel start).initial events = some state) :
    ∃ moves tree, moves.filterMap Recipe.Move.input = sampleInputs index events ∧
      (∀ seen, .others seen ∈ moves → ∃ earlier,
        ((makefile kbuild others host kmods).parallel start).Reachable earlier ∧
          earlier.store = seen) ∧
      ((build (kbuild index) host (kmods index)).among (shared kmods) start).run
          ((build (kbuild index) host (kmods index)).among (shared kmods) start).initial moves =
        some ((samplePoint state index).getD .preflight, tree) ∧
      ∀ place, (kmods index).Owns place → tree place = state.store place := by
  have covered : ∀ other ≠ Target.sample index, ∀ place,
      Own curdir kmods other place ∨ place ∈ allKeyFiles kmods →
        Foreign curdir kmods index place ∨ shared kmods place = true := by
    intro other different place written
    exact written.imp (fun owned => ⟨other, different, owned⟩) shared_iff.mpr
  obtain ⟨moves, tree, inputs, honest, among, agrees⟩ := Makefile.recipe_among
    (fun other _ => recipe_writes confined other) covered (recipe_blind apart confined index) onward
  exact ⟨moves, tree, inputs, honest, among, fun place mine =>
    agrees place (own_not_foreign apart mine) ((shares_of_apart apart index).own place mine)⟩

/-- Each sample has next to its source what it has copied there. -/
theorem copied_reached (apart : Apart curdir kmods) (confined : Confined kbuild others curdir kmods)
    (reached : ((makefile kbuild others host kmods).parallel start).Reachable state)
    {point : BuildPoint Progress} (here : samplePoint state index = some point) :
    (kmods index).Copied host state.store point := by
  obtain ⟨events, onward⟩ := reached
  obtain ⟨moves, tree, -, -, among, agrees⟩ := sample_among apart confined index onward
  rw [here] at among
  exact (copied_run (shares_of_apart apart index) among).congr fun place mine =>
    (agrees place mine).symm

theorem samplePoint_moved
    (state : Making (Target count) (List (List Char)) (Option Node) (PointOf Progress Point))
    (index : Fin count) (point : BuildPoint Progress) (store : Tree) :
    samplePoint ⟨Function.update state.point (.sample index) (some point), store⟩ index =
      some point :=
  Function.update_self ..

theorem samplePoint_other
    (state : Making (Target count) (List (List Char)) (Option Node) (PointOf Progress Point))
    (different : goal ≠ .sample index) (point : Option (PointOf Progress Point goal))
    (store : Tree) :
    samplePoint ⟨Function.update state.point goal point, store⟩ index = samplePoint state index :=
  Function.update_of_ne different.symm ..

theorem samples_built
    (reached : ((makefile kbuild others host kmods).parallel start).Reachable state)
    (begun : state.point .compdb ≠ none ∨ state.point .all ≠ none) (index : Fin count) :
    samplePoint state index = some .built := by
  have listed : .sample index ∈ samples count :=
    List.mem_map.mpr ⟨index, List.mem_finRange index, rfl⟩
  have made : (makefile kbuild others host kmods).made state (.sample index) = true := by
    rcases begun with compdb | all
    · exact Makefile.started_after reached .compdb compdb _ listed
    · exact Makefile.started_after reached .all all _ (List.mem_append_left _ listed)
  obtain ⟨point, here, through⟩ := Makefile.made_iff.mp made
  rw [samplePoint, here]
  cases point with
  | built => rfl
  | _ => cases through

/-- `compdb.py` and what needs all targets start when every sample is built, and nothing changes
the build directories and the modules from then on. -/
theorem compdb_follows_builds (apart : Apart curdir kmods)
    (confined : Confined kbuild others curdir kmods)
    (reached : ((makefile kbuild others host kmods).parallel start).Reachable state)
    (begun : state.point .compdb ≠ none ∨ state.point .all ≠ none) (index : Fin count) :
    samplePoint state index = some .built ∧
    ∀ later last, ((makefile kbuild others host kmods).parallel start).run state later =
      some last → ∀ place, (kmods index).Owns place → last.store place = state.store place := by
  have built := samples_built reached begun index
  refine ⟨built, fun later last onward place mine => ?_⟩
  have made : (makefile kbuild others host kmods).made state (.sample index) = true :=
    Makefile.made_iff.mpr ⟨.built, built, rfl⟩
  refine Makefile.made_settled (fun other _ => recipe_writes confined other) ?_ made onward
  rintro other different (owned | key)
  · exact own_not_foreign apart mine ⟨other, different, owned⟩
  · exact not_own_of_key apart key (.sample index) mine

theorem compdb_follows_builds_side_by_side :
    ∃ state, ((trial fullHost).parallel trialTree).Reachable state ∧ state.point .compdb ≠ none ∧
      samplePoint state irqNone = some .built := by
  obtain ⟨state, onward, begun⟩ := trial_run fullHost trialTree
    (sideBySide allSamples ++ toTheEnd allSamples ++ [.start .compdb])
    (fun state => (state.point .compdb).isSome) (by decide +kernel)
  have started := Option.isSome_iff_ne_none.mp begun
  exact ⟨state, ⟨_, onward⟩, started,
    (compdb_follows_builds trial_apart trial_confined ⟨_, onward⟩ (.inl started) irqNone).1⟩

end Runs

end KernelSamples.Scripts

import KernelSamples.Lib.Make
import KernelSamples.Lib.Places
import KernelSamples.Scripts.Preflight

/-! `scripts/kmod.mk` for one sample: its variables, the preflight and the recipes of `build`, with
`sign-module.sh` at its end, and `clean`. Places are absolute, with no symbolic link on the way. The
kernel tree is no part of the tree that the builds work on: it is read through `KDIR`. -/

namespace KernelSamples.Scripts

open Lib

inductive Node where
  | directory
  | file (text : List Char)
  | symlink (target : List (List Char))
  deriving DecidableEq

abbrev Tree := List (List Char) → Option Node

/-- What `sample.mk` may set; a variable that it does not set is empty. -/
structure SampleMk where
  sampleModule : List Char
  sampleObjs : List (List Char)
  sampleSupportedArch : List (List Char)
  sampleRequiredConfigs : List (List Char)
  sampleMinKver : List Char
  sampleMaxKver : List Char

/-- What `kmod.mk` sets before it includes `sample.mk`. -/
def SampleMk.unset : SampleMk := ⟨[], [], [], [], "6.12".toList, []⟩

/-- A run of `kmod.mk` in the directory `curdir`. `SIGN_KEY` and `SIGN_CERT` are given by the places
that they lead to. -/
structure Kmod where
  curdir : List (List Char)
  sample : List (List Char)
  kdir : List Char
  arch : List Char
  crossCompile : List Char
  sign : Bool
  signKey : List (List Char)
  signCert : List (List Char)
  sampleMk : SampleMk

/-- What is found in `KDIR`, which may be a symbolic link. No build changes it. -/
structure KernelTree where
  makefile : Bool
  dotConfig : Option (List Char)
  kernelRelease : Option (List Char)
  signFile : Bool

/-- The machine that `kmod.mk` runs on. `signs` says what `sign-file` may append to a module, given
the texts of the key, of the certificate and of the module. -/
structure Host where
  uname : List Char
  command : List Char → Bool
  kernelTree : List Char → KernelTree
  versionSort : VersionSort
  brokenQuotes : List Char → List Char
  signs : List Char → List Char → List Char → List Char → Bool

/-- `$(patsubst before%after,replacement,word)`, or without a `%` where there is no `after`. -/
def patsubst (pattern : List Char × Option (List Char)) (replacement word : List Char) :
    List Char :=
  match pattern with
  | (whole, none) => if word = whole then replacement else word
  | (before, some after) =>
    if before.isPrefixOf word && after.isSuffixOf (word.drop before.length) then replacement
    else word

/-- What `uname -m` calls a machine, by the name that kbuild has for it. -/
def archNames : List ((List Char × Option (List Char)) × List Char) :=
  [((['i'], some "86".toList), "x86".toList),
    (("x86_64".toList, none), "x86".toList),
    (("aarch64".toList, none), "arm64".toList),
    (("armv".toList, some []), "arm".toList),
    (("riscv".toList, some []), "riscv".toList),
    (("ppc64le".toList, none), "powerpc".toList),
    (("ppc".toList, some []), "powerpc".toList),
    (("s390x".toList, none), "s390".toList)]

def effArch (arch uname : List Char) : List Char :=
  if arch ≠ [] then arch
  else archNames.foldl (fun word rule => patsubst rule.1 rule.2 word) uname

namespace Kmod

variable (kmod : Kmod)

def src : List (List Char) := kmod.curdir ++ kmod.sample.dropLast

def srcBase : List Char := kmod.sample.getLastD []

def mod : List Char :=
  if kmod.sampleMk.sampleModule = [] then kmod.srcBase else kmod.sampleMk.sampleModule

def bdir : List (List Char) := kmod.src ++ [".build-".toList ++ kmod.mod]

/-- `.o=.c` -/
def sourceOf (object : List Char) : List Char :=
  if ".o".toList.isSuffixOf object then object.dropLast ++ ['c'] else object

def srcs : List (List Char) :=
  if kmod.sampleMk.sampleObjs = [] then [kmod.srcBase ++ ".c".toList]
  else kmod.sampleMk.sampleObjs.map sourceOf

def modObjs : List (List Char) :=
  if kmod.sampleMk.sampleObjs ≠ [] then kmod.sampleMk.sampleObjs
  else if kmod.srcBase ≠ kmod.mod then [kmod.srcBase ++ ".o".toList]
  else []

/-- The module that kbuild links, and its copy next to the source. -/
def linked : List (List Char) := kmod.bdir ++ [kmod.mod ++ ".ko".toList]

def ko : List (List Char) := kmod.src ++ [kmod.mod ++ ".ko".toList]

def objM : List Char := "obj-m := ".toList ++ kmod.mod ++ ".o\n".toList

def objsLine : List Char :=
  if kmod.modObjs = [] then []
  else kmod.mod ++ "-objs := ".toList ++ [' '].intercalate kmod.modObjs ++ ['\n']

def sampleText : List Char := ['/'].intercalate kmod.sample

/-- The source of a sample without `SAMPLE_OBJS`. -/
def cSource : List (List Char) := kmod.src ++ [kmod.srcBase ++ ".c".toList]

def keyFiles : List (List (List Char)) := [kmod.signKey, kmod.signCert]

end Kmod

/-- Where the preflight stops with `$(error)`. -/
inductive Stop where
  | sampleNotSet
  | noSource (sample srcBase : List Char)
  | noKernelTree (kdir : List Char)
  | noCrossCompiler (crossCompile : List Char)
  | unsupportedArch (sample : List Char) (supported : List (List Char)) (effArch : List Char)
  | missingConfigs (sample kdir : List Char) (missing : List (List Char))
  | version (refusal : Refusal)
  deriving DecidableEq

def Stop.message : Stop → List Char
  | .sampleNotSet => "SAMPLE is not set".toList
  | .noSource sample srcBase =>
    sample ++ ": expected module source ".toList ++ srcBase ++
      ".c (set SAMPLE_OBJS in sample.mk)".toList
  | .noKernelTree kdir =>
    "kernel build tree not found: KDIR=".toList ++ kdir ++ " (set KVER= or KDIR=)".toList
  | .noCrossCompiler crossCompile =>
    "cross compiler not found: ".toList ++ crossCompile ++ "gcc not in PATH".toList
  | .unsupportedArch sample supported effArch =>
    sample ++ " supports ARCH in [".toList ++ [' '].intercalate supported ++
      "] (kbuild ARCH names); effective arch is ".toList ++ effArch
  | .missingConfigs sample kdir missing =>
    sample ++ ": required kernel configs not enabled in ".toList ++ kdir ++ ": ".toList ++
      [' '].intercalate missing
  | .version refusal => refusal.message

def Tree.text (tree : Tree) (place : List (List Char)) : Option (List Char) :=
  match tree place with
  | some (.file text) => some text
  | _ => none

/-- `grep -hs '^config=[ym]'` prints a line of the `.config`. -/
def enabled (dotConfig : Option (List Char)) (config : List Char) : Bool :=
  ((dotConfig.getD []).splitOn '\n').any fun line =>
    (config ++ "=y".toList).isPrefixOf line || (config ++ "=m".toList).isPrefixOf line

def missing (dotConfig : Option (List Char)) (configs : List (List Char)) : List (List Char) :=
  configs.filter fun config => !enabled dotConfig config

def preflight (host : Host) (kmod : Kmod) (tree : Tree) : Except Stop Unit :=
  let kernelTree := host.kernelTree kmod.kdir
  let arch := effArch kmod.arch host.uname
  let absent := missing kernelTree.dotConfig kmod.sampleMk.sampleRequiredConfigs
  if kmod.sample = [] then .error .sampleNotSet
  else if kmod.sampleMk.sampleObjs = [] ∧ tree kmod.cSource = none then
    .error (.noSource kmod.sampleText kmod.srcBase)
  else if kernelTree.makefile = false then
    .error (.noKernelTree kmod.kdir)
  else if kmod.crossCompile ≠ [] ∧ host.command (kmod.crossCompile ++ "gcc".toList) = false then
    .error (.noCrossCompiler kmod.crossCompile)
  else if kmod.sampleMk.sampleSupportedArch ≠ [] ∧
      kmod.sampleMk.sampleSupportedArch.contains arch = false then
    .error (.unsupportedArch kmod.sampleText kmod.sampleMk.sampleSupportedArch arch)
  else if absent ≠ [] then
    .error (.missingConfigs kmod.sampleText kmod.kdir absent)
  else
    (versionPreflight host.versionSort host.brokenQuotes kmod.sampleText
      kmod.sampleMk.sampleMinKver kmod.sampleMk.sampleMaxKver kernelTree.kernelRelease
      ).mapError .version

/-- Where the recipe of `build` stands. -/
inductive BuildPoint (Progress : Type) where
  | preflight
  | stopped (why : Stop)
  | mkdir
  | link (rest : List (List Char))
  | objM
  | objs
  | make
  | kbuild (progress : Progress)
  | copy
  | copying (text : List Char)
  | testTool
  | testKey
  | testCert
  | findOpenssl
  | writeKey
  | writeCert
  | sign
  | built
  | failed
  deriving DecidableEq

/-- The next command goes on or fails, kbuild takes a step, `openssl` writes a file, `sign-file`
appends a signature, or the build is killed. -/
inductive BuildInput (KbuildInput : Type) where
  | go
  | fails
  | kbuild (input : KbuildInput)
  | wrote (text : List Char)
  | signed (signature : List Char)
  | killed
  deriving DecidableEq

section Build

variable {Progress KbuildInput : Type}

/-- The next command, where it does not fail. Where the source writes through a symbolic link or
into a directory that stands in the place of a file, there is no step. -/
def buildGoes (kbuild : Recipe (List (List Char)) (Option Node) Progress KbuildInput)
    (host : Host) (kmod : Kmod) (tree : Tree) :
    BuildPoint Progress → Option (BuildPoint Progress × Tree)
  | .preflight =>
    match preflight host kmod tree with
    | .error why => some (.stopped why, tree)
    | .ok () => some (.mkdir, tree)
  | .mkdir =>
    match tree kmod.bdir with
    | none => some (.link kmod.srcs, Function.update tree kmod.bdir (some .directory))
    | some .directory => some (.link kmod.srcs, tree)
    | some (.file _) => some (.failed, tree)
    | some (.symlink _) => none
  | .link [] => some (.objM, tree)
  | .link (c :: rest) =>
    if tree (kmod.bdir ++ [c]) = some .directory then none
    else some (.link rest,
      Function.update tree (kmod.bdir ++ [c]) (some (.symlink (kmod.src ++ [c]))))
  | .objM =>
    match tree (kmod.bdir ++ ["Kbuild".toList]) with
    | none | some (.file _) =>
      some (.objs, Function.update tree (kmod.bdir ++ ["Kbuild".toList]) (some (.file kmod.objM)))
    | _ => none
  | .objs =>
    match tree (kmod.bdir ++ ["Kbuild".toList]) with
    | some (.file text) =>
      some (.make, Function.update tree (kmod.bdir ++ ["Kbuild".toList])
        (some (.file (text ++ kmod.objsLine))))
    | _ => none
  | .make => some (.kbuild kbuild.start, tree)
  | .kbuild progress =>
    match kbuild.outcome progress with
    | some true => some (.copy, tree)
    | some false => some (.failed, tree)
    | none => none
  | .copy =>
    match tree kmod.linked, tree kmod.ko with
    | some (.file text), none | some (.file text), some (.file _) =>
      some (.copying text, Function.update tree kmod.ko (some (.file [])))
    | none, _ => some (.failed, tree)
    | _, _ => none
  | .copying text =>
    some (if kmod.sign then .testTool else .built,
      Function.update tree kmod.ko (some (.file text)))
  | .testTool => some (if (host.kernelTree kmod.kdir).signFile then .testKey else .built, tree)
  | .testKey => some (if (tree.text kmod.signKey).isSome then .testCert else .findOpenssl, tree)
  | .testCert => some (if (tree.text kmod.signCert).isSome then .sign else .findOpenssl, tree)
  | .findOpenssl => some (if host.command "openssl".toList then .writeKey else .built, tree)
  | .stopped _ | .writeKey | .writeCert | .sign | .built | .failed => none

/-- The loop over the sources goes on after an `ln` that fails, unless it is the last. -/
def buildFails (tree : Tree) : BuildPoint Progress → Option (BuildPoint Progress × Tree)
  | .link (_ :: next :: rest) => some (.link (next :: rest), tree)
  | .mkdir | .link [_] | .objM | .objs | .copy | .copying _ | .writeKey | .writeCert | .sign =>
    some (.failed, tree)
  | _ => none

/-- `openssl` writes one of its two files, where there is none or a file. -/
def buildWrites (kmod : Kmod) (tree : Tree) (text : List Char) :
    BuildPoint Progress → Option (BuildPoint Progress × Tree)
  | .writeKey =>
    match tree kmod.signKey with
    | none | some (.file _) =>
      some (.writeCert, Function.update tree kmod.signKey (some (.file text)))
    | _ => none
  | .writeCert =>
    match tree kmod.signCert with
    | none | some (.file _) =>
      some (.sign, Function.update tree kmod.signCert (some (.file text)))
    | _ => none
  | _ => none

/-- `sign-file` signs the module with the key and the certificate that are there. -/
def buildSigns (host : Host) (kmod : Kmod) (tree : Tree) (signature : List Char) :
    BuildPoint Progress → Option (BuildPoint Progress × Tree)
  | .sign =>
    match tree.text kmod.signKey, tree.text kmod.signCert, tree.text kmod.ko with
    | some key, some cert, some text =>
      if host.signs key cert text signature then
        some (.built, Function.update tree kmod.ko (some (.file (text ++ signature))))
      else none
    | _, _, _ => none
  | _ => none

def BuildPoint.outcome : BuildPoint Progress → Option Bool
  | .built => some true
  | .stopped _ | .failed => some false
  | _ => none

def buildStep (kbuild : Recipe (List (List Char)) (Option Node) Progress KbuildInput)
    (host : Host) (kmod : Kmod) (point : BuildPoint Progress) (tree : Tree) :
    BuildInput KbuildInput → Option (BuildPoint Progress × Tree)
  | .go => buildGoes kbuild host kmod tree point
  | .fails => buildFails tree point
  | .kbuild input =>
    match point with
    | .kbuild progress =>
      (kbuild.step progress tree input).map fun next => (.kbuild next.1, next.2)
    | _ => none
  | .wrote text => buildWrites kmod tree text point
  | .signed signature => buildSigns host kmod tree signature point
  | .killed => if point.outcome = none then some (.failed, tree) else none

/-- The recipe of `build`, which makes the module through the kernel's own kbuild. -/
def build (kbuild : Recipe (List (List Char)) (Option Node) Progress KbuildInput) (host : Host)
    (kmod : Kmod) :
    Recipe (List (List Char)) (Option Node) (BuildPoint Progress) (BuildInput KbuildInput) where
  start := .preflight
  step := buildStep kbuild host kmod
  outcome := BuildPoint.outcome
  halted {point succeeded} through tree input := by
    cases point <;> simp only [BuildPoint.outcome, reduceCtorEq] at through <;>
      cases input <;>
        simp [buildStep, buildGoes, buildFails, buildWrites, buildSigns, BuildPoint.outcome]

end Build

/-- `rm -rf` of the build directory, then `rm -f` of the module, which leaves a directory. -/
def clean (kmod : Kmod) (tree : Tree) : Tree := fun place =>
  if kmod.bdir.isPrefixOf place then none
  else if place = kmod.ko ∧ tree place ≠ some .directory then none
  else tree place

section Preflight

variable {host : Host} {kmod : Kmod} {tree other : Tree} {why : Stop}

theorem patsubst_cases (pattern : List Char × Option (List Char)) (replacement word : List Char) :
    patsubst pattern replacement word = replacement ∨
      patsubst pattern replacement word = word := by
  obtain ⟨before, after⟩ := pattern
  cases after with
  | none =>
    rw [patsubst]
    split
    · exact .inl rfl
    · exact .inr rfl
  | some after =>
    rw [patsubst]
    split
    · exact .inl rfl
    · exact .inr rfl

theorem foldl_patsubst (rules : List ((List Char × Option (List Char)) × List Char))
    (word : List Char) :
    rules.foldl (fun word rule => patsubst rule.1 rule.2 word) word ∈ rules.map Prod.snd ∨
      rules.foldl (fun word rule => patsubst rule.1 rule.2 word) word = word := by
  induction rules generalizing word with
  | nil => exact .inr rfl
  | cons rule rest ih =>
    rw [List.foldl_cons, List.map_cons]
    rcases ih (patsubst rule.1 rule.2 word) with renamed | kept
    · exact .inl (List.mem_cons_of_mem _ renamed)
    · rw [kept]
      rcases patsubst_cases rule.1 rule.2 word with here | passed
      · rw [here]
        exact .inl List.mem_cons_self
      · exact .inr passed

/-- What kbuild calls an arch is not renamed again. -/
theorem effArch_again (arch uname : List Char) :
    effArch arch (effArch arch uname) = effArch arch uname := by
  unfold effArch
  split
  · rfl
  · rcases foldl_patsubst archNames uname with known | same
    · generalize archNames.foldl (fun word rule => patsubst rule.1 rule.2 word) uname = name
        at known
      revert name
      decide
    · rw [same, same]

/-- What the message of `$(error)` says. -/
def Stop.Right (host : Host) (kmod : Kmod) (tree : Tree) : Stop → Prop
  | .sampleNotSet => kmod.sample = []
  | .noSource sample srcBase => sample = kmod.sampleText ∧ srcBase = kmod.srcBase ∧
      kmod.sampleMk.sampleObjs = [] ∧ tree kmod.cSource = none
  | .noKernelTree kdir => kdir = kmod.kdir ∧ (host.kernelTree kdir).makefile = false
  | .noCrossCompiler crossCompile => crossCompile = kmod.crossCompile ∧ crossCompile ≠ [] ∧
      host.command (crossCompile ++ "gcc".toList) = false
  | .unsupportedArch sample supported arch => sample = kmod.sampleText ∧
      supported = kmod.sampleMk.sampleSupportedArch ∧ supported ≠ [] ∧
      arch = effArch kmod.arch host.uname ∧ arch ∉ supported
  | .missingConfigs sample kdir missing => sample = kmod.sampleText ∧ kdir = kmod.kdir ∧
      missing ≠ [] ∧ missing.Sublist kmod.sampleMk.sampleRequiredConfigs ∧
      ∀ config ∈ kmod.sampleMk.sampleRequiredConfigs, config ∈ missing ↔
        enabled (host.kernelTree kdir).dotConfig config = false
  | .version refusal => versionPreflight host.versionSort host.brokenQuotes kmod.sampleText
      kmod.sampleMk.sampleMinKver kmod.sampleMk.sampleMaxKver
      (host.kernelTree kmod.kdir).kernelRelease = .error refusal

end Preflight

end KernelSamples.Scripts

import KernelSamples.Lib.Machine
import Mathlib.Data.Fintype.Basic
import Mathlib.Logic.Function.Basic

/-! `scripts/sign-module.sh` run by several samples of one `make -j`. All of them share one
key and one certificate file. -/

namespace KernelSamples.Scripts

open Lib

/-- Whether `sign-file` is executable and `openssl` is on the path. -/
structure SigningTools where
  signFile : Bool
  openssl : Bool

/-- Where one run of the script stands. A key pair is named by the run whose `openssl` made
it, and a signature by the pairs its key and its certificate came from. -/
inductive SignPoint (Run : Type) where
  | testTool
  | testKey
  | testCert
  | findOpenssl
  | writeKey
  | writeCert
  | sign
  | exited (signature : Option (Run × Run))
  | failed
  deriving DecidableEq

/-- The two shared files, each with the pair it holds a half of, and the runs. -/
structure SigningTree (Run : Type) where
  key : Option Run
  cert : Option Run
  point : Run → SignPoint Run

/-- A run makes its next step, or the program it is running fails and `set -e` ends it. -/
inductive SignEvent (Run : Type) where
  | step (run : Run)
  | fail (run : Run)

variable {Run : Type} [DecidableEq Run]

def SigningTree.move (tree : SigningTree Run) (run : Run) (point : SignPoint Run) :
    SigningTree Run :=
  { tree with point := Function.update tree.point run point }

def signModule (tools : SigningTools) (tree : SigningTree Run) (run : Run) :
    SignPoint Run → Option (SigningTree Run)
  | .testTool => some (tree.move run (if tools.signFile then .testKey else .exited none))
  | .testKey => some (tree.move run (if tree.key.isNone then .findOpenssl else .testCert))
  | .testCert => some (tree.move run (if tree.cert.isNone then .findOpenssl else .sign))
  | .findOpenssl => some (tree.move run (if tools.openssl then .writeKey else .exited none))
  | .writeKey => some { tree.move run .writeCert with key := some run }
  | .writeCert => some { tree.move run .sign with cert := some run }
  | .sign =>
    match tree.key, tree.cert with
    | some key, some cert => some (tree.move run (.exited (some (key, cert))))
    | _, _ => some (tree.move run .failed)
  | .exited _ | .failed => none

/-- Only `openssl` and `sign-file` can fail. -/
def signModuleFails (tree : SigningTree Run) (run : Run) :
    SignPoint Run → Option (SigningTree Run)
  | .writeKey | .writeCert | .sign => some (tree.move run .failed)
  | _ => none

/-- Every interleaving of the runs, from a tree with neither file. -/
def signingMachine (Run : Type) [DecidableEq Run] (tools : SigningTools) :
    Machine (SigningTree Run) (SignEvent Run) where
  initial := { key := none, cert := none, point := fun _ => .testTool }
  step tree
    | .step run => signModule tools tree run (tree.point run)
    | .fail run => signModuleFails tree run (tree.point run)

/-- The run has found the pair missing and has not written its certificate. -/
def SignPoint.generating : SignPoint Run → Bool
  | .findOpenssl | .writeKey | .writeCert => true
  | _ => false

def SignPoint.testing : SignPoint Run → Bool
  | .testKey | .testCert => true
  | _ => false

namespace SigningTree

/-- Every run exited with success. -/
def Finished (tree : SigningTree Run) : Prop :=
  ∀ run, ∃ signature, tree.point run = .exited signature

/-- The files hold the two halves of one pair, and every module is signed with its key. -/
def Coherent (tree : SigningTree Run) : Prop :=
  ∀ run, ∃ pair cert, tree.key = some pair ∧ tree.cert = some pair ∧
    tree.point run = .exited (some (pair, cert))

/-- A run looks for the files only while no run is making a pair. -/
def Alone (tree : SigningTree Run) : SignEvent Run → Prop
  | .step run => (tree.point run).testing = true →
      ∀ other, (tree.point other).generating = false
  | .fail _ => True

instance [Fintype Run] (tree : SigningTree Run) (event : SignEvent Run) :
    Decidable (tree.Alone event) :=
  match event with
  | .step run => inferInstanceAs (Decidable ((tree.point run).testing = true →
      ∀ other, (tree.point other).generating = false))
  | .fail _ => .isTrue trivial

/-- Before a certificate is written at most one run makes a pair and nobody signs; after it
nobody makes a pair and everybody signs with the one there is. -/
inductive Orderly (tree : SigningTree Run) : Prop where
  | before (cert : tree.cert = none)
      (single : ∀ run other, (tree.point run).generating = true →
        (tree.point other).generating = true → run = other)
      (keyed : ∀ run, tree.point run = .writeCert → tree.key = some run)
      (unsigned : ∀ run, tree.point run ≠ .sign ∧ ∀ signature, tree.point run ≠ .exited signature)
  | after (pair : Run) (key : tree.key = some pair) (cert : tree.cert = some pair)
      (quiet : ∀ run, (tree.point run).generating = false)
      (signed : ∀ run signature, tree.point run = .exited signature →
        signature = some (pair, pair))

variable {tree next : SigningTree Run} {run : Run} {tools : SigningTools}

theorem move_self (tree : SigningTree Run) (run : Run) (point : SignPoint Run) :
    (tree.move run point).point run = point := Function.update_self ..

theorem move_other (tree : SigningTree Run) {run other : Run} (point : SignPoint Run)
    (different : other ≠ run) : (tree.move run point).point other = tree.point other :=
  Function.update_of_ne different ..

/-- A move that neither starts a pair nor signs keeps the order. -/
theorem Orderly.quiet (orderly : tree.Orderly) {point : SignPoint Run}
    (idle : point.generating = false) (unsigned : tree.cert = none → point ≠ .sign)
    (unexited : ∀ signature, point ≠ .exited signature) : (tree.move run point).Orderly := by
  cases orderly with
  | before cert single keyed silent =>
    refine .before cert ?_ ?_ ?_
    · intro first second makes also
      by_cases same : first = run
      · rw [same, move_self, idle] at makes
        cases makes
      · by_cases other : second = run
        · rw [other, move_self, idle] at also
          cases also
        · rw [move_other tree point same] at makes
          rw [move_other tree point other] at also
          exact single first second makes also
    · intro other stands
      by_cases same : other = run
      · rw [same, move_self] at stands
        rw [stands] at idle
        cases idle
      · rw [move_other tree point same] at stands
        exact keyed other stands
    · intro other
      by_cases same : other = run
      · rw [same, move_self]
        exact ⟨unsigned cert, unexited⟩
      · rw [move_other tree point same]
        exact silent other
  | after pair key cert quiet signed =>
    refine .after pair key cert ?_ ?_
    · intro other
      by_cases same : other = run
      · rw [same, move_self, idle]
      · rw [move_other tree point same, quiet other]
    · intro other signature stands
      by_cases same : other = run
      · rw [same, move_self] at stands
        exact absurd stands (unexited signature)
      · rw [move_other tree point same] at stands
        exact signed other signature stands

/-- With no certificate yet, the only run that makes a pair may move on making it. -/
theorem Orderly.makes (orderly : tree.Orderly) (none : tree.cert = none)
    (only : ∀ other, (tree.point other).generating = true → other = run)
    {point : SignPoint Run} {key : Option Run} (making : point.generating = true)
    (keyed : point = .writeCert → key = some run) :
    { tree.move run point with key := key }.Orderly := by
  cases orderly with
  | after pair _ cert _ _ =>
    rw [none] at cert
    cases cert
  | before _ _ _ silent =>
    have just (other : Run) (makes : ((tree.move run point).point other).generating = true) :
        other = run := by
      by_cases same : other = run
      · exact same
      · rw [move_other tree point same] at makes
        exact only other makes
    refine .before none ?_ ?_ ?_
    · intro first second makes also
      rw [just first makes, just second also]
    · intro other stands
      have same : other = run := just other (by
        change (tree.move run point).point other = _ at stands
        rw [stands]
        rfl)
      subst same
      change (tree.move other point).point other = _ at stands
      rw [move_self] at stands
      exact keyed stands
    · intro other
      change (tree.move run point).point other ≠ _ ∧
        ∀ signature, (tree.move run point).point other ≠ _
      by_cases same : other = run
      · rw [same, move_self]
        constructor
        · rintro rfl
          cases making
        · rintro signature rfl
          cases making
      · rw [move_other tree point same]
        exact silent other

end SigningTree

open SigningTree

variable {tree next : SigningTree Run} {run : Run} {tools : SigningTools}

omit [DecidableEq Run] in
/-- The only run that makes a pair while one is being made. -/
theorem SigningTree.Orderly.only (orderly : tree.Orderly) (none : tree.cert = none)
    (makes : (tree.point run).generating = true) (other : Run)
    (also : (tree.point other).generating = true) : other = run := by
  cases orderly with
  | before _ single _ _ => exact single other run also makes
  | after pair _ cert _ _ =>
    rw [none] at cert
    cases cert

omit [DecidableEq Run] in
theorem SigningTree.Orderly.cert_none (orderly : tree.Orderly)
    (makes : (tree.point run).generating = true) : tree.cert = none := by
  cases orderly with
  | before cert _ _ _ => exact cert
  | after _ _ _ quiet _ =>
    rw [quiet run] at makes
    cases makes

/-- The run that makes the pair writes its certificate, and from then on no run makes one. -/
theorem SigningTree.Orderly.certified (orderly : tree.Orderly)
    (point : tree.point run = .writeCert) :
    { tree.move run .sign with cert := some run }.Orderly := by
  have makes : (tree.point run).generating = true := by rw [point]; rfl
  have only := orderly.only (orderly.cert_none makes) makes
  cases orderly with
  | after _ _ _ quiet _ =>
    rw [quiet run] at makes
    cases makes
  | before _ _ keyed silent =>
    refine .after run (keyed run point) rfl ?_ ?_
    · intro other
      change ((tree.move run .sign).point other).generating = false
      by_cases same : other = run
      · rw [same, move_self]
        rfl
      · rw [move_other tree _ same]
        cases making : (tree.point other).generating with
        | false => rfl
        | true => exact absurd (only other making) same
    · intro other signature stands
      change (tree.move run .sign).point other = _ at stands
      by_cases same : other = run
      · rw [same, move_self] at stands
        cases stands
      · rw [move_other tree _ same] at stands
        exact absurd stands ((silent other).2 signature)

/-- Signing with the pair there is. -/
theorem SigningTree.Orderly.signs (orderly : tree.Orderly) (point : tree.point run = .sign)
    (taken : signModule tools tree run .sign = some next) : next.Orderly := by
  cases orderly with
  | before _ _ _ silent => exact absurd point (silent run).1
  | after pair key cert quiet signed =>
    simp only [signModule, key, cert, Option.some.injEq] at taken
    subst taken
    refine .after pair key cert ?_ ?_
    · intro other
      by_cases same : other = run
      · rw [same, move_self]
        rfl
      · rw [move_other tree _ same, quiet other]
    · intro other signature stands
      by_cases same : other = run
      · rw [same, move_self] at stands
        exact (SignPoint.exited.inj stands).symm
      · rw [move_other tree _ same] at stands
        exact signed other signature stands

theorem signModule_orderly (signFile : tools.signFile = true) (openssl : tools.openssl = true)
    (orderly : tree.Orderly) (alone : tree.Alone (.step run))
    (taken : signModule tools tree run (tree.point run) = some next) : next.Orderly := by
  cases point : tree.point run with
  | testTool =>
    rw [point] at taken
    cases taken
    rw [signFile]
    exact orderly.quiet rfl nofun nofun
  | testKey =>
    have idle := alone (by rw [point]; rfl)
    rw [point] at taken
    cases taken
    cases found : tree.key with
    | none =>
      have missing : tree.cert = none := by
        cases orderly with
        | before cert _ _ _ => exact cert
        | after pair key _ _ _ =>
          rw [found] at key
          cases key
      refine orderly.makes missing (fun other makes => ?_) rfl nofun
      rw [idle other] at makes
      cases makes
    | some key => exact orderly.quiet rfl nofun nofun
  | testCert =>
    have idle := alone (by rw [point]; rfl)
    rw [point] at taken
    cases taken
    cases found : tree.cert with
    | none =>
      refine orderly.makes found (fun other makes => ?_) rfl nofun
      rw [idle other] at makes
      cases makes
    | some cert => exact orderly.quiet rfl (by rw [found]; nofun) nofun
  | findOpenssl =>
    have makes : (tree.point run).generating = true := by rw [point]; rfl
    have missing := orderly.cert_none makes
    rw [point] at taken
    cases taken
    rw [openssl]
    exact orderly.makes missing (orderly.only missing makes) rfl nofun
  | writeKey =>
    have makes : (tree.point run).generating = true := by rw [point]; rfl
    have missing := orderly.cert_none makes
    rw [point] at taken
    cases taken
    exact orderly.makes missing (orderly.only missing makes) rfl fun _ => rfl
  | writeCert =>
    rw [point] at taken
    cases taken
    exact orderly.certified point
  | sign =>
    rw [point] at taken
    exact orderly.signs point taken
  | exited signature =>
    rw [point] at taken
    cases taken
  | failed =>
    rw [point] at taken
    cases taken

theorem signModuleFails_orderly (orderly : tree.Orderly)
    (taken : signModuleFails tree run (tree.point run) = some next) : next.Orderly := by
  cases point : tree.point run with
  | writeKey | writeCert | sign =>
    rw [point] at taken
    cases taken
    exact orderly.quiet rfl nofun nofun
  | testTool | testKey | testCert | findOpenssl | exited | failed =>
    rw [point] at taken
    cases taken

/-- Every run whose tests are made while no other makes a pair keeps the order. -/
theorem orderly_run (signFile : tools.signFile = true) (openssl : tools.openssl = true)
    {events : List (SignEvent Run)}
    (alone : (signingMachine Run tools).Guarded Alone (signingMachine Run tools).initial events)
    (onward : (signingMachine Run tools).run (signingMachine Run tools).initial events =
      some tree) : tree.Orderly := by
  refine Machine.guarded_invariant Orderly ?_ ?_ alone onward
  · intro state event next orderly allowed taken
    cases event with
    | step run => exact signModule_orderly signFile openssl orderly allowed taken
    | fail run => exact signModuleFails_orderly orderly taken
  · exact .before rfl (fun _ _ makes => nomatch makes) nofun fun _ => ⟨nofun, nofun⟩

omit [DecidableEq Run] in
/-- A run that has exited has signed with the pair that is there. -/
theorem SigningTree.Orderly.exits (orderly : tree.Orderly) {signature : Option (Run × Run)}
    (exited : tree.point run = .exited signature) :
    ∃ pair, tree.key = some pair ∧ tree.cert = some pair ∧ signature = some (pair, pair) := by
  cases orderly with
  | before _ _ _ silent => exact absurd exited ((silent run).2 signature)
  | after pair key cert _ signed => exact ⟨pair, key, cert, signed run signature exited⟩

/-- When no run looks for the files while another makes the pair, then once every run has
exited with success the files match and every module is signed with their key. -/
theorem signed_with_final_pair (signFile : tools.signFile = true)
    (openssl : tools.openssl = true) {events : List (SignEvent Run)}
    (alone : (signingMachine Run tools).Guarded Alone (signingMachine Run tools).initial events)
    (onward : (signingMachine Run tools).run (signingMachine Run tools).initial events = some tree)
    (finished : tree.Finished) : tree.Coherent := by
  intro run
  obtain ⟨signature, exited⟩ := finished run
  obtain ⟨pair, key, cert, rfl⟩ := (orderly_run signFile openssl alone onward).exits exited
  exact ⟨pair, pair, key, cert, exited⟩

/-- A machine with both tools. -/
def bothTools : SigningTools := ⟨true, true⟩

/-- The second run looks for the files after the first has made them. -/
def inTurn (first second : Run) : List (SignEvent Run) :=
  List.replicate 6 (.step first) ++ List.replicate 4 (.step second)

theorem signed_with_final_pair_in_turn :
    ∃ tree : SigningTree (Fin 2), tree.key = some 0 ∧ tree.Finished ∧ tree.Coherent := by
  obtain ⟨tree, alone, onward, found⟩ :=
    (signingMachine (Fin 2) bothTools).guarded_of_run Alone (inTurn 0 1)
      (fun tree => decide (tree.key = some 0 ∧ ∀ run, tree.point run = .exited (some (0, 0))))
      (by decide +kernel)
  obtain ⟨key, exited⟩ := of_decide_eq_true found
  have finished : tree.Finished := fun run => ⟨_, exited run⟩
  exact ⟨tree, key, finished, signed_with_final_pair rfl rfl alone onward finished⟩

/-- Both runs find the files missing; then each makes a pair and signs, one after the other. -/
def interleaved (first second : Run) : List (SignEvent Run) :=
  List.replicate 2 (.step first) ++ List.replicate 2 (.step second) ++
    List.replicate 4 (.step first) ++ List.replicate 4 (.step second)

/-- Each of two overlapping runs signs with a pair of its own, and the files keep the second. -/
theorem overlapping_runs_mix_pairs :
    ¬ ∀ tree, (signingMachine (Fin 2) bothTools).Reachable tree → tree.Finished →
      tree.Coherent := by
  intro claimed
  obtain ⟨tree, reached, found⟩ := (signingMachine (Fin 2) bothTools).reachable_of_run
    (interleaved 0 1)
    (fun tree => tree.key = some 1 ∧ tree.cert = some 1 ∧
      tree.point 0 = .exited (some (0, 0)) ∧ tree.point 1 = .exited (some (1, 1)))
    (by decide +kernel)
  obtain ⟨key, -, first, second⟩ := of_decide_eq_true found
  have finished : tree.Finished := by
    intro run
    rcases run with ⟨_ | _ | _, small⟩
    · exact ⟨_, first⟩
    · exact ⟨_, second⟩
    · omega
  obtain ⟨pair, cert, keyed, -, signed⟩ := claimed tree reached finished 0
  rw [first] at signed
  cases signed
  rw [key] at keyed
  cases keyed

/-- Both files are there, and nobody makes another pair. -/
structure SigningTree.Kept (tools : SigningTools) (priv der : Run) (tree : SigningTree Run) :
    Prop where
  key : tree.key = some priv
  cert : tree.cert = some der
  quiet : ∀ run, (tree.point run).generating = false
  signed : ∀ run signature, tree.point run = .exited signature →
    signature = if tools.signFile then some (priv, der) else none
  signing : ∀ run, (tree.point run).testing = true ∨ tree.point run = .sign →
    tools.signFile = true

section Kept

variable {priv der : Run}

/-- A run moves on without making a pair. -/
theorem SigningTree.Kept.move (kept : tree.Kept tools priv der) {point : SignPoint Run}
    (idle : point.generating = false)
    (exits : ∀ signature, point = .exited signature →
      signature = if tools.signFile then some (priv, der) else none)
    (signing : point.testing = true ∨ point = .sign → tools.signFile = true) :
    (tree.move run point).Kept tools priv der := by
  refine ⟨kept.key, kept.cert, ?_, ?_, ?_⟩
  · intro other
    by_cases same : other = run
    · rw [same, move_self, idle]
    · rw [move_other tree point same, kept.quiet other]
  · intro other signature stands
    by_cases same : other = run
    · rw [same, move_self] at stands
      exact exits signature stands
    · rw [move_other tree point same] at stands
      exact kept.signed other signature stands
  · intro other stands
    by_cases same : other = run
    · rw [same, move_self] at stands
      exact signing stands
    · rw [move_other tree point same] at stands
      exact kept.signing other stands

theorem signModule_kept (kept : tree.Kept tools priv der)
    (taken : signModule tools tree run (tree.point run) = some next) :
    next.Kept tools priv der := by
  cases point : tree.point run with
  | testTool =>
    rw [point] at taken
    cases taken
    cases signFile : tools.signFile with
    | true => exact kept.move rfl nofun fun _ => signFile
    | false =>
      refine kept.move rfl (fun signature exits => ?_) (by simp [SignPoint.testing])
      rw [signFile, ← SignPoint.exited.inj exits]
      rfl
  | testKey =>
    have signFile := kept.signing run (.inl (by rw [point]; rfl))
    rw [point] at taken
    cases taken
    rw [kept.key]
    exact kept.move rfl nofun fun _ => signFile
  | testCert =>
    have signFile := kept.signing run (.inl (by rw [point]; rfl))
    rw [point] at taken
    cases taken
    rw [kept.cert]
    exact kept.move rfl nofun fun _ => signFile
  | sign =>
    have signFile := kept.signing run (.inr point)
    simp only [point, signModule, kept.key, kept.cert, Option.some.injEq] at taken
    subst taken
    refine kept.move rfl (fun signature exits => ?_) (by simp [SignPoint.testing])
    rw [signFile, ← SignPoint.exited.inj exits]
    rfl
  | findOpenssl | writeKey | writeCert =>
    have idle := kept.quiet run
    rw [point] at idle
    cases idle
  | exited signature | failed =>
    rw [point] at taken
    cases taken

theorem signModuleFails_kept (kept : tree.Kept tools priv der)
    (taken : signModuleFails tree run (tree.point run) = some next) :
    next.Kept tools priv der := by
  cases point : tree.point run with
  | writeKey | writeCert | sign =>
    rw [point] at taken
    cases taken
    exact kept.move rfl nofun (by simp [SignPoint.testing])
  | testTool | testKey | testCert | findOpenssl | exited | failed =>
    rw [point] at taken
    cases taken

/-- Later builds: where both files are there, no interleaving of any number of runs changes them,
and every run that succeeds has signed with them, whether or not the two match, unless
`sign-file` is missing. -/
theorem existing_files_kept {events : List (SignEvent Run)}
    (onward : (signingMachine Run tools).run ⟨some priv, some der, fun _ => .testTool⟩ events =
      some tree) :
    tree.key = some priv ∧ tree.cert = some der ∧
    ∀ run signature, tree.point run = .exited signature →
      signature = if tools.signFile then some (priv, der) else none := by
  have kept : tree.Kept tools priv der := by
    refine Machine.run_invariant (SigningTree.Kept tools priv der) ?_ ?_ onward
    · intro state event next kept taken
      cases event with
      | step run => exact signModule_kept kept taken
      | fail run => exact signModuleFails_kept kept taken
    · exact ⟨rfl, rfl, fun _ => rfl, nofun, fun _ stands => by simp [SignPoint.testing] at stands⟩
  exact ⟨kept.key, kept.cert, kept.signed⟩

/-- Two later runs with the pair that an earlier one made. -/
theorem existing_files_kept_enrolled :
    ∃ tree : SigningTree (Fin 3), tree.key = some 2 ∧ tree.cert = some 2 ∧
      tree.point 0 = .exited (some (2, 2)) ∧ tree.point 1 = .exited (some (2, 2)) := by
  have found : ((signingMachine (Fin 3) bothTools).run ⟨some 2, some 2, fun _ => .testTool⟩
      (List.replicate 2 (.step 0) ++ List.replicate 4 (.step 1) ++
        List.replicate 2 (.step 0))).any
      (fun tree => decide (tree.point 0 = .exited (some (2, 2)) ∧
        tree.point 1 = .exited (some (2, 2)))) = true := by
    decide +kernel
  obtain ⟨tree, onward, exits⟩ := (Option.any_eq_true _ _).mp found
  obtain ⟨key, cert, -⟩ := existing_files_kept onward
  exact ⟨tree, key, cert, of_decide_eq_true exits⟩

end Kept

end KernelSamples.Scripts

import KernelSamples.Scripts.Makefile
import KernelSamples.Scripts.SignModule

/-! The first signed builds of one `make -j`: at their ends the recipes run `sign-module.sh` on key
files that they share, each as one run of the script's own machine. -/

namespace KernelSamples.Scripts

open Lib

/-- Where its script stands while a build goes on. -/
def BuildPoint.script {Progress Run : Type} : BuildPoint Progress → Option (SignPoint Run)
  | .preflight | .mkdir | .link _ | .objM | .objs | .make | .kbuild _ | .copy | .copying _
  | .testTool => some .testTool
  | .testKey => some .testKey
  | .testCert => some .testCert
  | .findOpenssl => some .findOpenssl
  | .writeKey => some .writeKey
  | .writeCert => some .writeCert
  | .sign => some .sign
  | .stopped _ | .built | .failed => none

/-- The script looks for the key files. -/
def BuildPoint.testing {Progress : Type} : BuildPoint Progress → Bool
  | .testKey | .testCert => true
  | _ => false

/-- What `openssl` writes. -/
def BuildInput.text {KbuildInput : Type} : BuildInput KbuildInput → Option (List Char)
  | .wrote text => some text
  | _ => none

def BuildInput.goes {KbuildInput : Type} : BuildInput KbuildInput → Bool
  | .go => true
  | _ => false

/-- How many texts `openssl` has written, as long as it may write more. -/
def pagesOf {Progress : Type} : Option (BuildPoint Progress) → Option Nat
  | some .writeCert => some 1
  | some .sign | some .built | some (.stopped _) | some .failed => none
  | _ => some 0

/-- What one step of a build is to its script, where both tools are there. -/
inductive ScriptStep {Progress KbuildInput : Type} (host : Host) (kmod : Kmod) (tree tree' : Tree) :
    BuildPoint Progress → BuildInput KbuildInput → BuildPoint Progress → Prop where
  | outside {point input point'} (before : ∀ Run, point.script = some (@SignPoint.testTool Run))
      (after : ∀ Run, point'.script = some (@SignPoint.testTool Run)) (silent : input.text = none)
      (kept : ∀ place ∈ kmod.keyFiles, tree' place = tree place) :
      ScriptStep host kmod tree tree' point input point'
  | ends {point input point'} (through : point'.outcome = some false) (silent : input.text = none)
      (kept : ∀ place ∈ kmod.keyFiles, tree' place = tree place) :
      ScriptStep host kmod tree tree' point input point'
  | testTool (same : tree' = tree) : ScriptStep host kmod tree tree' .testTool .go .testKey
  | testKey (same : tree' = tree) : ScriptStep host kmod tree tree' .testKey .go
      (if (tree.text kmod.signKey).isSome then .testCert else .findOpenssl)
  | testCert (same : tree' = tree) : ScriptStep host kmod tree tree' .testCert .go
      (if (tree.text kmod.signCert).isSome then .sign else .findOpenssl)
  | findOpenssl (same : tree' = tree) :
      ScriptStep host kmod tree tree' .findOpenssl .go .writeKey
  | writeKey (text : List Char)
      (written : tree' = Function.update tree kmod.signKey (some (.file text))) :
      ScriptStep host kmod tree tree' .writeKey (.wrote text) .writeCert
  | writeCert (text : List Char)
      (written : tree' = Function.update tree kmod.signCert (some (.file text))) :
      ScriptStep host kmod tree tree' .writeCert (.wrote text) .sign
  | sign (key cert text signature : List Char) (hasKey : tree kmod.signKey = some (.file key))
      (hasCert : tree kmod.signCert = some (.file cert))
      (copied : tree kmod.ko = some (.file text))
      (signs : host.signs key cert text signature = true)
      (written : tree' = Function.update tree kmod.ko (some (.file (text ++ signature)))) :
      ScriptStep host kmod tree tree' .sign (.signed signature) .built

section Script

variable {Progress KbuildInput Run : Type} {host : Host} {kmod : Kmod} {tree tree' : Tree}
  {kbuild : Recipe (List (List Char)) (Option Node) Progress KbuildInput}
  {point point' : BuildPoint Progress} {input : BuildInput KbuildInput}
  {shared : List (List Char) → Bool}

/-- Before its script a build goes on to the script, or stops. -/
theorem outside_goes (sign : kmod.sign = true)
    (before : point.script = some (@SignPoint.testTool Run)) (early : point ≠ .testTool)
    (taken : buildGoes kbuild host kmod tree point = some (point', tree')) :
    (∀ Run, point'.script = some (@SignPoint.testTool Run)) ∨ point'.outcome = some false := by
  cases point with
  | testTool => exact absurd rfl early
  | copying text =>
    cases taken
    rw [if_pos sign]
    exact .inl fun _ => rfl
  | link rest =>
    cases rest with
    | nil =>
      cases taken
      exact .inl fun _ => rfl
    | cons c rest =>
      rw [buildGoes] at taken
      split at taken <;> cases taken
      exact .inl fun _ => rfl
  | preflight | mkdir | objM | objs | make | kbuild progress | copy =>
    simp only [buildGoes] at taken
    repeat' split at taken
    all_goals first
      | (cases taken; done)
      | (cases taken; exact .inl fun _ => rfl)
      | (cases taken; exact .inr rfl)
  | testKey | testCert | findOpenssl | writeKey | writeCert | sign | stopped why | built | failed =>
    cases before

/-- Before its script a build does nothing else. -/
theorem outside_step (sign : kmod.sign = true)
    (before : point.script = some (@SignPoint.testTool Run)) (early : point ≠ .testTool)
    (taken : buildStep kbuild host kmod point tree input = some (point', tree')) :
    ((∀ Run, point'.script = some (@SignPoint.testTool Run)) ∨ point'.outcome = some false) ∧
      input.text = none := by
  cases input with
  | go => exact ⟨outside_goes sign before early taken, rfl⟩
  | fails =>
    simp only [buildStep] at taken
    unfold buildFails at taken
    split at taken <;> cases taken
    · exact ⟨.inl fun _ => rfl, rfl⟩
    all_goals exact ⟨.inr rfl, rfl⟩
  | kbuild moved =>
    simp only [buildStep] at taken
    split at taken
    · obtain ⟨next, moved, same⟩ := Option.map_eq_some_iff.mp taken
      cases same
      exact ⟨.inl fun _ => rfl, rfl⟩
    · cases taken
  | wrote text =>
    obtain ⟨-, -, -, -, -, ⟨rfl, -⟩ | ⟨rfl, -⟩⟩ := buildWrites_cases taken <;> cases before
  | signed signature =>
    obtain ⟨rfl, -⟩ := buildSigns_cases taken
    cases before
  | killed =>
    rw [buildStep] at taken
    split at taken <;> cases taken
    exact ⟨.inr rfl, rfl⟩

/-- At its script a build makes the steps of the script. -/
theorem script_step (shares : kmod.Shares shared) (below : kbuild.Writes (kmod.bdir <+: ·))
    (sign : kmod.sign = true) (signFile : (host.kernelTree kmod.kdir).signFile = true)
    (openssl : host.command "openssl".toList = true)
    (taken : buildStep kbuild host kmod point tree input = some (point', tree')) :
    ScriptStep host kmod tree tree' point input point' := by
  have kept (silent : input.text = none) : ∀ place ∈ kmod.keyFiles, tree' place = tree place := by
    refine fun place key => step_writes below taken ?_ place (shares.keys_free key)
    rintro text rfl
    cases silent
  by_cases outside : point.script = some (@SignPoint.testTool Unit) ∧ point ≠ .testTool
  · obtain ⟨onward, silent⟩ := outside_step sign outside.1 outside.2 taken
    have before : ∀ Run, point.script = some (@SignPoint.testTool Run) := by
      intro Run
      obtain ⟨before, -⟩ := outside
      cases point <;> first
        | rfl
        | cases before
    exact onward.elim (fun after => .outside before after silent (kept silent))
      fun through => .ends through silent (kept silent)
  have ends (through : point'.outcome = some false) (silent : input.text = none) :
      ScriptStep host kmod tree tree' point input point' := .ends through silent (kept silent)
  cases input with
  | go =>
    cases point with
    | testTool =>
      simp only [buildStep, buildGoes, signFile, if_true] at taken
      cases taken
      exact .testTool rfl
    | testKey =>
      cases taken
      exact .testKey rfl
    | testCert =>
      cases taken
      exact .testCert rfl
    | findOpenssl =>
      simp only [buildStep, buildGoes, openssl, if_true] at taken
      cases taken
      exact .findOpenssl rfl
    | stopped why | writeKey | writeCert | sign | built | failed => cases taken
    | _ => exact absurd ⟨rfl, by simp⟩ outside
  | fails =>
    cases point with
    | writeKey | writeCert | sign =>
      cases taken
      exact ends rfl rfl
    | testTool | testKey | testCert | findOpenssl | stopped why | built | failed => cases taken
    | _ => exact absurd ⟨rfl, by simp⟩ outside
  | kbuild moved =>
    cases point with
    | kbuild progress => exact absurd ⟨rfl, by simp⟩ outside
    | _ => cases taken
  | wrote text =>
    simp only [buildStep] at taken
    unfold buildWrites at taken
    split at taken
    · split at taken <;> cases taken <;> exact .writeKey text rfl
    · split at taken <;> cases taken <;> exact .writeCert text rfl
    · cases taken
  | signed signature =>
    obtain ⟨rfl, rfl, key, cert, text, hasKey, hasCert, copied, signs, same⟩ :=
      buildSigns_cases taken
    exact .sign key cert text signature (Tree.text_eq_some.mp hasKey)
      (Tree.text_eq_some.mp hasCert) copied signs same
  | killed =>
    rw [buildStep] at taken
    split at taken <;> cases taken
    exact ends rfl rfl

end Script

section Mirror

variable {count : Nat} {Progress KbuildInput Point Input Run : Type}

/-- The texts that the `openssl` of a sample has written, the key before the certificate. -/
def written (events : List (MakeEvent (Target count) (InputOf KbuildInput Input)))
    (index : Fin count) : List (List Char) :=
  (sampleInputs index events).filterMap BuildInput.text

/-- Nothing that was written is taken back. -/
def Grows (texts texts' : Run → List (List Char)) : Prop :=
  ∀ run (page : Nat) (text : List Char), (texts run)[page]? = some text →
    (texts' run)[page]? = some text

/-- A key file has what its owner wrote on this page. -/
def Holds (texts : Run → List (List Char)) (page : Nat) (node : Option Node) :
    Option Run → Prop
  | none => node = none
  | some run => ∃ text, (texts run)[page]? = some text ∧ node = some (.file text)

/-- A build and the run of its script. What is built has been signed as the run says. -/
inductive Follows (host : Host) (kmod : Kmod) (texts : Run → List (List Char)) (store : Tree) :
    Option (BuildPoint Progress) → SignPoint Run → Prop where
  | unstarted : Follows host kmod texts store none .testTool
  | running {point : BuildPoint Progress} {signing : SignPoint Run}
      (same : point.script = some signing) : Follows host kmod texts store (some point) signing
  | ended {point : BuildPoint Progress} {signing : SignPoint Run}
      (through : point.outcome = some false) (idle : signing.generating = false) :
      Follows host kmod texts store (some point) signing
  | built {maker certifier : Run} {key cert text signature : List Char}
      (made : (texts maker)[0]? = some key) (certified : (texts certifier)[1]? = some cert)
      (linked : store kmod.linked = some (.file text))
      (module : store kmod.ko = some (.file (text ++ signature)))
      (signs : host.signs key cert text signature = true) :
      Follows host kmod texts store (some .built) (.exited (some (maker, certifier)))

variable {host : Host} {kmod : Kmod} {texts texts' : Run → List (List Char)}
  {store store' : Tree} {page : Nat} {node : Option Node} {owner : Option Run}
  {place : Option (BuildPoint Progress)} {point : BuildPoint Progress} {signing : SignPoint Run}

theorem Holds.grow (holds : Holds texts page node owner) (grows : Grows texts texts') :
    Holds texts' page node owner := by
  cases owner with
  | none => exact holds
  | some run =>
    obtain ⟨text, wrote, here⟩ := holds
    exact ⟨text, grows run page text wrote, here⟩

/-- The test for a key file finds it just when it has an owner. -/
theorem Holds.present {tree : Tree} {file : List (List Char)}
    (holds : Holds texts page (tree file) owner) : (tree.text file).isSome = !owner.isNone := by
  cases owner with
  | none =>
    have absent : tree file = none := holds
    rw [Tree.text, absent]
    rfl
  | some run =>
    obtain ⟨text, -, here⟩ := holds
    rw [Tree.text_eq_some.mpr here]
    rfl

theorem pagesOf_outside (outside : point.script = some (@SignPoint.testTool Run)) :
    pagesOf (some point) = some 0 := by
  cases point <;> first
    | rfl
    | cases outside

theorem pagesOf_ended (through : point.outcome = some false) : pagesOf (some point) = none := by
  cases point <;> first
    | rfl
    | cases through

/-- The owner of a key file that is there. -/
theorem Holds.owned {text : List Char}
    (holds : Holds texts page (some (.file text)) owner) :
    ∃ run, owner = some run ∧ (texts run)[page]? = some text := by
  cases owner with
  | none => cases holds
  | some run =>
    obtain ⟨_, wrote, same⟩ := holds
    cases same
    exact ⟨run, rfl, wrote⟩

theorem Follows.keep (follows : Follows host kmod texts store place signing)
    (grows : Grows texts texts') (same : ∀ place, kmod.Owns place → store' place = store place) :
    Follows host kmod texts' store' place signing := by
  cases follows with
  | unstarted => exact .unstarted
  | running here => exact .running here
  | ended through idle => exact .ended through idle
  | built made certified linked module signs =>
    exact .built (grows _ _ _ made) (grows _ _ _ certified)
      ((same _ (owns_bdir _)).trans linked) ((same _ owns_ko).trans module) signs

theorem Follows.waits
    (follows : Follows host kmod texts store (none : Option (BuildPoint Progress)) signing) :
    signing = .testTool := by
  cases follows with
  | unstarted => rfl

/-- What is built has been signed, and its run says with what. -/
theorem Follows.signed
    (follows : Follows host kmod texts store (some (.built : BuildPoint Progress)) signing) :
    ∃ maker certifier, signing = .exited (some (maker, certifier)) ∧
      ∃ key cert text signature, (texts maker)[0]? = some key ∧ (texts certifier)[1]? = some cert ∧
        store kmod.linked = some (.file text) ∧ store kmod.ko = some (.file (text ++ signature)) ∧
        host.signs key cert text signature = true := by
  cases follows with
  | running same => cases same
  | ended through idle => cases through
  | built made certified linked module signs =>
    exact ⟨_, _, rfl, _, _, _, _, made, certified, linked, module, signs⟩

/-- At its script a build stands where the run does. -/
theorem Follows.stands (follows : Follows host kmod texts store (some point) signing)
    {here : SignPoint Run} (script : point.script = some here) : signing = here := by
  cases follows with
  | running same => exact Option.some.inj (same.symm.trans script)
  | ended through idle =>
    cases point <;> first
      | (cases through; done)
      | cases script
  | built => cases script

theorem script_generating (script : point.script = some signing) :
    signing.generating = point.generating := by
  cases point <;> cases script <;> rfl

theorem script_testing (script : point.script = some signing) :
    signing.testing = point.testing := by
  cases point <;> cases script <;> rfl

/-- Where no build makes a key pair, no run does. -/
theorem Follows.idle (follows : Follows host kmod texts store place signing)
    (quiet : place.any BuildPoint.generating = false) : signing.generating = false := by
  cases follows with
  | unstarted => rfl
  | ended through idle => exact idle
  | built => rfl
  | running same => exact (script_generating same).trans quiet

end Mirror

/-- The first signed builds: all samples are signed, with the same key files, and neither is
there. -/
structure FirstSigned {count : Nat} (host : Host) (kmods : Fin count → Kmod)
    (priv der : List (List Char)) (start : Tree) : Prop where
  files : ∀ index, (kmods index).signKey = priv ∧ (kmods index).signCert = der
  different : priv ≠ der
  sign : ∀ index, (kmods index).sign = true
  signFile : ∀ index, (host.kernelTree (kmods index).kdir).signFile = true
  openssl : host.command "openssl".toList = true
  noKey : start priv = none
  noCert : start der = none

section Runs

variable {count : Nat} {Progress KbuildInput Point Input : Type} {host : Host}
  {kbuild : Fin count → Recipe (List (List Char)) (Option Node) Progress KbuildInput}
  {others : Target count → Recipe (List (List Char)) (Option Node) Point Input}
  {curdir : List (List Char)} {kmods : Fin count → Kmod} {start : Tree} {index : Fin count}
  {state next : Making (Target count) (List (List Char)) (Option Node) (PointOf Progress Point)}
  {past events : List (MakeEvent (Target count) (InputOf KbuildInput Input))}
  {event : MakeEvent (Target count) (InputOf KbuildInput Input)} {goal : Target count}
  {priv der : List (List Char)} {signing signing' : SigningTree (Fin count)}

/-- The runs of the script stand where the builds do, and the key files have what their owners
wrote. -/
structure Mirrors (host : Host) (kmods : Fin count → Kmod) (priv der : List (List Char))
    (events : List (MakeEvent (Target count) (InputOf KbuildInput Input)))
    (state : Making (Target count) (List (List Char)) (Option Node) (PointOf Progress Point))
    (signing : SigningTree (Fin count)) : Prop where
  key : Holds (written events) 0 (state.store priv) signing.key
  cert : Holds (written events) 1 (state.store der) signing.cert
  follows : ∀ index, Follows host (kmods index) (written events) state.store
    (samplePoint state index) (signing.point index)
  pages : ∀ index page, pagesOf (samplePoint state index) = some page →
    (written events index).length = page

/-- A build looks for the key files only while no build is making them. -/
def Undisturbed
    (state : Making (Target count) (List (List Char)) (Option Node) (PointOf Progress Point)) :
    MakeEvent (Target count) (InputOf KbuildInput Input) → Prop
  | .step (.sample index) input => BuildInput.goes input = true →
    (samplePoint state index).any BuildPoint.testing = true →
      ∀ other, (samplePoint state other).any BuildPoint.generating = false
  | _ => True

instance (state : Making (Target count) (List (List Char)) (Option Node) (PointOf Progress Point))
    (event : MakeEvent (Target count) (InputOf KbuildInput Input)) :
    Decidable (Undisturbed state event) :=
  match event with
  | .step (.sample index) input => inferInstanceAs (Decidable (BuildInput.goes input = true →
    (samplePoint state index).any BuildPoint.testing = true →
      ∀ other, (samplePoint state other).any BuildPoint.generating = false))
  | .start _ | .step .all _ | .step .target _ | .step .compdb _ | .step .tags _
  | .step .cscope _ => .isTrue trivial

theorem written_snoc (index : Fin count) : written (past ++ [event]) index =
    written past index ++ written [event] index := by
  have inputs : sampleInputs index (past ++ [event]) =
      sampleInputs index past ++ sampleInputs index [event] := Makefile.inputsOf_snoc ..
  rw [written, inputs, List.filterMap_append]
  rfl

theorem written_own (input : BuildInput KbuildInput) :
    written ([.step (.sample index) input] :
      List (MakeEvent (Target count) (InputOf KbuildInput Input))) index = input.text.toList := by
  have inputs : sampleInputs index ([.step (.sample index) input] :
      List (MakeEvent (Target count) (InputOf KbuildInput Input))) = [input] :=
    Makefile.inputsOf_own ..
  rw [written, inputs]
  cases input <;> rfl

theorem written_other {other : Fin count} (apart : ∀ input, event ≠ .step (.sample other) input) :
    written [event] other = [] := by
  have inputs : sampleInputs other [event] = [] := by
    cases event with
    | start begun => rfl
    | step goal input =>
      refine Makefile.inputsOf_other ?_ input
      rintro rfl
      exact apart input rfl
  rw [written, inputs]
  rfl

theorem grows_snoc : Grows (written past) (written (past ++ [event])) := by
  intro run page text wrote
  rw [written_snoc, List.getElem?_append_left (List.getElem?_eq_some_iff.mp wrote).1]
  exact wrote

/-- A text that `openssl` writes comes after those it has written. -/
theorem written_last (text : List Char) :
    (written (past ++ [.step (.sample index) (.wrote text : BuildInput KbuildInput)]) index)[
      (written past index).length]? = some text := by
  rw [written_snoc, written_own]
  exact List.getElem?_concat_length ..

/-- A sample that nothing happens to. -/
theorem Mirrors.still (mirrors : Mirrors host kmods priv der past state signing)
    (point : samplePoint next index = samplePoint state index)
    (run : signing'.point index = signing.point index) (silent : written [event] index = [])
    (same : ∀ place, (kmods index).Owns place → next.store place = state.store place) :
    Follows host (kmods index) (written (past ++ [event])) next.store (samplePoint next index)
        (signing'.point index) ∧
      ∀ page, pagesOf (samplePoint next index) = some page →
        (written (past ++ [event]) index).length = page := by
  rw [point, run]
  refine ⟨(mirrors.follows index).keep grows_snoc same, fun page here => ?_⟩
  rw [written_snoc, silent, List.append_nil]
  exact mirrors.pages index page here

/-- Something happens to one sample, and nothing to the others. -/
theorem Mirrors.of_sample (mirrors : Mirrors host kmods priv der past state signing)
    (index : Fin count)
    (key : Holds (written (past ++ [event])) 0 (next.store priv) signing'.key)
    (cert : Holds (written (past ++ [event])) 1 (next.store der) signing'.cert)
    (mine : Follows host (kmods index) (written (past ++ [event])) next.store
      (samplePoint next index) (signing'.point index))
    (page : ∀ page, pagesOf (samplePoint next index) = some page →
      (written (past ++ [event]) index).length = page)
    (rest : ∀ other ≠ index, samplePoint next other = samplePoint state other ∧
      signing'.point other = signing.point other ∧ written [event] other = [] ∧
      ∀ place, (kmods other).Owns place → next.store place = state.store place) :
    Mirrors host kmods priv der (past ++ [event]) next signing' := by
  have each (other : Fin count) : Follows host (kmods other) (written (past ++ [event]))
      next.store (samplePoint next other) (signing'.point other) ∧
      ∀ page, pagesOf (samplePoint next other) = some page →
        (written (past ++ [event]) other).length = page := by
    by_cases same : other = index
    · subst same
      exact ⟨mine, page⟩
    · obtain ⟨point, run, silent, kept⟩ := rest other same
      exact mirrors.still point run silent kept
  exact ⟨key, cert, fun other => (each other).1, fun other => (each other).2⟩

/-- A step of another target. -/
theorem Mirrors.beside (mirrors : Mirrors host kmods priv der past state signing)
    (points : ∀ index, samplePoint next index = samplePoint state index)
    (silent : ∀ index, written [event] index = [])
    (keys : next.store priv = state.store priv ∧ next.store der = state.store der)
    (same : ∀ index place, (kmods index).Owns place → next.store place = state.store place) :
    Mirrors host kmods priv der (past ++ [event]) next signing := by
  have each (index : Fin count) := mirrors.still (points index)
    (rfl : signing.point index = signing.point index) (silent index) (same index)
  refine ⟨?_, ?_, fun index => (each index).1, fun index => (each index).2⟩
  · rw [keys.1]
    exact mirrors.key.grow grows_snoc
  · rw [keys.2]
    exact mirrors.cert.grow grows_snoc

/-- A step of a sample's build. -/
theorem Mirrors.moved (apart : Apart curdir kmods) (confined : Confined kbuild others curdir kmods)
    (mirrors : Mirrors host kmods priv der past state signing)
    {point point' : BuildPoint Progress} {input : BuildInput KbuildInput} {store : Tree}
    (taken : buildStep (kbuild index) host (kmods index) point state.store input =
      some (point', store))
    (still : ∀ other ≠ index, signing'.point other = signing.point other)
    (key : Holds (written (past ++ [.step (.sample index) input])) 0 (store priv) signing'.key)
    (cert : Holds (written (past ++ [.step (.sample index) input])) 1 (store der) signing'.cert)
    (mine : Follows host (kmods index) (written (past ++ [.step (.sample index) input])) store
      (some point') (signing'.point index))
    (page : ∀ page, pagesOf (some point') = some page →
      (written past index ++ input.text.toList).length = page) :
    Mirrors host kmods priv der (past ++ [.step (.sample index) input])
      ⟨Function.update state.point (.sample index) (some point'), store⟩ signing' := by
  refine mirrors.of_sample index key cert ?_ ?_ ?_
  · rw [samplePoint_moved]
    exact mine
  · intro found here
    rw [samplePoint_moved] at here
    rw [written_snoc, written_own]
    exact page found here
  · intro other different
    refine ⟨samplePoint_other state (by simpa using different.symm) _ _, still other different,
      written_other ?_, ?_⟩
    · exact fun input' equal => different (Target.sample.inj (MakeEvent.step.inj equal).1).symm
    · intro place owned
      refine build_writes (confined.below index) taken place ?_
      rintro (mine | key)
      · exact owns_apart apart different owned mine
      · exact apart.keys index place key (.sample other) owned

/-- A recipe that starts. -/
theorem Mirrors.started (mirrors : Mirrors host kmods priv der past state signing)
    (taken : (makefile kbuild others host kmods).step state (.start goal) = some next) :
    Mirrors host kmods priv der (past ++ [.start goal]) next signing := by
  obtain ⟨fresh, -, rfl⟩ := Makefile.step_start taken
  have silent (index : Fin count) : written ([.start goal] :
      List (MakeEvent (Target count) (InputOf KbuildInput Input))) index = [] :=
    written_other fun _ impossible => by cases impossible
  cases goal with
  | sample index =>
    have unstarted : samplePoint state index = none := fresh
    have waiting := mirrors.follows index
    have none := mirrors.pages index 0
    rw [unstarted] at waiting none
    have begun : samplePoint ⟨Function.update state.point (.sample index)
        (some ((makefile kbuild others host kmods).recipe (.sample index)).start), state.store⟩
        index = some .preflight := samplePoint_moved state index .preflight state.store
    refine mirrors.of_sample index (mirrors.key.grow grows_snoc) (mirrors.cert.grow grows_snoc)
      ?_ ?_ ?_
    · rw [begun]
      exact .running (congrArg some waiting.waits.symm)
    · intro page here
      rw [begun] at here
      rw [written_snoc, silent, List.append_nil, none rfl]
      exact Option.some.inj here
    · exact fun other different => ⟨samplePoint_other state (by simpa using different.symm) _ _,
        rfl, silent other, fun _ _ => rfl⟩
  | all | target | compdb | tags | cscope =>
    exact mirrors.beside (fun index => samplePoint_other state (by simp) _ _) silent ⟨rfl, rfl⟩
      fun _ _ _ => rfl

/-- A run that is making a pair may give up. -/
theorem gives_up {run : Fin count} (making : (signing.point run).generating = true) :
    ∃ labels, (signingMachine (Fin count) bothTools).Guarded SigningTree.Alone signing labels ∧
      (signingMachine (Fin count) bothTools).run signing labels =
        some (signing.move run .failed) := by
  cases point : signing.point run with
  | writeKey | writeCert =>
    refine ⟨[.fail run], ⟨trivial, fun _ _ => trivial⟩, Machine.run_single.mpr ?_⟩
    simp only [signingMachine, point, signModuleFails]
  | findOpenssl =>
    refine ⟨[.step run, .fail run], ⟨?_, fun _ _ => ⟨trivial, fun _ _ => trivial⟩⟩, ?_⟩
    · intro tests
      rw [point] at tests
      cases tests
    · refine Machine.run_cons_iff.mpr ⟨signing.move run .writeKey, ?_, Machine.run_single.mpr ?_⟩
      · simp only [signingMachine, point, signModule, bothTools, if_true]
      · simp [signingMachine, signModuleFails, SigningTree.move]
  | testTool | testKey | testCert | sign | exited | failed =>
    rw [point] at making
    cases making

/-- A run goes on. -/
theorem steps_alone {run : Fin count} (calm : signing.Alone (.step run))
    (taken : signModule bothTools signing run (signing.point run) = some signing') :
    ∃ labels, (signingMachine (Fin count) bothTools).Guarded SigningTree.Alone signing labels ∧
      (signingMachine (Fin count) bothTools).run signing labels = some signing' :=
  ⟨[.step run], ⟨calm, fun _ _ => trivial⟩, Machine.run_single.mpr taken⟩

/-- A step of a sample's build that leaves the key files. -/
theorem Mirrors.quiet (apart : Apart curdir kmods) (confined : Confined kbuild others curdir kmods)
    (first : FirstSigned host kmods priv der start)
    (mirrors : Mirrors host kmods priv der past state signing)
    {point point' : BuildPoint Progress} {input : BuildInput KbuildInput} {store : Tree}
    (taken : buildStep (kbuild index) host (kmods index) point state.store input =
      some (point', store)) (silent : input.text = none)
    (kept : ∀ place ∈ (kmods index).keyFiles, store place = state.store place)
    {here : SignPoint (Fin count)}
    (mine : Follows host (kmods index) (written (past ++ [.step (.sample index) input])) store
      (some point') here)
    (page : ∀ page, pagesOf (some point') = some page → (written past index).length = page) :
    Mirrors host kmods priv der (past ++ [.step (.sample index) input])
      ⟨Function.update state.point (.sample index) (some point'), store⟩
      (signing.move index here) := by
  obtain ⟨atKey, atCert⟩ := first.files index
  have key : store priv = state.store priv := atKey ▸ kept _ signKey_mem
  have cert : store der = state.store der := atCert ▸ kept _ signCert_mem
  refine mirrors.moved apart confined taken
    (fun other different => SigningTree.move_other signing here different) ?_ ?_ ?_ ?_
  · rw [key]
    exact mirrors.key.grow grows_snoc
  · rw [cert]
    exact mirrors.cert.grow grows_snoc
  · rw [SigningTree.move_self]
    exact mine
  · rw [silent, Option.toList_none, List.append_nil]
    exact page

theorem move_here {run : Fin count} {point : SignPoint (Fin count)}
    (stands : signing.point run = point) : signing.move run point = signing := by
  rw [SigningTree.move, ← stands, Function.update_eq_self]

theorem Mirrors.alone (mirrors : Mirrors host kmods priv der past state signing)
    {point : BuildPoint Progress} {input : BuildInput KbuildInput} {script : SignPoint (Fin count)}
    (calm : Undisturbed state (.step (.sample index) input :
      MakeEvent (Target count) (InputOf KbuildInput Input)))
    (here : samplePoint state index = some point) (stands : signing.point index = script)
    (same : point.script = some script) (goes : point.testing = true → input.goes = true) :
    signing.Alone (.step index) := by
  intro tests other
  rw [stands, script_testing same] at tests
  exact (mirrors.follows other).idle (calm (goes tests) (by rw [here]; exact tests) other)

/-- A step of a sample's build is one of its script's run, or a stretch of it. -/
theorem Mirrors.stepped (apart : Apart curdir kmods)
    (confined : Confined kbuild others curdir kmods)
    (first : FirstSigned host kmods priv der start)
    (reached : ((makefile kbuild others host kmods).parallel start).Reachable state)
    (mirrors : Mirrors host kmods priv der past state signing)
    {point point' : BuildPoint Progress} {input : BuildInput KbuildInput} {store : Tree}
    (calm : Undisturbed state (.step (.sample index) input :
      MakeEvent (Target count) (InputOf KbuildInput Input)))
    (here : samplePoint state index = some point)
    (taken : buildStep (kbuild index) host (kmods index) point state.store input =
      some (point', store)) :
    ∃ labels signing', (signingMachine (Fin count) bothTools).Guarded SigningTree.Alone signing
        labels ∧
      (signingMachine (Fin count) bothTools).run signing labels = some signing' ∧
      Mirrors host kmods priv der (past ++ [.step (.sample index) input])
        ⟨Function.update state.point (.sample index) (some point'), store⟩ signing' := by
  obtain ⟨atKey, atCert⟩ := first.files index
  have follows := mirrors.follows index
  have length := mirrors.pages index
  rw [here] at follows length
  have go {script : SignPoint (Fin count)} {signing' : SigningTree (Fin count)}
      (same : point.script = some script) (goes : point.testing = true → input.goes = true)
      (moves : signModule bothTools signing index script = some signing') :=
    steps_alone (mirrors.alone calm here (follows.stands same) same goes)
      (by rw [follows.stands same]; exact moves)
  cases script_step (shares_of_apart apart index) (confined.below index) (first.sign index)
    (first.signFile index) first.openssl taken with
  | outside before after silent kept =>
    have onward := mirrors.quiet apart confined first taken silent kept (.running (after _)) ?_
    · rw [move_here (follows.stands (before _))] at onward
      exact ⟨[], signing, trivial, rfl, onward⟩
    · intro page some
      rw [pagesOf_outside (after Unit)] at some
      exact length page ((pagesOf_outside (before Unit)).trans some)
  | ends through silent kept =>
    have onward {script : SignPoint (Fin count)} (idle : script.generating = false) :=
      mirrors.quiet apart confined first taken silent kept (.ended through idle)
        fun page some => by rw [pagesOf_ended through] at some; cases some
    by_cases making : (signing.point index).generating = true
    · obtain ⟨labels, guarded, moved⟩ := gives_up making
      exact ⟨labels, _, guarded, moved, onward rfl⟩
    · have same := onward (Bool.eq_false_iff.mpr making)
      rw [move_here rfl] at same
      exact ⟨[], signing, trivial, rfl, same⟩
  | testTool same =>
    obtain ⟨labels, guarded, moved⟩ := go rfl (fun tests => by cases tests) rfl
    exact ⟨labels, _, guarded, moved, mirrors.quiet apart confined first taken rfl
      (fun _ _ => by rw [same]) (.running rfl) length⟩
  | testKey same =>
    obtain ⟨labels, guarded, moved⟩ := go rfl (fun _ => rfl) rfl
    refine ⟨labels, _, guarded, moved, mirrors.quiet apart confined first taken rfl
      (fun _ _ => by rw [same]) ?_ ?_⟩
    · rw [atKey, mirrors.key.present]
      cases signing.key <;> exact .running rfl
    · split <;> exact length
  | testCert same =>
    obtain ⟨labels, guarded, moved⟩ := go rfl (fun _ => rfl) rfl
    refine ⟨labels, _, guarded, moved, mirrors.quiet apart confined first taken rfl
      (fun _ _ => by rw [same]) ?_ ?_⟩
    · rw [atCert, mirrors.cert.present]
      cases signing.cert <;> exact .running rfl
    · split
      · exact fun page none => by cases none
      · exact length
  | findOpenssl same =>
    obtain ⟨labels, guarded, moved⟩ := go rfl (fun tests => by cases tests) rfl
    exact ⟨labels, _, guarded, moved, mirrors.quiet apart confined first taken rfl
      (fun _ _ => by rw [same]) (.running rfl) length⟩
  | writeKey text same =>
    obtain ⟨labels, guarded, moved⟩ := go rfl (fun tests => by cases tests) rfl
    have none : (written past index).length = 0 := length 0 rfl
    refine ⟨labels, _, guarded, moved, mirrors.moved apart confined taken
      (fun other different => SigningTree.move_other signing _ different) ?_ ?_ ?_ ?_⟩
    · refine ⟨text, by rw [← none, written_last], ?_⟩
      rw [same, ← atKey, Function.update_self]
    · rw [same, atKey, Function.update_of_ne first.different.symm]
      exact mirrors.cert.grow grows_snoc
    · exact .running (congrArg some (SigningTree.move_self signing index _).symm)
    · intro page here
      rw [← Option.some.inj here, List.length_append, none]
      rfl
  | writeCert text same =>
    obtain ⟨labels, guarded, moved⟩ := go rfl (fun tests => by cases tests) rfl
    have one : (written past index).length = 1 := length 1 rfl
    refine ⟨labels, _, guarded, moved, mirrors.moved apart confined taken
      (fun other different => SigningTree.move_other signing _ different) ?_ ?_ ?_ ?_⟩
    · rw [same, atCert, Function.update_of_ne first.different]
      exact mirrors.key.grow grows_snoc
    · refine ⟨text, by rw [← one, written_last], ?_⟩
      rw [same, ← atCert, Function.update_self]
    · exact .running (congrArg some (SigningTree.move_self signing index _).symm)
    · exact fun page none => by cases none
  | sign key cert text signature hasKey hasCert copied signs same =>
    rw [atKey] at hasKey
    rw [atCert] at hasCert
    obtain ⟨maker, keyOwner, made⟩ := Holds.owned (hasKey ▸ mirrors.key)
    obtain ⟨certifier, certOwner, certified⟩ := Holds.owned (hasCert ▸ mirrors.cert)
    have signs' : signModule bothTools signing index .sign =
        some (signing.move index (.exited (some (maker, certifier)))) := by
      simp only [signModule, keyOwner, certOwner]
    obtain ⟨labels, guarded, moved⟩ := go rfl (fun tests => by cases tests) signs'
    obtain ⟨old, linked, copy⟩ := copied_reached apart confined reached here
    obtain rfl : text = old := by
      rw [copied] at copy
      exact Node.file.inj (Option.some.inj copy)
    refine ⟨labels, _, guarded, moved, mirrors.quiet apart confined first taken rfl ?_ ?_ ?_⟩
    · intro place member
      rw [same]
      refine Function.update_of_ne ?_ ..
      rintro rfl
      exact (shares_of_apart apart index).keys_free member owns_ko
    · refine .built (grows_snoc _ _ _ made) (grows_snoc _ _ _ certified) ?_ ?_ signs
      · rw [same, Function.update_of_ne linked_ne_ko]
        exact linked
      · rw [same, Function.update_self]
    · exact fun page none => by cases none

/-- Each run of `make -j` in which builds look for the key files undisturbed is mirrored by a run
of the scripts in which they do. -/
theorem scripts_mirrored (apart : Apart curdir kmods)
    (confined : Confined kbuild others curdir kmods)
    (first : FirstSigned host kmods priv der start) (index : Fin count)
    (calm : ((makefile kbuild others host kmods).parallel start).Guarded Undisturbed
      ((makefile kbuild others host kmods).parallel start).initial events)
    (onward : ((makefile kbuild others host kmods).parallel start).run
      ((makefile kbuild others host kmods).parallel start).initial events = some state) :
    ∃ labels signing, (signingMachine (Fin count) bothTools).Guarded SigningTree.Alone
        (signingMachine (Fin count) bothTools).initial labels ∧
      (signingMachine (Fin count) bothTools).run (signingMachine (Fin count) bothTools).initial
        labels = some signing ∧
      Mirrors host kmods priv der events state signing := by
  have begun : Mirrors host kmods priv der ([] : List (MakeEvent (Target count)
      (InputOf KbuildInput Input))) ((makefile kbuild others host kmods).parallel start).initial
      (signingMachine (Fin count) bothTools).initial :=
    ⟨first.noKey, first.noCert, fun _ => .unstarted, fun _ _ some => Option.some.inj some⟩
  refine Machine.guarded_matched SigningTree.Alone (Mirrors host kmods priv der) ?_ rfl begun calm
    onward
  intro past state event next signing early mirrors allowed taken
  cases event with
  | start goal => exact ⟨[], signing, trivial, rfl, mirrors.started taken⟩
  | step goal input =>
    obtain ⟨point, point', store, here, moved, rfl⟩ := Makefile.step_step taken
    cases goal with
    | sample index => exact mirrors.stepped apart confined first ⟨past, early⟩ allowed here moved
    | all | target | compdb | tags | cscope =>
      obtain ⟨atKey, atCert⟩ := first.files index
      have writes := other_writes confined (by simp) moved
      have kept : ∀ place ∈ (kmods index).keyFiles, store place = state.store place :=
        fun place key => writes place fun owned => apart.keys index place key _ owned
      refine ⟨[], signing, trivial, rfl, mirrors.beside ?_ ?_ ?_ ?_⟩
      · exact fun index => samplePoint_other state (by simp) _ _
      · exact fun index => written_other fun _ impossible => by cases impossible
      · exact ⟨atKey ▸ kept _ signKey_mem, atCert ▸ kept _ signCert_mem⟩
      · exact fun index place owned => writes place fun other =>
          own_not_foreign apart owned ⟨_, by simp, other⟩

/-- The first signed builds: as long as no build looks for the key files while another makes them,
every sample that is built is signed with the key and the certificate that the files hold, which
the `openssl` of one sample wrote. -/
theorem first_builds_signed (apart : Apart curdir kmods)
    (confined : Confined kbuild others curdir kmods)
    (first : FirstSigned host kmods priv der start)
    (calm : ((makefile kbuild others host kmods).parallel start).Guarded Undisturbed
      ((makefile kbuild others host kmods).parallel start).initial events)
    (onward : ((makefile kbuild others host kmods).parallel start).run
      ((makefile kbuild others host kmods).parallel start).initial events = some state)
    (built : samplePoint state index = some .built) :
    ∃ maker key cert, (written events maker)[0]? = some key ∧
      (written events maker)[1]? = some cert ∧
      state.store priv = some (.file key) ∧ state.store der = some (.file cert) ∧
      ∀ other, samplePoint state other = some .built → ∃ text signature,
        state.store (kmods other).linked = some (.file text) ∧
        state.store (kmods other).ko = some (.file (text ++ signature)) ∧
        host.signs key cert text signature = true := by
  obtain ⟨labels, signing, guarded, moved, mirrors⟩ :=
    scripts_mirrored apart confined first index calm onward
  have orderly := orderly_run rfl rfl guarded moved
  have signed (other : Fin count) (built : samplePoint state other = some .built) :
      ∃ pair, signing.key = some pair ∧ signing.cert = some pair ∧
        ∃ key cert text signature, (written events pair)[0]? = some key ∧
          (written events pair)[1]? = some cert ∧
          state.store (kmods other).linked = some (.file text) ∧
          state.store (kmods other).ko = some (.file (text ++ signature)) ∧
          host.signs key cert text signature = true := by
    have follows := mirrors.follows other
    rw [built] at follows
    obtain ⟨maker, certifier, exited, whole⟩ := follows.signed
    obtain ⟨pair, atKey, atCert, same⟩ := orderly.exits exited
    obtain ⟨rfl, rfl⟩ := Prod.mk.inj (Option.some.inj same)
    exact ⟨_, atKey, atCert, whole⟩
  obtain ⟨maker, atKey, atCert, key, cert, text, signature, made, certified, -⟩ :=
    signed index built
  have hasKey := mirrors.key
  have hasCert := mirrors.cert
  rw [atKey] at hasKey
  rw [atCert] at hasCert
  obtain ⟨_, made', keyFile⟩ := hasKey
  obtain ⟨_, certified', certFile⟩ := hasCert
  obtain rfl := Option.some.inj (made.symm.trans made')
  obtain rfl := Option.some.inj (certified.symm.trans certified')
  refine ⟨maker, _, _, made, certified, keyFile, certFile, fun other built => ?_⟩
  obtain ⟨pair, atKey', -, key', cert', text, signature, made', certified', linked, module,
    signs⟩ := signed other built
  obtain rfl := Option.some.inj (atKey.symm.trans atKey')
  rw [made] at made'
  rw [certified] at certified'
  obtain rfl := Option.some.inj made'
  obtain rfl := Option.some.inj certified'
  exact ⟨text, signature, linked, module, signs⟩

theorem trial_first : FirstSigned fullHost trialKmods ["r".toList, "MOK.priv".toList]
    ["r".toList, "MOK.der".toList] trialTree :=
  ⟨fun _ => ⟨rfl, rfl⟩, by decide, fun _ => rfl, fun _ => rfl, rfl, by decide, by decide⟩

/-- One of two builds side by side makes the pair, and the other looks for it afterwards. -/
theorem first_builds_signed_side_by_side :
    ∃ state, ((trial fullHost).parallel trialTree).Reachable state ∧
      samplePoint state sleepInSoftirq = some .built ∧
      ∃ text, state.store (trialKmods sleepInSoftirq).ko =
        some (.file (text ++ "pair".toList)) := by
  obtain ⟨state, calm, onward, found⟩ := ((trial fullHost).parallel trialTree).guarded_of_run
    Undisturbed (sideBySide dangerSamples ++ toTheEnd [sleepInHardirq] ++ withKeys [sleepInSoftirq])
    (fun state => samplePoint state sleepInSoftirq = some .built ∧
      state.store ["r".toList, "MOK.priv".toList] = some (.file "pair".toList))
    (by decide +kernel)
  obtain ⟨built, keyFile⟩ := of_decide_eq_true found
  obtain ⟨maker, key, cert, -, -, keyFile', -, signed⟩ :=
    first_builds_signed trial_apart trial_confined trial_first calm onward built
  rw [keyFile] at keyFile'
  cases keyFile'
  obtain ⟨text, signature, -, module, signs⟩ := signed sleepInSoftirq built
  obtain ⟨-, rfl⟩ : "pair".toList = cert ∧ signature = "pair".toList := of_decide_eq_true signs
  exact ⟨state, ⟨_, onward⟩, built, text, module⟩

end Runs

end KernelSamples.Scripts

import KernelSamples.Scripts.Kmod

/-! What the recipe of `build` reads and writes, and what it has made at each point. -/

namespace KernelSamples.Scripts

open Lib

/-- What `build` writes beside the key files and `clean` removes. -/
def Kmod.Owns (kmod : Kmod) (place : List (List Char)) : Prop :=
  kmod.bdir <+: place ∨ place = kmod.ko

/-- Nothing that the recipe reads or writes is foreign. -/
structure Kmod.Clear (kmod : Kmod) (foreign : List (List Char) → Prop) : Prop where
  own : ∀ place, kmod.Owns place → ¬ foreign place
  source : ¬ foreign kmod.cSource
  keys : ∀ place ∈ kmod.keyFiles, ¬ foreign place

/-- What is shared has the key files and nothing else that the recipe reads or writes. -/
structure Kmod.Shares (kmod : Kmod) (shared : List (List Char) → Bool) : Prop where
  keys : ∀ place ∈ kmod.keyFiles, shared place = true
  own : ∀ place, kmod.Owns place → shared place = false
  source : shared kmod.cSource = false

/-- The script makes a key pair. -/
def BuildPoint.generating {Progress : Type} : BuildPoint Progress → Bool
  | .findOpenssl | .writeKey | .writeCert => true
  | _ => false

section Footprint

variable {Progress KbuildInput : Type} {host : Host} {kmod : Kmod} {tree tree' other : Tree}
  {kbuild : Recipe (List (List Char)) (Option Node) Progress KbuildInput}
  {point point' : BuildPoint Progress} {foreign : List (List Char) → Prop}

theorem owns_bdir (rest : List (List Char)) : kmod.Owns (kmod.bdir ++ rest) :=
  .inl (List.prefix_append _ _)

theorem owns_self : kmod.Owns kmod.bdir := .inl (List.prefix_refl _)

theorem owns_ko : kmod.Owns kmod.ko := .inr rfl

/-- One place is written. -/
theorem update_writes {place : List (List Char)} {node : Option Node} (owned : kmod.Owns place) :
    ∀ other, ¬ kmod.Owns other → Function.update tree place node other = tree other := by
  intro other apart
  apply Function.update_of_ne
  rintro rfl
  exact apart owned

/-- Both trees get the same node at a place. -/
theorem update_agrees (agrees : ∀ place, ¬ foreign place → tree place = other place)
    (written : List (List Char)) (node : Option Node) : ∀ place, ¬ foreign place →
      Function.update tree written node place = Function.update other written node place := by
  intro place near
  by_cases same : place = written
  · subst same
    rw [Function.update_self, Function.update_self]
  · rw [Function.update_of_ne same, Function.update_of_ne same, agrees place near]

theorem Tree.text_eq_some {text : List Char} {place : List (List Char)} :
    tree.text place = some text ↔ tree place = some (.file text) := by
  rw [Tree.text]
  split
  · rename_i found here
    simp [here]
  · rename_i other
    constructor
    · exact fun none => by cases none
    · exact fun here => absurd here (other text)

theorem signKey_mem : kmod.signKey ∈ kmod.keyFiles := List.mem_cons_self

theorem signCert_mem : kmod.signCert ∈ kmod.keyFiles := List.mem_cons_of_mem _ List.mem_cons_self

/-- A command writes one node at most: in the build directory, or the text of the module. -/
theorem buildGoes_cases (taken : buildGoes kbuild host kmod tree point = some (point', tree')) :
    tree' = tree ∨ ∃ place node, tree' = Function.update tree place (some node) ∧
      (kmod.bdir <+: place ∨ place = kmod.ko ∧ ∃ text, node = .file text) := by
  unfold buildGoes at taken
  split at taken
  · split at taken <;> cases taken <;> exact .inl rfl
  · split at taken <;> cases taken
    · exact .inr ⟨_, _, rfl, .inl (List.prefix_refl _)⟩
    · exact .inl rfl
    · exact .inl rfl
  · cases taken
    exact .inl rfl
  · split at taken <;> cases taken
    exact .inr ⟨_, _, rfl, .inl (List.prefix_append _ _)⟩
  · split at taken <;> cases taken <;> exact .inr ⟨_, _, rfl, .inl (List.prefix_append _ _)⟩
  · split at taken <;> cases taken
    exact .inr ⟨_, _, rfl, .inl (List.prefix_append _ _)⟩
  · cases taken
    exact .inl rfl
  · split at taken <;> cases taken <;> exact .inl rfl
  · split at taken <;> cases taken
    · exact .inr ⟨_, _, rfl, .inr ⟨rfl, _, rfl⟩⟩
    · exact .inr ⟨_, _, rfl, .inr ⟨rfl, _, rfl⟩⟩
    · exact .inl rfl
  · cases taken
    exact .inr ⟨_, _, rfl, .inr ⟨rfl, _, rfl⟩⟩
  · cases taken
    exact .inl rfl
  · cases taken
    exact .inl rfl
  · cases taken
    exact .inl rfl
  · cases taken
    exact .inl rfl
  all_goals cases taken

theorem buildGoes_writes (taken : buildGoes kbuild host kmod tree point = some (point', tree')) :
    ∀ place, ¬ kmod.Owns place → tree' place = tree place := by
  rcases buildGoes_cases taken with rfl | ⟨place, node, rfl, inside | ⟨rfl, -⟩⟩
  · exact fun _ _ => rfl
  · exact update_writes (.inl inside)
  · exact update_writes owns_ko

theorem buildFails_tree (taken : buildFails tree point = some (point', tree')) : tree' = tree := by
  unfold buildFails at taken
  split at taken <;> cases taken <;> rfl

/-- `openssl` writes the key and then the certificate. -/
theorem buildWrites_cases {text : List Char}
    (taken : buildWrites kmod tree text point = some (point', tree')) :
    ∃ place ∈ kmod.keyFiles, tree place ≠ some .directory ∧ point.generating = true ∧
      tree' = Function.update tree place (some (.file text)) ∧
      (point = .writeKey ∧ point' = .writeCert ∨ point = .writeCert ∧ point' = .sign) := by
  unfold buildWrites at taken
  split at taken
  · split at taken <;> cases taken <;> rename_i here <;>
      exact ⟨_, signKey_mem, by simp [here], rfl, rfl, .inl ⟨rfl, rfl⟩⟩
  · split at taken <;> cases taken <;> rename_i here <;>
      exact ⟨_, signCert_mem, by simp [here], rfl, rfl, .inr ⟨rfl, rfl⟩⟩
  · cases taken

theorem buildSigns_cases {signature : List Char}
    (taken : buildSigns host kmod tree signature point = some (point', tree')) :
    point = .sign ∧ point' = .built ∧ ∃ key cert text, tree.text kmod.signKey = some key ∧
      tree.text kmod.signCert = some cert ∧ tree kmod.ko = some (.file text) ∧
      host.signs key cert text signature = true ∧
      tree' = Function.update tree kmod.ko (some (.file (text ++ signature))) := by
  unfold buildSigns at taken
  split at taken
  · split at taken
    · rename_i key cert text hasKey hasCert module
      split at taken
      · rename_i signs
        cases taken
        exact ⟨rfl, rfl, key, cert, text, hasKey, hasCert, Tree.text_eq_some.mp module, signs, rfl⟩
      · cases taken
    · cases taken
  · cases taken

/-- All but `openssl` write what the sample owns only. -/
theorem step_writes (below : kbuild.Writes (kmod.bdir <+: ·)) {input : BuildInput KbuildInput}
    (taken : buildStep kbuild host kmod point tree input = some (point', tree'))
    (other : ∀ text, input ≠ .wrote text) :
    ∀ place, ¬ kmod.Owns place → tree' place = tree place := by
  cases input with
  | go => exact buildGoes_writes taken
  | fails =>
    rw [buildFails_tree taken]
    exact fun _ _ => rfl
  | kbuild input =>
    simp only [buildStep] at taken
    split at taken
    · obtain ⟨next, moved, same⟩ := Option.map_eq_some_iff.mp taken
      cases same
      exact fun place apart => below moved place fun inside => apart (.inl inside)
    · cases taken
  | wrote text => exact absurd rfl (other text)
  | signed signature =>
    obtain ⟨-, -, key, cert, text, -, -, -, -, rfl⟩ := buildSigns_cases taken
    exact update_writes owns_ko
  | killed =>
    simp only [buildStep] at taken
    split at taken <;> cases taken
    exact fun _ _ => rfl

theorem build_writes (below : kbuild.Writes (kmod.bdir <+: ·)) :
    (build kbuild host kmod).Writes fun place => kmod.Owns place ∨ place ∈ kmod.keyFiles := by
  intro point tree input point' tree' taken place apart
  change buildStep kbuild host kmod point tree input = some (point', tree') at taken
  by_cases wrote : ∃ text, input = .wrote text
  · obtain ⟨text, rfl⟩ := wrote
    obtain ⟨written, key, -, -, rfl, -⟩ := buildWrites_cases taken
    refine Function.update_of_ne ?_ ..
    rintro rfl
    exact apart (.inr key)
  · exact step_writes below taken (not_exists.mp wrote) place fun owned => apart (.inl owned)

/-- A directory that is not the sample's stays, as `openssl` writes files only. -/
theorem step_keeps_directory (below : kbuild.Writes (kmod.bdir <+: ·))
    {input : BuildInput KbuildInput}
    (taken : buildStep kbuild host kmod point tree input = some (point', tree'))
    {place : List (List Char)} (apart : ¬ kmod.Owns place)
    (here : tree place = some .directory) : tree' place = some .directory := by
  by_cases wrote : ∃ text, input = .wrote text
  · obtain ⟨text, rfl⟩ := wrote
    obtain ⟨written, -, free, -, rfl, -⟩ := buildWrites_cases taken
    refine (Function.update_of_ne ?_ ..).trans here
    rintro rfl
    exact free here
  · exact (step_writes below taken (not_exists.mp wrote) place apart).trans here

/-- What comes to a place that is not the sample's is a file. -/
theorem step_node (below : kbuild.Writes (kmod.bdir <+: ·)) {input : BuildInput KbuildInput}
    (taken : buildStep kbuild host kmod point tree input = some (point', tree'))
    {place : List (List Char)} (apart : ¬ kmod.Owns place) {node : Node}
    (here : tree' place = some node) : tree place = some node ∨ ∃ text, node = .file text := by
  by_cases wrote : ∃ text, input = .wrote text
  · obtain ⟨text, rfl⟩ := wrote
    obtain ⟨written, -, -, -, rfl, -⟩ := buildWrites_cases taken
    by_cases same : place = written
    · subst same
      rw [Function.update_self] at here
      exact .inr ⟨text, (Option.some.inj here).symm⟩
    · rw [Function.update_of_ne same] at here
      exact .inl here
  · rw [step_writes below taken (not_exists.mp wrote) place apart] at here
    exact .inl here

theorem preflight_congr (clear : kmod.Clear foreign)
    (agrees : ∀ place, ¬ foreign place → tree place = other place) :
    preflight host kmod other = preflight host kmod tree := by
  unfold preflight
  rw [agrees _ clear.source]

theorem text_congr (clear : kmod.Clear foreign)
    (agrees : ∀ place, ¬ foreign place → tree place = other place) {place : List (List Char)}
    (key : place ∈ kmod.keyFiles) : tree.text place = Tree.text other place := by
  rw [Tree.text, Tree.text, agrees place (clear.keys place key)]

theorem buildGoes_blind (clear : kmod.Clear foreign)
    (agrees : ∀ place, ¬ foreign place → tree place = other place)
    (taken : buildGoes kbuild host kmod tree point = some (point', tree')) :
    ∃ other', buildGoes kbuild host kmod other point = some (point', other') ∧
      ∀ place, ¬ foreign place → tree' place = other' place := by
  have inside (rest : List (List Char)) := agrees _ (clear.own _ (owns_bdir rest))
  have atBdir := agrees _ (clear.own _ owns_self)
  have atKo := agrees _ (clear.own _ owns_ko)
  have atLinked : tree kmod.linked = other kmod.linked := inside _
  cases point with
  | preflight =>
    simp only [buildGoes, preflight_congr clear agrees] at taken ⊢
    split at taken <;> cases taken <;> exact ⟨other, rfl, agrees⟩
  | mkdir =>
    simp only [buildGoes, ← atBdir] at taken ⊢
    split at taken <;> cases taken
    · exact ⟨_, rfl, update_agrees agrees _ _⟩
    · exact ⟨other, rfl, agrees⟩
    · exact ⟨other, rfl, agrees⟩
  | link rest =>
    cases rest with
    | nil =>
      cases taken
      exact ⟨other, rfl, agrees⟩
    | cons c rest =>
      rw [buildGoes] at taken ⊢
      rw [← inside [c]]
      split at taken
      · cases taken
      · rename_i free
        cases taken
        exact ⟨_, if_neg free, update_agrees agrees _ _⟩
  | objM =>
    simp only [buildGoes, ← inside ["Kbuild".toList]] at taken ⊢
    split at taken <;> cases taken <;> exact ⟨_, rfl, update_agrees agrees _ _⟩
  | objs =>
    simp only [buildGoes, ← inside ["Kbuild".toList]] at taken ⊢
    split at taken <;> cases taken
    exact ⟨_, rfl, update_agrees agrees _ _⟩
  | make =>
    cases taken
    exact ⟨other, rfl, agrees⟩
  | kbuild progress =>
    simp only [buildGoes] at taken ⊢
    split at taken <;> cases taken <;> exact ⟨other, rfl, agrees⟩
  | copy =>
    simp only [buildGoes, ← atLinked, ← atKo] at taken ⊢
    split at taken <;> cases taken
    · exact ⟨_, rfl, update_agrees agrees _ _⟩
    · exact ⟨_, rfl, update_agrees agrees _ _⟩
    · exact ⟨other, rfl, agrees⟩
  | copying text =>
    cases taken
    exact ⟨_, rfl, update_agrees agrees _ _⟩
  | testTool | findOpenssl =>
    cases taken
    exact ⟨other, rfl, agrees⟩
  | testKey | testCert =>
    simp only [buildGoes, text_congr clear agrees signKey_mem,
      text_congr clear agrees signCert_mem] at taken ⊢
    cases taken
    exact ⟨other, rfl, agrees⟩
  | stopped why | writeKey | writeCert | sign | built | failed => cases taken

theorem build_blind (clear : kmod.Clear foreign) (sightless : kbuild.Blind foreign) :
    (build kbuild host kmod).Blind foreign := by
  intro point tree input point' tree' other agrees taken
  change buildStep kbuild host kmod point tree input = some (point', tree') at taken
  change ∃ other', buildStep kbuild host kmod point other input = some (point', other') ∧ _
  cases input with
  | go => exact buildGoes_blind clear agrees taken
  | fails =>
    obtain rfl := buildFails_tree taken
    refine ⟨other, ?_, agrees⟩
    simp only [buildStep, buildFails] at taken ⊢
    split at taken <;> cases taken <;> rfl
  | kbuild input =>
    simp only [buildStep] at taken ⊢
    split at taken
    · obtain ⟨next, moved, same⟩ := Option.map_eq_some_iff.mp taken
      cases same
      obtain ⟨other', follows, agrees'⟩ := sightless agrees moved
      exact ⟨other', by rw [follows]; rfl, agrees'⟩
    · cases taken
  | wrote text =>
    have atKey := agrees _ (clear.keys _ signKey_mem)
    have atCert := agrees _ (clear.keys _ signCert_mem)
    simp only [buildStep] at taken ⊢
    cases point with
    | writeKey =>
      simp only [buildWrites, ← atKey] at taken ⊢
      split at taken <;> cases taken <;> exact ⟨_, rfl, update_agrees agrees _ _⟩
    | writeCert =>
      simp only [buildWrites, ← atCert] at taken ⊢
      split at taken <;> cases taken <;> exact ⟨_, rfl, update_agrees agrees _ _⟩
    | _ => cases taken
  | signed signature =>
    have atKo := agrees _ (clear.own _ owns_ko)
    obtain ⟨rfl, rfl, key, cert, text, hasKey, hasCert, module, signs, rfl⟩ :=
      buildSigns_cases taken
    rw [text_congr clear agrees signKey_mem] at hasKey
    rw [text_congr clear agrees signCert_mem] at hasCert
    have copy : Tree.text other kmod.ko = some text := Tree.text_eq_some.mpr (atKo ▸ module)
    exact ⟨_, by simp [buildStep, buildSigns, hasKey, hasCert, copy, signs],
      update_agrees agrees _ _⟩
  | killed =>
    rw [buildStep] at taken ⊢
    split at taken
    · rename_i unfinished
      cases taken
      exact ⟨other, if_pos unfinished, agrees⟩
    · cases taken

end Footprint

/-- Every source has its link in the build directory. -/
def Kmod.Links (kmod : Kmod) (tree : Tree) (sources : List (List Char)) : Prop :=
  ∀ c ∈ sources, tree (kmod.bdir ++ [c]) = some (.symlink (kmod.src ++ [c]))

/-- What is ready for kbuild while no command has failed. -/
def Kmod.Prepared {Progress : Type} (kmod : Kmod) (tree : Tree) : BuildPoint Progress → Prop
  | .link rest => ∃ done, kmod.srcs = done ++ rest ∧ kmod.Links tree done
  | .objM => kmod.Links tree kmod.srcs
  | .objs => kmod.Links tree kmod.srcs ∧
      tree (kmod.bdir ++ ["Kbuild".toList]) = some (.file kmod.objM)
  | .make => kmod.Links tree kmod.srcs ∧
      tree (kmod.bdir ++ ["Kbuild".toList]) = some (.file (kmod.objM ++ kmod.objsLine))
  | _ => True

/-- The module next to the source is the one that kbuild linked. -/
def Kmod.Copy (kmod : Kmod) (tree : Tree) : Prop :=
  ∃ text, tree kmod.linked = some (.file text) ∧ tree kmod.ko = some (.file text)

/-- The module next to the source is the one that kbuild linked, with nothing or a signature after
it. -/
def Kmod.Signed (host : Host) (kmod : Kmod) (tree : Tree) : Prop :=
  ∃ text signature, tree kmod.linked = some (.file text) ∧
    tree kmod.ko = some (.file (text ++ signature)) ∧
    (signature = [] ∨ ∃ key cert, host.signs key cert text signature = true)

def Kmod.Copied {Progress : Type} (host : Host) (kmod : Kmod) (tree : Tree) :
    BuildPoint Progress → Prop
  | .copying text => tree kmod.linked = some (.file text)
  | .testTool | .testKey | .testCert | .findOpenssl | .writeKey | .writeCert | .sign =>
    kmod.Copy tree
  | .built => kmod.Signed host tree
  | _ => True

section Stages

variable {Progress KbuildInput : Type} {host : Host} {kmod : Kmod} {tree tree' : Tree}
  {kbuild : Recipe (List (List Char)) (Option Node) Progress KbuildInput}
  {point point' : BuildPoint Progress} {input : BuildInput KbuildInput}
  {shared : List (List Char) → Bool}
  {moves : List (Recipe.Move (List (List Char)) (Option Node) (BuildInput KbuildInput))}

theorem Kmod.Shares.keys_free (shares : kmod.Shares shared) {place : List (List Char)}
    (key : place ∈ kmod.keyFiles) : ¬ kmod.Owns place := by
  intro owned
  have shown := shares.keys place key
  rw [shares.own place owned] at shown
  cases shown

/-- What others write to is not the sample's. -/
theorem Kmod.Shares.kept (shares : kmod.Shares shared) (seen : Tree) {place : List (List Char)}
    (owned : kmod.Owns place) : (if shared place then seen place else tree place) = tree place :=
  if_neg (by rw [shares.own place owned]; exact Bool.false_ne_true)

/-- `openssl` writes nothing of the sample's. -/
theorem buildWrites_keeps (shares : kmod.Shares shared) {text : List Char}
    (taken : buildWrites kmod tree text point = some (point', tree')) {place : List (List Char)}
    (owned : kmod.Owns place) : tree' place = tree place := by
  obtain ⟨written, key, -, -, rfl, -⟩ := buildWrites_cases taken
  refine Function.update_of_ne ?_ ..
  rintro rfl
  exact shares.keys_free key owned

theorem linked_ne_ko : kmod.linked ≠ kmod.ko := by
  intro same
  have lengths := congrArg List.length same
  simp [Kmod.linked, Kmod.ko, Kmod.bdir] at lengths

theorem sourceOf_object (stem : List Char) :
    Kmod.sourceOf (stem ++ ".o".toList) = stem ++ ".c".toList := by
  have suffix : ".o".toList.isSuffixOf (stem ++ ".o".toList) = true :=
    List.isSuffixOf_iff_suffix.mpr (List.suffix_append _ _)
  have object : stem ++ ".o".toList = (stem ++ ['.']) ++ ['o'] := by simp
  rw [Kmod.sourceOf, if_pos suffix, object, List.dropLast_concat]
  simp

theorem kbuild_not_mem_srcs
    (objects : ∀ object ∈ kmod.sampleMk.sampleObjs, ".o".toList <:+ object) :
    "Kbuild".toList ∉ kmod.srcs := by
  have different : ∀ stem, "Kbuild".toList ≠ stem ++ ".c".toList := by
    intro stem same
    have suffix : ".c".toList <:+ "Kbuild".toList := ⟨stem, same.symm⟩
    revert suffix
    decide
  intro member
  rw [Kmod.srcs] at member
  split at member
  · exact different _ (List.mem_singleton.mp member)
  · obtain ⟨object, named, same⟩ := List.mem_map.mp member
    obtain ⟨stem, rfl⟩ := objects object named
    rw [sourceOf_object] at same
    exact different stem same.symm

theorem Kmod.Links.link {done : List (List Char)} (links : kmod.Links tree done)
    (c : List Char) : kmod.Links (Function.update tree (kmod.bdir ++ [c])
      (some (.symlink (kmod.src ++ [c])))) (done ++ [c]) := by
  intro other member
  by_cases same : other = c
  · subst same
    rw [Function.update_self]
  · have different : kmod.bdir ++ [other] ≠ kmod.bdir ++ [c] := by
      simpa using same
    rw [Function.update_of_ne different]
    rcases List.mem_append.mp member with earlier | last
    · exact links other earlier
    · exact absurd (List.mem_singleton.mp last) same

theorem Kmod.Links.write (links : kmod.Links tree kmod.srcs) (text : List Char)
    (named : "Kbuild".toList ∉ kmod.srcs) :
    kmod.Links (Function.update tree (kmod.bdir ++ ["Kbuild".toList]) (some (.file text)))
      kmod.srcs := by
  intro c member
  have different : kmod.bdir ++ [c] ≠ kmod.bdir ++ ["Kbuild".toList] := by
    intro same
    rw [List.append_cancel_left_eq, List.cons.injEq] at same
    exact named (same.1 ▸ member)
  rw [Function.update_of_ne different]
  exact links c member

/-- Only the sample's places matter. -/
theorem Kmod.Prepared.congr (prepared : kmod.Prepared tree point)
    (same : ∀ place, kmod.Owns place → tree' place = tree place) : kmod.Prepared tree' point := by
  have links : ∀ sources, kmod.Links tree sources → kmod.Links tree' sources :=
    fun sources known c member => (same _ (owns_bdir [c])).trans (known c member)
  have text : ∀ node, tree (kmod.bdir ++ ["Kbuild".toList]) = some node →
      tree' (kmod.bdir ++ ["Kbuild".toList]) = some node :=
    fun node known => (same _ (owns_bdir _)).trans known
  cases point with
  | link rest =>
    obtain ⟨done, split, known⟩ := prepared
    exact ⟨done, split, links done known⟩
  | objM => exact links _ prepared
  | objs | make => exact ⟨links _ prepared.1, text _ prepared.2⟩
  | _ => trivial

theorem Kmod.Copied.congr (copied : kmod.Copied host tree point)
    (same : ∀ place, kmod.Owns place → tree' place = tree place) :
    kmod.Copied host tree' point := by
  have linked : tree' kmod.linked = tree kmod.linked := same _ (owns_bdir _)
  have module : tree' kmod.ko = tree kmod.ko := same _ owns_ko
  cases point with
  | copying | testTool | testKey | testCert | findOpenssl | writeKey | writeCert | sign | built =>
    simpa only [Kmod.Copied, Kmod.Copy, Kmod.Signed, linked, module] using copied
  | _ => trivial

/-- A module that is copied may be left unsigned. -/
theorem Kmod.Copy.unsigned (copy : kmod.Copy tree) : kmod.Signed host tree := by
  obtain ⟨text, linked, module⟩ := copy
  exact ⟨text, [], linked, by rw [List.append_nil, module], .inl rfl⟩

theorem copied_goes (copied : kmod.Copied host tree point)
    (taken : buildGoes kbuild host kmod tree point = some (point', tree')) :
    kmod.Copied host tree' point' := by
  cases point with
  | copy =>
    simp only [buildGoes] at taken
    split at taken <;> cases taken
    · rename_i linked absent
      exact (Function.update_of_ne linked_ne_ko ..).trans linked
    · rename_i linked present
      exact (Function.update_of_ne linked_ne_ko ..).trans linked
    · trivial
  | copying text =>
    simp only [buildGoes, Option.some.injEq, Prod.mk.injEq] at taken
    obtain ⟨rfl, rfl⟩ := taken
    have kept : Function.update tree kmod.ko (some (.file text)) kmod.linked = some (.file text) :=
      (Function.update_of_ne linked_ne_ko ..).trans copied
    have written : Function.update tree kmod.ko (some (.file text)) kmod.ko = some (.file text) :=
      Function.update_self ..
    have copy : kmod.Copy (Function.update tree kmod.ko (some (.file text))) :=
      ⟨text, kept, written⟩
    by_cases sign : kmod.sign = true
    · rw [if_pos sign]
      exact copy
    · rw [if_neg sign]
      exact copy.unsigned
  | testTool | findOpenssl =>
    cases taken
    split
    · exact copied
    · exact Kmod.Copy.unsigned copied
  | testKey | testCert =>
    cases taken
    split <;> exact copied
  | preflight | mkdir | link rest | objM | objs | make | kbuild progress | writeKey | writeCert
  | sign | stopped why | built | failed =>
    unfold buildGoes at taken
    repeat' split at taken
    all_goals first
      | (cases taken; done)
      | (cases taken; trivial)

theorem copied_step (shares : kmod.Shares shared) (copied : kmod.Copied host tree point)
    (taken : buildStep kbuild host kmod point tree input = some (point', tree')) :
    kmod.Copied host tree' point' := by
  cases input with
  | go => exact copied_goes copied taken
  | fails =>
    simp only [buildStep] at taken
    unfold buildFails at taken
    split at taken <;> cases taken <;> trivial
  | kbuild moved =>
    simp only [buildStep] at taken
    split at taken
    · obtain ⟨next, moved, same⟩ := Option.map_eq_some_iff.mp taken
      cases same
      trivial
    · cases taken
  | wrote text =>
    have onward : kmod.Copied host tree point' := by
      obtain ⟨-, -, -, -, -, ⟨rfl, rfl⟩ | ⟨rfl, rfl⟩⟩ := buildWrites_cases taken <;> exact copied
    exact onward.congr fun place owned => buildWrites_keeps shares taken owned
  | signed signature =>
    obtain ⟨rfl, rfl, key, cert, text, -, -, module, signs, rfl⟩ := buildSigns_cases taken
    obtain ⟨old, linked, copy⟩ := copied
    rw [module, Option.some.injEq, Node.file.injEq] at copy
    subst copy
    exact ⟨text, signature, (Function.update_of_ne linked_ne_ko ..).trans linked,
      Function.update_self .., .inr ⟨key, cert, signs⟩⟩
  | killed =>
    rw [buildStep] at taken
    split at taken <;> cases taken
    trivial

/-- What the recipe has copied, whatever others do with the key files. -/
theorem copied_run (shares : kmod.Shares shared) {start : Tree}
    (onward : ((build kbuild host kmod).among shared start).run
      ((build kbuild host kmod).among shared start).initial moves = some (point, tree)) :
    kmod.Copied host tree point := by
  refine @Machine.run_invariant _ _ ((build kbuild host kmod).among shared start)
    (fun state => kmod.Copied host state.2 state.1) ?_
    ((build kbuild host kmod).among shared start).initial (point, tree) moves trivial onward
  intro state move next copied taken
  cases move with
  | own input => exact copied_step shares copied taken
  | others seen =>
    obtain rfl := Option.some.inj taken
    exact copied.congr fun place owned => shares.kept seen owned

end Stages

section Clean

variable {kmods : List Kmod} {kmod : Kmod} {tree : Tree} {place : List (List Char)}

end Clean

end KernelSamples.Scripts

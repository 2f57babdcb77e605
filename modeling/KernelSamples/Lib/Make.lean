import KernelSamples.Lib.Machine
import Mathlib.Logic.Function.Basic
import Mathlib.Logic.Relation

/-! Recipes that work on one store, each alone, among others that write what it shares with them,
and under `make -j`, which starts a recipe once all it waits for is made. -/

namespace Lib

universe u v w x t

/-- A recipe makes its steps on a store, with inputs from its environment. One that is through
has succeeded or failed and makes no more steps. -/
structure Recipe (Place : Type u) (Value : Type v) (Local : Type w) (Input : Type x) where
  start : Local
  step : Local → (Place → Value) → Input → Option (Local × (Place → Value))
  outcome : Local → Option Bool
  halted : ∀ {point succeeded}, outcome point = some succeeded →
    ∀ store input, step point store input = none

namespace Recipe

variable {Place : Type u} {Value : Type v} {Local : Type w} {Input : Type x}

def alone (recipe : Recipe Place Value Local Input) (store : Place → Value) :
    Machine (Local × (Place → Value)) Input where
  initial := (recipe.start, store)
  step state input := recipe.step state.1 state.2 input

/-- A step of the recipe, or others have written what they share with it. -/
inductive Move (Place : Type u) (Value : Type v) (Input : Type x) where
  | own (input : Input)
  | others (seen : Place → Value)

def Move.input : Move Place Value Input → Option Input
  | .own input => some input
  | .others _ => none

/-- The recipe among others that write nothing but what is shared. -/
def among (recipe : Recipe Place Value Local Input) (shared : Place → Bool)
    (store : Place → Value) : Machine (Local × (Place → Value)) (Move Place Value Input) where
  initial := (recipe.start, store)
  step state
    | .own input => recipe.step state.1 state.2 input
    | .others seen =>
      some (state.1, fun place => if shared place then seen place else state.2 place)

/-- Every step leaves what is not the recipe's own. -/
def Writes (recipe : Recipe Place Value Local Input) (own : Place → Prop) : Prop :=
  ∀ {point store input point' store'}, recipe.step point store input = some (point', store') →
    ∀ place, ¬ own place → store' place = store place

/-- What is in foreign places makes no difference to a step. -/
def Blind (recipe : Recipe Place Value Local Input) (foreign : Place → Prop) : Prop :=
  ∀ {point store input point' store' other}, (∀ place, ¬ foreign place →
    store place = other place) → recipe.step point store input = some (point', store') →
    ∃ other', recipe.step point other input = some (point', other') ∧
      ∀ place, ¬ foreign place → store' place = other' place

variable {recipe : Recipe Place Value Local Input} {shared : Place → Bool}
  {own foreign fewer : Place → Prop}
  {state last : Local × (Place → Value)} {moves : List (Move Place Value Input)}

/-- A recipe that sees nothing of some places sees nothing of fewer, as long as it does not write
the rest. -/
theorem Blind.narrow (blind : recipe.Blind foreign) (writes : recipe.Writes own)
    (less : ∀ place, fewer place → foreign place)
    (unwritten : ∀ place, foreign place → ¬ fewer place → ¬ own place) : recipe.Blind fewer := by
  intro point store input point' store' other agrees taken
  obtain ⟨other', follows, agrees'⟩ :=
    blind (fun place near => agrees place fun few => near (less place few)) taken
  refine ⟨other', follows, fun place near => ?_⟩
  by_cases away : foreign place
  · have apart := unwritten place away near
    rw [writes taken place apart, writes follows place apart, agrees place near]
  · exact agrees' place away

end Recipe

/-- Rules, with all that a target waits for, and the recipes. -/
structure Makefile (Target : Type t) (Place : Type u) (Value : Type v) (Local : Target → Type w)
    (Input : Target → Type x) where
  prerequisites : Target → List Target
  recipe : ∀ target, Recipe Place Value (Local target) (Input target)

/-- A recipe starts, or one that was started goes on. -/
inductive MakeEvent (Target : Type t) (Input : Target → Type x) where
  | start (target : Target)
  | step (target : Target) (input : Input target)

/-- Where each recipe that was started stands. -/
structure Making (Target : Type t) (Place : Type u) (Value : Type v)
    (Local : Target → Type w) where
  point : ∀ target, Option (Local target)
  store : Place → Value

namespace Makefile

variable {Target : Type t} {Place : Type u} {Value : Type v} {Local : Target → Type w}
  {Input : Target → Type x}

def made (makefile : Makefile Target Place Value Local Input)
    (state : Making Target Place Value Local) (target : Target) : Bool :=
  (state.point target).any fun point => (makefile.recipe target).outcome point == some true

variable [DecidableEq Target]

/-- A target is made once. Whether others failed before makes no difference, as with `-k`. -/
def step (makefile : Makefile Target Place Value Local Input)
    (state : Making Target Place Value Local) :
    MakeEvent Target Input → Option (Making Target Place Value Local)
  | .start target =>
    if (state.point target).isNone ∧ (makefile.prerequisites target).all (makefile.made state) then
      some { state with
        point := Function.update state.point target (some (makefile.recipe target).start) }
    else none
  | .step target input =>
    (state.point target).bind fun point =>
      ((makefile.recipe target).step point state.store input).map fun next =>
        { point := Function.update state.point target (some next.1), store := next.2 }

/-- `make -j` on a store, with any number of recipes at the same time. -/
def parallel (makefile : Makefile Target Place Value Local Input) (store : Place → Value) :
    Machine (Making Target Place Value Local) (MakeEvent Target Input) where
  initial := ⟨fun _ => none, store⟩
  step := makefile.step

/-- What a target's recipe was given. -/
def inputsOf (target : Target) (events : List (MakeEvent Target Input)) : List (Input target) :=
  events.filterMap fun
    | .start _ => none
    | .step other input => if same : other = target then some (same ▸ input) else none

section Runs

variable {makefile : Makefile Target Place Value Local Input} {start : Place → Value}
  {state next : Making Target Place Value Local} {event : MakeEvent Target Input}
  {events : List (MakeEvent Target Input)} {target other : Target} {own : Target → Place → Prop}
  {foreign : Place → Prop}

theorem step_start (taken : makefile.step state (.start target) = some next) :
    state.point target = none ∧
      (∀ before ∈ makefile.prerequisites target, makefile.made state before = true) ∧
      next = { state with
        point := Function.update state.point target (some (makefile.recipe target).start) } := by
  simp only [step, Option.ite_none_right_eq_some, Option.some.injEq, Option.isNone_iff_eq_none,
    List.all_eq_true] at taken
  obtain ⟨⟨fresh, ready⟩, rfl⟩ := taken
  exact ⟨fresh, ready, rfl⟩

theorem step_step {input : Input target}
    (taken : makefile.step state (.step target input) = some next) :
    ∃ point point' store, state.point target = some point ∧
      (makefile.recipe target).step point state.store input = some (point', store) ∧
      next = { point := Function.update state.point target (some point'), store := store } := by
  simp only [step, Option.bind_eq_some_iff, Option.map_eq_some_iff] at taken
  obtain ⟨point, here, ⟨point', store⟩, moved, rfl⟩ := taken
  exact ⟨point, point', store, here, moved, rfl⟩

omit [DecidableEq Target] in
theorem made_iff : makefile.made state target = true ↔ ∃ point, state.point target = some point ∧
    (makefile.recipe target).outcome point = some true := by
  simp only [made, Option.any_eq_true, beq_iff_eq]

/-- What is made stays made, at the same point. -/
theorem made_stays (taken : makefile.step state event = some next)
    (made : makefile.made state target = true) : next.point target = state.point target := by
  obtain ⟨point, here, through⟩ := made_iff.mp made
  cases event with
  | start started =>
    obtain ⟨fresh, -, rfl⟩ := step_start taken
    have different : target ≠ started := by
      rintro rfl
      rw [fresh] at here
      cases here
    exact Function.update_of_ne different ..
  | step moved input =>
    obtain ⟨before, after, store, stood, went, rfl⟩ := step_step taken
    have different : target ≠ moved := by
      rintro rfl
      rw [Option.some.inj (here.symm.trans stood)] at through
      rw [(makefile.recipe target).halted through] at went
      cases went
    exact Function.update_of_ne different ..

theorem made_kept (taken : makefile.step state event = some next)
    (made : makefile.made state target = true) : makefile.made next target = true := by
  rwa [Makefile.made, made_stays taken made]

/-- A recipe that was started has had all that it waits for made. -/
theorem started_after (reached : (makefile.parallel start).Reachable state) :
    ∀ target, state.point target ≠ none →
      ∀ before ∈ makefile.prerequisites target, makefile.made state before = true := by
  refine Machine.Reachable.invariant (fun state : Making Target Place Value Local =>
    ∀ target, state.point target ≠ none →
      ∀ before ∈ makefile.prerequisites target, makefile.made state before = true) ?_ ?_ reached
  · intro target started
    exact absurd rfl started
  · intro state event next known taken target started before waited
    apply made_kept taken
    cases event with
    | start begun =>
      obtain ⟨-, ready, rfl⟩ := step_start taken
      by_cases same : target = begun
      · subst same
        exact ready before waited
      · refine known target ?_ before waited
        rwa [← Function.update_of_ne same (some (makefile.recipe begun).start) state.point]
    | step moved input =>
      obtain ⟨point, point', store, stood, -, rfl⟩ := step_step taken
      by_cases same : target = moved
      · subst same
        exact known target (by rw [stood]; simp) before waited
      · refine known target ?_ before waited
        rwa [← Function.update_of_ne same (some point') state.point]

/-- Places that no recipe writes keep what they have. -/
theorem unwritten (writes : ∀ target, (makefile.recipe target).Writes (own target))
    (reached : (makefile.parallel start).Reachable state) {place : Place}
    (free : ∀ target, ¬ own target place) : state.store place = start place := by
  refine Machine.Reachable.invariant
    (fun state : Making Target Place Value Local => state.store place = start place)
    rfl ?_ reached
  intro state event next known taken
  cases event with
  | start begun =>
    obtain ⟨-, -, rfl⟩ := step_start taken
    exact known
  | step moved input =>
    obtain ⟨point, point', store, -, went, rfl⟩ := step_step taken
    exact (writes moved went place (free moved)).trans known

/-- The places of a target that is made, which no other target writes, stay as they are. -/
theorem made_settled (writes : ∀ other ≠ target, (makefile.recipe other).Writes (own other))
    {place : Place} (free : ∀ other ≠ target, ¬ own other place)
    (made : makefile.made state target = true) {last : Making Target Place Value Local}
    (onward : (makefile.parallel start).run state events = some last) :
    last.store place = state.store place := by
  refine (Machine.run_invariant (fun later : Making Target Place Value Local =>
    makefile.made later target = true ∧ later.store place = state.store place) ?_
    ⟨made, rfl⟩ onward).2
  intro middle event next known taken
  obtain ⟨made, same⟩ := known
  refine ⟨made_kept taken made, ?_⟩
  cases event with
  | start begun =>
    obtain ⟨-, -, rfl⟩ := step_start taken
    exact same
  | step moved input =>
    obtain ⟨point, point', store, stood, went, rfl⟩ := step_step taken
    have different : moved ≠ target := by
      rintro rfl
      obtain ⟨through, here, succeeded⟩ := made_iff.mp made
      rw [Option.some.inj (here.symm.trans stood)] at succeeded
      rw [(makefile.recipe moved).halted succeeded] at went
      cases went
    exact (writes moved different went place (free moved different)).trans same

theorem inputsOf_snoc (target : Target) (events : List (MakeEvent Target Input))
    (event : MakeEvent Target Input) :
    inputsOf target (events ++ [event]) = inputsOf target events ++ inputsOf target [event] :=
  List.filterMap_append ..

theorem inputsOf_own (target : Target) (input : Input target) :
    inputsOf target [.step target input] = [input] := by
  simp [inputsOf]

theorem inputsOf_other {target other : Target} (different : other ≠ target)
    (input : Input other) : inputsOf target [.step other input] = [] := by
  simp [inputsOf, different]

/-- However recipes interleave, one that sees nothing of what is foreign gets as far as it does
among others that write to what is shared what is there in the run, and makes the same of its
places. -/
theorem recipe_among {shared : Place → Bool}
    (writes : ∀ other ≠ target, (makefile.recipe other).Writes (own other))
    (covered : ∀ other ≠ target, ∀ place, own other place → foreign place ∨ shared place = true)
    (blind : (makefile.recipe target).Blind foreign)
    (onward : (makefile.parallel start).run (makefile.parallel start).initial events =
      some state) :
    ∃ moves store, moves.filterMap Recipe.Move.input = inputsOf target events ∧
      (∀ seen, .others seen ∈ moves →
        ∃ state, (makefile.parallel start).Reachable state ∧ state.store = seen) ∧
      ((makefile.recipe target).among shared start).run
          ((makefile.recipe target).among shared start).initial moves =
        some ((state.point target).getD (makefile.recipe target).start, store) ∧
      ∀ place, ¬ foreign place → shared place = false → store place = state.store place := by
  refine @Machine.run_history _ _ (makefile.parallel start)
    (fun events state => ∃ moves store,
      moves.filterMap Recipe.Move.input = inputsOf target events ∧
      (∀ seen, .others seen ∈ moves →
        ∃ state, (makefile.parallel start).Reachable state ∧ state.store = seen) ∧
      ((makefile.recipe target).among shared start).run
          ((makefile.recipe target).among shared start).initial moves =
        some ((state.point target).getD (makefile.recipe target).start, store) ∧
      ∀ place, ¬ foreign place → shared place = false → store place = state.store place)
    ?_ [] events (makefile.parallel start).initial state rfl
    ⟨[], start, rfl, fun seen none => (by cases none), rfl, fun place near apart => rfl⟩ onward
  intro past state event next before known taken
  obtain ⟨moves, store, inputs, honest, among, agrees⟩ := known
  rw [inputsOf_snoc]
  cases event with
  | start begun =>
    obtain ⟨fresh, -, rfl⟩ := step_start taken
    refine ⟨moves, store, ?_, honest, ?_, agrees⟩
    · rw [show inputsOf target [.start begun] = [] from rfl, List.append_nil, inputs]
    · rw [among]
      by_cases same : target = begun
      · subst same
        simp only [fresh, Function.update_self, Option.getD_none, Option.getD_some]
      · simp only [Function.update_of_ne same]
  | step moved input =>
    obtain ⟨point, point', store', stood, went, rfl⟩ := step_step taken
    by_cases same : moved = target
    · subst same
      rw [stood, Option.getD_some] at among
      -- first the recipe sees what is shared as it is there
      let seen : Place → Value := fun place =>
        if shared place then state.store place else store place
      have level : ∀ place, ¬ foreign place → state.store place = seen place := by
        intro place near
        by_cases reaches : shared place = true
        · exact (if_pos reaches).symm
        · exact ((if_neg reaches).trans
            (agrees place near (Bool.eq_false_iff.mpr reaches))).symm
      obtain ⟨other, follows, agrees'⟩ := blind level went
      have onward : ((makefile.recipe moved).among shared start).run (point, store)
          [.others state.store, .own input] = some (point', other) :=
        Machine.run_cons_iff.mpr ⟨(point, seen), rfl, Machine.run_single.mpr follows⟩
      refine ⟨moves ++ [.others state.store, .own input], other, ?_, ?_, ?_, ?_⟩
      · rw [List.filterMap_append, inputs, inputsOf_own]
        rfl
      · intro seen member
        rcases List.mem_append.mp member with earlier | last
        · exact honest seen earlier
        · obtain rfl : seen = state.store := by simpa using last
          exact ⟨state, ⟨past, before⟩, rfl⟩
      · simp only [Function.update_self, Option.getD_some]
        exact Machine.run_trans among onward
      · exact fun place near _ => (agrees' place near).symm
    · refine ⟨moves, store, ?_, honest, ?_, ?_⟩
      · rw [inputsOf_other same, List.append_nil, inputs]
      · simp only [among, Function.update_of_ne (Ne.symm same)]
      · intro place near apart
        rw [agrees place near apart]
        refine (writes moved same went place fun owned => ?_).symm
        rcases covered moved same place owned with away | reaches
        · exact near away
        · rw [reaches] at apart
          cases apart

end Runs

end Makefile

end Lib

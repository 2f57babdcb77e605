import Mathlib.Data.List.Basic
import Mathlib.Logic.Function.Iterate

/-! Labelled machines whose runs are event lists. An event a state refuses has no
successor, so an interleaving is exactly an event list that runs to the end. -/

namespace Lib

universe u v w x

/-- One initial state and a partial step for each event. -/
structure Machine (State : Type u) (Event : Type v) where
  initial : State
  step : State → Event → Option State

namespace Machine

variable {State : Type u} {Event : Type v} (machine : Machine State Event)

def run (state : State) : List Event → Option State
  | [] => some state
  | event :: rest => (machine.step state event).bind fun next => run next rest

/-- Some interleaving leads from the initial state to this one. -/
def Reachable (state : State) : Prop :=
  ∃ events, machine.run machine.initial events = some state

/-- Every event of the run is allowed in the state it is taken in. -/
def Guarded (allowed : State → Event → Prop) (state : State) : List Event → Prop
  | [] => True
  | event :: rest => allowed state event ∧
      ∀ next, machine.step state event = some next → Guarded allowed next rest

variable {machine}

@[simp] theorem run_nil (state : State) : machine.run state [] = some state := rfl

theorem run_cons_iff {state last : State} {event : Event} {rest : List Event} :
    machine.run state (event :: rest) = some last ↔
      ∃ next, machine.step state event = some next ∧ machine.run next rest = some last := by
  simp only [run, Option.bind_eq_some_iff]

theorem run_append {state : State} (first second : List Event) :
    machine.run state (first ++ second) =
      (machine.run state first).bind fun middle => machine.run middle second := by
  induction first generalizing state with
  | nil => rfl
  | cons event rest ih =>
    simp only [List.cons_append, run]
    cases machine.step state event with
    | none => rfl
    | some next => simpa using ih

theorem run_trans {state middle last : State} {first second : List Event}
    (early : machine.run state first = some middle)
    (late : machine.run middle second = some last) :
    machine.run state (first ++ second) = some last := by
  simp only [run_append, early, Option.bind_some, late]

theorem run_single {state last : State} {event : Event} :
    machine.run state [event] = some last ↔ machine.step state event = some last := by
  simp [run]

theorem Reachable.init : machine.Reachable machine.initial := ⟨[], rfl⟩

theorem Reachable.after {state last : State} {events : List Event}
    (reached : machine.Reachable state) (onward : machine.run state events = some last) :
    machine.Reachable last := by
  obtain ⟨events', early⟩ := reached
  exact ⟨events' ++ events, run_trans early onward⟩

theorem Reachable.next {state last : State} {event : Event}
    (reached : machine.Reachable state) (onward : machine.step state event = some last) :
    machine.Reachable last :=
  reached.after (run_single.mpr onward)

variable (machine) in
/-- A run checked by evaluation reaches a state that passes the check. -/
theorem reachable_of_run (events : List Event) (check : State → Bool)
    (found : (machine.run machine.initial events).any check = true) :
    ∃ state, machine.Reachable state ∧ check state = true := by
  obtain ⟨state, onward, passes⟩ := (Option.any_eq_true check _).mp found
  exact ⟨state, ⟨events, onward⟩, passes⟩

variable (machine) in
/-- Two consecutive stretches of one run, each checked by evaluation. -/
theorem reachable_split (first second : List Event) (early late : State → Bool)
    (foundEarly : (machine.run machine.initial first).any early = true)
    (foundLate : (machine.run machine.initial (first ++ second)).any late = true) :
    ∃ middle last, machine.Reachable middle ∧ early middle = true ∧
      machine.run middle second = some last ∧ late last = true := by
  obtain ⟨middle, onward, passes⟩ := (Option.any_eq_true early _).mp foundEarly
  obtain ⟨last, whole, passesLate⟩ := (Option.any_eq_true late _).mp foundLate
  rw [run_append, onward, Option.bind_some] at whole
  exact ⟨middle, last, ⟨first, onward⟩, passes, whole, passesLate⟩

/-- A property kept by every step is kept by every run. -/
theorem run_invariant (holds : State → Prop)
    (preserved : ∀ {state event next}, holds state → machine.step state event = some next →
      holds next)
    {state last : State} {events : List Event} (start : holds state)
    (onward : machine.run state events = some last) : holds last := by
  induction events generalizing state with
  | nil => exact Option.some.inj onward ▸ start
  | cons event rest ih =>
    obtain ⟨next, taken, remaining⟩ := run_cons_iff.mp onward
    exact ih (preserved start taken) remaining

theorem Reachable.invariant (holds : State → Prop)
    (start : holds machine.initial)
    (preserved : ∀ {state event next}, holds state → machine.step state event = some next →
      holds next)
    {state : State} (reached : machine.Reachable state) : holds state := by
  obtain ⟨events, onward⟩ := reached
  exact run_invariant holds preserved start onward

/-- Induction over reachable states that keeps the reachability of the step's source. -/
theorem Reachable.induction (holds : State → Prop)
    (start : holds machine.initial)
    (preserved : ∀ {state event next}, machine.Reachable state → holds state →
      machine.step state event = some next → holds next)
    {state : State} (reached : machine.Reachable state) : holds state := by
  have both : machine.Reachable state ∧ holds state :=
    Reachable.invariant (fun state => machine.Reachable state ∧ holds state)
      ⟨Reachable.init, start⟩
      (fun known taken => ⟨known.1.next taken, preserved known.1 known.2 taken⟩) reached
  exact both.2

/-- A property kept by every allowed step is kept by every guarded run. -/
theorem guarded_invariant {allowed : State → Event → Prop} (holds : State → Prop)
    (preserved : ∀ {state event next}, holds state → allowed state event →
      machine.step state event = some next → holds next)
    {state last : State} {events : List Event} (start : holds state)
    (guarded : machine.Guarded allowed state events)
    (onward : machine.run state events = some last) : holds last := by
  induction events generalizing state with
  | nil => exact Option.some.inj onward ▸ start
  | cons event rest ih =>
    obtain ⟨next, taken, remaining⟩ := run_cons_iff.mp onward
    exact ih (preserved start guarded.1 taken) (guarded.2 next taken) remaining

variable (machine) in
/-- The machine that also refuses what is not allowed. -/
def restrict (allowed : State → Event → Prop) [∀ state event, Decidable (allowed state event)] :
    Machine State Event where
  initial := machine.initial
  step state event := if allowed state event then machine.step state event else none

/-- The restricted machine's runs are the guarded runs. -/
theorem restrict_run {allowed : State → Event → Prop}
    [∀ state event, Decidable (allowed state event)] {state last : State} {events : List Event}
    (onward : (machine.restrict allowed).run state events = some last) :
    machine.Guarded allowed state events ∧ machine.run state events = some last := by
  induction events generalizing state with
  | nil => exact ⟨trivial, onward⟩
  | cons event rest ih =>
    obtain ⟨next, taken, remaining⟩ := run_cons_iff.mp onward
    simp only [restrict, Option.ite_none_right_eq_some] at taken
    obtain ⟨guarded, completes⟩ := ih remaining
    refine ⟨⟨taken.1, ?_⟩, run_cons_iff.mpr ⟨next, taken.2, completes⟩⟩
    intro other same
    rw [taken.2] at same
    exact Option.some.inj same ▸ guarded

variable (machine) in
/-- A guarded run checked by evaluating the restricted machine. -/
theorem guarded_of_run (allowed : State → Event → Prop)
    [∀ state event, Decidable (allowed state event)] (events : List Event)
    (check : State → Bool)
    (found : ((machine.restrict allowed).run machine.initial events).any check = true) :
    ∃ state, machine.Guarded allowed machine.initial events ∧
      machine.run machine.initial events = some state ∧ check state = true := by
  obtain ⟨state, onward, passes⟩ := (Option.any_eq_true check _).mp found
  obtain ⟨guarded, completes⟩ := restrict_run onward
  exact ⟨state, guarded, completes, passes⟩

/-- A property that some step keeps while a rank falls, as long as the goal is not met, leads
to the goal. -/
theorem reaches_of_rank {Rank : Type w} {below : Rank → Rank → Prop}
    (founded : WellFounded below) (rank : State → Rank) {holds goal : State → Prop}
    (advances : ∀ {state}, holds state → ¬ goal state → ∃ event next,
      machine.step state event = some next ∧ holds next ∧ below (rank next) (rank state))
    {state : State} (start : holds state) :
    ∃ events last, machine.run state events = some last ∧ holds last ∧ goal last := by
  induction state using (InvImage.wf rank founded).induction with
  | h state ih =>
    by_cases done : goal state
    · exact ⟨[], state, rfl, start, done⟩
    · obtain ⟨event, next, taken, kept, falls⟩ := advances start done
      obtain ⟨events, last, onward, ends⟩ := ih next falls kept
      exact ⟨event :: events, last, run_cons_iff.mpr ⟨next, taken, onward⟩, ends⟩

/-- Two ranks, the first of which counts for more. -/
abbrev Stages : Nat × Nat → Nat × Nat → Prop := Prod.Lex (· < ·) (· < ·)

theorem stages_founded : WellFounded Stages :=
  (Prod.lex Nat.lt_wfRel Nat.lt_wfRel).wf

/-- A property of the events so far and the state they lead to, kept by every step, holds of
every run. -/
theorem run_history {holds : List Event → State → Prop}
    (preserved : ∀ {past state event next}, machine.run machine.initial past = some state →
      holds past state → machine.step state event = some next → holds (past ++ [event]) next)
    {past events : List Event} {state last : State}
    (early : machine.run machine.initial past = some state) (start : holds past state)
    (onward : machine.run state events = some last) : holds (past ++ events) last := by
  induction events generalizing past state with
  | nil =>
    rw [List.append_nil]
    exact Option.some.inj onward ▸ start
  | cons event rest ih =>
    obtain ⟨next, taken, remaining⟩ := run_cons_iff.mp onward
    have kept := ih (run_trans early (run_single.mpr taken)) (preserved early start taken) remaining
    rwa [List.append_assoc] at kept

theorem Guarded.trans {allowed : State → Event → Prop} {state middle : State}
    {first second : List Event} (early : machine.Guarded allowed state first)
    (onward : machine.run state first = some middle)
    (late : machine.Guarded allowed middle second) :
    machine.Guarded allowed state (first ++ second) := by
  induction first generalizing state with
  | nil =>
    obtain rfl := Option.some.inj onward
    exact late
  | cons event rest ih =>
    obtain ⟨next, taken, remaining⟩ := run_cons_iff.mp onward
    refine ⟨early.1, fun other same => ?_⟩
    obtain rfl := Option.some.inj (taken.symm.trans same)
    exact ih (early.2 next taken) remaining

/-- Where each allowed step is matched by a stretch of permitted steps of another machine, so is
each run of allowed steps. -/
theorem guarded_matched {Abstract : Type w} {Label : Type x} {abstract : Machine Abstract Label}
    {allowed : State → Event → Prop} (permitted : Abstract → Label → Prop)
    (related : List Event → State → Abstract → Prop)
    (matched : ∀ {past state event next shadow}, machine.run machine.initial past = some state →
      related past state shadow → allowed state event → machine.step state event = some next →
      ∃ labels shadow', abstract.Guarded permitted shadow labels ∧
        abstract.run shadow labels = some shadow' ∧ related (past ++ [event]) next shadow')
    {past events : List Event} {state last : State} {shadow : Abstract}
    (early : machine.run machine.initial past = some state) (start : related past state shadow)
    (guarded : machine.Guarded allowed state events)
    (onward : machine.run state events = some last) :
    ∃ labels shadow', abstract.Guarded permitted shadow labels ∧
      abstract.run shadow labels = some shadow' ∧ related (past ++ events) last shadow' := by
  induction events generalizing past state shadow with
  | nil =>
    obtain rfl := Option.some.inj onward
    exact ⟨[], shadow, trivial, rfl, by rwa [List.append_nil]⟩
  | cons event rest ih =>
    obtain ⟨next, taken, remaining⟩ := run_cons_iff.mp onward
    obtain ⟨first, middle, here, moved, kept⟩ := matched early start guarded.1 taken
    obtain ⟨second, shadow', later, completes, ends⟩ := ih
      (run_trans early (run_single.mpr taken)) kept (guarded.2 next taken) remaining
    rw [List.append_assoc, List.singleton_append] at ends
    exact ⟨first ++ second, shadow', here.trans moved later, run_trans moved completes, ends⟩

/-- The concrete machine simulates the abstract one: each concrete step is one
abstract step on the projected state, or leaves the projection as it was. -/
structure Refinement {State : Type u} {Event : Type v} {Abstract : Type w} {Label : Type x}
    (concrete : Machine State Event) (abstract : Machine Abstract Label) where
  project : State → Abstract
  starts : project concrete.initial = abstract.initial
  matched : ∀ {state event next}, concrete.step state event = some next →
    project next = project state ∨
      ∃ label, abstract.step (project state) label = some (project next)

/-- What holds of every reachable abstract state holds of every projected concrete one. -/
theorem Refinement.reachable {Abstract : Type w} {Label : Type x}
    {abstract : Machine Abstract Label}
    (refinement : Refinement machine abstract) {state : State}
    (reached : machine.Reachable state) :
    abstract.Reachable (refinement.project state) := by
  refine Reachable.invariant (fun state => abstract.Reachable (refinement.project state))
    ?_ ?_ reached
  · rw [refinement.starts]
    exact Reachable.init
  · intro state event next known taken
    rcases refinement.matched taken with same | ⟨label, stepped⟩
    · rw [same]
      exact known
    · exact known.next stepped

/-- A relation that every concrete step carries along an abstract step of the same event. -/
structure Simulation {State : Type u} {Event : Type v} {Abstract : Type w}
    (concrete : Machine State Event) (abstract : Machine Abstract Event)
    (related : State → Abstract → Prop) : Prop where
  starts : related concrete.initial abstract.initial
  follows : ∀ {state shadow event next}, related state shadow →
    concrete.step state event = some next →
    ∃ shadow', abstract.step shadow event = some shadow' ∧ related next shadow'

/-- Every concrete run is an abstract run of the same events to a related state. -/
theorem Simulation.run {Abstract : Type w} {abstract : Machine Abstract Event}
    {related : State → Abstract → Prop} (simulation : Simulation machine abstract related)
    {state last : State} {shadow : Abstract} {events : List Event}
    (start : related state shadow) (onward : machine.run state events = some last) :
    ∃ shadow', abstract.run shadow events = some shadow' ∧ related last shadow' := by
  induction events generalizing state shadow with
  | nil => exact ⟨shadow, rfl, Option.some.inj onward ▸ start⟩
  | cons event rest ih =>
    obtain ⟨next, taken, remaining⟩ := run_cons_iff.mp onward
    obtain ⟨middle, followed, kept⟩ := simulation.follows start taken
    obtain ⟨shadow', completes, ends⟩ := ih kept remaining
    exact ⟨shadow', run_cons_iff.mpr ⟨middle, followed, completes⟩, ends⟩

/-- A component on its own. Its own events advance it and the others leave it. -/
def component {Local : Type w} (own : Event → Bool) (advance : Local → Local)
    (start : Local) : Machine Local Event where
  initial := start
  step part event := some (if own event then advance part else part)

theorem component_run {Local : Type w} {own : Event → Bool} {advance : Local → Local}
    {start : Local} (part : Local) (events : List Event) :
    (component own advance start).run part events = some (advance^[events.countP own] part) := by
  induction events generalizing part with
  | nil => rfl
  | cons event rest ih =>
    apply run_cons_iff.mpr
    refine ⟨_, rfl, ?_⟩
    rw [ih]
    by_cases mine : own event = true
    · rw [List.countP_cons_of_pos mine, if_pos mine, Function.iterate_succ_apply]
    · rw [List.countP_cons_of_neg mine, if_neg mine]

/-- Where a run leaves a component that only its own events advance depends on nothing but
how many of these there are. -/
theorem Simulation.component_run {Local : Type w} {own : Event → Bool}
    {advance : Local → Local} {start : Local} {related : State → Local → Prop}
    (simulation : Simulation machine (component own advance start) related)
    {last : State} {events : List Event}
    (onward : machine.run machine.initial events = some last) :
    related last (advance^[events.countP own] start) := by
  obtain ⟨part, followed, ends⟩ := simulation.run simulation.starts onward
  have same := (Machine.component_run start events).symm.trans followed
  exact Option.some.inj same ▸ ends

end Machine

end Lib

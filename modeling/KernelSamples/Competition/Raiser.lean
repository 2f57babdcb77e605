import KernelSamples.Competition.Accounting

/-! The raiser threads, the line they raise and CPU hotplug, around the two handlers. -/

namespace KernelSamples.Competition

open Lib

def raisesPerCpu : Nat := 10

/-- Where a raiser thread stands: parked, at the top of its smpboot loop, or inside
`run_irq_raiser`. -/
inductive RaiserPoint where
  | parked
  | loop
  | raise
  | count
  | report
  | sleep
  deriving DecidableEq

/-- The whole module. irq_sim keeps one pending bit for the line, so raises that land
together merge. An observer also keeps, for each CPU, the calls that raised the line and
whether its raiser ever ran. -/
structure InterruptCompetition (Cpu : Type) where
  handlers : Handlers Cpu
  pending : Bool
  gsRaiseCount : Cpu → Nat
  raiser : Cpu → RaiserPoint
  raises : Cpu → Nat
  ran : Cpu → Bool

variable {Cpu : Type} [DecidableEq Cpu]

def irqRaiserShouldRun (state : InterruptCompetition Cpu) (cpu : Cpu) : Bool :=
  state.gsRaiseCount cpu < raisesPerCpu

def InterruptCompetition.moveRaiser (state : InterruptCompetition Cpu) (cpu : Cpu)
    (point : RaiserPoint) : InterruptCompetition Cpu :=
  { state with raiser := Function.update state.raiser cpu point }

/-- One step of the raiser thread: the test in its loop, or the next call of
`run_irq_raiser`. -/
def runIrqRaiser (state : InterruptCompetition Cpu) (cpu : Cpu) :
    RaiserPoint → Option (InterruptCompetition Cpu)
  | .parked => none
  | .loop =>
    if irqRaiserShouldRun state cpu then
      some { state.moveRaiser cpu .raise with ran := Function.update state.ran cpu true }
    else some state
  | .raise =>
    some { state.moveRaiser cpu .count with
      pending := true
      raises := Function.update state.raises cpu (state.raises cpu + 1) }
  | .count =>
    some { state.moveRaiser cpu .report with
      gsRaiseCount :=
        Function.update state.gsRaiseCount cpu (wrap intBits (state.gsRaiseCount cpu + 1)) }
  | .report => some (state.moveRaiser cpu .sleep)
  | .sleep => some (state.moveRaiser cpu .loop)

/-- A raiser steps, its CPU goes offline or comes online, the line is delivered to a CPU
and handled or refused, or a handler steps. -/
inductive InterruptCompetitionEvent (Cpu : Type) where
  | raiser (cpu : Cpu)
  | offline (cpu : Cpu)
  | online (cpu : Cpu)
  | deliver (cpu : Cpu) (handled : Bool)
  | topHalf (cpu : Cpu)
  | softirq
  | bottomHalf

def InterruptCompetition.step (width : LongWidth) (state : InterruptCompetition Cpu) :
    InterruptCompetitionEvent Cpu → Option (InterruptCompetition Cpu)
  | .raiser cpu => runIrqRaiser state cpu (state.raiser cpu)
  | .offline cpu =>
    -- smpboot parks the thread only between two calls of its function.
    match state.raiser cpu with
    | .loop => some (state.moveRaiser cpu .parked)
    | _ => none
  | .online cpu =>
    match state.raiser cpu with
    | .parked => some (state.moveRaiser cpu .loop)
    | _ => none
  | .deliver cpu handled =>
    match state.pending, handled with
    | false, _ => none
    | true, false => some { state with pending := false }
    | true, true =>
      (handlerStep width state.handlers (.arrive cpu)).map fun handlers =>
        { state with pending := false, handlers := handlers }
  | .topHalf cpu =>
    (handlerStep width state.handlers (.topHalf cpu)).map fun handlers =>
      { state with handlers := handlers }
  | .softirq =>
    (handlerStep width state.handlers .softirq).map fun handlers =>
      { state with handlers := handlers }
  | .bottomHalf =>
    (handlerStep width state.handlers .bottomHalf).map fun handlers =>
      { state with handlers := handlers }

def InterruptCompetition.loaded : InterruptCompetition Cpu where
  handlers := handlersInitial
  pending := false
  gsRaiseCount := fun _ => 0
  raiser := fun _ => .parked
  raises := fun _ => 0
  ran := fun _ => false

/-- The loaded module on a machine with these CPUs. -/
def competitionMachine (Cpu : Type) [DecidableEq Cpu] (width : LongWidth) :
    Machine (InterruptCompetition Cpu) (InterruptCompetitionEvent Cpu) where
  initial := InterruptCompetition.loaded
  step := InterruptCompetition.step width

/-- Every run of the module is, on its handlers, an interleaving of hardirqs and softirqs. -/
def competitionRefinement (Cpu : Type) [DecidableEq Cpu] (width : LongWidth) :
    Machine.Refinement (competitionMachine Cpu width) (handlerMachine Cpu width) where
  project := InterruptCompetition.handlers
  starts := rfl
  matched := by
    intro state event next taken
    cases event with
    | raiser cpu =>
      left
      simp only [competitionMachine, InterruptCompetition.step] at taken
      cases point : state.raiser cpu <;> simp only [point, runIrqRaiser] at taken
      · cases taken
      · split at taken <;> cases taken <;> rfl
      all_goals
        cases taken
        rfl
    | offline cpu =>
      left
      simp only [competitionMachine, InterruptCompetition.step] at taken
      split at taken <;> cases taken
      rfl
    | online cpu =>
      left
      simp only [competitionMachine, InterruptCompetition.step] at taken
      split at taken <;> cases taken
      rfl
    | deliver cpu handled =>
      simp only [competitionMachine, InterruptCompetition.step] at taken
      split at taken
      · cases taken
      · cases taken
        exact .inl rfl
      · obtain ⟨handlers, arrived, rfl⟩ := Option.map_eq_some_iff.mp taken
        exact .inr ⟨.arrive cpu, arrived⟩
    | topHalf cpu =>
      obtain ⟨handlers, stepped, rfl⟩ := Option.map_eq_some_iff.mp taken
      exact .inr ⟨.topHalf cpu, stepped⟩
    | softirq =>
      obtain ⟨handlers, stepped, rfl⟩ := Option.map_eq_some_iff.mp taken
      exact .inr ⟨.softirq, stepped⟩
    | bottomHalf =>
      obtain ⟨handlers, stepped, rfl⟩ := Option.map_eq_some_iff.mp taken
      exact .inr ⟨.bottomHalf, stepped⟩

end KernelSamples.Competition

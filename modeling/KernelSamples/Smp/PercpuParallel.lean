import KernelSamples.Lib.Machine
import Mathlib.Logic.Function.Basic

/-! `percpu_parallel.c`: one counter and one smpboot thread for each CPU, under CPU hotplug
and rmmod. -/

namespace KernelSamples.Smp

open Lib

def intervalMs : Nat := 1000

/-- The CPUs a machine may ever have and those online when the module is loaded. -/
structure Cpus where
  nrCpuIds : UInt32
  possible : List UInt32
  booted : List UInt32
  ascending : possible.Pairwise (· < ·)
  below : ∀ cpu ∈ possible, cpu < nrCpuIds
  bootedPossible : booted ⊆ possible

inductive LogLine (width : Nat) where
  | run (cpu : UInt32)
  | count (cpu : UInt32) (val : BitVec width)
  | loaded (interval : Nat)
  | unloaded
  deriving DecidableEq

/-- The next step of `read_and_inc_count_percpu`, with its local `val`. -/
inductive CountPoint (width : Nat) where
  | read
  | inc (val : BitVec width)
  | report (val : BitVec width)
  deriving DecidableEq

/-- The next step of `run_percpu_parallel`. -/
inductive CallPoint (width : Nat) where
  | count (point : CountPoint width)
  | sleep
  deriving DecidableEq

/-- The CPU a line is about. -/
def LogLine.cpu {width : Nat} : LogLine width → Option UInt32
  | .run cpu | .count cpu _ => some cpu
  | .loaded _ | .unloaded => none

/-- Where a thread stands in `smpboot_thread_fn`: parked, in its loop, or in a call. -/
inductive ThreadPoint (width : Nat) where
  | parked
  | loop
  | call (point : CallPoint width)
  deriving DecidableEq

/-- `cpu` is the argument smpboot passes on. -/
structure Thread (width : Nat) where
  cpu : UInt32
  point : ThreadPoint width
  deriving DecidableEq

/-- Where init or exit stands, with the CPUs a loop has still to visit. `destroying` goes on
to fail init with an error, or to end the exit. -/
inductive Phase where
  | assigning (rest : List UInt32)
  | registering (rest : List UInt32)
  | registered
  | loaded
  | destroying (ret : Option Int) (rest : List UInt32)
  | failed (ret : Int)
  | unregistered
  | unloaded
  deriving DecidableEq

/-- CPUs whose counter has not its first value yet. -/
def Phase.unassigned : Phase → List UInt32
  | .assigning rest => rest
  | _ => []

/-- Init is still in its loop. -/
def Phase.assigns : Phase → Bool
  | .assigning _ => true
  | _ => false

/-- smpboot holds the CPU hotplug lock. -/
def Phase.locked : Phase → Bool
  | .registering _ | .destroying _ _ => true
  | _ => false

/-- The module's thread is on the list that smpboot serves when a CPU comes online. -/
def Phase.listed : Phase → Bool
  | .registered | .loaded => true
  | _ => false

/-- The state of the module, its `gs_count` a `long` of `width` bits. -/
structure Parallel (width : Nat) where
  phase : Phase
  gsCount : UInt32 → BitVec width
  gsThread : UInt32 → Option (Thread width)
  online : UInt32 → Bool
  log : List (LogLine width)

/-- `(long)(cpu + 1) * 100`, where `cpu + 1` is an `unsigned int`. -/
def initialCount (width : Nat) (cpu : UInt32) : BitVec width :=
  BitVec.ofNat width (cpu + 1).toNat * BitVec.ofNat width 100

namespace Parallel

variable {width : Nat}

def enter (state : Parallel width) (phase : Phase) : Parallel width :=
  { state with phase := phase }

def setCount (state : Parallel width) (cpu : UInt32) (count : BitVec width) : Parallel width :=
  { state with gsCount := Function.update state.gsCount cpu count }

def setThread (state : Parallel width) (cpu : UInt32) (thread : Option (Thread width)) :
    Parallel width :=
  { state with gsThread := Function.update state.gsThread cpu thread }

def setOnline (state : Parallel width) (cpu : UInt32) (online : Bool) : Parallel width :=
  { state with online := Function.update state.online cpu online }

def prInfo (state : Parallel width) (line : LogLine width) : Parallel width :=
  { state with log := state.log ++ [line] }

def percpuParallelShouldRun (state : Parallel width) (cpu : UInt32) : Parallel width × Int :=
  (state.prInfo (.run cpu), 1)

/-- One step of `read_and_inc_count_percpu` on `thisCpu`, and the step left, if any. -/
def readAndIncCountPercpu (state : Parallel width) (thisCpu cpu : UInt32) :
    CountPoint width → Parallel width × Option (CountPoint width)
  | .read => (state, some (.inc (state.gsCount thisCpu)))
  | .inc val => (state.setCount thisCpu (state.gsCount thisCpu + 1), some (.report val))
  | .report val => (state.prInfo (.count cpu val), none)

def runPercpuParallel (state : Parallel width) (thisCpu cpu : UInt32) :
    CallPoint width → Parallel width × Option (CallPoint width)
  | .count point =>
    let (next, left) := state.readAndIncCountPercpu thisCpu cpu point
    (next, some (left.elim .sleep .count))
  | .sleep => (state, none)

/-- One step of a thread that runs on `thisCpu`. -/
def smpbootThreadFn (state : Parallel width) (thisCpu : UInt32) (thread : Thread width) :
    Option (Parallel width) :=
  match thread.point with
  | .parked => none
  | .loop =>
    let (next, shouldRun) := state.percpuParallelShouldRun thread.cpu
    let point := if shouldRun = 0 then .loop else .call (.count .read)
    some (next.setThread thisCpu (some { thread with point := point }))
  | .call point =>
    let (next, left) := state.runPercpuParallel thisCpu thread.cpu point
    some (next.setThread thisCpu (some { thread with point := left.elim .loop .call }))

/-- A thread is parked or stopped between two calls only. Whoever asks for it waits. -/
def betweenCalls (state : Parallel width) (cpu : UInt32) : Bool :=
  match state.gsThread cpu with
  | some thread => thread.point = .parked ∨ thread.point = .loop
  | none => true

/-- A CPU gets a thread unless it has one, and its thread runs. -/
def bringUp (state : Parallel width) (cpu : UInt32) : Parallel width :=
  match state.gsThread cpu with
  | none => state.setThread cpu (some ⟨cpu, .loop⟩)
  | some thread =>
    if thread.point = .parked then state.setThread cpu (some { thread with point := .loop })
    else state

def park (state : Parallel width) (cpu : UInt32) : Parallel width :=
  match state.gsThread cpu with
  | none => state
  | some thread => state.setThread cpu (some { thread with point := .parked })

/-- `__smpboot_create_thread` for the next CPU that is online, and what it returns. -/
def smpbootCreateThread (cpus : Cpus) (state : Parallel width) (ret : Int) :
    Option (Parallel width) :=
  match state.phase with
  | .registering (cpu :: rest) =>
    if ret = 0 then some ((state.bringUp cpu).enter (.registering rest))
    else some (state.enter (.destroying (some ret) cpus.possible))
  | _ => none

/-- The next step of `smpboot_destroy_threads` and what follows it. -/
def smpbootDestroyThreads (state : Parallel width) (ret : Option Int) :
    List UInt32 → Option (Parallel width)
  | cpu :: rest =>
    if state.betweenCalls cpu then
      some ((state.setThread cpu none).enter (.destroying ret rest))
    else none
  | [] => some (state.enter (ret.elim .unregistered .failed))

/-- The next step of init. -/
def percpuParallelModuleInit (cpus : Cpus) (state : Parallel width) :
    Option (Parallel width) :=
  match state.phase with
  | .assigning (cpu :: rest) =>
    some ((state.setCount cpu (initialCount width cpu)).enter (.assigning rest))
  | .assigning [] => some (state.enter (.registering (cpus.possible.filter (state.online ·))))
  | .registering [] => some (state.enter .registered)
  | .registered => some ((state.prInfo (.loaded intervalMs)).enter .loaded)
  | .destroying (some ret) rest => state.smpbootDestroyThreads (some ret) rest
  | _ => none

/-- The next step of exit. -/
def percpuParallelModuleExit (cpus : Cpus) (state : Parallel width) :
    Option (Parallel width) :=
  match state.phase with
  | .loaded => some (state.enter (.destroying none cpus.possible))
  | .destroying none rest => state.smpbootDestroyThreads none rest
  | .unregistered => some ((state.prInfo .unloaded).enter .unloaded)
  | _ => none

end Parallel

/-- Init or exit makes a step, a CPU goes offline or comes online, or the thread of a CPU
makes a step, on that CPU. -/
inductive ParallelEvent where
  | init
  | create (ret : Int)
  | exit
  | offline (cpu : UInt32)
  | online (cpu : UInt32)
  | thread (cpu : UInt32)
  deriving DecidableEq

/-- The module from the first step of its init on. -/
def percpuParallel (cpus : Cpus) (width : Nat) : Machine (Parallel width) ParallelEvent where
  initial := ⟨.assigning cpus.possible, fun _ => 0, fun _ => none, cpus.booted.contains, []⟩
  step state
    | .init => state.percpuParallelModuleInit cpus
    | .create ret => state.smpbootCreateThread cpus ret
    | .exit => state.percpuParallelModuleExit cpus
    | .offline cpu =>
      if state.phase.locked = false ∧ state.online cpu = true ∧ state.betweenCalls cpu = true then
        some ((state.park cpu).setOnline cpu false)
      else none
    | .online cpu =>
      if state.phase.locked = false ∧ cpu ∈ cpus.possible ∧ state.online cpu = false then
        some ((if state.phase.listed then state.bringUp cpu else state).setOnline cpu true)
      else none
    | .thread cpu => (state.gsThread cpu).bind (state.smpbootThreadFn cpu)

variable {cpus : Cpus} {width : Nat} {state next : Parallel width} {cpu other : UInt32}

namespace Parallel

@[simp] theorem setThread_self (moved : Option (Thread width)) :
    (state.setThread cpu moved).gsThread cpu = moved :=
  Function.update_self ..

theorem setThread_of_ne (different : cpu ≠ other) (moved : Option (Thread width)) :
    (state.setThread other moved).gsThread cpu = state.gsThread cpu :=
  Function.update_of_ne different ..

/-- Threads are stored under their own CPU, and none is made before every counter has its
first value. -/
structure Placed (state : Parallel width) : Prop where
  bound : ∀ cpu thread, state.gsThread cpu = some thread → thread.cpu = cpu
  waits : state.phase.assigns = true → ∀ cpu, state.gsThread cpu = none

variable {thread : Thread width}

/-- Only threads and the phase matter. -/
theorem Placed.congr (placed : state.Placed) (threads : next.gsThread = state.gsThread)
    (phase : next.phase = state.phase) : next.Placed := by
  constructor
  · rw [threads]
    exact placed.bound
  · rw [threads, phase]
    exact placed.waits

theorem Placed.later (placed : state.Placed) (here : state.gsThread cpu = some thread) :
    state.phase.assigns = false := by
  apply Bool.eq_false_iff.mpr
  intro early
  rw [placed.waits early cpu] at here
  cases here

theorem Placed.setThread (placed : state.Placed) {moved : Option (Thread width)}
    (stored : ∀ thread, moved = some thread → thread.cpu = cpu)
    (later : state.phase.assigns = false) : (state.setThread cpu moved).Placed := by
  constructor
  · intro other thread here
    by_cases same : other = cpu
    · subst same
      rw [setThread_self] at here
      exact stored thread here
    · rw [setThread_of_ne same] at here
      exact placed.bound other thread here
  · intro early
    exact absurd (early.symm.trans later) Bool.noConfusion

/-- A thread that has moved is still stored under its CPU. -/
theorem Placed.move (placed : state.Placed) (here : state.gsThread cpu = some thread)
    (point : ThreadPoint width) :
    (state.setThread cpu (some { thread with point := point })).Placed := by
  apply placed.setThread _ (placed.later here)
  intro moved same
  cases same
  exact placed.bound cpu thread here

theorem Placed.enter (placed : state.Placed) {phase : Phase}
    (early : phase.assigns = true → state.phase.assigns = true) : (state.enter phase).Placed :=
  ⟨placed.bound, fun assigns => placed.waits (early assigns)⟩

theorem Placed.enterLater (placed : state.Placed) {phase : Phase}
    (later : phase.assigns = false) : (state.enter phase).Placed :=
  placed.enter fun early => absurd (early.symm.trans later) Bool.noConfusion

theorem Placed.bringUp (placed : state.Placed) (later : state.phase.assigns = false) :
    (state.bringUp cpu).Placed := by
  unfold Parallel.bringUp
  split
  · apply placed.setThread _ later
    intro thread made
    cases made
    rfl
  · rename_i thread here
    split
    · exact placed.move here .loop
    · exact placed

theorem Placed.park (placed : state.Placed) : (state.park cpu).Placed := by
  unfold Parallel.park
  split
  · exact placed
  · rename_i thread here
    exact placed.move here .parked

/-- What a step can do that is no step of a thread: it gives a counter its first value, goes
on with a line in the log or without, or makes, stops, parks or unparks a thread. -/
inductive Quiet (state : Parallel width) : Parallel width → Prop where
  | assign (cpu : UInt32) (rest : List UInt32) (here : state.phase = .assigning (cpu :: rest)) :
      Quiet state ((state.setCount cpu (initialCount width cpu)).enter (.assigning rest))
  | enter (phase : Phase) (assigned : state.phase.unassigned = [])
      (later : phase.assigns = false) : Quiet state (state.enter phase)
  | report (line : LogLine width) (phase : Phase) (general : line.cpu = none)
      (now : state.phase.assigns = false) (later : phase.assigns = false) :
      Quiet state ((state.prInfo line).enter phase)
  | stop (cpu : UInt32) (phase : Phase) (between : state.betweenCalls cpu = true)
      (now : state.phase.assigns = false) (later : phase.assigns = false) :
      Quiet state ((state.setThread cpu none).enter phase)
  | create (cpu : UInt32) (phase : Phase) (now : state.phase.assigns = false)
      (later : phase.assigns = false) : Quiet state ((state.bringUp cpu).enter phase)
  | offline (cpu : UInt32) (between : state.betweenCalls cpu = true) :
      Quiet state ((state.park cpu).setOnline cpu false)
  | online (cpu : UInt32) (now : state.phase.assigns = false) :
      Quiet state ((state.bringUp cpu).setOnline cpu true)
  | plug (cpu : UInt32) : Quiet state (state.setOnline cpu true)

theorem quiet_create {ret : Int} (taken : state.smpbootCreateThread cpus ret = some next) :
    state.Quiet next := by
  unfold smpbootCreateThread at taken
  split at taken
  · rename_i cpu rest here
    split at taken
    · cases taken
      exact .create cpu _ (by rw [here]; rfl) rfl
    · cases taken
      exact .enter _ (by rw [here]; rfl) rfl
  · cases taken

theorem quiet_destroy {ret : Option Int} {rest : List UInt32}
    (here : state.phase = .destroying ret rest)
    (taken : state.smpbootDestroyThreads ret rest = some next) : state.Quiet next := by
  cases rest with
  | nil =>
    cases taken
    cases ret with
    | none => exact .enter _ (by rw [here]; rfl) rfl
    | some ret => exact .enter _ (by rw [here]; rfl) rfl
  | cons cpu rest =>
    obtain ⟨between, same⟩ := Option.ite_none_right_eq_some.mp taken
    cases same
    exact .stop cpu _ between (by rw [here]; rfl) rfl

theorem quiet_init (taken : state.percpuParallelModuleInit cpus = some next) :
    state.Quiet next := by
  unfold percpuParallelModuleInit at taken
  split at taken
  next cpu rest here =>
    cases taken
    exact .assign cpu rest here
  next here =>
    cases taken
    exact .enter _ (by rw [here]; rfl) rfl
  next here =>
    cases taken
    exact .enter _ (by rw [here]; rfl) rfl
  next here =>
    cases taken
    exact .report _ _ rfl (by rw [here]; rfl) rfl
  next here => exact quiet_destroy here taken
  next => cases taken

theorem quiet_exit (taken : state.percpuParallelModuleExit cpus = some next) :
    state.Quiet next := by
  unfold percpuParallelModuleExit at taken
  split at taken
  next here =>
    cases taken
    exact .enter _ (by rw [here]; rfl) rfl
  next here => exact quiet_destroy here taken
  next here =>
    cases taken
    exact .report _ _ rfl (by rw [here]; rfl) rfl
  next => cases taken

theorem listed_later (phase : Phase) (listed : phase.listed = true) : phase.assigns = false := by
  cases phase with
  | assigning rest => cases listed
  | _ => rfl

/-- Every step is one of a thread or quiet. -/
theorem step_cases {event : ParallelEvent}
    (taken : (percpuParallel cpus width).step state event = some next) :
    (∃ cpu thread, event = .thread cpu ∧ state.gsThread cpu = some thread ∧
      state.smpbootThreadFn cpu thread = some next) ∨
    ((∀ cpu, event ≠ .thread cpu) ∧ state.Quiet next) := by
  cases event with
  | init => exact .inr ⟨fun cpu => ParallelEvent.noConfusion, quiet_init taken⟩
  | create ret => exact .inr ⟨fun cpu => ParallelEvent.noConfusion, quiet_create taken⟩
  | exit => exact .inr ⟨fun cpu => ParallelEvent.noConfusion, quiet_exit taken⟩
  | offline cpu =>
    obtain ⟨⟨-, -, between⟩, same⟩ := Option.ite_none_right_eq_some.mp taken
    cases same
    exact .inr ⟨fun cpu => ParallelEvent.noConfusion, .offline cpu between⟩
  | online cpu =>
    obtain ⟨-, same⟩ := Option.ite_none_right_eq_some.mp taken
    cases same
    refine .inr ⟨fun cpu => ParallelEvent.noConfusion, ?_⟩
    split
    · rename_i listed
      exact .online cpu (listed_later _ listed)
    · exact .plug cpu
  | thread cpu =>
    obtain ⟨thread, here, moved⟩ := Option.bind_eq_some_iff.mp taken
    exact .inl ⟨cpu, thread, rfl, here, moved⟩

theorem Placed.quiet (placed : state.Placed) (quiet : state.Quiet next) : next.Placed := by
  cases quiet with
  | assign cpu rest here =>
    have counted : (state.setCount cpu (initialCount width cpu)).Placed := placed.congr rfl rfl
    apply counted.enter
    intro _
    change state.phase.assigns = true
    rw [here]
    rfl
  | enter phase _ later => exact placed.enterLater later
  | report line phase _ _ later =>
    have said : (state.prInfo line).Placed := placed.congr rfl rfl
    exact said.enterLater later
  | stop cpu phase _ now later =>
    have stopped : (state.setThread cpu none).Placed := placed.setThread (by simp) now
    exact stopped.enterLater later
  | create cpu phase now later =>
    exact (placed.bringUp now).enterLater later
  | offline cpu _ => exact placed.park.congr rfl rfl
  | online cpu now => exact (placed.bringUp now).congr rfl rfl
  | plug cpu => exact placed.congr rfl rfl

/-- One step of a call touches no thread and no phase. -/
theorem runPercpuParallel_frame (state : Parallel width) (thisCpu cpu : UInt32)
    (point : CallPoint width) :
    (state.runPercpuParallel thisCpu cpu point).1.gsThread = state.gsThread ∧
      (state.runPercpuParallel thisCpu cpu point).1.phase = state.phase := by
  cases point with
  | count point => cases point <;> exact ⟨rfl, rfl⟩
  | sleep => exact ⟨rfl, rfl⟩

theorem Placed.threadStep (placed : state.Placed) (here : state.gsThread cpu = some thread)
    (taken : state.smpbootThreadFn cpu thread = some next) : next.Placed := by
  unfold smpbootThreadFn at taken
  split at taken
  · cases taken
  · cases taken
    have said : (state.prInfo (.run thread.cpu)).Placed := placed.congr rfl rfl
    exact said.move here _
  · rename_i point _
    obtain ⟨threads, phase⟩ := runPercpuParallel_frame state cpu thread.cpu point
    cases taken
    have called : (state.runPercpuParallel cpu thread.cpu point).1.Placed :=
      placed.congr threads phase
    exact called.move (by rw [threads]; exact here) _

theorem Placed.step (placed : state.Placed) {event : ParallelEvent}
    (taken : (percpuParallel cpus width).step state event = some next) : next.Placed := by
  rcases step_cases taken with ⟨cpu, thread, -, here, moved⟩ | ⟨-, quiet⟩
  · exact placed.threadStep here moved
  · exact placed.quiet quiet

theorem placed_initial (cpus : Cpus) (width : Nat) :
    (percpuParallel cpus width).initial.Placed :=
  ⟨nofun, fun _ _ => rfl⟩

end Parallel

end KernelSamples.Smp

import KernelSamples.Smp.PercpuParallel
import Mathlib.Algebra.Group.Nat.Defs

/-! What is logged for one CPU: its thread counts as it would if it were alone, whatever the
other CPUs and the hotplug do. -/

namespace KernelSamples.Smp

open Lib

variable {width : Nat}

/-- The value a line reports. -/
def LogLine.val : LogLine width → Option (BitVec width)
  | .count _ val => some val
  | _ => none

/-- A counter with the thread that counts with it, and the lines it logs. `call` is `none`
between two calls. -/
@[ext] structure Counter (width : Nat) where
  call : Option (CallPoint width)
  count : BitVec width
  lines : List (LogLine width)

/-- Numbers in a row, as words. -/
def consecutive (width first many : Nat) : List (BitVec width) :=
  (List.range many).map fun later => BitVec.ofNat width (first + later)

theorem consecutive_succ (first many : Nat) :
    consecutive width first (many + 1) =
      consecutive width first many ++ [BitVec.ofNat width (first + many)] := by
  simp [consecutive, List.range_succ]

namespace Counter

def fresh (width : Nat) (cpu : UInt32) : Counter width := ⟨none, initialCount width cpu, []⟩

def advance (cpu : UInt32) (counter : Counter width) : Counter width :=
  match counter.call with
  | none => { counter with call := some (.count .read), lines := counter.lines ++ [.run cpu] }
  | some (.count .read) => { counter with call := some (.count (.inc counter.count)) }
  | some (.count (.inc val)) =>
    { counter with call := some (.count (.report val)), count := counter.count + 1 }
  | some (.count (.report val)) =>
    { counter with call := some .sleep, lines := counter.lines ++ [.count cpu val] }
  | some .sleep => { counter with call := none }

def values (counter : Counter width) : List (BitVec width) := counter.lines.filterMap LogLine.val

/-- The counter stands at a number that has not been reported: also while it is read, and
incremented already while it is about to be reported. -/
def StandsAt (number : Nat) : Option (CallPoint width) → BitVec width → Prop
  | some (.count (.inc val)), count =>
    val = BitVec.ofNat width number ∧ count = BitVec.ofNat width number
  | some (.count (.report val)), count =>
    val = BitVec.ofNat width number ∧ count = BitVec.ofNat width (number + 1)
  | _, count => count = BitVec.ofNat width number

/-- The values reported are in a row from `first` on, and the next one is due. -/
structure Counts (first : Nat) (counter : Counter width) : Prop where
  values : counter.values = consecutive width first counter.values.length
  upcoming : StandsAt (first + counter.values.length) counter.call counter.count

variable {first : Nat} {counter : Counter width} {cpu : UInt32}

theorem reported_append (lines : List (LogLine width)) (line : LogLine width) :
    (lines ++ [line]).filterMap LogLine.val = lines.filterMap LogLine.val ++ line.val.toList := by
  rw [List.filterMap_append]
  cases line <;> rfl

theorem Counts.advance (counts : counter.Counts first) : (counter.advance cpu).Counts first := by
  obtain ⟨call, count, lines⟩ := counter
  obtain ⟨values, upcoming⟩ := counts
  unfold Counter.values at values upcoming
  dsimp only at values upcoming
  cases call with
  | none =>
    have same : Counter.values ⟨some (.count .read), count, lines ++ [.run cpu]⟩ =
        lines.filterMap LogLine.val :=
      (reported_append lines _).trans (List.append_nil _)
    constructor <;> simp only [Counter.advance, same]
    · exact values
    · exact upcoming
  | some call =>
    cases call with
    | count point =>
      cases point with
      | read => exact ⟨values, upcoming, upcoming⟩
      | inc val =>
        obtain ⟨read, stored⟩ := upcoming
        refine ⟨values, read, ?_⟩
        change count + 1 = _
        rw [stored]
        exact (BitVec.ofNat_add ..).symm
      | report val =>
        obtain ⟨read, stored⟩ := upcoming
        have longer : Counter.values ⟨some .sleep, count, lines ++ [.count cpu val]⟩ =
            lines.filterMap LogLine.val ++ [val] :=
          reported_append lines _
        constructor <;> simp only [Counter.advance, longer, List.length_append,
          List.length_singleton]
        · rw [consecutive_succ, ← values, ← read]
        · exact stored
    | sleep => exact ⟨values, upcoming⟩

theorem Counts.iterate (counts : counter.Counts first) (cpu : UInt32) (steps : Nat) :
    ((Counter.advance cpu)^[steps] counter).Counts first := by
  induction steps with
  | zero => exact counts
  | succ steps ih =>
    rw [Function.iterate_succ_apply']
    exact ih.advance

end Counter

/-- No wrap of `cpu + 1`: every possible CPU is below `nr_cpu_ids`. -/
theorem initialCount_eq {cpus : Cpus} {cpu : UInt32} (possible : cpu ∈ cpus.possible) :
    initialCount width cpu = BitVec.ofNat width ((cpu.toNat + 1) * 100) := by
  have below : cpu.toNat < cpus.nrCpuIds.toNat :=
    UInt32.lt_iff_toNat_lt.mp (cpus.below cpu possible)
  have bound := cpus.nrCpuIds.toNat_lt
  have next : (cpu + 1).toNat = cpu.toNat + 1 := by
    rw [UInt32.toNat_add, UInt32.toNat_one]
    exact Nat.mod_eq_of_lt (by omega)
  rw [initialCount, next]
  exact (BitVec.ofNat_mul ..).symm

theorem Counter.counts_fresh {cpus : Cpus} {cpu : UInt32} (possible : cpu ∈ cpus.possible) :
    (Counter.fresh width cpu).Counts ((cpu.toNat + 1) * 100) :=
  ⟨rfl, initialCount_eq possible⟩

def ThreadPoint.inCall : ThreadPoint width → Option (CallPoint width)
  | .call point => some point
  | _ => none

namespace Parallel

variable {state next : Parallel width} {cpu other : UInt32} {thread : Thread width}

def linesOf (state : Parallel width) (cpu : UInt32) : List (LogLine width) :=
  state.log.filter fun line => line.cpu = some cpu

/-- The values logged for a CPU. -/
def valuesOf (state : Parallel width) (cpu : UInt32) : List (BitVec width) :=
  (state.linesOf cpu).filterMap LogLine.val

/-- What a state has for one CPU. A counter not assigned yet will be when its thread runs. -/
def view (state : Parallel width) (cpu : UInt32) : Counter width where
  call := (state.gsThread cpu).bind fun thread => thread.point.inCall
  count := if cpu ∈ state.phase.unassigned then initialCount width cpu else state.gsCount cpu
  lines := state.linesOf cpu

theorem unassigned_later {phase : Phase} (later : phase.assigns = false) :
    phase.unassigned = [] := by
  cases phase with
  | assigning rest => cases later
  | _ => rfl

theorem bringUp_phase (state : Parallel width) (cpu : UInt32) :
    (state.bringUp cpu).phase = state.phase := by
  unfold bringUp
  split
  · rfl
  · split <;> rfl

theorem view_enter {phase : Phase} (same : phase.unassigned = state.phase.unassigned) :
    (state.enter phase).view cpu = state.view cpu := by
  unfold view enter
  rw [same]
  rfl

/-- Once every counter has its first value, the phase is not seen. -/
theorem view_enter_later {phase : Phase} (now : state.phase.assigns = false)
    (later : phase.assigns = false) : (state.enter phase).view cpu = state.view cpu :=
  view_enter ((unassigned_later later).trans (unassigned_later now).symm)

/-- A counter is seen to have its first value already, when it is assigned. -/
theorem view_assign {rest : List UInt32} (here : state.phase = .assigning (other :: rest)) :
    ((state.setCount other (initialCount width other)).enter (.assigning rest)).view cpu =
      state.view cpu := by
  refine Counter.ext rfl ?_ rfl
  simp only [view, enter, setCount, here, Phase.unassigned, List.mem_cons]
  by_cases same : cpu = other
  · simp [same]
  · simp [same]

theorem view_prInfo {line : LogLine width} (apart : line.cpu ≠ some cpu) :
    (state.prInfo line).view cpu = state.view cpu := by
  have lines : (state.prInfo line).linesOf cpu = state.linesOf cpu := by
    simp [linesOf, prInfo, List.filter_append, apart]
  unfold view
  rw [lines]
  rfl

theorem view_prInfo_own {line : LogLine width} (own : line.cpu = some cpu) :
    (state.prInfo line).view cpu =
      { state.view cpu with lines := (state.view cpu).lines ++ [line] } := by
  refine Counter.ext rfl rfl ?_
  simp [view, linesOf, prInfo, List.filter_append, own]

theorem view_setCount (different : cpu ≠ other) (count : BitVec width) :
    (state.setCount other count).view cpu = state.view cpu := by
  refine Counter.ext rfl ?_ rfl
  simp [view, setCount, Function.update_of_ne different]

theorem view_setCount_own (assigned : state.phase.unassigned = []) (count : BitVec width) :
    (state.setCount cpu count).view cpu = { state.view cpu with count := count } := by
  refine Counter.ext rfl ?_ rfl
  simp [view, setCount, assigned]

theorem view_setThread_own (moved : Thread width) :
    (state.setThread cpu (some moved)).view cpu =
      { state.view cpu with call := moved.point.inCall } := by
  refine Counter.ext ?_ rfl rfl
  simp [view]

/-- Storing another CPU's thread is not seen, nor is one between two calls as before. -/
theorem view_setThread {moved : Option (Thread width)}
    (same : cpu = other → (moved.bind fun thread => thread.point.inCall) =
      (state.gsThread other).bind fun thread => thread.point.inCall) :
    (state.setThread other moved).view cpu = state.view cpu := by
  have call : ((state.setThread other moved).gsThread cpu).bind
      (fun thread => thread.point.inCall) =
      (state.gsThread cpu).bind fun thread => thread.point.inCall := by
    by_cases here : cpu = other
    · rw [here, setThread_self, same here]
    · rw [setThread_of_ne here]
  unfold view
  rw [call]
  rfl

theorem betweenCalls_inCall (between : state.betweenCalls cpu = true) :
    ((state.gsThread cpu).bind fun thread => thread.point.inCall) = none := by
  unfold betweenCalls at between
  split at between
  next thread here =>
    rw [here]
    rcases of_decide_eq_true between with parked | loop
    · exact congrArg ThreadPoint.inCall parked
    · exact congrArg ThreadPoint.inCall loop
  next here => rw [here]; rfl

theorem view_bringUp (state : Parallel width) (cpu other : UInt32) :
    (state.bringUp other).view cpu = state.view cpu := by
  unfold bringUp
  split
  next here =>
    apply view_setThread
    intro _
    rw [here]
    rfl
  next thread here =>
    split
    next parked =>
      apply view_setThread
      intro _
      rw [here]
      exact (congrArg ThreadPoint.inCall parked).symm
    next => rfl

theorem view_park (between : state.betweenCalls other = true) :
    (state.park other).view cpu = state.view cpu := by
  unfold park
  split
  next => rfl
  next thread here =>
    apply view_setThread
    intro _
    rw [betweenCalls_inCall between]
    rfl

/-- Only threads change what is seen of a CPU, the first values being seen from the start. -/
theorem Quiet.view (quiet : state.Quiet next) (cpu : UInt32) : next.view cpu = state.view cpu := by
  cases quiet with
  | assign other rest here => exact view_assign here
  | enter phase assigned later =>
    apply view_enter
    rw [assigned, unassigned_later later]
  | report line phase general now later =>
    have said : (state.prInfo line).view cpu = state.view cpu := by
      apply view_prInfo
      rw [general]
      exact nofun
    exact (@view_enter_later _ (state.prInfo line) cpu phase now later).trans said
  | stop other phase between now later =>
    have stopped : (state.setThread other none).view cpu = state.view cpu := by
      apply view_setThread
      intro _
      exact (betweenCalls_inCall between).symm
    exact (@view_enter_later _ (state.setThread other none) cpu phase now later).trans stopped
  | create other phase now later =>
    have made : (state.bringUp other).phase.assigns = false := by
      rw [bringUp_phase]
      exact now
    exact (view_enter_later made later).trans (view_bringUp state cpu other)
  | offline other between => exact view_park between
  | online other now => exact view_bringUp state cpu other
  | plug other => rfl

/-- A thread's step does to its own counter what it would do alone. -/
theorem threadStep_view (placed : state.Placed) (here : state.gsThread cpu = some thread)
    (taken : state.smpbootThreadFn cpu thread = some next) :
    next.view cpu = (state.view cpu).advance cpu := by
  have bound := placed.bound cpu thread here
  have assigned := unassigned_later (placed.later here)
  have call : (state.view cpu).call = thread.point.inCall := by
    unfold view
    rw [here]
    rfl
  have count : (state.view cpu).count = state.gsCount cpu := by
    simp [view, assigned]
  unfold smpbootThreadFn at taken
  split at taken
  · cases taken
  · rename_i loop
    cases taken
    rw [loop] at call
    have said := @view_prInfo_own _ state cpu (.run thread.cpu) (congrArg some bound)
    rw [bound] at said ⊢
    rw [view_setThread_own]
    simp only [Counter.advance, call, ThreadPoint.inCall, said]
    rfl
  · rename_i point inCall
    cases taken
    rw [inCall] at call
    rw [view_setThread_own]
    cases point with
    | count point =>
      cases point with
      | read =>
        simp only [Counter.advance, call, ThreadPoint.inCall, readAndIncCountPercpu, count]
        rfl
      | inc val =>
        simp only [Counter.advance, call, ThreadPoint.inCall, readAndIncCountPercpu,
          view_setCount_own assigned, count]
        rfl
      | report val =>
        have said := @view_prInfo_own _ state cpu (.count thread.cpu val) (congrArg some bound)
        rw [bound] at said ⊢
        simp only [Counter.advance, call, ThreadPoint.inCall, readAndIncCountPercpu, said]
        rfl
    | sleep =>
      simp only [Counter.advance, call, ThreadPoint.inCall]
      rfl

/-- Other threads' steps are not seen: they run on other CPUs and log other lines. -/
theorem threadStep_view_other (placed : state.Placed) (different : cpu ≠ other)
    (here : state.gsThread other = some thread)
    (taken : state.smpbootThreadFn other thread = some next) : next.view cpu = state.view cpu := by
  have bound := placed.bound other thread here
  have apart : some thread.cpu ≠ some cpu := fun same =>
    different ((Option.some.inj same).symm.trans bound)
  have unseen : ∀ (state : Parallel width) moved,
      (state.setThread other moved).view cpu = state.view cpu := fun _ _ =>
    view_setThread fun same => absurd same different
  unfold smpbootThreadFn at taken
  split at taken
  · cases taken
  · cases taken
    rw [unseen]
    exact view_prInfo apart
  · rename_i point _
    cases taken
    rw [unseen]
    cases point with
    | count point =>
      cases point with
      | read => rfl
      | inc val => exact view_setCount different _
      | report val => exact view_prInfo apart
    | sleep => rfl

end Parallel

section Runs

variable {cpus : Cpus} {state last : Parallel width} {cpu : UInt32} {events : List ParallelEvent}

/-- Every run of the module is, for each CPU, a run of its counter alone, which only the
steps of its own thread advance. -/
theorem counter_simulation (possible : cpu ∈ cpus.possible) :
    Machine.Simulation (percpuParallel cpus width)
      (Machine.component (· == .thread cpu) (Counter.advance cpu) (Counter.fresh width cpu))
      fun state counter => state.Placed ∧ state.view cpu = counter where
  starts := by
    refine ⟨Parallel.placed_initial cpus width, Counter.ext rfl ?_ rfl⟩
    exact if_pos possible
  follows := by
    rintro state _ event next ⟨placed, rfl⟩ taken
    refine ⟨_, rfl, placed.step taken, ?_⟩
    rcases Parallel.step_cases taken with ⟨other, thread, rfl, here, moved⟩ | ⟨notThread, quiet⟩
    · by_cases own : other = cpu
      · subst own
        rw [if_pos (beq_self_eq_true _)]
        exact Parallel.threadStep_view placed here moved
      · have foreign : (ParallelEvent.thread other == .thread cpu) = false := by
          simpa using own
        rw [if_neg (Bool.eq_false_iff.mp foreign)]
        exact Parallel.threadStep_view_other placed (Ne.symm own) here moved
    · have foreign : (event == ParallelEvent.thread cpu) = false := by
        simpa using notThread cpu
      rw [if_neg (Bool.eq_false_iff.mp foreign)]
      exact quiet.view cpu

theorem view_run (possible : cpu ∈ cpus.possible)
    (onward : (percpuParallel cpus width).run (percpuParallel cpus width).initial events =
      some last) :
    last.view cpu =
      (Counter.advance cpu)^[events.count (.thread cpu)] (Counter.fresh width cpu) :=
  ((counter_simulation possible).component_run onward).2

theorem values_in_row (possible : cpu ∈ cpus.possible)
    (onward : (percpuParallel cpus width).run (percpuParallel cpus width).initial events =
      some last) :
    last.valuesOf cpu =
      consecutive width ((cpu.toNat + 1) * 100) (last.valuesOf cpu).length := by
  have fresh : (Counter.fresh width cpu).Counts ((cpu.toNat + 1) * 100) :=
    Counter.counts_fresh possible
  have counts := fresh.iterate cpu (events.count (.thread cpu))
  rw [← view_run possible onward] at counts
  exact counts.values

theorem consecutive_toInt {first many : Nat} (fits : first + many ≤ 2 ^ (width - 1)) :
    (consecutive width first many).map BitVec.toInt =
      (List.range many).map fun later => ((first + later : Nat) : Int) := by
  rw [consecutive, List.map_map]
  apply List.map_congr_left
  intro later member
  have below := List.mem_range.mp member
  have small : 2 * (first + later) < 2 ^ width := by
    cases width with
    | zero => omega
    | succ bits =>
      rw [Nat.add_sub_cancel] at fits
      rw [Nat.pow_succ]
      omega
  have kept : (BitVec.ofNat width (first + later)).toNat = first + later := by
    rw [BitVec.toNat_ofNat]
    exact Nat.mod_eq_of_lt (by omega)
  rw [Function.comp_apply, BitVec.toInt_eq_toNat_of_lt (by rw [kept]; exact small), kept]

theorem step_thread {thread : Thread width} (here : state.gsThread cpu = some thread) :
    (percpuParallel cpus width).step state (.thread cpu) = state.smpbootThreadFn cpu thread := by
  simp only [percpuParallel, here, Option.bind_some]

theorem step_loop (here : state.gsThread cpu = some ⟨cpu, .loop⟩) :
    ∃ next, (percpuParallel cpus width).step state (.thread cpu) = some next ∧
      next.gsThread cpu = some ⟨cpu, .call (.count .read)⟩ :=
  ⟨_, step_thread here, Parallel.setThread_self _⟩

theorem step_call {point : CallPoint width} (here : state.gsThread cpu = some ⟨cpu, .call point⟩) :
    ∃ next, (percpuParallel cpus width).step state (.thread cpu) = some next ∧
      next.gsThread cpu =
        some ⟨cpu, (state.runPercpuParallel cpu cpu point).2.elim .loop .call⟩ :=
  ⟨_, step_thread here, Parallel.setThread_self _⟩

/-- Five steps of a thread are a call, after which it is in its loop again. -/
theorem run_call (here : state.gsThread cpu = some ⟨cpu, .loop⟩) :
    ∃ next, (percpuParallel cpus width).run state (List.replicate 5 (.thread cpu)) = some next ∧
      next.gsThread cpu = some ⟨cpu, .loop⟩ := by
  obtain ⟨called, calls, atRead⟩ := @step_loop width cpus state cpu here
  obtain ⟨read, reads, atInc⟩ := @step_call width cpus called cpu _ atRead
  obtain ⟨counted, counts, atReport⟩ := @step_call width cpus read cpu _ atInc
  obtain ⟨reported, reports, atSleep⟩ := @step_call width cpus counted cpu _ atReport
  obtain ⟨woken, wakes, atLoop⟩ := @step_call width cpus reported cpu _ atSleep
  refine ⟨woken, ?_, atLoop⟩
  apply Machine.run_cons_iff.mpr
  refine ⟨called, calls, Machine.run_cons_iff.mpr ⟨read, reads, ?_⟩⟩
  apply Machine.run_cons_iff.mpr
  refine ⟨counted, counts, Machine.run_cons_iff.mpr ⟨reported, reports, ?_⟩⟩
  exact Machine.run_single.mpr wakes

/-- A thread in its loop can make any number of calls. -/
theorem run_calls (here : state.gsThread cpu = some ⟨cpu, .loop⟩) (calls : Nat) :
    ∃ next, (percpuParallel cpus width).run state (List.replicate (5 * calls) (.thread cpu)) =
        some next ∧
      next.gsThread cpu = some ⟨cpu, .loop⟩ := by
  induction calls with
  | zero => exact ⟨state, rfl, here⟩
  | succ calls ih =>
    obtain ⟨middle, early, there⟩ := ih
    obtain ⟨next, late, again⟩ := @run_call width cpus middle cpu there
    refine ⟨next, ?_, again⟩
    rw [Nat.mul_succ, List.replicate_add]
    exact Machine.run_trans early late

theorem Counter.iterate_call (counter : Counter width) (between : counter.call = none) :
    ((Counter.advance cpu)^[5] counter).call = none ∧
      ((Counter.advance cpu)^[5] counter).values.length = counter.values.length + 1 := by
  obtain ⟨call, count, lines⟩ := counter
  cases between
  have call : (Counter.advance cpu)^[5] ⟨none, count, lines⟩ =
      ⟨none, count + 1, lines ++ [.run cpu] ++ [.count cpu count]⟩ := rfl
  refine ⟨rfl, ?_⟩
  rw [call, Counter.values, reported_append, reported_append]
  simp [Counter.values, LogLine.val]

theorem Counter.iterate_calls (counter : Counter width) (between : counter.call = none)
    (calls : Nat) :
    ((Counter.advance cpu)^[5 * calls] counter).values.length =
      counter.values.length + calls := by
  induction calls generalizing counter with
  | zero => rfl
  | succ calls ih =>
    obtain ⟨between', longer⟩ := @Counter.iterate_call width cpu counter between
    rw [Nat.mul_succ, Function.iterate_add_apply, ih _ between', longer]
    omega

/-- A machine with one CPU. -/
def oneCpu : Cpus where
  nrCpuIds := 1
  possible := [0]
  booted := [0]
  ascending := by decide
  below := by simp
  bootedPossible := by decide

def oneCpuLoads : List ParallelEvent := [.init, .init, .create 0, .init, .init]

/-- On one CPU any number of values gets logged. -/
theorem reachable_calls (width calls : Nat) :
    ∃ state, (percpuParallel oneCpu width).Reachable state ∧
      state.valuesOf 0 = consecutive width 100 calls := by
  have boots : ∃ booted, (percpuParallel oneCpu width).run (percpuParallel oneCpu width).initial
      oneCpuLoads = some booted ∧ booted.gsThread 0 = some ⟨0, .loop⟩ := ⟨_, rfl, rfl⟩
  obtain ⟨booted, boot, ready⟩ := boots
  obtain ⟨last, onward, -⟩ := @run_calls width oneCpu booted 0 ready calls
  have whole := Machine.run_trans boot onward
  have possible : (0 : UInt32) ∈ oneCpu.possible := List.mem_singleton_self 0
  have steps : (oneCpuLoads ++ List.replicate (5 * calls) (ParallelEvent.thread 0)).count
      (.thread 0) = 5 * calls := by
    rw [List.count_append, List.count_replicate_self]
    exact Nat.zero_add _
  have alone := view_run possible whole
  rw [steps] at alone
  have many : (last.valuesOf 0).length = calls := by
    have logged := @Counter.iterate_calls width 0 (Counter.fresh width 0) rfl calls
    rw [← alone] at logged
    exact logged.trans (Nat.zero_add _)
  have values := values_in_row possible whole
  rw [many] at values
  exact ⟨last, ⟨_, whole⟩, values⟩

/-- In every run of the module the values logged for a possible CPU are those in a row from
`(cpu + 1) * 100` on, as a `long` counts. They are these integers as long as a `long` holds
them. The lines of the CPU depend on nothing but the number of steps of its own thread: any
other run, with other CPUs too, in which its thread has made as many logs the same. -/
theorem percpu_counters_alone (possible : cpu ∈ cpus.possible)
    (onward : (percpuParallel cpus width).run (percpuParallel cpus width).initial events =
      some last) :
    last.valuesOf cpu =
      consecutive width ((cpu.toNat + 1) * 100) (last.valuesOf cpu).length ∧
    ((cpu.toNat + 1) * 100 + (last.valuesOf cpu).length ≤ 2 ^ (width - 1) →
      (last.valuesOf cpu).map BitVec.toInt =
        (List.range (last.valuesOf cpu).length).map fun later =>
          (((cpu.toNat + 1) * 100 + later : Nat) : Int)) ∧
    ∀ (cpus' : Cpus) (events' : List ParallelEvent) (last' : Parallel width),
      cpu ∈ cpus'.possible →
      (percpuParallel cpus' width).run (percpuParallel cpus' width).initial events' =
        some last' →
      events'.count (.thread cpu) = events.count (.thread cpu) →
      last'.linesOf cpu = last.linesOf cpu := by
  have values := values_in_row possible onward
  refine ⟨values, ?_, ?_⟩
  · intro fits
    have integers := consecutive_toInt fits
    rw [← values] at integers
    exact integers
  · intro cpus' events' last' possible' onward' steps
    have alone := view_run possible' onward'
    rw [steps, ← view_run possible onward] at alone
    exact congrArg Counter.lines alone

/-- CPU 3 is possible and not online at first. -/
def threeCpus : Cpus where
  nrCpuIds := 4
  possible := [0, 1, 3]
  booted := [0, 1]
  ascending := by decide
  below := by simp
  bootedPossible := by decide

def threeCpusLoad : List ParallelEvent :=
  List.replicate 4 .init ++ [.create 0, .create 0, .init, .init]

/-- Two calls on CPU 1, which goes offline in between, among steps of the others. -/
def busyRun : List ParallelEvent :=
  threeCpusLoad ++ [.thread 1, .thread 0, .thread 1, .thread 0, .thread 1, .thread 0, .thread 0,
    .online 3, .thread 1, .thread 3, .thread 1, .offline 1, .thread 3, .thread 3, .thread 0,
    .online 1, .thread 1, .thread 1, .thread 1, .thread 3, .thread 1, .exit]

theorem percpu_counters_alone_hotplug :
    ∃ busy quiet, (percpuParallel threeCpus 64).run (percpuParallel threeCpus 64).initial
        busyRun = some busy ∧
      (percpuParallel threeCpus 64).run (percpuParallel threeCpus 64).initial
        (threeCpusLoad ++ List.replicate 9 (.thread 1)) = some quiet ∧
      busy.valuesOf 1 = [200, 201] ∧ quiet.linesOf 1 = busy.linesOf 1 := by
  have possible : (1 : UInt32) ∈ threeCpus.possible := by decide
  obtain ⟨busy, onward, two⟩ := (Option.any_eq_true (fun state => (state.valuesOf 1).length == 2)
    ((percpuParallel threeCpus 64).run (percpuParallel threeCpus 64).initial busyRun)).mp
      (by decide +kernel)
  obtain ⟨quiet, alone⟩ := Option.isSome_iff_exists.mp (by decide +kernel :
    ((percpuParallel threeCpus 64).run (percpuParallel threeCpus 64).initial
      (threeCpusLoad ++ List.replicate 9 (.thread 1))).isSome = true)
  obtain ⟨values, -, same⟩ := percpu_counters_alone possible onward
  refine ⟨busy, quiet, onward, alone, ?_, same _ _ _ possible alone (by decide)⟩
  rw [values, beq_iff_eq.mp two]
  rfl

/-- A `long` of 64 bits wraps: once LONG_MAX has been logged, LONG_MIN follows. -/
theorem long_wraps :
    ∃ state, (percpuParallel oneCpu 64).Reachable state ∧
      (state.valuesOf 0).length = 2 ^ 63 - 99 ∧
      (state.valuesOf 0).getLast? = some (BitVec.intMin 64) ∧
      (state.valuesOf 0).map BitVec.toInt ≠
        (List.range (2 ^ 63 - 99)).map fun later => (((0 + 1) * 100 + later : Nat) : Int) := by
  obtain ⟨many, full⟩ : ∃ many, 100 + many = 2 ^ 63 := ⟨2 ^ 63 - 100, by omega⟩
  have calls : 2 ^ 63 - 99 = many + 1 := by omega
  obtain ⟨state, reached, values⟩ := reachable_calls 64 (many + 1)
  have last : (state.valuesOf 0).getLast? = some (BitVec.intMin 64) := by
    rw [values, consecutive_succ, List.getLast?_concat, full]
    rfl
  rw [calls]
  refine ⟨state, reached, ?_, last, ?_⟩
  · rw [values, consecutive, List.length_map, List.length_range]
  · intro same
    have ends := congrArg List.getLast? same
    rw [List.getLast?_map, last, List.range_succ, List.map_append, List.map_singleton,
      List.getLast?_concat, Nat.zero_add, Nat.one_mul, full] at ends
    exact absurd ends (by decide)

end Runs

end KernelSamples.Smp

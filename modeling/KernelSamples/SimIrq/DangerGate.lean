import Mathlib.Data.List.Basic
import KernelSamples.Lib.Machine

/-! The gate of the two danger modules: triggers are accepted, merged and delivered, and
`danger_enabled` is read by the handler that would sleep. -/

namespace KernelSamples.SimIrq

open Lib

/-- `sleep_in_hardirq_danger` sleeps in its top half, `sleep_in_softirq_danger` in the tasklet
its top half schedules. -/
inductive DangerModule where
  | hardirq
  | softirq
  deriving DecidableEq

/-- A write to `trigger`: the value of `danger_enabled` then, and how many writes to
`danger_enabled` came before. -/
structure Trigger where
  armed : Bool
  since : Nat
  deriving DecidableEq

/-- A handler before its read of `danger_enabled`, or in its `msleep`. -/
inductive DangerPoint where
  | entered
  | sleeping
  deriving DecidableEq

/-- A run of the handler that reads `danger_enabled`: the triggers that caused it, whether it
went on to the illegal `msleep`, and how many writes to `danger_enabled` came before. -/
structure Execution where
  causes : List Trigger
  slept : Bool
  readAt : Nat
  deriving DecidableEq

/-- The calls of the module's exit, each in progress. -/
inductive DangerPhase where
  | loaded
  | debugfsRemove
  | freeIrq
  | disposeMapping
  | removeSim
  | killTasklet
  | unloaded
  deriving DecidableEq

/-- `writers` are calls of `trigger_write` that have not raised the line, `queued` the raises
merged in the irq_work, `scheduled` those merged in the tasklet. An observer keeps the values
written to `danger_enabled` and the handler runs that read it. -/
structure Danger where
  phase : DangerPhase
  gsDebugfsDangerEnabled : Bool
  writers : List Trigger
  queued : List Trigger
  topHalf : Option (DangerPoint × List Trigger)
  scheduled : List Trigger
  bottomHalf : Option (DangerPoint × List Trigger)
  writes : List Bool
  executions : List Execution
  deriving DecidableEq

/-- Accesses to the two debugfs files, the irq_work, the two halves and the exit. -/
inductive DangerEvent where
  | dangerEnabledWrite (value : Bool)
  | triggerWrite
  | raise (trigger : Trigger)
  | raiseFails (trigger : Trigger)
  | deliver
  | topHalf
  | bottomStart
  | bottomHalf
  | exit
  deriving DecidableEq

namespace Danger

/-- The handler that may sleep: its read of `danger_enabled`, then its `msleep`. -/
def handler (state : Danger) : DangerPoint × List Trigger →
    Option (DangerPoint × List Trigger) × List Execution
  | (.entered, causes) =>
    let execution := ⟨causes, state.gsDebugfsDangerEnabled, state.writes.length⟩
    (if state.gsDebugfsDangerEnabled then some (.sleeping, causes) else none, [execution])
  | (.sleeping, _) => (none, [])

/-- A delivery is lost while the handler runs and once `free_irq` was called. -/
def deliver (state : Danger) : Danger :=
  if state.topHalf = none ∧ (state.phase = .loaded ∨ state.phase = .debugfsRemove) then
    { state with queued := [], topHalf := some (.entered, state.queued) }
  else { state with queued := [] }

/-- The exit calls the next function once the one in progress has waited for what it waits
for: writers in progress, the handler, the irq_work, the tasklet. -/
def exit (sample : DangerModule) (state : Danger) : Option Danger :=
  match state.phase with
  | .loaded => some { state with phase := .debugfsRemove }
  | .debugfsRemove =>
    if state.writers = [] then some { state with phase := .freeIrq } else none
  | .freeIrq =>
    if state.topHalf = none then some { state with phase := .disposeMapping } else none
  | .disposeMapping => some { state with phase := .removeSim }
  | .removeSim =>
    if state.queued = [] then
      some { state with
        phase := match sample with
          | .hardirq => .unloaded
          | .softirq => .killTasklet }
    else none
  | .killTasklet =>
    if state.scheduled = [] ∧ state.bottomHalf = none then
      some { state with phase := .unloaded }
    else none
  | .unloaded => none

def step (sample : DangerModule) (state : Danger) : DangerEvent → Option Danger
  | .dangerEnabledWrite value =>
    if state.phase = .loaded then
      some { state with
        gsDebugfsDangerEnabled := value
        writes := state.writes ++ [value] }
    else none
  | .triggerWrite =>
    if state.phase = .loaded then
      some { state with
        writers := ⟨state.gsDebugfsDangerEnabled, state.writes.length⟩ :: state.writers }
    else none
  | .raise trigger =>
    if trigger ∈ state.writers then
      some { state with
        writers := state.writers.erase trigger
        queued := trigger :: state.queued }
    else none
  | .raiseFails trigger =>
    if trigger ∈ state.writers then
      some { state with writers := state.writers.erase trigger }
    else none
  | .deliver => if state.queued = [] then none else some state.deliver
  | .topHalf =>
    match state.topHalf, sample with
    | none, _ => none
    | some at_, .hardirq =>
      some { state with
        topHalf := (state.handler at_).1
        executions := state.executions ++ (state.handler at_).2 }
    | some (_, causes), .softirq =>
      -- tasklet_schedule
      some { state with topHalf := none, scheduled := state.scheduled ++ causes }
  | .bottomStart =>
    if state.scheduled ≠ [] ∧ state.bottomHalf = none then
      some { state with scheduled := [], bottomHalf := some (.entered, state.scheduled) }
    else none
  | .bottomHalf =>
    match state.bottomHalf with
    | none => none
    | some at_ =>
      some { state with
        bottomHalf := (state.handler at_).1
        executions := state.executions ++ (state.handler at_).2 }
  | .exit => state.exit sample

end Danger

/-- A loaded danger module. -/
def dangerMachine (sample : DangerModule) : Machine Danger DangerEvent where
  initial := ⟨.loaded, false, [], [], none, [], none, [], []⟩
  step := Danger.step sample

/-- The value of `danger_enabled` after so many of its writes. -/
def enabledAfter (writes : List Bool) (count : Nat) : Bool :=
  ((writes.take count).getLast?).getD false

section Values

variable {writes : List Bool} {since count : Nat} {value : Bool}

theorem enabledAfter_length (writes : List Bool) :
    enabledAfter writes writes.length = writes.getLast?.getD false := by
  rw [enabledAfter, List.take_length]

theorem enabledAfter_append (within : count ≤ writes.length) (more : List Bool) :
    enabledAfter (writes ++ more) count = enabledAfter writes count := by
  rw [enabledAfter, List.take_append_of_le_length within, enabledAfter]

/-- A value that is set was set at the earlier moment or written since. -/
theorem enabled_or_written (earlier : since ≤ count)
    (enabled : enabledAfter writes count = true) :
    enabledAfter writes since = true ∨ true ∈ (writes.take count).drop since := by
  have split : writes.take count = writes.take since ++ (writes.take count).drop since := by
    conv => lhs; rw [← List.take_append_drop since (writes.take count)]
    rw [List.take_take, Nat.min_eq_left earlier]
  rw [enabledAfter, split, List.getLast?_append] at enabled
  cases last : ((writes.take count).drop since).getLast? with
  | none =>
    rw [last] at enabled
    exact .inl enabled
  | some value =>
    rw [last] at enabled
    have set : value = true := enabled
    exact .inr (set ▸ List.mem_of_getLast? last)

end Values

namespace Danger

variable {sample : DangerModule} {state next : Danger}

/-- A trigger remembers the value it was written under. -/
structure Tagged (writes : List Bool) (trigger : Trigger) : Prop where
  since : trigger.since ≤ writes.length
  armed : trigger.armed = enabledAfter writes trigger.since

/-- A handler run was caused by triggers written before its read, and slept exactly when it
read 1. -/
structure Explained (writes : List Bool) (execution : Execution) : Prop where
  caused : execution.causes ≠ []
  readAt : execution.readAt ≤ writes.length
  slept : execution.slept = enabledAfter writes execution.readAt
  tagged : ∀ trigger ∈ execution.causes, Tagged writes trigger ∧ trigger.since ≤ execution.readAt

/-- What holds in every state. -/
structure Gated (state : Danger) : Prop where
  knob : state.gsDebugfsDangerEnabled = enabledAfter state.writes state.writes.length
  writers : ∀ trigger ∈ state.writers, Tagged state.writes trigger
  queued : ∀ trigger ∈ state.queued, Tagged state.writes trigger
  scheduled : ∀ trigger ∈ state.scheduled, Tagged state.writes trigger
  topHalf : ∀ point causes, state.topHalf = some (point, causes) →
    causes ≠ [] ∧ ∀ trigger ∈ causes, Tagged state.writes trigger
  bottomHalf : ∀ point causes, state.bottomHalf = some (point, causes) →
    causes ≠ [] ∧ ∀ trigger ∈ causes, Tagged state.writes trigger
  executions : ∀ execution ∈ state.executions, Explained state.writes execution

theorem Tagged.append {writes : List Bool} {trigger : Trigger} (tagged : Tagged writes trigger)
    (more : List Bool) : Tagged (writes ++ more) trigger := by
  obtain ⟨since, armed⟩ := tagged
  refine ⟨?_, ?_⟩
  · rw [List.length_append]
    omega
  · rw [enabledAfter_append since, armed]

theorem Explained.append {writes : List Bool} {execution : Execution}
    (explained : Explained writes execution) (more : List Bool) :
    Explained (writes ++ more) execution := by
  obtain ⟨caused, readAt, slept, tagged⟩ := explained
  refine ⟨caused, ?_, ?_, ?_⟩
  · rw [List.length_append]
    omega
  · rw [enabledAfter_append readAt, slept]
  · intro trigger member
    exact ⟨(tagged trigger member).1.append more, (tagged trigger member).2⟩

/-- A write to `danger_enabled` changes the value and no record of earlier ones. -/
theorem Gated.write (gated : state.Gated) (value : Bool) :
    Gated { state with gsDebugfsDangerEnabled := value, writes := state.writes ++ [value] } := by
  obtain ⟨knob, writers, queued, scheduled, topHalf, bottomHalf, executions⟩ := gated
  refine ⟨?_, ?_, ?_, ?_, ?_, ?_, ?_⟩
  · change value = enabledAfter (state.writes ++ [value]) (state.writes ++ [value]).length
    rw [enabledAfter_length, List.getLast?_concat, Option.getD_some]
  · exact fun trigger member => (writers trigger member).append [value]
  · exact fun trigger member => (queued trigger member).append [value]
  · exact fun trigger member => (scheduled trigger member).append [value]
  · intro point causes running
    obtain ⟨caused, tagged⟩ := topHalf point causes running
    exact ⟨caused, fun trigger member => (tagged trigger member).append [value]⟩
  · intro point causes running
    obtain ⟨caused, tagged⟩ := bottomHalf point causes running
    exact ⟨caused, fun trigger member => (tagged trigger member).append [value]⟩
  · exact fun execution member => (executions execution member).append [value]

/-- The handler's read is explained by its causes, and its causes stay. -/
theorem Gated.handler (gated : state.Gated) {point : DangerPoint} {causes : List Trigger}
    (caused : causes ≠ []) (tagged : ∀ trigger ∈ causes, Tagged state.writes trigger) :
    (∀ execution ∈ state.executions ++ (state.handler (point, causes)).2,
      Explained state.writes execution) ∧
    ∀ point' causes', (state.handler (point, causes)).1 = some (point', causes') →
      causes' = causes := by
  cases point with
  | entered =>
    constructor
    · intro execution member
      rcases List.mem_append.mp member with earlier | now
      · exact gated.executions execution earlier
      · rw [List.mem_singleton.mp now]
        exact ⟨caused, Nat.le_refl _, gated.knob, fun trigger member =>
          ⟨tagged trigger member, (tagged trigger member).since⟩⟩
    · intro point' causes' running
      simp only [Danger.handler, Option.ite_none_right_eq_some, Option.some.injEq,
        Prod.mk.injEq] at running
      exact running.2.2.symm
  | sleeping =>
    constructor
    · intro execution member
      rw [show (state.handler (.sleeping, causes)).2 = [] from rfl, List.append_nil] at member
      exact gated.executions execution member
    · intro point' causes' running
      cases running

/-- The exit itself only goes on. -/
theorem exit_phase (taken : state.exit sample = some next) :
    ∃ phase, next = { state with phase := phase } := by
  unfold Danger.exit at taken
  split at taken <;> (try split at taken) <;> cases taken <;> exact ⟨_, rfl⟩

theorem Gated.step {event : DangerEvent} (gated : state.Gated)
    (taken : state.step sample event = some next) : next.Gated := by
  obtain ⟨knob, writers, queued, scheduled, topHalf, bottomHalf, executions⟩ := gated
  have gated : state.Gated :=
    ⟨knob, writers, queued, scheduled, topHalf, bottomHalf, executions⟩
  cases event with
  | dangerEnabledWrite value =>
    simp only [Danger.step, Option.ite_none_right_eq_some, Option.some.injEq] at taken
    obtain ⟨-, rfl⟩ := taken
    exact gated.write value
  | triggerWrite =>
    simp only [Danger.step, Option.ite_none_right_eq_some, Option.some.injEq] at taken
    obtain ⟨-, rfl⟩ := taken
    refine ⟨knob, ?_, queued, scheduled, topHalf, bottomHalf, executions⟩
    intro trigger member
    rcases List.mem_cons.mp member with rfl | earlier
    · exact ⟨Nat.le_refl _, knob⟩
    · exact writers trigger earlier
  | raise trigger =>
    simp only [Danger.step, Option.ite_none_right_eq_some, Option.some.injEq] at taken
    obtain ⟨writing, rfl⟩ := taken
    refine ⟨knob, fun other member => writers other (List.mem_of_mem_erase member), ?_,
      scheduled, topHalf, bottomHalf, executions⟩
    intro other member
    rcases List.mem_cons.mp member with rfl | earlier
    · exact writers other writing
    · exact queued other earlier
  | raiseFails trigger =>
    simp only [Danger.step, Option.ite_none_right_eq_some, Option.some.injEq] at taken
    obtain ⟨-, rfl⟩ := taken
    exact ⟨knob, fun other member => writers other (List.mem_of_mem_erase member), queued,
      scheduled, topHalf, bottomHalf, executions⟩
  | deliver =>
    simp only [Danger.step, Option.ite_none_left_eq_some, Option.some.injEq] at taken
    obtain ⟨raised, rfl⟩ := taken
    unfold Danger.deliver
    split
    · refine ⟨knob, writers, by simp, scheduled, ?_, bottomHalf, executions⟩
      intro point causes running
      cases running
      exact ⟨raised, queued⟩
    · exact ⟨knob, writers, by simp, scheduled, topHalf, bottomHalf, executions⟩
  | topHalf =>
    simp only [Danger.step] at taken
    split at taken
    · cases taken
    · rename_i at_ running
      obtain ⟨point, causes⟩ := at_
      cases taken
      obtain ⟨caused, tagged⟩ := topHalf point causes running
      obtain ⟨explained, same⟩ := gated.handler caused tagged
      refine ⟨knob, writers, queued, scheduled, ?_, bottomHalf, explained⟩
      intro point' causes' onward
      rw [same point' causes' onward]
      exact ⟨caused, tagged⟩
    · rename_i point causes running
      cases taken
      obtain ⟨-, tagged⟩ := topHalf point causes running
      refine ⟨knob, writers, queued, ?_, by simp, bottomHalf, executions⟩
      intro trigger member
      rcases List.mem_append.mp member with earlier | now
      · exact scheduled trigger earlier
      · exact tagged trigger now
  | bottomStart =>
    simp only [Danger.step, Option.ite_none_right_eq_some, Option.some.injEq] at taken
    obtain ⟨⟨pending, -⟩, rfl⟩ := taken
    refine ⟨knob, writers, queued, by simp, topHalf, ?_, executions⟩
    intro point causes running
    cases running
    exact ⟨pending, scheduled⟩
  | bottomHalf =>
    simp only [Danger.step] at taken
    split at taken
    · cases taken
    · rename_i at_ running
      obtain ⟨point, causes⟩ := at_
      cases taken
      obtain ⟨caused, tagged⟩ := bottomHalf point causes running
      obtain ⟨explained, same⟩ := gated.handler caused tagged
      refine ⟨knob, writers, queued, scheduled, topHalf, ?_, explained⟩
      intro point' causes' onward
      rw [same point' causes' onward]
      exact ⟨caused, tagged⟩
  | exit =>
    obtain ⟨phase, rfl⟩ := exit_phase taken
    exact ⟨knob, writers, queued, scheduled, topHalf, bottomHalf, executions⟩

end Danger

section Runs

variable {sample : DangerModule} {state : Danger}

theorem reachable_gated (reached : (dangerMachine sample).Reachable state) : state.Gated := by
  refine Machine.Reachable.invariant Danger.Gated ?_ ?_ reached
  · exact ⟨rfl, by simp [dangerMachine], by simp [dangerMachine], by simp [dangerMachine],
      by simp [dangerMachine], by simp [dangerMachine], by simp [dangerMachine]⟩
  · intro state event next gated taken
    exact gated.step taken

/-- The gate is the read of `danger_enabled` in the handler. A handler that sleeps was caused
by a trigger, and since every such trigger's write the value was 1 at some moment: when the
trigger was written, or by a write to `danger_enabled` between the trigger and the read. -/
theorem illegal_sleep_explained (reached : (dangerMachine sample).Reachable state) :
    ∀ execution ∈ state.executions,
      execution.causes ≠ [] ∧
      execution.slept = enabledAfter state.writes execution.readAt ∧
      (∀ trigger ∈ execution.causes, trigger.since ≤ execution.readAt ∧
        trigger.armed = enabledAfter state.writes trigger.since) ∧
      (execution.slept = true → ∀ trigger ∈ execution.causes, trigger.armed = true ∨
        true ∈ (state.writes.take execution.readAt).drop trigger.since) ∧
      ((∀ trigger ∈ execution.causes, trigger.armed = false ∧
          true ∉ (state.writes.take execution.readAt).drop trigger.since) →
        execution.slept = false) := by
  intro execution member
  obtain ⟨caused, readAt, slept, tagged⟩ := (reachable_gated reached).executions execution member
  have enabled : execution.slept = true → ∀ trigger ∈ execution.causes, trigger.armed = true ∨
      true ∈ (state.writes.take execution.readAt).drop trigger.since := by
    intro sleeps trigger cause
    obtain ⟨⟨-, armed⟩, earlier⟩ := tagged trigger cause
    rw [armed]
    exact enabled_or_written earlier (slept ▸ sleeps)
  refine ⟨caused, slept, ?_, enabled, ?_⟩
  · intro trigger cause
    obtain ⟨⟨-, armed⟩, earlier⟩ := tagged trigger cause
    exact ⟨earlier, armed⟩
  · intro disarmed
    obtain ⟨trigger, cause⟩ := List.exists_mem_of_ne_nil _ caused
    rw [← Bool.not_eq_true]
    intro sleeps
    rcases enabled sleeps trigger cause with armed | written
    · rw [(disarmed trigger cause).1] at armed
      cases armed
    · exact (disarmed trigger cause).2 written

/-- In both modules a trigger written at 0 ends in the illegal sleep when `danger_enabled` is
set before the handler reads it. -/
theorem disarmed_trigger_sleeps :
    (∃ state, (dangerMachine .hardirq).Reachable state ∧ ∃ execution ∈ state.executions,
      execution.slept = true ∧ ∀ trigger ∈ execution.causes, trigger.armed = false) ∧
    ∃ state, (dangerMachine .softirq).Reachable state ∧ ∃ execution ∈ state.executions,
      execution.slept = true ∧ ∀ trigger ∈ execution.causes, trigger.armed = false := by
  constructor
  · obtain ⟨state, reached, checked⟩ :=
      Machine.reachable_of_run (dangerMachine .hardirq)
        [.triggerWrite, .raise ⟨false, 0⟩, .dangerEnabledWrite true, .deliver, .topHalf]
        (fun state => state.executions = [⟨[⟨false, 0⟩], true, 1⟩]) (by decide +kernel)
    have logged := of_decide_eq_true checked
    exact ⟨state, reached, ⟨[⟨false, 0⟩], true, 1⟩, by simp [logged], rfl, by simp⟩
  · obtain ⟨state, reached, checked⟩ :=
      Machine.reachable_of_run (dangerMachine .softirq)
        [.triggerWrite, .raise ⟨false, 0⟩, .deliver, .topHalf, .dangerEnabledWrite true,
          .bottomStart, .bottomHalf]
        (fun state => state.executions = [⟨[⟨false, 0⟩], true, 1⟩]) (by decide +kernel)
    have logged := of_decide_eq_true checked
    exact ⟨state, reached, ⟨[⟨false, 0⟩], true, 1⟩, by simp [logged], rfl, by simp⟩

/-- Two merged triggers, neither of which ever saw 1, while a later write arms the module. -/
theorem illegal_sleep_explained_mock :
    ∃ state, (dangerMachine .softirq).Reachable state ∧
      state.gsDebugfsDangerEnabled = true ∧
      ∃ execution ∈ state.executions, execution.causes.length = 2 ∧ execution.slept = false := by
  obtain ⟨state, reached, checked⟩ :=
    Machine.reachable_of_run (dangerMachine .softirq)
      [.triggerWrite, .triggerWrite, .raise ⟨false, 0⟩, .raise ⟨false, 0⟩, .deliver, .topHalf,
        .bottomStart, .bottomHalf, .dangerEnabledWrite true]
      (fun state => state.gsDebugfsDangerEnabled = true ∧
        (state.executions.map fun execution => (execution.causes, execution.readAt)) =
          [([⟨false, 0⟩, ⟨false, 0⟩], 0)])
      (by decide +kernel)
  obtain ⟨armed, logged⟩ := of_decide_eq_true checked
  obtain ⟨execution, rest, executions⟩ : ∃ execution rest, state.executions = execution :: rest :=
    List.exists_cons_of_ne_nil (by
      intro empty
      simp [empty] at logged)
  rw [executions, List.map_cons, List.cons.injEq, Prod.mk.injEq] at logged
  obtain ⟨⟨causes, readAt⟩, -⟩ := logged
  have member : execution ∈ state.executions := executions ▸ List.mem_cons_self
  obtain ⟨-, -, -, -, mock⟩ := illegal_sleep_explained reached execution member
  refine ⟨state, reached, armed, execution, member, by rw [causes]; rfl, mock ?_⟩
  rw [causes, readAt]
  simp

end Runs

end KernelSamples.SimIrq

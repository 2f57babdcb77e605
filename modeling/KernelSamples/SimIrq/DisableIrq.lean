import KernelSamples.SimIrq.Lifecycle

/-! `disable_irq.c` with any number of raises: what the line holds back while it is disabled,
and what enabling it delivers. -/

namespace KernelSamples.SimIrq

open Lib

def enodev : Int := 19

/-- The simulated line as genirq and irq_sim keep it. `depth` is how often it is disabled,
`latched` its IRQS_PENDING, `queued` a raise whose irq_work has not run, `resend` a software
resend that has not run, `gsHandlerRunCount` what the handler counts. -/
structure HeldLine where
  mapped : Bool
  requested : Bool
  depth : Nat
  latched : Bool
  queued : Bool
  resend : Bool
  gsHandlerRunCount : Nat
  deriving DecidableEq

namespace HeldLine

def disableIrq (line : HeldLine) : HeldLine := { line with depth := line.depth + 1 }

/-- The last `enable_irq` makes one resend of what was latched. -/
def enableIrq (line : HeldLine) : HeldLine :=
  if line.depth = 1 ∧ line.latched = true then
    { line with depth := 0, latched := false, resend := true }
  else { line with depth := line.depth - 1 }

/-- `disable_irq_top_half` runs, or the interrupt is latched. -/
def handleSimpleIrq (line : HeldLine) : HeldLine :=
  if line.requested = true ∧ line.depth = 0 then
    { line with gsHandlerRunCount := line.gsHandlerRunCount + 1 }
  else { line with latched := true }

/-- `irq_set_irqchip_state` queues the irq_work, which is queued at most once. -/
def setPending (line : HeldLine) : HeldLine := { line with queued := true }

def irqWork (line : HeldLine) : Option HeldLine :=
  if line.queued then
    some (if line.mapped then { line with queued := false }.handleSimpleIrq
      else { line with queued := false })
  else none

/-- There is none once `free_irq` came first. -/
def softwareResend (line : HeldLine) : Option HeldLine :=
  if line.resend = true ∧ line.requested = true then
    some { line with resend := false }.handleSimpleIrq
  else none

end HeldLine

/-- Statements of `disable_irq_module_init`, of its labels and of the exit. `raise i` is the
head of the loop, `sleep i` the `msleep` of its round. -/
inductive HoldPoint where
  | createSim
  | createMapping
  | requestIrq
  | disableIrq
  | raise (i : Nat)
  | sleep (i : Nat)
  | enableIrq
  | lastSleep
  | loaded
  | errEnableIrq
  | errFreeIrq
  | errDisposeMapping
  | errRemoveSim
  | exitFreeIrq
  | exitDisposeMapping
  | exitRemoveSim
  | returned
  deriving DecidableEq

/-- Statements between `disable_irq` and `enable_irq`, on either path. -/
def HoldPoint.disabled : HoldPoint → Bool
  | .raise _ | .sleep _ | .enableIrq | .errEnableIrq => true
  | _ => false

/-- Statements after `enable_irq` when no raise failed. -/
def HoldPoint.opened : HoldPoint → Bool
  | .lastSleep | .loaded | .exitFreeIrq | .exitDisposeMapping | .exitRemoveSim => true
  | _ => false

/-- Statements of init when nothing has failed. -/
def HoldPoint.loading : HoldPoint → Bool
  | .createSim | .createMapping | .requestIrq | .disableIrq | .raise _ | .sleep _ | .enableIrq
  | .lastSleep | .loaded => true
  | _ => false

/-- The handler runs the module reports. -/
inductive HoldReport where
  | whileDisabled (i runs : Nat)
  | afterEnable (runs : Nat)
  deriving DecidableEq

/-- `result` is what init has returned. An observer counts the raises that succeeded and the
calls of `enable_irq`, logs the releases in order and keeps which raise failed and how. -/
structure Holding where
  point : HoldPoint
  line : HeldLine
  ret : Int
  result : Option Int
  reports : List HoldReport
  raised : Nat
  enables : Nat
  released : List Resource
  failedAt : Option (Nat × Int)
  deriving DecidableEq

/-- The thread of init and exit goes on, its call fails, the irq_work or a software resend
runs, or the module is removed. -/
inductive HoldEvent where
  | call
  | fail (error : Int)
  | irqWork
  | softwareResend
  | exit
  deriving DecidableEq

namespace Holding

def goto (state : Holding) (point : HoldPoint) : Holding := { state with point := point }

def enable (state : Holding) (point : HoldPoint) : Holding :=
  { state with
    point := point
    line := state.line.enableIrq
    enables := state.enables + 1 }

def release (state : Holding) (resource : Resource) (line : HeldLine) (point : HoldPoint) :
    Holding :=
  { state with
    point := point
    line := line
    released := state.released ++ [resource] }

/-- The thread's next call, when it succeeds. A raise is delivered before the `msleep` after
it ends. -/
def call (disabledRaiseCount : Nat) (state : Holding) : Option Holding :=
  match state.point with
  | .createSim => some (state.goto .createMapping)
  | .createMapping =>
    some { state with point := .requestIrq, line := { state.line with mapped := true } }
  | .requestIrq =>
    some { state with point := .disableIrq, line := { state.line with requested := true } }
  | .disableIrq => some { state with point := .raise 1, line := state.line.disableIrq }
  | .raise i =>
    if i ≤ disabledRaiseCount then
      some { state with
        point := .sleep i
        line := state.line.setPending
        raised := state.raised + 1 }
    else some (state.goto .enableIrq)
  | .sleep i =>
    if state.line.queued then none
    else
      some { state with
        point := .raise (i + 1)
        reports := state.reports ++ [.whileDisabled i state.line.gsHandlerRunCount] }
  | .enableIrq => some (state.enable .lastSleep)
  | .lastSleep =>
    some { state with
      point := .loaded
      reports := state.reports ++ [.afterEnable state.line.gsHandlerRunCount]
      result := some 0 }
  | .loaded => none
  | .errEnableIrq => some (state.enable .errFreeIrq)
  | .errFreeIrq =>
    some (state.release .irq { state.line with requested := false } .errDisposeMapping)
  | .errDisposeMapping =>
    some (state.release .mapping { state.line with mapped := false } .errRemoveSim)
  | .errRemoveSim =>
    -- irq_domain_remove_sim waits for the irq_work
    if state.line.queued then none
    else some { state.release .simDomain state.line .returned with result := some state.ret }
  | .exitFreeIrq =>
    some (state.release .irq { state.line with requested := false } .exitDisposeMapping)
  | .exitDisposeMapping =>
    some (state.release .mapping { state.line with mapped := false } .exitRemoveSim)
  | .exitRemoveSim =>
    if state.line.queued then none
    else some (state.release .simDomain state.line .returned)
  | .returned => none

/-- The thread's next call, when it fails. -/
def fail (disabledRaiseCount : Nat) (error : Int) (state : Holding) : Option Holding :=
  match state.point with
  | .createSim => some { state with point := .returned, ret := error, result := some error }
  | .createMapping => some { state with point := .errRemoveSim, ret := -enodev }
  | .requestIrq => some { state with point := .errDisposeMapping, ret := error }
  | .raise i =>
    if i ≤ disabledRaiseCount then
      some { state with
        point := .errEnableIrq
        ret := error
        failedAt := some (i, error) }
    else none
  | _ => none

def step (disabledRaiseCount : Nat) (state : Holding) : HoldEvent → Option Holding
  | .call => state.call disabledRaiseCount
  | .fail error => if error = 0 then none else state.fail disabledRaiseCount error
  | .irqWork => state.line.irqWork.map fun line => { state with line := line }
  | .softwareResend => state.line.softwareResend.map fun line => { state with line := line }
  | .exit => if state.point = .loaded then some (state.goto .exitFreeIrq) else none

end Holding

/-- The module with this many raises, any of which may fail. -/
def disableIrqMachine (disabledRaiseCount : Nat) : Machine Holding HoldEvent where
  initial := ⟨.createSim, ⟨false, false, 0, false, false, false, 0⟩, 0, none, [], 0, 0, [], none⟩
  step := Holding.step disabledRaiseCount

namespace HeldLine

variable {line next : HeldLine} {raised : Nat}

/-- Disabled once, and the raises delivered so far are merged in one latch. -/
structure Held (line : HeldLine) (raised : Nat) : Prop where
  mapped : line.mapped = true
  requested : line.requested = true
  depth : line.depth = 1
  resend : line.resend = false
  runs : line.gsHandlerRunCount = 0
  counted : line.queued = true → 0 < raised
  latched : line.latched = decide (line.queued.toNat < raised)

/-- Not disabled, nothing under way but the resend, and it makes up the one run there is for
all raises. -/
structure Open (line : HeldLine) (raised : Nat) : Prop where
  depth : line.depth = 0
  latched : line.latched = false
  queued : line.queued = false
  runs : line.gsHandlerRunCount + line.resend.toNat = min raised 1

theorem Open.disableIrq (unraised : line.Open 0) (mapped : line.mapped = true)
    (requested : line.requested = true) :
    line.disableIrq.Held 0 ∧ line.disableIrq.queued = false := by
  obtain ⟨depth, latched, queued, runs⟩ := unraised
  have none : line.gsHandlerRunCount = 0 ∧ line.resend.toNat = 0 := by omega
  refine ⟨⟨mapped, requested, ?_, ?_, none.1, ?_, ?_⟩, queued⟩
  · simp [HeldLine.disableIrq, depth]
  · simpa [HeldLine.disableIrq] using none.2
  · simp [HeldLine.disableIrq, queued]
  · simpa [HeldLine.disableIrq] using latched

theorem Held.setPending (held : line.Held raised) (settled : line.queued = false) :
    line.setPending.Held (raised + 1) := by
  obtain ⟨mapped, requested, depth, resend, runs, -, latched⟩ := held
  refine ⟨mapped, requested, depth, resend, runs, fun _ => Nat.succ_pos _, ?_⟩
  rw [settled] at latched
  simpa [HeldLine.setPending] using latched

/-- A raise delivered while the line is disabled sets the latch and nothing else. -/
theorem Held.irqWork (held : line.Held raised) (runs : line.irqWork = some next) :
    next.Held raised ∧ next.queued = false := by
  obtain ⟨mapped, requested, depth, resend, none, some, latched⟩ := held
  simp only [HeldLine.irqWork, if_pos mapped, Option.ite_none_right_eq_some] at runs
  obtain ⟨queued, runs⟩ := runs
  have disabled : ¬ (line.requested = true ∧ line.depth = 0) := by
    rw [depth]
    simp
  simp only [HeldLine.handleSimpleIrq, if_neg disabled, Option.some.injEq] at runs
  subst runs
  refine ⟨⟨mapped, requested, depth, resend, none, by simp, ?_⟩, rfl⟩
  simpa using some queued

theorem Held.softwareResend (held : line.Held raised) : line.softwareResend = none := by
  simp [HeldLine.softwareResend, held.resend]

/-- Enabling the line leaves one run to come if anything was raised. -/
theorem Held.enableIrq (held : line.Held raised) (settled : line.queued = false) :
    line.enableIrq.Open raised := by
  obtain ⟨mapped, requested, depth, resend, runs, -, latched⟩ := held
  rw [settled] at latched
  by_cases any : 0 < raised
  · have latch : line.latched = true := by simpa [latched] using any
    simp only [HeldLine.enableIrq, depth, latch, and_self, if_true]
    refine ⟨rfl, rfl, settled, ?_⟩
    simp only [runs, Bool.toNat_true]
    omega
  · have latch : line.latched = false := by simpa [latched] using any
    simp only [HeldLine.enableIrq, depth, latch, Bool.false_eq_true, and_false, if_false]
    refine ⟨rfl, rfl, settled, ?_⟩
    simp only [runs, resend, Bool.toNat_false]
    omega

theorem enableIrq_requested (line : HeldLine) : line.enableIrq.requested = line.requested := by
  unfold HeldLine.enableIrq
  split <;> rfl

theorem Open.irqWork (opened : line.Open raised) : line.irqWork = none := by
  simp [HeldLine.irqWork, opened.queued]

/-- The resend is the run that was to come. -/
theorem Open.softwareResend (opened : line.Open raised) (runs : line.softwareResend = some next) :
    next.Open raised ∧ next.mapped = line.mapped ∧ next.requested = line.requested ∧
      next.resend = false := by
  obtain ⟨depth, latched, queued, total⟩ := opened
  simp only [HeldLine.softwareResend, Option.ite_none_right_eq_some] at runs
  obtain ⟨⟨resend, requested⟩, runs⟩ := runs
  have enabled : line.requested = true ∧ line.depth = 0 := ⟨requested, depth⟩
  simp only [HeldLine.handleSimpleIrq, if_pos enabled, Option.some.injEq] at runs
  subst runs
  refine ⟨⟨depth, latched, queued, ?_⟩, rfl, rfl, rfl⟩
  rw [resend] at total
  simpa using total

end HeldLine

namespace Holding

variable {state next : Holding} {disabledRaiseCount i : Nat} {error : Int}

/-- Nothing was raised and nothing runs. -/
structure Idle (state : Holding) : Prop where
  raised : state.raised = 0
  enables : state.enables = 0
  line : state.line.Open 0

/-- Before `disable_irq`. -/
def Before (state : Holding) : Prop := state.Idle ∧ state.released = []

/-- Between `disable_irq` and `enable_irq`, after this many raises. -/
structure Disabled (state : Holding) (raised : Nat) : Prop where
  counted : state.raised = raised
  enables : state.enables = 0
  released : state.released = []
  line : state.line.Held raised

/-- After `enable_irq`. -/
structure After (state : Holding) (raised : Nat) : Prop where
  counted : state.raised = raised
  enables : state.enables = 1
  line : state.line.Open raised

/-- What holds at each statement when no raise failed. -/
def Succeeding (disabledRaiseCount : Nat) (state : Holding) : Prop :=
  match state.point with
  | .createSim | .createMapping => state.Before
  | .errDisposeMapping | .errRemoveSim => state.Idle
  | .requestIrq => state.Before ∧ state.line.mapped = true
  | .disableIrq => state.Before ∧ state.line.mapped = true ∧ state.line.requested = true
  | .raise i => ∃ raised, i = raised + 1 ∧ raised ≤ disabledRaiseCount ∧
      state.Disabled raised ∧ state.line.queued = false
  | .sleep i => i ≤ disabledRaiseCount ∧ state.Disabled i
  | .enableIrq => state.Disabled disabledRaiseCount ∧ state.line.queued = false
  | .lastSleep | .loaded | .exitFreeIrq =>
    state.After disabledRaiseCount ∧ state.line.requested = true
  | .exitDisposeMapping | .exitRemoveSim => state.After disabledRaiseCount
  | .returned => state.Idle ∨ state.After disabledRaiseCount
  | .errEnableIrq | .errFreeIrq => False

/-- What the labels have released when a raise failed. -/
def unwound : HoldPoint → Option (List Resource)
  | .errEnableIrq | .errFreeIrq => some []
  | .errDisposeMapping => some [.irq]
  | .errRemoveSim => some [.irq, .mapping]
  | .returned => some [.irq, .mapping, .simDomain]
  | _ => none

/-- What holds once the raise of a round failed. -/
structure Failing (disabledRaiseCount i : Nat) (error : Int) (state : Holding) : Prop where
  round : ∃ raised, i = raised + 1 ∧ raised < disabledRaiseCount ∧
    (state.point = .errEnableIrq → state.Disabled raised ∧ state.line.queued = false) ∧
    (state.point ≠ .errEnableIrq → state.After raised)
  ret : state.ret = error
  released : unwound state.point = some state.released
  result : state.point = .returned → state.result = some error

structure Knows (disabledRaiseCount : Nat) (state : Holding) : Prop where
  succeeding : state.failedAt = none → state.Succeeding disabledRaiseCount
  failing : ∀ i error, state.failedAt = some (i, error) →
    state.Failing disabledRaiseCount i error
  reported : ∀ i runs, .whileDisabled i runs ∈ state.reports → runs = 0

/-- A call of a thread none of whose raises failed. -/
theorem Succeeding.call (known : state.Succeeding disabledRaiseCount)
    (taken : state.call disabledRaiseCount = some next) :
    next.Succeeding disabledRaiseCount ∧ next.failedAt = state.failedAt := by
  unfold Succeeding at known
  unfold Holding.call at taken
  cases point : state.point with
  | createSim =>
    simp only [point] at known taken
    cases taken
    obtain ⟨⟨raised, enables, line⟩, released⟩ := known
    exact ⟨⟨⟨raised, enables, line⟩, released⟩, rfl⟩
  | createMapping =>
    simp only [point] at known taken
    cases taken
    obtain ⟨⟨raised, enables, depth, latched, queued, runs⟩, released⟩ := known
    exact ⟨⟨⟨⟨raised, enables, depth, latched, queued, runs⟩, released⟩, rfl⟩, rfl⟩
  | requestIrq =>
    simp only [point] at known taken
    cases taken
    obtain ⟨⟨⟨raised, enables, depth, latched, queued, runs⟩, released⟩, mapped⟩ := known
    exact ⟨⟨⟨⟨raised, enables, depth, latched, queued, runs⟩, released⟩, mapped, rfl⟩, rfl⟩
  | disableIrq =>
    simp only [point] at known taken
    cases taken
    obtain ⟨⟨⟨raised, enables, line⟩, released⟩, mapped, requested⟩ := known
    obtain ⟨held, settled⟩ := line.disableIrq mapped requested
    exact ⟨⟨0, rfl, Nat.zero_le _, ⟨raised, enables, released, held⟩, settled⟩, rfl⟩
  | raise i =>
    simp only [point] at known taken
    obtain ⟨raised, rfl, within, ⟨counted, enables, released, line⟩, settled⟩ := known
    split at taken
    · rename_i more
      cases taken
      exact ⟨⟨more, congrArg (· + 1) counted, enables, released, line.setPending settled⟩, rfl⟩
    · rename_i done
      cases taken
      obtain rfl : raised = disabledRaiseCount := by omega
      exact ⟨⟨⟨counted, enables, released, line⟩, settled⟩, rfl⟩
  | sleep i =>
    simp only [point] at known taken
    obtain ⟨within, raised, enables, released, line⟩ := known
    split at taken
    · cases taken
    · rename_i settled
      cases taken
      exact ⟨⟨i, rfl, within, ⟨raised, enables, released, line⟩, by simpa using settled⟩, rfl⟩
  | enableIrq =>
    simp only [point] at known taken
    cases taken
    obtain ⟨⟨raised, enables, -, line⟩, settled⟩ := known
    exact ⟨⟨⟨raised, congrArg (· + 1) enables, line.enableIrq settled⟩,
      (state.line.enableIrq_requested).trans line.requested⟩, rfl⟩
  | lastSleep =>
    simp only [point] at known taken
    cases taken
    obtain ⟨⟨raised, enables, line⟩, requested⟩ := known
    exact ⟨⟨⟨raised, enables, line⟩, requested⟩, rfl⟩
  | loaded =>
    simp only [point] at taken
    cases taken
  | errEnableIrq =>
    simp only [point] at known
  | errFreeIrq =>
    simp only [point] at known
  | errDisposeMapping =>
    simp only [point] at known taken
    cases taken
    obtain ⟨raised, enables, depth, latched, queued, runs⟩ := known
    exact ⟨⟨raised, enables, depth, latched, queued, runs⟩, rfl⟩
  | errRemoveSim =>
    simp only [point] at known taken
    split at taken
    · cases taken
    · cases taken
      obtain ⟨raised, enables, line⟩ := known
      exact ⟨.inl ⟨raised, enables, line⟩, rfl⟩
  | exitFreeIrq =>
    simp only [point] at known taken
    cases taken
    obtain ⟨⟨raised, enables, depth, latched, queued, runs⟩, -⟩ := known
    exact ⟨⟨raised, enables, depth, latched, queued, runs⟩, rfl⟩
  | exitDisposeMapping =>
    simp only [point] at known taken
    cases taken
    obtain ⟨raised, enables, depth, latched, queued, runs⟩ := known
    exact ⟨⟨raised, enables, depth, latched, queued, runs⟩, rfl⟩
  | exitRemoveSim =>
    simp only [point] at known taken
    split at taken
    · cases taken
    · cases taken
      obtain ⟨raised, enables, line⟩ := known
      exact ⟨.inr ⟨raised, enables, line⟩, rfl⟩
  | returned =>
    simp only [point] at taken
    cases taken

/-- A call that fails, of a thread none of whose raises failed before. -/
theorem Succeeding.fail (known : state.Succeeding disabledRaiseCount)
    (unfailed : state.failedAt = none)
    (taken : state.fail disabledRaiseCount error = some next) :
    next.Succeeding disabledRaiseCount ∧ next.failedAt = none ∨
      ∃ i, next.failedAt = some (i, error) ∧ next.Failing disabledRaiseCount i error := by
  unfold Succeeding at known
  unfold Holding.fail at taken
  cases point : state.point with
  | createSim =>
    simp only [point] at known taken
    cases taken
    obtain ⟨⟨raised, enables, line⟩, -⟩ := known
    exact .inl ⟨.inl ⟨raised, enables, line⟩, unfailed⟩
  | createMapping =>
    simp only [point] at known taken
    cases taken
    obtain ⟨⟨raised, enables, line⟩, -⟩ := known
    exact .inl ⟨⟨raised, enables, line⟩, unfailed⟩
  | requestIrq =>
    simp only [point] at known taken
    cases taken
    obtain ⟨⟨⟨raised, enables, line⟩, -⟩, -⟩ := known
    exact .inl ⟨⟨raised, enables, line⟩, unfailed⟩
  | raise i =>
    simp only [point] at known taken
    split at taken
    · rename_i more
      cases taken
      obtain ⟨raised, rfl, -, ⟨counted, enables, released, line⟩, settled⟩ := known
      refine .inr ⟨raised + 1, rfl, ⟨raised, rfl, more, ?_, ?_⟩, rfl, ?_, ?_⟩
      · intro _
        exact ⟨⟨counted, enables, released, line⟩, settled⟩
      · intro elsewhere
        exact absurd rfl elsewhere
      · exact congrArg some released.symm
      · intro elsewhere
        cases elsewhere
    · cases taken
  | _ =>
    simp only [point] at taken
    cases taken

/-- A call on the way out after a raise failed. -/
theorem Failing.call (known : state.Failing disabledRaiseCount i error)
    (taken : state.call disabledRaiseCount = some next) :
    next.Failing disabledRaiseCount i error ∧ next.failedAt = state.failedAt := by
  obtain ⟨⟨raised, rfl, within, before, after⟩, ret, released, result⟩ := known
  unfold Holding.call at taken
  cases point : state.point with
  | errEnableIrq =>
    simp only [point] at taken released
    cases taken
    obtain ⟨⟨counted, enables, -, line⟩, settled⟩ := before point
    refine ⟨⟨⟨raised, rfl, within, ?_, ?_⟩, ret, released, ?_⟩, rfl⟩
    · intro elsewhere
      cases elsewhere
    · intro _
      exact ⟨counted, congrArg (· + 1) enables, line.enableIrq settled⟩
    · intro elsewhere
      cases elsewhere
  | errFreeIrq | errDisposeMapping =>
    simp only [point, unwound, Option.some.injEq] at taken released
    cases taken
    obtain ⟨counted, enables, depth, latched, queued, runs⟩ := after (by simp [point])
    refine ⟨⟨⟨raised, rfl, within, ?_, ?_⟩, ret, ?_, ?_⟩, rfl⟩
    · intro elsewhere
      cases elsewhere
    · intro _
      exact ⟨counted, enables, depth, latched, queued, runs⟩
    · simp [release, unwound, ← released]
    · intro elsewhere
      cases elsewhere
  | errRemoveSim =>
    simp only [point, unwound, Option.some.injEq] at taken released
    obtain ⟨counted, enables, line⟩ := after (by simp [point])
    rw [line.queued, if_neg (by simp)] at taken
    cases taken
    refine ⟨⟨⟨raised, rfl, within, ?_, ?_⟩, ret, ?_, ?_⟩, rfl⟩
    · intro elsewhere
      cases elsewhere
    · intro _
      exact ⟨counted, enables, line⟩
    · simp [release, unwound, ← released]
    · intro _
      exact congrArg some ret
  | returned =>
    simp only [point] at taken
    cases taken
  | _ =>
    simp only [point] at released
    cases released

theorem Failing.fail (known : state.Failing disabledRaiseCount i error) (other : Int) :
    state.fail disabledRaiseCount other = none := by
  have released := known.released
  unfold Holding.fail
  cases point : state.point with
  | createSim | createMapping | requestIrq | raise =>
    rw [point] at released
    cases released
  | _ => rfl

/-- A delivery to the disabled line. There is none to any other. -/
theorem Succeeding.irqWork {line : HeldLine} (known : state.Succeeding disabledRaiseCount)
    (runs : state.line.irqWork = some line) :
    Succeeding disabledRaiseCount { state with line := line } := by
  unfold Succeeding at known ⊢
  have refused : ∀ {raised}, state.line.Open raised → False := by
    intro raised opened
    rw [opened.irqWork] at runs
    cases runs
  cases point : state.point with
  | raise i =>
    simp only [point] at known ⊢
    obtain ⟨raised, rfl, within, ⟨counted, enables, released, held⟩, -⟩ := known
    obtain ⟨held, settled⟩ := held.irqWork runs
    exact ⟨raised, rfl, within, ⟨counted, enables, released, held⟩, settled⟩
  | sleep i =>
    simp only [point] at known ⊢
    obtain ⟨within, counted, enables, released, held⟩ := known
    exact ⟨within, counted, enables, released, (held.irqWork runs).1⟩
  | enableIrq =>
    simp only [point] at known ⊢
    obtain ⟨⟨counted, enables, released, held⟩, -⟩ := known
    obtain ⟨held, settled⟩ := held.irqWork runs
    exact ⟨⟨counted, enables, released, held⟩, settled⟩
  | createSim | createMapping | lastSleep | loaded | exitFreeIrq =>
    simp only [point] at known
    exact (refused known.1.line).elim
  | requestIrq | disableIrq =>
    simp only [point] at known
    exact (refused known.1.1.line).elim
  | errDisposeMapping | errRemoveSim | exitDisposeMapping | exitRemoveSim =>
    simp only [point] at known
    exact (refused known.line).elim
  | returned =>
    simp only [point] at known
    rcases known with idle | after
    · exact (refused idle.line).elim
    · exact (refused after.line).elim
  | errEnableIrq | errFreeIrq =>
    simp only [point] at known

/-- The resend after `enable_irq`. -/
theorem Succeeding.softwareResend {line : HeldLine} (known : state.Succeeding disabledRaiseCount)
    (runs : state.line.softwareResend = some line) :
    Succeeding disabledRaiseCount { state with line := line } := by
  unfold Succeeding at known ⊢
  have refused : ∀ {raised}, state.line.Held raised → False := by
    intro raised held
    rw [held.softwareResend] at runs
    cases runs
  have idle : ∀ point, state.Idle → Idle { state with point := point, line := line } := by
    rintro point ⟨raised, enables, opened⟩
    exact ⟨raised, enables, (opened.softwareResend runs).1⟩
  have after : ∀ point, state.After disabledRaiseCount →
      After { state with point := point, line := line } disabledRaiseCount := by
    rintro point ⟨counted, enables, opened⟩
    exact ⟨counted, enables, (opened.softwareResend runs).1⟩
  cases point : state.point with
  | raise i =>
    simp only [point] at known
    obtain ⟨raised, -, -, disabled, -⟩ := known
    exact (refused disabled.line).elim
  | sleep i =>
    simp only [point] at known
    exact (refused known.2.line).elim
  | enableIrq =>
    simp only [point] at known
    exact (refused known.1.line).elim
  | createSim | createMapping =>
    simp only [point] at known ⊢
    exact ⟨idle _ known.1, known.2⟩
  | requestIrq =>
    simp only [point] at known ⊢
    obtain ⟨-, mapped, -⟩ := known.1.1.line.softwareResend runs
    exact ⟨⟨idle _ known.1.1, known.1.2⟩, mapped.trans known.2⟩
  | disableIrq =>
    simp only [point] at known ⊢
    obtain ⟨-, mapped, requested, -⟩ := known.1.1.line.softwareResend runs
    exact ⟨⟨idle _ known.1.1, known.1.2⟩, mapped.trans known.2.1, requested.trans known.2.2⟩
  | lastSleep | loaded | exitFreeIrq =>
    simp only [point] at known ⊢
    obtain ⟨-, -, requested, -⟩ := known.1.line.softwareResend runs
    exact ⟨after _ known.1, requested.trans known.2⟩
  | errDisposeMapping | errRemoveSim =>
    simp only [point] at known ⊢
    exact idle _ known
  | exitDisposeMapping | exitRemoveSim =>
    simp only [point] at known ⊢
    exact after _ known
  | returned =>
    simp only [point] at known ⊢
    exact known.imp (idle _) (after _)
  | errEnableIrq | errFreeIrq =>
    simp only [point] at known

/-- What runs besides the thread after a raise failed. -/
theorem Failing.line {line : HeldLine} (known : state.Failing disabledRaiseCount i error)
    (runs : state.line.irqWork = some line ∨ state.line.softwareResend = some line) :
    Failing disabledRaiseCount i error { state with line := line } := by
  obtain ⟨⟨raised, rfl, within, before, after⟩, ret, released, result⟩ := known
  refine ⟨⟨raised, rfl, within, ?_, ?_⟩, ret, released, result⟩
  · intro here
    obtain ⟨⟨counted, enables, unreleased, held⟩, -⟩ := before here
    rcases runs with works | resends
    · obtain ⟨held, settled⟩ := held.irqWork works
      exact ⟨⟨counted, enables, unreleased, held⟩, settled⟩
    · rw [held.softwareResend] at resends
      cases resends
  · intro elsewhere
    obtain ⟨counted, enables, opened⟩ := after elsewhere
    rcases runs with works | resends
    · rw [opened.irqWork] at works
      cases works
    · exact ⟨counted, enables, (opened.softwareResend resends).1⟩

/-- Only a round of the loop reports a count while the line is disabled. -/
theorem call_reports (taken : state.call disabledRaiseCount = some next) :
    (∀ i runs, .whileDisabled i runs ∈ next.reports →
      .whileDisabled i runs ∈ state.reports ∨
        state.point = .sleep i ∧ runs = state.line.gsHandlerRunCount) := by
  intro i runs reported
  unfold Holding.call at taken
  cases point : state.point with
  | sleep round =>
    simp only [point] at taken
    split at taken <;> cases taken
    rcases List.mem_append.mp reported with earlier | now
    · exact .inl earlier
    · cases List.mem_singleton.mp now
      exact .inr ⟨rfl, rfl⟩
  | lastSleep =>
    simp only [point] at taken
    cases taken
    rcases List.mem_append.mp reported with earlier | now
    · exact .inl earlier
    · cases List.mem_singleton.mp now
  | raise | errRemoveSim | exitRemoveSim =>
    simp only [point] at taken
    split at taken <;> cases taken <;> exact .inl reported
  | loaded | returned =>
    simp only [point] at taken
    cases taken
  | _ =>
    simp only [point] at taken
    cases taken
    exact .inl reported

theorem fail_reports (taken : state.fail disabledRaiseCount error = some next) :
    next.reports = state.reports := by
  unfold Holding.fail at taken
  cases point : state.point with
  | createSim | createMapping | requestIrq =>
    simp only [point] at taken
    cases taken
    rfl
  | raise i =>
    simp only [point] at taken
    split at taken <;> cases taken
    rfl
  | _ =>
    simp only [point] at taken
    cases taken

/-- The handler has not run at any statement from `disable_irq` to `enable_irq`. -/
theorem Knows.disabled_runs (knows : state.Knows disabledRaiseCount)
    (disabled : state.point.disabled = true) : state.line.gsHandlerRunCount = 0 := by
  cases failure : state.failedAt with
  | none =>
    have known := knows.succeeding failure
    unfold Succeeding at known
    cases point : state.point with
    | raise i =>
      simp only [point] at known
      obtain ⟨raised, -, -, held, -⟩ := known
      exact held.line.runs
    | sleep i =>
      simp only [point] at known
      exact known.2.line.runs
    | enableIrq =>
      simp only [point] at known
      exact known.1.line.runs
    | errEnableIrq =>
      simp only [point] at known
    | _ =>
      rw [point] at disabled
      cases disabled
  | some failed =>
    obtain ⟨⟨raised, -, -, before, -⟩, -, released, -⟩ :=
      knows.failing failed.1 failed.2 failure
    cases point : state.point with
    | errEnableIrq => exact (before point).1.line.runs
    | raise | sleep | enableIrq =>
      rw [point] at released
      cases released
    | _ =>
      rw [point] at disabled
      cases disabled

theorem Knows.call (knows : state.Knows disabledRaiseCount)
    (taken : state.call disabledRaiseCount = some next) : next.Knows disabledRaiseCount := by
  have reported : ∀ i runs, .whileDisabled i runs ∈ next.reports → runs = 0 := by
    intro i runs member
    rcases call_reports taken i runs member with earlier | ⟨asleep, rfl⟩
    · exact knows.reported i runs earlier
    · exact knows.disabled_runs (by rw [asleep]; rfl)
  cases failure : state.failedAt with
  | none =>
    obtain ⟨known, same⟩ := (knows.succeeding failure).call taken
    refine ⟨fun _ => known, ?_, reported⟩
    intro i error failed
    rw [same, failure] at failed
    cases failed
  | some failed =>
    obtain ⟨known, same⟩ := (knows.failing failed.1 failed.2 failure).call taken
    rw [failure] at same
    refine ⟨?_, ?_, reported⟩
    · intro unfailed
      rw [same] at unfailed
      cases unfailed
    · intro i error here
      rw [same] at here
      cases here
      exact known

theorem Knows.fail (knows : state.Knows disabledRaiseCount)
    (taken : state.fail disabledRaiseCount error = some next) :
    next.Knows disabledRaiseCount := by
  have reported : ∀ i runs, .whileDisabled i runs ∈ next.reports → runs = 0 := by
    rw [fail_reports taken]
    exact knows.reported
  cases failure : state.failedAt with
  | none =>
    rcases (knows.succeeding failure).fail failure taken with ⟨known, same⟩ | ⟨i, failed, known⟩
    · refine ⟨fun _ => known, ?_, reported⟩
      intro i error failed
      rw [same] at failed
      cases failed
    · refine ⟨?_, ?_, reported⟩
      · intro unfailed
        rw [failed] at unfailed
        cases unfailed
      · intro i error here
        rw [failed] at here
        cases here
        exact known
  | some failed =>
    rw [(knows.failing failed.1 failed.2 failure).fail error] at taken
    cases taken

theorem Knows.line {line : HeldLine} (knows : state.Knows disabledRaiseCount)
    (runs : state.line.irqWork = some line ∨ state.line.softwareResend = some line) :
    Knows disabledRaiseCount { state with line := line } := by
  refine ⟨?_, ?_, knows.reported⟩
  · intro unfailed
    rcases runs with works | resends
    · exact (knows.succeeding unfailed).irqWork works
    · exact (knows.succeeding unfailed).softwareResend resends
  · intro i error failed
    exact (knows.failing i error failed).line runs

theorem Knows.exit (knows : state.Knows disabledRaiseCount) (loaded : state.point = .loaded) :
    (state.goto .exitFreeIrq).Knows disabledRaiseCount := by
  refine ⟨?_, ?_, knows.reported⟩
  · intro unfailed
    have known := knows.succeeding unfailed
    unfold Succeeding at known
    simp only [loaded] at known
    obtain ⟨⟨counted, enables, line⟩, requested⟩ := known
    exact ⟨⟨counted, enables, line⟩, requested⟩
  · intro i error failed
    have released := (knows.failing i error failed).released
    rw [loaded] at released
    cases released

theorem Knows.step {event : HoldEvent} (knows : state.Knows disabledRaiseCount)
    (taken : state.step disabledRaiseCount event = some next) :
    next.Knows disabledRaiseCount := by
  cases event with
  | call => exact knows.call taken
  | fail error =>
    simp only [Holding.step] at taken
    split at taken
    · cases taken
    · exact knows.fail taken
  | irqWork =>
    obtain ⟨line, works, rfl⟩ := Option.map_eq_some_iff.mp taken
    exact knows.line (.inl works)
  | softwareResend =>
    obtain ⟨line, resends, rfl⟩ := Option.map_eq_some_iff.mp taken
    exact knows.line (.inr resends)
  | exit =>
    simp only [Holding.step] at taken
    split at taken
    · rename_i loaded
      cases taken
      exact knows.exit loaded
    · cases taken

/-- Calls a thread has still to make after a raise failed. -/
def unwinding : HoldPoint → Nat
  | .errEnableIrq => 4
  | .errFreeIrq => 3
  | .errDisposeMapping => 2
  | .errRemoveSim => 1
  | _ => 0

/-- After a failed raise no call has to wait. -/
theorem Failing.goes_on (known : state.Failing disabledRaiseCount i error)
    (elsewhere : state.point ≠ .returned) :
    ∃ next, state.call disabledRaiseCount = some next ∧
      unwinding next.point < unwinding state.point := by
  obtain ⟨⟨raised, -, -, -, after⟩, -, released, -⟩ := known
  unfold Holding.call
  cases point : state.point with
  | errEnableIrq => exact ⟨_, rfl, by simp [enable, unwinding]⟩
  | errFreeIrq | errDisposeMapping => exact ⟨_, rfl, by simp [release, unwinding]⟩
  | errRemoveSim =>
    have settled := (after (by simp [point])).line.queued
    refine ⟨{ state.release .simDomain state.line .returned with result := some state.ret },
      ?_, ?_⟩
    · simp [settled]
    · simp [release, unwinding]
  | returned => exact absurd point elsewhere
  | _ =>
    rw [point] at released
    cases released

theorem Failing.returns (known : state.Failing disabledRaiseCount i error) :
    ∃ steps last, (disableIrqMachine disabledRaiseCount).run state
        (List.replicate steps .call) = some last ∧
      last.point = .returned ∧ last.failedAt = state.failedAt := by
  induction bound : unwinding state.point using Nat.strongRecOn generalizing state with
  | ind bound ih =>
    subst bound
    by_cases done : state.point = .returned
    · exact ⟨0, state, rfl, done, rfl⟩
    · obtain ⟨next, taken, nearer⟩ := known.goes_on done
      obtain ⟨failing, same⟩ := known.call taken
      obtain ⟨steps, last, onward, returned, failed⟩ :=
        ih (unwinding next.point) nearer failing rfl
      exact ⟨steps + 1, last, Machine.run_cons_iff.mpr ⟨next, taken, onward⟩, returned,
        failed.trans same⟩

/-- After `enable_irq` with no failed raise. -/
theorem Knows.after (knows : state.Knows disabledRaiseCount)
    (unfailed : state.failedAt = none) (enabled : state.enables = 1) :
    state.After disabledRaiseCount := by
  have known := knows.succeeding unfailed
  unfold Succeeding at known
  have before : state.enables ≠ 0 := by omega
  cases point : state.point with
  | raise i =>
    simp only [point] at known
    obtain ⟨raised, -, -, held, -⟩ := known
    exact absurd held.enables before
  | lastSleep | loaded | exitFreeIrq =>
    simp only [point] at known
    exact known.1
  | exitDisposeMapping | exitRemoveSim =>
    simp only [point] at known
    exact known
  | returned =>
    simp only [point] at known
    exact known.resolve_left fun idle => before idle.enables
  | createSim | createMapping | enableIrq =>
    simp only [point] at known
    exact absurd known.1.enables before
  | requestIrq | disableIrq =>
    simp only [point] at known
    exact absurd known.1.1.enables before
  | sleep i =>
    simp only [point] at known
    exact absurd known.2.enables before
  | errDisposeMapping | errRemoveSim =>
    simp only [point] at known
    exact absurd known.enables before
  | errEnableIrq | errFreeIrq =>
    simp only [point] at known

/-- What init has returned, where its thread stands. It returns no 0 once a call has failed. -/
def Answers (state : Holding) : Prop :=
  match state.point with
  | .loaded | .exitFreeIrq | .exitDisposeMapping | .exitRemoveSim => state.result = some 0
  | .errEnableIrq | .errFreeIrq | .errDisposeMapping | .errRemoveSim =>
    state.result = none ∧ state.ret ≠ 0
  | .returned => state.result = some 0 → state.failedAt = none ∧ state.enables = 1
  | _ => state.result = none

/-- Behind `enable_irq` no raise has failed. -/
theorem Knows.after_opened (knows : state.Knows disabledRaiseCount)
    (opened : state.point.opened = true) :
    state.failedAt = none ∧ state.After disabledRaiseCount := by
  cases failure : state.failedAt with
  | none =>
    have known := knows.succeeding failure
    unfold Succeeding at known
    cases point : state.point with
    | lastSleep | loaded | exitFreeIrq =>
      simp only [point] at known
      exact ⟨rfl, known.1⟩
    | exitDisposeMapping | exitRemoveSim =>
      simp only [point] at known
      exact ⟨rfl, known⟩
    | _ =>
      rw [point] at opened
      cases opened
  | some failed =>
    have released := (knows.failing failed.1 failed.2 failure).released
    cases point : state.point with
    | lastSleep | loaded | exitFreeIrq | exitDisposeMapping | exitRemoveSim =>
      rw [point] at released
      cases released
    | _ =>
      rw [point] at opened
      cases opened

theorem Answers.call (answers : state.Answers) (knows : state.Knows disabledRaiseCount)
    (taken : state.call disabledRaiseCount = some next) : next.Answers := by
  unfold Answers at answers
  unfold Holding.call at taken
  cases point : state.point with
  | createSim | createMapping | requestIrq | disableIrq | enableIrq =>
    simp only [point] at answers taken
    cases taken
    exact answers
  | raise i | sleep i =>
    simp only [point] at answers taken
    split at taken <;> cases taken <;> exact answers
  | lastSleep =>
    simp only [point] at taken
    cases taken
    rfl
  | errEnableIrq | errFreeIrq | errDisposeMapping =>
    simp only [point] at answers taken
    cases taken
    exact answers
  | errRemoveSim =>
    simp only [point] at answers taken
    split at taken <;> cases taken
    exact fun zero => absurd (Option.some.inj zero) answers.2
  | exitFreeIrq | exitDisposeMapping =>
    simp only [point] at answers taken
    cases taken
    exact answers
  | exitRemoveSim =>
    obtain ⟨unfailed, after⟩ := knows.after_opened (by rw [point]; rfl)
    simp only [point] at taken
    split at taken <;> cases taken
    exact fun _ => ⟨unfailed, after.enables⟩
  | loaded | returned =>
    simp only [point] at taken
    cases taken

theorem Answers.fail (answers : state.Answers) (bad : error ≠ 0)
    (taken : state.fail disabledRaiseCount error = some next) : next.Answers := by
  unfold Answers at answers
  unfold Holding.fail at taken
  cases point : state.point with
  | createSim =>
    simp only [point] at taken
    cases taken
    exact fun zero => absurd (Option.some.inj zero) bad
  | createMapping =>
    simp only [point] at answers taken
    cases taken
    exact ⟨answers, show -enodev ≠ 0 by decide⟩
  | requestIrq =>
    simp only [point] at answers taken
    cases taken
    exact ⟨answers, bad⟩
  | raise i =>
    simp only [point] at answers taken
    split at taken <;> cases taken
    exact ⟨answers, bad⟩
  | _ =>
    simp only [point] at taken
    cases taken

theorem Answers.step {event : HoldEvent} (answers : state.Answers)
    (knows : state.Knows disabledRaiseCount)
    (taken : state.step disabledRaiseCount event = some next) : next.Answers := by
  cases event with
  | call => exact answers.call knows taken
  | fail error =>
    simp only [Holding.step] at taken
    split at taken
    · cases taken
    · rename_i bad
      exact answers.fail bad taken
  | irqWork | softwareResend =>
    obtain ⟨line, -, rfl⟩ := Option.map_eq_some_iff.mp taken
    exact answers
  | exit =>
    simp only [Holding.step] at taken
    split at taken
    · rename_i loaded
      cases taken
      unfold Answers at answers
      simp only [loaded] at answers
      exact answers
    · cases taken

/-- Where init stands behind `enable_irq`, or has returned 0, it has enabled the line. -/
theorem Answers.after (answers : state.Answers) (knows : state.Knows disabledRaiseCount)
    (succeeded : state.point.opened = true ∨ state.result = some 0) :
    state.failedAt = none ∧ state.After disabledRaiseCount := by
  rcases succeeded with opened | zero
  · exact knows.after_opened opened
  · unfold Answers at answers
    cases point : state.point with
    | loaded | exitFreeIrq | exitDisposeMapping | exitRemoveSim =>
      exact knows.after_opened (by rw [point]; rfl)
    | returned =>
      simp only [point] at answers
      obtain ⟨unfailed, enabled⟩ := answers zero
      exact ⟨unfailed, knows.after unfailed enabled⟩
    | errEnableIrq | errFreeIrq | errDisposeMapping | errRemoveSim =>
      simp only [point, zero] at answers
      cases answers.1
    | _ =>
      simp only [point, zero] at answers
      cases answers

end Holding

section Runs

variable {disabledRaiseCount : Nat} {state : Holding}

/-- The resend that is to come makes the handler run for the first time. -/
theorem Holding.After.delivers {raised : Nat} (after : state.After raised)
    (resend : state.line.resend = true) (requested : state.line.requested = true) :
    ∃ next, (disableIrqMachine disabledRaiseCount).step state .softwareResend = some next ∧
      next.line.gsHandlerRunCount = 1 := by
  obtain ⟨line, resends⟩ : ∃ line, state.line.softwareResend = some line := by
    simp [HeldLine.softwareResend, resend, requested]
  refine ⟨{ state with line := line }, ?_, ?_⟩
  · simp [disableIrqMachine, Holding.step, resends]
  · obtain ⟨opened, -, -, settled⟩ := after.line.softwareResend resends
    have before := after.line.runs
    have total := opened.runs
    rw [resend, Bool.toNat_true] at before
    rw [settled, Bool.toNat_false] at total
    change line.gsHandlerRunCount = 1
    omega

end Runs

end KernelSamples.SimIrq

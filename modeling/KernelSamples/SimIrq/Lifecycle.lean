import KernelSamples.Lib.Machine

/-! The life of a simulated-IRQ sample: the calls of its init, of the labels init unwinds
through and of its exit, interleaved with raises, deliveries and both halves. -/

namespace KernelSamples.SimIrq

open Lib

/-- What a sample holds between an acquiring call and its release. `irqDisable` is one
`disable_irq` waiting for its `enable_irq`. -/
inductive Resource where
  | tasklet
  | workqueue
  | simDomain
  | mapping
  | irq
  | irqDisable
  | raiserThreads
  | debugfs
  deriving DecidableEq

/-- Contexts that raise the line come from the raiser threads and from writers of
`trigger`. -/
def Resource.raises : Resource → Bool
  | .raiserThreads | .debugfs => true
  | _ => false

inductive Label where
  | errEnableIrq
  | errFreeIrq
  | errDisposeMapping
  | errRemoveSim
  | errKillTasklet
  | errDestroyWq
  deriving DecidableEq

/-- A statement of init. A failure goes to a label, or returns at once. -/
inductive Step where
  | setup (resource : Resource)
  | acquire (resource : Resource) (onFail : Option Label)
  | raise (onFail : Option Label)
  | release (resource : Resource)
  deriving DecidableEq

/-- The calls of one module. `unwinding` lists the labels in source order, control falls
from each through the next. `bottom` is what the top half queues its bottom half on. -/
structure Sample where
  init : List Step
  unwinding : List (Label × List Resource)
  exit : List Resource
  bottom : Option Resource

/-- The releases from a label to the `return ret` of init. -/
def Sample.unwind (sample : Sample) : Option Label → List Resource
  | none => []
  | some label =>
    (sample.unwinding.dropWhile fun entry => decide (entry.1 ≠ label)).flatMap Prod.snd

def raise : Step := .raise (some .errFreeIrq)

def unwindLine : List (Label × List Resource) :=
  [(.errFreeIrq, [.irq]), (.errDisposeMapping, [.mapping]), (.errRemoveSim, [.simDomain])]

/-- `irq_domain_create_sim`, `irq_create_mapping` and `request_irq` of every sample. -/
def acquireLine (onFail : Option Label) : List Step :=
  [.acquire .simDomain onFail, .acquire .mapping (some .errRemoveSim),
    .acquire .irq (some .errDisposeMapping)]

def hardirqModule : Sample where
  init := acquireLine none ++ [raise]
  unwinding := unwindLine
  exit := [.irq, .mapping, .simDomain]
  bottom := none

def irqNoneModule : Sample where
  init := acquireLine none ++ [raise]
  unwinding := unwindLine
  exit := [.irq, .mapping, .simDomain]
  bottom := none

def disabledRaiseCount : Nat := 5

def disableIrqModule : Sample where
  init := acquireLine none ++ .setup .irqDisable ::
    (List.replicate disabledRaiseCount (.raise (some .errEnableIrq)) ++ [.release .irqDisable])
  unwinding :=
    [(.errEnableIrq, [.irqDisable, .irq]), (.errDisposeMapping, [.mapping]),
      (.errRemoveSim, [.simDomain])]
  exit := [.irq, .mapping, .simDomain]
  bottom := none

/-- The irq thread belongs to the line: `free_irq` stops it. -/
def threadedIrqModule : Sample where
  init := acquireLine none ++ [raise]
  unwinding := unwindLine
  exit := [.irq, .mapping, .simDomain]
  bottom := some .irq

def taskletModule : Sample where
  init := .setup .tasklet :: acquireLine (some .errKillTasklet) ++ [raise]
  unwinding := unwindLine ++ [(.errKillTasklet, [.tasklet])]
  exit := [.irq, .mapping, .simDomain, .tasklet]
  bottom := some .tasklet

def bhWorkqueueModule : Sample where
  init := .acquire .workqueue none :: acquireLine (some .errDestroyWq) ++ [raise]
  unwinding := unwindLine ++ [(.errDestroyWq, [.workqueue])]
  exit := [.irq, .mapping, .simDomain, .workqueue]
  bottom := some .workqueue

def workqueueSampleModule : Sample where
  init := .acquire .workqueue none :: acquireLine (some .errDestroyWq) ++ [raise]
  unwinding := unwindLine ++ [(.errDestroyWq, [.workqueue])]
  exit := [.irq, .mapping, .simDomain, .workqueue]
  bottom := some .workqueue

def interruptCompetitionModule : Sample where
  init := .setup .tasklet :: acquireLine (some .errKillTasklet) ++
    [.acquire .raiserThreads (some .errFreeIrq)]
  unwinding := unwindLine ++ [(.errKillTasklet, [.tasklet])]
  exit := [.raiserThreads, .irq, .mapping, .simDomain, .tasklet]
  bottom := some .tasklet

def sleepInHardirqDangerModule : Sample where
  init := acquireLine none ++ [.acquire .debugfs (some .errFreeIrq)]
  unwinding := unwindLine
  exit := [.debugfs, .irq, .mapping, .simDomain]
  bottom := none

def sleepInSoftirqDangerModule : Sample where
  init := .setup .tasklet :: acquireLine (some .errKillTasklet) ++
    [.acquire .debugfs (some .errFreeIrq)]
  unwinding := unwindLine ++ [(.errKillTasklet, [.tasklet])]
  exit := [.debugfs, .irq, .mapping, .simDomain, .tasklet]
  bottom := some .tasklet

/-- The samples whose top half hands over to a tasklet or to a workqueue of the module. -/
def bottomHalfSamples : List Sample :=
  [taskletModule, bhWorkqueueModule, workqueueSampleModule, interruptCompetitionModule]

def simulatedIrqSamples : List Sample :=
  [hardirqModule, irqNoneModule, disableIrqModule, threadedIrqModule,
    sleepInHardirqDangerModule, sleepInSoftirqDangerModule] ++ bottomHalfSamples

/-- Where the thread that runs init or exit stands: before a statement, or inside an
acquiring or a releasing call. -/
inductive Phase where
  | init (rest : List Step)
  | opening (resource : Resource) (onFail : Option Label) (rest : List Step)
  | releasing (resource : Resource) (rest : List Step)
  | loaded
  | teardown (rest : List Resource)
  | closing (resource : Resource) (rest : List Resource)
  | returned
  deriving DecidableEq

/-- The release the thread calls next. -/
def Phase.nextRelease : Phase → Option Resource
  | .init (.release resource :: _) => some resource
  | .teardown (resource :: _) => some resource
  | _ => none

/-- The resource whose acquiring call has not returned. -/
def Phase.opens : Phase → Option Resource
  | .opening resource _ _ => some resource
  | _ => none

/-- The resource whose releasing call has not returned. -/
def Phase.closes : Phase → Option Resource
  | .releasing resource _ => some resource
  | .closing resource _ => some resource
  | _ => none

inductive TopPoint where
  | queueing
  | returning
  deriving DecidableEq

/-- `held` lists the resources newest first, each from its acquiring call to the return of
its releasing call. `pending` is a raise whose irq_work has not run, `latched` is genirq's
own pending flag, `misqueued` a bottom half queued on what is not there. An observer also
logs what was acquired and what was released. -/
structure State where
  phase : Phase
  held : List Resource
  pending : Bool
  latched : Bool
  resend : Bool
  topHalf : Option TopPoint
  queued : Bool
  misqueued : Bool
  running : Bool
  raising : List Resource
  acquired : List Resource
  released : List Resource
  deriving DecidableEq

def State.loading (sample : Sample) : State where
  phase := .init sample.init
  held := []
  pending := false
  latched := false
  resend := false
  topHalf := none
  queued := false
  misqueued := false
  running := false
  raising := []
  acquired := []
  released := []

/-- Acquired, possibly by a call still to return, and its release not called. -/
def State.InForce (state : State) (resource : Resource) : Prop :=
  resource ∈ state.held ∧ state.phase.closes ≠ some resource

instance (state : State) (resource : Resource) : Decidable (state.InForce resource) :=
  inferInstanceAs (Decidable (_ ∧ _))

/-- In force, and its acquiring call has returned. -/
def State.Established (state : State) (resource : Resource) : Prop :=
  state.InForce resource ∧ state.phase.opens ≠ some resource

/-- What the releasing call of a resource waits for, as does a failing acquisition. -/
def State.Busy (sample : Sample) (state : State) (resource : Resource) : Prop :=
  (resource = .simDomain ∧ state.pending = true) ∨
  (resource = .irq ∧ state.topHalf ≠ none) ∨
  (sample.bottom = some resource ∧ (state.queued = true ∨ state.running = true)) ∨
  resource ∈ state.raising

instance (sample : Sample) (state : State) (resource : Resource) :
    Decidable (state.Busy sample resource) :=
  inferInstanceAs (Decidable (_ ∨ _ ∨ _ ∨ _))

/-- Steps of the thread of init and exit, of contexts that raise the line, of the queued
irq_work, of genirq's software resend and of the two halves. -/
inductive Event where
  | call
  | succeed
  | fail
  | finish
  | exit
  | enter (source : Resource)
  | raise (source : Resource)
  | leave (source : Resource)
  | deliver
  | resend
  | topHalf
  | bottomStart
  | bottomReturn
  deriving DecidableEq

/-- A releasing call takes effect when it is called. `enable_irq` resends what was latched. -/
def State.giveUp (state : State) (resource : Resource) : State :=
  if resource = .irqDisable ∧ state.latched = true then
    { state with latched := false, resend := true }
  else state

def State.drop (state : State) (resource : Resource) : State :=
  { state with
    held := state.held.erase resource
    released := resource :: state.released }

/-- The thread calls what its next statement says. -/
def State.call (state : State) : Option State :=
  match state.phase with
  | .init [] => some { state with phase := .loaded }
  | .init (.setup resource :: rest) =>
    some { state with
      phase := .init rest
      held := resource :: state.held
      acquired := resource :: state.acquired }
  | .init (.acquire resource onFail :: rest) =>
    some { state with phase := .opening resource onFail rest, held := resource :: state.held }
  | .init (.release resource :: rest) =>
    some { state.giveUp resource with phase := .releasing resource rest }
  | .teardown [] => some { state with phase := .returned }
  | .teardown (resource :: rest) =>
    some { state.giveUp resource with phase := .closing resource rest }
  | _ => none

def State.succeed (state : State) : Option State :=
  match state.phase with
  | .opening resource _ rest =>
    some { state with phase := .init rest, acquired := resource :: state.acquired }
  | .init (.raise _ :: rest) => some { state with phase := .init rest, pending := true }
  | _ => none

def State.fail (sample : Sample) (state : State) : Option State :=
  match state.phase with
  | .opening resource onFail _ =>
    if state.Busy sample resource then none
    else
      some { state with
        phase := .teardown (sample.unwind onFail)
        held := state.held.erase resource }
  | .init (.raise onFail :: _) => some { state with phase := .teardown (sample.unwind onFail) }
  | _ => none

/-- A releasing call returns. -/
def State.finish (sample : Sample) (state : State) : Option State :=
  match state.phase with
  | .releasing resource rest =>
    if state.Busy sample resource then none
    else some { state.drop resource with phase := .init rest }
  | .closing resource rest =>
    if state.Busy sample resource then none
    else some { state.drop resource with phase := .teardown rest }
  | _ => none

def State.exit (sample : Sample) (state : State) : Option State :=
  match state.phase with
  | .loaded => some { state with phase := .teardown sample.exit }
  | _ => none

/-- `handle_simple_irq`: dropped while the handler runs, latched without a handler or while
the line is disabled. -/
def State.handleSimpleIrq (sample : Sample) (state : State) : State :=
  if state.topHalf ≠ none then state
  else if state.InForce .irq ∧ ¬ state.InForce .irqDisable then
    { state with topHalf := some (if sample.bottom = none then .returning else .queueing) }
  else { state with latched := true }

/-- The irq_work: the interrupt goes to the line found, or to irq 0, which is not the
module's. -/
def State.deliver (sample : Sample) (state : State) : Option State :=
  if state.pending then
    if state.InForce .mapping then
      some ({ state with pending := false }.handleSimpleIrq sample)
    else some { state with pending := false }
  else none

/-- `tasklet_schedule` and `queue_work` on what is there set a bit. The irq thread is woken
as long as the handler runs. -/
def State.queueBottom (state : State) (target : Resource) : State :=
  if target = .irq ∨ state.InForce target then { state with queued := true }
  else { state with misqueued := true }

def State.topHalfStep (sample : Sample) (state : State) : Option State :=
  match state.topHalf, sample.bottom with
  | some .queueing, some target =>
    some { state.queueBottom target with topHalf := some .returning }
  | some .returning, _ => some { state with topHalf := none }
  | _, _ => none

/-- The module's thread is one of the contexts, the others run between any of its steps. -/
def State.step (sample : Sample) (state : State) : Event → Option State
  | .call => state.call
  | .succeed => state.succeed
  | .fail => state.fail sample
  | .finish => state.finish sample
  | .exit => state.exit sample
  | .enter source =>
    if source.raises = true ∧ state.InForce source then
      some { state with raising := source :: state.raising }
    else none
  | .raise source =>
    if source ∈ state.raising then some { state with pending := true } else none
  | .leave source =>
    if source ∈ state.raising then some { state with raising := state.raising.erase source }
    else none
  | .deliver => state.deliver sample
  | .resend =>
    if state.resend = true ∧ state.InForce .irq then
      some ({ state with resend := false }.handleSimpleIrq sample)
    else none
  | .topHalf => state.topHalfStep sample
  | .bottomStart =>
    if state.running then none
    else if state.queued then some { state with queued := false, running := true }
    else if state.misqueued then some { state with misqueued := false, running := true }
    else none
  | .bottomReturn => if state.running then some { state with running := false } else none

def lifecycle (sample : Sample) : Machine State Event where
  initial := .loading sample
  step := State.step sample

end KernelSamples.SimIrq

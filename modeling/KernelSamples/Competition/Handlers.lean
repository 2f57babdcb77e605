import KernelSamples.Lib.Machine
import KernelSamples.Lib.Word
import Mathlib.Logic.Function.Basic

/-! The two handlers of `interrupt_competition.c`, one program point per access to a
shared variable. Handlers of several CPUs may overlap here although genirq runs one
at a time, so what is proved holds for every delivery order. -/

namespace KernelSamples.Competition

open Lib

/-- Width of `unsigned long` on a Linux port. -/
structure LongWidth where
  bits : Nat
  supported : bits = 32 ∨ bits = 64

def longWidth64 : LongWidth := ⟨64, .inr rfl⟩

/-- Width of `unsigned int`. -/
def intBits : Nat := 32

theorem wrap_int {value : Nat} (small : value < 2 ^ 32) : wrap intBits value = value :=
  wrap_of_lt small

theorem LongWidth.wrap_long (width : LongWidth) {value : Nat} (small : value < 2 ^ 32) :
    wrap width.bits value = value := by
  apply wrap_of_lt
  rcases width.supported with narrow | wide
  · rwa [narrow]
  · rw [wide]
    omega

/-- Points of `interrupt_competition_top_half` with the locals still live there. -/
inductive TopPoint where
  | acquire
  | loadRun
  | storeRun (loaded : Nat)
  | takeN
  | loadShared (n : Nat)
  | storeShared (n loaded : Nat)
  | takeVal (n : Nat)
  | stamp (n val : Nat)
  | release (n val : Nat)
  | report (n val : Nat)
  | schedule
  | handled
  deriving DecidableEq

/-- Points of `interrupt_competition_bottom_half` with the locals still live there. -/
inductive BottomPoint where
  | acquire
  | takeSeq
  | loadShared (seq : Nat)
  | storeShared (seq loaded : Nat)
  | takeVal (seq : Nat)
  | release (seq val : Nat)
  | report (seq val : Nat)
  deriving DecidableEq

/-- Which handler a critical section belongs to. -/
inductive Half where
  | top
  | bottom
  deriving DecidableEq

/-- The context that holds `gs_counter_lock`. -/
inductive Holder (Cpu : Type) where
  | topHalf (cpu : Cpu)
  | bottomHalf
  deriving DecidableEq

/-- The variables `gs_counter_lock` guards. An observer also keeps the finished critical
sections in order, each with the handler it belongs to and its `val`. -/
structure Counters where
  gsSharedCount : Nat
  gsHardirqRunCount : Nat
  gsPendingSeq : Nat
  finished : List (Half × Nat)

/-- Finished critical sections of one handler. -/
def Counters.sections (counters : Counters) (half : Half) : Nat :=
  counters.finished.countP fun entry => entry.1 = half

def Counters.finish (counters : Counters) (half : Half) (val : Nat) : Counters :=
  { counters with finished := counters.finished ++ [(half, val)] }

/-- The module's variables and the kernel state its handlers depend on. An observer also
counts the arrivals and keeps each `seq` read. -/
structure Handlers (Cpu : Type) where
  counters : Counters
  gsCounterLock : Option (Holder Cpu)
  topHalf : Cpu → Option TopPoint
  scheduled : Bool
  bottomHalf : Option BottomPoint
  arrivals : Nat
  picked : List Nat

namespace Handlers

variable {Cpu : Type} [DecidableEq Cpu]

def moveTop (state : Handlers Cpu) (cpu : Cpu) (point : Option TopPoint) : Handlers Cpu :=
  { state with topHalf := Function.update state.topHalf cpu point }

def moveBottom (state : Handlers Cpu) (point : Option BottomPoint) : Handlers Cpu :=
  { state with bottomHalf := point }

/-- `tasklet_schedule`: setting a bit that is already set does nothing. -/
def taskletSchedule (state : Handlers Cpu) : Handlers Cpu := { state with scheduled := true }

end Handlers

variable {Cpu : Type} [DecidableEq Cpu]

/-- One access of `interrupt_competition_top_half` on `cpu`. -/
def interruptCompetitionTopHalf (width : LongWidth) (cpu : Cpu) (state : Handlers Cpu) :
    TopPoint → Option (Handlers Cpu)
  | .acquire =>
    if state.gsCounterLock = none then
      some { state.moveTop cpu (some .loadRun) with gsCounterLock := some (.topHalf cpu) }
    else none
  | .loadRun => some (state.moveTop cpu (some (.storeRun state.counters.gsHardirqRunCount)))
  | .storeRun loaded =>
    some { state.moveTop cpu (some .takeN) with
      counters := { state.counters with gsHardirqRunCount := wrap intBits (loaded + 1) } }
  | .takeN => some (state.moveTop cpu (some (.loadShared state.counters.gsHardirqRunCount)))
  | .loadShared n => some (state.moveTop cpu (some (.storeShared n state.counters.gsSharedCount)))
  | .storeShared n loaded =>
    some { state.moveTop cpu (some (.takeVal n)) with
      counters := { state.counters with gsSharedCount := wrap width.bits (loaded + 1) } }
  | .takeVal n => some (state.moveTop cpu (some (.stamp n state.counters.gsSharedCount)))
  | .stamp n val =>
    some { state.moveTop cpu (some (.release n val)) with
      counters := { state.counters with gsPendingSeq := n } }
  | .release n val =>
    some { state.moveTop cpu (some (.report n val)) with
      gsCounterLock := none
      counters := state.counters.finish .top val }
  | .report _ _ => some (state.moveTop cpu (some .schedule))
  | .schedule => some (state.taskletSchedule.moveTop cpu (some .handled))
  | .handled => some (state.moveTop cpu none)

/-- One access of `interrupt_competition_bottom_half`. -/
def interruptCompetitionBottomHalf (width : LongWidth) (state : Handlers Cpu) :
    BottomPoint → Option (Handlers Cpu)
  | .acquire =>
    if state.gsCounterLock = none then
      some { state.moveBottom (some .takeSeq) with gsCounterLock := some .bottomHalf }
    else none
  | .takeSeq =>
    some { state.moveBottom (some (.loadShared state.counters.gsPendingSeq)) with
      picked := state.picked ++ [state.counters.gsPendingSeq] }
  | .loadShared seq =>
    some (state.moveBottom (some (.storeShared seq state.counters.gsSharedCount)))
  | .storeShared seq loaded =>
    some { state.moveBottom (some (.takeVal seq)) with
      counters := { state.counters with gsSharedCount := wrap width.bits (loaded + 1) } }
  | .takeVal seq => some (state.moveBottom (some (.release seq state.counters.gsSharedCount)))
  | .release seq val =>
    some { state.moveBottom (some (.report seq val)) with
      gsCounterLock := none
      counters := state.counters.finish .bottom val }
  | .report _ _ => some (state.moveBottom none)

/-- A hardirq enters the top half on a CPU, either handler makes its next access, or the
tasklet core clears the scheduled bit and calls the bottom half. -/
inductive HandlerEvent (Cpu : Type) where
  | arrive (cpu : Cpu)
  | topHalf (cpu : Cpu)
  | softirq
  | bottomHalf
  deriving DecidableEq

def handlerStep (width : LongWidth) (state : Handlers Cpu) :
    HandlerEvent Cpu → Option (Handlers Cpu)
  | .arrive cpu =>
    match state.topHalf cpu with
    | some _ => none
    | none =>
      some { state.moveTop cpu (some .acquire) with arrivals := state.arrivals + 1 }
  | .topHalf cpu => (state.topHalf cpu).bind (interruptCompetitionTopHalf width cpu state)
  | .softirq =>
    -- A tasklet never runs concurrently with itself.
    match state.scheduled, state.bottomHalf with
    | true, none => some { state.moveBottom (some .acquire) with scheduled := false }
    | _, _ => none
  | .bottomHalf => state.bottomHalf.bind (interruptCompetitionBottomHalf width state)

def handlersInitial : Handlers Cpu where
  counters := ⟨0, 0, 0, []⟩
  gsCounterLock := none
  topHalf := fun _ => none
  scheduled := false
  bottomHalf := none
  arrivals := 0
  picked := []

/-- Every interleaving of hardirqs and softirqs over the CPUs. -/
def handlerMachine (Cpu : Type) [DecidableEq Cpu] (width : LongWidth) :
    Machine (Handlers Cpu) (HandlerEvent Cpu) where
  initial := handlersInitial
  step := handlerStep width

variable {width : LongWidth} {state next : Handlers Cpu} {cpu : Cpu}

theorem interruptCompetitionTopHalf_arrivals {point : TopPoint}
    (taken : interruptCompetitionTopHalf width cpu state point = some next) :
    next.arrivals = state.arrivals := by
  cases point with
  | acquire =>
    simp only [interruptCompetitionTopHalf] at taken
    split at taken <;> cases taken
    rfl
  | _ =>
    cases taken
    rfl

omit [DecidableEq Cpu] in
theorem interruptCompetitionBottomHalf_arrivals {point : BottomPoint}
    (taken : interruptCompetitionBottomHalf width state point = some next) :
    next.arrivals = state.arrivals := by
  cases point with
  | acquire =>
    simp only [interruptCompetitionBottomHalf] at taken
    split at taken <;> cases taken
    rfl
  | _ =>
    cases taken
    rfl

/-- Only an arrival is counted as one. -/
def HandlerEvent.arriving : HandlerEvent Cpu → Nat
  | .arrive _ => 1
  | _ => 0

theorem handlerStep_arrivals {event : HandlerEvent Cpu}
    (taken : handlerStep width state event = some next) :
    next.arrivals = state.arrivals + event.arriving := by
  cases event with
  | arrive cpu =>
    simp only [handlerStep] at taken
    split at taken <;> cases taken
    rfl
  | topHalf cpu =>
    obtain ⟨point, -, stepped⟩ := Option.bind_eq_some_iff.mp taken
    exact interruptCompetitionTopHalf_arrivals stepped
  | softirq =>
    simp only [handlerStep] at taken
    split at taken <;> cases taken
    rfl
  | bottomHalf =>
    obtain ⟨point, -, stepped⟩ := Option.bind_eq_some_iff.mp taken
    exact interruptCompetitionBottomHalf_arrivals stepped

end KernelSamples.Competition

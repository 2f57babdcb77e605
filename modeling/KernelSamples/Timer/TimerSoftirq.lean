import KernelSamples.Lib.Clock
import KernelSamples.Lib.Machine

/-! The kernel timer of `timer_softirq.c`: a bottom half that re-arms its own timer, and an
exit that shuts the timer down while it may be queued or running. -/

namespace KernelSamples.Timer

open Lib

def intervalMs : Nat := 1000

/-- `msecs_to_jiffies` rounds up. `hz` is the kernel's `HZ`. -/
def msecsToJiffies (hz ms : Nat) : Nat := (ms * hz + 999) / 1000

def interval (hz : Nat) : Nat := msecsToJiffies hz intervalMs

/-- A `struct timer_list`: whether it has a function, and its expiry while it is queued. -/
structure TimerList (width : Nat) where
  function : Bool
  expires : Option (BitVec width)
  deriving DecidableEq

/-- `mod_timer` queues the timer or moves it. Without a function it does nothing. -/
def TimerList.modTimer {width : Nat} (timer : TimerList width) (expires : BitVec width) :
    TimerList width :=
  if timer.function then { timer with expires := some expires } else timer

/-- Points of `timer_softirq_bottom_half`. `store` has loaded `gs_tick_count`. -/
inductive BottomPoint (width : Nat) where
  | load
  | store (n : BitVec width)
  | line
  | readJiffies
  | modTimer (expires : BitVec width)
  | ret
  deriving DecidableEq

/-- Points of `timer_softirq_module_init` and `timer_softirq_module_exit`. `shutdown` is
inside `timer_shutdown_sync`. -/
inductive Phase (width : Nat) where
  | setup
  | readJiffies
  | modTimer (expires : BitVec width)
  | loadedLine
  | loaded
  | shutdown
  | unloadedLine
  | returned
  deriving DecidableEq

inductive Line (width : Nat) where
  | loaded
  | tick (count : BitVec width)
  | unloaded (count : BitVec width)
  deriving DecidableEq

def Line.tickCount {width : Nat} : Line width → Option (BitVec width)
  | .tick count => some count
  | _ => none

/-- `jiffies` counts without wrapping, the code reads it as a word. An observer keeps when
each bottom half started. -/
structure Ticking (width : Nat) where
  phase : Phase width
  jiffies : Nat
  gsTickTimer : TimerList width
  gsTickCount : BitVec width
  bottomHalf : Option (BottomPoint width)
  log : List (Line width)
  starts : List Nat
  deriving DecidableEq

namespace Ticking

variable {width : Nat}

def now (state : Ticking width) : BitVec width := BitVec.ofNat width state.jiffies

/-- `jiffies + msecs_to_jiffies(INTERVAL_MS)` in a word. -/
def nextExpiry (hz : Nat) (state : Ticking width) : BitVec width :=
  state.now + BitVec.ofNat width (interval hz)

def timerSoftirqBottomHalf (hz : Nat) (state : Ticking width) :
    BottomPoint width → Ticking width
  | .load => { state with bottomHalf := some (.store state.gsTickCount) }
  | .store n => { state with gsTickCount := n + 1, bottomHalf := some .line }
  | .line =>
    { state with log := state.log ++ [.tick state.gsTickCount], bottomHalf := some .readJiffies }
  | .readJiffies => { state with bottomHalf := some (.modTimer (state.nextExpiry hz)) }
  | .modTimer expires =>
    { state with gsTickTimer := state.gsTickTimer.modTimer expires, bottomHalf := some .ret }
  | .ret => { state with bottomHalf := none }

/-- `timer_shutdown_sync` returns when the timer is not queued, its function is not running
and it cannot be armed again. -/
def ShutDown (state : Ticking width) : Prop :=
  state.gsTickTimer = ⟨false, none⟩ ∧ state.bottomHalf = none

instance (state : Ticking width) : Decidable state.ShutDown :=
  inferInstanceAs (Decidable (_ ∧ _))

/-- The next statement of init or exit. -/
def thread (hz : Nat) (state : Ticking width) : Option (Ticking width) :=
  match state.phase with
  | .setup => some { state with phase := .readJiffies, gsTickTimer := ⟨true, none⟩ }
  | .readJiffies => some { state with phase := .modTimer (state.nextExpiry hz) }
  | .modTimer expires =>
    some { state with phase := .loadedLine, gsTickTimer := state.gsTickTimer.modTimer expires }
  | .loadedLine => some { state with phase := .loaded, log := state.log ++ [.loaded] }
  | .loaded => none
  | .shutdown => if state.ShutDown then some { state with phase := .unloadedLine } else none
  | .unloadedLine =>
    some { state with phase := .returned, log := state.log ++ [.unloaded state.gsTickCount] }
  | .returned => none

end Ticking

/-- The clock advances, the module's thread or the bottom half makes its next step, the timer
softirq takes the timer off its queue, `timer_shutdown_sync` clears the function or takes the
timer off, in any order, or `rmmod` calls exit. -/
inductive Event where
  | jiffy
  | thread
  | exit
  | expire
  | bottomHalf
  | forbid
  | dequeue
  deriving DecidableEq

namespace Ticking

variable {width : Nat}

/-- A timer whose time has come leaves the queue. One bottom half runs at a time, and none
starts without a function. -/
def expire (state : Ticking width) : Option (Ticking width) :=
  match state.gsTickTimer.expires, state.bottomHalf with
  | some expires, none =>
    if timeAfterEq state.now expires then
      let taken := { state with gsTickTimer := { state.gsTickTimer with expires := none } }
      if state.gsTickTimer.function then
        some { taken with bottomHalf := some .load, starts := state.starts ++ [state.jiffies] }
      else some taken
    else none
  | _, _ => none

def step (hz : Nat) (state : Ticking width) : Event → Option (Ticking width)
  | .jiffy => some { state with jiffies := state.jiffies + 1 }
  | .thread => state.thread hz
  | .exit =>
    match state.phase with
    | .loaded => some { state with phase := .shutdown }
    | _ => none
  | .expire => state.expire
  | .bottomHalf => state.bottomHalf.map (state.timerSoftirqBottomHalf hz)
  | .forbid =>
    match state.phase with
    | .shutdown => some { state with gsTickTimer := { state.gsTickTimer with function := false } }
    | _ => none
  | .dequeue =>
    match state.phase with
    | .shutdown => some { state with gsTickTimer := { state.gsTickTimer with expires := none } }
    | _ => none

end Ticking

/-- The module from its load at jiffy `started`. -/
def timerMachine (width hz started : Nat) : Machine (Ticking width) Event where
  initial := ⟨.setup, started, ⟨false, none⟩, 0, none, [], []⟩
  step := Ticking.step hz

end KernelSamples.Timer

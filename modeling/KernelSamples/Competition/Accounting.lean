import KernelSamples.Competition.Sections
import KernelSamples.Lib.Tally

/-! Every finished section is paid for: a top-half section by its arrival, a bottom-half
section by a top half that has called `tasklet_schedule`. -/

namespace KernelSamples.Competition

open Lib

/-- The arrival at this point has not finished its critical section. -/
def TopPoint.unfinished : TopPoint → Nat
  | .report _ _ | .schedule | .handled => 0
  | _ => 1

/-- The section is finished and `tasklet_schedule` is still to come. -/
def TopPoint.unscheduled : TopPoint → Nat
  | .report _ _ | .schedule => 1
  | _ => 0

def BottomPoint.unfinished : BottomPoint → Nat
  | .report _ _ => 0
  | _ => 1

/-- Nothing is owed by a context that is not running. -/
def owed {Point : Type} (weight : Point → Nat) (point : Option Point) : Nat :=
  point.elim 0 weight

variable {Cpu : Type} [Fintype Cpu] {width : LongWidth} {state next : Handlers Cpu} {cpu : Cpu}

namespace Handlers

/-- Arrivals pay for top-half sections, and finished top-half sections for the bottom
half's: those done, the one running, the one scheduled and those still to schedule. -/
structure Accounted (state : Handlers Cpu) : Prop where
  entered : state.counters.sections .top + tally (owed TopPoint.unfinished) state.topHalf =
    state.arrivals
  queued : state.counters.sections .bottom + owed BottomPoint.unfinished state.bottomHalf +
    state.scheduled.toNat + tally (owed TopPoint.unscheduled) state.topHalf ≤
      state.counters.sections .top

theorem Accounted.top_le (accounted : state.Accounted) :
    state.counters.sections .top ≤ state.arrivals := by
  have entered := accounted.entered
  omega

theorem Accounted.bottom_le (accounted : state.Accounted) :
    state.counters.sections .bottom ≤ state.counters.sections .top := by
  have queued := accounted.queued
  omega

theorem Accounted.bottom_lt (accounted : state.Accounted) {point : BottomPoint}
    (here : state.bottomHalf = some point) (inside : point.inside = true) :
    state.counters.sections .bottom < state.counters.sections .top := by
  have one : owed BottomPoint.unfinished state.bottomHalf = 1 := by
    rw [here]
    cases point <;> first | rfl | cases inside
  have queued := accounted.queued
  omega

/-- The bottom half moves without finishing a section or taking a scheduled bit. -/
theorem Accounted.bottomWithin (accounted : state.Accounted) {point moved : BottomPoint}
    (here : state.bottomHalf = some point) (next : Handlers Cpu)
    (stands : next.bottomHalf = some moved) (weighs : moved.unfinished = point.unfinished)
    (top : next.topHalf = state.topHalf)
    (finished : next.counters.finished = state.counters.finished)
    (scheduled : next.scheduled = state.scheduled)
    (arrivals : next.arrivals = state.arrivals) : next.Accounted := by
  obtain ⟨entered, queued⟩ := accounted
  rw [here] at queued
  constructor
  · simpa only [Counters.sections, finished, top, arrivals] using entered
  · simpa only [Counters.sections, finished, top, scheduled, stands, owed, Option.elim, weighs]
      using queued

variable [DecidableEq Cpu]

theorem Accounted.top_lt (accounted : state.Accounted) {point : TopPoint}
    (here : state.topHalf cpu = some point) (inside : point.inside = true) :
    state.counters.sections .top < state.arrivals := by
  have single := le_tally (owed TopPoint.unfinished) state.topHalf cpu
  have one : owed TopPoint.unfinished (state.topHalf cpu) = 1 := by
    rw [here]
    cases point <;> first | rfl | cases inside
  have entered := accounted.entered
  omega

/-- A section in progress has moved the counters this far, and never past what the arrivals
pay for. -/
structure Opened (width : LongWidth) (state : Handlers Cpu) (ran counted stamped : Nat) :
    Prop where
  shown : state.counters.Shows width ran counted stamped
  ranOnce : ran ≤ 1
  countedOnce : counted ≤ 1
  behind : stamped ≤ ran
  room : state.counters.sections .top + ran ≤ state.arrivals
  sharedRoom : state.counters.finished.length + counted ≤ 2 * state.arrivals

theorem Sound.opened (sound : state.Sound width) (accounted : state.Accounted) :
    ∃ ran counted stamped, state.Opened width ran counted stamped := by
  have top := accounted.top_le
  have bottom := accounted.bottom_le
  have length := state.counters.finished_length
  have values := sound.values
  simp only [Values] at values
  split at values
  · exact ⟨0, 0, 0, values, by omega, by omega, by omega, by omega, by omega⟩
  · obtain ⟨point, here, holds⟩ := values
    have room := accounted.top_lt here holds.inside
    cases point with
    | loadRun | takeN =>
      exact ⟨_, _, _, holds, by omega, by omega, by omega, by omega, by omega⟩
    | storeRun | loadShared | storeShared | takeVal | stamp | release =>
      exact ⟨_, _, _, holds.1, by omega, by omega, by omega, by omega, by omega⟩
    | acquire | report | schedule | handled => exact holds.elim
  · obtain ⟨point, here, holds⟩ := values
    have room := accounted.bottom_lt here holds.inside
    cases point with
    | takeSeq | loadShared | takeVal =>
      exact ⟨_, _, _, holds, by omega, by omega, by omega, by omega, by omega⟩
    | storeShared | release =>
      exact ⟨_, _, _, holds.1, by omega, by omega, by omega, by omega, by omega⟩
    | acquire | report => exact holds.elim

/-- A top half moves without finishing its section or scheduling the tasklet. -/
theorem Accounted.topWithin (accounted : state.Accounted) {point moved : TopPoint}
    (here : state.topHalf cpu = some point) (next : Handlers Cpu)
    (stands : next.topHalf = Function.update state.topHalf cpu (some moved))
    (unfinished : moved.unfinished = point.unfinished)
    (unscheduled : moved.unscheduled = point.unscheduled)
    (finished : next.counters.finished = state.counters.finished)
    (scheduled : next.scheduled = state.scheduled)
    (bottom : next.bottomHalf = state.bottomHalf)
    (arrivals : next.arrivals = state.arrivals) : next.Accounted := by
  obtain ⟨entered, queued⟩ := accounted
  have balance (weight : TopPoint → Nat) (weighs : weight moved = weight point) :
      tally (owed weight) next.topHalf = tally (owed weight) state.topHalf := by
    have exchanged := tally_update (owed weight) state.topHalf cpu (some moved)
    simp only [here, owed, Option.elim, weighs] at exchanged
    rw [stands]
    exact Nat.add_right_cancel exchanged
  constructor
  · simpa only [Counters.sections, finished, arrivals, balance _ unfinished] using entered
  · simpa only [Counters.sections, finished, scheduled, bottom, balance _ unscheduled] using queued

end Handlers

open Handlers

variable [DecidableEq Cpu]

omit [DecidableEq Cpu] in
theorem handlersInitial_accounted : (handlersInitial : Handlers Cpu).Accounted where
  entered := by simp [handlersInitial, Counters.sections, tally, owed]
  queued := by simp [handlersInitial, Counters.sections, tally, owed]

theorem interruptCompetitionTopHalf_accounted (accounted : state.Accounted) {point : TopPoint}
    (here : state.topHalf cpu = some point)
    (taken : interruptCompetitionTopHalf width cpu state point = some next) :
    next.Accounted := by
  have ⟨entered, queued⟩ := accounted
  have moves (weight : TopPoint → Nat) (moved : Option TopPoint) :=
    tally_update (owed weight) state.topHalf cpu moved
  simp only [here] at moves
  cases point with
  | acquire =>
    simp only [interruptCompetitionTopHalf] at taken
    split at taken
    · cases taken
      exact accounted.topWithin here _ rfl rfl rfl rfl rfl rfl rfl
    · cases taken
  | loadRun | storeRun | takeN | loadShared | storeShared | takeVal | stamp | report =>
    cases taken
    exact accounted.topWithin here _ rfl rfl rfl rfl rfl rfl rfl
  | release n val =>
    cases taken
    have paid := moves TopPoint.unfinished (some (.report n val))
    have opened := moves TopPoint.unscheduled (some (.report n val))
    simp only [owed, Option.elim, TopPoint.unfinished, TopPoint.unscheduled] at paid opened
    constructor
    · simp only [Counters.finish_sections, moveTop, ↓reduceIte] at entered ⊢
      omega
    · simp only [Counters.finish_sections, moveTop, owed, reduceCtorEq, ↓reduceIte] at queued ⊢
      omega
  | schedule =>
    cases taken
    have paid := moves TopPoint.unfinished (some .handled)
    have opened := moves TopPoint.unscheduled (some .handled)
    simp only [owed, Option.elim, TopPoint.unfinished, TopPoint.unscheduled] at paid opened
    constructor
    · simp only [moveTop, taskletSchedule] at entered ⊢
      omega
    · have bit := state.scheduled.toNat_le
      simp only [moveTop, taskletSchedule, owed, Bool.toNat_true] at queued ⊢
      omega
  | handled =>
    cases taken
    have paid := moves TopPoint.unfinished none
    have opened := moves TopPoint.unscheduled none
    simp only [owed, Option.elim, TopPoint.unfinished, TopPoint.unscheduled] at paid opened
    constructor
    · simp only [moveTop] at entered ⊢
      omega
    · simp only [moveTop, owed] at queued ⊢
      omega

omit [DecidableEq Cpu] in
theorem interruptCompetitionBottomHalf_accounted (accounted : state.Accounted)
    {point : BottomPoint} (here : state.bottomHalf = some point)
    (taken : interruptCompetitionBottomHalf width state point = some next) :
    next.Accounted := by
  have ⟨entered, queued⟩ := accounted
  rw [here] at queued
  cases point with
  | acquire =>
    simp only [interruptCompetitionBottomHalf] at taken
    split at taken
    · cases taken
      exact accounted.bottomWithin here _ rfl rfl rfl rfl rfl rfl
    · cases taken
  | takeSeq | loadShared | storeShared | takeVal =>
    cases taken
    exact accounted.bottomWithin here _ rfl rfl rfl rfl rfl rfl
  | release seq val =>
    cases taken
    constructor
    · simpa [Counters.finish_sections, moveBottom] using entered
    · simp only [Counters.finish_sections, moveBottom, reduceCtorEq, ↓reduceIte, owed, Option.elim,
        BottomPoint.unfinished] at queued ⊢
      omega
  | report seq val =>
    cases taken
    exact ⟨entered, queued⟩

theorem handlerStep_accounted (accounted : state.Accounted) {event : HandlerEvent Cpu}
    (taken : handlerStep width state event = some next) : next.Accounted := by
  cases event with
  | arrive cpu =>
    simp only [handlerStep] at taken
    split at taken
    · cases taken
    · rename_i idle
      obtain ⟨entered, queued⟩ := accounted
      have paid := tally_update (owed TopPoint.unfinished) state.topHalf cpu (some .acquire)
      have opened := tally_update (owed TopPoint.unscheduled) state.topHalf cpu (some .acquire)
      simp only [idle, owed, Option.elim, TopPoint.unfinished, TopPoint.unscheduled] at paid opened
      cases taken
      constructor
      · simp only [moveTop] at entered ⊢
        omega
      · simp only [moveTop, owed] at queued ⊢
        omega
  | topHalf cpu =>
    obtain ⟨point, here, stepped⟩ := Option.bind_eq_some_iff.mp taken
    exact interruptCompetitionTopHalf_accounted accounted here stepped
  | softirq =>
    simp only [handlerStep] at taken
    split at taken
    · rename_i scheduled idle
      obtain ⟨entered, queued⟩ := accounted
      cases taken
      refine ⟨entered, ?_⟩
      simp only [moveBottom, scheduled, idle, owed, Option.elim, BottomPoint.unfinished,
        Bool.toNat_true, Bool.toNat_false] at queued ⊢
      omega
    · cases taken
  | bottomHalf =>
    obtain ⟨point, here, stepped⟩ := Option.bind_eq_some_iff.mp taken
    exact interruptCompetitionBottomHalf_accounted accounted here stepped

theorem reachable_accounted (reached : (handlerMachine Cpu width).Reachable state) :
    state.Accounted :=
  reached.invariant Accounted handlersInitial_accounted
    fun accounted taken => handlerStep_accounted accounted taken

end KernelSamples.Competition

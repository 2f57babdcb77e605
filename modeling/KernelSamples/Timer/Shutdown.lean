import KernelSamples.Timer.Ticks

/-! The unload of `timer_softirq.c` against a bottom half that re-arms its own timer, and
the tick that goes on until then. -/

namespace KernelSamples.Timer

open Lib

variable {width : Nat}

/-- The lines of init that say the module is loaded. -/
def Phase.announced : Phase width → Nat
  | .setup | .readJiffies | .modTimer _ | .loadedLine => 0
  | .loaded | .shutdown | .unloadedLine | .returned => 1

/-- The timer is set up and not shut down. -/
def Phase.Armed : Phase width → Prop
  | .readJiffies | .modTimer _ | .loadedLine | .loaded => True
  | _ => False

/-- The timer has been armed and not shut down. -/
def Phase.Beats : Phase width → Prop
  | .loadedLine | .loaded => True
  | _ => False

/-- Statements of init and exit still to come, with the call of exit. -/
def Phase.rank : Phase width → Nat
  | .setup => 7
  | .readJiffies => 6
  | .modTimer _ => 5
  | .loadedLine => 4
  | .loaded => 3
  | .shutdown => 2
  | .unloadedLine => 1
  | .returned => 0

/-- The bottom half has not armed the timer again yet. -/
def BottomPoint.Rearms : BottomPoint width → Prop
  | .ret => False
  | _ => True

namespace Ticking

variable {hz started : Nat} {state next : Ticking width} {point : BottomPoint width}
  {event : Event}

/-- The last line, once exit has returned. -/
def report (state : Ticking width) : List (Line width) :=
  if state.phase = .returned then [.unloaded state.gsTickCount] else []

/-- The log is what init and the ticks wrote, then the line of exit. -/
def Logged (state : Ticking width) : Prop :=
  ∃ body, state.log = body ++ state.report ∧ (∀ count, .unloaded count ∉ body) ∧
    body.count .loaded = state.phase.announced

theorem Logged.keep (logged : state.Logged) (log : next.log = state.log)
    (report : next.report = state.report)
    (announced : next.phase.announced = state.phase.announced) : next.Logged := by
  obtain ⟨body, shape, clean, loaded⟩ := logged
  exact ⟨body, by rw [log, report, shape], clean, by rw [announced, loaded]⟩

theorem report_of_going (going : ¬ state.phase.Over) : state.report = [] := by
  refine if_neg fun returned => going ?_
  rw [returned]
  trivial

theorem Logged.thread (logged : state.Logged) (taken : state.thread hz = some next) :
    next.Logged := by
  obtain ⟨body, shape, clean, loaded⟩ := logged
  unfold Ticking.thread at taken
  cases phase : state.phase with
  | setup | readJiffies | modTimer expires =>
    simp only [phase, Option.some.injEq] at taken
    subst taken
    simp only [phase, report, reduceCtorEq, if_false] at shape
    exact ⟨body, by simpa [report] using shape, clean, by rw [loaded, phase]; rfl⟩
  | loadedLine =>
    simp only [phase, Option.some.injEq] at taken
    subst taken
    simp only [phase, report, reduceCtorEq, if_false, List.append_nil] at shape
    refine ⟨body ++ [.loaded], by simp [report, shape], by simpa using clean, ?_⟩
    rw [List.count_append, loaded, phase]
    rfl
  | loaded => simp [phase] at taken
  | shutdown =>
    simp only [phase, Option.ite_none_right_eq_some, Option.some.injEq] at taken
    obtain ⟨-, rfl⟩ := taken
    simp only [phase, report, reduceCtorEq, if_false] at shape
    exact ⟨body, by simpa [report] using shape, clean, by rw [loaded, phase]; rfl⟩
  | unloadedLine =>
    simp only [phase, Option.some.injEq] at taken
    subst taken
    simp only [phase, report, reduceCtorEq, if_false, List.append_nil] at shape
    exact ⟨body, by simp [report, shape], clean, by rw [loaded, phase]; rfl⟩
  | returned => simp [phase] at taken

theorem Logged.bottomHalf (logged : state.Logged) (going : ¬ state.phase.Over) :
    (state.timerSoftirqBottomHalf hz point).Logged := by
  have quiet : (state.timerSoftirqBottomHalf hz point).report = [] :=
    report_of_going (by rwa [timerSoftirqBottomHalf_phase])
  obtain ⟨body, shape, clean, loaded⟩ := logged
  rw [report_of_going going, List.append_nil] at shape
  cases point with
  | line =>
    refine ⟨body ++ [.tick state.gsTickCount], ?_, by simpa using clean, ?_⟩
    · rw [quiet, List.append_nil, ← shape]
      rfl
    · rw [List.count_append, loaded]
      rfl
  | load | store | readJiffies | modTimer | ret =>
    exact ⟨body, by rw [quiet, List.append_nil, ← shape]; rfl, clean, loaded⟩

theorem Logged.step (logged : state.Logged) (placed : state.Placed)
    (taken : state.step hz event = some next) : next.Logged := by
  cases event with
  | jiffy =>
    obtain rfl := Option.some.inj taken
    exact logged.keep rfl rfl rfl
  | thread => exact logged.thread taken
  | exit =>
    simp only [Ticking.step] at taken
    split at taken <;> cases taken
    rename_i phase
    exact logged.keep rfl (by simp [report, phase]) (by simp [Phase.announced, phase])
  | expire =>
    obtain ⟨-, expires, -, -, ⟨-, rfl⟩ | ⟨-, rfl⟩⟩ := expire_cases taken
    all_goals exact logged.keep rfl rfl rfl
  | bottomHalf =>
    obtain ⟨point, running, rfl⟩ := Option.map_eq_some_iff.mp taken
    exact logged.bottomHalf (placed.live (.inr (by simp [running]))).2
  | forbid | dequeue =>
    simp only [Ticking.step] at taken
    split at taken <;> cases taken
    exact logged.keep rfl rfl rfl

/-- From its setup to its shutdown the timer has its function, and once armed it is queued or
a running bottom half is about to queue it. -/
structure Beating (state : Ticking width) : Prop where
  function : state.phase.Armed → state.gsTickTimer.function = true
  queued : state.phase.Beats → state.gsTickTimer.expires ≠ none ∨
    ∃ point, state.bottomHalf = some point ∧ point.Rearms

theorem Beating.elsewhere (unarmed : ¬ state.phase.Armed) : state.Beating := by
  refine ⟨fun armed => absurd armed unarmed, fun beats => absurd beats ?_⟩
  intro beats
  cases phase : state.phase with
  | loadedLine | loaded => exact unarmed (by rw [phase]; trivial)
  | setup | readJiffies | modTimer | shutdown | unloadedLine | returned =>
    rw [phase] at beats
    exact beats

theorem modTimer_armed {timer : TimerList width} (function : timer.function = true)
    (expires : BitVec width) : timer.modTimer expires = ⟨true, some expires⟩ := by
  simp [TimerList.modTimer, function]

theorem Beating.thread (beating : state.Beating) (taken : state.thread hz = some next) :
    next.Beating := by
  unfold Ticking.thread at taken
  cases phase : state.phase with
  | setup =>
    simp only [phase, Option.some.injEq] at taken
    subst taken
    exact ⟨fun _ => rfl, False.elim⟩
  | readJiffies =>
    have function := beating.function (by rw [phase]; trivial)
    simp only [phase, Option.some.injEq] at taken
    subst taken
    exact ⟨fun _ => function, False.elim⟩
  | modTimer expires =>
    have function := beating.function (by rw [phase]; trivial)
    simp only [phase, Option.some.injEq, modTimer_armed function] at taken
    subst taken
    exact ⟨fun _ => rfl, fun _ => .inl nofun⟩
  | loadedLine =>
    have function := beating.function (by rw [phase]; trivial)
    have queued := beating.queued (by rw [phase]; trivial)
    simp only [phase, Option.some.injEq] at taken
    subst taken
    exact ⟨fun _ => function, fun _ => queued⟩
  | loaded => simp [phase] at taken
  | shutdown =>
    simp only [phase, Option.ite_none_right_eq_some, Option.some.injEq] at taken
    obtain ⟨-, rfl⟩ := taken
    exact .elsewhere id
  | unloadedLine =>
    simp only [phase, Option.some.injEq] at taken
    subst taken
    exact .elsewhere id
  | returned => simp [phase] at taken

/-- Each step of the bottom half either leaves the arming ahead of it, or arms, or finds the
timer armed already. -/
theorem Beating.bottomHalf (beating : state.Beating)
    (running : state.bottomHalf = some point) :
    (state.timerSoftirqBottomHalf hz point).Beating := by
  cases point with
  | load | store | line | readJiffies =>
    exact ⟨beating.function, fun _ => .inr ⟨_, rfl, trivial⟩⟩
  | modTimer expires =>
    by_cases armed : state.phase.Armed
    · have timer := modTimer_armed (beating.function armed) expires
      exact ⟨fun _ => congrArg TimerList.function timer,
        fun _ => .inl (by simp [timerSoftirqBottomHalf, timer])⟩
    · exact .elsewhere (by rwa [timerSoftirqBottomHalf_phase])
  | ret =>
    refine ⟨beating.function, fun beats => .inl ?_⟩
    rcases beating.queued beats with queued | ⟨point, here, rearms⟩
    · exact queued
    · rw [running] at here
      obtain rfl := Option.some.inj here
      exact rearms.elim

theorem Beating.step (beating : state.Beating) (taken : state.step hz event = some next) :
    next.Beating := by
  cases event with
  | jiffy =>
    obtain rfl := Option.some.inj taken
    exact ⟨beating.function, beating.queued⟩
  | thread => exact beating.thread taken
  | exit =>
    simp only [Ticking.step] at taken
    split at taken <;> cases taken
    exact .elsewhere id
  | expire =>
    obtain ⟨-, expires, -, -, ⟨-, rfl⟩ | ⟨lost, rfl⟩⟩ := expire_cases taken
    · exact ⟨fun _ => rfl, fun _ => .inr ⟨.load, rfl, trivial⟩⟩
    · refine .elsewhere fun armed => ?_
      rw [beating.function armed] at lost
      cases lost
  | bottomHalf =>
    obtain ⟨point, running, rfl⟩ := Option.map_eq_some_iff.mp taken
    exact beating.bottomHalf running
  | forbid | dequeue =>
    simp only [Ticking.step] at taken
    split at taken <;> cases taken
    rename_i phase
    exact .elsewhere (by rw [phase]; exact id)

theorem expire_due {expires : BitVec width} (idle : state.bottomHalf = none)
    (function : state.gsTickTimer.function = true)
    (queued : state.gsTickTimer.expires = some expires)
    (due : timeAfterEq state.now expires = true) :
    state.expire = some { state with
      gsTickTimer := ⟨true, none⟩
      bottomHalf := some .load
      starts := state.starts ++ [state.jiffies] } := by
  simp only [expire, queued, idle, due, function, if_true]

/-- The timer cannot start the bottom half any more. -/
def Forbidden (state : Ticking width) : Prop :=
  state.phase ≠ .setup ∧ state.gsTickTimer.function = false

theorem modTimer_forbidden {timer : TimerList width} (forbidden : timer.function = false)
    (expires : BitVec width) : timer.modTimer expires = timer := by
  simp [TimerList.modTimer, forbidden]

theorem Forbidden.thread (forbidden : state.Forbidden) (taken : state.thread hz = some next) :
    next.Forbidden := by
  obtain ⟨begun, lost⟩ := forbidden
  unfold Ticking.thread at taken
  cases phase : state.phase with
  | setup => exact absurd phase begun
  | modTimer expires =>
    simp only [phase, Option.some.injEq, modTimer_forbidden lost] at taken
    subst taken
    exact ⟨nofun, lost⟩
  | readJiffies | loadedLine | unloadedLine =>
    simp only [phase, Option.some.injEq] at taken
    subst taken
    exact ⟨nofun, lost⟩
  | shutdown =>
    simp only [phase, Option.ite_none_right_eq_some, Option.some.injEq] at taken
    obtain ⟨-, rfl⟩ := taken
    exact ⟨nofun, lost⟩
  | loaded | returned => simp [phase] at taken

theorem Forbidden.bottomHalf (forbidden : state.Forbidden) (point : BottomPoint width) :
    (state.timerSoftirqBottomHalf hz point).Forbidden ∧
      (state.timerSoftirqBottomHalf hz point).gsTickTimer = state.gsTickTimer ∧
      (state.timerSoftirqBottomHalf hz point).starts = state.starts := by
  cases point with
  | modTimer expires =>
    have same := modTimer_forbidden forbidden.2 expires
    exact ⟨⟨forbidden.1, (congrArg TimerList.function same).trans forbidden.2⟩, same, rfl⟩
  | load | store | line | readJiffies | ret => exact ⟨forbidden, rfl, rfl⟩

/-- Without its function the timer starts nothing, whatever a bottom half in flight asks. -/
theorem Forbidden.step (forbidden : state.Forbidden) (taken : state.step hz event = some next) :
    next.Forbidden ∧ next.starts = state.starts := by
  cases event with
  | jiffy =>
    obtain rfl := Option.some.inj taken
    exact ⟨forbidden, rfl⟩
  | thread => exact ⟨forbidden.thread taken, (thread_frame taken).1.1⟩
  | exit =>
    simp only [Ticking.step] at taken
    split at taken <;> cases taken
    exact ⟨⟨by simp, forbidden.2⟩, rfl⟩
  | expire =>
    obtain ⟨-, expires, -, -, ⟨function, rfl⟩ | ⟨lost, rfl⟩⟩ := expire_cases taken
    · rw [forbidden.2] at function
      cases function
    · exact ⟨⟨forbidden.1, rfl⟩, rfl⟩
  | bottomHalf =>
    obtain ⟨point, -, rfl⟩ := Option.map_eq_some_iff.mp taken
    obtain ⟨kept, -, starts⟩ := forbidden.bottomHalf point
    exact ⟨kept, starts⟩
  | forbid =>
    simp only [Ticking.step] at taken
    split at taken <;> cases taken
    exact ⟨⟨forbidden.1, rfl⟩, rfl⟩
  | dequeue =>
    simp only [Ticking.step] at taken
    split at taken <;> cases taken
    exact ⟨⟨forbidden.1, forbidden.2⟩, rfl⟩

/-- Steps the bottom half has still to make. -/
def remaining : Option (BottomPoint width) → Nat
  | none => 0
  | some .ret => 1
  | some (.modTimer _) => 2
  | some .readJiffies => 3
  | some .line => 4
  | some (.store _) => 5
  | some .load => 6

theorem timerSoftirqBottomHalf_nearer (state : Ticking width) (point : BottomPoint width) :
    remaining (state.timerSoftirqBottomHalf hz point).bottomHalf < remaining (some point) := by
  cases point <;> exact Nat.lt_succ_self _

/-- The work left to `timer_shutdown_sync` and to a bottom half in flight. -/
def unfinished (state : Ticking width) : Nat :=
  8 * state.gsTickTimer.function.toNat + remaining state.bottomHalf +
    state.gsTickTimer.expires.isSome.toNat

/-- What is left to do until exit has returned. -/
def unloadRank (state : Ticking width) : Nat × Nat := (state.phase.rank, state.unfinished)

theorem unloadRank_of_unfinished (same : next.phase = state.phase)
    (nearer : next.unfinished < state.unfinished) :
    Machine.Stages next.unloadRank state.unloadRank := by
  rw [unloadRank, unloadRank, same]
  exact .right _ nearer

/-- Inside `timer_shutdown_sync` something can always be done: clear the function, let the
bottom half finish, take the timer off its queue, return. -/
theorem shutdown_advances (phase : state.phase = .shutdown) : ∃ event next,
    state.step hz event = some next ∧ Machine.Stages next.unloadRank state.unloadRank := by
  cases function : state.gsTickTimer.function with
  | true =>
    have taken : state.step hz .forbid =
        some { state with gsTickTimer := { state.gsTickTimer with function := false } } := by
      simp only [Ticking.step, phase]
    refine ⟨.forbid, _, taken, unloadRank_of_unfinished rfl ?_⟩
    simp only [unfinished, function, Bool.toNat_true, Bool.toNat_false]
    omega
  | false =>
    cases running : state.bottomHalf with
    | some point =>
      have taken : state.step hz .bottomHalf = some (state.timerSoftirqBottomHalf hz point) := by
        simp only [Ticking.step, running, Option.map_some]
      refine ⟨.bottomHalf, _, taken,
        unloadRank_of_unfinished (timerSoftirqBottomHalf_phase state point) ?_⟩
      have forbidden : state.Forbidden := ⟨by simp [phase], function⟩
      have timer : (state.timerSoftirqBottomHalf hz point).gsTickTimer = state.gsTickTimer :=
        (forbidden.bottomHalf point).2.1
      have nearer := @timerSoftirqBottomHalf_nearer _ hz state point
      rw [← running] at nearer
      simp only [unfinished, timer]
      omega
    | none =>
      cases queued : state.gsTickTimer.expires with
      | some expires =>
        have taken : state.step hz .dequeue =
            some { state with gsTickTimer := { state.gsTickTimer with expires := none } } := by
          simp only [Ticking.step, phase]
        refine ⟨.dequeue, _, taken, unloadRank_of_unfinished rfl ?_⟩
        simp [unfinished, queued]
      | none =>
        have timer : state.gsTickTimer = ⟨false, none⟩ := by
          rw [← function, ← queued]
        have shut : state.ShutDown := ⟨timer, running⟩
        have taken : state.step hz .thread = some { state with phase := .unloadedLine } := by
          simp only [Ticking.step, thread, phase, shut, if_true]
        refine ⟨.thread, _, taken, Prod.Lex.left _ _ ?_⟩
        simp [phase, Phase.rank]

theorem unload_advances (going : state.phase ≠ .returned) : ∃ event next,
    state.step hz event = some next ∧ Machine.Stages next.unloadRank state.unloadRank := by
  cases phase : state.phase with
  | setup | readJiffies | modTimer expires | loadedLine | unloadedLine =>
    refine ⟨.thread, _, by simp only [Ticking.step, thread, phase]; rfl, Prod.Lex.left _ _ ?_⟩
    simp [phase, Phase.rank]
  | loaded =>
    refine ⟨.exit, _, by simp only [Ticking.step, phase]; rfl, Prod.Lex.left _ _ ?_⟩
    simp [phase, Phase.rank]
  | shutdown => exact shutdown_advances phase
  | returned => exact absurd phase going

end Ticking

section Runs

variable {hz started : Nat} {state last : Ticking width} {events : List Event}

theorem reachable_logged (reached : (timerMachine width hz started).Reachable state) :
    state.Logged := by
  refine Machine.Reachable.induction Ticking.Logged ?_ ?_ reached
  · exact ⟨[], rfl, nofun, rfl⟩
  · intro state event next before logged taken
    exact logged.step (reachable_placed before) taken

theorem reachable_beating (reached : (timerMachine width hz started).Reachable state) :
    state.Beating :=
  Machine.Reachable.invariant Ticking.Beating ⟨False.elim, False.elim⟩
    (fun beating taken => beating.step taken) reached

/-- After exit only the clock goes on. -/
theorem returned_stuck (placed : state.Placed) (returned : state.phase = .returned)
    {event : Event} (other : event ≠ .jiffy) :
    (timerMachine width hz started).step state event = none := by
  obtain ⟨timer, idle⟩ := placed.ended (by rw [returned]; trivial)
  cases event with
  | jiffy => exact absurd rfl other
  | thread => simp only [timerMachine, Ticking.step, Ticking.thread, returned]
  | exit | forbid | dequeue => simp only [timerMachine, Ticking.step, returned]
  | expire => simp only [timerMachine, Ticking.step, Ticking.expire, timer]
  | bottomHalf => simp only [timerMachine, Ticking.step, idle, Option.map_none]

theorem forbidden_starts (forbidden : state.Forbidden)
    (onward : (timerMachine width hz started).run state events = some last) :
    last.starts = state.starts := by
  refine (Machine.run_invariant
    (fun later : Ticking width => later.Forbidden ∧ later.starts = state.starts) ?_
    ⟨forbidden, rfl⟩ onward).2
  intro middle event next known taken
  obtain ⟨kept, starts⟩ := known.1.step taken
  exact ⟨kept, starts.trans known.2⟩

theorem unload_completes (state : Ticking width) :
    ∃ events last, (timerMachine width hz started).run state events = some last ∧
      last.phase = .returned := by
  obtain ⟨events, last, onward, -, returned⟩ :=
    @Machine.reaches_of_rank _ _ (timerMachine width hz started) _ _ Machine.stages_founded
      Ticking.unloadRank (fun _ => True) (fun state => state.phase = .returned)
      (fun _ going => by
        obtain ⟨event, next, taken, nearer⟩ := Ticking.unload_advances going
        exact ⟨event, next, taken, trivial, nearer⟩) state trivial
  exact ⟨events, last, onward, returned⟩

/-- Unloading is possible from every state, and when exit returns its line is the last one,
shows how often the bottom half ran, all of whose counts are printed, and nothing but the
clock can take a step. Once the timer has lost its function no bottom half starts. -/
theorem unload_reports_every_tick (reached : (timerMachine width hz started).Reachable state) :
    (state.phase = .returned →
      (∃ body, state.log = body ++ [.unloaded (BitVec.ofNat width state.starts.length)] ∧
        body.filterMap Line.tickCount = Ticking.countsUpTo width state.starts.length ∧
        body.count .loaded = 1 ∧ ∀ count, .unloaded count ∉ body) ∧
      ∀ event ≠ Event.jiffy, (timerMachine width hz started).step state event = none) ∧
    (state.Forbidden → ∀ events last,
      (timerMachine width hz started).run state events = some last →
        last.starts = state.starts) ∧
    ∃ events last, (timerMachine width hz started).run state events = some last ∧
      last.phase = .returned := by
  refine ⟨fun returned => ⟨?_, ?_⟩, ?_, ?_⟩
  · have idle := ((reachable_placed reached).ended (by rw [returned]; trivial)).2
    obtain ⟨⟨count, word, balance⟩, -, printed, lines, settled⟩ := reachable_counted reached
    rw [idle] at balance settled
    obtain ⟨body, shape, clean, loaded⟩ := reachable_logged reached
    rw [Ticking.report, if_pos returned, word] at shape
    rw [returned] at loaded
    refine ⟨body, ?_, ?_, loaded, clean⟩
    · rw [shape, ← balance]
      rfl
    · rw [← settled]
      simp only [Ticking.unprinted, Nat.add_zero]
      rw [← lines, Ticking.ticks, shape]
      simp [Line.tickCount]
  · intro event other
    exact returned_stuck (reachable_placed reached) returned other
  · intro forbidden events last onward
    exact forbidden_starts forbidden onward
  · exact unload_completes state

/-- Exit comes while a bottom half is about to arm the timer again. -/
def unloadWhileTicking : List Event :=
  List.replicate 4 .thread ++ List.replicate 3 .jiffy ++
    .expire :: List.replicate 4 .bottomHalf ++ .exit :: .forbid ::
    List.replicate 2 .bottomHalf ++ List.replicate 2 .thread

theorem unload_reports_every_tick_while_ticking :
    ∃ state, (timerMachine 3 3 6).Reachable state ∧ state.phase = .returned ∧
      state.starts = [9] ∧
      ∃ body, state.log = body ++ [.unloaded 1] ∧ body.filterMap Line.tickCount = [1] := by
  obtain ⟨state, reached, checked⟩ :=
    (timerMachine 3 3 6).reachable_of_run unloadWhileTicking
      (fun state => state.phase = .returned ∧ state.starts = [9]) (by decide +kernel)
  obtain ⟨returned, starts⟩ := of_decide_eq_true checked
  obtain ⟨⟨body, log, ticks, -⟩, -⟩ := (unload_reports_every_tick reached).1 returned
  rw [starts] at log ticks
  exact ⟨state, reached, returned, starts, body, log, ticks⟩

/-- The clock can run on at any time. -/
theorem run_jiffies (state : Ticking width) (count : Nat) :
    (timerMachine width hz started).run state (List.replicate count .jiffy) =
      some { state with jiffies := state.jiffies + count } := by
  induction count generalizing state with
  | zero => rfl
  | succ count ih =>
    refine Machine.run_cons_iff.mpr ⟨{ state with jiffies := state.jiffies + 1 }, rfl, ?_⟩
    rw [ih]
    simp only [Nat.add_assoc, Nat.add_comm 1 count]

/-- A bottom half in flight can finish. -/
theorem bottomHalf_finishes (beating : state.Beating) :
    ∃ events last, (timerMachine width hz started).run state events = some last ∧
      (last.Beating ∧ last.phase = state.phase ∧ last.starts = state.starts) ∧
      last.bottomHalf = none := by
  refine @Machine.reaches_of_rank _ _ (timerMachine width hz started) _ _ Nat.lt_wfRel.wf
    (fun later => Ticking.remaining later.bottomHalf)
    (fun later => later.Beating ∧ later.phase = state.phase ∧ later.starts = state.starts)
    (fun later => later.bottomHalf = none) ?_ state ⟨beating, rfl, rfl⟩
  intro later known busy
  obtain ⟨point, running⟩ := Option.ne_none_iff_exists'.mp busy
  obtain ⟨beats, phase, starts⟩ := known
  refine ⟨.bottomHalf, later.timerSoftirqBottomHalf hz point, ?_, ⟨?_, ?_, ?_⟩, ?_⟩
  · simp only [timerMachine, Ticking.step, running, Option.map_some]
  · exact beats.bottomHalf running
  · rw [Ticking.timerSoftirqBottomHalf_phase, phase]
  · rw [← starts]
    cases point <;> rfl
  · rw [running]
    exact Ticking.timerSoftirqBottomHalf_nearer later point

/-- A queued timer with its function starts the bottom half when its jiffy comes. -/
theorem queued_starts {expires : BitVec width} (idle : state.bottomHalf = none)
    (function : state.gsTickTimer.function = true)
    (queued : state.gsTickTimer.expires = some expires) :
    ∃ events last, (timerMachine width hz started).run state events = some last ∧
      last.phase = state.phase ∧ last.starts.length = state.starts.length + 1 := by
  let wait := (expires - state.now).toNat
  let due : Ticking width := { state with jiffies := state.jiffies + wait }
  have now : due.now = expires := by
    change BitVec.ofNat width (state.jiffies + wait) = expires
    rw [BitVec.ofNat_add, BitVec.ofNat_toNat, BitVec.setWidth_eq, BitVec.add_comm]
    exact BitVec.sub_add_cancel _ _
  have reached : timeAfterEq due.now expires = true := by
    rw [now, timeAfterEq, BitVec.sub_self]
    simp
  have taken : (timerMachine width hz started).step due .expire =
      some { due with
        gsTickTimer := ⟨true, none⟩
        bottomHalf := some .load
        starts := due.starts ++ [due.jiffies] } :=
    Ticking.expire_due idle function queued reached
  refine ⟨_, _, Machine.run_trans (run_jiffies state wait) (Machine.run_single.mpr taken), rfl, ?_⟩
  simp [due]

theorem loaded_ticks (beating : state.Beating) (loaded : state.phase = .loaded) :
    ∃ events last, (timerMachine width hz started).run state events = some last ∧
      last.phase = .loaded ∧ last.starts.length = state.starts.length + 1 := by
  obtain ⟨finishing, middle, onward, ⟨beats, phase, starts⟩, idle⟩ :=
    @bottomHalf_finishes _ hz started state beating
  rw [loaded] at phase
  have function := beats.function (by rw [phase]; trivial)
  have queued : middle.gsTickTimer.expires ≠ none := by
    rcases beats.queued (by rw [phase]; trivial) with queued | ⟨point, running, -⟩
    · exact queued
    · rw [idle] at running
      cases running
  obtain ⟨expires, given⟩ := Option.ne_none_iff_exists'.mp queued
  obtain ⟨waiting, last, later, kept, counted⟩ := queued_starts idle function given
  exact ⟨finishing ++ waiting, last, Machine.run_trans onward later, kept.trans phase,
    by rw [counted, starts]⟩

/-- A loaded module is never left without its next tick: the timer has its function and is
queued or about to be queued by the bottom half, and any number of further ticks can come. -/
theorem ticks_never_stop (reached : (timerMachine width hz started).Reachable state)
    (loaded : state.phase = .loaded) :
    state.gsTickTimer.function = true ∧
    (state.gsTickTimer.expires ≠ none ∨
      ∃ point, state.bottomHalf = some point ∧ point.Rearms) ∧
    ∀ more, ∃ events last, (timerMachine width hz started).run state events = some last ∧
      last.phase = .loaded ∧ last.starts.length = state.starts.length + more := by
  have beating := reachable_beating reached
  refine ⟨beating.function (by rw [loaded]; trivial), beating.queued (by rw [loaded]; trivial), ?_⟩
  intro more
  induction more with
  | zero => exact ⟨[], state, rfl, loaded, rfl⟩
  | succ more ih =>
    obtain ⟨earlier, middle, onward, phase, counted⟩ := ih
    obtain ⟨tick, last, later, kept, added⟩ :=
      loaded_ticks (reachable_beating (reached.after onward)) phase
    refine ⟨earlier ++ tick, last, Machine.run_trans onward later, kept, ?_⟩
    rw [added, counted, Nat.add_assoc]

/-- In a word of 3 bits, with the first bottom half between its line and its arming. -/
theorem ticks_never_stop_past_wrap :
    ∃ state, (timerMachine 3 3 6).Reachable state ∧
      ∃ events last, (timerMachine 3 3 6).run state events = some last ∧
        last.starts.length = state.starts.length + 20 := by
  obtain ⟨state, reached, checked⟩ :=
    (timerMachine 3 3 6).reachable_of_run
      (List.replicate 4 .thread ++ List.replicate 3 .jiffy ++
        .expire :: List.replicate 3 .bottomHalf)
      (fun state => state.phase = .loaded) (by decide +kernel)
  obtain ⟨events, last, onward, -, more⟩ :=
    (ticks_never_stop reached (of_decide_eq_true checked)).2.2 20
  exact ⟨state, reached, events, last, onward, more⟩

end Runs

end KernelSamples.Timer

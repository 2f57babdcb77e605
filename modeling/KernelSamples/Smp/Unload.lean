import KernelSamples.Smp.Counting

/-! How init and exit end: the threads that are left, what init and exit say, and that the end is
reached, through CPU hotplug. -/

namespace KernelSamples.Smp

open Lib

/-- Init has failed, or exit is through. -/
def Phase.Over : Phase → Prop
  | .failed _ | .unloaded => True
  | _ => False

/-- Init or exit takes the threads down or is through with it. `ret` is the error of init. -/
def Phase.Ending (ret : Option Int) : Phase → Prop
  | .loaded | .unregistered | .unloaded => ret = none
  | .destroying other _ => other = ret
  | .failed other => ret = some other
  | _ => False

/-- The lines of init and exit. -/
def Phase.report (width : Nat) : Phase → List (LogLine width)
  | .loaded | .destroying none _ | .unregistered => [.loaded intervalMs]
  | .unloaded => [.loaded intervalMs, .unloaded]
  | _ => []

namespace Parallel

variable {cpus : Cpus} {width : Nat} {state next : Parallel width} {cpu other : UInt32}
  {thread : Thread width} {event : ParallelEvent}

def has (state : Parallel width) (cpu : UInt32) : Bool := (state.gsThread cpu).isSome

theorem has_setThread (moved : Option (Thread width)) :
    (state.setThread other moved).has cpu =
      if cpu = other then moved.isSome else state.has cpu := by
  unfold has
  split
  · rename_i same
    rw [same, setThread_self]
  · rename_i different
    rw [setThread_of_ne different]

theorem has_bringUp :
    (state.bringUp other).has cpu = if cpu = other then true else state.has cpu := by
  unfold bringUp
  split
  · rw [has_setThread]
    rfl
  · rename_i thread here
    split
    · rw [has_setThread]
      rfl
    · split
      · rename_i same
        rw [same, has, here]
        rfl
      · rfl

theorem has_park : (state.park other).has cpu = state.has cpu := by
  unfold park
  split
  · rfl
  · rename_i thread here
    rw [has_setThread]
    split
    · rename_i same
      rw [same, has, here]
      rfl
    · rfl

theorem phase_park : (state.park other).phase = state.phase := by
  unfold park
  split <;> rfl

theorem log_bringUp : (state.bringUp other).log = state.log := by
  unfold bringUp
  split
  · rfl
  · split <;> rfl

theorem log_park : (state.park other).log = state.log := by
  unfold park
  split <;> rfl

theorem thread_frame (taken : state.smpbootThreadFn cpu thread = some next) :
    next.phase = state.phase := by
  unfold smpbootThreadFn at taken
  split at taken
  · cases taken
  · cases taken
    rfl
  · rename_i point _
    cases taken
    cases point with
    | count point => cases point <;> rfl
    | sleep => rfl

/-- A step of a thread does not end it, and touches no other thread. -/
theorem thread_keeps (here : state.gsThread other = some thread)
    (taken : state.smpbootThreadFn other thread = some next) (cpu : UInt32) :
    next.has cpu = state.has cpu := by
  have keeps : ∀ {middle : Parallel width} {point : ThreadPoint width},
      middle.gsThread = state.gsThread →
      (middle.setThread other (some { thread with point := point })).has cpu = state.has cpu := by
    intro middle point same
    rw [has_setThread]
    split
    · rename_i at_
      rw [at_, has, here]
      rfl
    · rw [has, same, has]
  unfold smpbootThreadFn at taken
  split at taken
  · cases taken
  · cases taken
    exact keeps rfl
  · rename_i point _
    cases taken
    exact keeps (runPercpuParallel_frame state other thread.cpu point).1

/-- Which CPUs have a thread, by the phase. The end goes through all possible ones. -/
def Roster (cpus : Cpus) (state : Parallel width) : Phase → Prop
  | .registering rest => rest ⊆ cpus.possible
  | .registered | .loaded => True
  | .destroying _ rest => ∀ cpu, state.has cpu = true → cpu ∈ rest
  | .assigning _ | .failed _ | .unregistered | .unloaded => ∀ cpu, state.has cpu = false

/-- Only possible CPUs have a thread. -/
structure Staffed (cpus : Cpus) (state : Parallel width) : Prop where
  possible : ∀ cpu, state.has cpu = true → cpu ∈ cpus.possible
  roster : state.Roster cpus state.phase

/-- Only threads and the phase matter. -/
theorem Roster.congr {phase : Phase} (roster : state.Roster cpus phase)
    (has : ∀ cpu, next.has cpu = state.has cpu) : next.Roster cpus phase := by
  cases phase with
  | registering rest => exact roster
  | registered | loaded => trivial
  | destroying ret rest => exact fun cpu present => roster cpu (by rwa [← has])
  | assigning rest | failed ret | unregistered | unloaded =>
    exact fun cpu => (has cpu).trans (roster cpu)

theorem Staffed.enter (staffed : state.Staffed cpus) {phase : Phase}
    (roster : state.Roster cpus phase) : (state.enter phase).Staffed cpus :=
  ⟨staffed.possible, roster.congr fun _ => rfl⟩

theorem Staffed.destroy (staffed : state.Staffed cpus) {ret : Option Int} {rest : List UInt32}
    (phase : state.phase = .destroying ret rest)
    (taken : state.smpbootDestroyThreads ret rest = some next) : next.Staffed cpus := by
  have listed : ∀ cpu, state.has cpu = true → cpu ∈ rest := by
    have roster := staffed.roster
    rwa [phase] at roster
  cases rest with
  | nil =>
    have none : ∀ cpu, state.has cpu = false := by
      intro cpu
      rw [← Bool.not_eq_true]
      exact fun present => absurd (listed cpu present) List.not_mem_nil
    cases taken
    apply staffed.enter
    cases ret <;> exact none
  | cons stopped rest =>
    obtain ⟨-, same⟩ := Option.ite_none_right_eq_some.mp taken
    cases same
    have kept : ∀ cpu, (state.setThread stopped none).has cpu = true →
        cpu ≠ stopped ∧ state.has cpu = true := by
      intro cpu present
      rw [has_setThread] at present
      split at present
      · cases present
      · rename_i different
        exact ⟨different, present⟩
    have fewer : (state.setThread stopped none).Staffed cpus := by
      refine ⟨fun cpu present => staffed.possible cpu (kept cpu present).2, ?_⟩
      change (state.setThread stopped none).Roster cpus state.phase
      rw [phase]
      intro cpu present
      exact listed cpu (kept cpu present).2
    apply fewer.enter
    intro cpu present
    obtain ⟨different, present⟩ := kept cpu present
    exact (List.mem_cons.mp (listed cpu present)).resolve_left different

theorem Staffed.init (staffed : state.Staffed cpus)
    (taken : state.percpuParallelModuleInit cpus = some next) : next.Staffed cpus := by
  have roster := staffed.roster
  unfold percpuParallelModuleInit at taken
  split at taken
  · rename_i cpu rest phase
    cases taken
    rw [phase] at roster
    have counted : (state.setCount cpu (initialCount width cpu)).Staffed cpus :=
      ⟨staffed.possible, staffed.roster.congr fun _ => rfl⟩
    exact counted.enter roster
  · rename_i phase
    cases taken
    exact staffed.enter (List.filter_subset_self _)
  · rename_i phase
    cases taken
    exact staffed.enter trivial
  · rename_i phase
    cases taken
    have said : (state.prInfo (.loaded intervalMs)).Staffed cpus :=
      ⟨staffed.possible, staffed.roster.congr fun _ => rfl⟩
    exact said.enter trivial
  · rename_i ret rest phase
    exact staffed.destroy phase taken
  · cases taken

theorem Staffed.create (staffed : state.Staffed cpus) {ret : Int}
    (taken : state.smpbootCreateThread cpus ret = some next) : next.Staffed cpus := by
  unfold smpbootCreateThread at taken
  split at taken
  · rename_i created rest phase
    have roster := staffed.roster
    rw [phase] at roster
    obtain ⟨possible, later⟩ := List.cons_subset.mp roster
    split at taken
    · cases taken
      refine ⟨?_, later⟩
      intro cpu present
      have present : (state.bringUp created).has cpu = true := present
      rw [has_bringUp] at present
      split at present
      · rename_i same
        rwa [same]
      · exact staffed.possible cpu present
    · cases taken
      exact staffed.enter fun cpu present => staffed.possible cpu present
  · cases taken

theorem Staffed.exit (staffed : state.Staffed cpus)
    (taken : state.percpuParallelModuleExit cpus = some next) : next.Staffed cpus := by
  unfold percpuParallelModuleExit at taken
  split at taken
  · cases taken
    exact staffed.enter staffed.possible
  · rename_i rest phase
    exact staffed.destroy phase taken
  · rename_i phase
    cases taken
    have roster := staffed.roster
    rw [phase] at roster
    have said : (state.prInfo .unloaded).Staffed cpus :=
      ⟨staffed.possible, staffed.roster.congr fun _ => rfl⟩
    exact said.enter roster
  · cases taken

/-- A CPU that goes offline has its thread parked, not ended. -/
theorem Staffed.offline (staffed : state.Staffed cpus) :
    ((state.park other).setOnline other false).Staffed cpus := by
  have has : ∀ cpu, ((state.park other).setOnline other false).has cpu = state.has cpu :=
    fun cpu => has_park
  refine ⟨fun cpu present => staffed.possible cpu (by rwa [← has]), ?_⟩
  change Roster cpus _ (state.park other).phase
  rw [phase_park]
  exact staffed.roster.congr has

/-- A CPU that comes online is given a thread only while the module is registered. -/
theorem Staffed.plug (staffed : state.Staffed cpus) (possible : other ∈ cpus.possible) :
    ((if state.phase.listed then state.bringUp other else state).setOnline other true).Staffed
      cpus := by
  split
  · rename_i listed
    refine ⟨?_, ?_⟩
    · intro cpu present
      have present : (state.bringUp other).has cpu = true := present
      rw [has_bringUp] at present
      split at present
      · rename_i same
        rwa [same]
      · exact staffed.possible cpu present
    · change Roster cpus _ (state.bringUp other).phase
      rw [bringUp_phase]
      cases phase : state.phase with
      | registered | loaded => trivial
      | _ =>
        rw [phase] at listed
        cases listed
  · exact ⟨staffed.possible, staffed.roster.congr fun _ => rfl⟩

theorem Staffed.step (staffed : state.Staffed cpus)
    (taken : (percpuParallel cpus width).step state event = some next) : next.Staffed cpus := by
  cases event with
  | init => exact staffed.init taken
  | create ret => exact staffed.create taken
  | exit => exact staffed.exit taken
  | offline cpu =>
    obtain ⟨-, same⟩ := Option.ite_none_right_eq_some.mp taken
    cases same
    exact staffed.offline
  | online cpu =>
    obtain ⟨⟨-, possible, -⟩, same⟩ := Option.ite_none_right_eq_some.mp taken
    cases same
    exact staffed.plug possible
  | thread cpu =>
    obtain ⟨thread, here, moved⟩ := Option.bind_eq_some_iff.mp taken
    have keeps := thread_keeps here moved
    refine ⟨fun cpu present => staffed.possible cpu (by rwa [← keeps cpu]), ?_⟩
    rw [thread_frame moved]
    exact staffed.roster.congr keeps

theorem reachable_staffed (reached : (percpuParallel cpus width).Reachable state) :
    state.Staffed cpus := by
  refine Machine.Reachable.invariant (Staffed cpus) ?_ Staffed.step reached
  exact ⟨fun cpu present => (by cases present), fun cpu => rfl⟩

/-- What init and exit have said; `unloaded` is the last line. -/
structure Told (state : Parallel width) : Prop where
  lines : state.log.filter (·.cpu = none) = state.phase.report width
  last : state.phase = .unloaded → state.log.getLast? = some .unloaded

/-- Steps on which init and exit say nothing. -/
theorem Told.keep (told : state.Told)
    (quiet : next.log.filter (·.cpu = none) = state.log.filter (·.cpu = none))
    (report : next.phase.report width = state.phase.report width)
    (still : next.phase ≠ .unloaded) : next.Told :=
  ⟨by rw [quiet, told.lines, report], fun ended => absurd ended still⟩

theorem Told.destroy (told : state.Told) {ret : Option Int} {rest : List UInt32}
    (phase : state.phase = .destroying ret rest)
    (taken : state.smpbootDestroyThreads ret rest = some next) : next.Told := by
  cases rest with
  | nil =>
    cases taken
    cases ret with
    | none => exact told.keep rfl (by rw [phase]; rfl) (by simp [enter])
    | some ret => exact told.keep rfl (by rw [phase]; rfl) (by simp [enter])
  | cons stopped rest =>
    obtain ⟨-, same⟩ := Option.ite_none_right_eq_some.mp taken
    cases same
    refine told.keep rfl ?_ (by simp [enter])
    rw [phase]
    cases ret <;> rfl

theorem Told.init (told : state.Told)
    (taken : state.percpuParallelModuleInit cpus = some next) : next.Told := by
  unfold percpuParallelModuleInit at taken
  split at taken
  · rename_i phase
    cases taken
    exact told.keep rfl (by rw [phase]; rfl) (by simp [enter])
  · rename_i phase
    cases taken
    exact told.keep rfl (by rw [phase]; rfl) (by simp [enter])
  · rename_i phase
    cases taken
    exact told.keep rfl (by rw [phase]; rfl) (by simp [enter])
  · rename_i phase
    cases taken
    refine ⟨?_, by simp [enter]⟩
    have before := told.lines
    rw [phase] at before
    simp only [enter, prInfo, List.filter_append, before]
    rfl
  · rename_i ret rest phase
    exact told.destroy phase taken
  · cases taken

theorem Told.create (told : state.Told) {ret : Int}
    (taken : state.smpbootCreateThread cpus ret = some next) : next.Told := by
  unfold smpbootCreateThread at taken
  split at taken
  · rename_i created rest phase
    split at taken
    · cases taken
      refine told.keep ?_ (by rw [phase]; rfl) (by simp [enter])
      change (state.bringUp created).log.filter _ = _
      rw [log_bringUp]
    · cases taken
      exact told.keep rfl (by rw [phase]; rfl) (by simp [enter])
  · cases taken

theorem Told.exit (told : state.Told)
    (taken : state.percpuParallelModuleExit cpus = some next) : next.Told := by
  unfold percpuParallelModuleExit at taken
  split at taken
  · rename_i phase
    cases taken
    exact told.keep rfl (by rw [phase]; rfl) (by simp [enter])
  · rename_i rest phase
    exact told.destroy phase taken
  · rename_i phase
    cases taken
    have before := told.lines
    rw [phase] at before
    constructor
    · simp only [enter, prInfo, List.filter_append, before]
      rfl
    · exact fun _ => List.getLast?_concat
  · cases taken

/-- What a thread says is about its CPU. -/
theorem thread_lines (taken : state.smpbootThreadFn cpu thread = some next) :
    next.log.filter (·.cpu = none) = state.log.filter (·.cpu = none) := by
  have about : ∀ line : LogLine width, line.cpu ≠ none →
      (state.log ++ [line]).filter (·.cpu = none) = state.log.filter (·.cpu = none) := by
    intro line own
    simp [List.filter_append, own]
  unfold smpbootThreadFn at taken
  split at taken
  · cases taken
  · cases taken
    exact about _ (by simp [LogLine.cpu])
  · rename_i point _
    cases taken
    cases point with
    | count point =>
      cases point with
      | report val => exact about _ (by simp [LogLine.cpu])
      | _ => rfl
    | sleep => rfl

theorem Told.step (told : state.Told) (staffed : state.Staffed cpus)
    (taken : (percpuParallel cpus width).step state event = some next) : next.Told := by
  have frame : next.log = state.log → next.phase = state.phase → next.Told := by
    intro log phase
    exact ⟨by rw [log, phase]; exact told.lines, by rw [log, phase]; exact told.last⟩
  cases event with
  | init => exact told.init taken
  | create ret => exact told.create taken
  | exit => exact told.exit taken
  | offline cpu =>
    obtain ⟨-, same⟩ := Option.ite_none_right_eq_some.mp taken
    cases same
    exact frame log_park phase_park
  | online cpu =>
    obtain ⟨-, same⟩ := Option.ite_none_right_eq_some.mp taken
    cases same
    apply frame
    · change (if state.phase.listed then state.bringUp cpu else state).log = _
      split
      · exact log_bringUp
      · rfl
    · change (if state.phase.listed then state.bringUp cpu else state).phase = _
      split
      · exact bringUp_phase state cpu
      · rfl
  | thread cpu =>
    obtain ⟨thread, here, moved⟩ := Option.bind_eq_some_iff.mp taken
    have phase := thread_frame moved
    refine told.keep (thread_lines moved) (by rw [phase]) ?_
    rw [phase]
    intro ended
    have roster := staffed.roster
    rw [ended] at roster
    have absent := roster cpu
    rw [has, here] at absent
    cases absent

theorem Roster.over {phase : Phase} (roster : state.Roster cpus phase) (ended : phase.Over)
    (cpu : UInt32) : state.gsThread cpu = none := by
  have absent : state.has cpu = false := by
    cases phase with
    | failed ret | unloaded => exact roster cpu
    | _ => exact ended.elim
  exact Option.not_isSome_iff_eq_none.mp (by rw [← has, absent]; decide)

/-- Once it is over, only CPUs go offline or come online. -/
theorem over_keeps (ended : state.phase.Over) (absent : ∀ cpu, state.gsThread cpu = none)
    (taken : (percpuParallel cpus width).step state event = some next) :
    next.phase = state.phase ∧ next.log = state.log ∧ next.gsCount = state.gsCount ∧
      ∀ cpu, next.gsThread cpu = none := by
  cases event with
  | init =>
    simp only [percpuParallel, percpuParallelModuleInit] at taken
    split at taken <;> rename_i phase
    all_goals first
      | (rw [phase] at ended; exact ended.elim)
      | cases taken
  | create ret =>
    simp only [percpuParallel, smpbootCreateThread] at taken
    split at taken
    · rename_i phase
      rw [phase] at ended
      exact ended.elim
    · cases taken
  | exit =>
    simp only [percpuParallel, percpuParallelModuleExit] at taken
    split at taken <;> rename_i phase
    all_goals first
      | (rw [phase] at ended; exact ended.elim)
      | cases taken
  | offline cpu =>
    obtain ⟨-, same⟩ := Option.ite_none_right_eq_some.mp taken
    cases same
    have parked : state.park cpu = state := by rw [park, absent cpu]
    rw [parked]
    exact ⟨rfl, rfl, rfl, absent⟩
  | online cpu =>
    obtain ⟨-, same⟩ := Option.ite_none_right_eq_some.mp taken
    cases same
    have unlisted : state.phase.listed = false := by
      cases phase : state.phase with
      | registered | loaded =>
        rw [phase] at ended
        exact ended.elim
      | _ => rfl
    rw [unlisted]
    exact ⟨rfl, rfl, rfl, absent⟩
  | thread cpu =>
    obtain ⟨thread, here, -⟩ := Option.bind_eq_some_iff.mp taken
    rw [absent cpu] at here
    cases here

theorem reachable_told (reached : (percpuParallel cpus width).Reachable state) : state.Told := by
  refine Machine.Reachable.induction Told ⟨rfl, fun ended => by cases ended⟩ ?_ reached
  intro state event next reached told taken
  exact told.step (reachable_staffed reached) taken

/-- When the module is out, or init has failed, no CPU has a thread, the log has the lines of
init and exit in their order, and nothing is counted or said any more, whatever CPUs come and
go. -/
theorem over_leaves_no_thread (reached : (percpuParallel cpus width).Reachable state)
    (ended : state.phase.Over) :
    (∀ cpu, state.gsThread cpu = none) ∧
    state.log.filter (·.cpu = none) = state.phase.report width ∧
    (state.phase = .unloaded → state.log.getLast? = some .unloaded) ∧
    ∀ events last, (percpuParallel cpus width).run state events = some last →
      last.log = state.log ∧ last.gsCount = state.gsCount ∧
        ∀ cpu, last.gsThread cpu = none := by
  have told := reachable_told reached
  have absent := (reachable_staffed reached).roster.over ended
  refine ⟨absent, told.lines, told.last, ?_⟩
  intro events last onward
  refine (Machine.run_invariant (fun later : Parallel width => later.phase = state.phase ∧
    later.log = state.log ∧ later.gsCount = state.gsCount ∧ ∀ cpu, later.gsThread cpu = none)
    ?_ ⟨rfl, rfl, rfl, absent⟩ onward).2
  intro later event next known taken
  obtain ⟨phase, log, count, absent⟩ := known
  obtain ⟨phase', log', count', absent'⟩ := over_keeps (by rw [phase]; exact ended) absent taken
  exact ⟨phase'.trans phase, log'.trans log, count'.trans count, absent'⟩

theorem over_leaves_no_thread_unloaded :
    ∃ state : Parallel 64, state.phase = .unloaded ∧ state.gsThread 1 = none ∧
      ∀ events last, (percpuParallel threeCpus 64).run state events = some last →
        last.log = state.log := by
  obtain ⟨state, reached, checked⟩ := Machine.reachable_of_run (percpuParallel threeCpus 64)
    (threeCpusLoad ++ [.thread 0] ++ List.replicate 4 (.thread 0) ++ List.replicate 6 .exit)
    (fun state => state.phase = .unloaded) (by decide +kernel)
  have phase : state.phase = .unloaded := of_decide_eq_true checked
  obtain ⟨absent, -, -, frozen⟩ := over_leaves_no_thread reached (by rw [phase]; trivial)
  exact ⟨state, phase, absent 1, fun events last onward => (frozen events last onward).1⟩

/-- Steps of its call that a thread has still to make. -/
def callLeft : ThreadPoint width → Nat
  | .parked | .loop => 0
  | .call .sleep => 1
  | .call (.count (.report _)) => 2
  | .call (.count (.inc _)) => 3
  | .call (.count .read) => 4

/-- The work left to the thread of a CPU before it can be stopped. -/
def busy (state : Parallel width) (cpu : UInt32) : Nat :=
  (state.gsThread cpu).elim 0 fun thread => callLeft thread.point

/-- How far it is to the end: the threads still to be stopped, and the work that the next of
them has to finish. -/
def endRank (cpus : Cpus) (state : Parallel width) : Nat × Nat :=
  match state.phase with
  | .loaded => (cpus.possible.length + 6, 0)
  | .destroying _ [] => (5, 0)
  | .destroying _ (cpu :: rest) => (rest.length + 6, state.busy cpu)
  | .unregistered => (1, 0)
  | _ => (0, 0)

theorem betweenCalls_of_idle (idle : state.busy cpu = 0) : state.betweenCalls cpu = true := by
  unfold busy at idle
  unfold betweenCalls
  cases here : state.gsThread cpu with
  | none => rfl
  | some thread =>
    rw [here] at idle
    cases point : thread.point with
    | parked | loop => simp [point]
    | call call =>
      rw [Option.elim_some, point] at idle
      cases call with
      | sleep => cases idle
      | count count => cases count <;> cases idle

/-- A busy thread has a step that leaves it less to do. -/
theorem busy_advances (working : state.busy cpu ≠ 0) :
    ∃ next, (percpuParallel cpus width).step state (.thread cpu) = some next ∧
      next.phase = state.phase ∧ next.busy cpu < state.busy cpu := by
  unfold busy at working
  cases here : state.gsThread cpu with
  | none =>
    rw [here] at working
    exact absurd rfl working
  | some thread =>
    rw [here] at working
    cases point : thread.point with
    | parked | loop =>
      rw [Option.elim_some, point] at working
      exact absurd rfl working
    | call call =>
      have moved : state.smpbootThreadFn cpu thread =
          some ((state.runPercpuParallel cpu thread.cpu call).1.setThread cpu
            (some { thread with
              point := (state.runPercpuParallel cpu thread.cpu call).2.elim .loop .call })) := by
        simp only [smpbootThreadFn, point]
      refine ⟨_, Option.bind_eq_some_iff.mpr ⟨thread, here, moved⟩, thread_frame moved, ?_⟩
      rw [busy, setThread_self, busy, here, Option.elim_some, Option.elim_some, point]
      cases call with
      | sleep => exact Nat.lt_succ_self _
      | count count => cases count <;> exact Nat.lt_succ_self _

theorem nearer_of_rest {ret : Option Int} {rest : List UInt32} {before : Nat × Nat}
    (fewer : rest.length + 5 < before.1) :
    Machine.Stages ((state.enter (.destroying ret rest)).endRank cpus) before := by
  cases rest with
  | nil => exact Prod.Lex.left _ _ (by simpa using fewer)
  | cons cpu rest =>
    rw [List.length_cons] at fewer
    exact Prod.Lex.left _ _ (by omega)

/-- Destroying goes on: the next thread is stopped, or goes on with its call. -/
theorem destroy_advances {ret : Option Int} {rest : List UInt32}
    (phase : state.phase = .destroying ret rest) : ∃ event next,
    (percpuParallel cpus width).step state event = some next ∧ next.phase.Ending ret ∧
      Machine.Stages (next.endRank cpus) (state.endRank cpus) := by
  have calls : ∀ {next : Parallel width}, state.smpbootDestroyThreads ret rest = some next →
      ∃ event, (percpuParallel cpus width).step state event = some next := by
    intro next taken
    cases ret with
    | none => exact ⟨.exit, by simpa only [percpuParallel, percpuParallelModuleExit, phase]⟩
    | some ret => exact ⟨.init, by simpa only [percpuParallel, percpuParallelModuleInit, phase]⟩
  cases rest with
  | nil =>
    obtain ⟨event, taken⟩ := @calls _ rfl
    refine ⟨event, _, taken, ?_, ?_⟩
    · cases ret <;> rfl
    · rw [endRank, endRank, phase]
      cases ret <;> exact Prod.Lex.left _ _ (by decide)
  | cons stopped rest =>
    by_cases idle : state.busy stopped = 0
    · have between := betweenCalls_of_idle idle
      obtain ⟨event, taken⟩ := @calls ((state.setThread stopped none).enter (.destroying ret rest))
        (by rw [smpbootDestroyThreads, if_pos between])
      refine ⟨event, _, taken, rfl, nearer_of_rest ?_⟩
      rw [endRank, phase]
      exact Nat.lt_succ_self _
    · obtain ⟨next, taken, same, less⟩ := busy_advances idle
      refine ⟨.thread stopped, next, taken, by rw [same, phase]; rfl, ?_⟩
      rw [endRank, endRank, same, phase]
      exact Prod.Lex.right _ less

theorem end_advances {ret : Option Int} (ending : state.phase.Ending ret)
    (going : ¬ state.phase.Over) : ∃ event next,
    (percpuParallel cpus width).step state event = some next ∧ next.phase.Ending ret ∧
      Machine.Stages (next.endRank cpus) (state.endRank cpus) := by
  cases phase : state.phase with
  | loaded =>
    rw [phase] at ending
    refine ⟨.exit, state.enter (.destroying none cpus.possible), by
      simp only [percpuParallel, percpuParallelModuleExit, phase], Eq.symm ending,
      nearer_of_rest ?_⟩
    rw [endRank, phase]
    exact Nat.lt_succ_self _
  | destroying other rest =>
    rw [phase] at ending
    obtain rfl : other = ret := ending
    exact destroy_advances phase
  | unregistered =>
    rw [phase] at ending
    refine ⟨.exit, (state.prInfo .unloaded).enter .unloaded, by
      simp only [percpuParallel, percpuParallelModuleExit, phase], ending, ?_⟩
    rw [endRank, endRank, phase]
    exact Prod.Lex.left _ _ Nat.one_pos
  | failed other | unloaded =>
    rw [phase] at going
    exact absurd trivial going
  | assigning rest | registering rest | registered =>
    rw [phase] at ending
    exact ending.elim

/-- rmmod, and the rollback of an init that fails, can always be completed, whatever calls the
threads are in: the module is out, or init has failed with the error of the thread that could not
be made, and no CPU has a thread. -/
theorem percpu_unload_completes (reached : (percpuParallel cpus width).Reachable state)
    {ret : Option Int} (ending : state.phase.Ending ret) :
    ∃ events last, (percpuParallel cpus width).run state events = some last ∧
      last.phase = ret.elim .unloaded .failed ∧ ∀ cpu, last.gsThread cpu = none := by
  obtain ⟨events, last, onward, kept, ended⟩ := @Machine.reaches_of_rank _ _
    (percpuParallel cpus width) _ _ Machine.stages_founded (endRank cpus)
    (fun later => later.phase.Ending ret) (fun later => later.phase.Over)
    (fun ending going => end_advances ending going) state ending
  have absent := (reachable_staffed (reached.after onward)).roster.over ended
  refine ⟨events, last, onward, ?_, absent⟩
  cases phase : last.phase with
  | failed other =>
    rw [phase] at kept
    rw [show ret = some other from kept]
    rfl
  | unloaded =>
    rw [phase] at kept
    rw [show ret = none from kept]
    rfl
  | _ =>
    rw [phase] at ended
    exact ended.elim

/-- The thread of CPU 1 cannot be made while that of CPU 0 is in a call. -/
theorem percpu_unload_completes_without_memory :
    ∃ (state last : Parallel 64) (events : List ParallelEvent),
      state.phase = .destroying (some (-12)) threeCpus.possible ∧ state.busy 0 = 4 ∧
      (percpuParallel threeCpus 64).run state events = some last ∧ last.phase = .failed (-12) := by
  obtain ⟨state, reached, checked⟩ := Machine.reachable_of_run (percpuParallel threeCpus 64)
    (List.replicate 4 .init ++ [.create 0, .thread 0, .create (-12)])
    (fun state => state.phase = .destroying (some (-12)) threeCpus.possible ∧ state.busy 0 = 4)
    (by decide +kernel)
  obtain ⟨phase, busy⟩ := of_decide_eq_true checked
  obtain ⟨events, last, onward, ends, -⟩ :=
    @percpu_unload_completes _ _ _ reached (some (-12)) (by rw [phase]; rfl)
  exact ⟨state, last, events, phase, busy, onward, ends⟩

end Parallel

end KernelSamples.Smp

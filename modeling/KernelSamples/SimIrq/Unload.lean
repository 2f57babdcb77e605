import KernelSamples.SimIrq.Teardown

/-! Unloading each of the ten samples: what a failed init and exit leave behind, and that
neither waits for ever. -/

namespace KernelSamples.SimIrq

open Lib

/-- Steps of the module's thread and of the contexts that raise the line. -/
def Event.Outside : Event → Prop
  | .deliver | .resend | .topHalf | .bottomStart | .bottomReturn => False
  | _ => True

/-- The halves stand where they stood. -/
structure State.SameHalves (state next : State) : Prop where
  topHalf : next.topHalf = state.topHalf
  queued : next.queued = state.queued
  misqueued : next.misqueued = state.misqueued
  running : next.running = state.running

namespace State

variable {sample : Sample} {state next : State} {resource target : Resource} {event : Event}

theorem giveUp_halves (state : State) (resource : Resource) :
    state.SameHalves (state.giveUp resource) := by
  unfold giveUp
  split <;> exact ⟨rfl, rfl, rfl, rfl⟩

theorem call_halves (taken : state.call = some next) : state.SameHalves next := by
  unfold call at taken
  split at taken <;> cases taken
  any_goals exact ⟨rfl, rfl, rfl, rfl⟩
  all_goals
    obtain ⟨topHalf, queued, misqueued, running⟩ := giveUp_halves state _
    exact ⟨topHalf, queued, misqueued, running⟩

theorem outside_halves (taken : state.step sample event = some next) (outside : event.Outside) :
    state.SameHalves next := by
  cases event with
  | call => exact call_halves taken
  | succeed =>
    simp only [State.step, succeed] at taken
    split at taken <;> cases taken <;> exact ⟨rfl, rfl, rfl, rfl⟩
  | fail =>
    simp only [State.step, fail] at taken
    split at taken
    · split at taken <;> cases taken
      exact ⟨rfl, rfl, rfl, rfl⟩
    · cases taken
      exact ⟨rfl, rfl, rfl, rfl⟩
    · cases taken
  | finish =>
    simp only [State.step, finish] at taken
    split at taken
    · split at taken <;> cases taken
      exact ⟨rfl, rfl, rfl, rfl⟩
    · split at taken <;> cases taken
      exact ⟨rfl, rfl, rfl, rfl⟩
    · cases taken
  | exit =>
    simp only [State.step, exit] at taken
    split at taken <;> cases taken
    exact ⟨rfl, rfl, rfl, rfl⟩
  | enter source | raise source | leave source =>
    simp only [State.step, Option.ite_none_right_eq_some, Option.some.injEq] at taken
    obtain ⟨-, rfl⟩ := taken
    exact ⟨rfl, rfl, rfl, rfl⟩
  | deliver | resend | topHalf | bottomStart | bottomReturn => exact outside.elim

/-- What the genirq core does with the line: it drops or latches the interrupt, or starts the
top half of a line in force. -/
theorem handleSimpleIrq_cases (sample : Sample) (state : State) :
    (state.topHalf ≠ none ∧ state.handleSimpleIrq sample = state) ∨
    (state.topHalf = none ∧ state.handleSimpleIrq sample = { state with
      topHalf := some (if sample.bottom = none then .returning else .queueing) }) ∨
    (state.topHalf = none ∧ ¬ (state.InForce .irq ∧ ¬ state.InForce .irqDisable) ∧
      state.handleSimpleIrq sample = { state with latched := true }) := by
  unfold handleSimpleIrq
  by_cases handling : state.topHalf ≠ none
  · exact .inl ⟨handling, if_pos handling⟩
  · rw [if_neg handling]
    by_cases there : state.InForce .irq ∧ ¬ state.InForce .irqDisable
    · exact .inr (.inl ⟨not_not.mp handling, if_pos there⟩)
    · exact .inr (.inr ⟨not_not.mp handling, there, if_neg there⟩)

/-- Only a sample with a bottom half queues or runs one. -/
structure Fitting (sample : Sample) (state : State) : Prop where
  queueing : state.topHalf = some .queueing → sample.bottom ≠ none
  idle : sample.bottom = none → state.queued = false ∧ state.running = false

theorem Fitting.same (fitting : state.Fitting sample) (same : state.SameHalves next) :
    next.Fitting sample := by
  refine ⟨?_, ?_⟩
  · rw [same.topHalf]
    exact fitting.queueing
  · rw [same.queued, same.running]
    exact fitting.idle

theorem Fitting.handleSimpleIrq (fitting : state.Fitting sample) :
    (state.handleSimpleIrq sample).Fitting sample := by
  rcases handleSimpleIrq_cases sample state with ⟨-, same⟩ | ⟨-, starts⟩ | ⟨-, -, latches⟩
  · rwa [same]
  · rw [starts]
    refine ⟨?_, fitting.idle⟩
    intro queueing bottom
    simp [bottom] at queueing
  · rw [latches]
    exact ⟨fitting.queueing, fitting.idle⟩

theorem Fitting.step (fitting : state.Fitting sample) (placed : state.misqueued = false)
    (taken : state.step sample event = some next) : next.Fitting sample := by
  cases event with
  | call | succeed | fail | finish | exit | enter | raise | leave =>
    exact fitting.same (outside_halves taken trivial)
  | deliver =>
    simp only [State.step, deliver] at taken
    split at taken
    · split at taken <;> cases taken
      · exact Fitting.handleSimpleIrq ⟨fitting.queueing, fitting.idle⟩
      · exact ⟨fitting.queueing, fitting.idle⟩
    · cases taken
  | resend =>
    simp only [State.step, Option.ite_none_right_eq_some, Option.some.injEq] at taken
    obtain ⟨-, rfl⟩ := taken
    exact Fitting.handleSimpleIrq ⟨fitting.queueing, fitting.idle⟩
  | topHalf =>
    simp only [State.step, topHalfStep] at taken
    split at taken
    · rename_i target _ bottom
      cases taken
      exact ⟨by simp, fun none => by rw [bottom] at none; cases none⟩
    · cases taken
      exact ⟨by simp, fitting.idle⟩
    · cases taken
  | bottomStart =>
    have busy : state.queued = true := by
      simp only [State.step, placed] at taken
      split at taken
      · cases taken
      · split at taken
        · assumption
        · cases taken
    have bottom : sample.bottom ≠ none := by
      intro none
      rw [(fitting.idle none).1] at busy
      cases busy
    refine ⟨fun _ => bottom, fun none => absurd none bottom⟩
  | bottomReturn =>
    simp only [State.step, Option.ite_none_right_eq_some, Option.some.injEq] at taken
    obtain ⟨-, rfl⟩ := taken
    exact ⟨fitting.queueing, fun none => ⟨(fitting.idle none).1, rfl⟩⟩

/-- Calls of the module's thread still to come, with the call of exit. -/
def rank (sample : Sample) (state : State) : Nat :=
  match state.phase with
  | .init rest => 2 * sample.exit.length + 2 * rest.length + 3
  | .opening _ _ rest | .releasing _ rest => 2 * sample.exit.length + 2 * rest.length + 4
  | .loaded => 2 * sample.exit.length + 2
  | .teardown rest => 2 * rest.length + 1
  | .closing _ rest => 2 * rest.length + 2
  | .returned => 0

/-- Steps of the top half with those of the bottom half it queues. -/
def topWork : Option TopPoint → Nat
  | none => 0
  | some .returning => 1
  | some .queueing => 4

/-- What is under way and keeps a releasing call waiting. -/
def work (state : State) : Nat :=
  5 * state.pending.toNat + topWork state.topHalf + 2 * state.queued.toNat +
    state.running.toNat + state.raising.length

def unloadRank (sample : Sample) (state : State) : Nat × Nat := (state.rank sample, state.work)

theorem unloadRank_of_work (same : next.phase = state.phase) (less : next.work < state.work) :
    Machine.Stages (next.unloadRank sample) (state.unloadRank sample) := by
  have ranks : next.rank sample = state.rank sample := by rw [rank, rank, same]
  rw [unloadRank, unloadRank, ranks]
  exact .right _ less

theorem handleSimpleIrq_work (sample : Sample) (state : State) :
    (state.handleSimpleIrq sample).phase = state.phase ∧
      (state.handleSimpleIrq sample).work ≤ state.work + 4 := by
  rcases handleSimpleIrq_cases sample state with ⟨-, same⟩ | ⟨idle, starts⟩ | ⟨-, -, latches⟩
  · rw [same]
    exact ⟨rfl, Nat.le_add_right _ _⟩
  · rw [starts]
    refine ⟨rfl, ?_⟩
    simp only [work, idle]
    split <;> simp only [topWork] <;> omega
  · rw [latches]
    exact ⟨rfl, Nat.le_add_right _ _⟩

/-- Whatever a releasing call waits for can make its next step. -/
theorem busy_advances (fitting : state.Fitting sample)
    (busy : state.Busy sample resource) : ∃ event next, state.step sample event = some next ∧
      next.phase = state.phase ∧ next.work < state.work := by
  rcases busy with ⟨-, pending⟩ | ⟨-, handling⟩ | ⟨bottom, late⟩ | raising
  · by_cases mapped : state.InForce .mapping
    · obtain ⟨phase, bound⟩ := handleSimpleIrq_work sample { state with pending := false }
      refine ⟨.deliver, _, by simp only [State.step, deliver, pending, mapped, if_true], phase, ?_⟩
      have before : work { state with pending := false } + 5 = state.work := by
        simp only [work, pending, Bool.toNat_true, Bool.toNat_false]
        omega
      omega
    · refine ⟨.deliver, { state with pending := false }, ?_, rfl, ?_⟩
      · simp only [State.step, deliver, pending, mapped, if_true, if_false]
      · simp only [work, pending, Bool.toNat_true, Bool.toNat_false]
        omega
  · obtain ⟨point, here⟩ := Option.ne_none_iff_exists'.mp handling
    cases point with
    | returning =>
      refine ⟨.topHalf, { state with topHalf := none }, ?_, rfl, ?_⟩
      · simp only [State.step, topHalfStep, here]
      · simp only [work, here, topWork]
        omega
    | queueing =>
      obtain ⟨target, bottom⟩ := Option.ne_none_iff_exists'.mp (fitting.queueing here)
      refine ⟨.topHalf, { state.queueBottom target with topHalf := some .returning }, ?_, ?_, ?_⟩
      · simp only [State.step, topHalfStep, here, bottom]
      · simp only [queueBottom]
        split <;> rfl
      · have bound := Bool.toNat_le state.queued
        simp only [queueBottom]
        split <;> simp only [work, here, topWork, Bool.toNat_true] <;> omega
  · cases running : state.running with
    | true =>
      refine ⟨.bottomReturn, { state with running := false }, ?_, rfl, ?_⟩
      · simp only [State.step, running, if_true]
      · simp only [work, running, Bool.toNat_true, Bool.toNat_false]
        omega
    | false =>
      have queued : state.queued = true := late.resolve_right (by simp [running])
      refine ⟨.bottomStart, { state with queued := false, running := true }, ?_, rfl, ?_⟩
      · simp [State.step, running, queued]
      · simp only [work, running, queued, Bool.toNat_true, Bool.toNat_false]
        omega
  · refine ⟨.leave resource, { state with raising := state.raising.erase resource }, ?_, rfl, ?_⟩
    · simp only [State.step, raising, if_true]
    · have shorter := List.length_erase_of_mem raising
      have some := List.length_pos_of_mem raising
      simp only [work]
      omega

/-- Until init has failed or exit has returned, the module's thread can go on or what it
waits for can. -/
theorem unload_advances (fitting : state.Fitting sample) (going : state.phase ≠ .returned) :
    ∃ event next, state.step sample event = some next ∧
      Machine.Stages (next.unloadRank sample) (state.unloadRank sample) := by
  cases phase : state.phase with
  | init rest =>
    cases rest with
    | nil =>
      refine ⟨.call, _, by simp only [State.step, call, phase]; rfl, .left _ _ ?_⟩
      simp only [rank, phase, List.length_nil]
      omega
    | cons step rest =>
      cases step with
      | setup resource | acquire resource onFail =>
        refine ⟨.call, _, by simp only [State.step, call, phase]; rfl, .left _ _ ?_⟩
        simp only [rank, phase, List.length_cons]
        omega
      | release resource =>
        refine ⟨.call, _, by simp only [State.step, call, phase]; rfl, .left _ _ ?_⟩
        simp only [rank, phase, List.length_cons]
        omega
      | raise onFail =>
        refine ⟨.succeed, _, by simp only [State.step, succeed, phase]; rfl, .left _ _ ?_⟩
        simp only [rank, phase, List.length_cons]
        omega
  | opening resource onFail rest =>
    refine ⟨.succeed, _, by simp only [State.step, succeed, phase]; rfl, .left _ _ ?_⟩
    simp only [rank, phase]
    omega
  | releasing resource rest =>
    by_cases busy : state.Busy sample resource
    · obtain ⟨event, next, taken, same, less⟩ := busy_advances fitting busy
      exact ⟨event, next, taken, unloadRank_of_work same less⟩
    · refine ⟨.finish, { state.drop resource with phase := .init rest }, ?_, .left _ _ ?_⟩
      · simp only [State.step, finish, phase, busy, if_false]
      · simp only [rank, phase]
        omega
  | loaded =>
    refine ⟨.exit, _, by simp only [State.step, exit, phase]; rfl, .left _ _ ?_⟩
    simp only [rank, phase]
    omega
  | teardown rest =>
    cases rest with
    | nil =>
      refine ⟨.call, _, by simp only [State.step, call, phase]; rfl, .left _ _ ?_⟩
      simp only [rank, phase, List.length_nil]
      omega
    | cons resource rest =>
      refine ⟨.call, _, by simp only [State.step, call, phase]; rfl, .left _ _ ?_⟩
      simp only [rank, phase, List.length_cons]
      omega
  | closing resource rest =>
    by_cases busy : state.Busy sample resource
    · obtain ⟨event, next, taken, same, less⟩ := busy_advances fitting busy
      exact ⟨event, next, taken, unloadRank_of_work same less⟩
    · refine ⟨.finish, { state.drop resource with phase := .teardown rest }, ?_, .left _ _ ?_⟩
      · simp only [State.step, finish, phase, busy, if_false]
      · simp only [rank, phase]
        omega
  | returned => exact absurd phase going

/-- With nothing held, nothing of any sample is under way and nothing can start. -/
theorem Sound.silent (sound : Sound sample state) (fitting : state.Fitting sample)
    (returned : state.phase = .returned) : state.Quiet sample := by
  cases bottom : sample.bottom with
  | some target => exact sound.quiet bottom returned
  | none =>
    have empty := sound.ledger.returned returned
    obtain ⟨queued, running⟩ := fitting.idle bottom
    have pending : state.pending = false := by
      by_contra raised
      simpa [empty] using sound.pendingHeld (by simpa using raised)
    have topHalf : state.topHalf = none := by
      by_contra handling
      simpa [empty] using sound.topHeld handling
    have raising : state.raising = [] := by
      refine List.eq_nil_iff_forall_not_mem.mpr fun source present => ?_
      simpa [empty] using (sound.raisingHeld source present).2
    have inForce : ∀ {resource}, ¬ state.InForce resource := by
      intro resource there
      simpa [empty] using there.1
    refine ⟨pending, topHalf, queued, sound.placed, running, raising, ?_⟩
    intro event
    cases event with
    | call => simp only [State.step, State.call, returned]
    | succeed => simp only [State.step, State.succeed, returned]
    | fail => simp only [State.step, State.fail, returned]
    | finish => simp only [State.step, State.finish, returned]
    | exit => simp only [State.step, State.exit, returned]
    | enter source => simp only [State.step, inForce, and_false, if_false]
    | raise source | leave source => simp [State.step, raising]
    | deliver => simp [State.step, State.deliver, pending]
    | resend => simp only [State.step, inForce, and_false, if_false]
    | topHalf => simp [State.step, State.topHalfStep, topHalf]
    | bottomStart => simp [State.step, queued, running, sound.placed]
    | bottomReturn => simp [State.step, running]

end State

section Runs

variable {sample : Sample} {state : State}

theorem reachable_fitting (member : sample ∈ simulatedIrqSamples)
    (reached : (lifecycle sample).Reachable state) : state.Fitting sample := by
  refine Machine.Reachable.induction (State.Fitting sample) ?_ ?_ reached
  · exact ⟨nofun, fun _ => ⟨rfl, rfl⟩⟩
  · intro state event next before fitting taken
    exact fitting.step (sound_reachable (orderly_samples sample member) before).placed taken

theorem unload_completes (member : sample ∈ simulatedIrqSamples)
    (reached : (lifecycle sample).Reachable state) :
    ∃ events last, (lifecycle sample).run state events = some last ∧
      last.phase = .returned := by
  obtain ⟨events, last, onward, -, returned⟩ :=
    @Machine.reaches_of_rank _ _ (lifecycle sample) _ _ Machine.stages_founded
      (State.unloadRank sample) (lifecycle sample).Reachable
      (fun state => state.phase = .returned)
      (fun before going => by
        obtain ⟨event, next, taken, nearer⟩ :=
          State.unload_advances (reachable_fitting member before) going
        exact ⟨event, next, taken, before.next taken, nearer⟩) state reached
  exact ⟨events, last, onward, returned⟩

/-- For each of the ten samples and any interleaving: a release is of the newest resource,
which nothing held uses, a failed init and a returned exit have released all that was
acquired, each once, and leave nothing that runs or can start, and from any state the module
can get there. -/
theorem samples_unload (member : sample ∈ simulatedIrqSamples)
    (reached : (lifecycle sample).Reachable state) :
    (∀ resource, state.phase.nextRelease = some resource →
      state.held.head? = some resource ∧ ∀ user ∈ state.held, resource ∉ sample.uses user) ∧
    (state.phase = .returned → state.Quiet sample ∧
      state.released.Perm state.acquired ∧ state.released.Nodup) ∧
    ∃ events last, (lifecycle sample).run state events = some last ∧
      last.phase = .returned := by
  have sound := sound_reachable (orderly_samples sample member) reached
  refine ⟨fun resource next => ?_, fun returned => ?_, unload_completes member reached⟩
  · exact ⟨sound.ledger.release_newest next, sound.ledger.release_unused next⟩
  · exact ⟨sound.silent (reachable_fitting member reached) returned,
      sound.ledger.returned_accounted returned⟩

/-- Exit disables nothing and waits for the handler that a last write to `trigger` raised. -/
def unloadAfterTrigger : List Event :=
  [.call, .succeed, .call, .succeed, .call, .succeed, .call, .succeed, .call,
    .enter .debugfs, .raise .debugfs, .exit, .call, .deliver, .leave .debugfs, .finish, .call,
    .topHalf, .finish, .call, .finish, .call, .finish, .call]

theorem samples_unload_after_trigger :
    ∃ state, (lifecycle sleepInHardirqDangerModule).Reachable state ∧
      state.acquired = [.debugfs, .irq, .mapping, .simDomain] ∧
      state.Quiet sleepInHardirqDangerModule ∧ state.released.Perm state.acquired := by
  obtain ⟨state, reached, passes⟩ :=
    (lifecycle sleepInHardirqDangerModule).reachable_of_run unloadAfterTrigger
      (fun state => decide (state.phase = .returned ∧
        state.acquired = [.debugfs, .irq, .mapping, .simDomain])) (by decide +kernel)
  obtain ⟨returned, acquired⟩ := of_decide_eq_true passes
  obtain ⟨-, ended, -⟩ := samples_unload (by simp [simulatedIrqSamples]) reached
  obtain ⟨quiet, released, -⟩ := ended returned
  exact ⟨state, reached, acquired, quiet, released⟩

end Runs

end KernelSamples.SimIrq

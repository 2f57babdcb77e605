import KernelSamples.SimIrq.Order

/-! Teardown of the samples with a bottom half, by the unwind labels of init and by exit. -/

namespace KernelSamples.SimIrq

open Lib

/-- Nothing of the module is queued or running, and no context of it can take a step. -/
structure State.Quiet (sample : Sample) (state : State) : Prop where
  pending : state.pending = false
  topHalf : state.topHalf = none
  queued : state.queued = false
  misqueued : state.misqueued = false
  running : state.running = false
  raising : state.raising = []
  stuck : ∀ event, state.step sample event = none

namespace State

variable {sample : Sample} {state : State} {resource target : Resource}

theorem Ledger.returned (ledger : state.Ledger sample) (phase : state.phase = .returned) :
    state.held = [] := by
  have staged := ledger.staged
  simpa only [Staged, phase] using staged

/-- The resource released next is the newest one held. -/
theorem Ledger.release_newest (ledger : state.Ledger sample)
    (next : state.phase.nextRelease = some resource) : state.held.head? = some resource := by
  have staged := ledger.staged
  unfold Staged at staged
  unfold Phase.nextRelease at next
  split at next
  · rename_i released rest phase
    simp only [phase] at staged
    rw [staged.1, ← next]
  · rename_i released rest phase
    simp only [phase] at staged
    rw [← staged, ← next, List.head?_cons]
  · cases next

theorem Ledger.release_unused (ledger : state.Ledger sample)
    (next : state.phase.nextRelease = some resource) :
    ∀ user ∈ state.held, resource ∉ sample.uses user := by
  obtain ⟨below, shape⟩ := List.head?_eq_some_iff.mp (ledger.release_newest next)
  have founded := ledger.founded
  have distinct := ledger.held_distinct
  rw [shape] at founded distinct
  intro user present
  rw [shape] at present
  exact founded.newest_unused distinct present

theorem Ledger.returned_accounted (ledger : state.Ledger sample)
    (phase : state.phase = .returned) :
    state.released.Perm state.acquired ∧ state.released.Nodup := by
  have accounted := ledger.accounted
  simp only [settled, phase, Phase.opens, ledger.returned phase, List.append_nil] at accounted
  exact ⟨accounted.symm, accounted.nodup_iff.mp ledger.distinct⟩

/-- With nothing held, nothing is under way and nothing can start. -/
theorem Sound.quiet (sound : Sound sample state) (bottom : sample.bottom = some target)
    (phase : state.phase = .returned) : state.Quiet sample := by
  have empty := sound.ledger.returned phase
  have absent : ∀ {resource}, resource ∉ state.held := by simp [empty]
  have pending : state.pending = false := by
    by_contra raised
    exact absent (sound.pendingHeld (by simpa using raised))
  have topHalf : state.topHalf = none := by
    by_contra handling
    exact absent (sound.topHeld handling)
  have idle : ¬ (state.queued = true ∨ state.running = true) :=
    fun busy => absent (sound.bottomHeld busy target bottom)
  have raising : state.raising = [] := by
    refine List.eq_nil_iff_forall_not_mem.mpr fun source present => ?_
    exact absent (sound.raisingHeld source present).2
  simp only [not_or, Bool.not_eq_true] at idle
  refine ⟨pending, topHalf, idle.1, sound.placed, idle.2, raising, ?_⟩
  have inForce : ∀ {resource}, ¬ state.InForce resource := fun there => absent there.1
  intro event
  cases event with
  | call => simp only [State.step, State.call, phase]
  | succeed => simp only [State.step, State.succeed, phase]
  | fail => simp only [State.step, State.fail, phase]
  | finish => simp only [State.step, State.finish, phase]
  | exit => simp only [State.step, State.exit, phase]
  | enter source => simp only [State.step, inForce, and_false, if_false]
  | raise source => simp [State.step, raising]
  | leave source => simp [State.step, raising]
  | deliver => simp [State.step, State.deliver, pending]
  | resend => simp only [State.step, inForce, and_false, if_false]
  | topHalf => simp [State.step, State.topHalfStep, topHalf]
  | bottomStart => simp [State.step, idle, sound.placed]
  | bottomReturn => simp [State.step, idle]

end State

theorem bottomHalf_target :
    ∀ sample ∈ bottomHalfSamples, ∃ target, sample.bottom = some target ∧ target ≠ .irq := by
  simp [bottomHalfSamples, taskletModule, bhWorkqueueModule, workqueueSampleModule,
    interruptCompetitionModule]

/-- In every interleaving the top half queues only on what is there, nothing is left to run
when init has failed or exit has returned, and all that was acquired is released once, never
from under what uses it. -/
theorem teardown_in_order {sample : Sample} {state : State}
    (member : sample ∈ bottomHalfSamples) (reached : (lifecycle sample).Reachable state) :
    (state.misqueued = false ∧
      (state.topHalf = some .queueing →
        ∀ target, sample.bottom = some target → state.Established target)) ∧
    (state.phase = .returned → state.Quiet sample) ∧
    (state.phase = .returned →
      state.released.Perm state.acquired ∧ state.released.Nodup) ∧
    (∀ resource, state.phase.nextRelease = some resource →
      state.held.head? = some resource ∧ ∀ user ∈ state.held, resource ∉ sample.uses user) := by
  have sound := sound_reachable (orderly_bottomHalf member) reached
  obtain ⟨own, ownTarget, notLine⟩ := bottomHalf_target sample member
  refine ⟨⟨sound.placed, ?_⟩, sound.quiet ownTarget, sound.ledger.returned_accounted, ?_⟩
  · intro queueing target chosen
    have line : .irq ∈ state.held := sound.topHeld (by simp [queueing])
    obtain rfl := Option.some.inj (ownTarget.symm.trans chosen)
    exact (sound.target_established line ownTarget).resolve_left notLine
  · intro resource next
    exact ⟨sound.ledger.release_newest next, sound.ledger.release_unused next⟩

/-- The raiser threads fail to register after one of them has raised the line twice. -/
def failedLoad : List Event :=
  [.call, .call, .succeed, .call, .succeed, .call, .succeed, .call, .enter .raiserThreads,
    .raise .raiserThreads, .deliver, .topHalf, .raise .raiserThreads, .leave .raiserThreads,
    .deliver, .fail, .call, .topHalf, .finish, .call, .finish, .call, .finish, .call,
    .bottomStart, .bottomReturn, .finish, .call]

theorem teardown_in_order_failed_load :
    ∃ state, (lifecycle interruptCompetitionModule).Reachable state ∧
      state.phase = .returned ∧ state.Quiet interruptCompetitionModule ∧
      state.acquired = [.irq, .mapping, .simDomain, .tasklet] ∧
      state.released.Perm state.acquired := by
  obtain ⟨state, reached, passes⟩ :=
    (lifecycle interruptCompetitionModule).reachable_of_run failedLoad
      (fun state => decide (state.phase = .returned ∧
        state.acquired = [.irq, .mapping, .simDomain, .tasklet])) (by decide +kernel)
  obtain ⟨phase, acquired⟩ := of_decide_eq_true passes
  obtain ⟨-, quiet, accounted, -⟩ := teardown_in_order
    (by simp [bottomHalfSamples] : interruptCompetitionModule ∈ bottomHalfSamples) reached
  exact ⟨state, reached, phase, quiet phase, acquired, (accounted phase).1⟩

end KernelSamples.SimIrq

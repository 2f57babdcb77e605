import KernelSamples.SimIrq.DangerGate
import Mathlib.Data.List.Perm.Subperm

/-! What becomes of the triggers of the danger modules: each fires once at most, and none after
the module is out. -/

namespace KernelSamples.SimIrq

open Lib

/-- The triggers that raised the line. -/
def raisedTriggers (events : List DangerEvent) : List Trigger :=
  events.filterMap fun
    | .raise trigger => some trigger
    | _ => none

/-- The triggers of a half that has not read `danger_enabled` yet. -/
def unread : Option (DangerPoint × List Trigger) → List Trigger
  | some (.entered, causes) => causes
  | _ => []

/-- Runs with a cause each are no more than the causes. -/
theorem length_le_causes {executions : List Execution}
    (caused : ∀ execution ∈ executions, execution.causes ≠ []) :
    executions.length ≤ (executions.flatMap Execution.causes).length := by
  induction executions with
  | nil => exact Nat.le_refl _
  | cons execution rest ih =>
    have here := List.length_pos_of_ne_nil (caused execution List.mem_cons_self)
    have later := ih fun other member => caused other (List.mem_cons_of_mem _ member)
    rw [List.flatMap_cons, List.length_append, List.length_cons]
    omega

namespace Danger

variable {sample : DangerModule} {state next : Danger} {event : DangerEvent}
  {past : List DangerEvent}

/-- Raised triggers on their way to the read. -/
def underway (state : Danger) : List Trigger :=
  state.queued ++ unread state.topHalf ++ state.scheduled ++ unread state.bottomHalf

def fired (state : Danger) : List Trigger := state.executions.flatMap Execution.causes

/-- No trigger is in two places, or in one and fired. -/
structure Fired (sample : DangerModule) (past : List DangerEvent) (state : Danger) : Prop where
  once : ∀ trigger, state.underway.count trigger + state.fired.count trigger ≤
    (raisedTriggers past).count trigger
  awake : sample = .softirq → ∀ causes, state.topHalf ≠ some (.sleeping, causes)

/-- What the exit has waited for stays away. -/
structure Draining (sample : DangerModule) (state : Danger) : Prop where
  writers : state.phase ≠ .loaded → state.phase ≠ .debugfsRemove → state.writers = []
  topHalf : state.phase ≠ .loaded → state.phase ≠ .debugfsRemove → state.phase ≠ .freeIrq →
    state.topHalf = none
  queued : state.phase = .killTasklet ∨ state.phase = .unloaded → state.queued = []
  bottomHalf : state.phase = .unloaded ∨ sample = .hardirq →
    state.scheduled = [] ∧ state.bottomHalf = none

theorem raisedTriggers_snoc (past : List DangerEvent) (event : DangerEvent) :
    raisedTriggers (past ++ [event]) = raisedTriggers past ++ raisedTriggers [event] :=
  List.filterMap_append ..

/-- A handler fires what it has not read yet. -/
theorem handler_fires (state : Danger) (at_ : DangerPoint × List Trigger) :
    unread (state.handler at_).1 = [] ∧
      (state.handler at_).2.flatMap Execution.causes = unread (some at_) := by
  obtain ⟨point, causes⟩ := at_
  cases point with
  | entered =>
    constructor
    · simp only [handler]
      split <;> rfl
    · simp [handler, unread]
  | sleeping => exact ⟨rfl, rfl⟩

/-- Steps that raise nothing and fire nothing new. -/
theorem Fired.keep (fired : state.Fired sample past)
    (fewer : ∀ trigger, next.underway.count trigger + next.fired.count trigger ≤
      state.underway.count trigger + state.fired.count trigger)
    (awake : sample = .softirq → ∀ causes, next.topHalf ≠ some (.sleeping, causes)) :
    next.Fired sample (past ++ [event]) := by
  refine ⟨fun trigger => ?_, awake⟩
  have before := fired.once trigger
  have now := fewer trigger
  rw [raisedTriggers_snoc, List.count_append]
  omega

theorem Fired.deliver (fired : state.Fired sample past) :
    state.deliver.Fired sample (past ++ [event]) := by
  unfold Danger.deliver
  split
  · rename_i idle
    refine fired.keep (fun trigger => ?_) (fun _ causes sleeping => by cases sleeping)
    simp only [underway, idle.1, unread, Danger.fired, List.count_append, List.count_nil]
    omega
  · refine fired.keep (fun trigger => ?_) fired.awake
    simp only [underway, Danger.fired, List.count_append, List.count_nil]
    omega

theorem Fired.step (fired : state.Fired sample past)
    (taken : state.step sample event = some next) : next.Fired sample (past ++ [event]) := by
  cases event with
  | dangerEnabledWrite value =>
    simp only [Danger.step, Option.ite_none_right_eq_some, Option.some.injEq] at taken
    obtain ⟨-, rfl⟩ := taken
    exact fired.keep (fun trigger => Nat.le_refl _) fired.awake
  | triggerWrite =>
    simp only [Danger.step, Option.ite_none_right_eq_some, Option.some.injEq] at taken
    obtain ⟨-, rfl⟩ := taken
    exact fired.keep (fun trigger => Nat.le_refl _) fired.awake
  | raise trigger =>
    simp only [Danger.step, Option.ite_none_right_eq_some, Option.some.injEq] at taken
    obtain ⟨-, rfl⟩ := taken
    refine ⟨fun other => ?_, fired.awake⟩
    have before := fired.once other
    have here : raisedTriggers [.raise trigger] = [trigger] := rfl
    rw [raisedTriggers_snoc, here]
    simp only [underway, Danger.fired, List.count_append, List.count_cons,
      List.count_nil] at before ⊢
    omega
  | raiseFails trigger =>
    simp only [Danger.step, Option.ite_none_right_eq_some, Option.some.injEq] at taken
    obtain ⟨-, rfl⟩ := taken
    exact fired.keep (fun trigger => Nat.le_refl _) fired.awake
  | deliver =>
    simp only [Danger.step, Option.ite_none_left_eq_some, Option.some.injEq] at taken
    obtain ⟨-, rfl⟩ := taken
    exact fired.deliver
  | topHalf =>
    simp only [Danger.step] at taken
    split at taken
    · cases taken
    · rename_i at_ running
      cases taken
      obtain ⟨read, fires⟩ := handler_fires state at_
      refine fired.keep (fun trigger => ?_) (fun softirq => by cases softirq)
      simp only [underway, Danger.fired, List.count_append, List.flatMap_append, read, fires,
        running, List.count_nil]
      omega
    · rename_i point causes running
      cases taken
      refine fired.keep (fun trigger => ?_) (fun _ causes sleeping => by cases sleeping)
      have entered : point = .entered := by
        cases point with
        | entered => rfl
        | sleeping => exact absurd running (fired.awake rfl causes)
      simp only [underway, Danger.fired, List.count_append, running, entered, unread,
        List.count_nil]
      omega
  | bottomStart =>
    simp only [Danger.step, Option.ite_none_right_eq_some, Option.some.injEq] at taken
    obtain ⟨⟨-, idle⟩, rfl⟩ := taken
    refine fired.keep (fun trigger => ?_) fired.awake
    simp only [underway, Danger.fired, List.count_append, idle, unread, List.count_nil]
    omega
  | bottomHalf =>
    simp only [Danger.step] at taken
    split at taken
    · cases taken
    · rename_i at_ running
      cases taken
      obtain ⟨read, fires⟩ := handler_fires state at_
      refine fired.keep (fun trigger => ?_) fired.awake
      simp only [underway, Danger.fired, List.count_append, List.flatMap_append, read, fires,
        running, List.count_nil]
      omega
  | exit =>
    obtain ⟨phase, rfl⟩ := exit_phase taken
    exact fired.keep (fun trigger => Nat.le_refl _) fired.awake

theorem Draining.deliver (draining : state.Draining sample) (raised : state.queued ≠ []) :
    state.deliver.Draining sample := by
  have early : ¬ (state.phase = .killTasklet ∨ state.phase = .unloaded) :=
    fun late => raised (draining.queued late)
  unfold Danger.deliver
  split
  · rename_i idle
    refine ⟨draining.writers, fun notLoaded notRemoving _ => ?_, fun _ => rfl,
      draining.bottomHalf⟩
    exact (idle.2.elim notLoaded notRemoving).elim
  · exact ⟨draining.writers, draining.topHalf, fun _ => rfl, draining.bottomHalf⟩

theorem Draining.exit (draining : state.Draining sample)
    (taken : state.exit sample = some next) : next.Draining sample := by
  obtain ⟨writers, topHalf, queued, bottomHalf⟩ := draining
  unfold Danger.exit at taken
  split at taken
  · rename_i phase
    cases taken
    exact ⟨fun _ notRemoving => absurd rfl notRemoving,
      fun _ notRemoving => absurd rfl notRemoving, fun late => by simp at late,
      fun late => bottomHalf (late.imp (fun unloaded => by cases unloaded) id)⟩
  · rename_i phase
    obtain ⟨written, rfl⟩ := by simpa using taken
    exact ⟨fun _ _ => written, fun _ _ notFreeing => absurd rfl notFreeing,
      fun late => by simp at late,
      fun late => bottomHalf (late.imp (fun unloaded => by cases unloaded) id)⟩
  · rename_i phase
    obtain ⟨handled, rfl⟩ := by simpa using taken
    have written := writers (by rw [phase]; simp) (by rw [phase]; simp)
    exact ⟨fun _ _ => written, fun _ _ _ => handled, fun late => by simp at late,
      fun late => bottomHalf (late.imp (fun unloaded => by cases unloaded) id)⟩
  · rename_i phase
    cases taken
    have written := writers (by rw [phase]; simp) (by rw [phase]; simp)
    have handled := topHalf (by rw [phase]; simp) (by rw [phase]; simp) (by rw [phase]; simp)
    exact ⟨fun _ _ => written, fun _ _ _ => handled, fun late => by simp at late,
      fun late => bottomHalf (late.imp (fun unloaded => by cases unloaded) id)⟩
  · rename_i phase
    obtain ⟨delivered, rfl⟩ := by simpa using taken
    have written := writers (by rw [phase]; simp) (by rw [phase]; simp)
    have handled := topHalf (by rw [phase]; simp) (by rw [phase]; simp) (by rw [phase]; simp)
    refine ⟨fun _ _ => written, fun _ _ _ => handled, fun _ => delivered, fun late => ?_⟩
    cases sample with
    | hardirq => exact bottomHalf (.inr rfl)
    | softirq => simp at late
  · rename_i phase
    obtain ⟨⟨ran, idle⟩, rfl⟩ := by simpa using taken
    have written := writers (by rw [phase]; simp) (by rw [phase]; simp)
    have handled := topHalf (by rw [phase]; simp) (by rw [phase]; simp) (by rw [phase]; simp)
    exact ⟨fun _ _ => written, fun _ _ _ => handled, fun _ => queued (.inl phase),
      fun _ => ⟨ran, idle⟩⟩
  · cases taken

theorem Draining.step (draining : state.Draining sample)
    (taken : state.step sample event = some next) : next.Draining sample := by
  cases event with
  | dangerEnabledWrite value =>
    simp only [Danger.step, Option.ite_none_right_eq_some, Option.some.injEq] at taken
    obtain ⟨-, rfl⟩ := taken
    exact ⟨draining.writers, draining.topHalf, draining.queued, draining.bottomHalf⟩
  | triggerWrite =>
    simp only [Danger.step, Option.ite_none_right_eq_some, Option.some.injEq] at taken
    obtain ⟨loaded, rfl⟩ := taken
    exact ⟨fun notLoaded => absurd loaded notLoaded, draining.topHalf, draining.queued,
      draining.bottomHalf⟩
  | raise trigger =>
    simp only [Danger.step, Option.ite_none_right_eq_some, Option.some.injEq] at taken
    obtain ⟨writing, rfl⟩ := taken
    have early : state.phase = .loaded ∨ state.phase = .debugfsRemove := by
      by_contra late
      obtain ⟨notLoaded, notRemoving⟩ := not_or.mp late
      rw [draining.writers notLoaded notRemoving] at writing
      cases writing
    refine ⟨fun notLoaded notRemoving => (early.elim notLoaded notRemoving).elim,
      draining.topHalf, fun late => ?_, draining.bottomHalf⟩
    rcases early with phase | phase <;> rw [phase] at late <;> simp at late
  | raiseFails trigger =>
    simp only [Danger.step, Option.ite_none_right_eq_some, Option.some.injEq] at taken
    obtain ⟨-, rfl⟩ := taken
    refine ⟨fun notLoaded notRemoving => ?_, draining.topHalf, draining.queued,
      draining.bottomHalf⟩
    have none := draining.writers notLoaded notRemoving
    simp [none]
  | deliver =>
    simp only [Danger.step, Option.ite_none_left_eq_some, Option.some.injEq] at taken
    obtain ⟨raised, rfl⟩ := taken
    exact draining.deliver raised
  | topHalf =>
    simp only [Danger.step] at taken
    split at taken
    · cases taken
    · rename_i at_ running
      cases taken
      refine ⟨draining.writers, fun notLoaded notRemoving notFreeing => ?_, draining.queued,
        draining.bottomHalf⟩
      rw [draining.topHalf notLoaded notRemoving notFreeing] at running
      cases running
    · rename_i point causes running
      cases taken
      refine ⟨draining.writers, fun _ _ _ => rfl, draining.queued, fun late => ?_⟩
      rcases late with unloaded | hardirq
      · have none := draining.topHalf (by rw [unloaded]; simp) (by rw [unloaded]; simp)
          (by rw [unloaded]; simp)
        rw [none] at running
        cases running
      · cases hardirq
  | bottomStart =>
    simp only [Danger.step, Option.ite_none_right_eq_some, Option.some.injEq] at taken
    obtain ⟨⟨pending, -⟩, rfl⟩ := taken
    exact ⟨draining.writers, draining.topHalf, draining.queued,
      fun late => absurd (draining.bottomHalf late).1 pending⟩
  | bottomHalf =>
    simp only [Danger.step] at taken
    split at taken
    · cases taken
    · rename_i at_ running
      cases taken
      refine ⟨draining.writers, draining.topHalf, draining.queued, fun late => ?_⟩
      rw [(draining.bottomHalf late).2] at running
      cases running
  | exit => exact draining.exit taken

/-- Nothing of the module runs once its exit returned. -/
theorem Draining.over (draining : state.Draining sample) (unloaded : state.phase = .unloaded)
    (event : DangerEvent) : state.step sample event = none := by
  have notLoaded : state.phase ≠ .loaded := by rw [unloaded]; simp
  have notRemoving : state.phase ≠ .debugfsRemove := by rw [unloaded]; simp
  have notFreeing : state.phase ≠ .freeIrq := by rw [unloaded]; simp
  have written := draining.writers notLoaded notRemoving
  have handled := draining.topHalf notLoaded notRemoving notFreeing
  have delivered := draining.queued (.inr unloaded)
  obtain ⟨ran, idle⟩ := draining.bottomHalf (.inl unloaded)
  cases event with
  | dangerEnabledWrite value => exact if_neg notLoaded
  | triggerWrite => exact if_neg notLoaded
  | raise trigger => simp [Danger.step, written]
  | raiseFails trigger => simp [Danger.step, written]
  | deliver => exact if_pos delivered
  | topHalf => simp only [Danger.step, handled]
  | bottomStart => simp [Danger.step, ran]
  | bottomHalf => simp only [Danger.step, idle]
  | exit => simp only [Danger.step, Danger.exit, unloaded]

end Danger

section Runs

variable {sample : DangerModule} {state : Danger} {events : List DangerEvent}

theorem run_fired (onward : (dangerMachine sample).run (dangerMachine sample).initial events =
    some state) : state.Fired sample events := by
  have whole := @Machine.run_history _ _ (dangerMachine sample)
    (fun past state => state.Fired sample past) (fun _ fired taken => fired.step taken)
    [] events (dangerMachine sample).initial state rfl
    ⟨fun _ => Nat.le_refl _, fun _ _ sleeping => by cases sleeping⟩ onward
  exact whole

theorem reachable_draining (reached : (dangerMachine sample).Reachable state) :
    state.Draining sample := by
  refine Machine.Reachable.invariant (Danger.Draining sample) ?_ ?_ reached
  · exact ⟨fun _ _ => rfl, fun _ _ _ => rfl, fun _ => rfl, fun _ => ⟨rfl, rfl⟩⟩
  · intro state event next draining taken
    exact draining.step taken

/-- Both danger modules answer a trigger once at most, whatever is merged, lost or freed: the
handler runs that read `danger_enabled` answer distinct raises and each answers one or more, so
they and the illegal sleeps are no more than the raises. After the exit nothing runs. -/
theorem triggers_fire_once
    (onward : (dangerMachine sample).run (dangerMachine sample).initial events = some state) :
    (state.executions.flatMap Execution.causes).Subperm (raisedTriggers events) ∧
    state.executions.length ≤ (raisedTriggers events).length ∧
    (state.executions.filter Execution.slept).length ≤ (raisedTriggers events).length ∧
    (state.phase = .unloaded → ∀ event, (dangerMachine sample).step state event = none) := by
  have distinct : state.fired.Subperm (raisedTriggers events) := by
    refine List.subperm_ext_iff.mpr fun trigger _ => ?_
    have once := (run_fired onward).once trigger
    omega
  have answered : state.executions.length ≤ state.fired.length := by
    have caused : ∀ execution ∈ state.executions, execution.causes ≠ [] :=
      fun execution member =>
        ((reachable_gated ⟨events, onward⟩).executions execution member).caused
    exact length_le_causes caused
  have few := Nat.le_trans answered distinct.length_le
  exact ⟨distinct, few, Nat.le_trans (List.length_filter_le _ _) few,
    fun unloaded => (reachable_draining ⟨events, onward⟩).over unloaded⟩

/-- Two merged triggers make one handler run, and a third is lost to it. -/
def mergedTriggers : List DangerEvent :=
  [.dangerEnabledWrite true, .triggerWrite, .triggerWrite, .raise ⟨true, 1⟩, .raise ⟨true, 1⟩,
    .deliver, .triggerWrite, .raise ⟨true, 1⟩, .topHalf, .deliver, .topHalf, .exit, .exit, .exit,
    .exit, .exit]

theorem triggers_fire_once_merged :
    ∃ state, (dangerMachine .hardirq).run (dangerMachine .hardirq).initial mergedTriggers =
        some state ∧ state.executions.length = 1 ∧ (raisedTriggers mergedTriggers).length = 3 ∧
      (state.executions.flatMap Execution.causes).Subperm [⟨true, 1⟩, ⟨true, 1⟩, ⟨true, 1⟩] ∧
      (dangerMachine .hardirq).step state .deliver = none := by
  have found : ((dangerMachine .hardirq).run (dangerMachine .hardirq).initial
      mergedTriggers).any (fun state => decide (state.phase = .unloaded ∧
        state.executions.length = 1)) = true := by
    decide +kernel
  obtain ⟨state, onward, passes⟩ := (Option.any_eq_true _ _).mp found
  obtain ⟨unloaded, one⟩ := of_decide_eq_true passes
  obtain ⟨distinct, -, -, ended⟩ := triggers_fire_once onward
  exact ⟨state, onward, one, rfl, distinct, ended unloaded .deliver⟩

end Runs

end KernelSamples.SimIrq

import KernelSamples.SimIrq.Unload

/-! The samples whose init raises the line once and last: how often their halves run. -/

namespace KernelSamples.SimIrq

open Lib

/-- Resources that neither raise the line nor hold it back. -/
def Resource.plain : Resource → Bool
  | .irqDisable | .raiserThreads | .debugfs => false
  | _ => true

/-- Plain resources are set up and acquired, then the line is raised. -/
def RaisesLast : List Step → Prop
  | .setup resource :: rest | .acquire resource _ :: rest =>
    resource.plain = true ∧ RaisesLast rest
  | .raise _ :: rest => rest = []
  | _ => False

/-- The samples that raise their line once, at the end of init. -/
def singleRaiseSamples : List Sample :=
  [hardirqModule, irqNoneModule, threadedIrqModule, taskletModule, bhWorkqueueModule,
    workqueueSampleModule]

theorem singleRaise_simulated {sample : Sample} (member : sample ∈ singleRaiseSamples) :
    sample ∈ simulatedIrqSamples := by
  simp only [singleRaiseSamples, List.mem_cons, List.not_mem_nil, or_false] at member
  rcases member with rfl | rfl | rfl | rfl | rfl | rfl <;>
    simp [simulatedIrqSamples, bottomHalfSamples]

theorem singleRaise_last {sample : Sample} (member : sample ∈ singleRaiseSamples) :
    RaisesLast sample.init := by
  simp only [singleRaiseSamples, List.mem_cons, List.not_mem_nil, or_false] at member
  rcases member with rfl | rfl | rfl | rfl | rfl | rfl <;>
    simp [RaisesLast, Resource.plain, hardirqModule, irqNoneModule, threadedIrqModule,
      taskletModule, bhWorkqueueModule, workqueueSampleModule, acquireLine, raise]

/-- What init has still to do ends with its raise, if anything is left. -/
def Phase.Fresh : Phase → Prop
  | .init rest => rest = [] ∨ RaisesLast rest
  | .opening _ _ rest => RaisesLast rest
  | .releasing _ _ => False
  | _ => True

/-- Init is under way or has returned 0, and exit has not been called. -/
def Phase.Up : Phase → Prop
  | .init _ | .opening _ _ _ | .loaded => True
  | _ => False

/-- Raises init has still to make. -/
def Phase.toRaise : Phase → Nat
  | .init (_ :: _) | .opening _ _ _ => 1
  | _ => 0

/-- Steps of a top half, and bottom halves it queues. -/
def Sample.topSteps (sample : Sample) : Nat := if sample.bottom = none then 1 else 2

def Sample.bottoms (sample : Sample) : Nat := if sample.bottom = none then 0 else 1

/-- Steps a top half has still to make. -/
def stepsLeft : Option TopPoint → Nat
  | none => 0
  | some .returning => 1
  | some .queueing => 2

/-- Bottom halves a top half has still to queue. -/
def toQueue : Option TopPoint → Nat
  | some .queueing => 1
  | _ => 0

theorem count_snoc (past : List Event) (event other : Event) :
    (past ++ [event]).count other = past.count other + if event = other then 1 else 0 := by
  rw [List.count_append, List.count_singleton]
  simp

theorem count_snoc_other {past : List Event} {event other : Event} (different : event ≠ other) :
    (past ++ [event]).count other = past.count other := by
  rw [count_snoc, if_neg different, Nat.add_zero]

namespace State

variable {sample : Sample} {state next : State} {resource : Resource} {event : Event}

/-- Nothing but init raises the line and nothing holds it back. -/
structure Plain (state : State) : Prop where
  fresh : state.phase.Fresh
  held : ∀ resource ∈ state.held, resource.plain = true
  raising : state.raising = []
  resend : state.resend = false

theorem Plain.line (plain : state.Plain) : ¬ state.InForce .irqDisable :=
  fun there => by simpa [Resource.plain] using plain.held _ there.1

/-- The genirq core touches none of what the thread and the sources of raises keep. -/
theorem handleSimpleIrq_rest (sample : Sample) (state : State) :
    (state.handleSimpleIrq sample).phase = state.phase ∧
      (state.handleSimpleIrq sample).held = state.held ∧
      (state.handleSimpleIrq sample).raising = state.raising ∧
      (state.handleSimpleIrq sample).resend = state.resend ∧
      (state.handleSimpleIrq sample).pending = state.pending ∧
      (state.handleSimpleIrq sample).queued = state.queued ∧
      (state.handleSimpleIrq sample).running = state.running := by
  rcases handleSimpleIrq_cases sample state with ⟨-, same⟩ | ⟨-, starts⟩ | ⟨-, -, latches⟩
  · rw [same]
    exact ⟨rfl, rfl, rfl, rfl, rfl, rfl, rfl⟩
  · rw [starts]
    exact ⟨rfl, rfl, rfl, rfl, rfl, rfl, rfl⟩
  · rw [latches]
    exact ⟨rfl, rfl, rfl, rfl, rfl, rfl, rfl⟩

theorem giveUp_plain (plain : resource.plain = true) : state.giveUp resource = state := by
  unfold giveUp
  cases resource <;> simp [Resource.plain] at plain ⊢

theorem Plain.call (plain : state.Plain) (ledger : state.Ledger sample)
    (taken : state.call = some next) : next.Plain := by
  obtain ⟨fresh, held, raising, resend⟩ := plain
  have staged := ledger.staged
  unfold State.call at taken
  unfold Staged at staged
  split at taken
  all_goals
    try
      rename_i phase
      simp only [phase, Phase.Fresh, RaisesLast, reduceCtorEq, false_or] at fresh
    try (simp only [phase] at staged)
  · cases taken
    exact ⟨trivial, held, raising, resend⟩
  · cases taken
    refine ⟨.inr fresh.2, ?_, raising, resend⟩
    intro other member
    rcases List.mem_cons.mp member with rfl | older
    · exact fresh.1
    · exact held other older
  · cases taken
    refine ⟨fresh.2, ?_, raising, resend⟩
    intro other member
    rcases List.mem_cons.mp member with rfl | older
    · exact fresh.1
    · exact held other older
  · cases taken
    exact ⟨trivial, held, raising, resend⟩
  · rename_i resource rest
    have kept : resource.plain = true := held resource (by rw [← staged]; simp)
    rw [giveUp_plain kept] at taken
    cases taken
    exact ⟨trivial, held, raising, resend⟩
  · cases taken

theorem Plain.step (plain : state.Plain) (ledger : state.Ledger sample)
    (taken : state.step sample event = some next) : next.Plain := by
  obtain ⟨fresh, held, raising, resend⟩ := plain
  have lines : (state.handleSimpleIrq sample).Plain ∧
      ({ state with pending := false }.handleSimpleIrq sample).Plain := by
    obtain ⟨phase, kept, raisers, resends, -⟩ := handleSimpleIrq_rest sample state
    obtain ⟨phase', kept', raisers', resends', -⟩ :=
      handleSimpleIrq_rest sample { state with pending := false }
    refine ⟨⟨by rwa [phase], by rwa [kept], by rwa [raisers], by rwa [resends]⟩, ?_⟩
    exact ⟨by rwa [phase'], by rwa [kept'], by rwa [raisers'], by rwa [resends']⟩
  cases event with
  | call => exact Plain.call ⟨fresh, held, raising, resend⟩ ledger taken
  | succeed =>
    simp only [State.step, State.succeed] at taken
    split at taken
    · rename_i phase
      cases taken
      rw [phase] at fresh
      exact ⟨.inr fresh, held, raising, resend⟩
    · rename_i phase
      cases taken
      simp only [phase, Phase.Fresh, RaisesLast, reduceCtorEq, false_or] at fresh
      exact ⟨.inl fresh, held, raising, resend⟩
    · cases taken
  | fail =>
    simp only [State.step, State.fail] at taken
    split at taken
    · split at taken <;> cases taken
      exact ⟨trivial, fun other member => held other (List.mem_of_mem_erase member), raising,
        resend⟩
    · cases taken
      exact ⟨trivial, held, raising, resend⟩
    · cases taken
  | finish =>
    simp only [State.step, State.finish] at taken
    split at taken
    · rename_i phase
      rw [phase] at fresh
      exact fresh.elim
    · split at taken <;> cases taken
      exact ⟨trivial, fun other member => held other (List.mem_of_mem_erase member), raising,
        resend⟩
    · cases taken
  | exit =>
    simp only [State.step, State.exit] at taken
    split at taken <;> cases taken
    exact ⟨trivial, held, raising, resend⟩
  | enter source =>
    simp only [State.step, Option.ite_none_right_eq_some] at taken
    obtain ⟨⟨raises, there⟩, -⟩ := taken
    have kept := held source there.1
    cases source <;> simp [Resource.plain, Resource.raises] at kept raises
  | raise source | leave source =>
    simp [State.step, raising] at taken
  | deliver =>
    simp only [State.step, State.deliver] at taken
    split at taken
    · split at taken <;> cases taken
      · exact lines.2
      · exact ⟨fresh, held, raising, resend⟩
    · cases taken
  | resend => simp [State.step, resend] at taken
  | topHalf =>
    simp only [State.step, State.topHalfStep] at taken
    split at taken
    · cases taken
      unfold queueBottom
      split <;> exact ⟨fresh, held, raising, resend⟩
    · cases taken
      exact ⟨fresh, held, raising, resend⟩
    · cases taken
  | bottomStart =>
    simp only [State.step] at taken
    split at taken
    · cases taken
    · split at taken
      · cases taken
        exact ⟨fresh, held, raising, resend⟩
      · split at taken <;> cases taken
        exact ⟨fresh, held, raising, resend⟩
  | bottomReturn =>
    simp only [State.step, Option.ite_none_right_eq_some, Option.some.injEq] at taken
    obtain ⟨-, rfl⟩ := taken
    exact ⟨fresh, held, raising, resend⟩

theorem toRaise_of_last {rest : List Step} (last : RaisesLast rest) :
    (Phase.init rest).toRaise = 1 := by
  cases rest with
  | nil => exact last.elim
  | cons step rest => rfl

/-- The one raise of init is still to be made, pending or delivered. -/
structure Raised (past : List Event) (state : State) : Prop where
  most : past.count .deliver + state.pending.toNat + state.phase.toRaise ≤ 1
  up : state.phase.Up →
    past.count .deliver + state.pending.toNat + state.phase.toRaise = 1
  failed : ¬ state.phase.Up → past.count .exit = 0 →
    past.count .deliver + state.pending.toNat = 0
  lined : state.phase.Up → state.phase.toRaise = 0 → .irq ∈ state.held

variable {past : List Event}

/-- A step that neither raises nor delivers, from where init was to where it still is. -/
theorem Raised.keep (raised : state.Raised past) (up : state.phase.Up) (upNext : next.phase.Up)
    (delivers : past.count .deliver = (past ++ [event]).count .deliver)
    (pending : next.pending = state.pending)
    (toRaise : next.phase.toRaise = state.phase.toRaise)
    (held : ∀ resource ∈ state.held, resource ∈ next.held) : next.Raised (past ++ [event]) := by
  refine ⟨?_, ?_, fun down => absurd upNext down, ?_⟩
  · rw [← delivers, pending, toRaise]
    exact raised.most
  · intro _
    rw [← delivers, pending, toRaise]
    exact raised.up up
  · intro _ none
    exact held _ (raised.lined up (toRaise ▸ none))

/-- Once init has failed or exit was called nothing more is raised. -/
theorem Raised.down (raised : state.Raised past) (downNext : ¬ next.phase.Up)
    (delivers : past.count .deliver = (past ++ [event]).count .deliver)
    (pending : next.pending = state.pending) (toRaise : next.phase.toRaise = 0)
    (failed : (past ++ [event]).count .exit = 0 →
      past.count .deliver + state.pending.toNat = 0) : next.Raised (past ++ [event]) := by
  refine ⟨?_, fun up => absurd up downNext, ?_, fun up => absurd up downNext⟩
  · have most := raised.most
    rw [← delivers, pending, toRaise]
    omega
  · intro _ entered
    rw [← delivers, pending]
    exact failed entered

theorem Raised.call (raised : state.Raised past) (plain : state.Plain)
    (taken : state.call = some next) : next.Raised (past ++ [.call]) := by
  have fresh := plain.fresh
  have delivers : past.count .deliver = (past ++ [Event.call]).count .deliver := by simp
  unfold State.call at taken
  split at taken
  · rename_i phase
    cases taken
    exact raised.keep (by rw [phase]; trivial) trivial delivers rfl (by rw [phase]; rfl)
      fun _ member => member
  · rename_i phase
    simp only [phase, Phase.Fresh, RaisesLast, reduceCtorEq, false_or] at fresh
    cases taken
    exact raised.keep (by rw [phase]; trivial) trivial delivers rfl
      (by rw [phase, toRaise_of_last fresh.2]; rfl) fun _ member => List.mem_cons_of_mem _ member
  · rename_i phase
    cases taken
    exact raised.keep (by rw [phase]; trivial) trivial delivers rfl (by rw [phase]; rfl)
      fun _ member => List.mem_cons_of_mem _ member
  · rename_i phase
    simp only [phase, Phase.Fresh, RaisesLast, reduceCtorEq, false_or] at fresh
  · rename_i phase
    cases taken
    have down : ¬ state.phase.Up := by rw [phase]; exact id
    exact raised.down id delivers rfl rfl fun entered => raised.failed down (by simpa using entered)
  · rename_i phase
    cases taken
    have down : ¬ state.phase.Up := by rw [phase]; exact id
    exact raised.down id delivers giveUp_pending rfl fun entered =>
      raised.failed down (by simpa using entered)
  · cases taken

theorem Raised.succeed (raised : state.Raised past) (plain : state.Plain)
    (ledger : state.Ledger sample) (taken : state.succeed = some next) :
    next.Raised (past ++ [.succeed]) := by
  have fresh := plain.fresh
  have staged := ledger.staged
  have delivers : past.count .deliver = (past ++ [Event.succeed]).count .deliver := by simp
  unfold State.succeed at taken
  unfold Staged at staged
  split at taken
  · rename_i phase
    rw [phase] at fresh
    cases taken
    exact raised.keep (by rw [phase]; trivial) trivial delivers rfl
      (by rw [phase, toRaise_of_last fresh]; rfl) fun _ member => member
  · rename_i onFail rest phase
    simp only [phase, Phase.Fresh, RaisesLast, reduceCtorEq, false_or] at fresh staged
    subst fresh
    cases taken
    have once := raised.up (by rw [phase]; trivial)
    rw [phase] at once
    simp only [Phase.toRaise] at once
    refine ⟨?_, fun _ => ?_, fun down => absurd trivial down, fun _ _ => staged.1⟩
    · rw [← delivers]
      simp only [Bool.toNat_true, Phase.toRaise]
      omega
    · rw [← delivers]
      simp only [Bool.toNat_true, Phase.toRaise]
      omega
  · cases taken

/-- An init that fails has not raised. -/
theorem Raised.fail (raised : state.Raised past) (taken : state.fail sample = some next) :
    next.Raised (past ++ [.fail]) := by
  have delivers : past.count .deliver = (past ++ [Event.fail]).count .deliver := by simp
  unfold State.fail at taken
  split at taken
  · rename_i phase
    have once := raised.up (by rw [phase]; trivial)
    rw [phase] at once
    simp only [Phase.toRaise] at once
    split at taken <;> cases taken
    exact raised.down id delivers rfl rfl fun _ => by omega
  · rename_i phase
    have once := raised.up (by rw [phase]; trivial)
    rw [phase] at once
    simp only [Phase.toRaise] at once
    cases taken
    exact raised.down id delivers rfl rfl fun _ => by omega
  · cases taken

theorem Raised.deliver (raised : state.Raised past) (taken : state.deliver sample = some next) :
    next.Raised (past ++ [.deliver]) := by
  obtain ⟨most, up, failed, lined⟩ := raised
  have more : (past ++ [Event.deliver]).count .deliver = past.count .deliver + 1 := by simp
  have exits : (past ++ [Event.deliver]).count .exit = past.count .exit := by simp
  have pending : state.pending = true := by
    by_contra none
    simp [State.deliver, none] at taken
  have frame : next.phase = state.phase ∧ next.held = state.held ∧ next.pending = false := by
    simp only [State.deliver, pending, if_true] at taken
    split at taken <;> cases taken
    · obtain ⟨phase, held, -, -, kept, -⟩ :=
        handleSimpleIrq_rest sample { state with pending := false }
      exact ⟨phase, held, kept⟩
    · exact ⟨rfl, rfl, rfl⟩
  obtain ⟨phase, held, none⟩ := frame
  rw [pending, Bool.toNat_true] at most up failed
  refine ⟨?_, ?_, ?_, ?_⟩
  · rw [more, phase, none, Bool.toNat_false]
    omega
  · rw [more, phase, none, Bool.toNat_false]
    intro here
    have once := up here
    omega
  · rw [more, exits, phase, none, Bool.toNat_false]
    intro down entered
    have never := failed down entered
    omega
  · rwa [phase, held]

theorem Raised.step (raised : state.Raised past) (plain : state.Plain)
    (ledger : state.Ledger sample) (taken : state.step sample event = some next) :
    next.Raised (past ++ [event]) := by
  have fresh := plain.fresh
  have same : ∀ {other : State} {event : Event}, event ≠ .deliver → event ≠ .exit →
      other.phase = state.phase → other.pending = state.pending → other.held = state.held →
      other.Raised (past ++ [event]) := by
    intro other event notDeliver notExit phase pending held
    have delivers := @count_snoc_other past _ _ notDeliver
    have exits := @count_snoc_other past _ _ notExit
    obtain ⟨most, up, failed, lined⟩ := raised
    exact ⟨by rwa [delivers, phase, pending], by rwa [delivers, phase, pending],
      by rwa [delivers, exits, phase, pending], by rwa [phase, held]⟩
  cases event with
  | call => exact raised.call plain taken
  | succeed => exact raised.succeed plain ledger taken
  | fail => exact raised.fail taken
  | finish =>
    simp only [State.step, State.finish] at taken
    split at taken
    · rename_i phase
      rw [phase] at fresh
      exact fresh.elim
    · rename_i phase
      split at taken <;> cases taken
      have down : ¬ state.phase.Up := by rw [phase]; exact id
      exact raised.down id (by simp) rfl rfl fun entered =>
        raised.failed down (by simpa using entered)
    · cases taken
  | exit =>
    simp only [State.step, State.exit] at taken
    split at taken <;> cases taken
    exact raised.down id (by simp) rfl rfl fun entered => by simp at entered
  | enter source =>
    simp only [State.step, Option.ite_none_right_eq_some, Option.some.injEq] at taken
    obtain ⟨-, rfl⟩ := taken
    exact same (by simp) (by simp) rfl rfl rfl
  | raise source | leave source => simp [State.step, plain.raising] at taken
  | deliver => exact raised.deliver taken
  | resend => simp [State.step, plain.resend] at taken
  | topHalf =>
    simp only [State.step, State.topHalfStep] at taken
    split at taken
    · cases taken
      refine same (by simp) (by simp) ?_ ?_ ?_ <;> unfold queueBottom <;> split <;> rfl
    · cases taken
      exact same (by simp) (by simp) rfl rfl rfl
    · cases taken
  | bottomStart =>
    simp only [State.step] at taken
    split at taken
    · cases taken
    · split at taken
      · cases taken
        exact same (by simp) (by simp) rfl rfl rfl
      · split at taken <;> cases taken
        exact same (by simp) (by simp) rfl rfl rfl
  | bottomReturn =>
    simp only [State.step, Option.ite_none_right_eq_some, Option.some.injEq] at taken
    obtain ⟨-, rfl⟩ := taken
    exact same (by simp) (by simp) rfl rfl rfl

/-- The steps past the top halves started: each makes its steps and queues what bottom half
the sample has, and each that is queued starts and returns. -/
structure Handled (sample : Sample) (past : List Event) (state : State) (starts : Nat) :
    Prop where
  most : starts ≤ past.count .deliver
  up : state.phase.Up → starts = past.count .deliver
  topHalf : past.count .topHalf + stepsLeft state.topHalf = starts * sample.topSteps
  queued : past.count .bottomStart + state.queued.toNat + toQueue state.topHalf =
    starts * sample.bottoms
  returned : past.count .bottomReturn + state.running.toNat = past.count .bottomStart

/-- A module that is going down does not come up again. -/
theorem outside_up (taken : state.step sample event = some next) (outside : event.Outside)
    (up : next.phase.Up) (plain : state.Plain) : state.phase.Up := by
  cases event with
  | call =>
    simp only [State.step, State.call] at taken
    split at taken <;> cases taken
    all_goals first
      | exact False.elim up
      | rename_i phase
        rw [phase]
        trivial
  | succeed =>
    simp only [State.step, State.succeed] at taken
    split at taken <;> cases taken
    all_goals
      rename_i phase
      rw [phase]
      trivial
  | fail =>
    simp only [State.step, State.fail] at taken
    split at taken
    · split at taken <;> cases taken
      exact up.elim
    · cases taken
      exact up.elim
    · cases taken
  | finish =>
    simp only [State.step, State.finish] at taken
    split at taken
    · rename_i phase
      have fresh := plain.fresh
      rw [phase] at fresh
      exact fresh.elim
    · split at taken <;> cases taken
      exact up.elim
    · cases taken
  | exit =>
    simp only [State.step, State.exit] at taken
    split at taken <;> cases taken
    exact up.elim
  | enter | raise | leave =>
    simp only [State.step, Option.ite_none_right_eq_some, Option.some.injEq] at taken
    obtain ⟨-, rfl⟩ := taken
    exact up
  | deliver | resend | topHalf | bottomStart | bottomReturn => exact outside.elim

variable {starts : Nat}

theorem Handled.outside (handled : state.Handled sample past starts)
    (taken : state.step sample event = some next) (outside : event.Outside)
    (plain : state.Plain) : next.Handled sample (past ++ [event]) starts := by
  obtain ⟨most, up, topHalf, queued, returned⟩ := handled
  have same := outside_halves taken outside
  have unlike : ∀ other : Event, ¬ other.Outside →
      (past ++ [event]).count other = past.count other := by
    intro other inside
    exact count_snoc_other fun equal => inside (equal ▸ outside)
  refine ⟨?_, ?_, ?_, ?_, ?_⟩
  · rwa [unlike _ id]
  · intro upNext
    rw [unlike _ id]
    exact up (outside_up taken outside upNext plain)
  · rwa [unlike _ id, same.topHalf]
  · rwa [unlike _ id, same.queued, same.topHalf]
  · rwa [unlike _ id, unlike _ id, same.running]

/-- While the module is up its line and its mapping are in force. -/
theorem Raised.in_force (raised : state.Raised past) (plain : state.Plain)
    (sound : Sound sample state) (up : state.phase.Up) (made : state.phase.toRaise = 0) :
    state.InForce .irq ∧ state.InForce .mapping := by
  have line := raised.lined up made
  refine ⟨⟨line, ?_⟩, (sound.line_established line).1.1⟩
  cases phase : state.phase with
  | init | opening | loaded => exact nofun
  | releasing =>
    have fresh := plain.fresh
    rw [phase] at fresh
    exact fresh.elim
  | teardown | closing | returned =>
    rw [phase] at up
    exact up.elim

/-- An interrupt that starts no top half leaves the halves where they stood. -/
theorem Handled.lost (handled : state.Handled sample past starts)
    (same : state.SameHalves next) (down : ¬ next.phase.Up) :
    next.Handled sample (past ++ [.deliver]) starts := by
  obtain ⟨most, up, topHalf, queued, returned⟩ := handled
  refine ⟨?_, fun up => absurd up down, ?_, ?_, ?_⟩
  · rw [List.count_append]
    exact Nat.le_add_right_of_le most
  · simpa [count_snoc, same.topHalf] using topHalf
  · simpa [count_snoc, same.queued, same.topHalf] using queued
  · simpa [count_snoc, same.running] using returned

theorem Handled.started (handled : state.Handled sample past starts)
    (idle : state.topHalf = none) (first : starts = past.count .deliver) :
    ({ state with
      pending := false
      topHalf := some (if sample.bottom = none then .returning else .queueing) } :
        State).Handled sample (past ++ [.deliver]) (starts + 1) := by
  obtain ⟨most, up, topHalf, queued, returned⟩ := handled
  rw [idle] at topHalf queued
  have more : (past ++ [Event.deliver]).count .deliver = starts + 1 := by simp [first]
  refine ⟨Nat.le_of_eq more.symm, fun _ => more.symm, ?_, ?_, ?_⟩
  · rw [Nat.add_mul, Nat.one_mul, ← topHalf]
    unfold Sample.topSteps
    split <;> simp [stepsLeft]
  · rw [Nat.add_mul, Nat.one_mul, ← queued]
    unfold Sample.bottoms
    split <;> simp [toQueue]
  · simpa [count_snoc] using returned

/-- A delivery starts the top half while the module is up, later it may be lost. -/
theorem Handled.deliver (handled : state.Handled sample past starts)
    (raised : state.Raised past) (plain : state.Plain) (sound : Sound sample state)
    (taken : state.deliver sample = some next) :
    ∃ starts, next.Handled sample (past ++ [.deliver]) starts := by
  have pending : state.pending = true := by
    by_contra absent
    simp [State.deliver, absent] at taken
  have once := raised.most
  rw [pending, Bool.toNat_true] at once
  have zero : starts = 0 := by
    have most := handled.most
    omega
  have first : starts = past.count .deliver := by omega
  have idle : state.topHalf = none := by
    have steps := handled.topHalf
    rw [zero, Nat.zero_mul] at steps
    cases here : state.topHalf with
    | none => rfl
    | some point =>
      rw [here] at steps
      cases point <;> simp [stepsLeft] at steps
  have down : ¬ (state.InForce .irq ∧ state.InForce .mapping) → ¬ state.phase.Up :=
    fun absent up => absent (raised.in_force plain sound up (by omega))
  simp only [State.deliver, pending, if_true] at taken
  split at taken
  · rename_i mapped
    cases taken
    rcases handleSimpleIrq_cases sample { state with pending := false } with
      ⟨handling, -⟩ | ⟨-, starting⟩ | ⟨-, unlined, latched⟩
    · exact absurd idle handling
    · rw [starting]
      exact ⟨_, handled.started idle first⟩
    · rw [latched]
      refine ⟨starts, handled.lost ⟨rfl, rfl, rfl, rfl⟩ (down fun there => unlined ?_)⟩
      exact ⟨there.1, plain.line⟩
  · rename_i unmapped
    cases taken
    exact ⟨starts, handled.lost ⟨rfl, rfl, rfl, rfl⟩ (down fun there => unmapped there.2)⟩

/-- The two halves make their own steps. -/
theorem Handled.halves (handled : state.Handled sample past starts) (raised : state.Raised past)
    (placed : state.misqueued = false) (after : next.misqueued = false)
    (inside : event = .topHalf ∨ event = .bottomStart ∨ event = .bottomReturn)
    (taken : state.step sample event = some next) :
    next.Handled sample (past ++ [event]) starts := by
  obtain ⟨most, up, topHalf, queued, returned⟩ := handled
  rcases inside with rfl | rfl | rfl
  · simp only [State.step, State.topHalfStep] at taken
    split at taken
    · rename_i target here bottom
      have one : starts * sample.bottoms ≤ 1 := by
        have once := raised.most
        simp only [Sample.bottoms, bottom, reduceCtorEq, if_false]
        omega
      rw [here] at topHalf queued
      simp only [toQueue, stepsLeft] at topHalf queued
      have free : state.queued.toNat = 0 := by omega
      simp only [queueBottom] at taken
      split at taken <;> cases taken
      · refine ⟨by simpa [count_snoc] using most, by simpa [count_snoc] using up, ?_, ?_,
          by simpa [count_snoc] using returned⟩
        · simpa [count_snoc, stepsLeft, Nat.add_assoc] using topHalf
        · simpa [count_snoc, toQueue, free] using queued
      · cases after
    · rename_i here
      cases taken
      rw [here] at topHalf queued
      exact ⟨by simpa [count_snoc] using most, by simpa [count_snoc] using up,
        by simpa [count_snoc, stepsLeft] using topHalf,
        by simpa [count_snoc, toQueue] using queued, by simpa [count_snoc] using returned⟩
    · cases taken
  · simp only [State.step, placed] at taken
    split at taken
    · cases taken
    · rename_i idle
      split at taken
      · rename_i late
        cases taken
        rw [late] at queued
        simp only [Bool.not_eq_true] at idle
        rw [idle] at returned
        refine ⟨by simpa [count_snoc] using most, by simpa [count_snoc] using up,
          by simpa [count_snoc] using topHalf, ?_, ?_⟩
        · simpa [count_snoc] using queued
        · simpa [count_snoc] using returned
      · cases taken
  · simp only [State.step, Option.ite_none_right_eq_some, Option.some.injEq] at taken
    obtain ⟨running, rfl⟩ := taken
    rw [running] at returned
    exact ⟨by simpa [count_snoc] using most, by simpa [count_snoc] using up,
      by simpa [count_snoc] using topHalf, by simpa [count_snoc] using queued,
      by simpa [count_snoc] using returned⟩

theorem Handled.step (handled : state.Handled sample past starts) (raised : state.Raised past)
    (plain : state.Plain) (sound : Sound sample state)
    (taken : state.step sample event = some next) :
    ∃ starts, next.Handled sample (past ++ [event]) starts := by
  have after := (sound.step taken).placed
  cases event with
  | call | succeed | fail | finish | exit | enter | raise | leave =>
    exact ⟨starts, handled.outside taken trivial plain⟩
  | deliver => exact handled.deliver raised plain sound taken
  | resend => simp [State.step, plain.resend] at taken
  | topHalf => exact ⟨starts, handled.halves raised sound.placed after (.inl rfl) taken⟩
  | bottomStart =>
    exact ⟨starts, handled.halves raised sound.placed after (.inr (.inl rfl)) taken⟩
  | bottomReturn =>
    exact ⟨starts, handled.halves raised sound.placed after (.inr (.inr rfl)) taken⟩

end State

section Runs

variable {sample : Sample} {state : State} {events : List Event}

theorem reachable_plain (member : sample ∈ singleRaiseSamples)
    (reached : (lifecycle sample).Reachable state) : state.Plain := by
  refine Machine.Reachable.induction State.Plain ?_ ?_ reached
  · exact ⟨.inr (singleRaise_last member), nofun, rfl, rfl⟩
  · intro state event next before plain taken
    have orderly := orderly_samples sample (singleRaise_simulated member)
    exact plain.step (sound_reachable orderly before).ledger taken

/-- The counts of a whole run. -/
theorem run_handled (member : sample ∈ singleRaiseSamples)
    (onward : (lifecycle sample).run (lifecycle sample).initial events = some state) :
    state.Raised events ∧ ∃ starts, state.Handled sample events starts := by
  have whole := @Machine.run_history _ _ (lifecycle sample)
    (fun past state => state.Raised past ∧ ∃ starts, state.Handled sample past starts)
    ?_ [] events (.loading sample) state rfl ?_ onward
  · simpa using whole
  · intro past state event next early known taken
    obtain ⟨raised, starts, handled⟩ := known
    have reached : (lifecycle sample).Reachable state := ⟨past, early⟩
    have plain := reachable_plain member reached
    have sound := sound_reachable (orderly_samples sample (singleRaise_simulated member)) reached
    exact ⟨raised.step plain sound.ledger taken, handled.step raised plain sound taken⟩
  · have last := singleRaise_last member
    have once := State.toRaise_of_last last
    refine ⟨⟨?_, ?_, fun down => absurd trivial down, ?_⟩, 0, ?_⟩
    · simp [State.loading, once]
    · simp [State.loading, once]
    · intro _ made
      rw [State.loading, once] at made
      cases made
    · exact ⟨Nat.le_refl _, fun _ => rfl, by simp [State.loading, stepsLeft],
        by simp [State.loading, toQueue], rfl⟩

/-- The one raise of a load is delivered at most once. While the module is loaded it is not
lost: with nothing pending or under way each half has run, once and to its end. When exit has
returned both have run or neither has, and after a failed init neither has. -/
theorem raise_handled_once (member : sample ∈ singleRaiseSamples)
    (onward : (lifecycle sample).run (lifecycle sample).initial events = some state) :
    (events.count .deliver ≤ 1 ∧ events.count .topHalf ≤ sample.topSteps ∧
      events.count .bottomStart ≤ sample.bottoms) ∧
    (state.phase = .loaded → state.pending = false → state.topHalf = none →
      state.queued = false → state.running = false →
      events.count .topHalf = sample.topSteps ∧
        events.count .bottomReturn = sample.bottoms) ∧
    (state.phase = .returned →
      (events.count .topHalf = 0 ∧ events.count .bottomStart = 0) ∨
      (events.count .topHalf = sample.topSteps ∧
        events.count .bottomReturn = sample.bottoms)) ∧
    (state.phase = .returned → events.count .exit = 0 →
      events.count .deliver = 0 ∧ events.count .topHalf = 0) := by
  obtain ⟨raised, starts, handled⟩ := run_handled member onward
  obtain ⟨most, up, topHalf, queued, returned⟩ := handled
  have once := raised.most
  have bounds : starts * sample.topSteps ≤ sample.topSteps ∧
      starts * sample.bottoms ≤ sample.bottoms := by
    have single : starts ≤ 1 := by omega
    have scaled : ∀ steps, starts * steps ≤ steps := fun steps => by
      simpa using Nat.mul_le_mul_right steps single
    exact ⟨scaled _, scaled _⟩
  refine ⟨⟨by omega, by omega, by omega⟩, ?_, ?_, ?_⟩
  · intro loaded pending idle unqueued stopped
    have delivered := raised.up (by rw [loaded]; trivial)
    have same := up (by rw [loaded]; trivial)
    rw [loaded, pending] at delivered
    simp only [Bool.toNat_false, Phase.toRaise] at delivered
    have one : starts = 1 := by omega
    rw [idle, one, Nat.one_mul] at topHalf
    rw [idle, unqueued, one, Nat.one_mul] at queued
    rw [stopped] at returned
    exact ⟨topHalf, returned.trans queued⟩
  · intro ended
    have orderly := orderly_samples sample (singleRaise_simulated member)
    have quiet := (sound_reachable orderly ⟨events, onward⟩).silent
      (reachable_fitting (singleRaise_simulated member) ⟨events, onward⟩) ended
    rw [quiet.topHalf] at topHalf queued
    rw [quiet.queued] at queued
    rw [quiet.running] at returned
    have few : starts = 0 ∨ starts = 1 := by omega
    rcases few with rfl | rfl
    · rw [Nat.zero_mul] at topHalf queued
      exact .inl ⟨topHalf, queued⟩
    · rw [Nat.one_mul] at topHalf queued
      exact .inr ⟨topHalf, returned.trans queued⟩
  · intro ended noExit
    have never := raised.failed (by rw [ended]; exact id) noExit
    have zero : starts = 0 := by omega
    rw [zero, Nat.zero_mul] at topHalf
    exact ⟨by omega, by omega⟩

/-- Exit comes while the work of the one raise is queued. -/
def unloadOverWork : List Event :=
  [.call, .succeed, .call, .succeed, .call, .succeed, .call, .succeed, .succeed, .call,
    .deliver, .topHalf, .topHalf, .exit, .call, .finish, .call, .finish, .call, .finish, .call,
    .bottomStart, .bottomReturn, .finish, .call]

theorem raise_handled_once_over_work :
    ∃ state, (lifecycle workqueueSampleModule).run (lifecycle workqueueSampleModule).initial
        unloadOverWork = some state ∧ state.phase = .returned ∧
      unloadOverWork.count .topHalf = 2 ∧ unloadOverWork.count .bottomReturn = 1 := by
  have found : ((lifecycle workqueueSampleModule).run (lifecycle workqueueSampleModule).initial
      unloadOverWork).any (fun state => decide (state.phase = .returned)) = true := by
    decide +kernel
  obtain ⟨state, onward, passes⟩ := (Option.any_eq_true _ _).mp found
  have ended := of_decide_eq_true passes
  obtain ⟨-, -, both, -⟩ := raise_handled_once (by simp [singleRaiseSamples]) onward
  rcases both ended with ⟨unstarted, -⟩ | ⟨top, bottom⟩
  · cases unstarted
  · exact ⟨state, onward, ended, top, bottom⟩

end Runs

end KernelSamples.SimIrq

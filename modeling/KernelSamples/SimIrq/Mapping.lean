import KernelSamples.SimIrq.Order

/-! A queued irq_work that outlives the mapping of the line it was raised on. -/

namespace KernelSamples.SimIrq

open Lib

/-- A delivery that can happen now and finds no mapping: genirq is handed irq 0. -/
def State.StrayDelivery (sample : Sample) (state : State) : Prop :=
  state.step sample .deliver ≠ none ∧ ¬ state.InForce .mapping

instance (sample : Sample) (state : State) : Decidable (state.StrayDelivery sample) :=
  inferInstanceAs (Decidable (_ ∧ _))

/-- `irq_dispose_mapping` is called only with no raise still queued. -/
def DisposedIdle (state : State) (event : Event) : Prop :=
  event = .call → state.phase.nextRelease = some .mapping → state.pending = false

instance (state : State) (event : Event) : Decidable (DisposedIdle state event) :=
  inferInstanceAs (Decidable (_ → _ → _))

namespace State

variable {sample : Sample} {state next : State} {event : Event} {resource : Resource}

theorem deliver_enabled : state.step sample .deliver ≠ none ↔ state.pending = true := by
  change state.deliver sample ≠ none ↔ state.pending = true
  unfold State.deliver
  split
  · rename_i pending
    split <;> simp [pending]
  · rename_i idle
    simp [idle]

theorem handleSimpleIrq_ledger : state.SameLedger (state.handleSimpleIrq sample) := by
  unfold handleSimpleIrq
  split
  · exact ⟨rfl, rfl, rfl, rfl⟩
  · split <;> exact ⟨rfl, rfl, rfl, rfl⟩

theorem SameLedger.established (same : state.SameLedger next)
    (established : state.Established resource) : next.Established resource := by
  simpa only [Established, InForce, same.phase, same.held] using established

/-- What is established stays so through every step but the call of its release. -/
theorem Established.kept (sound : Sound sample state) (established : state.Established resource)
    (other : event = .call → state.phase.nextRelease ≠ some resource)
    (taken : state.step sample event = some next) : next.Established resource := by
  obtain ⟨⟨held, notClosing⟩, notOpening⟩ := established
  have established : state.Established resource := ⟨⟨held, notClosing⟩, notOpening⟩
  have nothing : none ≠ some resource := (Option.some_ne_none resource).symm
  cases event with
  | call =>
    have distinct := (sound.call taken).ledger.held_distinct
    have notNext := other rfl
    simp only [State.step, State.call] at taken
    split at taken <;> cases taken
    case h_2 => exact ⟨⟨List.mem_cons_of_mem _ held, nothing⟩, nothing⟩
    case h_3 =>
      refine ⟨⟨List.mem_cons_of_mem _ held, nothing⟩, ?_⟩
      intro opens
      exact (List.nodup_cons.mp distinct).1 (Option.some.inj opens ▸ held)
    case h_4 | h_6 =>
      rename_i phase
      refine ⟨⟨by simpa only [giveUp_held] using held, ?_⟩, nothing⟩
      intro closes
      exact notNext (by rw [phase]; exact closes)
    all_goals exact ⟨⟨held, nothing⟩, nothing⟩
  | succeed =>
    simp only [State.step, State.succeed] at taken
    split at taken <;> cases taken <;> exact ⟨⟨held, nothing⟩, nothing⟩
  | fail =>
    simp only [State.step, State.fail] at taken
    split at taken
    · rename_i opened _ _ phase
      split at taken <;> cases taken
      have apart : resource ≠ opened := by
        rintro rfl
        exact notOpening (by rw [phase]; rfl)
      exact ⟨⟨(List.mem_erase_of_ne apart).mpr held, nothing⟩, nothing⟩
    · cases taken
      exact ⟨⟨held, nothing⟩, nothing⟩
    · cases taken
  | finish =>
    simp only [State.step, State.finish] at taken
    split at taken
    case h_3 => cases taken
    all_goals
      rename_i closed _ phase
      split at taken <;> cases taken
      have apart : resource ≠ closed := by
        rintro rfl
        exact notClosing (by rw [phase]; rfl)
      exact ⟨⟨(List.mem_erase_of_ne apart).mpr held, nothing⟩, nothing⟩
  | exit =>
    simp only [State.step, State.exit] at taken
    split at taken <;> cases taken
    exact ⟨⟨held, nothing⟩, nothing⟩
  | deliver =>
    simp only [State.step, State.deliver] at taken
    split at taken
    · split at taken <;> cases taken
      · have cleared : { state with pending := false }.Established resource := established
        exact handleSimpleIrq_ledger.established cleared
      · exact established
    · cases taken
  | resend =>
    simp only [State.step, Option.ite_none_right_eq_some] at taken
    obtain ⟨-, resent⟩ := taken
    cases resent
    have cleared : { state with resend := false }.Established resource := established
    exact handleSimpleIrq_ledger.established cleared
  | topHalf =>
    simp only [State.step, State.topHalfStep, queueBottom] at taken
    split at taken
    · split at taken <;> cases taken <;> exact established
    · cases taken
      exact established
    · cases taken
  | bottomStart =>
    simp only [State.step] at taken
    (repeat' split at taken) <;> cases taken <;> exact established
  | enter | raise | leave | bottomReturn =>
    simp only [State.step, Option.ite_none_right_eq_some] at taken
    obtain ⟨-, moved⟩ := taken
    cases moved
    exact established

/-- Only a raise of the line queues the irq_work. -/
theorem Sound.raised (sound : Sound sample state) (taken : state.step sample event = some next)
    (pending : next.pending = true) :
    state.pending = true ∨ .irq ∈ state.held ∧ event ≠ .call := by
  cases event with
  | succeed =>
    have staged := sound.ledger.staged
    simp only [State.step, State.succeed] at taken
    unfold Staged at staged
    split at taken <;> cases taken
    · exact .inl pending
    · rename_i phase
      simp only [phase] at staged
      exact .inr ⟨staged.1, by simp⟩
  | raise source =>
    simp only [State.step, Option.ite_none_right_eq_some] at taken
    exact .inr ⟨sound.source_line taken.1, by simp⟩
  | call =>
    simp only [State.step, State.call] at taken
    left
    split at taken <;> cases taken <;> simpa only [giveUp_pending] using pending
  | deliver =>
    simp only [State.step, State.deliver, State.handleSimpleIrq] at taken
    (repeat' split at taken) <;> cases taken <;> cases pending
  | topHalf =>
    simp only [State.step, State.topHalfStep, queueBottom] at taken
    left
    (repeat' split at taken) <;> cases taken <;> exact pending
  | resend =>
    simp only [State.step, State.handleSimpleIrq] at taken
    left
    (repeat' split at taken) <;> cases taken <;> exact pending
  | fail =>
    simp only [State.step, State.fail] at taken
    left
    (repeat' split at taken) <;> cases taken <;> exact pending
  | finish =>
    simp only [State.step, State.finish, State.drop] at taken
    left
    (repeat' split at taken) <;> cases taken <;> exact pending
  | exit =>
    simp only [State.step, State.exit] at taken
    left
    split at taken <;> cases taken
    exact pending
  | enter | leave | bottomStart | bottomReturn =>
    simp only [State.step] at taken
    left
    (repeat' split at taken) <;> cases taken <;> exact pending

/-- A queued raise has an established mapping to be looked up. -/
structure Mapped (sample : Sample) (state : State) : Prop where
  sound : Sound sample state
  pendingMapped : state.pending = true → state.Established .mapping

theorem Mapped.step (mapped : Mapped sample state) (idle : DisposedIdle state event)
    (taken : state.step sample event = some next) : Mapped sample next := by
  refine ⟨mapped.sound.step taken, ?_⟩
  intro pending
  rcases mapped.sound.raised taken pending with before | ⟨line, other⟩
  · refine (mapped.pendingMapped before).kept mapped.sound ?_ taken
    intro call disposes
    rw [idle call disposes] at before
    cases before
  · exact (mapped.sound.line_established line).1.kept mapped.sound
      (fun call => absurd call other) taken

end State

theorem State.call_release {state : State} {resource : Resource}
    (releases : state.phase.nextRelease = some resource) :
    ∃ phase, phase.closes = some resource ∧
      state.call = some { state.giveUp resource with phase := phase } := by
  unfold Phase.nextRelease at releases
  split at releases
  · rename_i released rest phase
    cases releases
    exact ⟨.releasing resource rest, rfl, by simp only [State.call, phase]⟩
  · rename_i released rest phase
    cases releases
    exact ⟨.closing resource rest, rfl, by simp only [State.call, phase]⟩
  · cases releases

/-- A mapping disposed of with a raise queued leaves a delivery that finds none. -/
theorem State.stray_after_dispose {sample : Sample} {state : State}
    (disposes : state.phase.nextRelease = some .mapping) (pending : state.pending = true) :
    ∃ next, state.step sample .call = some next ∧ next.StrayDelivery sample := by
  obtain ⟨phase, closes, taken⟩ := State.call_release disposes
  refine ⟨_, taken, State.deliver_enabled.mpr ?_, fun there => there.2 closes⟩
  simpa only [State.giveUp_pending] using pending

/-- If every `irq_dispose_mapping` is called with no raise queued, no delivery is ever stray,
and one that is called with a raise queued leaves a stray delivery behind. -/
theorem deliveries_mapped {sample : Sample} (member : sample ∈ simulatedIrqSamples) :
    (∀ events state,
      (lifecycle sample).Guarded DisposedIdle (lifecycle sample).initial events →
      (lifecycle sample).run (lifecycle sample).initial events = some state →
      ¬ state.StrayDelivery sample) ∧
    (∀ state, (lifecycle sample).Reachable state →
      state.phase.nextRelease = some .mapping → state.pending = true →
      ∃ next, (lifecycle sample).step state .call = some next ∧ next.StrayDelivery sample) := by
  constructor
  · intro events state guarded onward stray
    have start : State.Mapped sample (lifecycle sample).initial :=
      ⟨.loading (orderly_samples sample member), nofun⟩
    have mapped := Machine.guarded_invariant (State.Mapped sample)
      (fun mapped allowed taken => mapped.step allowed taken) start guarded onward
    exact stray.2 (mapped.pendingMapped (State.deliver_enabled.mp stray.1)).1
  · intro state _ disposes pending
    exact State.stray_after_dispose disposes pending

/-- A raiser's raise is delivered before the module is unloaded. -/
def deliveredUnload : List Event :=
  [.call, .call, .succeed, .call, .succeed, .call, .succeed, .call, .succeed, .call,
    .enter .raiserThreads, .raise .raiserThreads, .leave .raiserThreads, .deliver, .topHalf,
    .topHalf, .exit, .call, .finish, .call, .finish, .call, .finish]

theorem deliveries_mapped_delivered_unload :
    ∃ state, (lifecycle interruptCompetitionModule).Reachable state ∧
      state.released.head? = some .mapping ∧
      ¬ state.StrayDelivery interruptCompetitionModule := by
  obtain ⟨state, idle, onward, passes⟩ :=
    (lifecycle interruptCompetitionModule).guarded_of_run DisposedIdle deliveredUnload
      (fun state => decide (state.released.head? = some .mapping)) (by decide +kernel)
  have member : interruptCompetitionModule ∈ simulatedIrqSamples := by
    simp [simulatedIrqSamples, bottomHalfSamples]
  exact ⟨state, ⟨deliveredUnload, onward⟩, of_decide_eq_true passes,
    (deliveries_mapped member).1 _ state idle onward⟩

/-- A load that raises the line, and an exit up to the return of `irq_dispose_mapping`. -/
def unloadBeforeDelivery : List Event :=
  [.call, .succeed, .call, .succeed, .call, .succeed, .succeed, .call, .exit, .call, .finish,
    .call, .finish]

/-- A raise of `hardirq` that is still queued then finds no mapping. -/
theorem delivery_after_dispose :
    ¬ ∀ sample ∈ simulatedIrqSamples, ∀ state, (lifecycle sample).Reachable state →
      ¬ state.StrayDelivery sample := by
  intro own
  obtain ⟨state, reached, passes⟩ := (lifecycle hardirqModule).reachable_of_run
    unloadBeforeDelivery (fun state => decide (state.StrayDelivery hardirqModule))
    (by decide +kernel)
  exact own hardirqModule List.mem_cons_self state reached (of_decide_eq_true passes)

end KernelSamples.SimIrq

import KernelSamples.Lib.Founded
import KernelSamples.SimIrq.Lifecycle

/-! The order rules of a sample's calls, checked on its lists, and the invariant they give
every interleaving. -/

namespace KernelSamples.SimIrq

open Lib

/-- What a resource needs while it is there: the mapping its domain, the line its mapping and
the target of its top half, a source of raises the line. -/
def Sample.uses (sample : Sample) : Resource → List Resource
  | .mapping => [.simDomain]
  | .irq => .mapping :: (sample.bottom.filter fun target => decide (target ≠ .irq)).toList
  | .irqDisable | .raiserThreads | .debugfs => [.irq]
  | _ => []

/-- From a point of init on: each resource is new and has what it uses, each failure unwinds
all that is held, newest first, and so does exit. -/
def Sample.Orderly (sample : Sample) (held acquired : List Resource) : List Step → Prop
  | [] => sample.exit = held
  | .setup resource :: rest =>
    resource ∉ acquired ∧ (∀ used ∈ sample.uses resource, used ∈ held) ∧
      sample.Orderly (resource :: held) (resource :: acquired) rest
  | .acquire resource onFail :: rest =>
    resource ∉ acquired ∧ (∀ used ∈ sample.uses resource, used ∈ held) ∧
      sample.unwind onFail = held ∧
      sample.Orderly (resource :: held) (resource :: acquired) rest
  | .raise onFail :: rest =>
    .irq ∈ held ∧ sample.unwind onFail = held ∧ sample.Orderly held acquired rest
  | .release resource :: rest =>
    held.head? = some resource ∧ sample.Orderly held.tail acquired rest

instance Sample.decidableOrderly (sample : Sample) :
    ∀ held acquired steps, Decidable (sample.Orderly held acquired steps)
  | held, _, [] => inferInstanceAs (Decidable (sample.exit = held))
  | held, acquired, .setup resource :: rest =>
    have := sample.decidableOrderly (resource :: held) (resource :: acquired) rest
    inferInstanceAs (Decidable (_ ∧ _ ∧ _))
  | held, acquired, .acquire resource _ :: rest =>
    have := sample.decidableOrderly (resource :: held) (resource :: acquired) rest
    inferInstanceAs (Decidable (_ ∧ _ ∧ _ ∧ _))
  | held, acquired, .raise _ :: rest =>
    have := sample.decidableOrderly held acquired rest
    inferInstanceAs (Decidable (_ ∧ _ ∧ _))
  | held, acquired, .release _ :: rest =>
    have := sample.decidableOrderly held.tail acquired rest
    inferInstanceAs (Decidable (_ ∧ _))

theorem orderly_samples :
    ∀ sample ∈ simulatedIrqSamples, sample.Orderly [] [] sample.init := by
  decide

theorem orderly_bottomHalf {sample : Sample} (member : sample ∈ bottomHalfSamples) :
    sample.Orderly [] [] sample.init :=
  orderly_samples sample (List.mem_append_right _ member)

/-- What is held once the acquiring call under way is left out. -/
def State.settled (state : State) : List Resource :=
  match state.phase.opens with
  | some resource => state.held.erase resource
  | none => state.held

/-- What the thread still has to do matches what is held. -/
def State.Staged (sample : Sample) (state : State) : Prop :=
  match state.phase with
  | .init rest => sample.Orderly state.held state.acquired rest
  | .opening resource onFail rest =>
    state.held = resource :: sample.unwind onFail ∧ resource ∉ state.acquired ∧
      sample.Orderly state.held (resource :: state.acquired) rest
  | .releasing resource rest =>
    ∃ below, state.held = resource :: below ∧ sample.Orderly below state.acquired rest
  | .loaded => sample.exit = state.held
  | .teardown rest => rest = state.held
  | .closing resource rest => state.held = resource :: rest
  | .returned => state.held = []

/-- The thread's side of the invariant: what is held rests on older resources, and together
with what was released it is what was acquired, each once. -/
structure State.Ledger (sample : Sample) (state : State) : Prop where
  staged : state.Staged sample
  founded : Founded sample.uses state.held
  distinct : state.acquired.Nodup
  accounted : state.acquired.Perm (state.released ++ state.settled)

/-- No step but the thread's own touches these. -/
structure State.SameLedger (state next : State) : Prop where
  phase : next.phase = state.phase
  held : next.held = state.held
  acquired : next.acquired = state.acquired
  released : next.released = state.released

namespace State

variable {sample : Sample} {state next : State} {resource used : Resource} {event : Event}

theorem SameLedger.keeps (same : state.SameLedger next) (ledger : state.Ledger sample) :
    next.Ledger sample where
  staged := by
    simpa only [Staged, same.phase, same.held, same.acquired] using ledger.staged
  founded := by simpa only [same.held] using ledger.founded
  distinct := by simpa only [same.acquired] using ledger.distinct
  accounted := by
    simpa only [settled, same.phase, same.held, same.acquired, same.released]
      using ledger.accounted

@[simp] theorem giveUp_held : (state.giveUp resource).held = state.held := by
  unfold giveUp
  split <;> rfl

@[simp] theorem giveUp_acquired : (state.giveUp resource).acquired = state.acquired := by
  unfold giveUp
  split <;> rfl

@[simp] theorem giveUp_released : (state.giveUp resource).released = state.released := by
  unfold giveUp
  split <;> rfl

@[simp] theorem giveUp_pending : (state.giveUp resource).pending = state.pending := by
  unfold giveUp
  split <;> rfl

/-- Only the newest resource is being acquired or released. -/
theorem Ledger.busy_top (ledger : state.Ledger sample)
    (engaged : state.phase.opens = some resource ∨ state.phase.closes = some resource) :
    ∃ below, state.held = resource :: below := by
  have staged := ledger.staged
  unfold Staged at staged
  cases phase : state.phase with
  | opening opened onFail rest =>
    simp only [phase, Phase.opens, Phase.closes, Option.some.injEq, reduceCtorEq, or_false]
      at engaged staged
    exact ⟨_, engaged ▸ staged.1⟩
  | releasing closed rest =>
    simp only [phase, Phase.opens, Phase.closes, Option.some.injEq, reduceCtorEq, false_or]
      at engaged staged
    obtain ⟨below, top, -⟩ := staged
    exact ⟨below, engaged ▸ top⟩
  | closing closed rest =>
    simp only [phase, Phase.opens, Phase.closes, Option.some.injEq, reduceCtorEq, false_or]
      at engaged staged
    exact ⟨rest, engaged ▸ staged⟩
  | _ => simp [phase, Phase.opens, Phase.closes] at engaged

theorem Ledger.settled_distinct (ledger : state.Ledger sample) : state.settled.Nodup :=
  (List.nodup_append.mp (ledger.accounted.nodup_iff.mp ledger.distinct)).2.1

theorem Ledger.held_distinct (ledger : state.Ledger sample) : state.held.Nodup := by
  have settledDistinct := ledger.settled_distinct
  cases opens : state.phase.opens with
  | none => simpa only [settled, opens] using settledDistinct
  | some opened =>
    obtain ⟨below, top⟩ := ledger.busy_top (.inl opens)
    have staged := ledger.staged
    unfold Staged at staged
    cases phase : state.phase with
    | opening resource onFail rest =>
      simp only [phase] at staged
      obtain ⟨shape, fresh, -⟩ := staged
      simp only [settled, phase, Phase.opens, shape, List.erase_cons_head] at settledDistinct
      rw [shape, List.nodup_cons]
      refine ⟨fun present => fresh ?_, settledDistinct⟩
      have within : resource ∈ state.released ++ state.settled := by
        simp only [settled, phase, Phase.opens, shape, List.erase_cons_head]
        exact List.mem_append_right _ present
      exact ledger.accounted.mem_iff.mpr within
    | _ => simp [phase, Phase.opens] at opens

/-- What something held uses is established. -/
theorem Ledger.established (ledger : state.Ledger sample) {user : Resource}
    (present : user ∈ state.held) (needed : used ∈ sample.uses user) :
    state.Established used := by
  have below := ledger.founded.below present needed
  have notTop : ∀ {top}, state.phase.opens = some top ∨ state.phase.closes = some top →
      some top ≠ some used := by
    intro top engaged same
    obtain ⟨rest, shape⟩ := ledger.busy_top engaged
    have distinct := ledger.held_distinct
    rw [shape] at distinct below
    exact (List.nodup_cons.mp distinct).1 (Option.some.inj same ▸ below)
  refine ⟨⟨List.mem_of_mem_tail below, ?_⟩, ?_⟩
  · intro closes
    exact notTop (.inr closes) rfl
  · intro opens
    exact notTop (.inl opens) rfl

private theorem acquired_one {acquired released held : List Resource}
    (accounted : acquired.Perm (released ++ held)) :
    (resource :: acquired).Perm (released ++ resource :: held) :=
  (accounted.cons resource).trans List.perm_middle.symm

private theorem released_one {acquired released below : List Resource}
    (accounted : acquired.Perm (released ++ resource :: below)) :
    acquired.Perm (resource :: released ++ below) :=
  accounted.trans List.perm_middle

theorem Ledger.call (ledger : state.Ledger sample) (taken : state.call = some next) :
    next.Ledger sample := by
  obtain ⟨staged, founded, distinct, accounted⟩ := ledger
  unfold State.call at taken
  unfold Staged at staged
  split at taken
  case h_7 => cases taken
  all_goals
    rename_i phase
    simp only [phase, settled, Phase.opens] at staged accounted
    cases taken
  · exact ⟨staged, founded, distinct, accounted⟩
  · obtain ⟨fresh, based, orderly⟩ := staged
    exact ⟨orderly, ⟨based, founded⟩, List.nodup_cons.mpr ⟨fresh, distinct⟩,
      acquired_one accounted⟩
  · obtain ⟨fresh, based, unwound, orderly⟩ := staged
    refine ⟨⟨by rw [unwound], fresh, orderly⟩, ⟨based, founded⟩, distinct, ?_⟩
    simpa only [settled, Phase.opens, List.erase_cons_head] using accounted
  · obtain ⟨top, orderly⟩ := staged
    obtain ⟨below, shape⟩ := List.head?_eq_some_iff.mp top
    rw [shape] at orderly
    refine ⟨⟨below, ?_, ?_⟩, ?_, ?_, ?_⟩
    · simpa only [giveUp_held] using shape
    · simpa only [giveUp_acquired, List.tail_cons] using orderly
    · simpa only [giveUp_held] using founded
    · simpa only [giveUp_acquired] using distinct
    · simpa only [settled, Phase.opens, giveUp_acquired, giveUp_released, giveUp_held]
        using accounted
  · exact ⟨staged.symm, founded, distinct, accounted⟩
  · refine ⟨?_, ?_, ?_, ?_⟩
    · simpa only [Staged, giveUp_held] using staged.symm
    · simpa only [giveUp_held] using founded
    · simpa only [giveUp_acquired] using distinct
    · simpa only [settled, Phase.opens, giveUp_acquired, giveUp_released, giveUp_held]
        using accounted

theorem Ledger.succeed (ledger : state.Ledger sample) (taken : state.succeed = some next) :
    next.Ledger sample := by
  obtain ⟨staged, founded, distinct, accounted⟩ := ledger
  unfold State.succeed at taken
  unfold Staged at staged
  split at taken
  case h_3 => cases taken
  all_goals
    rename_i phase
    simp only [phase, settled, Phase.opens] at staged accounted
    cases taken
  · obtain ⟨shape, fresh, orderly⟩ := staged
    rw [shape, List.erase_cons_head] at accounted
    refine ⟨orderly, founded, List.nodup_cons.mpr ⟨fresh, distinct⟩, ?_⟩
    simpa only [settled, Phase.opens, shape] using acquired_one accounted
  · exact ⟨staged.2.2, founded, distinct, accounted⟩

theorem Ledger.fail (ledger : state.Ledger sample) (taken : state.fail sample = some next) :
    next.Ledger sample := by
  obtain ⟨staged, founded, distinct, accounted⟩ := ledger
  unfold State.fail at taken
  unfold Staged at staged
  split at taken
  case h_3 => cases taken
  · rename_i resource onFail rest phase
    simp only [phase, settled, Phase.opens] at staged accounted
    obtain ⟨shape, fresh, orderly⟩ := staged
    rw [shape] at founded accounted
    split at taken <;> cases taken
    have left : state.held.erase resource = sample.unwind onFail := by
      rw [shape, List.erase_cons_head]
    refine ⟨left.symm, ?_, distinct, ?_⟩
    · simpa only [left] using founded.2
    · simpa only [settled, Phase.opens, left, List.erase_cons_head] using accounted
  · rename_i onFail rest phase
    simp only [phase, settled, Phase.opens] at staged accounted
    cases taken
    exact ⟨staged.2.1, founded, distinct, accounted⟩

theorem Ledger.finish (ledger : state.Ledger sample) (taken : state.finish sample = some next) :
    next.Ledger sample := by
  obtain ⟨staged, founded, distinct, accounted⟩ := ledger
  unfold State.finish at taken
  unfold Staged at staged
  split at taken
  case h_3 => cases taken
  · rename_i resource rest phase
    simp only [phase, settled, Phase.opens] at staged accounted
    obtain ⟨below, shape, orderly⟩ := staged
    rw [shape] at founded accounted
    split at taken <;> cases taken
    have left : state.held.erase resource = below := by rw [shape, List.erase_cons_head]
    refine ⟨?_, ?_, distinct, ?_⟩
    · simpa only [Staged, drop, left] using orderly
    · simpa only [drop, left] using founded.2
    · simpa only [settled, Phase.opens, drop, left] using released_one accounted
  · rename_i resource rest phase
    simp only [phase, settled, Phase.opens] at staged accounted
    rw [staged] at founded accounted
    split at taken <;> cases taken
    have left : state.held.erase resource = rest := by rw [staged, List.erase_cons_head]
    refine ⟨left.symm, ?_, distinct, ?_⟩
    · simpa only [drop, left] using founded.2
    · simpa only [settled, Phase.opens, drop, left] using released_one accounted

theorem Ledger.exit (ledger : state.Ledger sample) (taken : state.exit sample = some next) :
    next.Ledger sample := by
  obtain ⟨staged, founded, distinct, accounted⟩ := ledger
  unfold State.exit at taken
  unfold Staged at staged
  split at taken <;> cases taken
  rename_i phase
  simp only [phase, settled, Phase.opens] at staged accounted
  exact ⟨staged, founded, distinct, accounted⟩

/-- The invariant of every interleaving: whatever is under way has its resource held, only
contexts of a source raise, and nothing was queued on what is not there. -/
structure Sound (sample : Sample) (state : State) : Prop where
  ledger : state.Ledger sample
  pendingHeld : state.pending = true → .simDomain ∈ state.held
  topHeld : state.topHalf ≠ none → .irq ∈ state.held
  bottomHeld : state.queued = true ∨ state.running = true →
    ∀ target, sample.bottom = some target → target ∈ state.held
  raisingHeld : ∀ source ∈ state.raising, source.raises = true ∧ source ∈ state.held
  placed : state.misqueued = false

theorem Sound.loading (orderly : sample.Orderly [] [] sample.init) :
    Sound sample (.loading sample) where
  ledger := ⟨orderly, trivial, List.nodup_nil, List.Perm.refl _⟩
  pendingHeld := by simp [State.loading]
  topHeld := by simp [State.loading]
  bottomHeld := by simp [State.loading]
  raisingHeld := by simp [State.loading]
  placed := rfl

theorem Sound.busyHeld (sound : Sound sample state) (busy : state.Busy sample resource) :
    resource ∈ state.held := by
  rcases busy with ⟨rfl, pending⟩ | ⟨rfl, top⟩ | ⟨target, bottom⟩ | raising
  · exact sound.pendingHeld pending
  · exact sound.topHeld top
  · exact sound.bottomHeld bottom resource target
  · exact (sound.raisingHeld resource raising).2

/-- Whoever can raise the line holds it, so its mapping and its domain are established. -/
theorem Sound.line_established (sound : Sound sample state) (line : .irq ∈ state.held) :
    state.Established .mapping ∧ state.Established .simDomain := by
  have mapping : state.Established .mapping :=
    sound.ledger.established line (by simp [Sample.uses])
  exact ⟨mapping, sound.ledger.established mapping.1.1 (by simp [Sample.uses])⟩

theorem Sound.source_line (sound : Sound sample state) (raising : resource ∈ state.raising) :
    .irq ∈ state.held := by
  obtain ⟨source, present⟩ := sound.raisingHeld resource raising
  apply sound.ledger.founded.closed present
  cases resource <;> simp [Sample.uses, Resource.raises] at source ⊢

/-- The target of the top half is there as long as the line is. -/
theorem Sound.target_established (sound : Sound sample state) (line : .irq ∈ state.held)
    (target : sample.bottom = some used) : used = .irq ∨ state.Established used := by
  by_cases own : used = .irq
  · exact .inl own
  · exact .inr (sound.ledger.established line (by simp [Sample.uses, target, own]))

/-- What fails to be acquired or is released is idle, so all that is under way keeps its
resource. -/
theorem Sound.without (sound : Sound sample state) (idle : ¬ state.Busy sample resource)
    (ledger : next.Ledger sample) (held : next.held = state.held.erase resource)
    (activity : next = { state with
      phase := next.phase, held := next.held, acquired := next.acquired,
      released := next.released }) : Sound sample next := by
  have keeps : ∀ {other}, state.Busy sample other → other ∈ next.held := by
    intro other busy
    rw [held]
    refine (List.mem_erase_of_ne ?_).mpr (sound.busyHeld busy)
    rintro rfl
    exact idle busy
  rw [activity] at ledger ⊢
  refine ⟨ledger, ?_, ?_, ?_, ?_, sound.placed⟩
  · intro pending
    exact keeps (.inl ⟨rfl, pending⟩)
  · intro top
    exact keeps (.inr (.inl ⟨rfl, top⟩))
  · intro bottom target same
    exact keeps (.inr (.inr (.inl ⟨same, bottom⟩)))
  · intro source raising
    exact ⟨(sound.raisingHeld source raising).1, keeps (.inr (.inr (.inr raising)))⟩

theorem Sound.giveUp (sound : Sound sample state) : Sound sample (state.giveUp resource) := by
  unfold State.giveUp
  split
  · have same : state.SameLedger { state with latched := false, resend := true } :=
      ⟨rfl, rfl, rfl, rfl⟩
    exact ⟨same.keeps sound.ledger, sound.pendingHeld, sound.topHeld, sound.bottomHeld,
      sound.raisingHeld, sound.placed⟩
  · exact sound

theorem Sound.call (sound : Sound sample state) (taken : state.call = some next) :
    Sound sample next := by
  have ledger := sound.ledger.call taken
  unfold State.call at taken
  split at taken <;> cases taken
  case h_2 | h_3 =>
    refine ⟨ledger, ?_, ?_, ?_, ?_, sound.placed⟩
    · intro pending
      exact List.mem_cons_of_mem _ (sound.pendingHeld pending)
    · intro top
      exact List.mem_cons_of_mem _ (sound.topHeld top)
    · intro bottom target same
      exact List.mem_cons_of_mem _ (sound.bottomHeld bottom target same)
    · intro source raising
      exact (sound.raisingHeld source raising).imp_right (List.mem_cons_of_mem _)
  case h_4 | h_6 =>
    exact ⟨ledger, sound.giveUp.pendingHeld, sound.giveUp.topHeld, sound.giveUp.bottomHeld,
      sound.giveUp.raisingHeld, sound.giveUp.placed⟩
  all_goals
    exact ⟨ledger, sound.pendingHeld, sound.topHeld, sound.bottomHeld, sound.raisingHeld,
      sound.placed⟩

theorem Sound.succeed (sound : Sound sample state) (taken : state.succeed = some next) :
    Sound sample next := by
  have ledger := sound.ledger.succeed taken
  have staged := sound.ledger.staged
  unfold State.succeed at taken
  unfold Staged at staged
  split at taken <;> cases taken
  · exact ⟨ledger, sound.pendingHeld, sound.topHeld, sound.bottomHeld, sound.raisingHeld,
      sound.placed⟩
  · rename_i onFail rest phase
    simp only [phase] at staged
    have domain := (sound.line_established staged.1).2.1.1
    exact ⟨ledger, fun _ => domain, sound.topHeld, sound.bottomHeld, sound.raisingHeld,
      sound.placed⟩

theorem Sound.fail (sound : Sound sample state) (taken : state.fail sample = some next) :
    Sound sample next := by
  have ledger := sound.ledger.fail taken
  unfold State.fail at taken
  split at taken
  · split at taken <;> cases taken
    rename_i idle
    exact sound.without idle ledger rfl rfl
  · cases taken
    exact ⟨ledger, sound.pendingHeld, sound.topHeld, sound.bottomHeld, sound.raisingHeld,
      sound.placed⟩
  · cases taken

theorem Sound.finish (sound : Sound sample state) (taken : state.finish sample = some next) :
    Sound sample next := by
  have ledger := sound.ledger.finish taken
  unfold State.finish at taken
  split at taken
  case h_3 => cases taken
  all_goals
    split at taken <;> cases taken
    rename_i idle
    exact sound.without idle ledger rfl rfl

theorem Sound.exit (sound : Sound sample state) (taken : state.exit sample = some next) :
    Sound sample next := by
  have ledger := sound.ledger.exit taken
  unfold State.exit at taken
  split at taken <;> cases taken
  exact ⟨ledger, sound.pendingHeld, sound.topHeld, sound.bottomHeld, sound.raisingHeld,
    sound.placed⟩

/-- A handler starts only on a line in force. -/
theorem Sound.handleSimpleIrq (sound : Sound sample state) :
    Sound sample (state.handleSimpleIrq sample) := by
  have same : ∀ {other : State}, state.SameLedger other → other.Ledger sample :=
    fun frame => frame.keeps sound.ledger
  unfold State.handleSimpleIrq
  split
  · exact sound
  · split
    · rename_i line
      exact ⟨same ⟨rfl, rfl, rfl, rfl⟩, sound.pendingHeld, fun _ => line.1.1, sound.bottomHeld,
        sound.raisingHeld, sound.placed⟩
    · exact ⟨same ⟨rfl, rfl, rfl, rfl⟩, sound.pendingHeld, sound.topHeld, sound.bottomHeld,
        sound.raisingHeld, sound.placed⟩

theorem Sound.deliver (sound : Sound sample state) (taken : state.deliver sample = some next) :
    Sound sample next := by
  have same : state.SameLedger { state with pending := false } := ⟨rfl, rfl, rfl, rfl⟩
  have idle : Sound sample { state with pending := false } :=
    ⟨same.keeps sound.ledger, nofun, sound.topHeld, sound.bottomHeld, sound.raisingHeld,
      sound.placed⟩
  unfold State.deliver at taken
  split at taken
  · split at taken <;> cases taken
    · exact idle.handleSimpleIrq
    · exact idle
  · cases taken

theorem Sound.topHalfStep (sound : Sound sample state)
    (taken : state.topHalfStep sample = some next) : Sound sample next := by
  have same : ∀ {other : State}, state.SameLedger other → other.Ledger sample :=
    fun frame => frame.keeps sound.ledger
  unfold State.topHalfStep at taken
  split at taken
  · rename_i target point bottom
    have line : .irq ∈ state.held := sound.topHeld (by simp [point])
    have there : target = .irq ∨ state.InForce target :=
      (sound.target_established line bottom).imp_right And.left
    simp only [queueBottom, there, if_true] at taken
    cases taken
    refine ⟨same ⟨rfl, rfl, rfl, rfl⟩, sound.pendingHeld, fun _ => line, ?_,
      sound.raisingHeld, sound.placed⟩
    intro _ other chosen
    obtain rfl := Option.some.inj (bottom.symm.trans chosen)
    rcases there with rfl | inForce
    · exact line
    · exact inForce.1
  · cases taken
    exact ⟨same ⟨rfl, rfl, rfl, rfl⟩, sound.pendingHeld, fun running => absurd rfl running,
      sound.bottomHeld, sound.raisingHeld, sound.placed⟩
  · cases taken

/-- Every step keeps the invariant. -/
theorem Sound.step (sound : Sound sample state) (taken : state.step sample event = some next) :
    Sound sample next := by
  have same : ∀ {other : State}, state.SameLedger other → other.Ledger sample :=
    fun frame => frame.keeps sound.ledger
  cases event with
  | call => exact sound.call taken
  | succeed => exact sound.succeed taken
  | fail => exact sound.fail taken
  | finish => exact sound.finish taken
  | exit => exact sound.exit taken
  | deliver => exact sound.deliver taken
  | topHalf => exact sound.topHalfStep taken
  | enter source =>
    simp only [State.step, Option.ite_none_right_eq_some] at taken
    obtain ⟨⟨raises, inForce⟩, entered⟩ := taken
    cases entered
    refine ⟨same ⟨rfl, rfl, rfl, rfl⟩, sound.pendingHeld, sound.topHeld, sound.bottomHeld, ?_,
      sound.placed⟩
    intro other raising
    rcases List.mem_cons.mp raising with rfl | raising
    · exact ⟨raises, inForce.1⟩
    · exact sound.raisingHeld other raising
  | raise source =>
    simp only [State.step, Option.ite_none_right_eq_some] at taken
    obtain ⟨raising, raised⟩ := taken
    cases raised
    have domain := (sound.line_established (sound.source_line raising)).2.1.1
    exact ⟨same ⟨rfl, rfl, rfl, rfl⟩, fun _ => domain, sound.topHeld, sound.bottomHeld,
      sound.raisingHeld, sound.placed⟩
  | leave source =>
    simp only [State.step, Option.ite_none_right_eq_some] at taken
    obtain ⟨-, left⟩ := taken
    cases left
    exact ⟨same ⟨rfl, rfl, rfl, rfl⟩, sound.pendingHeld, sound.topHeld, sound.bottomHeld,
      fun other raising => sound.raisingHeld other (List.mem_of_mem_erase raising),
      sound.placed⟩
  | resend =>
    simp only [State.step, Option.ite_none_right_eq_some] at taken
    obtain ⟨-, resent⟩ := taken
    cases resent
    have cleared : Sound sample { state with resend := false } :=
      ⟨same ⟨rfl, rfl, rfl, rfl⟩, sound.pendingHeld, sound.topHeld, sound.bottomHeld,
        sound.raisingHeld, sound.placed⟩
    exact cleared.handleSimpleIrq
  | bottomStart =>
    simp only [State.step, sound.placed] at taken
    split at taken
    · cases taken
    · split at taken
      · rename_i queued
        cases taken
        exact ⟨same ⟨rfl, rfl, rfl, rfl⟩, sound.pendingHeld, sound.topHeld,
          fun _ => sound.bottomHeld (.inl queued), sound.raisingHeld, rfl⟩
      · cases taken
  | bottomReturn =>
    simp only [State.step, Option.ite_none_right_eq_some] at taken
    obtain ⟨running, returned⟩ := taken
    cases returned
    exact ⟨same ⟨rfl, rfl, rfl, rfl⟩, sound.pendingHeld, sound.topHeld,
      fun _ => sound.bottomHeld (.inr running), sound.raisingHeld, sound.placed⟩

end State

/-- Every state of every interleaving is sound. -/
theorem sound_reachable {sample : Sample} {state : State}
    (orderly : sample.Orderly [] [] sample.init) (reached : (lifecycle sample).Reachable state) :
    State.Sound sample state :=
  Machine.Reachable.invariant (State.Sound sample) (.loading orderly)
    (fun sound taken => sound.step taken) reached

end KernelSamples.SimIrq

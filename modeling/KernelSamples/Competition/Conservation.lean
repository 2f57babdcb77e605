import KernelSamples.Competition.Raiser

/-! Conservation of the shared counter over whole runs of the module. -/

namespace KernelSamples.Competition

open Lib

variable {Cpu : Type} {width : LongWidth}

/-- Calls already made by a raiser that has not yet counted the last of them. -/
def RaiserPoint.uncounted : RaiserPoint → Nat
  | .count => 1
  | _ => 0

/-- The raiser has passed the test of its loop and not yet counted the raise. -/
def RaiserPoint.admitted : RaiserPoint → Bool
  | .raise | .count => true
  | _ => false

namespace InterruptCompetition

/-- One CPU's raise count bounds its calls, and a CPU whose raiser never ran made none. -/
structure Rationed (state : InterruptCompetition Cpu) (cpu : Cpu) : Prop where
  called : state.raises cpu = state.gsRaiseCount cpu + (state.raiser cpu).uncounted
  admitted : (state.raiser cpu).admitted = true → state.gsRaiseCount cpu < raisesPerCpu
  bounded : state.gsRaiseCount cpu ≤ raisesPerCpu
  idle : state.ran cpu = false → (state.raiser cpu).admitted = false ∧ state.raises cpu = 0

theorem Rationed.raises_le {state : InterruptCompetition Cpu} {cpu : Cpu}
    (rationed : state.Rationed cpu) : state.raises cpu ≤ raisesPerCpu := by
  obtain ⟨called, admitted, bounded, -⟩ := rationed
  cases point : state.raiser cpu with
  | count =>
    have room := admitted (by rw [point]; rfl)
    rw [called, point]
    exact room
  | parked | loop | raise | report | sleep =>
    rw [called, point]
    exact bounded

/-- Other CPUs do not matter to one CPU's ration. -/
theorem Rationed.frame {state next : InterruptCompetition Cpu} {cpu : Cpu}
    (rationed : state.Rationed cpu) (raises : next.raises cpu = state.raises cpu)
    (counted : next.gsRaiseCount cpu = state.gsRaiseCount cpu)
    (point : next.raiser cpu = state.raiser cpu) (ran : next.ran cpu = state.ran cpu) :
    next.Rationed cpu := by
  obtain ⟨called, admitted, bounded, idle⟩ := rationed
  exact ⟨by rw [raises, counted, point, called], by rw [counted, point]; exact admitted,
    by rw [counted]; exact bounded, by rw [ran, point, raises]; exact idle⟩

variable [Fintype Cpu]

/-- Calls that raised the line, over all CPUs. -/
def raiseCalls (state : InterruptCompetition Cpu) : Nat := tally id state.raises

/-- CPUs whose raiser ever ran. -/
def everRan (state : InterruptCompetition Cpu) : Finset Cpu :=
  Finset.univ.filter fun cpu => state.ran cpu = true

/-- Every arrival and the pending bit were paid for by a call that raised the line. -/
structure Paid (state : InterruptCompetition Cpu) : Prop where
  rationed : ∀ cpu, state.Rationed cpu
  arrived : state.handlers.arrivals + state.pending.toNat ≤ state.raiseCalls

theorem Paid.raiseCalls_le {state : InterruptCompetition Cpu} (paid : state.Paid) :
    state.raiseCalls ≤ raisesPerCpu * state.everRan.card := by
  refine tally_le_card id state.raises raisesPerCpu state.everRan
    (fun cpu => (paid.rationed cpu).raises_le) ?_
  intro cpu absent
  apply ((paid.rationed cpu).idle _).2
  simpa [everRan] using absent

end InterruptCompetition

open InterruptCompetition

variable [Fintype Cpu] [DecidableEq Cpu] {state next : InterruptCompetition Cpu} {cpu : Cpu}

omit [DecidableEq Cpu] in
theorem loaded_paid : (loaded : InterruptCompetition Cpu).Paid where
  rationed := fun _ => ⟨rfl, nofun, Nat.zero_le _, fun _ => ⟨rfl, rfl⟩⟩
  arrived := by simp [loaded, handlersInitial]

/-- A raiser moves between points without a call to count. -/
theorem InterruptCompetition.Paid.moveRaiser (paid : state.Paid) {point : RaiserPoint}
    (quiet : (state.raiser cpu).uncounted = 0) (moved : point.admitted = false) :
    (state.moveRaiser cpu point).Paid := by
  refine ⟨?_, paid.arrived⟩
  intro other
  by_cases same : other = cpu
  · subst same
    obtain ⟨called, -, bounded, idle⟩ := paid.rationed other
    have stands : (state.moveRaiser other point).raiser other = point := Function.update_self ..
    have none : point.uncounted = 0 := by
      cases point <;> first | rfl | cases moved
    refine ⟨?_, by rw [stands, moved]; nofun, bounded, ?_⟩
    · rw [stands, none]
      exact quiet ▸ called
    · intro never
      exact ⟨by rw [stands, moved], (idle never).2⟩
  · exact (paid.rationed other).frame rfl rfl (Function.update_of_ne same ..) rfl

theorem runIrqRaiser_paid (paid : state.Paid)
    (taken : runIrqRaiser state cpu (state.raiser cpu) = some next) : next.Paid := by
  obtain ⟨called, admitted, bounded, idle⟩ := paid.rationed cpu
  cases point : state.raiser cpu with
  | parked =>
    rw [point] at taken
    cases taken
  | loop =>
    simp only [point, runIrqRaiser, irqRaiserShouldRun, decide_eq_true_eq] at taken
    split at taken
    · rename_i room
      cases taken
      refine ⟨?_, paid.arrived⟩
      intro other
      by_cases same : other = cpu
      · subst same
        rw [point] at called
        refine ⟨?_, fun _ => room, bounded, ?_⟩
        · simp only [InterruptCompetition.moveRaiser, Function.update_self]
          exact called
        · simp [Function.update_self]
      · exact (paid.rationed other).frame rfl rfl (Function.update_of_ne same ..)
          (Function.update_of_ne same ..)
    · cases taken
      exact paid
  | raise =>
    rw [point] at taken called admitted idle
    cases taken
    constructor
    · intro other
      by_cases same : other = cpu
      · subst same
        refine ⟨?_, fun _ => admitted rfl, bounded, ?_⟩
        · simp only [InterruptCompetition.moveRaiser, Function.update_self, called]
          rfl
        · intro never
          cases (idle never).1
      · exact (paid.rationed other).frame (Function.update_of_ne same ..) rfl
          (Function.update_of_ne same ..) rfl
    · have grown := tally_update id state.raises cpu (state.raises cpu + 1)
      have arrived := paid.arrived
      simp only [raiseCalls, InterruptCompetition.moveRaiser, id, Bool.toNat_true] at *
      omega
  | count =>
    rw [point] at taken called admitted idle
    cases taken
    refine ⟨?_, paid.arrived⟩
    intro other
    by_cases same : other = cpu
    · subst same
      have room := admitted rfl
      have small : state.gsRaiseCount other + 1 < 2 ^ 32 := by
        have bound : raisesPerCpu = 10 := rfl
        omega
      refine ⟨?_, ?_, ?_, ?_⟩
      · simp only [InterruptCompetition.moveRaiser, Function.update_self, called, wrap_int small]
        rfl
      · simp [InterruptCompetition.moveRaiser, RaiserPoint.admitted]
      · simp only [Function.update_self, wrap_int small]
        exact room
      · intro never
        cases (idle never).1
    · exact (paid.rationed other).frame rfl (Function.update_of_ne same ..)
        (Function.update_of_ne same ..) rfl
  | report =>
    rw [point] at taken
    cases taken
    exact paid.moveRaiser (by rw [point]; rfl) rfl
  | sleep =>
    rw [point] at taken
    cases taken
    exact paid.moveRaiser (by rw [point]; rfl) rfl

omit [DecidableEq Cpu] in
/-- A handler step keeps the arrivals. -/
theorem InterruptCompetition.Paid.handlers {handlers : Handlers Cpu} (paid : state.Paid)
    (same : handlers.arrivals = state.handlers.arrivals) :
    { state with handlers := handlers }.Paid :=
  ⟨fun cpu => (paid.rationed cpu).frame rfl rfl rfl rfl, same ▸ paid.arrived⟩

theorem interruptCompetition_step_paid (paid : state.Paid)
    {event : InterruptCompetitionEvent Cpu}
    (taken : state.step width event = some next) : next.Paid := by
  cases event with
  | raiser cpu => exact runIrqRaiser_paid paid taken
  | offline cpu =>
    simp only [InterruptCompetition.step] at taken
    split at taken
    · rename_i point
      cases taken
      exact paid.moveRaiser (by rw [point]; rfl) rfl
    · cases taken
  | online cpu =>
    simp only [InterruptCompetition.step] at taken
    split at taken
    · rename_i point
      cases taken
      exact paid.moveRaiser (by rw [point]; rfl) rfl
    · cases taken
  | deliver cpu handled =>
    have arrived := paid.arrived
    simp only [InterruptCompetition.step] at taken
    split at taken
    · cases taken
    · rename_i raised
      rw [raised, Bool.toNat_true] at arrived
      cases taken
      exact ⟨fun cpu => (paid.rationed cpu).frame rfl rfl rfl rfl, Nat.le_of_succ_le arrived⟩
    · rename_i raised
      rw [raised, Bool.toNat_true] at arrived
      obtain ⟨handlers, entered, rfl⟩ := Option.map_eq_some_iff.mp taken
      refine ⟨fun cpu => (paid.rationed cpu).frame rfl rfl rfl rfl, ?_⟩
      exact (handlerStep_arrivals entered) ▸ arrived
  | topHalf cpu =>
    obtain ⟨handlers, stepped, rfl⟩ := Option.map_eq_some_iff.mp taken
    exact paid.handlers (handlerStep_arrivals stepped)
  | softirq =>
    obtain ⟨handlers, stepped, rfl⟩ := Option.map_eq_some_iff.mp taken
    exact paid.handlers (handlerStep_arrivals stepped)
  | bottomHalf =>
    obtain ⟨handlers, stepped, rfl⟩ := Option.map_eq_some_iff.mp taken
    exact paid.handlers (handlerStep_arrivals stepped)

theorem reachable_paid (reached : (competitionMachine Cpu width).Reachable state) : state.Paid :=
  reached.invariant Paid loaded_paid
    fun paid taken => interruptCompetition_step_paid paid taken

namespace InterruptCompetition

/-- Finished critical sections of the top halves. -/
def hardirqs (state : InterruptCompetition Cpu) : Nat := state.handlers.counters.sections .top

/-- Finished critical sections of the bottom halves. -/
def softirqs (state : InterruptCompetition Cpu) : Nat := state.handlers.counters.sections .bottom

/-- The values taken by finished sections are 1, 2, .. without a gap or a repeat, the counters
are the unwrapped numbers of sections outside a section and at most one ahead inside one,
and bottom halves, top halves and raises are each paid for by the next. -/
structure Conserved (state : InterruptCompetition Cpu) : Prop where
  taken : state.handlers.counters.finished.map Prod.snd =
    List.range' 1 (state.hardirqs + state.softirqs)
  free : state.handlers.gsCounterLock = none →
    state.handlers.counters.gsSharedCount = state.hardirqs + state.softirqs ∧
      state.handlers.counters.gsHardirqRunCount = state.hardirqs
  inside : ∃ ran counted, ran ≤ 1 ∧ counted ≤ 1 ∧
    state.handlers.counters.gsHardirqRunCount = state.hardirqs + ran ∧
      state.handlers.counters.gsSharedCount = state.hardirqs + state.softirqs + counted
  softirqsPaid : state.softirqs ≤ state.hardirqs
  hardirqsPaid : state.hardirqs ≤ state.raiseCalls
  raisesPaid : state.raiseCalls ≤ raisesPerCpu * state.everRan.card

end InterruptCompetition

/-- Conservation of the shared counter, over every interleaving of raisers, deliveries,
handlers and CPU hotplug on a machine with too few CPUs to wrap it. -/
theorem shared_counter_conserved (fits : 2 * raisesPerCpu * Fintype.card Cpu < 2 ^ 32)
    (reached : (competitionMachine Cpu width).Reachable state) : state.Conserved := by
  have paid := reachable_paid reached
  have handled := (competitionRefinement Cpu width).reachable reached
  have sound : state.handlers.Sound width := reachable_sound handled
  have accounted : state.handlers.Accounted := reachable_accounted handled
  have length : state.handlers.counters.finished.length = state.hardirqs + state.softirqs :=
    state.handlers.counters.finished_length
  have arrived : state.handlers.arrivals ≤ state.raiseCalls :=
    Nat.le_trans (Nat.le_add_right _ _) paid.arrived
  have few : 2 * state.handlers.arrivals < 2 ^ 32 := by
    have calls := paid.raiseCalls_le
    have everyCpu := Nat.mul_le_mul_left raisesPerCpu (Finset.card_le_univ state.everRan)
    rw [Nat.mul_assoc] at fits
    omega
  obtain ⟨ran, counted, stamped, opened⟩ := sound.opened accounted
  have ⟨shown, ranOnce, countedOnce, _, room, sharedRoom⟩ := opened
  refine ⟨?_, ?_, ⟨ran, counted, ranOnce, countedOnce, ?_, ?_⟩, accounted.bottom_le,
    Nat.le_trans accounted.top_le arrived, paid.raiseCalls_le⟩
  · rw [sound.taken, ← length]
    conv_rhs => rw [← List.map_id (List.range' 1 _)]
    apply List.map_congr_left
    intro val member
    have bound := (List.mem_range'_1.mp member).2
    exact width.wrap_long (by omega)
  · intro free
    have shown := sound.freeValues free
    rw [shown.shared, shown.run, length, width.wrap_long (by omega), wrap_int]
    · exact ⟨rfl, rfl⟩
    · have atMost := accounted.top_le
      omega
  · rw [shown.run, wrap_int (by omega)]
    rfl
  · rw [shown.shared, width.wrap_long (by omega), length]

/-- One CPU's raiser raises the line once and the hardirq stops inside its section. -/
def countingOnce (cpu : Cpu) : List (InterruptCompetitionEvent Cpu) :=
  [.online cpu, .raiser cpu, .raiser cpu, .deliver cpu true] ++ List.replicate 6 (.topHalf cpu)

theorem shared_counter_conserved_on_one_cpu :
    ∃ state : InterruptCompetition (Fin 1), state.raiseCalls = 1 ∧
      state.handlers.counters.gsSharedCount = 1 ∧ state.Conserved := by
  obtain ⟨state, reached, found⟩ := (competitionMachine (Fin 1) longWidth64).reachable_of_run
    (countingOnce 0)
    (fun state => state.raiseCalls = 1 ∧ state.handlers.counters.gsSharedCount = 1)
    (by decide +kernel)
  simp only [decide_eq_true_eq] at found
  exact ⟨state, found.1, found.2, shared_counter_conserved (by decide) reached⟩

/-- Between its increment of the shared counter and its end, a section has already counted
the value it is about to take. -/
theorem section_counts_before_it_finishes :
    ¬ ∀ state, (competitionMachine (Fin 1) longWidth64).Reachable state →
      (state.handlers.counters.finished.map Prod.snd).Perm
          (List.range' 1 state.handlers.counters.gsSharedCount) ∧
        (state.handlers.gsCounterLock = none →
          state.handlers.counters.gsSharedCount = state.hardirqs + state.softirqs ∧
            state.handlers.counters.gsHardirqRunCount = state.hardirqs) ∧
        state.softirqs ≤ state.hardirqs ∧ state.hardirqs ≤ state.raiseCalls ∧
        state.raiseCalls ≤ raisesPerCpu * state.everRan.card := by
  intro claimed
  obtain ⟨state, reached, found⟩ := (competitionMachine (Fin 1) longWidth64).reachable_of_run
    (countingOnce 0)
    (fun state => state.handlers.counters.finished = [] ∧
      state.handlers.counters.gsSharedCount = 1)
    (by decide +kernel)
  simp only [decide_eq_true_eq] at found
  have values := (claimed state reached).1
  simp [found.1, found.2] at values

end KernelSamples.Competition

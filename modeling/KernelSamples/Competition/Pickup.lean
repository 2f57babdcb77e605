import KernelSamples.Competition.Accounting

/-! What the bottom half picks up. The scheduled bit is cleared before the bottom half
reads `gs_pending_seq`, so no stamp is missed, but one stamp may be read twice. -/

namespace KernelSamples.Competition

open Lib

/-- Between the increment of `gs_hardirq_run_count` and `tasklet_schedule`. -/
def TopPoint.numbered : TopPoint → Bool
  | .acquire | .loadRun | .storeRun _ | .handled => false
  | _ => true

/-- Between the stamp of `gs_pending_seq` and `tasklet_schedule`. -/
def TopPoint.stamped : TopPoint → Bool
  | .release _ _ | .report _ _ | .schedule => true
  | _ => false

theorem TopPoint.numbered_of_stamped {point : TopPoint} (stamped : point.stamped = true) :
    point.numbered = true := by
  cases point <;> first | rfl | cases stamped

/-- The bottom half has still to read `gs_pending_seq`. -/
def BottomPoint.reading : BottomPoint → Bool
  | .acquire | .takeSeq => true
  | _ => false

variable {Cpu : Type}

namespace Handlers

/-- No top half stands at a point of this kind. -/
def NoTop (state : Handlers Cpu) (kind : TopPoint → Bool) : Prop :=
  ∀ cpu point, state.topHalf cpu = some point → kind point = false

/-- The tasklet is neither scheduled nor running. -/
def Idle (state : Handlers Cpu) : Prop := state.scheduled = false ∧ state.bottomHalf = none

/-- Nothing stamped so far can cause another bottom-half run. -/
def Settled (state : Handlers Cpu) : Prop :=
  state.scheduled = false ∧ state.NoTop TopPoint.stamped

/-- The last stamp has been read, or something is on its way that will read it. -/
def Covered (state : Handlers Cpu) : Prop :=
  state.picked.getLast?.getD 0 = state.counters.gsPendingSeq ∨ state.scheduled = true ∨
    (∃ point, state.bottomHalf = some point ∧ point.reading = true) ∨
      ∃ cpu point, state.topHalf cpu = some point ∧ point.stamped = true

end Handlers

open Handlers

variable [DecidableEq Cpu] {width : LongWidth} {state next : Handlers Cpu} {cpu : Cpu}

/-- Moving a top half that is not past its stamp keeps every top half that is. -/
theorem stamped_kept {point : TopPoint} {moved : Option TopPoint}
    (here : state.topHalf cpu = some point)
    (carries : point.stamped = true → ∃ after, moved = some after ∧ after.stamped = true)
    (standing : ∃ other after, state.topHalf other = some after ∧ after.stamped = true) :
    ∃ other after, Function.update state.topHalf cpu moved other = some after ∧
      after.stamped = true := by
  obtain ⟨other, after, stands, late⟩ := standing
  by_cases same : other = cpu
  · subst same
    rw [here] at stands
    cases stands
    obtain ⟨last, moves, later⟩ := carries late
    exact ⟨other, last, by rw [Function.update_self, moves], later⟩
  · exact ⟨other, after, by rw [Function.update_of_ne same, stands], late⟩

theorem interruptCompetitionTopHalf_covered (covered : state.Covered) {point : TopPoint}
    (here : state.topHalf cpu = some point)
    (taken : interruptCompetitionTopHalf width cpu state point = some next) :
    next.Covered := by
  have moves {moved : Option TopPoint}
      (carries : point.stamped = true → ∃ after, moved = some after ∧ after.stamped = true) :
      state.picked.getLast?.getD 0 = state.counters.gsPendingSeq ∨ state.scheduled = true ∨
        (∃ point, state.bottomHalf = some point ∧ point.reading = true) ∨
          ∃ other after, Function.update state.topHalf cpu moved other = some after ∧
            after.stamped = true := by
    rcases covered with read | scheduled | reading | standing
    · exact .inl read
    · exact .inr (.inl scheduled)
    · exact .inr (.inr (.inl reading))
    · exact .inr (.inr (.inr (stamped_kept here carries standing)))
  cases point with
  | acquire =>
    simp only [interruptCompetitionTopHalf] at taken
    split at taken
    · cases taken
      exact moves fun stamped => absurd stamped Bool.false_ne_true
    · cases taken
  | loadRun | storeRun | takeN | loadShared | storeShared | takeVal | handled =>
    cases taken
    exact moves fun stamped => absurd stamped Bool.false_ne_true
  | stamp n val =>
    cases taken
    exact .inr (.inr (.inr ⟨cpu, .release n val, Function.update_self .., rfl⟩))
  | release n val =>
    cases taken
    exact moves fun _ => ⟨.report n val, rfl, rfl⟩
  | report n val =>
    cases taken
    exact moves fun _ => ⟨.schedule, rfl, rfl⟩
  | schedule =>
    cases taken
    exact .inr (.inl rfl)

omit [DecidableEq Cpu] in
theorem interruptCompetitionBottomHalf_covered (covered : state.Covered) {point : BottomPoint}
    (here : state.bottomHalf = some point)
    (taken : interruptCompetitionBottomHalf width state point = some next) :
    next.Covered := by
  have others (late : point.reading = false) :
      state.picked.getLast?.getD 0 = state.counters.gsPendingSeq ∨ state.scheduled = true ∨
        ∃ cpu point, state.topHalf cpu = some point ∧ point.stamped = true := by
    rcases covered with read | scheduled | ⟨at', stands, reading⟩ | standing
    · exact .inl read
    · exact .inr (.inl scheduled)
    · rw [here] at stands
      cases stands
      rw [late] at reading
      cases reading
    · exact .inr (.inr standing)
  cases point with
  | acquire =>
    simp only [interruptCompetitionBottomHalf] at taken
    split at taken
    · cases taken
      exact .inr (.inr (.inl ⟨.takeSeq, rfl, rfl⟩))
    · cases taken
  | takeSeq =>
    cases taken
    exact .inl (by simp [moveBottom])
  | loadShared | storeShared | takeVal | release | report =>
    cases taken
    rcases others rfl with read | scheduled | standing
    · exact .inl read
    · exact .inr (.inl scheduled)
    · exact .inr (.inr (.inr standing))

theorem handlerStep_covered (covered : state.Covered) {event : HandlerEvent Cpu}
    (taken : handlerStep width state event = some next) : next.Covered := by
  cases event with
  | arrive cpu =>
    simp only [handlerStep] at taken
    split at taken
    · cases taken
    · rename_i idle
      cases taken
      rcases covered with read | scheduled | reading | ⟨other, after, stands, late⟩
      · exact .inl read
      · exact .inr (.inl scheduled)
      · exact .inr (.inr (.inl reading))
      · have different : other ≠ cpu := by
          intro same
          rw [same, idle] at stands
          cases stands
        exact .inr (.inr (.inr ⟨other, after, by
          simpa only [moveTop, Function.update_of_ne different] using stands, late⟩))
  | topHalf cpu =>
    obtain ⟨point, here, stepped⟩ := Option.bind_eq_some_iff.mp taken
    exact interruptCompetitionTopHalf_covered covered here stepped
  | softirq =>
    simp only [handlerStep] at taken
    split at taken
    · cases taken
      exact .inr (.inr (.inl ⟨.acquire, rfl, rfl⟩))
    · cases taken
  | bottomHalf =>
    obtain ⟨point, here, stepped⟩ := Option.bind_eq_some_iff.mp taken
    exact interruptCompetitionBottomHalf_covered covered here stepped

theorem reachable_covered (reached : (handlerMachine Cpu width).Reachable state) :
    state.Covered :=
  reached.invariant Covered (.inl rfl) fun covered taken => handlerStep_covered covered taken

/-- How one step changes what has been stamped and read. -/
inductive SeqStep (state next : Handlers Cpu) : Prop where
  | quiet (picked : next.picked = state.picked)
      (pending : next.counters.gsPendingSeq = state.counters.gsPendingSeq)
  | stamps (cpu : Cpu) (n val : Nat) (here : state.topHalf cpu = some (.stamp n val))
      (picked : next.picked = state.picked) (pending : next.counters.gsPendingSeq = n)
  | reads (here : state.bottomHalf = some .takeSeq)
      (picked : next.picked = state.picked ++ [state.counters.gsPendingSeq])
      (pending : next.counters.gsPendingSeq = state.counters.gsPendingSeq)

theorem interruptCompetitionTopHalf_seqStep {point : TopPoint}
    (here : state.topHalf cpu = some point)
    (taken : interruptCompetitionTopHalf width cpu state point = some next) :
    SeqStep state next := by
  cases point with
  | acquire =>
    simp only [interruptCompetitionTopHalf] at taken
    split at taken
    · cases taken
      exact .quiet rfl rfl
    · cases taken
  | stamp n val =>
    cases taken
    exact .stamps cpu n val here rfl rfl
  | loadRun | storeRun | takeN | loadShared | storeShared | takeVal | release | report | schedule
  | handled =>
    cases taken
    exact .quiet rfl rfl

omit [DecidableEq Cpu] in
theorem interruptCompetitionBottomHalf_seqStep {point : BottomPoint}
    (here : state.bottomHalf = some point)
    (taken : interruptCompetitionBottomHalf width state point = some next) :
    SeqStep state next := by
  cases point with
  | acquire =>
    simp only [interruptCompetitionBottomHalf] at taken
    split at taken
    · cases taken
      exact .quiet rfl rfl
    · cases taken
  | takeSeq =>
    cases taken
    exact .reads here rfl rfl
  | loadShared | storeShared | takeVal | release | report =>
    cases taken
    exact .quiet rfl rfl

theorem handlerStep_seqStep {event : HandlerEvent Cpu}
    (taken : handlerStep width state event = some next) : SeqStep state next := by
  cases event with
  | arrive cpu =>
    simp only [handlerStep] at taken
    split at taken
    · cases taken
    · cases taken
      exact .quiet rfl rfl
  | topHalf cpu =>
    obtain ⟨point, here, stepped⟩ := Option.bind_eq_some_iff.mp taken
    exact interruptCompetitionTopHalf_seqStep here stepped
  | softirq =>
    simp only [handlerStep] at taken
    split at taken
    · cases taken
      exact .quiet rfl rfl
    · cases taken
  | bottomHalf =>
    obtain ⟨point, here, stepped⟩ := Option.bind_eq_some_iff.mp taken
    exact interruptCompetitionBottomHalf_seqStep here stepped

theorem handlerStep_arrivals_le {event : HandlerEvent Cpu}
    (taken : handlerStep width state event = some next) : state.arrivals ≤ next.arrivals := by
  rw [handlerStep_arrivals taken]
  exact Nat.le_add_right _ _

variable [Fintype Cpu]

/-- While fewer than 2^32 top halves have arrived, a stamp is newer than every earlier one. -/
theorem stamp_newer (sound : state.Sound width) (accounted : state.Accounted)
    (few : state.arrivals < 2 ^ 32) {n val : Nat}
    (here : state.topHalf cpu = some (.stamp n val)) : state.counters.gsPendingSeq < n := by
  obtain ⟨shown, number, -⟩ := sound.topValues here rfl
  have room := accounted.top_lt here rfl
  rw [shown.pending, number, wrap_int (by omega), wrap_int (by omega)]
  omega

namespace Handlers

/-- The reads so far never decrease and none is ahead of the last stamp. -/
structure Ordered (state : Handlers Cpu) : Prop where
  below : ∀ seq ∈ state.picked, seq ≤ state.counters.gsPendingSeq
  sorted : state.picked.Pairwise (· ≤ ·)

end Handlers

theorem SeqStep.ordered (progress : SeqStep state next) (sound : state.Sound width)
    (accounted : state.Accounted) (few : state.arrivals < 2 ^ 32) (ordered : state.Ordered) :
    next.Ordered := by
  cases progress with
  | quiet picked pending => exact ⟨by rw [picked, pending]; exact ordered.below,
      by rw [picked]; exact ordered.sorted⟩
  | stamps cpu n val here picked pending =>
    have newer := stamp_newer sound accounted few here
    refine ⟨?_, by rw [picked]; exact ordered.sorted⟩
    intro seq member
    rw [picked] at member
    rw [pending]
    exact Nat.le_trans (ordered.below seq member) newer.le
  | reads here picked pending =>
    constructor
    · intro seq member
      rw [picked] at member
      rw [pending]
      rcases List.mem_append.mp member with old | new
      · exact ordered.below seq old
      · exact (List.mem_singleton.mp new).le
    · rw [picked]
      refine List.pairwise_append.mpr ⟨ordered.sorted, List.pairwise_singleton _ _, ?_⟩
      intro earlier member last new
      rw [List.mem_singleton.mp new]
      exact ordered.below earlier member

theorem reachable_ordered (reached : (handlerMachine Cpu width).Reachable state) :
    state.arrivals < 2 ^ 32 → state.Ordered := by
  refine reached.induction (fun state => state.arrivals < 2 ^ 32 → state.Ordered)
    (fun _ => ⟨by simp [handlerMachine, handlersInitial], .nil⟩) ?_
  intro state event next known ordered taken few
  have before : state.arrivals < 2 ^ 32 :=
    Nat.lt_of_le_of_lt (handlerStep_arrivals_le taken) few
  exact (handlerStep_seqStep taken).ordered (reachable_sound known) (reachable_accounted known)
    before
    (ordered before)

/-- The stamp never runs ahead of the number of hardirqs. -/
theorem pending_le_run (sound : state.Sound width) (accounted : state.Accounted)
    (few : state.arrivals < 2 ^ 32) :
    state.counters.gsPendingSeq ≤ state.counters.gsHardirqRunCount := by
  obtain ⟨ran, counted, stamped, opened⟩ := sound.opened accounted
  have ⟨shown, _, _, behind, room, _⟩ := opened
  rw [shown.pending, shown.run, wrap_int (by omega), wrap_int (by omega)]
  omega

omit [DecidableEq Cpu] [Fintype Cpu] in
/-- With no top half inside its numbered stretch and no bottom half running, every counted
hardirq has been stamped. -/
theorem pending_eq_run (sound : state.Sound width) (quiet : state.bottomHalf = none)
    (away : state.NoTop TopPoint.numbered) :
    state.counters.gsPendingSeq = state.counters.gsHardirqRunCount := by
  have values := sound.values
  simp only [Values] at values
  split at values
  · rw [values.pending, values.run]
  · obtain ⟨point, here, holds⟩ := values
    have outside := away _ point here
    cases point with
    | loadRun => rw [holds.pending, holds.run]
    | storeRun => rw [holds.1.pending, holds.1.run]
    | acquire | handled => exact holds.elim
    | takeN | loadShared | storeShared | takeVal | stamp | release | report | schedule =>
      cases outside
  · obtain ⟨point, here, holds⟩ := values
    rw [quiet] at here
    cases here

/-- Bottom-half reads never decrease and never run ahead of the hardirqs, and once the
tasklet is idle and every numbered top half has scheduled it, the last read is the last
hardirq. -/
theorem no_hardirq_lost (reached : (handlerMachine Cpu width).Reachable state)
    (few : state.arrivals < 2 ^ 32) :
    state.picked.Pairwise (· ≤ ·) ∧
      (∀ seq ∈ state.picked, seq ≤ state.counters.gsHardirqRunCount) ∧
      (state.Idle → state.NoTop TopPoint.numbered →
        state.picked.getLast? = some state.counters.gsHardirqRunCount ∨
          state.counters.gsHardirqRunCount = 0) := by
  have sound := reachable_sound reached
  have accounted := reachable_accounted reached
  have ordered := reachable_ordered reached few
  refine ⟨ordered.sorted, ?_, ?_⟩
  · intro seq member
    exact Nat.le_trans (ordered.below seq member) (pending_le_run sound accounted few)
  · intro ⟨unscheduled, quiet⟩ away
    have stamped := pending_eq_run sound quiet away
    rcases reachable_covered reached with read | scheduled | ⟨point, stands, -⟩ |
      ⟨cpu, point, here, late⟩
    · rw [stamped] at read
      cases last : state.picked.getLast? with
      | none =>
        rw [last] at read
        exact .inr read.symm
      | some seq =>
        rw [last] at read
        exact .inl (congrArg some read)
    · rw [unscheduled] at scheduled
      cases scheduled
    · rw [quiet] at stands
      cases stands
    · have numbered := TopPoint.numbered_of_stamped late
      rw [away cpu point here] at numbered
      cases numbered

/-- A whole top half on one CPU. -/
def topHalfRun (cpu : Cpu) : List (HandlerEvent Cpu) :=
  .arrive cpu :: List.replicate 12 (.topHalf cpu)

/-- A whole bottom half. -/
def bottomHalfRun (Cpu : Type) : List (HandlerEvent Cpu) :=
  .softirq :: List.replicate 7 .bottomHalf

/-- Two CPUs take one hardirq each before the tasklet runs. -/
def coalesced : List (HandlerEvent (Fin 2)) :=
  topHalfRun 0 ++ topHalfRun 1 ++ bottomHalfRun _

theorem no_hardirq_lost_after_two :
    ∃ state, (handlerMachine (Fin 2) longWidth64).Reachable state ∧ state.Idle ∧
      state.picked = [2] ∧ state.picked.getLast? = some state.counters.gsHardirqRunCount := by
  obtain ⟨state, reached, found⟩ := (handlerMachine (Fin 2) longWidth64).reachable_of_run coalesced
    (fun state => state.arrivals = 2 ∧ state.scheduled = false ∧
      state.bottomHalf = none ∧ state.picked = [2] ∧ state.counters.gsHardirqRunCount = 2 ∧
      ∀ cpu, state.topHalf cpu = none)
    (by decide +kernel)
  simp only [decide_eq_true_eq] at found
  obtain ⟨arrivals, unscheduled, quiet, picked, run, away⟩ := found
  have covered := (no_hardirq_lost reached (by omega)).2.2 ⟨unscheduled, quiet⟩
    (by intro cpu point here; rw [away cpu] at here; cases here)
  refine ⟨state, reached, ⟨unscheduled, quiet⟩, picked, ?_⟩
  rcases covered with last | zero
  · exact last
  · omega

/-- The second hardirq stops inside its section, counted and not stamped. -/
def counting : List (HandlerEvent (Fin 1)) :=
  topHalfRun 0 ++ bottomHalfRun _ ++ (topHalfRun 0).take 4

/-- Inside its section a top half has counted itself and not yet stamped, so with only the
stretch from stamp to `tasklet_schedule` excluded the last read can be one behind. -/
theorem stamp_lags_count :
    ¬ ∀ state, (handlerMachine (Fin 1) longWidth64).Reachable state →
      state.arrivals < 2 ^ 32 →
      state.picked.Pairwise (· ≤ ·) ∧
        (∀ seq ∈ state.picked, seq ≤ state.counters.gsHardirqRunCount) ∧
        (state.Idle → state.NoTop TopPoint.stamped →
          state.picked.getLast? = some state.counters.gsHardirqRunCount ∨
            state.counters.gsHardirqRunCount = 0) := by
  intro claimed
  obtain ⟨state, reached, found⟩ := (handlerMachine (Fin 1) longWidth64).reachable_of_run counting
    (fun state => state.arrivals = 2 ∧ state.scheduled = false ∧
      state.bottomHalf = none ∧ state.picked = [1] ∧ state.counters.gsHardirqRunCount = 2 ∧
      ∀ cpu, state.topHalf cpu = some .takeN)
    (by decide +kernel)
  simp only [decide_eq_true_eq] at found
  obtain ⟨arrivals, unscheduled, quiet, picked, run, counted⟩ := found
  have lost := (claimed state reached (by omega)).2.2 ⟨unscheduled, quiet⟩
    (by intro cpu point here; rw [counted cpu] at here; cases here; rfl)
  simp [picked, run] at lost

omit [DecidableEq Cpu] [Fintype Cpu] in
theorem interruptCompetitionBottomHalf_frame {point : BottomPoint}
    (taken : interruptCompetitionBottomHalf width state point = some next) :
    next.topHalf = state.topHalf ∧ next.scheduled = state.scheduled ∧
      next.counters.gsPendingSeq = state.counters.gsPendingSeq := by
  cases point with
  | acquire =>
    simp only [interruptCompetitionBottomHalf] at taken
    split at taken
    · cases taken
      exact ⟨rfl, rfl, rfl⟩
    · cases taken
  | takeSeq | loadShared | storeShared | takeVal | release | report =>
    cases taken
    exact ⟨rfl, rfl, rfl⟩

omit [Fintype Cpu] in
/-- Outside a stamp, a settled state stays settled, and only the bottom half reads. -/
theorem Handlers.Settled.step (settled : state.Settled) {event : HandlerEvent Cpu}
    (taken : handlerStep width state event = some next) :
    (∃ cpu n val, state.topHalf cpu = some (.stamp n val) ∧ next.counters.gsPendingSeq = n) ∨
      next.Settled ∧ next.counters.gsPendingSeq = state.counters.gsPendingSeq ∧
        (next.bottomHalf = state.bottomHalf ∧ next.picked = state.picked ∨
          ∃ point, state.bottomHalf = some point ∧
            interruptCompetitionBottomHalf width state point = some next) := by
  obtain ⟨unscheduled, away⟩ := settled
  have moved (cpu : Cpu) (after : Option TopPoint)
      (early : ∀ point, after = some point → point.stamped = false) :
      ∀ other point, Function.update state.topHalf cpu after other = some point →
        point.stamped = false := by
    intro other point stands
    by_cases same : other = cpu
    · rw [same, Function.update_self] at stands
      exact early point stands
    · rw [Function.update_of_ne same] at stands
      exact away other point stands
  cases event with
  | arrive cpu =>
    simp only [handlerStep] at taken
    split at taken
    · cases taken
    · cases taken
      exact .inr ⟨⟨unscheduled, moved cpu _ (by simp [TopPoint.stamped])⟩, rfl, .inl ⟨rfl, rfl⟩⟩
  | topHalf cpu =>
    obtain ⟨point, here, stepped⟩ := Option.bind_eq_some_iff.mp taken
    have early := away cpu point here
    cases point with
    | acquire =>
      simp only [interruptCompetitionTopHalf] at stepped
      split at stepped
      · cases stepped
        exact .inr ⟨⟨unscheduled, moved cpu _ (by simp [TopPoint.stamped])⟩, rfl,
          .inl ⟨rfl, rfl⟩⟩
      · cases stepped
    | stamp n val =>
      cases stepped
      exact .inl ⟨cpu, n, val, here, rfl⟩
    | loadRun | storeRun | takeN | loadShared | storeShared | takeVal | handled =>
      cases stepped
      exact .inr ⟨⟨unscheduled, moved cpu _ (by simp [TopPoint.stamped])⟩, rfl, .inl ⟨rfl, rfl⟩⟩
    | release | report | schedule => cases early
  | softirq => simp [handlerStep, unscheduled] at taken
  | bottomHalf =>
    obtain ⟨point, here, stepped⟩ := Option.bind_eq_some_iff.mp taken
    obtain ⟨top, bit, pending⟩ := interruptCompetitionBottomHalf_frame stepped
    refine .inr ⟨⟨bit.trans unscheduled, ?_⟩, pending, .inr ⟨point, here, stepped⟩⟩
    rw [NoTop, top]
    exact away

/-- Where a run stands after the bottom half `stood` at its read in a settled state with the
stamp at `seq`: at that read still, or past it with nothing left to read `seq` again. -/
def AfterSettled (seq : Nat) (reads : List Nat) (state : Handlers Cpu) : Prop :=
  (state.bottomHalf = some .takeSeq ∧ state.picked = reads ∨
      ∀ point, state.bottomHalf = some point → point.reading = false) ∧
    state.Settled ∧ state.counters.gsPendingSeq = seq ∨
  seq < state.counters.gsPendingSeq

omit [Fintype Cpu] [DecidableEq Cpu] in
theorem interruptCompetitionBottomHalf_past {point : BottomPoint}
    (past : point = .takeSeq ∨ point.reading = false)
    (taken : interruptCompetitionBottomHalf width state point = some next) :
    ∀ after, next.bottomHalf = some after → after.reading = false := by
  intro after stands
  cases point with
  | acquire => rcases past with same | late <;> contradiction
  | takeSeq | loadShared | storeShared | takeVal | release =>
    cases taken
    cases stands
    rfl
  | report =>
    cases taken
    cases stands

theorem AfterSettled.step {seq : Nat} {reads : List Nat} (sound : state.Sound width)
    (accounted : state.Accounted) (few : state.arrivals < 2 ^ 32)
    (known : AfterSettled seq reads state) {event : HandlerEvent Cpu}
    (taken : handlerStep width state event = some next) : AfterSettled seq reads next := by
  rcases known with ⟨stood, settled, pending⟩ | newer
  · rcases settled.step taken with ⟨cpu, n, val, here, stamp⟩ | ⟨still, same, moved⟩
    · right
      rw [stamp, ← pending]
      exact stamp_newer sound accounted few here
    · refine .inl ⟨?_, still, same.trans pending⟩
      rcases moved with ⟨bottom, picked⟩ | ⟨point, here, stepped⟩
      · rw [bottom, picked]
        exact stood
      · right
        apply interruptCompetitionBottomHalf_past _ stepped
        rcases stood with ⟨atRead, -⟩ | past
        · rw [here] at atRead
          exact .inl (Option.some.inj atRead)
        · exact .inr (past point here)
  · right
    cases handlerStep_seqStep taken with
    | quiet picked same => exact same ▸ newer
    | reads here picked same => exact same ▸ newer
    | stamps cpu n val here picked same =>
      exact Nat.lt_trans newer (same ▸ stamp_newer sound accounted few here)

omit [Fintype Cpu] in
/-- A bounded property of reachable states, kept by each step, is kept by a run that ends
with fewer than 2^32 arrivals. -/
theorem run_bounded (holds : Handlers Cpu → Prop)
    (preserved : ∀ {state event next}, (handlerMachine Cpu width).Reachable state →
      state.arrivals < 2 ^ 32 → holds state → handlerStep width state event = some next →
      holds next)
    {events : List (HandlerEvent Cpu)} {later : Handlers Cpu}
    (reached : (handlerMachine Cpu width).Reachable state) (start : holds state)
    (onward : (handlerMachine Cpu width).run state events = some later)
    (few : later.arrivals < 2 ^ 32) : holds later := by
  have kept : (handlerMachine Cpu width).Reachable later ∧
      (later.arrivals < 2 ^ 32 → holds later) := by
    refine Machine.run_invariant
      (fun state => (handlerMachine Cpu width).Reachable state ∧
        (state.arrivals < 2 ^ 32 → holds state)) ?_ ⟨reached, fun _ => start⟩ onward
    intro state event next known taken
    refine ⟨known.1.next taken, fun bounded => ?_⟩
    have before := Nat.lt_of_le_of_lt (handlerStep_arrivals_le taken) bounded
    exact preserved known.1 before (known.2 before) taken
  exact kept.2 few

/-- Of two bottom-half runs the later never reads a smaller number, and it reads a greater
one unless, when the earlier read, the tasklet was already scheduled again or a stamped top
half had yet to schedule it. -/
theorem pickup_advances {events : List (HandlerEvent Cpu)} {later : Handlers Cpu}
    (reached : (handlerMachine Cpu width).Reachable state)
    (onward : (handlerMachine Cpu width).run state events = some later)
    (few : later.arrivals < 2 ^ 32) (earlier : state.bottomHalf = some .takeSeq)
    (again : later.bottomHalf = some .takeSeq)
    (subsequent : state.picked.length < later.picked.length) :
    later.picked.Pairwise (· ≤ ·) ∧
      state.counters.gsPendingSeq ≤ later.counters.gsPendingSeq ∧
      (state.Settled → state.counters.gsPendingSeq < later.counters.gsPendingSeq) := by
  refine ⟨(reachable_ordered (reached.after onward) few).sorted, ?_, ?_⟩
  · refine run_bounded
      (fun later => state.counters.gsPendingSeq ≤ later.counters.gsPendingSeq) ?_ reached
      (Nat.le_refl _) onward few
    intro middle event next known bounded atMost taken
    cases handlerStep_seqStep taken with
    | quiet picked same => exact same ▸ atMost
    | reads here picked same => exact same ▸ atMost
    | stamps cpu n val here picked same =>
      have newer := stamp_newer (reachable_sound known) (reachable_accounted known) bounded here
      exact Nat.le_trans atMost (same ▸ newer.le)
  · intro settled
    have known : AfterSettled state.counters.gsPendingSeq state.picked later :=
      run_bounded (AfterSettled state.counters.gsPendingSeq state.picked)
        (fun known bounded stood taken =>
          stood.step (reachable_sound known) (reachable_accounted known) bounded taken)
        reached (.inl ⟨.inl ⟨earlier, rfl⟩, settled, rfl⟩) onward few
    rcases known with ⟨⟨-, same⟩ | past, -⟩ | newer
    · rw [same] at subsequent
      exact absurd subsequent (Nat.lt_irrefl _)
    · cases past _ again
    · exact newer

theorem pickup_advances_past_settled :
    ∃ state later : Handlers (Fin 1), state.Settled ∧ state.counters.gsPendingSeq = 1 ∧
      later.counters.gsPendingSeq = 2 ∧
      state.counters.gsPendingSeq < later.counters.gsPendingSeq := by
  obtain ⟨state, later, reached, early, onward, late⟩ :=
    (handlerMachine (Fin 1) longWidth64).reachable_split
      (topHalfRun 0 ++ (bottomHalfRun _).take 2)
      ((bottomHalfRun _).drop 2 ++ topHalfRun 0 ++ (bottomHalfRun _).take 2)
      (fun state => state.bottomHalf = some .takeSeq ∧ state.scheduled = false ∧
        state.picked = [] ∧ state.counters.gsPendingSeq = 1 ∧ ∀ cpu, state.topHalf cpu = none)
      (fun later => later.bottomHalf = some .takeSeq ∧ later.arrivals = 2 ∧
        later.picked = [1] ∧ later.counters.gsPendingSeq = 2)
      (by decide +kernel) (by decide +kernel)
  simp only [decide_eq_true_eq] at early late
  obtain ⟨earlier, unscheduled, none, one, away⟩ := early
  obtain ⟨again, arrivals, single, two⟩ := late
  have settled : state.Settled :=
    ⟨unscheduled, by intro cpu point here; rw [away cpu] at here; cases here⟩
  have advanced := pickup_advances reached onward (by omega) earlier again
    (by rw [none, single]; decide)
  exact ⟨state, later, settled, one, two, advanced.2.2 settled⟩

/-- The second hardirq interrupts the bottom half before it takes the lock. -/
def interrupting : List (HandlerEvent (Fin 1)) :=
  topHalfRun 0 ++ (bottomHalfRun _).take 1 ++ topHalfRun 0 ++ (bottomHalfRun _).drop 1 ++
    bottomHalfRun _

/-- A stamp taken while the running bottom half has still to read reschedules the tasklet,
and the next run reads the same stamp. -/
theorem stamp_read_twice :
    ¬ ∀ state, (handlerMachine (Fin 1) longWidth64).Reachable state →
      state.arrivals < 2 ^ 32 → state.picked.Pairwise (· < ·) := by
  intro claimed
  obtain ⟨state, reached, found⟩ := (handlerMachine (Fin 1) longWidth64).reachable_of_run
    interrupting
    (fun state => state.arrivals = 2 ∧ state.picked = [2, 2])
    (by decide +kernel)
  simp only [decide_eq_true_eq] at found
  have increasing := claimed state reached (by omega)
  simp [found.2] at increasing

end KernelSamples.Competition

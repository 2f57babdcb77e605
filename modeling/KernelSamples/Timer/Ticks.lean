import KernelSamples.Timer.TimerSoftirq

/-! What `timer_softirq.c` logs and when its bottom half runs, in every interleaving of the
clock, the timer softirq, the bottom half and the module's own thread. -/

namespace KernelSamples.Timer

open Lib

variable {width : Nat}

/-- Init has not armed the timer yet. -/
def Phase.Arming : Phase width → Prop
  | .setup | .readJiffies | .modTimer _ => True
  | _ => False

/-- `timer_shutdown_sync` has returned. -/
def Phase.Over : Phase width → Prop
  | .unloadedLine | .returned => True
  | _ => False

namespace Ticking

variable {hz started : Nat} {state next : Ticking width} {expires : BitVec width}
  {point : BottomPoint width} {event : Event}

/-- Nothing runs before the timer is armed or after it is shut down. -/
structure Placed (state : Ticking width) : Prop where
  unarmed : state.phase.Arming → state.gsTickTimer.expires = none ∧ state.bottomHalf = none
  ended : state.phase.Over → state.ShutDown

theorem Placed.elsewhere (arming : ¬ state.phase.Arming) (going : ¬ state.phase.Over) :
    state.Placed :=
  ⟨fun early => absurd early arming, fun late => absurd late going⟩

/-- Outside these phases the timer may be queued and the bottom half may run. -/
theorem Placed.live (placed : state.Placed)
    (busy : state.gsTickTimer.expires ≠ none ∨ state.bottomHalf ≠ none) :
    ¬ state.phase.Arming ∧ ¬ state.phase.Over := by
  constructor
  · intro arming
    obtain ⟨unqueued, idle⟩ := placed.unarmed arming
    rcases busy with queued | running
    · exact queued unqueued
    · exact running idle
  · intro ended
    obtain ⟨timer, idle⟩ := placed.ended ended
    rcases busy with queued | running
    · exact queued (by rw [timer])
    · exact running idle

theorem timerSoftirqBottomHalf_phase (state : Ticking width) (point : BottomPoint width) :
    (state.timerSoftirqBottomHalf hz point).phase = state.phase := by
  cases point <;> rfl

/-- What taking the timer off its queue does: a start of the bottom half, or nothing more
when the timer has lost its function. -/
theorem expire_cases (taken : state.expire = some next) :
    state.bottomHalf = none ∧ ∃ expires, state.gsTickTimer.expires = some expires ∧
      timeAfterEq state.now expires = true ∧
      ((state.gsTickTimer.function = true ∧
        next = { state with
          gsTickTimer := ⟨true, none⟩
          bottomHalf := some .load
          starts := state.starts ++ [state.jiffies] }) ∨
      (state.gsTickTimer.function = false ∧
        next = { state with gsTickTimer := ⟨false, none⟩ })) := by
  unfold expire at taken
  split at taken
  · rename_i expires queued idle
    split at taken
    · rename_i due
      refine ⟨idle, expires, queued, due, ?_⟩
      cases function : state.gsTickTimer.function <;>
        simp only [function, if_true, if_false, Bool.false_eq_true] at taken
      · exact .inr ⟨rfl, (Option.some.inj taken).symm⟩
      · exact .inl ⟨rfl, (Option.some.inj taken).symm⟩
    · cases taken
  · cases taken

theorem Placed.step (placed : state.Placed) (taken : state.step hz event = some next) :
    next.Placed := by
  cases event with
  | jiffy =>
    obtain rfl := Option.some.inj taken
    exact ⟨placed.unarmed, placed.ended⟩
  | thread =>
    simp only [Ticking.step, thread] at taken
    cases phase : state.phase with
    | setup =>
      have idle := (placed.unarmed (by rw [phase]; trivial)).2
      simp only [phase, Option.some.injEq] at taken
      subst taken
      exact ⟨fun _ => ⟨rfl, idle⟩, False.elim⟩
    | readJiffies =>
      have quiet := placed.unarmed (by rw [phase]; trivial)
      simp only [phase, Option.some.injEq] at taken
      subst taken
      exact ⟨fun _ => quiet, False.elim⟩
    | modTimer expires =>
      simp only [phase, Option.some.injEq] at taken
      subst taken
      exact .elsewhere id id
    | loadedLine =>
      simp only [phase, Option.some.injEq] at taken
      subst taken
      exact .elsewhere id id
    | loaded => simp [phase] at taken
    | shutdown =>
      simp only [phase, Option.ite_none_right_eq_some, Option.some.injEq] at taken
      obtain ⟨shut, rfl⟩ := taken
      exact ⟨False.elim, fun _ => shut⟩
    | unloadedLine =>
      have shut := placed.ended (by rw [phase]; trivial)
      simp only [phase, Option.some.injEq] at taken
      subst taken
      exact ⟨False.elim, fun _ => shut⟩
    | returned => simp [phase] at taken
  | exit =>
    simp only [Ticking.step] at taken
    split at taken <;> cases taken
    exact .elsewhere id id
  | expire =>
    obtain ⟨-, expires, queued, -, ⟨-, rfl⟩ | ⟨-, rfl⟩⟩ := expire_cases taken
    all_goals
      obtain ⟨armed, going⟩ := placed.live (.inl (by simp [queued]))
      exact .elsewhere armed going
  | bottomHalf =>
    obtain ⟨point, running, rfl⟩ := Option.map_eq_some_iff.mp taken
    obtain ⟨armed, going⟩ := placed.live (.inr (by simp [running]))
    apply Placed.elsewhere <;> rwa [timerSoftirqBottomHalf_phase]
  | forbid =>
    simp only [Ticking.step] at taken
    split at taken <;> cases taken
    rename_i phase
    exact .elsewhere (by rw [phase]; exact id) (by rw [phase]; exact id)
  | dequeue =>
    simp only [Ticking.step] at taken
    split at taken <;> cases taken
    rename_i phase
    exact .elsewhere (by rw [phase]; exact id) (by rw [phase]; exact id)

/-- An expiry the timer has, or is about to be given. -/
def Sets (state : Ticking width) (expires : BitVec width) : Prop :=
  state.gsTickTimer.expires = some expires ∨ state.bottomHalf = some (.modTimer expires) ∨
    state.phase = .modTimer expires

theorem modTimer_expires {timer : TimerList width} {given : BitVec width}
    (queued : (timer.modTimer given).expires = some expires) :
    timer.expires = some expires ∨ given = expires := by
  unfold TimerList.modTimer at queued
  split at queued
  · exact .inr (Option.some.inj queued)
  · exact .inl queued

/-- The counts printed so far. -/
def ticks (state : Ticking width) : List (BitVec width) := state.log.filterMap Line.tickCount

/-- The module's thread starts and counts nothing, and arms the timer from its own reading
of the clock only. -/
theorem thread_frame (taken : state.thread hz = some next) :
    (next.starts = state.starts ∧ next.jiffies = state.jiffies ∧
      next.bottomHalf = state.bottomHalf ∧ next.gsTickCount = state.gsTickCount ∧
      next.ticks = state.ticks) ∧
    (∀ expires, next.gsTickTimer.expires = some expires → state.Sets expires) ∧
    ∀ expires, next.phase = .modTimer expires → expires = state.nextExpiry hz := by
  unfold thread at taken
  cases phase : state.phase with
  | setup =>
    simp only [phase, Option.some.injEq] at taken
    subst taken
    exact ⟨⟨rfl, rfl, rfl, rfl, rfl⟩, nofun, nofun⟩
  | readJiffies =>
    simp only [phase, Option.some.injEq] at taken
    subst taken
    refine ⟨⟨rfl, rfl, rfl, rfl, rfl⟩, fun _ queued => .inl queued, ?_⟩
    intro expires arming
    exact (Phase.modTimer.inj arming).symm
  | modTimer given =>
    simp only [phase, Option.some.injEq] at taken
    subst taken
    refine ⟨⟨rfl, rfl, rfl, rfl, rfl⟩, ?_, nofun⟩
    intro expires queued
    rcases modTimer_expires queued with before | rfl
    · exact .inl before
    · exact .inr (.inr phase)
  | loadedLine =>
    simp only [phase, Option.some.injEq] at taken
    subst taken
    refine ⟨⟨rfl, rfl, rfl, rfl, ?_⟩, fun _ queued => .inl queued, nofun⟩
    simp [ticks, Line.tickCount]
  | loaded => simp [phase] at taken
  | shutdown =>
    simp only [phase, Option.ite_none_right_eq_some, Option.some.injEq] at taken
    obtain ⟨-, rfl⟩ := taken
    exact ⟨⟨rfl, rfl, rfl, rfl, rfl⟩, fun _ queued => .inl queued, nofun⟩
  | unloadedLine =>
    simp only [phase, Option.some.injEq] at taken
    subst taken
    refine ⟨⟨rfl, rfl, rfl, rfl, ?_⟩, fun _ queued => .inl queued, nofun⟩
    simp [ticks, Line.tickCount]
  | returned => simp [phase] at taken

theorem thread_sets (taken : state.thread hz = some next) (sets : next.Sets expires) :
    state.Sets expires ∨ expires = state.nextExpiry hz := by
  obtain ⟨⟨-, -, bottomHalf, -, -⟩, queues, arms⟩ := thread_frame taken
  rcases sets with queued | carried | arming
  · exact .inl (queues expires queued)
  · exact .inl (.inr (.inl (bottomHalf ▸ carried)))
  · exact .inr (arms expires arming)

theorem bottomHalf_sets (running : state.bottomHalf = some point)
    (sets : (state.timerSoftirqBottomHalf hz point).Sets expires) :
    state.Sets expires ∨ expires = state.nextExpiry hz := by
  have arm : (state.timerSoftirqBottomHalf hz point).phase = .modTimer expires →
      state.Sets expires := by
    rw [timerSoftirqBottomHalf_phase]
    exact fun arming => .inr (.inr arming)
  rcases sets with queued | carried | arming
  · cases point with
    | modTimer given =>
      rcases modTimer_expires queued with before | rfl
      · exact .inl (.inl before)
      · exact .inl (.inr (.inl running))
    | load | store | line | readJiffies | ret => exact .inl (.inl queued)
  · cases point with
    | readJiffies => exact .inr (BottomPoint.modTimer.inj (Option.some.inj carried)).symm
    | load | store | line | modTimer | ret => cases carried
  · exact .inl (arm arming)

/-- An expiry an interval after a reading of the clock that no start came after. -/
def Deadline (hz started : Nat) (state : Ticking width) (expires : BitVec width) : Prop :=
  ∃ reading, expires = BitVec.ofNat width (reading + interval hz) ∧ reading ≤ state.jiffies ∧
    ∀ start ∈ started :: state.starts, start ≤ reading

/-- Starts are an interval apart and every expiry is a deadline. -/
structure Timed (hz started : Nat) (state : Ticking width) : Prop where
  spaced : Spaced (interval hz) (started :: state.starts)
  past : ∀ start ∈ started :: state.starts, start ≤ state.jiffies
  deadlines : ∀ expires, state.Sets expires → state.Deadline hz started expires

theorem Timed.nextExpiry (timed : state.Timed hz started) :
    state.Deadline hz started (state.nextExpiry hz) := by
  refine ⟨state.jiffies, ?_, Nat.le_refl _, timed.past⟩
  rw [Ticking.nextExpiry, now, BitVec.ofNat_add]

/-- Without a start nothing is lost as the clock goes on. -/
theorem Timed.keep (timed : state.Timed hz started) (same : next.starts = state.starts)
    (onward : state.jiffies ≤ next.jiffies)
    (sets : ∀ expires, next.Sets expires →
      state.Sets expires ∨ expires = state.nextExpiry hz) : next.Timed hz started := by
  refine ⟨?_, ?_, ?_⟩
  · rw [same]
    exact timed.spaced
  · rw [same]
    exact fun start present => Nat.le_trans (timed.past start present) onward
  · intro expires given
    have deadline : state.Deadline hz started expires := by
      rcases sets expires given with before | rfl
      · exact timed.deadlines expires before
      · exact timed.nextExpiry
    obtain ⟨reading, word, early, after⟩ := deadline
    exact ⟨reading, word, Nat.le_trans early onward, by rwa [same]⟩

/-- The timer softirq does not start the bottom half before its deadline. -/
theorem Timed.start (timed : state.Timed hz started) (placed : state.Placed)
    (near : 2 * interval hz ≤ 2 ^ width) (queued : state.gsTickTimer.expires = some expires)
    (due : timeAfterEq state.now expires = true) :
    ({ state with
      gsTickTimer := ⟨true, none⟩
      bottomHalf := some .load
      starts := state.starts ++ [state.jiffies] } : Ticking width).Timed hz started := by
  obtain ⟨reading, rfl, early, after⟩ := timed.deadlines expires (.inl queued)
  have passed : reading + interval hz ≤ state.jiffies := by
    by_contra before
    have refused : timeAfterEq state.now (BitVec.ofNat width (reading + interval hz)) = false :=
      timeAfterEq_early (by omega) (by omega)
    rw [refused] at due
    cases due
  refine ⟨?_, ?_, ?_⟩
  · refine timed.spaced.snoc fun start present => ?_
    have := after start present
    omega
  · intro start present
    rcases List.mem_append.mp (show start ∈ (started :: state.starts) ++ [state.jiffies] from
      present) with earlier | now
    · exact timed.past start earlier
    · exact Nat.le_of_eq (List.mem_singleton.mp now)
  · intro other sets
    rcases sets with gone | loading | arming
    · cases gone
    · cases loading
    · have live := (placed.live (.inl (by simp [queued]))).1
      rw [show state.phase = .modTimer other from arming] at live
      exact absurd trivial live

theorem Timed.step (timed : state.Timed hz started) (placed : state.Placed)
    (near : 2 * interval hz ≤ 2 ^ width) (taken : state.step hz event = some next) :
    next.Timed hz started := by
  cases event with
  | jiffy =>
    obtain rfl := Option.some.inj taken
    exact timed.keep rfl (Nat.le_succ _) fun _ sets => .inl sets
  | thread =>
    obtain ⟨⟨starts, jiffies, -⟩, -⟩ := thread_frame taken
    exact timed.keep starts (Nat.le_of_eq jiffies.symm) fun _ sets => thread_sets taken sets
  | exit =>
    simp only [Ticking.step] at taken
    split at taken <;> cases taken
    refine timed.keep rfl (Nat.le_refl _) fun expires sets => ?_
    rcases sets with queued | carried | arming
    · exact .inl (.inl queued)
    · exact .inl (.inr (.inl carried))
    · cases arming
  | expire =>
    obtain ⟨-, expires, queued, due, ⟨-, rfl⟩ | ⟨-, rfl⟩⟩ := expire_cases taken
    · exact timed.start placed near queued due
    · refine timed.keep rfl (Nat.le_refl _) fun other sets => ?_
      rcases sets with gone | kept
      · cases gone
      · exact .inl (.inr kept)
  | bottomHalf =>
    obtain ⟨point, running, rfl⟩ := Option.map_eq_some_iff.mp taken
    refine timed.keep ?_ (Nat.le_of_eq ?_) fun _ sets => bottomHalf_sets running sets
    · cases point <;> rfl
    · cases point <;> rfl
  | forbid =>
    simp only [Ticking.step] at taken
    split at taken <;> cases taken
    exact timed.keep rfl (Nat.le_refl _) fun _ sets => .inl sets
  | dequeue =>
    simp only [Ticking.step] at taken
    split at taken <;> cases taken
    refine timed.keep rfl (Nat.le_refl _) fun expires sets => ?_
    rcases sets with gone | kept
    · cases gone
    · exact .inl (.inr kept)

/-- A bottom half that has not counted itself yet. -/
def uncounted : Option (BottomPoint width) → Nat
  | some .load | some (.store _) => 1
  | _ => 0

/-- A bottom half that has not printed its count yet. -/
def unprinted : Option (BottomPoint width) → Nat
  | some .load | some (.store _) | some .line => 1
  | _ => 0

/-- The counts from one on, in words. -/
def countsUpTo (width total : Nat) : List (BitVec width) :=
  (List.range total).map fun index => BitVec.ofNat width (index + 1)

theorem countsUpTo_succ (total : Nat) :
    countsUpTo width (total + 1) = countsUpTo width total ++ [BitVec.ofNat width (total + 1)] := by
  simp [countsUpTo, List.range_succ]

/-- The counter and the printed counts against the starts of the bottom half. -/
structure Counted (state : Ticking width) : Prop where
  counter : ∃ count, state.gsTickCount = BitVec.ofNat width count ∧
    count + uncounted state.bottomHalf = state.starts.length
  stored : ∀ n, state.bottomHalf = some (.store n) → n = state.gsTickCount
  printed : ∃ count, state.ticks = countsUpTo width count ∧
    count + unprinted state.bottomHalf = state.starts.length

theorem Counted.keep (counted : state.Counted) (starts : next.starts = state.starts)
    (count : next.gsTickCount = state.gsTickCount) (bottomHalf : next.bottomHalf = state.bottomHalf)
    (ticks : next.ticks = state.ticks) : next.Counted := by
  refine ⟨?_, ?_, ?_⟩
  · rw [starts, count, bottomHalf]
    exact counted.counter
  · rw [count, bottomHalf]
    exact counted.stored
  · rw [starts, ticks, bottomHalf]
    exact counted.printed

/-- One step of the bottom half: `gs_tick_count++` counts its own start, then its line shows
that count. -/
theorem Counted.bottomHalf (counted : state.Counted) (running : state.bottomHalf = some point) :
    (state.timerSoftirqBottomHalf hz point).Counted := by
  obtain ⟨⟨count, word, balance⟩, stored, shown, lines, settled⟩ := counted
  rw [running] at balance settled
  cases point with
  | load =>
    refine ⟨⟨count, word, balance⟩, ?_, shown, lines, settled⟩
    intro n storing
    exact (BottomPoint.store.inj (Option.some.inj storing)).symm
  | store n =>
    obtain rfl := stored n running
    refine ⟨⟨count + 1, ?_, balance⟩, nofun, shown, lines, settled⟩
    rw [BitVec.ofNat_add]
    exact congrArg (· + BitVec.ofNat width 1) word
  | line =>
    simp only [uncounted, Nat.add_zero] at balance
    simp only [unprinted] at settled
    refine ⟨⟨count, word, balance⟩, nofun, shown + 1, ?_, settled⟩
    rw [countsUpTo_succ, settled, ← balance, ← word, ← lines]
    exact List.filterMap_append
  | readJiffies => exact ⟨⟨count, word, balance⟩, nofun, shown, lines, settled⟩
  | modTimer expires => exact ⟨⟨count, word, balance⟩, nofun, shown, lines, settled⟩
  | ret => exact ⟨⟨count, word, balance⟩, nofun, shown, lines, settled⟩

theorem Counted.step (counted : state.Counted) (taken : state.step hz event = some next) :
    next.Counted := by
  cases event with
  | jiffy =>
    obtain rfl := Option.some.inj taken
    exact counted.keep rfl rfl rfl rfl
  | thread =>
    obtain ⟨⟨starts, -, bottomHalf, count, ticks⟩, -⟩ := thread_frame taken
    exact counted.keep starts count bottomHalf ticks
  | exit | forbid | dequeue =>
    simp only [Ticking.step] at taken
    split at taken <;> cases taken
    exact counted.keep rfl rfl rfl rfl
  | expire =>
    obtain ⟨idle, expires, -, -, ⟨-, rfl⟩ | ⟨-, rfl⟩⟩ := expire_cases taken
    · obtain ⟨⟨count, word, balance⟩, -, shown, lines, settled⟩ := counted
      rw [idle] at balance settled
      refine ⟨⟨count, word, ?_⟩, nofun, shown, lines, ?_⟩
      · rw [List.length_append, ← balance]
        rfl
      · rw [List.length_append, ← settled]
        rfl
    · exact counted.keep rfl rfl rfl rfl
  | bottomHalf =>
    obtain ⟨point, running, rfl⟩ := Option.map_eq_some_iff.mp taken
    exact counted.bottomHalf running

end Ticking

section Runs

variable {hz started : Nat} {state : Ticking width}

theorem reachable_placed (reached : (timerMachine width hz started).Reachable state) :
    state.Placed := by
  refine Machine.Reachable.invariant Ticking.Placed ?_ Ticking.Placed.step reached
  exact ⟨fun _ => ⟨rfl, rfl⟩, False.elim⟩

theorem reachable_counted (reached : (timerMachine width hz started).Reachable state) :
    state.Counted := by
  refine Machine.Reachable.invariant Ticking.Counted ?_ Ticking.Counted.step reached
  exact ⟨⟨0, rfl, rfl⟩, nofun, 0, rfl, rfl⟩

theorem reachable_timed (near : 2 * interval hz ≤ 2 ^ width)
    (reached : (timerMachine width hz started).Reachable state) : state.Timed hz started := by
  refine Machine.Reachable.induction (Ticking.Timed hz started) ?_ ?_ reached
  · refine ⟨List.pairwise_singleton _ _, ?_, ?_⟩
    · intro start only
      exact Nat.le_of_eq (List.mem_singleton.mp only)
    · rintro expires (queued | carried | arming)
      · cases queued
      · cases carried
      · cases arming
  · intro state event next before timed taken
    exact timed.step (reachable_placed before) near taken

/-- In every interleaving the bottom half prints the counts from one on, each once, and it
starts an interval after the load and after each earlier start, also past a wrap of
`jiffies`. -/
theorem ticks_counted_and_spaced (near : 2 * interval hz ≤ 2 ^ width)
    (reached : (timerMachine width hz started).Reachable state) :
    (∃ printed, state.ticks = Ticking.countsUpTo width printed ∧
      printed ≤ state.starts.length ∧ state.starts.length ≤ printed + 1 ∧
      (state.bottomHalf = none → printed = state.starts.length)) ∧
    Spaced (interval hz) (started :: state.starts) ∧
    started + state.starts.length * interval hz ≤ state.jiffies := by
  have timed := reachable_timed near reached
  obtain ⟨printed, lines, settled⟩ := (reachable_counted reached).printed
  refine ⟨⟨printed, lines, by omega, ?_, ?_⟩, timed.spaced, timed.spaced.fit timed.past⟩
  · have one : Ticking.unprinted state.bottomHalf ≤ 1 := by
      unfold Ticking.unprinted
      split <;> omega
    omega
  · intro idle
    rw [idle] at settled
    exact settled

/-- Two ticks at 3 jiffies a second in a word of 3 bits, loaded at jiffy 6. -/
def twoTicks : List Event :=
  List.replicate 4 .thread ++ List.replicate 3 .jiffy ++
    .expire :: List.replicate 6 .bottomHalf ++ List.replicate 3 .jiffy ++
    .expire :: List.replicate 3 .bottomHalf

theorem ticks_counted_and_spaced_past_wrap :
    ∃ state, (timerMachine 3 3 6).Reachable state ∧ state.ticks = [1, 2] ∧
      state.starts = [9, 12] ∧ Spaced 3 [6, 9, 12] := by
  obtain ⟨state, reached, checked⟩ :=
    (timerMachine 3 3 6).reachable_of_run twoTicks
      (fun state => state.ticks = [1, 2] ∧ state.starts = [9, 12]) (by decide +kernel)
  obtain ⟨lines, starts⟩ := of_decide_eq_true checked
  obtain ⟨-, spaced, -⟩ := ticks_counted_and_spaced (by decide) reached
  rw [starts] at spaced
  exact ⟨state, reached, lines, starts, spaced⟩

end Runs

end KernelSamples.Timer

import KernelSamples.Competition.Handlers

/-! Mutual exclusion makes the guarded counters follow the finished critical sections, up
to the width of the words that hold them. -/

namespace KernelSamples.Competition

open Lib

/-- The point lies between taking `gs_counter_lock` and giving it back. -/
def TopPoint.inside : TopPoint → Bool
  | .acquire | .report _ _ | .schedule | .handled => false
  | _ => true

def BottomPoint.inside : BottomPoint → Bool
  | .acquire | .report _ _ => false
  | _ => true

namespace Counters

/-- The counters are the finished sections plus what the open section has added so far. -/
structure Shows (width : LongWidth) (counters : Counters) (ran counted stamped : Nat) : Prop where
  run : counters.gsHardirqRunCount = wrap intBits (counters.sections .top + ran)
  shared : counters.gsSharedCount = wrap width.bits (counters.finished.length + counted)
  pending : counters.gsPendingSeq = wrap intBits (counters.sections .top + stamped)

/-- The number an open top-half section gives its hardirq. -/
def TopNumber (counters : Counters) (n : Nat) : Prop :=
  n = wrap intBits (counters.sections .top + 1)

/-- The value an open section takes of the shared counter. -/
def SectionValue (width : LongWidth) (counters : Counters) (val : Nat) : Prop :=
  val = wrap width.bits (counters.finished.length + 1)

/-- The counters while a top half holds the lock, by its point. -/
def TopHolds (width : LongWidth) (counters : Counters) : TopPoint → Prop
  | .loadRun => counters.Shows width 0 0 0
  | .storeRun loaded => counters.Shows width 0 0 0 ∧ loaded = counters.gsHardirqRunCount
  | .takeN => counters.Shows width 1 0 0
  | .loadShared n => counters.Shows width 1 0 0 ∧ counters.TopNumber n
  | .storeShared n loaded =>
    counters.Shows width 1 0 0 ∧ counters.TopNumber n ∧ loaded = counters.gsSharedCount
  | .takeVal n => counters.Shows width 1 1 0 ∧ counters.TopNumber n
  | .stamp n val =>
    counters.Shows width 1 1 0 ∧ counters.TopNumber n ∧ counters.SectionValue width val
  | .release n val =>
    counters.Shows width 1 1 1 ∧ counters.TopNumber n ∧ counters.SectionValue width val
  | _ => False

/-- The counters while the bottom half holds the lock, by its point. -/
def BottomHolds (width : LongWidth) (counters : Counters) : BottomPoint → Prop
  | .takeSeq | .loadShared _ => counters.Shows width 0 0 0
  | .storeShared _ loaded => counters.Shows width 0 0 0 ∧ loaded = counters.gsSharedCount
  | .takeVal _ => counters.Shows width 0 1 0
  | .release _ val => counters.Shows width 0 1 0 ∧ counters.SectionValue width val
  | _ => False

theorem TopHolds.inside {width : LongWidth} {counters : Counters} {point : TopPoint}
    (holds : counters.TopHolds width point) : point.inside = true := by
  cases point <;> first | rfl | exact holds.elim

theorem BottomHolds.inside {width : LongWidth} {counters : Counters} {point : BottomPoint}
    (holds : counters.BottomHolds width point) : point.inside = true := by
  cases point <;> first | rfl | exact holds.elim

theorem finish_length (counters : Counters) (half : Half) (val : Nat) :
    (counters.finish half val).finished.length = counters.finished.length + 1 := by
  simp [finish]

theorem finish_sections (counters : Counters) (half other : Half) (val : Nat) :
    (counters.finish half val).sections other =
      counters.sections other + if half = other then 1 else 0 := by
  simp [finish, sections, List.countP_append, List.countP_singleton]

/-- Every finished section belongs to one of the two handlers. -/
theorem finished_length (counters : Counters) :
    counters.finished.length = counters.sections .top + counters.sections .bottom := by
  rw [List.length_eq_countP_add_countP (fun entry => decide (entry.1 = Half.top))]
  congr 1
  apply List.countP_congr
  intro entry _
  cases entry.1 <;> simp

theorem Shows.finishTop {width : LongWidth} {counters : Counters} {val : Nat}
    (open_ : counters.Shows width 1 1 1) : (counters.finish .top val).Shows width 0 0 0 where
  run := by rw [finish_sections]; exact open_.run
  shared := by rw [finish_length]; exact open_.shared
  pending := by rw [finish_sections]; exact open_.pending

theorem Shows.finishBottom {width : LongWidth} {counters : Counters} {val : Nat}
    (open_ : counters.Shows width 0 1 0) : (counters.finish .bottom val).Shows width 0 0 0 where
  run := by rw [finish_sections]; exact open_.run
  shared := by rw [finish_length]; exact open_.shared
  pending := by rw [finish_sections]; exact open_.pending

/-- The values taken by the finished sections, up to the width of the counter. -/
def Taken (width : LongWidth) (counters : Counters) : Prop :=
  counters.finished.map Prod.snd =
    (List.range' 1 counters.finished.length).map (wrap width.bits)

theorem Taken.finish {width : LongWidth} {counters : Counters} {half : Half} {val : Nat}
    (taken : counters.Taken width) (value : counters.SectionValue width val) :
    (counters.finish half val).Taken width := by
  rw [Taken, finish_length, List.range'_1_concat, List.map_append, ← taken]
  simp [Counters.finish, show val = _ from value, Nat.add_comm]

end Counters

variable {Cpu : Type} {width : LongWidth}

namespace Handlers

/-- The counters as the holder of `gs_counter_lock` has left them. -/
def Values (width : LongWidth) (state : Handlers Cpu) : Prop :=
  match state.gsCounterLock with
  | none => state.counters.Shows width 0 0 0
  | some (.topHalf cpu) =>
    ∃ point, state.topHalf cpu = some point ∧ state.counters.TopHolds width point
  | some .bottomHalf =>
    ∃ point, state.bottomHalf = some point ∧ state.counters.BottomHolds width point

/-- Only the lock holder is inside a section, and the counters and the taken values
follow the finished sections. -/
structure Sound (width : LongWidth) (state : Handlers Cpu) : Prop where
  topOwns : ∀ cpu point, state.topHalf cpu = some point → point.inside = true →
    state.gsCounterLock = some (.topHalf cpu)
  bottomOwns : ∀ point, state.bottomHalf = some point → point.inside = true →
    state.gsCounterLock = some .bottomHalf
  values : state.Values width
  taken : state.counters.Taken width

variable {state : Handlers Cpu}

theorem Sound.topValues (sound : state.Sound width) {cpu : Cpu} {point : TopPoint}
    (here : state.topHalf cpu = some point) (inside : point.inside = true) :
    state.counters.TopHolds width point := by
  have values := sound.values
  rw [Values, sound.topOwns cpu point here inside] at values
  obtain ⟨actual, stands, holds⟩ := values
  rw [here] at stands
  exact Option.some.inj stands ▸ holds

theorem Sound.bottomValues (sound : state.Sound width) {point : BottomPoint}
    (here : state.bottomHalf = some point) (inside : point.inside = true) :
    state.counters.BottomHolds width point := by
  have values := sound.values
  rw [Values, sound.bottomOwns point here inside] at values
  obtain ⟨actual, stands, holds⟩ := values
  rw [here] at stands
  exact Option.some.inj stands ▸ holds

theorem Sound.freeValues (sound : state.Sound width) (free : state.gsCounterLock = none) :
    state.counters.Shows width 0 0 0 := by
  have values := sound.values
  rwa [Values, free] at values

variable {cpu : Cpu}

/-- The scheduled bit and the count of arrivals do not matter. -/
theorem Sound.frame (sound : state.Sound width) (scheduled : Bool) (arrivals : Nat) :
    { state with scheduled := scheduled, arrivals := arrivals }.Sound width :=
  ⟨sound.topOwns, sound.bottomOwns, sound.values, sound.taken⟩

/-- The lock holder's bottom half moves on inside its section. -/
theorem Sound.bottomInside (sound : state.Sound width) {point moved : BottomPoint}
    {counters : Counters} {picked : List Nat} (here : state.bottomHalf = some point)
    (inside : point.inside = true) (kept : counters.finished = state.counters.finished)
    (holds : counters.BottomHolds width moved) :
    { state.moveBottom (some moved) with
      counters := counters, picked := picked : Handlers Cpu }.Sound width := by
  have owned := sound.bottomOwns point here inside
  refine ⟨sound.topOwns, fun _ _ _ => owned, ?_, ?_⟩
  · simp only [Values, moveBottom, owned]
    exact ⟨moved, rfl, holds⟩
  · simpa only [Counters.Taken, moveBottom, kept] using sound.taken

/-- The bottom half moves between points outside its section. -/
theorem Sound.bottomOutside (sound : state.Sound width) {moved : Option BottomPoint}
    (away : ∀ point, state.bottomHalf = some point → point.inside = false)
    (outside : ∀ point, moved = some point → point.inside = false) :
    (state.moveBottom moved).Sound width := by
  refine ⟨sound.topOwns, ?_, ?_, sound.taken⟩
  · intro point stands enters
    simp [outside point stands] at enters
  · have values := sound.values
    simp only [Values, moveBottom] at values ⊢
    split at values
    · exact values
    · exact values
    · obtain ⟨point, stands, holds⟩ := values
      have left := away point stands
      rw [holds.inside] at left
      cases left

/-- The bottom half takes the free lock. -/
theorem Sound.bottomAcquire (sound : state.Sound width) (free : state.gsCounterLock = none) :
    { state.moveBottom (some .takeSeq) with
      gsCounterLock := some .bottomHalf : Handlers Cpu }.Sound width := by
  refine ⟨?_, fun _ _ _ => rfl, ?_, sound.taken⟩
  · intro cpu point stands enters
    have owned := sound.topOwns cpu point stands enters
    rw [free] at owned
    cases owned
  · exact ⟨.takeSeq, rfl, sound.freeValues free⟩

/-- The bottom half closes its section and gives the lock back. -/
theorem Sound.bottomRelease (sound : state.Sound width) {seq val : Nat}
    (here : state.bottomHalf = some (.release seq val)) :
    { state.moveBottom (some (.report seq val)) with
      gsCounterLock := none
      counters := state.counters.finish .bottom val : Handlers Cpu }.Sound width := by
  have owned := sound.bottomOwns _ here rfl
  obtain ⟨shown, value⟩ := sound.bottomValues here rfl
  refine ⟨?_, ?_, shown.finishBottom, sound.taken.finish value⟩
  · intro cpu point stands enters
    have other := sound.topOwns cpu point stands enters
    rw [owned] at other
    cases other
  · intro point stands enters
    cases stands
    cases enters

variable [DecidableEq Cpu]

/-- The lock holder's top half moves on inside its section. -/
theorem Sound.topInside (sound : state.Sound width) {point moved : TopPoint}
    {counters : Counters} (here : state.topHalf cpu = some point) (inside : point.inside = true)
    (kept : counters.finished = state.counters.finished)
    (holds : counters.TopHolds width moved) :
    { state.moveTop cpu (some moved) with counters := counters : Handlers Cpu }.Sound width := by
  have owned := sound.topOwns cpu point here inside
  refine ⟨?_, sound.bottomOwns, ?_, ?_⟩
  · intro other at' stands enters
    by_cases same : other = cpu
    · exact same ▸ owned
    · simp only [moveTop, Function.update_of_ne same] at stands
      exact sound.topOwns other at' stands enters
  · simp only [Values, moveTop, owned]
    exact ⟨moved, Function.update_self .., holds⟩
  · simpa only [Counters.Taken, moveTop, kept] using sound.taken

/-- A top half moves between points outside its section, or enters or leaves the CPU. -/
theorem Sound.topOutside (sound : state.Sound width) {moved : Option TopPoint}
    (away : ∀ point, state.topHalf cpu = some point → point.inside = false)
    (outside : ∀ point, moved = some point → point.inside = false) :
    (state.moveTop cpu moved).Sound width := by
  refine ⟨?_, sound.bottomOwns, ?_, sound.taken⟩
  · intro other point stands enters
    by_cases same : other = cpu
    · simp only [moveTop, same, Function.update_self] at stands
      simp [outside point stands] at enters
    · simp only [moveTop, Function.update_of_ne same] at stands
      exact sound.topOwns other point stands enters
  · have values := sound.values
    simp only [Values, moveTop] at values ⊢
    split at values
    · exact values
    · rename_i holder held
      obtain ⟨point, stands, holds⟩ := values
      have different : holder ≠ cpu := by
        intro same
        subst same
        have left := away point stands
        rw [holds.inside] at left
        cases left
      exact ⟨point, by rw [Function.update_of_ne different, stands], holds⟩
    · exact values

/-- A top half takes the free lock. -/
theorem Sound.topAcquire (sound : state.Sound width) (free : state.gsCounterLock = none) :
    { state.moveTop cpu (some .loadRun) with
      gsCounterLock := some (.topHalf cpu) : Handlers Cpu }.Sound width := by
  refine ⟨?_, ?_, ?_, sound.taken⟩
  · intro other point stands enters
    by_cases same : other = cpu
    · exact same ▸ rfl
    · simp only [moveTop, Function.update_of_ne same] at stands
      have owned := sound.topOwns other point stands enters
      rw [free] at owned
      cases owned
  · intro point stands enters
    have owned := sound.bottomOwns point stands enters
    rw [free] at owned
    cases owned
  · exact ⟨.loadRun, Function.update_self .., sound.freeValues free⟩

/-- A top half closes its section and gives the lock back. -/
theorem Sound.topRelease (sound : state.Sound width) {n val : Nat}
    (here : state.topHalf cpu = some (.release n val)) :
    { state.moveTop cpu (some (.report n val)) with
      gsCounterLock := none
      counters := state.counters.finish .top val : Handlers Cpu }.Sound width := by
  have owned := sound.topOwns cpu _ here rfl
  obtain ⟨shown, -, value⟩ := sound.topValues here rfl
  refine ⟨?_, ?_, shown.finishTop, sound.taken.finish value⟩
  · intro other point stands enters
    by_cases same : other = cpu
    · simp only [moveTop, same, Function.update_self] at stands
      cases stands
      cases enters
    · simp only [moveTop, Function.update_of_ne same] at stands
      have foreign := sound.topOwns other point stands enters
      rw [owned] at foreign
      exact absurd (Holder.topHalf.inj (Option.some.inj foreign)).symm same
  · intro point stands enters
    have foreign := sound.bottomOwns point stands enters
    rw [owned] at foreign
    cases foreign

end Handlers

open Handlers

theorem handlersInitial_sound : (handlersInitial : Handlers Cpu).Sound width where
  topOwns := by simp [handlersInitial]
  bottomOwns := by simp [handlersInitial]
  values := ⟨by simp [handlersInitial, Counters.sections], by simp [handlersInitial],
    by simp [handlersInitial, Counters.sections]⟩
  taken := rfl

variable [DecidableEq Cpu] {state next : Handlers Cpu} {cpu : Cpu}

theorem interruptCompetitionTopHalf_sound (sound : state.Sound width) {point : TopPoint}
    (here : state.topHalf cpu = some point)
    (taken : interruptCompetitionTopHalf width cpu state point = some next) :
    next.Sound width := by
  have away (outside : point.inside = false) :
      ∀ other, state.topHalf cpu = some other → other.inside = false := by
    intro other stands
    rw [here] at stands
    exact Option.some.inj stands ▸ outside
  cases point with
  | acquire =>
    simp only [interruptCompetitionTopHalf] at taken
    split at taken
    · rename_i free
      exact Option.some.inj taken ▸ sound.topAcquire free
    · cases taken
  | loadRun =>
    have shown := sound.topValues here rfl
    exact Option.some.inj taken ▸ sound.topInside here rfl rfl ⟨shown, rfl⟩
  | storeRun loaded =>
    obtain ⟨shown, same⟩ := sound.topValues here rfl
    refine Option.some.inj taken ▸ sound.topInside here rfl rfl ⟨?_, shown.shared, shown.pending⟩
    rw [same, shown.run]
    exact wrap_succ _ _
  | takeN =>
    have shown := sound.topValues here rfl
    exact Option.some.inj taken ▸ sound.topInside here rfl rfl ⟨shown, shown.run⟩
  | loadShared n =>
    obtain ⟨shown, number⟩ := sound.topValues here rfl
    exact Option.some.inj taken ▸ sound.topInside here rfl rfl ⟨shown, number, rfl⟩
  | storeShared n loaded =>
    obtain ⟨shown, number, same⟩ := sound.topValues here rfl
    refine Option.some.inj taken ▸
      sound.topInside here rfl rfl ⟨⟨shown.run, ?_, shown.pending⟩, number⟩
    rw [same, shown.shared]
    exact wrap_succ _ _
  | takeVal n =>
    obtain ⟨shown, number⟩ := sound.topValues here rfl
    exact Option.some.inj taken ▸ sound.topInside here rfl rfl ⟨shown, number, shown.shared⟩
  | stamp n val =>
    obtain ⟨shown, number, value⟩ := sound.topValues here rfl
    exact Option.some.inj taken ▸ sound.topInside here rfl rfl
      ⟨⟨shown.run, shown.shared, number⟩, number, value⟩
  | release n val => exact Option.some.inj taken ▸ sound.topRelease here
  | report n val =>
    exact Option.some.inj taken ▸ sound.topOutside (away rfl) (by simp [TopPoint.inside])
  | schedule =>
    exact Option.some.inj taken ▸
      (sound.frame true state.arrivals).topOutside (away rfl) (by simp [TopPoint.inside])
  | handled => exact Option.some.inj taken ▸ sound.topOutside (away rfl) (by simp)

omit [DecidableEq Cpu] in
theorem interruptCompetitionBottomHalf_sound (sound : state.Sound width) {point : BottomPoint}
    (here : state.bottomHalf = some point)
    (taken : interruptCompetitionBottomHalf width state point = some next) :
    next.Sound width := by
  cases point with
  | acquire =>
    simp only [interruptCompetitionBottomHalf] at taken
    split at taken
    · rename_i free
      exact Option.some.inj taken ▸ sound.bottomAcquire free
    · cases taken
  | takeSeq =>
    have shown := sound.bottomValues here rfl
    exact Option.some.inj taken ▸ sound.bottomInside here rfl rfl shown
  | loadShared seq =>
    have shown := sound.bottomValues here rfl
    exact Option.some.inj taken ▸ sound.bottomInside here rfl rfl ⟨shown, rfl⟩
  | storeShared seq loaded =>
    obtain ⟨shown, same⟩ := sound.bottomValues here rfl
    refine Option.some.inj taken ▸ sound.bottomInside here rfl rfl ⟨shown.run, ?_, shown.pending⟩
    rw [same, shown.shared]
    exact wrap_succ _ _
  | takeVal seq =>
    have shown := sound.bottomValues here rfl
    exact Option.some.inj taken ▸ sound.bottomInside here rfl rfl ⟨shown, shown.shared⟩
  | release seq val => exact Option.some.inj taken ▸ sound.bottomRelease here
  | report seq val =>
    cases taken
    refine sound.bottomOutside ?_ (by simp)
    intro other stands
    rw [here] at stands
    exact Option.some.inj stands ▸ rfl

theorem handlerStep_sound (sound : state.Sound width) {event : HandlerEvent Cpu}
    (taken : handlerStep width state event = some next) : next.Sound width := by
  cases event with
  | arrive cpu =>
    simp only [handlerStep] at taken
    split at taken
    · cases taken
    · rename_i idle
      exact Option.some.inj taken ▸
        (sound.topOutside (by simp [idle]) (by simp [TopPoint.inside])).frame _ _
  | topHalf cpu =>
    obtain ⟨point, here, stepped⟩ := Option.bind_eq_some_iff.mp taken
    exact interruptCompetitionTopHalf_sound sound here stepped
  | softirq =>
    simp only [handlerStep] at taken
    split at taken
    · rename_i scheduled idle
      exact Option.some.inj taken ▸
        (sound.bottomOutside (by simp [idle]) (by simp [BottomPoint.inside])).frame _ _
    · cases taken
  | bottomHalf =>
    obtain ⟨point, here, stepped⟩ := Option.bind_eq_some_iff.mp taken
    exact interruptCompetitionBottomHalf_sound sound here stepped

/-- In every reachable state the counters follow the finished sections. -/
theorem reachable_sound (reached : (handlerMachine Cpu width).Reachable state) :
    state.Sound width :=
  reached.invariant (Sound width) handlersInitial_sound
    fun sound taken => handlerStep_sound sound taken

end KernelSamples.Competition

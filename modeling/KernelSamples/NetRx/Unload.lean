import KernelSamples.NetRx.Capture

/-! The life of `net_rx_softirq.c`: its hook is registered, called from any number of
packets and unregistered while packets still arrive. -/

namespace KernelSamples.NetRx

open Lib

/-- Points of `net_rx_softirq_module_init` and `net_rx_softirq_module_exit`. The counters
read so far are the arguments of the last line. -/
inductive Phase (width : Nat) where
  | registering
  | loadedLine
  | loaded
  | unregistering
  | readSeen
  | readCaptured (seen : BitVec width)
  | unloadedLine (seen captured : BitVec width)
  | returned
  deriving DecidableEq

/-- Statements of init and exit still to come, with the call of exit. -/
def Phase.rank {width : Nat} : Phase width → Nat
  | .registering => 7
  | .loadedLine => 6
  | .loaded => 5
  | .unregistering => 4
  | .readSeen => 3
  | .readCaptured _ => 2
  | .unloadedLine _ _ => 1
  | .returned => 0

inductive Line (width : Nat) where
  | loaded
  | unloaded (seen captured : BitVec width)
  deriving DecidableEq

/-- `linked` is the hook being in the list of its hook point, `ret` what init returned and
`lines` what init and exit logged. -/
structure Hooking (Call : Type) (width : Nat) where
  phase : Phase width
  linked : Bool
  sampling : Sampling Call width
  ret : Option Bool
  lines : List (Line width)

/-- `nf_register_net_hook` links the hook, then returns 0, or fails without linking it.
`nf_unregister_net_hook` unlinks it, then waits for the calls in flight. -/
inductive Event (Call : Type) where
  | link
  | succeed
  | fail
  | thread
  | exit
  | unlink
  | synchronize
  | packet (call : Call) (skb : Skb)
  | hook (call : Call)

namespace Hooking

variable {Call : Type} [DecidableEq Call] [Fintype Call] {width : Nat}

/-- No call of the hook is in flight. -/
def Idle (state : Hooking Call width) : Prop := ∀ call, state.sampling.hook call = none

instance (state : Hooking Call width) : Decidable state.Idle :=
  inferInstanceAs (Decidable (∀ _, _))

def thread (state : Hooking Call width) : Option (Hooking Call width) :=
  match state.phase with
  | .loadedLine => some { state with phase := .loaded, lines := state.lines ++ [.loaded] }
  | .readSeen => some { state with phase := .readCaptured state.sampling.gsSeenCount }
  | .readCaptured seen =>
    some { state with phase := .unloadedLine seen state.sampling.gsCapturedCount }
  | .unloadedLine seen captured =>
    some { state with phase := .returned, lines := state.lines ++ [.unloaded seen captured] }
  | _ => none

/-- A packet is given to the hook only while it is linked. -/
def step (state : Hooking Call width) : Event Call → Option (Hooking Call width)
  | .link => if state.phase = .registering then some { state with linked := true } else none
  | .succeed =>
    if state.phase = .registering ∧ state.linked = true then
      some { state with phase := .loadedLine, ret := some true }
    else none
  | .fail =>
    if state.phase = .registering ∧ state.linked = false then
      some { state with phase := .returned, ret := some false }
    else none
  | .thread => state.thread
  | .exit => if state.phase = .loaded then some { state with phase := .unregistering } else none
  | .unlink => if state.phase = .unregistering then some { state with linked := false } else none
  | .synchronize =>
    if state.phase = .unregistering ∧ state.linked = false ∧ state.Idle then
      some { state with phase := .readSeen }
    else none
  | .packet call skb =>
    if state.linked then
      ((samplingMachine Call width).step state.sampling (.packet call skb)).map fun sampling =>
        { state with sampling }
    else none
  | .hook call =>
    ((samplingMachine Call width).step state.sampling (.hook call)).map fun sampling =>
      { state with sampling }

end Hooking

variable {Call : Type} [DecidableEq Call] [Fintype Call] {width : Nat}

def netRxMachine (Call : Type) [DecidableEq Call] [Fintype Call] (width : Nat) :
    Machine (Hooking Call width) (Event Call) where
  initial := ⟨.registering, false, (samplingMachine Call width).initial, none, []⟩
  step := Hooking.step

/-- What the hook and its counters do is what they do in the module that stays loaded. -/
def netRxRefinement (Call : Type) [DecidableEq Call] [Fintype Call] (width : Nat) :
    (netRxMachine Call width).Refinement (samplingMachine Call width) where
  project := Hooking.sampling
  starts := rfl
  matched := by
    intro state event next taken
    cases event with
    | link | succeed | fail | exit | unlink | synchronize =>
      simp only [netRxMachine, Hooking.step] at taken
      split at taken <;> cases taken
      exact .inl rfl
    | thread =>
      simp only [netRxMachine, Hooking.step, Hooking.thread] at taken
      split at taken <;> cases taken <;> exact .inl rfl
    | packet call skb =>
      simp only [netRxMachine, Hooking.step] at taken
      split at taken
      · obtain ⟨sampling, advanced, rfl⟩ := Option.map_eq_some_iff.mp taken
        exact .inr ⟨_, advanced⟩
      · cases taken
    | hook call =>
      obtain ⟨sampling, advanced, rfl⟩ := Option.map_eq_some_iff.mp taken
      exact .inr ⟨_, advanced⟩

namespace Hooking

variable {state next : Hooking Call width} {event : Event Call}

/-- What init and exit have done where they stand. Once the hook is unregistered no call is
in flight and none can start. -/
def Staged (state : Hooking Call width) : Prop :=
  match state.phase with
  | .registering => state.ret = none ∧ state.lines = [] ∧
      (state.linked = false → state.sampling = (samplingMachine Call width).initial)
  | .loadedLine => state.ret = some true ∧ state.lines = []
  | .loaded | .unregistering => state.ret = some true ∧ state.lines = [.loaded]
  | .readSeen => (state.ret = some true ∧ state.lines = [.loaded]) ∧
      state.linked = false ∧ state.Idle
  | .readCaptured seen => (state.ret = some true ∧ state.lines = [.loaded]) ∧
      (state.linked = false ∧ state.Idle) ∧ seen = state.sampling.gsSeenCount
  | .unloadedLine seen captured => (state.ret = some true ∧ state.lines = [.loaded]) ∧
      (state.linked = false ∧ state.Idle) ∧ seen = state.sampling.gsSeenCount ∧
      captured = state.sampling.gsCapturedCount
  | .returned => (state.linked = false ∧ state.Idle) ∧
      ((state.ret = some true ∧ state.lines = [.loaded, .unloaded state.sampling.gsSeenCount
          state.sampling.gsCapturedCount]) ∨
        (state.ret = some false ∧ state.lines = [] ∧
          state.sampling = (samplingMachine Call width).initial))

omit [Fintype Call] in
/-- Calls come and go only where the stage promises nothing of them. -/
theorem Staged.advance (staged : state.Staged) (busy : state.linked = true ∨ ¬ state.Idle)
    (sampling : Sampling Call width) : { state with sampling := sampling }.Staged := by
  have loud : ¬ (state.linked = false ∧ state.Idle) := by
    rintro ⟨unlinked, idle⟩
    rcases busy with linked | calls
    · rw [unlinked] at linked
      cases linked
    · exact calls idle
  unfold Staged at staged ⊢
  cases phase : state.phase with
  | registering =>
    simp only [phase] at staged ⊢
    refine ⟨staged.1, staged.2.1, fun unlinked => ?_⟩
    refine (loud ⟨unlinked, fun call => ?_⟩).elim
    rw [staged.2.2 unlinked]
    rfl
  | loadedLine | loaded | unregistering =>
    simp only [phase] at staged ⊢
    exact staged
  | readSeen =>
    simp only [phase] at staged
    exact (loud staged.2).elim
  | readCaptured seen =>
    simp only [phase] at staged
    exact (loud staged.2.1).elim
  | unloadedLine seen captured =>
    simp only [phase] at staged
    exact (loud staged.2.1).elim
  | returned =>
    simp only [phase] at staged
    exact (loud staged.1).elim

omit [Fintype Call] in
theorem Staged.thread (staged : state.Staged) (taken : state.thread = some next) :
    next.Staged := by
  unfold Hooking.thread at taken
  unfold Staged at staged
  cases phase : state.phase with
  | loadedLine =>
    simp only [phase, Option.some.injEq] at taken staged
    subst taken
    exact ⟨staged.1, by rw [staged.2]; rfl⟩
  | readSeen =>
    simp only [phase, Option.some.injEq] at taken staged
    subst taken
    exact ⟨staged.1, staged.2, rfl⟩
  | readCaptured seen =>
    simp only [phase, Option.some.injEq] at taken staged
    subst taken
    exact ⟨staged.1, staged.2.1, staged.2.2, rfl⟩
  | unloadedLine seen captured =>
    simp only [phase, Option.some.injEq] at taken staged
    obtain ⟨⟨ret, lines⟩, quiet, rfl, rfl⟩ := staged
    subst taken
    exact ⟨quiet, .inl ⟨ret, by rw [lines]; rfl⟩⟩
  | registering | loaded | unregistering | returned => simp [phase] at taken

theorem Staged.step (staged : state.Staged) (taken : state.step event = some next) :
    next.Staged := by
  cases event with
  | link =>
    simp only [Hooking.step, Option.ite_none_right_eq_some, Option.some.injEq] at taken
    obtain ⟨phase, rfl⟩ := taken
    simp only [Staged, phase] at staged ⊢
    exact ⟨staged.1, staged.2.1, nofun⟩
  | succeed =>
    simp only [Hooking.step, Option.ite_none_right_eq_some, Option.some.injEq] at taken
    obtain ⟨⟨phase, linked⟩, rfl⟩ := taken
    simp only [Staged, phase] at staged
    exact ⟨rfl, staged.2.1⟩
  | fail =>
    simp only [Hooking.step, Option.ite_none_right_eq_some, Option.some.injEq] at taken
    obtain ⟨⟨phase, unlinked⟩, rfl⟩ := taken
    simp only [Staged, phase] at staged
    have untouched := staged.2.2 unlinked
    refine ⟨⟨unlinked, fun call => ?_⟩, .inr ⟨rfl, staged.2.1, untouched⟩⟩
    simp only [untouched]
    rfl
  | thread => exact staged.thread taken
  | exit =>
    simp only [Hooking.step, Option.ite_none_right_eq_some, Option.some.injEq] at taken
    obtain ⟨phase, rfl⟩ := taken
    simp only [Staged, phase] at staged
    exact staged
  | unlink =>
    simp only [Hooking.step, Option.ite_none_right_eq_some, Option.some.injEq] at taken
    obtain ⟨phase, rfl⟩ := taken
    simp only [Staged, phase] at staged ⊢
    exact staged
  | synchronize =>
    simp only [Hooking.step, Option.ite_none_right_eq_some, Option.some.injEq] at taken
    obtain ⟨⟨phase, unlinked, idle⟩, rfl⟩ := taken
    simp only [Staged, phase] at staged
    exact ⟨staged, unlinked, idle⟩
  | packet call skb =>
    simp only [Hooking.step] at taken
    split at taken
    · rename_i linked
      obtain ⟨sampling, -, rfl⟩ := Option.map_eq_some_iff.mp taken
      exact staged.advance (.inl linked) sampling
    · cases taken
  | hook call =>
    obtain ⟨sampling, advanced, rfl⟩ := Option.map_eq_some_iff.mp taken
    refine staged.advance (.inr fun idle => ?_) sampling
    simp [samplingMachine, idle call] at advanced

theorem Staged.stuck (staged : state.Staged) (returned : state.phase = .returned)
    (event : Event Call) : state.step event = none := by
  simp only [Staged, returned] at staged
  obtain ⟨⟨unlinked, idle⟩, -⟩ := staged
  cases event with
  | link | succeed | fail | exit | unlink | synchronize =>
    simp [Hooking.step, returned]
  | thread => simp [Hooking.step, Hooking.thread, returned]
  | packet call skb => simp [Hooking.step, unlinked]
  | hook call => simp [Hooking.step, samplingMachine, idle call]

/-- Steps of the calls in flight, and the unlinking. -/
def unfinished (state : Hooking Call width) : Nat :=
  state.linked.toNat + tally Sampling.remaining state.sampling.hook

/-- What is left to do until exit has returned. -/
def unloadRank (state : Hooking Call width) : Nat × Nat := (state.phase.rank, state.unfinished)

omit [DecidableEq Call] in
theorem unloadRank_of_unfinished (same : next.phase = state.phase)
    (nearer : next.unfinished < state.unfinished) :
    Machine.Stages next.unloadRank state.unloadRank := by
  rw [unloadRank, unloadRank, same]
  exact .right _ nearer

/-- Inside `nf_unregister_net_hook` something can always be done: unlink the hook, let a call
in flight make a step, return. -/
theorem unregister_advances (phase : state.phase = .unregistering) : ∃ event next,
    state.step event = some next ∧ Machine.Stages next.unloadRank state.unloadRank := by
  cases linked : state.linked with
  | true =>
    have taken : state.step .unlink = some { state with linked := false } := by
      simp only [Hooking.step, phase, if_true]
    refine ⟨.unlink, _, taken, unloadRank_of_unfinished rfl ?_⟩
    simp only [unfinished, linked, Bool.toNat_true, Bool.toNat_false]
    omega
  | false =>
    by_cases idle : state.Idle
    · have taken : state.step .synchronize = some { state with phase := .readSeen } := by
        simp only [Hooking.step, phase, linked, idle, and_self, if_true]
      refine ⟨.synchronize, _, taken, Prod.Lex.left _ _ ?_⟩
      simp [phase, Phase.rank]
    · obtain ⟨call, busy⟩ := not_forall.mp idle
      obtain ⟨point, here⟩ := Option.ne_none_iff_exists'.mp busy
      have taken : state.step (.hook call) =
          some { state with sampling := state.sampling.netRxSoftirqHook call point } := by
        simp [Hooking.step, samplingMachine, here]
      refine ⟨.hook call, _, taken, unloadRank_of_unfinished rfl ?_⟩
      obtain ⟨moved, hook, nearer, -⟩ :=
        Sampling.netRxSoftirqHook_moves state.sampling call point
      have total := tally_update Sampling.remaining state.sampling.hook call moved
      rw [here] at total
      simp only [unfinished, hook]
      omega

theorem unload_advances (going : state.phase ≠ .returned) : ∃ event next,
    state.step event = some next ∧ Machine.Stages next.unloadRank state.unloadRank := by
  cases phase : state.phase with
  | registering =>
    cases linked : state.linked with
    | true =>
      refine ⟨.succeed, { state with phase := .loadedLine, ret := some true }, ?_,
        Prod.Lex.left _ _ ?_⟩
      · simp only [Hooking.step, phase, linked, and_self, if_true]
      · simp [phase, Phase.rank]
    | false =>
      refine ⟨.fail, { state with phase := .returned, ret := some false }, ?_,
        Prod.Lex.left _ _ ?_⟩
      · simp only [Hooking.step, phase, linked, and_self, if_true]
      · simp [phase, Phase.rank]
  | loadedLine | readSeen | readCaptured | unloadedLine =>
    refine ⟨.thread, _, by simp only [Hooking.step, Hooking.thread, phase]; rfl,
      Prod.Lex.left _ _ ?_⟩
    simp [phase, Phase.rank]
  | loaded =>
    refine ⟨.exit, _, by simp only [Hooking.step, phase, if_true]; rfl, Prod.Lex.left _ _ ?_⟩
    simp [phase, Phase.rank]
  | unregistering => exact unregister_advances phase
  | returned => exact absurd phase going

end Hooking

section Runs

variable {state : Hooking Call width}

theorem reachable_staged (reached : (netRxMachine Call width).Reachable state) :
    state.Staged := by
  refine Machine.Reachable.invariant Hooking.Staged ?_ Hooking.Staged.step reached
  exact ⟨rfl, rfl, fun _ => rfl⟩

theorem reachable_filed (wide : 4 ≤ width) {sampling : Sampling Call width}
    (reached : (samplingMachine Call width).Reachable sampling) : sampling.Filed := by
  refine Machine.Reachable.induction Sampling.Filed ?_ ?_ reached
  · refine ⟨by simp [samplingMachine, tally, Sampling.reporting], ?_, ?_⟩
    · simp [samplingMachine, tally, Sampling.reporting, Sampling.due, Sampling.unreadable,
        sampleCount, sampleEvery]
    · intro n
      simp [samplingMachine, tally, Sampling.holding, Sampling.ticket]
  · intro state event next before filed taken
    cases event with
    | packet call skb =>
      simp only [samplingMachine] at taken
      split at taken <;> cases taken
      rename_i free
      have moved := filed.move call (some (.entry skb)) (by rw [free]; rfl) (by rw [free]; rfl)
        (.inl rfl)
      exact ⟨moved.counted, moved.balance, moved.tickets⟩
    | hook call =>
      obtain ⟨point, here, rfl⟩ := Option.map_eq_some_iff.mp taken
      exact filed.hook (reachable_accounted wide before).counter wide here

theorem unload_completes (state : Hooking Call width) :
    ∃ events last, (netRxMachine Call width).run state events = some last ∧
      last.phase = .returned := by
  obtain ⟨events, last, onward, -, returned⟩ :=
    @Machine.reaches_of_rank _ _ (netRxMachine Call width) _ _ Machine.stages_founded
      Hooking.unloadRank (fun _ => True) (fun state => state.phase = .returned)
      (fun _ going => by
        obtain ⟨event, next, taken, nearer⟩ := Hooking.unload_advances going
        exact ⟨event, next, taken, trivial, nearer⟩) state trivial
  exact ⟨events, last, onward, returned⟩

/-- Each capture line shows a sampled ticket of its own. An exit that has returned has
reported the IPv4 TCP packets that arrived and the lines logged, modulo the counters' width, and
these lines with the unreadable packets are all that were sampled. A failed init has been given no
packet. Either way nothing is left to run, and unloading is possible from every state. -/
theorem unload_reports_all_captures (wide : 4 ≤ width)
    (reached : (netRxMachine Call width).Reachable state) :
    (state.sampling.log.map Captured.n).Subperm (sampledTickets width state.sampling.seen) ∧
    (state.phase = .returned →
      ((state.ret = some true ∧
          state.lines = [.loaded, .unloaded (BitVec.ofNat width state.sampling.tcpArrived.length)
            (BitVec.ofNat width state.sampling.log.length)] ∧
          state.sampling.log.length + state.sampling.unreadable =
            sampleCount state.sampling.tcpArrived.length) ∨
        (state.ret = some false ∧ state.lines = [] ∧ state.sampling.arrived = [])) ∧
      ∀ event, (netRxMachine Call width).step state event = none) ∧
    ∃ events last, (netRxMachine Call width).run state events = some last ∧
      last.phase = .returned := by
  have inner := (netRxRefinement Call width).reachable reached
  have accounted := reachable_accounted wide inner
  have drawn := accounted.seen_eq
  obtain ⟨counted, balance, tickets⟩ := reachable_filed wide inner
  have staged := reachable_staged reached
  refine ⟨?_, fun returned => ⟨?_, staged.stuck returned⟩, unload_completes state⟩
  · refine List.subperm_ext_iff.mpr fun n _ => ?_
    rw [← drawn] at tickets
    exact Nat.le_trans (Nat.le_add_right _ _) (tickets n)
  · simp only [Hooking.Staged, returned] at staged
    obtain ⟨⟨-, idle⟩, ⟨ret, lines⟩ | ⟨ret, lines, untouched⟩⟩ := staged
    · have quiet : ∀ weigh : Option (HookPoint width) → Nat, weigh none = 0 →
          tally weigh state.sampling.hook = 0 := by
        intro weigh nothing
        simp [tally, idle _, nothing]
      have all : state.sampling.drawn.length = state.sampling.tcpArrived.length := by
        have awaited := quiet (Sampling.awaiting fun _ => true) rfl
        simp only [netRxRefinement] at drawn
        rw [← drawn, Sampling.seen, awaited, Nat.sub_zero]
      have total : state.sampling.log.length + state.sampling.unreadable =
          sampleCount state.sampling.tcpArrived.length := by
        have reporters := quiet Sampling.reporting rfl
        have debtors := quiet Sampling.due rfl
        have account := balance
        simp only [netRxRefinement, all] at account
        omega
      refine .inl ⟨ret, ?_, total⟩
      have reporters := quiet Sampling.reporting rfl
      have counter := accounted.counter
      simp only [netRxRefinement] at counted counter
      rw [lines, counter, all, counted, reporters, Nat.add_zero]
    · refine .inr ⟨ret, lines, ?_⟩
      rw [untouched]
      rfl

/-- One packet is captured, a UDP packet comes, and another one is in flight when exit unlinks the
hook. -/
def unloadUnderTraffic : List (Event Bool) :=
  let packet := some (some ⟨ipprotoTcp, 0, 0, some ⟨0, 0⟩⟩)
  [.link, .succeed, .thread, .packet true packet] ++ List.replicate 3 (.hook true) ++
    .packet false udpPacket :: List.replicate 2 (.hook false) ++
    [.packet false packet, .exit, .unlink] ++ List.replicate 4 (.hook true) ++
    List.replicate 4 (.hook false) ++ .synchronize :: List.replicate 3 .thread

theorem unload_reports_all_captures_under_traffic :
    ∃ state, (netRxMachine Bool 4).Reachable state ∧ state.sampling.arrived.length = 3 ∧
      state.lines = [.loaded, .unloaded 2 1] ∧ state.sampling.unreadable = 0 ∧
      ∀ event, (netRxMachine Bool 4).step state event = none := by
  obtain ⟨state, reached, checked⟩ :=
    (netRxMachine Bool 4).reachable_of_run unloadUnderTraffic
      (fun state => state.phase = .returned ∧ state.ret = some true ∧
        state.sampling.arrived.length = 3 ∧ state.sampling.tcpArrived.length = 2 ∧
        state.sampling.log.length = 1) (by decide +kernel)
  obtain ⟨returned, ret, arrived, seen, logged⟩ := of_decide_eq_true checked
  obtain ⟨-, ended, -⟩ := unload_reports_all_captures (by decide) reached
  obtain ⟨⟨-, lines, total⟩ | ⟨failed, -⟩, stuck⟩ := ended returned
  · rw [seen, logged] at lines
    rw [seen, logged] at total
    have unreadable : 1 + state.sampling.unreadable = 1 := total
    exact ⟨state, reached, arrived, lines, by omega, stuck⟩
  · rw [ret] at failed
    cases failed

end Runs

end KernelSamples.NetRx

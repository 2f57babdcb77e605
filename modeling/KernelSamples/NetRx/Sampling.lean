import KernelSamples.Lib.Machine
import KernelSamples.Lib.Tally
import Mathlib.Data.Nat.Periodic
import Mathlib.Logic.Function.Basic

/-! The netfilter hook of `net_rx_softirq.c`: packets draw tickets from one atomic counter,
every 16th is sampled and counted by another. -/

namespace KernelSamples.NetRx

open Lib

def sampleEvery : Nat := 16

def ipprotoTcp : UInt8 := 6

inductive Verdict where
  | nfDrop
  | nfAccept
  deriving DecidableEq

structure TcpHdr where
  source : UInt16
  dest : UInt16
  deriving DecidableEq

/-- What `ip_hdr` finds in a packet. `tcph` is what `skb_header_pointer` can read. -/
structure IpHdr where
  protocol : UInt8
  saddr : UInt32
  daddr : UInt32
  tcph : Option TcpHdr
  deriving DecidableEq

/-- An `skb`, which may be NULL or without an IP header. -/
abbrev Skb := Option (Option IpHdr)

/-- The header of an IPv4 TCP packet. -/
def tcpPacket (skb : Skb) : Option IpHdr :=
  skb.join.filter fun iph => iph.protocol = ipprotoTcp

/-- Points of `net_rx_softirq_hook` with the locals still live there. -/
inductive HookPoint (width : Nat) where
  | entry (skb : Skb)
  | fetchInc (iph : IpHdr)
  | sample (iph : IpHdr) (n : BitVec width)
  | headerPointer (iph : IpHdr) (n : BitVec width)
  | inc (iph : IpHdr) (tcph : TcpHdr) (n : BitVec width)
  | report (iph : IpHdr) (tcph : TcpHdr) (n : BitVec width)
  | ret (verdict : Verdict)
  deriving DecidableEq

/-- The line a sampled packet is logged with. -/
structure Captured (width : Nat) where
  n : BitVec width
  saddr : UInt32
  daddr : UInt32
  source : UInt16
  dest : UInt16
  deriving DecidableEq

/-- The module's counters, each an `atomic_long` as the word it is kept in, and the calls in
flight. An observer keeps the verdicts, the packets that have arrived, and for each `fetch_inc`
in order its packet and its ticket. -/
structure Sampling (Call : Type) (width : Nat) where
  gsSeenCount : BitVec width
  gsCapturedCount : BitVec width
  hook : Call → Option (HookPoint width)
  log : List (Captured width)
  verdicts : List Verdict
  arrived : List Skb
  drawn : List (IpHdr × BitVec width)

namespace Sampling

variable {Call : Type} [DecidableEq Call] {width : Nat}

def move (state : Sampling Call width) (call : Call) (point : Option (HookPoint width)) :
    Sampling Call width :=
  { state with hook := Function.update state.hook call point }

/-- `n % SAMPLE_EVERY == 0` for `n` as an `unsigned long`. -/
def sampled (n : BitVec width) : Bool := n.toNat % sampleEvery = 0

/-- One step of `net_rx_softirq_hook`: at most one access to a counter. -/
def netRxSoftirqHook (state : Sampling Call width) (call : Call) :
    HookPoint width → Sampling Call width
  | .entry skb =>
    match tcpPacket skb with
    | none => state.move call (some (.ret .nfAccept))
    | some iph => state.move call (some (.fetchInc iph))
  | .fetchInc iph =>
    { state.move call (some (.sample iph state.gsSeenCount)) with
      gsSeenCount := state.gsSeenCount + 1
      drawn := state.drawn ++ [(iph, state.gsSeenCount)] }
  | .sample iph n =>
    if sampled n then state.move call (some (.headerPointer iph n))
    else state.move call (some (.ret .nfAccept))
  | .headerPointer iph n =>
    match iph.tcph with
    | none => state.move call (some (.ret .nfAccept))
    | some tcph => state.move call (some (.inc iph tcph n))
  | .inc iph tcph n =>
    { state.move call (some (.report iph tcph n)) with
      gsCapturedCount := state.gsCapturedCount + 1 }
  | .report iph tcph n =>
    { state.move call (some (.ret .nfAccept)) with
      log := state.log ++ [⟨n, iph.saddr, iph.daddr, tcph.source, tcph.dest⟩] }
  | .ret verdict => { state.move call none with verdicts := state.verdicts ++ [verdict] }

end Sampling

/-- A packet arrives, or a call in flight makes its next step. -/
inductive SamplingEvent (Call : Type) where
  | packet (call : Call) (skb : Skb)
  | hook (call : Call)

variable {Call : Type} [DecidableEq Call] {width : Nat}

/-- The loaded module, with any packets on any number of CPUs. -/
def samplingMachine (Call : Type) [DecidableEq Call] (width : Nat) :
    Machine (Sampling Call width) (SamplingEvent Call) where
  initial := ⟨0, 0, fun _ => none, [], [], [], []⟩
  step state
    | .packet call skb =>
      match state.hook call with
      | none =>
        some { state.move call (some (.entry skb)) with arrived := state.arrived ++ [skb] }
      | some _ => none
    | .hook call => (state.hook call).map (state.netRxSoftirqHook call)

/-- Multiples of `SAMPLE_EVERY` among the tickets below a bound, rounded up. -/
def sampleCount (seen : Nat) : Nat := (seen + sampleEvery - 1) / sampleEvery

theorem sampleCount_succ (seen : Nat) :
    sampleCount (seen + 1) = sampleCount seen + (decide (seen % sampleEvery = 0)).toNat := by
  unfold sampleCount sampleEvery
  by_cases multiple : seen % 16 = 0
  · rw [decide_eq_true multiple, Bool.toNat_true]
    omega
  · rw [decide_eq_false multiple, Bool.toNat_false]
    omega

/-- Wrapping does not change which tickets are sampled. -/
theorem sampled_ofNat (wide : 4 ≤ width) (ticket : Nat) :
    Sampling.sampled (BitVec.ofNat width ticket) = decide (ticket % sampleEvery = 0) := by
  have divides : sampleEvery ∣ 2 ^ width := pow_dvd_pow 2 wide
  rw [Sampling.sampled, BitVec.toNat_ofNat, Nat.mod_mod_of_dvd _ divides]

namespace Sampling

omit [DecidableEq Call] in
/-- The headers of the IPv4 TCP packets that have arrived: protocol 6 is TCP. -/
def tcpArrived (state : Sampling Call width) : List IpHdr :=
  state.arrived.filterMap fun
    | some (some iph) => if iph.protocol = 6 then some iph else none
    | _ => none

/-- An IPv4 TCP packet of this kind whose call is still before its `fetch_inc`. -/
def awaiting (kind : IpHdr → Bool) : Option (HookPoint width) → Nat
  | some (.entry (some (some iph))) => (decide (iph.protocol = 6) && kind iph).toNat
  | some (.fetchInc iph) => (kind iph).toNat
  | _ => 0

/-- IPv4 TCP packets seen, without any wrap: those that have arrived and whose call is not still
before its `fetch_inc`. -/
def seen [Fintype Call] (state : Sampling Call width) : Nat :=
  state.tcpArrived.length - tally (awaiting fun _ => true) state.hook

/-- Sampled packets whose TCP header cannot be read. -/
def unreadable (state : Sampling Call width) : Nat :=
  state.drawn.countP fun draw => sampled draw.2 && draw.1.tcph.isNone

/-- A sampled packet with a readable header whose call has not counted it yet. -/
def due : Option (HookPoint width) → Nat
  | some (.sample iph n) => (sampled n && iph.tcph.isSome).toNat
  | some (.headerPointer iph _) => iph.tcph.isSome.toNat
  | some (.inc _ _ _) => 1
  | _ => 0

/-- Nothing but `NF_ACCEPT` has been or is about to be returned. -/
structure Accepting (state : Sampling Call width) : Prop where
  returning : ∀ call verdict, state.hook call = some (.ret verdict) → verdict = .nfAccept
  verdicts : ∀ verdict ∈ state.verdicts, verdict = .nfAccept

variable {state next : Sampling Call width} {call : Call} {point : HookPoint width}

/-- Steps a call has still to make. -/
def remaining : Option (HookPoint width) → Nat
  | none => 0
  | some (.ret _) => 1
  | some (.report _ _ _) => 2
  | some (.inc _ _ _) => 3
  | some (.headerPointer _ _) => 4
  | some (.sample _ _) => 5
  | some (.fetchInc _) => 6
  | some (.entry _) => 7

/-- What a step can do: it moves its call nearer to its return, which is always of
`NF_ACCEPT`, and only the return adds a verdict. -/
theorem netRxSoftirqHook_moves (state : Sampling Call width) (call : Call)
    (point : HookPoint width) :
    ∃ moved, (state.netRxSoftirqHook call point).hook = Function.update state.hook call moved ∧
      remaining moved < remaining (some point) ∧
      (∀ verdict, moved = some (.ret verdict) → verdict = .nfAccept) ∧
      ((moved ≠ none ∧ (state.netRxSoftirqHook call point).verdicts = state.verdicts) ∨
        ∃ verdict, point = .ret verdict ∧ moved = none ∧
          (state.netRxSoftirqHook call point).verdicts = state.verdicts ++ [verdict]) := by
  have accept : ∀ verdict, some (HookPoint.ret .nfAccept : HookPoint width) = some (.ret verdict) →
      verdict = .nfAccept := by
    intro verdict returns
    cases returns
    rfl
  cases point with
  | entry skb =>
    cases packet : tcpPacket skb with
    | none =>
      refine ⟨some (.ret .nfAccept), ?_, by simp [remaining], accept, .inl ⟨by simp, ?_⟩⟩ <;>
        simp [netRxSoftirqHook, packet, move]
    | some iph =>
      refine ⟨some (.fetchInc iph), ?_, by simp [remaining], by simp, .inl ⟨by simp, ?_⟩⟩ <;>
        simp [netRxSoftirqHook, packet, move]
  | fetchInc iph => exact ⟨_, rfl, by simp [remaining], by simp, .inl ⟨by simp, rfl⟩⟩
  | sample iph n =>
    by_cases chosen : sampled n = true
    · refine ⟨some (.headerPointer iph n), ?_, by simp [remaining], by simp,
        .inl ⟨by simp, ?_⟩⟩ <;> simp [netRxSoftirqHook, chosen, move]
    · refine ⟨some (.ret .nfAccept), ?_, by simp [remaining], accept, .inl ⟨by simp, ?_⟩⟩ <;>
        simp [netRxSoftirqHook, chosen, move]
  | headerPointer iph n =>
    cases header : iph.tcph with
    | none =>
      refine ⟨some (.ret .nfAccept), ?_, by simp [remaining], accept, .inl ⟨by simp, ?_⟩⟩ <;>
        simp [netRxSoftirqHook, header, move]
    | some tcph =>
      refine ⟨some (.inc iph tcph n), ?_, by simp [remaining], by simp, .inl ⟨by simp, ?_⟩⟩ <;>
        simp [netRxSoftirqHook, header, move]
  | inc iph tcph n => exact ⟨_, rfl, by simp [remaining], by simp, .inl ⟨by simp, rfl⟩⟩
  | report iph tcph n => exact ⟨_, rfl, by simp [remaining], accept, .inl ⟨by simp, rfl⟩⟩
  | ret verdict => exact ⟨none, rfl, by simp [remaining], by simp, .inr ⟨verdict, rfl, rfl, rfl⟩⟩

theorem Accepting.update (accepting : state.Accepting) {moved : Option (HookPoint width)}
    (hook : next.hook = Function.update state.hook call moved)
    (accepts : ∀ verdict, moved = some (.ret verdict) → verdict = .nfAccept) :
    ∀ other verdict, next.hook other = some (.ret verdict) → verdict = .nfAccept := by
  intro other verdict returns
  rw [hook] at returns
  by_cases same : other = call
  · subst same
    rw [Function.update_self] at returns
    exact accepts verdict returns
  · rw [Function.update_of_ne same] at returns
    exact accepting.returning other verdict returns

theorem Accepting.hook (accepting : state.Accepting) (here : state.hook call = some point) :
    (state.netRxSoftirqHook call point).Accepting := by
  obtain ⟨moved, hook, -, accepts, ⟨-, same⟩ | ⟨verdict, rfl, -, added⟩⟩ :=
    netRxSoftirqHook_moves state call point
  · exact ⟨accepting.update hook accepts, by rw [same]; exact accepting.verdicts⟩
  · refine ⟨accepting.update hook accepts, ?_⟩
    intro other member
    rw [added] at member
    rcases List.mem_append.mp member with earlier | now
    · exact accepting.verdicts other earlier
    · rw [List.mem_singleton.mp now]
      exact accepting.returning call verdict here

variable [Fintype Call]

/-- The tickets against the packets and both counters against the tickets, in every state. -/
structure Accounted (state : Sampling Call width) : Prop where
  packets : ∀ kind : IpHdr → Bool, state.tcpArrived.countP kind =
    state.drawn.countP (fun draw => kind draw.1) + tally (awaiting kind) state.hook
  counter : state.gsSeenCount = BitVec.ofNat width state.drawn.length
  tickets : state.drawn.map Prod.snd = (List.range state.drawn.length).map (BitVec.ofNat width)
  captured : ∃ count, state.gsCapturedCount = BitVec.ofNat width count ∧
    count + state.unreadable + tally due state.hook = sampleCount state.drawn.length

omit [DecidableEq Call] in
/-- Each packet seen has drawn one ticket. -/
theorem Accounted.seen_eq (accounted : state.Accounted) : state.seen = state.drawn.length := by
  have packets := accounted.packets fun _ => true
  simp only [List.countP_true] at packets
  rw [seen, packets, Nat.add_sub_cancel]

/-- A call moves to a point where it owes and awaits as much as before. -/
theorem Accounted.move (accounted : state.Accounted) (call : Call)
    (moved : Option (HookPoint width)) (owes : due moved = due (state.hook call))
    (awaits : ∀ kind, awaiting kind moved = awaiting kind (state.hook call)) :
    (state.move call moved).Accounted := by
  obtain ⟨packets, counter, tickets, count, counted, balance⟩ := accounted
  have same : ∀ weight : Option (HookPoint width) → Nat,
      weight moved = weight (state.hook call) →
        tally weight (state.move call moved).hook = tally weight state.hook := by
    intro weight kept
    have total := tally_update weight state.hook call moved
    rw [kept] at total
    exact Nat.add_right_cancel total
  refine ⟨fun kind => ?_, counter, tickets, count, counted, ?_⟩
  · rw [same _ (awaits kind)]
    exact packets kind
  · rw [same _ owes]
    exact balance

theorem awaiting_entry (kind : IpHdr → Bool) (skb : Skb) :
    awaiting kind (some (.entry skb : HookPoint width)) =
      (tcpPacket skb).elim 0 fun iph => (kind iph).toNat := by
  rcases skb with _ | _ | iph
  · rfl
  · rfl
  · by_cases tcp : iph.protocol = 6 <;>
      simp [awaiting, tcpPacket, ipprotoTcp, Option.filter, tcp]

/-- A packet arrives, and a call awaits it. -/
theorem Accounted.packet (accounted : state.Accounted) (skb : Skb)
    (free : state.hook call = none) :
    { state.move call (some (.entry skb)) with arrived := state.arrived ++ [skb] }.Accounted := by
  obtain ⟨packets, counter, tickets, count, counted, balance⟩ := accounted
  have owes := tally_update due state.hook call (some (.entry skb))
  rw [free] at owes
  refine ⟨fun kind => ?_, counter, tickets, count, counted, ?_⟩
  · have awaits := tally_update (awaiting kind) state.hook call (some (.entry skb))
    rw [free] at awaits
    have added : { state with arrived := state.arrived ++ [skb] }.tcpArrived.countP kind =
        state.tcpArrived.countP kind + awaiting kind (some (.entry skb : HookPoint width)) := by
      rw [tcpArrived, List.filterMap_append, List.countP_append]
      congr 1
      rcases skb with _ | _ | iph
      · rfl
      · rfl
      · by_cases tcp : iph.protocol = 6 <;> simp [awaiting, tcp, List.countP_cons, Bool.toNat]
    have before := packets kind
    change { state with arrived := state.arrived ++ [skb] }.tcpArrived.countP kind =
      state.drawn.countP _ + tally (awaiting kind) (Function.update _ _ _)
    have nothing : awaiting kind (none : Option (HookPoint width)) = 0 := rfl
    omega
  · change count + state.unreadable + tally due (Function.update _ _ _) =
      sampleCount state.drawn.length
    have nothing : due (none : Option (HookPoint width)) = 0 := rfl
    have nothing' : due (some (.entry skb) : Option (HookPoint width)) = 0 := rfl
    omega

/-- One step keeps the account: what a call owed it counts or still owes, and a ticket that is
sampled is unreadable or makes its call owe one. -/
theorem Accounted.hook (accounted : state.Accounted) (wide : 4 ≤ width)
    (here : state.hook call = some point) : (state.netRxSoftirqHook call point).Accounted := by
  cases point with
  | entry skb =>
    have awaited := fun kind => @awaiting_entry width kind skb
    simp only [netRxSoftirqHook]
    split
    · rename_i other
      exact accounted.move call _ (by rw [here]; rfl) fun kind => by
        rw [here, awaited, other]
        rfl
    · rename_i iph packet
      exact accounted.move call _ (by rw [here]; rfl) fun kind => by
        rw [here, awaited, packet]
        rfl
  | fetchInc iph =>
    obtain ⟨packets, counter, tickets, count, counted, balance⟩ := accounted
    have length : (state.netRxSoftirqHook call (.fetchInc iph)).drawn.length =
        state.drawn.length + 1 := List.length_append
    have ticket : sampled state.gsSeenCount =
        decide (state.drawn.length % sampleEvery = 0) := by
      rw [counter, sampled_ofNat wide]
    refine ⟨fun kind => ?_, ?_, ?_, count, counted, ?_⟩
    · have awaits := tally_update (awaiting kind) state.hook call
        (some (.sample iph state.gsSeenCount))
      rw [here] at awaits
      have before := packets kind
      change state.tcpArrived.countP kind =
        (state.drawn ++ [(iph, state.gsSeenCount)]).countP _ +
          tally (awaiting kind) (Function.update _ _ _)
      rw [List.countP_append, List.countP_singleton]
      cases kept : kind iph <;> simp [awaiting, kept] at awaits ⊢ <;> omega
    · rw [length, BitVec.ofNat_add]
      exact congrArg (· + BitVec.ofNat width 1) counter
    · rw [length, List.range_succ, List.map_append, ← tickets, List.map_singleton, ← counter]
      exact List.map_append
    · have draws := tally_update due state.hook call (some (.sample iph state.gsSeenCount))
      rw [here] at draws
      rw [length, sampleCount_succ, ← ticket, ← balance]
      change count + (state.drawn ++ [(iph, state.gsSeenCount)]).countP _ +
        tally due (Function.update _ _ _) = count + state.drawn.countP _ + _ + _
      rw [List.countP_append, List.countP_singleton]
      cases chosen : sampled state.gsSeenCount <;> cases header : iph.tcph <;>
        simp [due, chosen, header] at draws ⊢ <;> omega
  | sample iph n =>
    simp only [netRxSoftirqHook]
    split
    · rename_i chosen
      exact accounted.move call _ (by simp [here, due, chosen]) fun _ => by rw [here]; rfl
    · rename_i passed
      exact accounted.move call _ (by simp [here, due, passed]) fun _ => by rw [here]; rfl
  | headerPointer iph n =>
    simp only [netRxSoftirqHook]
    split
    · rename_i missing
      exact accounted.move call _ (by simp [here, due, missing]) fun _ => by rw [here]; rfl
    · rename_i tcph header
      exact accounted.move call _ (by simp [here, due, header]) fun _ => by rw [here]; rfl
  | inc iph tcph n =>
    obtain ⟨packets, counter, tickets, count, counted, balance⟩ := accounted
    have settles := tally_update due state.hook call (some (.report iph tcph n))
    rw [here] at settles
    refine ⟨fun kind => ?_, counter, tickets, count + 1, ?_, ?_⟩
    · have awaits := tally_update (awaiting kind) state.hook call (some (.report iph tcph n))
      rw [here] at awaits
      rw [show tally (awaiting kind) (state.netRxSoftirqHook call (.inc iph tcph n)).hook =
        tally (awaiting kind) state.hook from Nat.add_right_cancel awaits]
      exact packets kind
    · rw [BitVec.ofNat_add]
      exact congrArg (· + BitVec.ofNat width 1) counted
    · change count + 1 + state.unreadable + tally due (Function.update _ _ _) =
        sampleCount state.drawn.length
      simp only [due] at settles
      omega
  | report iph tcph n =>
    have moved := accounted.move call (some (.ret .nfAccept)) (by rw [here]; rfl)
      fun _ => by rw [here]; rfl
    exact ⟨moved.packets, moved.counter, moved.tickets, moved.captured⟩
  | ret verdict =>
    have moved := accounted.move call none (by rw [here]; rfl) fun _ => by rw [here]; rfl
    exact ⟨moved.packets, moved.counter, moved.tickets, moved.captured⟩

end Sampling

section Runs

variable {state next : Sampling Call width} {call : Call}

theorem reachable_accepting (reached : (samplingMachine Call width).Reachable state) :
    state.Accepting := by
  refine Machine.Reachable.invariant Sampling.Accepting ?_ ?_ reached
  · exact ⟨by simp [samplingMachine], by simp [samplingMachine]⟩
  intro state event next accepting taken
  cases event with
  | packet call skb =>
    simp only [samplingMachine] at taken
    split at taken <;> cases taken
    exact ⟨accepting.update rfl (by simp), accepting.verdicts⟩
  | hook call =>
    obtain ⟨point, here, rfl⟩ := Option.map_eq_some_iff.mp taken
    exact accepting.hook here

/-- A call in flight returns `NF_ACCEPT` by steps of its own. -/
theorem call_returns (accepting : state.Accepting) (inFlight : state.hook call ≠ none) :
    ∃ steps next, (samplingMachine Call width).run state (List.replicate steps (.hook call)) =
        some next ∧
      next.hook call = none ∧ next.verdicts = state.verdicts ++ [.nfAccept] := by
  induction bound : Sampling.remaining (state.hook call) using Nat.strongRecOn
    generalizing state with
  | ind bound ih =>
    subst bound
    obtain ⟨point, here⟩ := Option.ne_none_iff_exists'.mp inFlight
    have taken : (samplingMachine Call width).step state (.hook call) =
        some (state.netRxSoftirqHook call point) := by
      simp [samplingMachine, here]
    obtain ⟨moved, hook, nearer, -, ⟨going, same⟩ | ⟨verdict, rfl, rfl, added⟩⟩ :=
      Sampling.netRxSoftirqHook_moves state call point
    · have there : (state.netRxSoftirqHook call point).hook call = moved := by
        rw [hook, Function.update_self]
      rw [here] at ih
      obtain ⟨steps, last, onward, returned, verdicts⟩ :=
        ih (Sampling.remaining moved) nearer (accepting.hook here) (by rwa [there])
          (by rw [there])
      refine ⟨steps + 1, last, Machine.run_cons_iff.mpr ⟨_, taken, onward⟩, returned, ?_⟩
      rw [verdicts, same]
    · refine ⟨1, _, Machine.run_single.mpr taken, ?_, ?_⟩
      · rw [hook, Function.update_self]
      · rw [added, accepting.returning call verdict here]

variable [Fintype Call]

theorem reachable_accounted (wide : 4 ≤ width)
    (reached : (samplingMachine Call width).Reachable state) : state.Accounted := by
  refine Machine.Reachable.invariant Sampling.Accounted ?_ ?_ reached
  · refine ⟨fun kind => ?_, rfl, rfl, 0, rfl, ?_⟩
    · simp [samplingMachine, Sampling.awaiting, Sampling.tcpArrived, tally]
    · simp [samplingMachine, Sampling.due, Sampling.unreadable, tally, sampleCount, sampleEvery]
  · intro state event next accounted taken
    cases event with
    | packet call skb =>
      simp only [samplingMachine] at taken
      split at taken <;> cases taken
      rename_i free
      exact accounted.packet skb free
    | hook call =>
      obtain ⟨point, here, rfl⟩ := Option.map_eq_some_iff.mp taken
      exact accounted.hook wide here

/-- Among `SAMPLE_EVERY` consecutive numbers there is one multiple of it. -/
theorem one_multiple (start : Nat) :
    (List.range' start sampleEvery).countP (fun ticket => ticket % sampleEvery = 0) = 1 := by
  have periodic : Function.Periodic (fun ticket => ticket % sampleEvery = 0) sampleEvery := by
    intro ticket
    simp
  have window := Nat.filter_multiset_Ico_card_eq_of_periodic start sampleEvery _ periodic
  have once : sampleEvery.count (fun ticket => ticket % sampleEvery = 0) = 1 := by decide
  rw [once] at window
  simpa [Multiset.Ico, Nat.Ico_eq_range', List.countP_eq_length_filter] using window

omit [DecidableEq Call] in
theorem Sampling.Accounted.window (accounted : state.Accounted) (wide : 4 ≤ width) {start : Nat}
    (within : start + sampleEvery ≤ state.seen) :
    ((state.drawn.drop start).take sampleEvery).countP (fun draw => sampled draw.2) = 1 := by
  rw [accounted.seen_eq] at within
  have tickets : ((List.range state.drawn.length).drop start).take sampleEvery =
      List.range' start sampleEvery := by
    rw [List.range_eq_range', List.drop_range', Nat.zero_add, Nat.mul_one,
      List.take_range'_of_length_ge (Nat.le_sub_of_add_le' within)]
  have once := one_multiple start
  have words : ((state.drawn.drop start).take sampleEvery).countP (fun draw => sampled draw.2) =
      ((((state.drawn.map Prod.snd).drop start).take sampleEvery)).countP sampled := by
    rw [← List.map_drop, ← List.map_take, List.countP_map]
    rfl
  rw [words, accounted.tickets, ← List.map_drop, ← List.map_take, List.countP_map, tickets]
  refine Eq.trans ?_ once
  congr 1
  funext ticket
  exact sampled_ofNat wide ticket

/-- For counters of four bits or more and any interleaving of hook calls: every call returns
`NF_ACCEPT`; each IPv4 TCP packet that has arrived, and no other, has drawn one ticket or its call
is still before the `fetch_inc`, and the seen counter is the number of those that have; any 16
consecutive tickets have one sampled packet; and with no call in flight the seen counter is the
number of all IPv4 TCP packets that have arrived and the captured counter that of the sampled ones
with a readable header. -/
theorem sampling_exact (wide : 4 ≤ width)
    (reached : (samplingMachine Call width).Reachable state) :
    (∀ verdict ∈ state.verdicts, verdict = .nfAccept) ∧
    (∀ call, state.hook call ≠ none → ∃ steps next,
      (samplingMachine Call width).run state (List.replicate steps (.hook call)) = some next ∧
        next.hook call = none ∧ next.verdicts = state.verdicts ++ [.nfAccept]) ∧
    (∀ kind : IpHdr → Bool, state.tcpArrived.countP kind =
      state.drawn.countP (fun draw => kind draw.1) +
        tally (Sampling.awaiting kind) state.hook) ∧
    state.drawn.length = state.seen ∧
    state.gsSeenCount = BitVec.ofNat width state.seen ∧
    (∀ start, start + sampleEvery ≤ state.seen →
      ((state.drawn.drop start).take sampleEvery).countP (fun draw =>
        Sampling.sampled draw.2) = 1) ∧
    ((∀ call, state.hook call = none) →
      state.seen = state.tcpArrived.length ∧
      state.unreadable ≤ sampleCount state.seen ∧
      state.gsCapturedCount = BitVec.ofNat width (sampleCount state.seen - state.unreadable)) := by
  have accounted := reachable_accounted wide reached
  have accepting := reachable_accepting reached
  have seen := accounted.seen_eq
  refine ⟨accepting.verdicts, ?_, accounted.packets, seen.symm, ?_, ?_, ?_⟩
  · intro call inFlight
    exact call_returns accepting inFlight
  · rw [seen]
    exact accounted.counter
  · intro start within
    exact accounted.window wide within
  · intro idle
    obtain ⟨count, counted, balance⟩ := accounted.captured
    have nothing : tally Sampling.due state.hook = 0 := by
      simp [tally, idle, Sampling.due]
    rw [nothing, ← seen] at balance
    refine ⟨?_, by omega, ?_⟩
    · simp [Sampling.seen, tally, idle, Sampling.awaiting]
    · rw [counted, ← balance]
      simp

/-- A packet whose call makes this many steps before the next packet comes. -/
def packetAlone (call : Call) (tcph : Option TcpHdr) (steps : Nat) : List (SamplingEvent Call) :=
  .packet call (some (some ⟨ipprotoTcp, 0, 0, tcph⟩)) :: List.replicate steps (.hook call)

/-- A UDP packet, to which the hook is not meant to react. -/
def udpPacket : Skb := some (some ⟨17, 0, 0, none⟩)

theorem sampling_exact_past_wrap :
    ∃ state, (samplingMachine Bool 4).Reachable state ∧ state.arrived.length = 18 ∧
      state.seen = 17 ∧ state.gsSeenCount = BitVec.ofNat 4 1 ∧
      state.gsCapturedCount = BitVec.ofNat 4 1 ∧
      ((state.drawn.drop 1).take sampleEvery).countP (fun draw =>
        Sampling.sampled draw.2) = 1 := by
  obtain ⟨state, reached, checked⟩ :=
    Machine.reachable_of_run (samplingMachine Bool 4)
      (packetAlone true none 5 ++ (List.replicate 15 (packetAlone false none 4)).flatten ++
        .packet false udpPacket :: List.replicate 2 (.hook false) ++
        packetAlone true (some ⟨0, 0⟩) 7)
      (fun state => state.arrived.length = 18 ∧ state.tcpArrived.length = 17 ∧
        state.unreadable = 1 ∧ ∀ call, state.hook call = none)
      (by decide +kernel)
  obtain ⟨arrived, seventeen, unreadable, idle⟩ := of_decide_eq_true checked
  obtain ⟨-, -, -, -, counter, window, quiescent⟩ := sampling_exact (by decide) reached
  obtain ⟨seen, -, captured⟩ := quiescent idle
  rw [seventeen] at seen
  refine ⟨state, reached, arrived, seen, ?_, ?_, window 1 (by rw [seen]; decide)⟩
  · rw [counter, seen]
    rfl
  · rw [captured, seen, unreadable]
    rfl

end Runs

end KernelSamples.NetRx

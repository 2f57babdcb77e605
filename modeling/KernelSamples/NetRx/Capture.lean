import KernelSamples.NetRx.Sampling
import Mathlib.Data.List.Perm.Subperm

/-! The capture lines of `net_rx_softirq.c`: which tickets they show and how many they are. -/

namespace KernelSamples.NetRx

open Lib

variable {Call : Type} [DecidableEq Call] {width : Nat}

/-- The sampled ones among the first tickets, as words. -/
def sampledTickets (width seen : Nat) : List (BitVec width) :=
  ((List.range seen).filter fun ticket => ticket % sampleEvery = 0).map (BitVec.ofNat width)

theorem sampledTickets_succ (wide : 4 ≤ width) (seen : Nat) :
    sampledTickets width (seen + 1) = sampledTickets width seen ++
      if Sampling.sampled (BitVec.ofNat width seen) then [BitVec.ofNat width seen] else [] := by
  rw [sampled_ofNat wide]
  unfold sampledTickets
  rw [List.range_succ, List.filter_append, List.map_append]
  by_cases multiple : seen % sampleEvery = 0 <;> simp [multiple]

namespace Sampling

/-- A packet that is counted as captured and not logged yet. -/
def reporting : Option (HookPoint width) → Nat
  | some (.report _ _ _) => 1
  | _ => 0

/-- The sampled ticket a call holds until it logs it or finds no header. -/
def ticket : Option (HookPoint width) → Option (BitVec width)
  | some (.sample _ n) => if sampled n then some n else none
  | some (.headerPointer _ n) | some (.inc _ _ n) | some (.report _ _ n) => some n
  | _ => none

def holding (n : BitVec width) (point : Option (HookPoint width)) : Nat :=
  if ticket point = some n then 1 else 0

variable {state next : Sampling Call width} {call : Call} {point : HookPoint width}
  [Fintype Call]

/-- Captured packets are those logged or about to be, with those unreadable or still due
they are the sampled ones, and each ticket is logged and held no more often than it was
drawn. -/
structure Filed (state : Sampling Call width) : Prop where
  counted : state.gsCapturedCount =
    BitVec.ofNat width (state.log.length + tally reporting state.hook)
  balance : state.log.length + tally reporting state.hook + state.unreadable +
    tally due state.hook = sampleCount state.drawn.length
  tickets : ∀ n, (state.log.map Captured.n).count n + tally (holding n) state.hook ≤
    (sampledTickets width state.drawn.length).count n

/-- What one call does to the account is what it logs, counts, draws and stops holding. -/
theorem Filed.update (filed : state.Filed) (more : Nat) {moved : Option (HookPoint width)}
    (hook : next.hook = Function.update state.hook call moved)
    (captures : next.gsCapturedCount = state.gsCapturedCount + BitVec.ofNat width more)
    (reports : next.log.length + reporting moved =
      state.log.length + reporting (state.hook call) + more)
    (settles : more + next.unreadable + due moved + sampleCount state.drawn.length =
      state.unreadable + due (state.hook call) + sampleCount next.drawn.length)
    (keeps : ∀ n, (next.log.map Captured.n).count n + holding n moved +
        (sampledTickets width state.drawn.length).count n ≤
      (state.log.map Captured.n).count n + holding n (state.hook call) +
        (sampledTickets width next.drawn.length).count n) : next.Filed := by
  obtain ⟨counted, balance, tickets⟩ := filed
  have reporters := tally_update reporting state.hook call moved
  have debtors := tally_update due state.hook call moved
  rw [← hook] at reporters debtors
  refine ⟨?_, by omega, ?_⟩
  · have total : next.log.length + tally reporting next.hook =
        state.log.length + tally reporting state.hook + more := by omega
    rw [total, BitVec.ofNat_add, ← counted, captures]
  · intro n
    have holders := tally_update (holding n) state.hook call moved
    rw [← hook] at holders
    have before := tickets n
    have after := keeps n
    omega

/-- A call moves on without logging or counting. -/
theorem Filed.move (filed : state.Filed) (call : Call) (moved : Option (HookPoint width))
    (reports : reporting moved = reporting (state.hook call))
    (owes : due moved = due (state.hook call))
    (keeps : ticket moved = none ∨ ticket moved = ticket (state.hook call)) :
    (state.move call moved).Filed := by
  refine filed.update 0 rfl ?_ ?_ ?_ ?_
  · simp [Sampling.move]
  · rw [reports]
    rfl
  · rw [owes, Nat.zero_add]
    rfl
  · intro n
    have fewer : holding n moved ≤ holding n (state.hook call) := by
      rcases keeps with dropped | kept
      · simp [holding, dropped]
      · simp [holding, kept]
    have same : (state.move call moved).drawn = state.drawn := rfl
    have logged : (state.move call moved).log = state.log := rfl
    rw [same, logged]
    omega

/-- One step keeps the account of the lines. A drawn ticket that is sampled goes to the call
that drew it, and a captured packet's line takes its ticket from the call. -/
theorem Filed.hook (filed : state.Filed)
    (counter : state.gsSeenCount = .ofNat width state.drawn.length) (wide : 4 ≤ width)
    (here : state.hook call = some point) :
    (state.netRxSoftirqHook call point).Filed := by
  cases point with
  | entry skb =>
    simp only [netRxSoftirqHook]
    split <;> exact filed.move call _ (by rw [here]; rfl) (by rw [here]; rfl) (.inl rfl)
  | fetchInc iph =>
    have length : (state.netRxSoftirqHook call (.fetchInc iph)).drawn.length =
        state.drawn.length + 1 := List.length_append
    refine filed.update 0 rfl (by simp [netRxSoftirqHook, Sampling.move]) ?_ ?_ ?_
    · rw [here]
      rfl
    · rw [here, length, sampleCount_succ, ← sampled_ofNat wide, ← counter]
      simp only [netRxSoftirqHook, Sampling.move, unreadable, List.countP_append,
        List.countP_singleton, due]
      cases sampled state.gsSeenCount <;> cases iph.tcph <;> simp <;> omega
    · intro n
      have drawn : holding n (some (.sample iph state.gsSeenCount)) ≤
          (if sampled state.gsSeenCount then [state.gsSeenCount] else []).count n := by
        simp only [holding, ticket]
        by_cases chosen : sampled state.gsSeenCount = true
        · simp [chosen, List.count_singleton]
        · simp [chosen]
      rw [length, sampledTickets_succ wide, ← counter, List.count_append]
      simp only [netRxSoftirqHook, Sampling.move]
      omega
  | sample iph n =>
    simp only [netRxSoftirqHook]
    split
    · rename_i chosen
      exact filed.move call _ (by rw [here]; rfl) (by simp [here, due, chosen])
        (.inr (by simp [here, ticket, chosen]))
    · rename_i passed
      exact filed.move call _ (by rw [here]; rfl) (by simp [here, due, passed]) (.inl rfl)
  | headerPointer iph n =>
    simp only [netRxSoftirqHook]
    split
    · rename_i missing
      exact filed.move call _ (by rw [here]; rfl) (by simp [here, due, missing]) (.inl rfl)
    · rename_i tcph header
      exact filed.move call _ (by rw [here]; rfl) (by simp [here, due, header])
        (.inr (by rw [here]; rfl))
  | inc iph tcph n =>
    refine filed.update 1 rfl rfl ?_ ?_ ?_
    · rw [here]
      rfl
    · rw [here]
      simp only [netRxSoftirqHook, Sampling.move, due, unreadable]
      omega
    · intro m
      rw [here]
      exact Nat.le_refl _
  | report iph tcph n =>
    refine filed.update 0 rfl (by simp [netRxSoftirqHook, Sampling.move]) ?_ ?_ ?_
    · rw [here]
      exact List.length_append
    · rw [here]
      simp only [netRxSoftirqHook, Sampling.move, due, unreadable]
      omega
    · intro m
      have shown : ([(⟨n, iph.saddr, iph.daddr, tcph.source, tcph.dest⟩ : Captured width)].map
          Captured.n).count m = holding m (some (.report iph tcph n)) := by
        simp [holding, ticket, List.count_singleton]
      rw [here, ← shown]
      simp only [netRxSoftirqHook, Sampling.move, List.map_append, List.count_append]
      exact Nat.le_refl _
  | ret verdict =>
    have moved := filed.move call none (by rw [here]; rfl) (by rw [here]; rfl) (.inl rfl)
    exact ⟨moved.counted, moved.balance, moved.tickets⟩

end Sampling

end KernelSamples.NetRx

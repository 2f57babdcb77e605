import Mathlib.Data.Fintype.Card
import KernelSamples.DataStructure.Module
import KernelSamples.DataStructure.Sequence

/-! Ownership over the whole life of the module. Memory is finite: there is a `Fintype` of
addresses, so the loop that builds the list ends even if its counter wraps. -/

namespace KernelSamples.DataStructure

open Lib

variable {Addr : Type}

/-- What is live when round `round` allocates, if every earlier allocation succeeded. -/
def Kernel.handedOut (kernel : Kernel Addr) : Nat → List Addr
  | 0 => []
  | round + 1 => (kernel.kzalloc round (kernel.handedOut round)).toList ++ kernel.handedOut round

/-- An allocation of a module with this many users fails. A counter that can never reach
their number makes the loop go on until one does. -/
def Kernel.AllocationFails (kernel : Kernel Addr) (nUserInfos : Nat) : Prop :=
  ∃ round, (round < nUserInfos ∨ 2 ^ uintBits ≤ nUserInfos) ∧
    kernel.kzalloc round (kernel.handedOut round) = none

variable {memory : Memory Addr} {users : List (Entry Addr)} {kernel : Kernel Addr}
variable {nUserInfos round fuel i : Nat}

theorem Kernel.handedOut_succ {addr : Addr}
    (handed : kernel.kzalloc round (kernel.handedOut round) = some addr) :
    kernel.handedOut (round + 1) = addr :: kernel.handedOut round := by
  simp [handedOut, handed]

/-- The loop before a round: every allocation so far succeeded and is in the list, and the
counter has not wrapped if it can reach the number of users. -/
structure Building (kernel : Kernel Addr) (nUserInfos round i : Nat) (memory : Memory Addr) :
    Prop where
  represents : ∃ users, Represents memory users
  live : memory.live = kernel.handedOut round
  count : memory.live.length = round
  succeeded : ∀ earlier < round, kernel.kzalloc earlier (kernel.handedOut earlier) ≠ none
  counter : i = wrap uintBits round
  within : nUserInfos < 2 ^ uintBits → round ≤ nUserInfos

theorem Building.counter_exact (building : Building kernel nUserInfos round i memory)
    (reachable : nUserInfos < 2 ^ uintBits) : i = round := by
  rw [building.counter]
  exact wrap_of_lt (lt_of_le_of_lt (building.within reachable) reachable)

theorem Building.counter_small (building : Building kernel nUserInfos round i memory) :
    i < 2 ^ uintBits := by
  rw [building.counter]
  exact Nat.mod_lt _ (Nat.two_pow_pos _)

variable [DecidableEq Addr]

theorem Building.next (building : Building kernel nUserInfos round i memory)
    (more : i < nUserInfos) {addr : Addr}
    (handed : kernel.kzalloc round memory.live = some addr) :
    ∃ next, appendUserInfo memory addr (fillUserInfo kernel round i) = .ok next ∧
      Building kernel nUserInfos (round + 1) (wrap uintBits (i + 1)) next := by
  obtain ⟨users, represents⟩ := building.represents
  obtain ⟨next, appended, live, represents'⟩ :=
    represents.appendUserInfo (kernel.fresh handed) (fillUserInfo kernel round i)
  rw [building.live] at handed
  refine ⟨next, appended, ⟨_, represents'⟩, ?_, ?_, ?_, ?_, ?_⟩
  · rw [live, building.live, Kernel.handedOut_succ handed]
  · rw [live, List.length_cons, building.count]
  · intro earlier before
    rcases Nat.lt_succ_iff_lt_or_eq.mp before with before | rfl
    · exact building.succeeded earlier before
    · simp [handed]
  · rw [building.counter, wrap_succ]
  · intro reachable
    rw [building.counter_exact reachable] at more
    exact more

/-- The loop ends with the list built, or with the users so far and an allocation that
failed. -/
theorem Building.ends [Fintype Addr] (building : Building kernel nUserInfos round i memory)
    (enough : Fintype.card Addr < fuel + round) :
    ∃ ret next, buildUserInfos kernel nUserInfos fuel round i memory = .ok (ret, next) ∧
      (∃ users, Represents next users) ∧
      (ret = -enomem ∧ kernel.AllocationFails nUserInfos ∨
        ret = 0 ∧ ¬ kernel.AllocationFails nUserInfos) := by
  induction fuel generalizing round i memory with
  | zero =>
    obtain ⟨users, represents⟩ := building.represents
    have distinct : memory.live.Nodup :=
      represents.live.nodup_iff.mpr represents.addresses_distinct
    have bounded := distinct.length_le_card
    rw [building.count] at bounded
    omega
  | succ fuel ih =>
    by_cases more : i < nUserInfos
    · cases handed : kernel.kzalloc round memory.live with
      | none =>
        refine ⟨-enomem, memory, ?_, building.represents, .inl ⟨rfl, round, ?_, ?_⟩⟩
        · simp only [buildUserInfos, more, if_true, handed]
        · by_cases reachable : nUserInfos < 2 ^ uintBits
          · exact .inl (building.counter_exact reachable ▸ more)
          · exact .inr (Nat.le_of_not_lt reachable)
        · rw [← building.live, handed]
      | some addr =>
        obtain ⟨middle, appended, building'⟩ := building.next more handed
        obtain ⟨ret, next, built, result⟩ := ih building' (by omega)
        refine ⟨ret, next, ?_, result⟩
        simp only [buildUserInfos, more, if_true, handed, appended, Memory.ok_bind, built]
    · refine ⟨0, memory, ?_, building.represents, .inr ⟨rfl, ?_⟩⟩
      · simp only [buildUserInfos, more, if_false]
      · have small := building.counter_small
        have reachable : nUserInfos < 2 ^ uintBits := by omega
        have counted := building.counter_exact reachable
        rintro ⟨failing, before | endless, failed⟩
        · exact building.succeeded failing (by omega) failed
        · omega

theorem getTargetsFrom_total (represents : Represents memory users) (targets : List CString) :
    ∃ lines, getTargetsFrom memory targets = .ok lines := by
  induction targets with
  | nil => exact ⟨[], rfl⟩
  | cons target rest ih =>
    obtain ⟨lines, walked⟩ := ih
    simp only [getTargetsFrom, represents.getUserInfo, Memory.ok_bind]
    cases found : lookup (some target) users with
    | none =>
      simp only [foundPointer, if_true, Memory.ok_bind, walked]
      exact ⟨_, rfl⟩
    | some entry =>
      have live := represents.live_entry (List.mem_of_find?_eq_some found)
      simp only [foundPointer, Entry.pointer_ne_null, if_false, readUser_live live,
        Memory.ok_bind, walked]
      exact ⟨_, rfl⟩

theorem updateThird_total (represents : Represents memory users) :
    ∃ next lines, updateThird memory = .ok (next, lines) ∧ ∃ users, Represents next users := by
  simp only [updateThird, represents.getUserInfo, Memory.ok_bind]
  cases found : lookup (some (numbered 3)) users with
  | none => exact ⟨memory, [], rfl, users, represents⟩
  | some entry =>
    obtain ⟨-, before, after, rfl, -⟩ := List.find?_eq_some_iff_append.mp found
    obtain ⟨first, written, represents1⟩ :=
      represents.writeUser fun fields => { fields with age := 99 }
    obtain ⟨second, written2, represents2⟩ := represents1.writeUser fun fields => { fields with
      shoppingCart := (fields.shoppingCart.set! 0 Food.milk.code).set! 1 Food.ham.code
      nCartItems := 2 }
    have live : entry.1 ∈ memory.live := represents.live_entry (by simp)
    have live1 : entry.1 ∈ first.live := by
      refine represents1.mem_live.mpr ⟨_, List.mem_append_right _ List.mem_cons_self, rfl⟩
    refine ⟨second, [.changingAge (memory.contents entry.1).age,
      .ageIsNow (first.contents entry.1).age, .replacedCart], ?_, _, represents2⟩
    have written2' : first.writeUser _ entry.pointer = .ok second := written2
    simp only [foundPointer, Entry.pointer_ne_null, if_false, readUser_live live, written,
      readUser_live live1, written2', Memory.ok_bind]

theorem deleteTargetsFrom_total (represents : Represents memory users)
    (targets : List CString) :
    ∃ next lines, deleteTargetsFrom memory targets = .ok (next, lines) ∧
      ∃ users, Represents next users := by
  induction targets generalizing memory users with
  | nil => exact ⟨memory, [], rfl, users, represents⟩
  | cons target rest ih =>
    obtain ⟨middle, deleted, represents'⟩ := represents.deleteUserInfo (some target)
    obtain ⟨next, lines, walked, kept⟩ := ih represents'
    simp only [deleteTargetsFrom, deleted, Memory.ok_bind, walked]
    exact ⟨next, _, rfl, kept⟩

/-- Nothing is left: the list is empty, no user is live, and the frees are the allocations. -/
def Memory.Returned (memory : Memory Addr) : Prop :=
  memory.gsUserInfoList = ⟨.head, .head⟩ ∧ memory.live = [] ∧
    memory.freed.Perm memory.allocated

omit [DecidableEq Addr] in
theorem Represents.returned (represents : Represents memory []) : memory.Returned := by
  have next : memory.gsUserInfoList.next = .head := represents.ring.segment
  have prev : memory.gsUserInfoList.prev = .head := represents.ring.reverse.segment
  have live : memory.live = [] := List.perm_nil.mp represents.live
  have accounted := represents.accounted
  rw [live, List.append_nil] at accounted
  refine ⟨?_, live, accounted.symm⟩
  cases list : memory.gsUserInfoList
  simp_all

/-- With finite memory every run of the module ends without a fault, whatever the number of
users, the allocator, the random numbers and the targets: every user allocated was freed
once, the list is empty, and init failed exactly when an allocation did. -/
theorem users_owned_for_life [Fintype Addr] (kernel : Kernel Addr) (script : Script)
    (enough : Fintype.card Addr < fuel) :
    ∃ ret memory, listModuleLife kernel script fuel = .ok (ret, memory) ∧ memory.Returned ∧
      (ret = -enomem ∧ kernel.AllocationFails script.nUserInfos ∨
        ret = 0 ∧ ¬ kernel.AllocationFails script.nUserInfos) := by
  have start : Building kernel script.nUserInfos 0 0 .initial :=
    ⟨⟨[], .initial⟩, rfl, rfl, nofun, rfl, fun _ => Nat.zero_le _⟩
  obtain ⟨ret, built, building, ⟨users, represents⟩, outcome⟩ :=
    start.ends (show Fintype.card Addr < fuel + 0 from enough)
  rcases outcome with ⟨rfl, fails⟩ | ⟨rfl, succeeds⟩
  · obtain ⟨last, freed, represents'⟩ := represents.freeAllUserInfos
    refine ⟨-enomem, last, ?_, represents'.returned, .inl ⟨rfl, fails⟩⟩
    have failing : -enomem ≠ 0 := by decide
    simp only [listModuleLife, listModuleInit, building, Memory.ok_bind, failing, ne_eq,
      not_false_eq_true, if_true, freed, if_false]
  · obtain ⟨found, gets⟩ := getTargetsFrom_total represents script.getTargets
    obtain ⟨changed, lines, updates, usersChanged, representsChanged⟩ :=
      updateThird_total represents
    obtain ⟨left, lines', deletes, usersLeft, representsLeft⟩ :=
      deleteTargetsFrom_total representsChanged script.deleteTargets
    obtain ⟨last, freed, represents'⟩ := representsLeft.freeAllUserInfos
    refine ⟨0, last, ?_, represents'.returned, .inr ⟨rfl, succeeds⟩⟩
    simp only [listModuleLife, listModuleInit, listModuleExit, building, Memory.ok_bind, ne_eq,
      not_true_eq_false, if_false, if_true, represents.printAllUserInfos, gets, updates, deletes,
      representsLeft.printAllUserInfos, freed]

/-- Three addresses, each handed out while it is free. -/
def threeUsers : Kernel (Fin 3) where
  kzalloc _ live := (List.finRange 3).find? fun addr => addr ∉ live
  fresh handed := by simpa using List.find?_some handed
  age _ := 41
  nCartItems _ := 2
  food _ _ := ⟨1, by decide⟩

/-- The shipped script asks for five. -/
theorem users_owned_for_life_in_three :
    ∃ memory, listModuleLife threeUsers shippedScript 4 = .ok (-enomem, memory) ∧
      memory.Returned := by
  obtain ⟨ret, memory, lives, returned, ⟨rfl, -⟩ | ⟨-, succeeds⟩⟩ :=
    users_owned_for_life threeUsers shippedScript (by decide : Fintype.card (Fin 3) < 4)
  · exact ⟨memory, lives, returned⟩
  · exact absurd ⟨3, .inl (by decide), by decide⟩ succeeds

end KernelSamples.DataStructure

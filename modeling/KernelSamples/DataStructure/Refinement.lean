import KernelSamples.Lib.Machine
import KernelSamples.DataStructure.Sequence

/-! Any sequence of the operations of `list.c` on the pointer structure is the same sequence
of operations on a plain sequence of users. -/

namespace KernelSamples.DataStructure

open Lib

/-- An operation of the module with its arguments. `append` also says which user the
allocator hands out and how it is filled in. -/
inductive Operation (Addr : Type) where
  | append (addr : Addr) (fill : User → User)
  | get (username : Option CString)
  | update (username : Option CString) (change : User → User)
  | delete (username : Option CString)
  | freeAll
  | printAll

/-- What an operation returns. A pointer to a user is seen as that user, NULL as none. -/
inductive Result (Addr : Type) where
  | appended
  | found (user : Option (Entry Addr))
  | deleted (ret : Int)
  | freed
  | printed (report : Report)
  deriving DecidableEq

variable {Addr : Type} [DecidableEq Addr]

/-- The allocator hands out only what is not live. -/
def Operation.Admitted (live : List Addr) : Operation Addr → Prop
  | .append addr _ => addr ∉ live
  | _ => True

instance (live : List Addr) : ∀ operation : Operation Addr, Decidable (operation.Admitted live)
  | .append addr _ => inferInstanceAs (Decidable (addr ∉ live))
  | .get _ | .update _ _ | .delete _ | .freeAll | .printAll => .isTrue trivial

def observe (memory : Memory Addr) :
    Pointer Addr → Except (Fault Addr) (Option (Entry Addr))
  | .null => .ok none
  | .user addr => do
    let info ← memory.readUser (.user addr)
    .ok (some (addr, info.toUser))
  | _ => .error .wildPointer

def perform (memory : Memory Addr) :
    Operation Addr → Except (Fault Addr) (Memory Addr × Result Addr)
  | .append addr fill => do
    let next ← appendUserInfo memory addr fill
    .ok (next, .appended)
  | .get username => do
    let user ← getUserInfo memory username
    let found ← observe memory user
    .ok (memory, .found found)
  | .update username change => do
    let (user, next) ← updateUserInfo memory username change
    let found ← observe memory user
    .ok (next, .found found)
  | .delete username => do
    let (ret, next) ← deleteUserInfo memory username
    .ok (next, .deleted ret)
  | .freeAll => do
    let next ← freeAllUserInfos memory
    .ok (next, .freed)
  | .printAll => do
    let report ← printAllUserInfos memory
    .ok (memory, .printed report)

/-- The module's memory and the results so far, or the first fault. -/
def listMachine (Addr : Type) [DecidableEq Addr] :
    Machine (Except (Fault Addr) (Memory Addr × List (Result Addr))) (Operation Addr) where
  initial := .ok (.initial, [])
  step state operation :=
    match state with
    | .error _ => none
    | .ok (memory, results) =>
      if operation.Admitted memory.live then
        some (do
          let (next, result) ← perform memory operation
          .ok (next, results ++ [result]))
      else none

/-- What an operation makes of the sequence of users. -/
def transform (users : List (Entry Addr)) : Operation Addr → List (Entry Addr)
  | .append addr fill => users ++ [(addr, fill .zeroed)]
  | .get _ => users
  | .update username change => update username change users
  | .delete username => remove username users
  | .freeAll => []
  | .printAll => users

/-- What an operation returns on a sequence of users. -/
def answer (users : List (Entry Addr)) : Operation Addr → Result Addr
  | .append _ _ => .appended
  | .get username => .found (lookup username users)
  | .update username _ => .found (lookup username users)
  | .delete username => .deleted (if (lookup username users).isSome then 0 else -enoent)
  | .freeAll => .freed
  | .printAll => .printed (report users)

def sequenceMachine (Addr : Type) [DecidableEq Addr] :
    Machine (List (Entry Addr) × List (Result Addr)) (Operation Addr) where
  initial := ([], [])
  step state operation :=
    if operation.Admitted (state.1.map Prod.fst) then
      some (transform state.1 operation, state.2 ++ [answer state.1 operation])
    else none

variable {memory : Memory Addr} {users : List (Entry Addr)}

omit [DecidableEq Addr] in
theorem admitted_congr (represents : Represents memory users) (operation : Operation Addr) :
    operation.Admitted memory.live ↔ operation.Admitted (users.map Prod.fst) := by
  cases operation with
  | append addr fill => exact not_congr represents.live.mem_iff
  | _ => exact Iff.rfl

theorem observe_found (represents : Represents memory users) (username : Option CString) :
    observe memory (foundPointer (lookup username users)) = .ok (lookup username users) := by
  cases found : lookup username users with
  | none => rfl
  | some entry =>
    obtain ⟨name, rfl, found⟩ := Option.bind_eq_some_iff.mp found
    obtain ⟨live, fields⟩ := represents.held entry (List.mem_of_find?_eq_some found)
    have read := readUser_live live
    simp only [foundPointer, Entry.pointer] at read ⊢
    simp only [observe, read, Memory.ok_bind, fields]

/-- One operation on the pointers is the operation on the sequence. -/
theorem perform_represents (represents : Represents memory users) {operation : Operation Addr}
    (admitted : operation.Admitted memory.live) :
    ∃ next, perform memory operation = .ok (next, answer users operation) ∧
      Represents next (transform users operation) := by
  cases operation with
  | append addr fill =>
    obtain ⟨next, appended, -, represents'⟩ := represents.appendUserInfo admitted fill
    exact ⟨next, by simp only [perform, appended, Memory.ok_bind, answer], represents'⟩
  | get username =>
    refine ⟨memory, ?_, represents⟩
    simp only [perform, represents.getUserInfo, observe_found represents, Memory.ok_bind, answer]
  | update username change =>
    obtain ⟨next, updated, represents'⟩ := represents.updateUserInfo username change
    refine ⟨next, ?_, represents'⟩
    simp only [perform, updated, observe_found represents, Memory.ok_bind, answer]
  | delete username =>
    obtain ⟨next, deleted, represents'⟩ := represents.deleteUserInfo username
    exact ⟨next, by simp only [perform, deleted, Memory.ok_bind, answer], represents'⟩
  | freeAll =>
    obtain ⟨next, freed, represents'⟩ := represents.freeAllUserInfos
    exact ⟨next, by simp only [perform, freed, Memory.ok_bind, answer], represents'⟩
  | printAll =>
    refine ⟨memory, ?_, represents⟩
    simp only [perform, represents.printAllUserInfos, Memory.ok_bind, answer]

/-- The memory represents the sequence, with the same results so far. -/
def Represented (state : Except (Fault Addr) (Memory Addr × List (Result Addr)))
    (shadow : List (Entry Addr) × List (Result Addr)) : Prop :=
  ∃ memory, state = .ok (memory, shadow.2) ∧ Represents memory shadow.1

theorem list_simulation :
    Machine.Simulation (listMachine Addr) (sequenceMachine Addr) Represented where
  starts := ⟨.initial, rfl, .initial⟩
  follows := by
    rintro state ⟨users, results⟩ operation next ⟨memory, rfl, represents⟩ taken
    simp only [listMachine, Option.ite_none_right_eq_some] at taken
    obtain ⟨admitted, performed⟩ := taken
    obtain ⟨memory', result, represents'⟩ := perform_represents represents admitted
    refine ⟨_, if_pos ((admitted_congr represents operation).mp admitted), memory', ?_,
      represents'⟩
    rw [← Option.some.inj performed, result]
    rfl

/-- Whatever the operations, the heap holds a ring, the same forwards and backwards, whose
users in `next` order are the abstract sequence, and every result is the abstract one. -/
theorem list_refines_sequence {operations : List (Operation Addr)}
    {state : Except (Fault Addr) (Memory Addr × List (Result Addr))}
    (onward : (listMachine Addr).run (listMachine Addr).initial operations = some state) :
    ∃ memory users results,
      (sequenceMachine Addr).run (sequenceMachine Addr).initial operations =
        some (users, results) ∧
      state = .ok (memory, results) ∧
      (∀ fuel, users.length < fuel →
        Links.walk memory.links.next .head fuel (memory.links.next .head) =
          users.map Entry.pointer ∧
        Links.walk memory.links.prev .head fuel (memory.links.prev .head) =
          (users.map Entry.pointer).reverse) ∧
      (users.map Entry.pointer).Nodup ∧
      (∀ entry ∈ users, entry.1 ∈ memory.live ∧ (memory.contents entry.1).toUser = entry.2) := by
  obtain ⟨⟨users, results⟩, abstract, memory, concrete, represents⟩ :=
    list_simulation.run list_simulation.starts onward
  refine ⟨memory, users, results, abstract, concrete, ?_, represents.ring.nodes_distinct,
    represents.held⟩
  intro fuel enough
  exact ⟨represents.ring.walk_next (by simpa using enough),
    represents.ring.walk_prev (by simpa using enough)⟩

/-- Two users of one name, the first of them deleted. -/
def namesakes : List (Operation Nat) :=
  let name : CString := ⟨['a'], by decide⟩
  let fill (user : User) : User := { user with username := user.username.scnprintf name }
  [.append 7 fill, .append 9 fill, .get (some name), .delete (some name),
    .update (some name) fun user => { user with age := 99 }, .printAll]

theorem list_refines_sequence_namesakes :
    ∃ memory results,
      (listMachine Nat).run (listMachine Nat).initial namesakes = some (.ok (memory, results)) ∧
      Links.walk memory.links.next .head 2 (memory.links.next .head) = [.user 9] := by
  obtain ⟨state, onward⟩ := Option.isSome_iff_exists.mp (by decide +kernel :
    ((listMachine Nat).run (listMachine Nat).initial namesakes).isSome = true)
  obtain ⟨memory, users, results, abstract, rfl, walks, -⟩ := list_refines_sequence onward
  have known : ((sequenceMachine Nat).run (sequenceMachine Nat).initial namesakes).map
      (fun shadow => shadow.1.map Entry.pointer) = some [.user 9] := by
    decide +kernel
  rw [abstract, Option.map_some] at known
  have remaining : users.map Entry.pointer = [.user 9] := Option.some.inj known
  have single : users.length = 1 := by simpa using congrArg List.length remaining
  refine ⟨memory, results, onward, ?_⟩
  rw [(walks 2 (by omega)).1, remaining]

end KernelSamples.DataStructure

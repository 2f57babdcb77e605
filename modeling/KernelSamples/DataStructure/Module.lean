import KernelSamples.Lib.Word
import KernelSamples.DataStructure.UserInfos

/-! `list_module_init` and `list_module_exit`, for any number of users, any allocator, any
random numbers and any targets. -/

namespace KernelSamples.DataStructure

open Lib

def enomem : Int := 12

/-- Width of `unsigned int`. -/
def uintBits : Nat := 32

inductive Food where
  | banana
  | kiwi
  | strawberry
  | bread
  | milk
  | ham

def Food.code : Food → UInt32
  | .banana => 0
  | .kiwi => 1
  | .strawberry => 2
  | .bread => 3
  | .milk => 4
  | .ham => 5

def nFoodCodes : Nat := 6

/-- `"username#%u"` -/
def numbered (i : Nat) : CString where
  text := "username#".toList ++ Nat.toDigits 10 i
  noNul := by
    intro member
    rcases List.mem_append.mp member with inPrefix | digit
    · exact absurd inPrefix (by decide)
    · exact absurd (Nat.isDigit_of_mem_toDigits (by decide) (by decide) digit) (by decide)

/-- What the kernel gives a run of the module: the outcome of each allocation, never a user
that is live, and the random numbers of each round. -/
structure Kernel (Addr : Type) where
  kzalloc : Nat → List Addr → Option Addr
  fresh : ∀ {round live addr}, kzalloc round live = some addr → addr ∉ live
  age : Nat → Fin 100
  nCartItems : Nat → Fin (maxCartSize + 1)
  food : Nat → Nat → Fin nFoodCodes

variable {Addr : Type} [DecidableEq Addr]

/-- The members a round of the loop fills in. -/
def fillUserInfo (kernel : Kernel Addr) (round i : Nat) (user : User) : User where
  username := user.username.scnprintf (numbered i)
  age := UInt8.ofNat (kernel.age round + 1)
  nCartItems := UInt8.ofNat (kernel.nCartItems round)
  shoppingCart := Vector.ofFn fun j =>
    if j.val < kernel.nCartItems round then UInt32.ofNat (kernel.food round j)
    else user.shoppingCart.get j

/-- The loop that builds the list. `i` is an `unsigned int`, `round` counts without wrap. -/
def buildUserInfos (kernel : Kernel Addr) (nUserInfos : Nat) :
    Nat → Nat → Nat → Memory Addr → Except (Fault Addr) (Int × Memory Addr)
  | 0, _, _, _ => .error .endlessLoop
  | fuel + 1, round, i, memory =>
    if i < nUserInfos then
      match kernel.kzalloc round memory.live with
      | none => .ok (-enomem, memory)
      | some addr => do
        let memory ← appendUserInfo memory addr (fillUserInfo kernel round i)
        buildUserInfos kernel nUserInfos fuel (round + 1) (wrap uintBits (i + 1)) memory
    else .ok (0, memory)

/-- The lines of the log, with what they print. -/
inductive Message where
  | report (report : Report)
  | inTheList (username : CString) (age : UInt8)
  | notInTheList (username : CString)
  | changingAge (age : UInt8)
  | ageIsNow (age : UInt8)
  | replacedCart
  | deleted (username : CString)
  | noneToDelete (username : CString) (ret : Int)
  | loaded
  | unloaded

/-- The loop over `get_targets`. -/
def getTargetsFrom (memory : Memory Addr) : List CString → Except (Fault Addr) (List Message)
  | [] => .ok []
  | target :: rest => do
    let user ← getUserInfo memory (some target)
    let line ←
      if user = .null then .ok (.notInTheList target)
      else do
        let info ← memory.readUser user
        .ok (.inTheList target info.age)
    let lines ← getTargetsFrom memory rest
    .ok (line :: lines)

/-- The update of `username#3`. -/
def updateThird (memory : Memory Addr) : Except (Fault Addr) (Memory Addr × List Message) := do
  let user ← getUserInfo memory (some (numbered 3))
  if user = .null then .ok (memory, [])
  else
    let before ← memory.readUser user
    let memory ← memory.writeUser (fun fields => { fields with age := 99 }) user
    let now ← memory.readUser user
    let memory ← memory.writeUser (fun fields => { fields with
      shoppingCart := (fields.shoppingCart.set! 0 Food.milk.code).set! 1 Food.ham.code
      nCartItems := 2 }) user
    .ok (memory, [.changingAge before.age, .ageIsNow now.age, .replacedCart])

/-- The loop over `delete_targets`. -/
def deleteTargetsFrom (memory : Memory Addr) :
    List CString → Except (Fault Addr) (Memory Addr × List Message)
  | [] => .ok (memory, [])
  | target :: rest => do
    let (ret, memory) ← deleteUserInfo memory (some target)
    let line := if ret = 0 then .deleted target else .noneToDelete target ret
    let (memory, lines) ← deleteTargetsFrom memory rest
    .ok (memory, line :: lines)

/-- The macros and tables of the module. -/
structure Script where
  nUserInfos : Nat
  getTargets : List CString
  deleteTargets : List CString

/-- The script the module is compiled with. -/
def shippedScript : Script where
  nUserInfos := 5
  getTargets := [numbered 2, numbered 4, ⟨"nobody".toList, by decide⟩]
  deleteTargets := [numbered 1, numbered 1, numbered 4, ⟨"nobody".toList, by decide⟩]

def listModuleInit (kernel : Kernel Addr) (script : Script) (fuel : Nat)
    (memory : Memory Addr) : Except (Fault Addr) (Int × Memory Addr × List Message) := do
  let (ret, memory) ← buildUserInfos kernel script.nUserInfos fuel 0 0 memory
  if ret ≠ 0 then
    let memory ← freeAllUserInfos memory
    .ok (ret, memory, [])
  else
    let built ← printAllUserInfos memory
    let found ← getTargetsFrom memory script.getTargets
    let (memory, changed) ← updateThird memory
    let (memory, deleted) ← deleteTargetsFrom memory script.deleteTargets
    let left ← printAllUserInfos memory
    .ok (0, memory, .report built :: found ++ changed ++ deleted ++ [.report left, .loaded])

def listModuleExit (memory : Memory Addr) :
    Except (Fault Addr) (Memory Addr × List Message) := do
  let memory ← freeAllUserInfos memory
  .ok (memory, [.unloaded])

/-- The whole life: an init that fails, or one that succeeds and the exit. -/
def listModuleLife (kernel : Kernel Addr) (script : Script) (fuel : Nat) :
    Except (Fault Addr) (Int × Memory Addr) := do
  let (ret, memory, _) ← listModuleInit kernel script fuel .initial
  if ret = 0 then
    let (memory, _) ← listModuleExit memory
    .ok (ret, memory)
  else .ok (ret, memory)

end KernelSamples.DataStructure

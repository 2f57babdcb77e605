import KernelSamples.DataStructure.Memory

/-! The functions of `list.c` that look users up, report, delete and free them. -/

namespace KernelSamples.DataStructure

open Memory

variable {Addr : Type} [DecidableEq Addr]

def enoent : Int := 2

/-- The loop of `get_user_info` from one position on. -/
def getUserInfoFrom (memory : Memory Addr) (username : CString) :
    Nat → Pointer Addr → Except (Fault Addr) (Pointer Addr)
  | 0, _ => .error .endlessLoop
  | fuel + 1, pos =>
    if pos = .head then .ok .null
    else do
      let user ← memory.readUser pos
      if user.username.string = username then .ok pos
      else getUserInfoFrom memory username fuel user.listNode.next

def getUserInfo (memory : Memory Addr) :
    Option CString → Except (Fault Addr) (Pointer Addr)
  | none => .ok .null
  | some username => do
    let list ← memory.load .head
    getUserInfoFrom memory username memory.walkBound list.next

/-- `user = get_user_info(username)` and an update of the user found. -/
def updateUserInfo (memory : Memory Addr) (username : Option CString) (change : User → User) :
    Except (Fault Addr) (Pointer Addr × Memory Addr) := do
  let user ← getUserInfo memory username
  if user = .null then .ok (user, memory)
  else
    let memory ← memory.writeUser change user
    .ok (user, memory)

def deleteUserInfo (memory : Memory Addr) (username : Option CString) :
    Except (Fault Addr) (Int × Memory Addr) := do
  let user ← getUserInfo memory username
  if user = .null then .ok (-enoent, memory)
  else
    let memory ← memory.listDel user
    let memory ← memory.kfree user
    .ok (0, memory)

/-- The loop of `free_all_user_infos`. `tmp` was read before `user` was freed. -/
def freeUserInfosFrom : Nat → Pointer Addr → Pointer Addr → Memory Addr →
    Except (Fault Addr) (Memory Addr)
  | 0, _, _, _ => .error .endlessLoop
  | fuel + 1, user, tmp, memory =>
    if user = .head then .ok memory
    else do
      let memory ← memory.listDel user
      let memory ← memory.kfree user
      let node ← memory.load tmp
      freeUserInfosFrom fuel tmp node.next memory

def freeAllUserInfos (memory : Memory Addr) : Except (Fault Addr) (Memory Addr) := do
  let list ← memory.load .head
  let node ← memory.load list.next
  freeUserInfosFrom memory.walkBound list.next node.next memory

/-- `list_count_nodes` from one position on. -/
def listCountNodesFrom (memory : Memory Addr) :
    Nat → Pointer Addr → Except (Fault Addr) Nat
  | 0, _ => .error .endlessLoop
  | fuel + 1, pos =>
    if pos = .head then .ok 0
    else do
      let node ← memory.load pos
      let count ← listCountNodesFrom memory fuel node.next
      .ok (count + 1)

/-- The last loop of `print_all_user_infos`: the users whose name, age and cart it prints. -/
def printUserInfosFrom (memory : Memory Addr) :
    Nat → Pointer Addr → Except (Fault Addr) (List User)
  | 0, _ => .error .endlessLoop
  | fuel + 1, pos =>
    if pos = .head then .ok []
    else do
      let user ← memory.readUser pos
      let users ← printUserInfosFrom memory fuel user.listNode.next
      .ok (user.toUser :: users)

/-- What `print_all_user_infos` logs: the count, the names of the first and of the last user,
and the users. -/
structure Report where
  count : Nat
  ends : Option (CString × CString)
  users : List User
  deriving DecidableEq

def printAllUserInfos (memory : Memory Addr) : Except (Fault Addr) Report := do
  let list ← memory.load .head
  let count ← listCountNodesFrom memory memory.walkBound list.next
  -- list_empty
  if list.next = .head then .ok ⟨count, none, []⟩
  else
    let first ← memory.readUser list.next
    let last ← memory.readUser list.prev
    let users ← printUserInfosFrom memory memory.walkBound list.next
    .ok ⟨count, some (first.username.string, last.username.string), users⟩

/-- A round of the loop that builds the list: the user handed out is filled in and linked. -/
def appendUserInfo (memory : Memory Addr) (addr : Addr) (fill : User → User) :
    Except (Fault Addr) (Memory Addr) := do
  let memory ← (memory.kzalloc addr).writeUser fill (.user addr)
  memory.listAddTail (.user addr) .head

end KernelSamples.DataStructure

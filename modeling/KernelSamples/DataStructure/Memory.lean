import Mathlib.Logic.Function.Basic
import Mathlib.Data.List.TakeWhile

/-! The memory `list.c` works on: the list head, the users the slab allocator has handed
out, and the accesses of `list.h` to both. An access outside of them is a fault. -/

namespace KernelSamples.DataStructure

def maxUsernameLength : Nat := 32
def maxCartSize : Nat := 10

/-- The characters of a C string up to its NUL. -/
structure CString where
  text : List Char
  noNul : '\x00' ∉ text
  deriving DecidableEq

/-- A `char [MAX_USERNAME_LENGTH]` that holds a C string. -/
structure Username where
  bytes : List Char
  size : bytes.length = maxUsernameLength
  terminated : '\x00' ∈ bytes
  deriving DecidableEq

/-- What `strcmp` and `%s` see of the buffer. -/
def Username.string (username : Username) : CString where
  text := username.bytes.takeWhile fun char => char ≠ '\x00'
  noNul := by
    intro member
    simpa using List.mem_takeWhile_imp member

def Username.zeroed : Username where
  bytes := List.replicate maxUsernameLength '\x00'
  size := List.length_replicate
  terminated := by simp [maxUsernameLength]

/-- `scnprintf` into the buffer: what fits, a NUL, and the old bytes after it. -/
def Username.scnprintf (username : Username) (text : CString) : Username where
  bytes := text.text.take (maxUsernameLength - 1) ++ '\x00' ::
    username.bytes.drop (min (maxUsernameLength - 1) text.text.length + 1)
  size := by
    have size := username.size
    simp only [List.length_append, List.length_take, List.length_cons, List.length_drop, size,
      maxUsernameLength]
    omega
  terminated := by simp

/-- The fields of `struct user_info` apart from its `list_node`. Food codes are kept as the
numbers they are stored as. -/
structure User where
  shoppingCart : Vector UInt32 maxCartSize
  age : UInt8
  nCartItems : UInt8
  username : Username
  deriving DecidableEq

def User.zeroed : User where
  shoppingCart := Vector.replicate maxCartSize 0
  age := 0
  nCartItems := 0
  username := .zeroed

variable {Addr : Type}

/-- Where a `struct list_head *` can point to. `list_node` is the first member of
`struct user_info`, so `container_of` leaves the address as it is. -/
inductive Pointer (Addr : Type) where
  | null
  | poison1
  | poison2
  | head
  | user (addr : Addr)
  deriving DecidableEq

structure ListHead (Addr : Type) where
  next : Pointer Addr
  prev : Pointer Addr
  deriving DecidableEq

structure UserInfo (Addr : Type) extends User where
  listNode : ListHead Addr

inductive Fault (Addr : Type) where
  | wildPointer
  | useAfterFree (addr : Addr)
  | doubleFree (addr : Addr)
  | endlessLoop
  deriving DecidableEq

/-- `live` is the allocator's book of users handed out and not freed. An observer also logs
every allocation and every free. -/
structure Memory (Addr : Type) where
  gsUserInfoList : ListHead Addr
  contents : Addr → UserInfo Addr
  live : List Addr
  allocated : List Addr
  freed : List Addr

namespace Memory

variable [DecidableEq Addr]

/-- `LIST_HEAD(gs_user_info_list)`, nothing allocated. -/
def initial : Memory Addr where
  gsUserInfoList := ⟨.head, .head⟩
  contents _ := ⟨.zeroed, ⟨.null, .null⟩⟩
  live := []
  allocated := []
  freed := []

/-- The pointers that may be followed. -/
def Valid (memory : Memory Addr) : Pointer Addr → Prop
  | .head => True
  | .user addr => addr ∈ memory.live
  | _ => False

instance (memory : Memory Addr) : ∀ pointer, Decidable (memory.Valid pointer)
  | .head => .isTrue trivial
  | .user addr => inferInstanceAs (Decidable (addr ∈ memory.live))
  | .null | .poison1 | .poison2 => .isFalse nofun

def fault : Pointer Addr → Fault Addr
  | .user addr => .useAfterFree addr
  | _ => .wildPointer

/-- The cells at a pointer that may be followed. -/
def listHead (memory : Memory Addr) : Pointer Addr → ListHead Addr
  | .head => memory.gsUserInfoList
  | .user addr => (memory.contents addr).listNode
  | _ => ⟨.null, .null⟩

def setContents (memory : Memory Addr) (addr : Addr) (info : UserInfo Addr) : Memory Addr :=
  { memory with contents := Function.update memory.contents addr info }

def setListHead (memory : Memory Addr) (pointer : Pointer Addr) (node : ListHead Addr) :
    Memory Addr :=
  match pointer with
  | .head => { memory with gsUserInfoList := node }
  | .user addr => memory.setContents addr { memory.contents addr with listNode := node }
  | _ => memory

def load (memory : Memory Addr) (pointer : Pointer Addr) : Except (Fault Addr) (ListHead Addr) :=
  if memory.Valid pointer then .ok (memory.listHead pointer) else .error (fault pointer)

def storeNext (memory : Memory Addr) (pointer target : Pointer Addr) :
    Except (Fault Addr) (Memory Addr) :=
  if memory.Valid pointer then
    .ok (memory.setListHead pointer { memory.listHead pointer with next := target })
  else .error (fault pointer)

def storePrev (memory : Memory Addr) (pointer target : Pointer Addr) :
    Except (Fault Addr) (Memory Addr) :=
  if memory.Valid pointer then
    .ok (memory.setListHead pointer { memory.listHead pointer with prev := target })
  else .error (fault pointer)

/-- Reading a member of the user a pointer leads to. -/
def readUser (memory : Memory Addr) : Pointer Addr → Except (Fault Addr) (UserInfo Addr)
  | .user addr =>
    if addr ∈ memory.live then .ok (memory.contents addr) else .error (.useAfterFree addr)
  | _ => .error .wildPointer

/-- Writing members of the user a pointer leads to. -/
def writeUser (memory : Memory Addr) (change : User → User) :
    Pointer Addr → Except (Fault Addr) (Memory Addr)
  | .user addr =>
    if addr ∈ memory.live then
      let info := memory.contents addr
      .ok (memory.setContents addr { info with toUser := change info.toUser })
    else .error (.useAfterFree addr)
  | _ => .error .wildPointer

/-- A `kzalloc` that returns this address, which the allocator picks among those not live. -/
def kzalloc (memory : Memory Addr) (addr : Addr) : Memory Addr :=
  { memory.setContents addr ⟨.zeroed, ⟨.null, .null⟩⟩ with
    live := addr :: memory.live
    allocated := addr :: memory.allocated }

def kfree (memory : Memory Addr) : Pointer Addr → Except (Fault Addr) (Memory Addr)
  | .null => .ok memory
  | .user addr =>
    if addr ∈ memory.live then
      .ok { memory with live := memory.live.erase addr, freed := addr :: memory.freed }
    else .error (.doubleFree addr)
  | _ => .error .wildPointer

/-- A walk that takes more steps than there are live users has met one of them twice, so it
has no end. -/
def walkBound (memory : Memory Addr) : Nat := memory.live.length + 1

/-- `__list_add` -/
def listAdd (memory : Memory Addr) (new prev next : Pointer Addr) :
    Except (Fault Addr) (Memory Addr) := do
  let memory ← memory.storePrev next new
  let memory ← memory.storeNext new next
  let memory ← memory.storePrev new prev
  memory.storeNext prev new

def listAddTail (memory : Memory Addr) (new list : Pointer Addr) :
    Except (Fault Addr) (Memory Addr) := do
  let node ← memory.load list
  memory.listAdd new node.prev list

/-- `__list_del` -/
def listDelBetween (memory : Memory Addr) (prev next : Pointer Addr) :
    Except (Fault Addr) (Memory Addr) := do
  let memory ← memory.storePrev next prev
  memory.storeNext prev next

def listDel (memory : Memory Addr) (entry : Pointer Addr) :
    Except (Fault Addr) (Memory Addr) := do
  let node ← memory.load entry
  let memory ← memory.listDelBetween node.prev node.next
  let memory ← memory.storeNext entry .poison1
  memory.storePrev entry .poison2

end Memory

end KernelSamples.DataStructure

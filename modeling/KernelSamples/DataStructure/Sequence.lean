import KernelSamples.DataStructure.Links

/-! The sequence of users that a memory stands for, and each function of `list.c` as an
operation on that sequence. -/

namespace KernelSamples.DataStructure

open Lib

/-- A user in the list: which one it is, and its fields. -/
abbrev Entry (Addr : Type) := Addr × User

namespace Entry

variable {Addr : Type}

def pointer (entry : Entry Addr) : Pointer Addr := .user entry.1

def Named (username : CString) (entry : Entry Addr) : Bool :=
  entry.2.username.string = username

theorem pointer_ne_head (entry : Entry Addr) : entry.pointer ≠ .head := nofun

theorem pointer_ne_null (entry : Entry Addr) : entry.pointer ≠ .null := nofun

end Entry

section Sequences

variable {Addr : Type}

/-- The first user of a name. There is none for a NULL name. -/
def lookup (username : Option CString) (users : List (Entry Addr)) : Option (Entry Addr) :=
  username.bind fun username => users.find? (Entry.Named username)

/-- Change the fields of the first user of a name. -/
def changeFirst (username : CString) (change : User → User) :
    List (Entry Addr) → List (Entry Addr)
  | [] => []
  | entry :: rest =>
    if Entry.Named username entry then (entry.1, change entry.2) :: rest
    else entry :: changeFirst username change rest

def update (username : Option CString) (change : User → User) (users : List (Entry Addr)) :
    List (Entry Addr) :=
  match username with
  | none => users
  | some username => changeFirst username change users

/-- Leave out the first user of a name. -/
def remove (username : Option CString) (users : List (Entry Addr)) : List (Entry Addr) :=
  match username with
  | none => users
  | some username => users.eraseP (Entry.Named username)

/-- The count and the two ends of a sequence of users. -/
def report (users : List (Entry Addr)) : Report where
  count := users.length
  ends := users.head?.bind fun first =>
    users.getLast?.map fun last => (first.2.username.string, last.2.username.string)
  users := users.map Prod.snd

variable {users before after : List (Entry Addr)} {entry : Entry Addr} {username : CString}

theorem changeFirst_split (change : User → User) (none : ∀ other ∈ before, ¬ other.Named username)
    (named : entry.Named username) :
    changeFirst username change (before ++ entry :: after) =
      before ++ (entry.1, change entry.2) :: after := by
  induction before with
  | nil => simp [changeFirst, named]
  | cons other rest ih =>
    have unnamed := none other List.mem_cons_self
    simp only [List.cons_append, changeFirst, unnamed]
    rw [ih fun other member => none other (List.mem_cons_of_mem _ member)]
    rfl

theorem changeFirst_absent (change : User → User) (none : ∀ other ∈ users, ¬ other.Named username) :
    changeFirst username change users = users := by
  induction users with
  | nil => rfl
  | cons other rest ih =>
    have unnamed := none other List.mem_cons_self
    simp only [changeFirst, unnamed]
    rw [ih fun other member => none other (List.mem_cons_of_mem _ member)]
    rfl

theorem erase_split (none : ∀ other ∈ before, ¬ other.Named username)
    (named : entry.Named username) :
    (before ++ entry :: after).eraseP (Entry.Named username) = before ++ after := by
  rw [List.eraseP_append_right _ none, List.eraseP_cons_of_pos named]

end Sequences

section Memories

variable {Addr : Type}

/-- The memory holds a well-formed ring of exactly these users, no other user is live, and
every user ever allocated is live or was freed, once. -/
structure Represents (memory : Memory Addr) (users : List (Entry Addr)) : Prop where
  ring : memory.links.Ring .head (users.map Entry.pointer)
  fields : ∀ entry ∈ users, (memory.contents entry.1).toUser = entry.2
  live : memory.live.Perm (users.map Prod.fst)
  accounted : memory.allocated.Perm (memory.freed ++ memory.live)

/-- What a pointer to a user that was looked up is. -/
def foundPointer : Option (Entry Addr) → Pointer Addr
  | none => .null
  | some entry => entry.pointer

variable {memory next : Memory Addr} {users before after rest : List (Entry Addr)}
variable {entry : Entry Addr} {username : CString} {addr : Addr} {pos : Pointer Addr}
variable {fuel : Nat}

namespace Represents

theorem initial : Represents (Memory.initial : Memory Addr) [] where
  ring := .empty rfl rfl
  fields := nofun
  live := .nil
  accounted := .nil

theorem mem_live (represents : Represents memory users) :
    addr ∈ memory.live ↔ ∃ entry ∈ users, entry.1 = addr := by
  rw [represents.live.mem_iff, List.mem_map]

theorem live_entry (represents : Represents memory users) (member : entry ∈ users) :
    entry.1 ∈ memory.live :=
  represents.mem_live.mpr ⟨entry, member, rfl⟩

theorem valid (represents : Represents memory users) :
    ∀ node ∈ users.map Entry.pointer, memory.Valid node := by
  intro node member
  obtain ⟨entry, present, rfl⟩ := List.mem_map.mp member
  exact represents.live_entry present

theorem first_valid (represents : Represents memory users) :
    memory.Valid (memory.links.next .head) := by
  have start := Links.Segment.start represents.ring.segment
  rcases List.mem_append.mp (List.mem_of_mem_head? start) with member | last
  · exact represents.valid _ member
  · rw [List.mem_singleton.mp last]
    exact trivial

theorem addresses_distinct (represents : Represents memory users) :
    (users.map Prod.fst).Nodup := by
  have nodes := represents.ring.nodes_distinct
  have factor : users.map Entry.pointer = (users.map Prod.fst).map Pointer.user := by
    rw [List.map_map]
    rfl
  rw [factor] at nodes
  exact List.Nodup.of_map _ nodes

theorem enough (represents : Represents memory users) : users.length < memory.walkBound := by
  rw [Memory.walkBound, represents.live.length_eq, List.length_map]
  exact Nat.lt_succ_self _

end Represents

theorem Represents.held (represents : Represents memory users) :
    ∀ entry ∈ users, entry.1 ∈ memory.live ∧ (memory.contents entry.1).toUser = entry.2 :=
  fun entry member => ⟨represents.live_entry member, represents.fields entry member⟩

variable [DecidableEq Addr]

theorem load_head : memory.load .head =
    .ok ⟨memory.links.next .head, memory.links.prev .head⟩ :=
  Memory.load_valid trivial

theorem readUser_live (live : entry.1 ∈ memory.live) :
    memory.readUser entry.pointer = .ok (memory.contents entry.1) := by
  simp only [Memory.readUser, Entry.pointer, live, if_true]

/-- The loop of `get_user_info` stops at the first user of the name. -/
theorem getUserInfoFrom_segment (segment : memory.links.Segment .head pos (rest.map Entry.pointer))
    (held : ∀ entry ∈ rest, entry.1 ∈ memory.live ∧ (memory.contents entry.1).toUser = entry.2)
    (enough : rest.length < fuel) :
    getUserInfoFrom memory username fuel pos =
      .ok (foundPointer (rest.find? (Entry.Named username))) := by
  induction rest generalizing pos fuel with
  | nil =>
    obtain ⟨fuel, rfl⟩ : ∃ less, fuel = less + 1 := ⟨fuel - 1, by simp at enough; omega⟩
    obtain rfl : pos = .head := segment
    rfl
  | cons entry rest ih =>
    obtain ⟨fuel, rfl⟩ : ∃ less, fuel = less + 1 := ⟨fuel - 1, by simp at enough; omega⟩
    obtain ⟨rfl, onward⟩ := segment
    obtain ⟨live, fields⟩ := held entry List.mem_cons_self
    simp only [getUserInfoFrom, Entry.pointer_ne_head, if_false, readUser_live live,
      Memory.ok_bind, fields]
    by_cases named : entry.2.username.string = username
    · simp [named, Entry.Named, foundPointer]
    · rw [if_neg named, List.find?_cons_of_neg (by simpa [Entry.Named] using named)]
      exact ih onward (fun other member => held other (List.mem_cons_of_mem _ member))
        (by simpa using enough)

/-- The loop of `list_count_nodes` counts the users ahead. -/
theorem listCountNodesFrom_segment
    (segment : memory.links.Segment .head pos (rest.map Entry.pointer))
    (live : ∀ entry ∈ rest, entry.1 ∈ memory.live) (enough : rest.length < fuel) :
    listCountNodesFrom memory fuel pos = .ok rest.length := by
  induction rest generalizing pos fuel with
  | nil =>
    obtain ⟨fuel, rfl⟩ : ∃ less, fuel = less + 1 := ⟨fuel - 1, by simp at enough; omega⟩
    obtain rfl : pos = .head := segment
    rfl
  | cons entry rest ih =>
    obtain ⟨fuel, rfl⟩ : ∃ less, fuel = less + 1 := ⟨fuel - 1, by simp at enough; omega⟩
    obtain ⟨rfl, onward⟩ := segment
    have valid : memory.Valid entry.pointer := live entry List.mem_cons_self
    simp only [listCountNodesFrom, Entry.pointer_ne_head, if_false, Memory.load_valid valid,
      Memory.ok_bind]
    rw [ih onward (fun other member => live other (List.mem_cons_of_mem _ member))
      (by simpa using enough)]
    rfl

/-- The loop of `print_all_user_infos` prints the users ahead in order. -/
theorem printUserInfosFrom_segment
    (segment : memory.links.Segment .head pos (rest.map Entry.pointer))
    (held : ∀ entry ∈ rest, entry.1 ∈ memory.live ∧ (memory.contents entry.1).toUser = entry.2)
    (enough : rest.length < fuel) :
    printUserInfosFrom memory fuel pos = .ok (rest.map Prod.snd) := by
  induction rest generalizing pos fuel with
  | nil =>
    obtain ⟨fuel, rfl⟩ : ∃ less, fuel = less + 1 := ⟨fuel - 1, by simp at enough; omega⟩
    obtain rfl : pos = .head := segment
    rfl
  | cons entry rest ih =>
    obtain ⟨fuel, rfl⟩ : ∃ less, fuel = less + 1 := ⟨fuel - 1, by simp at enough; omega⟩
    obtain ⟨rfl, onward⟩ := segment
    obtain ⟨live, fields⟩ := held entry List.mem_cons_self
    simp only [printUserInfosFrom, Entry.pointer_ne_head, if_false, readUser_live live,
      Memory.ok_bind, fields]
    change (printUserInfosFrom memory fuel (memory.links.next entry.pointer) >>= _) = _
    rw [ih onward (fun other member => held other (List.mem_cons_of_mem _ member))
      (by simpa using enough)]
    rfl

namespace Represents

/-- `get_user_info` returns the first user of the name, or NULL when there is none. -/
theorem getUserInfo (represents : Represents memory users) (username : Option CString) :
    getUserInfo memory username = .ok (foundPointer (lookup username users)) := by
  cases username with
  | none => rfl
  | some username =>
    simp only [DataStructure.getUserInfo, load_head, Memory.ok_bind]
    exact getUserInfoFrom_segment represents.ring.segment represents.held represents.enough

/-- Unlinking a user and freeing it takes exactly that user out. -/
theorem release (represents : Represents memory (before ++ entry :: after)) :
    ∃ middle next, memory.listDel entry.pointer = .ok middle ∧
      middle.kfree entry.pointer = .ok next ∧ Represents next (before ++ after) := by
  obtain ⟨ring, fields, live, accounted⟩ := represents
  have valid := Represents.valid ⟨ring, fields, live, accounted⟩
  rw [List.map_append, List.map_cons] at ring valid live
  obtain ⟨middle, deleted, ring', same⟩ := Memory.listDel_ring ring valid
  have present : entry.1 ∈ middle.live := by
    rw [same.live, live.mem_iff]
    simp
  refine ⟨middle, { middle with
    live := middle.live.erase entry.1, freed := entry.1 :: middle.freed }, deleted, ?_, ?_⟩
  · simp only [Memory.kfree, Entry.pointer, present, if_true]
  · refine ⟨?_, ?_, ?_, ?_⟩
    · rw [List.map_append]
      exact ring'
    · intro other member
      rw [same.user]
      exact fields other (by simp only [List.mem_append, List.mem_cons] at member ⊢; tauto)
    · have left := (live.trans List.perm_middle).erase entry.1
      rw [List.erase_cons_head, ← List.map_append] at left
      rwa [same.live]
    · rw [same.allocated, same.freed, same.live]
      rw [same.live] at present
      exact accounted.trans
        (((List.perm_cons_erase present).append_left _).trans List.perm_middle)

/-- `delete_user_info` takes the first user of the name out and returns 0, or returns
-ENOENT and takes out nobody. -/
theorem deleteUserInfo (represents : Represents memory users) (username : Option CString) :
    ∃ next, deleteUserInfo memory username =
        .ok (if (lookup username users).isSome then 0 else -enoent, next) ∧
      Represents next (remove username users) := by
  simp only [DataStructure.deleteUserInfo, represents.getUserInfo, Memory.ok_bind]
  cases found : lookup username users with
  | none =>
    refine ⟨memory, rfl, ?_⟩
    cases username with
    | none => exact represents
    | some username =>
      have absent := List.find?_eq_none.mp found
      rw [remove, List.eraseP_of_forall_not absent]
      exact represents
  | some entry =>
    obtain ⟨username, rfl, found⟩ := Option.bind_eq_some_iff.mp found
    obtain ⟨named, before, after, rfl, earlier⟩ := List.find?_eq_some_iff_append.mp found
    obtain ⟨middle, next, deleted, freed, represents'⟩ := represents.release
    refine ⟨next, ?_, ?_⟩
    · simp only [foundPointer, Entry.pointer_ne_null, if_false, deleted, freed, Memory.ok_bind]
      rfl
    · rw [remove, erase_split (by simpa using earlier) named]
      exact represents'

theorem links_setFields (memory : Memory Addr) (addr : Addr) (user : User) :
    (memory.setContents addr { memory.contents addr with toUser := user }).links =
      memory.links := by
  have same : ∀ pointer : Pointer Addr,
      (memory.setContents addr { memory.contents addr with toUser := user }).listHead pointer =
        memory.listHead pointer := by
    intro pointer
    cases pointer with
    | user other =>
      by_cases equal : other = addr
      · subst equal
        simp [Memory.setContents, Memory.listHead]
      · simp [Memory.setContents, Memory.listHead, equal]
    | _ => rfl
  simp only [Memory.links, same]

/-- Writing members of a user changes that user's fields and nothing else. -/
theorem writeUser (represents : Represents memory (before ++ entry :: after))
    (change : User → User) :
    ∃ next, memory.writeUser change entry.pointer = .ok next ∧
      Represents next (before ++ (entry.1, change entry.2) :: after) := by
  have live : entry.1 ∈ memory.live := represents.live_entry (by simp)
  have fields := represents.fields entry (by simp)
  have distinct := represents.addresses_distinct
  rw [List.map_append, List.map_cons] at distinct
  refine ⟨memory.setContents entry.1
    { memory.contents entry.1 with toUser := change (memory.contents entry.1).toUser },
    ?_, ?_, ?_, ?_, represents.accounted⟩
  · simp only [Entry.pointer, Memory.writeUser, live, if_true]
  · rw [links_setFields]
    simpa [Entry.pointer] using represents.ring
  · intro other member
    have elsewhere : other ∈ before ∨ other ∈ after → other.1 ≠ entry.1 := by
      obtain ⟨-, distinctAfter, apart⟩ := List.nodup_append.mp distinct
      rintro (early | late)
      · exact apart _ (List.mem_map_of_mem early) _ List.mem_cons_self
      · rintro same
        exact (List.nodup_cons.mp distinctAfter).1 (same ▸ List.mem_map_of_mem late)
    have kept : other ∈ before ∨ other ∈ after →
        (Function.update memory.contents entry.1 { memory.contents entry.1 with
          toUser := change (memory.contents entry.1).toUser } other.1).toUser = other.2 := by
      intro around
      rw [Function.update_of_ne (elsewhere around)]
      apply represents.fields other
      rcases around with early | late <;> simp [*]
    rcases List.mem_append.mp member with early | rest
    · exact kept (.inl early)
    · rcases List.mem_cons.mp rest with rfl | late
      · simp [Memory.setContents, fields]
      · exact kept (.inr late)
  · simpa [Memory.setContents] using represents.live

/-- Updating the user found changes that user's fields and nothing else. -/
theorem updateUserInfo (represents : Represents memory users) (username : Option CString)
    (change : User → User) :
    ∃ next, updateUserInfo memory username change =
        .ok (foundPointer (lookup username users), next) ∧
      Represents next (update username change users) := by
  simp only [DataStructure.updateUserInfo, represents.getUserInfo, Memory.ok_bind]
  cases found : lookup username users with
  | none =>
    refine ⟨memory, rfl, ?_⟩
    cases username with
    | none => exact represents
    | some username =>
      have absent := List.find?_eq_none.mp found
      rw [update, changeFirst_absent change (by simpa using absent)]
      exact represents
  | some entry =>
    obtain ⟨username, rfl, found⟩ := Option.bind_eq_some_iff.mp found
    obtain ⟨named, before, after, rfl, earlier⟩ := List.find?_eq_some_iff_append.mp found
    obtain ⟨next, written, represents'⟩ := represents.writeUser change
    refine ⟨next, ?_, ?_⟩
    · simp only [foundPointer, Entry.pointer_ne_null, if_false, written, Memory.ok_bind]
    · rw [update, changeFirst_split change (by simpa using earlier) named]
      exact represents'

/-- A user the allocator hands out, filled in and linked, comes last. -/
theorem appendUserInfo (represents : Represents memory users) (fresh : addr ∉ memory.live)
    (fill : User → User) :
    ∃ next, appendUserInfo memory addr fill = .ok next ∧
      next.live = addr :: memory.live ∧
      Represents next (users ++ [(addr, fill .zeroed)]) := by
  have apart : ∀ entry ∈ users, entry.1 ≠ addr := by
    rintro entry member rfl
    exact fresh (represents.live_entry member)
  let filled : Memory Addr := (memory.kzalloc addr).setContents addr
    { (memory.kzalloc addr).contents addr with toUser := fill .zeroed }
  have written : (memory.kzalloc addr).writeUser fill (.user addr) = .ok filled := by
    simp [Memory.writeUser, Memory.kzalloc, filled, Memory.setContents]
  have ring : filled.links.Ring .head (users.map Entry.pointer) := by
    have sameNode : ∀ node ∈ Pointer.head :: users.map Entry.pointer,
        filled.listHead node = memory.listHead node := by
      intro node member
      rcases List.mem_cons.mp member with rfl | member
      · rfl
      · obtain ⟨entry, present, rfl⟩ := List.mem_map.mp member
        simp [filled, Memory.kzalloc, Memory.setContents, Memory.listHead, Entry.pointer,
          apart entry present]
    exact represents.ring.congr (fun node member => congrArg ListHead.next (sameNode node member))
      (fun node member => congrArg ListHead.prev (sameNode node member))
  have valid : ∀ node ∈ users.map Entry.pointer, filled.Valid node := by
    intro node member
    obtain ⟨entry, present, rfl⟩ := List.mem_map.mp member
    exact List.mem_cons_of_mem _ (represents.live_entry present)
  have freshNode : Pointer.user addr ∉ Pointer.head :: users.map Entry.pointer := by
    intro member
    rcases List.mem_cons.mp member with impossible | member
    · cases impossible
    · obtain ⟨entry, present, same⟩ := List.mem_map.mp member
      exact apart entry present (Pointer.user.inj same)
  obtain ⟨next, added, ring', same⟩ := Memory.listAddTail_ring ring valid
    (show filled.Valid (.user addr) from List.mem_cons_self) freshNode
  refine ⟨next, ?_, same.live, ?_, ?_, ?_, ?_⟩
  · simp only [DataStructure.appendUserInfo, written, Memory.ok_bind, added]
  · simpa [Entry.pointer] using ring'
  · intro entry member
    rw [same.user]
    rcases List.mem_append.mp member with old | new
    · simpa [filled, Memory.kzalloc, Memory.setContents, apart entry old]
        using represents.fields entry old
    · rw [List.mem_singleton.mp new]
      simp [filled, Memory.setContents]
  · rw [same.live, List.map_append]
    exact (represents.live.cons addr).trans (List.perm_append_singleton _ _).symm
  · rw [same.allocated, same.freed, same.live]
    exact (represents.accounted.cons addr).trans List.perm_middle.symm

/-- The loop of `free_all_user_infos` frees the user it stands on and goes on with the
successor it read before. -/
theorem freeUserInfosFrom (represents : Represents memory users) (enough : users.length < fuel) :
    ∃ next, freeUserInfosFrom fuel (memory.links.next .head)
        (memory.links.next (memory.links.next .head)) memory = .ok next ∧ Represents next [] := by
  induction users generalizing memory fuel with
  | nil =>
    obtain ⟨fuel, rfl⟩ : ∃ less, fuel = less + 1 := ⟨fuel - 1, by simp at enough; omega⟩
    have done : memory.links.next .head = .head := represents.ring.segment
    exact ⟨memory, by simp only [DataStructure.freeUserInfosFrom, done, if_true], represents⟩
  | cons entry rest ih =>
    obtain ⟨fuel, rfl⟩ : ∃ less, fuel = less + 1 := ⟨fuel - 1, by simp at enough; omega⟩
    obtain ⟨first, onward⟩ := represents.ring.segment
    have foremost : Represents memory ([] ++ entry :: rest) := represents
    obtain ⟨middle, next, deleted, freed, represents'⟩ := foremost.release
    rw [List.nil_append] at represents'
    have successor : memory.links.next entry.pointer = next.links.next .head := by
      have ahead := Links.Segment.start (first ▸ onward)
      rw [Links.Segment.start represents'.ring.segment] at ahead
      exact (Option.some.inj ahead).symm
    have valid := represents'.first_valid
    obtain ⟨last, onward', empty⟩ := ih represents' (by simpa using enough)
    refine ⟨last, ?_, empty⟩
    rw [first, successor]
    simp only [DataStructure.freeUserInfosFrom, Entry.pointer_ne_head, if_false, deleted, freed,
      Memory.ok_bind, Memory.load_valid valid]
    exact onward'

/-- `free_all_user_infos` leaves no user, in the list or live. -/
theorem freeAllUserInfos (represents : Represents memory users) :
    ∃ next, freeAllUserInfos memory = .ok next ∧ Represents next [] := by
  have valid := represents.first_valid
  obtain ⟨next, freed, empty⟩ := represents.freeUserInfosFrom represents.enough
  refine ⟨next, ?_, empty⟩
  simp only [DataStructure.freeAllUserInfos, load_head, Memory.ok_bind, Memory.load_valid valid]
  exact freed

/-- `print_all_user_infos` reports the sequence: its length, its two ends and its users. -/
theorem printAllUserInfos (represents : Represents memory users) :
    printAllUserInfos memory = .ok (report users) := by
  simp only [DataStructure.printAllUserInfos, load_head, Memory.ok_bind]
  rw [listCountNodesFrom_segment represents.ring.segment
    (fun entry member => represents.live_entry member) represents.enough]
  simp only [Memory.ok_bind]
  cases users with
  | nil =>
    have empty : memory.links.next .head = .head := represents.ring.segment
    simp [empty, report]
  | cons first rest =>
    have ahead : memory.links.next .head = first.pointer := represents.ring.segment.1
    obtain ⟨last, final⟩ : ∃ last, (first :: rest).getLast? = some last :=
      ⟨_, List.getLast?_eq_some_getLast (List.cons_ne_nil first rest)⟩
    have behind : memory.links.prev .head = last.pointer := by
      have start := Links.Segment.start represents.ring.reverse.segment
      have backwards : ((first :: rest).map Entry.pointer).reverse.head? = some last.pointer := by
        rw [List.head?_reverse, List.getLast?_map, final, Option.map_some]
      obtain ⟨others, shape⟩ := List.head?_eq_some_iff.mp backwards
      rw [shape, List.cons_append, List.head?_cons] at start
      exact (Option.some.inj start).symm
    have firstHeld := represents.held first List.mem_cons_self
    have lastHeld := represents.held last (List.mem_of_getLast? final)
    have printed := printUserInfosFrom_segment represents.ring.segment represents.held
      represents.enough
    rw [ahead] at printed
    simp only [ahead, behind, Entry.pointer_ne_head, if_false, readUser_live firstHeld.1,
      readUser_live lastHeld.1, Memory.ok_bind, printed, firstHeld.2, lastHeld.2]
    simp only [report, final, List.head?_cons, Option.bind_some, Option.map_some]

end Represents

end Memories

end KernelSamples.DataStructure

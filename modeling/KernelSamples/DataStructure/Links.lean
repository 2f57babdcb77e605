import KernelSamples.Lib.Ring
import KernelSamples.DataStructure.UserInfos

/-! What the accesses of `list.h` do to the links and leave alone of the users. -/

namespace KernelSamples.DataStructure

open Lib

namespace Memory

variable {Addr : Type} {memory middle next : Memory Addr}
variable {pointer entry new left right : Pointer Addr}

@[simp] theorem ok_bind {Value Other : Type} (value : Value)
    (rest : Value → Except (Fault Addr) Other) :
    ((Except.ok value : Except (Fault Addr) Value) >>= rest) = rest value := rfl

def links (memory : Memory Addr) : Links (Pointer Addr) where
  next pointer := (memory.listHead pointer).next
  prev pointer := (memory.listHead pointer).prev

/-- Only links differ: the same users are live, with the same fields. -/
structure SameUsers (memory next : Memory Addr) : Prop where
  user : ∀ addr, (next.contents addr).toUser = (memory.contents addr).toUser
  live : next.live = memory.live
  allocated : next.allocated = memory.allocated
  freed : next.freed = memory.freed

theorem SameUsers.trans (first : memory.SameUsers middle) (second : middle.SameUsers next) :
    memory.SameUsers next where
  user addr := (second.user addr).trans (first.user addr)
  live := second.live.trans first.live
  allocated := second.allocated.trans first.allocated
  freed := second.freed.trans first.freed

theorem SameUsers.valid (same : memory.SameUsers next) :
    next.Valid pointer ↔ memory.Valid pointer := by
  cases pointer <;> simp only [Valid, same.live]

variable [DecidableEq Addr]

theorem setListHead_sameUsers (node : ListHead Addr) :
    memory.SameUsers (memory.setListHead pointer node) := by
  cases pointer with
  | user addr =>
    refine ⟨?_, rfl, rfl, rfl⟩
    intro other
    by_cases same : other = addr
    · subst same
      simp [setListHead, setContents]
    · simp [setListHead, setContents, same]
  | _ => exact ⟨fun _ => rfl, rfl, rfl, rfl⟩

theorem listHead_setListHead (valid : memory.Valid pointer) (node : ListHead Addr)
    (other : Pointer Addr) :
    (memory.setListHead pointer node).listHead other =
      if other = pointer then node else memory.listHead other := by
  cases pointer with
  | head => cases other <;> simp [setListHead, listHead]
  | user addr =>
    cases other with
    | user at_ =>
      by_cases same : at_ = addr
      · subst same
        simp [setListHead, setContents, listHead]
      · simp [setListHead, setContents, listHead, same]
    | _ => simp [setListHead, setContents, listHead]
  | null | poison1 | poison2 => cases valid

theorem load_valid (valid : memory.Valid pointer) :
    memory.load pointer = .ok ⟨memory.links.next pointer, memory.links.prev pointer⟩ := by
  simp only [load, valid, if_true, links]

theorem storeNext_valid (valid : memory.Valid pointer) (target : Pointer Addr) :
    ∃ next, memory.storeNext pointer target = .ok next ∧
      next.links = memory.links.setNext pointer target ∧ memory.SameUsers next := by
  refine ⟨memory.setListHead pointer ⟨target, (memory.listHead pointer).prev⟩, ?_, ?_,
    setListHead_sameUsers _⟩
  · simp only [storeNext, valid, if_true]
  · simp only [links, Links.setNext, listHead_setListHead valid, Links.mk.injEq]
    constructor
    · funext other
      by_cases same : other = pointer <;> simp [same]
    · funext other
      by_cases same : other = pointer <;> simp [same]

theorem storePrev_valid (valid : memory.Valid pointer) (target : Pointer Addr) :
    ∃ next, memory.storePrev pointer target = .ok next ∧
      next.links = memory.links.setPrev pointer target ∧ memory.SameUsers next := by
  refine ⟨memory.setListHead pointer ⟨(memory.listHead pointer).next, target⟩, ?_, ?_,
    setListHead_sameUsers _⟩
  · simp only [storePrev, valid, if_true]
  · simp only [links, Links.setPrev, listHead_setListHead valid, Links.mk.injEq]
    constructor
    · funext other
      by_cases same : other = pointer <;> simp [same]
    · funext other
      by_cases same : other = pointer <;> simp [same]

theorem listAdd_valid (validNew : memory.Valid new) (validLeft : memory.Valid left)
    (validRight : memory.Valid right) :
    ∃ next, memory.listAdd new left right = .ok next ∧
      next.links = memory.links.insert new left right ∧ memory.SameUsers next := by
  obtain ⟨first, stored, links1, same1⟩ := memory.storePrev_valid validRight new
  obtain ⟨second, stored2, links2, same2⟩ :=
    first.storeNext_valid (same1.valid.mpr validNew) right
  obtain ⟨third, stored3, links3, same3⟩ :=
    second.storePrev_valid ((same1.trans same2).valid.mpr validNew) left
  obtain ⟨fourth, stored4, links4, same4⟩ :=
    third.storeNext_valid (((same1.trans same2).trans same3).valid.mpr validLeft) new
  refine ⟨fourth, ?_, ?_, ((same1.trans same2).trans same3).trans same4⟩
  · simp only [listAdd, stored, stored2, stored3, stored4, ok_bind]
  · rw [links4, links3, links2, links1]
    rfl

theorem listDelBetween_valid (validLeft : memory.Valid left) (validRight : memory.Valid right) :
    ∃ next, memory.listDelBetween left right = .ok next ∧
      next.links = memory.links.join left right ∧ memory.SameUsers next := by
  obtain ⟨first, stored, links1, same1⟩ := memory.storePrev_valid validRight left
  obtain ⟨second, stored2, links2, same2⟩ :=
    first.storeNext_valid (same1.valid.mpr validLeft) right
  refine ⟨second, ?_, ?_, same1.trans same2⟩
  · simp only [listDelBetween, stored, stored2, ok_bind]
  · rw [links2, links1]
    rfl

/-- `list_add_tail` appends a node that is not yet in the ring. -/
theorem listAddTail_ring {nodes : List (Pointer Addr)} (ring : memory.links.Ring .head nodes)
    (valid : ∀ node ∈ nodes, memory.Valid node) (validNew : memory.Valid new)
    (fresh : new ∉ Pointer.head :: nodes) :
    ∃ next, memory.listAddTail new .head = .ok next ∧
      next.links.Ring .head (nodes ++ [new]) ∧ memory.SameUsers next := by
  have validHead : memory.Valid .head := trivial
  have validLast : memory.Valid (memory.links.prev .head) := by
    rcases List.mem_cons.mp ring.last_mem with last | last
    · rw [last]
      exact validHead
    · exact valid _ last
  obtain ⟨next, added, links, same⟩ := memory.listAdd_valid validNew validLast validHead
  refine ⟨next, ?_, ?_, same⟩
  · simp only [listAddTail, load_valid validHead, ok_bind, added]
  · rw [links]
    exact ring.addTail fresh

/-- `list_del` takes its entry out of the ring and poisons it. -/
theorem listDel_ring {before after : List (Pointer Addr)}
    (ring : memory.links.Ring .head (before ++ entry :: after))
    (valid : ∀ node ∈ before ++ entry :: after, memory.Valid node) :
    ∃ next, memory.listDel entry = .ok next ∧
      next.links.Ring .head (before ++ after) ∧ memory.SameUsers next := by
  have validMember : ∀ {node}, node ∈ Pointer.head :: (before ++ entry :: after) →
      memory.Valid node := by
    intro node member
    rcases List.mem_cons.mp member with rfl | member
    · exact trivial
    · exact valid node member
  have validEntry : memory.Valid entry := valid entry (by simp)
  have validLeft : memory.Valid (memory.links.prev entry) :=
    validMember (by simpa [or_assoc] using
      (List.mem_append_left (entry :: after) ring.prev_mem))
  have validRight : memory.Valid (memory.links.next entry) := by
    rcases List.mem_cons.mp ring.next_mem with head | member
    · exact validMember (by simp [head])
    · exact valid _ (by simp [member])
  obtain ⟨first, deleted, links1, same1⟩ := memory.listDelBetween_valid validLeft validRight
  obtain ⟨second, stored2, links2, same2⟩ :=
    first.storeNext_valid (same1.valid.mpr validEntry) .poison1
  obtain ⟨third, stored3, links3, same3⟩ :=
    second.storePrev_valid ((same1.trans same2).valid.mpr validEntry) .poison2
  refine ⟨third, ?_, ?_, (same1.trans same2).trans same3⟩
  · simp only [listDel, load_valid validEntry, ok_bind, deleted, stored2, stored3]
  · have unlinked := ring.unlink
    rw [← links1] at unlinked
    have apart : ∀ node ∈ Pointer.head :: (before ++ after), node ≠ entry := by
      rintro node member rfl
      have distinct := ring.distinct
      rw [← List.cons_append, List.nodup_append] at distinct
      rw [← List.cons_append, List.mem_append] at member
      rcases member with member | member
      · exact distinct.2.2 node member node List.mem_cons_self rfl
      · exact (List.nodup_cons.mp distinct.2.1).1 member
    refine unlinked.congr ?_ ?_
    · intro node member
      simp [links3, links2, Links.setNext, Links.setPrev, apart node member]
    · intro node member
      simp [links3, links2, Links.setNext, Links.setPrev, apart node member]

end Memory

end KernelSamples.DataStructure

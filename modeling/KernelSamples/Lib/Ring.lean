import Mathlib.Data.List.Chain
import Mathlib.Data.List.Nodup
import Mathlib.Logic.Function.Basic

/-! Doubly linked rings through a head that is not a member, over any type of nodes. -/

namespace Lib

universe u

structure Links (Node : Type u) where
  next : Node → Node
  prev : Node → Node

namespace Links

variable {Node : Type u}

/-- Each of two neighbours links to the other. -/
def Joined (links : Links Node) (left right : Node) : Prop :=
  links.next left = right ∧ links.prev right = left

/-- Following `next` from `pos` visits these nodes and then stands on `last`. -/
def Segment (links : Links Node) (last : Node) : Node → List Node → Prop
  | pos, [] => pos = last
  | pos, node :: rest => pos = node ∧ Segment links last (links.next pos) rest

/-- The nodes met by following `step` until `head`. -/
def walk [DecidableEq Node] (step : Node → Node) (head : Node) : Nat → Node → List Node
  | 0, _ => []
  | fuel + 1, pos => if pos = head then [] else pos :: walk step head fuel (step pos)

def flip (links : Links Node) : Links Node := ⟨links.prev, links.next⟩

section Updates

variable [DecidableEq Node]

def setNext (links : Links Node) (node target : Node) : Links Node :=
  { links with next := Function.update links.next node target }

def setPrev (links : Links Node) (node target : Node) : Links Node :=
  { links with prev := Function.update links.prev node target }

/-- Link a new node between two neighbours. -/
def insert (links : Links Node) (new prev next : Node) : Links Node :=
  (((links.setPrev next new).setNext new next).setPrev new prev).setNext prev new

/-- Link two nodes to each other, past what stood between them. -/
def join (links : Links Node) (prev next : Node) : Links Node :=
  (links.setPrev next prev).setNext prev next

end Updates

/-- The members of a ring in `next` order, each once, the head apart. -/
structure Ring (links : Links Node) (head : Node) (nodes : List Node) : Prop where
  chain : (head :: nodes ++ [head]).IsChain links.Joined
  distinct : (head :: nodes).Nodup

variable {links other : Links Node} {head node : Node} {nodes before after rest : List Node}

/-- A chain survives updates that spare the `next` of all but its last node and the `prev`
of all but its first. -/
theorem chain_congr (chain : nodes.IsChain links.Joined)
    (sameNext : ∀ node ∈ nodes.dropLast, other.next node = links.next node)
    (samePrev : ∀ node ∈ nodes.tail, other.prev node = links.prev node) :
    nodes.IsChain other.Joined := by
  induction chain with
  | nil => exact .nil
  | singleton => exact .singleton _
  | @cons_cons left right rest joined chain ih =>
    refine .cons_cons ⟨?_, ?_⟩ (ih ?_ ?_)
    · rw [sameNext left List.mem_cons_self]
      exact joined.1
    · rw [samePrev right List.mem_cons_self]
      exact joined.2
    · intro node member
      exact sameNext node (List.mem_cons_of_mem _ member)
    · intro node member
      exact samePrev node (List.mem_cons_of_mem _ member)

theorem segment_of_chain (chain : (node :: rest ++ [head]).IsChain links.Joined) :
    links.Segment head (links.next node) rest := by
  induction rest generalizing node with
  | nil => exact (List.isChain_cons_cons.mp chain).1.1
  | cons second rest ih =>
    obtain ⟨joined, chain⟩ := List.isChain_cons_cons.mp chain
    exact ⟨joined.1, joined.1 ▸ ih chain⟩

/-- A segment starts at its first node, an empty one at its end. -/
theorem Segment.start {pos : Node} (segment : links.Segment head pos nodes) :
    (nodes ++ [head]).head? = some pos := by
  cases nodes with
  | nil => exact congrArg some segment.symm
  | cons node rest => exact congrArg some segment.1.symm

theorem walk_segment [DecidableEq Node] {pos : Node} {fuel : Nat}
    (segment : links.Segment head pos nodes) (apart : head ∉ nodes)
    (enough : nodes.length < fuel) : walk links.next head fuel pos = nodes := by
  induction nodes generalizing pos fuel with
  | nil =>
    obtain ⟨fuel, rfl⟩ := Nat.exists_eq_add_of_lt enough
    have arrived : pos = head := segment
    simp [walk, arrived]
  | cons node rest ih =>
    obtain ⟨rfl, onward⟩ := segment
    obtain ⟨fuel, rfl⟩ : ∃ less, fuel = less + 1 := ⟨fuel - 1, by omega⟩
    have different : pos ≠ head := by
      rintro rfl
      exact apart List.mem_cons_self
    simp only [walk, different, if_false]
    rw [ih onward (fun member => apart (List.mem_cons_of_mem _ member))
      (by simpa using enough)]

namespace Ring

theorem empty (next : links.next head = head) (prev : links.prev head = head) :
    links.Ring head [] :=
  ⟨.cons_cons ⟨next, prev⟩ (.singleton _), List.nodup_singleton _⟩

theorem segment (ring : links.Ring head nodes) : links.Segment head (links.next head) nodes :=
  segment_of_chain ring.chain

theorem head_apart (ring : links.Ring head nodes) : head ∉ nodes :=
  (List.nodup_cons.mp ring.distinct).1

theorem nodes_distinct (ring : links.Ring head nodes) : nodes.Nodup :=
  (List.nodup_cons.mp ring.distinct).2

/-- The ring read backwards is a ring of the swapped links. -/
theorem reverse (ring : links.Ring head nodes) : links.flip.Ring head nodes.reverse where
  chain := by
    have backwards := List.isChain_reverse.mpr ring.chain
    simp only [List.reverse_append, List.reverse_cons, List.reverse_nil, List.nil_append,
      List.cons_append] at backwards
    refine List.IsChain.imp ?_ backwards
    intro left right joined
    exact joined.symm
  distinct := by
    refine List.nodup_cons.mpr ⟨?_, List.nodup_reverse.mpr ring.nodes_distinct⟩
    simpa using ring.head_apart

theorem walk_next [DecidableEq Node] (ring : links.Ring head nodes) {fuel : Nat}
    (enough : nodes.length < fuel) :
    walk links.next head fuel (links.next head) = nodes :=
  walk_segment ring.segment ring.head_apart enough

theorem walk_prev [DecidableEq Node] (ring : links.Ring head nodes) {fuel : Nat}
    (enough : nodes.length < fuel) :
    walk links.prev head fuel (links.prev head) = nodes.reverse :=
  ring.reverse.walk_next (by simpa using enough)

theorem congr (ring : links.Ring head nodes)
    (sameNext : ∀ node ∈ head :: nodes, other.next node = links.next node)
    (samePrev : ∀ node ∈ head :: nodes, other.prev node = links.prev node) :
    other.Ring head nodes where
  chain := by
    refine chain_congr ring.chain ?_ ?_
    · intro node member
      rw [List.dropLast_concat] at member
      exact sameNext node member
    · intro node member
      apply samePrev node
      simpa [or_comm] using member
  distinct := ring.distinct

private theorem ends (head : Node) (before : List Node) :
    ∃ outer left, head :: before = outer ++ [left] :=
  ⟨_, _, (List.dropLast_concat_getLast (List.cons_ne_nil head before)).symm⟩

private theorem starts (head : Node) (after : List Node) :
    ∃ right inner, after ++ [head] = right :: inner := by
  cases after with
  | nil => exact ⟨_, _, rfl⟩
  | cons right rest => exact ⟨_, _, rfl⟩

/-- A member stands between its two neighbours, each a member or the head. -/
theorem split (ring : links.Ring head (before ++ node :: after)) :
    ∃ outer inner, head :: before = outer ++ [links.prev node] ∧
      after ++ [head] = links.next node :: inner ∧
      (outer ++ [links.prev node]).IsChain links.Joined ∧
      (links.next node :: inner).IsChain links.Joined := by
  obtain ⟨outer, left, shapeLeft⟩ := ends head before
  obtain ⟨right, inner, shapeRight⟩ := starts head after
  have whole : head :: (before ++ node :: after) ++ [head] =
      outer ++ left :: node :: right :: inner := by
    rw [show head :: (before ++ node :: after) ++ [head] =
      head :: before ++ node :: (after ++ [head]) by simp, shapeLeft, shapeRight]
    simp
  have chain := ring.chain
  rw [whole, List.isChain_append_cons_cons, List.isChain_cons_cons] at chain
  obtain ⟨left', joinedLeft, joinedRight, right'⟩ := chain
  obtain rfl : links.prev node = left := joinedLeft.2
  obtain rfl : links.next node = right := joinedRight.1
  exact ⟨outer, inner, shapeLeft, shapeRight, left', right'⟩

theorem prev_mem (ring : links.Ring head (before ++ node :: after)) :
    links.prev node ∈ head :: before := by
  obtain ⟨outer, inner, shapeLeft, -⟩ := ring.split
  rw [shapeLeft]
  simp

theorem next_mem (ring : links.Ring head (before ++ node :: after)) :
    links.next node ∈ head :: after := by
  obtain ⟨outer, inner, -, shapeRight, -⟩ := ring.split
  have member : links.next node ∈ after ++ [head] := by simp [shapeRight]
  simpa [or_comm] using member

theorem last_mem (ring : links.Ring head nodes) : links.prev head ∈ head :: nodes := by
  have backwards := ring.reverse.segment
  cases reversed : nodes.reverse with
  | nil =>
    rw [reversed] at backwards
    exact List.mem_cons.mpr (.inl backwards)
  | cons last rest =>
    rw [reversed] at backwards
    have last_is : links.prev head = last := backwards.1
    rw [last_is]
    exact List.mem_cons_of_mem _ (List.mem_reverse.mp (by simp [reversed]))

variable [DecidableEq Node]

/-- Joining the neighbours of a member takes it, and nothing else, out of the ring. -/
theorem unlink (ring : links.Ring head (before ++ node :: after)) :
    (links.join (links.prev node) (links.next node)).Ring head (before ++ after) := by
  obtain ⟨outer, inner, shapeLeft, shapeRight, chainLeft, chainRight⟩ := ring.split
  obtain ⟨distinctLeft, distinctRight, apart⟩ := List.nodup_append.mp
    (show (head :: before ++ node :: after).Nodup from ring.distinct)
  have afterDistinct : (after ++ [head]).Nodup := by
    rw [← List.concat_eq_append, List.nodup_concat]
    exact ⟨fun member => apart head List.mem_cons_self head (List.mem_cons_of_mem _ member) rfl,
      (List.nodup_cons.mp distinctRight).2⟩
  constructor
  · have whole : head :: (before ++ after) ++ [head] =
        outer ++ links.prev node :: links.next node :: inner := by
      rw [show head :: (before ++ after) ++ [head] = head :: before ++ (after ++ [head]) by simp,
        shapeLeft, shapeRight]
      simp
    rw [whole, List.isChain_append_cons_cons]
    refine ⟨chain_congr chainLeft ?_ ?_, ⟨?_, ?_⟩, chain_congr chainRight ?_ ?_⟩
    · intro kept member
      rw [List.dropLast_concat] at member
      rw [shapeLeft] at distinctLeft
      have different : kept ≠ links.prev node :=
        (List.nodup_append.mp distinctLeft).2.2 kept member _ (List.mem_singleton_self _)
      simp [join, setNext, setPrev, different]
    · intro kept member
      rw [← shapeLeft] at member
      have inBefore : kept ∈ before := member
      have different : kept ≠ links.next node := by
        rintro rfl
        have := ring.next_mem
        rcases List.mem_cons.mp this with same | inAfter
        · exact (List.nodup_cons.mp distinctLeft).1 (same ▸ inBefore)
        · exact apart _ (List.mem_cons_of_mem _ inBefore) _ (List.mem_cons_of_mem _ inAfter) rfl
      simp [join, setNext, setPrev, different]
    · simp [join, setNext, setPrev]
    · simp [join, setNext, setPrev]
    · intro kept member
      rw [← shapeRight, List.dropLast_concat] at member
      have different : kept ≠ links.prev node := by
        rintro rfl
        exact apart _ ring.prev_mem _ (List.mem_cons_of_mem _ member) rfl
      simp [join, setNext, setPrev, different]
    · intro kept member
      rw [shapeRight] at afterDistinct
      have different : kept ≠ links.next node := by
        rintro rfl
        exact (List.nodup_cons.mp afterDistinct).1 member
      simp [join, setNext, setPrev, different]
  · have kept : List.Sublist (before ++ after) (before ++ node :: after) :=
      (List.sublist_cons_self node after).append_left before
    exact (kept.cons_cons head).nodup ring.distinct

/-- Inserting a node between the last member and the head appends it. -/
theorem addTail (ring : links.Ring head nodes) (fresh : node ∉ head :: nodes) :
    (links.insert node (links.prev head) head).Ring head (nodes ++ [node]) := by
  obtain ⟨outer, last, shape⟩ := ends head nodes
  have chain := ring.chain
  rw [shape, List.append_assoc, List.singleton_append, List.isChain_append_cons_cons] at chain
  obtain ⟨chainLast, joined, -⟩ := chain
  obtain rfl : links.prev head = last := joined.2
  have distinct := ring.distinct
  rw [shape] at distinct fresh
  have freshHead : node ≠ head := by
    rintro rfl
    exact fresh (by rw [← shape]; exact List.mem_cons_self)
  have freshLast : node ≠ links.prev head := by
    rintro same
    exact fresh (by simp [same])
  constructor
  · have whole : head :: (nodes ++ [node]) ++ [head] =
        outer ++ links.prev head :: node :: [head] := by
      rw [show head :: (nodes ++ [node]) ++ [head] = head :: nodes ++ [node, head] by simp, shape]
      simp
    rw [whole, List.isChain_append_cons_cons, List.isChain_cons_cons]
    refine ⟨chain_congr chainLast ?_ ?_, ⟨?_, ?_⟩, ⟨?_, ?_⟩, .singleton _⟩
    · intro kept member
      rw [List.dropLast_concat] at member
      have different : kept ≠ links.prev head :=
        (List.nodup_append.mp distinct).2.2 kept member _ (List.mem_singleton_self _)
      have notNew : kept ≠ node := by
        rintro rfl
        exact fresh (List.mem_append_left _ member)
      simp [insert, setNext, setPrev, different, notNew]
    · intro kept member
      have inNodes : kept ∈ nodes := by
        rw [← shape] at member
        exact member
      have notNew : kept ≠ node := by
        rintro rfl
        exact fresh (by rw [← shape]; exact List.mem_cons_of_mem _ inNodes)
      have notHead : kept ≠ head := by
        rintro rfl
        exact ring.head_apart inNodes
      simp [insert, setNext, setPrev, notNew, notHead]
    · simp [insert, setNext, setPrev]
    · simp [insert, setNext, setPrev]
    · simp [insert, setNext, setPrev, freshLast]
    · simp [insert, setNext, setPrev, freshHead.symm]
  · rw [← List.cons_append, ← List.concat_eq_append, List.nodup_concat, shape]
    exact ⟨fresh, distinct⟩

end Ring

end Links

end Lib

import KernelSamples.Lib.Layout

/-! `container_of.c`: pointers to three members of an object, and the object found again from
each. -/

namespace KernelSamples.DataStructure

open Lib

inductive Scalar where
  | char
  | int
  | u8
  | u16
  | u64

inductive Field where
  | marker
  | value
  | header
  | alignedValue
  | nestedValue
  | tail
  deriving DecidableEq

def innerStruct : CType Scalar Field :=
  .struct [(.marker, .scalar .char), (.value, .scalar .int)]

def someStruct : CType Scalar Field :=
  .struct [(.header, .scalar .u8), (.alignedValue, .scalar .u64), (.nestedValue, innerStruct),
    (.tail, .scalar .u16)]

/-- `offsetof(struct some_struct, path)` -/
def offsetOf (abi : Abi Scalar) (path : List Field) : Nat :=
  ((someStruct.member abi path).map Prod.fst).getD 0

/-- Where the log says that a member is. -/
inductive Position where
  | before
  | after
  | inside

/-- What `container_of_module_init` logs. `found` has the lines on a member and its pointer. -/
inductive ContainerLine (width : Nat) where
  | obj (obj : BitVec width) (nestedValue : Nat)
  | title (path : List Field) (position : Position)
  | found (path : List Field) (ptr : BitVec width) (offset : Nat) (container : BitVec width)
  | checks
  | check (path : List Field) (yes : Bool)
  | loaded

section Init

variable {width : Nat}

/-- The lines on the pointer to one member. -/
def memberLines (abi : Abi Scalar) (obj : BitVec width) (path : List Field)
    (position : Position) : List (ContainerLine width) :=
  let ptr := memberPtr obj (offsetOf abi path)
  [.title path position,
    .found path ptr (offsetOf abi path) (containerOf ptr (offsetOf abi path))]

def checkLine (abi : Abi Scalar) (obj : BitVec width) (path : List Field) :
    ContainerLine width :=
  .check path (containerOf (memberPtr obj (offsetOf abi path)) (offsetOf abi path) = obj)

/-- `obj` is where the compiler has put the object. -/
def containerOfModuleInit (abi : Abi Scalar) (obj : BitVec width) : List (ContainerLine width) :=
  [.obj obj (offsetOf abi [.nestedValue])] ++
    memberLines abi obj [.alignedValue] .before ++
    memberLines abi obj [.tail] .after ++
    memberLines abi obj [.nestedValue, .value] .inside ++
    [.checks, checkLine abi obj [.alignedValue], checkLine abi obj [.tail],
      checkLine abi obj [.nestedValue, .value], .loaded]

/-- The object, each of the three members with its pointer, its offset and the object found
again, and three times `yes`. -/
def logWith (obj : BitVec width) (nested aligned tail value : Nat) :
    List (ContainerLine width) :=
  [.obj obj nested,
    .title [.alignedValue] .before,
    .found [.alignedValue] (memberPtr obj aligned) aligned obj,
    .title [.tail] .after,
    .found [.tail] (memberPtr obj tail) tail obj,
    .title [.nestedValue, .value] .inside,
    .found [.nestedValue, .value] (memberPtr obj value) value obj,
    .checks, .check [.alignedValue] true, .check [.tail] true,
    .check [.nestedValue, .value] true, .loaded]

variable {abi : Abi Scalar} {obj : BitVec width} {path other : List Field}
  {type : CType Scalar Field} {kind kind' : Scalar} {offset place : Nat}

/-- The title puts a member before, after or inside `nested_value`. -/
def Position.Right (abi : Abi Scalar) (offset size : Nat) : Position → Prop
  | .before => offset + size ≤ offsetOf abi [.nestedValue]
  | .after => offsetOf abi [.nestedValue] + innerStruct.size abi ≤ offset
  | .inside => offsetOf abi [.nestedValue] ≤ offset ∧
      offset + size ≤ offsetOf abi [.nestedValue] + innerStruct.size abi

/-- A line says what is so. -/
def ContainerLine.Right (abi : Abi Scalar) (obj : BitVec width) : ContainerLine width → Prop
  | .obj place nested => place = obj ∧
      someStruct.member abi [.nestedValue] = some (nested, innerStruct)
  | .title path position => ∃ offset type, someStruct.member abi path = some (offset, type) ∧
      position.Right abi offset (type.size abi)
  | .found path ptr offset container => ∃ type, someStruct.member abi path = some (offset, type) ∧
      ptr = memberPtr obj offset ∧ container = obj
  | .check _ yes => yes = true
  | .checks | .loaded => True

theorem offsetOf_eq (found : someStruct.member abi path = some (offset, type)) :
    offsetOf abi path = offset := by
  rw [offsetOf, found]
  rfl

/-- The fields in their order. -/
theorem member_alignedValue : ∃ offset, someStruct.member abi [.alignedValue] =
    some (offset, .scalar .u64) ∧ offset + abi.size .u64 ≤ offsetOf abi [.nestedValue] := by
  refine ⟨_, rfl, ?_⟩
  exact le_roundUp (Nat.two_pow_pos _) _

theorem member_nestedValue :
    someStruct.member abi [.nestedValue] = some (offsetOf abi [.nestedValue], innerStruct) := rfl

theorem member_tail : ∃ offset, someStruct.member abi [.tail] = some (offset, .scalar .u16) ∧
    offsetOf abi [.nestedValue] + innerStruct.size abi ≤ offset := by
  refine ⟨_, rfl, ?_⟩
  exact le_roundUp (Nat.two_pow_pos _) _

theorem member_value : ∃ offset, someStruct.member abi [.nestedValue, .value] =
      some (offset, .scalar .int) ∧ offsetOf abi [.nestedValue] ≤ offset ∧
      offset + abi.size .int ≤ offsetOf abi [.nestedValue] + innerStruct.size abi := by
  have inside : ∃ offset, innerStruct.member abi [.value] = some (offset, .scalar .int) := ⟨_, rfl⟩
  obtain ⟨offset, found⟩ := inside
  have within := (CType.member_spec found).2.1
  rw [CType.size] at within
  refine ⟨offsetOf abi [.nestedValue] + offset, ?_, by omega, by omega⟩
  exact CType.member_cons_iff.mpr ⟨_, offset, innerStruct, rfl, found, rfl⟩

theorem memberLines_right {position : Position}
    (found : someStruct.member abi path = some (offset, type))
    (right : position.Right abi offset (type.size abi)) :
    ∀ line ∈ memberLines abi obj path position, line.Right abi obj := by
  simp only [memberLines, List.forall_mem_cons, offsetOf_eq found]
  exact ⟨⟨offset, type, found, right⟩, ⟨type, found, rfl, containerOf_memberPtr _ _⟩,
    fun _ member => by cases member⟩

theorem checkLine_right : (checkLine abi obj path).Right abi obj :=
  decide_eq_true (containerOf_memberPtr _ _)

/-- Whatever the sizes and alignments of the machine and wherever the object is, also where a
pointer wraps around, each line of the log says what is so. -/
theorem init_right (abi : Abi Scalar) (obj : BitVec width) :
    ∀ line ∈ containerOfModuleInit abi obj, line.Right abi obj := by
  obtain ⟨_, aligned, before⟩ := @member_alignedValue abi
  obtain ⟨_, tail, after⟩ := @member_tail abi
  obtain ⟨_, value, inside⟩ := @member_value abi
  simp only [containerOfModuleInit, List.forall_mem_append, List.forall_mem_cons]
  refine ⟨⟨⟨⟨⟨⟨rfl, member_nestedValue⟩, fun _ member => by cases member⟩, ?_⟩, ?_⟩, ?_⟩,
    trivial, checkLine_right, checkLine_right, checkLine_right, trivial,
    fun _ member => by cases member⟩
  · exact memberLines_right aligned (by rw [CType.size]; exact before)
  · exact memberLines_right tail after
  · exact memberLines_right value (by rw [CType.size]; exact inside)

theorem memberLines_eq {position : Position}
    (found : someStruct.member abi path = some (offset, type)) :
    memberLines abi obj path position =
      [.title path position, .found path (memberPtr obj offset) offset obj] := by
  rw [memberLines, offsetOf_eq found, containerOf_memberPtr]

theorem checkLine_eq : checkLine abi obj path = .check path true := by
  rw [checkLine, decide_eq_true (containerOf_memberPtr _ _)]

theorem init_lines (abi : Abi Scalar) (obj : BitVec width) : ∃ aligned tail value,
    someStruct.member abi [.alignedValue] = some (aligned, .scalar .u64) ∧
    someStruct.member abi [.tail] = some (tail, .scalar .u16) ∧
    someStruct.member abi [.nestedValue, .value] = some (value, .scalar .int) ∧
    containerOfModuleInit abi obj =
      logWith obj (offsetOf abi [.nestedValue]) aligned tail value := by
  obtain ⟨aligned, alignedFound, -⟩ := @member_alignedValue abi
  obtain ⟨tail, tailFound, -⟩ := @member_tail abi
  obtain ⟨value, valueFound, -, -⟩ := @member_value abi
  refine ⟨aligned, tail, value, alignedFound, tailFound, valueFound, ?_⟩
  rw [containerOfModuleInit, memberLines_eq alignedFound, memberLines_eq tailFound,
    memberLines_eq valueFound, checkLine_eq, checkLine_eq, checkLine_eq]
  rfl

/-- The object is where a `struct some_struct` can be. -/
structure Placed (abi : Abi Scalar) (obj : BitVec width) : Prop where
  aligned : 2 ^ someStruct.shift abi ∣ obj.toNat
  fits : obj.toNat + someStruct.size abi < 2 ^ width

theorem memberPtr_placed (placed : Placed abi obj)
    (found : someStruct.member abi path = some (offset, type)) :
    (memberPtr obj offset).toNat = obj.toNat + offset ∧
      2 ^ type.shift abi ∣ obj.toNat + offset ∧
      obj.toNat + offset + type.size abi ≤ obj.toNat + someStruct.size abi := by
  obtain ⟨aligned, within, shifts⟩ := CType.member_spec found
  have fits := placed.fits
  refine ⟨memberPtr_toNat (by omega), Nat.dvd_add ?_ aligned, by omega⟩
  exact Nat.dvd_trans (Nat.pow_dvd_pow 2 shifts) placed.aligned

/-- Of a pointer to a scalar member, `container_of` makes the object, and for another member
something else. The pointers are aligned for what they point to and lie inside the object, with
no byte in common. -/
theorem container_of_finds_object (placed : Placed abi obj)
    (found : someStruct.member abi path = some (offset, .scalar kind))
    (found' : someStruct.member abi other = some (place, .scalar kind')) :
    (∀ line ∈ containerOfModuleInit abi obj, line.Right abi obj) ∧
    (∃ aligned tail value,
      someStruct.member abi [.alignedValue] = some (aligned, .scalar .u64) ∧
      someStruct.member abi [.tail] = some (tail, .scalar .u16) ∧
      someStruct.member abi [.nestedValue, .value] = some (value, .scalar .int) ∧
      containerOfModuleInit abi obj =
        logWith obj (offsetOf abi [.nestedValue]) aligned tail value) ∧
    (containerOf (memberPtr obj offset) place = obj ↔ path = other) ∧
    2 ^ abi.shift kind ∣ (memberPtr obj offset).toNat ∧
    obj.toNat ≤ (memberPtr obj offset).toNat ∧
    (memberPtr obj offset).toNat + abi.size kind ≤ obj.toNat + someStruct.size abi ∧
    (path ≠ other →
      (memberPtr obj offset).toNat + abi.size kind ≤ (memberPtr obj place).toNat ∨
        (memberPtr obj place).toNat + abi.size kind' ≤ (memberPtr obj offset).toNat) := by
  obtain ⟨address, aligned, within⟩ := memberPtr_placed placed found
  obtain ⟨address', -, within'⟩ := memberPtr_placed placed found'
  rw [CType.shift] at aligned
  rw [CType.size] at within within'
  have fits := placed.fits
  have full := abi.nonempty kind
  have full' := abi.nonempty kind'
  refine ⟨init_right abi obj, init_lines abi obj, ?_, by rwa [address], by omega, by omega, ?_⟩
  · rw [containerOf_memberPtr_iff (by omega) (by omega)]
    constructor
    · intro same
      by_contra different
      have apart := CType.scalar_apart different found found'
      omega
    · rintro rfl
      rw [found] at found'
      exact (Prod.mk.inj (Option.some.inj found')).1
  · intro different
    have apart := CType.scalar_apart different found found'
    omega

def lp64 : Abi Scalar where
  size
    | .char | .u8 => 1
    | .u16 => 2
    | .int => 4
    | .u64 => 8
  shift
    | .char | .u8 => 0
    | .u16 => 1
    | .int => 2
    | .u64 => 3
  whole kind := by cases kind <;> decide
  nonempty kind := by cases kind <;> decide

/-- `container_of` of the pointer to `nested_value.value`, for itself and for `tail`. -/
theorem container_of_finds_object_lp64 :
    containerOf (memberPtr (BitVec.ofNat 64 4096) 20) 24 ≠ BitVec.ofNat 64 4096 ∧
      (memberPtr (BitVec.ofNat 64 4096) 20).toNat + 4 ≤ 4096 + 32 := by
  have placed : Placed lp64 (BitVec.ofNat 64 4096) := ⟨by decide, by decide⟩
  have value : someStruct.member lp64 [.nestedValue, .value] = some (20, .scalar .int) := rfl
  have tail : someStruct.member lp64 [.tail] = some (24, .scalar .u16) := rfl
  obtain ⟨-, -, back, -, -, within, -⟩ := container_of_finds_object placed value tail
  exact ⟨fun same => absurd (back.mp same) (by decide), within⟩

end Init

end KernelSamples.DataStructure

import Mathlib.Algebra.Group.Nat.Defs
import Mathlib.Algebra.Order.Group.Nat
import Mathlib.Data.BitVec
import Mathlib.Data.Nat.Basic

/-! How a C compiler lays out structures, and `container_of`. -/

namespace Lib

universe u v

/-- The sizes of the scalar types, and their alignments as powers of two. -/
structure Abi (Scalar : Type u) where
  size : Scalar → Nat
  shift : Scalar → Nat
  whole : ∀ scalar, 2 ^ shift scalar ∣ size scalar
  nonempty : ∀ scalar, 0 < size scalar

inductive CType (Scalar : Type u) (Name : Type v) where
  | scalar (scalar : Scalar)
  | struct (fields : List (Name × CType Scalar Name))

/-- The next multiple. -/
def roundUp (number multiple : Nat) : Nat := (number + multiple - 1) / multiple * multiple

theorem dvd_roundUp (number multiple : Nat) : multiple ∣ roundUp number multiple :=
  Nat.dvd_mul_left _ _

theorem le_roundUp {multiple : Nat} (positive : 0 < multiple) (number : Nat) :
    number ≤ roundUp number multiple := by
  have division := Nat.div_add_mod (number + multiple - 1) multiple
  have small := Nat.mod_lt (number + multiple - 1) positive
  rw [roundUp, Nat.mul_comm]
  omega

namespace CType

variable {Scalar : Type u} {Name : Type v} (abi : Abi Scalar)

mutual

def shift : CType Scalar Name → Nat
  | .scalar kind => abi.shift kind
  | .struct fields => shiftOf fields

def shiftOf : List (Name × CType Scalar Name) → Nat
  | [] => 0
  | (_, type) :: rest => max (shift type) (shiftOf rest)

end

mutual

/-- `sizeof` -/
def size : CType Scalar Name → Nat
  | .scalar kind => abi.size kind
  | .struct fields => roundUp (endOf 0 fields) (2 ^ shiftOf abi fields)

/-- Where fields end that are laid out from `start` on. -/
def endOf (start : Nat) : List (Name × CType Scalar Name) → Nat
  | [] => start
  | (_, type) :: rest => endOf (roundUp start (2 ^ shift abi type) + size type) rest

end

variable {abi} in
theorem le_endOf (start : Nat) (fields : List (Name × CType Scalar Name)) :
    start ≤ endOf abi start fields := by
  induction fields generalizing start with
  | nil =>
    rw [endOf]
  | cons field rest ih =>
    rw [endOf]
    have here := le_roundUp (Nat.two_pow_pos (shift abi field.2)) start
    have later := ih (roundUp start (2 ^ shift abi field.2) + size abi field.2)
    omega

variable [DecidableEq Name]

/-- The offset and the type of a field among fields laid out from `start` on. -/
def fieldFrom (name : Name) (start : Nat) :
    List (Name × CType Scalar Name) → Option (Nat × CType Scalar Name)
  | [] => none
  | (first, type) :: rest =>
    let offset := roundUp start (2 ^ shift abi type)
    if first = name then some (offset, type)
    else fieldFrom name (offset + size abi type) rest

/-- The offset and the type of a member, which may be in a structure in the structure. -/
def member : List Name → CType Scalar Name → Option (Nat × CType Scalar Name)
  | [], type => some (0, type)
  | _ :: _, .scalar _ => none
  | name :: path, .struct fields => do
    let (offset, type) ← fieldFrom abi name 0 fields
    let (inner, type) ← member path type
    return (offset + inner, type)

variable {abi} {type inner other : CType Scalar Name} {fields : List (Name × CType Scalar Name)}
  {name : Name} {path : List Name} {start offset place : Nat}

/-- A field begins at a multiple of its alignment and ends where the fields do, at the latest. -/
theorem fieldFrom_spec (found : fieldFrom abi name start fields = some (offset, type)) :
    start ≤ offset ∧ 2 ^ shift abi type ∣ offset ∧
      offset + size abi type ≤ endOf abi start fields ∧ shift abi type ≤ shiftOf abi fields := by
  induction fields generalizing start with
  | nil => cases found
  | cons field rest ih =>
    obtain ⟨first, here⟩ := field
    have begins := le_roundUp (Nat.two_pow_pos (shift abi here)) start
    rw [fieldFrom] at found
    rw [endOf, shiftOf]
    split at found
    · obtain ⟨rfl, rfl⟩ := Prod.mk.inj (Option.some.inj found)
      exact ⟨begins, dvd_roundUp _ _, le_endOf _ _, Nat.le_max_left _ _⟩
    · obtain ⟨after, aligned, within, shifts⟩ := ih found
      exact ⟨by omega, aligned, within, Nat.le_trans shifts (Nat.le_max_right _ _)⟩

/-- Two fields have no byte in common. -/
theorem fieldFrom_apart {second : Name} (different : name ≠ second)
    (found : fieldFrom abi name start fields = some (offset, type))
    (found' : fieldFrom abi second start fields = some (place, other)) :
    offset + size abi type ≤ place ∨ place + size abi other ≤ offset := by
  induction fields generalizing start with
  | nil => cases found
  | cons field rest ih =>
    obtain ⟨first, here⟩ := field
    rw [fieldFrom] at found found'
    split at found
    · rename_i isFirst
      rw [if_neg (by rw [isFirst]; exact different)] at found'
      obtain ⟨rfl, rfl⟩ := Prod.mk.inj (Option.some.inj found)
      exact .inl (fieldFrom_spec found').1
    · split at found'
      · obtain ⟨rfl, rfl⟩ := Prod.mk.inj (Option.some.inj found')
        exact .inr (fieldFrom_spec found).1
      · exact ih found found'

theorem member_cons_iff :
    member abi (name :: path) (.struct fields) = some (offset, type) ↔
      ∃ before inside between, fieldFrom abi name 0 fields = some (before, between) ∧
        member abi path between = some (inside, type) ∧ offset = before + inside := by
  simp only [member, Option.bind_eq_bind, Option.bind_eq_some_iff, Prod.exists]
  constructor
  · intro found
    obtain ⟨before, between, atField, inside, type', atMember, same⟩ := found
    obtain ⟨rfl, rfl⟩ := Prod.mk.inj (Option.some.inj same)
    exact ⟨before, inside, between, atField, atMember, rfl⟩
  · intro found
    obtain ⟨before, inside, between, atField, atMember, rfl⟩ := found
    exact ⟨before, between, atField, inside, type, atMember, rfl⟩

/-- A member is aligned for its type where its structure is, and lies inside it. -/
theorem member_spec (found : member abi path type = some (offset, inner)) :
    2 ^ shift abi inner ∣ offset ∧ offset + size abi inner ≤ size abi type ∧
      shift abi inner ≤ shift abi type := by
  induction path generalizing type offset with
  | nil =>
    obtain ⟨rfl, rfl⟩ := Prod.mk.inj (Option.some.inj found)
    exact ⟨Nat.dvd_zero _, by omega, Nat.le_refl _⟩
  | cons name path ih =>
    cases type with
    | scalar kind => cases found
    | struct fields =>
      obtain ⟨before, inside, between, atField, atMember, rfl⟩ := member_cons_iff.mp found
      obtain ⟨-, aligned, within, shifts⟩ := fieldFrom_spec atField
      obtain ⟨aligned', within', shifts'⟩ := ih atMember
      have padded := le_roundUp (Nat.two_pow_pos (shiftOf abi fields)) (endOf abi 0 fields)
      rw [size, shift]
      refine ⟨Nat.dvd_add ?_ aligned', by omega, Nat.le_trans shifts' shifts⟩
      exact Nat.dvd_trans (Nat.pow_dvd_pow 2 shifts') aligned

/-- Two members of which neither is part of the other have no byte in common. -/
theorem member_apart {second : List Name} (outside : ¬ path <+: second)
    (outside' : ¬ second <+: path) (found : member abi path type = some (offset, inner))
    (found' : member abi second type = some (place, other)) :
    offset + size abi inner ≤ place ∨ place + size abi other ≤ offset := by
  induction path generalizing second type offset place with
  | nil => exact absurd (List.nil_prefix) outside
  | cons name path ih =>
    cases second with
    | nil => exact absurd (List.nil_prefix) outside'
    | cons name' second =>
      cases type with
      | scalar kind => cases found
      | struct fields =>
        obtain ⟨before, inside, between, atField, atMember, rfl⟩ := member_cons_iff.mp found
        obtain ⟨before', inside', between', atField', atMember', rfl⟩ := member_cons_iff.mp found'
        by_cases same : name = name'
        · subst same
          rw [atField] at atField'
          obtain ⟨rfl, rfl⟩ := Prod.mk.inj (Option.some.inj atField')
          have apart := ih (fun front => outside (List.cons_prefix_cons.mpr ⟨rfl, front⟩))
            (fun front => outside' (List.cons_prefix_cons.mpr ⟨rfl, front⟩)) atMember atMember'
          omega
        · have apart := fieldFrom_apart same atField atField'
          have within := (member_spec atMember).2.1
          have within' := (member_spec atMember').2.1
          omega

/-- A scalar has no members. -/
theorem member_append_scalar {kind : Scalar} {rest : List Name} {found : Nat × CType Scalar Name}
    (scalar : member abi path type = some (offset, .scalar kind))
    (further : member abi (path ++ rest) type = some found) : rest = [] := by
  induction path generalizing type offset found with
  | nil =>
    obtain ⟨-, rfl⟩ := Prod.mk.inj (Option.some.inj scalar)
    cases rest with
    | nil => rfl
    | cons name rest => cases further
  | cons name path ih =>
    cases type with
    | scalar kind => cases scalar
    | struct fields =>
      obtain ⟨before, inside, between, atField, atMember, -⟩ := member_cons_iff.mp scalar
      obtain ⟨place, other⟩ := found
      obtain ⟨_, _, between', atField', atMember', -⟩ := member_cons_iff.mp further
      rw [atField] at atField'
      obtain ⟨-, rfl⟩ := Prod.mk.inj (Option.some.inj atField')
      exact ih atMember atMember'

/-- Different scalars have no byte in common. -/
theorem scalar_apart {kind kind' : Scalar} {second : List Name} (different : path ≠ second)
    (found : member abi path type = some (offset, .scalar kind))
    (found' : member abi second type = some (place, .scalar kind')) :
    offset + abi.size kind ≤ place ∨ place + abi.size kind' ≤ offset := by
  have outside : ¬ path <+: second := by
    rintro ⟨rest, rfl⟩
    rw [member_append_scalar found found', List.append_nil] at different
    exact different rfl
  have outside' : ¬ second <+: path := by
    rintro ⟨rest, rfl⟩
    rw [member_append_scalar found' found, List.append_nil] at different
    exact different rfl
  simpa only [size] using member_apart outside outside' found found'

end CType

/-- The pointer to a member of what is at `base`. -/
def memberPtr {width : Nat} (base : BitVec width) (offset : Nat) : BitVec width :=
  base + BitVec.ofNat width offset

/-- `container_of` -/
def containerOf {width : Nat} (ptr : BitVec width) (offset : Nat) : BitVec width :=
  ptr - BitVec.ofNat width offset

variable {width : Nat} {base : BitVec width} {offset place : Nat}

theorem containerOf_memberPtr (base : BitVec width) (offset : Nat) :
    containerOf (memberPtr base offset) offset = base :=
  BitVec.add_sub_cancel ..

/-- Only its own offset leads from a member back to the base. -/
theorem containerOf_memberPtr_iff (small : offset < 2 ^ width) (small' : place < 2 ^ width) :
    containerOf (memberPtr base offset) place = base ↔ offset = place := by
  constructor
  · intro back
    rw [containerOf, memberPtr, BitVec.sub_eq_iff_eq_add] at back
    have same := congrArg BitVec.toNat ((BitVec.add_right_inj _).mp back)
    rwa [BitVec.toNat_ofNat, BitVec.toNat_ofNat, Nat.mod_eq_of_lt small,
      Nat.mod_eq_of_lt small'] at same
  · rintro rfl
    exact containerOf_memberPtr base offset

theorem memberPtr_toNat (fits : base.toNat + offset < 2 ^ width) :
    (memberPtr base offset).toNat = base.toNat + offset := by
  rw [memberPtr, BitVec.toNat_add, BitVec.toNat_ofNat, Nat.add_mod_mod, Nat.mod_eq_of_lt fits]

end Lib

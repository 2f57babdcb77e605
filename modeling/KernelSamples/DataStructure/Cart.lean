import KernelSamples.Lib.Buffer
import KernelSamples.DataStructure.Module

/-! `print_shopping_cart`: the item names of a cart, joined into a buffer of fixed size. -/

namespace KernelSamples.DataStructure

open Lib

/-- Width of `size_t`. -/
def sizeBits : Nat := 64

def foodName : Food → CString
  | .banana => ⟨['b', 'a', 'n', 'a', 'n', 'a'], by simp⟩
  | .kiwi => ⟨['k', 'i', 'w', 'i'], by simp⟩
  | .strawberry => ⟨['s', 't', 'r', 'a', 'w', 'b', 'e', 'r', 'r', 'y'], by simp⟩
  | .bread => ⟨['b', 'r', 'e', 'a', 'd'], by simp⟩
  | .milk => ⟨['m', 'i', 'l', 'k'], by simp⟩
  | .ham => ⟨['h', 'a', 'm'], by simp⟩

def gsFoodNames : Vector CString nFoodCodes :=
  #v[foodName .banana, foodName .kiwi, foodName .strawberry, foodName .bread, foodName .milk,
    foodName .ham]

def unknownFood : CString := ⟨['u', 'n', 'k', 'n', 'o', 'w', 'n'], by simp⟩

def getFoodName (food : UInt32) : CString :=
  if inRange : food.toNat < nFoodCodes then gsFoodNames.get ⟨food.toNat, inRange⟩
  else unknownFood

/-- `sizeof(cart) - len` as a `size_t`. -/
def sizeSub (size len : Nat) : Nat :=
  if len ≤ size then size - len else 2 ^ sizeBits - (len - size)

/-- `i ? ", " : ""` -/
def separator (i : Nat) : List Char := if i = 0 then [] else [',', ' ']

/-- `cart` and `len` before round `i` of the loop, for a buffer of any size and any item
names. An item that is not there and a write outside of the buffer have no result. -/
def cartBefore (size : Nat) (item : Nat → Option CString) : Nat → Option (List Char × Nat)
  | 0 => some (List.replicate size '\x00', 0)
  | i + 1 => do
    let (cart, len) ← cartBefore size item i
    let name ← item i
    let (cart, written) ←
      writeBounded '\x00' cart len (sizeSub size len) (separator i ++ name.text)
    some (cart, len + written)

/-- The names of a cart's items by their index. -/
def cartItem (user : User) (i : Nat) : Option CString := user.shoppingCart[i]?.map getFoodName

def cartSize : Nat := 128

def emptyCart : CString := ⟨['(', 'e', 'm', 'p', 't', 'y', ')'], by simp⟩

/-- The line `print_shopping_cart` logs. -/
structure CartLine where
  nCartItems : UInt8
  maxCartSize : Nat
  cart : CString
  deriving DecidableEq

/-- What `%s` prints of a buffer, which has to hold a NUL. -/
def bufferString (buffer : List Char) : Option CString :=
  if '\x00' ∈ buffer then
    some ⟨buffer.takeWhile fun char => char ≠ '\x00', fun member => by
      simpa using List.mem_takeWhile_imp member⟩
  else none

def printShoppingCart (user : User) : Option CartLine := do
  let (cart, _) ← cartBefore cartSize (cartItem user) user.nCartItems.toNat
  let line ← if user.nCartItems = 0 then some emptyCart else bufferString cart
  some ⟨user.nCartItems, maxCartSize, line⟩

/-- The names as the line shows them. -/
def joinedNames (names : List CString) : List Char :=
  [',', ' '].intercalate (names.map CString.text)

section Rounds

variable {size i : Nat} {names : List CString}

theorem joinedNames_succ (here : i < names.length) :
    joinedNames (names.take (i + 1)) =
      joinedNames (names.take i) ++ (separator i ++ (names[i]).text) := by
  rw [joinedNames, List.take_succ_eq_append_getElem here, List.map_append, List.map_singleton]
  by_cases first : i = 0
  · simp [first, joinedNames, separator]
  · have nonempty : (names.take i).map CString.text ≠ [] := by
      simp only [ne_eq, List.map_eq_nil_iff, List.take_eq_nil_iff, first, false_or]
      exact List.ne_nil_of_length_pos (by omega)
    rw [intercalate_concat _ nonempty, separator, if_neg first]
    rfl

/-- Before every round the buffer shows the names so far, as much of them as fits. -/
theorem cartBefore_shows (room : 0 < size) (within : i ≤ names.length) :
    ∃ cart len, cartBefore size (fun i => names[i]?) i = some (cart, len) ∧
      cart.length = size ∧ Shows '\x00' cart (joinedNames (names.take i)) len := by
  induction i with
  | zero =>
    refine ⟨_, _, rfl, List.length_replicate, Shows.empty ?_⟩
    rw [List.head?_replicate, if_neg (by omega)]
  | succ i ih =>
    obtain ⟨cart, len, before, length, shows⟩ := ih (by omega)
    obtain ⟨next, written, appended, same, shows'⟩ :=
      shows.append (by omega) (separator i ++ (names[i]).text)
    have bounded : len ≤ size - 1 := by
      rw [shows.length, length]
      exact Nat.min_le_left _ _
    refine ⟨next, len + written, ?_, by omega, ?_⟩
    · rw [length] at appended
      rw [cartBefore, before, List.getElem?_eq_getElem (by omega)]
      simp only [Option.bind_eq_bind, Option.bind_some, sizeSub,
        if_pos (show len ≤ size by omega), appended]
    · rw [joinedNames_succ (by omega)]
      exact shows'

end Rounds

section Lines

variable {names : List CString}

theorem nul_not_mem_joinedNames : '\x00' ∉ joinedNames names := by
  apply not_mem_intercalate (by simp)
  intro text member
  obtain ⟨name, -, rfl⟩ := List.mem_map.mp member
  exact name.noNul

theorem length_joinedNames_le {bound : Nat}
    (short : ∀ name ∈ names, name.text.length ≤ bound) :
    (joinedNames names).length ≤ names.length * (bound + 2) := by
  have texts : ∀ text ∈ names.map CString.text, text.length ≤ bound := by
    simpa using short
  have joined : (joinedNames names).length ≤ (names.map CString.text).length * (bound + 2) :=
    length_intercalate_le texts
  rwa [List.length_map] at joined

theorem length_getFoodName (food : UInt32) : (getFoodName food).text.length ≤ 10 := by
  have table : ∀ code : Fin nFoodCodes, (gsFoodNames.get code).text.length ≤ 10 := by decide
  unfold getFoodName
  split
  · exact table _
  · decide

/-- What is read back from a buffer that shows a text with room to spare is the text. -/
theorem bufferString_shows {buffer text : List Char} {len : Nat}
    (shows : Shows '\x00' buffer text len) (absent : '\x00' ∉ text)
    (fits : text.length < buffer.length) : bufferString buffer = some ⟨text, absent⟩ := by
  have whole : len = text.length := by
    have length := shows.length
    omega
  have read := shows.read absent
  rw [whole, List.take_length] at read
  have terminated : '\x00' ∈ buffer := by
    have shown : '\x00' ∈ buffer.take (len + 1) := by
      rw [shows.shown]
      simp
    exact List.mem_of_mem_take shown
  simp only [bufferString, if_pos terminated, read]

/-- The names of the items a user has. -/
def cartNames (user : User) : List CString :=
  (user.shoppingCart.toList.map getFoodName).take user.nCartItems.toNat

/-- The line of a cart that holds what it says has every name in full. -/
theorem printShoppingCart_whole {user : User} (holds : user.nCartItems.toNat ≤ maxCartSize) :
    printShoppingCart user = some ⟨user.nCartItems, maxCartSize,
      if user.nCartItems = 0 then emptyCart
      else ⟨joinedNames (cartNames user), nul_not_mem_joinedNames⟩⟩ := by
  have items : cartItem user = fun i => (user.shoppingCart.toList.map getFoodName)[i]? := by
    funext i
    simp [cartItem]
  have within : user.nCartItems.toNat ≤ (user.shoppingCart.toList.map getFoodName).length := by
    simpa using holds
  obtain ⟨cart, len, before, length, shows⟩ :=
    cartBefore_shows (show 0 < cartSize by decide) within
  have count : (cartNames user).length ≤ 10 :=
    Nat.le_trans (List.length_take_le _ _) holds
  have short : ∀ name ∈ cartNames user, name.text.length ≤ 10 := by
    intro name member
    obtain ⟨food, -, rfl⟩ := List.mem_map.mp (List.mem_of_mem_take member)
    exact length_getFoodName food
  have fits : (joinedNames (cartNames user)).length < cart.length := by
    have bound := length_joinedNames_le short
    rw [length, cartSize]
    omega
  have line := bufferString_shows shows nul_not_mem_joinedNames fits
  simp only [printShoppingCart, items, before, line, Option.bind_eq_bind, Option.bind_some]
  split <;> rfl

end Lines

/-- For any buffer and any item names: before and after every `scnprintf` there is room left
and the buffer shows what fits of the names so far, and `print_shopping_cart` cuts nothing
of a cart of at most `MAX_CART_SIZE` items. -/
theorem shopping_cart_line :
    (∀ size, 0 < size → ∀ names : List CString, ∀ i ≤ names.length, ∃ cart len,
      cartBefore size (fun i => names[i]?) i = some (cart, len) ∧
      len ≤ size - 1 ∧ sizeSub size len = size - len ∧ cart.length = size ∧
      cart.take (min (size - 1) (joinedNames (names.take i)).length + 1) =
        (joinedNames (names.take i)).take (size - 1) ++ ['\x00']) ∧
    (∀ user : User, user.nCartItems.toNat ≤ maxCartSize → ∃ line,
      printShoppingCart user = some ⟨user.nCartItems, maxCartSize, line⟩ ∧
      (user.nCartItems ≠ 0 → line.text = joinedNames (cartNames user))) := by
  constructor
  · intro size room names i within
    obtain ⟨cart, len, before, length, shows⟩ := cartBefore_shows room within
    have filled := shows.length
    rw [length] at filled
    refine ⟨cart, len, before, by omega, if_pos (by omega), length, ?_⟩
    rw [← filled, shows.shown, List.append_cancel_right_eq, List.take_eq_take_iff]
    omega
  · intro user holds
    refine ⟨_, printShoppingCart_whole holds, ?_⟩
    intro nonempty
    rw [if_neg nonempty]

/-- Ten of the longest names, and a buffer that only has room for its NUL. -/
theorem shopping_cart_line_longest :
    (∃ cart, cartBefore 1 (fun i => [foodName .ham, foodName .milk][i]?) 2 = some (cart, 0)) ∧
    ∃ line, printShoppingCart
        { User.zeroed with
          shoppingCart := Vector.replicate maxCartSize Food.strawberry.code
          nCartItems := 10 } = some ⟨10, maxCartSize, line⟩ ∧ line.text.length = 118 := by
  constructor
  · obtain ⟨cart, len, before, least, -⟩ :=
      shopping_cart_line.1 1 (by decide) [foodName .ham, foodName .milk] 2 (by decide)
    obtain rfl : len = 0 := by omega
    exact ⟨cart, before⟩
  · obtain ⟨line, printed, whole⟩ := shopping_cart_line.2 { User.zeroed with
      shoppingCart := Vector.replicate maxCartSize Food.strawberry.code
      nCartItems := 10 } (by decide)
    refine ⟨line, printed, ?_⟩
    rw [whole (by decide)]
    decide +kernel

end KernelSamples.DataStructure

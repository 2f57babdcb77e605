import Mathlib.Algebra.Group.Nat.Defs
import Mathlib.Data.List.Basic

/-! JSON texts of strings, arrays and objects: how Python's `json.dump` writes them with
`indent=1`, and a reader for any such text. -/

namespace Lib

inductive Json where
  | string (text : List Char)
  | array (items : List Json)
  | object (fields : List (List Char × Json))

namespace Json

def hexDigit (digit : Nat) : Char :=
  if digit < 10 then Char.ofNat (48 + digit) else Char.ofNat (87 + digit)

def hexValue (char : Char) : Option Nat :=
  let code := char.toNat
  if 48 ≤ code ∧ code ≤ 57 then some (code - 48)
  else if 97 ≤ code ∧ code ≤ 102 then some (code - 87)
  else if 65 ≤ code ∧ code ≤ 70 then some (code - 55)
  else none

/-- A UTF-16 code unit as an escape. -/
def escapeUnit (unit : Nat) : List Char :=
  ['\\', 'u', hexDigit (unit / 4096), hexDigit (unit / 256 % 16), hexDigit (unit / 16 % 16),
    hexDigit (unit % 16)]

/-- `\"`, `\\`, `\n` and their like: what is escaped and the letter that stands for it. -/
def shortEscapes : List (Char × Char) :=
  [('"', '"'), ('\\', '\\'), ('\n', 'n'), ('\r', 'r'), ('\t', 't'), ('\x08', 'b'), ('\x0c', 'f')]

/-- `ensure_ascii`: all that is not printable ASCII is escaped, beyond 16 bits as a surrogate
pair. -/
def escapeChar (char : Char) : List Char :=
  match shortEscapes.lookup char with
  | some letter => ['\\', letter]
  | none =>
    let code := char.toNat
    if 32 ≤ code ∧ code ≤ 126 then [char]
    else if code < 0x10000 then escapeUnit code
    else
      escapeUnit (0xd800 + (code - 0x10000) / 1024) ++
        escapeUnit (0xdc00 + (code - 0x10000) % 1024)

def quote (text : List Char) : List Char := '"' :: (text.flatMap escapeChar ++ ['"'])

def newline (level : Nat) : List Char := '\n' :: List.replicate level ' '

mutual

def write (level : Nat) : Json → List Char
  | .string text => quote text
  | .array [] => ['[', ']']
  | .array (item :: rest) =>
    '[' :: (newline (level + 1) ++ (write (level + 1) item ++
      (writeItems (level + 1) rest ++ (newline level ++ [']']))))
  | .object [] => ['{', '}']
  | .object ((key, value) :: rest) =>
    '{' :: (newline (level + 1) ++ (quote key ++ (':' :: ' ' :: (write (level + 1) value ++
      (writeFields (level + 1) rest ++ (newline level ++ ['}']))))))

/-- The items after the first. -/
def writeItems (level : Nat) : List Json → List Char
  | [] => []
  | item :: rest => ',' :: (newline level ++ (write level item ++ writeItems level rest))

def writeFields (level : Nat) : List (List Char × Json) → List Char
  | [] => []
  | (key, value) :: rest =>
    ',' :: (newline level ++ (quote key ++ (':' :: ' ' :: (write level value ++
      writeFields level rest))))

end

/-- Four hexadecimal digits. -/
def readUnit : List Char → Option (Nat × List Char)
  | first :: second :: third :: fourth :: rest => do
    let first ← hexValue first
    let second ← hexValue second
    let third ← hexValue third
    let fourth ← hexValue fourth
    return (((first * 16 + second) * 16 + third) * 16 + fourth, rest)
  | _ => none

/-- After a high surrogate there has to be a low one. -/
def readLow (high : Nat) : List Char → Option (Char × List Char)
  | '\\' :: 'u' :: rest => do
    let (low, rest) ← readUnit rest
    if 0xdc00 ≤ low ∧ low < 0xe000 then
      return (Char.ofNat (0x10000 + (high - 0xd800) * 1024 + (low - 0xdc00)), rest)
    else none
  | _ => none

/-- One character of a string. -/
def readChar : List Char → Option (Char × List Char)
  | '\\' :: 'u' :: rest => do
    let (unit, rest) ← readUnit rest
    if 0xd800 ≤ unit ∧ unit < 0xdc00 then readLow unit rest
    else if 0xdc00 ≤ unit ∧ unit < 0xe000 then none
    else return (Char.ofNat unit, rest)
  | '\\' :: '/' :: rest => some ('/', rest)
  | ['\\'] => none
  | '\\' :: letter :: rest =>
    ((shortEscapes.map Prod.swap).lookup letter).map fun char => (char, rest)
  | char :: rest => if char.toNat < 32 then none else some (char, rest)
  | [] => none

/-- A string after its opening quote. -/
def readString : Nat → List Char → Option (List Char × List Char)
  | 0, _ => none
  | _ + 1, '"' :: rest => some ([], rest)
  | fuel + 1, text => do
    let (char, rest) ← readChar text
    let (chars, rest) ← readString fuel rest
    return (char :: chars, rest)

def skipSpace (text : List Char) : List Char :=
  text.dropWhile fun char => [' ', '\n', '\r', '\t'].contains char

/-- A key and its colon. -/
def readKey (fuel : Nat) (text : List Char) : Option (List Char × List Char) :=
  match skipSpace text with
  | '"' :: rest => do
    let (key, rest) ← readString fuel rest
    match skipSpace rest with
    | ':' :: rest => return (key, rest)
    | _ => none
  | _ => none

mutual

def readValue : Nat → List Char → Option (Json × List Char)
  | 0, _ => none
  | fuel + 1, text =>
    match skipSpace text with
    | '"' :: rest => (readString fuel rest).map fun (text, rest) => (.string text, rest)
    | '[' :: rest =>
      match skipSpace rest with
      | ']' :: rest => some (.array [], rest)
      | rest => do
        let (item, rest) ← readValue fuel rest
        let (items, rest) ← readItems fuel rest
        return (.array (item :: items), rest)
    | '{' :: rest =>
      match skipSpace rest with
      | '}' :: rest => some (.object [], rest)
      | rest => do
        let (key, rest) ← readKey fuel rest
        let (value, rest) ← readValue fuel rest
        let (fields, rest) ← readFields fuel rest
        return (.object ((key, value) :: fields), rest)
    | _ => none

/-- The items after the first, with the closing bracket. -/
def readItems : Nat → List Char → Option (List Json × List Char)
  | 0, _ => none
  | fuel + 1, text =>
    match skipSpace text with
    | ']' :: rest => some ([], rest)
    | ',' :: rest => do
      let (item, rest) ← readValue fuel rest
      let (items, rest) ← readItems fuel rest
      return (item :: items, rest)
    | _ => none

def readFields : Nat → List Char → Option (List (List Char × Json) × List Char)
  | 0, _ => none
  | fuel + 1, text =>
    match skipSpace text with
    | '}' :: rest => some ([], rest)
    | ',' :: rest => do
      let (key, rest) ← readKey fuel rest
      let (value, rest) ← readValue fuel rest
      let (fields, rest) ← readFields fuel rest
      return ((key, value) :: fields, rest)
    | _ => none

end

/-- A whole text: one value, with space around it. -/
def read (text : List Char) : Option Json :=
  match readValue (text.length + 1) text with
  | some (value, rest) => if skipSpace rest = [] then some value else none
  | none => none

variable {char letter : Char} {text rest : List Char} {fuel level : Nat}

theorem hexValue_hexDigit : ∀ digit < 16, hexValue (hexDigit digit) = some digit := by decide

theorem readUnit_escape {unit : Nat} (small : unit < 65536) (rest : List Char) :
    readUnit (hexDigit (unit / 4096) :: hexDigit (unit / 256 % 16) ::
      hexDigit (unit / 16 % 16) :: hexDigit (unit % 16) :: rest) = some (unit, rest) := by
  have first := hexValue_hexDigit (unit / 4096) (by omega)
  have second := hexValue_hexDigit (unit / 256 % 16) (by omega)
  have third := hexValue_hexDigit (unit / 16 % 16) (by omega)
  have fourth := hexValue_hexDigit (unit % 16) (by omega)
  have whole : ((unit / 4096 * 16 + unit / 256 % 16) * 16 + unit / 16 % 16) * 16 + unit % 16 =
      unit := by omega
  simp [readUnit, first, second, third, fourth, whole]

theorem toNat_not_surrogate (char : Char) : char.toNat < 0xd800 ∨ 0xe000 ≤ char.toNat := by
  rcases char.valid with low | high
  · exact .inl low
  · exact .inr (Nat.succ_le_of_lt high.1)

theorem toNat_small (char : Char) : char.toNat < 0x110000 := by
  rcases char.valid with low | high
  · exact Nat.lt_trans low (by decide)
  · exact high.2

theorem mem_shortEscapes (short : shortEscapes.lookup char = some letter) :
    (char, letter) ∈ shortEscapes := by
  have found : ∀ escapes : List (Char × Char), escapes.lookup char = some letter →
      (char, letter) ∈ escapes := by
    intro escapes
    induction escapes with
    | nil => exact nofun
    | cons escape rest ih =>
      intro short
      rw [List.lookup_cons] at short
      split at short
      · rename_i same
        obtain rfl := Option.some.inj short
        rw [eq_of_beq same]
        exact List.mem_cons_self
      · exact List.mem_cons_of_mem _ (ih short)
  exact found _ short

/-- An escaped character is read back, whatever follows it. -/
theorem readChar_escapeChar (char : Char) (rest : List Char) :
    readChar (escapeChar char ++ rest) = some (char, rest) := by
  unfold escapeChar
  split
  · rename_i letter short
    have listed := mem_shortEscapes short
    simp only [shortEscapes, List.mem_cons, Prod.mk.injEq, List.not_mem_nil, or_false] at listed
    rcases listed with ⟨rfl, rfl⟩ | ⟨rfl, rfl⟩ | ⟨rfl, rfl⟩ | ⟨rfl, rfl⟩ | ⟨rfl, rfl⟩ |
      ⟨rfl, rfl⟩ | ⟨rfl, rfl⟩ <;> rfl
  · rename_i long
    have unquoted : char ≠ '\\' := by
      rintro rfl
      cases long
    have valid := toNat_not_surrogate char
    dsimp only
    split
    · rename_i printable
      have shown : ¬ char.toNat < 32 := by omega
      simp [readChar, unquoted, shown]
    · split
      · rename_i narrow
        have high : ¬ (0xd800 ≤ char.toNat ∧ char.toNat < 0xdc00) := by omega
        have low : ¬ (0xdc00 ≤ char.toNat ∧ char.toNat < 0xe000) := by omega
        simp only [escapeUnit, List.cons_append, List.nil_append, readChar]
        rw [readUnit_escape narrow]
        simp [high, low]
      · have bound := toNat_small char
        have high : 0xd800 ≤ 0xd800 + (char.toNat - 0x10000) / 1024 ∧
            0xd800 + (char.toNat - 0x10000) / 1024 < 0xdc00 := by omega
        have low : 0xdc00 ≤ 0xdc00 + (char.toNat - 0x10000) % 1024 ∧
            0xdc00 + (char.toNat - 0x10000) % 1024 < 0xe000 := by omega
        have whole : 0x10000 + (0xd800 + (char.toNat - 0x10000) / 1024 - 0xd800) * 1024 +
            (0xdc00 + (char.toNat - 0x10000) % 1024 - 0xdc00) = char.toNat := by omega
        simp only [escapeUnit, List.cons_append, List.nil_append, readChar]
        rw [readUnit_escape (Nat.lt_trans high.2 (by decide)), Option.bind_eq_bind,
          Option.bind_some]
        simp only [high, and_self, if_true, readLow]
        rw [readUnit_escape (Nat.lt_trans low.2 (by decide)), Option.bind_eq_bind,
          Option.bind_some]
        simp only [low, and_self, if_true, whole, Char.ofNat_toNat]
        rfl

/-- An escape starts with a backslash, and no other character is a quote. -/
theorem escapeChar_head (char : Char) :
    ∃ head tail, escapeChar char = head :: tail ∧ head ≠ '"' := by
  unfold escapeChar
  split
  · exact ⟨_, _, rfl, by decide⟩
  · rename_i long
    have unquoted : char ≠ '"' := by
      rintro rfl
      cases long
    dsimp only
    split
    · exact ⟨_, _, rfl, unquoted⟩
    · split
      · exact ⟨_, _, rfl, by decide⟩
      · exact ⟨_, _, rfl, by decide⟩

theorem readString_char {head : Char} {tail after chars last : List Char} (unquoted : head ≠ '"')
    (first : readChar (head :: tail) = some (char, after))
    (others : readString fuel after = some (chars, last)) :
    readString (fuel + 1) (head :: tail) = some (char :: chars, last) := by
  rw [readString]
  · simp only [first, others, Option.bind_eq_bind, Option.bind_some]
    rfl
  · rintro rest' ⟨⟩
    exact unquoted rfl

theorem readString_quote (enough : (text.flatMap escapeChar).length < fuel) :
    readString fuel (text.flatMap escapeChar ++ '"' :: rest) = some (text, rest) := by
  induction text generalizing fuel with
  | nil =>
    obtain ⟨fuel, rfl⟩ := Nat.exists_eq_add_of_lt enough
    rw [Nat.add_assoc, Nat.add_comm]
    rfl
  | cons char text ih =>
    obtain ⟨head, tail, shape, unquoted⟩ := escapeChar_head char
    rw [List.flatMap_cons, List.length_append, shape, List.length_cons] at enough
    obtain ⟨fuel, rfl⟩ : ∃ less, fuel = less + 1 := ⟨fuel - 1, by omega⟩
    have first := readChar_escapeChar char (text.flatMap escapeChar ++ '"' :: rest)
    rw [shape, List.cons_append] at first
    rw [List.flatMap_cons, List.append_assoc, shape, List.cons_append]
    exact readString_char unquoted first (ih (by omega))

@[simp] theorem skipSpace_newline (level : Nat) (text : List Char) :
    skipSpace (newline level ++ text) = skipSpace text := by
  have spaces : skipSpace (List.replicate level ' ' ++ text) = skipSpace text := by
    induction level with
    | zero => rfl
    | succ level ih => exact ih
  exact spaces

@[simp] theorem skipSpace_blank (text : List Char) : skipSpace (' ' :: text) = skipSpace text := rfl

/-- The characters that open a value. -/
def opens (char : Char) : Prop := char = '"' ∨ char = '[' ∨ char = '{'

theorem skipSpace_opens (opening : opens letter) (text : List Char) :
    skipSpace (letter :: text) = letter :: text := by
  rcases opening with rfl | rfl | rfl <;> rfl

theorem write_head (level : Nat) (value : Json) :
    ∃ head tail, write level value = head :: tail ∧ opens head := by
  cases value with
  | string text => exact ⟨'"', _, by rw [write, quote], .inl rfl⟩
  | array items =>
    cases items with
    | nil => exact ⟨'[', _, by rw [write], .inr (.inl rfl)⟩
    | cons item rest => exact ⟨'[', _, by rw [write], .inr (.inl rfl)⟩
  | object fields =>
    cases fields with
    | nil => exact ⟨'{', _, by rw [write], .inr (.inr rfl)⟩
    | cons field rest => exact ⟨'{', _, by rw [write], .inr (.inr rfl)⟩

/-- A value is read from its first character on, whatever space is before it. -/
theorem readValue_space {text other : List Char} (same : skipSpace text = skipSpace other) :
    readValue fuel text = readValue fuel other := by
  cases fuel with
  | zero => rfl
  | succ fuel => rw [readValue, readValue, same]

theorem skipSpace_quoted (key rest : List Char) :
    skipSpace (quote key ++ rest) = quote key ++ rest :=
  skipSpace_opens (.inl rfl) _

theorem skipSpace_quote (level : Nat) (key rest : List Char) :
    skipSpace (newline level ++ (quote key ++ rest)) = quote key ++ rest := by
  rw [skipSpace_newline, skipSpace_quoted]

theorem readKey_quote {key text : List Char} (start : skipSpace text = quote key ++ ':' :: rest)
    (enough : (key.flatMap escapeChar).length < fuel) : readKey fuel text = some (key, rest) := by
  have string := @readString_quote key (':' :: rest) fuel enough
  have shape : quote key ++ ':' :: rest =
      '"' :: (key.flatMap escapeChar ++ '"' :: ':' :: rest) := by
    simp [quote]
  rw [readKey, start, shape]
  simp only [string, Option.bind_eq_bind, Option.bind_some]
  rfl

mutual

/-- What was written is read back, whatever follows it. -/
theorem readValue_write : ∀ (value : Json) (fuel level : Nat) (rest : List Char),
    (write level value).length ≤ fuel →
      readValue fuel (write level value ++ rest) = some (value, rest)
  | .string text, fuel, level, rest, enough => by
    rw [write, quote] at enough ⊢
    simp only [List.length_cons, List.length_append, List.length_nil] at enough
    obtain ⟨fuel, rfl⟩ : ∃ less, fuel = less + 1 := ⟨fuel - 1, by omega⟩
    have string := @readString_quote text rest fuel (by omega)
    rw [List.cons_append, List.append_assoc, readValue, skipSpace_opens (.inl rfl)]
    simp only [List.cons_append, List.nil_append, string, Option.map_some]
  | .array [], fuel, level, rest, enough => by
    rw [write] at enough ⊢
    obtain ⟨fuel, rfl⟩ : ∃ less, fuel = less + 1 := ⟨fuel - 1, by simp at enough; omega⟩
    rw [readValue]
    rfl
  | .array (item :: items), fuel, level, rest, enough => by
    rw [write] at enough ⊢
    simp only [List.length_cons, List.length_append, List.length_nil] at enough
    obtain ⟨fuel, rfl⟩ : ∃ less, fuel = less + 1 := ⟨fuel - 1, by omega⟩
    have first := readValue_write item fuel (level + 1)
      (writeItems (level + 1) items ++ (newline level ++ ']' :: rest)) (by omega)
    have others := readItems_write items fuel (level + 1) level rest (by omega)
    obtain ⟨head, tail, shape, opening⟩ := write_head (level + 1) item
    simp only [List.cons_append, List.append_assoc, List.nil_append]
    rw [readValue, skipSpace_opens (.inr (.inl rfl))]
    simp only [skipSpace_newline]
    rw [shape] at first ⊢
    rw [List.cons_append, skipSpace_opens opening]
    split
    · rename_i closing
      obtain ⟨rfl, -⟩ := List.cons.inj closing
      rcases opening with wrong | wrong | wrong <;> cases wrong
    · rw [← List.cons_append]
      simp only [first, others, Option.bind_eq_bind, Option.bind_some]
      rfl
  | .object [], fuel, level, rest, enough => by
    rw [write] at enough ⊢
    obtain ⟨fuel, rfl⟩ : ∃ less, fuel = less + 1 := ⟨fuel - 1, by simp at enough; omega⟩
    rw [readValue]
    rfl
  | .object ((key, value) :: fields), fuel, level, rest, enough => by
    rw [write] at enough ⊢
    simp only [List.length_cons, List.length_append, quote, List.length_nil] at enough
    obtain ⟨fuel, rfl⟩ : ∃ less, fuel = less + 1 := ⟨fuel - 1, by omega⟩
    have first := readValue_write value fuel (level + 1)
      (writeFields (level + 1) fields ++ (newline level ++ '}' :: rest)) (by omega)
    have others := readFields_write fields fuel (level + 1) level rest (by omega)
    simp only [List.cons_append, List.append_assoc, List.nil_append]
    rw [readValue, skipSpace_opens (.inr (.inr rfl))]
    simp only [skipSpace_quote]
    split
    · rename_i closing
      cases closing
    · rw [readKey_quote (skipSpace_quoted key _) (by omega)]
      simp only [Option.bind_eq_bind, Option.bind_some]
      rw [readValue_space (skipSpace_blank _)]
      simp only [first, others, Option.bind_some]
      rfl

theorem readItems_write : ∀ (items : List Json) (fuel level outer : Nat) (rest : List Char),
    (writeItems level items).length < fuel →
      readItems fuel (writeItems level items ++ (newline outer ++ ']' :: rest)) =
        some (items, rest)
  | [], fuel, level, outer, rest, enough => by
    rw [writeItems] at enough ⊢
    obtain ⟨fuel, rfl⟩ : ∃ less, fuel = less + 1 := ⟨fuel - 1, by omega⟩
    rw [readItems]
    simp only [List.nil_append, skipSpace_newline]
    rfl
  | item :: items, fuel, level, outer, rest, enough => by
    rw [writeItems] at enough ⊢
    simp only [List.length_cons, List.length_append] at enough
    obtain ⟨fuel, rfl⟩ : ∃ less, fuel = less + 1 := ⟨fuel - 1, by omega⟩
    have first := readValue_write item fuel level
      (writeItems level items ++ (newline outer ++ ']' :: rest)) (by omega)
    have others := readItems_write items fuel level outer rest (by omega)
    rw [readItems]
    simp only [List.cons_append, List.append_assoc]
    change (do
      let (item, rest) ← readValue fuel (newline level ++ (write level item ++ _))
      let (items, rest) ← readItems fuel rest
      return (item :: items, rest)) = _
    rw [readValue_space (skipSpace_newline level _)]
    simp only [first, others, Option.bind_eq_bind, Option.bind_some]
    rfl

theorem readFields_write : ∀ (fields : List (List Char × Json)) (fuel level outer : Nat)
    (rest : List Char), (writeFields level fields).length < fuel →
      readFields fuel (writeFields level fields ++ (newline outer ++ '}' :: rest)) =
        some (fields, rest)
  | [], fuel, level, outer, rest, enough => by
    rw [writeFields] at enough ⊢
    obtain ⟨fuel, rfl⟩ : ∃ less, fuel = less + 1 := ⟨fuel - 1, by omega⟩
    rw [readFields]
    simp only [List.nil_append, skipSpace_newline]
    rfl
  | (key, value) :: fields, fuel, level, outer, rest, enough => by
    rw [writeFields] at enough ⊢
    simp only [List.length_cons, List.length_append, quote, List.length_nil] at enough
    obtain ⟨fuel, rfl⟩ : ∃ less, fuel = less + 1 := ⟨fuel - 1, by omega⟩
    have first := readValue_write value fuel level
      (writeFields level fields ++ (newline outer ++ '}' :: rest)) (by omega)
    have others := readFields_write fields fuel level outer rest (by omega)
    rw [readFields]
    simp only [List.cons_append, List.append_assoc]
    change (do
      let (key, rest) ← readKey fuel (newline level ++ (quote key ++ (':' :: ' ' :: _)))
      let (value, rest) ← readValue fuel rest
      let (fields, rest) ← readFields fuel rest
      return ((key, value) :: fields, rest)) = _
    rw [readKey_quote (skipSpace_quote level key _) (by omega)]
    simp only [Option.bind_eq_bind, Option.bind_some]
    rw [readValue_space (skipSpace_blank _)]
    simp only [first, others, Option.bind_some]
    rfl

end

theorem read_write (value : Json) : read (write 0 value ++ ['\n']) = some value := by
  have enough : (write 0 value).length ≤ (write 0 value ++ ['\n']).length + 1 := by
    simp only [List.length_append]
    omega
  rw [read, readValue_write value _ 0 ['\n'] enough]
  rfl

/-- What a text may have in it: printable ASCII and the ends of lines. -/
def Ascii (char : Char) : Prop := char = '\n' ∨ 32 ≤ char.toNat ∧ char.toNat ≤ 126

instance (char : Char) : Decidable (Ascii char) := inferInstanceAs (Decidable (_ ∨ _ ∧ _))

theorem ascii_hexDigit : ∀ digit < 16, Ascii (hexDigit digit) := by decide

theorem ascii_escapeUnit {unit : Nat} (small : unit < 65536) :
    ∀ char ∈ escapeUnit unit, Ascii char := by
  intro char member
  simp only [escapeUnit, List.mem_cons, List.not_mem_nil, or_false] at member
  rcases member with rfl | rfl | rfl | rfl | rfl | rfl
  · decide
  · decide
  · exact ascii_hexDigit _ (by omega)
  · exact ascii_hexDigit _ (by omega)
  · exact ascii_hexDigit _ (by omega)
  · exact ascii_hexDigit _ (by omega)

theorem ascii_escapeChar (source : Char) : ∀ char ∈ escapeChar source, Ascii char := by
  have bound := toNat_small source
  intro char member
  unfold escapeChar at member
  split at member
  · rename_i letter short
    have listed := mem_shortEscapes short
    simp only [shortEscapes, List.mem_cons, Prod.mk.injEq, List.not_mem_nil, or_false] at listed
    simp only [List.mem_cons, List.not_mem_nil, or_false] at member
    rcases member with rfl | rfl
    · decide
    · rcases listed with ⟨-, rfl⟩ | ⟨-, rfl⟩ | ⟨-, rfl⟩ | ⟨-, rfl⟩ | ⟨-, rfl⟩ | ⟨-, rfl⟩ |
        ⟨-, rfl⟩ <;> decide
  · dsimp only at member
    split at member
    · rename_i printable
      rw [List.mem_singleton.mp member]
      exact .inr printable
    · split at member
      · exact ascii_escapeUnit (by assumption) char member
      · rcases List.mem_append.mp member with high | low
        · exact ascii_escapeUnit (by omega) char high
        · exact ascii_escapeUnit (by omega) char low

theorem ascii_quote (text : List Char) : ∀ char ∈ quote text, Ascii char := by
  intro char member
  simp only [quote, List.mem_cons, List.mem_append, List.mem_flatMap, List.not_mem_nil,
    or_false] at member
  rcases member with rfl | ⟨source, -, escaped⟩ | rfl
  · decide
  · exact ascii_escapeChar source char escaped
  · decide

theorem ascii_newline (level : Nat) : ∀ char ∈ newline level, Ascii char := by
  intro char member
  rcases List.mem_cons.mp member with rfl | space
  · decide
  · rw [(List.mem_replicate.mp space).2]
    decide

mutual

theorem ascii_write : ∀ (level : Nat) (value : Json), ∀ char ∈ write level value, Ascii char
  | level, .string text => by
    rw [write]
    exact ascii_quote text
  | level, .array [] => by
    rw [write]
    simp only [List.forall_mem_cons]
    exact ⟨by decide, by decide, nofun⟩
  | level, .array (item :: items) => by
    rw [write]
    simp only [List.forall_mem_cons, List.forall_mem_append]
    exact ⟨by decide, ascii_newline _, ascii_write _ item, ascii_writeItems _ items,
      ascii_newline _, by decide, nofun⟩
  | level, .object [] => by
    rw [write]
    simp only [List.forall_mem_cons]
    exact ⟨by decide, by decide, nofun⟩
  | level, .object ((key, value) :: fields) => by
    rw [write]
    simp only [List.forall_mem_cons, List.forall_mem_append]
    exact ⟨by decide, ascii_newline _, ascii_quote key, by decide, by decide,
      ascii_write _ value, ascii_writeFields _ fields, ascii_newline _, by decide, nofun⟩

theorem ascii_writeItems : ∀ (level : Nat) (items : List Json),
    ∀ char ∈ writeItems level items, Ascii char
  | level, [] => by
    rw [writeItems]
    exact nofun
  | level, item :: items => by
    rw [writeItems]
    simp only [List.forall_mem_cons, List.forall_mem_append]
    exact ⟨by decide, ascii_newline _, ascii_write _ item, ascii_writeItems _ items⟩

theorem ascii_writeFields : ∀ (level : Nat) (fields : List (List Char × Json)),
    ∀ char ∈ writeFields level fields, Ascii char
  | level, [] => by
    rw [writeFields]
    exact nofun
  | level, (key, value) :: fields => by
    rw [writeFields]
    simp only [List.forall_mem_cons, List.forall_mem_append]
    exact ⟨by decide, ascii_newline _, ascii_quote key, by decide, by decide,
      ascii_write _ value, ascii_writeFields _ fields⟩

end

/-- What a reader took from the front of a text, it takes whatever more there is. -/
theorem readUnit_append {unit : Nat} (taken : readUnit text = some (unit, rest))
    (extra : List Char) : readUnit (text ++ extra) = some (unit, rest ++ extra) := by
  unfold readUnit at taken
  split at taken
  · simp only [Option.bind_eq_bind, Option.bind_eq_some_iff] at taken
    obtain ⟨first, atFirst, second, atSecond, third, atThird, fourth, atFourth, same⟩ := taken
    obtain ⟨rfl, rfl⟩ := Prod.mk.inj (Option.some.inj same)
    simp [readUnit, atFirst, atSecond, atThird, atFourth]
  · cases taken

theorem readLow_append {high : Nat} (taken : readLow high text = some (char, rest))
    (extra : List Char) : readLow high (text ++ extra) = some (char, rest ++ extra) := by
  unfold readLow at taken
  split at taken
  · simp only [Option.bind_eq_bind, Option.bind_eq_some_iff] at taken
    obtain ⟨⟨low, after⟩, atLow, same⟩ := taken
    split at same
    · rename_i isLow
      obtain ⟨rfl, rfl⟩ := Prod.mk.inj (Option.some.inj same)
      simp only [List.cons_append, readLow, readUnit_append atLow, Option.bind_eq_bind,
        Option.bind_some, isLow, and_self, if_true]
      rfl
    · cases same
  · cases taken

theorem readChar_append (taken : readChar text = some (char, rest)) (extra : List Char) :
    readChar (text ++ extra) = some (char, rest ++ extra) := by
  unfold readChar at taken
  split at taken
  · simp only [Option.bind_eq_bind, Option.bind_eq_some_iff] at taken
    obtain ⟨⟨unit, after⟩, atUnit, same⟩ := taken
    simp only [List.cons_append, readChar, readUnit_append atUnit, Option.bind_eq_bind,
      Option.bind_some]
    split at same
    · rename_i isHigh
      rw [if_pos isHigh, readLow_append same]
    · rename_i notHigh
      rw [if_neg notHigh]
      split at same
      · cases same
      · rename_i notLow
        obtain ⟨rfl, rfl⟩ := Prod.mk.inj (Option.some.inj same)
        rw [if_neg notLow]
        rfl
  · obtain ⟨rfl, rfl⟩ := Prod.mk.inj (Option.some.inj taken)
    rfl
  · cases taken
  · obtain ⟨escaped, atLetter, same⟩ := Option.map_eq_some_iff.mp taken
    obtain ⟨rfl, rfl⟩ := Prod.mk.inj same
    simp [readChar, atLetter]
  · rename_i first after _ _ alone escape
    have plain : first ≠ '\\' := by
      intro same
      cases after with
      | nil => exact alone same rfl
      | cons letter after => exact escape letter after same rfl
    split at taken
    · cases taken
    · rename_i shown
      obtain ⟨rfl, rfl⟩ := Prod.mk.inj (Option.some.inj taken)
      simp [readChar, plain, shown]
  · cases taken

theorem readString_append {more : Nat} (enough : fuel ≤ more) {chars : List Char}
    (taken : readString fuel text = some (chars, rest)) (extra : List Char) :
    readString more (text ++ extra) = some (chars, rest ++ extra) := by
  induction fuel generalizing text more chars with
  | zero => cases taken
  | succ fuel ih =>
    obtain ⟨more, rfl⟩ : ∃ less, more = less + 1 := ⟨more - 1, by omega⟩
    cases text with
    | nil =>
      rw [readString] at taken
      · cases taken
      · exact nofun
    | cons first text =>
      by_cases closing : first = '"'
      · subst closing
        obtain ⟨rfl, rfl⟩ := Prod.mk.inj (Option.some.inj taken)
        rfl
      · rw [readString] at taken
        · simp only [Option.bind_eq_bind, Option.bind_eq_some_iff] at taken
          obtain ⟨⟨char, after⟩, atFirst, ⟨others, last⟩, atOthers, same⟩ := taken
          obtain ⟨rfl, rfl⟩ := Prod.mk.inj (Option.some.inj same)
          exact readString_char closing (readChar_append atFirst extra)
            (ih (Nat.le_of_succ_le_succ enough) atOthers)
        · rintro after ⟨⟩
          exact closing rfl

theorem skipSpace_append (start : skipSpace text = letter :: rest) (extra : List Char) :
    skipSpace (text ++ extra) = letter :: (rest ++ extra) := by
  induction text with
  | nil => cases start
  | cons first text ih =>
    rw [skipSpace, List.dropWhile_cons] at start
    rw [List.cons_append, skipSpace, List.dropWhile_cons]
    split at start
    · rename_i space
      rw [if_pos space]
      exact ih start
    · rename_i shown
      obtain ⟨rfl, rfl⟩ := List.cons.inj start
      rw [if_neg shown]

theorem readKey_append {more : Nat} (enough : fuel ≤ more) {key : List Char}
    (taken : readKey fuel text = some (key, rest)) (extra : List Char) :
    readKey more (text ++ extra) = some (key, rest ++ extra) := by
  unfold readKey at taken
  split at taken
  · rename_i start
    simp only [Option.bind_eq_bind, Option.bind_eq_some_iff] at taken
    obtain ⟨⟨chars, after⟩, atKey, same⟩ := taken
    dsimp only at same
    split at same
    · rename_i colon
      obtain ⟨rfl, rfl⟩ := Prod.mk.inj (Option.some.inj same)
      simp only [readKey, skipSpace_append start, readString_append enough atKey,
        skipSpace_append colon, Option.bind_eq_bind, Option.bind_some]
      rfl
    · cases same
  · cases taken

/-- What the readers take with so much fuel, they take whatever more there is. -/
structure Stable (fuel : Nat) : Prop where
  value : ∀ {text rest : List Char} {value : Json} {more : Nat}, fuel ≤ more →
    readValue fuel text = some (value, rest) →
      ∀ extra, readValue more (text ++ extra) = some (value, rest ++ extra)
  items : ∀ {text rest : List Char} {items : List Json} {more : Nat}, fuel ≤ more →
    readItems fuel text = some (items, rest) →
      ∀ extra, readItems more (text ++ extra) = some (items, rest ++ extra)
  fields : ∀ {text rest : List Char} {fields : List (List Char × Json)} {more : Nat},
    fuel ≤ more → readFields fuel text = some (fields, rest) →
      ∀ extra, readFields more (text ++ extra) = some (fields, rest ++ extra)

theorem Stable.next_items (stable : Stable fuel) {items : List Json} {more : Nat}
    (enough : fuel ≤ more) (taken : readItems (fuel + 1) text = some (items, rest))
    (extra : List Char) : readItems (more + 1) (text ++ extra) = some (items, rest ++ extra) := by
  rw [readItems] at taken
  rw [readItems]
  split at taken
  · rename_i start
    obtain ⟨rfl, rfl⟩ := Prod.mk.inj (Option.some.inj taken)
    rw [skipSpace_append start]
    rfl
  · rename_i start
    simp only [Option.bind_eq_bind, Option.bind_eq_some_iff] at taken
    obtain ⟨⟨item, after⟩, atItem, ⟨others, last⟩, atOthers, same⟩ := taken
    obtain ⟨rfl, rfl⟩ := Prod.mk.inj (Option.some.inj same)
    simp only [skipSpace_append start, stable.value enough atItem, stable.items enough atOthers,
      Option.bind_eq_bind, Option.bind_some]
    rfl
  · cases taken

theorem Stable.next_fields (stable : Stable fuel) {fields : List (List Char × Json)} {more : Nat}
    (enough : fuel ≤ more) (taken : readFields (fuel + 1) text = some (fields, rest))
    (extra : List Char) :
    readFields (more + 1) (text ++ extra) = some (fields, rest ++ extra) := by
  rw [readFields] at taken
  rw [readFields]
  split at taken
  · rename_i start
    obtain ⟨rfl, rfl⟩ := Prod.mk.inj (Option.some.inj taken)
    rw [skipSpace_append start]
    rfl
  · rename_i start
    simp only [Option.bind_eq_bind, Option.bind_eq_some_iff] at taken
    obtain ⟨⟨key, afterKey⟩, atKey, ⟨value, after⟩, atValue, ⟨others, last⟩, atOthers, same⟩ :=
      taken
    obtain ⟨rfl, rfl⟩ := Prod.mk.inj (Option.some.inj same)
    simp only [skipSpace_append start, readKey_append enough atKey, stable.value enough atValue,
      stable.fields enough atOthers, Option.bind_eq_bind, Option.bind_some]
    rfl
  · cases taken

theorem nonempty_of_readValue {value : Json} (taken : readValue fuel text = some (value, rest)) :
    ∃ first tail, text = first :: tail := by
  cases text with
  | nil =>
    cases fuel with
    | zero => cases taken
    | succ fuel =>
      rw [readValue] at taken
      cases taken
  | cons first tail => exact ⟨first, tail, rfl⟩

theorem nonempty_of_readKey {key : List Char} (taken : readKey fuel text = some (key, rest)) :
    ∃ first tail, text = first :: tail := by
  cases text with
  | nil => cases taken
  | cons first tail => exact ⟨first, tail, rfl⟩

theorem Stable.next_value (stable : Stable fuel) {value : Json} {more : Nat}
    (enough : fuel ≤ more) (taken : readValue (fuel + 1) text = some (value, rest))
    (extra : List Char) : readValue (more + 1) (text ++ extra) = some (value, rest ++ extra) := by
  rw [readValue] at taken
  rw [readValue]
  split at taken
  · rename_i start
    obtain ⟨⟨chars, after⟩, atString, same⟩ := Option.map_eq_some_iff.mp taken
    obtain ⟨rfl, rfl⟩ := Prod.mk.inj same
    simp only [skipSpace_append start, readString_append enough atString, Option.map_some]
  · rename_i inside start
    rw [skipSpace_append start]
    split at taken
    · rename_i closing
      obtain ⟨rfl, rfl⟩ := Prod.mk.inj (Option.some.inj taken)
      simp only [skipSpace_append closing]
    · rename_i further
      simp only [Option.bind_eq_bind, Option.bind_eq_some_iff] at taken
      obtain ⟨⟨item, after⟩, atItem, ⟨others, last⟩, atOthers, same⟩ := taken
      obtain ⟨rfl, rfl⟩ := Prod.mk.inj (Option.some.inj same)
      obtain ⟨first, tail, nonempty⟩ := nonempty_of_readValue atItem
      have proper : first ≠ ']' := fun same => further tail (same ▸ nonempty)
      rw [nonempty] at atItem
      have first := stable.value enough atItem extra
      have others := stable.items enough atOthers extra
      simp only [skipSpace_append nonempty]
      split
      · rename_i closing
        exact absurd (List.cons.inj closing).1 proper
      · simp only [← List.cons_append, first, others, Option.bind_eq_bind, Option.bind_some]
        rfl
  · rename_i inside start
    rw [skipSpace_append start]
    split at taken
    · rename_i closing
      obtain ⟨rfl, rfl⟩ := Prod.mk.inj (Option.some.inj taken)
      simp only [skipSpace_append closing]
    · rename_i further
      simp only [Option.bind_eq_bind, Option.bind_eq_some_iff] at taken
      obtain ⟨⟨key, afterKey⟩, atKey, ⟨value, after⟩, atValue, ⟨others, last⟩, atOthers, same⟩ :=
        taken
      obtain ⟨rfl, rfl⟩ := Prod.mk.inj (Option.some.inj same)
      obtain ⟨first, tail, nonempty⟩ := nonempty_of_readKey atKey
      have proper : first ≠ '}' := fun same => further tail (same ▸ nonempty)
      rw [nonempty] at atKey
      have first := readKey_append enough atKey extra
      have value := stable.value enough atValue extra
      have others := stable.fields enough atOthers extra
      simp only [skipSpace_append nonempty]
      split
      · rename_i closing
        exact absurd (List.cons.inj closing).1 proper
      · simp only [← List.cons_append, first, value, others, Option.bind_eq_bind,
          Option.bind_some]
        rfl
  · cases taken

theorem stable (fuel : Nat) : Stable fuel := by
  induction fuel with
  | zero =>
    constructor
    · intro text rest value more _ taken
      cases taken
    · intro text rest items more _ taken
      cases taken
    · intro text rest fields more _ taken
      cases taken
  | succ fuel ih =>
    constructor
    · intro text rest value more enough taken extra
      obtain ⟨more, rfl⟩ : ∃ less, more = less + 1 := ⟨more - 1, by omega⟩
      exact ih.next_value (Nat.le_of_succ_le_succ enough) taken extra
    · intro text rest items more enough taken extra
      obtain ⟨more, rfl⟩ : ∃ less, more = less + 1 := ⟨more - 1, by omega⟩
      exact ih.next_items (Nat.le_of_succ_le_succ enough) taken extra
    · intro text rest fields more enough taken extra
      obtain ⟨more, rfl⟩ : ∃ less, more = less + 1 := ⟨more - 1, by omega⟩
      exact ih.next_fields (Nat.le_of_succ_le_succ enough) taken extra

/-- Of a text cut short, nothing is read unless only the space after the value is missing. -/
theorem read_prefix {value other : Json} (front : text <+: write 0 value ++ ['\n'])
    (taken : read text = some other) :
    other = value ∧ (text = write 0 value ∨ text = write 0 value ++ ['\n']) := by
  obtain ⟨extra, whole⟩ := front
  unfold read at taken
  split at taken
  · rename_i found after readFront
    split at taken
    · obtain rfl := Option.some.inj taken
      have longer : text.length ≤ (write 0 value ++ ['\n']).length := by
        rw [← whole, List.length_append]
        omega
      have short : (write 0 value).length ≤ (write 0 value ++ ['\n']).length + 1 := by
        simp only [List.length_append]
        omega
      have again := (stable _).value (Nat.succ_le_succ longer) readFront extra
      rw [whole, readValue_write value _ 0 ['\n'] short] at again
      obtain ⟨rfl, ends⟩ := Prod.mk.inj (Option.some.inj again)
      refine ⟨rfl, ?_⟩
      cases extra with
      | nil => exact .inr (by rw [← whole, List.append_nil])
      | cons char extra =>
        have last : after = [] ∧ char :: extra = ['\n'] := by
          rcases List.append_eq_singleton_iff.mp ends.symm with both | both
          · exact both
          · cases both.2
        rw [last.2] at whole
        exact .inl (List.append_cancel_right whole)
    · cases taken
  · cases taken

end Json

end Lib

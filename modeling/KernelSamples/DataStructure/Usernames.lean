import KernelSamples.Lib.Buffer
import KernelSamples.DataStructure.Ownership
import KernelSamples.DataStructure.Refinement

/-! The usernames the init loop writes are keys: lookups and deletes by name on the list it
built behave as on a map from its rounds. -/

namespace KernelSamples.DataStructure

open Lib

theorem CString.text_injective {first second : CString} (same : first.text = second.text) :
    first = second := by
  cases first
  cases second
  cases same
  rfl

theorem numbered_injective {i j : Nat} (same : numbered i = numbered j) : i = j := by
  have text := congrArg CString.text same
  have digits : Nat.toDigits 10 i = Nat.toDigits 10 j := List.append_cancel_left text
  have numbers := congrArg (fun digits => Nat.ofDigitChars 10 digits 0) digits
  simpa using numbers

/-- "username#" and at most ten digits. -/
theorem length_numbered_le {i : Nat} (small : i < 2 ^ uintBits) :
    (numbered i).text.length ≤ 19 := by
  have digits : (Nat.toDigits 10 i).length ≤ 10 := by
    apply (Nat.length_toDigits_le_iff (by decide) (by decide)).mpr
    exact Nat.lt_of_lt_of_le small (by decide)
  have start : "username#".toList.length = 9 := by decide
  have whole : (numbered i).text.length =
      "username#".toList.length + (Nat.toDigits 10 i).length := List.length_append
  omega

/-- `scnprintf` into the 32 bytes is the bounded write at their start. -/
theorem Username.scnprintf_writeBounded (username : Username) (text : CString) :
    writeBounded '\x00' username.bytes 0 maxUsernameLength text.text =
      some ((username.scnprintf text).bytes, min (maxUsernameLength - 1) text.text.length) := by
  have nonzero : maxUsernameLength ≠ 0 := by decide
  have inside : min (maxUsernameLength - 1) text.text.length < username.bytes.length := by
    rw [username.size, maxUsernameLength]
    omega
  simp only [writeBounded, if_neg nonzero, Nat.zero_add, if_pos inside, List.take_zero,
    List.nil_append, Username.scnprintf]

theorem Username.scnprintf_shows (text : CString) :
    Shows '\x00' (Username.zeroed.scnprintf text).bytes text.text
      (min (maxUsernameLength - 1) text.text.length) := by
  have empty : Shows '\x00' Username.zeroed.bytes [] 0 := .empty rfl
  have size := Username.zeroed.size
  obtain ⟨next, written, wrote, -, shows⟩ := empty.append (by rw [size]; decide) text.text
  rw [size, Nat.sub_zero, Username.scnprintf_writeBounded] at wrote
  cases wrote
  rw [List.nil_append, Nat.zero_add] at shows
  exact shows

/-- A text with room for its NUL is read back in full. -/
theorem Username.scnprintf_string {text : CString}
    (fits : text.text.length ≤ maxUsernameLength - 1) :
    (Username.zeroed.scnprintf text).string = text := by
  have read := (Username.scnprintf_shows text).read text.noNul
  rw [Nat.min_eq_right fits, List.take_length] at read
  exact CString.text_injective read

variable {Addr : Type} {nUserInfos : Nat}

/-- The user a round of the loop builds. -/
def builtUser (kernel : Kernel Addr) (round : Nat) : User := fillUserInfo kernel round round .zeroed

/-- The list's entry of a round. -/
def builtEntry (kernel : Kernel Addr) (address : Fin nUserInfos → Addr) (i : Fin nUserInfos) :
    Entry Addr :=
  (address i, builtUser kernel i)

theorem builtUser_string (kernel : Kernel Addr) {round : Nat} (small : round < 2 ^ uintBits) :
    (builtUser kernel round).username.string = numbered round :=
  Username.scnprintf_string (Nat.le_trans (length_numbered_le small) (by decide))

/-- Names in the list are those of their rounds, in full and terminated, and differ. -/
theorem builtUser_username (kernel : Kernel Addr) {round : Nat} (small : round < 2 ^ uintBits) :
    (builtUser kernel round).username.string = numbered round ∧
      (numbered round).text.length < maxUsernameLength ∧
      (builtUser kernel round).username.bytes.take ((numbered round).text.length + 1) =
        (numbered round).text ++ ['\x00'] := by
  have short := length_numbered_le small
  refine ⟨builtUser_string kernel small, Nat.lt_of_le_of_lt short (by decide), ?_⟩
  have shows := Username.scnprintf_shows (numbered round)
  rw [Nat.min_eq_right (Nat.le_trans short (by decide))] at shows
  exact shows.shown.trans (by rw [List.take_length])

section Building

variable [DecidableEq Addr] {kernel : Kernel Addr} {address : Fin nUserInfos → Addr}
variable {memory : Memory Addr} {round fuel : Nat}

/-- The loop from any round on, when no allocation fails. -/
theorem buildUserInfos_from (small : nUserInfos < 2 ^ uintBits)
    (handed : ∀ i : Fin nUserInfos, kernel.kzalloc i (kernel.handedOut i) = some (address i))
    (within : round ≤ nUserInfos) (live : memory.live = kernel.handedOut round)
    (represents : Represents memory
      (((List.finRange nUserInfos).take round).map (builtEntry kernel address)))
    (enough : nUserInfos < fuel + round) :
    ∃ next, buildUserInfos kernel nUserInfos fuel round round memory = .ok (0, next) ∧
      Represents next ((List.finRange nUserInfos).map (builtEntry kernel address)) := by
  induction fuel generalizing round memory with
  | zero => omega
  | succ fuel ih =>
    by_cases more : round < nUserInfos
    · have allocated : kernel.kzalloc round memory.live = some (address ⟨round, more⟩) := by
        rw [live]
        exact handed ⟨round, more⟩
      obtain ⟨next, appended, lives, represents'⟩ :=
        represents.appendUserInfo (kernel.fresh allocated) (fillUserInfo kernel round round)
      have entries : (List.finRange nUserInfos).take (round + 1) =
          (List.finRange nUserInfos).take round ++ [⟨round, more⟩] := by
        rw [List.take_succ_eq_append_getElem (by simpa using more)]
        simp
      have counter : wrap uintBits (round + 1) = round + 1 :=
        wrap_of_lt (Nat.lt_of_le_of_lt more small)
      obtain ⟨last, built, represented⟩ := ih more
        (by rw [lives, live, Kernel.handedOut_succ (handed ⟨round, more⟩)])
        (by rw [entries, List.map_append]; exact represents') (by omega)
      refine ⟨last, ?_, represented⟩
      simp only [buildUserInfos, more, if_true, allocated, appended, Memory.ok_bind, counter,
        built]
    · refine ⟨memory, ?_, ?_⟩
      · simp only [buildUserInfos, more, if_false]
      · rwa [List.take_of_length_le (by simp; omega)] at represents

end Building

/-- A call by name after the list is built. -/
inductive NameCall where
  | get (username : Option CString)
  | delete (username : Option CString)
  deriving DecidableEq

def NameCall.operation : NameCall → Operation Addr
  | .get username => .get username
  | .delete username => .delete username

def performCalls [DecidableEq Addr] (memory : Memory Addr) :
    List NameCall → Except (Fault Addr) (Memory Addr × List (Result Addr))
  | [] => .ok (memory, [])
  | call :: rest => do
    let (memory, result) ← perform memory call.operation
    let (memory, results) ← performCalls memory rest
    .ok (memory, result :: results)

/-- The rounds whose user no call has deleted, in order. -/
def remainingRounds (nUserInfos : Nat) (calls : List NameCall) : List (Fin nUserInfos) :=
  (List.finRange nUserInfos).filter fun i => .delete (some (numbered i)) ∉ calls

/-- The name is that of a round, and no delete of it has been made. -/
def Held (calls : List NameCall) (username : Option CString) (i : Fin nUserInfos) : Prop :=
  username = some (numbered i) ∧ .delete username ∉ calls

section Keys

variable {kernel : Kernel Addr} {address : Fin nUserInfos → Addr} {calls : List NameCall}
variable {username : Option CString} {i : Fin nUserInfos}

theorem Held.remains (held : Held calls username i) : i ∈ remainingRounds nUserInfos calls := by
  obtain ⟨rfl, kept⟩ := held
  simpa [remainingRounds] using kept

theorem named_builtEntry (small : nUserInfos < 2 ^ uintBits) (name : CString) :
    (builtEntry kernel address i).Named name = decide (numbered i = name) := by
  have round : i.val < 2 ^ uintBits := Nat.lt_trans i.isLt small
  simp only [Entry.Named, builtEntry, builtUser_string kernel round]

/-- First-match search for a name that is held finds the user of its round. -/
theorem lookup_held (small : nUserInfos < 2 ^ uintBits) (held : Held calls username i) :
    lookup username ((remainingRounds nUserInfos calls).map (builtEntry kernel address)) =
      some (builtEntry kernel address i) := by
  have member := held.remains
  obtain ⟨rfl, -⟩ := held
  simp only [lookup, Option.bind_some, List.find?_map, Function.comp_def,
    named_builtEntry small]
  have isSome : ((remainingRounds nUserInfos calls).find? fun other : Fin nUserInfos =>
      decide (numbered other = numbered i)).isSome := by
    rw [List.find?_isSome]
    exact ⟨i, member, by simp⟩
  obtain ⟨other, found⟩ := Option.isSome_iff_exists.mp isSome
  have same := List.find?_some found
  rw [found, Fin.ext (numbered_injective (of_decide_eq_true same))]
  rfl

theorem lookup_not_held (small : nUserInfos < 2 ^ uintBits)
    (free : ∀ i : Fin nUserInfos, ¬ Held calls username i) :
    lookup username ((remainingRounds nUserInfos calls).map (builtEntry kernel address)) =
      none := by
  cases username with
  | none => rfl
  | some name =>
    apply List.find?_eq_none.mpr
    intro entry member
    obtain ⟨i, remains, rfl⟩ := List.mem_map.mp member
    rw [named_builtEntry small]
    intro named
    obtain rfl := of_decide_eq_true named
    have kept := (List.mem_filter.mp remains).2
    exact free i ⟨rfl, of_decide_eq_true kept⟩

/-- Erasing the first match erases every match where there is at most one. -/
theorem eraseP_unique {Item : Type} {items : List Item} {test : Item → Bool}
    (distinct : items.Nodup)
    (unique : ∀ first second, test first = true → test second = true → first = second) :
    items.eraseP test = items.filter fun item => !test item := by
  induction items with
  | nil => rfl
  | cons item rest ih =>
    obtain ⟨outside, distinct⟩ := List.nodup_cons.mp distinct
    by_cases matched : test item = true
    · have others : ∀ other ∈ rest, (!test other) = true := by
        intro other member
        rw [Bool.not_eq_true', ← Bool.not_eq_true]
        intro matchedToo
        exact outside (unique item other matched matchedToo ▸ member)
      rw [List.eraseP_cons_of_pos matched, List.filter_cons_of_neg (by simp [matched]),
        List.filter_eq_self.mpr others]
    · rw [List.eraseP_cons_of_neg matched, List.filter_cons_of_pos (by simpa using matched),
        ih distinct]

theorem remainingRounds_nodup : (remainingRounds nUserInfos calls).Nodup :=
  (List.nodup_finRange nUserInfos).filter _

theorem remainingRounds_get :
    remainingRounds nUserInfos (calls ++ [.get username]) = remainingRounds nUserInfos calls := by
  simp [remainingRounds]

theorem remainingRounds_delete :
    remainingRounds nUserInfos (calls ++ [.delete username]) =
      (remainingRounds nUserInfos calls).filter fun i : Fin nUserInfos =>
        decide (username ≠ some (numbered i)) := by
  rw [remainingRounds, remainingRounds, List.filter_filter]
  congr 1
  funext i
  by_cases here : username = some (numbered i) <;> simp [here, eq_comm]

/-- Leaving the first user of a name out leaves out the round of that name. -/
theorem remove_remaining (small : nUserInfos < 2 ^ uintBits) (username : Option CString) :
    remove username ((remainingRounds nUserInfos calls).map (builtEntry kernel address)) =
      (remainingRounds nUserInfos (calls ++ [.delete username])).map
        (builtEntry kernel address) := by
  rw [remainingRounds_delete]
  cases username with
  | none => simp [remove]
  | some name =>
    let test : Fin nUserInfos → Bool := Entry.Named name ∘ builtEntry kernel address
    have unique : ∀ first second, test first = true → test second = true → first = second := by
      intro first second namedFirst namedSecond
      simp only [test, Function.comp_apply, named_builtEntry small, decide_eq_true_eq]
        at namedFirst namedSecond
      exact Fin.ext (numbered_injective (namedFirst.trans namedSecond.symm))
    have opposite : (fun i => !test i) = fun i : Fin nUserInfos =>
        decide (some name ≠ some (numbered i)) := by
      funext i
      simp [test, named_builtEntry small, eq_comm]
    rw [remove, List.eraseP_map, eraseP_unique remainingRounds_nodup unique, opposite]

theorem remaining_names_distinct (small : nUserInfos < 2 ^ uintBits) (calls : List NameCall) :
    (((remainingRounds nUserInfos calls).map (builtEntry kernel address)).map
      fun entry => entry.2.username.string).Nodup := by
  rw [List.map_map]
  refine List.Nodup.map ?_ remainingRounds_nodup
  intro first second same
  simp only [Function.comp_apply, builtEntry,
    builtUser_string kernel (Nat.lt_trans (Fin.isLt _) small)] at same
  exact Fin.ext (numbered_injective same)

end Keys

section Calls

variable [DecidableEq Addr] {kernel : Kernel Addr} {address : Fin nUserInfos → Addr}
variable {memory : Memory Addr} {earlier calls : List NameCall} {username : Option CString}
variable {fuel : Nat}

/-- What a call returns after earlier ones. -/
def expectedResult (kernel : Kernel Addr) (address : Fin nUserInfos → Addr)
    (earlier : List NameCall) (call : NameCall) : Result Addr :=
  answer ((remainingRounds nUserInfos earlier).map (builtEntry kernel address)) call.operation

/-- One call on the list that is left. -/
theorem perform_remaining (small : nUserInfos < 2 ^ uintBits)
    (represents : Represents memory
      ((remainingRounds nUserInfos earlier).map (builtEntry kernel address)))
    (call : NameCall) :
    ∃ next, perform memory call.operation =
        .ok (next, expectedResult kernel address earlier call) ∧
      Represents next
        ((remainingRounds nUserInfos (earlier ++ [call])).map (builtEntry kernel address)) := by
  cases call with
  | get username =>
    obtain ⟨next, performed, represents'⟩ :=
      perform_represents represents
        (show (Operation.get username).Admitted memory.live from trivial)
    refine ⟨next, performed, ?_⟩
    rw [remainingRounds_get]
    exact represents'
  | delete username =>
    obtain ⟨next, performed, represents'⟩ :=
      perform_represents represents
        (show (Operation.delete username).Admitted memory.live from trivial)
    refine ⟨next, performed, ?_⟩
    rw [← remove_remaining small]
    exact represents'

/-- Any sequence of calls, from any list that is left. -/
theorem performCalls_remaining (small : nUserInfos < 2 ^ uintBits)
    (represents : Represents memory
      ((remainingRounds nUserInfos earlier).map (builtEntry kernel address)))
    (calls : List NameCall) :
    ∃ last results, performCalls memory calls = .ok (last, results) ∧
      (∀ index call, calls[index]? = some call → results[index]? =
        some (expectedResult kernel address (earlier ++ calls.take index) call)) ∧
      Represents last
        ((remainingRounds nUserInfos (earlier ++ calls)).map (builtEntry kernel address)) := by
  induction calls generalizing memory earlier with
  | nil => exact ⟨memory, [], rfl, by simp, by rwa [List.append_nil]⟩
  | cons call rest ih =>
    obtain ⟨next, performed, represents'⟩ := perform_remaining small represents call
    obtain ⟨last, results, onward, expected, represented⟩ := ih represents'
    refine ⟨last, expectedResult kernel address earlier call :: results, ?_, ?_,
      by simpa using represented⟩
    · simp only [performCalls, performed, onward, Memory.ok_bind]
    · intro index later there
      cases index with
      | zero =>
        cases there
        simp
      | succ index => simpa using expected index later there

/-- A call by a name that is held finds or deletes the user of its round, any other finds
NULL or returns -ENOENT. -/
def Answered (kernel : Kernel Addr) (address : Fin nUserInfos → Addr)
    (earlier : List NameCall) : NameCall → Result Addr → Prop
  | .get username, result =>
    (∀ i : Fin nUserInfos, Held earlier username i →
      result = .found (some (address i, builtUser kernel i))) ∧
    ((∀ i : Fin nUserInfos, ¬ Held earlier username i) → result = .found none)
  | .delete username, result =>
    (∀ i : Fin nUserInfos, Held earlier username i → result = .deleted 0) ∧
    ((∀ i : Fin nUserInfos, ¬ Held earlier username i) → result = .deleted (-enoent))

omit [DecidableEq Addr] in
theorem expectedResult_answered (small : nUserInfos < 2 ^ uintBits) (earlier : List NameCall)
    (call : NameCall) :
    Answered kernel address earlier call (expectedResult kernel address earlier call) := by
  cases call with
  | get username =>
    constructor
    · intro i held
      exact congrArg Result.found (lookup_held small held)
    · intro free
      exact congrArg Result.found (lookup_not_held small free)
  | delete username =>
    constructor
    · intro i held
      simp only [expectedResult, NameCall.operation, answer, lookup_held small held,
        Option.isSome_some, if_true]
    · intro free
      simp [expectedResult, NameCall.operation, answer, lookup_not_held small free]

theorem held_after_other {other : Option CString} (different : username ≠ other)
    (i : Fin nUserInfos) :
    Held (earlier ++ [.delete other]) username i ↔ Held earlier username i := by
  simp [Held, different]

omit [DecidableEq Addr] in
/-- Deleting another name before does not change what a delete returns. -/
theorem expectedResult_after_other (small : nUserInfos < 2 ^ uintBits)
    {other : Option CString} (different : username ≠ other) :
    expectedResult kernel address (earlier ++ [.delete other]) (.delete username) =
      expectedResult kernel address earlier (.delete username) := by
  have before : Answered kernel address earlier (.delete username) _ :=
    expectedResult_answered small earlier (.delete username)
  have after : Answered kernel address (earlier ++ [.delete other]) (.delete username) _ :=
    expectedResult_answered small (earlier ++ [.delete other]) (.delete username)
  obtain ⟨deletes, refuses⟩ := before
  obtain ⟨deletes', refuses'⟩ := after
  simp only [held_after_other different] at deletes' refuses'
  by_cases held : ∃ i : Fin nUserInfos, Held earlier username i
  · obtain ⟨i, held⟩ := held
    rw [deletes i held, deletes' i held]
  · rw [refuses (not_exists.mp held), refuses' (not_exists.mp held)]

theorem remainingRounds_swap (first second : Option CString) :
    remainingRounds nUserInfos (earlier ++ [.delete first, .delete second]) =
      remainingRounds nUserInfos (earlier ++ [.delete second, .delete first]) := by
  simp only [remainingRounds, List.mem_append, List.mem_cons, or_left_comm]

/-- Deletes of different names commute. -/
theorem deletes_commute (small : nUserInfos < 2 ^ uintBits)
    (represents : Represents memory
      ((remainingRounds nUserInfos earlier).map (builtEntry kernel address)))
    {first second : Option CString} (different : first ≠ second) :
    ∃ one other retFirst retSecond users,
      performCalls memory [.delete first, .delete second] = .ok (one, [retFirst, retSecond]) ∧
      performCalls memory [.delete second, .delete first] = .ok (other, [retSecond, retFirst]) ∧
      Represents one users ∧ Represents other users := by
  obtain ⟨middle, performedFirst, leftFirst⟩ :=
    perform_remaining small represents (.delete first)
  obtain ⟨one, performedSecond, leftOne⟩ :=
    perform_remaining small leftFirst (.delete second)
  obtain ⟨middle', performedSecond', leftSecond⟩ :=
    perform_remaining small represents (.delete second)
  obtain ⟨other, performedFirst', leftOther⟩ :=
    perform_remaining small leftSecond (.delete first)
  rw [expectedResult_after_other small different.symm] at performedSecond
  rw [expectedResult_after_other small different] at performedFirst'
  rw [List.append_assoc] at leftOne leftOther
  refine ⟨one, other, expectedResult kernel address earlier (.delete first),
    expectedResult kernel address earlier (.delete second), _, ?_, ?_, leftOne, ?_⟩
  · simp only [performCalls, performedFirst, performedSecond, Memory.ok_bind]
  · simp only [performCalls, performedSecond', performedFirst', Memory.ok_bind]
  · simp only [List.cons_append, List.nil_append]
    rw [remainingRounds_swap]
    exact leftOther

/-- With fewer than 2^32 users and no failed allocation the loop builds a list in which
usernames are keys: they are distinct and in full, and in any sequence of lookups and deletes
by name each call is answered by the round of its name unless that name was deleted before.
Deletes of different names commute, and the users left stay in the order of their rounds. -/
theorem usernames_are_keys (small : nUserInfos < 2 ^ uintBits)
    (succeeds : ¬ kernel.AllocationFails nUserInfos) (enough : nUserInfos < fuel) :
    ∃ memory, ∃ address : Fin nUserInfos → Addr,
      buildUserInfos kernel nUserInfos fuel 0 0 .initial = .ok (0, memory) ∧
      (∀ i : Fin nUserInfos, kernel.kzalloc i (kernel.handedOut i) = some (address i)) ∧
      (∀ i : Fin nUserInfos,
        (builtUser kernel i).username.string = numbered i ∧
        (numbered i).text.length < maxUsernameLength ∧
        (builtUser kernel i).username.bytes.take ((numbered i).text.length + 1) =
          (numbered i).text ++ ['\x00']) ∧
      ∀ calls, ∃ last results users, performCalls memory calls = .ok (last, results) ∧
        users = (remainingRounds nUserInfos calls).map (builtEntry kernel address) ∧
        Represents last users ∧ (users.map fun entry => entry.2.username.string).Nodup ∧
        (∀ index call, calls[index]? = some call → ∃ result, results[index]? = some result ∧
          Answered kernel address (calls.take index) call result) ∧
        ∀ first second, first ≠ second → ∃ one other retFirst retSecond left,
          performCalls last [.delete first, .delete second] = .ok (one, [retFirst, retSecond]) ∧
          performCalls last [.delete second, .delete first] = .ok (other, [retSecond, retFirst]) ∧
          Represents one left ∧ Represents other left := by
  have allocated : ∀ i : Fin nUserInfos,
      ∃ addr, kernel.kzalloc i (kernel.handedOut i) = some addr := by
    intro i
    cases handed : kernel.kzalloc i (kernel.handedOut i) with
    | none => exact absurd ⟨i, .inl i.isLt, handed⟩ succeeds
    | some addr => exact ⟨addr, rfl⟩
  choose address handed using allocated
  have empty : Represents Memory.initial
      (((List.finRange nUserInfos).take 0).map (builtEntry kernel address)) := .initial
  obtain ⟨memory, built, represents⟩ :=
    buildUserInfos_from small handed (Nat.zero_le _) rfl empty enough
  refine ⟨memory, address, built, handed,
    fun i => builtUser_username kernel (Nat.lt_trans i.isLt small), ?_⟩
  intro calls
  have start : Represents memory
      ((remainingRounds nUserInfos []).map (builtEntry kernel address)) := by
    simpa [remainingRounds] using represents
  obtain ⟨last, results, performed, expected, represented⟩ :=
    performCalls_remaining small start calls
  refine ⟨last, results, _, performed, rfl, represented, remaining_names_distinct small calls,
    ?_, ?_⟩
  · intro index call there
    exact ⟨_, expected index call there, expectedResult_answered small _ call⟩
  · intro first second different
    exact deletes_commute small represented different

end Calls

/-- Three users, one of them deleted twice and looked up between. -/
theorem usernames_are_keys_deleted_twice :
    ∃ memory last results, buildUserInfos threeUsers 3 4 0 0 .initial = .ok (0, memory) ∧
      performCalls memory
        [.delete (some (numbered 1)), .get (some (numbered 1)), .delete (some (numbered 1))] =
        .ok (last, results) ∧
      results[0]? = some (.deleted 0) ∧ results[1]? = some (.found none) ∧
      results[2]? = some (.deleted (-enoent)) := by
  have succeeds : ¬ threeUsers.AllocationFails 3 := by
    rintro ⟨round, before | endless, fails⟩
    · have handed : ∀ round : Fin 3,
          threeUsers.kzalloc round (threeUsers.handedOut round) ≠ none := by decide
      exact handed ⟨round, before⟩ fails
    · exact absurd endless (by decide)
  obtain ⟨memory, address, built, -, -, answers⟩ :=
    usernames_are_keys (by decide) succeeds (by decide : 3 < 4)
  obtain ⟨last, results, users, performed, -, -, -, answered, -⟩ := answers
    [.delete (some (numbered 1)), .get (some (numbered 1)), .delete (some (numbered 1))]
  obtain ⟨first, atFirst, deletes, -⟩ := answered 0 _ rfl
  obtain ⟨second, atSecond, -, misses⟩ := answered 1 _ rfl
  obtain ⟨third, atThird, -, refuses⟩ := answered 2 _ rfl
  refine ⟨memory, last, results, built, performed, ?_, ?_, ?_⟩
  · rw [atFirst, deletes ⟨1, by decide⟩ ⟨rfl, by simp⟩]
  · rw [atSecond, misses (by simp [Held])]
  · rw [atThird, refuses (by simp [Held])]

end KernelSamples.DataStructure

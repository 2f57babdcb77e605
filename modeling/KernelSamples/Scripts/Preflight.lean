import KernelSamples.Lib.Decimal
import Mathlib.Data.List.DropRight
import Mathlib.Data.List.Lex
import Mathlib.Data.List.Sort

/-! The kernel version preflight of `kmod.mk`: the release of the target tree is cut to its
leading `A.B` and compared with the bounds of a sample by `sort -V`. -/

namespace KernelSamples.Scripts

open Lib

/-- `sort -V`, as it orders lines that are dotted decimals, the empty line among them. -/
structure VersionSort where
  sort : List (List Char) → List (List Char)
  orders : ∀ versions : List (List Nat), ∃ ordered : List (List Nat),
    sort (versions.map dotted) = ordered.map dotted ∧ ordered.Perm versions ∧
      ordered.Pairwise (· ≤ ·)

/-- What `$(shell ...)` makes of an output: it ends at a NUL, loses the newlines at its end
and has spaces for all others. -/
def shellOutput (output : List Char) : List Char :=
  ((output.takeWhile fun char => char ≠ '\x00').rdropWhile fun char => char = '\n').map
    fun char => if char = '\n' then ' ' else char

/-- The match of `^[0-9]+\.[0-9]+` in a line, as its two runs of digits. -/
def leadingVersion (line : List Char) : Option (List Char × List Char) :=
  match line.dropWhile Char.isDigit with
  | '.' :: rest =>
    if line.takeWhile Char.isDigit = [] ∨ rest.takeWhile Char.isDigit = [] then none
    else some (line.takeWhile Char.isDigit, rest.takeWhile Char.isDigit)
  | _ => none

/-- What `grep -oE` prints of the line. -/
def grepVersion (line : List Char) : List Char :=
  match leadingVersion line with
  | some (major, minor) => major ++ '.' :: minor ++ ['\n']
  | none => []

/-- `kernel.release` of the target tree, if it has one. -/
def targetRel (kernelRelease : Option (List Char)) : List Char :=
  shellOutput (kernelRelease.getD [])

/-- The release stands between single quotes on the command line. What the command prints
when the release ends them early is up to the shell. -/
def targetMm (brokenQuotes : List Char → List Char) (targetRel : List Char) : List Char :=
  shellOutput (if '\x27' ∈ targetRel then brokenQuotes targetRel else grepVersion targetRel)

/-- `printf '%s\n%s\n' first second | sort -V | head -n1` -/
def lowest (versionSort : VersionSort) (first second : List Char) : List Char :=
  shellOutput ((versionSort.sort [first, second]).head?.getD [] ++ ['\n'])

/-- `printf '%s\n%s\n' first second | sort -V | tail -n1` -/
def highest (versionSort : VersionSort) (first second : List Char) : List Char :=
  shellOutput ((versionSort.sort [first, second]).getLast?.getD [] ++ ['\n'])

inductive Refusal where
  | requiresAtLeast (sample minKver targetRel : List Char)
  | requiresAtMost (sample maxKver targetRel : List Char)
  deriving DecidableEq

def Refusal.message : Refusal → List Char
  | .requiresAtLeast sample minKver targetRel =>
    sample ++ " requires kernel >= ".toList ++ minKver ++ "; target kernel is ".toList ++ targetRel
  | .requiresAtMost sample maxKver targetRel =>
    sample ++ " requires kernel <= ".toList ++ maxKver ++
      " (feature removed in a later kernel); target kernel is ".toList ++ targetRel

/-- The version part of the preflight. `ifdef` asks whether a variable is non-empty. -/
def versionPreflight (versionSort : VersionSort) (brokenQuotes : List Char → List Char)
    (sample minKver maxKver : List Char) (kernelRelease : Option (List Char)) :
    Except Refusal Unit :=
  let rel := targetRel kernelRelease
  let mm := targetMm brokenQuotes rel
  if minKver ≠ [] ∧ lowest versionSort minKver mm ≠ minKver then
    .error (.requiresAtLeast sample minKver rel)
  else if maxKver ≠ [] ∧ highest versionSort maxKver mm ≠ maxKver then
    .error (.requiresAtMost sample maxKver rel)
  else .ok ()

/-- A bound as `sample.mk` writes it, empty where it is cleared. -/
def kverText : Option (Nat × Nat) → List Char
  | none => []
  | some (major, minor) => dotted [major, minor]

/-- The text begins with these two whole runs of digits and a dot between them. -/
structure Begins (text major minor : List Char) : Prop where
  majorDigits : ∀ char ∈ major, char.isDigit = true
  minorDigits : ∀ char ∈ minor, char.isDigit = true
  majorNonempty : major ≠ []
  minorNonempty : minor ≠ []
  starts : ∃ rest, text = major ++ '.' :: (minor ++ rest) ∧
    ∀ char ∈ rest.head?, char.isDigit = false

section Texts

variable {text major minor : List Char}

theorem takeWhile_append_stop {run rest : List Char} {accepts : Char → Bool}
    (all : ∀ char ∈ run, accepts char = true)
    (stop : ∀ char ∈ rest.head?, accepts char = false) :
    (run ++ rest).takeWhile accepts = run ∧ (run ++ rest).dropWhile accepts = rest := by
  rw [List.takeWhile_append_of_pos all, List.dropWhile_append_of_pos all]
  cases rest with
  | nil => simp
  | cons char rest =>
    have stopped := stop char rfl
    simp [stopped]

theorem leadingVersion_eq_some :
    leadingVersion text = some (major, minor) ↔ Begins text major minor := by
  constructor
  · intro found
    unfold leadingVersion at found
    split at found
    · rename_i rest remainder
      split at found
      · cases found
      · rename_i nonempty
        cases found
        have digits : ∀ line : List Char, ∀ char ∈ line.takeWhile Char.isDigit,
            char.isDigit = true := fun line char member => List.mem_takeWhile_imp member
        refine ⟨digits text, digits rest, fun empty => nonempty (.inl empty),
          fun empty => nonempty (.inr empty), rest.dropWhile Char.isDigit, ?_, ?_⟩
        · rw [List.takeWhile_append_dropWhile, ← remainder, List.takeWhile_append_dropWhile]
        · intro char member
          cases left : rest.dropWhile Char.isDigit with
          | nil => simp [left] at member
          | cons other others =>
            have stopped := List.head?_dropWhile_not Char.isDigit rest
            rw [left] at member stopped
            cases member
            simpa using stopped
    · cases found
  · rintro ⟨majorDigits, minorDigits, majorNonempty, minorNonempty, rest, rfl, stop⟩
    have dot : ∀ char ∈ ('.' :: (minor ++ rest)).head?, char.isDigit = false := by simp
    obtain ⟨took, dropped⟩ := takeWhile_append_stop majorDigits dot
    obtain ⟨tookMinor, -⟩ := takeWhile_append_stop minorDigits stop
    simp only [leadingVersion, took, dropped, tookMinor, majorNonempty, minorNonempty, or_self,
      if_false]

theorem takeWhile_concat_stop {accepts : Char → Bool} {last : Char}
    (stop : accepts last = false) (front : List Char) :
    (front ++ [last]).takeWhile accepts = front.takeWhile accepts := by
  induction front with
  | nil => simp [stop]
  | cons char rest ih => simp only [List.cons_append, List.takeWhile_cons, ih]

theorem takeWhile_takeWhile_weaker {accepts wider : Char → Bool}
    (implies : ∀ char, accepts char = true → wider char = true) (line : List Char) :
    (line.takeWhile wider).takeWhile accepts = line.takeWhile accepts := by
  induction line with
  | nil => rfl
  | cons char rest ih =>
    by_cases stops : accepts char = true
    · rw [List.takeWhile_cons_of_pos (implies char stops), List.takeWhile_cons_of_pos stops,
        List.takeWhile_cons_of_pos stops, ih]
    · rw [List.takeWhile_cons_of_neg stops]
      by_cases wide : wider char = true
      · rw [List.takeWhile_cons_of_pos wide, List.takeWhile_cons_of_neg stops]
      · rw [List.takeWhile_cons_of_neg wide, List.takeWhile_nil]

theorem dropWhile_takeWhile_weaker {accepts wider : Char → Bool}
    (implies : ∀ char, accepts char = true → wider char = true) (line : List Char) :
    (line.takeWhile wider).dropWhile accepts = (line.dropWhile accepts).takeWhile wider := by
  induction line with
  | nil => rfl
  | cons char rest ih =>
    by_cases stops : accepts char = true
    · rw [List.takeWhile_cons_of_pos (implies char stops), List.dropWhile_cons_of_pos stops,
        List.dropWhile_cons_of_pos stops, ih]
    · rw [List.dropWhile_cons_of_neg stops]
      by_cases wide : wider char = true
      · rw [List.takeWhile_cons_of_pos wide, List.dropWhile_cons_of_neg stops]
      · rw [List.takeWhile_cons_of_neg wide, List.dropWhile_nil]

/-- Characters that `$(shell ...)` keeps are read as before. -/
theorem takeWhile_shellOutput {accepts : Char → Bool} (newline : accepts '\n' = false)
    (space : accepts ' ' = false) (nul : accepts '\x00' = false) :
    (shellOutput text).takeWhile accepts = text.takeWhile accepts := by
  have mapped : ∀ line : List Char,
      (line.map fun char => if char = '\n' then ' ' else char).takeWhile accepts =
        line.takeWhile accepts := by
    intro line
    induction line with
    | nil => rfl
    | cons char rest ih =>
      by_cases broken : char = '\n'
      · simp [broken, newline, space]
      · simp [broken, List.takeWhile_cons, ih]
  have trimmed : ∀ line : List Char,
      (line.rdropWhile fun char => char = '\n').takeWhile accepts = line.takeWhile accepts := by
    intro line
    induction line using List.reverseRecOn with
    | nil => rfl
    | append_singleton front last ih =>
      rw [List.rdropWhile_concat]
      split
      · rename_i broken
        rw [ih, of_decide_eq_true broken, takeWhile_concat_stop newline]
      · rfl
  have kept : ∀ char, accepts char = true → decide (char ≠ '\x00') = true := by
    intro char accepted
    apply decide_eq_true
    rintro rfl
    rw [nul] at accepted
    cases accepted
  rw [shellOutput, mapped, trimmed, takeWhile_takeWhile_weaker kept]

def isVersionChar (char : Char) : Bool := char.isDigit || char = '.'

/-- A version is read off the digits and dots a line begins with. -/
theorem leadingVersion_takeWhile :
    leadingVersion (text.takeWhile isVersionChar) = leadingVersion text := by
  have implies : ∀ char : Char, char.isDigit = true → isVersionChar char = true := by
    intro char digit
    rw [isVersionChar, digit, Bool.true_or]
  rw [leadingVersion, leadingVersion, dropWhile_takeWhile_weaker implies,
    takeWhile_takeWhile_weaker implies]
  cases remainder : text.dropWhile Char.isDigit with
  | nil => rfl
  | cons char rest =>
    by_cases dot : char = '.'
    · subst dot
      rw [List.takeWhile_cons_of_pos (by decide)]
      simp only [takeWhile_takeWhile_weaker implies]
    · have stopped := List.head?_dropWhile_not Char.isDigit text
      rw [remainder] at stopped
      have rejected : ¬ isVersionChar char = true := by
        simpa [isVersionChar, dot] using stopped
      rw [List.takeWhile_cons_of_neg rejected]
      simp [dot]

theorem leadingVersion_shellOutput : leadingVersion (shellOutput text) = leadingVersion text := by
  rw [← leadingVersion_takeWhile, takeWhile_shellOutput (by decide) (by decide) (by decide),
    leadingVersion_takeWhile]

/-- A line of digits and dots comes out without its newline. -/
theorem shellOutput_line (version : ∀ char ∈ text, isVersionChar char = true) :
    shellOutput (text ++ ['\n']) = text := by
  have other : ∀ char ∈ text, ∀ special, isVersionChar special = false → char ≠ special := by
    rintro char member special rejected rfl
    rw [version char member] at rejected
    cases rejected
  have noNul : ∀ char ∈ text ++ ['\n'], decide (char ≠ '\x00') = true := by
    intro char member
    rcases List.mem_append.mp member with member | newline
    · exact decide_eq_true (other char member _ (by decide))
    · rw [List.mem_singleton.mp newline]
      rfl
  have noNewline : ∀ char ∈ text, (if char = '\n' then ' ' else char) = char := by
    intro char member
    exact if_neg (other char member _ (by decide))
  have ending : (text.rdropWhile fun char => decide (char = '\n')) = text := by
    rw [List.rdropWhile_eq_self_iff]
    intro nonempty last
    exact other _ (List.getLast_mem nonempty) _ (by decide) (of_decide_eq_true last)
  rw [shellOutput, List.takeWhile_eq_self_iff.mpr noNul, List.rdropWhile_concat_pos _ _ _ rfl,
    ending, List.map_congr_left noNewline, List.map_id']

theorem dotted_version (numbers : List Nat) :
    ∀ char ∈ dotted numbers, isVersionChar char = true := by
  intro char member
  simpa [isVersionChar] using mem_dotted member

end Texts

section Sorting

variable {versionSort : VersionSort}

/-- Two versions come out with the smaller first. -/
theorem sort_pair (first second : List Nat) :
    versionSort.sort [dotted first, dotted second] =
      if first ≤ second then [dotted first, dotted second] else [dotted second, dotted first] := by
  obtain ⟨ordered, sorted, perm, pairwise⟩ := versionSort.orders [first, second]
  rw [List.map_cons, List.map_singleton] at sorted
  rw [sorted]
  by_cases inOrder : first ≤ second
  · have same : ordered = [first, second] :=
      perm.eq_of_pairwise' pairwise (by simpa using inOrder)
    rw [if_pos inOrder, same]
    rfl
  · have same : ordered = [second, first] :=
      (perm.trans (.swap second first [])).eq_of_pairwise' pairwise
        (by simpa using le_of_not_ge inOrder)
    rw [if_neg inOrder, same]
    rfl

/-- The lower of two versions is the first one when it is not above the second. -/
theorem lowest_eq_iff (first second : List Nat) :
    lowest versionSort (dotted first) (dotted second) = dotted first ↔ first ≤ second := by
  rw [lowest, sort_pair]
  by_cases inOrder : first ≤ second
  · rw [if_pos inOrder, List.head?_cons, Option.getD_some, shellOutput_line (dotted_version first)]
    exact iff_of_true rfl inOrder
  · rw [if_neg inOrder, List.head?_cons, Option.getD_some,
      shellOutput_line (dotted_version second)]
    refine iff_of_false ?_ inOrder
    intro same
    exact inOrder (dotted_injective same).ge

theorem highest_eq_iff (first second : List Nat) :
    highest versionSort (dotted first) (dotted second) = dotted first ↔ second ≤ first := by
  rw [highest, sort_pair]
  by_cases inOrder : first ≤ second
  · rw [if_pos inOrder]
    change shellOutput (dotted second ++ ['\n']) = dotted first ↔ second ≤ first
    rw [shellOutput_line (dotted_version second)]
    constructor
    · intro same
      exact (dotted_injective same).le
    · intro below
      rw [le_antisymm below inOrder]
  · rw [if_neg inOrder]
    change shellOutput (dotted first ++ ['\n']) = dotted first ↔ second ≤ first
    rw [shellOutput_line (dotted_version first)]
    exact iff_of_true rfl (le_of_not_ge inOrder)

end Sorting

/-- `A.B` is at most `C.D`, as pairs of integers. -/
def KverLe (low high : Nat × Nat) : Prop := low.1 < high.1 ∨ low.1 = high.1 ∧ low.2 ≤ high.2

theorem kverLe_iff (low high : Nat × Nat) :
    [low.1, low.2] ≤ [high.1, high.2] ↔ KverLe low high := by
  rw [← not_lt, List.cons_lt_cons_iff, List.cons_lt_cons_iff, KverLe]
  simp
  omega

/-- The release begins with a version within the bounds that are set. -/
def Fits (kernelRelease : Option (List Char)) (minKver maxKver : Option (Nat × Nat)) : Prop :=
  ∃ text major minor, kernelRelease = some text ∧ Begins text major minor ∧
    (∀ bound, minKver = some bound →
      KverLe bound (decimalValue major, decimalValue minor)) ∧
    ∀ bound, maxKver = some bound → KverLe (decimalValue major, decimalValue minor) bound

section Gate

variable {versionSort : VersionSort} {brokenQuotes : List Char → List Char}
variable {sample text major minor : List Char} {minKver maxKver : Option (Nat × Nat)}
variable {kernelRelease : Option (List Char)}

theorem kverText_some_ne_nil (bound : Nat × Nat) : kverText (some bound) ≠ [] := by
  intro empty
  have same : [bound.1, bound.2] = [] := dotted_injective empty
  cases same

theorem mem_shellOutput {char : Char} (member : char ∈ shellOutput text) :
    char ∈ text ∨ char = ' ' := by
  obtain ⟨original, kept, rfl⟩ := List.mem_map.mp member
  by_cases newline : original = '\n'
  · exact .inr (if_pos newline)
  · rw [if_neg newline]
    exact .inl (List.takeWhile_subset _ ((List.rdropWhile_prefix _ _).subset kept))

/-- The two comparisons, for whatever version was extracted, the empty one included. -/
theorem versionPreflight_ok_iff {version : List Nat}
    (extracted : targetMm brokenQuotes (targetRel kernelRelease) = dotted version) :
    versionPreflight versionSort brokenQuotes sample (kverText minKver) (kverText maxKver)
        kernelRelease = .ok () ↔
      (∀ bound, minKver = some bound → [bound.1, bound.2] ≤ version) ∧
      ∀ bound, maxKver = some bound → version ≤ [bound.1, bound.2] := by
  have lower : (kverText minKver ≠ [] ∧
      lowest versionSort (kverText minKver) (dotted version) ≠ kverText minKver) ↔
      ¬ ∀ bound, minKver = some bound → [bound.1, bound.2] ≤ version := by
    cases minKver with
    | none => simp [kverText]
    | some bound =>
      have compared : lowest versionSort (kverText (some bound)) (dotted version) =
          kverText (some bound) ↔ [bound.1, bound.2] ≤ version := lowest_eq_iff _ _
      simp [kverText_some_ne_nil, compared]
  have upper : (kverText maxKver ≠ [] ∧
      highest versionSort (kverText maxKver) (dotted version) ≠ kverText maxKver) ↔
      ¬ ∀ bound, maxKver = some bound → version ≤ [bound.1, bound.2] := by
    cases maxKver with
    | none => simp [kverText]
    | some bound =>
      have compared : highest versionSort (kverText (some bound)) (dotted version) =
          kverText (some bound) ↔ version ≤ [bound.1, bound.2] := highest_eq_iff _ _
      simp [kverText_some_ne_nil, compared]
  simp only [versionPreflight, extracted]
  by_cases low : ∀ bound, minKver = some bound → [bound.1, bound.2] ≤ version
  · rw [if_neg (lower.not.mpr (not_not.mpr low))]
    by_cases high : ∀ bound, maxKver = some bound → version ≤ [bound.1, bound.2]
    · rw [if_neg (upper.not.mpr (not_not.mpr high))]
      exact iff_of_true rfl ⟨low, high⟩
    · rw [if_pos (upper.mpr high)]
      exact iff_of_false (by simp) fun both => high both.2
  · rw [if_pos (lower.mpr low)]
    exact iff_of_false (by simp) fun both => low both.1

/-- What is extracted of a release without a quote: its version, or nothing. -/
theorem targetMm_plain (quoteFree : '\x27' ∉ text) :
    targetMm brokenQuotes (targetRel (some text)) =
      match leadingVersion text with
      | some (major, minor) => major ++ '.' :: minor
      | none => [] := by
  have plain : '\x27' ∉ targetRel (some text) := by
    intro member
    rcases mem_shellOutput member with inText | space
    · exact quoteFree inText
    · simp at space
  rw [targetMm, if_neg plain, grepVersion, targetRel, Option.getD_some, leadingVersion_shellOutput]
  cases found : leadingVersion text with
  | none => rfl
  | some version =>
    obtain ⟨majorDigits, minorDigits, -, -, -⟩ := leadingVersion_eq_some.mp found
    apply shellOutput_line
    intro char member
    rcases List.mem_append.mp member with inMajor | rest
    · simp [isVersionChar, majorDigits char inMajor]
    · rcases List.mem_cons.mp rest with rfl | inMinor
      · rfl
      · simp [isVersionChar, minorDigits char inMinor]

theorem fits_iff (begins : Begins text major minor) :
    Fits (some text) minKver maxKver ↔
      (∀ bound, minKver = some bound →
        KverLe bound (decimalValue major, decimalValue minor)) ∧
      ∀ bound, maxKver = some bound → KverLe (decimalValue major, decimalValue minor) bound := by
  constructor
  · rintro ⟨other, otherMajor, otherMinor, same, otherBegins, bounds⟩
    cases same
    have found := leadingVersion_eq_some.mpr begins
    rw [leadingVersion_eq_some.mpr otherBegins] at found
    cases found
    exact bounds
  · intro bounds
    exact ⟨text, major, minor, rfl, begins, bounds⟩

/-- Nothing extracted sorts before every lower bound and below every upper bound. -/
theorem versionPreflight_unversioned
    (extracted : targetMm brokenQuotes (targetRel kernelRelease) = []) :
    versionPreflight versionSort brokenQuotes sample (kverText minKver) (kverText maxKver)
        kernelRelease = .ok () ↔ minKver = none := by
  have empty : targetMm brokenQuotes (targetRel kernelRelease) = dotted [] := extracted
  rw [versionPreflight_ok_iff empty]
  constructor
  · rintro ⟨low, -⟩
    cases minKver with
    | none => rfl
    | some bound => exact absurd (low bound rfl) (not_le.mpr (List.nil_lt_cons _ _))
  · rintro rfl
    refine ⟨by simp, ?_⟩
    intro bound _
    exact (List.nil_lt_cons _ _).le

theorem versionPreflight_versioned (begins : Begins text major minor)
    (quoteFree : '\x27' ∉ text) (canonicalMajor : Canonical major)
    (canonicalMinor : Canonical minor) :
    versionPreflight versionSort brokenQuotes sample (kverText minKver) (kverText maxKver)
        (some text) = .ok () ↔ Fits (some text) minKver maxKver := by
  have extracted : targetMm brokenQuotes (targetRel (some text)) =
      dotted [decimalValue major, decimalValue minor] := by
    rw [targetMm_plain quoteFree, leadingVersion_eq_some.mpr begins]
    simp [dotted, List.intercalate_cons_cons, toDigits_decimalValue canonicalMajor,
      toDigits_decimalValue canonicalMinor]
  rw [versionPreflight_ok_iff extracted, fits_iff begins]
  have pairs := kverLe_iff (decimalValue major, decimalValue minor)
  have pairs' := fun bound => kverLe_iff bound (decimalValue major, decimalValue minor)
  simp only at pairs pairs'
  simp only [pairs, pairs']

/-- For any release without a quote: the gate passes exactly the releases that begin with a
version within the bounds, if and only if there is a lower bound or the release begins with
a version at all. -/
theorem version_preflight_exact_iff
    (quoteFree : ∀ text, kernelRelease = some text → '\x27' ∉ text)
    (canonical : ∀ text major minor, kernelRelease = some text → Begins text major minor →
      Canonical major ∧ Canonical minor) :
    ((versionPreflight versionSort brokenQuotes sample (kverText minKver) (kverText maxKver)
        kernelRelease = .ok () ↔ Fits kernelRelease minKver maxKver) ↔
      (minKver ≠ none ∨
        ∃ text major minor, kernelRelease = some text ∧ Begins text major minor)) := by
  by_cases versioned : ∃ text major minor, kernelRelease = some text ∧ Begins text major minor
  · obtain ⟨text, major, minor, rfl, begins⟩ := versioned
    obtain ⟨canonicalMajor, canonicalMinor⟩ := canonical text major minor rfl begins
    have agrees : versionPreflight versionSort brokenQuotes sample (kverText minKver)
        (kverText maxKver) (some text) = .ok () ↔ Fits (some text) minKver maxKver :=
      versionPreflight_versioned begins (quoteFree text rfl) canonicalMajor canonicalMinor
    exact iff_of_true agrees (.inr ⟨text, major, minor, rfl, begins⟩)
  · have refused : ¬ Fits kernelRelease minKver maxKver := by
      rintro ⟨text, major, minor, same, begins, -⟩
      exact versioned ⟨text, major, minor, same, begins⟩
    have extracted : targetMm brokenQuotes (targetRel kernelRelease) = [] := by
      cases kernelRelease with
      | none => rfl
      | some text =>
        rw [targetMm_plain (quoteFree text rfl)]
        cases found : leadingVersion text with
        | none => rfl
        | some version =>
          exact absurd ⟨text, _, _, rfl, leadingVersion_eq_some.mp found⟩ versioned
    rw [versionPreflight_unversioned extracted, iff_false_intro refused,
      iff_false_intro versioned, iff_false, or_false]

end Gate

/-- A sort that reads every line as the numbers between its dots. -/
def sortByComponents : VersionSort where
  sort lines := lines.mergeSort fun first second => components first ≤ components second
  orders versions := by
    refine ⟨versions.mergeSort fun first second => first ≤ second, ?_, List.mergeSort_perm _ _,
      List.pairwise_mergeSort' _ versions⟩
    refine (List.map_mergeSort ?_).symm
    intro first _ second _
    rw [components_dotted, components_dotted]

/-- Without a lower bound a tree that has no release at all passes an upper bound. -/
theorem missing_release_passes :
    versionPreflight sortByComponents id ['s'] (kverText none) (kverText (some (6, 7))) none =
        .ok () ∧
      ¬ Fits none none (some (6, 7)) := by
  constructor
  · exact (versionPreflight_unversioned (by decide +kernel)).mpr rfl
  · rintro ⟨text, major, minor, present, -⟩
    cases present

theorem version_preflight_exact_iff_suffixed :
    versionPreflight sortByComponents id ['s'] (kverText (some (6, 9))) (kverText (some (6, 12)))
        (some ['6', '.', '1', '2', '.', '0', '-', 'r', 'c', '1', '\n']) = .ok () ↔
      Fits (some ['6', '.', '1', '2', '.', '0', '-', 'r', 'c', '1', '\n']) (some (6, 9))
        (some (6, 12)) := by
  refine (version_preflight_exact_iff ?_ ?_).mpr (.inl (by simp))
  · intro text present
    cases present
    simp
  · intro text major minor present begins
    cases present
    have found := leadingVersion_eq_some.mpr begins
    have known : leadingVersion ['6', '.', '1', '2', '.', '0', '-', 'r', 'c', '1', '\n'] =
        some (['6'], ['1', '2']) := by decide +kernel
    rw [known] at found
    cases found
    exact ⟨⟨by simp, by simp, by simp⟩, ⟨by simp, by simp, by simp⟩⟩

end KernelSamples.Scripts

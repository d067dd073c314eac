-- SUMMARY: Cutting a text at the first separator, after a fixed beginning, and into lines.

/-!
# Cuts

The three ways in which the formats of the kernel are cut: at the first
occurrence of a separator (`key: value`), behind a fixed beginning (`card0`),
and into lines. Lines are cut for any type of element, so one definition serves
characters and bytes: a line of a byte stream is cut before it is known to be
text.
-/

namespace DrmUsage.Text

/-! ## At the first separator -/

/-- What stands before and what stands behind the first `sep`; nothing if there
is none. -/
def splitFirst (sep : Char) : List Char → Option (List Char × List Char)
  | [] => none
  | c :: cs =>
    if c = sep then some ([], cs)
    else (splitFirst sep cs).map fun (before, behind) => (c :: before, behind)

/-- The cut is the only way to write the text with a first part free of `sep`. -/
theorem splitFirst_eq_some_iff {sep : Char} {cs before behind : List Char} :
    splitFirst sep cs = some (before, behind) ↔
      cs = before ++ sep :: behind ∧ sep ∉ before := by
  induction cs generalizing before with
  | nil => simp [splitFirst]
  | cons c cs ih =>
    by_cases h : c = sep
    · subst h
      cases before with
      | nil => simp [splitFirst, eq_comm]
      | cons b bs => simp [splitFirst]; grind
    · cases before with
      | nil => simp [splitFirst, h]
      | cons b bs => simp [splitFirst, h, ih]; grind

/-! ## Behind a fixed beginning -/

/-- What stands behind `start`, if the text begins with it. -/
def afterStart? (start s : String) : Option String :=
  if start.toList.isPrefixOf s.toList then
    some (String.ofList (s.toList.drop start.length))
  else none

/-- Whether the text begins with `start`. -/
def startsWith (start s : String) : Bool := (afterStart? start s).isSome

/-- The text is then the beginning and what stands behind it. -/
theorem afterStart?_eq_some_iff {start s rest : String} :
    afterStart? start s = some rest ↔ s.toList = start.toList ++ rest.toList := by
  simp only [afterStart?]
  by_cases h : start.toList <+: s.toList
  · obtain ⟨t, ht⟩ := h
    have hp : start.toList.isPrefixOf s.toList = true := by
      rw [List.isPrefixOf_iff_prefix]; exact ⟨t, ht⟩
    rw [if_pos hp, ← ht]
    simp only [Option.some.injEq, List.append_cancel_left_eq]
    rw [← String.length_toList, List.drop_left]
    exact ⟨fun e => by rw [← e]; simp, fun e => by rw [e]; simp⟩
  · have hp : ¬ start.toList.isPrefixOf s.toList = true := by
      rwa [List.isPrefixOf_iff_prefix]
    simp only [if_neg hp, reduceCtorEq, false_iff]
    exact fun e => h ⟨rest.toList, e.symm⟩

/-! ## Into lines -/

/-- The lines that an `eol` closes, without it, and what follows the last one. -/
def closedLines {α : Type} [DecidableEq α] (eol : α) : List α → List (List α) × List α
  | [] => ([], [])
  | c :: cs =>
    let (closed, rest) := closedLines eol cs
    if c = eol then ([] :: closed, rest)
    else match closed with
      | [] => ([], c :: rest)
      | line :: later => ((c :: line) :: later, rest)

/-- The lines of a finished text: what follows the last `eol` is a line too,
unless it is empty. -/
def lines {α : Type} [DecidableEq α] (eol : α) (cs : List α) : List (List α) :=
  let (closed, rest) := closedLines eol cs
  if rest.isEmpty then closed else closed ++ [rest]

/-- The lines of a text. A line ends at a newline; an unterminated last line is
a line if it is not empty. -/
def linesOf (text : String) : List String := (lines '\n' text.toList).map String.ofList

@[simp] theorem lines_nil {α : Type} [DecidableEq α] (eol : α) : lines eol [] = [] := rfl

/-- A closed line in front of a text is its first line. -/
theorem closedLines_append {α : Type} [DecidableEq α] {eol : α} {line : List α}
    (h : eol ∉ line) (cs : List α) :
    closedLines eol (line ++ eol :: cs) =
      (line :: (closedLines eol cs).1, (closedLines eol cs).2) := by
  induction line with
  | nil => simp [closedLines]
  | cons c line ih =>
    have hc : c ≠ eol := fun e => h (by simp [e])
    simp [closedLines, hc, ih (fun m => h (by simp [m]))]

/-- A text without `eol` closes no line. -/
theorem closedLines_of_not_mem {α : Type} [DecidableEq α] {eol : α} {cs : List α}
    (h : eol ∉ cs) : closedLines eol cs = ([], cs) := by
  induction cs with
  | nil => rfl
  | cons c cs ih =>
    have hc : c ≠ eol := fun e => h (by simp [e])
    simp [closedLines, hc, ih (fun m => h (by simp [m]))]

theorem lines_append {α : Type} [DecidableEq α] {eol : α} {line : List α}
    (h : eol ∉ line) (cs : List α) :
    lines eol (line ++ eol :: cs) = line :: lines eol cs := by
  simp only [lines, closedLines_append h]
  split <;> simp_all

end DrmUsage.Text

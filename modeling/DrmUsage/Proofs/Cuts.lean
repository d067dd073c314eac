-- SUMMARY: Cuts of a text told as a whole: at the first separator, between all of them, and without the blanks at both ends.
import Mathlib.Data.List.DropRight
import DrmUsage.Text.Blank
import DrmUsage.Text.Cut

/-!
# Cuts told as a whole

The formats of the kernel are cut character by character. What comes of it can be
said of the text at once: a first part is the longest beginning without the
separator, lines are what stands between newlines, and a trimmed text is the one
that has no blank at either end and blanks around it (`Text.trimChars_eq_iff`).
Of what is read from several pieces, the last one is told by the pieces behind it
(`Text.getLast?_filterMap_eq_some_iff`).
-/

namespace DrmUsage

namespace Text

/-! ## Pieces -/

/-- The last thing that is read from some pieces is read from one of them, and nothing from those
behind it. -/
theorem getLast?_filterMap_eq_some_iff {α β : Type} {read : α → Option β} {pieces : List α}
    {b : β} :
    (pieces.filterMap read).getLast? = some b ↔
      ∃ before a after, pieces = before ++ a :: after ∧ read a = some b ∧
        ∀ later ∈ after, read later = none := by
  rw [List.getLast?_filterMap, List.findSome?_eq_some_iff]
  constructor
  · rintro ⟨after, a, before, hsplit, hread, hnone⟩
    refine ⟨before.reverse, a, after.reverse, ?_, hread, ?_⟩
    · simpa using List.reverse_eq_iff.mp hsplit
    · intro later hlater
      exact hnone later (List.mem_reverse.mp hlater)
  · rintro ⟨before, a, after, rfl, hread, hnone⟩
    refine ⟨after.reverse, a, before.reverse, by simp, hread, ?_⟩
    intro later hlater
    exact hnone later (List.mem_reverse.mp hlater)

/-! ## Separators -/

/-- The first separator ends the longest beginning without it. -/
theorem splitFirst_eq (sep : Char) (cs : List Char) :
    splitFirst sep cs =
      if sep ∈ cs then some (cs.takeWhile (· ≠ sep), (cs.dropWhile (· ≠ sep)).tail) else none := by
  induction cs with
  | nil => rfl
  | cons c cs ih =>
      by_cases h : c = sep
      · simp [splitFirst, h]
      · by_cases hm : sep ∈ cs <;> simp [splitFirst, h, Ne.symm h, ih, hm]

/-- What stands at the end of a text stands at the end of what is behind a separator. -/
theorem splitFirst_concat {sep c : Char} (h : c ≠ sep) (cs : List Char) :
    splitFirst sep (cs ++ [c]) =
      (splitFirst sep cs).map fun (before, behind) => (before, behind ++ [c]) := by
  induction cs with
  | nil => simp [splitFirst, h]
  | cons d cs ih =>
      by_cases hd : d = sep
      · simp [splitFirst, hd]
      · simp only [List.cons_append, splitFirst, hd, if_false, ih, Option.map_map]
        rfl

/-- Between separators stand the closed lines and what follows the last one. -/
theorem splitOn_eq_closedLines {α : Type} [DecidableEq α] (eol : α) (cs : List α) :
    cs.splitOn eol = (closedLines eol cs).1 ++ [(closedLines eol cs).2] := by
  induction cs with
  | nil => exact List.splitOn_nil eol
  | cons c cs ih =>
      unfold List.splitOn at ih ⊢
      rw [List.splitOnP_cons_eq_if_modifyHead, ih]
      by_cases h : c = eol
      · simp [closedLines, h]
      · cases hl : (closedLines eol cs).1 <;> simp [closedLines, h, hl]

/-- Whoever passes empty lines over sees the lines between separators. -/
theorem filterMap_splitOn {α β : Type} [DecidableEq α] {f : List α → Option β} (hf : f [] = none)
    (eol : α) (cs : List α) : (cs.splitOn eol).filterMap f = (lines eol cs).filterMap f := by
  rw [splitOn_eq_closedLines]
  unfold lines
  cases hr : (closedLines eol cs).2 <;> simp [hr, hf]

/-! ## Blanks -/

/-- A blank at the end is dropped. -/
theorem trimChars_concat_of_isBlank {c : Char} (h : isBlank c = true) (cs : List Char) :
    trimChars (cs ++ [c]) = trimChars cs := by
  have hend : ∀ xs : List Char, trimEnd (xs ++ [c]) = trimEnd xs := by
    intro xs
    simp only [trimEnd, List.reverse_concat, List.dropWhile_cons_of_pos h]
  unfold trimChars trimStart
  rw [List.dropWhile_append]
  split
  · rename_i hblank
    rw [List.isEmpty_iff.mp hblank, List.dropWhile_cons_of_pos h]
    rfl
  · exact hend _

/-- Some characters have no blank at either end. -/
structure IsBare (cs : List Char) : Prop where
  first : ∀ c ∈ cs.head?, isBlank c = false
  last : ∀ c ∈ cs.getLast?, isBlank c = false

theorem isBare_iff {cs : List Char} :
    IsBare cs ↔ cs.head?.all (!isBlank ·) = true ∧ cs.getLast?.all (!isBlank ·) = true := by
  simp only [Option.all_eq_true, Bool.not_eq_true']
  exact ⟨fun ⟨hfirst, hlast⟩ => ⟨hfirst, hlast⟩, fun ⟨hfirst, hlast⟩ => ⟨hfirst, hlast⟩⟩

instance (cs : List Char) : Decidable (IsBare cs) := decidable_of_iff _ isBare_iff.symm

/-- Nothing is trimmed from a text without blanks at its ends. -/
theorem IsBare.trimChars_eq {cs : List Char} (h : IsBare cs) : trimChars cs = cs := by
  have hstart : trimStart cs = cs := by
    cases cs with
    | nil => rfl
    | cons c later =>
        exact List.dropWhile_cons_of_neg (Bool.eq_false_iff.mp (h.first c rfl))
  unfold trimChars
  rw [hstart]
  rcases List.eq_nil_or_concat' cs with rfl | ⟨front, c, rfl⟩
  · rfl
  · have hc : ¬ isBlank c = true :=
      Bool.eq_false_iff.mp (h.last c List.getLast?_concat)
    unfold trimEnd
    rw [List.reverse_concat, List.dropWhile_cons_of_neg hc, ← List.reverse_concat,
      List.reverse_reverse]

theorem isBare_of_isBlank {cs : List Char} (h : ∀ c ∈ cs, isBlank c = false) : IsBare cs where
  first := fun c hc => h c (List.mem_of_mem_head? hc)
  last := fun c hc => h c (List.mem_of_mem_getLast? hc)

/-- Whatever stands between two texts without blanks at their ends, none comes to the ends. -/
theorem IsBare.append {xs ys : List Char} (hx : IsBare xs) (hy : IsBare ys) (hxs : xs ≠ [])
    (hys : ys ≠ []) (between : List Char) : IsBare (xs ++ between ++ ys) where
  first := by
    rw [List.append_assoc, List.head?_append_of_ne_nil xs hxs]
    exact hx.first
  last := by
    rw [List.getLast?_append_of_ne_nil _ hys]
    exact hy.last

theorem head?_trimStart {cs : List Char} {c : Char} (h : (trimStart cs).head? = some c) :
    isBlank c = false := by
  have hnot := List.head?_dropWhile_not isBlank cs
  unfold trimStart at h
  rw [h] at hnot
  exact hnot

/-- A trimmed text has no blanks at its ends. -/
theorem isBare_trimChars (cs : List Char) : IsBare (trimChars cs) where
  first := by
    intro c hc
    obtain ⟨later, hlater⟩ := List.rdropWhile_prefix isBlank (trimStart cs)
    have hfirst : (trimStart cs).head? = some c := by
      rw [← hlater, List.head?_append]
      change (trimChars cs).head?.or later.head? = some c
      rw [Option.mem_def.mp hc, Option.some_or]
    exact head?_trimStart hfirst
  last := by
    intro c hc
    unfold trimChars trimEnd at hc
    rw [List.getLast?_reverse] at hc
    exact head?_trimStart hc

/-- Some characters are a text with blanks before and behind it. -/
def BlanksAround (text cs : List Char) : Prop :=
  ∃ before after, cs = before ++ text ++ after ∧
    (∀ c ∈ before, isBlank c = true) ∧ ∀ c ∈ after, isBlank c = true

/-- Whatever is trimmed is found again as blanks at the ends. -/
theorem blanksAround_trimChars (cs : List Char) : BlanksAround (trimChars cs) cs := by
  refine ⟨cs.takeWhile isBlank, (trimStart cs).rtakeWhile isBlank, ?_,
    fun c hc => List.mem_takeWhile_imp hc, fun c hc => List.mem_rtakeWhile_imp hc⟩
  have hend : trimChars cs ++ (trimStart cs).rtakeWhile isBlank = trimStart cs :=
    List.rdropWhile_append_rtakeWhile
  rw [List.append_assoc, hend]
  exact List.takeWhile_append_dropWhile.symm

theorem trimChars_append_of_isBlank {after : List Char} (h : ∀ c ∈ after, isBlank c = true)
    (cs : List Char) : trimChars (cs ++ after) = trimChars cs := by
  induction after using List.reverseRecOn with
  | nil => rw [List.append_nil]
  | append_singleton after c ih =>
      have hc := h c (List.mem_append_right _ (List.mem_singleton_self c))
      rw [← List.append_assoc, trimChars_concat_of_isBlank hc]
      exact ih fun d hd => h d (List.mem_append_left _ hd)

theorem BlanksAround.trimChars_eq {text cs : List Char} (h : BlanksAround text cs) :
    trimChars cs = trimChars text := by
  obtain ⟨before, after, rfl, hbefore, hafter⟩ := h
  rw [trimChars_append_of_isBlank hafter]
  unfold trimChars trimStart
  rw [List.dropWhile_append_of_pos hbefore]

/-- Trimming takes away the blanks at both ends, all of them and nothing else. -/
theorem trimChars_eq_iff {text cs : List Char} :
    trimChars cs = text ↔ IsBare text ∧ BlanksAround text cs := by
  constructor
  · rintro rfl
    exact ⟨isBare_trimChars cs, blanksAround_trimChars cs⟩
  · rintro ⟨hbare, haround⟩
    rw [haround.trimChars_eq, hbare.trimChars_eq]

end Text

end DrmUsage

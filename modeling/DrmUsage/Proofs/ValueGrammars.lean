-- SUMMARY: Grammars of the values that hold a word, busy times and the numbers in attribute files, and the words in print that they derive.
import DrmUsage.Proofs.Numerals
import DrmUsage.Record

/-!
# Grammars of values

Two kinds of values hold a word of 64 bits. A busy time is decimal digits and its
unit, with one space between them and nothing else. The number in an attribute
file stands amid blanks, is in base sixteen behind a mark and in base ten without
one, and may have a plus sign in front of its digits. What is read of a value is
the number that its grammar derives, if it fits a word, and nothing is read of any
other value (`Record.busyTime?_grammar`, `Text.number?_grammar`). An attribute
file may hold a word as it is printed in either base, in letters of either case:
the digits of a number write it, however each of them is drawn
(`Text.writtenIn_map_toDigits`).
-/

namespace DrmUsage

/-! ## Words as numbers -/

section Words

variable {read : Option UInt64} {Says : Nat → Prop}

/-- What is read as words is the numbers that fit one. -/
theorem map_toNat_eq_some_iff (h : ∀ word, read = some word ↔ Says word.toNat) (n : Nat) :
    read.map UInt64.toNat = some n ↔ n < 2 ^ 64 ∧ Says n := by
  rw [Option.map_eq_some_iff]
  constructor
  · rintro ⟨word, hword, rfl⟩
    exact ⟨word.toNat_lt, (h word).mp hword⟩
  · rintro ⟨hsmall, hsays⟩
    have hn : (UInt64.ofNat n).toNat = n := UInt64.toNat_ofNat_of_lt' hsmall
    exact ⟨UInt64.ofNat n, (h _).mpr (hn.symm ▸ hsays), hn⟩

/-- Where no word is read, there is no number or one beyond the words. -/
theorem eq_none_iff_le (h : ∀ word, read = some word ↔ Says word.toNat) :
    read = none ↔ ∀ n, Says n → 2 ^ 64 ≤ n := by
  rw [← Option.map_eq_none_iff (f := UInt64.toNat), Option.eq_none_iff_forall_ne_some]
  simp only [ne_eq, map_toNat_eq_some_iff h, not_and', not_lt]

end Words

/-! ## Busy times -/

namespace Record

/-- A value is the text of a busy time: one or more decimal digits, one space and the unit. -/
def IsBusyTime (value : String) (n : Nat) : Prop :=
  ∃ digits, value = digits ++ " ns" ∧ IsDecimal digits ∧ decimalValue digits = n

theorem busyTime?_eq_some_iff {value : String} {n : UInt64} :
    busyTime? value = some n ↔ IsBusyTime value n.toNat := by
  unfold busyTime? IsBusyTime
  rw [Option.bind_eq_some_iff]
  constructor
  · rintro ⟨⟨number, unit⟩, hcut, hread⟩
    dsimp only at hread
    split at hread
    · rename_i hform
      obtain ⟨rfl, hdigits⟩ := hform
      obtain ⟨hvalue, -⟩ := Text.splitFirst_eq_some_iff.mp hcut
      -- No digits at all pass the test for digits, but they are no numeral.
      have hnumber : number ≠ [] := by
        rintro rfl
        exact nomatch hread
      have hdecimal : IsDecimal (String.ofList number) :=
        ⟨fun hempty => hnumber (String.ofList_eq_empty_iff.mp hempty),
          by rwa [String.toList_ofList, ← List.all_eq_true]⟩
      refine ⟨String.ofList number, String.toList_inj.mp ?_, hdecimal, ?_⟩
      · rw [hvalue, String.toList_append, String.toList_ofList]
        rfl
      · rw [← Text.uint64?_eq_some_iff hdecimal, Text.uint64?, String.toList_ofList]
        exact hread
    · exact nomatch hread
  · rintro ⟨digits, rfl, hdecimal, hn⟩
    have hspace : ' ' ∉ digits.toList := fun hmem =>
      absurd (hdecimal.2 ' ' hmem) (by decide)
    refine ⟨(digits.toList, ['n', 's']), Text.splitFirst_eq_some_iff.mpr ⟨?_, hspace⟩, ?_⟩
    · rw [String.toList_append]
      rfl
    · dsimp only
      rw [if_pos ⟨rfl, List.all_eq_true.mpr hdecimal.2⟩]
      exact (Text.uint64?_eq_some_iff hdecimal).mpr hn

/-- The number that is read of a value is the one of which it is the text, if that fits a word.
Nothing is read of any other value. -/
theorem busyTime?_grammar (value : String) :
    -- what is read
    (∀ n : Nat, (busyTime? value).map UInt64.toNat = some n ↔ n < 2 ^ 64 ∧ IsBusyTime value n) ∧
    -- what is not
    (busyTime? value = none ↔ ∀ n, IsBusyTime value n → 2 ^ 64 ≤ n) :=
  have hwords (word : UInt64) := busyTime?_eq_some_iff (n := word)
  ⟨map_toNat_eq_some_iff hwords, eq_none_iff_le hwords⟩

example : busyTime? "0018446744073709551615 ns" = some 18446744073709551615 := by decide +kernel

example :
    ∀ value ∈ ["18446744073709551616 ns", "+1 ns", "-1 ns", " 1 ns", "1  ns", "1\tns",
      "1\u00a0ns", "1 ns ", "1ns", "1 us", " ns", "ns", "\u0661 ns"],
      busyTime? value = none := by
  decide +kernel

end Record

namespace Text

/-! ## Numbers in attribute files -/

/-- The numerals of an attribute file and the numbers that they are. -/
inductive Numeral : List Char → Nat → Prop
  /-- Behind a mark: a plus sign or none, and hexadecimal digits of either case. -/
  | hexadecimal {digits : List Char} {n : Nat} (mark : Char) (hmark : mark = 'x' ∨ mark = 'X')
      (hwritten : WrittenUnsigned 16 digits n) : Numeral ('0' :: mark :: digits) n
  /-- Without a mark: a plus sign or none, and decimal digits. -/
  | decimal {digits : List Char} {n : Nat} (hlower : ¬ ['0', 'x'] <+: digits)
      (hupper : ¬ ['0', 'X'] <+: digits) (hwritten : WrittenUnsigned 10 digits n) :
      Numeral digits n

theorem Numeral.of_writtenUnsigned {digits : List Char} {n : Nat}
    (h : WrittenUnsigned 10 digits n) : Numeral digits n := by
  refine .decimal ?_ ?_ h
  · rintro ⟨rest, rfl⟩
    exact not_writtenUnsigned_of_mark (.inl rfl) h
  · rintro ⟨rest, rfl⟩
    exact not_writtenUnsigned_of_mark (.inr rfl) h

theorem saysNumber_iff_numeral {s : String} {n : Nat} :
    SaysNumber s n ↔ Numeral (trimChars s.toList) n := by
  unfold SaysNumber
  constructor
  · rintro (⟨digits, hmarked, hwritten⟩ | hwritten)
    · rcases hmarked with hmarked | hmarked
      · rw [hmarked]
        exact .hexadecimal 'x' (.inl rfl) hwritten
      · rw [hmarked]
        exact .hexadecimal 'X' (.inr rfl) hwritten
    · exact .of_writtenUnsigned hwritten
  · intro h
    generalize trimChars s.toList = numeral at h ⊢
    cases h with
    | hexadecimal mark hmark hwritten =>
        refine .inl ⟨_, ?_, hwritten⟩
        rcases hmark with rfl | rfl
        · exact .inl rfl
        · exact .inr rfl
    | decimal _ _ hwritten => exact .inr hwritten

/-! ### Blanks around a numeral -/

theorem WrittenIn.isBlank_of_mem {base n : Nat} {cs : List Char} (h : WrittenIn base cs n) :
    ∀ c ∈ cs, isBlank c = false := by
  have hdigits : ("0123456789abcdef".toList ++ "0123456789ABCDEF".toList).all
      (!isBlank ·) = true := by decide
  intro c hc
  have hdigit := List.all_eq_true.mp hdigits c (h.mem_digits c hc)
  rwa [Bool.not_eq_true'] at hdigit

theorem WrittenUnsigned.isBlank_of_mem {base n : Nat} {cs : List Char}
    (h : WrittenUnsigned base cs n) : ∀ c ∈ cs, isBlank c = false := by
  obtain ⟨digits, rfl | rfl, hwritten⟩ := h
  · exact hwritten.isBlank_of_mem
  · rw [List.forall_mem_cons]
    exact ⟨by decide, hwritten.isBlank_of_mem⟩

theorem Numeral.isBare {numeral : List Char} {n : Nat} (h : Numeral numeral n) :
    IsBare numeral := by
  cases h with
  | hexadecimal mark hmark hwritten =>
      have hblank : isBlank mark = false := by rcases hmark with rfl | rfl <;> decide
      refine isBare_of_isBlank ?_
      rw [List.forall_mem_cons, List.forall_mem_cons]
      exact ⟨by decide, hblank, hwritten.isBlank_of_mem⟩
  | decimal _ _ hwritten => exact isBare_of_isBlank hwritten.isBlank_of_mem

/-- A text holds a number: it is a numeral of that number with blanks around it. -/
def HoldsNumber (s : String) (n : Nat) : Prop :=
  ∃ numeral, BlanksAround numeral s.toList ∧ Numeral numeral n

theorem saysNumber_iff_holdsNumber {s : String} {n : Nat} :
    SaysNumber s n ↔ HoldsNumber s n := by
  rw [saysNumber_iff_numeral]
  constructor
  · exact fun h => ⟨_, blanksAround_trimChars _, h⟩
  · rintro ⟨numeral, haround, h⟩
    rwa [trimChars_eq_iff.mpr ⟨h.isBare, haround⟩]

/-! ### Words in print -/

/-- A digit behind others counts the number that they write as many times as the base. -/
theorem WrittenIn.concat {base n d : Nat} {cs : List Char} {c : Char} (h : WrittenIn base cs n)
    (hc : IsDigit base c d) : WrittenIn base (cs ++ [c]) (d + base * n) := by
  obtain ⟨-, ds, hall, rfl⟩ := h
  refine ⟨List.concat_ne_nil _ _, ds ++ [d], List.rel_append hall (.cons hc .nil), ?_⟩
  rw [List.reverse_concat, Nat.ofDigits_cons]

theorem writtenIn_singleton {base d : Nat} {c : Char} (hc : IsDigit base c d) :
    WrittenIn base [c] d :=
  ⟨List.cons_ne_nil _ _, [d], .cons hc .nil, Nat.ofDigits_singleton⟩

/-- The digits of a number write it, in whichever way each of them is drawn. -/
theorem writtenIn_map_toDigits {base : Nat} (hbase : 1 < base) (draw : Char → Char)
    (hdraw : ∀ d < base, IsDigit base (draw d.digitChar) d) (n : Nat) :
    WrittenIn base ((Nat.toDigits base n).map draw) n := by
  induction n using Nat.strong_induction_on with
  | _ n ih =>
    by_cases hn : n < base
    · rw [Nat.toDigits_of_lt_base hn]
      exact writtenIn_singleton (hdraw n hn)
    · have hdigit := hdraw (n % base) (Nat.mod_lt n (Nat.zero_lt_of_lt hbase))
      have hfront := ih (n / base) (Nat.div_lt_self (by omega) hbase)
      rw [Nat.toDigits_of_base_le hbase (Nat.le_of_not_lt hn), List.map_append]
      have hwritten := hfront.concat hdigit
      rwa [Nat.mod_add_div] at hwritten

theorem isDigit_digitChar {base d : Nat} (hbase : base ≤ 16) (hd : d < base) :
    IsDigit base d.digitChar d ∧ IsDigit base d.digitChar.toUpper d := by
  have hdrawn : ∀ d < 16, "0123456789abcdef".toList[d]? = some d.digitChar ∧
      "0123456789ABCDEF".toList[d]? = some d.digitChar.toUpper := by decide +kernel
  obtain ⟨hlower, hupper⟩ := hdrawn d (Nat.lt_of_lt_of_le hd hbase)
  exact ⟨⟨hd, .inl hlower⟩, hd, .inr hupper⟩

/-- The digits of a number write it, in small letters and in capital ones. -/
theorem writtenIn_toDigits {base : Nat} (hbase : 1 < base) (hletters : base ≤ 16) (n : Nat) :
    WrittenIn base (Nat.toDigits base n) n ∧
      WrittenIn base ((Nat.toDigits base n).map Char.toUpper) n := by
  constructor
  · rw [← List.map_id (Nat.toDigits base n)]
    exact writtenIn_map_toDigits hbase id (fun d hd => (isDigit_digitChar hletters hd).1) n
  · exact writtenIn_map_toDigits hbase Char.toUpper
      (fun d hd => (isDigit_digitChar hletters hd).2) n

/-- How a word is spelled in print. -/
inductive Spelling where
  | lowerHex
  | upperHex
  | decimal
deriving DecidableEq, Repr

namespace Spelling

/-- A word in print, without zeros in front. Hexadecimal digits stand behind a mark. -/
def print : Spelling → UInt64 → List Char
  | lowerHex, word => '0' :: 'x' :: Nat.toDigits 16 word.toNat
  | upperHex, word => '0' :: 'x' :: (Nat.toDigits 16 word.toNat).map Char.toUpper
  | decimal, word => Nat.toDigits 10 word.toNat

theorem numeral_print (spelling : Spelling) (word : UInt64) :
    Numeral (spelling.print word) word.toNat := by
  obtain ⟨hlower, hupper⟩ := writtenIn_toDigits (show 1 < 16 by decide) le_rfl word.toNat
  obtain ⟨hdecimal, -⟩ := writtenIn_toDigits (show 1 < 10 by decide) (by decide) word.toNat
  cases spelling with
  | lowerHex => exact .hexadecimal 'x' (.inl rfl) ⟨_, .inl rfl, hlower⟩
  | upperHex => exact .hexadecimal 'x' (.inl rfl) ⟨_, .inl rfl, hupper⟩
  | decimal => exact .of_writtenUnsigned ⟨_, .inl rfl, hdecimal⟩

end Spelling

/-- The number that is read of an attribute file is the one that it holds, if that fits a word, and
nothing is read of any other file. Every word in print, with blanks around it, is read back as that
word. -/
theorem number?_grammar (s : String) :
    -- what is read
    (∀ n : Nat, (number? s).map UInt64.toNat = some n ↔ n < 2 ^ 64 ∧ HoldsNumber s n) ∧
    -- what is not
    (number? s = none ↔ ∀ n, HoldsNumber s n → 2 ^ 64 ≤ n) ∧
    -- what is printed
    (∀ (spelling : Spelling) (word : UInt64),
      BlanksAround (spelling.print word) s.toList → number? s = some word) := by
  have hwords (word : UInt64) : number? s = some word ↔ HoldsNumber s word.toNat :=
    number?_eq_some_iff.trans saysNumber_iff_holdsNumber
  refine ⟨map_toNat_eq_some_iff hwords, eq_none_iff_le hwords, fun spelling word haround => ?_⟩
  exact (hwords word).mpr ⟨_, haround, spelling.numeral_print word⟩

theorem number?_grammar_largest :
    BlanksAround (Spelling.upperHex.print 0xffffffffffffffff)
        "\u2003\t0xFFFFFFFFFFFFFFFF\u00a0\r\n".toList ∧
      number? "\u2003\t0xFFFFFFFFFFFFFFFF\u00a0\r\n" = some 0xffffffffffffffff := by
  have haround : BlanksAround (Spelling.upperHex.print 0xffffffffffffffff)
      "\u2003\t0xFFFFFFFFFFFFFFFF\u00a0\r\n".toList :=
    ⟨['\u2003', '\t'], ['\u00a0', '\r', '\n'], by decide +kernel,
      List.all_eq_true.mp (by decide), List.all_eq_true.mp (by decide)⟩
  obtain ⟨-, -, hprinted⟩ := number?_grammar "\u2003\t0xFFFFFFFFFFFFFFFF\u00a0\r\n"
  exact ⟨haround, hprinted .upperHex 0xffffffffffffffff haround⟩

example : number? "0x+00fF" = some 255 ∧ number? "+007\n" = some 7 := by decide +kernel

example :
    ∀ text ∈ ["", "+", "-1", "++1", "0x", "0X+", "0x-1", "0x++1", "+0x1", "1 0", "1_0", "ff",
      "18446744073709551616", "0x10000000000000000", "\u200b1", "\u0661"],
      number? text = none := by
  decide +kernel

end Text

end DrmUsage

-- SUMMARY: Which texts are numerals of which numbers, and that a number is read from the digits in which it is written.
import Mathlib.Data.List.Forall2
import Mathlib.Data.Nat.Digits.Defs
import DrmUsage.Proofs.Cuts
import DrmUsage.Text.Numeral

/-!
# Numerals and numbers

A number is written in a base by one or more digits, the one of most value first
(`Text.WrittenIn`). Numerals are read by going along their digits from the front;
what is read is the number that they write, and nothing else is read
(`Text.digits?_eq_some_iff`). Decimal digits by themselves are `IsDecimal`, and
the number that they write is their `decimalValue`.
-/

namespace DrmUsage

/-! ## Decimal digits -/

/-- One or more decimal digits. -/
def IsDecimal (digits : String) : Prop := digits ≠ "" ∧ ∀ c ∈ digits.toList, c.isDigit = true

/-- The number that some decimal digits write. -/
def decimalValue (digits : String) : Nat := Nat.ofDigitChars 10 digits.toList 0

namespace Text

theorem isDigits_iff {s : String} : isDigits s = true ↔ IsDecimal s := by
  unfold isDigits IsDecimal
  rw [Bool.and_eq_true, Bool.not_eq_true', List.isEmpty_eq_false_iff, List.all_eq_true,
    Ne, Ne, String.toList_eq_nil_iff]

instance (s : String) : Decidable (IsDecimal s) := decidable_of_iff _ isDigits_iff

theorem digit?_of_isDigit {c : Char} (h : c.isDigit = true) :
    digit? 10 c = some (c.toNat - '0'.toNat) := by
  have hc : '0' ≤ c ∧ c ≤ '9' := by
    unfold Char.isDigit at h
    rw [Bool.and_eq_true, decide_eq_true_eq, decide_eq_true_eq] at h
    exact h
  have hbound : c.toNat ≤ '9'.toNat := UInt32.le_iff_toNat_le.mp hc.2
  have hsmall : c.toNat - '0'.toNat < 10 := by
    have : '9'.toNat = 57 := rfl
    have : '0'.toNat = 48 := rfl
    omega
  unfold digit? hexDigit?
  rw [if_pos hc]
  exact Option.filter_eq_some_iff.mpr ⟨rfl, decide_eq_true hsmall⟩

theorem digitsFrom?_of_isDigit (cs : List Char) (acc : Nat) (h : ∀ c ∈ cs, c.isDigit = true) :
    digitsFrom? 10 acc cs = some (Nat.ofDigitChars 10 cs acc) := by
  induction cs generalizing acc with
  | nil => rfl
  | cons c cs ih =>
      have hc := digit?_of_isDigit (h c List.mem_cons_self)
      rw [digitsFrom?, hc, Option.bind_some, Nat.ofDigitChars_cons, Nat.mul_comm 10 acc]
      exact ih _ fun d hd => h d (List.mem_cons_of_mem c hd)

/-- Digits are read as the number that they write. -/
theorem unsigned?_of_isDecimal {digits : String} (h : IsDecimal digits) :
    unsigned? 10 digits.toList = some (decimalValue digits) := by
  obtain ⟨c, cs, hcs⟩ : ∃ c cs, digits.toList = c :: cs :=
    List.exists_cons_of_ne_nil fun hnil => h.1 (String.toList_eq_nil_iff.mp hnil)
  have hplus : c ≠ '+' := by
    rintro rfl
    exact absurd (h.2 '+' (hcs ▸ List.mem_cons_self)) (by decide)
  unfold decimalValue
  rw [← digitsFrom?_of_isDigit _ 0 h.2, hcs, unsigned?.eq_2 _ _ (fun tail htail => hplus
    (List.cons.inj htail).1), digits?]
  exact fun hnil => nomatch hnil

/-- As a word they are read if the number fits it. -/
theorem uint32?_of_isDecimal {digits : String} (h : IsDecimal digits) :
    uint32? digits =
      if decimalValue digits < UInt32.size then some (UInt32.ofNat (decimalValue digits))
      else none := by
  unfold uint32?
  rw [unsigned?_of_isDecimal h, Option.bind_some]

/-! ## Numbers in decimal -/

theorem isDecimal_toString (n : Nat) : IsDecimal (toString n) := by
  have hchars : (toString n).toList = Nat.toDigits 10 n := Nat.toList_repr
  refine ⟨fun hempty => ?_, fun c hc => ?_⟩
  · rw [hempty] at hchars
    exact Nat.toDigits_ne_nil hchars.symm
  · rw [hchars] at hc
    exact Nat.isDigit_of_mem_toDigits (by decide) (by decide) hc

theorem notMem_toString {c : Char} (h : c.isDigit = false) (n : Nat) :
    c ∉ (toString n).toList := fun hc =>
  Bool.false_ne_true (h.symm.trans ((isDecimal_toString n).2 c hc))

theorem decimalValue_toString (n : Nat) : decimalValue (toString n) = n := by
  have hchars : (toString n).toList = Nat.toDigits 10 n := Nat.toList_repr
  unfold decimalValue
  rw [hchars]
  exact Nat.ofDigitChars_toDigits (by decide) (by decide)

theorem isBare_toString (n : Nat) : IsBare (toString n).toList :=
  isBare_of_isBlank fun c hc => isBlank_of_isDigit ((isDecimal_toString n).2 c hc)

/-- A word is read back from its decimal digits. -/
theorem uint32?_toString (n : UInt32) : uint32? (toString n.toNat) = some n := by
  rw [uint32?_of_isDecimal (isDecimal_toString _), decimalValue_toString,
    if_pos n.toNat_lt_size, UInt32.ofNat_toNat]

/-! ## Numbers in any base -/

/-- A character is the digit of a value: it stands at this place among the digits of one of the two
cases. -/
def IsDigit (base : Nat) (c : Char) (d : Nat) : Prop :=
  d < base ∧ ("0123456789abcdef".toList[d]? = some c ∨ "0123456789ABCDEF".toList[d]? = some c)

/-- Some characters are the digits of a number in a base, the one of most value first. -/
def WrittenIn (base : Nat) (cs : List Char) (n : Nat) : Prop :=
  cs ≠ [] ∧ ∃ ds, List.Forall₂ (IsDigit base) cs ds ∧ Nat.ofDigits base ds.reverse = n

/-- Some characters are a number without a sign, or one with a plus sign in front. -/
def WrittenUnsigned (base : Nat) (cs : List Char) (n : Nat) : Prop :=
  ∃ digits, (cs = digits ∨ cs = '+' :: digits) ∧ WrittenIn base digits n

/-- The characters from one to another one, by their code points. -/
theorem exists_of_between {low high c : Char} (h : low ≤ c ∧ c ≤ high) :
    ∃ i < high.toNat - low.toNat + 1, c = Char.ofNat (low.toNat + i) := by
  have hlow : low.toNat ≤ c.toNat := UInt32.le_iff_toNat_le.mp h.1
  have hhigh : c.toNat ≤ high.toNat := UInt32.le_iff_toNat_le.mp h.2
  refine ⟨c.toNat - low.toNat, by omega, ?_⟩
  rw [Nat.add_sub_cancel' hlow, Char.ofNat_toNat]

/-- A character is read as a digit by its place among the digits. -/
theorem hexDigit?_eq_some_iff {c : Char} {d : Nat} :
    hexDigit? c = some d ↔
      "0123456789abcdef".toList[d]? = some c ∨ "0123456789ABCDEF".toList[d]? = some c := by
  constructor
  · intro h
    have hdecimal : ∀ i < 10, let c := Char.ofNat ('0'.toNat + i)
        "0123456789abcdef".toList[c.toNat - '0'.toNat]? = some c := by decide
    have hlower : ∀ i < 6, let c := Char.ofNat ('a'.toNat + i)
        "0123456789abcdef".toList[c.toNat - 'a'.toNat + 10]? = some c := by decide
    have hupper : ∀ i < 6, let c := Char.ofNat ('A'.toNat + i)
        "0123456789ABCDEF".toList[c.toNat - 'A'.toNat + 10]? = some c := by decide
    unfold hexDigit? at h
    split at h
    · rename_i hc
      obtain ⟨i, hi, rfl⟩ := exists_of_between hc
      exact .inl (Option.some.inj h ▸ hdecimal i hi)
    · split at h
      · rename_i hc
        obtain ⟨i, hi, rfl⟩ := exists_of_between hc
        exact .inl (Option.some.inj h ▸ hlower i hi)
      · split at h
        · rename_i hc
          obtain ⟨i, hi, rfl⟩ := exists_of_between hc
          exact .inr (Option.some.inj h ▸ hupper i hi)
        · exact nomatch h
  · have hread : ∀ d < 16, "0123456789abcdef".toList[d]?.bind hexDigit? = some d ∧
        "0123456789ABCDEF".toList[d]?.bind hexDigit? = some d := by decide
    rintro (h | h)
    · have hd := (hread d (List.getElem?_eq_some_iff.mp h).1).1
      rwa [h] at hd
    · have hd := (hread d (List.getElem?_eq_some_iff.mp h).1).2
      rwa [h] at hd

theorem digit?_eq_some_iff {base d : Nat} {c : Char} :
    digit? base c = some d ↔ IsDigit base c d := by
  unfold digit? IsDigit
  rw [Option.filter_eq_some_iff, hexDigit?_eq_some_iff, decide_eq_true_eq, and_comm]

/-- Further digits add what they write to what stands before them. -/
theorem digitsFrom?_eq_some_iff {base acc n : Nat} {cs : List Char} :
    digitsFrom? base acc cs = some n ↔
      ∃ ds, List.Forall₂ (IsDigit base) cs ds ∧
        acc * base ^ ds.length + Nat.ofDigits base ds.reverse = n := by
  induction cs generalizing acc with
  | nil => simp [digitsFrom?]
  | cons c cs ih =>
      rw [digitsFrom?, Option.bind_eq_some_iff]
      constructor
      · rintro ⟨d, hd, hrest⟩
        obtain ⟨ds, hds, rfl⟩ := ih.mp hrest
        refine ⟨d :: ds, .cons (digit?_eq_some_iff.mp hd) hds, ?_⟩
        rw [List.reverse_cons, Nat.ofDigits_append, Nat.ofDigits_singleton, List.length_reverse,
          List.length_cons]
        ring
      · rintro ⟨_, hall, rfl⟩
        obtain ⟨d, ds, hd, hds, rfl⟩ := List.forall₂_cons_left_iff.mp hall
        refine ⟨d, digit?_eq_some_iff.mpr hd, ih.mpr ⟨ds, hds, ?_⟩⟩
        rw [List.reverse_cons, Nat.ofDigits_append, Nat.ofDigits_singleton, List.length_reverse,
          List.length_cons]
        ring

/-- The number that is read from some digits is the one that they write. -/
theorem digits?_eq_some_iff {base n : Nat} {cs : List Char} :
    digits? base cs = some n ↔ WrittenIn base cs n := by
  unfold WrittenIn
  cases cs with
  | nil => exact iff_of_false (fun h => nomatch h) (fun h => h.1 rfl)
  | cons c cs =>
      rw [digits?, digitsFrom?_eq_some_iff]
      · simp only [Nat.zero_mul, Nat.zero_add, ne_eq, reduceCtorEq, not_false_eq_true, true_and]
      · exact fun hnil => nomatch hnil

/-- A number is written in the digits of the two cases and nothing else. -/
theorem WrittenIn.mem_digits {base n : Nat} {cs : List Char} (h : WrittenIn base cs n) :
    ∀ c ∈ cs, c ∈ "0123456789abcdef".toList ++ "0123456789ABCDEF".toList := by
  obtain ⟨-, ds, hall, -⟩ := h
  have hmem : List.Forall₂ (fun c d => c ∈ "0123456789abcdef".toList ++ "0123456789ABCDEF".toList ∧
      IsDigit base c d) cs ds := by
    refine hall.imp fun c d hdigit => ⟨List.mem_append.mpr ?_, hdigit⟩
    exact hdigit.2.imp List.mem_of_getElem? List.mem_of_getElem?
  exact ((List.forall₂_and_left ..).mp hmem).1

theorem unsigned?_eq_some_iff {base n : Nat} {cs : List Char} :
    unsigned? base cs = some n ↔ WrittenUnsigned base cs n := by
  unfold WrittenUnsigned
  constructor
  · intro h
    unfold unsigned? at h
    split at h
    · rename_i digits
      exact ⟨digits, .inr rfl, digits?_eq_some_iff.mp h⟩
    · exact ⟨cs, .inl rfl, digits?_eq_some_iff.mp h⟩
  · rintro ⟨digits, rfl | rfl, hwritten⟩
    · have hplus : ∀ rest, cs ≠ '+' :: rest := by
        rintro rest rfl
        exact absurd (hwritten.mem_digits '+' List.mem_cons_self) (by decide)
      rw [unsigned?.eq_2 _ _ hplus]
      exact digits?_eq_some_iff.mpr hwritten
    · exact digits?_eq_some_iff.mpr hwritten

theorem uint64Chars?_eq_some_iff {base : Nat} {cs : List Char} {n : UInt64} :
    uint64Chars? base cs = some n ↔ WrittenUnsigned base cs n.toNat := by
  unfold uint64Chars?
  rw [← unsigned?_eq_some_iff, Option.bind_eq_some_iff]
  constructor
  · rintro ⟨m, hm, hword⟩
    split at hword
    · rename_i hsmall
      rw [← Option.some.inj hword, UInt64.toNat_ofNat_of_lt' hsmall]
      exact hm
    · exact nomatch hword
  · intro h
    exact ⟨n.toNat, h, by rw [if_pos n.toNat_lt_size, UInt64.ofNat_toNat]⟩

theorem uint64?_eq_some_iff {digits : String} (h : IsDecimal digits) {n : UInt64} :
    uint64? digits = some n ↔ decimalValue digits = n.toNat := by
  unfold uint64?
  rw [uint64Chars?_eq_some_iff, ← unsigned?_eq_some_iff, unsigned?_of_isDecimal h,
    Option.some.injEq]

/-! ## Attributes -/

/-- What an attribute file says is a number: a hexadecimal one behind `0x` or `0X`, or a decimal
one, with blanks around it. -/
def SaysNumber (text : String) (n : Nat) : Prop :=
  (∃ digits, (trimChars text.toList = '0' :: 'x' :: digits ∨
      trimChars text.toList = '0' :: 'X' :: digits) ∧ WrittenUnsigned 16 digits n) ∨
    WrittenUnsigned 10 (trimChars text.toList) n

/-- What starts as a hexadecimal number is no decimal one. -/
theorem not_writtenUnsigned_of_mark {base n : Nat} {mark : Char} {digits : List Char}
    (hmark : mark = 'x' ∨ mark = 'X') : ¬ WrittenUnsigned base ('0' :: mark :: digits) n := by
  rintro ⟨written, hsplit, hwritten⟩
  have hmem : mark ∈ written := by
    rcases hsplit with rfl | hplus
    · exact List.mem_cons_of_mem _ List.mem_cons_self
    · exact absurd (List.cons.inj hplus).1 (by decide)
  rcases hmark with rfl | rfl
  · exact absurd (hwritten.mem_digits 'x' hmem) (by decide)
  · exact absurd (hwritten.mem_digits 'X' hmem) (by decide)

theorem number?_eq_some_iff {s : String} {n : UInt64} :
    number? s = some n ↔ SaysNumber s n.toNat := by
  unfold number? SaysNumber
  split
  · rename_i digits heq
    rw [heq, uint64Chars?_eq_some_iff,
      or_iff_left (not_writtenUnsigned_of_mark (Or.inl rfl))]
    simp
  · rename_i digits heq
    rw [heq, uint64Chars?_eq_some_iff,
      or_iff_left (not_writtenUnsigned_of_mark (Or.inr rfl))]
    simp
  · rename_i hlower hupper
    rw [uint64Chars?_eq_some_iff, or_iff_right]
    rintro ⟨digits, h | h, -⟩
    · exact hlower digits h
    · exact hupper digits h

end Text

end DrmUsage

-- SUMMARY: Numbers as the kernel's text files write them: digits in base ten or sixteen with an optional sign, within a word.
import DrmUsage.Text.Blank
import DrmUsage.Text.Cut

/-!
# Numerals

A numeral is an optional sign and one or more digits; leading zeros are
allowed. A minus sign belongs to signed numbers alone, and a value outside of
the word it is read into makes the whole numeral unreadable. Nothing is trimmed
here except by `number?`, which reads a whole attribute file.
-/

namespace DrmUsage.Text

/-! ## Digits -/

/-- The value of a hexadecimal digit of either case. -/
def hexDigit? (c : Char) : Option Nat :=
  if '0' ≤ c ∧ c ≤ '9' then some (c.toNat - '0'.toNat)
  else if 'a' ≤ c ∧ c ≤ 'f' then some (c.toNat - 'a'.toNat + 10)
  else if 'A' ≤ c ∧ c ≤ 'F' then some (c.toNat - 'A'.toNat + 10)
  else none

/-- The value of a digit in a base up to sixteen. -/
def digit? (base : Nat) (c : Char) : Option Nat :=
  (hexDigit? c).filter (· < base)

/-- The value of further digits behind a number already read. -/
def digitsFrom? (base acc : Nat) : List Char → Option Nat
  | [] => some acc
  | c :: cs => (digit? base c).bind fun d => digitsFrom? base (acc * base + d) cs

/-- The value of one or more digits. -/
def digits? (base : Nat) : List Char → Option Nat
  | [] => none
  | cs => digitsFrom? base 0 cs

/-! ## Signs and words -/

/-- An unsigned numeral: a plus sign may stand in front. -/
def unsigned? (base : Nat) : List Char → Option Nat
  | '+' :: cs => digits? base cs
  | cs => digits? base cs

/-- A signed decimal numeral. -/
def signed? : List Char → Option Int
  | '-' :: cs => (digits? 10 cs).map fun n => -(n : Int)
  | cs => (unsigned? 10 cs).map fun n => (n : Int)

/-- An unsigned numeral of 64 bits. -/
def uint64Chars? (base : Nat) (cs : List Char) : Option UInt64 :=
  (unsigned? base cs).bind fun n => if n < UInt64.size then some (UInt64.ofNat n) else none

/-- A decimal numeral of 64 bits. -/
def uint64? (s : String) : Option UInt64 := uint64Chars? 10 s.toList

/-- A decimal numeral of 32 bits. -/
def uint32? (s : String) : Option UInt32 :=
  (unsigned? 10 s.toList).bind fun n => if n < UInt32.size then some (UInt32.ofNat n) else none

/-- A decimal numeral of 32 bits with a sign. -/
def int32? (s : String) : Option Int32 :=
  (signed? s.toList).bind fun n =>
    if Int32.minValue.toInt ≤ n ∧ n ≤ Int32.maxValue.toInt then some (Int32.ofInt n) else none

/-- Whether a text is one or more decimal digits and nothing else. -/
def isDigits (s : String) : Bool := !s.toList.isEmpty && s.toList.all Char.isDigit

/-! ## Attribute values -/

/-- The number in an attribute file: hexadecimal behind `0x` or `0X`, decimal
otherwise, with blanks around it. -/
def number? (s : String) : Option UInt64 :=
  match trimChars s.toList with
  | '0' :: 'x' :: cs => uint64Chars? 16 cs
  | '0' :: 'X' :: cs => uint64Chars? 16 cs
  | cs => uint64Chars? 10 cs

end DrmUsage.Text

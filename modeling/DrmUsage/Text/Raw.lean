-- SUMMARY: Names and link texts as the bytes that the kernel keeps, and how they are shown where these are not UTF-8.

/-!
# Raw texts

The kernel keeps names and link texts as bytes and asks of no encoding. Two of
them are the same if their bytes are. To be shown or compared with words they
are decoded: what is no character becomes the replacement character, each
longest part at a time that could still have begun one. A text in UTF-8 is
decoded to itself (`RawText.decode_ofText`), but different names can be shown
alike where they are not UTF-8.
-/

namespace DrmUsage

namespace Text

/-- The bytes of some characters in UTF-8. -/
def bytesOf (cs : List Char) : List UInt8 := cs.flatMap String.utf8EncodeChar

/-! ## Broken characters -/

/-- The character that stands for what is no character. -/
def replacement : Char := '\uFFFD'

/-- The ranges, both ends included, of the bytes that may follow the first byte
of a character. Nothing follows a byte that begins no longer character. -/
def followers (first : UInt8) : List (UInt8 × UInt8) :=
  let any : UInt8 × UInt8 := (0x80, 0xbf)
  if 0xc2 ≤ first ∧ first ≤ 0xdf then [any]
  else if first = 0xe0 then [(0xa0, 0xbf), any]
  else if first = 0xed then [(0x80, 0x9f), any]
  else if 0xe1 ≤ first ∧ first ≤ 0xef then [any, any]
  else if first = 0xf0 then [(0x90, 0xbf), any, any]
  else if 0xf1 ≤ first ∧ first ≤ 0xf3 then [any, any, any]
  else if first = 0xf4 then [(0x80, 0x8f), any, any]
  else []

/-- How many bytes at the front lie in the ranges for them. -/
def fitting : List (UInt8 × UInt8) → List UInt8 → Nat
  | (low, high) :: ranges, b :: bytes =>
    if low ≤ b ∧ b ≤ high then fitting ranges bytes + 1 else 0
  | _, _ => 0

/-- The characters in some bytes behind the first `used` of them, which belong
to a character already decoded. -/
def decodeBehind : Nat → List UInt8 → List Char
  | _, [] => []
  | used + 1, _ :: bytes => decodeBehind used bytes
  | 0, first :: bytes =>
    match (first :: bytes).toByteArray.utf8DecodeChar? 0 with
    | some c => c :: decodeBehind (c.utf8Size - 1) bytes
    | none => replacement :: decodeBehind (fitting (followers first) bytes) bytes

theorem decodeBehind_append (used bytes : List UInt8) :
    decodeBehind used.length (used ++ bytes) = decodeBehind 0 bytes := by
  induction used with
  | nil => rfl
  | cons b used ih => exact ih

/-- A character in front is decoded before anything else is. -/
theorem decodeBehind_utf8EncodeChar_append (c : Char) (later : List UInt8) :
    decodeBehind 0 (String.utf8EncodeChar c ++ later) = c :: decodeBehind 0 later := by
  have hlength := String.length_utf8EncodeChar c
  have hdecode : (String.utf8EncodeChar c ++ later).toByteArray.utf8DecodeChar? 0 = some c := by
    rw [List.toByteArray_append]
    exact ByteArray.utf8DecodeChar?_utf8EncodeChar_append
  obtain ⟨first, used, hchar⟩ : ∃ first used, String.utf8EncodeChar c = first :: used :=
    List.exists_cons_of_length_pos (hlength ▸ c.utf8Size_pos)
  have hused : c.utf8Size - 1 = used.length := by rw [← hlength, hchar]; rfl
  rw [hchar, List.cons_append] at hdecode ⊢
  rw [decodeBehind, hdecode]
  dsimp only
  rw [hused, decodeBehind_append]

/-- What UTF-8 writes is decoded to what was written. -/
theorem decodeBehind_bytesOf (cs : List Char) : decodeBehind 0 (bytesOf cs) = cs := by
  induction cs with
  | nil => rfl
  | cons c cs ih =>
      rw [bytesOf, List.flatMap_cons, decodeBehind_utf8EncodeChar_append, ← bytesOf, ih]

/-- Bytes in which nothing is replaced are what UTF-8 writes for the characters
in them. -/
theorem bytesOf_decodeBehind {bytes : List UInt8} (h : replacement ∉ decodeBehind 0 bytes) :
    bytesOf (decodeBehind 0 bytes) = bytes := by
  cases bytes with
  | nil => rfl
  | cons first bytes =>
    cases hchar : (first :: bytes).toByteArray.utf8DecodeChar? 0 with
    | none =>
      rw [decodeBehind, hchar] at h
      exact absurd List.mem_cons_self h
    | some c =>
      obtain ⟨later, hlater⟩ : ∃ later, first :: bytes = String.utf8EncodeChar c ++ later := by
        have hbytes := congrArg (·.data.toList) (ByteArray.eq_of_utf8DecodeChar?_eq_some hchar)
        simp only [ByteArray.toList_data_append, List.toList_data_toByteArray] at hbytes
        exact ⟨_, hbytes⟩
      have hshorter : later.length < (first :: bytes).length := by
        rw [hlater, List.length_append, String.length_utf8EncodeChar]
        exact Nat.lt_add_of_pos_left c.utf8Size_pos
      rw [hlater, decodeBehind_utf8EncodeChar_append] at h ⊢
      rw [bytesOf, List.flatMap_cons, ← bytesOf,
        bytesOf_decodeBehind fun hmem => h (List.mem_cons_of_mem c hmem)]
termination_by bytes.length

end Text

/-- A name or a link text of the kernel. -/
structure RawText where
  bytes : List UInt8
deriving DecidableEq, Repr, Inhabited

namespace RawText

/-- A text in UTF-8. -/
def ofText (s : String) : RawText := ⟨Text.bytesOf s.toList⟩

instance : Coe String RawText := ⟨ofText⟩

/-- The text that is shown, with a replacement for each part that is no
character. -/
def decode (raw : RawText) : String := String.ofList (Text.decodeBehind 0 raw.bytes)

/-- A text in UTF-8 is shown as it is. -/
@[simp] theorem decode_ofText (s : String) : (ofText s).decode = s := by
  rw [decode, ofText, Text.decodeBehind_bytesOf, String.ofList_toList]

/-- Nothing else is shown as a text without replacements. -/
theorem decode_eq_iff {raw : RawText} {s : String} (h : Text.replacement ∉ s.toList) :
    raw.decode = s ↔ raw = s := by
  constructor
  · rintro rfl
    rw [decode, String.toList_ofList] at h
    rw [ofText, decode, String.toList_ofList, Text.bytesOf_decodeBehind h]
  · rintro rfl
    exact decode_ofText s

/-- Raw texts in the order of their bytes. -/
instance : Ord RawText := ⟨compareOn bytes⟩

instance : Std.TransOrd RawText := inferInstanceAs (Std.TransCmp (compareOn bytes))

instance : Std.LawfulEqOrd RawText where
  eq_of_compare {a b} h := by
    cases a
    cases b
    exact congrArg mk (Std.LawfulEqOrd.eq_of_compare (α := List UInt8) h)

end RawText

/-- A part cut short is one replacement, and so is a byte that begins nothing. -/
example : (RawText.mk [0x61, 0xe2, 0x82, 0x62, 0xff, 0xc3, 0xa9]).decode = "a\uFFFDb\uFFFDé" := by
  decide +kernel

end DrmUsage

-- SUMMARY: The kernel's usage records: their fields, the busy times in them, and the client and device they first name.
import DrmUsage.Text.Numeral
import DrmUsage.Text.Cut

/-!
# Records

For every open descriptor of a GPU the kernel shows a record, one field a line:
a key, a colon and a value, with blanks around both. What a device makes of the
fields is its own matter; here is what all of them share. The first field under
a key tells client and device without a full reading (`clientId?`, `pdev?`).
-/

namespace DrmUsage

/-! ## Fields -/

/-- A key and its value, without the blanks around them. -/
structure Field where
  key : String
  value : String
deriving DecidableEq, Repr

/-- The field of a line: what stands before and behind its first colon. A line
without a colon or without a key has none. -/
def Field.ofLine? (line : String) : Option Field :=
  (Text.splitFirst ':' line.toList).bind fun (before, behind) =>
    let key := Text.trimChars before
    if key.isEmpty then none
    else some ⟨String.ofList key, String.ofList (Text.trimChars behind)⟩

namespace Record

/-- The key under which the bus address of the device stands. -/
def pdevKey : String := "drm-pdev"

/-- The key under which the client's number stands. -/
def clientIdKey : String := "drm-client-id"

/-- The fields of some lines, in order. -/
def fieldsOf (lines : List String) : List Field := lines.filterMap Field.ofLine?

/-! ## Values -/

/-- A busy time: decimal digits, one space and the unit `ns`, of 64 bits. -/
def busyTime? (value : String) : Option UInt64 :=
  (Text.splitFirst ' ' value.toList).bind fun (number, unit) =>
    if unit = ['n', 's'] ∧ number.all Char.isDigit then Text.uint64Chars? 10 number else none

/-- The value of the first field under a key. -/
def firstValue? (key : String) (record : String) : Option String :=
  ((fieldsOf (Text.linesOf record)).find? (·.key = key)).map (·.value)

/-- The client's number in a record, if the first one in it can be read. -/
def clientId? (record : String) : Option UInt32 :=
  (firstValue? clientIdKey record).bind Text.uint32?

/-- The bus address of the device that a record belongs to. -/
def pdev? (record : String) : Option String := firstValue? pdevKey record

end Record

end DrmUsage

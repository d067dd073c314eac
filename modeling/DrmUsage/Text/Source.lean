-- SUMMARY: A source of bytes that is read line by line and used up on the way.
import DrmUsage.Text.Raw

/-!
# Sources

Whoever reads a record is handed a source of bytes and takes from it what it
wants; the rest stays for whoever comes next. A source gives byte after byte. In
between it can be interrupted, which only means that it has to be asked again,
and it can fail. A line is read into a buffer up to and with its newline, or to
the end of the source (`Source.readLine`).
-/

namespace DrmUsage.Text

/-- The byte that closes a line. It never is a part of a longer character. -/
def newline : UInt8 := 0x0a

/-- What a source gives when it is asked. -/
inductive Item where
  | byte (b : UInt8)
  /-- Nothing this time. -/
  | interrupted
  | failed (cause : String)
deriving DecidableEq, Repr

/-- A source of bytes: what it is still going to give. Behind the last item it
is at its end. -/
structure Source where
  items : List Item
deriving DecidableEq, Repr

/-- Why a line could not be read. -/
inductive ReadFailure where
  /-- The source failed before the line was complete. -/
  | failed (cause : String)
  | notUtf8
deriving DecidableEq, Repr

/-- The wording of a failure. -/
def ReadFailure.message : ReadFailure → String
  | .failed cause => cause
  | .notUtf8 => "stream did not contain valid UTF-8"

namespace Source

/-- A source that ends after its bytes. -/
def finished (bytes : List UInt8) : Source := ⟨bytes.map .byte⟩

/-- A source that fails after `count` bytes, or after all of them if there are
fewer. -/
def failingAfter (count : Nat) (cause : String) (bytes : List UInt8) : Source :=
  ⟨(bytes.take count).map .byte ++ [.failed cause]⟩

/-- A source of the bytes of a text. -/
def ofText (text : String) : Source := finished (bytesOf text.toList)

/-! ## Lines -/

/-- What is taken off the front of a source: some bytes, the failure that ended
them if one did, and what is left. -/
structure Taken where
  bytes : List UInt8
  failure : Option String
  rest : List Item

/-- Takes the bytes up to and with the next newline, or those up to a failure or
the end. -/
def takeLine : List Item → Taken
  | [] => ⟨[], none, []⟩
  | .byte b :: later =>
    if b = newline then ⟨[b], none, later⟩
    else
      let taken := takeLine later
      { taken with bytes := b :: taken.bytes }
  | .interrupted :: later => takeLine later
  | .failed cause :: later => ⟨[], some cause, later⟩

/-- What comes of reading a line: the number of bytes read or a failure, the
buffer afterwards, and what is left of the source. -/
structure LineRead where
  answer : Except ReadFailure Nat
  buffer : String
  rest : Source

/-- Reads a line into a buffer, behind what the buffer holds. No byte is read
only at the end of the source. Bytes that are not text do not get into the
buffer; text does, also if the source fails behind it. -/
def readLine (source : Source) (buffer : String) : LineRead :=
  let taken := takeLine source.items
  let text := String.fromUTF8? ⟨taken.bytes.toArray⟩
  { answer :=
      match taken.failure, text with
      | some cause, _ => .error (.failed cause)
      | none, none => .error .notUtf8
      | none, some _ => .ok taken.bytes.length
    buffer := buffer ++ text.getD ""
    rest := ⟨taken.rest⟩ }

theorem length_rest_takeLine (items : List Item) :
    (takeLine items).rest.length + (takeLine items).bytes.length ≤ items.length := by
  induction items with
  | nil => exact Nat.le_refl _
  | cons item later ih =>
    cases item with
    | byte b =>
      unfold takeLine
      split
      · exact Nat.le_refl _
      · exact Nat.succ_le_succ ih
    | interrupted => exact Nat.le_succ_of_le ih
    | failed cause => exact Nat.le_succ _

/-- A line takes away from the source what it has read. -/
theorem length_rest_readLine {source : Source} {buffer : String} {count : Nat}
    (h : (source.readLine buffer).answer = .ok count) :
    (source.readLine buffer).rest.items.length + count ≤ source.items.length := by
  have hcount : (takeLine source.items).bytes.length = count := by
    simp only [readLine] at h
    split at h
    · exact nomatch h
    · exact nomatch h
    · exact Except.ok.inj h
  rw [← hcount]
  exact length_rest_takeLine source.items

/-- A failure between the two bytes of the last letter: of its line nothing gets
into the buffer. -/
example :
    let source := failingAfter 9 "gone" (bytesOf "a: 1\nb: é".toList)
    let first := source.readLine "> "
    let second := first.rest.readLine "> "
    (first.answer.toOption, first.buffer) = (some 5, "> a: 1\n") ∧
      (second.answer.toOption, second.buffer, second.rest.items) = (none, "> ", []) := by
  decide +kernel

end Source

end DrmUsage.Text

-- SUMMARY: What the reading of a source line by line comes to: the lines before it ends or fails.
import DrmUsage.Text.Cut
import DrmUsage.Text.Source

/-!
# Readings

What a source gives line by line can be told of all its bytes at once. A text in
memory is always read to its end. A source may stop earlier: at a line that is
not UTF-8, or where it fails. The lines read until then stand; the line at which
the reading stops does not, because it was never complete. Interruptions leave
no mark.
-/

namespace DrmUsage.Text

/-- The lines read, without their terminators, and why the reading stopped
before the end of the source if it did. -/
structure Reading where
  lines : List String
  failure : Option ReadFailure
deriving DecidableEq, Repr

/-- The reading of a text in memory. -/
def Reading.ofText (text : String) : Reading := ⟨linesOf text, none⟩

@[simp] theorem Reading.lines_ofText (text : String) :
    (Reading.ofText text).lines = linesOf text := rfl

@[simp] theorem Reading.failure_ofText (text : String) :
    (Reading.ofText text).failure = none := rfl

/-! ## Streams -/

/-- The bytes of a source, and the failure behind them if one follows. -/
structure Stream where
  bytes : List UInt8
  failure : Option String
deriving DecidableEq, Repr

namespace Stream

/-- Bytes behind which nothing fails. -/
def finished (bytes : List UInt8) : Stream := ⟨bytes, none⟩

/-- Reads cut lines as text up to the first one that is not UTF-8. -/
def decode (failure : Option ReadFailure) : List (List UInt8) → Reading
  | [] => ⟨[], failure⟩
  | line :: later =>
    match String.fromUTF8? ⟨line.toArray⟩ with
    | none => ⟨[], some .notUtf8⟩
    | some text =>
      let reading := decode failure later
      ⟨text :: reading.lines, reading.failure⟩

/-- The reading of a stream. The unterminated last line counts only where the
stream ends properly. -/
def read (s : Stream) : Reading :=
  match s.failure with
  | none => decode none (Text.lines newline s.bytes)
  | some cause => decode (some (.failed cause)) (closedLines newline s.bytes).1

section

variable {line later : List UInt8} {text : String} {failure : Option String}

theorem read_closed_of_some (hline : newline ∉ line)
    (htext : String.fromUTF8? ⟨line.toArray⟩ = some text) :
    read ⟨line ++ newline :: later, failure⟩ =
      ⟨text :: (read ⟨later, failure⟩).lines, (read ⟨later, failure⟩).failure⟩ := by
  cases failure <;> simp only [read, lines_append hline, closedLines_append hline, decode, htext]

theorem read_closed_of_none (hline : newline ∉ line)
    (htext : String.fromUTF8? ⟨line.toArray⟩ = none) :
    read ⟨line ++ newline :: later, failure⟩ = ⟨[], some .notUtf8⟩ := by
  cases failure <;> simp only [read, lines_append hline, closedLines_append hline, decode, htext]

/-- What a failure cuts is not read. -/
theorem read_failed (hline : newline ∉ line) (cause : String) :
    read ⟨line, some cause⟩ = ⟨[], some (.failed cause)⟩ := by
  simp only [read, closedLines_of_not_mem hline, decode]

theorem lines_of_not_mem (hline : newline ∉ line) (hne : line ≠ []) :
    lines newline line = [line] := by
  have hempty : line.isEmpty = false := List.isEmpty_eq_false_iff.mpr hne
  simp only [lines, closedLines_of_not_mem hline, hempty, Bool.false_eq_true, if_false,
    List.nil_append]

/-- At the end, a line need not be closed. -/
theorem read_last_of_some (hline : newline ∉ line) (hne : line ≠ [])
    (htext : String.fromUTF8? ⟨line.toArray⟩ = some text) :
    read (finished line) = ⟨[text], none⟩ := by
  simp only [read, finished, lines_of_not_mem hline hne, decode, htext]

theorem read_last_of_none (hline : newline ∉ line) (hne : line ≠ [])
    (htext : String.fromUTF8? ⟨line.toArray⟩ = none) :
    read (finished line) = ⟨[], some .notUtf8⟩ := by
  simp only [read, finished, lines_of_not_mem hline hne, decode, htext]

end

end Stream

namespace Source

/-- The bytes before the first failure, and this failure. -/
def streamOf : List Item → Stream
  | [] => .finished []
  | .byte b :: later =>
    let stream := streamOf later
    { stream with bytes := b :: stream.bytes }
  | .interrupted :: later => streamOf later
  | .failed cause :: _ => ⟨[], some cause⟩

/-- The bytes that a source gives before it ends or fails. -/
def stream (source : Source) : Stream := streamOf source.items

/-- The reading of a source. -/
def reading (source : Source) : Reading := source.stream.read

/-- The source without its interruptions. -/
def uninterrupted (source : Source) : Source := ⟨source.items.filter (· ≠ .interrupted)⟩

theorem stream_uninterrupted (source : Source) : source.uninterrupted.stream = source.stream := by
  unfold stream uninterrupted
  induction source.items with
  | nil => rfl
  | cons item later ih =>
    rw [List.filter_cons]
    cases item with
    | byte b => exact congrArg (fun stream => { stream with bytes := b :: stream.bytes }) ih
    | interrupted => exact ih
    | failed cause => rfl

theorem streamOf_append (bytes : List UInt8) (later : List Item) :
    streamOf (bytes.map .byte ++ later) =
      ⟨bytes ++ (streamOf later).bytes, (streamOf later).failure⟩ := by
  induction bytes with
  | nil => rfl
  | cons b bytes ih => simp only [List.map_cons, List.cons_append, streamOf, ih]

theorem stream_finished (bytes : List UInt8) : (finished bytes).stream = .finished bytes := by
  have hstream := streamOf_append bytes []
  rw [List.append_nil] at hstream
  rw [stream, finished, hstream, streamOf, Stream.finished, List.append_nil]
  rfl

theorem stream_failingAfter (count : Nat) (cause : String) (bytes : List UInt8) :
    (failingAfter count cause bytes).stream = ⟨bytes.take count, some cause⟩ := by
  rw [stream, failingAfter, streamOf_append, streamOf, List.append_nil]

end Source

end DrmUsage.Text

-- SUMMARY: A stream that fails counts as the complete lines of text before the failure, and one that is no text as the lines before it is none.
import Mathlib.Data.List.Basic
import DrmUsage.Proofs.RecordLoop

/-!
# Broken streams

A reading can end in four ways: at the end of the stream, in a last line without a newline, at a
line that is not text, and where the stream fails, be it between two lines, within one or within
a character. What was read until then is always the text of some beginning of the bytes, and a GPU
makes of the stream what it makes of that text alone (`IntelGpu.read_cut_short`). A line that the
failure cuts is no part of it, and every line that was complete before is.
-/

namespace DrmUsage

namespace Text

/-! ## Complete lines of text -/

/-- Some bytes are text. -/
def IsText (bytes : List UInt8) : Prop := (ByteArray.mk bytes.toArray).IsValidUTF8

/-- Complete lines, each of them text and closed by a newline. -/
inductive Whole : List UInt8 → Prop
  | nil : Whole []
  | line {line later : List UInt8} (hline : newline ∉ line) (htext : IsText line)
      (hlater : Whole later) : Whole (line ++ newline :: later)

/-- Bytes that do not begin with a complete line of text: no line is closed in them, or the first
one is not text. -/
inductive Stops : List UInt8 → Prop
  | unclosed {part : List UInt8} (hpart : newline ∉ part) : Stops part
  | notText {line : List UInt8} (hline : newline ∉ line) (hnot : ¬ IsText line)
      (later : List UInt8) : Stops (line ++ newline :: later)

/-- Text is what UTF-8 writes for some characters. -/
theorem isText_iff {bytes : List UInt8} : IsText bytes ↔ ∃ cs, bytes = bytesOf cs := by
  constructor
  · rintro ⟨cs, h⟩
    refine ⟨cs, ?_⟩
    have hbytes := congrArg (·.data.toList) h
    simpa [List.utf8Encode, bytesOf] using hbytes
  · rintro ⟨cs, rfl⟩
    rw [← String.toList_ofList (l := cs), ← toList_toByteArray]
    exact (String.ofList cs).isValidUTF8

theorem exists_string_of_isText {bytes : List UInt8} (h : IsText bytes) :
    ∃ text : String, text.toByteArray.data.toList = bytes := by
  obtain ⟨cs, rfl⟩ := isText_iff.mp h
  exact ⟨String.ofList cs, by rw [toList_toByteArray, String.toList_ofList]⟩

/-- Complete lines of text make a text, and so they do with another text behind them. -/
theorem Whole.isText_append {whole last : List UInt8} (hwhole : Whole whole) (hlast : IsText last) :
    IsText (whole ++ last) := by
  induction hwhole with
  | nil => exact hlast
  | line _ htext _ ih =>
      obtain ⟨cs, rfl⟩ := isText_iff.mp htext
      obtain ⟨ds, hds⟩ := isText_iff.mp ih
      rw [List.append_assoc, List.cons_append, hds]
      exact isText_iff.mpr ⟨cs ++ '\n' :: ds, by simp [bytesOf]; rfl⟩

theorem Whole.isText {whole : List UInt8} (h : Whole whole) : IsText whole := by
  rw [← List.append_nil whole]
  exact h.isText_append (isText_iff.mpr ⟨[], rfl⟩)

/-- All bytes are some complete lines of text and what stops them. -/
theorem exists_whole_append_stops (bytes : List UInt8) :
    ∃ whole rest, bytes = whole ++ rest ∧ Whole whole ∧ Stops rest := by
  by_cases hclosed : newline ∈ bytes
  · obtain ⟨line, later, hbytes, hline⟩ := List.eq_append_cons_of_mem hclosed
    by_cases htext : IsText line
    · have hshorter : later.length < bytes.length := by
        rw [hbytes, List.length_append, List.length_cons]
        omega
      obtain ⟨whole, rest, rfl, hwhole, hrest⟩ := exists_whole_append_stops later
      exact ⟨line ++ newline :: whole, rest, by simp [hbytes], .line hline htext hwhole, hrest⟩
    · exact ⟨[], bytes, rfl, .nil, hbytes ▸ .notText hline htext later⟩
  · exact ⟨[], bytes, rfl, .nil, .unclosed hclosed⟩
termination_by bytes.length

/-! ## The longest beginning -/

/-- The longest beginning of some bytes that is made of complete lines of text. -/
structure LongestWhole (whole bytes : List UInt8) : Prop where
  begins : whole <+: bytes
  isWhole : Whole whole
  longest : ∀ other, other <+: bytes → Whole other → other.length ≤ whole.length

/-- There is one way to cut off a first line. -/
theorem append_cons_inj {α : Type} {eol : α} {line line' later later' : List α}
    (hline : eol ∉ line) (hline' : eol ∉ line')
    (h : line ++ eol :: later = line' ++ eol :: later') : line = line' ∧ later = later' := by
  induction line generalizing line' with
  | nil =>
      cases line' with
      | nil => exact ⟨rfl, (List.cons.inj h).2⟩
      | cons c cs => exact absurd ((List.cons.inj h).1 ▸ List.mem_cons_self) hline'
  | cons c cs ih =>
      cases line' with
      | nil => exact absurd ((List.cons.inj h).1 ▸ List.mem_cons_self) hline
      | cons c' cs' =>
          obtain ⟨rfl, htail⟩ := List.cons.inj h
          obtain ⟨rfl, hlater⟩ := ih (fun hmem => hline (List.mem_cons_of_mem c hmem))
            (fun hmem => hline' (List.mem_cons_of_mem c hmem)) htail
          exact ⟨rfl, hlater⟩

/-- Complete lines of text go no further than to where they are stopped. -/
theorem Whole.isPrefix_of_stops {whole rest other : List UInt8} (hwhole : Whole whole)
    (hrest : Stops rest) (hother : Whole other) (h : other <+: whole ++ rest) :
    other <+: whole := by
  induction hother generalizing whole with
  | nil => exact List.nil_prefix
  | @line line later hline htext _ ih =>
      obtain ⟨behind, hbehind⟩ := h
      rw [List.append_assoc, List.cons_append] at hbehind
      cases hwhole with
      | nil =>
          rw [List.nil_append] at hbehind
          cases hrest with
          | unclosed hpart =>
              rw [← hbehind] at hpart
              exact absurd (List.mem_append_right line List.mem_cons_self) hpart
          | notText hline' hnot _ =>
              obtain ⟨rfl, -⟩ := append_cons_inj hline hline' hbehind
              exact absurd htext hnot
      | line hline' _ hwhole =>
          rw [List.append_assoc, List.cons_append] at hbehind
          obtain ⟨rfl, hlater⟩ := append_cons_inj hline hline' hbehind
          obtain ⟨between, rfl⟩ := ih hwhole ⟨behind, hlater⟩
          exact ⟨between, by simp⟩

theorem Whole.longestWhole {whole rest : List UInt8} (hwhole : Whole whole) (hrest : Stops rest) :
    LongestWhole whole (whole ++ rest) where
  begins := List.prefix_append whole rest
  isWhole := hwhole
  longest := fun _ hbegins hother => (hwhole.isPrefix_of_stops hrest hother hbegins).length_le

/-! ## The lines before the first that is no text -/

/-- The text of the lines of some bytes up to the first one that is not text: all of the bytes if
there is no such line, where the last line need not be closed. -/
inductive LeadingText : List UInt8 → List UInt8 → Prop
  | all {whole last : List UInt8} (hwhole : Whole whole) (hlast : newline ∉ last)
      (htext : IsText last) : LeadingText (whole ++ last) (whole ++ last)
  | before {whole line later : List UInt8} (hwhole : Whole whole) (hline : newline ∉ line)
      (hnot : ¬ IsText line) (hend : later = [] ∨ later.head? = some newline) :
      LeadingText whole (whole ++ (line ++ later))

theorem LeadingText.isText {text bytes : List UInt8} (h : LeadingText text bytes) :
    IsText text := by
  cases h with
  | all hwhole _ htext => exact hwhole.isText_append htext
  | before hwhole _ _ _ => exact hwhole.isText

/-! ## Readings -/

namespace Stream

/-- Complete lines of text are read before anything else is. -/
theorem lines_read_append {whole : List UInt8} (hwhole : Whole whole) (rest : List UInt8)
    (failure : Option String) :
    (read ⟨whole ++ rest, failure⟩).lines =
      (read (finished whole)).lines ++ (read ⟨rest, failure⟩).lines := by
  induction hwhole with
  | nil => rfl
  | line hline htext _ ih =>
      obtain ⟨cs, rfl⟩ := isText_iff.mp htext
      rw [List.append_assoc, List.cons_append, finished,
        read_closed_of_some hline (fromUTF8?_bytesOf cs),
        read_closed_of_some hline (fromUTF8?_bytesOf cs), ih]
      rfl

/-- A line that is not text ends the reading, whether a newline closes it or the stream ends. -/
theorem lines_read_of_not_isText {line later : List UInt8} (hline : newline ∉ line)
    (hnot : ¬ IsText line) (hend : later = [] ∨ later.head? = some newline)
    (failure : Option String) : (read ⟨line ++ later, failure⟩).lines = [] := by
  have hnone : String.fromUTF8? ⟨line.toArray⟩ = none := dif_neg hnot
  rcases hend with rfl | hhead
  · have hne : line ≠ [] := by
      rintro rfl
      exact hnot (isText_iff.mpr ⟨[], rfl⟩)
    rw [List.append_nil]
    cases failure with
    | none => exact congrArg (·.lines) (read_last_of_none hline hne hnone)
    | some cause => exact congrArg (·.lines) (read_failed hline cause)
  · obtain ⟨behind, rfl⟩ := List.head?_eq_some_iff.mp hhead
    rw [read_closed_of_none hline hnone]

/-- Where no complete line of text follows, a stream that fails gives no line more. -/
theorem lines_read_of_stops {rest : List UInt8} (h : Stops rest) (cause : String) :
    (read ⟨rest, some cause⟩).lines = [] := by
  cases h with
  | unclosed hpart => rw [read_failed hpart]
  | notText hline hnot later => exact lines_read_of_not_isText hline hnot (.inr rfl) _

/-- A stream that fails gives the lines of its complete lines of text and no other. -/
theorem lines_read_failing {whole rest : List UInt8} (hwhole : Whole whole) (hrest : Stops rest)
    (cause : String) :
    (read ⟨whole ++ rest, some cause⟩).lines = (read (finished whole)).lines := by
  rw [lines_read_append hwhole, lines_read_of_stops hrest, List.append_nil]

/-- The failure is within the two bytes of the last letter. -/
example :
    (Source.failingAfter 9 "gone" "a: 1\nb: é\n".toUTF8.data.toList).reading.lines = ["a: 1"] := by
  decide +kernel

/-- A stream that ends gives the lines up to the first one that is not text. -/
theorem lines_read_of_leadingText {text bytes : List UInt8} (h : LeadingText text bytes) :
    (read (finished bytes)).lines = (read (finished text)).lines := by
  cases h with
  | all => rfl
  | before hwhole hline hnot hend =>
      rw [finished, lines_read_append hwhole, lines_read_of_not_isText hline hnot hend,
        List.append_nil]

end Stream

theorem exists_longestWhole (bytes : List UInt8) :
    ∃ whole rest, bytes = whole ++ rest ∧ LongestWhole whole bytes ∧ Stops rest := by
  obtain ⟨whole, rest, rfl, hwhole, hrest⟩ := exists_whole_append_stops bytes
  exact ⟨whole, rest, rfl, hwhole.longestWhole hrest, hrest⟩

theorem exists_leadingText (bytes : List UInt8) : ∃ text, LeadingText text bytes := by
  obtain ⟨whole, rest, rfl, hwhole, hrest⟩ := exists_whole_append_stops bytes
  cases hrest with
  | unclosed hpart =>
      by_cases htext : IsText rest
      · exact ⟨_, .all hwhole hpart htext⟩
      · refine ⟨whole, ?_⟩
        rw [← List.append_nil rest]
        exact .before hwhole hpart htext (.inl rfl)
  | notText hline hnot later => exact ⟨whole, .before hwhole hline hnot (.inr rfl)⟩

end Text

namespace IntelGpu

open DrmUsage.Text (newline)

/-- Of a stream that fails after some bytes, a GPU makes what it makes of the longest beginning of
these bytes that is made of complete lines of text: verdict, usage and GPU are the same. Of a
stream that ends, it makes what it makes of the text of the lines up to the first one that is not
text. So the part of a line in front of a failure never counts, and every complete line does. -/
theorem read_cut_short (gpu : IntelGpu) (bytes : List UInt8) (usage : Usage) (now : Instant)
    (count : Nat) (cause : String) :
    let outcome := fun source : Text.Source => (read now source usage gpu).value.toOutcome
    (∃ text : String, Text.LongestWhole text.toByteArray.data.toList (bytes.take count) ∧
      outcome (.failingAfter count cause bytes) =
        outcome (.finished text.toByteArray.data.toList)) ∧
    (∃ text : String, Text.LeadingText text.toByteArray.data.toList bytes ∧
      outcome (.finished bytes) = outcome (.finished text.toByteArray.data.toList)) ∧
    ∀ whole part, bytes.take count = whole ++ part → Text.Whole whole → newline ∉ part →
      outcome (.failingAfter count cause bytes) = outcome (.finished whole) := by
  intro outcome
  have hfailing : ∀ whole rest, bytes.take count = whole ++ rest → Text.Whole whole →
      Text.Stops rest → outcome (.failingAfter count cause bytes) = outcome (.finished whole) := by
    intro whole rest hbytes hwhole hrest
    have hlines : (Text.Source.failingAfter count cause bytes).reading.lines =
        (Text.Source.finished whole).reading.lines := by
      rw [Text.Source.reading, Text.Source.reading, Text.Source.stream_failingAfter,
        Text.Source.stream_finished, hbytes]
      exact Text.Stream.lines_read_failing hwhole hrest cause
    simp only [outcome, toOutcome_read, hlines]
  refine ⟨?_, ?_, ?_⟩
  · obtain ⟨whole, rest, hbytes, hlongest, hrest⟩ := Text.exists_longestWhole (bytes.take count)
    obtain ⟨text, rfl⟩ := Text.exists_string_of_isText hlongest.isWhole.isText
    exact ⟨text, hlongest, hfailing _ rest hbytes hlongest.isWhole hrest⟩
  · obtain ⟨text, hleading⟩ := Text.exists_leadingText bytes
    obtain ⟨text, rfl⟩ := Text.exists_string_of_isText hleading.isText
    have hlines : (Text.Source.finished bytes).reading.lines =
        (Text.Source.finished text.toByteArray.data.toList).reading.lines := by
      rw [Text.Source.reading, Text.Source.reading, Text.Source.stream_finished,
        Text.Source.stream_finished]
      exact Text.Stream.lines_read_of_leadingText hleading
    exact ⟨text, hleading, by simp only [outcome, toOutcome_read, hlines]⟩
  · intro whole part hbytes hwhole hpart
    exact hfailing whole part hbytes hwhole (.unclosed hpart)

end IntelGpu

end DrmUsage

-- SUMMARY: Reading a source line by line until it stops comes to what its reading as a whole reports.
import DrmUsage.Intel.Gpu
import DrmUsage.Proofs.Cuts
import DrmUsage.Proofs.RecordMeaning
import DrmUsage.Text.Encoding

/-!
# The loop over a record

A GPU asks its source for one line after the other and looks at each before it asks for the next.
What it makes of the record can be told of the reading as a whole: of the lines that the source
gives before it ends, fails or is no text, and of the failure if there is one
(`IntelGpu.outcome_read`). Neither the buffer nor an interruption has a part in it.
-/

namespace DrmUsage

namespace Text

/-! ## One line -/

namespace Source

/-- What is taken off a source, and the stream of the whole. -/
inductive Taken.Begins : Taken → Stream → Prop
  | failed {bytes : List UInt8} {cause : String} {rest : List Item} (h : newline ∉ bytes) :
      Begins ⟨bytes, some cause, rest⟩ ⟨bytes, some cause⟩
  | closed {line : List UInt8} {rest : List Item} (h : newline ∉ line) :
      Begins ⟨line ++ [newline], none, rest⟩
        ⟨line ++ newline :: (streamOf rest).bytes, (streamOf rest).failure⟩
  | last {bytes : List UInt8} (h : newline ∉ bytes) :
      Begins ⟨bytes, none, []⟩ (.finished bytes)

theorem begins_takeLine (items : List Item) : (takeLine items).Begins (streamOf items) := by
  induction items with
  | nil => exact .last List.not_mem_nil
  | cons item later ih =>
      cases item with
      | interrupted => exact ih
      | failed cause => exact .failed List.not_mem_nil
      | byte b =>
          by_cases hb : b = newline
          · rw [takeLine, if_pos hb, hb]
            exact @Taken.Begins.closed [] later List.not_mem_nil
          · rw [takeLine, if_neg hb, streamOf]
            have hcons {bytes : List UInt8} (h : newline ∉ bytes) : newline ∉ b :: bytes :=
              List.not_mem_cons_of_ne_of_not_mem (Ne.symm hb) h
            generalize takeLine later = taken at ih
            generalize streamOf later = stream at ih
            cases ih with
            | failed h => exact .failed (hcons h)
            | closed h => exact .closed (hcons h)
            | last h => exact .last (hcons h)

end Source

/-- A line that was read into an empty buffer, and the reading of the whole source. -/
inductive Source.LineRead.Heads : LineRead → Reading → Prop
  | atEnd {rest : Source} : Heads ⟨.ok 0, "", rest⟩ ⟨[], none⟩
  | line {count : Nat} {text line : String} {rest : Source}
      (h : text = line ∨ text = line ++ "\n") :
      Heads ⟨.ok (count + 1), text, rest⟩ ⟨line :: rest.reading.lines, rest.reading.failure⟩
  | stopped {cause : ReadFailure} {text : String} {rest : Source} :
      Heads ⟨.error cause, text, rest⟩ ⟨[], some cause⟩

theorem Source.heads_readLine (source : Source) : (source.readLine "").Heads source.reading := by
  have hbegins := begins_takeLine source.items
  unfold readLine reading stream
  generalize takeLine source.items = taken at hbegins ⊢
  generalize streamOf source.items = stream at hbegins ⊢
  cases hbegins with
  | failed h =>
      rw [Stream.read_failed h]
      exact .stopped
  | @closed line rest h =>
      dsimp only
      rw [fromUTF8?_concat_newline]
      cases htext : String.fromUTF8? ⟨line.toArray⟩ with
      | none =>
          rw [Stream.read_closed_of_none h htext]
          exact .stopped
      | some text =>
          rw [Stream.read_closed_of_some h htext, List.length_append]
          exact @LineRead.Heads.line line.length _ text ⟨rest⟩ (.inr String.empty_append)
  | @last bytes h =>
      dsimp only
      by_cases hne : bytes = []
      · subst hne
        exact .atEnd
      · cases htext : String.fromUTF8? ⟨bytes.toArray⟩ with
        | none =>
            rw [Stream.read_last_of_none h hne htext]
            exact .stopped
        | some text =>
            obtain ⟨count, hcount⟩ := Nat.exists_eq_succ_of_ne_zero
              (fun h => hne (List.length_eq_zero_iff.mp h))
            rw [Stream.read_last_of_some h hne htext, hcount]
            exact @LineRead.Heads.line count _ text ⟨[]⟩ (.inl String.empty_append)

end Text

/-! ## Fields of a line -/

/-- A blank at the end of a line belongs to no field. -/
theorem Field.ofLine?_concat_of_isBlank {c : Char} (h : Text.isBlank c = true) (cs : List Char) :
    ofLine? (String.ofList (cs ++ [c])) = ofLine? (String.ofList cs) := by
  have hcolon : c ≠ ':' := by
    rintro rfl
    exact absurd h (by decide)
  simp only [ofLine?, String.toList_ofList, Text.splitFirst_concat hcolon]
  cases Text.splitFirst ':' cs with
  | none => rfl
  | some cut =>
      simp only [Option.map_some, Option.bind_some, Text.trimChars_concat_of_isBlank h]

/-- The newline that closes a line belongs to no field. -/
theorem Field.ofLine?_append_newline (line : String) : ofLine? (line ++ "\n") = ofLine? line := by
  have hline : line ++ "\n" = String.ofList (line.toList ++ ['\n']) := by
    simp
  rw [hline, ofLine?_concat_of_isBlank (by decide), String.ofList_toList]

/-! ## All lines -/

/-- Tells why a reading stopped early, if it did. -/
def Text.Reading.noteFailure (pid : Int32) (reading : Text.Reading) : Logged Unit :=
  match reading.failure with
  | none => pure ()
  | some cause => Logged.note (.readingStopped pid cause)

namespace IntelReport

variable {pid : Int32} {pdev : String} {source : Text.Source} {buffer : String}
  {report : IntelReport}

/-- What the lines of a reading add to a report; none if a field is foreign. -/
def collectAll (pid : Int32) (pdev : String) (reading : Text.Reading) (report : IntelReport) :
    Logged (Option IntelReport) :=
  match (Record.fieldsOf reading.lines).foldlM (absorb pdev) report with
  | none => pure none
  | some report => do
    reading.noteFailure pid
    pure (some report)

theorem collectAll_cons_of_none {line : String} (h : Field.ofLine? line = none)
    (later : List String) (failure : Option Text.ReadFailure) :
    collectAll pid pdev ⟨line :: later, failure⟩ report =
      collectAll pid pdev ⟨later, failure⟩ report := by
  simp only [collectAll, Record.fieldsOf, List.filterMap_cons, h]
  rfl

theorem collectAll_cons_of_some {line : String} {field : Field}
    (h : Field.ofLine? line = some field) (later : List String)
    (failure : Option Text.ReadFailure) :
    collectAll pid pdev ⟨line :: later, failure⟩ report =
      match report.absorb pdev field with
      | none => pure none
      | some report => collectAll pid pdev ⟨later, failure⟩ report := by
  simp only [collectAll, Record.fieldsOf, List.filterMap_cons, h, List.foldlM_cons]
  cases report.absorb pdev field <;> rfl

/-- What is reported hangs on the lines read, and not on how the reading ended. -/
theorem value_collectAll (pid : Int32) (pdev : String) (reading : Text.Reading) :
    (collectAll pid pdev reading .empty).value = ofLines? pdev reading.lines := by
  unfold collectAll ofLines? ofFields?
  cases (Record.fieldsOf reading.lines).foldlM (absorb pdev) empty <;> rfl

theorem collectAll_ofText (pid : Int32) (pdev record : String) :
    collectAll pid pdev (.ofText record) .empty = pure (ofLines? pdev (Text.linesOf record)) := by
  unfold collectAll ofLines? ofFields?
  rw [Text.Reading.lines_ofText]
  cases (Record.fieldsOf (Text.linesOf record)).foldlM (absorb pdev) empty <;> rfl

/-- The loop reports what all lines of the reading add, whatever is in the buffer. -/
theorem fst_collect (pid : Int32) (pdev : String) (source : Text.Source) (buffer : String)
    (report : IntelReport) :
    Prod.fst <$> collect pid pdev source buffer report =
      collectAll pid pdev source.reading report := by
  -- Each line leaves fewer items in the source.
  induction hn : source.items.length using Nat.strong_induction_on
    generalizing source buffer report with
  | _ n ih =>
      have hheads := source.heads_readLine
      have hshorter := @Text.Source.length_rest_readLine source ""
      rw [collect, cleared]
      generalize source.readLine "" = read at hheads hshorter ⊢
      generalize source.reading = reading at hheads ⊢
      cases hheads with
      | atEnd => rfl
      | stopped => rfl
      | @line count text line rest htext =>
          have hrest : rest.items.length < n := by
            have hless : rest.items.length + (count + 1) ≤ source.items.length := hshorter rfl
            omega
          have hfield : Field.ofLine? text = Field.ofLine? line := by
            rcases htext with rfl | rfl
            · rfl
            · exact Field.ofLine?_append_newline line
          dsimp only
          rw [hfield]
          cases hline : Field.ofLine? line with
          | none =>
              rw [collectAll_cons_of_none hline]
              exact ih _ hrest rest text report rfl
          | some field =>
              rw [collectAll_cons_of_some hline]
              dsimp only
              cases report.absorb pdev field with
              | none => rfl
              | some report => exact ih _ hrest rest text report rfl

end IntelReport

namespace IntelGpu

/-- What a GPU makes of a reading as a whole. -/
def ofReading (now : Instant) (reading : Text.Reading) (usage : Usage) (gpu : IntelGpu) :
    Logged (Outcome IntelGpu) := do
  let report ← IntelReport.collectAll usage.pid gpu.pdev reading .empty
  gpu.judge now usage report

/-- Reading a source line by line until it stops comes to what its reading as a whole does. -/
theorem outcome_read (now : Instant) (source : Text.Source) (usage : Usage) (gpu : IntelGpu) :
    (·.toOutcome) <$> read now source usage gpu = ofReading now source.reading usage gpu := by
  rw [ofReading, ← IntelReport.fst_collect _ _ source "", bind_map_left]
  simp only [read, map_bind, map_pure, bind_pure]

/-- A reading that is interrupted goes on as if nothing had happened. -/
theorem outcome_read_uninterrupted (now : Instant) (source : Text.Source) (usage : Usage)
    (gpu : IntelGpu) :
    (·.toOutcome) <$> read now source.uninterrupted usage gpu =
      (·.toOutcome) <$> read now source usage gpu := by
  rw [outcome_read, outcome_read, Text.Source.reading, Text.Source.reading,
    Text.Source.stream_uninterrupted]

/-- What a GPU makes of a record from a source of its own. -/
def readRecord (now : Instant) (record : String) (usage : Usage) (gpu : IntelGpu) :
    Logged (Outcome IntelGpu) :=
  (·.toOutcome) <$> read now (.ofText record) usage gpu

theorem toOutcome_read_toByteArray (now : Instant) (record : String) (usage : Usage)
    (gpu : IntelGpu) :
    (read now (.finished record.toByteArray.data.toList) usage gpu).value.toOutcome =
      (readRecord now record usage gpu).value := by
  rw [Text.Source.finished_toByteArray]
  rfl

/-- A text is read to its end, so nothing is noted of the reading. -/
theorem readRecord_eq (now : Instant) (record : String) (usage : Usage) (gpu : IntelGpu) :
    readRecord now record usage gpu =
      gpu.judge now usage (IntelReport.ofLines? gpu.pdev (Text.linesOf record)) := by
  rw [readRecord, outcome_read, Text.Source.reading_ofText, ofReading,
    IntelReport.collectAll_ofText, pure_bind]

/-- Verdict, usage and GPU hang on the lines that the source gives before it stops. -/
theorem toOutcome_read (now : Instant) (source : Text.Source) (usage : Usage) (gpu : IntelGpu) :
    (read now source usage gpu).value.toOutcome =
      (gpu.judge now usage (IntelReport.ofLines? gpu.pdev source.reading.lines)).value := by
  have hvalue := congrArg (·.value) (outcome_read now source usage gpu)
  rw [Logged.value_map, ofReading, Logged.value_bind, IntelReport.value_collectAll] at hvalue
  exact hvalue

end IntelGpu

end DrmUsage

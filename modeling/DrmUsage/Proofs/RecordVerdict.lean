-- SUMMARY: What a GPU makes of the text of any record: the verdict, the client and times that count, and what is stored.
import DrmUsage.Proofs.Cuts
import DrmUsage.Proofs.IntelHub
import DrmUsage.Text.Encoding

/-!
# The verdict on a record

The fields of a record can be said of its text as a whole: between two newlines
stands a line, and what is before and behind its first colon are key and value.
Every line counts alike, and nothing depends on what the GPU read before. The
reading that a GPU does, byte by byte and with an early end at a foreign
address, comes to the same (`IntelGpu.read_shown`).
-/

namespace DrmUsage

/-! ## Fields of a text -/

/-- The field that a line shows: the texts before and behind its first colon, without the blanks
around them, if there is a colon and the first of them is not empty. -/
def Field.shown? (line : List Char) : Option Field :=
  let key := Text.trimChars (line.takeWhile (· ≠ ':'))
  let value := Text.trimChars (line.dropWhile (· ≠ ':')).tail
  if ':' ∈ line ∧ key ≠ [] then some ⟨String.ofList key, String.ofList value⟩ else none

theorem Field.shown?_eq (line : List Char) :
    Field.shown? line = Field.ofLine? (String.ofList line) := by
  unfold shown? ofLine?
  rw [String.toList_ofList, Text.splitFirst_eq]
  by_cases hc : ':' ∈ line
  · simp [hc, List.isEmpty_iff]
  · simp [hc]

namespace Record

/-- The fields between the newlines of a text. -/
def shown (record : String) : List Field := (record.toList.splitOn '\n').filterMap Field.shown?

theorem shown_eq (record : String) : shown record = fieldsOf (Text.linesOf record) := by
  unfold shown fieldsOf Text.linesOf
  rw [Text.filterMap_splitOn rfl, List.filterMap_map]
  exact List.filterMap_congr fun line _ => Field.shown?_eq line

example : shown " a :\tb:c \r\n: value\nno colon\n\nkey:" = [⟨"a", "b:c"⟩, ⟨"key", ""⟩] := by
  decide +kernel

/-- The last of some values that can be read, and what it reads as. -/
def LastReadable {α : Type} (read : String → Option α) (values : List String) (a : α) : Prop :=
  ∃ earlier value later, values = earlier ++ value :: later ∧ read value = some a ∧
    ∀ v ∈ later, read v = none

theorem lastReadable_eq_some_iff {α : Type} {read : String → Option α} {values : List String}
    {a : α} : lastReadable read values = some a ↔ LastReadable read values a := by
  unfold lastReadable LastReadable
  rw [← List.getLast?_filterMap]
  exact Text.getLast?_filterMap_eq_some_iff

theorem isSome_lastReadable_iff {α : Type} {read : String → Option α} {values : List String} :
    (lastReadable read values).isSome ↔ ∃ value ∈ values, (read value).isSome := by
  unfold lastReadable
  simp only [List.findSome?_isSome_iff, List.mem_reverse]

theorem concerns_iff {pdev record : String} :
    Concerns pdev record ↔
      (∀ value ∈ valuesIn pdevKey (shown record), value = pdev) ∧
        ∃ value ∈ valuesIn clientIdKey (shown record), (Text.uint32? value).isSome := by
  rw [shown_eq, ← isSome_lastReadable_iff]
  rfl

end Record

namespace IntelGpu

open Record

/-- A GPU accepts a record exactly if every address in it is its own and some number of a client
can be read, whatever it read before. The client is then the last one that can be read, and so is
the time of each class of engines. The times that are told are written over those of the usage;
what becomes of the cache and of the shares is the matter of recording the client once. A record
that is rejected leaves no trace. -/
theorem read_shown (gpu : IntelGpu) (record : String) (usage : Usage) (now : Instant) :
    let answer :=
      (read now (Text.Source.finished record.toByteArray.data.toList) usage gpu).value
    -- the verdict
    (answer.accepted = true ↔
      (∀ value ∈ valuesIn pdevKey (shown record), value = gpu.pdev) ∧
        ∃ value ∈ valuesIn clientIdKey (shown record), (Text.uint32? value).isSome) ∧
    -- an accepted record
    (answer.accepted = true → ∃ id times,
      LastReadable Text.uint32? (valuesIn clientIdKey (shown record)) id ∧
      (∀ e ns, times.get e = some ns ↔
        LastReadable busyTime? (valuesIn e.recordKey (shown record)) ns) ∧
      let told : Usage :=
        { usage with
          renderTime := (times.get .render).or usage.renderTime
          decodeTime := (times.get .video).or usage.decodeTime
          encodeTime := (times.get .videoEnhance).or usage.encodeTime }
      let recording := gpu.cache.record ⟨id, usage.pid⟩ times now told
      answer.usage = recording.usage ∧ answer.state = { gpu with cache := recording.cache } ∧
        ∀ refusal, recording.answer = .error refusal →
          answer.usage = told ∧ answer.state = gpu) ∧
    -- a rejected record
    (answer.accepted = false → answer.usage = usage ∧ answer.state = gpu) := by
  intro answer
  have hanswer : answer.toOutcome = (readRecord now record usage gpu).value :=
    toOutcome_read_toByteArray ..
  by_cases hc : Concerns gpu.pdev record
  · obtain ⟨id, hid⟩ := Option.isSome_iff_exists.mp hc.2
    rw [readRecord_of_belongs hc.1 hid] at hanswer
    have haccepted : answer.accepted = true := by rw [hanswer, value_accept]
    refine ⟨iff_of_true haccepted (concerns_iff.mp hc), fun _ => ⟨id, times record, ?_, ?_, ?_⟩, ?_⟩
    · rw [shown_eq, ← lastReadable_eq_some_iff]
      exact hid
    · intro e ns
      rw [shown_eq, ← lastReadable_eq_some_iff, get_times]
      rfl
    · intro told recording
      rw [hanswer, value_accept_eq_record]
      refine ⟨rfl, rfl, ?_⟩
      intro refusal hrefused
      have hm := (SampleCache.answer_record_eq_error_iff.mp hrefused).1
      rw [SampleCache.record_of_mem hm]
      exact ⟨rfl, rfl⟩
    · intro hrejected
      rw [haccepted] at hrejected
      exact absurd hrejected (by decide)
  · rw [readRecord_of_not_concerns hc] at hanswer
    have hrejected : answer.accepted = false := by rw [hanswer]; rfl
    have hnot : ¬ answer.accepted = true := by rw [hrejected]; exact Bool.false_ne_true
    refine ⟨iff_of_false hnot fun h => hc (concerns_iff.mpr h), fun h => absurd h hnot, fun _ => ?_⟩
    rw [hanswer]
    exact ⟨rfl, rfl⟩

end IntelGpu

end DrmUsage

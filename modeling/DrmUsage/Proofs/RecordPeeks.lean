-- SUMMARY: What is peeked of a record before anybody reads it agrees with what the GPU that accepts it makes of it.
import DrmUsage.Proofs.RecordVerdict

/-!
# Peeks at a record

A record is peeked at before it is offered to anybody: the first address and the
first number of a client tell whether it was seen before. Two readings meet here.
The peek takes the text apart as text, whose lines may end in a newline or in a
carriage return and a newline, and stops at the first field under a key. The GPU
reads the bytes up to each newline and goes through all fields. They come to the
same address wherever a record is accepted, and to the same client wherever it
has one number (`IntelGpu.peek_of_accepted`).
-/

namespace DrmUsage

/-! ## Ends of lines -/

namespace Text

/-- A line without the carriage return that closed it together with a newline. -/
def withoutReturn (line : List Char) : List Char :=
  if line.getLast? = some '\r' then line.dropLast else line

/-- The lines of a text, each without the newline, or the carriage return and the newline, that
closed it. Nothing is taken from a line that was not closed. -/
def bareLines (cs : List Char) : List (List Char) :=
  let (closed, rest) := closedLines '\n' cs
  closed.map withoutReturn ++ if rest.isEmpty then [] else [rest]

end Text

/-- A carriage return at the end of a line belongs to no field. -/
theorem Field.shown?_withoutReturn (line : List Char) :
    Field.shown? (Text.withoutReturn line) = Field.shown? line := by
  unfold Text.withoutReturn
  split
  · rename_i hreturn
    obtain ⟨front, rfl⟩ := List.getLast?_eq_some_iff.mp hreturn
    rw [List.dropLast_concat, Field.shown?_eq, Field.shown?_eq,
      Field.ofLine?_concat_of_isBlank (by decide)]
  · rfl

namespace Record

/-- The fields that are seen of a text in its bare lines. -/
def peeked (record : String) : List Field :=
  (Text.bareLines record.toList).filterMap Field.shown?

/-- How the lines of a record end does not change its fields. -/
theorem peeked_eq (record : String) : peeked record = fieldsOf (Text.linesOf record) := by
  have hshown : Field.shown? ∘ Text.withoutReturn = Field.shown? :=
    funext Field.shown?_withoutReturn
  unfold peeked Text.bareLines
  rw [List.filterMap_append, List.filterMap_map, hshown, ← shown_eq]
  unfold shown
  rw [Text.filterMap_splitOn rfl]
  unfold Text.lines
  cases hrest : (Text.closedLines '\n' record.toList).2 with
  | nil => simp [hrest]
  | cons c rest => simp [hrest]

example :
    peeked "a:\tb\r\n\u00a0c\u2003:d\r" = [⟨"a", "b"⟩, ⟨"c", "d"⟩] := by
  decide +kernel

end Record

/-! ## Peek and reading -/

namespace IntelGpu

open Record

/-- The peek takes the first field under each key, however the lines end. Of a record that a GPU
accepts, it sees no other address than that of the GPU; and if there is one number of a client, it
sees the client under which the GPU keeps the times of the record, so that nothing else changes in
the cache. -/
theorem peek_of_accepted {gpu : IntelGpu} {record : String} {usage : Usage} {now : Instant}
    (haccepted : (read now (Text.Source.finished record.toByteArray.data.toList)
      usage gpu).value.accepted = true) :
    let answer :=
      (read now (Text.Source.finished record.toByteArray.data.toList) usage gpu).value
    -- the peeks
    pdev? record = (valuesIn pdevKey (peeked record)).head? ∧
    clientId? record = (valuesIn clientIdKey (peeked record)).head?.bind Text.uint32? ∧
    -- the address
    (pdev? record = none ∨ pdev? record = some gpu.pdev) ∧
    -- the client
    ((valuesIn clientIdKey (shown record)).length = 1 →
      ∃ client : Client, clientId? record = some client.id ∧ client.pid = usage.pid ∧
        answer.state = gpu.keep ⟨client, times record, now⟩ ∧
        client ∈ answer.state.cache.current ∧
        ∀ other ≠ client,
          answer.state.cache.current[other]? = gpu.cache.current[other]? ∧
          answer.state.cache.previous[other]? = gpu.cache.previous[other]?) := by
  intro answer
  have hanswer : answer.toOutcome = (readRecord now record usage gpu).value :=
    toOutcome_read_toByteArray ..
  have hconcerns : Concerns gpu.pdev record := by
    by_contra hforeign
    have hrejected : answer.accepted = false := by
      rw [hanswer, readRecord_of_not_concerns hforeign]
      rfl
    exact Bool.false_ne_true (hrejected.symm.trans haccepted)
  obtain ⟨id, hid⟩ := Option.isSome_iff_exists.mp hconcerns.2
  have hstate : answer.state = gpu.keep ⟨⟨id, usage.pid⟩, times record, now⟩ := by
    rw [hanswer, readRecord_of_belongs hconcerns.1 hid, value_accept]
  have hpdev : pdev? record = (values pdevKey record).head? := firstValue?_eq_head? ..
  refine ⟨?_, ?_, ?_, ?_⟩
  · rw [peeked_eq, hpdev]
    rfl
  · rw [peeked_eq]
    exact congrArg (·.bind Text.uint32?) (firstValue?_eq_head? ..)
  · rw [hpdev]
    cases hvalues : values pdevKey record with
    | nil => exact .inl rfl
    | cons value later =>
        have hvalue : value = gpu.pdev := by
          apply hconcerns.1
          rw [hvalues]
          exact List.mem_cons_self
        exact .inr (congrArg some hvalue)
  · intro hone
    rw [shown_eq] at hone
    obtain ⟨number, hnumber⟩ := List.length_eq_one_iff.mp hone
    refine ⟨⟨id, usage.pid⟩, (clientId?_eq_lastClientId? hnumber).trans hid, rfl, hstate, ?_, ?_⟩
    · rw [hstate]
      exact SampleCache.mem_current_keep _ _
    · intro other hother
      rw [hstate]
      exact SampleCache.getElem?_keep_of_ne _ hother.symm

/-- A record with ends of lines and blanks of several kinds. Its last line, with the number of the
client, is not closed. -/
def unevenlyWritten : String :=
  "no field\r\n\u00a0drm-pdev :\u20030000:00:02.0\r\ndrm-engine-render:\t10 ns\n" ++
    "\tdrm-client-id:\u00855 \r"

theorem peek_of_accepted_unevenlyWritten :
    let answer := (read ⟨1000⟩
      (Text.Source.finished unevenlyWritten.toByteArray.data.toList) (.ofPid 7)
      (.at "0000:00:02.0")).value
    answer.accepted = true ∧ (valuesIn clientIdKey (shown unevenlyWritten)).length = 1 ∧
      pdev? unevenlyWritten = some "0000:00:02.0" ∧ clientId? unevenlyWritten = some 5 ∧
      ⟨5, 7⟩ ∈ answer.state.cache.current := by
  intro answer
  have haccepted : answer.accepted = true := by decide +kernel
  have hone : (valuesIn clientIdKey (shown unevenlyWritten)).length = 1 := by decide +kernel
  have hpdev : pdev? unevenlyWritten ≠ none := by decide +kernel
  have hid : clientId? unevenlyWritten = some 5 := by decide +kernel
  obtain ⟨-, -, haddress, hclient⟩ := peek_of_accepted haccepted
  obtain ⟨⟨id, pid⟩, hpeek, hpid, -, hkept, -⟩ := hclient hone
  obtain rfl : id = 5 := Option.some.inj (hpeek.symm.trans hid)
  obtain rfl : pid = 7 := hpid
  exact ⟨haccepted, hone, haddress.resolve_left hpdev, hid, hkept⟩

end IntelGpu

end DrmUsage

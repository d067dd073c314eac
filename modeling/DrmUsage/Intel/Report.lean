-- SUMMARY: What the fields of a record report of one client of an Intel GPU.
import DrmUsage.Engine
import DrmUsage.Logged
import DrmUsage.Record
import DrmUsage.Text.Source

/-!
# Reports

The driver of Intel GPUs writes a client's number and the busy time of each
class of engines. A record may hold any field more than once: the last one that
can be read counts. One field with the address of another device makes the whole
record foreign, wherever it stands. A record is read line by line until then, or
until the source gives no more (`IntelReport.collect`).
-/

namespace DrmUsage

/-- What the fields of a record reported so far. -/
structure IntelReport where
  clientId : Option UInt32 := none
  times : BusyTimes := {}
deriving DecidableEq, Repr, Inhabited

namespace IntelReport

/-- Nothing was reported yet. -/
def empty : IntelReport := {}

/-- The report with one more field. None if the field says that the record
belongs to another device than the one at `pdev`. -/
def absorb (pdev : String) (report : IntelReport) (field : Field) : Option IntelReport :=
  if field.key = Record.pdevKey then
    if field.value = pdev then some report else none
  else if field.key = Record.clientIdKey then
    some { report with clientId := (Text.uint32? field.value).or report.clientId }
  else
    match Engine.ofRecordKey? field.key, Record.busyTime? field.value with
    | some e, some ns => some { report with times := report.times.set e ns }
    | _, _ => some report

/-- A buffer without what it held. -/
def cleared (_ : String) : String := ""

/-- Reads the rest of a record line by line, each into the buffer of the one
before, and tells what is left of the source. None if a field is foreign; what
was reported until then does not count. -/
def collect (pid : Int32) (pdev : String) (source : Text.Source) (buffer : String)
    (report : IntelReport) : Logged (Option IntelReport × Text.Source) :=
  let line := source.readLine (cleared buffer)
  match _h : line.answer with
  | .ok 0 => pure (some report, line.rest)
  | .ok (_ + 1) =>
    match Field.ofLine? line.buffer with
    | none => collect pid pdev line.rest line.buffer report
    | some field =>
      match report.absorb pdev field with
      | none => pure (none, line.rest)
      | some report => collect pid pdev line.rest line.buffer report
  | .error cause => do
    Logged.note (.readingStopped pid cause)
    pure (some report, line.rest)
termination_by source.items.length
decreasing_by
  all_goals
    have := Text.Source.length_rest_readLine _h
    omega

end IntelReport

/-- The usage with the busy times that are known written over its own. Those of
the copy engines are not reported. -/
def Usage.withTimes (usage : Usage) (times : BusyTimes) : Usage :=
  { usage with
    renderTime := times.render.or usage.renderTime
    decodeTime := times.video.or usage.decodeTime
    encodeTime := times.videoEnhance.or usage.encodeTime }

end DrmUsage

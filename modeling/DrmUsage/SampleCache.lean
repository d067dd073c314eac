-- SUMMARY: The samples of two polling cycles: those of this one, and those of the one before, from which busy shares follow.
import Std.Data.ExtTreeMap
import DrmUsage.Engine
import DrmUsage.Instant
import DrmUsage.Percentage
import DrmUsage.Usage

/-!
# Samples of two cycles

Records give cumulative counters, so a busy share needs two of them. A cache
keeps two generations of samples: those taken in the cycle before, until they
are used, and those taken in this one. Closing a cycle forgets whatever was not
seen in it. A client is recorded once in a cycle; a second sample is refused and
changes nothing (`record_of_mem`). That is how the cache is built for release:
with debug assertions a second sample ends the program instead.

The generations are maps without an order of their own, so two caches are equal
exactly when they answer every look-up alike.
-/

namespace DrmUsage

/-! ## Samples -/

/-- The busy times of one client at an instant. -/
structure Sample where
  client : Client
  times : BusyTimes
  takenAt : Instant
deriving DecidableEq, Repr

/-- The busy share of an engine class from a sample to later times; unknown
unless both have a time for the class. -/
def Sample.share (earlier : Sample) (times : BusyTimes) (now : Instant) (e : Engine) :
    Option UInt32 :=
  match times.get e, earlier.times.get e with
  | some current, some previous =>
    busyPercent current previous (now.elapsedSince earlier.takenAt)
  | _, _ => none

/-- The usage with the shares that are known written over its own. The share of
the copy engines is not reported. -/
def Usage.withShares (usage : Usage) (share : Engine → Option UInt32) : Usage :=
  { usage with
    renderShare := (share .render).or usage.renderShare
    decodeShare := (share .video).or usage.decodeShare
    encodeShare := (share .videoEnhance).or usage.encodeShare }

/-- Why a sample was refused. -/
inductive Refusal where
  /-- The client was already recorded in this cycle. -/
  | alreadyRecorded (client : Client)
deriving DecidableEq, Repr

/-- The wording of a refusal. -/
def Refusal.message : Refusal → String
  | .alreadyRecorded client =>
    s!"client {client.id.toNat} of pid {client.pid.toInt} already recorded in this cycle"

/-! ## Caches -/

/-- The samples of one cycle. -/
abbrev Generation := Std.ExtTreeMap Client Sample

/-- The samples of this cycle and the unused ones of the cycle before. -/
structure SampleCache where
  previous : Generation := ∅
  current : Generation := ∅

/-- What comes of recording a sample: whether it was refused, and the cache and
the usage afterwards. -/
structure Recording where
  answer : Except Refusal Unit
  cache : SampleCache
  usage : Usage

namespace SampleCache

/-- The cache of a device on which nothing was sampled yet. -/
def empty : SampleCache := {}

instance : Inhabited SampleCache := ⟨empty⟩

/-- The cache with the times of a client moved into this cycle. -/
def recorded (cache : SampleCache) (client : Client) (times : BusyTimes) (now : Instant) :
    SampleCache where
  previous := cache.previous.erase client
  current := cache.current.insert client ⟨client, times, now⟩

/-- The usage with the shares that follow from the cycle before. -/
def withShares (cache : SampleCache) (client : Client) (times : BusyTimes) (now : Instant)
    (usage : Usage) : Usage :=
  match cache.previous[client]? with
  | none => usage
  | some earlier => usage.withShares (earlier.share times now)

/-- Records the times of a client and derives its shares. -/
def record (cache : SampleCache) (client : Client) (times : BusyTimes) (now : Instant)
    (usage : Usage) : Recording :=
  if cache.current.contains client then ⟨.error (.alreadyRecorded client), cache, usage⟩
  else ⟨.ok (), cache.recorded client times now, cache.withShares client times now usage⟩

/-- Closes the cycle: its samples become those of the cycle before. -/
def closeCycle (cache : SampleCache) : SampleCache := ⟨cache.current, ∅⟩

@[simp] theorem previous_closeCycle (cache : SampleCache) :
    cache.closeCycle.previous = cache.current := rfl

@[simp] theorem current_closeCycle (cache : SampleCache) : cache.closeCycle.current = ∅ := rfl

/-- A client already recorded in this cycle is refused, and nothing changes. -/
theorem record_of_mem {cache : SampleCache} {client : Client} (h : client ∈ cache.current)
    (times : BusyTimes) (now : Instant) (usage : Usage) :
    cache.record client times now usage = ⟨.error (.alreadyRecorded client), cache, usage⟩ := by
  simp [record, Std.ExtTreeMap.contains_iff_mem, h]

/-- Any other client is recorded. -/
theorem record_of_not_mem {cache : SampleCache} {client : Client} (h : client ∉ cache.current)
    (times : BusyTimes) (now : Instant) (usage : Usage) :
    cache.record client times now usage =
      ⟨.ok (), cache.recorded client times now, cache.withShares client times now usage⟩ := by
  simp [record, Std.ExtTreeMap.contains_iff_mem, h]

theorem answer_record_eq_error_iff {cache : SampleCache} {client : Client} {times : BusyTimes}
    {now : Instant} {usage : Usage} {refusal : Refusal} :
    (cache.record client times now usage).answer = .error refusal ↔
      client ∈ cache.current ∧ refusal = .alreadyRecorded client := by
  by_cases h : client ∈ cache.current
  · rw [record_of_mem h, Except.error.injEq]
    exact ⟨fun e => ⟨h, e.symm⟩, fun e => e.2.symm⟩
  · rw [record_of_not_mem h]
    exact ⟨fun e => (by cases e), fun e => absurd e.1 h⟩

theorem getElem?_current_recorded (cache : SampleCache) (client c : Client)
    (times : BusyTimes) (now : Instant) :
    (cache.recorded client times now).current[c]? =
      if client = c then some ⟨client, times, now⟩ else cache.current[c]? := by
  simp [recorded, Std.ExtTreeMap.getElem?_insert]

theorem getElem?_previous_recorded (cache : SampleCache) (client c : Client)
    (times : BusyTimes) (now : Instant) :
    (cache.recorded client times now).previous[c]? =
      if client = c then none else cache.previous[c]? := by
  simp [recorded, Std.ExtTreeMap.getElem?_erase]

end SampleCache

end DrmUsage

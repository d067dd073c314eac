-- SUMMARY: A rejected record leaves no trace, wherever its reading breaks off; an accepted one changes the GPU of its listener alone.
import DrmUsage.Proofs.RecordVerdict

/-!
# Rejected records

A GPU can turn a record down at any line: at a foreign address, or where the
reading ends without a client having been told. By then it has collected numbers
and times, and none of them may stay. A reader that keeps this promise is clean.
A hub of clean readers hands a record on from listener to listener as it came,
so only the listener that accepts it leaves a mark, and on its own device
(`Hub.unchanged_of_rejected`).
-/

namespace DrmUsage

/-! ## Clean readers -/

/-- What the reader rejects leaves the usage and the device as they were. -/
def Reader.Clean {δ : Type} (reader : Reader δ) : Prop :=
  ∀ now source usage d, (reader now source usage d).value.accepted = false →
    (reader now source usage d).value.toOutcome = .rejected usage d

namespace IntelGpu

open Record

variable {gpu : IntelGpu} {source : Text.Source}

/-- The lines read tell a client, and no other address than that of the GPU. -/
def Accepts (gpu : IntelGpu) (source : Text.Source) : Prop :=
  BelongsIn gpu.pdev (fieldsOf source.reading.lines) ∧
    (clientIdIn (fieldsOf source.reading.lines)).isSome

theorem accepts_iff :
    gpu.Accepts source ↔
      (∀ value ∈ valuesIn pdevKey (fieldsOf source.reading.lines), value = gpu.pdev) ∧
        ∃ value ∈ valuesIn clientIdKey (fieldsOf source.reading.lines),
          (Text.uint32? value).isSome :=
  and_congr_right fun _ => isSome_lastReadable_iff

theorem toOutcome_read_of_not_accepts (h : ¬ gpu.Accepts source) (now : Instant)
    (usage : Usage) : (read now source usage gpu).value.toOutcome = .rejected usage gpu := by
  rw [toOutcome_read, IntelReport.ofLines?, IntelReport.ofFields?_eq]
  by_cases hb : BelongsIn gpu.pdev (fieldsOf source.reading.lines)
  · have hid : clientIdIn (fieldsOf source.reading.lines) = none := by
      rw [← Option.not_isSome_iff_eq_none]
      exact fun hid => h ⟨hb, hid⟩
    rw [if_pos hb, IntelReport.summary, hid]
    rfl
  · rw [if_neg hb]
    rfl

theorem accepted_read_of_accepts (h : gpu.Accepts source) (now : Instant) (usage : Usage) :
    (read now source usage gpu).value.accepted = true := by
  obtain ⟨hb, hid⟩ := h
  obtain ⟨id, hid⟩ := Option.isSome_iff_exists.mp hid
  rw [toOutcome_read, IntelReport.ofLines?, IntelReport.ofFields?_eq, if_pos hb,
    IntelReport.summary, hid]
  exact congrArg (·.accepted) (value_accept ..)

/-- What was read decides, and neither the usage nor anything that the GPU read before. -/
theorem accepted_read_iff {now : Instant} {usage : Usage} :
    (read now source usage gpu).value.accepted = true ↔ gpu.Accepts source := by
  refine ⟨fun haccepted => ?_, fun h => accepted_read_of_accepts h now usage⟩
  by_contra h
  rw [toOutcome_read_of_not_accepts h] at haccepted
  exact Bool.false_ne_true haccepted

theorem clean_read : Reader.Clean read := by
  intro now source usage gpu hrejected
  apply toOutcome_read_of_not_accepts
  intro h
  rw [accepted_read_of_accepts h] at hrejected
  exact Bool.false_ne_true hrejected.symm

end IntelGpu

/-! ## One listener after the other -/

section

variable {δ : Type} {now : Instant} {record : String} {usage : Usage} {pool : Pool δ}

namespace Listener

variable {l : Listener δ}

theorem value_offerRecord_of_rejected (hclean : l.reader.Clean)
    (hrejected : (l.offerRecord now record usage pool).value.accepted = false) :
    (l.offerRecord now record usage pool).value = .rejected usage pool := by
  cases hd : pool.get? l.device with
  | none => rw [offerRecord_of_none hd, Logged.value_pure]
  | some d =>
      rw [offerRecord_of_some hd] at hrejected ⊢
      simp only [Logged.value_map] at hrejected ⊢
      rw [hclean now (.ofText record) usage d hrejected]
      simp only [Outcome.map, Outcome.rejected, Pool.set_of_get? hd]

/-- The reader of a listener accepts a record for its device with this answer. -/
def Takes (l : Listener δ) (now : Instant) (record : String) (usage : Usage) (pool : Pool δ)
    (answer : Outcome δ) : Prop :=
  answer.accepted = true ∧ ∃ d, pool.get? l.device = some d ∧
    (l.reader now (.ofText record) usage d).value.toOutcome = answer

/-- What a listener accepts, its reader took. -/
theorem exists_takes_of_accepted
    (haccepted : (l.offerRecord now record usage pool).value.accepted = true) :
    ∃ answer, l.Takes now record usage pool answer ∧
      (l.offerRecord now record usage pool).value = answer.map (pool.set l.device) := by
  cases hd : pool.get? l.device with
  | none =>
      rw [offerRecord_of_none hd] at haccepted
      exact absurd haccepted Bool.false_ne_true
  | some d =>
      rw [offerRecord_of_some hd] at haccepted ⊢
      exact ⟨_, ⟨haccepted, d, hd, rfl⟩, rfl⟩

end Listener

namespace Hub

/-- Where all readers are clean, nobody takes a record and nothing happens to the devices, or one
listener does, and nothing happens to any other device. -/
theorem offerInTurn_cases {listeners : List (Listener δ)}
    (hclean : ∀ l ∈ listeners, l.reader.Clean) (now : Instant) (record : String)
    (usage : Usage) (pool : Pool δ) :
    (offerInTurn now record usage listeners pool).value = (none, pool) ∨
      ∃ i l answer, listeners[i]? = some l ∧ l.Takes now record usage pool answer ∧
        (offerInTurn now record usage listeners pool).value =
          (some (i, answer.usage), pool.set l.device answer.state) := by
  induction listeners with
  | nil => exact .inl rfl
  | cons l later ih =>
      obtain ⟨hl, hlater⟩ := List.forall_mem_cons.mp hclean
      cases haccepted : (l.offerRecord now record usage pool).value.accepted with
      | true =>
          obtain ⟨answer, htakes, hoffer⟩ := Listener.exists_takes_of_accepted haccepted
          refine .inr ⟨0, l, answer, rfl, htakes, ?_⟩
          simp only [offerInTurn, Logged.value_bind, hoffer, Outcome.map, htakes.1, if_true,
            Logged.value_pure]
      | false =>
          have hoffer := Listener.value_offerRecord_of_rejected hl haccepted
          -- The later listeners get the record, the usage and the pool as this one did.
          rcases ih hlater with hnone | ⟨i, m, answer, hm, htakes, hsome⟩
          · left
            simp only [offerInTurn, Logged.value_bind, hoffer, Outcome.rejected, Bool.false_eq_true,
              if_false, hnone, Logged.value_pure, Option.map_none]
          · right
            refine ⟨i + 1, m, answer, hm, htakes, ?_⟩
            simp only [offerInTurn, Logged.value_bind, hoffer, Outcome.rejected, Bool.false_eq_true,
              if_false, hsome, Logged.value_pure, Option.map_some]

/-- What an offer comes to on a hub of clean readers. -/
theorem offer_cases {hub : Hub δ} (hclean : ∀ l ∈ hub.listeners, l.reader.Clean) (now : Instant)
    (record : String) (usage : Usage) :
    (hub.offer now record usage).value = ⟨none, usage, hub⟩ ∨
      ∃ i l answer, hub.listeners[i]? = some l ∧
        l.Takes now record usage hub.pool answer ∧
        (hub.offer now record usage).value =
          ⟨some ⟨i⟩, answer.usage, { hub with pool := hub.pool.set l.device answer.state }⟩ := by
  unfold offer
  rcases offerInTurn_cases hclean now record usage hub.pool with
    hnone | ⟨i, l, answer, hl, htakes, hsome⟩
  · left
    simp only [Logged.value_bind, hnone, Logged.value_pure]
  · right
    refine ⟨i, l, answer, hl, htakes, ?_⟩
    simp only [Logged.value_bind, hsome, Logged.value_pure]

end Hub

end

namespace Hub

/-- A GPU accepts a source exactly if the lines read before it ended, failed or was no text tell a
client and no foreign address; otherwise the usage and the whole GPU stay as they were. On a hub of
such GPUs, a record that nobody accepts changes nothing. One that a listener accepts is reported as
this listener's GPU reads it by itself, and no other device changes. -/
theorem unchanged_of_rejected (hub : Hub IntelGpu)
    (hreader : ∀ l ∈ hub.listeners, l.reader = HasIntel.read) (now : Instant) (usage : Usage) :
    -- one GPU
    (∀ (gpu : IntelGpu) (source : Text.Source),
      let answer := (IntelGpu.read now source usage gpu).value
      let fields := Record.fieldsOf source.reading.lines
      (answer.accepted = true ↔
        (∀ value ∈ Record.valuesIn Record.pdevKey fields, value = gpu.pdev) ∧
          ∃ value ∈ Record.valuesIn Record.clientIdKey fields, (Text.uint32? value).isSome) ∧
      (answer.accepted = false → answer.usage = usage ∧ answer.state = gpu)) ∧
    -- all listeners
    ∀ record,
      let offered := (hub.offer now record usage).value
      (offered.listener = none → offered.usage = usage ∧ offered.hub = hub) ∧
      ∀ id, offered.listener = some id → ∃ h gpu gpu',
        hub.deviceOf? id = some h ∧ hub.device? h = some gpu ∧
        (IntelGpu.read now (.ofText record) usage gpu).value.toOutcome =
          ⟨true, offered.usage, gpu'⟩ ∧
        offered.hub.listeners = hub.listeners ∧
        ∀ i, offered.hub.device? i = if i = h then some gpu' else hub.device? i := by
  refine ⟨?_, ?_⟩
  · intro gpu source answer fields
    refine ⟨IntelGpu.accepted_read_iff.trans IntelGpu.accepts_iff, ?_⟩
    intro hrejected
    have hanswer : answer.toOutcome = .rejected usage gpu :=
      IntelGpu.clean_read _ _ _ _ hrejected
    rw [hanswer]
    exact ⟨rfl, rfl⟩
  · intro record offered
    have hread : ∀ l ∈ hub.listeners, l.reader = IntelGpu.read :=
      fun l hl => (hreader l hl).trans HasIntel.read_intelGpu
    have hclean : ∀ l ∈ hub.listeners, l.reader.Clean :=
      fun l hl => hread l hl ▸ IntelGpu.clean_read
    rcases offer_cases hclean now record usage with
      hnone | ⟨i, l, answer, hl, ⟨haccepted, gpu, hgpu, hanswer⟩, hsome⟩
    · have hoffered : offered = ⟨none, usage, hub⟩ := hnone
      rw [hoffered]
      exact ⟨fun _ => ⟨rfl, rfl⟩, fun id hid => absurd hid.symm (Option.some_ne_none id)⟩
    · have hoffered : offered =
          ⟨some ⟨i⟩, answer.usage, { hub with pool := hub.pool.set l.device answer.state }⟩ := hsome
      rw [hoffered]
      refine ⟨fun hnobody => absurd hnobody (Option.some_ne_none _), ?_⟩
      rintro id hid
      obtain rfl := Option.some.inj hid
      refine ⟨l.device, gpu, answer.state, ?_, hgpu, ?_, rfl, ?_⟩
      · unfold deviceOf?
        rw [hl, Option.map_some]
      · rw [← hread l (List.mem_of_getElem? hl), hanswer, ← haccepted]
      · intro j
        change (hub.pool.set l.device answer.state).get? j = _
        rw [Pool.get?_set]
        by_cases hj : j = l.device
        · rw [if_pos hj.symm, if_pos hj, hj, hgpu, Option.map_some]
        · rw [if_neg (Ne.symm hj), if_neg hj]
          rfl

/-- A record that tells a client and a time before it turns out to be foreign. -/
def foreignAtEnd : String :=
  "drm-client-id:\t5\ndrm-engine-render:\t10 ns\ndrm-pdev:\t0000:09:00.0\n"

/-- A source that tells a time and fails within the line of the client. -/
def failingInClientId : Text.Source :=
  .failingAfter 40 "stream failed"
    "drm-engine-render:\t10 ns\ndrm-client-id:\t5\n".toUTF8.data.toList

/-- A record for the second GPU of two. -/
def forSecond : String := "drm-pdev:\t0000:03:00.0\ndrm-client-id:\t5\n"

theorem unchanged_of_rejected_late :
    let pair := ofGpus [.at "0000:00:02.0", .at "0000:03:00.0"]
    let broken :=
      (IntelGpu.read ⟨1000⟩ failingInClientId (.ofPid 7) (.at "0000:03:00.0")).value
    (∀ l ∈ pair.listeners, l.reader = HasIntel.read) ∧
      broken.usage = .ofPid 7 ∧ broken.state = .at "0000:03:00.0" ∧
      (pair.offer ⟨1000⟩ foreignAtEnd (.ofPid 7)).value.usage = .ofPid 7 ∧
      (pair.offer ⟨1000⟩ foreignAtEnd (.ofPid 7)).value.hub = pair ∧
      (pair.offer ⟨1000⟩ forSecond (.ofPid 7)).value.listener = some ⟨1⟩ ∧
      (pair.offer ⟨1000⟩ forSecond (.ofPid 7)).value.hub.device? ⟨0⟩ = pair.device? ⟨0⟩ := by
  intro pair broken
  have hreader : ∀ l ∈ pair.listeners, l.reader = HasIntel.read := (ofIntel_ofGpus _).reader
  obtain ⟨hgpu, hoffer⟩ := unchanged_of_rejected pair hreader ⟨1000⟩ (.ofPid 7)
  obtain ⟨husage, hstate⟩ := (hgpu (.at "0000:03:00.0") failingInClientId).2 (by decide +kernel)
  obtain ⟨husage', hhub⟩ := (hoffer foreignAtEnd).1 (by decide +kernel)
  have hlistener : (pair.offer ⟨1000⟩ forSecond (.ofPid 7)).value.listener = some ⟨1⟩ := by
    decide +kernel
  obtain ⟨h, _, _, hh, -, -, -, hdevices⟩ := (hoffer forSecond).2 ⟨1⟩ hlistener
  obtain rfl : (⟨1⟩ : Handle) = h := Option.some.inj hh
  exact ⟨hreader, husage, hstate, husage', hhub, hlistener, hdevices ⟨0⟩⟩

end Hub

end DrmUsage

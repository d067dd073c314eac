-- SUMMARY: Which shares a recording reports after any history of a cache: those since the cycle before, of this client alone.
import DrmUsage.Proofs.CacheHistory

/-!
# Shares from a cache

A recording reports shares against the first sample of its client in the cycle
before, and against nothing else. So what it reports is told by two samples,
however long the history is: samples of other clients, older cycles and later
samples of the same cycle can be left out (`SampleCache.shares_of_history`).
-/

namespace DrmUsage

/-! ## Shares in a usage -/

/-- The share of an engine class in a usage. That of the copy engines is not reported. -/
def Usage.share? (usage : Usage) : Engine → Option UInt32
  | .render => usage.renderShare
  | .copy => none
  | .video => usage.decodeShare
  | .videoEnhance => usage.encodeShare

theorem Usage.share?_withShares (usage : Usage) (share : Engine → Option UInt32) {e : Engine}
    (he : e ≠ .copy) : (usage.withShares share).share? e = (share e).or (usage.share? e) := by
  cases e with
  | copy => exact absurd rfl he
  | render | video | videoEnhance => rfl

/-- Whatever is told of the copy engines is not reported. -/
theorem Usage.withShares_congr (usage : Usage) {share share' : Engine → Option UInt32}
    (h : ∀ e ≠ .copy, share e = share' e) : usage.withShares share = usage.withShares share' := by
  unfold withShares
  rw [h .render (by decide), h .video (by decide), h .videoEnhance (by decide)]

theorem Sample.share_eq_some_iff {earlier : Sample} {times : BusyTimes} {now : Instant}
    {e : Engine} {b : UInt32} :
    earlier.share times now e = some b ↔
      ∃ r' r, earlier.times.get e = some r' ∧ times.get e = some r ∧
        busyPercent r r' (now.elapsedSince earlier.takenAt) = some b := by
  unfold Sample.share
  cases times.get e <;> cases earlier.times.get e <;> simp

/-- The sample without the time of the copy engines. -/
def Sample.withoutCopy (sample : Sample) : Sample :=
  { sample with times := { sample.times with copy := none } }

theorem Sample.share_withoutCopy (earlier sample : Sample) (now : Instant) {e : Engine}
    (he : e ≠ .copy) :
    earlier.withoutCopy.share sample.withoutCopy.times now e =
      earlier.share sample.times now e := by
  cases e with
  | copy => exact absurd rfl he
  | render | video | videoEnhance => rfl

/-- The usage with the shares that follow for a sample from an earlier one, if there is one. -/
def Usage.since (usage : Usage) (earlier : Option Sample) (sample : Sample) : Usage :=
  match earlier with
  | none => usage
  | some earlier => usage.withShares (earlier.share sample.times sample.takenAt)

theorem Usage.since_withoutCopy (usage : Usage) (earlier : Option Sample) (sample : Sample) :
    usage.since (earlier.map Sample.withoutCopy) sample.withoutCopy =
      usage.since earlier sample := by
  cases earlier with
  | none => rfl
  | some earlier =>
      exact usage.withShares_congr fun e he => earlier.share_withoutCopy sample sample.takenAt he

namespace SampleCache

/-! ## Histories in part -/

namespace Step

/-- The step with another sample, or none if its sample is left out. Every closing stays. -/
def filterMap (f : Sample → Option Sample) : Step → Option Step
  | .record sample usage => (f sample).map (.record · usage)
  | .closeCycle => some .closeCycle

end Step

/-- A history with other samples, and without those that are left out. -/
def alter (f : Sample → Option Sample) (history : List Step) : List Step :=
  history.filterMap (Step.filterMap f)

theorem alter_record (f : Sample → Option Sample) (history : List Step) (sample : Sample)
    (usage : Usage) :
    alter f (history ++ [.record sample usage]) =
      alter f history ++ ((f sample).map (Step.record · usage)).toList := by
  unfold alter
  rw [List.filterMap_append]
  cases h : f sample <;> simp [Step.filterMap, h]

theorem alter_closeCycle (f : Sample → Option Sample) (history : List Step) :
    alter f (history ++ [.closeCycle]) = alter f history ++ [.closeCycle] := by
  unfold alter
  rw [List.filterMap_append]
  rfl

theorem running_alter (f : Sample → Option Sample) (history : List Step) :
    running (alter f history) = (running history).filterMap f := by
  induction history using List.reverseRecOn with
  | nil => rfl
  | append_singleton history step ih =>
      cases step with
      | record sample usage =>
          rw [alter_record, running_record, List.filterMap_append, ← ih]
          cases h : f sample with
          | none => simp [h]
          | some other => simp [h, running_record]
      | closeCycle =>
          rw [alter_closeCycle, running_closeCycle, running_closeCycle, List.filterMap_nil]

theorem preceding_alter (f : Sample → Option Sample) (history : List Step) :
    preceding (alter f history) = (preceding history).filterMap f := by
  induction history using List.reverseRecOn with
  | nil => rfl
  | append_singleton history step ih =>
      cases step with
      | record sample usage =>
          rw [alter_record, preceding_record, ← ih]
          cases f sample with
          | none => simp
          | some other => simp [preceding_record]
      | closeCycle =>
          rw [alter_closeCycle, preceding_closeCycle, preceding_closeCycle, running_alter]

/-- The sample, if it is of this client. -/
def ofClient (c : Client) (sample : Sample) : Option Sample :=
  if sample.client = c then some sample else none

theorem firstOf_ofClient (c : Client) (samples : List Sample) :
    firstOf c (samples.filterMap (ofClient c)) = firstOf c samples := by
  induction samples with
  | nil => rfl
  | cons sample samples ih =>
      unfold firstOf at ih ⊢
      by_cases h : sample.client = c
      · simp [ofClient, h]
      · simp [ofClient, h, ih]

theorem firstOf_withoutCopy (c : Client) (samples : List Sample) :
    firstOf c (samples.filterMap fun s => some s.withoutCopy) =
      (firstOf c samples).map Sample.withoutCopy := by
  unfold firstOf
  rw [List.filterMap_eq_map', List.find?_map]
  rfl

/-! ## What a recording reports -/

/-- A share of an engine class follows for a sample from the cycle before: the first sample of its
client there and this one have times of the class, and a percentage follows from them and the
nanoseconds between their instants. -/
def Follows (history : List Step) (sample : Sample) (e : Engine) (share : UInt32) : Prop :=
  ∃ earlier r' r, firstOf sample.client (preceding history) = some earlier ∧
    earlier.times.get e = some r' ∧ sample.times.get e = some r ∧
    busyPercent r r'
      (.ofNat (min (sample.takenAt.ns - earlier.takenAt.ns) (UInt64.size - 1))) = some share

/-- The answer to a sample that is offered after a history, and the usage that comes of it. -/
def reportAfter (history : List Step) (sample : Sample) (usage : Usage) :
    Except Refusal Unit × Usage :=
  let recording := (after history).record sample.client sample.times sample.takenAt usage
  (recording.answer, recording.usage)

/-- A sample is reported against the first one of its client in the cycle before, unless the
running cycle has one already. -/
theorem reportAfter_eq (history : List Step) (sample : Sample) (usage : Usage) :
    reportAfter history sample usage =
      if (firstOf sample.client (running history)).isSome then
        (.error (.alreadyRecorded sample.client), usage)
      else (.ok (), usage.since (firstOf sample.client (preceding history)) sample) := by
  have hmem : sample.client ∈ (after history).current ↔
      (firstOf sample.client (running history)).isSome := by
    rw [mem_current_after_iff, isSome_firstOf_iff]
  unfold reportAfter
  by_cases h : (firstOf sample.client (running history)).isSome = true
  · rw [if_pos h, record_of_mem (hmem.mpr h)]
  · have hprevious : (after history).previous[sample.client]? =
        firstOf sample.client (preceding history) := by
      rw [getElem?_previous_after, if_neg (fun hs => h (isSome_firstOf_iff.mpr hs))]
    rw [if_neg h, record_of_not_mem (fun hm => h (hmem.mp hm))]
    cases hfirst : firstOf sample.client (preceding history) <;>
      simp only [withShares, Usage.since, hprevious, hfirst]

theorem share?_since {history : List Step} {sample : Sample} {usage : Usage} {e : Engine}
    (he : e ≠ .copy) :
    (∀ share, Follows history sample e share →
      (usage.since (firstOf sample.client (preceding history)) sample).share? e = some share) ∧
    ((∀ share, ¬ Follows history sample e share) →
      (usage.since (firstOf sample.client (preceding history)) sample).share? e =
        usage.share? e) := by
  have hfollows : ∀ share, Follows history sample e share ↔
      ∃ earlier, firstOf sample.client (preceding history) = some earlier ∧
        earlier.share sample.times sample.takenAt e = some share := by
    intro share
    simp only [Sample.share_eq_some_iff]
    constructor
    · rintro ⟨earlier, r', r, hfirst, hr', hr, hbusy⟩
      exact ⟨earlier, hfirst, r', r, hr', hr, hbusy⟩
    · rintro ⟨earlier, hfirst, r', r, hr', hr, hbusy⟩
      exact ⟨earlier, r', r, hfirst, hr', hr, hbusy⟩
  simp only [hfollows]
  unfold Usage.since
  cases firstOf sample.client (preceding history) with
  | none => simp
  | some earlier =>
      simp only [Option.some.injEq, exists_eq_left', Usage.share?_withShares _ _ he]
      cases earlier.share sample.times sample.takenAt e <;> simp

/-! ## What a recording does not depend on -/

section Others

variable {history other : List Step}

/-- Histories that show the same samples of a client have the same first ones. -/
theorem firstOf_of_ofClient {c : Client}
    (h : alter (ofClient c) other = alter (ofClient c) history) :
    firstOf c (running other) = firstOf c (running history) ∧
      firstOf c (preceding other) = firstOf c (preceding history) := by
  constructor
  · rw [← firstOf_ofClient, ← running_alter, h, running_alter, firstOf_ofClient]
  · rw [← firstOf_ofClient, ← preceding_alter, h, preceding_alter, firstOf_ofClient]

theorem getElem?_after_of_ofClient {c : Client}
    (h : alter (ofClient c) other = alter (ofClient c) history) :
    (after other).current[c]? = (after history).current[c]? ∧
      (after other).previous[c]? = (after history).previous[c]? := by
  obtain ⟨hrunning, hpreceding⟩ := firstOf_of_ofClient h
  simp only [getElem?_current_after, getElem?_previous_after, ← isSome_firstOf_iff, hrunning,
    hpreceding, and_self]

theorem reportAfter_of_ofClient {sample : Sample}
    (h : alter (ofClient sample.client) other = alter (ofClient sample.client) history)
    (usage : Usage) : reportAfter other sample usage = reportAfter history sample usage := by
  obtain ⟨hrunning, hpreceding⟩ := firstOf_of_ofClient h
  rw [reportAfter_eq, reportAfter_eq, hrunning, hpreceding]

/-- No time of the copy engines counts, neither in the history nor in the sample. -/
theorem reportAfter_withoutCopy (history : List Step) (sample : Sample) (usage : Usage) :
    reportAfter (alter (fun s => some s.withoutCopy) history) sample.withoutCopy usage =
      reportAfter history sample usage := by
  have hclient : sample.withoutCopy.client = sample.client := rfl
  rw [reportAfter_eq, reportAfter_eq, running_alter, preceding_alter, hclient,
    firstOf_withoutCopy, firstOf_withoutCopy, Option.isSome_map, Usage.since_withoutCopy]

end Others

/-- After any history, a sample that is not refused is reported with a share of an engine class
exactly if one follows from the first sample of its client in the cycle before, and with the share
that the usage had otherwise; nothing else in the usage changes. What is reported, or why the
sample is refused, does not depend on any time of the copy engines, nor on the samples of other
clients anywhere in the history; and neither does what the cache holds of the client afterwards. -/
theorem shares_of_history (history : List Step) (sample : Sample) (usage : Usage) :
    (∀ cache reported,
      (after history).record sample.client sample.times sample.takenAt usage =
        ⟨.ok (), cache, reported⟩ →
      -- the shares of rendering, decoding and encoding
      (∀ e ≠ .copy,
        (∀ share, Follows history sample e share → reported.share? e = some share) ∧
          ((∀ share, ¬ Follows history sample e share) →
            reported.share? e = usage.share? e)) ∧
      -- everything else
      reported =
        { usage with
          renderShare := reported.renderShare
          decodeShare := reported.decodeShare
          encodeShare := reported.encodeShare }) ∧
    -- the copy engines
    (∀ (other : List Step) (sample' : Sample),
      alter (fun s => some s.withoutCopy) other = alter (fun s => some s.withoutCopy) history →
      sample'.withoutCopy = sample.withoutCopy →
      reportAfter other sample' usage = reportAfter history sample usage) ∧
    -- other clients
    ∀ other, alter (ofClient sample.client) other = alter (ofClient sample.client) history →
      reportAfter other sample usage = reportAfter history sample usage ∧
      (after (other ++ [.record sample usage])).current[sample.client]? =
        (after (history ++ [.record sample usage])).current[sample.client]? ∧
      (after (other ++ [.record sample usage])).previous[sample.client]? =
        (after (history ++ [.record sample usage])).previous[sample.client]? := by
  refine ⟨?reported, ?copy, ?others⟩
  case reported =>
    intro cache reported hrecord
    have hreport : reportAfter history sample usage = (.ok (), reported) := by
      unfold reportAfter
      rw [hrecord]
    rw [reportAfter_eq] at hreport
    split at hreport
    · cases hreport
    · obtain rfl := congrArg Prod.snd hreport
      refine ⟨fun e he => share?_since he, ?_⟩
      unfold Usage.since
      cases firstOf sample.client (preceding history) <;> rfl
  case copy =>
    intro other sample' hother hsample
    rw [← reportAfter_withoutCopy other, hother, hsample, reportAfter_withoutCopy]
  case others =>
    intro other hother
    have hafter : alter (ofClient sample.client) (other ++ [.record sample usage]) =
        alter (ofClient sample.client) (history ++ [.record sample usage]) := by
      rw [alter_record, alter_record, hother]
    exact ⟨reportAfter_of_ofClient hother usage, getElem?_after_of_ofClient hafter⟩

/-- Two clients with one number in two processes. Both are sampled in one cycle, and the cycle is
closed. -/
def twoProcesses : List Step :=
  [.record ⟨⟨5, 7⟩, { render := some 100 }, ⟨1000⟩⟩ (.ofPid 7),
    .record ⟨⟨5, 8⟩, { render := some 550 }, ⟨1000⟩⟩ (.ofPid 8), .closeCycle]

/-- The samples of one of them alone. -/
def oneProcess : List Step :=
  [.record ⟨⟨5, 7⟩, { render := some 100 }, ⟨1000⟩⟩ (.ofPid 7), .closeCycle]

/-- A later sample of this client, that renders for half of the time between. -/
def halfLater : Sample := ⟨⟨5, 7⟩, { render := some 600 }, ⟨2000⟩⟩

theorem shares_of_history_twoProcesses :
    ∃ cache reported,
      (after twoProcesses).record halfLater.client halfLater.times halfLater.takenAt (.ofPid 7) =
        ⟨.ok (), cache, reported⟩ ∧
      reported.share? .render = some 50 ∧ reported.share? .video = none ∧
      reportAfter oneProcess halfLater (.ofPid 7) =
        reportAfter twoProcesses halfLater (.ofPid 7) := by
  obtain ⟨hreported, -, hothers⟩ := shares_of_history twoProcesses halfLater (.ofPid 7)
  have hnew : halfLater.client ∉ (after twoProcesses).current := by
    rw [mem_current_after_iff]
    decide
  have hrecord := record_of_not_mem hnew halfLater.times halfLater.takenAt (.ofPid 7)
  obtain ⟨hshares, -⟩ := hreported _ _ hrecord
  refine ⟨_, _, hrecord, ?_, ?_, (hothers oneProcess rfl).1⟩
  · refine (hshares .render (by decide)).1 50 ?_
    exact ⟨⟨⟨5, 7⟩, { render := some 100 }, ⟨1000⟩⟩, 100, 600, rfl, rfl, rfl, by decide +kernel⟩
  · refine (hshares .video (by decide)).2 ?_
    rintro share ⟨_, _, r, _, _, hr, _⟩
    exact absurd hr (Option.some_ne_none r).symm

end SampleCache

end DrmUsage

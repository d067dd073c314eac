-- SUMMARY: What the two generations of a cache hold after any sequence of recordings and closings.
import Mathlib.Data.List.DropRight
import DrmUsage.SampleCache

/-!
# The history of a cache

A cache is only ever recorded into and closed, so what it holds is told by the
steps taken so far. The samples recorded since the last closing are the running
cycle; those between the last two closings are the cycle before. The first
sample of a client in a cycle is the one that counts: this cycle's generation
holds it, and after one closing the other generation does, until the client is
recorded again.
-/

namespace DrmUsage

namespace SampleCache

/-! ## One recording -/

/-- The cache after a sample was offered, whatever usage came with it. -/
def keep (cache : SampleCache) (sample : Sample) : SampleCache :=
  if sample.client ∈ cache.current then cache
  else cache.recorded sample.client sample.times sample.takenAt

/-- The usage after a sample was offered. -/
def report (cache : SampleCache) (sample : Sample) (usage : Usage) : Usage :=
  if sample.client ∈ cache.current then usage
  else cache.withShares sample.client sample.times sample.takenAt usage

theorem cache_record (cache : SampleCache) (sample : Sample) (usage : Usage) :
    (cache.record sample.client sample.times sample.takenAt usage).cache = cache.keep sample := by
  unfold keep
  by_cases h : sample.client ∈ cache.current
  · rw [record_of_mem h, if_pos h]
  · rw [record_of_not_mem h, if_neg h]

theorem usage_record (cache : SampleCache) (sample : Sample) (usage : Usage) :
    (cache.record sample.client sample.times sample.takenAt usage).usage =
      cache.report sample usage := by
  unfold report
  by_cases h : sample.client ∈ cache.current
  · rw [record_of_mem h, if_pos h]
  · rw [record_of_not_mem h, if_neg h]

/-- The shares of a sample are written beside the times of a usage. -/
theorem times_report (cache : SampleCache) (sample : Sample) (usage : Usage) :
    (cache.report sample usage).renderTime = usage.renderTime ∧
      (cache.report sample usage).decodeTime = usage.decodeTime ∧
      (cache.report sample usage).encodeTime = usage.encodeTime := by
  unfold report withShares
  split
  · exact ⟨rfl, rfl, rfl⟩
  · split <;> exact ⟨rfl, rfl, rfl⟩

theorem pid_report (cache : SampleCache) (sample : Sample) (usage : Usage) :
    (cache.report sample usage).pid = usage.pid := by
  unfold report withShares
  split
  · rfl
  · split <;> rfl

theorem mem_current_iff {cache : SampleCache} {c : Client} :
    c ∈ cache.current ↔ cache.current[c]?.isSome :=
  Std.ExtTreeMap.mem_iff_isSome_getElem?

theorem getElem?_current_keep (cache : SampleCache) (sample : Sample) (c : Client) :
    (cache.keep sample).current[c]? =
      cache.current[c]?.or (if sample.client = c then some sample else none) := by
  unfold keep
  by_cases hm : sample.client ∈ cache.current
  · rw [if_pos hm]
    by_cases hc : sample.client = c
    · rw [hc, mem_current_iff] at hm
      rw [Option.or_of_isSome hm]
    · rw [if_neg hc, Option.or_none]
  · rw [if_neg hm, getElem?_current_recorded]
    by_cases hc : sample.client = c
    · rw [hc, mem_current_iff, Option.not_isSome_iff_eq_none] at hm
      rw [if_pos hc, if_pos hc, hm, Option.none_or]
    · rw [if_neg hc, if_neg hc, Option.or_none]

theorem getElem?_previous_keep (cache : SampleCache) (sample : Sample) (c : Client) :
    (cache.keep sample).previous[c]? =
      if sample.client = c ∧ c ∉ cache.current then none else cache.previous[c]? := by
  unfold keep
  by_cases hm : sample.client ∈ cache.current
  · rw [if_pos hm, if_neg]
    rintro ⟨rfl, hc⟩
    exact hc hm
  · rw [if_neg hm, getElem?_previous_recorded]
    by_cases hc : sample.client = c
    · rw [if_pos hc, if_pos ⟨hc, hc ▸ hm⟩]
    · rw [if_neg hc, if_neg (fun h => hc h.1)]

/-- The client of a sample that was offered is one of this cycle, whether it was before or not. -/
theorem mem_current_keep (cache : SampleCache) (sample : Sample) :
    sample.client ∈ (cache.keep sample).current := by
  rw [mem_current_iff, getElem?_current_keep, if_pos rfl, Option.isSome_or, Option.isSome_some,
    Bool.or_true]

/-- An offered sample concerns its own client alone. -/
theorem getElem?_keep_of_ne (cache : SampleCache) {sample : Sample} {c : Client}
    (h : sample.client ≠ c) :
    (cache.keep sample).current[c]? = cache.current[c]? ∧
      (cache.keep sample).previous[c]? = cache.previous[c]? := by
  constructor
  · rw [getElem?_current_keep, if_neg h, Option.or_none]
  · rw [getElem?_previous_keep, if_neg (fun e => h e.1)]

/-- Samples of different clients can be offered in any order. -/
theorem keep_comm {s t : Sample} (h : s.client ≠ t.client) (cache : SampleCache) :
    (cache.keep s).keep t = (cache.keep t).keep s := by
  have hcurrent : ((cache.keep s).keep t).current = ((cache.keep t).keep s).current := by
    apply Std.ExtTreeMap.ext_getElem?
    intro c
    simp only [getElem?_current_keep, Option.or_assoc]
    congr 1
    by_cases hs : s.client = c
    · have ht : t.client ≠ c := fun ht => h (hs.trans ht.symm)
      rw [if_pos hs, if_neg ht, Option.or_none, Option.none_or]
    · rw [if_neg hs, Option.none_or, Option.or_none]
  have hprevious : ((cache.keep s).keep t).previous = ((cache.keep t).keep s).previous := by
    apply Std.ExtTreeMap.ext_getElem?
    intro c
    simp only [getElem?_previous_keep, mem_current_iff, getElem?_current_keep]
    by_cases hs : s.client = c
    · have ht : t.client ≠ c := fun ht => h (hs.trans ht.symm)
      simp only [hs, ht, false_and, if_false, Option.or_none]
    · simp only [hs, false_and, if_false, Option.or_none]
  cases hl : (cache.keep s).keep t
  cases hr : (cache.keep t).keep s
  rw [hl, hr] at hcurrent hprevious
  exact congrArg₂ SampleCache.mk hprevious hcurrent

/-! ## First samples -/

/-- The first sample of a client among some. -/
def firstOf (c : Client) (samples : List Sample) : Option Sample :=
  samples.find? (·.client = c)

theorem firstOf_concat (c : Client) (samples : List Sample) (sample : Sample) :
    firstOf c (samples ++ [sample]) =
      (firstOf c samples).or (if sample.client = c then some sample else none) := by
  unfold firstOf
  rw [List.find?_append, List.find?_singleton]
  simp only [decide_eq_true_eq]

theorem isSome_firstOf_iff {c : Client} {samples : List Sample} :
    (firstOf c samples).isSome ↔ ∃ s ∈ samples, s.client = c := by
  simp only [firstOf, List.find?_isSome, decide_eq_true_eq]

/-! ## Histories -/

/-- What can be done to a cache. -/
inductive Step where
  /-- A sample is offered, with the usage that its shares are to be written to. -/
  | record (sample : Sample) (usage : Usage)
  /-- The cycle is closed. -/
  | closeCycle

namespace Step

/-- Whether a step offers a sample. -/
def isRecord : Step → Bool
  | .record _ _ => true
  | .closeCycle => false

/-- The sample that a step offers. -/
def sample? : Step → Option Sample
  | .record sample _ => some sample
  | .closeCycle => none

/-- The cache after a step. -/
def run (cache : SampleCache) : Step → SampleCache
  | .record sample usage =>
    (cache.record sample.client sample.times sample.takenAt usage).cache
  | .closeCycle => cache.closeCycle

@[simp] theorem run_record (cache : SampleCache) (sample : Sample) (usage : Usage) :
    run cache (.record sample usage) = cache.keep sample := cache_record ..

@[simp] theorem run_closeCycle (cache : SampleCache) : run cache .closeCycle = cache.closeCycle :=
  rfl

end Step

/-- The cache after some steps from an empty one. -/
def after (history : List Step) : SampleCache := history.foldl Step.run .empty

/-- The samples offered since the last closing, or since the start if there was none. -/
def running (history : List Step) : List Sample :=
  (history.rtakeWhile Step.isRecord).filterMap Step.sample?

/-- The history before the last closing, empty if there was none. -/
def beforeClosing (history : List Step) : List Step :=
  (history.rdropWhile Step.isRecord).dropLast

/-- The samples offered in the cycle that was closed last. -/
def preceding (history : List Step) : List Sample := running (beforeClosing history)

theorem after_concat (history : List Step) (step : Step) :
    after (history ++ [step]) = step.run (after history) := by
  simp only [after, List.foldl_append, List.foldl_cons, List.foldl_nil]

theorem running_record (history : List Step) (sample : Sample) (usage : Usage) :
    running (history ++ [.record sample usage]) = running history ++ [sample] := by
  unfold running
  rw [List.rtakeWhile_concat_pos _ _ _ rfl, List.filterMap_append]
  rfl

theorem running_closeCycle (history : List Step) : running (history ++ [.closeCycle]) = [] := by
  unfold running
  rw [List.rtakeWhile_concat_neg _ _ _ Bool.false_ne_true]
  rfl

theorem preceding_record (history : List Step) (sample : Sample) (usage : Usage) :
    preceding (history ++ [.record sample usage]) = preceding history := by
  unfold preceding beforeClosing
  rw [List.rdropWhile_concat_pos _ _ _ rfl]

theorem preceding_closeCycle (history : List Step) :
    preceding (history ++ [.closeCycle]) = running history := by
  unfold preceding beforeClosing
  rw [List.rdropWhile_concat_neg _ _ _ Bool.false_ne_true, List.dropLast_concat]

/-- The running cycle's generation holds the first sample of each client in it. -/
theorem getElem?_current_after (history : List Step) (c : Client) :
    (after history).current[c]? = firstOf c (running history) := by
  induction history using List.reverseRecOn with
  | nil => rfl
  | append_singleton history step ih =>
      rw [after_concat]
      cases step with
      | record sample usage =>
          rw [Step.run_record, getElem?_current_keep, ih, running_record, firstOf_concat]
      | closeCycle =>
          rw [Step.run_closeCycle, running_closeCycle, current_closeCycle]
          exact Std.ExtTreeMap.getElem?_empty

theorem mem_current_after_iff {history : List Step} {c : Client} :
    c ∈ (after history).current ↔ ∃ s ∈ running history, s.client = c := by
  rw [mem_current_iff, getElem?_current_after, isSome_firstOf_iff]

/-- The other generation holds the first sample of each client of the cycle before, until the
client is recorded again. -/
theorem getElem?_previous_after (history : List Step) (c : Client) :
    (after history).previous[c]? =
      if ∃ s ∈ running history, s.client = c then none else firstOf c (preceding history) := by
  induction history using List.reverseRecOn with
  | nil => rfl
  | append_singleton history step ih =>
      rw [after_concat]
      cases step with
      | record sample usage =>
          have hmem : (∃ s ∈ running history ++ [sample], s.client = c) ↔
              (∃ s ∈ running history, s.client = c) ∨ sample.client = c := by
            simp only [List.mem_append, List.mem_singleton, or_and_right, exists_or, exists_eq_left]
          rw [Step.run_record, getElem?_previous_keep, ih, running_record, preceding_record]
          simp only [hmem, mem_current_after_iff]
          -- The client has left before, leaves with this sample, or is still there.
          by_cases hr : ∃ s ∈ running history, s.client = c
          · simp only [hr, not_true_eq_false, and_false, if_false, if_true, true_or]
          · by_cases hc : sample.client = c
            · simp only [hr, hc, not_false_eq_true, and_self, if_true, or_true]
            · simp only [hr, hc, false_and, if_false, or_self]
      | closeCycle =>
          rw [Step.run_closeCycle, running_closeCycle, preceding_closeCycle, previous_closeCycle,
            if_neg (fun ⟨_, h, _⟩ => List.not_mem_nil h)]
          exact getElem?_current_after history c

theorem mem_previous_after_iff {history : List Step} {c : Client} :
    c ∈ (after history).previous ↔
      (∃ s ∈ preceding history, s.client = c) ∧ ∀ s ∈ running history, s.client ≠ c := by
  rw [Std.ExtTreeMap.mem_iff_isSome_getElem?, getElem?_previous_after]
  by_cases hr : ∃ s ∈ running history, s.client = c
  · obtain ⟨s, hs, hc⟩ := hr
    rw [if_pos ⟨s, hs, hc⟩]
    exact ⟨fun h => absurd h Bool.false_ne_true, fun h => absurd hc (h.2 s hs)⟩
  · rw [if_neg hr, isSome_firstOf_iff]
    exact ⟨fun h => ⟨h, fun s hs hc => hr ⟨s, hs, hc⟩⟩, fun h => h.1⟩

theorem running_nil : running [] = [] := rfl

/-- Before the first closing there is no cycle before. -/
theorem preceding_eq_nil {history : List Step} (h : .closeCycle ∉ history) :
    preceding history = [] := by
  have hrecords : ∀ step ∈ history, step.isRecord = true := by
    intro step hstep
    cases step with
    | record sample usage => rfl
    | closeCycle => exact absurd hstep h
  unfold preceding beforeClosing
  rw [List.rdropWhile_eq_nil_iff.mpr hrecords, List.dropLast_nil, running_nil]

/-- Of any history, a cache remembers the first sample of each client in the running cycle, and
the first ones of the cycle before for the clients that the running cycle has not seen yet. No
client is in both generations, and one that missed a whole cycle is in none. A sample is refused
exactly if its client is already in the running cycle, and then nothing changes. -/
theorem generations_of_history (history : List Step) :
    -- the running cycle
    (∀ c, (c ∈ (after history).current ↔ ∃ s ∈ running history, s.client = c) ∧
      (after history).current[c]? = firstOf c (running history)) ∧
    -- the cycle before
    (∀ c, (c ∈ (after history).previous ↔
        (∃ s ∈ preceding history, s.client = c) ∧ ∀ s ∈ running history, s.client ≠ c) ∧
      (c ∈ (after history).previous →
        (after history).previous[c]? = firstOf c (preceding history))) ∧
    (.closeCycle ∉ history → (after history).previous = ∅) ∧
    -- both together
    (∀ c, c ∈ (after history).current → c ∉ (after history).previous) ∧
    (∀ c, (∀ s ∈ preceding history ++ running history, s.client ≠ c) →
      c ∉ (after history).current ∧ c ∉ (after history).previous) ∧
    -- refusals
    (∀ (sample : Sample) usage refusal,
      ((after history).record sample.client sample.times sample.takenAt usage).answer =
          .error refusal ↔
        (∃ s ∈ running history, s.client = sample.client) ∧
          refusal = .alreadyRecorded sample.client) ∧
    ∀ (sample : Sample) usage, (∃ s ∈ running history, s.client = sample.client) →
      (after history).record sample.client sample.times sample.takenAt usage =
        ⟨.error (.alreadyRecorded sample.client), after history, usage⟩ := by
  refine ⟨?current, ?previous, ?first, ?disjoint, ?gone, ?refused, ?unchanged⟩
  case current =>
    intro c
    exact ⟨mem_current_after_iff, getElem?_current_after history c⟩
  case previous =>
    intro c
    refine ⟨mem_previous_after_iff, ?_⟩
    intro hc
    have hnew := (mem_previous_after_iff.mp hc).2
    rw [getElem?_previous_after, if_neg (fun ⟨s, hs, h⟩ => hnew s hs h)]
  case first =>
    intro hopen
    apply Std.ExtTreeMap.ext_getElem?
    intro c
    rw [getElem?_previous_after, preceding_eq_nil hopen, Std.ExtTreeMap.getElem?_empty]
    exact ite_self none
  case disjoint =>
    intro c hcurrent hprevious
    obtain ⟨s, hs, hc⟩ := mem_current_after_iff.mp hcurrent
    exact (mem_previous_after_iff.mp hprevious).2 s hs hc
  case gone =>
    intro c hmissed
    constructor
    · intro hc
      obtain ⟨s, hs, h⟩ := mem_current_after_iff.mp hc
      exact hmissed s (List.mem_append_right _ hs) h
    · intro hc
      obtain ⟨s, hs, h⟩ := (mem_previous_after_iff.mp hc).1
      exact hmissed s (List.mem_append_left _ hs) h
  case refused =>
    intro sample usage refusal
    rw [answer_record_eq_error_iff, mem_current_after_iff]
  case unchanged =>
    intro sample usage hseen
    exact record_of_mem (mem_current_after_iff.mpr hseen) ..

end SampleCache

end DrmUsage

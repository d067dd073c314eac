-- SUMMARY: Over consecutive cycles the reported shares, weighted with time, add up to the busy time that the counter shows.
import Mathlib.Algebra.BigOperators.Ring.Finset
import Mathlib.Algebra.Order.BigOperators.Group.Finset
import Mathlib.Algebra.Order.Group.Int
import DrmUsage.Proofs.CacheShares
import DrmUsage.Proofs.PercentError

/-!
# Totals of busy time

A client that is recorded in every cycle is reported, from the second cycle on,
with a share of the time since the cycle before. Each of these shares is the
growth of one counter over one interval, rounded. The growths add up to that of
the whole time, and the errors to no more than half a percent of it
(`SampleCache.totals_of_turns`).
-/

namespace DrmUsage

namespace SampleCache

/-! ## Turns -/

/-- What is offered in a cycle in which some client is recorded once: the sample of the client, the
process in whose fresh usage it is reported, and the samples before and behind it. -/
structure Turn where
  before : List (Sample × Usage)
  sample : Sample
  pid : Int32
  behind : List (Sample × Usage)

/-- The steps that offer some samples. -/
def offers (samples : List (Sample × Usage)) : List Step :=
  samples.map fun (sample, usage) => .record sample usage

namespace Turn

/-- The turn records this client, and no other sample in it is of the client. -/
def Of (c : Client) (turn : Turn) : Prop :=
  turn.sample.client = c ∧ ∀ s ∈ turn.before ++ turn.behind, s.1.client ≠ c

instance (c : Client) (turn : Turn) : Decidable (turn.Of c) :=
  inferInstanceAs (Decidable (_ ∧ _))

/-- All steps of the cycle. -/
def steps (turn : Turn) : List Step :=
  offers turn.before ++ .record turn.sample (.ofPid turn.pid) :: offers turn.behind ++ [.closeCycle]

end Turn

/-- The steps of the first turns. -/
def turnsBefore (turns : ℕ → Turn) (i : ℕ) : List Step :=
  (List.range i).flatMap fun j => (turns j).steps

/-- All steps before the client is recorded in a turn. -/
def upTo (turns : ℕ → Turn) (i : ℕ) : List Step := turnsBefore turns i ++ offers (turns i).before

/-- The answer to the client's sample in a turn, and the usage reported. -/
def reportIn (turns : ℕ → Turn) (i : ℕ) : Except Refusal Unit × Usage :=
  reportAfter (upTo turns i) (turns i).sample (.ofPid (turns i).pid)

variable {turns : ℕ → Turn} {c : Client}

theorem turnsBefore_succ (turns : ℕ → Turn) (i : ℕ) :
    turnsBefore turns (i + 1) = turnsBefore turns i ++ (turns i).steps := by
  unfold turnsBefore
  rw [List.range_succ, List.flatMap_append, List.flatMap_singleton]

/-! ## Cycles of turns -/

theorem running_offers (history : List Step) (samples : List (Sample × Usage)) :
    running (history ++ offers samples) = running history ++ samples.map Prod.fst := by
  induction samples using List.reverseRecOn with
  | nil => simp [offers]
  | append_singleton samples s ih =>
      unfold offers at ih ⊢
      rw [List.map_append, ← List.append_assoc, List.map_singleton, running_record, ih,
        List.map_append, List.append_assoc, List.map_singleton]

theorem preceding_offers (history : List Step) (samples : List (Sample × Usage)) :
    preceding (history ++ offers samples) = preceding history := by
  induction samples using List.reverseRecOn with
  | nil => simp [offers]
  | append_singleton samples s ih =>
      unfold offers at ih ⊢
      rw [List.map_append, ← List.append_assoc, List.map_singleton, preceding_record, ih]

/-- Between two turns no cycle is running. -/
theorem running_turnsBefore (turns : ℕ → Turn) (i : ℕ) : running (turnsBefore turns i) = [] := by
  cases i with
  | zero => rfl
  | succ i =>
      rw [turnsBefore_succ]
      unfold Turn.steps
      rw [← List.append_assoc, running_closeCycle]

/-- The cycle before is that of the last turn. -/
theorem preceding_turnsBefore_succ (turns : ℕ → Turn) (i : ℕ) :
    preceding (turnsBefore turns (i + 1)) =
      (turns i).before.map Prod.fst ++ (turns i).sample :: (turns i).behind.map Prod.fst := by
  rw [turnsBefore_succ]
  unfold Turn.steps
  rw [← List.append_assoc, preceding_closeCycle]
  have hsplit : turnsBefore turns i ++ (offers (turns i).before ++
        .record (turns i).sample (.ofPid (turns i).pid) :: offers (turns i).behind) =
      (turnsBefore turns i ++ offers (turns i).before ++
        [.record (turns i).sample (.ofPid (turns i).pid)]) ++ offers (turns i).behind := by
    simp only [List.append_assoc, List.singleton_append]
  rw [hsplit, running_offers, running_record, running_offers, running_turnsBefore, List.nil_append,
    List.append_assoc, List.singleton_append]

theorem firstOf_eq_none {samples : List (Sample × Usage)} (h : ∀ s ∈ samples, s.1.client ≠ c) :
    firstOf c (samples.map Prod.fst) = none := by
  unfold firstOf
  rw [List.find?_eq_none]
  intro s hs
  obtain ⟨p, hp, rfl⟩ := List.mem_map.mp hs
  simpa using h p hp

/-- When a client is recorded in a turn, its cycle has not seen the client yet. -/
theorem firstOf_running_upTo {i : ℕ} (h : (turns i).Of c) :
    firstOf c (running (upTo turns i)) = none := by
  unfold upTo
  rw [running_offers, running_turnsBefore, List.nil_append]
  exact firstOf_eq_none fun s hs => h.2 s (List.mem_append_left _ hs)

/-- The first turn has no cycle before it. -/
theorem preceding_upTo_zero (turns : ℕ → Turn) : preceding (upTo turns 0) = [] := by
  unfold upTo
  rw [preceding_offers]
  rfl

/-- The cycle before a later turn has seen the client just as the turn before recorded it. -/
theorem firstOf_preceding_upTo_succ {i : ℕ} (h : (turns i).Of c) :
    firstOf c (preceding (upTo turns (i + 1))) = some (turns i).sample := by
  unfold upTo
  rw [preceding_offers, preceding_turnsBefore_succ]
  have hbefore := firstOf_eq_none fun s hs => h.2 s (List.mem_append_left _ hs)
  unfold firstOf at hbefore ⊢
  rw [List.find?_append, hbefore, Option.none_or]
  exact List.find?_cons_of_pos (decide_eq_true h.1)

/-! ## Reports of turns -/

/-- The first turn reports no share. -/
theorem reportIn_zero (h : (turns 0).Of c) : reportIn turns 0 = (.ok (), .ofPid (turns 0).pid) := by
  have hc := h.1
  unfold reportIn
  rw [reportAfter_eq, hc, firstOf_running_upTo h, preceding_upTo_zero]
  rfl

/-- A later turn reports the shares since the sample of the turn before. -/
theorem reportIn_succ {i : ℕ} (h : (turns i).Of c) (h' : (turns (i + 1)).Of c) :
    reportIn turns (i + 1) =
      (.ok (), (Usage.ofPid (turns (i + 1)).pid).since (some (turns i).sample)
        (turns (i + 1)).sample) := by
  have hc := h'.1
  unfold reportIn
  rw [reportAfter_eq, hc, firstOf_running_upTo h', firstOf_preceding_upTo_succ h]
  rfl

/-! ## Sums -/

/-- Errors of single intervals add up, and the growths of a counter are that of the whole time. -/
theorem abs_sum_sub_le (share gap count : ℕ → ℤ) {n : ℕ}
    (h : ∀ i < n, |2 * (share i * gap i) - 200 * (count (i + 1) - count i)| ≤ gap i) :
    |2 * ∑ i ∈ Finset.range n, share i * gap i - 200 * (count n - count 0)| ≤
      ∑ i ∈ Finset.range n, gap i := by
  calc |2 * ∑ i ∈ Finset.range n, share i * gap i - 200 * (count n - count 0)|
      = |∑ i ∈ Finset.range n, (2 * (share i * gap i) - 200 * (count (i + 1) - count i))| := by
        rw [← Finset.sum_range_sub, Finset.mul_sum, Finset.mul_sum, ← Finset.sum_sub_distrib]
    _ ≤ ∑ i ∈ Finset.range n, |2 * (share i * gap i) - 200 * (count (i + 1) - count i)| :=
        Finset.abs_sum_le_sum_abs _ _
    _ ≤ ∑ i ∈ Finset.range n, gap i :=
        Finset.sum_le_sum fun i hi => h i (Finset.mem_range.mp hi)

/-! ## Totals -/

/-- The nanoseconds from a turn to the one behind it. -/
def gap (turns : ℕ → Turn) (i : ℕ) : ℕ :=
  (turns (i + 1)).sample.takenAt.ns - (turns i).sample.takenAt.ns

/-- Up to turn `n` a client is recorded once in every turn, with a reading of the counter of an
engine class, and each turn is later than the one before it by a time that fits a word. -/
structure Sampled (turns : ℕ → Turn) (n : ℕ) (c : Client) (e : Engine) (count : ℕ → UInt64) :
    Prop where
  once : ∀ i ≤ n, (turns i).Of c
  told : ∀ i ≤ n, (turns i).sample.times.get e = some (count i)
  rising : ∀ i < n, (turns i).sample.takenAt.ns < (turns (i + 1)).sample.takenAt.ns
  near : ∀ i < n, gap turns i < UInt64.size

/-- A report of a turn tells a share of an engine class. -/
def Reports (turns : ℕ → Turn) (i : ℕ) (e : Engine) (share : Option UInt32) : Prop :=
  ∃ usage, reportIn turns i = (.ok (), usage) ∧ usage.share? e = share

variable {n : ℕ} {e : Engine} {count : ℕ → UInt64}

/-- A later turn reports the growth of the counter over the gap before it, and nothing else. -/
theorem Sampled.reports_succ (h : Sampled turns n c e count) (he : e ≠ .copy) {i : ℕ} (hi : i < n) :
    Reports turns (i + 1) e (busyPercent (count (i + 1)) (count i) (.ofNat (gap turns i))) := by
  refine ⟨_, reportIn_succ (h.once i (Nat.le_of_lt hi)) (h.once (i + 1) hi), ?_⟩
  have hgap : (turns (i + 1)).sample.takenAt.elapsedSince (turns i).sample.takenAt =
      .ofNat (gap turns i) := by
    have hnear := h.near i hi
    unfold Instant.elapsedSince
    rw [← gap, Nat.min_eq_left (by omega)]
  have hfresh : (Usage.ofPid (turns (i + 1)).pid).share? e = none := by cases e <;> rfl
  simp only [Usage.since, Usage.share?_withShares _ _ he, hfresh, Option.or_none, Sample.share,
    h.told i (Nat.le_of_lt hi), h.told (i + 1) hi, hgap]

/-- Of a client that is recorded once in every cycle, with rising instants, the first cycle reports
no share, and each later one that of the growth of the counter since the cycle before, if there is
one. If all of them report a share, the shares weighted with the times between the cycles are the
growth of the counter over the whole run to within half a percent of the whole time. -/
theorem totals_of_turns (h : Sampled turns n c e count) (he : e ≠ .copy) :
    Reports turns 0 e none ∧
    (∀ i < n,
      Reports turns (i + 1) e (busyPercent (count (i + 1)) (count i) (.ofNat (gap turns i)))) ∧
    ∀ share : ℕ → UInt32, (∀ i < n, Reports turns (i + 1) e (some (share (i + 1)))) →
      |2 * ∑ i ∈ Finset.range n, ((share (i + 1)).toNat : ℤ) * gap turns i -
          200 * (((count n).toNat : ℤ) - (count 0).toNat)| ≤
        ∑ i ∈ Finset.range n, (gap turns i : ℤ) := by
  refine ⟨?first, fun i hi => h.reports_succ he hi, ?total⟩
  case first =>
    refine ⟨_, reportIn_zero (h.once 0 (Nat.zero_le n)), ?_⟩
    cases e <;> rfl
  case total =>
    intro share hshare
    refine abs_sum_sub_le (fun i => (share (i + 1)).toNat) (fun i => gap turns i)
      (fun i => (count i).toNat) ?_
    intro i hi
    obtain ⟨usage, hreport, htold⟩ := hshare i hi
    obtain ⟨usage', hreport', htold'⟩ := h.reports_succ he hi
    obtain rfl := congrArg Prod.snd (hreport.symm.trans hreport')
    have hword : (UInt64.ofNat (gap turns i)).toNat = gap turns i :=
      UInt64.toNat_ofNat_of_lt' (h.near i hi)
    have herror := abs_percent_sub_le (htold'.symm.trans htold)
    rw [hword] at herror
    exact herror

/-- Three turns of a client that renders for half of the first second and a third of the next,
while other clients come before and behind it. -/
def unevenTurns : ℕ → Turn
  | 0 =>
    { before := [(⟨⟨5, 8⟩, { render := some 7 }, ⟨900⟩⟩, .ofPid 8)]
      sample := ⟨⟨5, 7⟩, { render := some 100 }, ⟨1000⟩⟩
      pid := 7
      behind := [] }
  | 1 =>
    { before := []
      sample := ⟨⟨5, 7⟩, { render := some 600 }, ⟨2000⟩⟩
      pid := 7
      behind := [(⟨⟨6, 7⟩, { render := some 9 }, ⟨2100⟩⟩, .ofPid 7),
        (⟨⟨6, 7⟩, { render := some 9 }, ⟨2100⟩⟩, .ofPid 7)] }
  | _ =>
    { before := [(⟨⟨6, 7⟩, { render := some 99 }, ⟨2900⟩⟩, .ofPid 7)]
      sample := ⟨⟨5, 7⟩, { render := some 933 }, ⟨3000⟩⟩
      pid := 7
      behind := [] }

/-- The readings of its counter. -/
def unevenCounts : ℕ → UInt64
  | 0 => 100
  | 1 => 600
  | _ => 933

/-- The shares that the second and the third turn report. -/
def unevenShares : ℕ → UInt32
  | 1 => 50
  | 2 => 33
  | _ => 0

theorem totals_of_turns_uneven :
    Sampled unevenTurns 2 ⟨5, 7⟩ .render unevenCounts ∧
      Reports unevenTurns 1 .render (some 50) ∧ Reports unevenTurns 2 .render (some 33) ∧
      |2 * ∑ i ∈ Finset.range 2, ((unevenShares (i + 1)).toNat : ℤ) * gap unevenTurns i -
          200 * (((unevenCounts 2).toNat : ℤ) - (unevenCounts 0).toNat)| ≤
        ∑ i ∈ Finset.range 2, (gap unevenTurns i : ℤ) := by
  have hsampled : Sampled unevenTurns 2 ⟨5, 7⟩ .render unevenCounts :=
    ⟨by decide, by decide, by decide, by decide⟩
  obtain ⟨-, hreports, htotal⟩ := totals_of_turns hsampled (by decide)
  have hfirst : Reports unevenTurns 1 .render (some 50) := hreports 0 (by decide)
  have hsecond : Reports unevenTurns 2 .render (some 33) := hreports 1 (by decide)
  refine ⟨hsampled, hfirst, hsecond, htotal unevenShares ?_⟩
  intro i hi
  match i, hi with
  | 0, _ => exact hfirst
  | 1, _ => exact hsecond

end SampleCache

end DrmUsage

-- SUMMARY: What a sweep finds out and leaves in the caches, told by its intakes in the order of the walk.
import Mathlib.Data.List.Basic
import DrmUsage.Proofs.Admissions

/-!
# What a sweep finds out

A sweep makes its intakes one after the other. Each brings one finding, made
from what the caches hold at that point, and one sample. So what is found out
about an origin, and what stays of it, can be said from the intakes with this
origin alone, whatever stands between them. The order of the processes in
the answer does not matter for that: a stable sort by process keeps the findings
of an origin in order.
-/

namespace DrmUsage

/-- The client of an event that tells of a refused sample. -/
def Event.refusedClient? : Event → Option Client
  | .duplicateIgnored client => some client
  | _ => none

/-- No refused sample is told of exactly if no event has the client of one. -/
theorem Event.forall_duplicateIgnored_not_mem_iff {events : List Event} :
    (∀ client, .duplicateIgnored client ∉ events) ↔
      events.filterMap Event.refusedClient? = [] := by
  rw [List.filterMap_eq_nil_iff]
  constructor
  · intro h event hevent
    cases event with
    | duplicateIgnored client => exact absurd hevent (h client)
    | _ => rfl
  · intro h client hevent
    exact absurd (h _ hevent) (Option.some_ne_none client)

namespace Sweep

/-! ## One record -/

variable {δ : Type} {clock : Clock} {pid : Int32} {name record : String} {seen : List Sighting}
  {later : List String} {hub : Hub δ}

private theorem not_any_of_not_mem (h : ¬ ∃ s ∈ seen, sighting? record = some s) :
    ¬ (sighting? record).any (· ∈ seen) = true := by
  intro hany
  obtain ⟨s, hsighting, hs⟩ := (Option.any_eq_true ..).mp hany
  exact h ⟨s, of_decide_eq_true hs, hsighting⟩

/-- A record with a known sighting is passed over. -/
theorem offerRecords_cons_of_mem (h : ∃ s ∈ seen, sighting? record = some s) :
    offerRecords clock pid name seen (record :: later) hub =
      offerRecords (clock.later 1) pid name seen later hub := by
  obtain ⟨s, hs, hsighting⟩ := h
  conv_lhs => unfold offerRecords
  simp only [hsighting, Option.any_some, hs, decide_true, if_true]

/-- Any other record is offered, and one that is rejected leaves its sighting to others. -/
theorem offerRecords_cons_of_none (h : ¬ ∃ s ∈ seen, sighting? record = some s)
    (hreject : (hub.offer clock.now record (.ofPid pid)).value.listener = none) :
    offerRecords clock pid name seen (record :: later) hub =
      (do let offered ← hub.offer clock.now record (.ofPid pid)
          offerRecords (clock.later 1) pid name seen later offered.hub) := by
  conv_lhs => unfold offerRecords
  rw [if_neg (not_any_of_not_mem h)]
  apply Logged.bind_congr_value
  rw [hreject]

/-- One that is accepted makes a finding, and its sighting is known from there on. -/
theorem offerRecords_cons_of_some (h : ¬ ∃ s ∈ seen, sighting? record = some s)
    {listener : ListenerId}
    (haccept : (hub.offer clock.now record (.ofPid pid)).value.listener = some listener) :
    offerRecords clock pid name seen (record :: later) hub =
      (do let offered ← hub.offer clock.now record (.ofPid pid)
          let rest ← offerRecords (clock.later 1) pid name ((sighting? record).toList ++ seen)
            later offered.hub
          pure (⟨listener, name, offered.usage, record⟩ :: rest.1, rest.2)) := by
  conv_lhs => unfold offerRecords
  rw [if_neg (not_any_of_not_mem h)]
  apply Logged.bind_congr_value
  rw [haccept]

end Sweep

namespace Hub

open Sweep (Origin Admission Intake)

variable {hub : Hub IntelGpu}

/-! ## Samples by origin -/

/-- The sample of an origin in the running cycle. -/
def current? (hub : Hub IntelGpu) (o : Origin) : Option Sample :=
  (hub.gpu? o.1).bind fun gpu => gpu.cache.current[o.2]?

/-- The unused sample of an origin in the cycle before. -/
def previous? (hub : Hub IntelGpu) (o : Origin) : Option Sample :=
  (hub.gpu? o.1).bind fun gpu => gpu.cache.previous[o.2]?

/-- Nothing was recorded in the running cycle for any listener. -/
def Idle (hub : Hub IntelGpu) : Prop :=
  ∀ id gpu, hub.gpu? id = some gpu → gpu.cache.current = ∅

theorem Idle.current? (h : hub.Idle) (o : Origin) : hub.current? o = none := by
  unfold Hub.current?
  cases hgpu : hub.gpu? o.1 with
  | none => rfl
  | some gpu =>
      rw [Option.bind_some, h o.1 gpu hgpu]
      exact Std.ExtTreeMap.getElem?_empty

theorem OfIntel.previous?_closeCycle (hI : hub.OfIntel) (o : Origin) :
    hub.closeCycle.previous? o = hub.current? o := by
  unfold previous? current?
  rw [hI.gpu?_closeCycle]
  cases hub.gpu? o.1 with
  | none => rfl
  | some gpu => rfl

theorem OfIntel.idle_closeCycle (hI : hub.OfIntel) : hub.closeCycle.Idle := by
  intro id gpu hgpu
  rw [hI.gpu?_closeCycle] at hgpu
  obtain ⟨old, -, rfl⟩ := Option.map_eq_some_iff.mp hgpu
  exact SampleCache.current_closeCycle old.cache

/-! ## Taking records in -/

/-- The hub after an intake. -/
def takeIn (hub : Hub IntelGpu) (a : Intake) : Hub IntelGpu := hub.keep a.listener a.sample

/-- The hub after some intakes, in order. -/
def takeInAll (hub : Hub IntelGpu) (as : List Intake) : Hub IntelGpu := as.foldl takeIn hub
/-- What a record says by itself. -/
def plainUsage (a : Admission) : Usage := (Usage.ofPid a.pid).withTimes (Record.times a.record)

/-- What is reported of an intake: the shares since the cycle before, unless this cycle has a
sample of the origin already. -/
def usageOf (hub : Hub IntelGpu) (a : Intake) : Usage :=
  let plain := plainUsage a.toAdmission
  if (hub.current? a.origin).isSome then plain
  else
    match hub.previous? a.origin with
    | none => plain
    | some earlier => plain.withShares (earlier.share (Record.times a.record) a.takenAt)

/-- What is found out from an intake. -/
def finding (hub : Hub IntelGpu) (a : Intake) : Finding :=
  ⟨a.listener, a.name, hub.usageOf a, a.record⟩

/-- What is found out from some intakes, in order. -/
def findings : Hub IntelGpu → List Intake → List Finding
  | _, [] => []
  | hub, a :: later => hub.finding a :: findings (hub.takeIn a) later

/-- The clients of those intakes whose origin had a sample in the running cycle already. -/
def refusals : Hub IntelGpu → List Intake → List Client
  | _, [] => []
  | hub, a :: later =>
    (if (hub.current? a.origin).isSome then [a.client] else []) ++
      refusals (hub.takeIn a) later

variable {as bs : List Intake}

@[simp] theorem takeInAll_nil : hub.takeInAll [] = hub := rfl

@[simp] theorem takeInAll_cons (a : Intake) :
    hub.takeInAll (a :: as) = (hub.takeIn a).takeInAll as := rfl

theorem takeInAll_append : hub.takeInAll (as ++ bs) = (hub.takeInAll as).takeInAll bs :=
  List.foldl_append

@[simp] theorem findings_nil : hub.findings [] = [] := rfl

@[simp] theorem findings_cons (a : Intake) :
    hub.findings (a :: as) = hub.finding a :: (hub.takeIn a).findings as := rfl

@[simp] theorem refusals_nil : hub.refusals [] = [] := rfl

@[simp] theorem refusals_cons (a : Intake) :
    hub.refusals (a :: as) =
      (if (hub.current? a.origin).isSome then [a.client] else []) ++
        (hub.takeIn a).refusals as := rfl

theorem findings_append :
    hub.findings (as ++ bs) =
      hub.findings as ++ (hub.takeInAll as).findings bs := by
  induction as generalizing hub with
  | nil => rfl
  | cons a as ih =>
      rw [List.cons_append, findings_cons, findings_cons, ih, List.cons_append, takeInAll_cons]

theorem refusals_append :
    hub.refusals (as ++ bs) =
      hub.refusals as ++ (hub.takeInAll as).refusals bs := by
  induction as generalizing hub with
  | nil => rfl
  | cons a as ih =>
      rw [List.cons_append, refusals_cons, refusals_cons, ih, List.append_assoc, takeInAll_cons]

@[simp] theorem addresses_takeIn (a : Intake) : (hub.takeIn a).addresses = hub.addresses :=
  addresses_keep ..

@[simp] theorem addresses_takeInAll : (hub.takeInAll as).addresses = hub.addresses := by
  induction as generalizing hub with
  | nil => rfl
  | cons a as ih => exact ih.trans (addresses_takeIn a)

@[simp] theorem listeners_takeInAll : (hub.takeInAll as).listeners = hub.listeners := by
  induction as generalizing hub with
  | nil => rfl
  | cons a as ih => exact ih.trans (listeners_keep ..)

theorem OfIntel.takeIn (hI : hub.OfIntel) (a : Intake) : (hub.takeIn a).OfIntel := hI.keep ..

theorem OfIntel.takeInAll (hI : hub.OfIntel) (as : List Intake) : (hub.takeInAll as).OfIntel := by
  induction as generalizing hub with
  | nil => exact hI
  | cons a as ih => exact ih (hI.takeIn a)

/-! ## What the intakes leave behind -/

/-- The first of some intakes with an origin. -/
def firstFrom (o : Origin) (as : List Intake) : Option Intake := as.find? (·.origin = o)

/-- The listeners of some intakes have GPUs. -/
def Serves (hub : Hub IntelGpu) (as : List Intake) : Prop :=
  ∀ a ∈ as, (hub.gpu? a.listener).isSome

theorem OfIntel.serves_takeIn (hI : hub.OfIntel) (h : hub.Serves as) (a : Intake) :
    (hub.takeIn a).Serves as := by
  intro b hb
  unfold Hub.takeIn
  rw [hI.gpu?_keep]
  split
  · rw [Option.isSome_map]
    exact h b hb
  · exact h b hb

/-- A sample that is kept comes behind those of its origin in the running cycle. -/
theorem OfIntel.current?_keep (hI : hub.OfIntel) {id : ListenerId} (hid : (hub.gpu? id).isSome)
    (sample : Sample) (o : Origin) :
    (hub.keep id sample).current? o =
      (hub.current? o).or (if (id, sample.client) = o then some sample else none) := by
  obtain ⟨j, c⟩ := o
  unfold current?
  rw [hI.gpu?_keep]
  by_cases hj : id = j
  · subst hj
    obtain ⟨gpu, hgpu⟩ := Option.isSome_iff_exists.mp hid
    simp only [hgpu, if_true, Option.map_some, Option.bind_some, Prod.mk.injEq, true_and]
    exact SampleCache.getElem?_current_keep gpu.cache sample c
  · simp only [hj, if_false, Prod.mk.injEq, false_and, Option.or_none]

theorem OfIntel.current?_takeIn (hI : hub.OfIntel) {a : Intake}
    (ha : (hub.gpu? a.listener).isSome) (o : Origin) :
    (hub.takeIn a).current? o =
      (hub.current? o).or (if a.origin = o then some a.sample else none) :=
  hI.current?_keep ha a.sample o

theorem OfIntel.current?_takeIn_eq_none_iff (hI : hub.OfIntel) {a : Intake}
    (ha : (hub.gpu? a.listener).isSome) {o : Origin} :
    (hub.takeIn a).current? o = none ↔ hub.current? o = none ∧ a.origin ≠ o := by
  rw [hI.current?_takeIn ha, Option.or_eq_none_iff, ite_eq_right_iff]
  exact and_congr_right fun _ => imp_congr_right fun _ => iff_false_intro (Option.some_ne_none _)

theorem OfIntel.previous?_takeIn (hI : hub.OfIntel) (a : Intake) (o : Origin) :
    (hub.takeIn a).previous? o =
      if a.origin = o ∧ hub.current? o = none then none else hub.previous? o := by
  obtain ⟨j, c⟩ := o
  unfold previous? current? Hub.takeIn Admission.origin
  rw [hI.gpu?_keep]
  by_cases hj : a.listener = j
  · subst hj
    cases hgpu : hub.gpu? a.listener with
    | none => simp only [Option.map_none, Option.bind_none, ite_self]
    | some gpu =>
        have hmem : gpu.cache.current[c]? = none ↔ c ∉ gpu.cache.current := by
          rw [SampleCache.mem_current_iff, Option.not_isSome_iff_eq_none]
        simp only [if_true, Option.map_some, Option.bind_some, Prod.mk.injEq, true_and, hmem]
        exact SampleCache.getElem?_previous_keep gpu.cache a.sample c
  · simp only [hj, if_false, Prod.mk.injEq, false_and]

/-- The running cycle holds the first sample of each origin. -/
theorem OfIntel.current?_takeInAll (hI : hub.OfIntel) (h : hub.Serves as) (o : Origin) :
    (hub.takeInAll as).current? o =
      (hub.current? o).or ((firstFrom o as).map Intake.sample) := by
  induction as generalizing hub with
  | nil => exact (Option.or_none).symm
  | cons a as ih =>
      obtain ⟨ha, has⟩ := List.forall_mem_cons.mp h
      have hfirst : (firstFrom o (a :: as)).map Intake.sample =
          (if a.origin = o then some a.sample else none).or
            ((firstFrom o as).map Intake.sample) := by
        unfold firstFrom
        rw [List.find?_cons]
        by_cases ho : a.origin = o
        · simp only [ho, decide_true, Option.map_some, if_true, Option.some_or]
        · simp only [ho, decide_false, if_false, Option.none_or]
      rw [takeInAll_cons, ih (hI.takeIn a) (hI.serves_takeIn has a), hI.current?_takeIn ha,
        hfirst, Option.or_assoc]

/-- Of the cycle before, only the origins of the admissions are used up. -/
theorem OfIntel.previous?_takeInAll (hI : hub.OfIntel) (h : hub.Serves as) (o : Origin) :
    (hub.takeInAll as).previous? o =
      if (firstFrom o as).isSome ∧ hub.current? o = none then none else hub.previous? o := by
  induction as generalizing hub with
  | nil => rfl
  | cons a as ih =>
      obtain ⟨ha, has⟩ := List.forall_mem_cons.mp h
      have hfirst : (firstFrom o (a :: as)).isSome ↔ a.origin = o ∨ (firstFrom o as).isSome := by
        unfold firstFrom
        rw [List.find?_isSome, List.find?_isSome]
        simp only [List.mem_cons, exists_eq_or_imp, decide_eq_true_eq]
      rw [takeInAll_cons, ih (hI.takeIn a) (hI.serves_takeIn has a), hI.previous?_takeIn]
      simp only [hfirst, hI.current?_takeIn_eq_none_iff ha]
      by_cases ho : a.origin = o <;> by_cases hc : hub.current? o = none <;> simp [ho, hc]

/-! ## The walk -/

variable {pid : Int32} {name record : String} {now : Instant} {a : Intake}

theorem OfIntel.offer_of_rejected (hI : hub.OfIntel)
    (h : Sweep.intake? hub.addresses pid name (record, now) = none) :
    hub.offer now record (.ofPid pid) =
      ⟨⟨none, .ofPid pid, hub⟩, [.recordUnmatched pid]⟩ := by
  apply hI.offer_of_none
  have hclaim := Sweep.isSome_intake?_iff.not.mp (Option.not_isSome_iff_eq_none.mpr h)
  exact Option.not_isSome_iff_eq_none.mp hclaim

theorem OfIntel.offer_of_claimant? (hI : hub.OfIntel)
    (h : claimant? hub.addresses a.record = some a.listener) :
    hub.offer a.takenAt a.record (.ofPid a.pid) =
      ⟨⟨some a.listener, hub.usageOf a, hub.takeIn a⟩,
        if (hub.current? a.origin).isSome then [.duplicateIgnored a.client] else []⟩ := by
  obtain ⟨⟨gpu, hgpu, -⟩, -⟩ := claimant?_eq_some_iff.mp h
  have hcurrent : hub.current? a.origin = gpu.cache.current[a.client]? := by
    unfold current?
    rw [Admission.origin, hgpu, Option.bind_some]
  have hprevious : hub.previous? a.origin = gpu.cache.previous[a.client]? := by
    unfold previous?
    rw [Admission.origin, hgpu, Option.bind_some]
  have husage : hub.usageOf a = gpu.cache.report a.sample (plainUsage a.toAdmission) := by
    unfold usageOf SampleCache.report SampleCache.withShares
    rw [hcurrent, hprevious]
    simp only [← SampleCache.mem_current_iff]
    rfl
  rw [hI.offer_of_some h hgpu a.told, husage, hcurrent]
  simp only [← SampleCache.mem_current_iff]
  rfl

/-- An answer is that of some intakes. -/
structure TakesIn (hub : Hub IntelGpu) (as : List Intake)
    (answer : Logged (List Finding × Hub IntelGpu)) : Prop where
  value : answer.value = (hub.findings as, hub.takeInAll as)
  refusals : answer.events.filterMap Event.refusedClient? = hub.refusals as

theorem takesIn_nil : hub.TakesIn [] (pure ([], hub)) := ⟨rfl, rfl⟩

theorem takesIn_cons {answer : Logged (List Finding × Hub IntelGpu)}
    (h : (hub.takeIn a).TakesIn as answer) :
    hub.TakesIn (a :: as)
      (do let offered ← (⟨⟨some a.listener, hub.usageOf a, hub.takeIn a⟩,
            if (hub.current? a.origin).isSome then [.duplicateIgnored a.client] else []⟩ :
              Logged (Offered IntelGpu))
          let rest ← answer
          pure (⟨a.listener, a.name, offered.usage, a.record⟩ :: rest.1, rest.2)) where
  value := by
    simp only [Logged.value_bind, Logged.value_pure, h.value]
    rfl
  refusals := by
    simp only [Logged.events_bind, Logged.events_pure, List.append_nil, List.filterMap_append,
      h.refusals, refusals_cons]
    congr 1
    split <;> rfl

theorem TakesIn.append {first : Logged (List Finding × Hub IntelGpu)}
    {later : Hub IntelGpu → Logged (List Finding × Hub IntelGpu)}
    (hfirst : hub.TakesIn as first)
    (hlater : (hub.takeInAll as).TakesIn bs (later (hub.takeInAll as))) :
    hub.TakesIn (as ++ bs)
      (do let (found, hub) ← first
          let (rest, hub) ← later hub
          pure (found ++ rest, hub)) where
  value := by
    simp only [Logged.value_bind, hfirst.value, hlater.value, Logged.value_pure, findings_append,
      takeInAll_append]
  refusals := by
    simp only [Logged.events_bind, hfirst.value, List.filterMap_append, hfirst.refusals,
      hlater.value, hlater.refusals, Logged.events_pure, List.append_nil, refusals_append]

/-- The records of one process. -/
theorem OfIntel.offerRecords (hI : hub.OfIntel) (clock : Clock) (pid : Int32) (name : String)
    (seen : List Sweep.Sighting) (records : List String) :
    hub.TakesIn
      (Sweep.dropSeen Intake.sighting? seen
        ((Sweep.stamped clock records).filterMap (Sweep.intake? hub.addresses pid name)))
      (Sweep.offerRecords clock pid name seen records hub) := by
  induction records generalizing clock seen hub with
  | nil => exact takesIn_nil
  | cons record later ih =>
      rw [Sweep.stamped_cons]
      cases ha : Sweep.intake? hub.addresses pid name (record, clock.now) with
      | none =>
          rw [List.filterMap_cons_none ha]
          by_cases hseen : ∃ s ∈ seen, Sweep.sighting? record = some s
          · rw [Sweep.offerRecords_cons_of_mem hseen]
            exact ih hI _ seen
          · have hoffer := hI.offer_of_rejected ha
            rw [Sweep.offerRecords_cons_of_none hseen (by rw [hoffer]), hoffer]
            refine ⟨(ih hI _ seen).value, ?_⟩
            rw [Logged.events_bind, List.filterMap_append]
            exact (ih hI _ seen).refusals
      | some a =>
          obtain ⟨hadmission, htaken⟩ := Sweep.intake?_eq_some_iff.mp ha
          obtain ⟨hclaim, rfl, rfl, rfl⟩ := Sweep.admission?_eq_some_iff.mp hadmission
          rw [List.filterMap_cons_some ha]
          by_cases hseen : ∃ s ∈ seen, a.sighting? = some s
          · rw [Sweep.offerRecords_cons_of_mem hseen, Sweep.dropSeen_cons_of_mem hseen]
            exact ih hI _ seen
          · -- The record is offered and accepted, and its sighting is known to the later ones.
            have hoffer := hI.offer_of_claimant? hclaim
            have hlater := ih (hI.takeIn a) (clock.later 1) (a.sighting?.toList ++ seen)
            rw [htaken] at hoffer
            rw [addresses_takeIn] at hlater
            rw [Sweep.offerRecords_cons_of_some hseen (by rw [hoffer]), hoffer,
              Sweep.dropSeen_cons_of_not_mem hseen]
            exact takesIn_cons hlater

/-- The records of some processes. -/
theorem OfIntel.offerProcesses (hI : hub.OfIntel) (clock : Clock) (processes : List Process) :
    hub.TakesIn (Sweep.intakesOf hub.addresses clock processes)
      (Sweep.offerProcesses clock processes hub) := by
  induction processes generalizing clock hub with
  | nil => exact takesIn_nil
  | cons process later ih =>
      have hfirst := hI.offerRecords clock process.pid process.name [] process.records
      have hlater := ih (hI.takeInAll (Sweep.intakes hub.addresses clock process))
        (clock.later process.records.length)
      rw [addresses_takeInAll] at hlater
      unfold Sweep.offerProcesses Sweep.intakesOf
      exact hfirst.append hlater

/-! ## The whole sweep -/

variable {fs : Snapshot} {root : Path}

private theorem refusals_processes :
    (Sweep.processes fs root).events.filterMap Event.refusedClient? = [] := by
  unfold Sweep.processes
  cases Process.all fs root <;> rfl

/-- A sweep finds what its intakes bring and leaves what they leave, with the cycle closed. -/
theorem OfIntel.value_run (hI : hub.OfIntel) (fs : Snapshot) (root : Path) (clock : Clock) :
    (Sweep.run fs root clock hub).value =
      (Sweep.byProcess (hub.findings (Sweep.intakesUnder hub.addresses clock fs root)),
        (hub.takeInAll (Sweep.intakesUnder hub.addresses clock fs root)).closeCycle) := by
  have h := (hI.offerProcesses clock (Sweep.processes fs root).value).value
  unfold Sweep.run
  simp only [Logged.value_bind, Logged.value_pure, h]
  rfl

theorem OfIntel.perm_run (hI : hub.OfIntel) (fs : Snapshot) (root : Path) (clock : Clock) :
    (Sweep.run fs root clock hub).value.1.Perm
      (hub.findings (Sweep.intakesUnder hub.addresses clock fs root)) := by
  rw [hI.value_run]
  exact List.mergeSort_perm ..

theorem OfIntel.run (hI : hub.OfIntel) (fs : Snapshot) (root : Path) (clock : Clock) :
    (Sweep.run fs root clock hub).value.2.OfIntel := by
  rw [hI.value_run]
  exact (hI.takeInAll ..).closeCycle

theorem OfIntel.idle_run (hI : hub.OfIntel) (fs : Snapshot) (root : Path) (clock : Clock) :
    (Sweep.run fs root clock hub).value.2.Idle := by
  rw [hI.value_run]
  exact (hI.takeInAll ..).idle_closeCycle

theorem OfIntel.listeners_run (hI : hub.OfIntel) (fs : Snapshot) (root : Path) (clock : Clock) :
    (Sweep.run fs root clock hub).value.2.listeners = hub.listeners := by
  rw [hI.value_run]
  simp only [listeners_closeCycle, listeners_takeInAll]

theorem OfIntel.refusals_run (hI : hub.OfIntel) (fs : Snapshot) (root : Path) (clock : Clock) :
    (Sweep.run fs root clock hub).events.filterMap Event.refusedClient? =
      hub.refusals (Sweep.intakesUnder hub.addresses clock fs root) := by
  have h := (hI.offerProcesses clock (Sweep.processes fs root).value).refusals
  unfold Sweep.run
  simp only [Logged.events_bind, Logged.events_pure, List.append_nil, List.filterMap_append,
    refusals_processes, List.nil_append, h]
  rfl

theorem claimant?_of_mem_intakesUnder {clock : Clock}
    (h : a ∈ Sweep.intakesUnder hub.addresses clock fs root) :
    claimant? hub.addresses a.record = some a.listener := by
  have hadmission := List.mem_map_of_mem (f := Intake.toAdmission) h
  rw [Sweep.map_toAdmission_intakesUnder] at hadmission
  obtain ⟨process, -, ha⟩ := Sweep.mem_admissionsUnder_iff.mp hadmission
  exact (Sweep.mem_admissions ha).2.1

theorem serves_intakesUnder (hub : Hub IntelGpu) (clock : Clock) (fs : Snapshot) (root : Path) :
    hub.Serves (Sweep.intakesUnder hub.addresses clock fs root) := by
  intro a ha
  obtain ⟨⟨gpu, hgpu, -⟩, -⟩ := claimant?_eq_some_iff.mp (claimant?_of_mem_intakesUnder ha)
  exact Option.isSome_of_eq_some hgpu

end Hub

/-! ## Findings by origin -/

namespace Finding

/-- The origin of what was found out, as the record tells it. -/
def origin? (f : Finding) : Option Sweep.Origin :=
  (Record.lastClientId? f.record).map fun id => (f.listener, ⟨id, f.usage.pid⟩)

/-- What the record says by itself. -/
def plainUsage (f : Finding) : Usage := (Usage.ofPid f.usage.pid).withTimes (Record.times f.record)

end Finding

namespace Hub

variable {hub : Hub IntelGpu} {as : List Sweep.Intake} {a : Sweep.Intake} {f : Finding}
  {before later : List Finding}

@[simp] theorem pid_usageOf : (hub.usageOf a).pid = a.pid := by
  unfold usageOf
  split
  · rfl
  · cases hub.previous? a.origin <;> rfl

@[simp] theorem origin?_finding : (hub.finding a).origin? = some a.origin := by
  unfold Finding.origin? finding
  rw [a.told, Option.map_some, pid_usageOf]
  rfl

theorem plainUsage_finding : (hub.finding a).plainUsage = plainUsage a.toAdmission := by
  unfold Finding.plainUsage finding
  rw [pid_usageOf]
  rfl

theorem map_origin?_findings :
    (hub.findings as).map Finding.origin? = (as.map (·.origin)).map some := by
  induction as generalizing hub with
  | nil => rfl
  | cons a as ih =>
      rw [findings_cons, List.map_cons, List.map_cons, List.map_cons, ih, origin?_finding]

/-- Whatever is found out has an origin. -/
theorem exists_origin?_of_mem_findings (h : f ∈ hub.findings as) : ∃ o, f.origin? = some o := by
  have horigin : f.origin? ∈ (hub.findings as).map Finding.origin? := List.mem_map_of_mem h
  rw [map_origin?_findings] at horigin
  obtain ⟨o, -, ho⟩ := List.mem_map.mp horigin
  exact ⟨o, ho.symm⟩

theorem exists_origin?_eq_iff {o : Sweep.Origin} :
    (∃ g ∈ hub.findings as, g.origin? = some o) ↔ ∃ b ∈ as, b.origin = o := by
  have hmap : some o ∈ (hub.findings as).map Finding.origin? ↔
      some o ∈ (as.map (·.origin)).map some := by
    rw [map_origin?_findings]
  simpa only [List.mem_map, Option.some.injEq, exists_eq_right] using hmap

/-- A place among the findings is one among the intakes. -/
theorem exists_of_findings_eq (h : hub.findings as = before ++ f :: later) :
    ∃ as₁ as₂, ∃ a, as = as₁ ++ a :: as₂ ∧ before = hub.findings as₁ ∧
      f = (hub.takeInAll as₁).finding a := by
  induction before generalizing hub as with
  | nil =>
      cases as with
      | nil => exact absurd h (List.cons_ne_nil _ _).symm
      | cons a as =>
          obtain ⟨rfl, -⟩ := List.cons.inj h
          exact ⟨[], as, a, rfl, rfl, rfl⟩
  | cons g before ih =>
      cases as with
      | nil => exact absurd h (List.cons_ne_nil _ _).symm
      | cons b as =>
          obtain ⟨rfl, htail⟩ := List.cons.inj h
          obtain ⟨as₁, as₂, a, rfl, rfl, rfl⟩ := ih htail
          exact ⟨b :: as₁, as₂, a, rfl, rfl, rfl⟩

end Hub

/-! ## Small systems -/

/-- The files of a single process under `/proc`. Each of its descriptors leads to a GPU and has a
record. -/
def Snapshot.ofProcess (pid : String) (records : List (String × String)) : Snapshot where
  list path :=
    if path = ⟨"/proc"⟩ then .ok [pid]
    else if path = ⟨("/proc/" ++ pid ++ "/fd" : String)⟩ then .ok (records.map (RawText.ofText ·.1))
    else .error .notFound
  readText path :=
    match records.find? fun r => path = ⟨("/proc/" ++ pid ++ "/fdinfo/" ++ r.1 : String)⟩ with
    | some r => .ok r.2
    | none => .error .notFound
  readLink path :=
    if records.any fun r => path = ⟨("/proc/" ++ pid ++ "/fd/" ++ r.1 : String)⟩ then
      .ok "/dev/dri/renderD128"
    else .error .notFound
  isDirectory _ := true

end DrmUsage

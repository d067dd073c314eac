-- SUMMARY: A sweep as the calls that it makes on the hub, and what the caches and the answer hold of the records accepted.
import DrmUsage.Proofs.ClientRepeats
import DrmUsage.Proofs.GpuIsolation
import DrmUsage.Proofs.SharesOverSweeps

/-!
# The calls of a sweep

A sweep is a run of calls on a hub: an offer of every record that is not passed
over, and at last the end of the cycle. Which records are passed over hangs on
what was accepted before, so the calls are told together with the hub that they
change. They tell all of a sweep: its answer has one finding for each offer that
was accepted, and the hub afterwards is the one that the calls leave
(`Sweep.Tells`). After any sweeps on Intel GPUs, a cache remembers the clients
of the last one, each with the first of its accepted records and the instant of
this record (`Sweep.remembers_accepted`).
-/

namespace DrmUsage

namespace Hub

/-! ## What is accepted -/

/-- A record that was accepted: by which listener, and what it reported. -/
structure Acceptance where
  listener : ListenerId
  usage : Usage
  record : String
deriving DecidableEq, Repr

/-- The origin of an accepted record. -/
def Acceptance.origin? (a : Acceptance) : Option Sweep.Origin :=
  (Record.lastClientId? a.record).map fun id => (a.listener, ⟨id, a.usage.pid⟩)

/-- A record that was accepted, and the instant for which it was offered. -/
structure TimedAcceptance extends Acceptance where
  takenAt : Instant
deriving DecidableEq, Repr

section

variable {δ : Type} [Gpu δ]

/-- What a call has accepted. -/
def acceptance? (hub : Hub δ) : Call → Option TimedAcceptance
  | .offer now record usage =>
    let offered := (hub.offer now record usage).value
    offered.listener.map fun listener => ⟨⟨listener, offered.usage, record⟩, now⟩
  | .closeCycle => none

/-- What some calls have accepted, in order. -/
def acceptances (hub : Hub δ) : List Call → List TimedAcceptance
  | [] => []
  | call :: later => (hub.acceptance? call).toList ++ (hub.afterCall call).acceptances later

variable {hub : Hub δ} {first later : List Call}

theorem afterCalls_cons (call : Call) :
    hub.afterCalls (call :: later) = (hub.afterCall call).afterCalls later := rfl

theorem afterCalls_append :
    hub.afterCalls (first ++ later) = (hub.afterCalls first).afterCalls later :=
  List.foldl_append

theorem acceptances_cons (call : Call) :
    hub.acceptances (call :: later) =
      (hub.acceptance? call).toList ++ (hub.afterCall call).acceptances later := rfl

theorem acceptances_append :
    hub.acceptances (first ++ later) =
      hub.acceptances first ++ (hub.afterCalls first).acceptances later := by
  induction first generalizing hub with
  | nil => rfl
  | cons call first ih =>
      rw [List.cons_append, acceptances_cons, acceptances_cons, ih, List.append_assoc]
      rfl

end

/-! ## What offers leave in the caches -/

variable {hub : Hub IntelGpu} {calls : List Call}

/-- An offer to Intel GPUs is rejected without a trace, or it is accepted, and a sample is kept. -/
theorem OfIntel.afterCall_offer (hI : hub.OfIntel) (now : Instant) (record : String)
    (usage : Usage) :
    (hub.acceptance? (.offer now record usage) = none ∧
        hub.afterCall (.offer now record usage) = hub) ∨
      ∃ a o, hub.acceptance? (.offer now record usage) = some a ∧ a.takenAt = now ∧
        a.origin? = some o ∧ (hub.gpu? o.1).isSome ∧
        hub.afterCall (.offer now record usage) =
          hub.keep o.1 ⟨o.2, Record.times a.record, a.takenAt⟩ := by
  cases hclaim : claimant? hub.addresses record with
  | none =>
      left
      have hoffer := hI.offer_of_none hclaim now usage
      constructor
      · simp only [acceptance?, hoffer, Option.map_none]
      · simp only [Hub.afterCall, hoffer]
  | some id =>
      right
      obtain ⟨⟨gpu, hgpu, -, htold⟩, -⟩ := claimant?_eq_some_iff.mp hclaim
      obtain ⟨clientId, hid⟩ := Option.isSome_iff_exists.mp htold
      have hoffer := hI.offer_of_some hclaim hgpu hid now usage
      refine ⟨⟨⟨id, (hub.offer now record usage).value.usage, record⟩, now⟩,
        (id, ⟨clientId, usage.pid⟩), ?accepted, rfl, ?origin, Option.isSome_of_eq_some hgpu, ?kept⟩
      case accepted => simp only [acceptance?, hoffer, Option.map_some]
      case origin =>
        simp only [Acceptance.origin?, hid, hoffer, Option.map_some, SampleCache.pid_report]
        rfl
      case kept => simp only [Hub.afterCall, hoffer]

/-- After some offers, the running cycle holds of each origin the first record accepted. -/
theorem OfIntel.afterCalls_offers (hI : hub.OfIntel) {clock : Clock}
    (h : ∀ call ∈ calls, ∃ k record usage, call = .offer (clock.look k) record usage) :
    (hub.afterCalls calls).OfIntel ∧
      (∀ a ∈ hub.acceptances calls, a.origin?.isSome ∧ ∃ k, a.takenAt = clock.look k) ∧
      ∀ o, (hub.afterCalls calls).current? o =
        (hub.current? o).or (((hub.acceptances calls).find? (·.origin? = some o)).map
          fun a => ⟨o.2, Record.times a.record, a.takenAt⟩) := by
  induction calls generalizing hub with
  | nil => exact ⟨hI, fun _ ha => absurd ha List.not_mem_nil, fun _ => Option.or_none.symm⟩
  | cons call later ih =>
      obtain ⟨⟨k, record, usage, rfl⟩, hlater⟩ := List.forall_mem_cons.mp h
      rw [afterCalls_cons, acceptances_cons]
      rcases hI.afterCall_offer (clock.look k) record usage with
        ⟨hnone, hafter⟩ | ⟨a, origin, hsome, htaken, horigin, hgpu, hafter⟩
      · rw [hnone, hafter]
        exact ih hI hlater
      · obtain ⟨hkept, haccepted, hcurrent⟩ := ih (hI.keep ..) hlater
        rw [hsome, hafter]
        refine ⟨hkept, ?_, ?_⟩
        · refine List.forall_mem_cons.mpr ⟨?_, haccepted⟩
          exact ⟨Option.isSome_of_eq_some horigin, k, htaken⟩
        · intro o
          rw [hcurrent, hI.current?_keep hgpu, Option.or_assoc, Option.toList_some,
            List.singleton_append, List.find?_cons, horigin]
          by_cases ho : origin = o
          · subst ho
            simp only [decide_true, Option.map_some, if_true, Option.some_or]
          · simp only [ho, Option.some.injEq, decide_false, if_false, Option.none_or]

end Hub

/-- What a finding tells of the offer behind it. -/
def Finding.acceptance (f : Finding) : Hub.Acceptance := ⟨f.listener, f.usage, f.record⟩

namespace Sweep

open Hub (Call Acceptance TimedAcceptance)

/-! ## Which calls are made -/

section

variable {δ : Type} [Gpu δ]

/-- The offers of the records of a process, without those with a sighting in `seen` or in a record
accepted on the way. -/
def offersOf (clock : Clock) (pid : Int32) : List Sighting → List String → Hub δ → List Call
  | _, [], _ => []
  | seen, record :: later, hub =>
    if ∃ s ∈ seen, sighting? record = some s then offersOf (clock.later 1) pid seen later hub
    else
      let call := Call.offer clock.now record (.ofPid pid)
      let seen :=
        if (hub.acceptance? call).isSome then (sighting? record).toList ++ seen else seen
      call :: offersOf (clock.later 1) pid seen later (hub.afterCall call)

/-- The offers of the records of some processes. -/
def offers (clock : Clock) : List Process → Hub δ → List Call
  | [], _ => []
  | process :: later, hub =>
    let calls := offersOf clock process.pid [] process.records hub
    calls ++ offers (clock.later process.records.length) later (hub.afterCalls calls)

/-- The calls of a sweep. -/
def calls (fs : Snapshot) (root : Path) (clock : Clock) (hub : Hub δ) : List Call :=
  offers clock (processes fs root).value hub ++ [.closeCycle]

/-- If the processes cannot be listed, the cycle is closed and nothing else done. -/
theorem calls_of_error {fs : Snapshot} {root : Path} {cause : FileError}
    (h : Process.all fs root = .error cause) (clock : Clock) (hub : Hub δ) :
    calls fs root clock hub = [.closeCycle] := by
  unfold calls processes
  rw [h]
  rfl

theorem eq_offer_of_mem_offersOf {clock : Clock} {pid : Int32} {seen : List Sighting}
    {records : List String} {hub : Hub δ} {call : Call}
    (h : call ∈ offersOf clock pid seen records hub) :
    ∃ k record usage, call = .offer (clock.look k) record usage := by
  induction records generalizing clock seen hub with
  | nil => exact absurd h List.not_mem_nil
  | cons record later ih =>
      unfold offersOf at h
      split at h
      · obtain ⟨k, hk⟩ := ih h
        exact ⟨1 + k, hk⟩
      · rcases List.mem_cons.mp h with rfl | h
        · exact ⟨0, record, .ofPid pid, rfl⟩
        · obtain ⟨k, hk⟩ := ih h
          exact ⟨1 + k, hk⟩

/-- As long as there are records, each call offers one at a look at the clock. -/
theorem eq_offer_of_mem_offers {clock : Clock} {processes : List Process} {hub : Hub δ}
    {call : Call} (h : call ∈ offers clock processes hub) :
    ∃ k record usage, call = .offer (clock.look k) record usage := by
  induction processes generalizing clock hub with
  | nil => exact absurd h List.not_mem_nil
  | cons process later ih =>
      unfold offers at h
      rcases List.mem_append.mp h with h | h
      · exact eq_offer_of_mem_offersOf h
      · obtain ⟨k, hk⟩ := ih h
        exact ⟨process.records.length + k, hk⟩

/-! ## The calls tell the sweep -/

/-- Calls on a hub tell an answer: its findings are what was accepted, and its hub is what the
calls leave. -/
structure Tells (hub : Hub δ) (calls : List Call) (answer : List Finding × Hub δ) : Prop where
  found : answer.1.map Finding.acceptance = (hub.acceptances calls).map (·.toAcceptance)
  left : answer.2 = hub.afterCalls calls

namespace Tells

variable {hub : Hub δ} {call : Call} {calls later : List Call} {answer rest : List Finding × Hub δ}

theorem nil : Tells hub [] ([], hub) := ⟨rfl, rfl⟩

theorem cons_of_none (hnone : hub.acceptance? call = none)
    (h : Tells (hub.afterCall call) calls answer) : Tells hub (call :: calls) answer where
  found := by
    rw [Hub.acceptances_cons, hnone]
    exact h.found
  left := h.left

theorem cons_of_some {f : Finding} {now : Instant}
    (hsome : hub.acceptance? call = some ⟨f.acceptance, now⟩)
    (h : Tells (hub.afterCall call) calls answer) :
    Tells hub (call :: calls) (f :: answer.1, answer.2) where
  found := by
    rw [Hub.acceptances_cons, hsome, List.map_cons, h.found]
    rfl
  left := h.left

theorem append (hfirst : Tells hub calls answer)
    (hlater : Tells (hub.afterCalls calls) later rest) :
    Tells hub (calls ++ later) (answer.1 ++ rest.1, rest.2) where
  found := by
    rw [List.map_append, hfirst.found, hlater.found, Hub.acceptances_append, List.map_append]
  left := by rw [hlater.left, Hub.afterCalls_append]

end Tells

/-- The records of one process. -/
theorem tells_offersOf (clock : Clock) (pid : Int32) (name : String) (seen : List Sighting)
    (records : List String) (hub : Hub δ) :
    Tells hub (offersOf clock pid seen records hub)
      (offerRecords clock pid name seen records hub).value := by
  induction records generalizing clock seen hub with
  | nil => exact .nil
  | cons record later ih =>
      unfold offersOf
      by_cases hseen : ∃ s ∈ seen, sighting? record = some s
      · rw [if_pos hseen, offerRecords_cons_of_mem hseen]
        exact ih _ seen hub
      · rw [if_neg hseen]
        cases hlistener : (hub.offer clock.now record (.ofPid pid)).value.listener with
        | none =>
            have hnone : hub.acceptance? (.offer clock.now record (.ofPid pid)) = none := by
              simp only [Hub.acceptance?, hlistener, Option.map_none]
            simp only [hnone, Option.isSome_none, Bool.false_eq_true, if_false]
            rw [offerRecords_cons_of_none hseen hlistener]
            exact .cons_of_none hnone (ih _ seen _)
        | some listener =>
            have hsome : hub.acceptance? (.offer clock.now record (.ofPid pid)) =
                some ⟨⟨listener, (hub.offer clock.now record (.ofPid pid)).value.usage, record⟩,
                  clock.now⟩ := by
              simp only [Hub.acceptance?, hlistener, Option.map_some]
            simp only [hsome, Option.isSome_some, if_true]
            rw [offerRecords_cons_of_some hseen hlistener]
            exact .cons_of_some hsome (ih _ _ _)

/-- The records of some processes. -/
theorem tells_offers (clock : Clock) (processes : List Process) (hub : Hub δ) :
    Tells hub (offers clock processes hub) (offerProcesses clock processes hub).value := by
  induction processes generalizing clock hub with
  | nil => exact .nil
  | cons process later ih =>
      have hfirst := tells_offersOf clock process.pid process.name [] process.records hub
      unfold offers offerProcesses
      simp only [Logged.value_bind, Logged.value_pure]
      rw [hfirst.left]
      exact hfirst.append (ih _ _)

/-- The whole sweep: its findings in the order in which they were made are what was accepted. -/
theorem exists_findings_run (fs : Snapshot) (root : Path) (clock : Clock) (hub : Hub δ) :
    ∃ findings : List Finding,
      findings.map Finding.acceptance =
        (hub.acceptances (calls fs root clock hub)).map (·.toAcceptance) ∧
      (run fs root clock hub).value =
        (byProcess findings, hub.afterCalls (calls fs root clock hub)) := by
  have htells := tells_offers clock (processes fs root).value hub
  refine ⟨(offerProcesses clock (processes fs root).value hub).value.1, ?_, ?_⟩
  · unfold calls
    rw [Hub.acceptances_append, htells.found, List.map_append]
    exact (List.append_nil _).symm
  · unfold run calls
    simp only [Logged.value_bind, Logged.value_pure]
    rw [Hub.afterCalls_append, htells.left]
    rfl

/-- The hub after a sweep is the one that its calls leave. -/
theorem hub_run (fs : Snapshot) (root : Path) (clock : Clock) (hub : Hub δ) :
    (run fs root clock hub).value.2 = hub.afterCalls (calls fs root clock hub) := by
  obtain ⟨findings, -, hrun⟩ := exists_findings_run fs root clock hub
  rw [hrun]

/-! ## The order of the answer -/

/-- Of one process, sorting by process keeps what was accepted in order. -/
theorem map_filter_byProcess {p : Acceptance → Bool} (pid : Int32)
    (hpid : ∀ a, p a = true → a.usage.pid = pid) (findings : List Finding) :
    ((byProcess findings).filter (p ·.acceptance)).map Finding.acceptance =
      (findings.map Finding.acceptance).filter p := by
  rw [filter_byProcess_of_pid pid (fun f hf => hpid f.acceptance hf), List.filter_map]
  rfl

/-- The answer of a sweep is what was accepted, by process, and in order within one. -/
theorem answer_run (fs : Snapshot) (root : Path) (clock : Clock) (hub : Hub δ) :
    let accepted := hub.acceptances (calls fs root clock hub)
    let found := (run fs root clock hub).value.1
    found.Pairwise (·.usage.pid ≤ ·.usage.pid) ∧
      (∀ pid, (found.filter (·.usage.pid = pid)).map Finding.acceptance =
        (accepted.filter (·.usage.pid = pid)).map (·.toAcceptance)) ∧
      (found.map Finding.acceptance).Perm (accepted.map (·.toAcceptance)) := by
  intro accepted found
  obtain ⟨findings, hfindings, hrun⟩ := exists_findings_run fs root clock hub
  have haccepted : accepted.map (·.toAcceptance) = findings.map Finding.acceptance :=
    hfindings.symm
  have hfound : found = byProcess findings := congrArg Prod.fst hrun
  rw [haccepted, hfound]
  refine ⟨pairwise_byProcess findings, ?_, (List.mergeSort_perm findings _).map _⟩
  intro pid
  have hpid : ∀ a : Acceptance, decide (a.usage.pid = pid) = true → a.usage.pid = pid :=
    fun _ => of_decide_eq_true
  have hwithin := map_filter_byProcess pid hpid findings
  rw [← haccepted, List.filter_map] at hwithin
  exact hwithin

end

/-! ## What a run of sweeps leaves -/

variable {hub : Hub IntelGpu}

/-- A sweep leaves of each origin the first record accepted of it. -/
theorem accepted_of_run (hI : hub.OfIntel) (hidle : hub.Idle) (fs : Snapshot) (root : Path)
    (clock : Clock) :
    (∀ a ∈ hub.acceptances (calls fs root clock hub),
      a.origin?.isSome ∧ ∃ k, a.takenAt = clock.look k) ∧
    ∀ o, (run fs root clock hub).value.2.previous? o =
      ((hub.acceptances (calls fs root clock hub)).find? (·.origin? = some o)).map
        fun a => ⟨o.2, Record.times a.record, a.takenAt⟩ := by
  have hoffers : ∀ call ∈ offers clock (processes fs root).value hub,
      ∃ k record usage, call = .offer (clock.look k) record usage :=
    fun _ => eq_offer_of_mem_offers
  obtain ⟨hoffered, haccepted, hcurrent⟩ := hI.afterCalls_offers hoffers
  have hcalls : hub.acceptances (calls fs root clock hub) =
      hub.acceptances (offers clock (processes fs root).value hub) := by
    unfold calls
    rw [Hub.acceptances_append]
    exact List.append_nil _
  rw [hcalls]
  refine ⟨haccepted, ?_⟩
  intro o
  have hclosed : (run fs root clock hub).value.2 =
      (hub.afterCalls (offers clock (processes fs root).value hub)).closeCycle := by
    rw [hub_run]
    exact Hub.afterCalls_append
  rw [hclosed, hoffered.previous?_closeCycle, hcurrent, hidle.current?, Option.none_or]

/-- Whatever sweeps came before, a sweep finds no cycle running, and so does the next one. It leaves
under every listener exactly the clients whose records this listener accepted in it, each with the
first of these and with what the clock showed for it. Its answer has one finding for each accepted
record, by process, and in the order of the records within one. -/
theorem remembers_accepted (hI : hub.OfIntel) (hidle : hub.Idle) (rounds : List Round) :
    let before := hubAfterRounds rounds hub
    before.OfIntel ∧ before.Idle ∧ before.listeners = hub.listeners ∧
    ∀ fs root clock,
      let accepted := before.acceptances (calls fs root clock before)
      let answer := (run fs root clock before).value
      answer.2 = before.afterCalls (calls fs root clock before) ∧
      -- the caches
      (∀ id : ListenerId, id.index < hub.size → ∃ gpu, answer.2.gpu? id = some gpu ∧
        gpu.cache.current = ∅ ∧
        ∀ c, (c ∈ gpu.cache.previous ↔ ∃ a ∈ accepted, a.origin? = some (id, c)) ∧
          gpu.cache.previous[c]? =
            (accepted.find? (·.origin? = some (id, c))).map
              fun a => ⟨c, Record.times a.record, a.takenAt⟩) ∧
      (∀ a ∈ accepted, a.origin?.isSome ∧ ∃ k, a.takenAt = clock.look k) ∧
      -- the answer
      answer.1.Pairwise (·.usage.pid ≤ ·.usage.pid) ∧
      (∀ pid, (answer.1.filter (·.usage.pid = pid)).map Finding.acceptance =
        (accepted.filter (·.usage.pid = pid)).map (·.toAcceptance)) ∧
      (answer.1.map Finding.acceptance).Perm (accepted.map (·.toAcceptance)) ∧
      -- no processes
      (∀ cause, Process.all fs root = .error cause → accepted = [] ∧ answer.1 = []) := by
  intro before
  obtain ⟨hbefore, hlisteners⟩ := kept_hubAfterRounds hI rounds
  have hbeforeIdle := idle_hubAfterRounds hI hidle rounds
  refine ⟨hbefore, hbeforeIdle, hlisteners, ?_⟩
  intro fs root clock accepted answer
  obtain ⟨hsorted, hwithin, hperm⟩ := answer_run fs root clock before
  obtain ⟨haccepted, hprevious⟩ := accepted_of_run hbefore hbeforeIdle fs root clock
  refine ⟨hub_run fs root clock before, ?caches, haccepted, hsorted, hwithin, hperm, ?unlisted⟩
  case caches =>
    intro id hid
    have hafter : answer.2.OfIntel := hbefore.run fs root clock
    have hsize : answer.2.size = hub.size :=
      congrArg List.length ((hbefore.listeners_run fs root clock).trans hlisteners)
    obtain ⟨gpu, hgpu⟩ :=
      Option.isSome_iff_exists.mp (hafter.isSome_gpu?_iff.mpr (hsize.symm ▸ hid))
    refine ⟨gpu, hgpu, hbefore.idle_run fs root clock id gpu hgpu, ?_⟩
    intro c
    have hkept := hprevious (id, c)
    unfold Hub.previous? at hkept
    rw [hgpu, Option.bind_some] at hkept
    refine ⟨?_, hkept⟩
    rw [Std.ExtTreeMap.mem_iff_isSome_getElem?, hkept, Option.isSome_map, List.find?_isSome]
    simp only [decide_eq_true_eq]
    rfl
  case unlisted =>
    intro cause hcause
    have hnone : before.acceptances (calls fs root clock before) = [] := by
      rw [calls_of_error hcause]
      rfl
    rw [hnone] at hperm
    exact ⟨hnone, List.map_eq_nil_iff.mp hperm.eq_nil⟩

/-- A round that shows a single process, which has rendered for some nanoseconds. The clock goes on
by one nanosecond with each look. -/
def rendering (pid ns : String) (start : Nat) : Round :=
  ⟨.ofProcess pid [("3", renderRecord ns)], ⟨"/proc"⟩, ⟨fun k => ⟨start + k⟩⟩⟩

/-- One process ends and another one starts: only the second is remembered. -/
theorem remembers_accepted_replaced :
    let hub := Hub.ofGpus [.at "0000:00:02.0"]
    hub.OfIntel ∧ hub.Idle ∧
      ∃ gpu, (hubAfterRounds ([rendering "7" "100" 1000] ++ [rendering "8" "600" 2000]) hub).gpu?
          ⟨0⟩ = some gpu ∧
        gpu.cache.current = ∅ ∧ (∀ c, c ∈ gpu.cache.previous ↔ c = ⟨5, 8⟩) ∧
        gpu.cache.previous[(⟨5, 8⟩ : Client)]? = some ⟨⟨5, 8⟩, { render := some 600 }, ⟨2000⟩⟩ := by
  intro hub
  have hI : hub.OfIntel := Hub.ofIntel_ofGpus _
  have hidle : hub.Idle := by
    apply Hub.idle_ofGpus
    intro gpu hgpu
    rw [List.mem_singleton.mp hgpu]
    rfl
  refine ⟨hI, hidle, ?_⟩
  obtain ⟨-, -, -, hlast⟩ := remembers_accepted hI hidle [rendering "7" "100" 1000]
  have hround := hlast (.ofProcess "8" [("3", renderRecord "600")]) ⟨"/proc"⟩
    ⟨fun k => ⟨2000 + k⟩⟩
  have haccepted : (hubAfterRounds [rendering "7" "100" 1000] hub).acceptances
      (calls (.ofProcess "8" [("3", renderRecord "600")]) ⟨"/proc"⟩ ⟨fun k => ⟨2000 + k⟩⟩
        (hubAfterRounds [rendering "7" "100" 1000] hub)) =
      [⟨⟨⟨0⟩, { pid := 8, renderTime := some 600 }, renderRecord "600"⟩, ⟨2000⟩⟩] := by
    decide +kernel
  have horigin : Hub.Acceptance.origin?
      ⟨⟨0⟩, { pid := 8, renderTime := some 600 }, renderRecord "600"⟩ = some (⟨0⟩, ⟨5, 8⟩) := by
    decide +kernel
  rw [haccepted] at hround
  obtain ⟨-, hcaches, -⟩ := hround
  obtain ⟨gpu, hgpu, hcurrent, hprevious⟩ := hcaches ⟨0⟩ Nat.one_pos
  rw [hubAfterRounds_concat]
  refine ⟨gpu, hgpu, hcurrent, ?_, ?_⟩
  · intro c
    rw [(hprevious c).1]
    simp only [List.mem_singleton, exists_eq_left, horigin, Option.some.injEq, Prod.mk.injEq,
      true_and]
    exact eq_comm
  · rw [(hprevious _).2]
    decide +kernel

end Sweep

end DrmUsage

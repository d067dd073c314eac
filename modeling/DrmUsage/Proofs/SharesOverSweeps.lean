-- SUMMARY: Over any run of sweeps, the shares of a finding follow from its record and the first of its origin one sweep before.
import DrmUsage.Proofs.CacheShares
import DrmUsage.Proofs.SweepFindings

/-!
# Shares over sweeps

Between two sweeps a hub remembers the first record of each origin in the sweep
before, and nothing else of the past. A sweep reports the shares against that
record with its own first record of the origin; a later record of the same
origin has none. So the shares in a run of any length can be told from the
answers of two sweeps in a row.
-/

namespace DrmUsage

/-! ## Shares in a finding -/

namespace Finding

@[simp] theorem share?_plainUsage (f : Finding) (e : Engine) : f.plainUsage.share? e = none := by
  cases e <;> rfl

theorem share?_withShares (f : Finding) (share : Engine → Option UInt32) {e : Engine}
    (he : e ≠ .copy) : (f.plainUsage.withShares share).share? e = share e := by
  rw [Usage.share?_withShares _ _ he, share?_plainUsage, Option.or_none]

end Finding

namespace Sweep

/-! ## The order of the answer -/

private theorem pid_le_trans (f g h : Finding) (hfg : decide (f.usage.pid ≤ g.usage.pid) = true)
    (hgh : decide (g.usage.pid ≤ h.usage.pid) = true) :
    decide (f.usage.pid ≤ h.usage.pid) = true :=
  decide_eq_true (Int32.le_trans (of_decide_eq_true hfg) (of_decide_eq_true hgh))

private theorem pid_le_total (f g : Finding) :
    (decide (f.usage.pid ≤ g.usage.pid) || decide (g.usage.pid ≤ f.usage.pid)) = true := by
  rw [Bool.or_eq_true, decide_eq_true_eq, decide_eq_true_eq]
  exact Int32.le_total ..

theorem pairwise_byProcess (findings : List Finding) :
    (byProcess findings).Pairwise (·.usage.pid ≤ ·.usage.pid) :=
  (List.pairwise_mergeSort pid_le_trans pid_le_total findings).imp of_decide_eq_true

/-- Sorting by process keeps the order of findings of one process. -/
theorem filter_byProcess_of_pid {p : Finding → Bool} (pid : Int32)
    (hpid : ∀ f, p f = true → f.usage.pid = pid) (findings : List Finding) :
    (byProcess findings).filter p = findings.filter p := by
  have hsorted : (findings.filter p).Pairwise
      fun a b => decide (a.usage.pid ≤ b.usage.pid) = true := by
    apply List.pairwise_of_forall_mem_list
    intro a ha b hb
    rw [hpid a (List.mem_filter.mp ha).2, hpid b (List.mem_filter.mp hb).2]
    exact decide_eq_true (Int32.le_refl _)
  have hsub : (findings.filter p).Sublist (byProcess findings) := by
    unfold byProcess
    exact List.sublist_mergeSort pid_le_trans pid_le_total hsorted List.filter_sublist
  -- Both sides hold the same findings, and one is in the other in order.
  have hkept := hsub.filter p
  rw [List.filter_filter] at hkept
  simp only [Bool.and_self] at hkept
  refine (hkept.eq_of_length ?_).symm
  exact ((List.mergeSort_perm findings _).filter _).length_eq.symm

/-- The findings of an origin are of one process. -/
theorem filter_byProcess (findings : List Finding) (o : Origin) :
    (byProcess findings).filter (·.origin? = some o) = findings.filter (·.origin? = some o) := by
  refine filter_byProcess_of_pid o.2.pid ?_ findings
  intro f hf
  obtain ⟨id, -, rfl⟩ := Option.map_eq_some_iff.mp (of_decide_eq_true hf)
  rfl

/-- Lists that agree on some elements have the same of these before each of them. -/
private theorem exists_split_of_filter_eq {α : Type} {p : α → Bool} {l before later : List α}
    {a : α} (h : (before ++ a :: later).filter p = l.filter p) (ha : p a = true) :
    ∃ before' later', l = before' ++ a :: later' ∧ before'.filter p = before.filter p := by
  rw [List.filter_append, List.filter_cons_of_pos ha] at h
  obtain ⟨l₁, l₂, rfl, h₁, h₂⟩ := List.filter_eq_append_iff.mp h.symm
  obtain ⟨m, l₃, rfl, hm, -, -⟩ := List.filter_eq_cons_iff.mp h₂
  refine ⟨l₁ ++ m, l₃, (List.append_assoc ..).symm, ?_⟩
  have hnone : m.filter p = [] := List.filter_eq_nil_iff.mpr hm
  rw [List.filter_append, h₁, hnone, List.append_nil]

end Sweep

namespace Hub

open Sweep (Origin Intake)

variable {hub : Hub IntelGpu}

/-! ## One sweep -/

private theorem find?_findings {now : Instant} {as : List Intake} (hnow : ∀ a ∈ as, a.takenAt = now)
    (o : Origin) :
    ((hub.findings as).find? (·.origin? = some o)).map
        (fun f => (⟨o.2, Record.times f.record, now⟩ : Sample)) =
      (firstFrom o as).map Intake.sample := by
  induction as generalizing hub with
  | nil => rfl
  | cons a as ih =>
      obtain ⟨rfl, hlater⟩ := List.forall_mem_cons.mp hnow
      unfold firstFrom at ih ⊢
      rw [findings_cons, List.find?_cons, List.find?_cons, origin?_finding]
      by_cases ho : a.origin = o
      · subst ho
        simp only [decide_true, Option.map_some]
        rfl
      · simp only [Option.some.injEq, ho, decide_false]
        exact ih hlater

/-- What a sweep leaves of an origin is the first of its findings with this origin. -/
theorem OfIntel.previous?_run (hI : hub.OfIntel) (hidle : hub.Idle) (fs : Snapshot) (root : Path)
    (now : Instant) (o : Origin) :
    (Sweep.run fs root now hub).value.2.previous? o =
      ((Sweep.run fs root now hub).value.1.find? (·.origin? = some o)).map
        fun f => ⟨o.2, Record.times f.record, now⟩ := by
  rw [hI.value_run]
  simp only
  rw [(hI.takeInAll ..).previous?_closeCycle,
    hI.current?_takeInAll (serves_intakesUnder hub now fs root), hidle.current?, Option.none_or,
    ← List.head?_filter, Sweep.filter_byProcess, List.head?_filter,
    find?_findings fun _ => Sweep.takenAt_of_mem_intakesUnder]

/-- A finding reports the shares against what was left of its origin, unless it comes behind
another finding with this origin. -/
theorem OfIntel.usage_of_run (hI : hub.OfIntel) (hidle : hub.Idle) {fs : Snapshot} {root : Path}
    {now : Instant} {before later : List Finding} {f : Finding}
    (h : (Sweep.run fs root now hub).value.1 = before ++ f :: later) :
    ∃ o, f.origin? = some o ∧
      f.usage =
        if ∃ g ∈ before, g.origin? = some o then f.plainUsage
        else
          match hub.previous? o with
          | none => f.plainUsage
          | some earlier =>
            f.plainUsage.withShares (earlier.share (Record.times f.record) now) := by
  rw [hI.value_run] at h
  simp only at h
  have hserves := serves_intakesUnder hub now fs root
  have hnow : ∀ a ∈ Sweep.intakesUnder hub.addresses now fs root, a.takenAt = now :=
    fun _ => Sweep.takenAt_of_mem_intakesUnder
  generalize Sweep.intakesUnder hub.addresses now fs root = as at h hserves hnow
  have hmem : f ∈ hub.findings as := by
    rw [← (List.mergeSort_perm (hub.findings as) _).mem_iff]
    change f ∈ Sweep.byProcess (hub.findings as)
    rw [h]
    exact List.mem_append_right _ List.mem_cons_self
  obtain ⟨o, ho⟩ := exists_origin?_of_mem_findings hmem
  refine ⟨o, ho, ?_⟩
  -- The place of the finding before the sort.
  have hfilter := Sweep.filter_byProcess (hub.findings as) o
  rw [h] at hfilter
  obtain ⟨before', later', hfindings, hbefore⟩ :=
    Sweep.exists_split_of_filter_eq hfilter (decide_eq_true ho)
  obtain ⟨as₁, as₂, a, rfl, rfl, rfl⟩ := exists_of_findings_eq hfindings
  obtain rfl : a.origin = o := Option.some.inj (origin?_finding.symm.trans ho)
  obtain rfl : a.takenAt = now := hnow a (List.mem_append_right _ List.mem_cons_self)
  have hserves₁ : hub.Serves as₁ := fun b hb => hserves b (List.mem_append_left _ hb)
  have hrepeat : (∃ g ∈ before, g.origin? = some a.origin) ↔ (firstFrom a.origin as₁).isSome := by
    have hmem : ∀ fs : List Finding, (∃ g ∈ fs, g.origin? = some a.origin) ↔
        fs.filter (·.origin? = some a.origin) ≠ [] := by
      intro fs
      simp only [ne_eq, List.filter_eq_nil_iff, decide_eq_true_eq, not_forall, not_not, exists_prop]
    rw [hmem, ← hbefore, ← hmem, exists_origin?_eq_iff]
    unfold firstFrom
    simp only [List.find?_isSome, decide_eq_true_eq]
  rw [plainUsage_finding]
  change (hub.takeInAll as₁).usageOf a = _
  unfold usageOf
  rw [hI.current?_takeInAll hserves₁, hI.previous?_takeInAll hserves₁, hidle.current?,
    Option.none_or, Option.isSome_map]
  by_cases hfirst : (firstFrom a.origin as₁).isSome = true
  · rw [if_pos hfirst, if_pos (hrepeat.mpr hfirst)]
  · rw [if_neg hfirst, if_neg (fun hg => hfirst (hrepeat.mp hg)), if_neg (fun hc => hfirst hc.1)]
    rfl

end Hub

/-! ## Runs of sweeps -/

namespace Sweep

/-- One sweep of a run: what the files say at its time, where the processes are listed, and what
the clock shows. -/
structure Round where
  snapshot : Snapshot
  root : Path
  clock : Clock

/-- The hub after some rounds in turn. -/
def hubAfterRounds (rounds : List Round) (hub : Hub IntelGpu) : Hub IntelGpu :=
  rounds.foldl (fun hub round => (run round.snapshot round.root round.clock hub).value.2) hub

/-- One call of a sweep: what the files say at its time, where the processes are listed, and the
instant. -/
structure Poll where
  snapshot : Snapshot
  root : Path
  now : Instant

/-- A poll is a round in which the clock stands still. -/
def Poll.round (poll : Poll) : Round := ⟨poll.snapshot, poll.root, poll.now⟩

/-- The answers of some polls in turn on one hub. -/
def answers : List Poll → Hub IntelGpu → List (List Finding)
  | [], _ => []
  | poll :: later, hub =>
    let (findings, hub) := (run poll.snapshot poll.root poll.now hub).value
    findings :: answers later hub

/-- The hub after some polls in turn. -/
def hubAfter (polls : List Poll) (hub : Hub IntelGpu) : Hub IntelGpu :=
  polls.foldl (fun hub poll => (run poll.snapshot poll.root poll.now hub).value.2) hub

variable {hub : Hub IntelGpu}

theorem hubAfter_concat (polls : List Poll) (poll : Poll) (hub : Hub IntelGpu) :
    hubAfter (polls ++ [poll]) hub =
      (run poll.snapshot poll.root poll.now (hubAfter polls hub)).value.2 :=
  List.foldl_concat ..

/-- The answer of each poll is that of a sweep on the hub which the polls before left. -/
theorem getElem?_answers (polls : List Poll) (hub : Hub IntelGpu) (k : Nat) :
    (answers polls hub)[k]? =
      polls[k]?.map fun poll =>
        (run poll.snapshot poll.root poll.now (hubAfter (polls.take k) hub)).value.1 := by
  induction polls generalizing hub k with
  | nil => rfl
  | cons poll polls ih =>
      cases k with
      | zero => rfl
      | succ k => exact ih _ k

theorem length_answers (polls : List Poll) (hub : Hub IntelGpu) :
    (answers polls hub).length = polls.length := by
  induction polls generalizing hub with
  | nil => rfl
  | cons poll polls ih => exact congrArg (· + 1) (ih _)

theorem hubAfterRounds_concat (rounds : List Round) (round : Round) (hub : Hub IntelGpu) :
    hubAfterRounds (rounds ++ [round]) hub =
      (run round.snapshot round.root round.clock (hubAfterRounds rounds hub)).value.2 :=
  List.foldl_concat ..

/-- Sweeps keep the listeners and their GPUs apart. -/
theorem kept_hubAfterRounds (hI : hub.OfIntel) (rounds : List Round) :
    (hubAfterRounds rounds hub).OfIntel ∧
      (hubAfterRounds rounds hub).listeners = hub.listeners := by
  induction rounds using List.reverseRecOn with
  | nil => exact ⟨hI, rfl⟩
  | append_singleton rounds round ih =>
      rw [hubAfterRounds_concat]
      exact ⟨ih.1.run .., (ih.1.listeners_run ..).trans ih.2⟩

/-- Between two sweeps no cycle is running. -/
theorem idle_hubAfterRounds (hI : hub.OfIntel) (hidle : hub.Idle) (rounds : List Round) :
    (hubAfterRounds rounds hub).Idle := by
  cases rounds using List.reverseRecOn with
  | nil => exact hidle
  | append_singleton rounds round =>
      rw [hubAfterRounds_concat]
      exact (kept_hubAfterRounds hI rounds).1.idle_run _ _ _

theorem hubAfter_eq (polls : List Poll) (hub : Hub IntelGpu) :
    hubAfter polls hub = hubAfterRounds (polls.map Poll.round) hub := by
  unfold hubAfterRounds
  rw [List.foldl_map]
  rfl

theorem ofIntel_hubAfter (hI : hub.OfIntel) (polls : List Poll) : (hubAfter polls hub).OfIntel := by
  rw [hubAfter_eq]
  exact (kept_hubAfterRounds hI _).1

theorem idle_hubAfter (hI : hub.OfIntel) (hidle : hub.Idle) (polls : List Poll) :
    (hubAfter polls hub).Idle := by
  rw [hubAfter_eq]
  exact idle_hubAfterRounds hI hidle _

private theorem previous?_of_empty
    (hempty : ∀ id gpu, hub.gpu? id = some gpu → gpu.cache = .empty) (o : Origin) :
    hub.previous? o = none := by
  unfold Hub.previous?
  cases hgpu : hub.gpu? o.1 with
  | none => rfl
  | some gpu =>
      rw [Option.bind_some, hempty o.1 gpu hgpu]
      exact Std.ExtTreeMap.getElem?_empty

/-- After a poll the hub remembers the first finding of each origin in the answer to it. -/
theorem previous?_hubAfter_take (hI : hub.OfIntel) (hidle : hub.Idle) {polls : List Poll} {j : Nat}
    {poll : Poll} {found : List Finding} (hpoll : polls[j]? = some poll)
    (hfound : (answers polls hub)[j]? = some found) (o : Origin) :
    (hubAfter (polls.take (j + 1)) hub).previous? o =
      (found.find? (·.origin? = some o)).map
        fun f => ⟨o.2, Record.times f.record, poll.now⟩ := by
  rw [getElem?_answers, hpoll, Option.map_some] at hfound
  obtain rfl := Option.some.inj hfound
  rw [List.take_add_one, hpoll, Option.toList_some, hubAfter_concat]
  exact (ofIntel_hubAfter hI _).previous?_run (idle_hubAfter hI hidle _) ..

/-- Over any run of sweeps from empty caches, the first finding of an origin in an answer reports a
share of an engine class exactly if the answer before has a finding of this origin, the records of
both, taking the first one there, tell a time of the class, and a percentage follows from the two
times and the nanoseconds between the instants of the two sweeps. A finding that comes behind
another one of its origin reports no shares. -/
theorem shares_of_answers (hI : hub.OfIntel)
    (hempty : ∀ id gpu, hub.gpu? id = some gpu → gpu.cache = .empty) (polls : List Poll) :
    (answers polls hub).length = polls.length ∧
    ∀ k poll found before f later,
      polls[k]? = some poll → (answers polls hub)[k]? = some found →
      found = before ++ f :: later →
      f.origin?.isSome ∧
      ((∀ g ∈ before, g.origin? ≠ f.origin?) → ∀ e ≠ Engine.copy, ∀ share,
        f.usage.share? e = some share ↔
          ∃ j earlier last g r' r, k = j + 1 ∧
            polls[j]? = some earlier ∧ (answers polls hub)[j]? = some last ∧
            last.find? (·.origin? = f.origin?) = some g ∧
            Record.lastTime? g.record e = some r' ∧ Record.lastTime? f.record e = some r ∧
            busyPercent r r'
              (.ofNat (min (poll.now.ns - earlier.now.ns) (UInt64.size - 1))) = some share) ∧
      ((∃ g ∈ before, g.origin? = f.origin?) → ∀ e, f.usage.share? e = none) := by
  have hidle : hub.Idle := by
    intro id gpu hgpu
    rw [hempty id gpu hgpu]
    rfl
  refine ⟨length_answers polls hub, ?_⟩
  intro k poll found before f later hpoll hfound hsplit
  have hanswer := hfound
  rw [getElem?_answers, hpoll, Option.map_some, Option.some.injEq, hsplit] at hanswer
  obtain ⟨o, ho, husage⟩ :=
    (ofIntel_hubAfter hI (polls.take k)).usage_of_run (idle_hubAfter hI hidle _) hanswer
  rw [ho]
  refine ⟨rfl, ?first, ?behind⟩
  case behind =>
    intro hbehind e
    rw [husage, if_pos hbehind, Finding.share?_plainUsage]
  case first =>
    intro hfirst e he share
    have hshare : f.usage.share? e = some share ↔
        ∃ earlier, (hubAfter (polls.take k) hub).previous? o = some earlier ∧
          earlier.share (Record.times f.record) poll.now e = some share := by
      rw [husage, if_neg (fun ⟨g, hg, h⟩ => hfirst g hg h)]
      cases (hubAfter (polls.take k) hub).previous? o with
      | none => simp
      | some earlier => simp [Finding.share?_withShares f _ he]
    rw [hshare]
    cases k with
    | zero =>
        have hnothing : hub.previous? o = none := previous?_of_empty hempty o
        constructor
        · rintro ⟨earlier, hearlier, -⟩
          exact absurd (hnothing.symm.trans hearlier) (Option.some_ne_none earlier).symm
        · rintro ⟨j, _, _, _, _, _, hj, -⟩
          exact absurd hj.symm (Nat.succ_ne_zero j)
    | succ j =>
        have hlt : j < polls.length :=
          Nat.lt_of_succ_lt (List.getElem?_eq_some_iff.mp hpoll).1
        have hprev := List.getElem?_eq_getElem hlt
        have hlast := List.getElem?_eq_getElem ((length_answers polls hub).symm ▸ hlt)
        rw [previous?_hubAfter_take hI hidle hprev hlast]
        constructor
        · rintro ⟨sample, hsample, hbusy⟩
          obtain ⟨g, hg, rfl⟩ := Option.map_eq_some_iff.mp hsample
          obtain ⟨r', r, hr', hr, hbusy⟩ := Sample.share_eq_some_iff.mp hbusy
          rw [Record.get_times] at hr' hr
          exact ⟨j, _, _, g, r', r, rfl, hprev, hlast, hg, hr', hr, hbusy⟩
        · rintro ⟨j', earlier, last, g, r', r, hj, hearlier, hlast', hg, hr', hr, hbusy⟩
          obtain rfl := Nat.succ.inj hj
          obtain rfl := Option.some.inj (hprev.symm.trans hearlier)
          obtain rfl := Option.some.inj (hlast.symm.trans hlast')
          refine ⟨_, Option.map_eq_some_iff.mpr ⟨g, hg, rfl⟩, ?_⟩
          rw [Sample.share_eq_some_iff, Record.get_times, Record.get_times]
          exact ⟨r', r, hr', hr, hbusy⟩

/-- A record of a client with a busy time of the rendering engines. -/
def renderRecord (ns : String) : String :=
  "drm-pdev:\t0000:00:02.0\ndrm-client-id:\t5\ndrm-engine-render:\t" ++ ns ++ " ns\n"

/-- Two polls of a client that renders for half of the time between them. -/
def halfBusy : List Poll :=
  [⟨.ofProcess "7" [("3", renderRecord "100")], ⟨"/proc"⟩, ⟨1000⟩⟩,
    ⟨.ofProcess "7" [("3", renderRecord "600")], ⟨"/proc"⟩, ⟨2000⟩⟩]

theorem shares_of_answers_halfBusy :
    ∃ f, (answers halfBusy (.ofGpus [.at "0000:00:02.0"]))[1]? = some [f] ∧
      f.usage.share? .render = some 50 ∧ f.usage.share? .video = none := by
  have hempty : ∀ id gpu, (Hub.ofGpus [.at "0000:00:02.0"]).gpu? id = some gpu →
      gpu.cache = .empty := by
    intro id gpu hgpu
    rw [List.mem_singleton.mp (Hub.mem_of_gpu?_ofGpus hgpu)]
    rfl
  obtain ⟨-, hshares⟩ := shares_of_answers (Hub.ofIntel_ofGpus _) hempty halfBusy
  have hlast : (answers halfBusy (.ofGpus [.at "0000:00:02.0"]))[0]? =
      some [⟨⟨0⟩, "pid:7", { pid := 7, renderTime := some 100 }, renderRecord "100"⟩] := by
    decide +kernel
  have hfound : (answers halfBusy (.ofGpus [.at "0000:00:02.0"]))[1]? =
      some [⟨⟨0⟩, "pid:7", { pid := 7, renderTime := some 600, renderShare := some 50 },
        renderRecord "600"⟩] := by
    decide +kernel
  obtain ⟨-, hfirst, -⟩ := hshares 1 _ _ [] _ [] rfl hfound rfl
  have hfirst := hfirst (fun _ hg => absurd hg List.not_mem_nil)
  refine ⟨_, hfound, ?_, ?_⟩
  · refine (hfirst .render (by decide) 50).mpr ?_
    exact ⟨0, _, _, ⟨⟨0⟩, "pid:7", { pid := 7, renderTime := some 100 }, renderRecord "100"⟩,
      100, 600, rfl, rfl, hlast, by decide +kernel, by decide +kernel, by decide +kernel,
      by decide +kernel⟩
  · refine Option.eq_none_iff_forall_ne_some.mpr ?_
    intro share hshare
    obtain ⟨-, -, -, -, -, r, -, -, -, -, -, hr, -⟩ :=
      (hfirst .video (by decide) share).mp hshare
    have htime : Record.lastTime? (renderRecord "600") .video = none := by decide +kernel
    exact absurd (htime.symm.trans hr) (Option.some_ne_none r).symm

end Sweep

end DrmUsage

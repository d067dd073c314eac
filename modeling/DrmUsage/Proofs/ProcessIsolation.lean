-- SUMMARY: Over any run of sweeps, what is found out and remembered of one process does not depend on the other processes.
import Mathlib.Data.List.Forall2
import DrmUsage.Proofs.SharesOverSweeps

/-!
# Isolation of processes

All processes share the caches of the GPUs, the order of the answer, and the end
of a cycle. Still no process disturbs another: a cache knows a client by its
process too, so the samples of one process are those of its own admissions, and
these are told by its own files. Two runs of sweeps that show one process alike
therefore find out and remember the same of it (`Sweep.answers_alike`).
-/

namespace DrmUsage

/-! ## What is seen of a process -/

/-- Below two roots the files of a process say the same: its descriptors in their order, where they
lead, the records of those that lead to a GPU, and its name. What cannot be read under one root
cannot be read under the other. -/
structure Snapshot.Alike (pid : Int32) (fs : Snapshot) (root : Path) (fs' : Snapshot)
    (root' : Path) : Prop where
  fds : (fs.list ((Process.directory root pid).join "fd")).toOption =
    (fs'.list ((Process.directory root' pid).join "fd")).toOption
  links : ∀ fds fd, fs.list ((Process.directory root pid).join "fd") = .ok fds → fd ∈ fds →
    (fs.readLink (((Process.directory root pid).join "fd").join fd)).toOption =
      (fs'.readLink (((Process.directory root' pid).join "fd").join fd)).toOption
  records : ∀ fds fd target, fs.list ((Process.directory root pid).join "fd") = .ok fds →
    fd ∈ fds → fs.readLink (((Process.directory root pid).join "fd").join fd) = .ok target →
    Process.isGpuFile target.decode = true →
    (fs.readText (((Process.directory root pid).join "fdinfo").join fd)).toOption =
      (fs'.readText (((Process.directory root' pid).join "fdinfo").join fd)).toOption
  name : (fs.readText ((Process.directory root pid).join "comm")).toOption =
    (fs'.readText ((Process.directory root' pid).join "comm")).toOption

namespace Sweep

/-- Two polls at one instant show a process alike: both list it equally often, and if they do at
all, then its files say the same. -/
structure Poll.Alike (pid : Int32) (poll poll' : Poll) : Prop where
  now : poll.now = poll'.now
  listed : ∃ names names', poll.snapshot.list poll.root = .ok names ∧
    poll'.snapshot.list poll'.root = .ok names' ∧
    (names.filterMap Process.pid?).count pid = (names'.filterMap Process.pid?).count pid
  shown : ∀ names, poll.snapshot.list poll.root = .ok names → pid ∈ names.filterMap Process.pid? →
    Snapshot.Alike pid poll.snapshot poll.root poll'.snapshot poll'.root

end Sweep

namespace Process

variable {fs fs' : Snapshot} {root root' : Path} {pid : Int32}

theorem record?_eq (fs : Snapshot) (directory : Path) (fd : RawText) :
    record? fs directory fd =
      ((fs.readLink ((directory.join "fd").join fd)).toOption.filter (isGpuFile ·.decode)).bind
        fun _ => (fs.readText ((directory.join "fdinfo").join fd)).toOption := by
  unfold record?
  cases fs.readLink ((directory.join "fd").join fd) with
  | error cause => rfl
  | ok target => cases h : isGpuFile target.decode <;> simp [Except.toOption, Option.filter, h]

theorem nameOf_eq (fs : Snapshot) (directory : Path) (pid : Int32) :
    nameOf fs directory pid =
      ((fs.readText (directory.join "comm")).toOption.map Text.trim).getD
        s!"pid:{pid.toInt}" := by
  unfold nameOf
  cases fs.readText (directory.join "comm") <;> rfl

/-- A process is what its files say. -/
theorem ofPid_eq_of_alike (h : Snapshot.Alike pid fs root fs' root') :
    ofPid fs root pid = ofPid fs' root' pid := by
  have hname : nameOf fs (directory root pid) pid = nameOf fs' (directory root' pid) pid := by
    rw [nameOf_eq, nameOf_eq, h.name]
  have hrecords : ((fs.list ((directory root pid).join "fd")).toOption.getD []).filterMap
        (record? fs (directory root pid)) =
      ((fs'.list ((directory root' pid).join "fd")).toOption.getD []).filterMap
        (record? fs' (directory root' pid)) := by
    rw [← h.fds]
    cases hfds : fs.list ((directory root pid).join "fd") with
    | error cause => rfl
    | ok fds =>
        refine List.filterMap_congr fun fd hfd => ?_
        rw [record?_eq, record?_eq, ← h.links fds fd hfds hfd]
        cases hlink : fs.readLink (((directory root pid).join "fd").join fd) with
        | error cause => rfl
        | ok target =>
            cases hgpu : isGpuFile target.decode with
            | false => simp [Except.toOption, Option.filter, hgpu]
            | true =>
                simp only [Except.toOption, Option.filter, hgpu, if_true, Option.bind_some]
                exact h.records fds fd target hfds hfd hlink hgpu
  exact congrArg₂ (fun name records => (⟨pid, name, records⟩ : Process)) hname hrecords

end Process

namespace Sweep

variable {addresses : List (Option String)} {fs : Snapshot} {root : Path} {pid : Int32}

private theorem flatMap_ite_eq {α : Type} (pids : List Int32) (pid : Int32) (as : List α) :
    (pids.flatMap fun q => if q = pid then as else []) =
      (List.replicate (pids.count pid) as).flatten := by
  induction pids with
  | nil => rfl
  | cons q pids ih =>
      rw [List.flatMap_cons, ih, List.count_cons]
      by_cases h : q = pid
      · simp [h, List.replicate_succ]
      · simp [h]

/-- The admissions of a process, as often as the process is listed. -/
theorem filter_admissionsUnder {names : List RawText} (hnames : fs.list root = .ok names) :
    (admissionsUnder addresses fs root).filter (·.pid = pid) =
      (List.replicate ((names.filterMap Process.pid?).count pid)
        (admissions addresses (Process.ofPid fs root pid))).flatten := by
  have hprocesses : (processes fs root).value =
      (names.filterMap Process.pid?).map (Process.ofPid fs root) := by
    rw [value_processes, hnames]
    rfl
  have hfilter : ∀ q, (admissions addresses (Process.ofPid fs root q)).filter (·.pid = pid) =
      if q = pid then admissions addresses (Process.ofPid fs root pid) else [] := by
    intro q
    have hpid : ∀ a ∈ admissions addresses (Process.ofPid fs root q), a.pid = q :=
      fun a ha => (mem_admissions ha).2.2.1
    split
    · rename_i hq
      subst hq
      exact List.filter_eq_self.mpr fun a ha => decide_eq_true (hpid a ha)
    · rename_i hq
      refine List.filter_eq_nil_iff.mpr fun a ha => ?_
      rw [decide_eq_true_eq, hpid a ha]
      exact hq
  unfold admissionsUnder
  rw [hprocesses, List.filter_flatMap, List.flatMap_map, ← flatMap_ite_eq]
  simp only [hfilter]

/-- Polls that show a process alike have the same admissions of it. -/
theorem Poll.Alike.filter_admissionsUnder {poll poll' : Poll} (h : Poll.Alike pid poll poll')
    (addresses : List (Option String)) :
    (admissionsUnder addresses poll.snapshot poll.root).filter (·.pid = pid) =
      (admissionsUnder addresses poll'.snapshot poll'.root).filter (·.pid = pid) := by
  obtain ⟨names, names', hnames, hnames', hcount⟩ := h.listed
  rw [Sweep.filter_admissionsUnder hnames, Sweep.filter_admissionsUnder hnames', ← hcount]
  by_cases hm : pid ∈ names.filterMap Process.pid?
  · rw [Process.ofPid_eq_of_alike (h.shown names hnames hm)]
  · rw [List.count_eq_zero.mpr hm]
    rfl

/-- The polls are at one instant, so they have the same intakes of it too. -/
theorem Poll.Alike.filter_intakesUnder {poll poll' : Poll} (h : Poll.Alike pid poll poll')
    (addresses : List (Option String)) :
    (intakesUnder addresses poll.now poll.snapshot poll.root).filter (·.pid = pid) =
      (intakesUnder addresses poll'.now poll'.snapshot poll'.root).filter (·.pid = pid) := by
  rw [intakesUnder_still, intakesUnder_still, List.filter_map, List.filter_map, h.now]
  exact congrArg (List.map _) (h.filter_admissionsUnder addresses)

end Sweep

namespace Hub

open Sweep (Origin Intake)

variable {hub hub' hub'' : Hub IntelGpu} {pid : Int32} {as : List Intake}

/-! ## Hubs alike for a process -/

/-- Two hubs have GPUs at the same addresses, and the same samples of the clients of a process. -/
structure Alike (pid : Int32) (hub hub' : Hub IntelGpu) : Prop where
  addresses : hub.addresses = hub'.addresses
  current : ∀ o : Origin, o.2.pid = pid → hub.current? o = hub'.current? o
  previous : ∀ o : Origin, o.2.pid = pid → hub.previous? o = hub'.previous? o

theorem Alike.refl (pid : Int32) (hub : Hub IntelGpu) : Alike pid hub hub :=
  ⟨rfl, fun _ _ => rfl, fun _ _ => rfl⟩

theorem Alike.symm (h : Alike pid hub hub') : Alike pid hub' hub :=
  ⟨h.addresses.symm, fun o ho => (h.current o ho).symm, fun o ho => (h.previous o ho).symm⟩

theorem Alike.trans (h : Alike pid hub hub') (h' : Alike pid hub' hub'') : Alike pid hub hub'' :=
  ⟨h.addresses.trans h'.addresses, fun o ho => (h.current o ho).trans (h'.current o ho),
    fun o ho => (h.previous o ho).trans (h'.previous o ho)⟩

/-- What is found out from an intake of the process is the same. -/
theorem Alike.finding (h : Alike pid hub hub') {a : Intake} (ha : a.pid = pid) :
    hub.finding a = hub'.finding a := by
  unfold Hub.finding usageOf
  rw [h.current a.origin ha, h.previous a.origin ha]

/-- Hubs with GPUs at the same addresses have GPUs for the same listeners. -/
theorem Alike.isSome_gpu? (h : Alike pid hub hub') (hI : hub.OfIntel) (hI' : hub'.OfIntel)
    {id : ListenerId} (hid : (hub.gpu? id).isSome) : (hub'.gpu? id).isSome := by
  rw [hI'.isSome_gpu?_iff, ← length_addresses, ← h.addresses, length_addresses]
  exact hI.isSome_gpu?_iff.mp hid

/-- An intake on both sides keeps hubs alike. -/
theorem Alike.takeIn (h : Alike pid hub hub') (hI : hub.OfIntel) (hI' : hub'.OfIntel)
    {a : Intake} (ha : (hub.gpu? a.listener).isSome) :
    Alike pid (hub.takeIn a) (hub'.takeIn a) where
  addresses := by rw [addresses_takeIn, addresses_takeIn, h.addresses]
  current := by
    intro o ho
    rw [hI.current?_takeIn ha, hI'.current?_takeIn (h.isSome_gpu? hI hI' ha), h.current o ho]
  previous := by
    intro o ho
    rw [hI.previous?_takeIn, hI'.previous?_takeIn, h.current o ho, h.previous o ho]

/-- An intake of another process does not matter. -/
theorem OfIntel.alike_takeIn (hI : hub.OfIntel) {a : Intake}
    (ha : (hub.gpu? a.listener).isSome) (hpid : a.pid ≠ pid) :
    Alike pid (hub.takeIn a) hub := by
  have hne : ∀ o : Origin, o.2.pid = pid → a.origin ≠ o := by
    rintro o ho rfl
    exact hpid ho
  refine ⟨addresses_takeIn a, fun o ho => ?_, fun o ho => ?_⟩
  · rw [hI.current?_takeIn ha, if_neg (hne o ho), Option.or_none]
  · rw [hI.previous?_takeIn, if_neg (fun h => hne o ho h.1)]

/-- Of some intakes those of the process alone make its findings and leave its samples. -/
theorem Alike.findings_filter (h : Alike pid hub hub') (hI : hub.OfIntel) (hI' : hub'.OfIntel)
    (hs : hub.Serves as) :
    (hub.findings as).filter (·.usage.pid = pid) =
        hub'.findings (as.filter (·.pid = pid)) ∧
      Alike pid (hub.takeInAll as) (hub'.takeInAll (as.filter (·.pid = pid))) := by
  induction as generalizing hub hub' with
  | nil => exact ⟨rfl, h⟩
  | cons a as ih =>
      obtain ⟨ha, has⟩ := List.forall_mem_cons.mp hs
      have hfound : (hub.finding a).usage.pid = a.pid := pid_usageOf
      by_cases hpid : a.pid = pid
      · obtain ⟨hrest, halike⟩ := ih (h.takeIn hI hI' ha) (hI.takeIn a) (hI'.takeIn a)
          (hI.serves_takeIn has a)
        simp only [findings_cons, takeInAll_cons, List.filter_cons, hfound, hpid, decide_true,
          if_true, hrest]
        exact ⟨congrArg (· :: _) (h.finding hpid), halike⟩
      · obtain ⟨hrest, halike⟩ := ih ((hI.alike_takeIn ha hpid).trans h) (hI.takeIn a) hI'
          (hI.serves_takeIn has a)
        simp only [findings_cons, takeInAll_cons, List.filter_cons, hfound, hpid, decide_false,
          Bool.false_eq_true, if_false, hrest]
        exact ⟨trivial, halike⟩

theorem Alike.closeCycle (h : Alike pid hub hub') (hI : hub.OfIntel) (hI' : hub'.OfIntel) :
    Alike pid hub.closeCycle hub'.closeCycle where
  addresses := by rw [hI.addresses_closeCycle, hI'.addresses_closeCycle, h.addresses]
  current := by
    intro o _
    rw [hI.idle_closeCycle.current?, hI'.idle_closeCycle.current?]
  previous := by
    intro o ho
    rw [hI.previous?_closeCycle, hI'.previous?_closeCycle, h.current o ho]

/-! ## One sweep -/

/-- Sweeps that are shown a process alike find out the same of it and leave the same. -/
theorem Alike.run (h : Alike pid hub hub') (hI : hub.OfIntel) (hI' : hub'.OfIntel)
    {poll poll' : Sweep.Poll} (hp : Sweep.Poll.Alike pid poll poll') :
    (Sweep.run poll.snapshot poll.root poll.now hub).value.1.filter (·.usage.pid = pid) =
        (Sweep.run poll'.snapshot poll'.root poll'.now hub').value.1.filter
          (·.usage.pid = pid) ∧
      Alike pid (Sweep.run poll.snapshot poll.root poll.now hub).value.2
        (Sweep.run poll'.snapshot poll'.root poll'.now hub').value.2 := by
  have hsort : ∀ findings, (Sweep.byProcess findings).filter (·.usage.pid = pid) =
      findings.filter (·.usage.pid = pid) :=
    Sweep.filter_byProcess_of_pid pid fun f hf => of_decide_eq_true hf
  have hs := serves_intakesUnder hub poll.now poll.snapshot poll.root
  have hs' := serves_intakesUnder hub' poll'.now poll'.snapshot poll'.root
  have hsame := hp.filter_intakesUnder hub.addresses
  rw [hI.value_run, hI'.value_run]
  rw [← h.addresses] at hs' ⊢
  simp only [hsort]
  -- Both sides come to the intakes of the process alone on the second hub.
  obtain ⟨hfound, hleft⟩ := h.findings_filter hI hI' hs
  obtain ⟨hfound', hleft'⟩ := (Alike.refl pid hub').findings_filter hI' hI' hs'
  rw [hsame] at hfound hleft
  exact ⟨hfound.trans hfound'.symm,
    (hleft.trans hleft'.symm).closeCycle (hI.takeInAll ..) (hI'.takeInAll ..)⟩

end Hub

namespace Sweep

/-! ## Runs of sweeps -/

variable {hub hub' : Hub IntelGpu} {pid : Int32} {polls polls' : List Poll}

theorem alike_hubAfter (hI : hub.OfIntel) (hI' : hub'.OfIntel) (h : Hub.Alike pid hub hub')
    (hpolls : List.Forall₂ (Poll.Alike pid) polls polls') :
    (answers polls hub).map (·.filter (·.usage.pid = pid)) =
        (answers polls' hub').map (·.filter (·.usage.pid = pid)) ∧
      Hub.Alike pid (hubAfter polls hub) (hubAfter polls' hub') := by
  induction hpolls generalizing hub hub' with
  | nil => exact ⟨rfl, h⟩
  | cons hpoll _ ih =>
      obtain ⟨hfound, halike⟩ := h.run hI hI' hpoll
      obtain ⟨hrest, hafter⟩ := ih (hI.run ..) (hI'.run ..) halike
      exact ⟨congrArg₂ List.cons hfound hrest, hafter⟩

/-- Two runs of sweeps on one hub, at the same instants, that show a process alike in every sweep
report the same findings of this process, sweep by sweep and in order, and after every sweep all
GPUs have the same samples of its clients, whatever the runs show of other processes. -/
theorem answers_alike (hI : hub.OfIntel) (hpolls : List.Forall₂ (Poll.Alike pid) polls polls') :
    (answers polls hub).map (·.filter (·.usage.pid = pid)) =
        (answers polls' hub).map (·.filter (·.usage.pid = pid)) ∧
      ∀ k id client, client.pid = pid →
        (hubAfter (polls.take k) hub).current? (id, client) =
            (hubAfter (polls'.take k) hub).current? (id, client) ∧
          (hubAfter (polls.take k) hub).previous? (id, client) =
            (hubAfter (polls'.take k) hub).previous? (id, client) := by
  have hrefl := Hub.Alike.refl pid hub
  refine ⟨(alike_hubAfter hI hI hrefl hpolls).1, ?_⟩
  intro k id client hclient
  have halike := (alike_hubAfter hI hI hrefl (List.forall₂_take k hpolls)).2
  exact ⟨halike.current (id, client) hclient, halike.previous (id, client) hclient⟩

end Sweep

/-- The files of two snapshots side by side. Where both have a file, that of the first counts. -/
def Snapshot.beside (fs gs : Snapshot) : Snapshot where
  list path :=
    match fs.list path, gs.list path with
    | .ok names, .ok others => .ok (names ++ others)
    | .ok names, .error _ => .ok names
    | .error _, answer => answer
  readText path := (fs.readText path).orElseLazy fun _ => gs.readText path
  readLink path := (fs.readLink path).orElseLazy fun _ => gs.readLink path
  isDirectory path := fs.isDirectory path || gs.isDirectory path

namespace Sweep

/-- The polls of a client that renders for half of the time, with another process beside it that
has the same number of a client. -/
def crowded : List Poll :=
  [⟨(Snapshot.ofProcess "8" [("3", renderRecord "5")]).beside
      (.ofProcess "7" [("3", renderRecord "100")]), ⟨"/proc"⟩, ⟨1000⟩⟩,
    ⟨(Snapshot.ofProcess "7" [("3", renderRecord "600")]).beside
      (.ofProcess "8" [("3", renderRecord "6"), ("4", renderRecord "7")]), ⟨"/proc"⟩, ⟨2000⟩⟩]

private theorem alike_of_records {fs fs' : Snapshot} {root : Path} {pid : Int32} {fd : RawText}
    (hfds : fs.list ((Process.directory root pid).join "fd") = .ok [fd])
    (hfds' : fs'.list ((Process.directory root pid).join "fd") = .ok [fd])
    (hlink : (fs.readLink (((Process.directory root pid).join "fd").join fd)).toOption =
      (fs'.readLink (((Process.directory root pid).join "fd").join fd)).toOption)
    (hrecord : (fs.readText (((Process.directory root pid).join "fdinfo").join fd)).toOption =
      (fs'.readText (((Process.directory root pid).join "fdinfo").join fd)).toOption)
    (hname : (fs.readText ((Process.directory root pid).join "comm")).toOption =
      (fs'.readText ((Process.directory root pid).join "comm")).toOption) :
    Snapshot.Alike pid fs root fs' root where
  fds := by rw [hfds, hfds']
  links := by
    intro fds fd' h hfd
    obtain rfl := Except.ok.inj (hfds.symm.trans h)
    obtain rfl := List.mem_singleton.mp hfd
    exact hlink
  records := by
    intro fds fd' target h hfd _ _
    obtain rfl := Except.ok.inj (hfds.symm.trans h)
    obtain rfl := List.mem_singleton.mp hfd
    exact hrecord
  name := hname

/-- What both runs find out about the client. -/
def halfBusyFindings : List (List Finding) :=
  [[⟨⟨0⟩, "pid:7", { pid := 7, renderTime := some 100 }, renderRecord "100"⟩],
    [⟨⟨0⟩, "pid:7", { pid := 7, renderTime := some 600, renderShare := some 50 },
      renderRecord "600"⟩]]

theorem answers_alike_crowded :
    List.Forall₂ (Poll.Alike 7) crowded halfBusy ∧
      (answers crowded (.ofGpus [.at "0000:00:02.0"])).map (·.filter (·.usage.pid = 7)) =
        halfBusyFindings ∧
      (answers halfBusy (.ofGpus [.at "0000:00:02.0"])).map (·.filter (·.usage.pid = 7)) =
        halfBusyFindings := by
  have hpolls : List.Forall₂ (Poll.Alike 7) crowded halfBusy := by
    refine .cons ⟨rfl, ⟨["8", "7"], ["7"], rfl, rfl, ?_⟩, ?_⟩
      (.cons ⟨rfl, ⟨["7", "8"], ["7"], rfl, rfl, ?_⟩, ?_⟩ .nil)
    · decide +kernel
    · intro _ _ _
      exact alike_of_records rfl rfl rfl rfl rfl
    · decide +kernel
    · intro _ _ _
      exact alike_of_records rfl rfl rfl rfl rfl
  have hfound : (answers halfBusy (.ofGpus [.at "0000:00:02.0"])).map
      (·.filter (·.usage.pid = 7)) = halfBusyFindings := by
    decide +kernel
  exact ⟨hpolls, (answers_alike (Hub.ofIntel_ofGpus _) hpolls).1.trans hfound, hfound⟩

end Sweep

end DrmUsage

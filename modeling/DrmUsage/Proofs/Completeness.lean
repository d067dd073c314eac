-- SUMMARY: Of records that name one device and one client each, a sweep loses no client, and the order of listings does not matter.
import DrmUsage.Proofs.ClientRepeats
import DrmUsage.Proofs.Listings

/-!
# Completeness of a sweep

The records of a kernel hold one address and one number of a client. Of such
records a sweep loses no client: it reports an origin exactly if some descriptor
shows a record of it, and once. What the files say then fixes the admissions up
to their order, unless two records of one client differ. Intakes of different
origins can be made in any order, so the order of the listings changes
neither what is found out nor what the caches hold afterwards.
-/

namespace DrmUsage

/-! ## Plain records -/

namespace Record

/-- A record holds one address, and one value for the number of the client. -/
structure Plain (record pdev number : String) : Prop where
  pdev : values pdevKey record = [pdev]
  number : values clientIdKey record = [number]

variable {record pdev number : String}

theorem Plain.lastClientId?_eq (h : Plain record pdev number) :
    lastClientId? record = Text.uint32? number := by
  unfold lastClientId?
  rw [h.number, lastReadable_singleton]

theorem Plain.clientId?_eq (h : Plain record pdev number) :
    clientId? record = Text.uint32? number :=
  (clientId?_eq_lastClientId? h.number).trans h.lastClientId?_eq

theorem Plain.pdev?_eq (h : Plain record pdev number) : pdev? record = some pdev := by
  unfold pdev?
  rw [firstValue?_eq_head?, h.pdev]
  rfl

theorem Plain.sighting?_eq (h : Plain record pdev number) :
    Sweep.sighting? record = (Text.uint32? number).map (some pdev, ·) := by
  unfold Sweep.sighting?
  rw [h.clientId?_eq, h.pdev?_eq]

theorem Plain.concerns_iff (h : Plain record pdev number) {p : String} :
    Concerns p record ↔ pdev = p ∧ (Text.uint32? number).isSome := by
  unfold Concerns Belongs
  rw [h.pdev, h.lastClientId?_eq, List.forall_mem_singleton]

end Record

/-! ## Shown records -/

/-- A process under a root shows a record: one of its descriptors leads to a GPU, and the record
of this descriptor can be read. -/
def Snapshot.Shows (fs : Snapshot) (root : Path) (pid : Int32) (record : String) : Prop :=
  ∃ names name fds fd target,
    fs.list root = .ok names ∧ name ∈ names ∧ Process.pid? name = some pid ∧
    fs.list ((Process.directory root pid).join "fd") = .ok fds ∧ fd ∈ fds ∧
    fs.readLink (((Process.directory root pid).join "fd").join fd) = .ok target ∧
    Process.isGpuFile target.decode = true ∧
    fs.readText (((Process.directory root pid).join "fdinfo").join fd) = .ok record

/-- Each process under a root is listed once. -/
def Snapshot.ListsOnce (fs : Snapshot) (root : Path) : Prop :=
  ∀ names, fs.list root = .ok names → (names.filterMap Process.pid?).Nodup

namespace Snapshot

variable {fs fs' : Snapshot} {root : Path} {pid : Int32} {record : String}

/-- The order of listings does not change which records are shown. -/
theorem Reordered.shows (h : Reordered fs fs') (hshows : fs.Shows root pid record) :
    fs'.Shows root pid record := by
  obtain ⟨names, name, fds, fd, target, hnames, hname, hpid, hfds, hfd, hlink, hgpu, htext⟩ :=
    hshows
  obtain ⟨names', hnames', hperm⟩ := h.list_eq_ok hnames
  obtain ⟨fds', hfds', hperm'⟩ := h.list_eq_ok hfds
  rw [h.readLink] at hlink
  rw [h.readText] at htext
  exact ⟨names', name, fds', fd, target, hnames', hperm.mem_iff.mp hname, hpid, hfds',
    hperm'.mem_iff.mp hfd, hlink, hgpu, htext⟩

theorem Reordered.listsOnce (h : Reordered fs fs') (honce : fs.ListsOnce root) :
    fs'.ListsOnce root := by
  intro names' hnames'
  obtain ⟨names, hnames, hperm⟩ := h.symm.list_eq_ok hnames'
  exact (hperm.filterMap Process.pid?).nodup_iff.mpr (honce names hnames)

end Snapshot

namespace Sweep

variable {fs : Snapshot} {root : Path} {process : Process}

/-- The processes of a sweep are those whose numbers are listed. -/
theorem mem_processes_iff :
    process ∈ (processes fs root).value ↔
      ∃ names name, fs.list root = .ok names ∧ name ∈ names ∧ Process.pid? name = some process.pid ∧
        process = Process.ofPid fs root process.pid := by
  rw [value_processes]
  cases hlist : fs.list root with
  | error cause => simp [Except.toOption]
  | ok names =>
      constructor
      · intro h
        obtain ⟨pid, hpid, rfl⟩ := List.mem_map.mp h
        obtain ⟨name, hname, hread⟩ := List.mem_filterMap.mp hpid
        exact ⟨names, name, rfl, hname, hread, rfl⟩
      · rintro ⟨_, name, h, hname, hread, hprocess⟩
        obtain rfl := Except.ok.inj h
        rw [hprocess]
        exact List.mem_map_of_mem (List.mem_filterMap.mpr ⟨name, hname, hread⟩)

theorem nodup_pid_processes (h : fs.ListsOnce root) :
    ((processes fs root).value.map (·.pid)).Nodup := by
  have hpid : (fun process : Process => process.pid) ∘ Process.ofPid fs root = id := rfl
  rw [value_processes, List.map_map, hpid, List.map_id]
  cases hlist : fs.list root with
  | error cause => exact List.nodup_nil
  | ok names => exact h names hlist

theorem record?_eq_some_iff {directory : Path} {fd : RawText} {record : String} :
    Process.record? fs directory fd = some record ↔
      ∃ target, fs.readLink ((directory.join "fd").join fd) = .ok target ∧
        Process.isGpuFile target.decode = true ∧
        fs.readText ((directory.join "fdinfo").join fd) = .ok record := by
  unfold Process.record?
  cases hlink : fs.readLink ((directory.join "fd").join fd) with
  | error cause => simp
  | ok target =>
      cases htext : fs.readText ((directory.join "fdinfo").join fd) <;>
        cases hgpu : Process.isGpuFile target.decode <;> simp [hgpu, Except.toOption]

theorem mem_records_ofPid_iff {pid : Int32} {record : String} :
    record ∈ (Process.ofPid fs root pid).records ↔
      ∃ fds fd, fs.list ((Process.directory root pid).join "fd") = .ok fds ∧ fd ∈ fds ∧
        Process.record? fs (Process.directory root pid) fd = some record := by
  unfold Process.ofPid
  simp only [List.mem_filterMap]
  cases hlist : fs.list ((Process.directory root pid).join "fd") with
  | error cause => simp [Except.toOption]
  | ok fds => simp [Except.toOption]

/-- The records of the processes of a sweep are those shown. -/
theorem shows_iff {pid : Int32} {record : String} :
    fs.Shows root pid record ↔
      ∃ process ∈ (processes fs root).value, process.pid = pid ∧ record ∈ process.records := by
  constructor
  · rintro ⟨names, name, fds, fd, target, hnames, hname, hpid, hfds, hfd, hlink, hgpu, htext⟩
    refine ⟨Process.ofPid fs root pid, ?_, rfl, ?_⟩
    · exact mem_processes_iff.mpr ⟨names, name, hnames, hname, hpid, rfl⟩
    · refine mem_records_ofPid_iff.mpr ⟨fds, fd, hfds, hfd, ?_⟩
      exact record?_eq_some_iff.mpr ⟨target, hlink, hgpu, htext⟩
  · rintro ⟨process, hprocess, rfl, hrecord⟩
    obtain ⟨names, name, hnames, hname, hpid, heq⟩ := mem_processes_iff.mp hprocess
    rw [heq] at hrecord
    obtain ⟨fds, fd, hfds, hfd, hread⟩ := mem_records_ofPid_iff.mp hrecord
    obtain ⟨target, hlink, hgpu, htext⟩ := record?_eq_some_iff.mp hread
    exact ⟨names, name, fds, fd, target, hnames, hname, hpid, hfds, hfd, hlink, hgpu, htext⟩

end Sweep

namespace Hub

open Sweep (Origin Admission Intake)

variable {hub : Hub IntelGpu} {fs fs' : Snapshot} {root : Path}

/-! ## Completeness -/

/-- A plain record goes to the first listener whose GPU is at its address, if its number can be
read. -/
theorem claimant?_eq_some_iff_of_plain {record pdev number : String}
    (h : Record.Plain record pdev number) {id : ListenerId} :
    claimant? hub.addresses record = some id ↔
      ((∃ gpu, hub.gpu? id = some gpu ∧ pdev = gpu.pdev) ∧
        ∀ j < id.index, ∀ gpu, hub.gpu? ⟨j⟩ = some gpu → pdev ≠ gpu.pdev) ∧
      (Text.uint32? number).isSome := by
  rw [claimant?_eq_some_iff]
  simp only [h.concerns_iff]
  constructor
  · rintro ⟨⟨gpu, hgpu, hpdev, hnumber⟩, hbefore⟩
    exact ⟨⟨⟨gpu, hgpu, hpdev⟩, fun j hj g hg e => hbefore j hj g hg ⟨e, hnumber⟩⟩, hnumber⟩
  · rintro ⟨⟨⟨gpu, hgpu, hpdev⟩, hbefore⟩, hnumber⟩
    exact ⟨⟨gpu, hgpu, hpdev, hnumber⟩, fun j hj g hg hc => hbefore j hj g hg hc.1⟩

/-- All records that are shown are plain. -/
def ShowsPlain (fs : Snapshot) (root : Path) : Prop :=
  ∀ pid record, fs.Shows root pid record → ∃ pdev number, Record.Plain record pdev number

/-- Plain records of a process tell clients apart. -/
theorem allApart_of_plain (hplain : ShowsPlain fs root) :
    Sweep.AllApart hub.addresses fs root := by
  intro process hprocess
  apply tellsApart_of_agree
  intro record hrecord _
  obtain ⟨pdev, number, h⟩ :=
    hplain process.pid record (Sweep.shows_iff.mpr ⟨process, hprocess, rfl, hrecord⟩)
  rw [h.pdev?_eq, h.clientId?_eq, h.lastClientId?_eq]
  exact ⟨rfl, rfl⟩

/-- A record is of an origin: its listener is the first whose GPU is at the address in the record,
and the number in the record is that of the client. -/
def RecordOf (hub : Hub IntelGpu) (o : Origin) (record : String) : Prop :=
  ∃ gpu number, hub.gpu? o.1 = some gpu ∧ Record.Plain record gpu.pdev number ∧
    Text.uint32? number = some o.2.id ∧
    ∀ j < o.1.index, ∀ g, hub.gpu? ⟨j⟩ = some g → g.pdev ≠ gpu.pdev

theorem recordOf_iff_of_plain {record pdev number : String} (h : Record.Plain record pdev number)
    {o : Origin} :
    hub.RecordOf o record ↔
      claimant? hub.addresses record = some o.1 ∧ Text.uint32? number = some o.2.id := by
  rw [claimant?_eq_some_iff_of_plain h]
  constructor
  · rintro ⟨gpu, number', hgpu, h', hid, hbefore⟩
    obtain rfl := (List.cons.inj (h.pdev.symm.trans h'.pdev)).1
    obtain rfl := (List.cons.inj (h.number.symm.trans h'.number)).1
    refine ⟨⟨⟨⟨gpu, hgpu, rfl⟩, ?_⟩, Option.isSome_of_eq_some hid⟩, hid⟩
    intro j hj g hg e
    exact hbefore j hj g hg e.symm
  · rintro ⟨⟨⟨⟨gpu, hgpu, rfl⟩, hbefore⟩, -⟩, hid⟩
    exact ⟨gpu, number, hgpu, h, hid, fun j hj g hg e => hbefore j hj g hg e.symm⟩

/-- The origins of the admissions are those of which records are shown. -/
theorem mem_origins_iff_exists_shows (hplain : ShowsPlain fs root) {o : Origin} :
    o ∈ (Sweep.admissionsUnder hub.addresses fs root).map Admission.origin ↔
      ∃ record, fs.Shows root o.2.pid record ∧ hub.RecordOf o record := by
  constructor
  · intro ho
    obtain ⟨a, ha, rfl⟩ := List.mem_map.mp ho
    obtain ⟨process, hprocess, ha⟩ := Sweep.mem_admissionsUnder_iff.mp ha
    obtain ⟨hrecord, hclaim, hpid, -⟩ := Sweep.mem_admissions ha
    have hshows : fs.Shows root a.pid a.record :=
      Sweep.shows_iff.mpr ⟨process, hprocess, hpid.symm, hrecord⟩
    obtain ⟨pdev, number, h⟩ := hplain _ _ hshows
    refine ⟨a.record, hshows, (recordOf_iff_of_plain h).mpr ⟨hclaim, ?_⟩⟩
    rw [← h.lastClientId?_eq]
    exact a.told
  · rintro ⟨record, hshows, hof⟩
    obtain ⟨process, hprocess, hpid, hrecord⟩ := Sweep.shows_iff.mp hshows
    obtain ⟨pdev, number, h⟩ := hplain _ _ hshows
    obtain ⟨hclaim, hid⟩ := (recordOf_iff_of_plain h).mp hof
    have hsighting : Sweep.sighting? record = some (some pdev, o.2.id) := by
      rw [h.sighting?_eq, hid, Option.map_some]
    -- The admission with this sighting is of the same client of the same listener.
    obtain ⟨a, ha, hs⟩ := Sweep.exists_mem_admissions hrecord hclaim hsighting
    obtain ⟨harecord, haclaim, hapid, -⟩ := Sweep.mem_admissions ha
    obtain ⟨pdev', number', h'⟩ :=
      hplain a.pid a.record (Sweep.shows_iff.mpr ⟨process, hprocess, hapid.symm, harecord⟩)
    obtain ⟨id, hid', he⟩ := Option.map_eq_some_iff.mp (h'.sighting?_eq.symm.trans hs)
    obtain ⟨hpdev, rfl⟩ := Prod.mk.inj he
    obtain rfl := Option.some.inj hpdev
    have hclaim' : claimant? hub.addresses a.record = some o.1 := by
      obtain ⟨hfirst, -⟩ := (claimant?_eq_some_iff_of_plain h).mp hclaim
      exact (claimant?_eq_some_iff_of_plain h').mpr ⟨hfirst, Option.isSome_of_eq_some hid'⟩
    refine List.mem_map.mpr ⟨a, Sweep.mem_admissionsUnder_iff.mpr ⟨process, hprocess, ha⟩, ?_⟩
    refine Prod.ext (Option.some.inj (haclaim.symm.trans hclaim')) ?_
    have hnumber : a.clientId = o.2.id :=
      Option.some.inj (a.told.symm.trans (h'.lastClientId?_eq.trans hid'))
    have hclient : a.client = ⟨o.2.id, o.2.pid⟩ := by
      unfold Admission.client
      rw [hnumber, hapid, hpid]
    exact hclient

/-! ## Order -/

variable {as bs : List Intake}

/-- Intakes of different origins leave the same behind in any order. -/
theorem OfIntel.takeInAll_perm (hI : hub.OfIntel) (hperm : as.Perm bs)
    (hnodup : (as.map (·.origin)).Nodup) : hub.takeInAll as = hub.takeInAll bs := by
  induction hperm generalizing hub with
  | nil => rfl
  | cons a _ ih =>
      rw [List.map_cons, List.nodup_cons] at hnodup
      exact ih (hI.takeIn a) hnodup.2
  | swap a b as =>
      have hne : b.origin ≠ a.origin := by
        rw [List.map_cons, List.map_cons, List.nodup_cons] at hnodup
        exact fun e => hnodup.1 (e ▸ List.mem_cons_self)
      have hcomm : (hub.takeIn b).takeIn a = (hub.takeIn a).takeIn b :=
        hI.keep_comm hne
      rw [takeInAll_cons, takeInAll_cons, takeInAll_cons, takeInAll_cons, hcomm]
  | trans h₁ _ ih₁ ih₂ =>
      exact (ih₁ hI hnodup).trans (ih₂ hI ((h₁.map (·.origin)).nodup_iff.mp hnodup))

/-- What is found out from an intake is not changed by one of another origin. -/
theorem OfIntel.finding_takeIn (hI : hub.OfIntel) {a b : Intake}
    (ha : (hub.gpu? a.listener).isSome) (h : a.origin ≠ b.origin) :
    (hub.takeIn a).finding b = hub.finding b := by
  have hcurrent : (hub.takeIn a).current? b.origin = hub.current? b.origin := by
    rw [hI.current?_takeIn ha, if_neg h, Option.or_none]
  have hprevious : (hub.takeIn a).previous? b.origin = hub.previous? b.origin := by
    rw [hI.previous?_takeIn, if_neg (fun e => h e.1)]
  unfold finding usageOf
  rw [hcurrent, hprevious]

/-- From intakes of different origins each finding is made as if there was no other. -/
theorem OfIntel.findings_eq_map (hI : hub.OfIntel) (hserves : hub.Serves as)
    (hnodup : (as.map (·.origin)).Nodup) :
    hub.findings as = as.map hub.finding := by
  induction as generalizing hub with
  | nil => rfl
  | cons a as ih =>
      obtain ⟨ha, has⟩ := List.forall_mem_cons.mp hserves
      rw [List.map_cons, List.nodup_cons] at hnodup
      rw [findings_cons, ih (hI.takeIn a) (hI.serves_takeIn has a) hnodup.2, List.map_cons]
      congr 1
      apply List.map_congr_left
      intro b hb
      exact hI.finding_takeIn ha (fun e => hnodup.1 (e ▸ List.mem_map_of_mem hb))

/-- Records of one process that are of one origin have one text. -/
def ShowsAlike (fs : Snapshot) (root : Path) : Prop :=
  ∀ pid r s pdev m n id, fs.Shows root pid r → fs.Shows root pid s →
    Record.Plain r pdev m → Record.Plain s pdev n →
    Text.uint32? m = some id → Text.uint32? n = some id → r = s

theorem mem_admissionsUnder_of_reordered (hplain : ShowsPlain fs root) (halike : ShowsAlike fs root)
    (h : fs.Reordered fs') {a : Admission}
    (ha : a ∈ Sweep.admissionsUnder hub.addresses fs root) :
    a ∈ Sweep.admissionsUnder hub.addresses fs' root := by
  have hplain' : ShowsPlain fs' root := fun pid record hs => hplain pid record (h.symm.shows hs)
  -- Under the other order an admission of the same origin is found.
  obtain ⟨record, hshows, hof⟩ :=
    (mem_origins_iff_exists_shows hplain).mp (List.mem_map_of_mem ha)
  obtain ⟨b, hb, horigin⟩ := List.mem_map.mp
    ((mem_origins_iff_exists_shows hplain').mpr ⟨record, h.shows hshows, hof⟩)
  obtain ⟨p, hp, hpa⟩ := Sweep.mem_admissionsUnder_iff.mp ha
  obtain ⟨q, hq, hqb⟩ := Sweep.mem_admissionsUnder_iff.mp hb
  obtain ⟨harecord, haclaim, hapid, haname⟩ := Sweep.mem_admissions hpa
  obtain ⟨hbrecord, hbclaim, hbpid, hbname⟩ := Sweep.mem_admissions hqb
  have hashows : fs.Shows root a.pid a.record :=
    Sweep.shows_iff.mpr ⟨p, hp, hapid.symm, harecord⟩
  have hbshows : fs.Shows root b.pid b.record :=
    h.symm.shows (Sweep.shows_iff.mpr ⟨q, hq, hbpid.symm, hbrecord⟩)
  obtain ⟨hlistener, hclient⟩ := Prod.mk.inj horigin
  obtain ⟨hid, hpid⟩ := Client.mk.inj hclient
  have hrecord : b.record = a.record := by
    obtain ⟨pdev, m, hm⟩ := hplain _ _ hashows
    obtain ⟨pdev', n, hn⟩ := hplain _ _ hbshows
    obtain ⟨⟨⟨gpu, hgpu, rfl⟩, -⟩, -⟩ := (claimant?_eq_some_iff_of_plain hm).mp haclaim
    obtain ⟨⟨⟨gpu', hgpu', rfl⟩, -⟩, -⟩ := (claimant?_eq_some_iff_of_plain hn).mp hbclaim
    rw [hlistener] at hgpu'
    obtain rfl := Option.some.inj (hgpu.symm.trans hgpu')
    rw [hpid] at hbshows
    refine halike a.pid b.record a.record gpu.pdev n m a.clientId hbshows hashows hn hm ?_ ?_
    · rw [← hn.lastClientId?_eq, b.told, hid]
    · rw [← hm.lastClientId?_eq, a.told]
  have hname : b.name = a.name := by
    obtain ⟨_, _, _, _, _, hp⟩ := Sweep.mem_processes_iff.mp hp
    obtain ⟨_, _, _, _, _, hq⟩ := Sweep.mem_processes_iff.mp hq
    rw [hbname, haname, hp, hq, ← hapid, ← hbpid, hpid]
    change Process.nameOf fs' _ _ = Process.nameOf fs _ _
    unfold Process.nameOf
    rw [h.readText]
  exact Admission.ext_origin horigin hname hrecord ▸ hb

/-- Plain records of processes that are listed once make admissions of different origins. -/
theorem nodup_admissionsUnder (hub : Hub IntelGpu) (honce : fs.ListsOnce root)
    (hplain : ShowsPlain fs root) :
    ((Sweep.admissionsUnder hub.addresses fs root).map Admission.origin).Nodup :=
  (Sweep.nodup_origins_of_processes_iff (Sweep.nodup_pid_processes honce)).mpr
    (allApart_of_plain hplain)

/-- The order of the listings does not change which admissions there are. -/
theorem perm_admissionsUnder_of_reordered (hub : Hub IntelGpu) (honce : fs.ListsOnce root)
    (hplain : ShowsPlain fs root) (halike : ShowsAlike fs root) (h : fs.Reordered fs') :
    (Sweep.admissionsUnder hub.addresses fs root).Perm
      (Sweep.admissionsUnder hub.addresses fs' root) := by
  have hplain' : ShowsPlain fs' root := fun pid record hs => hplain pid record (h.symm.shows hs)
  have halike' : ShowsAlike fs' root := by
    intro pid r s pdev m n id hr hs
    exact halike pid r s pdev m n id (h.symm.shows hr) (h.symm.shows hs)
  have hnodup := nodup_admissionsUnder hub honce hplain
  have hnodup' := nodup_admissionsUnder hub (h.listsOnce honce) hplain'
  refine (List.perm_ext_iff_of_nodup hnodup.of_map hnodup'.of_map).mpr ?_
  intro a
  exact ⟨mem_admissionsUnder_of_reordered hplain halike h,
    mem_admissionsUnder_of_reordered hplain' halike' h.symm⟩

/-- A sweep, where every process is listed once and every record that is shown holds one address and
one number, reports each origin at most once, and exactly those of which some process shows a
record, whatever the caches hold. If moreover the records of one process that are of one origin
have one text, then another order of the listings gives the same findings in some order and leaves
the same hub behind. -/
theorem OfIntel.run_complete (hI : hub.OfIntel) (honce : fs.ListsOnce root)
    (hplain : ShowsPlain fs root) (now : Instant) :
    ((Sweep.run fs root now hub).value.1.map Finding.origin?).Nodup ∧
    (∀ f ∈ (Sweep.run fs root now hub).value.1, f.origin?.isSome) ∧
    (∀ o : Origin, some o ∈ (Sweep.run fs root now hub).value.1.map Finding.origin? ↔
      ∃ gpu record number, hub.gpu? o.1 = some gpu ∧
        fs.Shows root o.2.pid record ∧
        Record.values Record.pdevKey record = [gpu.pdev] ∧
        Record.values Record.clientIdKey record = [number] ∧
        Text.uint32? number = some o.2.id ∧
        ∀ j < o.1.index, ∀ g, hub.gpu? ⟨j⟩ = some g → g.pdev ≠ gpu.pdev) ∧
    (ShowsAlike fs root → ∀ fs', fs.Reordered fs' →
      (Sweep.run fs root now hub).value.1.Perm (Sweep.run fs' root now hub).value.1 ∧
        (Sweep.run fs root now hub).value.2 = (Sweep.run fs' root now hub).value.2) := by
  have horigins : ((Sweep.run fs root now hub).value.1.map Finding.origin?).Perm
      (((Sweep.admissionsUnder hub.addresses fs root).map Admission.origin).map some) := by
    rw [← Sweep.map_origin_intakesUnder hub.addresses now, ← map_origin?_findings]
    exact (hI.perm_run fs root now).map Finding.origin?
  refine ⟨?once, ?told, ?complete, ?order⟩
  case once =>
    rw [horigins.nodup_iff]
    exact (List.nodup_map_iff (fun _ _ h => Option.some.inj h)).mpr
      (nodup_admissionsUnder hub honce hplain)
  case told =>
    intro f hf
    have hmem := horigins.mem_iff.mp (List.mem_map_of_mem hf)
    obtain ⟨o, -, ho⟩ := List.mem_map.mp hmem
    exact Option.isSome_of_eq_some ho.symm
  case complete =>
    intro o
    rw [horigins.mem_iff, List.mem_map_of_injective (fun _ _ h => Option.some.inj h),
      mem_origins_iff_exists_shows hplain]
    constructor
    · rintro ⟨record, hshows, gpu, number, hgpu, hrecord, hid, hbefore⟩
      exact ⟨gpu, record, number, hgpu, hshows, hrecord.pdev, hrecord.number, hid, hbefore⟩
    · rintro ⟨gpu, record, number, hgpu, hshows, hpdev, hnumber, hid, hbefore⟩
      exact ⟨record, hshows, gpu, number, hgpu, ⟨hpdev, hnumber⟩, hid, hbefore⟩
  case order =>
    intro halike fs' h
    have hnodup : ∀ fs : Snapshot, fs.ListsOnce root → ShowsPlain fs root →
        ((Sweep.intakesUnder hub.addresses now fs root).map (·.origin)).Nodup := by
      intro fs honce hplain
      rw [Sweep.map_origin_intakesUnder]
      exact nodup_admissionsUnder hub honce hplain
    have hintakes := hnodup fs honce hplain
    have hintakes' := hnodup fs' (h.listsOnce honce)
      fun pid record hs => hplain pid record (h.symm.shows hs)
    -- All records have the same instant, so the order does not show in the samples either.
    have hperm : (Sweep.intakesUnder hub.addresses now fs root).Perm
        (Sweep.intakesUnder hub.addresses now fs' root) := by
      rw [Sweep.intakesUnder_still, Sweep.intakesUnder_still]
      exact (perm_admissionsUnder_of_reordered hub honce hplain halike h).map _
    constructor
    · refine (hI.perm_run fs root now).trans (List.Perm.trans ?_ (hI.perm_run fs' root now).symm)
      rw [hI.findings_eq_map (serves_intakesUnder hub now fs root) hintakes,
        hI.findings_eq_map (serves_intakesUnder hub now fs' root) hintakes']
      exact hperm.map hub.finding
    · rw [hI.value_run, hI.value_run]
      exact congrArg Hub.closeCycle (hI.takeInAll_perm hperm hintakes)

/-- A process with two clients of one GPU. -/
def twoClients : Snapshot :=
  .ofProcess "7" [("3", "drm-pdev:\t0000:00:02.0\ndrm-client-id:\t5\n"),
    ("4", "drm-pdev:\t0000:00:02.0\ndrm-client-id:\t6\n")]

private theorem plain_twoClients {pid : Int32} {record : String}
    (h : twoClients.Shows ⟨"/proc"⟩ pid record) :
    (record = "drm-pdev:\t0000:00:02.0\ndrm-client-id:\t5\n" ∧
        Record.Plain record "0000:00:02.0" "5") ∨
      (record = "drm-pdev:\t0000:00:02.0\ndrm-client-id:\t6\n" ∧
        Record.Plain record "0000:00:02.0" "6") := by
  have hall : ∀ process ∈ (Sweep.processes twoClients ⟨"/proc"⟩).value,
      ∀ record ∈ process.records,
        record = "drm-pdev:\t0000:00:02.0\ndrm-client-id:\t5\n" ∨
          record = "drm-pdev:\t0000:00:02.0\ndrm-client-id:\t6\n" := by
    decide +kernel
  obtain ⟨process, hprocess, -, hrecord⟩ := Sweep.shows_iff.mp h
  rcases hall process hprocess record hrecord with rfl | rfl
  · exact Or.inl ⟨rfl, by decide +kernel, by decide +kernel⟩
  · exact Or.inr ⟨rfl, by decide +kernel, by decide +kernel⟩

theorem run_complete_twoClients :
    some (⟨0⟩, ⟨6, 7⟩) ∈
      (Sweep.run twoClients ⟨"/proc"⟩ (.still ⟨0⟩) (ofGpus [.at "0000:00:02.0"])).value.1.map
        Finding.origin? ∧
    (Sweep.run twoClients ⟨"/proc"⟩ (.still ⟨0⟩) (ofGpus [.at "0000:00:02.0"])).value.2 =
      (Sweep.run twoClients.reversed ⟨"/proc"⟩ (.still ⟨0⟩)
        (ofGpus [.at "0000:00:02.0"])).value.2 := by
  have honce : twoClients.ListsOnce ⟨"/proc"⟩ := by
    intro names hnames
    have hlist : twoClients.list ⟨"/proc"⟩ = .ok ["7"] := rfl
    obtain rfl := Except.ok.inj (hlist.symm.trans hnames)
    decide +kernel
  have hplain : ShowsPlain twoClients ⟨"/proc"⟩ := by
    intro pid record h
    rcases plain_twoClients h with ⟨-, h⟩ | ⟨-, h⟩
    · exact ⟨_, _, h⟩
    · exact ⟨_, _, h⟩
  have hdiffer : Text.uint32? "5" ≠ Text.uint32? "6" := by decide +kernel
  have halike : ShowsAlike twoClients ⟨"/proc"⟩ := by
    intro pid r s pdev m n id hr hs hm hn hidm hidn
    have hsame : Record.lastClientId? r = Record.lastClientId? s := by
      rw [hm.lastClientId?_eq, hn.lastClientId?_eq, hidm, hidn]
    rcases plain_twoClients hr with ⟨rfl, h⟩ | ⟨rfl, h⟩ <;>
      rcases plain_twoClients hs with ⟨rfl, h'⟩ | ⟨rfl, h'⟩
    · rfl
    · rw [h.lastClientId?_eq, h'.lastClientId?_eq] at hsame
      exact absurd hsame hdiffer
    · rw [h.lastClientId?_eq, h'.lastClientId?_eq] at hsame
      exact absurd hsame.symm hdiffer
    · rfl
  obtain ⟨-, -, hcomplete, horder⟩ :=
    (ofIntel_ofGpus [.at "0000:00:02.0"]).run_complete honce hplain ⟨0⟩
  refine ⟨?_, (horder halike _ (Snapshot.reordered_reversed _)).2⟩
  refine (hcomplete _).mpr
    ⟨.at "0000:00:02.0", "drm-pdev:\t0000:00:02.0\ndrm-client-id:\t6\n", "6", rfl, ?_,
      by decide +kernel, by decide +kernel, by decide +kernel,
      fun j hj => absurd hj (Nat.not_lt_zero j)⟩
  exact ⟨["7"], "7", ["3", "4"], "4", "/dev/dri/renderD128", rfl, by simp, by decide +kernel, rfl,
    by simp, rfl, by decide +kernel, rfl⟩

end Hub

end DrmUsage

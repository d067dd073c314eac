-- SUMMARY: Which records of a process a sweep uses, for which client and at which instant, told without any cache.
import DrmUsage.Proofs.IntelHub
import DrmUsage.Sweep

/-!
# Admissions

Which records a sweep uses does not hang on what the caches hold. A record is
accepted or rejected by its text alone, and an accepted one is passed over if
its sighting was in an accepted one before (`firsts`). What is left of a process
are its admissions. Each knows the listener that takes it and the client that it
tells; these two are the origin of whatever is found out from it. No clock is
needed for them. A look at the clock for each record makes them intakes.
-/

namespace DrmUsage

namespace Sweep

/-! ## The first of each kind -/

section Firsts

variable {α κ : Type} {key : α → Option κ} {values : List α}

/-- A value brings a key that is not among some others, or none at all. -/
def Fresh (key : α → Option κ) (values : List α) (a : α) : Prop :=
  ∀ b ∈ values, key b = key a → key a = none

theorem fresh_cons_iff {a b : α} :
    Fresh key (b :: values) a ↔ (key b = key a → key a = none) ∧ Fresh key values a :=
  List.forall_mem_cons

variable [DecidableEq κ]

instance (key : α → Option κ) (values : List α) (a : α) : Decidable (Fresh key values a) :=
  inferInstanceAs (Decidable (∀ b ∈ values, key b = key a → key a = none))

/-- Some values without those whose key is in `seen` or was that of an earlier one. Values without
a key all stay. -/
def dropSeen (key : α → Option κ) : List κ → List α → List α
  | _, [] => []
  | seen, a :: later =>
    if (key a).any (· ∈ seen) then dropSeen key seen later
    else a :: dropSeen key ((key a).toList ++ seen) later

/-- Some values without those whose key was that of an earlier one. -/
def firsts (key : α → Option κ) (values : List α) : List α := dropSeen key [] values

theorem dropSeen_cons_of_mem {seen : List κ} {a : α} (h : ∃ k ∈ seen, key a = some k) :
    dropSeen key seen (a :: values) = dropSeen key seen values := by
  obtain ⟨k, hk, hkey⟩ := h
  conv_lhs => unfold dropSeen
  rw [hkey, Option.any_some, if_pos (decide_eq_true hk)]

theorem dropSeen_cons_of_not_mem {seen : List κ} {a : α} (h : ¬ ∃ k ∈ seen, key a = some k) :
    dropSeen key seen (a :: values) = a :: dropSeen key ((key a).toList ++ seen) values := by
  conv_lhs => unfold dropSeen
  rw [if_neg]
  intro hany
  obtain ⟨k, hkey, hk⟩ := (Option.any_eq_true ..).mp hany
  exact h ⟨k, of_decide_eq_true hk, hkey⟩

theorem dropSeen_concat (key : α → Option κ) (seen : List κ) (values : List α) (a : α) :
    dropSeen key seen (values ++ [a]) = dropSeen key seen values ++
      if (¬ ∃ k ∈ seen, key a = some k) ∧ Fresh key values a then [a] else [] := by
  induction values generalizing seen with
  | nil =>
      have hfresh : Fresh key [] a := fun _ hb => absurd hb List.not_mem_nil
      rw [List.nil_append]
      by_cases h : ∃ k ∈ seen, key a = some k
      · rw [dropSeen_cons_of_mem h, if_neg (fun hnew => hnew.1 h)]
        rfl
      · rw [dropSeen_cons_of_not_mem h, if_pos ⟨h, hfresh⟩]
        rfl
  | cons b values ih =>
      rw [List.cons_append]
      by_cases hb : ∃ k ∈ seen, key b = some k
      · -- The key of `b` is in `seen` already, so `b` bars nobody else.
        have hiff : ((¬ ∃ k ∈ seen, key a = some k) ∧ Fresh key (b :: values) a) ↔
            (¬ ∃ k ∈ seen, key a = some k) ∧ Fresh key values a := by
          obtain ⟨k, hk, hkey⟩ := hb
          rw [fresh_cons_iff]
          refine ⟨fun h => ⟨h.1, h.2.2⟩, fun h => ⟨h.1, fun e => ?_, h.2⟩⟩
          exact absurd ⟨k, hk, e.symm.trans hkey⟩ h.1
        rw [dropSeen_cons_of_mem hb, dropSeen_cons_of_mem hb, ih]
        simp only [hiff]
      · have hkey : (key b = key a → key a = none) ↔ ¬ ∃ k ∈ (key b).toList, key a = some k := by
          cases key b with
          | none => exact ⟨fun _ ⟨k, hk, _⟩ => absurd hk List.not_mem_nil, fun _ e => e.symm⟩
          | some k =>
              simp only [Option.toList_some, List.mem_singleton, exists_eq_left]
              exact ⟨fun h e => Option.some_ne_none k (e.symm.trans (h e.symm)),
                fun h e => absurd e.symm h⟩
        have hiff : ((¬ ∃ k ∈ seen, key a = some k) ∧ Fresh key (b :: values) a) ↔
            (¬ ∃ k ∈ (key b).toList ++ seen, key a = some k) ∧ Fresh key values a := by
          simp only [fresh_cons_iff, hkey, List.mem_append, or_and_right, exists_or, not_or]
          tauto
        rw [dropSeen_cons_of_not_mem hb, dropSeen_cons_of_not_mem hb, ih, List.cons_append]
        simp only [hiff]

/-- A key that is read off an image can be looked for among the images. -/
theorem map_dropSeen {β : Type} (f : β → α) (seen : List κ) (values : List β) :
    (dropSeen (key ∘ f) seen values).map f = dropSeen key seen (values.map f) := by
  induction values generalizing seen with
  | nil => rfl
  | cons b values ih =>
      rw [List.map_cons]
      by_cases hb : ∃ k ∈ seen, key (f b) = some k
      · have hcomp : ∃ k ∈ seen, (key ∘ f) b = some k := hb
        rw [dropSeen_cons_of_mem hb, dropSeen_cons_of_mem hcomp, ih]
      · have hcomp : ¬ ∃ k ∈ seen, (key ∘ f) b = some k := hb
        rw [dropSeen_cons_of_not_mem hb, dropSeen_cons_of_not_mem hcomp, List.map_cons, ih]
        rfl

@[simp] theorem firsts_nil : firsts key [] = [] := rfl

theorem firsts_concat (key : α → Option κ) (values : List α) (a : α) :
    firsts key (values ++ [a]) =
      firsts key values ++ if Fresh key values a then [a] else [] := by
  have hiff : ((¬ ∃ k ∈ ([] : List κ), key a = some k) ∧ Fresh key values a) ↔
      Fresh key values a :=
    and_iff_right (fun ⟨_, hk, _⟩ => List.not_mem_nil hk)
  unfold firsts
  rw [dropSeen_concat]
  simp only [hiff]

theorem firsts_sublist (key : α → Option κ) (values : List α) :
    (firsts key values).Sublist values := by
  induction values using List.reverseRecOn with
  | nil => exact List.Sublist.refl []
  | append_singleton values a ih =>
      rw [firsts_concat]
      refine List.Sublist.append ih ?_
      split
      · exact List.Sublist.refl [a]
      · exact List.nil_sublist [a]

/-- No key gets lost. -/
theorem exists_mem_firsts {a : α} {k : κ} (ha : a ∈ values) (hk : key a = some k) :
    ∃ b ∈ firsts key values, key b = some k := by
  induction values using List.reverseRecOn generalizing a with
  | nil => exact absurd ha List.not_mem_nil
  | append_singleton values c ih =>
      rw [firsts_concat]
      by_cases hearlier : ∃ b ∈ values, key b = some k
      · obtain ⟨b, hb, hkey⟩ := hearlier
        obtain ⟨d, hd, hkey⟩ := ih hb hkey
        exact ⟨d, List.mem_append_left _ hd, hkey⟩
      · rcases List.mem_append.mp ha with hmem | hmem
        · exact absurd ⟨a, hmem, hk⟩ hearlier
        · obtain rfl := List.mem_singleton.mp hmem
          have hfresh : Fresh key values a := by
            intro b hb hkey
            exact absurd ⟨b, hb, hkey.trans hk⟩ hearlier
          rw [if_pos hfresh]
          exact ⟨a, List.mem_append_right _ (List.mem_singleton_self a), hk⟩

end Firsts

/-! ## Admissions -/

/-- Where something is found out: the listener of a device, and a client of the device. -/
abbrev Origin := ListenerId × Client

/-- A record that a sweep uses, the process that shows it, and the listener that takes it. The
record tells the number of the client. -/
structure Admission where
  listener : ListenerId
  pid : Int32
  name : String
  record : String
  clientId : UInt32
  told : Record.lastClientId? record = some clientId

namespace Admission

/-- The client of which the record is. -/
def client (a : Admission) : Client := ⟨a.clientId, a.pid⟩

/-- The listener and the client. -/
def origin (a : Admission) : Origin := (a.listener, a.client)

/-- The sighting in the record. -/
def sighting? (a : Admission) : Option Sighting := Sweep.sighting? a.record

theorem ext_origin {a b : Admission} (horigin : a.origin = b.origin) (hname : a.name = b.name)
    (hrecord : a.record = b.record) : a = b := by
  obtain ⟨hlistener, hclient⟩ := Prod.mk.inj horigin
  obtain ⟨hid, hpid⟩ := Client.mk.inj hclient
  cases a
  cases b
  simp only at hlistener hid hpid hname hrecord
  subst hlistener hid hpid hname hrecord
  rfl

end Admission

/-- The admission of a record of a process, if some listener accepts the record. -/
def admission? (addresses : List (Option String)) (pid : Int32) (name record : String) :
    Option Admission :=
  (Hub.claimant? addresses record).bind fun listener =>
    (Record.lastClientId? record).pmap (fun id told => ⟨listener, pid, name, record, id, told⟩)
      (fun _ h => h)

/-- The admissions of some records of a process: of those that some listener accepts, the first
with each sighting, and all without one. -/
def admissionsOf (addresses : List (Option String)) (pid : Int32) (name : String)
    (records : List String) : List Admission :=
  firsts Admission.sighting? (records.filterMap (admission? addresses pid name))

/-- The admissions of a process. -/
def admissions (addresses : List (Option String)) (process : Process) : List Admission :=
  admissionsOf addresses process.pid process.name process.records

/-- The admissions of the processes under a root, one process after the other. -/
def admissionsUnder (addresses : List (Option String)) (fs : Snapshot) (root : Path) :
    List Admission :=
  (processes fs root).value.flatMap (admissions addresses)

/-- The processes are those whose numbers are listed, if the root can be listed. -/
theorem value_processes (fs : Snapshot) (root : Path) :
    (processes fs root).value =
      (((fs.list root).toOption.getD []).filterMap Process.pid?).map (Process.ofPid fs root) := by
  unfold processes Process.all
  cases fs.list root <;> rfl

variable {addresses : List (Option String)} {record : String}

/-- Only a record that tells a client is accepted. -/
theorem isSome_lastClientId?_of_claimant? {listener : ListenerId}
    (h : Hub.claimant? addresses record = some listener) :
    (Record.lastClientId? record).isSome := by
  obtain ⟨i, hi, -⟩ := Option.map_eq_some_iff.mp h
  obtain ⟨hlt, hclaim, -⟩ := List.findIdx?_eq_some_iff_getElem.mp hi
  obtain ⟨address, -, hconcerns⟩ := (Option.any_eq_true ..).mp hclaim
  exact (of_decide_eq_true hconcerns).2

theorem admission?_eq_some_iff {pid : Int32} {name : String} {a : Admission} :
    admission? addresses pid name record = some a ↔
      Hub.claimant? addresses record = some a.listener ∧ a.pid = pid ∧ a.name = name ∧
        a.record = record := by
  unfold admission?
  constructor
  · intro h
    obtain ⟨listener, hclaim, h⟩ := Option.bind_eq_some_iff.mp h
    obtain ⟨id, told, hid, rfl⟩ := Option.pmap_eq_some_iff.mp h
    exact ⟨hclaim, rfl, rfl, rfl⟩
  · rintro ⟨hclaim, rfl, rfl, rfl⟩
    refine Option.bind_eq_some_iff.mpr ⟨a.listener, hclaim, ?_⟩
    exact Option.pmap_eq_some_iff.mpr ⟨a.clientId, a.told, a.told, rfl⟩

theorem isSome_admission?_iff {pid : Int32} {name : String} :
    (admission? addresses pid name record).isSome ↔ (Hub.claimant? addresses record).isSome := by
  unfold admission?
  cases h : Hub.claimant? addresses record with
  | none => exact Iff.rfl
  | some listener =>
      rw [Option.bind_some, Option.isSome_pmap]
      exact iff_of_true (isSome_lastClientId?_of_claimant? h) rfl

variable {process : Process} {a : Admission}

theorem mem_admissions (h : a ∈ admissions addresses process) :
    a.record ∈ process.records ∧ Hub.claimant? addresses a.record = some a.listener ∧
      a.pid = process.pid ∧ a.name = process.name := by
  obtain ⟨record, hrecord, ha⟩ := List.mem_filterMap.mp ((firsts_sublist _ _).subset h)
  obtain ⟨hclaim, hpid, hname, rfl⟩ := admission?_eq_some_iff.mp ha
  exact ⟨hrecord, hclaim, hpid, hname⟩

theorem mem_admissionsUnder_iff {fs : Snapshot} {root : Path} :
    a ∈ admissionsUnder addresses fs root ↔
      ∃ process ∈ (processes fs root).value, a ∈ admissions addresses process :=
  List.mem_flatMap

/-- Every sighting in an accepted record is that of an admission. -/
theorem exists_mem_admissions {listener : ListenerId} {s : Sighting}
    (hrecord : record ∈ process.records)
    (hclaim : Hub.claimant? addresses record = some listener)
    (hs : Sweep.sighting? record = some s) :
    ∃ a ∈ admissions addresses process, a.sighting? = some s := by
  have hsome : (admission? addresses process.pid process.name record).isSome :=
    isSome_admission?_iff.mpr (Option.isSome_of_eq_some hclaim)
  obtain ⟨a, ha⟩ := Option.isSome_iff_exists.mp hsome
  obtain ⟨-, -, -, rfl⟩ := admission?_eq_some_iff.mp ha
  exact exists_mem_firsts (List.mem_filterMap.mpr ⟨a.record, hrecord, ha⟩) hs

/-! ## Intakes -/

/-- An admission, and what the clock showed for its record. -/
structure Intake extends Admission where
  takenAt : Instant

namespace Intake

/-- The sample that is taken from the record. -/
def sample (a : Intake) : Sample := ⟨a.client, Record.times a.record, a.takenAt⟩

/-- What is read first in the record. -/
def sighting? (a : Intake) : Option Sighting := a.toAdmission.sighting?

end Intake

/-- Some records, each with its look at the clock. -/
def stamped (clock : Clock) : List String → List (String × Instant)
  | [] => []
  | record :: later => (record, clock.now) :: stamped (clock.later 1) later

/-- The intake of a record of a process, if some listener accepts the record. -/
def intake? (addresses : List (Option String)) (pid : Int32) (name : String)
    (stamp : String × Instant) : Option Intake :=
  (admission? addresses pid name stamp.1).map (⟨·, stamp.2⟩)

/-- The intakes of a process. -/
def intakes (addresses : List (Option String)) (clock : Clock) (process : Process) : List Intake :=
  firsts Intake.sighting?
    ((stamped clock process.records).filterMap (intake? addresses process.pid process.name))

/-- The intakes of some processes, one process after the other. -/
def intakesOf (addresses : List (Option String)) (clock : Clock) : List Process → List Intake
  | [] => []
  | process :: later =>
    intakes addresses clock process ++
      intakesOf addresses (clock.later process.records.length) later

/-- The intakes of the processes under a root. -/
def intakesUnder (addresses : List (Option String)) (clock : Clock) (fs : Snapshot) (root : Path) :
    List Intake :=
  intakesOf addresses clock (processes fs root).value

variable {clock : Clock} {now : Instant}

theorem stamped_cons (clock : Clock) (record : String) (later : List String) :
    stamped clock (record :: later) = (record, clock.now) :: stamped (clock.later 1) later := rfl

theorem intake?_eq_some_iff {pid : Int32} {name : String} {stamp : String × Instant} {a : Intake} :
    intake? addresses pid name stamp = some a ↔
      admission? addresses pid name stamp.1 = some a.toAdmission ∧ a.takenAt = stamp.2 := by
  unfold intake?
  rw [Option.map_eq_some_iff]
  constructor
  · rintro ⟨b, hb, rfl⟩
    exact ⟨hb, rfl⟩
  · rintro ⟨ha, htaken⟩
    refine ⟨a.toAdmission, ha, ?_⟩
    rw [← htaken]

theorem isSome_intake?_iff {pid : Int32} {name : String} {stamp : String × Instant} :
    (intake? addresses pid name stamp).isSome ↔ (Hub.claimant? addresses stamp.1).isSome := by
  unfold intake?
  rw [Option.isSome_map, isSome_admission?_iff]

theorem map_fst_stamped (clock : Clock) (records : List String) :
    (stamped clock records).map Prod.fst = records := by
  induction records generalizing clock with
  | nil => rfl
  | cons record later ih => exact congrArg (record :: ·) (ih _)

theorem map_toAdmission_intakes :
    (intakes addresses clock process).map Intake.toAdmission = admissions addresses process := by
  have haccepted : ((stamped clock process.records).filterMap
        (intake? addresses process.pid process.name)).map Intake.toAdmission =
      process.records.filterMap (admission? addresses process.pid process.name) := by
    conv_rhs => rw [← map_fst_stamped clock process.records, List.filterMap_map]
    rw [List.map_filterMap]
    refine List.filterMap_congr fun stamp _ => ?_
    unfold intake?
    rw [Option.map_map]
    exact Option.map_id_apply
  unfold admissions admissionsOf firsts
  rw [← haccepted, ← map_dropSeen]
  rfl

/-- Without the clock, intakes are admissions. -/
theorem map_toAdmission_intakesUnder (addresses : List (Option String)) (clock : Clock)
    (fs : Snapshot) (root : Path) :
    (intakesUnder addresses clock fs root).map Intake.toAdmission =
      admissionsUnder addresses fs root := by
  unfold intakesUnder admissionsUnder
  induction (processes fs root).value generalizing clock with
  | nil => rfl
  | cons process later ih =>
      unfold intakesOf
      rw [List.map_append, map_toAdmission_intakes, ih, List.flatMap_cons]

/-- The clock does not change the origins. -/
theorem map_origin_intakesUnder (addresses : List (Option String)) (clock : Clock) (fs : Snapshot)
    (root : Path) :
    (intakesUnder addresses clock fs root).map (·.origin) =
      (admissionsUnder addresses fs root).map Admission.origin := by
  rw [← map_toAdmission_intakesUnder addresses clock, List.map_map]
  rfl

theorem mem_stamped_still {stamp : String × Instant} {records : List String}
    (h : stamp ∈ stamped (.still now) records) : stamp.2 = now := by
  induction records with
  | nil => exact absurd h List.not_mem_nil
  | cons record later ih =>
      rw [stamped_cons, Clock.later_still, Clock.now_still] at h
      rcases List.mem_cons.mp h with rfl | h
      · rfl
      · exact ih h

/-- All intakes are at the instant that a still clock shows. -/
theorem takenAt_of_mem_intakesUnder {fs : Snapshot} {root : Path} {a : Intake}
    (h : a ∈ intakesUnder addresses (.still now) fs root) : a.takenAt = now := by
  unfold intakesUnder at h
  generalize (processes fs root).value = processes at h
  induction processes with
  | nil => exact absurd h List.not_mem_nil
  | cons process later ih =>
      rcases List.mem_append.mp h with h | h
      · obtain ⟨stamp, hstamp, ha⟩ := List.mem_filterMap.mp ((firsts_sublist _ _).subset h)
        obtain ⟨-, htaken⟩ := intake?_eq_some_iff.mp ha
        exact htaken.trans (mem_stamped_still hstamp)
      · exact ih h

/-- With a still clock, intakes are the admissions at its instant. -/
theorem intakesUnder_still (addresses : List (Option String)) (now : Instant) (fs : Snapshot)
    (root : Path) :
    intakesUnder addresses (.still now) fs root =
      (admissionsUnder addresses fs root).map (⟨·, now⟩) := by
  have hself : ∀ a ∈ intakesUnder addresses (.still now) fs root,
      (⟨a.toAdmission, now⟩ : Intake) = id a := by
    intro a ha
    obtain rfl := takenAt_of_mem_intakesUnder ha
    rfl
  rw [← map_toAdmission_intakesUnder addresses (.still now), List.map_map]
  exact ((List.map_congr_left hself).trans (List.map_id _)).symm

end Sweep

end DrmUsage

-- SUMMARY: When a sweep reports a client twice: exactly if two records of a process that it uses tell the same client of a device.
import Mathlib.Data.List.Dedup
import DrmUsage.Proofs.SweepFindings

/-!
# Repeated clients

A sweep passes a record over by what the record names first, while the cache
knows a client by the listener and the last number that can be read. The two
readings differ where the first number is unreadable or another than the last,
and where a record names no device. So a sweep can use two records of one client
of a device, and this file says when: exactly if some process has two used
records that one listener accepts and that tell the same number (`TellsApart`).
Where both readings agree, there are none.
-/

namespace DrmUsage

namespace Sweep

/-! ## Used records -/

/-- None of some earlier records is accepted and has the sighting of a record, if it has one. -/
def Unseen (addresses : List (Option String)) (earlier : List String) (record : String) : Prop :=
  ∀ r ∈ earlier, (Hub.claimant? addresses r).isSome → sighting? r = sighting? record →
    sighting? record = none

instance (addresses : List (Option String)) (earlier : List String) (record : String) :
    Decidable (Unseen addresses earlier record) :=
  inferInstanceAs (Decidable (∀ r ∈ earlier, (Hub.claimant? addresses r).isSome →
    sighting? r = sighting? record → sighting? record = none))

/-- The record of a process at a place is used, for a listener: the listener accepts it, and no
accepted record before it has its sighting. -/
def UsedAt (addresses : List (Option String)) (records : List String) (k : Nat) (record : String)
    (listener : ListenerId) : Prop :=
  records[k]? = some record ∧ Hub.claimant? addresses record = some listener ∧
    Unseen addresses (records.take k) record

/-- The records of a process that are used for a listener tell different clients. -/
def TellsApart (addresses : List (Option String)) (records : List String) : Prop :=
  ∀ j k r s listener, j < k → UsedAt addresses records j r listener →
    UsedAt addresses records k s listener → Record.lastClientId? r ≠ Record.lastClientId? s

/-- The used records of every process under a root tell different clients, listener by listener. -/
def AllApart (addresses : List (Option String)) (fs : Snapshot) (root : Path) : Prop :=
  ∀ process ∈ (processes fs root).value, TellsApart addresses process.records

variable {addresses : List (Option String)} {records : List String}

theorem UsedAt.lt_length {k : Nat} {record : String} {listener : ListenerId}
    (h : UsedAt addresses records k record listener) : k < records.length :=
  (List.getElem?_eq_some_iff.mp h.1).1

theorem usedAt_concat_iff {last record : String} {k : Nat} {listener : ListenerId} :
    UsedAt addresses (records ++ [last]) k record listener ↔
      UsedAt addresses records k record listener ∨
        k = records.length ∧ record = last ∧ Hub.claimant? addresses last = some listener ∧
          Unseen addresses records last := by
  rcases Nat.lt_trichotomy k records.length with hlt | rfl | hgt
  · have hget : (records ++ [last])[k]? = records[k]? := List.getElem?_append_left hlt
    have htake : (records ++ [last]).take k = records.take k :=
      List.take_append_of_le_length (Nat.le_of_lt hlt)
    unfold UsedAt
    rw [hget, htake]
    exact ⟨Or.inl, fun h => h.elim id (fun h => absurd h.1 (Nat.ne_of_lt hlt))⟩
  · have hget : (records ++ [last])[records.length]? = some last := List.getElem?_concat_length
    have htake : (records ++ [last]).take records.length = records := List.take_left
    constructor
    · rintro ⟨h, hclaim, hunseen⟩
      obtain rfl := Option.some.inj (hget.symm.trans h)
      rw [htake] at hunseen
      exact Or.inr ⟨rfl, rfl, hclaim, hunseen⟩
    · rintro (h | ⟨-, rfl, hclaim, hunseen⟩)
      · exact absurd h.lt_length (Nat.lt_irrefl _)
      · exact ⟨hget, hclaim, htake.symm ▸ hunseen⟩
  · constructor
    · intro h
      have hlt := h.lt_length
      rw [List.length_append, List.length_singleton] at hlt
      omega
    · rintro (h | ⟨rfl, -⟩)
      · exact absurd h.lt_length (Nat.lt_asymm hgt)
      · exact absurd hgt (Nat.lt_irrefl _)

variable {pid : Int32} {name : String}

theorem fresh_filterMap_iff {a : Admission} :
    Fresh Admission.sighting? (records.filterMap (admission? addresses pid name)) a ↔
      Unseen addresses records a.record := by
  constructor
  · intro h r hr hclaim hsighting
    have hsome : (admission? addresses pid name r).isSome := isSome_admission?_iff.mpr hclaim
    obtain ⟨b, hb⟩ := Option.isSome_iff_exists.mp hsome
    obtain ⟨-, -, -, rfl⟩ := admission?_eq_some_iff.mp hb
    exact h b (List.mem_filterMap.mpr ⟨b.record, hr, hb⟩) hsighting
  · intro h b hb hsighting
    obtain ⟨r, hr, hb⟩ := List.mem_filterMap.mp hb
    obtain ⟨hclaim, -, -, rfl⟩ := admission?_eq_some_iff.mp hb
    exact h b.record hr (Option.isSome_of_eq_some hclaim) hsighting

private theorem admissionsOf_concat_of_none {last : String}
    (h : Hub.claimant? addresses last = none) :
    admissionsOf addresses pid name (records ++ [last]) =
      admissionsOf addresses pid name records := by
  have hnone : admission? addresses pid name last = none := by
    rw [← Option.not_isSome_iff_eq_none, isSome_admission?_iff, h]
    exact Bool.false_ne_true
  unfold admissionsOf
  rw [List.filterMap_append, List.filterMap_cons_none hnone, List.filterMap_nil, List.append_nil]

private theorem admissionsOf_concat_of_some {a : Admission}
    (h : admission? addresses pid name a.record = some a) :
    admissionsOf addresses pid name (records ++ [a.record]) =
      admissionsOf addresses pid name records ++
        if Unseen addresses records a.record then [a] else [] := by
  unfold admissionsOf
  rw [List.filterMap_append, List.filterMap_cons_some h, List.filterMap_nil, firsts_concat]
  simp only [fresh_filterMap_iff]

/-- A record that is used adds its admission. -/
private theorem admissionsOf_concat (pid : Int32) (name : String) (records : List String)
    {last : String} {listener : ListenerId}
    (hclaim : Hub.claimant? addresses last = some listener) :
    ∃ a : Admission, a.listener = listener ∧ a.pid = pid ∧ a.record = last ∧
      admissionsOf addresses pid name (records ++ [last]) =
        admissionsOf addresses pid name records ++
          if Unseen addresses records last then [a] else [] := by
  have hsome : (admission? addresses pid name last).isSome :=
    isSome_admission?_iff.mpr (Option.isSome_of_eq_some hclaim)
  obtain ⟨a, ha⟩ := Option.isSome_iff_exists.mp hsome
  obtain ⟨hlistener, hpid, -, rfl⟩ := admission?_eq_some_iff.mp ha
  exact ⟨a, Option.some.inj (hlistener.symm.trans hclaim), hpid, rfl,
    admissionsOf_concat_of_some ha⟩

/-- The origins of the admissions of a process are those of its used records. -/
theorem mem_origins_iff {o : Origin} :
    o ∈ (admissionsOf addresses pid name records).map Admission.origin ↔
      o.2.pid = pid ∧ ∃ k record, UsedAt addresses records k record o.1 ∧
        Record.lastClientId? record = some o.2.id := by
  induction records using List.reverseRecOn with
  | nil =>
      constructor
      · intro h
        exact absurd h List.not_mem_nil
      · rintro ⟨-, k, record, hused, -⟩
        exact absurd hused.lt_length (Nat.not_lt_zero k)
  | append_singleton records last ih =>
      simp only [usedAt_concat_iff]
      cases hclaim : Hub.claimant? addresses last with
      | none =>
          rw [admissionsOf_concat_of_none hclaim, ih]
          simp only [reduceCtorEq, false_and, and_false, or_false]
      | some listener =>
          obtain ⟨a, rfl, rfl, rfl, hconcat⟩ := admissionsOf_concat pid name records hclaim
          rw [hconcat, List.map_append, List.mem_append, ih]
          by_cases hunseen : Unseen addresses records a.record
          · rw [if_pos hunseen, List.map_singleton, List.mem_singleton]
            constructor
            · rintro (⟨hpid, k, record, hused, htold⟩ | rfl)
              · exact ⟨hpid, k, record, Or.inl hused, htold⟩
              · exact ⟨rfl, _, a.record, Or.inr ⟨rfl, rfl, rfl, hunseen⟩, a.told⟩
            · rintro ⟨hpid, k, record, hused | ⟨-, rfl, hlistener, -⟩, htold⟩
              · exact Or.inl ⟨hpid, k, record, hused, htold⟩
              · right
                obtain ⟨i, c, p⟩ := o
                obtain rfl := Option.some.inj hlistener
                obtain rfl := Option.some.inj (a.told.symm.trans htold)
                obtain rfl : p = a.pid := hpid
                rfl
          · simp only [hunseen, if_false, List.map_nil, List.not_mem_nil, and_false, or_false]

/-- No two admissions of a process have one origin exactly if its records tell clients apart. -/
theorem nodup_origins_iff :
    ((admissionsOf addresses pid name records).map Admission.origin).Nodup ↔
      TellsApart addresses records := by
  induction records using List.reverseRecOn with
  | nil =>
      refine ⟨fun _ => ?_, fun _ => List.nodup_nil⟩
      intro j k r s listener _ hused
      exact absurd hused.lt_length (Nat.not_lt_zero j)
  | append_singleton records last ih =>
      cases hclaim : Hub.claimant? addresses last with
      | none =>
          rw [admissionsOf_concat_of_none hclaim, ih]
          unfold TellsApart
          simp only [usedAt_concat_iff, hclaim, reduceCtorEq, false_and, and_false, or_false]
      | some listener =>
          obtain ⟨a, rfl, rfl, rfl, hconcat⟩ := admissionsOf_concat pid name records hclaim
          rw [hconcat]
          by_cases hunseen : Unseen addresses records a.record
          · rw [if_pos hunseen, List.map_append, List.map_singleton, ← List.concat_eq_append,
              List.nodup_concat, ih, mem_origins_iff]
            constructor
            · rintro ⟨hnew, happart⟩ j k r s listener hjk hj hk
              rcases usedAt_concat_iff.mp hj with hj | ⟨rfl, -⟩
              · rcases usedAt_concat_iff.mp hk with hk | ⟨-, rfl, hlistener, -⟩
                · exact happart j k r s listener hjk hj hk
                · obtain rfl := Option.some.inj (hclaim.symm.trans hlistener)
                  intro hsame
                  exact hnew ⟨rfl, j, r, hj, hsame.trans a.told⟩
              · -- Nothing stands behind the last record.
                rcases usedAt_concat_iff.mp hk with hk | ⟨rfl, -⟩
                · exact absurd hk.lt_length (Nat.lt_asymm hjk)
                · exact absurd hjk (Nat.lt_irrefl _)
            · intro happart
              constructor
              · rintro ⟨-, k, record, hused, htold⟩
                exact happart k records.length record a.record a.listener hused.lt_length
                  (usedAt_concat_iff.mpr (Or.inl hused))
                  (usedAt_concat_iff.mpr (Or.inr ⟨rfl, rfl, hclaim, hunseen⟩))
                  (htold.trans a.told.symm)
              · intro j k r s listener hjk hj hk
                exact happart j k r s listener hjk (usedAt_concat_iff.mpr (Or.inl hj))
                  (usedAt_concat_iff.mpr (Or.inl hk))
          · rw [if_neg hunseen, List.append_nil, ih]
            unfold TellsApart
            simp only [usedAt_concat_iff, hunseen, and_false, or_false]

/-- Two processes have different clients, so it is each process by itself that counts. -/
theorem nodup_origins_of_processes_iff {processes : List Process}
    (hpids : (processes.map (·.pid)).Nodup) :
    ((processes.flatMap (admissions addresses)).map Admission.origin).Nodup ↔
      ∀ process ∈ processes, TellsApart addresses process.records := by
  rw [List.map_flatMap, List.nodup_flatMap]
  constructor
  · rintro ⟨hnodup, -⟩ process hprocess
    exact nodup_origins_iff.mp (hnodup process hprocess)
  · intro happart
    refine ⟨fun process hprocess => nodup_origins_iff.mpr (happart process hprocess), ?_⟩
    refine (List.pairwise_map.mp hpids).imp ?_
    intro p q hne o hp hq
    exact hne ((mem_origins_iff.mp hp).1.symm.trans (mem_origins_iff.mp hq).1)

end Sweep

namespace Hub

open Sweep (Origin Admission Intake)

variable {hub : Hub IntelGpu} {as : List Intake}

/-! ## Refusals -/

/-- No sample is refused exactly if the intakes have different origins, none of which was in the
running cycle. -/
theorem OfIntel.refusals_eq_nil_iff (hI : hub.OfIntel) (h : hub.Serves as) :
    hub.refusals as = [] ↔
      (∀ a ∈ as, hub.current? a.origin = none) ∧ (as.map (·.origin)).Nodup := by
  induction as generalizing hub with
  | nil => simp
  | cons a as ih =>
      obtain ⟨ha, has⟩ := List.forall_mem_cons.mp h
      have hnow : (if (hub.current? a.origin).isSome then [a.client] else []) = [] ↔
          hub.current? a.origin = none := by
        rw [← Option.not_isSome_iff_eq_none, ite_eq_right_iff]
        exact imp_congr_right fun _ => iff_false_intro (List.cons_ne_nil _ _)
      rw [refusals_cons, List.append_eq_nil_iff, hnow,
        ih (hI.takeIn a) (hI.serves_takeIn has a), List.map_cons, List.nodup_cons,
        List.forall_mem_cons]
      simp only [hI.current?_takeIn_eq_none_iff ha, List.mem_map, not_exists, not_and]
      constructor
      · rintro ⟨hfirst, hall, hnodup⟩
        exact ⟨⟨hfirst, fun b hb => (hall b hb).1⟩, fun b hb e => (hall b hb).2 e.symm, hnodup⟩
      · rintro ⟨⟨hfirst, hall⟩, hnew, hnodup⟩
        exact ⟨hfirst, fun b hb => ⟨hall b hb, fun e => hnew b hb e.symm⟩, hnodup⟩

/-! ## Counts -/

/-- The clients that some intakes bring to a listener. -/
def clientsOf (id : ListenerId) (as : List Intake) : List Client :=
  (as.filter (·.listener = id)).map (·.client)

theorem mem_clientsOf_iff {id : ListenerId} {c : Client} :
    c ∈ clientsOf id as ↔ ∃ a ∈ as, a.origin = (id, c) := by
  unfold clientsOf Admission.origin
  simp only [List.mem_map, List.mem_filter, decide_eq_true_eq, Prod.mk.injEq, and_assoc]

/-- A listener without a GPU accepts nothing. -/
theorem OfIntel.clientsOf_eq_nil (hI : hub.OfIntel) (h : hub.Serves as) {id : ListenerId}
    (hid : ¬ id.index < hub.size) : clientsOf id as = [] := by
  refine List.eq_nil_iff_forall_not_mem.mpr ?_
  intro c hc
  obtain ⟨a, ha, horigin⟩ := mem_clientsOf_iff.mp hc
  obtain rfl := (Prod.mk.inj horigin).1
  exact hid (hI.isSome_gpu?_iff.mp (h a ha))

theorem length_filter_findings (id : ListenerId) :
    ((hub.findings as).filter (·.listener = id)).length = (clientsOf id as).length := by
  unfold clientsOf
  rw [List.length_map]
  induction as generalizing hub with
  | nil => rfl
  | cons a as ih =>
      have hlistener : (hub.finding a).listener = a.listener := rfl
      simp only [findings_cons, List.filter_cons, hlistener]
      split
      · rw [List.length_cons, List.length_cons, ih]
      · exact ih

/-- Origins are different exactly if the clients of each listener are. -/
theorem nodup_origins_iff_nodup_clientsOf :
    (as.map (·.origin)).Nodup ↔ ∀ id, (clientsOf id as).Nodup := by
  unfold clientsOf List.Nodup
  simp only [List.pairwise_map, List.pairwise_filter, decide_eq_true_eq]
  simp only [List.pairwise_iff_forall_sublist]
  constructor
  · intro h id a b hab ha hb hclient
    exact h hab (Prod.ext (ha.trans hb.symm) hclient)
  · intro h a b hab horigin
    exact h b.listener hab (Prod.mk.inj horigin).1 rfl (Prod.mk.inj horigin).2

/-- A generation has as many samples as there are different clients. -/
theorem length_eq_size_iff {generation : Generation} {clients : List Client}
    (h : ∀ c, c ∈ generation ↔ c ∈ clients) :
    clients.length = generation.size ↔ clients.Nodup := by
  have hperm : generation.keys.Perm clients.dedup := by
    refine (List.perm_ext_iff_of_nodup Std.ExtTreeMap.nodup_keys (List.nodup_dedup clients)).mpr ?_
    intro c
    rw [Std.ExtTreeMap.mem_keys, h, List.mem_dedup]
  rw [← Std.ExtTreeMap.length_keys, hperm.length_eq]
  constructor
  · intro hlength
    rw [← List.dedup_eq_self]
    exact (List.dedup_sublist clients).eq_of_length hlength.symm
  · intro hnodup
    rw [List.dedup_eq_self.mpr hnodup]

/-! ## The whole sweep -/

variable {fs : Snapshot} {root : Path} {clock : Clock}

/-- Where the accepted records name their devices and the number that is read first is the one that
is read last, used records are of different clients. -/
theorem tellsApart_of_agree {records : List String}
    (h : ∀ record ∈ records, (claimant? hub.addresses record).isSome →
      (Record.pdev? record).isSome ∧ Record.clientId? record = Record.lastClientId? record) :
    Sweep.TellsApart hub.addresses records := by
  -- What is read first is told by the listener and the number that is read last.
  have hsighting : ∀ record ∈ records, ∀ id gpu, claimant? hub.addresses record = some id →
      hub.gpu? id = some gpu →
      Sweep.sighting? record = (Record.lastClientId? record).map (some gpu.pdev, ·) := by
    intro record hrecord id gpu hclaim hgpu
    obtain ⟨hpdev, hid⟩ := h record hrecord (Option.isSome_of_eq_some hclaim)
    obtain ⟨⟨g, hg, hbelongs, -⟩, -⟩ := claimant?_eq_some_iff.mp hclaim
    obtain rfl := Option.some.inj (hgpu.symm.trans hg)
    obtain ⟨address, haddress⟩ := Option.isSome_iff_exists.mp hpdev
    have hmem : address ∈ Record.values Record.pdevKey record := by
      apply List.mem_of_head?
      rw [← Record.firstValue?_eq_head?]
      exact haddress
    obtain rfl := hbelongs address hmem
    unfold Sweep.sighting?
    rw [hid, haddress]
  rintro j k r s listener hjk ⟨hj, hclaim, -⟩ ⟨hk, hclaim', hunseen⟩ hsame
  obtain ⟨⟨gpu, hgpu, -⟩, -⟩ := claimant?_eq_some_iff.mp hclaim
  have hr := hsighting r (List.mem_of_getElem? hj) listener gpu hclaim hgpu
  have hs := hsighting s (List.mem_of_getElem? hk) listener gpu hclaim' hgpu
  have htake : r ∈ records.take k := by
    refine List.mem_of_getElem? (i := j) ?_
    rw [List.getElem?_take_of_lt hjk, hj]
  have hnone := hunseen r htake (Option.isSome_of_eq_some hclaim) (by rw [hr, hs, hsame])
  obtain ⟨id, hid⟩ :=
    Option.isSome_iff_exists.mp (Sweep.isSome_lastClientId?_of_claimant? hclaim')
  rw [hs, hid] at hnone
  exact Option.some_ne_none _ hnone

/-- After a sweep, a GPU's cache holds the clients of its intakes. -/
theorem OfIntel.mem_previous_run_iff (hI : hub.OfIntel) (hidle : hub.Idle) {id : ListenerId}
    {gpu : IntelGpu} (hgpu : (Sweep.run fs root clock hub).value.2.gpu? id = some gpu)
    (c : Client) :
    c ∈ gpu.cache.previous ↔ c ∈ clientsOf id (Sweep.intakesUnder hub.addresses clock fs root) := by
  have hlook : gpu.cache.previous[c]? =
      (Sweep.run fs root clock hub).value.2.previous? (id, c) := by
    unfold previous?
    rw [hgpu, Option.bind_some]
  rw [Std.ExtTreeMap.mem_iff_isSome_getElem?, hlook, hI.value_run,
    (hI.takeInAll ..).previous?_closeCycle,
    hI.current?_takeInAll (serves_intakesUnder hub clock fs root), hidle.current?, Option.none_or,
    Option.isSome_map, mem_clientsOf_iff]
  unfold firstFrom
  rw [List.find?_isSome]
  simp only [decide_eq_true_eq]

/-- A sweep over idle GPUs reports each client of each listener at most once, refuses no sample,
and reports as many clients of a GPU as its cache has samples, each exactly if the used records of
every process tell different clients. They do where every accepted record names its device and its
first number is the last that can be read. -/
theorem OfIntel.reported_once_iff (hI : hub.OfIntel) (hidle : hub.Idle)
    (hpids : ((Sweep.processes fs root).value.map (·.pid)).Nodup) (clock : Clock) :
    ((∀ client, .duplicateIgnored client ∉ (Sweep.run fs root clock hub).events) ↔
      Sweep.AllApart hub.addresses fs root) ∧
    (((Sweep.run fs root clock hub).value.1.map Finding.origin?).Nodup ↔
      Sweep.AllApart hub.addresses fs root) ∧
    ((∀ id gpu, (Sweep.run fs root clock hub).value.2.gpu? id = some gpu →
        ((Sweep.run fs root clock hub).value.1.filter (·.listener = id)).length =
          gpu.cache.previous.size) ↔
      Sweep.AllApart hub.addresses fs root) ∧
    ((∀ process ∈ (Sweep.processes fs root).value, ∀ record ∈ process.records,
        (claimant? hub.addresses record).isSome →
        (Record.pdev? record).isSome ∧ Record.clientId? record = Record.lastClientId? record) →
      Sweep.AllApart hub.addresses fs root) := by
  have hserves := serves_intakesUnder hub clock fs root
  have hnodup : ((Sweep.intakesUnder hub.addresses clock fs root).map (·.origin)).Nodup ↔
      Sweep.AllApart hub.addresses fs root := by
    rw [Sweep.map_origin_intakesUnder]
    exact Sweep.nodup_origins_of_processes_iff hpids
  have hperm := hI.perm_run fs root clock
  refine ⟨?refused, ?reported, ?counted, ?agree⟩
  case refused =>
    rw [← hnodup]
    rw [Event.forall_duplicateIgnored_not_mem_iff, hI.refusals_run,
      hI.refusals_eq_nil_iff hserves]
    exact and_iff_right (fun a _ => hidle.current? a.origin)
  case reported =>
    rw [← hnodup, (hperm.map _).nodup_iff, map_origin?_findings,
      List.nodup_map_iff (fun _ _ h => Option.some.inj h)]
  case counted =>
    rw [← hnodup, nodup_origins_iff_nodup_clientsOf]
    have hcount : ∀ id, ((Sweep.run fs root clock hub).value.1.filter (·.listener = id)).length =
        (clientsOf id (Sweep.intakesUnder hub.addresses clock fs root)).length := by
      intro id
      rw [(hperm.filter _).length_eq, length_filter_findings]
    have hsize : ∀ id gpu, (Sweep.run fs root clock hub).value.2.gpu? id = some gpu →
        (((Sweep.run fs root clock hub).value.1.filter (·.listener = id)).length =
            gpu.cache.previous.size ↔
          (clientsOf id (Sweep.intakesUnder hub.addresses clock fs root)).Nodup) := by
      intro id gpu hgpu
      rw [hcount]
      exact length_eq_size_iff (hI.mem_previous_run_iff hidle hgpu)
    constructor
    · intro h id
      cases hgpu : (Sweep.run fs root clock hub).value.2.gpu? id with
      | some gpu => exact (hsize id gpu hgpu).mp (h id gpu hgpu)
      | none =>
          have hlt : ¬ id.index < hub.size := by
            unfold size
            rw [← hI.listeners_run fs root clock, ← size, ← (hI.run fs root clock).isSome_gpu?_iff,
              hgpu]
            exact Bool.false_ne_true
          rw [hI.clientsOf_eq_nil hserves hlt]
          exact List.nodup_nil
    · intro h id gpu hgpu
      exact (hsize id gpu hgpu).mpr (h id)
  case agree =>
    intro h process hprocess
    exact tellsApart_of_agree (h process hprocess)

theorem idle_ofGpus {gpus : List IntelGpu} (h : ∀ gpu ∈ gpus, gpu.cache.current = ∅) :
    (ofGpus gpus).Idle :=
  fun _ gpu hgpu => h gpu (mem_of_gpu?_ofGpus hgpu)

/-- A process with a duplicated descriptor. Its client has one number. -/
def duplicated : Snapshot :=
  .ofProcess "7" [("3", "drm-pdev:\t0000:00:02.0\ndrm-client-id:\t5\n"),
    ("4", "drm-pdev:\t0000:00:02.0\ndrm-client-id:\t5\n")]

theorem reported_once_duplicated :
    ((Sweep.run duplicated ⟨"/proc"⟩ ⟨fun k => ⟨k⟩⟩ (ofGpus [.at "0000:00:02.0"])).value.1.map
      Finding.origin?).Nodup := by
  have hidle : (ofGpus [.at "0000:00:02.0"]).Idle := by
    apply idle_ofGpus
    intro gpu hgpu
    rw [List.mem_singleton.mp hgpu]
    rfl
  have hpids : ((Sweep.processes duplicated ⟨"/proc"⟩).value.map (·.pid)).Nodup := by
    decide +kernel
  obtain ⟨-, hreported, -, hagree⟩ :=
    (ofIntel_ofGpus [.at "0000:00:02.0"]).reported_once_iff hidle hpids ⟨fun k => ⟨k⟩⟩
  exact hreported.mpr (hagree (by decide +kernel))

/-- A process with a duplicated descriptor. The first number in its records cannot be read, so
nothing is known of them when they are offered. -/
def misnumbered : Snapshot :=
  .ofProcess "7" [("3", "drm-pdev:\t0000:00:02.0\ndrm-client-id:\tx\ndrm-client-id:\t1\n"),
    ("4", "drm-pdev:\t0000:00:02.0\ndrm-client-id:\tx\ndrm-client-id:\t1\n")]

/-- Such a client is reported twice. -/
theorem reported_twice_misnumbered :
    (ofGpus [.at "0000:00:02.0"]).OfIntel ∧ (ofGpus [.at "0000:00:02.0"]).Idle ∧
      ((Sweep.processes misnumbered ⟨"/proc"⟩).value.map (·.pid)).Nodup ∧
      (Sweep.run misnumbered ⟨"/proc"⟩ (.still ⟨0⟩) (ofGpus [.at "0000:00:02.0"])).events =
        [.duplicateIgnored ⟨1, 7⟩] ∧
      (Sweep.run misnumbered ⟨"/proc"⟩ (.still ⟨0⟩)
        (ofGpus [.at "0000:00:02.0"])).value.1.length = 2 ∧
      (∀ f ∈ (Sweep.run misnumbered ⟨"/proc"⟩ (.still ⟨0⟩) (ofGpus [.at "0000:00:02.0"])).value.1,
        f.origin? = some (⟨0⟩, ⟨1, 7⟩)) ∧
      ((Sweep.run misnumbered ⟨"/proc"⟩ (.still ⟨0⟩)
          (ofGpus [.at "0000:00:02.0"])).value.2.gpu? ⟨0⟩).map (·.cache.previous.size) =
        some 1 := by
  have hperm := (ofIntel_ofGpus [.at "0000:00:02.0"]).perm_run misnumbered ⟨"/proc"⟩ (.still ⟨0⟩)
  refine ⟨ofIntel_ofGpus _, idle_ofGpus ?_, ?_, ?_, ?_, ?_, ?_⟩
  · intro gpu hgpu
    rw [List.mem_singleton.mp hgpu]
    rfl
  · decide +kernel
  · decide +kernel
  · rw [hperm.length_eq]
    decide +kernel
  · intro f hf
    revert f
    simp only [hperm.mem_iff]
    decide +kernel
  · decide +kernel

end Hub

end DrmUsage

-- SUMMARY: What a hub of Intel GPUs does with a record and at the end of a cycle, told by the GPU of each listener.
import Mathlib.Data.List.Nodup
import Mathlib.Logic.Function.Iterate
import DrmUsage.Proofs.CacheHistory
import DrmUsage.Proofs.RecordLoop

/-!
# Hubs of Intel GPUs

A hub whose listeners are attached to different Intel GPUs. Which listener takes
a record follows from the text of the record and the addresses of the GPUs
(`claimant?`); no record changes an address. Taking a record in is one `keep` in
the cache of one GPU, and the end of a cycle closes every cache once.
-/

namespace DrmUsage

/-! ## One GPU -/

/-- The GPU at an address accepts a record: no other address is in it, and it tells a client. -/
def Record.Concerns (pdev record : String) : Prop :=
  Record.Belongs pdev record ∧ (Record.lastClientId? record).isSome

instance (pdev record : String) : Decidable (Record.Concerns pdev record) :=
  inferInstanceAs (Decidable (_ ∧ _))

namespace IntelGpu

/-- The GPU after a sample was offered to its cache. -/
def keep (gpu : IntelGpu) (sample : Sample) : IntelGpu :=
  { gpu with cache := gpu.cache.keep sample }

/-- What the cache makes of a client's times is what the GPU reports and keeps. -/
theorem value_accept_eq_record (gpu : IntelGpu) (client : Client) (times : BusyTimes)
    (now : Instant) (usage : Usage) :
    (gpu.accept client times now usage).value =
      ⟨true, (gpu.cache.record client times now usage).usage,
        { gpu with cache := (gpu.cache.record client times now usage).cache }⟩ := rfl

theorem value_accept (gpu : IntelGpu) (client : Client) (times : BusyTimes) (now : Instant)
    (usage : Usage) :
    (gpu.accept client times now usage).value =
      ⟨true, gpu.cache.report ⟨client, times, now⟩ usage, gpu.keep ⟨client, times, now⟩⟩ := by
  rw [value_accept_eq_record, keep, ← SampleCache.cache_record _ _ usage,
    ← SampleCache.usage_record]

theorem events_accept (gpu : IntelGpu) (client : Client) (times : BusyTimes) (now : Instant)
    (usage : Usage) :
    (gpu.accept client times now usage).events =
      if client ∈ gpu.cache.current then [.duplicateIgnored client] else [] := by
  unfold accept
  by_cases h : client ∈ gpu.cache.current
  · rw [SampleCache.record_of_mem h, if_pos h]
    rfl
  · rw [SampleCache.record_of_not_mem h, if_neg h]
    rfl

/-- A record of another GPU or without a client is rejected without a trace. -/
theorem readRecord_of_not_concerns {gpu : IntelGpu} {record : String}
    (h : ¬ Record.Concerns gpu.pdev record) (now : Instant) (usage : Usage) :
    readRecord now record usage gpu = pure (.rejected usage gpu) := by
  rw [readRecord_eq, Record.ofLines?_eq]
  by_cases hb : Record.Belongs gpu.pdev record
  · rw [if_pos hb]
    have hid : Record.lastClientId? record = none := by
      rw [← Option.not_isSome_iff_eq_none]
      exact fun hid => h ⟨hb, hid⟩
    rw [hid]
    rfl
  · rw [if_neg hb]
    rfl

/-- Any other record is taken into the cache under the client that it tells. -/
theorem readRecord_of_belongs {gpu : IntelGpu} {record : String} {id : UInt32}
    (hb : Record.Belongs gpu.pdev record) (hid : Record.lastClientId? record = some id)
    (now : Instant) (usage : Usage) :
    readRecord now record usage gpu =
      gpu.accept ⟨id, usage.pid⟩ (Record.times record) now
        (usage.withTimes (Record.times record)) := by
  rw [readRecord_eq, Record.ofLines?_eq, if_pos hb, hid]
  rfl

end IntelGpu

/-! ## Pools -/

namespace Pool

variable {δ : Type}

theorem set_of_get? {pool : Pool δ} {h : Handle} {d : δ} (hd : pool.get? h = some d) :
    pool.set h d = pool := by
  apply ext_get?
  intro i
  rw [get?_set]
  split
  · rename_i e
    rw [← e, hd]
    rfl
  · rfl

theorem set_eq_modify {pool : Pool δ} {h : Handle} {d : δ} (hd : pool.get? h = some d)
    (f : δ → δ) : pool.set h (f d) = pool.modify h f := by
  apply ext_get?
  intro i
  rw [get?_set, get?_modify]
  split
  · rename_i e
    rw [← e, hd]
    rfl
  · rfl

end Pool

/-! ## Offers -/

namespace Listener

theorem offerRecord_of_not_concerns {l : Listener IntelGpu} {pool : Pool IntelGpu} {record : String}
    (hreader : l.reader = HasIntel.read)
    (h : ∀ gpu, pool.get? l.device = some gpu → ¬ Record.Concerns gpu.pdev record)
    (now : Instant) (usage : Usage) :
    l.offerRecord now record usage pool = pure (.rejected usage pool) := by
  cases hd : pool.get? l.device with
  | none => rw [offerRecord_of_none hd]
  | some gpu =>
      rw [offerRecord_of_some hd, hreader, HasIntel.read_intelGpu, ← IntelGpu.readRecord,
        IntelGpu.readRecord_of_not_concerns (h gpu hd)]
      simp only [map_pure, Outcome.map, Outcome.rejected, Pool.set_of_get? hd]

theorem offerRecord_of_belongs {l : Listener IntelGpu} {pool : Pool IntelGpu} {gpu : IntelGpu}
    {record : String} {id : UInt32} (hreader : l.reader = HasIntel.read)
    (hd : pool.get? l.device = some gpu) (hb : Record.Belongs gpu.pdev record)
    (hid : Record.lastClientId? record = some id) (now : Instant) (usage : Usage) :
    l.offerRecord now record usage pool =
      (·.map (pool.set l.device)) <$>
        gpu.accept ⟨id, usage.pid⟩ (Record.times record) now
          (usage.withTimes (Record.times record)) := by
  rw [offerRecord_of_some hd, hreader, HasIntel.read_intelGpu, ← IntelGpu.readRecord,
    IntelGpu.readRecord_of_belongs hb hid]

end Listener

namespace Hub

/-- Where nobody accepts a record, nothing happens to the devices. -/
theorem offerInTurn_of_not_concerns {listeners : List (Listener IntelGpu)} {pool : Pool IntelGpu}
    {record : String} (hreader : ∀ l ∈ listeners, l.reader = HasIntel.read)
    (h : ∀ l ∈ listeners, ∀ gpu, pool.get? l.device = some gpu → ¬ Record.Concerns gpu.pdev record)
    (now : Instant) (usage : Usage) :
    offerInTurn now record usage listeners pool = pure (none, pool) := by
  induction listeners with
  | nil => rfl
  | cons l later ih =>
      have hrest := ih (fun m hm => hreader m (List.mem_cons_of_mem _ hm))
        (fun m hm => h m (List.mem_cons_of_mem _ hm))
      unfold offerInTurn
      rw [Listener.offerRecord_of_not_concerns (hreader l List.mem_cons_self)
        (h l List.mem_cons_self)]
      simp only [Outcome.rejected, pure_bind, Bool.false_eq_true, if_false, hrest, Option.map_none]

/-- The first who accepts a record gets it, and the others behind do not see it. -/
theorem offerInTurn_of_belongs {before later : List (Listener IntelGpu)} {l : Listener IntelGpu}
    {pool : Pool IntelGpu} {gpu : IntelGpu} {record : String} {id : UInt32}
    (hreader : ∀ m ∈ before ++ l :: later, m.reader = HasIntel.read)
    (h : ∀ m ∈ before, ∀ gpu, pool.get? m.device = some gpu → ¬ Record.Concerns gpu.pdev record)
    (hd : pool.get? l.device = some gpu) (hb : Record.Belongs gpu.pdev record)
    (hid : Record.lastClientId? record = some id) (now : Instant) (usage : Usage) :
    offerInTurn now record usage (before ++ l :: later) pool =
      (fun answer => (some (before.length, answer.usage), pool.set l.device answer.state)) <$>
        gpu.accept ⟨id, usage.pid⟩ (Record.times record) now
          (usage.withTimes (Record.times record)) := by
  induction before with
  | nil =>
      have haccepted : (gpu.accept ⟨id, usage.pid⟩ (Record.times record) now
          (usage.withTimes (Record.times record))).value.accepted = true := by
        rw [IntelGpu.value_accept]
      rw [List.nil_append]
      unfold offerInTurn
      rw [Listener.offerRecord_of_belongs (hreader l List.mem_cons_self) hd hb hid, bind_map_left,
        ← bind_pure_comp]
      apply Logged.bind_congr_value
      simp only [Outcome.map, haccepted, if_true, List.length_nil]
  | cons m before ih =>
      have hrest := ih (fun k hk => hreader k (List.mem_cons_of_mem _ hk))
        (fun k hk => h k (List.mem_cons_of_mem _ hk))
      rw [List.cons_append]
      unfold offerInTurn
      rw [Listener.offerRecord_of_not_concerns (hreader m List.mem_cons_self)
        (h m List.mem_cons_self)]
      simp only [Outcome.rejected, pure_bind, Bool.false_eq_true, if_false, hrest, bind_pure_comp,
        Functor.map_map, Option.map_some, List.length_cons]

/-! ## Listeners and their GPUs -/

/-- The GPU that a listener is attached to. -/
def gpu? (hub : Hub IntelGpu) (id : ListenerId) : Option IntelGpu :=
  (hub.deviceOf? id).bind hub.device?

/-- The listeners of a hub read records for Intel GPUs, each for another one. -/
structure OfIntel (hub : Hub IntelGpu) : Prop where
  reader : ∀ l ∈ hub.listeners, l.reader = HasIntel.read
  present : ∀ l ∈ hub.listeners, (hub.device? l.device).isSome
  distinct : (hub.listeners.map (·.device)).Nodup

/-- The addresses of the GPUs, listener by listener. -/
def addresses (hub : Hub IntelGpu) : List (Option String) :=
  hub.listeners.map fun l => (hub.device? l.device).map (·.pdev)

/-- The first listener whose GPU accepts a record. -/
def claimant? (addresses : List (Option String)) (record : String) : Option ListenerId :=
  (addresses.findIdx? fun address => address.any (Record.Concerns · record)).map ListenerId.mk

variable {hub : Hub IntelGpu}

theorem ext_device? {hub hub' : Hub IntelGpu} (hlisteners : hub.listeners = hub'.listeners)
    (hdevices : ∀ h, hub.device? h = hub'.device? h) : hub = hub' := by
  cases hub
  cases hub'
  exact congrArg₂ Hub.mk (Pool.ext_get? hdevices) hlisteners

theorem gpu?_of_getElem? {i : Nat} {l : Listener IntelGpu} (hl : hub.listeners[i]? = some l) :
    hub.gpu? ⟨i⟩ = hub.device? l.device := by
  unfold gpu? deviceOf?
  rw [hl]
  rfl

theorem exists_listener_of_gpu? {id : ListenerId} {gpu : IntelGpu} (h : hub.gpu? id = some gpu) :
    ∃ l, hub.listeners[id.index]? = some l ∧ hub.device? l.device = some gpu := by
  unfold gpu? deviceOf? at h
  cases hl : hub.listeners[id.index]? with
  | none =>
      rw [hl] at h
      exact absurd h (Option.some_ne_none gpu).symm
  | some l =>
      rw [hl] at h
      exact ⟨l, rfl, h⟩

theorem OfIntel.isSome_gpu?_iff (hI : hub.OfIntel) {id : ListenerId} :
    (hub.gpu? id).isSome ↔ id.index < hub.size := by
  constructor
  · intro h
    obtain ⟨gpu, hgpu⟩ := Option.isSome_iff_exists.mp h
    obtain ⟨l, hl, -⟩ := exists_listener_of_gpu? hgpu
    exact (List.getElem?_eq_some_iff.mp hl).1
  · intro h
    have hl : hub.listeners[id.index]? = some hub.listeners[id.index] := List.getElem?_eq_getElem h
    rw [gpu?_of_getElem? (i := id.index) hl]
    exact hI.present _ (List.getElem_mem h)

@[simp] theorem length_addresses (hub : Hub IntelGpu) : hub.addresses.length = hub.size :=
  List.length_map _

theorem getElem_addresses {i : Nat} (hi : i < hub.addresses.length) :
    hub.addresses[i] = (hub.gpu? ⟨i⟩).map (·.pdev) := by
  have hl : i < hub.listeners.length := by rwa [length_addresses] at hi
  rw [gpu?_of_getElem? (List.getElem?_eq_getElem hl)]
  exact List.getElem_map _

private theorem any_concerns_iff {gpu : Option IntelGpu} {record : String} :
    (gpu.map (·.pdev)).any (Record.Concerns · record) = true ↔
      ∃ g, gpu = some g ∧ Record.Concerns g.pdev record := by
  cases gpu with
  | none => simp
  | some g => simp

/-- A record goes to the first listener whose GPU accepts it. -/
theorem claimant?_eq_some_iff {record : String} {id : ListenerId} :
    claimant? hub.addresses record = some id ↔
      (∃ gpu, hub.gpu? id = some gpu ∧ Record.Concerns gpu.pdev record) ∧
        ∀ j < id.index, ∀ gpu, hub.gpu? ⟨j⟩ = some gpu → ¬ Record.Concerns gpu.pdev record := by
  obtain ⟨i⟩ := id
  have hfind : claimant? hub.addresses record = some ⟨i⟩ ↔
      hub.addresses.findIdx? (fun a => a.any (Record.Concerns · record)) = some i := by
    unfold claimant?
    rw [Option.map_eq_some_iff]
    exact ⟨fun ⟨j, hj, e⟩ => ListenerId.mk.inj e ▸ hj, fun h => ⟨i, h, rfl⟩⟩
  rw [hfind, List.findIdx?_eq_some_iff_getElem]
  constructor
  · rintro ⟨hi, hclaim, hbefore⟩
    rw [getElem_addresses, any_concerns_iff] at hclaim
    refine ⟨hclaim, ?_⟩
    intro j hj gpu hgpu hc
    apply hbefore j hj
    rw [getElem_addresses, any_concerns_iff]
    exact ⟨gpu, hgpu, hc⟩
  · rintro ⟨⟨gpu, hgpu, hc⟩, hbefore⟩
    obtain ⟨l, hl, -⟩ := exists_listener_of_gpu? hgpu
    have hi : i < hub.addresses.length := by
      rw [length_addresses]
      exact (List.getElem?_eq_some_iff.mp hl).1
    refine ⟨hi, ?_, ?_⟩
    · rw [getElem_addresses, any_concerns_iff]
      exact ⟨gpu, hgpu, hc⟩
    · intro j hj
      rw [getElem_addresses, any_concerns_iff]
      rintro ⟨g, hg, hcg⟩
      exact hbefore j hj g hg hcg

/-- A record that no GPU accepts goes to nobody. -/
theorem claimant?_eq_none_iff {record : String} :
    claimant? hub.addresses record = none ↔
      ∀ id gpu, hub.gpu? id = some gpu → ¬ Record.Concerns gpu.pdev record := by
  unfold claimant?
  rw [Option.map_eq_none_iff, List.findIdx?_eq_none_iff]
  constructor
  · intro h id gpu hgpu hc
    obtain ⟨l, hl, hd⟩ := exists_listener_of_gpu? hgpu
    have hm : some gpu.pdev ∈ hub.addresses := by
      refine List.mem_map.mpr ⟨l, List.mem_of_getElem? hl, ?_⟩
      rw [hd]
      rfl
    have hnot := h _ hm
    rw [Option.any_some, decide_eq_false_iff_not] at hnot
    exact hnot hc
  · intro h a ha
    obtain ⟨i, hi, rfl⟩ := List.getElem_of_mem ha
    rw [getElem_addresses, ← Bool.not_eq_true, any_concerns_iff]
    rintro ⟨gpu, hgpu, hc⟩
    exact h _ gpu hgpu hc

/-! ## Taking a record in -/

/-- The hub after a sample was offered to the cache of a listener's GPU. -/
def keep (hub : Hub IntelGpu) (id : ListenerId) (sample : Sample) : Hub IntelGpu :=
  match hub.deviceOf? id with
  | none => hub
  | some h => hub.modify h (·.keep sample)

@[simp] theorem listeners_keep (hub : Hub IntelGpu) (id : ListenerId) (sample : Sample) :
    (hub.keep id sample).listeners = hub.listeners := by
  unfold keep
  cases hub.deviceOf? id <;> rfl

@[simp] theorem deviceOf?_keep (hub : Hub IntelGpu) (id j : ListenerId) (sample : Sample) :
    (hub.keep id sample).deviceOf? j = hub.deviceOf? j := by
  unfold deviceOf?
  rw [listeners_keep]

theorem device?_keep (hub : Hub IntelGpu) (id : ListenerId) (sample : Sample) (h : Handle) :
    (hub.keep id sample).device? h =
      if hub.deviceOf? id = some h then (hub.device? h).map (·.keep sample)
      else hub.device? h := by
  unfold keep
  cases hub.deviceOf? id with
  | none => rfl
  | some i => simp only [device?_modify, Option.some.injEq]

theorem OfIntel.keep (hI : hub.OfIntel) (id : ListenerId) (sample : Sample) :
    (hub.keep id sample).OfIntel where
  reader := by
    rw [listeners_keep]
    exact hI.reader
  present := by
    rw [listeners_keep]
    intro l hl
    rw [device?_keep]
    split
    · rw [Option.isSome_map]
      exact hI.present l hl
    · exact hI.present l hl
  distinct := by
    rw [listeners_keep]
    exact hI.distinct

/-- Two listeners have two GPUs. -/
theorem OfIntel.deviceOf?_inj (hI : hub.OfIntel) {id j : ListenerId} {h : Handle}
    (hid : hub.deviceOf? id = some h) (hj : hub.deviceOf? j = some h) : id = j := by
  unfold deviceOf? at hid hj
  rw [← List.getElem?_map] at hid hj
  have hlt : id.index < (hub.listeners.map (·.device)).length :=
    (List.getElem?_eq_some_iff.mp hid).1
  have hij := (List.getElem?_inj hlt hI.distinct).mp (hid.trans hj.symm)
  cases id
  cases j
  exact congrArg ListenerId.mk hij

theorem OfIntel.gpu?_keep (hI : hub.OfIntel) (id j : ListenerId) (sample : Sample) :
    (hub.keep id sample).gpu? j =
      if id = j then (hub.gpu? j).map (·.keep sample) else hub.gpu? j := by
  unfold gpu?
  rw [deviceOf?_keep]
  cases hj : hub.deviceOf? j with
  | none => simp only [Option.bind_none, Option.map_none, ite_self]
  | some h =>
      simp only [Option.bind_some, device?_keep]
      have hiff : hub.deviceOf? id = some h ↔ id = j :=
        ⟨fun hid => hI.deviceOf?_inj hid hj, fun e => e ▸ hj⟩
      simp only [hiff]

/-- Samples of different origins can be offered in any order. -/
theorem OfIntel.keep_comm (hI : hub.OfIntel) {i j : ListenerId} {s t : Sample}
    (h : (i, s.client) ≠ (j, t.client)) :
    (hub.keep i s).keep j t = (hub.keep j t).keep i s := by
  apply ext_device?
  · simp only [listeners_keep]
  · intro d
    simp only [device?_keep, deviceOf?_keep]
    by_cases hi : hub.deviceOf? i = some d
    · by_cases hj : hub.deviceOf? j = some d
      · -- One GPU, so two clients.
        obtain rfl := hI.deviceOf?_inj hi hj
        have hclient : s.client ≠ t.client := fun e => h (congrArg (i, ·) e)
        simp only [hi, if_true, Option.map_map]
        congr 1
        funext gpu
        exact congrArg (fun cache => { gpu with cache }) (SampleCache.keep_comm hclient gpu.cache)
      · simp only [hi, hj, if_true, if_false]
    · simp only [hi, if_false]

@[simp] theorem addresses_keep (hub : Hub IntelGpu) (id : ListenerId) (sample : Sample) :
    (hub.keep id sample).addresses = hub.addresses := by
  unfold addresses
  rw [listeners_keep]
  apply List.map_congr_left
  intro l _
  rw [device?_keep]
  split
  · rw [Option.map_map]
    rfl
  · rfl

/-- A record that nobody accepts leaves the hub and the usage alone. -/
theorem OfIntel.offer_of_none (hI : hub.OfIntel) {record : String}
    (hnone : claimant? hub.addresses record = none) (now : Instant) (usage : Usage) :
    hub.offer now record usage = ⟨⟨none, usage, hub⟩, [.recordUnmatched usage.pid]⟩ := by
  have hreject : ∀ l ∈ hub.listeners, ∀ gpu, hub.pool.get? l.device = some gpu →
      ¬ Record.Concerns gpu.pdev record := by
    intro l hl gpu hgpu
    obtain ⟨i, hi, rfl⟩ := List.getElem_of_mem hl
    apply claimant?_eq_none_iff.mp hnone ⟨i⟩
    rw [gpu?_of_getElem? (List.getElem?_eq_getElem hi)]
    exact hgpu
  unfold offer
  rw [offerInTurn_of_not_concerns hI.reader hreject]
  rfl

/-- A record that some listener accepts goes into the cache of its GPU. -/
theorem OfIntel.offer_of_some (hI : hub.OfIntel) {record : String} {id : ListenerId}
    {gpu : IntelGpu} {clientId : UInt32} (hclaim : claimant? hub.addresses record = some id)
    (hgpu : hub.gpu? id = some gpu) (hid : Record.lastClientId? record = some clientId)
    (now : Instant) (usage : Usage) :
    hub.offer now record usage =
      ⟨⟨some id,
        gpu.cache.report ⟨⟨clientId, usage.pid⟩, Record.times record, now⟩
          (usage.withTimes (Record.times record)),
        hub.keep id ⟨⟨clientId, usage.pid⟩, Record.times record, now⟩⟩,
        if ⟨clientId, usage.pid⟩ ∈ gpu.cache.current then
          [.duplicateIgnored ⟨clientId, usage.pid⟩]
        else []⟩ := by
  obtain ⟨⟨g, hg, hc⟩, hbefore⟩ := claimant?_eq_some_iff.mp hclaim
  obtain rfl : g = gpu := Option.some.inj (hg.symm.trans hgpu)
  obtain ⟨l, hl, hd⟩ := exists_listener_of_gpu? hgpu
  obtain ⟨hlt, rfl⟩ := List.getElem?_eq_some_iff.mp hl
  -- The listeners before this one reject, those behind it do not matter.
  have hsplit : hub.listeners =
      hub.listeners.take id.index ++
        hub.listeners[id.index] :: hub.listeners.drop (id.index + 1) := by
    rw [List.getElem_cons_drop, List.take_append_drop]
  have hreject : ∀ m ∈ hub.listeners.take id.index, ∀ g, hub.pool.get? m.device = some g →
      ¬ Record.Concerns g.pdev record := by
    intro m hm g' hg'
    obtain ⟨j, hj, rfl⟩ := List.getElem_of_mem hm
    rw [List.length_take] at hj
    apply hbefore j (by omega)
    rw [gpu?_of_getElem? (List.getElem?_eq_getElem (by omega))]
    rw [List.getElem_take] at hg'
    exact hg'
  have hlen : (hub.listeners.take id.index).length = id.index :=
    List.length_take_of_le (Nat.le_of_lt hlt)
  have hturn := offerInTurn_of_belongs (hsplit ▸ hI.reader) hreject hd hc.1 hid now usage
  rw [← hsplit, hlen] at hturn
  unfold offer
  rw [hturn]
  apply Logged.ext
  · simp only [Logged.value_bind, Logged.value_map, IntelGpu.value_accept, Logged.value_pure]
    rw [Pool.set_eq_modify hd (·.keep _)]
    unfold Hub.keep deviceOf?
    rw [hl]
    rfl
  · simp only [Logged.events_bind, Logged.events_map, IntelGpu.events_accept, Logged.value_map,
      Logged.events_pure, List.append_nil]

/-! ## The end of a cycle -/

private theorem device?_foldl_closeCycleOf {δ : Type} [Gpu δ] (listeners : List (Listener δ))
    (hub : Hub δ) (h : Handle) :
    (listeners.foldl (fun hub l => hub.closeCycleOf l.device) hub).device? h =
      (hub.device? h).map Gpu.closeCycle^[(listeners.map (·.device)).count h] := by
  induction listeners generalizing hub with
  | nil => exact Option.map_id_apply.symm
  | cons l later ih =>
      have hclose : (hub.closeCycleOf l.device).device? h =
          if l.device = h then (hub.device? h).map Gpu.closeCycle else hub.device? h :=
        device?_modify ..
      rw [List.foldl_cons, ih, hclose, List.map_cons]
      by_cases hh : l.device = h
      · rw [if_pos hh, hh, List.count_cons_self, Option.map_map, ← Function.iterate_succ]
      · rw [if_neg hh, List.count_cons_of_ne hh]

/-- The end of a cycle closes the cycle of a device once for every listener attached to it. -/
theorem device?_closeCycle {δ : Type} [Gpu δ] (hub : Hub δ) (h : Handle) :
    hub.closeCycle.device? h =
      (hub.device? h).map Gpu.closeCycle^[(hub.listeners.map (·.device)).count h] :=
  device?_foldl_closeCycleOf ..

private theorem listeners_foldl_closeCycleOf {δ : Type} [Gpu δ] (listeners : List (Listener δ))
    (hub : Hub δ) :
    (listeners.foldl (fun hub l => hub.closeCycleOf l.device) hub).listeners = hub.listeners := by
  induction listeners generalizing hub with
  | nil => rfl
  | cons l later ih =>
      rw [List.foldl_cons, ih]
      rfl

@[simp] theorem listeners_closeCycle {δ : Type} [Gpu δ] (hub : Hub δ) :
    hub.closeCycle.listeners = hub.listeners :=
  listeners_foldl_closeCycleOf ..

/-- The end of a cycle closes the cache of every listener's GPU once, and no other. -/
theorem OfIntel.device?_closeCycle (hI : hub.OfIntel) (h : Handle) :
    hub.closeCycle.device? h =
      if h ∈ hub.listeners.map (·.device) then (hub.device? h).map IntelGpu.closeCycle
      else hub.device? h := by
  rw [Hub.device?_closeCycle]
  by_cases hm : h ∈ hub.listeners.map (·.device)
  · rw [if_pos hm, List.count_eq_one_of_mem hI.distinct hm]
    rfl
  · rw [if_neg hm, List.count_eq_zero_of_not_mem hm]
    exact Option.map_id_apply

theorem OfIntel.gpu?_closeCycle (hI : hub.OfIntel) (id : ListenerId) :
    hub.closeCycle.gpu? id = (hub.gpu? id).map IntelGpu.closeCycle := by
  unfold gpu? deviceOf?
  rw [listeners_closeCycle]
  cases hl : hub.listeners[id.index]? with
  | none => rfl
  | some l =>
      simp only [Option.map_some, Option.bind_some]
      rw [hI.device?_closeCycle, if_pos (List.mem_map_of_mem (List.mem_of_getElem? hl))]

theorem OfIntel.closeCycle (hI : hub.OfIntel) : hub.closeCycle.OfIntel where
  reader := by
    rw [listeners_closeCycle]
    exact hI.reader
  present := by
    rw [listeners_closeCycle]
    intro l hl
    rw [hI.device?_closeCycle, if_pos (List.mem_map_of_mem hl), Option.isSome_map]
    exact hI.present l hl
  distinct := by
    rw [listeners_closeCycle]
    exact hI.distinct

@[simp] theorem OfIntel.addresses_closeCycle (hI : hub.OfIntel) :
    hub.closeCycle.addresses = hub.addresses := by
  unfold addresses
  rw [listeners_closeCycle]
  refine List.map_congr_left fun l hl => ?_
  rw [hI.device?_closeCycle, if_pos (List.mem_map_of_mem hl), Option.map_map]
  rfl

/-! ## Hubs of given GPUs -/

theorem ofIntel_empty : (empty : Hub IntelGpu).OfIntel where
  reader := fun _ hl => absurd hl List.not_mem_nil
  present := fun _ hl => absurd hl List.not_mem_nil
  distinct := List.nodup_nil

/-- A GPU that is taken in is another one than those before. -/
theorem OfIntel.adopt (hI : hub.OfIntel) (gpu : IntelGpu) :
    (hub.adopt HasIntel.read gpu).2.OfIntel where
  reader := by
    intro l hl
    rcases List.mem_append.mp hl with hl | hl
    · exact hI.reader l hl
    · rw [List.mem_singleton.mp hl]
  present := by
    intro l hl
    rcases List.mem_append.mp hl with hl | hl
    · obtain ⟨d, hd⟩ := Option.isSome_iff_exists.mp (hI.present l hl)
      exact Option.isSome_of_eq_some (device?_insert_of_device? gpu hd)
    · rw [List.mem_singleton.mp hl]
      exact Option.isSome_of_eq_some (device?_insert hub gpu)
  distinct := by
    have hdevices : (hub.adopt HasIntel.read gpu).2.listeners.map (·.device) =
        hub.listeners.map (·.device) ++ [hub.pool.next] := List.map_append
    rw [hdevices, ← List.concat_eq_append]
    refine List.Nodup.concat ?_ hI.distinct
    intro hm
    obtain ⟨l, hl, hdevice⟩ := List.mem_map.mp hm
    obtain ⟨d, hd⟩ := Option.isSome_iff_exists.mp (hI.present l hl)
    rw [hdevice] at hd
    exact absurd (List.getElem?_eq_some_iff.mp hd).1 (Nat.lt_irrefl _)

/-- The hub into which some GPUs were taken in order. -/
def ofGpus (gpus : List IntelGpu) : Hub IntelGpu :=
  gpus.foldl (fun hub gpu => (hub.adopt HasIntel.read gpu).2) empty

theorem ofGpus_concat (gpus : List IntelGpu) (gpu : IntelGpu) :
    ofGpus (gpus ++ [gpu]) = ((ofGpus gpus).adopt HasIntel.read gpu).2 :=
  List.foldl_concat ..

theorem ofIntel_ofGpus (gpus : List IntelGpu) : (ofGpus gpus).OfIntel := by
  induction gpus using List.reverseRecOn with
  | nil => exact ofIntel_empty
  | append_singleton gpus gpu ih =>
      rw [ofGpus_concat]
      exact ih.adopt gpu

theorem devices_ofGpus (gpus : List IntelGpu) : (ofGpus gpus).pool.devices = gpus := by
  induction gpus using List.reverseRecOn with
  | nil => rfl
  | append_singleton gpus gpu ih =>
      rw [ofGpus_concat]
      exact congrArg (· ++ [gpu]) ih

theorem mem_of_gpu?_ofGpus {gpus : List IntelGpu} {id : ListenerId} {gpu : IntelGpu}
    (h : (ofGpus gpus).gpu? id = some gpu) : gpu ∈ gpus := by
  obtain ⟨l, -, hd⟩ := exists_listener_of_gpu? h
  rw [← devices_ofGpus gpus]
  exact List.mem_of_getElem? hd

end Hub

/-- A GPU on which nothing was sampled yet. -/
def IntelGpu.at (pdev : String) : IntelGpu := { card := default, parent := default, pdev }

end DrmUsage

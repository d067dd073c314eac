-- SUMMARY: Which GPUs a search of the Intel backend takes in: those of the cards that are recognised, filtered by the bits of the mask.
import Mathlib.Data.List.Nodup
import Mathlib.Data.List.Range
import DrmUsage.Proofs.SearchTurns

/-!
# Masked searches

A search looks at the cards in order and counts those that it recognises. The bits of a mask stand
for these alone: a card of another vendor or driver, a disabled one and a broken one have none. So
a search with a mask takes in what the same search without one would have, filtered by the bits at
the places of the GPUs (`IntelBackend.find_kept`). Handles, listeners and the memory of the
backend all grow by the same devices.
-/

namespace DrmUsage

namespace IntelBackend

/-! ## Masks -/

theorem kept_map {α β : Type} (mask : Option UInt64) (f : α → β) (all : List α) :
    kept mask (all.map f) = (kept mask all).map f := by
  unfold kept
  generalize 0 = start
  induction all generalizing start with
  | nil => rfl
  | cons first later ih =>
      rw [List.map_cons, keptFrom_cons, keptFrom_cons, ih]
      split <;> rfl

theorem kept_none {α : Type} (all : List α) : kept none all = all := by
  unfold kept
  generalize 0 = start
  induction all generalizing start with
  | nil => rfl
  | cons first later ih => rw [keptFrom_cons, hasBit, if_pos rfl, ih]

theorem kept_subset {α : Type} (mask : Option UInt64) (all : List α) : kept mask all ⊆ all := by
  intro a h
  obtain ⟨⟨_, place⟩, hmem, rfl⟩ := List.mem_map.mp h
  exact List.fst_mem_of_mem_zipIdx (List.mem_of_mem_filter hmem)

/-! ## What is taken in -/

/-- A GPU that was just recognised has sampled nothing yet. -/
theorem cache_of_recognised {fs : Snapshot} {card : DeviceDir} {gpu : IntelGpu}
    (h : recognised? fs card = some gpu) : gpu.cache = .empty := by
  have hcard := recognised?_eq_some_iff.mp h
  unfold IntelGpu.ofCard at hcard
  split at hcard
  · exact absurd (Except.ok.inj hcard).symm (Option.some_ne_none gpu)
  · split at hcard
    · split at hcard
      · exact nomatch hcard
      · rw [← Option.some.inj (Except.ok.inj hcard)]
    · exact absurd (Except.ok.inj hcard).symm (Option.some_ne_none gpu)

variable {δ : Type} [HasIntel δ]

/-- Every handle of the devices that are taken in leads to its device. -/
theorem map_device?_adoptAll (hub : Hub δ) (gpus : List IntelGpu) :
    (adoptAll hub gpus).1.map (adoptAll hub gpus).2.device? =
      gpus.map fun gpu => some (HasIntel.ofIntel gpu) := by
  induction gpus generalizing hub with
  | nil => rfl
  | cons gpu later ih =>
      have hfirst : (hub.adopt HasIntel.read (HasIntel.ofIntel gpu)).2.device?
          (hub.adopt HasIntel.read (HasIntel.ofIntel gpu)).1 = some (HasIntel.ofIntel gpu) :=
        Hub.device?_insert hub (HasIntel.ofIntel gpu)
      simp only [adoptAll, List.map_cons, ih, device?_adoptAll hfirst]

/-- The handles of the devices that are taken in are new. -/
theorem device?_of_mem_adoptAll {hub : Hub δ} {gpus : List IntelGpu} {h : Handle}
    (hmem : h ∈ (adoptAll hub gpus).1) : hub.device? h = none := by
  rw [adoptAll_eq] at hmem
  obtain ⟨i, hi, rfl⟩ := List.mem_map.mp hmem
  exact List.getElem?_eq_none (List.mem_range'_1.mp hi).1

theorem nodup_adoptAll (hub : Hub δ) (gpus : List IntelGpu) : (adoptAll hub gpus).1.Nodup := by
  rw [adoptAll_eq]
  exact List.Nodup.map (fun _ _ h => Handle.mk.inj h) List.nodup_range'

theorem listeners_adoptAll (hub : Hub δ) (gpus : List IntelGpu) :
    (adoptAll hub gpus).2.listeners =
      hub.listeners ++ (adoptAll hub gpus).1.map fun h => ⟨h, HasIntel.read⟩ := by
  rw [adoptAll_eq]

theorem answer_eq (handles : List Handle) :
    answer handles =
      if handles = [] then .error (.noDevices "Intel") else .ok handles := by
  cases handles <;> rfl

/-- A search that cannot list the cards fails with the reason and changes neither the hub nor the
devices that the backend holds. Any other search takes in what the mask keeps of the GPUs that are
recognised, in the order of their cards. Its handles lead to these GPUs, each without samples; they
are new, the backend holds them behind those that it held, and each has one listener behind those
that were there. Where the mask keeps none, the search fails and changes nothing of this. A search
with a mask therefore finds what the one without finds, filtered by the bits, and cards that are
not recognised make no difference wherever they stand. -/
theorem find_kept (fs : Snapshot) (mask : Option UInt64) (b : IntelBackend) (hub : Hub δ) :
    let found := (find fs mask b hub).value
    let unmasked := (find fs none b hub).value
    match cards fs b.mounts with
    | .error cause =>
      found.devices = .error cause ∧ found.hub = hub ∧ found.state.handles = b.handles
    | .ok cs =>
      -- the answer
      (kept mask (recognised fs cs) ≠ [] → found.devices = .ok found.handles) ∧
      (kept mask (recognised fs cs) = [] →
        found.devices = .error (.noDevices "Intel") ∧ found.hub = hub ∧
          found.state.handles = b.handles) ∧
      -- the devices behind the handles
      found.handles.map found.hub.device? =
        (kept mask (recognised fs cs)).map (fun gpu => some (HasIntel.ofIntel gpu)) ∧
      (∀ gpu ∈ kept mask (recognised fs cs), gpu.cache = .empty) ∧
      found.handles.Nodup ∧ (∀ h ∈ found.handles, hub.device? h = none) ∧
      (∀ h d, hub.device? h = some d → found.hub.device? h = some d) ∧
      -- the backend and the listeners
      found.state.handles = b.handles ++ found.handles ∧
      found.hub.listeners = hub.listeners ++ found.handles.map (⟨·, HasIntel.read⟩) ∧
      -- the mask
      found.handles.map found.hub.device? =
        kept mask (unmasked.handles.map unmasked.hub.device?) ∧
      -- cards that are not recognised
      ∀ fs' cs', cards fs' b.mounts = .ok cs' → recognised fs' cs' = recognised fs cs →
        let found' := (find fs' mask b hub).value
        found'.devices = found.devices ∧ found'.hub = found.hub ∧
          found'.state.handles = found.state.handles := by
  intro found unmasked
  cases hcards : cards fs b.mounts with
  | error cause =>
      have hfound : found = _ := value_find_of_error hcards mask hub
      rw [hfound]
      exact ⟨rfl, rfl, rfl⟩
  | ok cs =>
      have hfound : found = _ := value_find hcards mask hub
      have hunmasked : unmasked = _ := value_find hcards none hub
      have hdevices := map_device?_adoptAll hub (kept mask (recognised fs cs))
      have hempty : (adoptAll hub (kept mask (recognised fs cs))).1 = [] ↔
          kept mask (recognised fs cs) = [] := by
        rw [← List.map_eq_nil_iff, hdevices, List.map_eq_nil_iff]
      rw [hfound, hunmasked]
      dsimp only
      rw [Found.handles_answer, Found.handles_answer, answer_eq]
      refine ⟨?_, ?_, hdevices, ?_, nodup_adoptAll hub _, fun h => device?_of_mem_adoptAll,
        fun h d hd => device?_adoptAll hd _, rfl, listeners_adoptAll hub _, ?_, ?_⟩
      · intro hkept
        rw [if_neg (hempty.not.mpr hkept)]
      · intro hnone
        rw [if_pos (hempty.mpr hnone), hnone]
        exact ⟨rfl, rfl, List.append_nil _⟩
      · intro gpu hmem
        obtain ⟨card, -, hcard⟩ := List.mem_filterMap.mp (kept_subset mask _ hmem)
        exact cache_of_recognised hcard
      · rw [hdevices, map_device?_adoptAll, kept_none, kept_map]
      · intro fs' cs' hcards' hsame
        rw [value_find hcards' mask hub, hsame]
        exact ⟨answer_eq _, rfl, rfl⟩

/-- A card that is alone has the first bit, so a mask with only the second keeps nothing. -/
example :
    let found := (find (.ofIntelCards [("card0", "0000:00:02.0")]) (some 2) { mounts := .usual }
      (.empty : Hub IntelGpu)).value
    found.handles = [] ∧ found.hub.listeners = [] := by
  decide +kernel

end IntelBackend

end DrmUsage

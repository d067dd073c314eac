-- SUMMARY: What the end of a cycle does to each device of a hub, however its listeners came to be attached.
import Mathlib.Data.List.DropRight
import Mathlib.Data.List.Induction
import DrmUsage.Proofs.IntelHub

/-!
# Ends of cycles

The end of a cycle goes over the listeners, not over the devices, and several
listeners may share a device. How often a cache is closed is therefore the number
of listeners that were attached to its device since all were last detached. Once
makes the samples of the cycle those of the cycle before. Twice loses them, since
the second closing finds a cycle without samples: no share can be derived in the
cycle to come (`Hub.cacheAfterEnd_of_operations`).
-/

namespace DrmUsage

namespace SampleCache

/-- The cache after its cycle was closed some number of times in a row. -/
def closedTimes (cache : SampleCache) : Nat → SampleCache
  | 0 => cache
  | 1 => ⟨cache.current, ∅⟩
  | _ + 2 => ⟨∅, ∅⟩

theorem iterate_closeCycle (cache : SampleCache) (n : Nat) :
    closeCycle^[n] cache = cache.closedTimes n := by
  match n with
  | 0 => rfl
  | 1 => rfl
  | n + 2 =>
      rw [Function.iterate_succ_apply', Function.iterate_succ_apply']
      rfl

/-- Closing a cycle keeps its samples for the next one if it is done once, and has nothing to lose
where there are no samples. -/
theorem closedTimes_rolls_iff {cache : SampleCache} {n : Nat} (hn : n ≠ 0) :
    ((cache.closedTimes n).previous = cache.current ∧ (cache.closedTimes n).current = ∅) ↔
      n = 1 ∨ cache.current = ∅ := by
  match n with
  | 0 => exact absurd rfl hn
  | 1 => exact iff_of_true ⟨rfl, rfl⟩ (.inl rfl)
  | n + 2 =>
      have htwo : n + 2 ≠ 1 := by omega
      constructor
      · rintro ⟨hprevious, -⟩
        exact .inr hprevious.symm
      · rintro (hone | hempty)
        · exact absurd hone htwo
        · exact ⟨hempty.symm, rfl⟩

end SampleCache

/-- Nothing but the cache of a GPU knows of cycles. -/
theorem IntelGpu.iterate_closeCycle (gpu : IntelGpu) (n : Nat) :
    IntelGpu.closeCycle^[n] gpu = { gpu with cache := gpu.cache.closedTimes n } := by
  rw [← SampleCache.iterate_closeCycle]
  induction n with
  | zero => rfl
  | succ n ih =>
      rw [Function.iterate_succ_apply', Function.iterate_succ_apply', ih]
      rfl

namespace Hub

/-! ## Operations -/

/-- What can be done to a hub whose devices are all in its pool. -/
inductive Operation (δ : Type) where
  | attach (h : Handle) (reader : Reader δ)
  | offerTo (id : ListenerId) (now : Instant) (source : Text.Source) (usage : Usage)
  | offer (now : Instant) (record : String) (usage : Usage)
  | detachAll
  | closeCycle

namespace Operation

variable {δ : Type}

/-- The device to which an operation attaches a listener. -/
def attached? : Operation δ → Option Handle
  | attach h _ => some h
  | _ => none

/-- Whether the listeners stay attached. -/
def keepsListeners : Operation δ → Bool
  | detachAll => false
  | _ => true

end Operation

section

variable {δ : Type}

/-- The devices to which listeners were attached since all were last detached, or since the start
if they never were; a device stands there once for every listener. -/
def attachedTo (operations : List (Operation δ)) : List Handle :=
  (operations.rtakeWhile Operation.keepsListeners).filterMap Operation.attached?

variable [Gpu δ]

/-- The hub after an operation. -/
def perform (hub : Hub δ) : Operation δ → Hub δ
  | .attach h reader => (hub.attach h reader).2
  | .offerTo id now source usage => (hub.offerTo id now source usage).value.state
  | .offer now record usage => (hub.offer now record usage).value.hub
  | .detachAll => hub.detachAll
  | .closeCycle => hub.closeCycle

/-- The hub after some operations. -/
def performAll (hub : Hub δ) (operations : List (Operation δ)) : Hub δ :=
  operations.foldl perform hub

theorem performAll_concat (hub : Hub δ) (operations : List (Operation δ)) (op : Operation δ) :
    hub.performAll (operations ++ [op]) = (hub.performAll operations).perform op :=
  List.foldl_concat ..

/-! ## Listeners -/

/-- The devices of the listeners are those to which some were attached since the last
detachment. -/
theorem devices_performAll (pool : Pool δ) (operations : List (Operation δ)) :
    (performAll ⟨pool, []⟩ operations).listeners.map (·.device) = attachedTo operations := by
  induction operations using List.reverseRecOn with
  | nil => rfl
  | append_singleton operations op ih =>
      rw [performAll_concat]
      unfold attachedTo at ih ⊢
      cases op with
      | detachAll =>
          rw [List.rtakeWhile_concat_neg _ _ _ Bool.false_ne_true]
          rfl
      | attach h reader =>
          rw [List.rtakeWhile_concat_pos _ _ _ rfl, List.filterMap_append, ← ih]
          exact List.map_append
      | offerTo id now source usage =>
          rw [List.rtakeWhile_concat_pos _ _ _ rfl, List.filterMap_append, ← ih]
          simp only [perform, listeners_offerTo, Operation.attached?, List.filterMap_cons,
            List.filterMap_nil, List.append_nil]
      | offer now record usage =>
          rw [List.rtakeWhile_concat_pos _ _ _ rfl, List.filterMap_append, ← ih]
          simp only [perform, listeners_offer, Operation.attached?, List.filterMap_cons,
            List.filterMap_nil, List.append_nil]
      | closeCycle =>
          rw [List.rtakeWhile_concat_pos _ _ _ rfl, List.filterMap_append, ← ih]
          simp only [perform, listeners_closeCycle, Operation.attached?, List.filterMap_cons,
            List.filterMap_nil, List.append_nil]

end

/-! ## Caches -/

/-- After any operations, the end of a cycle leaves a GPU to which no listener is attached as it
was. One listener makes the samples of the cycle those of the cycle before; more of them leave no
samples at all. So the samples of the cycle are kept exactly if there is one listener, or there are
none to keep. Nothing but the cache of a GPU changes. -/
theorem cacheAfterEnd_of_operations (pool : Pool IntelGpu) (operations : List (Operation IntelGpu))
    {h : Handle} {gpu : IntelGpu}
    (hgpu : (performAll ⟨pool, []⟩ operations).device? h = some gpu) :
    let hub := performAll ⟨pool, []⟩ operations
    let listeners := (attachedTo operations).count h
    hub.closeCycle.listeners = hub.listeners ∧
    ∃ cache, hub.closeCycle.device? h = some { gpu with cache } ∧
      (listeners = 0 → cache = gpu.cache) ∧
      (listeners = 1 → cache = { previous := gpu.cache.current, current := ∅ }) ∧
      (2 ≤ listeners → cache = { previous := ∅, current := ∅ }) ∧
      (listeners ≠ 0 →
        (cache.previous = gpu.cache.current ∧ cache.current = ∅ ↔
          listeners = 1 ∨ gpu.cache.current = ∅)) := by
  intro hub listeners
  refine ⟨listeners_closeCycle hub, gpu.cache.closedTimes listeners, ?_, ?_, ?_, ?_, ?_⟩
  · rw [device?_closeCycle, devices_performAll, hgpu, Option.map_some]
    exact congrArg some (gpu.iterate_closeCycle listeners)
  · intro hnone
    rw [hnone]
    rfl
  · intro hone
    rw [hone]
    rfl
  · intro hmany
    obtain ⟨n, hn⟩ := Nat.exists_eq_add_of_le' hmany
    rw [hn]
    rfl
  · exact SampleCache.closedTimes_rolls_iff

/-- A record of client 5 for the GPU at an address. -/
def sampleAt (pdev : String) : String :=
  "drm-pdev:\t" ++ pdev ++ "\ndrm-client-id:\t5\ndrm-engine-render:\t10 ns\n"

/-- Three GPUs. -/
def threeGpus : Pool IntelGpu :=
  ⟨[.at "0000:00:02.0", .at "0000:03:00.0", .at "0000:04:00.0"]⟩

/-- The first GPU gets a sample and loses its listener; then the second gets one listener, the third
gets two, and both get a sample. -/
def unevenlyAttached : List (Operation IntelGpu) :=
  [.attach ⟨0⟩ HasIntel.read, .offer ⟨1000⟩ (sampleAt "0000:00:02.0") (.ofPid 7), .detachAll,
    .attach ⟨2⟩ HasIntel.read, .attach ⟨1⟩ HasIntel.read, .attach ⟨2⟩ HasIntel.read,
    .offerTo ⟨1⟩ ⟨2000⟩ (.ofText (sampleAt "0000:03:00.0")) (.ofPid 7),
    .offer ⟨2000⟩ (sampleAt "0000:04:00.0") (.ofPid 7)]

theorem cacheAfterEnd_of_operations_uneven :
    let hub := performAll ⟨threeGpus, []⟩ unevenlyAttached
    ∃ first second third, hub.device? ⟨0⟩ = some first ∧ hub.device? ⟨1⟩ = some second ∧
      hub.device? ⟨2⟩ = some third ∧
      hub.closeCycle.device? ⟨0⟩ = some first ∧
      hub.closeCycle.device? ⟨1⟩ = some { second with cache := ⟨second.cache.current, ∅⟩ } ∧
      hub.closeCycle.device? ⟨2⟩ = some { third with cache := ⟨∅, ∅⟩ } ∧
      first.cache.current.size = 1 ∧ second.cache.current.size = 1 ∧
      third.cache.current.size = 1 := by
  intro hub
  have hsampled : ∀ i < 3, ∃ gpu, hub.device? ⟨i⟩ = some gpu ∧ gpu.cache.current.size = 1 := by
    have hsizes : ∀ i < 3, (hub.device? ⟨i⟩).map (·.cache.current.size) = some 1 := by
      decide +kernel
    exact fun i hi => Option.map_eq_some_iff.mp (hsizes i hi)
  obtain ⟨first, hfirst, hfirstSize⟩ := hsampled 0 (by decide)
  obtain ⟨second, hsecond, hsecondSize⟩ := hsampled 1 (by decide)
  obtain ⟨third, hthird, hthirdSize⟩ := hsampled 2 (by decide)
  obtain ⟨-, cache₀, hend₀, hnone, -⟩ :=
    cacheAfterEnd_of_operations threeGpus unevenlyAttached hfirst
  obtain ⟨-, cache₁, hend₁, -, hone, -⟩ :=
    cacheAfterEnd_of_operations threeGpus unevenlyAttached hsecond
  obtain ⟨-, cache₂, hend₂, -, -, hmany, -⟩ :=
    cacheAfterEnd_of_operations threeGpus unevenlyAttached hthird
  obtain rfl : cache₀ = first.cache := hnone (by decide +kernel)
  obtain rfl : cache₁ = ⟨second.cache.current, ∅⟩ := hone (by decide +kernel)
  obtain rfl : cache₂ = ⟨∅, ∅⟩ := hmany (by decide +kernel)
  exact ⟨first, second, third, hfirst, hsecond, hthird, hend₀, hend₁, hend₂, hfirstSize,
    hsecondSize, hthirdSize⟩

/-- One GPU that two listeners share, with a sample in this cycle. -/
def doublyAttached : Hub IntelGpu :=
  performAll ⟨⟨[.at "0000:00:02.0"]⟩, []⟩
    [.attach ⟨0⟩ HasIntel.read, .attach ⟨0⟩ HasIntel.read,
      .offer ⟨1000⟩ (sampleAt "0000:00:02.0") (.ofPid 7)]

/-- The sample is lost at the end of the cycle. -/
theorem sample_lost_of_doublyAttached :
    let before := (doublyAttached.device? ⟨0⟩).map (·.cache.current.toList)
    let after := (doublyAttached.closeCycle.device? ⟨0⟩).map (·.cache.previous.toList)
    doublyAttached.deviceOf? ⟨0⟩ = some ⟨0⟩ ∧
      before = some [(⟨5, 7⟩, ⟨⟨5, 7⟩, { render := some 10 }, ⟨1000⟩⟩)] ∧ after = some [] ∧
      after ≠ before := by
  decide +kernel

end Hub

end DrmUsage

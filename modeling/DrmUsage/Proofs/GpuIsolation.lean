-- SUMMARY: GPUs at different addresses do not disturb each other: in any run of calls each does what it would do alone, in any order of attachment.
import DrmUsage.Proofs.IntelHub

/-!
# Isolation of GPUs

The first listener that accepts a record gets it, and the listeners before it
have read it too. Where records name an address and no two GPUs share one, the
order does not matter: at most one GPU accepts a record, and those that reject
it keep nothing of it. What becomes of a GPU in a run of calls is then what it
makes of the calls itself (`IntelGpu.afterCall`), whatever other GPUs there are
(`Hub.Separated.isolated`).
-/

namespace DrmUsage

/-! ## Records of one GPU only -/

/-- A record names the address of a device, at least once. -/
def Record.NamesPdev (record : String) : Prop := Record.values Record.pdevKey record ≠ []

instance (record : String) : Decidable (Record.NamesPdev record) :=
  inferInstanceAs (Decidable (_ ≠ _))

/-- All GPUs that accept a record with an address are at this address. -/
theorem Record.Concerns.pdev_eq {p q record : String} (hp : Record.Concerns p record)
    (hq : Record.Concerns q record) (hnamed : Record.NamesPdev record) : p = q := by
  obtain ⟨value, hvalue⟩ := List.exists_mem_of_ne_nil _ hnamed
  exact (hp.1 value hvalue).symm.trans (hq.1 value hvalue)

namespace Hub

/-! ## Calls -/

/-- What a caller does with a hub: it offers a record, or it ends the cycle. -/
inductive Call where
  | offer (now : Instant) (record : String) (usage : Usage)
  | closeCycle
deriving DecidableEq, Repr

/-- A record that is offered names an address. -/
def Call.NamesPdev : Call → Prop
  | .offer _ record _ => Record.NamesPdev record
  | .closeCycle => True

instance : (call : Call) → Decidable call.NamesPdev
  | .offer _ record _ => inferInstanceAs (Decidable (Record.NamesPdev record))
  | .closeCycle => inferInstanceAs (Decidable True)

/-- What the caller learns from an offer. -/
structure Answer where
  listener : Option ListenerId
  usage : Usage
  events : List Event
deriving DecidableEq, Repr

section

variable {δ : Type} [Gpu δ]

/-- The hub after a call. -/
def afterCall (hub : Hub δ) : Call → Hub δ
  | .offer now record usage => (hub.offer now record usage).value.hub
  | .closeCycle => hub.closeCycle

/-- The answer to a call. The end of a cycle has none. -/
def answer? (hub : Hub δ) : Call → Option Answer
  | .offer now record usage =>
    let offered := hub.offer now record usage
    some ⟨offered.value.listener, offered.value.usage, offered.events⟩
  | .closeCycle => none

/-- The hub after some calls. -/
def afterCalls (hub : Hub δ) (calls : List Call) : Hub δ := calls.foldl afterCall hub

/-- The answers to some calls, one for each. -/
def answers (hub : Hub δ) : List Call → List (Option Answer)
  | [] => []
  | call :: later => hub.answer? call :: (hub.afterCall call).answers later

end

/-- The part of a listener in an answer: the usage and the events, if it was the one that
accepted. -/
def Answer.by? (a : Answer) (id : ListenerId) : Option (Usage × List Event) :=
  if a.listener = some id then some (a.usage, a.events) else none

end Hub

/-! ## Calls to one GPU -/

namespace IntelGpu

open Hub (Call)

variable {gpu : IntelGpu} {now : Instant} {record : String} {usage : Usage}

/-- What a call leaves of a GPU that it is handed to. -/
def afterCall (gpu : IntelGpu) : Call → IntelGpu
  | .offer now record usage => (readRecord now record usage gpu).value.state
  | .closeCycle => gpu.closeCycle

/-- The usage and the events with which a GPU accepts a call. -/
def reply? (gpu : IntelGpu) : Call → Option (Usage × List Event)
  | .offer now record usage =>
    let answer := readRecord now record usage gpu
    if answer.value.accepted then some (answer.value.usage, answer.events) else none
  | .closeCycle => none

/-- What some calls leave of a GPU. -/
def afterCalls (gpu : IntelGpu) (calls : List Call) : IntelGpu := calls.foldl afterCall gpu

/-- The replies of a GPU to some calls, one for each. -/
def replies (gpu : IntelGpu) : List Call → List (Option (Usage × List Event))
  | [] => []
  | call :: later => gpu.reply? call :: (gpu.afterCall call).replies later

theorem afterCall_of_not_concerns (h : ¬ Record.Concerns gpu.pdev record) :
    gpu.afterCall (.offer now record usage) = gpu := by
  simp only [afterCall, readRecord_of_not_concerns h, Logged.value_pure, Outcome.rejected]

theorem reply?_of_not_concerns (h : ¬ Record.Concerns gpu.pdev record) :
    gpu.reply? (.offer now record usage) = none := by
  simp only [reply?, readRecord_of_not_concerns h, Logged.value_pure, Outcome.rejected,
    Bool.false_eq_true, if_false]

theorem afterCall_of_concerns {id : UInt32} (h : Record.Concerns gpu.pdev record)
    (hid : Record.lastClientId? record = some id) :
    gpu.afterCall (.offer now record usage) =
      gpu.keep ⟨⟨id, usage.pid⟩, Record.times record, now⟩ := by
  simp only [afterCall, readRecord_of_belongs h.1 hid, value_accept]

theorem reply?_of_concerns {id : UInt32} (h : Record.Concerns gpu.pdev record)
    (hid : Record.lastClientId? record = some id) :
    gpu.reply? (.offer now record usage) =
      some (gpu.cache.report ⟨⟨id, usage.pid⟩, Record.times record, now⟩
          (usage.withTimes (Record.times record)),
        if ⟨id, usage.pid⟩ ∈ gpu.cache.current then [.duplicateIgnored ⟨id, usage.pid⟩]
        else []) := by
  simp only [reply?, readRecord_of_belongs h.1 hid, value_accept, events_accept, if_true]

end IntelGpu

namespace Hub

variable {hub hub' : Hub IntelGpu} {id : ListenerId} {gpu : IntelGpu} {call : Call}
  {calls : List Call} {record : String}

/-! ## What a call can do to a hub -/

/-- A call leaves a hub as it is, offers a sample to one cache, or closes the cycle. -/
theorem OfIntel.afterCall_cases (hI : hub.OfIntel) (call : Call) :
    hub.afterCall call = hub ∨ (∃ id sample, hub.afterCall call = hub.keep id sample) ∨
      hub.afterCall call = hub.closeCycle := by
  cases call with
  | closeCycle => exact .inr (.inr rfl)
  | offer now record usage =>
      simp only [afterCall]
      cases hclaim : claimant? hub.addresses record with
      | none =>
          rw [hI.offer_of_none hclaim]
          exact .inl rfl
      | some id =>
          obtain ⟨⟨gpu, hgpu, hc⟩, -⟩ := claimant?_eq_some_iff.mp hclaim
          obtain ⟨clientId, hid⟩ := Option.isSome_iff_exists.mp hc.2
          rw [hI.offer_of_some hclaim hgpu hid]
          exact .inr (.inl ⟨id, _, rfl⟩)

theorem OfIntel.afterCall (hI : hub.OfIntel) (call : Call) : (hub.afterCall call).OfIntel := by
  rcases hI.afterCall_cases call with h | ⟨id, sample, h⟩ | h <;> rw [h]
  · exact hI
  · exact hI.keep id sample
  · exact hI.closeCycle

theorem OfIntel.listeners_afterCall (hI : hub.OfIntel) (call : Call) :
    (hub.afterCall call).listeners = hub.listeners := by
  rcases hI.afterCall_cases call with h | ⟨id, sample, h⟩ | h <;> rw [h]
  · exact listeners_keep ..
  · exact listeners_closeCycle ..

theorem OfIntel.addresses_afterCall (hI : hub.OfIntel) (call : Call) :
    (hub.afterCall call).addresses = hub.addresses := by
  rcases hI.afterCall_cases call with h | ⟨id, sample, h⟩ | h <;> rw [h]
  · exact addresses_keep ..
  · exact hI.addresses_closeCycle

/-! ## GPUs at different addresses -/

/-- The GPUs that the listeners are attached to are at different addresses. -/
structure Separated (hub : Hub IntelGpu) : Prop extends hub.OfIntel where
  apart : hub.addresses.Nodup

theorem Separated.afterCall (h : hub.Separated) (call : Call) :
    (hub.afterCall call).Separated where
  toOfIntel := h.toOfIntel.afterCall call
  apart := by
    rw [h.addresses_afterCall call]
    exact h.apart

theorem Separated.afterCalls (h : hub.Separated) (calls : List Call) :
    (hub.afterCalls calls).Separated := by
  induction calls generalizing hub with
  | nil => exact h
  | cons call later ih => exact ih (h.afterCall call)

theorem getElem?_addresses_of_gpu? (hgpu : hub.gpu? id = some gpu) :
    hub.addresses[id.index]? = some (some gpu.pdev) := by
  obtain ⟨l, hl, hd⟩ := exists_listener_of_gpu? hgpu
  unfold addresses
  rw [List.getElem?_map, hl, Option.map_some, hd, Option.map_some]

/-- GPUs at one address are those of one listener. -/
theorem Separated.gpu?_inj (h : hub.Separated) {i j : ListenerId} {g g' : IntelGpu}
    (hi : hub.gpu? i = some g) (hj : hub.gpu? j = some g') (hpdev : g.pdev = g'.pdev) : i = j := by
  have hgi := getElem?_addresses_of_gpu? hi
  have hgj := getElem?_addresses_of_gpu? hj
  rw [← hpdev, ← hgi] at hgj
  have hlt := (List.getElem?_eq_some_iff.mp hgi).1
  cases i
  cases j
  exact congrArg ListenerId.mk ((List.getElem?_inj hlt h.apart).mp hgj.symm)

/-- At most one GPU accepts a record with an address. -/
theorem Separated.eq_of_concerns (h : hub.Separated) (hnamed : Record.NamesPdev record)
    {i j : ListenerId} {g g' : IntelGpu} (hi : hub.gpu? i = some g) (hj : hub.gpu? j = some g')
    (hg : Record.Concerns g.pdev record) (hg' : Record.Concerns g'.pdev record) : i = j :=
  h.gpu?_inj hi hj (hg.pdev_eq hg' hnamed)

/-- So a record with an address goes to the GPU that accepts it, wherever this one stands. -/
theorem Separated.claimant?_of_concerns (h : hub.Separated) (hnamed : Record.NamesPdev record)
    (hgpu : hub.gpu? id = some gpu) (hc : Record.Concerns gpu.pdev record) :
    claimant? hub.addresses record = some id := by
  refine claimant?_eq_some_iff.mpr ⟨⟨gpu, hgpu, hc⟩, ?_⟩
  intro j hj g hg hcg
  obtain rfl := h.eq_of_concerns hnamed hg hgpu hcg hc
  exact absurd hj (Nat.lt_irrefl _)

/-! ## One GPU among others -/

/-- An answer and the hub after it show of a GPU what this one makes of the call itself. -/
theorem Separated.answer?_by (h : hub.Separated) (hcall : call.NamesPdev)
    (hgpu : hub.gpu? id = some gpu) :
    ((hub.answer? call).bind (·.by? id)) = gpu.reply? call ∧
      (hub.afterCall call).gpu? id = some (gpu.afterCall call) := by
  cases call with
  | closeCycle =>
      refine ⟨rfl, ?_⟩
      simp only [Hub.afterCall, h.gpu?_closeCycle, hgpu, Option.map_some, IntelGpu.afterCall]
  | offer now record usage =>
      simp only [answer?, Hub.afterCall, Option.bind_some, Answer.by?]
      by_cases hc : Record.Concerns gpu.pdev record
      · obtain ⟨clientId, hid⟩ := Option.isSome_iff_exists.mp hc.2
        have hclaim := h.claimant?_of_concerns hcall hgpu hc
        rw [h.offer_of_some hclaim hgpu hid, IntelGpu.reply?_of_concerns hc hid,
          IntelGpu.afterCall_of_concerns hc hid, h.gpu?_keep, hgpu]
        exact ⟨if_pos rfl, if_pos rfl⟩
      · rw [IntelGpu.reply?_of_not_concerns hc, IntelGpu.afterCall_of_not_concerns hc]
        cases hclaim : claimant? hub.addresses record with
        | none =>
            rw [h.offer_of_none hclaim]
            exact ⟨rfl, hgpu⟩
        | some j =>
            -- Another listener takes the record, and its GPU is another one.
            obtain ⟨⟨g, hg, hcg⟩, -⟩ := claimant?_eq_some_iff.mp hclaim
            obtain ⟨clientId, hid⟩ := Option.isSome_iff_exists.mp hcg.2
            have hne : j ≠ id := by
              rintro rfl
              obtain rfl := Option.some.inj (hg.symm.trans hgpu)
              exact hc hcg
            rw [h.offer_of_some hclaim hg hid, h.gpu?_keep, if_neg hne]
            exact ⟨if_neg fun e => hne (Option.some.inj e), hgpu⟩

/-- A run of calls shows of a GPU what this one makes of the calls itself. -/
theorem Separated.answers_by (h : hub.Separated) (hcalls : ∀ call ∈ calls, call.NamesPdev)
    (hgpu : hub.gpu? id = some gpu) :
    (hub.answers calls).map (·.bind (·.by? id)) = gpu.replies calls ∧
      (hub.afterCalls calls).gpu? id = some (gpu.afterCalls calls) := by
  induction calls generalizing hub gpu with
  | nil => exact ⟨rfl, hgpu⟩
  | cons call later ih =>
      obtain ⟨hcall, hlater⟩ := List.forall_mem_cons.mp hcalls
      obtain ⟨hreply, hafter⟩ := h.answer?_by hcall hgpu
      obtain ⟨hreplies, hend⟩ := ih (h.afterCall call) hlater hafter
      exact ⟨congrArg₂ List.cons hreply hreplies, hend⟩

/-- A hub of one GPU. -/
theorem separated_ofGpus_singleton (gpu : IntelGpu) : (ofGpus [gpu]).Separated where
  toOfIntel := ofIntel_ofGpus [gpu]
  apart := List.nodup_singleton (some gpu.pdev)

/-! ## One record for one GPU -/

/-- A listener accepts a record if its GPU does. -/
theorem OfIntel.accepted_offerTo_iff (hI : hub.OfIntel) {now : Instant} {usage : Usage} :
    (hub.offerTo id now (.ofText record) usage).value.accepted = true ↔
      ∃ gpu, hub.gpu? id = some gpu ∧ Record.Concerns gpu.pdev record := by
  unfold offerTo gpu? deviceOf?
  cases hl : hub.listeners[id.index]? with
  | none => simp [Outcome.rejected]
  | some l =>
      have hreader := hI.reader l (List.mem_of_getElem? hl)
      change (l.offerRecord now record usage hub.pool).value.accepted = true ↔ _
      by_cases hc : ∃ gpu, hub.device? l.device = some gpu ∧ Record.Concerns gpu.pdev record
      · obtain ⟨gpu, hgpu, hconcerns⟩ := hc
        obtain ⟨clientId, hid⟩ := Option.isSome_iff_exists.mp hconcerns.2
        rw [Listener.offerRecord_of_belongs hreader hgpu hconcerns.1 hid]
        simp only [Logged.value_map, Outcome.map, IntelGpu.value_accept]
        exact iff_of_true trivial ⟨gpu, hgpu, hconcerns⟩
      · rw [Listener.offerRecord_of_not_concerns hreader fun gpu hgpu hconcerns =>
          hc ⟨gpu, hgpu, hconcerns⟩]
        exact iff_of_false Bool.false_ne_true hc

/-! ## Listeners in another order -/

/-- The GPUs that the listeners are attached to, in the order of attachment. -/
def gpus (hub : Hub IntelGpu) : List IntelGpu :=
  hub.listeners.filterMap fun l => hub.device? l.device

/-- The address of the GPU that a listener is attached to. -/
def pdevOf? (hub : Hub IntelGpu) (id : ListenerId) : Option String :=
  (hub.gpu? id).map (·.pdev)

/-- An answer with the address of the GPU in place of the name of the listener. -/
def addressed (hub : Hub IntelGpu) (a : Answer) : Option String × Usage × List Event :=
  (a.listener.bind hub.pdevOf?, a.usage, a.events)

theorem mem_gpus_iff : gpu ∈ hub.gpus ↔ ∃ id, hub.gpu? id = some gpu := by
  unfold gpus
  rw [List.mem_filterMap]
  constructor
  · rintro ⟨l, hl, hd⟩
    obtain ⟨i, hi, rfl⟩ := List.getElem_of_mem hl
    exact ⟨⟨i⟩, (gpu?_of_getElem? (List.getElem?_eq_getElem hi)).trans hd⟩
  · rintro ⟨id, hgpu⟩
    obtain ⟨l, hl, hd⟩ := exists_listener_of_gpu? hgpu
    exact ⟨l, List.mem_of_getElem? hl, hd⟩

theorem OfIntel.addresses_eq (hI : hub.OfIntel) :
    hub.addresses = hub.gpus.map fun gpu => some gpu.pdev := by
  unfold addresses gpus
  rw [List.map_filterMap, ← List.filterMap_eq_map]
  refine List.filterMap_congr fun l hl => ?_
  obtain ⟨gpu, hgpu⟩ := Option.isSome_iff_exists.mp (hI.present l hl)
  simp only [Function.comp_apply, hgpu, Option.map_some]

/-- The order of the listeners does not matter to the addresses. -/
theorem Separated.of_perm (h : hub.Separated) (hI' : hub'.OfIntel)
    (hperm : hub'.gpus.Perm hub.gpus) : hub'.Separated where
  toOfIntel := hI'
  apart := by
    have haddresses : hub'.addresses.Perm hub.addresses := by
      rw [hI'.addresses_eq, h.addresses_eq]
      exact hperm.map _
    exact haddresses.nodup_iff.mpr h.apart

theorem pdevOf?_eq (hub : Hub IntelGpu) (id : ListenerId) :
    hub.pdevOf? id = hub.addresses[id.index]?.join := by
  unfold pdevOf? gpu? deviceOf? addresses
  rw [List.getElem?_map]
  cases hub.listeners[id.index]? <;> rfl

theorem OfIntel.addressed_afterCall (hI : hub.OfIntel) (call : Call) :
    (hub.afterCall call).addressed = hub.addressed := by
  have hpdev : (hub.afterCall call).pdevOf? = hub.pdevOf? := by
    funext id
    rw [pdevOf?_eq, pdevOf?_eq, hI.addresses_afterCall]
  unfold addressed
  rw [hpdev]

/-- Every GPU of a hub makes of a call what it makes of it itself. -/
theorem Separated.gpus_afterCall (h : hub.Separated) (hcall : call.NamesPdev) :
    (hub.afterCall call).gpus = hub.gpus.map (·.afterCall call) := by
  unfold gpus
  rw [h.listeners_afterCall, List.map_filterMap]
  refine List.filterMap_congr fun l hl => ?_
  obtain ⟨gpu, hgpu⟩ := Option.isSome_iff_exists.mp (h.present l hl)
  obtain ⟨i, hi, rfl⟩ := List.getElem_of_mem hl
  have hat : hub.gpu? ⟨i⟩ = some gpu := (gpu?_of_getElem? (List.getElem?_eq_getElem hi)).trans hgpu
  have hl' : (hub.afterCall call).listeners[i]? = some hub.listeners[i] := by
    rw [h.listeners_afterCall]
    exact List.getElem?_eq_getElem hi
  rw [hgpu, Option.map_some, ← gpu?_of_getElem? hl']
  exact (h.answer?_by hcall hat).2

/-- In another order the answer to a call differs in the name of the listener only. -/
theorem Separated.answer?_perm (h : hub.Separated) (h' : hub'.Separated)
    (hperm : hub'.gpus.Perm hub.gpus) (hcall : call.NamesPdev) :
    (hub'.answer? call).map hub'.addressed = (hub.answer? call).map hub.addressed := by
  cases call with
  | closeCycle => rfl
  | offer now record usage =>
      cases hclaim : claimant? hub.addresses record with
      | none =>
          have hnone : claimant? hub'.addresses record = none := by
            refine claimant?_eq_none_iff.mpr fun id gpu hgpu => ?_
            obtain ⟨j, hj⟩ := mem_gpus_iff.mp (hperm.mem_iff.mp (mem_gpus_iff.mpr ⟨id, hgpu⟩))
            exact claimant?_eq_none_iff.mp hclaim j gpu hj
          simp only [answer?, h.offer_of_none hclaim, h'.offer_of_none hnone, Option.map_some]
          rfl
      | some id =>
          obtain ⟨⟨gpu, hgpu, hc⟩, -⟩ := claimant?_eq_some_iff.mp hclaim
          obtain ⟨clientId, hid⟩ := Option.isSome_iff_exists.mp hc.2
          obtain ⟨j, hj⟩ := mem_gpus_iff.mp (hperm.mem_iff.mpr (mem_gpus_iff.mpr ⟨id, hgpu⟩))
          have hclaim' := h'.claimant?_of_concerns hcall hj hc
          simp only [answer?, h.offer_of_some hclaim hgpu hid, h'.offer_of_some hclaim' hj hid,
            Option.map_some, addressed, Option.bind_some, pdevOf?, hgpu, hj]

/-- In another order a run of calls differs in the names of the listeners only. -/
theorem Separated.answers_perm (h : hub.Separated) (h' : hub'.Separated)
    (hperm : hub'.gpus.Perm hub.gpus) (hcalls : ∀ call ∈ calls, call.NamesPdev) :
    (hub'.answers calls).map (·.map hub'.addressed) =
        (hub.answers calls).map (·.map hub.addressed) ∧
      (hub'.afterCalls calls).gpus.Perm (hub.afterCalls calls).gpus := by
  induction calls generalizing hub hub' with
  | nil => exact ⟨rfl, hperm⟩
  | cons call later ih =>
      obtain ⟨hcall, hlater⟩ := List.forall_mem_cons.mp hcalls
      have hgpus : (hub'.afterCall call).gpus.Perm (hub.afterCall call).gpus := by
        rw [h'.gpus_afterCall hcall, h.gpus_afterCall hcall]
        exact hperm.map _
      obtain ⟨hanswers, hend⟩ := ih (h.afterCall call) (h'.afterCall call) hgpus hlater
      rw [h.addressed_afterCall, h'.addressed_afterCall] at hanswers
      exact ⟨congrArg₂ List.cons (h.answer?_perm h' hperm hcall) hanswers, hend⟩

/-! ## Isolation -/

/-- In any run of calls on GPUs at different addresses, whose records all name an address, every
GPU ends with the cache and gives the answers that it would on a hub of its own. At every point of
the run at most one listener accepts a record that names an address. A hub that listens to the same
GPUs in another order gives the same answers, but for the names of the listeners, and leaves the
same GPUs. -/
theorem Separated.isolated (h : hub.Separated) (hcalls : ∀ call ∈ calls, call.NamesPdev) :
    (∀ id gpu, hub.gpu? id = some gpu →
      (∃ last, (hub.afterCalls calls).gpu? id = some last ∧
        ((ofGpus [gpu]).afterCalls calls).gpu? ⟨0⟩ = some last) ∧
      (hub.answers calls).map (·.bind (·.by? id)) =
        ((ofGpus [gpu]).answers calls).map (·.bind (·.by? ⟨0⟩))) ∧
    (∀ i j now record usage, Record.NamesPdev record →
      ((hub.afterCalls calls).offerTo i now (.ofText record) usage).value.accepted = true →
      ((hub.afterCalls calls).offerTo j now (.ofText record) usage).value.accepted = true →
      i = j) ∧
    ∀ hub' : Hub IntelGpu, hub'.OfIntel → hub'.gpus.Perm hub.gpus →
      (hub'.answers calls).map (·.map hub'.addressed) =
          (hub.answers calls).map (·.map hub.addressed) ∧
        (hub'.afterCalls calls).gpus.Perm (hub.afterCalls calls).gpus := by
  refine ⟨?_, ?_, ?_⟩
  · intro id gpu hgpu
    obtain ⟨hanswers, hlast⟩ := h.answers_by hcalls hgpu
    have halone : (ofGpus [gpu]).gpu? ⟨0⟩ = some gpu := rfl
    obtain ⟨hanswers', hlast'⟩ := (separated_ofGpus_singleton gpu).answers_by hcalls halone
    exact ⟨⟨_, hlast, hlast'⟩, hanswers.trans hanswers'.symm⟩
  · intro i j now record usage hnamed hi hj
    have hend := h.afterCalls calls
    obtain ⟨g, hg, hc⟩ := hend.accepted_offerTo_iff.mp hi
    obtain ⟨g', hg', hc'⟩ := hend.accepted_offerTo_iff.mp hj
    exact hend.eq_of_concerns hnamed hg hg' hc hc'
  · intro hub' hI' hperm
    exact h.answers_perm (h.of_perm hI' hperm) hperm hcalls

/-- A record of one client with some addresses and a busy time of the rendering engines. -/
def recordAt (pdevs : List String) (ns : String) : String :=
  String.join (pdevs.map fun pdev => "drm-pdev:\t" ++ pdev ++ "\n") ++
    "drm-client-id:\t5\ndrm-engine-render:\t" ++ ns ++ " ns\n"

/-- A client renders on one GPU for half of the time. In between it shows up at another GPU too,
and in a record with the addresses of both. -/
def halfBusyBesides : List Call :=
  [.offer ⟨1000⟩ (recordAt ["0000:03:00.0"] "100") (.ofPid 7),
    .offer ⟨1000⟩ (recordAt ["0000:00:02.0"] "900") (.ofPid 7),
    .offer ⟨1000⟩ (recordAt ["0000:00:02.0", "0000:03:00.0"] "1") (.ofPid 7),
    .closeCycle,
    .offer ⟨2000⟩ (recordAt ["0000:03:00.0"] "600") (.ofPid 7)]

theorem isolated_halfBusy :
    let pair := ofGpus [.at "0000:00:02.0", .at "0000:03:00.0"]
    let swapped := ofGpus [.at "0000:03:00.0", .at "0000:00:02.0"]
    pair.Separated ∧ (∀ call ∈ halfBusyBesides, call.NamesPdev) ∧
      (pair.answers halfBusyBesides).map (·.bind (·.by? ⟨1⟩)) =
        [some ({ pid := 7, renderTime := some 100 }, []), none, none, none,
          some ({ pid := 7, renderTime := some 600, renderShare := some 50 }, [])] ∧
      (swapped.answers halfBusyBesides).map (·.map swapped.addressed) =
        (pair.answers halfBusyBesides).map (·.map pair.addressed) := by
  intro pair swapped
  have hpair : pair.Separated := ⟨ofIntel_ofGpus _, by decide +kernel⟩
  have hcalls : ∀ call ∈ halfBusyBesides, call.NamesPdev := by decide +kernel
  obtain ⟨halone, -, hperm⟩ := hpair.isolated hcalls
  refine ⟨hpair, hcalls, (halone ⟨1⟩ (.at "0000:03:00.0") rfl).2.trans ?_, ?_⟩
  · decide +kernel
  · exact (hperm swapped (ofIntel_ofGpus _) (.swap ..)).1

end Hub

end DrmUsage

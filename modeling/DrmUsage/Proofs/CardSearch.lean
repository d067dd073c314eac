-- SUMMARY: What one search of the Intel backend comes to: the GPUs recognised among the cards, filtered by the bits of the mask, and the failures of the broken cards.
import DrmUsage.Intel.Backend

/-!
# What a search comes to

A search goes through the cards once, with a count of the GPUs behind it. What it takes in can be
told without the loop: the GPUs as which cards are recognised, filtered by the bits at their
places, each taken in behind the one before; and of the failures of broken cards the last one is
kept (`IntelBackend.value_search`).
-/

namespace DrmUsage

namespace IntelBackend

/-! ## Cards -/

/-- The GPU as which a card is recognised, if it is one that is enabled and not broken. -/
def recognised? (fs : Snapshot) (card : DeviceDir) : Option IntelGpu :=
  (IntelGpu.ofCard fs card IntelGpu.vendorNumber IntelGpu.driverName).toOption.join

/-- The GPUs as which some cards are recognised, in the order of the cards. -/
def recognised (fs : Snapshot) (cards : List DeviceDir) : List IntelGpu :=
  cards.filterMap (recognised? fs)

/-- The failure of a card, if it is broken. -/
def brokenBy? (fs : Snapshot) (card : DeviceDir) : Option Failure :=
  match IntelGpu.ofCard fs card IntelGpu.vendorNumber IntelGpu.driverName with
  | .error cause => some cause
  | .ok _ => none

/-- The text of the failure that is kept after some broken cards. -/
def failureAfter (fs : Snapshot) (cards : List DeviceDir) (before : Option String) :
    Option String :=
  ((cards.filterMap (brokenBy? fs)).getLast?.map Failure.message).or before

theorem recognised?_eq_some_iff {fs : Snapshot} {card : DeviceDir} {gpu : IntelGpu} :
    recognised? fs card = some gpu ↔
      IntelGpu.ofCard fs card IntelGpu.vendorNumber IntelGpu.driverName = .ok (some gpu) := by
  unfold recognised?
  cases IntelGpu.ofCard fs card IntelGpu.vendorNumber IntelGpu.driverName with
  | error cause => exact iff_of_false (fun h => nomatch h) (fun h => nomatch h)
  | ok found => exact ⟨fun h => congrArg Except.ok h, fun h => Except.ok.inj h⟩

section One

variable {fs : Snapshot} {card : DeviceDir} {later : List DeviceDir}

theorem recognised_cons_of_ok {found : Option IntelGpu}
    (h : IntelGpu.ofCard fs card IntelGpu.vendorNumber IntelGpu.driverName = .ok found) :
    recognised fs (card :: later) = found.toList ++ recognised fs later := by
  unfold recognised recognised?
  rw [List.filterMap_cons, h]
  cases found <;> rfl

theorem recognised_cons_of_error {cause : Failure}
    (h : IntelGpu.ofCard fs card IntelGpu.vendorNumber IntelGpu.driverName = .error cause) :
    recognised fs (card :: later) = recognised fs later := by
  unfold recognised recognised?
  rw [List.filterMap_cons, h]
  rfl

theorem failureAfter_cons_of_ok {found : Option IntelGpu}
    (h : IntelGpu.ofCard fs card IntelGpu.vendorNumber IntelGpu.driverName = .ok found)
    (before : Option String) :
    failureAfter fs (card :: later) before = failureAfter fs later before := by
  unfold failureAfter brokenBy?
  rw [List.filterMap_cons, h]

/-- Each broken card takes the place of the failure before it. -/
theorem failureAfter_cons_of_error {cause : Failure}
    (h : IntelGpu.ofCard fs card IntelGpu.vendorNumber IntelGpu.driverName = .error cause)
    (before : Option String) :
    failureAfter fs (card :: later) before = failureAfter fs later (some cause.message) := by
  unfold failureAfter brokenBy?
  rw [List.filterMap_cons, h, List.getLast?_cons]
  cases (later.filterMap _).getLast? <;> rfl

end One

/-! ## Masks -/

/-- Whether there is no mask, or one that has a bit at a place and has it set. -/
def hasBit (mask : Option UInt64) (place : Nat) : Bool :=
  match mask with
  | none => true
  | some bits => place < 64 && bits.toNat.testBit place

/-- What is at the places where a mask has a bit; the first is at `start`. -/
def keptFrom {α : Type} (mask : Option UInt64) (start : Nat) (all : List α) : List α :=
  ((all.zipIdx start).filter (hasBit mask ·.2)).map Prod.fst

/-- What a mask keeps of a list. -/
def kept {α : Type} (mask : Option UInt64) (all : List α) : List α := keptFrom mask 0 all

/-- A word of 64 bits has no bit behind the last. -/
theorem picks_eq_hasBit (mask : Option UInt64) (place : Nat) :
    picks mask place = hasBit mask place := by
  cases mask with
  | none => rfl
  | some bits =>
      unfold picks hasBit
      rw [Option.all_some]
      by_cases h : place < 64
      · simp [h]
      · have hbits : bits.toNat < 2 ^ place :=
          Nat.lt_of_lt_of_le bits.toNat_lt
            (Nat.pow_le_pow_right (by decide) (Nat.le_of_not_lt h))
        simp [h, Nat.testBit_lt_two_pow hbits]

theorem keptFrom_cons {α : Type} (mask : Option UInt64) (start : Nat) (first : α)
    (later : List α) :
    keptFrom mask start (first :: later) =
      if hasBit mask start then first :: keptFrom mask (start + 1) later
      else keptFrom mask (start + 1) later := by
  unfold keptFrom
  rw [List.zipIdx_cons, List.filter_cons]
  split <;> rfl

/-! ## The search -/

variable {δ : Type} [HasIntel δ]

/-- Takes GPUs into the hub, each with its listener. -/
def adoptAll (hub : Hub δ) : List IntelGpu → List Handle × Hub δ
  | [] => ([], hub)
  | gpu :: later =>
    let (h, hub) := hub.adopt HasIntel.read (HasIntel.ofIntel gpu)
    let (handles, hub) := adoptAll hub later
    (h :: handles, hub)

/-- The loop takes in what the mask keeps of the GPUs that are recognised, and keeps the failure
of the last broken card. -/
theorem value_search (fs : Snapshot) (mask : Option UInt64) (cards : List DeviceDir)
    (accepted : Nat) (b : IntelBackend) (hub : Hub δ) :
    let taken := adoptAll hub (keptFrom mask accepted (recognised fs cards))
    (search fs mask cards accepted b hub).value =
      ⟨taken.1, { b with
        handles := b.handles ++ taken.1
        failure := failureAfter fs cards b.failure }, taken.2⟩ := by
  induction cards generalizing accepted b hub with
  | nil =>
      intro taken
      have htaken : taken = ([], hub) := rfl
      rw [htaken, List.append_nil]
      rfl
  | cons card later ih =>
      cases hcard : IntelGpu.ofCard fs card IntelGpu.vendorNumber IntelGpu.driverName with
      | error cause =>
          simp only [search, hcard, Logged.value_bind, ih, recognised_cons_of_error hcard,
            failureAfter_cons_of_error hcard]
      | ok found =>
          rw [recognised_cons_of_ok hcard, failureAfter_cons_of_ok hcard]
          cases found with
          | none => simp only [search, hcard, ih, Option.toList_none, List.nil_append]
          | some gpu =>
              rw [Option.toList_some, List.singleton_append, keptFrom_cons, ← picks_eq_hasBit]
              by_cases hpicked : picks mask accepted = true
              · simp only [search, hcard, hpicked, if_true, Logged.value_bind, Logged.value_pure,
                  ih, adoptAll, List.append_assoc, List.singleton_append]
              · simp only [search, hcard, hpicked, Bool.false_eq_true, if_false,
                  Logged.value_bind, ih]

/-- A search takes in what the mask keeps of the GPUs that are recognised. -/
theorem value_find {fs : Snapshot} {b : IntelBackend} {cs : List DeviceDir}
    (hcards : cards fs b.mounts = .ok cs) (mask : Option UInt64) (hub : Hub δ) :
    let taken := adoptAll hub (kept mask (recognised fs cs))
    (find fs mask b hub).value =
      ⟨answer taken.1, { b with
        handles := b.handles ++ taken.1
        failure := failureAfter fs cs b.failure }, taken.2⟩ := by
  simp only [find, hcards, Logged.value_bind, Logged.value_pure, value_search, kept]

/-- A search that cannot list the cards keeps the failure and does nothing else. -/
theorem value_find_of_error {fs : Snapshot} {b : IntelBackend} {cause : Failure}
    (hcards : cards fs b.mounts = .error cause) (mask : Option UInt64) (hub : Hub δ) :
    (find fs mask b hub).value =
      ⟨.error cause, { b with failure := some cause.message }, hub⟩ := by
  simp only [find, hcards, Logged.value_pure]

end IntelBackend

end DrmUsage

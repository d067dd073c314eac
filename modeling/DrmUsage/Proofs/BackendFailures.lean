-- SUMMARY: Which failure the Intel backend tells after any searches and releases, and the one that it never tells.
import DrmUsage.Proofs.BackendMemory

/-!
# The failure that the Intel backend tells

A search notes the failure to list the cards, or else the failure of each card
that is broken. The backend keeps the text of the last failure that was noted,
through releases and through searches that note none
(`IntelBackend.failure_afterCalls`). That nothing was found is answered and never
noted. So the failure of a search is told afterwards exactly if it was the
failure to list the cards (`IntelBackend.lastFailure_of_search`); after a search
that found nothing, an older failure is told or none at all
(`IntelBackend.untold_of_noCards`).
-/

namespace DrmUsage

/-! ## Wordings -/

namespace Failure

/-- The letter with which the wording starts. -/
def initial : Failure → Char
  | .noDevices _ => 'N'
  | .unlistable _ _ => 'D'
  | .lacksProperty _ _ => 'D'
  | .forbidden _ => 'P'
  | .unprepared _ _ => 'F'

theorem head?_message (failure : Failure) :
    failure.message.toList.head? = some failure.initial := by
  cases failure with
  | noDevices vendor =>
      change ("No " ++ vendor ++ _ : String).toList.head? = _
      simp [initial]
  | unlistable directory cause =>
      change ("Device enumeration unavailable at " ++ directory.shown ++ _ ++ _ :
        String).toList.head? = _
      simp [initial]
  | lacksProperty device property =>
      change ("Device " ++ device.shown ++ _ ++ _ ++ _ : String).toList.head? = _
      simp [initial]
  | forbidden cause =>
      change ("Permission denied: " ++ cause ++ _ : String).toList.head? = _
      simp [initial]
  | unprepared vendor cause =>
      change ("Failed to initialize " ++ vendor ++ _ ++ _ : String).toList.head? = _
      simp [initial]

/-- No other failure is worded like the one of a vendor without devices. -/
theorem eq_of_message_eq_noDevices {failure : Failure} {vendor : String}
    (h : failure.message = (noDevices vendor).message) : failure = .noDevices vendor := by
  have hinitial : failure.initial = 'N' := by
    have hhead := head?_message failure
    rw [h, head?_message] at hhead
    exact (Option.some.inj hhead).symm
  cases failure with
  | noDevices other =>
      change "No " ++ other ++ " GPU found on this system" =
        "No " ++ vendor ++ " GPU found on this system" at h
      simpa using h
  | unlistable directory cause => exact absurd hinitial (show 'D' ≠ 'N' by decide)
  | lacksProperty device property => exact absurd hinitial (show 'D' ≠ 'N' by decide)
  | forbidden cause => exact absurd hinitial (show 'P' ≠ 'N' by decide)
  | unprepared vendor cause => exact absurd hinitial (show 'F' ≠ 'N' by decide)

end Failure

namespace IntelBackend

/-! ## What a search notes -/

/-- The failures that a search notes: the one to list the cards, or those of the broken cards in
the order of the cards. -/
def noted (mounts : Mounts) (fs : Snapshot) : List Failure :=
  match cards fs mounts with
  | .error cause => [cause]
  | .ok cards => cards.filterMap (brokenBy? fs)

/-- A card is broken only by the lack of its address. -/
theorem eq_of_brokenBy? {fs : Snapshot} {card : DeviceDir} {failure : Failure}
    (h : brokenBy? fs card = some failure) :
    ∃ parent, failure = .lacksProperty parent IntelGpu.slotProperty := by
  unfold brokenBy? IntelGpu.ofCard at h
  cases hparent : card.parent? fs with
  | none =>
      rw [hparent] at h
      exact nomatch h
  | some parent =>
      rw [hparent] at h
      dsimp only at h
      split at h
      · rename_i cause hcause
        split at hcause
        · split at hcause
          · exact ⟨parent.path, by rw [← Option.some.inj h, ← Except.error.inj hcause]⟩
          · exact nomatch hcause
        · exact nomatch hcause
      · exact nomatch h

theorem exists_ofListing_of_cards {fs : Snapshot} {mounts : Mounts} {failure : Failure}
    (h : cards fs mounts = .error failure) :
    ∃ cause, failure = .ofListing mounts.cardDirectory cause := by
  unfold cards at h
  dsimp only at h
  split at h
  · rename_i cause _
    exact ⟨cause, (Except.error.inj h).symm⟩
  · exact nomatch h

/-- That a vendor has no devices is noted by no search. -/
theorem noDevices_notMem_noted (mounts : Mounts) (fs : Snapshot) (vendor : String) :
    .noDevices vendor ∉ noted mounts fs := by
  unfold noted
  intro hmem
  cases hcards : cards fs mounts with
  | error failure =>
      rw [hcards] at hmem
      obtain ⟨cause, hcause⟩ := exists_ofListing_of_cards hcards
      rw [← List.mem_singleton.mp hmem] at hcause
      rcases Failure.ofListing_eq mounts.cardDirectory cause with h | h
      · exact nomatch hcause.trans h
      · exact nomatch hcause.trans h
  | ok cs =>
      rw [hcards] at hmem
      obtain ⟨card, -, hbroken⟩ := List.mem_filterMap.mp hmem
      obtain ⟨parent, hfailure⟩ := eq_of_brokenBy? hbroken
      exact nomatch hfailure

variable {δ : Type}

/-- The failures that a call notes. -/
def notedBy (mounts : Mounts) : Call δ → List Failure
  | .find fs _ _ => noted mounts fs
  | .release => []

theorem noDevices_notMem_flatMap_notedBy (mounts : Mounts) (calls : List (Call δ))
    (vendor : String) : .noDevices vendor ∉ calls.flatMap (notedBy mounts) := by
  intro hmem
  obtain ⟨call, -, hcall⟩ := List.mem_flatMap.mp hmem
  cases call with
  | find fs mask hub => exact noDevices_notMem_noted mounts fs vendor hcall
  | release => exact absurd hcall List.not_mem_nil

variable [HasIntel δ]

/-- A search keeps the last failure that it notes, or the one of before if it notes none. -/
theorem failure_find (fs : Snapshot) (mask : Option UInt64) (b : IntelBackend) (hub : Hub δ) :
    (find fs mask b hub).value.state.failure =
      ((noted b.mounts fs).getLast?.map Failure.message).or b.failure := by
  unfold noted
  cases hcards : cards fs b.mounts with
  | error cause => rw [value_find_of_error hcards, List.getLast?_singleton, Option.map_some,
      Option.some_or]
  | ok cs => rw [value_find hcards, failureAfter]

/-- Where the cards can be listed, only the lack of GPUs makes a search fail. -/
theorem eq_of_devices_find {fs : Snapshot} {mask : Option UInt64} {b : IntelBackend} {hub : Hub δ}
    {cs : List DeviceDir} {failure : Failure} (hcards : cards fs b.mounts = .ok cs)
    (h : (find fs mask b hub).value.devices = .error failure) : failure = .noDevices name := by
  simp only [value_find hcards, answer] at h
  split at h
  · exact (Except.error.inj h).symm
  · cases h

theorem mounts_find (fs : Snapshot) (mask : Option UInt64) (b : IntelBackend) (hub : Hub δ) :
    (find fs mask b hub).value.state.mounts = b.mounts := by
  cases hcards : cards fs b.mounts with
  | error cause => rw [value_find_of_error hcards]
  | ok cs => rw [value_find hcards]

/-! ## Runs -/

theorem mounts_afterCalls (b : IntelBackend) (calls : List (Call δ)) :
    (b.afterCalls calls).mounts = b.mounts := by
  induction calls using List.reverseRecOn with
  | nil => rfl
  | append_singleton calls call ih =>
      rw [afterCalls_concat, ← ih]
      cases call with
      | find fs mask hub => exact mounts_find fs mask _ hub
      | release => rfl

/-- After any calls the backend keeps the last failure that any of them noted. -/
theorem failure_afterCalls (b : IntelBackend) (calls : List (Call δ)) :
    (b.afterCalls calls).failure =
      ((calls.flatMap (notedBy b.mounts)).getLast?.map Failure.message).or b.failure := by
  induction calls using List.reverseRecOn with
  | nil => rfl
  | append_singleton calls call ih =>
      rw [afterCalls_concat, List.flatMap_append, List.flatMap_singleton, List.getLast?_append]
      cases call with
      | find fs mask hub =>
          refine (failure_find fs mask _ hub).trans ?_
          rw [ih, mounts_afterCalls, notedBy, ← Option.or_assoc, Option.map_or]
      | release => exact ih

/-- After any calls and a search, the backend tells the last failure that any of them noted, and
none if none did. So it tells the failure of the search itself exactly if this was the failure to
list the cards, and never that no GPU was found. -/
theorem lastFailure_of_search (mounts : Mounts) (calls : List (Call δ)) (fs : Snapshot)
    (mask : Option UInt64) (hub : Hub δ) :
    let found := (find fs mask (afterCalls { mounts } calls) hub).value
    found.state.lastFailure =
      ((calls.flatMap (notedBy mounts) ++ noted mounts fs).getLast?.map Failure.message).getD
        "Err" ∧
    ∀ failure, found.devices = .error failure →
      (found.state.lastFailure = failure.message ↔ cards fs mounts = .error failure) := by
  intro found
  have hmounts : (afterCalls { mounts } calls).mounts = mounts := mounts_afterCalls _ calls
  have htold : found.state.lastFailure =
      ((calls.flatMap (notedBy mounts) ++ noted mounts fs).getLast?.map Failure.message).getD
        "Err" := by
    unfold lastFailure
    rw [failure_find, failure_afterCalls, hmounts, Option.or_none, ← Option.map_or,
      ← List.getLast?_append]
  refine ⟨htold, fun failure hfailure => ?_⟩
  cases hcards : cards fs mounts with
  | error cause =>
      obtain rfl : cause = failure := by
        simpa [found, find, hmounts, hcards] using hfailure
      refine iff_of_true ?_ rfl
      have hnoted : noted mounts fs = [cause] := by rw [noted, hcards]
      rw [htold, hnoted, List.getLast?_concat]
      rfl
  | ok cs =>
      obtain rfl : failure = .noDevices name := eq_of_devices_find (hmounts.symm ▸ hcards) hfailure
      refine iff_of_false (fun h => ?_) (by simp only [reduceCtorEq, not_false_eq_true])
      -- nothing that was noted has these words, and neither has what is told if nothing was noted
      rw [htold] at h
      cases hlast : (calls.flatMap (notedBy mounts) ++ noted mounts fs).getLast? with
      | none =>
          rw [hlast] at h
          exact absurd h (by decide +kernel)
      | some last =>
          rw [hlast] at h
          obtain rfl := Failure.eq_of_message_eq_noDevices h
          rcases List.mem_append.mp (List.mem_of_getLast? hlast) with hmem | hmem
          · exact noDevices_notMem_flatMap_notedBy mounts calls name hmem
          · exact noDevices_notMem_noted mounts fs name hmem

/-- On a system without cards a search answers that there is no GPU, and nothing is told of it
afterwards. -/
theorem untold_of_noCards :
    let found := (find (.ofIntelCards []) none { mounts := .usual } (.empty : Hub IntelGpu)).value
    found.devices = .error (.noDevices "Intel") ∧ found.state.lastFailure = "Err" ∧
      found.state.lastFailure ≠ (Failure.noDevices "Intel").message := by
  decide +kernel

end IntelBackend

end DrmUsage

-- SUMMARY: What the Intel backend remembers over searches and releases: the devices of every search since the last release.
import Mathlib.Data.List.DropRight
import Mathlib.Data.List.Induction
import DrmUsage.Proofs.CardSearch

/-!
# The memory of the Intel backend

A search appends the devices that it found to those that the backend holds, and
only a release takes any away. So what the backend holds is told by the answers
to the calls since the last release (`IntelBackend.handles_afterCalls`). It is
the answer of the last search alone exactly if every search before it failed
(`IntelBackend.handles_of_search`); otherwise devices of earlier searches stay
(`IntelBackend.stale_after_second_search`).
-/

namespace DrmUsage

namespace IntelBackend

/-! ## Calls -/

/-- What can be done to a backend: a search, with what the files say at its time, a mask and the
hub at hand, or a release. -/
inductive Call (δ : Type) where
  | find (fs : Snapshot) (mask : Option UInt64) (hub : Hub δ)
  | release

/-- What the caller learns: the handles of a search or its failure, and nothing of a release. -/
abbrev Answer := Option (Except Failure (List Handle))

/-- The handles in an answer. -/
def Answer.handles : Answer → List Handle
  | some (.ok handles) => handles
  | some (.error _) => []
  | none => []

/-- The answers since the last release, or since the start if there was none. -/
def sinceRelease (answers : List Answer) : List Answer := answers.rtakeWhile Option.isSome

variable {δ : Type} [HasIntel δ]

/-- The backend after a call. -/
def afterCall (b : IntelBackend) : Call δ → IntelBackend
  | .find fs mask hub => (find fs mask b hub).value.state
  | .release => b.release

/-- The answer to a call. -/
def answerTo (b : IntelBackend) : Call δ → Answer
  | .find fs mask hub => some (find fs mask b hub).value.devices
  | .release => none

/-- The backend after some calls. -/
def afterCalls (b : IntelBackend) (calls : List (Call δ)) : IntelBackend := calls.foldl afterCall b

/-- The answers to some calls, one for each. -/
def answersTo (b : IntelBackend) : List (Call δ) → List Answer
  | [] => []
  | call :: later => b.answerTo call :: (b.afterCall call).answersTo later

/-! ## One search -/

theorem handles_answer (handles : List Handle) :
    Answer.handles (some (answer handles)) = handles := by
  cases handles <;> rfl

/-- A search that succeeds brings a device. -/
theorem answer_ne_ok_nil (handles : List Handle) : answer handles ≠ .ok [] := by
  cases handles <;> simp [answer]

/-- What a search answers, the backend holds behind what it held before. -/
theorem handles_find (fs : Snapshot) (mask : Option UInt64) (b : IntelBackend) (hub : Hub δ) :
    (find fs mask b hub).value.state.handles =
      b.handles ++ Answer.handles (some (find fs mask b hub).value.devices) := by
  cases hcards : cards fs b.mounts with
  | error cause =>
      rw [value_find_of_error hcards]
      exact (List.append_nil _).symm
  | ok cs => rw [value_find hcards, handles_answer]

theorem devices_find_ne_ok_nil (fs : Snapshot) (mask : Option UInt64) (b : IntelBackend)
    (hub : Hub δ) : (find fs mask b hub).value.devices ≠ .ok [] := by
  cases hcards : cards fs b.mounts with
  | error cause =>
      rw [value_find_of_error hcards]
      exact fun h => nomatch h
  | ok cs =>
      rw [value_find hcards]
      exact answer_ne_ok_nil _

/-! ## Runs -/

theorem afterCalls_concat (b : IntelBackend) (calls : List (Call δ)) (call : Call δ) :
    b.afterCalls (calls ++ [call]) = (b.afterCalls calls).afterCall call :=
  List.foldl_concat ..

theorem answersTo_concat (b : IntelBackend) (calls : List (Call δ)) (call : Call δ) :
    b.answersTo (calls ++ [call]) = b.answersTo calls ++ [(b.afterCalls calls).answerTo call] := by
  induction calls generalizing b with
  | nil => rfl
  | cons first later ih => exact congrArg (b.answerTo first :: ·) (ih (b.afterCall first))

/-- What the backend holds is what was answered since the last release. -/
theorem handles_afterCalls {b : IntelBackend} (hnew : b.handles = []) (calls : List (Call δ)) :
    (b.afterCalls calls).handles = (sinceRelease (b.answersTo calls)).flatMap Answer.handles := by
  induction calls using List.reverseRecOn with
  | nil => exact hnew
  | append_singleton calls call ih =>
      rw [afterCalls_concat, answersTo_concat]
      unfold sinceRelease at ih ⊢
      cases call with
      | find fs mask hub =>
          rw [List.rtakeWhile_concat_pos _ _ _ rfl, List.flatMap_append, List.flatMap_singleton,
            ← ih]
          exact handles_find fs mask _ hub
      | release =>
          rw [List.rtakeWhile_concat_neg _ _ _ Bool.false_ne_true]
          rfl

/-- No search of a run succeeds without a device. -/
theorem ok_nil_notMem_answersTo (b : IntelBackend) (calls : List (Call δ)) :
    some (.ok []) ∉ b.answersTo calls := by
  induction calls using List.reverseRecOn with
  | nil => exact List.not_mem_nil
  | append_singleton calls call ih =>
      rw [answersTo_concat, List.mem_append, List.mem_singleton, not_or]
      refine ⟨ih, ?_⟩
      cases call with
      | find fs mask hub =>
          exact fun h => devices_find_ne_ok_nil fs mask _ hub (Option.some.inj h).symm
      | release => exact Option.some_ne_none _

/-- Nothing was found since the last release exactly if every search since then failed. -/
theorem flatMap_handles_eq_nil_iff (b : IntelBackend) (calls : List (Call δ)) :
    (sinceRelease (b.answersTo calls)).flatMap Answer.handles = [] ↔
      ∀ answer ∈ sinceRelease (b.answersTo calls), ∃ failure, answer = some (.error failure) := by
  rw [List.flatMap_eq_nil_iff]
  refine forall₂_congr fun answer hmem => ?_
  have hsearch : answer.isSome := List.mem_rtakeWhile_imp hmem
  have hbrings : answer ≠ some (.ok []) := by
    rintro rfl
    exact ok_nil_notMem_answersTo b calls ((List.rtakeWhile_suffix ..).subset hmem)
  match answer with
  | none => exact absurd hsearch Bool.false_ne_true
  | some (.error failure) => exact iff_of_true rfl ⟨failure, rfl⟩
  | some (.ok handles) =>
      refine iff_of_false ?_ (fun ⟨_, h⟩ => nomatch h)
      rintro rfl
      exact hbrings rfl

/-- After any calls, a search that succeeds leaves the backend with the devices found since the
last release, in the order in which they were found, and its own behind them. These are its own
alone exactly if every search since the last release failed. -/
theorem handles_of_search (mounts : Mounts) (calls : List (Call δ)) {fs : Snapshot}
    {mask : Option UInt64} {hub : Hub δ} {handles : List Handle}
    (hfind : (find fs mask (afterCalls { mounts } calls) hub).value.devices = .ok handles) :
    let before := sinceRelease (answersTo { mounts } calls)
    let state := (find fs mask (afterCalls { mounts } calls) hub).value.state
    state.handles = before.flatMap Answer.handles ++ handles ∧
      (state.handles = handles ↔ ∀ answer ∈ before, ∃ failure, answer = some (.error failure)) := by
  intro before state
  have hheld : state.handles = before.flatMap Answer.handles ++ handles := by
    have hstate := handles_find fs mask (afterCalls { mounts } calls) hub
    rw [hfind, handles_afterCalls rfl] at hstate
    exact hstate
  refine ⟨hheld, ?_⟩
  rw [hheld, List.append_left_eq_self]
  exact flatMap_handles_eq_nil_iff _ calls

end IntelBackend

/-! ## Small systems -/

/-- The files of a system whose cards, given by their names, are GPUs of Intel at some slots. -/
def Snapshot.ofIntelCards (cards : List (String × String)) : Snapshot where
  list path :=
    if path = ⟨"/sys/class/drm"⟩ then .ok (cards.map (RawText.ofText ·.1)) else .error .notFound
  readText path :=
    match cards.findSome? fun (name, slot) =>
      ([("/uevent", "DEVNAME=dri/" ++ name), ("/device/vendor", "0x8086"), ("/device/enable", "1"),
        ("/device/uevent", "PCI_SLOT_NAME=" ++ slot)].find?
          fun (file, _) => path = ⟨"/sys/class/drm/" ++ name ++ file⟩).map (·.2) with
    | some text => .ok text
    | none => .error .notFound
  readLink path :=
    if cards.any fun (name, _) => path = ⟨"/sys/class/drm/" ++ name ++ "/device/driver"⟩ then
      .ok "../../bus/pci/drivers/i915"
    else .error .notFound
  isDirectory _ := true

namespace IntelBackend

/-- A system with one GPU. -/
def oneCard : Snapshot := .ofIntelCards [("card0", "0000:00:02.0")]

/-- The first search on it. -/
def firstSearch : Call IntelGpu := .find oneCard none .empty

theorem handles_of_search_afterRelease :
    (find oneCard none (afterCalls { mounts := .usual } [firstSearch, .release])
      (.empty : Hub IntelGpu)).value.state.handles = [⟨0⟩] := by
  have hfind : (find oneCard none (afterCalls { mounts := .usual } [firstSearch, .release])
      (.empty : Hub IntelGpu)).value.devices = .ok [⟨0⟩] := by
    decide +kernel
  refine ((handles_of_search .usual _ hfind).2).mpr fun answer hmem => ?_
  have hnone : sinceRelease (answersTo { mounts := .usual } [firstSearch, .release]) = [] :=
    List.rtakeWhile_concat_neg _ [answerTo { mounts := .usual } firstSearch] _ Bool.false_ne_true
  rw [hnone] at hmem
  exact absurd hmem List.not_mem_nil

/-- A second search finds the GPU again, under a new handle, and the backend holds both. -/
theorem stale_after_second_search :
    let first := (find oneCard none { mounts := .usual } (.empty : Hub IntelGpu)).value
    let second := (find oneCard none first.state first.hub).value
    first.devices = .ok [⟨0⟩] ∧ second.devices = .ok [⟨1⟩] ∧
      second.state.handles = [⟨0⟩, ⟨1⟩] ∧ second.devices ≠ .ok second.state.handles := by
  decide +kernel

end IntelBackend

end DrmUsage

-- SUMMARY: The vendors' backends: a search for GPUs over all of them, and their release.
import DrmUsage.Hub

/-!
# Backends

The GPUs of each vendor are found by a backend. A backend is a set of
operations on a state that all backends of a program share, so that two entries
of a list may mean the same backend and a caller can look at a backend's state
afterwards (`Part`). A search asks the backends in the order in which they were
added; one that fails does not keep the others from being asked.
-/

namespace DrmUsage

/-! ## One backend -/

/-- A part `σ` of a state `τ`, to be looked at and replaced. -/
structure Part (τ σ : Type) where
  get : τ → σ
  set : σ → τ → τ
  get_set : ∀ s t, get (set s t) = s

/-- The whole of a state. -/
def Part.whole {σ : Type} : Part σ σ := ⟨id, fun s _ => s, fun _ _ => rfl⟩

/-- What came of a search: the handles of the devices found or a failure, and
the two states afterwards. -/
structure Found (τ δ : Type) where
  devices : Except Failure (List Handle)
  state : τ
  hub : Hub δ

/-- The backend of one vendor, with states in `τ` and devices in `δ`. -/
structure Backend (τ δ : Type) [Gpu δ] where
  /-- The name of the vendor. -/
  name : String
  /-- Prepares the backend; false if it cannot be used. -/
  prepare : τ → Bool × τ
  /-- Gives up what the backend holds. -/
  release : τ → τ
  /-- Tells the last failure. -/
  lastFailure : τ → String
  /-- Finds devices, takes them into the hub and attaches their listeners. Of
  the devices found, a mask keeps those at the positions of its set bits. -/
  find : Snapshot → Option UInt64 → τ → Hub δ → Logged (Found τ δ)
  /-- Finds out what does not change about a device. -/
  identify : Snapshot → Handle → Hub δ → Hub δ := fun fs h hub => hub.identify fs h
  /-- Measures a device again. -/
  measure : Snapshot → Handle → Hub δ → Hub δ := fun fs h hub => hub.measure fs h
  /-- Closes the cycle of a device. -/
  closeCycle : Handle → Hub δ → Hub δ := fun h hub => hub.closeCycleOf h

/-! ## All backends -/

/-- The backends of a program, and the failures of those that could not be
prepared in the last search. -/
structure Vendors (τ δ : Type) [Gpu δ] where
  backends : List (Backend τ δ) := []
  unprepared : List Failure := []

/-- What came of a search over several backends. -/
structure Survey (τ δ : Type) where
  handles : List Handle
  unprepared : List Failure
  state : τ
  hub : Hub δ

namespace Vendors

variable {τ δ : Type} [Gpu δ]

/-- No backends. -/
def empty : Vendors τ δ := {}

/-- Adds a backend behind the others. -/
def add (vendors : Vendors τ δ) (backend : Backend τ δ) : Logged (Vendors τ δ) := do
  Logged.note (.backendAdded backend.name)
  pure { vendors with backends := vendors.backends ++ [backend] }

/-- The names of the vendors. -/
def names (vendors : Vendors τ δ) : List String := vendors.backends.map (·.name)

/-- The answer of a search that found these devices. -/
def answer : List Handle → Except Failure (List Handle)
  | [] => .error (.noDevices "supported")
  | handles => .ok handles

/-- Has some backends find their devices, one after the other, and finds out
what does not change about each. -/
def survey (fs : Snapshot) (mask : Option UInt64) :
    List (Backend τ δ) → τ → Hub δ → Logged (Survey τ δ)
  | [], state, hub => pure ⟨[], [], state, hub⟩
  | backend :: later, state, hub => do
    let (ready, state) := backend.prepare state
    if ready then
      let found ← backend.find fs mask state hub
      match found.devices with
      | .ok handles =>
        let hub := handles.foldl (fun hub h => backend.identify fs h hub) found.hub
        Logged.note (.devicesFound backend.name handles.length)
        let rest ← survey fs mask later found.state hub
        pure { rest with handles := handles ++ rest.handles }
      | .error failure =>
        Logged.note (.searchFailed backend.name failure)
        survey fs mask later found.state found.hub
    else
      let failure := Failure.unprepared backend.name (backend.lastFailure state)
      Logged.note (.backendUnprepared failure)
      let rest ← survey fs mask later state hub
      pure { rest with unprepared := failure :: rest.unprepared }

/-- Finds the devices of all backends. -/
def find (vendors : Vendors τ δ) (fs : Snapshot) (mask : Option UInt64) (state : τ)
    (hub : Hub δ) : Logged (Found τ δ × Vendors τ δ) := do
  let survey ← survey fs mask vendors.backends state hub
  pure (⟨answer survey.handles, survey.state, survey.hub⟩,
    { vendors with unprepared := survey.unprepared })

/-- Releases every backend, in order. -/
def release (vendors : Vendors τ δ) (state : τ) : τ :=
  vendors.backends.foldl (fun state backend => backend.release state) state

end Vendors

end DrmUsage

-- SUMMARY: The backend of Intel GPUs: which cards it takes, and what it remembers.
import DrmUsage.Backend
import DrmUsage.Intel.Gpu

/-!
# The Intel backend

The cards of the system are looked at in order. Those that are Intel GPUs are
counted, and a mask picks among them by their count, so a card of another vendor
or a broken one takes no bit. What is picked is taken into the hub, gets a
listener, and is remembered behind the devices of earlier searches.
-/

namespace DrmUsage

/-- The state of the backend. -/
structure IntelBackend where
  mounts : Mounts
  /-- All devices taken in since the last release. -/
  handles : List Handle := []
  /-- The text of the last failure that was noted. -/
  failure : Option String := none
deriving DecidableEq, Repr

namespace IntelBackend

/-- The name of the vendor. -/
def name : String := "Intel"

/-- The text of the last failure. -/
def lastFailure (b : IntelBackend) : String := b.failure.getD "Err"

/-- Forgets the devices. -/
def release (b : IntelBackend) : IntelBackend := { b with handles := [] }

/-! ## Which cards are taken -/

/-- Whether a mask picks the device at a position. There is no bit behind the
last of the word. -/
def picks (mask : Option UInt64) (position : Nat) : Bool :=
  mask.all fun bits => bits.toNat.testBit position

/-! ## Searches -/

variable {δ : Type} [HasIntel δ]

/-- What a look at some cards brings: the devices taken in, and the backend and
the hub afterwards. -/
structure Haul (δ : Type) where
  handles : List Handle
  state : IntelBackend
  hub : Hub δ

/-- Looks at cards in their order and takes in the Intel GPUs that the mask
picks. Before these cards there were `accepted` Intel GPUs, picked or not. -/
def search (fs : Snapshot) (mask : Option UInt64) :
    List DeviceDir → Nat → IntelBackend → Hub δ → Logged (Haul δ)
  | [], _, b, hub => pure ⟨[], b, hub⟩
  | card :: later, accepted, b, hub =>
    match IntelGpu.ofCard fs card IntelGpu.vendorNumber IntelGpu.driverName with
    | .ok none => search fs mask later accepted b hub
    | .error cause => do
      Logged.note (.gpuSkipped cause)
      search fs mask later accepted { b with failure := some cause.message } hub
    | .ok (some gpu) =>
      if picks mask accepted then do
        let (h, hub) := hub.adopt HasIntel.read (HasIntel.ofIntel gpu)
        let haul ← search fs mask later (accepted + 1) { b with handles := b.handles ++ [h] } hub
        pure { haul with handles := h :: haul.handles }
      else do
        Logged.note (.gpuMasked gpu.pdev)
        search fs mask later (accepted + 1) b hub

/-- The answer of a search that took these devices in. -/
def answer : List Handle → Except Failure (List Handle)
  | [] => .error (.noDevices name)
  | handles => .ok handles

/-- Finds the Intel GPUs of the system and takes in those that the mask
picks. -/
def find (fs : Snapshot) (mask : Option UInt64) (b : IntelBackend) (hub : Hub δ) :
    Logged (Found IntelBackend δ) :=
  match cards fs b.mounts with
  | .error cause => pure ⟨.error cause, { b with failure := some cause.message }, hub⟩
  | .ok cards => do
    let haul ← search fs mask cards 0 b hub
    pure ⟨answer haul.handles, haul.state, haul.hub⟩

/-- The backend of Intel GPUs, with its state in a part of the shared one. -/
def backend {τ : Type} [Gpu δ] (part : Part τ IntelBackend) : Backend τ δ where
  name := name
  prepare := fun state => (true, state)
  release := fun state => part.set (part.get state).release state
  lastFailure := fun state => (part.get state).lastFailure
  find := fun fs mask state hub => do
    let found ← find fs mask (part.get state) hub
    pure ⟨found.devices, part.set found.state state, found.hub⟩

end IntelBackend

/-- The backends that the library brings. Their devices need not be present. -/
def Vendors.standard {τ δ : Type} [Gpu δ] [HasIntel δ] (intel : Part τ IntelBackend) :
    Logged (Vendors τ δ) :=
  Vendors.empty.add (IntelBackend.backend intel)

end DrmUsage

-- SUMMARY: The events that are worth a line in the log, with their levels and wording.
import DrmUsage.Failure
import DrmUsage.Text.Source
import DrmUsage.Usage

/-!
# Events

What the library would tell an operator is data: an event names what happened,
and its level and wording follow from it. Events never change an answer.
-/

namespace DrmUsage

/-- How much an event matters. -/
inductive Level where
  | debug
  | warn
  | error
deriving DecidableEq, Repr

/-- The name of a level. -/
def Level.name : Level → String
  | .debug => "debug"
  | .warn => "warn"
  | .error => "error"

/-- What happened. -/
inductive Event where
  /-- A record of a client that was already recorded in this cycle. -/
  | duplicateIgnored (client : Client)
  /-- The reading of a process's record ended early. -/
  | readingStopped (pid : Int32) (cause : Text.ReadFailure)
  /-- Nobody accepted a record. -/
  | recordUnmatched (pid : Int32)
  /-- A backend was added. -/
  | backendAdded (vendor : String)
  /-- A backend could not be prepared. -/
  | backendUnprepared (failure : Failure)
  /-- A backend found devices. -/
  | devicesFound (vendor : String) (count : Nat)
  /-- A backend's search failed. -/
  | searchFailed (vendor : String) (failure : Failure)
  /-- A card cannot be used. -/
  | gpuSkipped (failure : Failure)
  /-- The caller did not ask for a device. -/
  | gpuMasked (pdev : String)
  /-- The directory of the processes could not be listed. -/
  | processesUnlisted (root : Path) (cause : FileError)
deriving DecidableEq, Repr

namespace Event

/-- The level of an event. A vendor without devices is nothing unusual; any
other failure of a search is. -/
def level : Event → Level
  | .duplicateIgnored _ => .warn
  | .readingStopped _ _ => .debug
  | .recordUnmatched _ => .debug
  | .backendAdded _ => .debug
  | .backendUnprepared _ => .warn
  | .devicesFound _ _ => .debug
  | .searchFailed _ failure => if failure.meansNoDevices then .debug else .warn
  | .gpuSkipped _ => .error
  | .gpuMasked _ => .debug
  | .processesUnlisted _ _ => .warn

/-- The wording of an event. -/
def message : Event → String
  | .duplicateIgnored client =>
    s!"Ignoring second fdinfo record of client {client.id.toNat} (pid {client.pid.toInt}) in this cycle"
  | .readingStopped pid cause => s!"fdinfo read of pid {pid.toInt} stopped: {cause.message}"
  | .recordUnmatched pid => s!"fdinfo record of pid {pid.toInt} matched no device"
  | .backendAdded vendor => s!"Registered GPU vendor {vendor}"
  | .backendUnprepared failure => failure.message
  | .devicesFound vendor count => s!"{vendor} backend found {count} device(s)"
  | .searchFailed vendor failure =>
    if failure.meansNoDevices then s!"{vendor} backend: {failure.message}"
    else s!"{vendor} backend discovery failed: {failure.message}"
  | .gpuSkipped failure => s!"Skipping Intel GPU: {failure.message}"
  | .gpuMasked pdev => s!"Intel GPU {pdev} masked out"
  | .processesUnlisted root cause => s!"Cannot list {root.shown}: {cause.message}"

end Event

end DrmUsage

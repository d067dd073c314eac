-- SUMMARY: One polling cycle: every record of every process is offered to the hub, once for each client.
import DrmUsage.Hub
import DrmUsage.Process
import DrmUsage.Record

/-!
# Sweeps

A client whose descriptor was duplicated shows one record several times. So of
the records of a process that name the same device and client first, only the
first accepted one is used; rejected ones do not count, and neither do records
that name no client. When all processes are done the cycle is closed, also if
they could not be listed. Each record has its own look at the clock, also one that is
not offered.
-/

namespace DrmUsage

/-- What a sweep found out about one client. -/
structure Finding where
  /-- The listener that accepted the record, and so the device. -/
  listener : ListenerId
  /-- The name of the process. -/
  name : String
  usage : Usage
  /-- The record that was accepted. -/
  record : String
deriving DecidableEq, Repr

namespace Sweep

/-- The device address and the client's number that a record names first. -/
abbrev Sighting := Option String × UInt32

/-- The sighting in a record, if it names a client. -/
def sighting? (record : String) : Option Sighting :=
  (Record.clientId? record).map fun id => (Record.pdev? record, id)

variable {δ : Type}

/-- Offers records of a process to the hub, without those with a sighting in
`seen` or in a record accepted on the way. -/
def offerRecords (clock : Clock) (pid : Int32) (name : String) :
    List Sighting → List String → Hub δ → Logged (List Finding × Hub δ)
  | _, [], hub => pure ([], hub)
  | seen, record :: later, hub =>
    let sighting := sighting? record
    if sighting.any (· ∈ seen) then offerRecords (clock.later 1) pid name seen later hub
    else do
      let offered ← hub.offer clock.now record (.ofPid pid)
      match offered.listener with
      | none => offerRecords (clock.later 1) pid name seen later offered.hub
      | some listener => do
        let (found, hub) ←
          offerRecords (clock.later 1) pid name (sighting.toList ++ seen) later offered.hub
        pure (⟨listener, name, offered.usage, record⟩ :: found, hub)

/-- Offers the records of some processes to the hub. -/
def offerProcesses (clock : Clock) : List Process → Hub δ → Logged (List Finding × Hub δ)
  | [], hub => pure ([], hub)
  | process :: later, hub => do
    let (found, hub) ← offerRecords clock process.pid process.name [] process.records hub
    let (rest, hub) ← offerProcesses (clock.later process.records.length) later hub
    pure (found ++ rest, hub)

/-- The processes under a root, or none if they cannot be listed. -/
def processes (fs : Snapshot) (root : Path) : Logged (List Process) :=
  match Process.all fs root with
  | .ok processes => pure processes
  | .error cause => do
    Logged.note (.processesUnlisted root cause)
    pure []

/-- Findings in the order of their processes, and as they were made within
one. -/
def byProcess (findings : List Finding) : List Finding :=
  findings.mergeSort fun a b => a.usage.pid ≤ b.usage.pid

/-- Runs one polling cycle over the processes under a root. -/
def run [Gpu δ] (fs : Snapshot) (root : Path) (clock : Clock) (hub : Hub δ) :
    Logged (List Finding × Hub δ) := do
  let processes ← processes fs root
  let (findings, hub) ← offerProcesses clock processes hub
  pure (byProcess findings, hub.closeCycle)

end Sweep

end DrmUsage

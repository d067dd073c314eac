-- SUMMARY: One Intel GPU: how it is recognised, what is read from its files, and how it reads a record.
import DrmUsage.Hub
import DrmUsage.Intel.Report
import DrmUsage.SampleCache
import DrmUsage.Sysfs.Cards

/-!
# Intel GPUs

A card is an Intel GPU if its parent on the bus has Intel's number, is bound to
the driver that is asked for, and is enabled. Only then does it need an address
on the bus; without one it is an error. A record is accepted if nothing in it is
foreign and it names a client. A second record of a client in one cycle is
accepted too, but adds nothing to the cache.
-/

namespace DrmUsage

/-- One Intel GPU. -/
structure IntelGpu where
  /-- The directory of the card. -/
  card : DeviceDir
  /-- The directory of the device on the bus. -/
  parent : DeviceDir
  /-- The address on the bus. -/
  pdev : String
  identity : Identity := {}
  clocks : Clocks := {}
  cache : SampleCache := .empty

namespace IntelGpu

/-- The number of Intel on the bus. -/
def vendorNumber : UInt16 := 0x8086

/-- The driver whose records are understood. -/
def driverName : String := "i915"

/-- The number of characters of a bus address that are kept. -/
def pdevLength : Nat := 16

/-- The address at which the GPU of the processor sits. -/
def integratedPdev : String := "0000:00:02.0"

/-- The property that holds the bus address. -/
def slotProperty : String := "PCI_SLOT_NAME"

/-- The property that holds the name of the model. -/
def modelProperty : String := "ID_MODEL_FROM_DATABASE"

/-! ## Recognition -/

/-- Whether a device on the bus is of a vendor, bound to a driver, and
enabled. -/
def matchesParent (fs : Snapshot) (parent : DeviceDir) (vendor : UInt16) (driver : String) :
    Bool :=
  (parent.attribute? fs "vendor").bind Text.number? = some vendor.toUInt64
    && parent.driver? fs = some driver
    && parent.attribute? fs "enable" = some "1"

/-- The GPU of a card: nothing if the card is not one of those asked for, an
error if it is one and has no bus address. -/
def ofCard (fs : Snapshot) (card : DeviceDir) (vendor : UInt16) (driver : String) :
    Except Failure (Option IntelGpu) :=
  match card.parent? fs with
  | none => .ok none
  | some parent =>
    if matchesParent fs parent vendor driver then
      match parent.property? fs slotProperty with
      | none => .error (.lacksProperty parent.path slotProperty)
      | some slot =>
        .ok (some { card, parent, pdev := String.ofList (slot.toList.take pdevLength) })
    else .ok none

/-! ## Files -/

/-- A clock in MHz from an attribute of the card. -/
def clock? (fs : Snapshot) (gpu : IntelGpu) (file : String) : Option UInt32 :=
  (gpu.card.attribute? fs file).bind Text.uint32?

/-- The GPU with what does not change found out. -/
def identify (fs : Snapshot) (gpu : IntelGpu) : IntelGpu :=
  { gpu with
    identity :=
      { model := gpu.parent.property? fs modelProperty
        pdev := some gpu.pdev
        integrated := some (gpu.pdev = integratedPdev) } }

/-- The GPU with its clocks measured. Those of the memory exist on some cards
only. -/
def measure (fs : Snapshot) (gpu : IntelGpu) : IntelGpu :=
  { gpu with
    clocks :=
      { core := gpu.clock? fs "gt_cur_freq_mhz"
        coreMax := gpu.clock? fs "gt_max_freq_mhz"
        memory := gpu.clock? fs "mem_cur_freq_mhz"
        memoryMax := gpu.clock? fs "mem_max_freq_mhz" } }

/-- The GPU with the cycle of its cache closed. -/
def closeCycle (gpu : IntelGpu) : IntelGpu := { gpu with cache := gpu.cache.closeCycle }

instance : Gpu IntelGpu where
  identity := identity
  clocks := clocks
  identify := identify
  measure := measure
  closeCycle := closeCycle

/-! ## Records -/

/-- Tells of a sample that was refused. -/
def noteRefusal : Except Refusal Unit → Logged Unit
  | .ok () => pure ()
  | .error (.alreadyRecorded client) => Logged.note (.duplicateIgnored client)

/-- Takes in the busy times of a client. -/
def accept (gpu : IntelGpu) (client : Client) (times : BusyTimes) (now : Instant)
    (usage : Usage) : Logged (Outcome IntelGpu) := do
  let recording := gpu.cache.record client times now usage
  noteRefusal recording.answer
  pure ⟨true, recording.usage, { gpu with cache := recording.cache }⟩

/-- Decides on a record by what it reported, nothing if it is foreign. -/
def judge (now : Instant) (usage : Usage) (gpu : IntelGpu) :
    Option IntelReport → Logged (Outcome IntelGpu)
  | none => pure (.rejected usage gpu)
  | some report =>
    match report.clientId with
    | none => pure (.rejected usage gpu)
    | some id => gpu.accept ⟨id, usage.pid⟩ report.times now (usage.withTimes report.times)

/-- Reads a record for the GPU. -/
def read : Reader IntelGpu := fun now source usage gpu => do
  let (report, rest) ← IntelReport.collect usage.pid gpu.pdev source "" .empty
  let outcome ← gpu.judge now usage report
  pure ⟨outcome, rest⟩

end IntelGpu

/-! ## Among other GPUs -/

/-- The kinds of GPUs among which are those of Intel. -/
class HasIntel (δ : Type) where
  /-- An Intel GPU as one of the kind. -/
  ofIntel : IntelGpu → δ
  /-- The Intel GPU that a device is, if it is one. -/
  intel? : δ → Option IntelGpu
  intel?_ofIntel : ∀ gpu, intel? (ofIntel gpu) = some gpu

namespace HasIntel

attribute [simp] intel?_ofIntel

instance : HasIntel IntelGpu := ⟨id, some, fun _ => rfl⟩

/-- Reads a record for an Intel GPU among others. -/
def read {δ : Type} [HasIntel δ] : Reader δ := fun now source usage d =>
  match intel? d with
  | none => pure ⟨.rejected usage d, source⟩
  | some gpu => (·.map ofIntel) <$> IntelGpu.read now source usage gpu

/-- Where all GPUs are Intel's, nothing changes. -/
theorem read_intelGpu : (read : Reader IntelGpu) = IntelGpu.read := by
  funext now source usage gpu
  apply Logged.ext
  · rfl
  · exact List.append_nil _

end HasIntel

end DrmUsage

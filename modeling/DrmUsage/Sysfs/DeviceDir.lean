-- SUMMARY: The directory of one device in sysfs: attributes, properties, driver and parent.
import Std.Data.ExtTreeMap
import DrmUsage.Snapshot
import DrmUsage.Text.Blank
import DrmUsage.Text.Cut

/-!
# Device directories

The kernel shows a device as a directory. An attribute is a file in it, a
property a line `KEY=VALUE` of its `uevent` file, the driver the last name of a
link, and the parent the directory `device` below it. What cannot be read is
missing.
-/

namespace DrmUsage

/-! ## Properties -/

/-- The properties of a device by their keys. -/
abbrev Properties := Std.ExtTreeMap String String

namespace Properties

/-- The property in a line: what stands before and behind its first equals
sign, without blanks. -/
def ofLine? (line : String) : Option (String × String) :=
  (Text.splitFirst '=' line.toList).map fun (before, behind) =>
    (String.ofList (Text.trimChars before), String.ofList (Text.trimChars behind))

/-- The properties in a text. Of two lines with one key the later one holds. -/
def ofText (text : String) : Properties :=
  ((Text.linesOf text).filterMap ofLine?).foldl (fun table (key, value) => table.insert key value) ∅

end Properties

/-! ## Directories -/

/-- A directory in which a device is shown, or would be. -/
structure DeviceDir where
  path : Path
deriving DecidableEq, Repr, Inhabited

namespace DeviceDir

/-- The last name of the directory's path, decoded. -/
def name (d : DeviceDir) : String := (d.path.fileName?.map RawText.decode).getD ""

/-- The content of an attribute without the blanks around it. -/
def attribute? (fs : Snapshot) (d : DeviceDir) (name : String) : Option String :=
  (fs.readText (d.path.join name)).toOption.map Text.trim

/-- All properties of the device. -/
def properties (fs : Snapshot) (d : DeviceDir) : Properties :=
  match fs.readText (d.path.join "uevent") with
  | .ok text => .ofText text
  | .error _ => ∅

/-- One property of the device. -/
def property? (fs : Snapshot) (d : DeviceDir) (name : String) : Option String :=
  (d.properties fs)[name]?

/-- The name of the driver bound to the device: the last one of the link's
target, decoded. -/
def driver? (fs : Snapshot) (d : DeviceDir) : Option String :=
  (fs.readLink (d.path.join "driver")).toOption.bind fun target =>
    (Path.fileName? ⟨target⟩).map RawText.decode

/-- The device on the bus that this one belongs to. -/
def parent? (fs : Snapshot) (d : DeviceDir) : Option DeviceDir :=
  let path := d.path.join "device"
  if fs.isDirectory path then some ⟨path⟩ else none

/-- The device file, relative to the directory of all device files. -/
def deviceFile? (fs : Snapshot) (d : DeviceDir) : Option String := d.property? fs "DEVNAME"

end DeviceDir

end DrmUsage

-- SUMMARY: The processes of a system and the usage records of their GPU descriptors.
import DrmUsage.Snapshot
import DrmUsage.Text.Blank
import DrmUsage.Text.Numeral

/-!
# Processes

The kernel shows each process as a directory named by its number. Among its
descriptors those that lead to a GPU's device file have a usage record. What
cannot be read is passed over.
-/

namespace DrmUsage

/-- A process, its name, and the usage records of its GPU descriptors in the
order in which the descriptors are listed. -/
structure Process where
  pid : Int32
  name : String
  records : List String
deriving DecidableEq, Repr

namespace Process

/-- Whether a descriptor whose link has this decoded text leads to a GPU. -/
def isGpuFile (target : String) : Bool :=
  Text.startsWith "/dev/dri/renderD" target || Text.startsWith "/dev/dri/card" target

/-- The directory of a process. -/
def directory (root : Path) (pid : Int32) : Path := root.join (toString pid.toInt)

/-- The usage record of a descriptor, if the descriptor leads to a GPU and the
record can be read. -/
def record? (fs : Snapshot) (directory : Path) (fd : RawText) : Option String :=
  match fs.readLink ((directory.join "fd").join fd) with
  | .ok target =>
    if isGpuFile target.decode then (fs.readText ((directory.join "fdinfo").join fd)).toOption
    else none
  | .error _ => none

/-- The name of a process. One that is not told is made from its number. -/
def nameOf (fs : Snapshot) (directory : Path) (pid : Int32) : String :=
  match fs.readText (directory.join "comm") with
  | .ok text => Text.trim text
  | .error _ => s!"pid:{pid.toInt}"

/-- A process as a snapshot shows it. -/
def ofPid (fs : Snapshot) (root : Path) (pid : Int32) : Process :=
  let directory := directory root pid
  let fds := (fs.list (directory.join "fd")).toOption.getD []
  { pid, name := nameOf fs directory pid, records := fds.filterMap (record? fs directory) }

/-- The number that the name of a process's directory is. -/
def pid? (name : RawText) : Option Int32 := Text.int32? name.decode

/-- All processes: the entries of a directory whose names are numbers. -/
def all (fs : Snapshot) (root : Path) : Except FileError (List Process) :=
  (fs.list root).map fun names => (names.filterMap pid?).map (ofPid fs root)

end Process

end DrmUsage

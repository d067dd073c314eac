-- SUMMARY: The cards of a system in the order of their numbers.
import DrmUsage.Failure
import DrmUsage.Mounts
import DrmUsage.Sysfs.DeviceDir
import DrmUsage.Text.Numeral

/-!
# Cards

The kernel lists cards, render nodes and connectors in one directory. A card is
told by its device file where this is known and by its name otherwise. Cards
come in the order of their numbers, so `card2` stands before `card10`, and those
without a number that fits a word come first. Names are compared as they are
decoded; cards that this cannot tell apart stay as the directory lists them.
-/

namespace DrmUsage

namespace DeviceDir

/-- Whether a text is `start` and a number. -/
def isNumbered (start s : String) : Bool := (Text.afterStart? start s).any Text.isDigits

/-- Whether the device is a card, and not a render node or a connector. -/
def isCard (fs : Snapshot) (d : DeviceDir) : Bool :=
  match d.deviceFile? fs with
  | some file => isNumbered "dri/card" file
  | none => isNumbered "card" d.name

/-- The number in the name of a card. -/
def cardNumber? (d : DeviceDir) : Option UInt32 :=
  (Text.afterStart? "card" d.name).bind Text.uint32?

/-- The order of cards: by number, then by name. -/
def cardOrder : DeviceDir → DeviceDir → Ordering :=
  compareLex (compareOn cardNumber?) (compareOn name)

/-- The devices under some names of a directory. -/
def under (directory : Path) (names : List RawText) : List DeviceDir :=
  names.map fun name => ⟨directory.join name⟩

end DeviceDir

/-- The cards of a system, in order. -/
def cards (fs : Snapshot) (mounts : Mounts) : Except Failure (List DeviceDir) :=
  let directory := mounts.cardDirectory
  match fs.list directory with
  | .error cause => .error (.ofListing directory cause)
  | .ok names =>
    .ok (((DeviceDir.under directory names).filter (·.isCard fs)).mergeSort
      fun a b => (a.cardOrder b).isLE)

end DrmUsage

-- SUMMARY: Where the kernel's file trees are mounted, and how this is read from a document.
import DrmUsage.Path

/-!
# Mounts

The two places at which the kernel's file trees are mounted are all that can be
configured. They may be given as a table with the fields `sysfs_root` and
`proc_root`, or as a list with the two in this order; whatever is left out has
its usual place. Fields of other names are ignored, but a place that is no text,
or a list that is too long, spoils the whole.
-/

namespace DrmUsage

/-- The places at which the kernel's file trees are mounted. -/
structure Mounts where
  sysfs : Path := ⟨"/sys"⟩
  proc : Path := ⟨"/proc"⟩
deriving DecidableEq, Repr, Inhabited

/-- A document as far as mounts can be read from it. -/
inductive Document where
  | text (value : String)
  | list (items : List Document)
  | table (fields : List (String × Document))
  /-- Anything else: a number, a truth value or nothing. -/
  | other
deriving Inhabited

namespace Mounts

/-- The mounts of an ordinary system. -/
def usual : Mounts := {}

/-- The directory in which the kernel lists the cards. -/
def cardDirectory (mounts : Mounts) : Path := (mounts.sysfs.join "class").join "drm"

/-- Whether the mounts are the same places. -/
def same (a b : Mounts) : Bool := a.sysfs.same b.sysfs && a.proc.same b.proc

/-- A place as a document gives it, or the usual one if the document is
silent. -/
def place? (usual : Path) : Option Document → Option Path
  | none => some usual
  | some (.text value) => some ⟨value⟩
  | some _ => none

/-- The mounts when each place is given or left out. -/
def ofPlaces? (sysfs proc : Option Document) : Option Mounts := do
  let sysfs ← place? usual.sysfs sysfs
  let proc ← place? usual.proc proc
  pure { sysfs, proc }

/-- The mounts that a document gives. -/
def ofDocument? : Document → Option Mounts
  | .table fields => ofPlaces? (fields.lookup "sysfs_root") (fields.lookup "proc_root")
  | .list [] => ofPlaces? none none
  | .list [sysfs] => ofPlaces? (some sysfs) none
  | .list [sysfs, proc] => ofPlaces? (some sysfs) (some proc)
  | _ => none

@[simp] theorem same_refl (mounts : Mounts) : mounts.same mounts = true := by simp [same]

/-- A document that says nothing gives the usual mounts. -/
theorem ofDocument?_silent : ofDocument? (.table []) = some usual := rfl

end Mounts

end DrmUsage

-- SUMMARY: Why GPUs could not be found or used, and what each failure says.
import DrmUsage.FileError
import DrmUsage.Path

/-!
# Failures

A search for GPUs fails for causes that the caller tells apart: there is no
device, a device is broken, permissions are lacking, or a backend cannot be
prepared. The wording stands in one function.
-/

namespace DrmUsage

/-- Why devices could not be found or used. -/
inductive Failure where
  /-- None of a vendor's devices was found. -/
  | noDevices (vendor : String)
  /-- The directory of the cards could not be listed. -/
  | unlistable (directory : Path) (cause : FileError)
  /-- A device lacks a property that it must have. -/
  | lacksProperty (device : Path) (property : String)
  /-- The kernel's files may not be read. -/
  | forbidden (cause : String)
  /-- A backend could not be prepared. -/
  | unprepared (vendor cause : String)
deriving DecidableEq, Repr

namespace Failure

/-- The wording of a failure. -/
def message : Failure → String
  | .noDevices vendor => s!"No {vendor} GPU found on this system"
  | .unlistable directory cause =>
    s!"Device enumeration unavailable at {directory.shown}: {cause.message}"
  | .lacksProperty device property => s!"Device {device.shown} has no {property} property"
  | .forbidden cause =>
    s!"Permission denied: {cause}. Try running as root or as the owner of the monitored processes"
  | .unprepared vendor cause => s!"Failed to initialize {vendor} backend: {cause}"

/-- Whether permissions are lacking. -/
def isForbidden : Failure → Bool
  | .forbidden _ => true
  | _ => false

/-- Whether there is no device to be found. -/
def meansNoDevices : Failure → Bool
  | .noDevices _ => true
  | .unlistable _ _ => true
  | _ => false

/-- The failure to list a directory of cards. -/
def ofListing (directory : Path) (cause : FileError) : Failure :=
  match cause.kind with
  | .permissionDenied => .forbidden cause.message
  | .other => .unlistable directory cause

theorem ofListing_eq (directory : Path) (cause : FileError) :
    ofListing directory cause = .forbidden cause.message ∨
      ofListing directory cause = .unlistable directory cause := by
  unfold ofListing
  cases cause.kind with
  | permissionDenied => exact .inl rfl
  | other => exact .inr rfl

/-- Where cards cannot be listed, either permissions are lacking or there is no
device. -/
theorem meansNoDevices_ofListing (directory : Path) (cause : FileError) :
    (ofListing directory cause).meansNoDevices = !(ofListing directory cause).isForbidden := by
  rcases ofListing_eq directory cause with h | h <;> rw [h] <;> rfl

/-- Either way in which permissions can be lacking is told in its own words. -/
example (directory : Path) :
    ofListing directory .notPermitted = .forbidden "Operation not permitted (os error 1)" := rfl

end Failure

end DrmUsage

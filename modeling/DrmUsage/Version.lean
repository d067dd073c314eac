-- SUMMARY: The version of the library and the system that it runs on.

/-!
# Version

The library reads the file trees of one kernel, Linux, so it supports the
platforms that run it and no other.
-/

namespace DrmUsage

/-- The version of the library. -/
def version : String := "0.1.0"

/-- Whether the platform shows its GPUs in the files that are read here. -/
def isPlatformSupported : Bool := true

end DrmUsage

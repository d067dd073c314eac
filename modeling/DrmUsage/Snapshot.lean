-- SUMMARY: What the kernel's file trees answer at one moment: listings, contents, links, and which paths are directories.
import DrmUsage.FileError
import DrmUsage.Path

/-!
# Snapshots

Devices and processes are read from files. What those files say at one moment is
a snapshot: an answer to each of the four questions that are asked of them. All
that reads files is a function of a snapshot, so it can be run on any answers at
all, not only on those of a consistent tree. Names and link texts are raw, while
a file that is read as text has to be UTF-8. The order of a listing means
nothing.
-/

namespace DrmUsage

/-- The answers of the file system at one moment. -/
structure Snapshot where
  /-- The names in a directory, in some order. -/
  list : Path → Except FileError (List RawText)
  /-- The content of a file. -/
  readText : Path → Except FileError String
  /-- The text of a link, which is not followed. -/
  readLink : Path → Except FileError RawText
  /-- Whether a directory stands under the path. -/
  isDirectory : Path → Bool

end DrmUsage

-- SUMMARY: Why a file, a directory or a link could not be read: the kind of the cause, and its words.

/-!
# File errors

Whoever reads the kernel's file trees tells one kind of failure from all others:
that permissions are lacking, which more than one cause can mean. The words of a
cause, with the number that the kernel gives it, are for messages only.
-/

namespace DrmUsage

/-- The kinds of causes that are told apart. -/
inductive FileError.Kind where
  /-- Permissions are lacking. -/
  | permissionDenied
  /-- Anything else. -/
  | other
deriving DecidableEq, Repr

/-- Why something could not be read. -/
structure FileError where
  kind : FileError.Kind
  /-- The words of the cause. -/
  message : String
deriving DecidableEq, Repr

namespace FileError

/-- Any cause that is not the lack of permissions, in the words of its source. -/
def other (message : String) : FileError := ⟨.other, message⟩

/-- Nothing stands under the path. -/
def notFound : FileError := other "No such file or directory (os error 2)"

/-- A directory on the way may not be searched, or the file not be read. -/
def permissionDenied : FileError := ⟨.permissionDenied, "Permission denied (os error 13)"⟩

/-- The caller is not one of those who may do this at all. -/
def notPermitted : FileError := ⟨.permissionDenied, "Operation not permitted (os error 1)"⟩

/-- A directory was needed and something else found. -/
def notADirectory : FileError := other "Not a directory (os error 20)"

/-- A directory was found where a file was to be read. -/
def isADirectory : FileError := other "Is a directory (os error 21)"

/-- The text of a link was asked of something that is no link. -/
def invalidArgument : FileError := other "Invalid argument (os error 22)"

/-- A name or the whole path is too long. -/
def nameTooLong : FileError := other "File name too long (os error 36)"

/-- Too many links had to be followed. -/
def tooManyLinks : FileError := other "Too many levels of symbolic links (os error 40)"

/-- The path holds a NUL byte. -/
def nulInPath : FileError := other "file name contained an unexpected NUL byte"

/-- The content of the file is not UTF-8. -/
def notUtf8 : FileError := other "stream did not contain valid UTF-8"

end FileError

end DrmUsage

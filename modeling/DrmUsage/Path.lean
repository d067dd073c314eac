-- SUMMARY: File paths as raw texts: joining, the pieces between slashes, the last name, and when two paths are the same.
import DrmUsage.Text.Cut
import DrmUsage.Text.Raw

/-!
# Paths

A path is kept exactly as it was written, byte by byte; nothing is normalised
when paths are joined, and only what is shown of a path is decoded. `Path.same`
alone looks through the ways to write one path: repeated and trailing slashes
and inner `.` pieces make no difference to it, while `..` does.
-/

namespace DrmUsage

/-- A path as it is written. -/
structure Path where
  raw : RawText
deriving DecidableEq, Repr, Inhabited

namespace Path

/-- The byte between two names. -/
def slash : UInt8 := 0x2f

/-- The path as messages and answers show it. -/
def shown (p : Path) : String := p.raw.decode

/-- Whether the path starts at the root of the file system. -/
def isAbsolute (p : Path) : Bool := p.raw.bytes.head? = some slash

/-- Whether the last byte is a slash. -/
def endsInSlash (p : Path) : Bool := p.raw.bytes.getLast? = some slash

/-- The path of `sub` seen from `base`. A slash goes between them unless `base`
brings it or is empty; an absolute `sub` stands alone. -/
def join (base : Path) (sub : RawText) : Path :=
  if isAbsolute ⟨sub⟩ then ⟨sub⟩
  else if base.raw.bytes.isEmpty || base.endsInSlash then ⟨⟨base.raw.bytes ++ sub.bytes⟩⟩
  else ⟨⟨base.raw.bytes ++ slash :: sub.bytes⟩⟩

/-- The pieces between the slashes, without empty ones. -/
def pieces (p : Path) : List RawText :=
  ((Text.lines slash p.raw.bytes).filter (!·.isEmpty)).map RawText.mk

/-- The piece that stays where it is. -/
def here : RawText := "."

/-- The piece that goes to the directory above. -/
def up : RawText := ".."

/-- The pieces that move: all but `.`, which stays where it is. -/
def moves (p : Path) : List RawText := p.pieces.filter (· ≠ here)

/-- The last name of a path; none if the path ends in `..` or names nothing. -/
def fileName? (p : Path) : Option RawText := p.moves.getLast?.filter (· ≠ up)

/-- Whether the path is relative and starts with a `.` piece. -/
def startsHere (p : Path) : Bool := !p.isAbsolute && p.pieces.head? = some here

/-- Whether two paths are written alike up to slashes and inner `.` pieces. A
`.` at the start of a relative path counts. -/
def same (p q : Path) : Bool :=
  p.isAbsolute = q.isAbsolute && p.startsHere = q.startsHere && p.moves = q.moves

theorem join_of_isAbsolute {base : Path} {sub : RawText} (h : isAbsolute ⟨sub⟩ = true) :
    base.join sub = ⟨sub⟩ := by simp [join, h]

@[simp] theorem same_refl (p : Path) : p.same p = true := by simp [same]

end Path

end DrmUsage

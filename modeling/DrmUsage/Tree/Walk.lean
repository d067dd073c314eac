-- SUMMARY: How a written path leads to a place of a tree, piece by piece and through links.
import DrmUsage.FileError
import DrmUsage.Path
import DrmUsage.Tree.Basic

/-!
# Walks

A walk starts at the root of the tree for a relative path, and outside for an
absolute one. Before each piece the directory in which the walk stands must let
it pass. A link in the way is replaced by its target, which is read from the
directory that holds the link; a link at the end is followed only if the walk
is asked to. At most `linkLimit` links are followed. A slash at the end of a
path or of a target demands a directory and has links at the end followed.
-/

namespace DrmUsage.Tree

/-- The number of links that one walk may follow. -/
def linkLimit : Nat := 40

/-- The number of bytes that a name may have. -/
def nameLimit : Nat := 255

/-- The number of bytes that a path must stay below. -/
def pathLimit : Nat := 4096

/-! ## Up to the next link -/

/-- How far a walk comes without following a link. -/
inductive Advance where
  /-- It cannot go on. -/
  | stuck (cause : FileError)
  /-- All pieces are used up. -/
  | arrived (place : Place)
  /-- A link in a directory is to be followed, with pieces left behind it. -/
  | atLink (holder : Place) (target : RawText) (rest : List RawText)

/-- Walks along the pieces of a path as far as no link is to be followed. -/
def advance (t : Tree) (followLast : Bool) (here : Place) : List RawText → Advance
  | [] => .arrived here
  | name :: rest =>
    if t.isDenied here then .stuck .permissionDenied
    else if name = Path.here then advance t followLast here rest
    else if name = Path.up then advance t followLast here.up rest
    else if nameLimit < name.bytes.length then .stuck .nameTooLong
    else match t.child? here name with
      | none => .stuck .notFound
      | some (.directory _) => advance t followLast (below here name) rest
      | some (.file _ _) =>
        if rest.isEmpty then .arrived (below here name) else .stuck .notADirectory
      | some (.link target) =>
        if rest.isEmpty && !followLast then .arrived (below here name)
        else .atLink here target rest

/-! ## Through links -/

/-- Where a path starts that is read in a directory. -/
def start (holder : Place) (path : Path) : Place :=
  if path.isAbsolute then .outside else holder

/-- Walks along the pieces of a path and follows up to `budget` links. With
`strict` the walk has to end at a directory. -/
def walk (t : Tree) (followLast : Bool) (budget : Nat) (strict : Bool) (here : Place)
    (pieces : List RawText) : Except FileError Place :=
  match t.advance followLast here pieces with
  | .stuck cause => .error cause
  | .arrived place =>
    if strict && !t.isDirectory place then .error .notADirectory else .ok place
  | .atLink holder target rest =>
    match budget with
    | 0 => .error .tooManyLinks
    | budget + 1 =>
      let target : Path := ⟨target⟩
      t.walk followLast budget (strict || (rest.isEmpty && target.endsInSlash))
        (start holder target) (target.pieces ++ rest)

/-- The place to which a path leads. Links at its end are followed if
`followLast` is set. -/
def resolve (t : Tree) (followLast : Bool) (path : Path) : Except FileError Place :=
  if 0 ∈ path.raw.bytes then .error .nulInPath
  else if path.raw.bytes.isEmpty then .error .notFound
  else if pathLimit ≤ path.raw.bytes.length then .error .nameTooLong
  else
    t.walk (followLast || path.endsInSlash) linkLimit path.endsInSlash (start .root path) path.pieces

end DrmUsage.Tree

-- SUMMARY: Building a tree: putting a node under a path together with its missing directories, and removing what stands there.
import DrmUsage.Tree.Walk

/-!
# Building trees

Trees are built up from paths. Directories that are missing on the way are made
and links on the way are followed. Putting something into a directory needs no
permission; looking up where a link leads, or what is to be removed, does.
-/

namespace DrmUsage.Tree

/-- The location at which something is put under a name of a directory. Where a
link stands there, it is the one that the link's target names, through up to
`budget` links; nothing need stand at it yet. A link that leads nowhere is
replaced itself. -/
def target (t : Tree) (budget : Nat) (holder : Location) (name : RawText) : Location :=
  match t.nodeAt? (name :: holder), budget with
  | some (.link text), budget + 1 =>
    let path : Path := ⟨text⟩
    match path.pieces.getLast?, t.walk true linkLimit true (start (.inside holder) path)
        path.pieces.dropLast with
    | some last, .ok (.inside directory) =>
      if last = Path.here then directory
      else if last = Path.up then directory.tail
      else t.target budget directory last
    | _, _ => name :: holder
  | _, _ => name :: holder

/-- Goes along a piece of a path and makes a directory where nothing stands. -/
def enter (t : Tree) (here : Location) (name : RawText) : Tree × Location :=
  if name = Path.here then (t, here)
  else if name = Path.up then (t, here.tail)
  else
    let location := t.target linkLimit here name
    ((t.nodeAt? location).elim (t.put location (.directory false)) (fun _ => t), location)

/-- Goes along the pieces of a path and makes the missing directories. -/
def reach (t : Tree) (pieces : List RawText) : Tree × Location :=
  pieces.foldl (fun (t, here) name => t.enter here name) (t, [])

/-- The tree with a node put under a path. A file is written where a link leads,
also if nothing stands there yet; a directory that is there already keeps what
it holds. -/
def place (t : Tree) (path : Path) (node : Node) : Tree :=
  match path.pieces.getLast? with
  | none => t
  | some name =>
    match node with
    | .directory denied =>
      let (t, here) := t.reach path.pieces
      if denied then t.put here node else t
    | .file _ _ =>
      let (t, holder) := t.reach path.pieces.dropLast
      t.put (t.target linkLimit holder name) node
    | .link _ =>
      let (t, holder) := t.reach path.pieces.dropLast
      t.put (name :: holder) node

/-- The tree without what stands under a path. A link at the end is removed
itself, and nothing happens if nothing stands there. -/
def remove (t : Tree) (path : Path) : Tree :=
  match t.walk false linkLimit false .root path.pieces with
  | .ok (.inside location) => t.cut location
  | _ => t

end DrmUsage.Tree

-- SUMMARY: What a tree answers to those who read it: listings, contents, link texts, as a snapshot.
import DrmUsage.Snapshot
import DrmUsage.Tree.Walk

/-!
# Reading a tree

A tree gives a snapshot: the answers of a file system in which the tree stands
at the current directory. Reading needs permission for the node itself as well
as for the way to it; asking what a node is needs the way alone.
-/

namespace DrmUsage.Tree

/-- The content of the file under a path. -/
def readText (t : Tree) (path : Path) : Except FileError String := do
  let place ← t.resolve true path
  match t.node? place with
  | none => .error .notFound
  | some node =>
    if node.isDenied then .error .permissionDenied
    else match node with
      | .directory _ => .error .isADirectory
      | .link _ => .error .tooManyLinks
      | .file content _ =>
        match String.fromUTF8? content with
        | none => .error .notUtf8
        | some text => .ok text

/-- The names in the directory under a path. -/
def list (t : Tree) (path : Path) : Except FileError (List RawText) := do
  let place ← t.resolve true path
  if !t.isDirectory place then .error .notADirectory
  else if t.isDenied place then .error .permissionDenied
  else .ok (t.entries place)

/-- The text of the link under a path. -/
def readLink (t : Tree) (path : Path) : Except FileError RawText := do
  let place ← t.resolve false path
  match t.node? place with
  | some (.link target) => .ok target
  | _ => .error .invalidArgument

/-- Whether a directory stands under a path. -/
def isDirectoryAt (t : Tree) (path : Path) : Bool :=
  match t.resolve true path with
  | .ok place => t.isDirectory place
  | .error _ => false

/-- The answers of a file system whose current directory is the tree. -/
def snapshot (t : Tree) : Snapshot where
  list := t.list
  readText := t.readText
  readLink := t.readLink
  isDirectory := t.isDirectoryAt

/-- What a tree lists are the names in one of its places. -/
theorem exists_entries_of_list_eq_ok {t : Tree} {path : Path} {names : List RawText}
    (h : t.snapshot.list path = .ok names) : ∃ place, names = t.entries place := by
  simp only [snapshot, list, bind, Except.bind] at h
  split at h
  · cases h
  · split at h
    · cases h
    · split at h
      · cases h
      · exact ⟨_, (Except.ok.inj h).symm⟩

/-- A tree never lists a name twice. -/
theorem nodup_of_list_eq_ok {t : Tree} {path : Path} {names : List RawText}
    (h : t.snapshot.list path = .ok names) : names.Nodup := by
  obtain ⟨place, rfl⟩ := exists_entries_of_list_eq_ok h
  exact t.nodup_entries place

end DrmUsage.Tree

-- SUMMARY: File trees: files, links and directories, each at the chain of names that leads to it from the root.
import Std.Data.ExtTreeMap
import DrmUsage.Text.Raw

/-!
# File trees

A tree gives a node to each place in it. A place is named by the chain of names
that leads to it from the root, without any link in between, so a place holds at
most one node and the names of a directory are distinct (`nodup_entries`). How a
written path leads to a place, through links and past denied directories, is
told in `DrmUsage.Tree.Walk`.
-/

namespace DrmUsage

/-! ## Nodes and places -/

/-- What stands at a place. A file may be denied to its readers, and a directory
to those who would list it or pass through it. -/
inductive Node where
  | file (content : ByteArray) (denied : Bool)
  | link (target : RawText)
  | directory (denied : Bool)

/-- Whether a node is a directory, denied or not. -/
def Node.isDirectory : Node → Bool
  | .directory _ => true
  | _ => false

/-- Whether a node may not be read or passed. -/
def Node.isDenied : Node → Bool
  | .file _ denied => denied
  | .link _ => false
  | .directory denied => denied

/-- The names that lead to a place, the innermost first. The root has none. -/
abbrev Location := List RawText

/-- Where a path can lead: to a location of the tree, or out of it, where
nothing of the tree is seen. -/
inductive Place where
  | inside (location : Location)
  | outside
deriving DecidableEq, Repr

namespace Place

/-- The directory that holds a place. What holds the root is outside. -/
def up : Place → Place
  | .inside (_ :: location) => .inside location
  | .inside [] => .outside
  | .outside => .outside

/-- The root of the tree. -/
def root : Place := .inside []

end Place

/-! ## Trees -/

/-- The nodes of a tree by their locations. The root needs no entry. -/
structure Tree where
  nodes : Std.ExtTreeMap Location Node := ∅

namespace Tree

/-- The tree with nothing in it but its root. -/
def empty : Tree := {}

instance : Inhabited Tree := ⟨empty⟩

/-- The node at a location. The root is a directory that may be listed, unless
another node was put there. -/
def nodeAt? (t : Tree) : Location → Option Node
  | [] => some ((t.nodes[([] : Location)]?).getD (.directory false))
  | name :: location => t.nodes[name :: location]?

/-- The node at a place. Outside there are directories only. -/
def node? (t : Tree) : Place → Option Node
  | .inside location => t.nodeAt? location
  | .outside => some (.directory false)

/-- What a directory holds under a name. Nothing is seen of what lies outside. -/
def child? (t : Tree) : Place → RawText → Option Node
  | .inside location, name => t.nodeAt? (name :: location)
  | .outside, _ => none

/-- The place under a name of a directory. -/
def below : Place → RawText → Place
  | .inside location, name => .inside (name :: location)
  | .outside, _ => .outside

/-- Whether a place is a directory. -/
def isDirectory (t : Tree) (place : Place) : Bool := ((t.node? place).map Node.isDirectory).getD false

/-- Whether a place may not be read or passed. -/
def isDenied (t : Tree) (place : Place) : Bool := ((t.node? place).map Node.isDenied).getD false

/-- The name of a location in a directory, if the directory holds it. -/
def nameIn (location : Location) : Location → Option RawText
  | [] => none
  | name :: holder => if holder = location then some name else none

/-- The names in a directory. -/
def entries (t : Tree) : Place → List RawText
  | .inside location => t.nodes.keys.filterMap (nameIn location)
  | .outside => []

/-- The tree with a node put at a location. -/
def put (t : Tree) (location : Location) (node : Node) : Tree := ⟨t.nodes.insert location node⟩

/-- The tree without a location and all that lies below it. -/
def cut (t : Tree) (location : Location) : Tree :=
  ⟨t.nodes.filter fun l _ => !location.isSuffixOf l⟩

theorem nameIn_eq_some_iff {location l : Location} {name : RawText} :
    nameIn location l = some name ↔ l = name :: location := by
  cases l with
  | nil => simp [nameIn]
  | cons n holder =>
    by_cases h : holder = location
    · simp [nameIn, h]
    · simp [nameIn, h]

/-- No name is listed twice. -/
theorem nodup_entries (t : Tree) (place : Place) : (t.entries place).Nodup := by
  cases place with
  | outside => exact List.nodup_nil
  | inside location =>
    refine List.Pairwise.filterMap (nameIn location) ?_ t.nodes.distinct_keys
    intro a b h name hn name' hn' e
    subst e
    rw [nameIn_eq_some_iff] at hn hn'
    exact h (by rw [hn, hn']; exact Std.ReflOrd.compare_self)

end Tree

end DrmUsage

-- SUMMARY: What a directory lists, where its names lead, and snapshots that list them in another order.
import DrmUsage.Snapshot
import DrmUsage.Tree.Reading

/-!
# Listings

A directory lists each name once, and a name leads from the directory to what
stands in it: it holds no slash, and it is not one of the two that stay there or
go up (`Snapshot.Lists`). Joined to the path of the directory, such a name is the
last one of the path (`Path.fileName?_join`). In which order the names are listed
is the choice of the file system, so two snapshots may tell the same and still
list in different orders (`Snapshot.Reordered`).
-/

namespace DrmUsage

/-! ## Names in a directory -/

/-- What follows the last separator of a text is not closed. -/
theorem Text.closedLines_append_last {α : Type} [DecidableEq α] {sep : α} {last : List α}
    (h : sep ∉ last) (cs : List α) :
    ∃ closed, closed ≠ [] ∧ closedLines sep (cs ++ sep :: last) = (closed, last) := by
  induction cs with
  | nil => exact ⟨[[]], by simp, by simp [closedLines, closedLines_of_not_mem h]⟩
  | cons c cs ih =>
      obtain ⟨closed, hne, hclosed⟩ := ih
      obtain ⟨line, later, rfl⟩ := List.exists_cons_of_ne_nil hne
      by_cases hc : c = sep
      · exact ⟨[] :: line :: later, by simp, by simp [closedLines, hclosed, hc]⟩
      · exact ⟨(c :: line) :: later, by simp, by simp [closedLines, hclosed, hc]⟩

namespace Path

/-- A name under which something can stand in a directory. -/
structure IsEntry (name : RawText) : Prop where
  ne_nil : name.bytes ≠ []
  no_slash : slash ∉ name.bytes
  ne_here : name ≠ here
  ne_up : name ≠ up

instance (name : RawText) : Decidable (IsEntry name) :=
  decidable_of_iff (name.bytes ≠ [] ∧ slash ∉ name.bytes ∧ name ≠ here ∧ name ≠ up)
    ⟨fun ⟨h₁, h₂, h₃, h₄⟩ => ⟨h₁, h₂, h₃, h₄⟩, fun ⟨h₁, h₂, h₃, h₄⟩ => ⟨h₁, h₂, h₃, h₄⟩⟩

variable {name : RawText}

theorem IsEntry.isAbsolute (h : IsEntry name) : isAbsolute ⟨name⟩ = false := by
  unfold Path.isAbsolute
  rw [decide_eq_false_iff_not]
  exact fun hhead => h.no_slash (List.mem_of_mem_head? hhead)

/-- A name that is joined to a path stands alone or behind a slash. -/
theorem IsEntry.bytes_join (h : IsEntry name) (base : Path) :
    (base.join name).raw = name ∨
      ∃ front, (base.join name).raw.bytes = front ++ slash :: name.bytes := by
  unfold join
  rw [h.isAbsolute]
  simp only [Bool.false_eq_true, if_false, Bool.or_eq_true]
  split
  · rename_i hbase
    rcases hbase with hempty | hslash
    · left
      rw [List.isEmpty_iff.mp hempty, List.nil_append]
    · right
      obtain ⟨front, hfront⟩ := List.getLast?_eq_some_iff.mp (of_decide_eq_true hslash)
      exact ⟨front, by rw [hfront, List.append_assoc, List.singleton_append]⟩
  · exact Or.inr ⟨base.raw.bytes, rfl⟩

/-- The last piece of a path to which a name is joined is the name. -/
theorem IsEntry.pieces_join (h : IsEntry name) (base : Path) :
    ∃ front, (base.join name).pieces = front ++ [name] := by
  unfold pieces Text.lines
  rcases h.bytes_join base with hraw | ⟨front, hbytes⟩
  · rw [hraw, Text.closedLines_of_not_mem h.no_slash]
    exact ⟨[], by simp [h.ne_nil]⟩
  · obtain ⟨closed, -, hclosed⟩ := Text.closedLines_append_last h.no_slash front
    rw [hbytes, hclosed]
    refine ⟨(closed.filter (!·.isEmpty)).map RawText.mk, ?_⟩
    simp [h.ne_nil]

/-- The last name of a path to which a name is joined is the name. -/
theorem IsEntry.fileName?_join (h : IsEntry name) (base : Path) :
    (base.join name).fileName? = some name := by
  obtain ⟨front, hpieces⟩ := h.pieces_join base
  unfold fileName? moves
  rw [hpieces, List.filter_append]
  simp [h.ne_here, h.ne_up]

end Path

/-- A directory lists some names: none of them twice, and each one under which something can
stand. -/
structure Snapshot.Lists (fs : Snapshot) (directory : Path) (names : List RawText) : Prop where
  listed : fs.list directory = .ok names
  nodup : names.Nodup
  entry : ∀ name ∈ names, Path.IsEntry name

namespace Tree

/-- No place of a tree is named in a way that leads elsewhere. -/
def WellNamed (t : Tree) : Prop := ∀ location ∈ t.nodes.keys, ∀ name ∈ location, Path.IsEntry name

instance (t : Tree) : Decidable t.WellNamed :=
  inferInstanceAs (Decidable (∀ location ∈ t.nodes.keys, ∀ name ∈ location, Path.IsEntry name))

/-- What a tree says of a directory that can be listed is a listing. -/
theorem WellNamed.lists {t : Tree} (ht : t.WellNamed) {path : Path} {names : List RawText}
    (h : t.snapshot.list path = .ok names) : t.snapshot.Lists path names where
  listed := h
  nodup := nodup_of_list_eq_ok h
  entry := by
    intro name hname
    obtain ⟨place, rfl⟩ := exists_entries_of_list_eq_ok h
    cases place with
    | outside => exact absurd hname List.not_mem_nil
    | inside location =>
        obtain ⟨l, hl, hin⟩ := List.mem_filterMap.mp hname
        rw [nameIn_eq_some_iff.mp hin] at hl
        exact ht _ hl name List.mem_cons_self

end Tree

/-! ## Orders -/

/-- Two snapshots differ in nothing but the order of their listings. -/
structure Snapshot.Reordered (fs fs' : Snapshot) : Prop where
  list : ∀ path, (∃ names names', fs.list path = .ok names ∧ fs'.list path = .ok names' ∧
      names.Perm names') ∨
    ∃ cause, fs.list path = .error cause ∧ fs'.list path = .error cause
  readText : fs.readText = fs'.readText
  readLink : fs.readLink = fs'.readLink

namespace Snapshot

variable {fs fs' : Snapshot}

theorem Reordered.symm (h : Reordered fs fs') : Reordered fs' fs where
  list := by
    intro path
    rcases h.list path with ⟨names, names', hl, hl', hperm⟩ | ⟨cause, hl, hl'⟩
    · exact Or.inl ⟨names', names, hl', hl, hperm.symm⟩
    · exact Or.inr ⟨cause, hl', hl⟩
  readText := h.readText.symm
  readLink := h.readLink.symm

theorem Reordered.list_eq_ok (h : Reordered fs fs') {path : Path} {names : List RawText}
    (hlist : fs.list path = .ok names) :
    ∃ names', fs'.list path = .ok names' ∧ names.Perm names' := by
  rcases h.list path with ⟨ns, names', hl, hl', hperm⟩ | ⟨cause, hl, -⟩
  · obtain rfl := Except.ok.inj (hlist.symm.trans hl)
    exact ⟨names', hl', hperm⟩
  · exact absurd (hlist.symm.trans hl) (fun e => nomatch e)

/-- The snapshot with every listing backwards. -/
def reversed (fs : Snapshot) : Snapshot :=
  { fs with list := fun path => (fs.list path).map List.reverse }

theorem reordered_reversed (fs : Snapshot) : fs.Reordered fs.reversed where
  list := by
    intro path
    change (∃ names names', fs.list path = .ok names ∧
        (fs.list path).map List.reverse = .ok names' ∧ names.Perm names') ∨
      ∃ cause, fs.list path = .error cause ∧ (fs.list path).map List.reverse = .error cause
    cases fs.list path with
    | error cause => exact Or.inr ⟨cause, rfl, rfl⟩
    | ok names => exact Or.inl ⟨names, names.reverse, rfl, rfl, (List.reverse_perm names).symm⟩
  readText := rfl
  readLink := rfl

end Snapshot

end DrmUsage

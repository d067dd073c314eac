-- SUMMARY: Which entries of a directory are cards, and in which order they come: the listing only decides between those shown alike.
import Mathlib.Algebra.Group.Nat.Defs
import Mathlib.Data.List.Basic
import Mathlib.Data.List.Induction
import Mathlib.Data.List.Nodup
import DrmUsage.Proofs.Listings
import DrmUsage.Proofs.Numerals
import DrmUsage.Sysfs.Cards

/-!
# The order of cards

What the kernel says of an entry decides whether it is a card: the device file in
the last line of `uevent` that names one, or else the name of the entry
(`IsCardEntry`). A `uevent` file that is not text says nothing. Cards are sorted
by their numbers, and by their names where the numbers agree or are missing. Names
are compared as they are decoded, so cards whose names are shown alike stay as they
are listed; without such cards the sorted list depends only on which cards there
are and not on the order in which they were listed (`cards_of_listing`).
-/

namespace DrmUsage

/-! ## Properties -/

/-- The value in the last line of a text that gives one to a key. -/
def Properties.lastValue? (text key : String) : Option String :=
  (((Text.linesOf text).filterMap ofLine?).filter (·.1 = key)).getLast?.map (·.2)

/-- Of all values given to a key, a table holds the last one. -/
theorem Properties.getElem?_foldl_insert (pairs : List (String × String)) (key : String) :
    (pairs.foldl (fun (table : Properties) (key, value) => table.insert key value) ∅)[key]? =
      (pairs.filter (·.1 = key)).getLast?.map (·.2) := by
  induction pairs using List.reverseRecOn with
  | nil => rfl
  | append_singleton pairs pair ih =>
      rw [List.foldl_concat, List.filter_append, Std.ExtTreeMap.getElem?_insert, ih]
      by_cases hkey : pair.1 = key
      · rw [if_pos (Std.LawfulEqCmp.compare_eq_iff_eq.mpr hkey)]
        simp [hkey]
      · rw [if_neg fun h => hkey (Std.LawfulEqCmp.compare_eq_iff_eq.mp h)]
        simp [hkey]

theorem Properties.getElem?_ofText (text key : String) :
    (ofText text)[key]? = lastValue? text key :=
  getElem?_foldl_insert _ key

/-- The value that the `uevent` file in a directory gives to a key, if there is the file and it
gives one. -/
def Snapshot.ueventValue? (fs : Snapshot) (directory : Path) (key : String) : Option String :=
  (fs.readText (directory.join "uevent")).toOption.bind fun text => Properties.lastValue? text key

theorem DeviceDir.property?_eq (fs : Snapshot) (d : DeviceDir) (key : String) :
    d.property? fs key = fs.ueventValue? d.path key := by
  unfold property? properties Snapshot.ueventValue?
  cases fs.readText (d.path.join "uevent") with
  | error cause => rfl
  | ok text => exact Properties.getElem?_ofText text key

/-! ## Entries -/

/-- A text is a fixed beginning and a number. -/
def Numbered (start s : String) : Prop := ∃ digits, IsDecimal digits ∧ s = start ++ digits

/-- What makes an entry of a directory a card: its device file is numbered as those of cards are,
or its own name is, where no device file is named. -/
def IsCardEntry (fs : Snapshot) (directory : Path) (name : RawText) : Prop :=
  match fs.ueventValue? (directory.join name) "DEVNAME" with
  | some file => Numbered "dri/card" file
  | none => ∃ s : String, name = s ∧ Numbered "card" s

theorem Numbered.replacement_notMem {start s : String} (h : Numbered start s)
    (hstart : Text.replacement ∉ start.toList) : Text.replacement ∉ s.toList := by
  obtain ⟨digits, hdigits, rfl⟩ := h
  rw [String.toList_append, List.mem_append]
  rintro (hmem | hmem)
  · exact hstart hmem
  · exact absurd (hdigits.2 _ hmem) (by decide)

/-- The name that is `card` and some digits. -/
def cardNamed (digits : String) : RawText := ("card" ++ digits : String)

namespace DeviceDir

theorem isNumbered_iff {start s : String} : isNumbered start s = true ↔ Numbered start s := by
  unfold isNumbered Numbered
  rw [Option.any_eq_true]
  constructor
  · rintro ⟨digits, hafter, hdigits⟩
    refine ⟨digits, Text.isDigits_iff.mp hdigits, String.toList_inj.mp ?_⟩
    rw [String.toList_append]
    exact Text.afterStart?_eq_some_iff.mp hafter
  · rintro ⟨digits, hdigits, rfl⟩
    exact ⟨digits, Text.afterStart?_eq_some_iff.mpr (String.toList_append ..),
      Text.isDigits_iff.mpr hdigits⟩

theorem name_under {directory : Path} {name : RawText} (h : Path.IsEntry name) :
    (⟨directory.join name⟩ : DeviceDir).name = name.decode := by
  unfold DeviceDir.name
  rw [h.fileName?_join]
  rfl

theorem isCard_under (fs : Snapshot) {directory : Path} {name : RawText} (h : Path.IsEntry name) :
    (⟨directory.join name⟩ : DeviceDir).isCard fs = true ↔ IsCardEntry fs directory name := by
  unfold isCard IsCardEntry deviceFile?
  rw [property?_eq, name_under h]
  cases fs.ueventValue? (directory.join name) "DEVNAME" with
  | some file => exact isNumbered_iff
  | none =>
      refine isNumbered_iff.trans ⟨fun hnumbered => ⟨name.decode, ?_, hnumbered⟩, ?_⟩
      · exact (RawText.decode_eq_iff (hnumbered.replacement_notMem (by decide))).mp rfl
      · rintro ⟨s, rfl, hnumbered⟩
        rwa [RawText.decode_ofText]

theorem cardNumber?_under {directory : Path} {digits : String} (h : Path.IsEntry (cardNamed digits))
    (hdigits : IsDecimal digits) (hsmall : decimalValue digits < UInt32.size) :
    (⟨directory.join (cardNamed digits)⟩ : DeviceDir).cardNumber? =
      some (UInt32.ofNat (decimalValue digits)) := by
  have hafter : Text.afterStart? "card" ("card" ++ digits) = some digits :=
    Text.afterStart?_eq_some_iff.mpr (String.toList_append ..)
  unfold cardNumber?
  rw [name_under h, cardNamed, RawText.decode_ofText, hafter, Option.bind_some,
    Text.uint32?_of_isDecimal hdigits, if_pos hsmall]

/-! ## Order -/

/-- A card stands before another one: it has the smaller number, where none is smaller than any, or
the same number and the smaller name. -/
def Precedes (a b : DeviceDir) : Prop :=
  a.cardNumber? < b.cardNumber? ∨ a.cardNumber? = b.cardNumber? ∧ a.name < b.name

theorem compare_option_eq_lt (a b : Option UInt32) : compare a b = .lt ↔ a < b := by
  cases a with
  | none =>
      cases b with
      | none => exact iff_of_false (fun h => nomatch h) (fun h => nomatch h)
      | some n => exact iff_of_true rfl trivial
  | some m =>
      cases b with
      | none => exact iff_of_false (fun h => nomatch h) (fun h => nomatch h)
      | some n => exact Std.compare_eq_lt (α := UInt32)

theorem compare_string_eq_lt (s t : String) : compare s t = .lt ↔ s < t :=
  compareOfLessAndEq_eq_lt

theorem cardOrder_eq_lt (a b : DeviceDir) : a.cardOrder b = .lt ↔ a.Precedes b := by
  unfold cardOrder compareLex compareOn Precedes
  rw [Ordering.then_eq_lt, compare_option_eq_lt, compare_string_eq_lt,
    Std.LawfulEqCmp.compare_eq_iff_eq]

/-- Cards are equal in the order exactly if they have one name. -/
theorem cardOrder_eq_eq_iff {a b : DeviceDir} : a.cardOrder b = .eq ↔ a.name = b.name := by
  constructor
  · exact fun h => Std.LawfulEqCmp.compare_eq_iff_eq.mp (compareLex_eq_eq.mp h).2
  · intro h
    have hnumber : a.cardNumber? = b.cardNumber? := by rw [cardNumber?, cardNumber?, h]
    unfold cardOrder compareLex compareOn
    rw [hnumber, h, Std.ReflOrd.compare_self, Std.ReflOrd.compare_self]
    rfl

theorem precedes_of_isLE {a b : DeviceDir} (h : (a.cardOrder b).isLE = true)
    (hname : a.name ≠ b.name) : a.Precedes b := by
  rw [← cardOrder_eq_lt]
  cases hab : a.cardOrder b with
  | lt => rfl
  | eq => exact absurd (cardOrder_eq_eq_iff.mp hab) hname
  | gt =>
      rw [hab] at h
      exact absurd h Bool.false_ne_true

instance : Std.TransCmp cardOrder :=
  inferInstanceAs (Std.TransCmp (compareLex (compareOn cardNumber?) (compareOn name)))

theorem cardOrder_swap (a b : DeviceDir) : a.cardOrder b = (b.cardOrder a).swap :=
  Std.OrientedCmp.eq_swap

/-- One of two cards stands before the other or has its name. -/
theorem isLE_cardOrder_iff {a b : DeviceDir} : (a.cardOrder b).isLE = true ↔ ¬ b.Precedes a := by
  rw [← cardOrder_eq_lt, cardOrder_swap b a]
  cases a.cardOrder b <;> decide

theorem isLE_cardOrder_trans (a b c : DeviceDir) :
    (a.cardOrder b).isLE = true → (b.cardOrder c).isLE = true → (a.cardOrder c).isLE = true :=
  Std.TransCmp.isLE_trans

theorem isLE_cardOrder_total (a b : DeviceDir) :
    ((a.cardOrder b).isLE || (b.cardOrder a).isLE) = true := by
  rw [cardOrder_swap b a]
  cases a.cardOrder b <;> rfl

theorem Precedes.asymm {a b : DeviceDir} (h : a.Precedes b) : ¬ b.Precedes a := by
  rw [← isLE_cardOrder_iff, (cardOrder_eq_lt a b).mpr h]
  rfl

/-- Cards that come in order either way have one name. -/
theorem name_eq_of_not_precedes {a b : DeviceDir} (hab : ¬ a.Precedes b) (hba : ¬ b.Precedes a) :
    a.name = b.name := by
  by_contra hne
  exact hab (precedes_of_isLE (isLE_cardOrder_iff.mpr hba) hne)

/-- A card with a smaller number stands before one with a larger one, however they are written. -/
theorem precedes_of_decimalValue {directory : Path} {low high : String}
    (hlowEntry : Path.IsEntry (cardNamed low)) (hhighEntry : Path.IsEntry (cardNamed high))
    (hlow : IsDecimal low) (hhigh : IsDecimal high) (hlt : decimalValue low < decimalValue high)
    (hsmall : decimalValue high < UInt32.size) :
    (DeviceDir.mk (directory.join (cardNamed low))).Precedes
      ⟨directory.join (cardNamed high)⟩ := by
  have hnumbers : UInt32.ofNat (decimalValue low) < UInt32.ofNat (decimalValue high) := by
    rw [UInt32.lt_iff_toNat_lt, UInt32.toNat_ofNat_of_lt' (Nat.lt_trans hlt hsmall),
      UInt32.toNat_ofNat_of_lt' hsmall]
    exact hlt
  left
  rw [cardNumber?_under hlowEntry hlow (Nat.lt_trans hlt hsmall),
    cardNumber?_under hhighEntry hhigh hsmall]
  exact hnumbers

end DeviceDir

/-! ## Enumeration -/

/-- The cards under two names of a directory come in this order, or in either. -/
def inOrder (directory : Path) (a b : RawText) : Bool :=
  ((⟨directory.join a⟩ : DeviceDir).cardOrder ⟨directory.join b⟩).isLE

/-- The names in a listing under which there is a card, in order. -/
def cardNames (fs : Snapshot) (directory : Path) (names : List RawText) : List RawText :=
  (names.filter fun name => (⟨directory.join name⟩ : DeviceDir).isCard fs).mergeSort
    (inOrder directory)

variable {fs fs' : Snapshot} {mounts : Mounts} {directory : Path} {names names' : List RawText}

theorem cards_eq_ok (h : fs.list mounts.cardDirectory = .ok names) :
    cards fs mounts = .ok (DeviceDir.under mounts.cardDirectory
      (cardNames fs mounts.cardDirectory names)) := by
  have hsort := List.map_mergeSort (f := fun name => DeviceDir.mk (mounts.cardDirectory.join name))
    (r := inOrder mounts.cardDirectory) (s := fun a b => (a.cardOrder b).isLE)
    (l := names.filter fun name => (⟨mounts.cardDirectory.join name⟩ : DeviceDir).isCard fs)
    fun _ _ _ _ => rfl
  unfold cards DeviceDir.under cardNames
  simp only [h]
  rw [hsort, List.filter_map]
  rfl

theorem inOrder_trans (directory : Path) (a b c : RawText) :
    inOrder directory a b = true → inOrder directory b c = true → inOrder directory a c = true :=
  DeviceDir.isLE_cardOrder_trans _ _ _

theorem inOrder_total (directory : Path) (a b : RawText) :
    (inOrder directory a b || inOrder directory b a) = true :=
  DeviceDir.isLE_cardOrder_total _ _

/-- The cards are ordered, each before those that it precedes. -/
theorem pairwise_cardNames (fs : Snapshot) (directory : Path) (names : List RawText) :
    (DeviceDir.under directory (cardNames fs directory names)).Pairwise
      fun a b => ¬ b.Precedes a := by
  have hsorted : (cardNames fs directory names).Pairwise fun a b => inOrder directory a b = true :=
    List.pairwise_mergeSort (inOrder_trans directory) (inOrder_total directory) _
  exact List.pairwise_map.mpr (hsorted.imp DeviceDir.isLE_cardOrder_iff.mp)

/-- Cards that the order does not tell apart stay as they are listed. -/
theorem sublist_cardNames {a b : RawText} (ha : (⟨directory.join a⟩ : DeviceDir).isCard fs = true)
    (hb : (⟨directory.join b⟩ : DeviceDir).isCard fs = true)
    (hle : inOrder directory a b = true) (hlisted : [a, b].Sublist names) :
    [a, b].Sublist (cardNames fs directory names) := by
  have hfilter := hlisted.filter fun name => (⟨directory.join name⟩ : DeviceDir).isCard fs
  rw [List.filter_cons_of_pos (by exact ha), List.filter_cons_of_pos (by exact hb)] at hfilter
  exact List.pair_sublist_mergeSort (inOrder_trans directory) (inOrder_total directory) hle hfilter

namespace DeviceDir

/-- Only the names of two cards decide on their order. -/
theorem precedes_congr {a a' b b' : DeviceDir} (ha : a.name = a'.name) (hb : b.name = b'.name) :
    a.Precedes b ↔ a'.Precedes b' := by
  unfold Precedes cardNumber?
  rw [ha, hb]

/-- There is one way to write the names of some devices in order. -/
theorem map_name_eq_of_perm {devices devices' : List DeviceDir} (hperm : devices.Perm devices')
    (h : devices.Pairwise fun a b => ¬ b.Precedes a)
    (h' : devices'.Pairwise fun a b => ¬ b.Precedes a) :
    devices.map name = devices'.map name := by
  have hnames : ∀ ds : List DeviceDir, ds.Pairwise (fun a b => ¬ b.Precedes a) →
      (ds.map name).Pairwise
        fun s t => ∀ a b : DeviceDir, a.name = s → b.name = t → ¬ b.Precedes a := by
    intro ds hds
    refine List.pairwise_map.mpr (hds.imp fun hback c d hc hd hprecedes => hback ?_)
    exact (precedes_congr hd hc).mp hprecedes
  refine (hperm.map name).eq_of_pairwise ?_ (hnames _ h) (hnames _ h')
  intro s t hs ht hst hts
  obtain ⟨a, -, rfl⟩ := List.mem_map.mp hs
  obtain ⟨b, -, rfl⟩ := List.mem_map.mp ht
  exact name_eq_of_not_precedes (hts b a rfl rfl) (hst a b rfl rfl)

end DeviceDir

/-- Of two names in an ordered list, the one that precedes stands first. -/
theorem sublist_of_precedes
    (h : (DeviceDir.under directory names).Pairwise fun a b => ¬ b.Precedes a) {a b : RawText}
    (ha : a ∈ names) (hb : b ∈ names)
    (hab : (⟨directory.join a⟩ : DeviceDir).Precedes ⟨directory.join b⟩) :
    [a, b].Sublist names := by
  induction names with
  | nil => exact absurd ha List.not_mem_nil
  | cons name later ih =>
      obtain ⟨hname, hlater⟩ := List.pairwise_cons.mp h
      rcases List.mem_cons.mp hb with rfl | hbl
      · rcases List.mem_cons.mp ha with rfl | ha
        · exact absurd hab hab.asymm
        · exact absurd hab (hname _ (List.mem_map_of_mem ha))
      · rcases List.mem_cons.mp ha with rfl | ha
        · exact List.cons_sublist_cons.mpr (List.singleton_sublist.mpr hbl)
        · exact (ih hlater ha hbl).cons name

/-- Snapshots that differ in the order of their listings agree on what is a card. -/
theorem Snapshot.Reordered.isCard (h : fs.Reordered fs') (d : DeviceDir) :
    d.isCard fs' = d.isCard fs := by
  unfold DeviceDir.isCard DeviceDir.deviceFile? DeviceDir.property? DeviceDir.properties
  rw [h.readText]

/-- Another order of the listing leaves the same cards, perhaps in another order. -/
theorem Snapshot.Reordered.cardNames_perm (h : fs.Reordered fs') (hnames : names.Perm names')
    (directory : Path) : (cardNames fs' directory names').Perm (cardNames fs directory names) := by
  refine (List.mergeSort_perm _ _).trans (.trans ?_ (List.mergeSort_perm _ _).symm)
  rw [funext fun name => h.isCard ⟨directory.join name⟩]
  exact (hnames.filter _).symm

namespace Snapshot.Lists

theorem mem_cardNames_iff (h : fs.Lists directory names) (name : RawText) :
    name ∈ cardNames fs directory names ↔ name ∈ names ∧ IsCardEntry fs directory name := by
  unfold cardNames
  rw [List.mem_mergeSort, List.mem_filter]
  exact and_congr_right fun hname => DeviceDir.isCard_under fs (h.entry name hname)

theorem isEntry_of_mem (h : fs.Lists directory names) {name : RawText}
    (hname : name ∈ cardNames fs directory names) : Path.IsEntry name :=
  h.entry name ((h.mem_cardNames_iff name).mp hname).1

/-- What the cards are called is what their entries are shown as. -/
theorem map_name_cardNames (h : fs.Lists directory names) :
    (DeviceDir.under directory (cardNames fs directory names)).map (·.name) =
      (cardNames fs directory names).map RawText.decode := by
  unfold DeviceDir.under
  rw [List.map_map]
  exact List.map_congr_left fun name hname => DeviceDir.name_under (h.isEntry_of_mem hname)

/-- What is shown of the cards is the same for every order of the listing. -/
theorem map_decode_cardNames (h : fs.Lists directory names) (hfs : fs.Reordered fs')
    (h' : fs'.Lists directory names') (hnames : names.Perm names') :
    (cardNames fs' directory names').map RawText.decode =
      (cardNames fs directory names).map RawText.decode := by
  rw [← h.map_name_cardNames, ← h'.map_name_cardNames]
  exact DeviceDir.map_name_eq_of_perm ((hfs.cardNames_perm hnames directory).map _)
    (pairwise_cardNames fs' directory names') (pairwise_cardNames fs directory names)

/-- Cards that are shown differently come in strict order. -/
theorem pairwise_precedes (h : fs.Lists directory names)
    (hshown : ((cardNames fs directory names).map RawText.decode).Nodup) :
    (DeviceDir.under directory (cardNames fs directory names)).Pairwise DeviceDir.Precedes := by
  rw [← h.map_name_cardNames] at hshown
  exact (pairwise_cardNames fs directory names).imp₂
    (fun _ _ hback hne => DeviceDir.precedes_of_isLE (DeviceDir.isLE_cardOrder_iff.mpr hback) hne)
    (List.pairwise_map.mp hshown)

/-- Another order of the listing makes another listing. -/
theorem reordered (h : fs.Lists directory names) (hfs : fs.Reordered fs') :
    ∃ names', fs'.Lists directory names' ∧ names.Perm names' := by
  obtain ⟨names', hlisted', hnames⟩ := hfs.list_eq_ok h.listed
  exact ⟨names', ⟨hlisted', hnames.nodup h.nodup,
    fun name hname => h.entry name (hnames.mem_iff.mpr hname)⟩, hnames⟩

/-- Another order of the listing leaves the names as they are that are shown differently. -/
theorem cardNames_eq_of_nodup (h : fs.Lists directory names) (hfs : fs.Reordered fs')
    (h' : fs'.Lists directory names') (hnames : names.Perm names')
    (hshown : ((cardNames fs directory names).map RawText.decode).Nodup) :
    cardNames fs' directory names' = cardNames fs directory names := by
  have hshown' := hshown
  rw [← h.map_decode_cardNames hfs h' hnames] at hshown'
  have hstrict := h.pairwise_precedes hshown
  have hstrict' := h'.pairwise_precedes hshown'
  unfold DeviceDir.under at hstrict hstrict'
  rw [List.pairwise_map] at hstrict hstrict'
  exact (hfs.cardNames_perm hnames directory).eq_of_pairwise
    (fun _ _ _ _ hab hba => absurd hba hab.asymm) hstrict' hstrict

end Snapshot.Lists

/-- Of a directory that can be listed, the cards are exactly the entries that say so, each of them
once. They never come against the order of their numbers and names as these are shown, and cards
that are shown alike come as they are listed. What is shown of them is the same for every order of
the listing; where no two are shown alike, they come in strict order and are the same cards for
every order of the listing. A smaller number that fits a word stands before a larger one, however
many digits they have. -/
theorem cards_of_listing (h : fs.Lists mounts.cardDirectory names) :
    ∃ picked : List RawText,
      cards fs mounts = .ok (DeviceDir.under mounts.cardDirectory picked) ∧
      (DeviceDir.under mounts.cardDirectory picked).map (·.name) = picked.map RawText.decode ∧
      picked.Nodup ∧
      (∀ name, name ∈ picked ↔ name ∈ names ∧ IsCardEntry fs mounts.cardDirectory name) ∧
      (DeviceDir.under mounts.cardDirectory picked).Pairwise (fun a b => ¬ b.Precedes a) ∧
      (∀ a b, a ∈ picked → b ∈ picked → a.decode = b.decode → [a, b].Sublist names →
        [a, b].Sublist picked) ∧
      (∀ fs', fs.Reordered fs' → ∃ picked' : List RawText,
        cards fs' mounts = .ok (DeviceDir.under mounts.cardDirectory picked') ∧
        picked'.Perm picked ∧ picked'.map RawText.decode = picked.map RawText.decode) ∧
      ((picked.map RawText.decode).Nodup →
        (DeviceDir.under mounts.cardDirectory picked).Pairwise DeviceDir.Precedes ∧
        ∀ fs', fs.Reordered fs' → cards fs' mounts = cards fs mounts) ∧
      ∀ low high, IsDecimal low → IsDecimal high →
        cardNamed low ∈ picked → cardNamed high ∈ picked →
        decimalValue low < decimalValue high → decimalValue high < 2 ^ 32 →
        [cardNamed low, cardNamed high].Sublist picked := by
  have hsorted := pairwise_cardNames fs mounts.cardDirectory names
  refine ⟨cardNames fs mounts.cardDirectory names, cards_eq_ok h.listed, h.map_name_cardNames, ?_,
    h.mem_cardNames_iff, hsorted, ?_, ?_, ?_, ?_⟩
  · exact (List.mergeSort_perm _ _).nodup_iff.mpr (h.nodup.filter _)
  · intro a b ha hb hshown hlisted
    have hname : (⟨mounts.cardDirectory.join a⟩ : DeviceDir).name =
        (⟨mounts.cardDirectory.join b⟩ : DeviceDir).name := by
      rw [DeviceDir.name_under (h.isEntry_of_mem ha), DeviceDir.name_under (h.isEntry_of_mem hb),
        hshown]
    refine sublist_cardNames ?_ ?_ ?_ hlisted
    · exact (List.mem_filter.mp (List.mem_mergeSort.mp ha)).2
    · exact (List.mem_filter.mp (List.mem_mergeSort.mp hb)).2
    · rw [inOrder, DeviceDir.cardOrder_eq_eq_iff.mpr hname]
      rfl
  · intro fs' hfs
    obtain ⟨names', h', hnames⟩ := h.reordered hfs
    exact ⟨_, cards_eq_ok h'.listed, hfs.cardNames_perm hnames _,
      h.map_decode_cardNames hfs h' hnames⟩
  · intro hshown
    refine ⟨h.pairwise_precedes hshown, fun fs' hfs => ?_⟩
    obtain ⟨names', h', hnames⟩ := h.reordered hfs
    rw [cards_eq_ok h'.listed, cards_eq_ok h.listed, h.cardNames_eq_of_nodup hfs h' hnames hshown]
  · intro low high hlow hhigh hlowIn hhighIn hlt hsmall
    exact sublist_of_precedes hsorted hlowIn hhighIn (DeviceDir.precedes_of_decimalValue
      (h.isEntry_of_mem hlowIn) (h.isEntry_of_mem hhighIn) hlow hhigh hlt hsmall)

/-- The mounts of a system whose files are those of a tree. -/
def mountsHere : Mounts := { sysfs := ⟨"."⟩ }

/-- A tree in which some entries stand in the directory of the cards, each with what its `uevent`
file holds, if it has one. -/
def cardTree (entries : List (RawText × Option (List UInt8))) : Tree :=
  let directory : Location := ["drm", "class"]
  let above : List (Location × Node) :=
    [(["class"], .directory false), (directory, .directory false)]
  let nodes : List (Location × Node) := entries.flatMap fun (name, uevent?) =>
    (name :: directory, .directory false) :: uevent?.toList.map fun content =>
      ("uevent" :: name :: directory, .file content.toByteArray false)
  ⟨.ofList (above ++ nodes)⟩

/-- Two cards, a connector, and an entry whose device file is not what its name says. -/
def mixedCards : Tree :=
  cardTree [("card0-DP-1", none), ("card10", some (Text.bytesOf "DEVNAME=dri/card10\n".toList)),
    ("card2", none), ("card7", some (Text.bytesOf "DEVNAME=dri/renderD7\n".toList))]

theorem cards_of_listing_mixed :
    let fs := mixedCards.snapshot
    ∃ names picked : List RawText, fs.Lists mountsHere.cardDirectory names ∧
      cards fs mountsHere = .ok (DeviceDir.under mountsHere.cardDirectory picked) ∧
      names = ["card0-DP-1", "card10", "card2", "card7"] ∧
      [cardNamed "2", cardNamed "10"].Sublist picked ∧ cardNamed "7" ∉ picked ∧
      cards fs.reversed mountsHere = cards fs mountsHere := by
  intro fs
  let names : List RawText := ["card0-DP-1", "card10", "card2", "card7"]
  have hfacts : mixedCards.WellNamed ∧ fs.list mountsHere.cardDirectory = .ok names ∧
      (names.map RawText.decode).Nodup ∧ ∀ name ∈ names, Path.IsEntry name ∧
        ((⟨mountsHere.cardDirectory.join name⟩ : DeviceDir).isCard fs = true ↔
          name ∈ [cardNamed "10", cardNamed "2"]) := by
    decide +kernel
  obtain ⟨hnamed, hlisted, hshown, hcards⟩ := hfacts
  have h : fs.Lists mountsHere.cardDirectory names := hnamed.lists hlisted
  obtain ⟨picked, hpicked, -, hnodup, hmem, -, -, -, hdistinct, hnumbers⟩ := cards_of_listing h
  have hcard : ∀ name ∈ names, (name ∈ picked ↔ name ∈ [cardNamed "10", cardNamed "2"]) := by
    intro name hname
    rw [hmem, ← DeviceDir.isCard_under fs (hcards name hname).1, (hcards name hname).2]
    exact and_iff_right hname
  have hpickedShown : (picked.map RawText.decode).Nodup :=
    List.Nodup.map_on (fun a ha b hb => List.inj_on_of_nodup_map hshown ((hmem a).mp ha).1
      ((hmem b).mp hb).1) hnodup
  obtain ⟨-, hsame⟩ := hdistinct hpickedShown
  refine ⟨names, picked, h, hpicked, rfl, ?_, ?_, hsame _ fs.reordered_reversed⟩
  · exact hnumbers "2" "10" (by decide) (by decide) ((hcard _ (by decide)).mpr (by decide))
      ((hcard _ (by decide)).mpr (by decide)) (by decide) (by decide)
  · exact fun hin => absurd ((hcard _ (by decide)).mp hin) (by decide)

/-! ## What the order cannot tell -/

/-- Cards that are listed in order stay as they are listed. -/
theorem cards_of_inOrder {picked : List RawText} (h : fs.list mounts.cardDirectory = .ok names)
    (hpicked : (names.filter fun name =>
      (⟨mounts.cardDirectory.join name⟩ : DeviceDir).isCard fs) = picked)
    (horder : picked.Pairwise fun a b => inOrder mounts.cardDirectory a b = true) :
    cards fs mounts = .ok (DeviceDir.under mounts.cardDirectory picked) := by
  rw [cards_eq_ok h, cardNames, hpicked, List.mergeSort_of_pairwise horder]

/-- Two entries whose names are shown alike, both of them cards by their device files. -/
def alikeNames : List RawText :=
  [⟨Text.bytesOf "card".toList ++ [0xfe]⟩, ⟨Text.bytesOf "card".toList ++ [0xff]⟩]

def alikeCards : Tree :=
  cardTree (alikeNames.map (·, some (Text.bytesOf "DEVNAME=dri/card0\n".toList)))

/-- Content that names a render node in its first line and is not text because of its second. -/
def brokenUevent : RawText := ⟨Text.bytesOf "DEVNAME=dri/renderD128\nX=".toList ++ [0xff, 0x0a]⟩

def brokenCard : Tree := cardTree [("card0", some brokenUevent.bytes)]

/-- The order of the listing shows in two cards that are shown alike: they come as they are
listed, and neither before the other. What a `uevent` file says that is not text does not count. -/
theorem cards_listed_either_way :
    let directory := mountsHere.cardDirectory
    alikeCards.snapshot.Lists directory alikeNames ∧
    (∀ name ∈ alikeNames, IsCardEntry alikeCards.snapshot directory name) ∧
    cards alikeCards.snapshot mountsHere = .ok (DeviceDir.under directory alikeNames) ∧
    cards alikeCards.snapshot.reversed mountsHere =
      .ok (DeviceDir.under directory alikeNames.reverse) ∧
    cards alikeCards.snapshot.reversed mountsHere ≠ cards alikeCards.snapshot mountsHere ∧
    ¬ (DeviceDir.under directory alikeNames).Pairwise DeviceDir.Precedes ∧
    Properties.lastValue? brokenUevent.decode "DEVNAME" = some "dri/renderD128" ∧
    ¬ Numbered "dri/card" "dri/renderD128" ∧
    cards brokenCard.snapshot mountsHere = .ok (DeviceDir.under directory ["card0"]) := by
  intro directory
  have halike : alikeCards.WellNamed ∧ alikeCards.snapshot.list directory = .ok alikeNames ∧
      (∀ name ∈ alikeNames, (⟨directory.join name⟩ : DeviceDir).isCard alikeCards.snapshot = true) ∧
      alikeNames.Pairwise (fun a b => inOrder directory a b = true ∧ inOrder directory b a = true) ∧
      DeviceDir.under directory alikeNames.reverse ≠ DeviceDir.under directory alikeNames := by
    decide +kernel
  have hbroken : Properties.lastValue? brokenUevent.decode "DEVNAME" = some "dri/renderD128" ∧
      DeviceDir.isNumbered "dri/card" "dri/renderD128" = false ∧
      brokenCard.snapshot.list directory = .ok ["card0"] ∧
      (⟨directory.join "card0"⟩ : DeviceDir).isCard brokenCard.snapshot = true := by
    decide +kernel
  obtain ⟨hnamed, hlisted, hcards, horder, hne⟩ := halike
  obtain ⟨hvalue, hnumbered, hlistedBroken, hcardBroken⟩ := hbroken
  have h : alikeCards.snapshot.Lists directory alikeNames := hnamed.lists hlisted
  have hreversed : alikeCards.snapshot.reversed.list directory = .ok alikeNames.reverse :=
    congrArg (Except.map List.reverse) hlisted
  have hforth : cards alikeCards.snapshot mountsHere = .ok (DeviceDir.under directory alikeNames) :=
    cards_of_inOrder hlisted (List.filter_eq_self.mpr hcards) (horder.imp And.left)
  have hback : cards alikeCards.snapshot.reversed mountsHere =
      .ok (DeviceDir.under directory alikeNames.reverse) := by
    refine cards_of_inOrder hreversed (List.filter_eq_self.mpr fun name hname => ?_)
      (List.pairwise_reverse.mpr (horder.imp And.right))
    rw [(Snapshot.reordered_reversed _).isCard]
    exact hcards name (List.mem_reverse.mp hname)
  have hshown : ∀ name ∈ alikeNames, IsCardEntry alikeCards.snapshot directory name := fun _ hname =>
    (DeviceDir.isCard_under _ (h.entry _ hname)).mp (hcards _ hname)
  refine ⟨h, hshown, hforth, hback, ?_, ?_, hvalue, ?_, ?_⟩
  · rw [hforth, hback]
    exact fun heq => hne (Except.ok.inj heq)
  · intro hstrict
    obtain ⟨hfirst, -⟩ := List.pairwise_cons.mp (List.pairwise_map.mp hstrict)
    obtain ⟨htie, -⟩ := List.pairwise_cons.mp horder
    exact DeviceDir.isLE_cardOrder_iff.mp (htie _ List.mem_cons_self).2
      (hfirst _ List.mem_cons_self)
  · rw [← DeviceDir.isNumbered_iff, hnumbered]
    exact Bool.false_ne_true
  · refine cards_of_inOrder hlistedBroken (List.filter_eq_self.mpr fun name hname => ?_)
      (List.pairwise_singleton _ _)
    rwa [List.mem_singleton.mp hname]

end DrmUsage

-- SUMMARY: Which cards are recognised as GPUs, which are passed over, and which one is broken, told by what their files say.
import DrmUsage.Intel.Gpu
import DrmUsage.Proofs.CardOrder
import DrmUsage.Proofs.Cuts
import DrmUsage.Proofs.Numerals

/-!
# Recognition of cards

A card is passed over unless the device behind it is there, has the number of the
vendor, is bound to the driver and is enabled; whatever keeps one of these from
being read counts like a wrong answer. Only a card that has all of them needs an
address on the bus, so it alone can be broken
(`IntelGpu.ofCard_outcomes`).
-/

namespace DrmUsage

/-! ## Last names -/

namespace Path

/-- The last name of a path: between the slashes behind it stands nothing that leads away, and the
name itself leads neither up nor nowhere. -/
def LastRaw (p : Path) (name : RawText) : Prop :=
  (name.bytes ≠ [] ∧ name ≠ here ∧ name ≠ up) ∧ ∃ before after,
    p.raw.bytes.splitOn slash = before ++ name.bytes :: after ∧
      ∀ piece ∈ after, piece = [] ∨ piece = here.bytes

/-- The last name of a path as it is shown. -/
def LastName (p : Path) (name : String) : Prop := ∃ raw, p.LastRaw raw ∧ raw.decode = name

/-- What moves along a path, if a piece between its slashes does. -/
def move? (piece : List UInt8) : Option RawText :=
  if piece = [] ∨ piece = here.bytes then none else some ⟨piece⟩

theorem move?_eq_none_iff {piece : List UInt8} :
    move? piece = none ↔ piece = [] ∨ piece = here.bytes := by
  unfold move?
  split
  · rename_i h
    exact iff_of_true rfl h
  · rename_i h
    exact iff_of_false (fun hsome => nomatch hsome) h

theorem move?_eq_some_iff {piece : List UInt8} {name : RawText} :
    move? piece = some name ↔ piece = name.bytes ∧ name.bytes ≠ [] ∧ name ≠ here := by
  unfold move?
  constructor
  · intro h
    split at h
    · exact nomatch h
    · rename_i hmoves
      obtain rfl := Option.some.inj h
      exact ⟨rfl, fun hnil => hmoves (.inl hnil), fun hhere => hmoves (.inr (hhere ▸ rfl))⟩
  · rintro ⟨rfl, hne, hhere⟩
    rw [if_neg]
    rintro (h | h)
    · exact hne h
    · exact hhere (congrArg RawText.mk h)

theorem moves_eq (p : Path) : p.moves = (p.raw.bytes.splitOn slash).filterMap move? := by
  rw [Text.filterMap_splitOn (by rfl)]
  unfold moves pieces
  induction Text.lines slash p.raw.bytes with
  | nil => rfl
  | cons piece later ih =>
      rw [List.filterMap_cons]
      cases hmove : move? piece with
      | none =>
          rcases move?_eq_none_iff.mp hmove with rfl | rfl
          · exact ih
          · exact ih
      | some name =>
          obtain ⟨rfl, hne, hhere⟩ := move?_eq_some_iff.mp hmove
          rw [List.filter_cons_of_pos (by simpa using hne), List.map_cons, List.filter_cons,
            if_pos (decide_eq_true hhere), ih]

theorem fileName?_eq_some_iff {p : Path} {name : RawText} :
    p.fileName? = some name ↔ p.LastRaw name := by
  unfold fileName? LastRaw
  rw [moves_eq, Option.filter_eq_some_iff, Text.getLast?_filterMap_eq_some_iff]
  simp only [move?_eq_some_iff, move?_eq_none_iff, decide_eq_true_eq]
  constructor
  · rintro ⟨⟨before, piece, after, hsplit, ⟨rfl, hne, hhere⟩, hafter⟩, hup⟩
    exact ⟨⟨hne, hhere, hup⟩, before, after, hsplit, hafter⟩
  · rintro ⟨⟨hne, hhere, hup⟩, before, after, hsplit, hafter⟩
    exact ⟨⟨before, name.bytes, after, hsplit, ⟨rfl, hne, hhere⟩, hafter⟩, hup⟩

end Path

/-! ## Values in a file of properties -/

namespace Properties

/-- A line gives a value to a key: the key stands before its first equals sign and the value behind
it, both with blanks around them. -/
def Gives (line : List Char) (key value : String) : Prop :=
  ∃ before behind, line = before ++ '=' :: behind ∧ '=' ∉ before ∧
    Text.trimChars before = key.toList ∧ Text.trimChars behind = value.toList

/-- The value that a line gives to a key. -/
def given? (key : String) (line : List Char) : Option String :=
  ((ofLine? (String.ofList line)).filter (·.1 = key)).map (·.2)

theorem given?_eq_some_iff {key value : String} {line : List Char} :
    given? key line = some value ↔ Gives line key value := by
  unfold given? Gives ofLine?
  simp only [String.toList_ofList, Option.map_eq_some_iff, Option.filter_eq_some_iff,
    decide_eq_true_eq]
  constructor
  · rintro ⟨_, ⟨⟨⟨before, behind⟩, hcut, rfl⟩, rfl⟩, rfl⟩
    obtain ⟨hline, hbefore⟩ := Text.splitFirst_eq_some_iff.mp hcut
    exact ⟨before, behind, hline, hbefore, String.toList_ofList.symm, String.toList_ofList.symm⟩
  · rintro ⟨before, behind, hline, hbefore, hkey, hvalue⟩
    refine ⟨(key, value), ⟨⟨(before, behind),
      Text.splitFirst_eq_some_iff.mpr ⟨hline, hbefore⟩, ?_⟩, rfl⟩, rfl⟩
    dsimp only
    rw [hkey, hvalue, String.ofList_toList, String.ofList_toList]

theorem given?_eq_none_iff {key : String} {line : List Char} :
    given? key line = none ↔ ∀ value, ¬ Gives line key value := by
  simp only [Option.eq_none_iff_forall_ne_some, ne_eq, given?_eq_some_iff]

/-- The last value of a text is the one in the last of its lines that gives one. -/
theorem lastValue?_eq (text key : String) :
    lastValue? text key = ((text.toList.splitOn '\n').filterMap (given? key)).getLast? := by
  have hempty : given? key [] = none := rfl
  unfold lastValue? Text.linesOf
  rw [Text.filterMap_splitOn hempty, ← List.getLast?_map, List.filterMap_map,
    List.filter_filterMap, List.map_filterMap]
  rfl

end Properties

/-- A file gives a value to a key in the last of its lines that give it one. -/
def Snapshot.LastGives (fs : Snapshot) (file : Path) (key value : String) : Prop :=
  ∃ text, fs.readText file = .ok text ∧ ∃ before line after,
    text.toList.splitOn '\n' = before ++ line :: after ∧ Properties.Gives line key value ∧
      ∀ later ∈ after, ∀ other, ¬ Properties.Gives later key other

/-- A file that cannot be read, or one without a line for a key. -/
def Snapshot.GivesNone (fs : Snapshot) (file : Path) (key : String) : Prop :=
  ∀ text, fs.readText file = .ok text →
    ∀ line ∈ text.toList.splitOn '\n', ∀ value, ¬ Properties.Gives line key value

namespace DeviceDir

theorem property?_eq_some_iff {fs : Snapshot} {d : DeviceDir} {key value : String} :
    d.property? fs key = some value ↔ fs.LastGives (d.path.join "uevent") key value := by
  rw [property?_eq]
  unfold Snapshot.ueventValue? Snapshot.LastGives
  cases fs.readText (d.path.join "uevent") with
  | error cause => exact iff_of_false (fun h => nomatch h) (fun ⟨_, h, _⟩ => nomatch h)
  | ok text =>
      simp only [Except.toOption, Option.bind_some, Properties.lastValue?_eq,
        Text.getLast?_filterMap_eq_some_iff, Properties.given?_eq_some_iff,
        Properties.given?_eq_none_iff, Except.ok.injEq, exists_eq_left']

theorem property?_eq_none_iff {fs : Snapshot} {d : DeviceDir} {key : String} :
    d.property? fs key = none ↔ fs.GivesNone (d.path.join "uevent") key := by
  rw [property?_eq]
  unfold Snapshot.ueventValue? Snapshot.GivesNone
  cases fs.readText (d.path.join "uevent") with
  | error cause => exact iff_of_true rfl (fun _ h => nomatch h)
  | ok text =>
      simp only [Except.toOption, Option.bind_some, Properties.lastValue?_eq,
        List.getLast?_eq_none_iff, List.filterMap_eq_nil_iff, Properties.given?_eq_none_iff,
        Except.ok.injEq, forall_eq']

theorem attribute?_eq_some_iff {fs : Snapshot} {d : DeviceDir} {name value : String} :
    d.attribute? fs name = some value ↔
      ∃ text, fs.readText (d.path.join name) = .ok text ∧ Text.trim text = value := by
  unfold attribute?
  cases fs.readText (d.path.join name) with
  | error cause => exact iff_of_false (fun h => nomatch h) (fun ⟨_, h, _⟩ => nomatch h)
  | ok text => simp [Except.toOption]

theorem driver?_eq_some_iff {fs : Snapshot} {d : DeviceDir} {driver : String} :
    d.driver? fs = some driver ↔
      ∃ target, fs.readLink (d.path.join "driver") = .ok target ∧
        Path.LastName ⟨target⟩ driver := by
  unfold driver?
  cases fs.readLink (d.path.join "driver") with
  | error cause => exact iff_of_false (fun h => nomatch h) (fun ⟨_, h, _⟩ => nomatch h)
  | ok target =>
      simp only [Except.toOption, Option.bind_some, Option.map_eq_some_iff,
        Path.fileName?_eq_some_iff, Path.LastName, Except.ok.injEq, exists_eq_left']

end DeviceDir

namespace IntelGpu

/-! ## Recognition -/

theorem saysNumber_trim {text : String} {n : Nat} :
    Text.SaysNumber (Text.trim text) n ↔ Text.SaysNumber text n := by
  unfold Text.SaysNumber
  rw [Text.toList_trim, (Text.isBare_trimChars _).trimChars_eq]

/-- What the files of a device on the bus say if it is one that is asked for. -/
structure Fits (fs : Snapshot) (parent : Path) (vendor : UInt16) (driver : String) : Prop where
  present : fs.isDirectory parent = true
  vendor : ∃ text, fs.readText (parent.join "vendor") = .ok text ∧
    Text.SaysNumber text vendor.toNat
  driver : ∃ target, fs.readLink (parent.join "driver") = .ok target ∧
    Path.LastName ⟨target⟩ driver
  enabled : ∃ text, fs.readText (parent.join "enable") = .ok text ∧ Text.trim text = "1"

theorem not_fits_iff {fs : Snapshot} {parent : Path} {vendor : UInt16} {driver : String} :
    ¬ Fits fs parent vendor driver ↔
      fs.isDirectory parent = false ∨
      (∀ text, fs.readText (parent.join "vendor") = .ok text →
        ¬ Text.SaysNumber text vendor.toNat) ∨
      (∀ target, fs.readLink (parent.join "driver") = .ok target →
        ¬ Path.LastName ⟨target⟩ driver) ∨
      (∀ text, fs.readText (parent.join "enable") = .ok text → Text.trim text ≠ "1") := by
  have hfits : Fits fs parent vendor driver ↔ fs.isDirectory parent = true ∧
      (∃ text, fs.readText (parent.join "vendor") = .ok text ∧
        Text.SaysNumber text vendor.toNat) ∧
      (∃ target, fs.readLink (parent.join "driver") = .ok target ∧
        Path.LastName ⟨target⟩ driver) ∧
      ∃ text, fs.readText (parent.join "enable") = .ok text ∧ Text.trim text = "1" :=
    ⟨fun ⟨h₁, h₂, h₃, h₄⟩ => ⟨h₁, h₂, h₃, h₄⟩, fun ⟨h₁, h₂, h₃, h₄⟩ => ⟨h₁, h₂, h₃, h₄⟩⟩
  simp only [hfits, not_and_or, not_exists, Bool.not_eq_true, ← imp_iff_not_or, ne_eq]

theorem matchesParent_iff {fs : Snapshot} {parent : Path} {vendor : UInt16} {driver : String}
    (h : fs.isDirectory parent = true) :
    matchesParent fs ⟨parent⟩ vendor driver = true ↔ Fits fs parent vendor driver := by
  have hvendor : ((⟨parent⟩ : DeviceDir).attribute? fs "vendor").bind Text.number? =
      some vendor.toUInt64 ↔
        ∃ text, fs.readText (parent.join "vendor") = .ok text ∧
          Text.SaysNumber text vendor.toNat := by
    rw [Option.bind_eq_some_iff]
    simp only [DeviceDir.attribute?_eq_some_iff, Text.number?_eq_some_iff,
      UInt16.toNat_toUInt64]
    constructor
    · rintro ⟨_, ⟨text, htext, rfl⟩, hnumber⟩
      exact ⟨text, htext, saysNumber_trim.mp hnumber⟩
    · rintro ⟨text, htext, hnumber⟩
      exact ⟨_, ⟨text, htext, rfl⟩, saysNumber_trim.mpr hnumber⟩
  unfold matchesParent
  rw [Bool.and_eq_true, Bool.and_eq_true, decide_eq_true_eq, decide_eq_true_eq,
    decide_eq_true_eq, hvendor, DeviceDir.driver?_eq_some_iff, DeviceDir.attribute?_eq_some_iff]
  constructor
  · rintro ⟨⟨hvendor, hdriver⟩, henabled⟩
    exact ⟨h, hvendor, hdriver, henabled⟩
  · rintro ⟨-, hvendor, hdriver, henabled⟩
    exact ⟨⟨hvendor, hdriver⟩, henabled⟩

theorem ofCard_of_not_fits {fs : Snapshot} {card : DeviceDir} {vendor : UInt16} {driver : String}
    (h : ¬ Fits fs (card.path.join "device") vendor driver) :
    ofCard fs card vendor driver = .ok none := by
  unfold ofCard DeviceDir.parent?
  dsimp only
  by_cases hpresent : fs.isDirectory (card.path.join "device") = true
  · rw [if_pos hpresent]
    dsimp only
    rw [if_neg fun hmatch => h ((matchesParent_iff hpresent).mp hmatch)]
  · rw [if_neg hpresent]

theorem ofCard_of_none {fs : Snapshot} {card : DeviceDir} {vendor : UInt16} {driver : String}
    (h : Fits fs (card.path.join "device") vendor driver)
    (hslot : (⟨card.path.join "device"⟩ : DeviceDir).property? fs slotProperty = none) :
    ofCard fs card vendor driver =
      .error (.lacksProperty (card.path.join "device") slotProperty) := by
  unfold ofCard DeviceDir.parent?
  dsimp only
  rw [if_pos h.present]
  dsimp only
  rw [if_pos ((matchesParent_iff h.present).mpr h), hslot]

theorem ofCard_of_some {fs : Snapshot} {card : DeviceDir} {vendor : UInt16} {driver slot : String}
    (h : Fits fs (card.path.join "device") vendor driver)
    (hslot : (⟨card.path.join "device"⟩ : DeviceDir).property? fs slotProperty = some slot) :
    ofCard fs card vendor driver =
      .ok (some {
        card, parent := ⟨card.path.join "device"⟩
        pdev := String.ofList (slot.toList.take pdevLength) }) := by
  unfold ofCard DeviceDir.parent?
  dsimp only
  rw [if_pos h.present]
  dsimp only
  rw [if_pos ((matchesParent_iff h.present).mpr h), hslot]

/-- A card is passed over exactly if the device behind it is not there, says another number of the
vendor, is bound to another driver, or is not enabled; what cannot be read is none of what is asked
for. Any other card is broken if no line gives it an address, and is a GPU otherwise, at the first
characters of the last address, with nothing known and nothing sampled yet. -/
theorem ofCard_outcomes (fs : Snapshot) (card : DeviceDir) (vendor : UInt16) (driver : String) :
    let parent := card.path.join "device"
    -- a card that is passed over
    (ofCard fs card vendor driver = .ok none ↔
      fs.isDirectory parent = false ∨
      (∀ text, fs.readText (parent.join "vendor") = .ok text →
        ¬ Text.SaysNumber text vendor.toNat) ∨
      (∀ target, fs.readLink (parent.join "driver") = .ok target →
        ¬ Path.LastName ⟨target⟩ driver) ∨
      (∀ text, fs.readText (parent.join "enable") = .ok text → Text.trim text ≠ "1")) ∧
    -- any other card
    (ofCard fs card vendor driver ≠ .ok none →
      (∀ failure, ofCard fs card vendor driver = .error failure ↔
        fs.GivesNone (parent.join "uevent") "PCI_SLOT_NAME" ∧
          failure = .lacksProperty parent "PCI_SLOT_NAME") ∧
      ∀ gpu, ofCard fs card vendor driver = .ok (some gpu) ↔
        ∃ slot, fs.LastGives (parent.join "uevent") "PCI_SLOT_NAME" slot ∧
          gpu = {
            card, parent := ⟨parent⟩, pdev := String.ofList (slot.toList.take 16)
            identity := {}, clocks := {}, cache := .empty }) := by
  intro parent
  by_cases hfits : Fits fs parent vendor driver
  · have hunfit := fun hunfit => not_fits_iff.mpr hunfit hfits
    have hone (slot : String) :
        (⟨parent⟩ : DeviceDir).property? fs slotProperty = some slot ↔
          fs.LastGives (parent.join "uevent") slotProperty slot :=
      DeviceDir.property?_eq_some_iff
    have hno : (⟨parent⟩ : DeviceDir).property? fs slotProperty = none ↔
        fs.GivesNone (parent.join "uevent") slotProperty :=
      DeviceDir.property?_eq_none_iff
    cases hslot : (⟨parent⟩ : DeviceDir).property? fs slotProperty with
    | none =>
        have hcard := ofCard_of_none hfits hslot
        rw [hcard]
        refine ⟨iff_of_false (fun h => nomatch h) hunfit, fun _ =>
          ⟨fun failure => ?_, fun gpu => ?_⟩⟩
        · rw [Except.error.injEq]
          exact ⟨fun h => ⟨hno.mp hslot, h.symm⟩, fun h => h.2.symm⟩
        · refine iff_of_false (fun h => nomatch h) ?_
          rintro ⟨slot, hgives, -⟩
          exact Option.some_ne_none slot (((hone slot).mpr hgives).symm.trans hslot)
    | some slot =>
        have hcard := ofCard_of_some hfits hslot
        rw [hcard]
        refine ⟨iff_of_false (fun h => nomatch h) hunfit, fun _ =>
          ⟨fun failure => ?_, fun gpu => ?_⟩⟩
        · refine iff_of_false (fun h => nomatch h) ?_
          rintro ⟨hnone, -⟩
          exact Option.some_ne_none slot (hslot.symm.trans (hno.mpr hnone))
        · rw [Except.ok.injEq, Option.some.injEq]
          constructor
          · rintro rfl
            exact ⟨slot, (hone slot).mp hslot, rfl⟩
          · rintro ⟨other, hgives, rfl⟩
            obtain rfl : slot = other :=
              Option.some.inj (hslot.symm.trans ((hone other).mpr hgives))
            rfl
  · have hnone := ofCard_of_not_fits hfits
    exact ⟨iff_of_true hnone (not_fits_iff.mp hfits), fun hsome => absurd hnone hsome⟩

end IntelGpu

end DrmUsage

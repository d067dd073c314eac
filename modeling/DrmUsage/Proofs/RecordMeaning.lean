-- SUMMARY: What a record says, key by key, and that the reading of a record line by line reports just this.
import Mathlib.Data.List.Induction
import DrmUsage.Intel.Report

/-!
# The meaning of a record

A GPU reads a record field by field and stops at a foreign address. What comes
of it can be said without that order: all values under the key of the address
are its own, and of the values under any other key the last one that can be read
counts (`IntelReport.ofFields?_eq`). The client and the times that a record tells
are therefore the same for all GPUs that it may belong to.
-/

namespace DrmUsage

namespace Record

/-! ## Values under a key -/

/-- The values under a key, in the order of their fields. -/
def valuesIn (key : String) (fields : List Field) : List String :=
  (fields.filter (·.key = key)).map (·.value)

/-- The last of some values that can be read. -/
def lastReadable {α : Type} (read : String → Option α) (values : List String) : Option α :=
  values.reverse.findSome? read

theorem valuesIn_concat (key : String) (fields : List Field) (field : Field) :
    valuesIn key (fields ++ [field]) =
      valuesIn key fields ++ if field.key = key then [field.value] else [] := by
  unfold valuesIn
  by_cases h : field.key = key <;> simp [h]

theorem lastReadable_concat {α : Type} (read : String → Option α) (values : List String)
    (value : String) :
    lastReadable read (values ++ [value]) = (read value).or (lastReadable read values) := by
  unfold lastReadable
  rw [List.reverse_concat, List.findSome?_cons]
  cases read value <;> rfl

@[simp] theorem lastReadable_singleton {α : Type} (read : String → Option α) (value : String) :
    lastReadable read [value] = read value := by
  cases h : read value <;> simp [lastReadable, h]

/-! ## Client and times -/

/-- The number of the client that some fields tell. -/
def clientIdIn (fields : List Field) : Option UInt32 :=
  lastReadable Text.uint32? (valuesIn clientIdKey fields)

/-- The busy time of an engine class that some fields tell. -/
def timeIn (fields : List Field) (e : Engine) : Option UInt64 :=
  lastReadable busyTime? (valuesIn e.recordKey fields)

/-- The busy times that some fields tell. -/
def timesIn (fields : List Field) : BusyTimes where
  render := timeIn fields .render
  copy := timeIn fields .copy
  video := timeIn fields .video
  videoEnhance := timeIn fields .videoEnhance

@[simp] theorem get_timesIn (fields : List Field) (e : Engine) :
    (timesIn fields).get e = timeIn fields e := by
  cases e <;> rfl

theorem clientIdIn_concat (fields : List Field) (field : Field) :
    clientIdIn (fields ++ [field]) =
      if field.key = clientIdKey then (Text.uint32? field.value).or (clientIdIn fields)
      else clientIdIn fields := by
  unfold clientIdIn
  rw [valuesIn_concat]
  by_cases h : field.key = clientIdKey
  · rw [if_pos h, if_pos h, lastReadable_concat]
  · rw [if_neg h, if_neg h, List.append_nil]

theorem timeIn_concat (fields : List Field) (field : Field) (e : Engine) :
    timeIn (fields ++ [field]) e =
      if field.key = e.recordKey then (busyTime? field.value).or (timeIn fields e)
      else timeIn fields e := by
  unfold timeIn
  rw [valuesIn_concat]
  by_cases h : field.key = e.recordKey
  · rw [if_pos h, if_pos h, lastReadable_concat]
  · rw [if_neg h, if_neg h, List.append_nil]

/-- All addresses in some fields are this one. -/
def BelongsIn (pdev : String) (fields : List Field) : Prop :=
  ∀ value ∈ valuesIn pdevKey fields, value = pdev

instance (pdev : String) (fields : List Field) : Decidable (BelongsIn pdev fields) :=
  inferInstanceAs (Decidable (∀ value ∈ valuesIn pdevKey fields, value = pdev))

theorem belongsIn_concat_iff {pdev : String} {fields : List Field} {field : Field} :
    BelongsIn pdev (fields ++ [field]) ↔
      BelongsIn pdev fields ∧ (field.key = pdevKey → field.value = pdev) := by
  unfold BelongsIn
  rw [valuesIn_concat]
  by_cases h : field.key = pdevKey
  · simp only [h, if_true, List.mem_append, List.mem_singleton, or_imp, forall_and, forall_eq,
      forall_const]
  · simp only [h, if_false, List.append_nil, false_imp_iff, and_true]

/-! ## Keys -/

theorem clientIdKey_ne_pdevKey : clientIdKey ≠ pdevKey := by decide

theorem recordKey_ne_pdevKey (e : Engine) : e.recordKey ≠ pdevKey := by
  cases e <;> decide

theorem recordKey_ne_clientIdKey (e : Engine) : e.recordKey ≠ clientIdKey := by
  cases e <;> decide

end Record

namespace IntelReport

open Record

/-- What some fields report one after the other; none if one is foreign. -/
def ofFields? (pdev : String) (fields : List Field) : Option IntelReport :=
  fields.foldlM (absorb pdev) empty

/-- What the lines of a record report; none if one is foreign. -/
def ofLines? (pdev : String) (lines : List String) : Option IntelReport :=
  ofFields? pdev (fieldsOf lines)

/-- The report in which every field counts as far as it can be read. -/
def summary (fields : List Field) : IntelReport := ⟨clientIdIn fields, timesIn fields⟩

theorem summary_concat_of_pdevKey {fields : List Field} {field : Field}
    (h : field.key = pdevKey) : summary (fields ++ [field]) = summary fields := by
  have hid : field.key ≠ clientIdKey := fun e => clientIdKey_ne_pdevKey (e ▸ h)
  have htime : ∀ e : Engine, field.key ≠ e.recordKey := fun e he =>
    recordKey_ne_pdevKey e (he ▸ h)
  unfold summary
  rw [clientIdIn_concat, if_neg hid]
  congr 1
  apply BusyTimes.ext_get
  intro e
  rw [get_timesIn, get_timesIn, timeIn_concat, if_neg (htime e)]

theorem summary_concat_of_clientIdKey {fields : List Field} {field : Field}
    (h : field.key = clientIdKey) :
    summary (fields ++ [field]) =
      { summary fields with clientId := (Text.uint32? field.value).or (clientIdIn fields) } := by
  have htime : ∀ e : Engine, field.key ≠ e.recordKey := fun e he =>
    recordKey_ne_clientIdKey e (he ▸ h)
  unfold summary
  rw [clientIdIn_concat, if_pos h]
  congr 1
  apply BusyTimes.ext_get
  intro e
  rw [get_timesIn, get_timesIn, timeIn_concat, if_neg (htime e)]

theorem summary_concat_of_ne {fields : List Field} {field : Field}
    (hid : field.key ≠ clientIdKey) :
    summary (fields ++ [field]) =
      match Engine.ofRecordKey? field.key, busyTime? field.value with
      | some e, some ns => { summary fields with times := (timesIn fields).set e ns }
      | _, _ => summary fields := by
  unfold summary
  rw [clientIdIn_concat, if_neg hid]
  cases hk : Engine.ofRecordKey? field.key with
  | none =>
      have hne : ∀ e : Engine, field.key ≠ e.recordKey := by
        intro e he
        rw [Engine.ofRecordKey?_eq_some_iff.mpr he] at hk
        exact Option.some_ne_none e hk
      have htimes : timesIn (fields ++ [field]) = timesIn fields := by
        apply BusyTimes.ext_get
        intro e
        rw [get_timesIn, get_timesIn, timeIn_concat, if_neg (hne e)]
      rw [htimes]
  | some e =>
      have hkey := Engine.ofRecordKey?_eq_some_iff.mp hk
      cases ht : busyTime? field.value with
      | none =>
          have htimes : timesIn (fields ++ [field]) = timesIn fields := by
            apply BusyTimes.ext_get
            intro d
            rw [get_timesIn, get_timesIn, timeIn_concat, ht, Option.none_or, ite_self]
          rw [htimes]
      | some ns =>
          have htimes : timesIn (fields ++ [field]) = (timesIn fields).set e ns := by
            apply BusyTimes.ext_get
            intro d
            rw [get_timesIn, BusyTimes.get_set, get_timesIn, timeIn_concat, ht, Option.some_or]
            by_cases hd : d = e
            · rw [hd, if_pos hkey, if_pos rfl]
            · rw [if_neg (fun h => hd (Engine.recordKey_injective (h.symm.trans hkey))), if_neg hd]
          rw [htimes]

/-- One more field adds to a summary what it says, unless its address is foreign. -/
theorem absorb_summary (pdev : String) (fields : List Field) (field : Field) :
    absorb pdev (summary fields) field =
      if field.key = pdevKey → field.value = pdev then some (summary (fields ++ [field]))
      else none := by
  unfold absorb
  by_cases hp : field.key = pdevKey
  · rw [if_pos hp, summary_concat_of_pdevKey hp]
    simp only [hp, forall_const]
  · rw [if_neg hp, if_pos (fun h => absurd h hp)]
    by_cases hid : field.key = clientIdKey
    · rw [if_pos hid, summary_concat_of_clientIdKey hid]
      rfl
    · rw [if_neg hid, summary_concat_of_ne hid]
      cases Engine.ofRecordKey? field.key <;> cases busyTime? field.value <;> rfl

/-- The reading of some fields in order reports their summary, unless one is foreign. -/
theorem ofFields?_eq (pdev : String) (fields : List Field) :
    ofFields? pdev fields = if BelongsIn pdev fields then some (summary fields) else none := by
  induction fields using List.reverseRecOn with
  | nil => rfl
  | append_singleton fields field ih =>
      unfold ofFields? at ih ⊢
      rw [List.foldlM_append, ih]
      by_cases hb : BelongsIn pdev fields
      · rw [if_pos hb]
        simp only [Option.bind_eq_bind, Option.bind_some, List.foldlM_cons, List.foldlM_nil,
          absorb_summary, Option.pure_def, belongsIn_concat_iff, hb, true_and]
        exact Option.bind_fun_some _
      · rw [if_neg hb, if_neg (fun h => hb (belongsIn_concat_iff.mp h).1)]
        rfl

end IntelReport

namespace Record

/-! ## The text of a record -/

/-- The values under a key in the text of a record. -/
def values (key record : String) : List String := valuesIn key (fieldsOf (Text.linesOf record))

theorem firstValue?_eq_head? (key record : String) :
    firstValue? key record = (values key record).head? := by
  unfold firstValue? values valuesIn
  rw [List.head?_map, List.head?_filter]

/-- The number of the client that a record tells: the last one in it that can be read. -/
def lastClientId? (record : String) : Option UInt32 :=
  lastReadable Text.uint32? (values clientIdKey record)

/-- Of one number, the first is the last. -/
theorem clientId?_eq_lastClientId? {record number : String}
    (h : values clientIdKey record = [number]) : clientId? record = lastClientId? record := by
  unfold clientId? lastClientId?
  rw [firstValue?_eq_head?, h, lastReadable_singleton]
  rfl

/-- The busy time of an engine class that a record tells: the last one that can be read. -/
def lastTime? (record : String) (e : Engine) : Option UInt64 :=
  lastReadable busyTime? (values e.recordKey record)

/-- The busy times that a record tells. -/
def times (record : String) : BusyTimes := timesIn (fieldsOf (Text.linesOf record))

@[simp] theorem get_times (record : String) (e : Engine) :
    (times record).get e = lastTime? record e :=
  get_timesIn ..

/-- All addresses in a record are this one. -/
def Belongs (pdev record : String) : Prop := ∀ value ∈ values pdevKey record, value = pdev

instance (pdev record : String) : Decidable (Belongs pdev record) :=
  inferInstanceAs (Decidable (∀ value ∈ values pdevKey record, value = pdev))

/-- What a GPU makes of the text of a record. -/
theorem ofLines?_eq (pdev record : String) :
    IntelReport.ofLines? pdev (Text.linesOf record) =
      if Belongs pdev record then some ⟨lastClientId? record, times record⟩ else none :=
  IntelReport.ofFields?_eq pdev (fieldsOf (Text.linesOf record))

end Record

end DrmUsage

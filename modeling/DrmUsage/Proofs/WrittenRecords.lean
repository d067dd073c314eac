-- SUMMARY: A record written from a bus address, a client and its busy times, in lines of any order, is read back as just these.
import DrmUsage.Proofs.RecordPeeks
import DrmUsage.Proofs.ValueGrammars

/-!
# Written records

The driver writes one line for the address, one for the number of the client and
one for each class of engines whose busy time it knows. They may stand in any
order and between lines of others, and every line may be closed in either of the
two ways. Only what stands under a key counts in the reading, so a permutation of
the lines permutes the values under each key; and under each key of the driver
stands one value at most (`Record.valuesIn_driverFields`). Hence the record is
accepted by the GPU at its address and tells what was written
(`IntelGpu.read_written`).
-/

namespace DrmUsage

/-! ## Lines -/

/-- How a line is closed. -/
inductive LineEnd where
  | newline
  | returnAndNewline
deriving DecidableEq, Repr

/-- A line of a text that is written line by line. -/
structure Line where
  text : String
  ending : LineEnd
deriving DecidableEq, Repr

namespace Line

/-- What stands in front of the newline that closes a line. -/
def front (l : Line) : List Char :=
  match l.ending with
  | .newline => l.text.toList
  | .returnAndNewline => l.text.toList ++ ['\r']

/-- The text of some lines. -/
def write (ls : List Line) : String := String.ofList (ls.flatMap fun l => l.front ++ ['\n'])

theorem not_mem_front {l : Line} (h : '\n' ∉ l.text.toList) : '\n' ∉ l.front := by
  unfold front
  split
  · exact h
  · rw [List.mem_append, not_or]
    exact ⟨h, by decide⟩

/-- Lines that are written are lines of the text. -/
theorem linesOf_write {ls : List Line} (h : ∀ l ∈ ls, '\n' ∉ l.text.toList) :
    Text.linesOf (write ls) = ls.map fun l => String.ofList l.front := by
  unfold Text.linesOf write
  rw [String.toList_ofList]
  induction ls with
  | nil => rfl
  | cons l later ih =>
      have hlater := ih fun m hm => h m (List.mem_cons_of_mem l hm)
      rw [List.flatMap_cons, List.append_assoc, List.singleton_append,
        Text.lines_append (not_mem_front (h l List.mem_cons_self)), List.map_cons, hlater,
        List.map_cons]

/-- How a line is closed does not change its field. -/
theorem ofLine?_front (l : Line) :
    Field.ofLine? (String.ofList l.front) = Field.ofLine? l.text := by
  rw [← Field.shown?_eq]
  unfold front
  split
  · rw [Field.shown?_eq, String.ofList_toList]
  · have hreturn : Text.withoutReturn (l.text.toList ++ ['\r']) = l.text.toList := by
      simp [Text.withoutReturn]
    rw [← Field.shown?_withoutReturn, hreturn, Field.shown?_eq, String.ofList_toList]

theorem fieldsOf_linesOf_write {ls : List Line} (h : ∀ l ∈ ls, '\n' ∉ l.text.toList) :
    Record.fieldsOf (Text.linesOf (write ls)) = Record.fieldsOf (ls.map (·.text)) := by
  unfold Record.fieldsOf
  rw [linesOf_write h, List.filterMap_map, List.filterMap_map]
  exact List.filterMap_congr fun l _ => ofLine?_front l

end Line

/-! ## Fields -/

namespace Field

/-- The line in which the kernel writes a field. -/
def written (f : Field) : String := f.key ++ ":\t" ++ f.value

/-- A field that is the same once it is written and read: nothing in it ends the key or the line,
and there are no blanks around its key and value. -/
structure IsPlain (f : Field) : Prop where
  named : f.key ≠ ""
  key : Text.IsBare f.key.toList
  value : Text.IsBare f.value.toList
  uncut : ':' ∉ f.key.toList
  inLine : '\n' ∉ f.key.toList ∧ '\n' ∉ f.value.toList

theorem toList_written (f : Field) :
    f.written.toList = f.key.toList ++ ':' :: '\t' :: f.value.toList := by
  simp [written]

theorem IsPlain.ofLine?_written {f : Field} (h : f.IsPlain) : ofLine? f.written = some f := by
  have hcut : Text.splitFirst ':' f.written.toList =
      some (f.key.toList, '\t' :: f.value.toList) :=
    Text.splitFirst_eq_some_iff.mpr ⟨toList_written f, h.uncut⟩
  have hkey : f.key.toList.isEmpty = false :=
    List.isEmpty_eq_false_iff.mpr fun hnil => h.named (String.toList_eq_nil_iff.mp hnil)
  have hvalue : Text.trimChars ('\t' :: f.value.toList) = f.value.toList := by
    rw [Text.trimChars_cons_of_isBlank (by decide), h.value.trimChars_eq]
  unfold ofLine?
  simp only [hcut, Option.bind_some, h.key.trimChars_eq, hkey, hvalue, String.ofList_toList,
    Bool.false_eq_true, if_false]

theorem IsPlain.not_mem_written {f : Field} (h : f.IsPlain) : '\n' ∉ f.written.toList := by
  rw [toList_written]
  simp only [List.mem_append, List.mem_cons, not_or]
  exact ⟨h.inLine.1, by decide, by decide, h.inLine.2⟩

end Field

/-! ## What the driver writes -/

namespace Record

/-- The keys that the driver writes. -/
def driverKeys : List String := pdevKey :: clientIdKey :: Engine.all.map (·.recordKey)

/-- The text of a busy time. -/
def busyTimeText (ns : UInt64) : String := toString ns.toNat ++ " ns"

/-- The busy time of a class of engines, if it is known. -/
def timeField? (times : BusyTimes) (e : Engine) : Option Field :=
  (times.get e).map fun ns => ⟨e.recordKey, busyTimeText ns⟩

/-- The fields of a client at an address: the address, its number and the times that are known. -/
def driverFields (pdev : String) (id : UInt32) (times : BusyTimes) : List Field :=
  ⟨pdevKey, pdev⟩ :: ⟨clientIdKey, toString id.toNat⟩ :: Engine.all.filterMap (timeField? times)

/-- A line of others: it has no colon, or what stands before its first colon is none of the keys
that the driver writes, whatever blanks are around it. -/
def IsForeign (line : String) : Prop :=
  '\n' ∉ line.toList ∧
    (':' ∈ line.toList →
      Text.trim (String.ofList (line.toList.takeWhile (· ≠ ':'))) ∉ driverKeys)

instance (line : String) : Decidable (IsForeign line) :=
  inferInstanceAs (Decidable (_ ∧ _))

theorem IsForeign.not_mem_key {line : String} (h : IsForeign line) {f : Field}
    (hf : Field.ofLine? line = some f) : f.key ∉ driverKeys := by
  rw [← String.ofList_toList (s := line), ← Field.shown?_eq] at hf
  unfold Field.shown? at hf
  dsimp only at hf
  split at hf
  · rename_i hcolon
    obtain rfl := Option.some.inj hf
    have hkey := h.2 hcolon.1
    unfold Text.trim at hkey
    rwa [String.toList_ofList] at hkey
  · exact nomatch hf

/-! ## Values under the keys of the driver -/

theorem valuesIn_append (key : String) (fields later : List Field) :
    valuesIn key (fields ++ later) = valuesIn key fields ++ valuesIn key later := by
  unfold valuesIn
  rw [List.filter_append, List.map_append]

theorem valuesIn_cons_of_key (f : Field) (fields : List Field) :
    valuesIn f.key (f :: fields) = f.value :: valuesIn f.key fields := by
  unfold valuesIn
  rw [List.filter_cons_of_pos (by simp), List.map_cons]

theorem valuesIn_cons_of_ne {key : String} {f : Field} (h : f.key ≠ key) (fields : List Field) :
    valuesIn key (f :: fields) = valuesIn key fields := by
  unfold valuesIn
  rw [List.filter_cons_of_neg (by simpa using h)]

theorem valuesIn_perm {fields fields' : List Field} (h : fields.Perm fields') (key : String) :
    (valuesIn key fields).Perm (valuesIn key fields') :=
  (h.filter _).map _

theorem valuesIn_eq_nil {fields : List Field} {key : String} (h : ∀ f ∈ fields, f.key ≠ key) :
    valuesIn key fields = [] := by
  unfold valuesIn
  rw [List.filter_eq_nil_iff.mpr fun f hf => by simpa using h f hf, List.map_nil]

theorem key_of_timeField? {times : BusyTimes} {e : Engine} {f : Field}
    (h : timeField? times e = some f) : f.key = e.recordKey := by
  obtain ⟨ns, -, rfl⟩ := Option.map_eq_some_iff.mp h
  rfl

/-- The fields of the times have no other keys than those of the classes. -/
theorem valuesIn_timeFields_of_ne {key : String} (h : ∀ e : Engine, e.recordKey ≠ key)
    (times : BusyTimes) : valuesIn key (Engine.all.filterMap (timeField? times)) = [] := by
  refine valuesIn_eq_nil fun f hf => ?_
  obtain ⟨e, -, he⟩ := List.mem_filterMap.mp hf
  rw [key_of_timeField? he]
  exact h e

theorem valuesIn_timeFields (times : BusyTimes) (e : Engine) :
    valuesIn e.recordKey (Engine.all.filterMap (timeField? times)) =
      ((times.get e).map busyTimeText).toList := by
  have hkey (d : Engine) : (timeField? times d).filter (·.key = e.recordKey) =
      if d = e then timeField? times e else none := by
    by_cases hd : d = e
    · rw [if_pos hd, hd]
      cases hf : timeField? times e with
      | none => rfl
      | some f => rw [Option.filter_some, if_pos (decide_eq_true (key_of_timeField? hf))]
    · rw [if_neg hd, Option.filter_eq_none_iff]
      intro f hf hsame
      refine hd (Engine.recordKey_injective ?_)
      rw [← key_of_timeField? hf, of_decide_eq_true hsame]
  have hone (field : Option Field) :
      Engine.all.filterMap (fun d => if d = e then field else none) = field.toList := by
    cases field <;> cases e <;> rfl
  unfold valuesIn
  rw [List.filter_filterMap]
  simp only [hkey, hone]
  unfold timeField?
  cases times.get e <;> rfl

/-- Under each key of the driver stands what belongs there, once. -/
theorem valuesIn_driverFields (pdev : String) (id : UInt32) (times : BusyTimes) :
    valuesIn pdevKey (driverFields pdev id times) = [pdev] ∧
      valuesIn clientIdKey (driverFields pdev id times) = [toString id.toNat] ∧
      ∀ e : Engine, valuesIn e.recordKey (driverFields pdev id times) =
        ((times.get e).map busyTimeText).toList := by
  have hid : (⟨clientIdKey, toString id.toNat⟩ : Field).key ≠ pdevKey := clientIdKey_ne_pdevKey
  have hpdev : (⟨pdevKey, pdev⟩ : Field).key ≠ clientIdKey := clientIdKey_ne_pdevKey.symm
  unfold driverFields
  refine ⟨?_, ?_, fun e => ?_⟩
  · rw [valuesIn_cons_of_key ⟨pdevKey, pdev⟩, valuesIn_cons_of_ne hid,
      valuesIn_timeFields_of_ne recordKey_ne_pdevKey]
  · rw [valuesIn_cons_of_ne hpdev, valuesIn_cons_of_key ⟨clientIdKey, toString id.toNat⟩,
      valuesIn_timeFields_of_ne recordKey_ne_clientIdKey]
  · rw [valuesIn_cons_of_ne (recordKey_ne_pdevKey e).symm,
      valuesIn_cons_of_ne (recordKey_ne_clientIdKey e).symm, valuesIn_timeFields]

/-! ## What the driver writes can be read -/

theorem toList_busyTimeText (ns : UInt64) :
    (busyTimeText ns).toList = (toString ns.toNat).toList ++ ' ' :: ['n', 's'] := by
  simp [busyTimeText]

/-- A busy time is read back from its text. -/
theorem busyTime?_busyTimeText (ns : UInt64) : busyTime? (busyTimeText ns) = some ns :=
  busyTime?_eq_some_iff.mpr
    ⟨toString ns.toNat, rfl, Text.isDecimal_toString _, Text.decimalValue_toString _⟩

theorem recordKey_mem_driverKeys (e : Engine) : e.recordKey ∈ driverKeys :=
  List.mem_cons_of_mem _ (List.mem_cons_of_mem _ (List.mem_map_of_mem e.mem_all))

theorem plain_of_mem_driverKeys : ∀ key ∈ driverKeys,
    key ≠ "" ∧ Text.IsBare key.toList ∧ ':' ∉ key.toList ∧ '\n' ∉ key.toList := by
  decide +kernel

theorem mem_driverFields {pdev : String} {id : UInt32} {times : BusyTimes} {f : Field}
    (hf : f ∈ driverFields pdev id times) :
    f.key ∈ driverKeys ∧
      (f.value = pdev ∨ f.value = toString id.toNat ∨ ∃ ns, f.value = busyTimeText ns) := by
  unfold driverFields at hf
  rcases List.mem_cons.mp hf with rfl | hf
  · exact ⟨List.mem_cons_self, .inl rfl⟩
  · rcases List.mem_cons.mp hf with rfl | hf
    · exact ⟨List.mem_cons_of_mem _ List.mem_cons_self, .inr (.inl rfl)⟩
    · obtain ⟨e, -, hfield⟩ := List.mem_filterMap.mp hf
      obtain ⟨ns, -, rfl⟩ := Option.map_eq_some_iff.mp hfield
      exact ⟨recordKey_mem_driverKeys e, .inr (.inr ⟨ns, rfl⟩)⟩

theorem isPlain_of_mem_driverFields {pdev : String} (hbare : Text.IsBare pdev.toList)
    (hline : '\n' ∉ pdev.toList) {id : UInt32} {times : BusyTimes} {f : Field}
    (hf : f ∈ driverFields pdev id times) : f.IsPlain := by
  obtain ⟨hkey, hvalue⟩ := mem_driverFields hf
  obtain ⟨hnamed, hkeyBare, huncut, hkeyLine⟩ := plain_of_mem_driverKeys f.key hkey
  have hvalueFits : Text.IsBare f.value.toList ∧ '\n' ∉ f.value.toList := by
    rcases hvalue with h | h | ⟨ns, h⟩
    · rw [h]
      exact ⟨hbare, hline⟩
    · rw [h]
      exact ⟨Text.isBare_toString _, Text.notMem_toString (by decide) _⟩
    · have hne : (toString ns.toNat).toList ≠ [] := fun hnil =>
        (Text.isDecimal_toString ns.toNat).1 (String.toList_eq_nil_iff.mp hnil)
      rw [h, toList_busyTimeText]
      constructor
      · rw [List.append_cons]
        exact (Text.isBare_toString _).append (by decide) hne (by decide) [' ']
      · rw [List.mem_append, not_or]
        exact ⟨Text.notMem_toString (by decide) _, by decide⟩
  exact ⟨hnamed, hkeyBare, hvalueFits.1, huncut, hkeyLine, hvalueFits.2⟩

/-! ## Records -/

/-- Some lines are those that the driver writes of a client at an address, among lines of others and
in any order. -/
def IsWritten (pdev : String) (id : UInt32) (times : BusyTimes) (ls : List Line) : Prop :=
  ∃ foreign : List String, (∀ line ∈ foreign, IsForeign line) ∧
    (ls.map (·.text)).Perm ((driverFields pdev id times).map Field.written ++ foreign)

section Written

variable {pdev : String} {id : UInt32} {times : BusyTimes} {ls : List Line}

theorem fieldsOf_map_written {fields : List Field} (h : ∀ f ∈ fields, f.IsPlain) :
    fieldsOf (fields.map Field.written) = fields := by
  have hread : ∀ f ∈ fields, (Field.ofLine? ∘ Field.written) f = some f := fun f hf =>
    (h f hf).ofLine?_written
  unfold fieldsOf
  rw [List.filterMap_map, List.filterMap_congr hread, List.filterMap_some]

theorem IsWritten.not_mem_text (h : IsWritten pdev id times ls) (hbare : Text.IsBare pdev.toList)
    (hline : '\n' ∉ pdev.toList) : ∀ l ∈ ls, '\n' ∉ l.text.toList := by
  obtain ⟨foreign, hforeign, hperm⟩ := h
  intro l hl
  rcases List.mem_append.mp (hperm.mem_iff.mp (List.mem_map_of_mem hl)) with htext | htext
  · obtain ⟨f, hf, hwritten⟩ := List.mem_map.mp htext
    rw [← hwritten]
    exact (isPlain_of_mem_driverFields hbare hline hf).not_mem_written
  · exact (hforeign _ htext).1

/-- In a record that was written, the values under the keys of the driver are those that the driver
wrote. -/
theorem IsWritten.values_perm (h : IsWritten pdev id times ls) (hbare : Text.IsBare pdev.toList)
    (hline : '\n' ∉ pdev.toList) (key : String) (hkey : key ∈ driverKeys) :
    (values key (Line.write ls)).Perm (valuesIn key (driverFields pdev id times)) := by
  have hlines := h.not_mem_text hbare hline
  obtain ⟨foreign, hforeign, hperm⟩ := h
  have hfields : (fieldsOf (ls.map (·.text))).Perm
      (driverFields pdev id times ++ fieldsOf foreign) := by
    have hall := hperm.filterMap Field.ofLine?
    rw [List.filterMap_append] at hall
    rw [← fieldsOf_map_written fun f hf => isPlain_of_mem_driverFields hbare hline hf]
    exact hall
  have hothers : valuesIn key (fieldsOf foreign) = [] := by
    refine valuesIn_eq_nil fun f hf hsame => ?_
    obtain ⟨line, hmem, hfield⟩ := List.mem_filterMap.mp hf
    exact (hforeign line hmem).not_mem_key hfield (hsame ▸ hkey)
  have hvalues := valuesIn_perm hfields key
  rw [valuesIn_append, hothers, List.append_nil] at hvalues
  unfold values
  rw [Line.fieldsOf_linesOf_write hlines]
  exact hvalues

/-- A record that was written tells the address, the client and the times. -/
theorem IsWritten.tells (h : IsWritten pdev id times ls) (hbare : Text.IsBare pdev.toList)
    (hline : '\n' ∉ pdev.toList) :
    values pdevKey (Line.write ls) = [pdev] ∧
      values clientIdKey (Line.write ls) = [toString id.toNat] ∧
      ∀ e, lastTime? (Line.write ls) e = times.get e := by
  obtain ⟨hpdev, hid, htimes⟩ := valuesIn_driverFields pdev id times
  refine ⟨?_, ?_, fun e => ?_⟩
  · have hperm := h.values_perm hbare hline pdevKey List.mem_cons_self
    rw [hpdev] at hperm
    exact List.perm_singleton.mp hperm
  · have hperm := h.values_perm hbare hline clientIdKey
      (List.mem_cons_of_mem _ List.mem_cons_self)
    rw [hid] at hperm
    exact List.perm_singleton.mp hperm
  · have hperm := h.values_perm hbare hline e.recordKey (recordKey_mem_driverKeys e)
    unfold lastTime?
    rw [htimes] at hperm
    cases ht : times.get e with
    | none =>
        rw [ht] at hperm
        rw [List.perm_nil.mp hperm]
        rfl
    | some ns =>
        rw [ht] at hperm
        rw [List.perm_singleton.mp hperm, lastReadable_singleton, busyTime?_busyTimeText]

end Written

end Record

/-! ## Reading back -/

namespace IntelGpu

/-- A record that was written for a GPU is accepted by it, if no blank stands around the address and
no newline in it. What is read is what was written: the client and its times are in the running
cycle, the times are in the usage, and the peeks see the client and the address. -/
theorem read_written {gpu : IntelGpu} {usage : Usage} {id : UInt32} {times : BusyTimes}
    {ls : List Line} (hbare : Text.IsBare gpu.pdev.toList) (hline : '\n' ∉ gpu.pdev.toList)
    (hwritten : Record.IsWritten gpu.pdev id times ls)
    (hnew : (⟨id, usage.pid⟩ : Client) ∉ gpu.cache.current) (now : Instant) :
    let record := Line.write ls
    let answer :=
      (read now (Text.Source.finished record.toByteArray.data.toList) usage gpu).value
    let client : Client := ⟨id, usage.pid⟩
    -- the verdict and the sample
    answer.accepted = true ∧
    answer.state.cache.current[client]? = some ⟨client, times, now⟩ ∧
    -- the peeks
    Record.clientId? record = some id ∧
    Record.pdev? record = some gpu.pdev ∧
    -- the usage
    answer.usage.renderTime = times.render.or usage.renderTime ∧
    answer.usage.decodeTime = times.video.or usage.decodeTime ∧
    answer.usage.encodeTime = times.videoEnhance.or usage.encodeTime := by
  intro record answer client
  obtain ⟨hpdev, hid, htold⟩ := hwritten.tells hbare hline
  have hbelongs : Record.Belongs gpu.pdev record := by
    unfold Record.Belongs
    rw [hpdev]
    exact fun value hvalue => List.mem_singleton.mp hvalue
  have hclient : Record.lastClientId? record = some id := by
    unfold Record.lastClientId?
    rw [hid, Record.lastReadable_singleton, Text.uint32?_toString]
  have htimes : Record.times record = times :=
    BusyTimes.ext_get fun e => (Record.get_times record e).trans (htold e)
  have hanswer : answer.toOutcome =
      ⟨true, gpu.cache.report ⟨client, times, now⟩ (usage.withTimes times),
        gpu.keep ⟨client, times, now⟩⟩ := by
    unfold answer
    rw [toOutcome_read_toByteArray, readRecord_of_belongs hbelongs hclient, htimes, value_accept]
  obtain ⟨hrender, hdecode, hencode⟩ :=
    gpu.cache.times_report ⟨client, times, now⟩ (usage.withTimes times)
  have hkept : (gpu.cache.keep ⟨client, times, now⟩).current[client]? =
      some ⟨client, times, now⟩ := by
    rw [SampleCache.mem_current_iff, Option.not_isSome_iff_eq_none] at hnew
    rw [SampleCache.getElem?_current_keep, hnew, if_pos rfl, Option.none_or]
  rw [hanswer]
  refine ⟨rfl, hkept, ?_, ?_, hrender, hdecode, hencode⟩
  · rw [Record.clientId?_eq_lastClientId? hid, hclient]
  · unfold Record.pdev?
    rw [Record.firstValue?_eq_head?, hpdev, List.head?_singleton]

/-- Lines of the driver in an order of their own, closed in both ways, among lines of others. -/
def shuffledLines : List Line :=
  [⟨"no field", .returnAndNewline⟩,
   ⟨"drm-engine-render:\t18446744073709551615 ns", .newline⟩,
   ⟨"drm-driver:\ti915 drm-client-id: 1", .newline⟩,
   ⟨"drm-client-id:\t4294967295", .returnAndNewline⟩,
   ⟨": drm-pdev:", .newline⟩,
   ⟨"drm-pdev:\t0000:00:02.0", .newline⟩,
   ⟨"drm-engine-copy:\t0 ns", .returnAndNewline⟩]

theorem read_written_shuffledLines :
    let answer := (read ⟨1000⟩
      (Text.Source.finished (Line.write shuffledLines).toByteArray.data.toList)
      { pid := 7, decodeTime := some 3 } (.at "0000:00:02.0")).value
    answer.accepted = true ∧
      answer.state.cache.current[(⟨4294967295, 7⟩ : Client)]? =
        some ⟨⟨4294967295, 7⟩,
          { render := some 18446744073709551615, copy := some 0 }, ⟨1000⟩⟩ ∧
      Record.clientId? (Line.write shuffledLines) = some 4294967295 ∧
      Record.pdev? (Line.write shuffledLines) = some "0000:00:02.0" ∧
      answer.usage.renderTime = some 18446744073709551615 ∧
      answer.usage.decodeTime = some 3 ∧ answer.usage.encodeTime = none := by
  have hwritten : Record.IsWritten "0000:00:02.0" 4294967295
      { render := some 18446744073709551615, copy := some 0 } shuffledLines :=
    ⟨["no field", "drm-driver:\ti915 drm-client-id: 1", ": drm-pdev:"],
      by decide +kernel, by decide +kernel⟩
  exact read_written (by decide) (by decide) hwritten (by decide) ⟨1000⟩

end IntelGpu

end DrmUsage

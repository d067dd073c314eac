-- SUMMARY: A text is read from its bytes line by line as it is read from memory.
import DrmUsage.Text.Raw
import DrmUsage.Text.Reading

/-!
# Lines of encoded text

Records are dispatched as texts but read from sources of bytes. Both ways agree
(`Source.reading_ofText`): UTF-8 writes no character but the newline with the
byte of the newline, so cutting before decoding and decoding before cutting give
the same lines.
-/

namespace DrmUsage.Text

/-- Elements without a terminator join the first line of what follows them. -/
theorem closedLines_append_of_not_mem {α : Type} [DecidableEq α] {eol : α} {xs : List α}
    (h : eol ∉ xs) (hne : xs ≠ []) (ys : List α) :
    closedLines eol (xs ++ ys) =
      match (closedLines eol ys).1 with
      | [] => ([], xs ++ (closedLines eol ys).2)
      | line :: later => ((xs ++ line) :: later, (closedLines eol ys).2) := by
  induction xs with
  | nil => exact absurd rfl hne
  | cons x xs ih =>
    have hx : x ≠ eol := fun e => h (by simp [e])
    by_cases hxs : xs = []
    · subst hxs
      cases hl : (closedLines eol ys).1 <;> simp [closedLines, hx, hl]
    · have ih := ih (fun m => h (by simp [m])) hxs
      simp only [List.cons_append, closedLines, hx, if_false, ih]
      cases (closedLines eol ys).1 <;> simp

/-- The byte that closes a line is a part of no other character. -/
theorem newline_not_mem_utf8EncodeChar {c : Char} (h : c ≠ '\n') :
    newline ∉ String.utf8EncodeChar c := by
  have hv : c.val.toNat ≠ 10 := fun e => h (Char.ext (UInt32.toNat_inj.mp e))
  have hb : ∀ n : Nat, n % 256 ≠ 10 → newline ≠ UInt8.ofNat n := by
    intro n hn e
    have := congrArg UInt8.toNat e
    simp [newline] at this
    omega
  unfold String.utf8EncodeChar
  simp only []
  split
  · simp only [List.mem_singleton]; exact hb _ (by omega)
  · split
    · simp only [List.mem_cons, List.not_mem_nil, or_false, not_or]
      exact ⟨hb _ (by omega), hb _ (by omega)⟩
    · split
      · simp only [List.mem_cons, List.not_mem_nil, or_false, not_or]
        exact ⟨hb _ (by omega), hb _ (by omega), hb _ (by omega)⟩
      · simp only [List.mem_cons, List.not_mem_nil, or_false, not_or]
        exact ⟨hb _ (by omega), hb _ (by omega), hb _ (by omega), hb _ (by omega)⟩

theorem closedLines_bytesOf (cs : List Char) :
    closedLines newline (bytesOf cs) =
      ((closedLines '\n' cs).1.map bytesOf, bytesOf (closedLines '\n' cs).2) := by
  induction cs with
  | nil => rfl
  | cons c cs ih =>
    by_cases hc : c = '\n'
    · subst hc
      have : bytesOf ('\n' :: cs) = newline :: bytesOf cs := rfl
      simp only [this, closedLines, ih, if_true, List.map_cons]
      rfl
    · have hb : bytesOf (c :: cs) = String.utf8EncodeChar c ++ bytesOf cs := by simp [bytesOf]
      rw [hb, closedLines_append_of_not_mem (newline_not_mem_utf8EncodeChar hc)
        String.utf8EncodeChar_ne_nil, ih]
      simp only [closedLines, hc, if_false]
      cases (closedLines '\n' cs).1 <;> simp [bytesOf]

theorem bytesOf_eq_nil_iff {cs : List Char} : bytesOf cs = [] ↔ cs = [] := by
  constructor
  · intro h
    cases cs with
    | nil => rfl
    | cons c cs =>
      simp only [bytesOf, List.flatMap_cons, List.append_eq_nil_iff] at h
      exact absurd h.1 String.utf8EncodeChar_ne_nil
  · rintro rfl; rfl

/-- The lines of the bytes are the bytes of the lines. -/
theorem lines_bytesOf (cs : List Char) :
    lines newline (bytesOf cs) = (lines '\n' cs).map bytesOf := by
  simp only [lines, closedLines_bytesOf]
  by_cases h : (closedLines '\n' cs).2 = []
  · simp [h, bytesOf]
  · have : bytesOf (closedLines '\n' cs).2 ≠ [] := fun e => h (bytesOf_eq_nil_iff.mp e)
    simp [h, this]

theorem toList_toByteArray (s : String) : s.toByteArray.data.toList = bytesOf s.toList := by
  conv => lhs; rw [← String.ofList_toList (s := s)]
  rw [String.toByteArray_ofList]
  generalize s.toList = cs
  simp [List.utf8Encode, bytesOf]

/-- Bytes of characters are text. -/
theorem fromUTF8?_bytesOf (cs : List Char) :
    String.fromUTF8? ⟨(bytesOf cs).toArray⟩ = some (String.ofList cs) := by
  have h : (⟨(bytesOf cs).toArray⟩ : ByteArray) = (String.ofList cs).toByteArray := by
    have := toList_toByteArray (String.ofList cs)
    rw [String.toList_ofList] at this
    rw [← this]
  rw [h, String.fromUTF8?, dif_pos (String.ofList cs).isValidUTF8]
  rfl

/-- Bytes are text exactly if they are those of its characters. -/
theorem fromUTF8?_eq_some_iff {bytes : List UInt8} {text : String} :
    String.fromUTF8? ⟨bytes.toArray⟩ = some text ↔ bytes = bytesOf text.toList := by
  constructor
  · intro h
    unfold String.fromUTF8? at h
    split at h
    · rw [← toList_toByteArray, ← Option.some.inj h]
      rfl
    · exact absurd h.symm (Option.some_ne_none text)
  · rintro rfl
    rw [fromUTF8?_bytesOf, String.ofList_toList]

/-- Only a newline is written with the byte of the newline at its end. -/
theorem bytesOf_eq_concat_newline_iff {cs : List Char} {line : List UInt8} :
    bytesOf cs = line ++ [newline] ↔ ∃ ds, cs = ds ++ ['\n'] ∧ bytesOf ds = line := by
  constructor
  · intro h
    rcases List.eq_nil_or_concat cs with rfl | ⟨ds, c, rfl⟩
    · exact absurd (congrArg List.length h) (by simp [bytesOf])
    · have hsplit : bytesOf ds ++ String.utf8EncodeChar c = line ++ [newline] := by
        rw [← h]
        simp [bytesOf]
      have hc : c = '\n' := by
        refine Classical.byContradiction fun hne => newline_not_mem_utf8EncodeChar hne ?_
        have hlast := congrArg List.getLast? hsplit
        rw [List.getLast?_concat, List.getLast?_append,
          List.getLast?_eq_some_getLast String.utf8EncodeChar_ne_nil, Option.some_or] at hlast
        exact Option.some.inj hlast ▸ List.getLast_mem _
      subst hc
      exact ⟨ds, by simp, List.append_cancel_right hsplit⟩
  · rintro ⟨ds, rfl, rfl⟩
    simp [bytesOf]
    rfl

/-- The newline that closes a line has no part in whether it is text. -/
theorem fromUTF8?_concat_newline (line : List UInt8) :
    String.fromUTF8? ⟨(line ++ [newline]).toArray⟩ =
      (String.fromUTF8? ⟨line.toArray⟩).map (· ++ "\n") := by
  ext text
  rw [fromUTF8?_eq_some_iff, eq_comm, bytesOf_eq_concat_newline_iff, Option.map_eq_some_iff]
  constructor
  · rintro ⟨ds, hds, rfl⟩
    refine ⟨String.ofList ds, fromUTF8?_bytesOf ds, ?_⟩
    rw [← String.toList_inj, hds, String.toList_append, String.toList_ofList]
    rfl
  · rintro ⟨front, hfront, rfl⟩
    exact ⟨front.toList, String.toList_append, (fromUTF8?_eq_some_iff.mp hfront).symm⟩

theorem Stream.decode_map_bytesOf (failure : Option ReadFailure) (ls : List (List Char)) :
    Stream.decode failure (ls.map bytesOf) = ⟨ls.map String.ofList, failure⟩ := by
  induction ls with
  | nil => rfl
  | cons l ls ih => simp [Stream.decode, fromUTF8?_bytesOf, ih]

theorem Source.finished_toByteArray (s : String) :
    finished s.toByteArray.data.toList = .ofText s := by
  rw [ofText, toList_toByteArray]

/-- A text is read from its bytes as it is read from memory. -/
theorem Source.reading_ofText (s : String) : (ofText s).reading = .ofText s := by
  simp only [reading, ofText, stream_finished, Stream.read, Stream.finished, lines_bytesOf,
    Stream.decode_map_bytesOf]
  rfl

end DrmUsage.Text

-- SUMMARY: The classes of engines of a GPU and the cumulative busy time of each.

/-!
# Engines

A GPU has engines of four classes. A record of the kernel gives the cumulative
busy time of each class under a key of its own, and may leave any of them out,
so the time of a class is optional.
-/

namespace DrmUsage

/-- The classes of engines. -/
inductive Engine where
  /-- Rendering and compute. -/
  | render
  /-- Copying of memory. -/
  | copy
  /-- Decoding of video. -/
  | video
  /-- Enhancement and encoding of video. -/
  | videoEnhance
deriving DecidableEq, Repr, Inhabited

namespace Engine

/-- All classes, in the order of their numbers. -/
def all : List Engine := [.render, .copy, .video, .videoEnhance]

/-- The number of a class in the kernel's interface. -/
def number : Engine → Nat
  | .render => 0
  | .copy => 1
  | .video => 2
  | .videoEnhance => 3

/-- The name of a class. -/
def name : Engine → String
  | .render => "Render"
  | .copy => "Copy"
  | .video => "Video"
  | .videoEnhance => "VideoEnhance"

/-- The key of a record under which the busy time of a class stands. -/
def recordKey : Engine → String
  | .render => "drm-engine-render"
  | .copy => "drm-engine-copy"
  | .video => "drm-engine-video"
  | .videoEnhance => "drm-engine-video-enhance"

/-- The class with a given name. -/
def ofName? (name : String) : Option Engine := all.find? (·.name = name)

/-- The class whose busy time stands under a key. -/
def ofRecordKey? (key : String) : Option Engine := all.find? (·.recordKey = key)

theorem mem_all (e : Engine) : e ∈ all := by cases e <;> simp [all]

@[simp] theorem ofRecordKey?_recordKey (e : Engine) : ofRecordKey? e.recordKey = some e := by
  cases e <;> rfl

/-- Classes have different keys. -/
theorem recordKey_injective {d e : Engine} (h : d.recordKey = e.recordKey) : d = e := by
  have := ofRecordKey?_recordKey d
  rw [h, ofRecordKey?_recordKey] at this
  exact (Option.some.inj this).symm

/-- A key names a class exactly when it is the key of that class. -/
theorem ofRecordKey?_eq_some_iff {key : String} {e : Engine} :
    ofRecordKey? key = some e ↔ key = e.recordKey := by
  constructor
  · intro h
    have := List.find?_some h
    exact (of_decide_eq_true this).symm
  · rintro rfl
    exact ofRecordKey?_recordKey e

end Engine

/-- The cumulative busy time of each class in nanoseconds, where it is known. -/
structure BusyTimes where
  render : Option UInt64 := none
  copy : Option UInt64 := none
  video : Option UInt64 := none
  videoEnhance : Option UInt64 := none
deriving DecidableEq, Repr, Inhabited

namespace BusyTimes

/-- No time is known. -/
def empty : BusyTimes := {}

/-- The time of a class. -/
def get (t : BusyTimes) : Engine → Option UInt64
  | .render => t.render
  | .copy => t.copy
  | .video => t.video
  | .videoEnhance => t.videoEnhance

/-- The times with that of one class replaced. -/
def set (t : BusyTimes) (e : Engine) (ns : UInt64) : BusyTimes :=
  match e with
  | .render => { t with render := some ns }
  | .copy => { t with copy := some ns }
  | .video => { t with video := some ns }
  | .videoEnhance => { t with videoEnhance := some ns }

/-- Whether no time is known. -/
def isEmpty (t : BusyTimes) : Bool := Engine.all.all fun e => (t.get e).isNone

@[simp] theorem get_empty (e : Engine) : empty.get e = none := by cases e <;> rfl

@[simp] theorem get_set (t : BusyTimes) (d e : Engine) (ns : UInt64) :
    (t.set d ns).get e = if e = d then some ns else t.get e := by
  cases d <;> cases e <;> rfl

/-- Times are equal if they agree on every class. -/
theorem ext_get {t u : BusyTimes} (h : ∀ e, t.get e = u.get e) : t = u := by
  cases t; cases u
  have h₁ := h .render
  have h₂ := h .copy
  have h₃ := h .video
  have h₄ := h .videoEnhance
  simp_all [get]

/-- Only times without any known class are empty. -/
theorem isEmpty_iff {t : BusyTimes} : t.isEmpty = true ↔ t = empty := by
  constructor
  · intro h
    refine ext_get fun e => ?_
    simp only [isEmpty, List.all_eq_true, Option.isNone_iff_eq_none] at h
    rw [h e (Engine.mem_all e), get_empty]
  · rintro rfl
    rfl

end BusyTimes

end DrmUsage

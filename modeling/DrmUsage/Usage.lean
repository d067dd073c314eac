-- SUMMARY: The clients of a GPU, what one process uses of it, and the load of the whole device.

/-!
# Usage

The kernel numbers the open contexts of each process; the number and the
process together are a client. What is reported of a client is a record whose
fields are each known or unknown. The load of a device is the sum of the
rendering percentages of its clients, cut off at a hundred.
-/

namespace DrmUsage

/-! ## Clients -/

/-- What identifies a client from one polling cycle to the next: the number that
the driver gave out and the process that owns it. -/
structure Client where
  id : UInt32
  pid : Int32
deriving DecidableEq, Repr, Inhabited

namespace Client

/-- Clients are ordered by process, then by number. -/
instance : Ord Client := ⟨compareLex (compareOn pid) (compareOn id)⟩

instance : Std.TransOrd Client :=
  inferInstanceAs (Std.TransCmp (compareLex (compareOn pid) (compareOn id)))

instance : Std.LawfulEqOrd Client where
  eq_of_compare {a b} h := by
    obtain ⟨hp, hi⟩ := compareLex_eq_eq.mp h
    have hp : a.pid = b.pid := Std.LawfulEqOrd.eq_of_compare hp
    have hi : a.id = b.id := Std.LawfulEqOrd.eq_of_compare hi
    cases a; cases b
    simp_all

end Client

/-! ## What one process uses -/

/-- What one process uses of one device. Times are cumulative nanoseconds of
the rendering, decoding and encoding engines; shares are percentages since the
cycle before. -/
structure Usage where
  pid : Int32
  renderTime : Option UInt64 := none
  decodeTime : Option UInt64 := none
  encodeTime : Option UInt64 := none
  renderShare : Option UInt32 := none
  decodeShare : Option UInt32 := none
  encodeShare : Option UInt32 := none
deriving DecidableEq, Repr, Inhabited

/-- The usage of a process of which nothing is known yet. -/
def Usage.ofPid (pid : Int32) : Usage := { pid }

/-! ## The whole device -/

/-- The sum of two words of 32 bits, or the largest word if that is smaller. -/
def saturatingAdd (a b : UInt32) : UInt32 :=
  if a + b < a then UInt32.ofNat (UInt32.size - 1) else a + b

theorem toNat_saturatingAdd (a b : UInt32) :
    (saturatingAdd a b).toNat = min (a.toNat + b.toNat) (UInt32.size - 1) := by
  have ha := a.toNat_lt
  have hb := b.toNat_lt
  have hs : UInt32.size = 2 ^ 32 := rfl
  simp only [saturatingAdd, UInt32.lt_iff_toNat_lt, UInt32.toNat_add]
  split
  · rw [UInt32.toNat_ofNat_of_lt' (by omega)]
    omega
  · rw [UInt32.toNat_add]
    omega

/-- The load of a device: the sum of the known rendering shares, at most a
hundred; unknown if none of them is known. -/
def load (usages : List Usage) : Option UInt32 :=
  ((usages.filterMap (·.renderShare)).foldl
      (fun sum share => some (saturatingAdd (sum.getD 0) share)) none).map
    fun sum => if 100 < sum then 100 else sum

end DrmUsage

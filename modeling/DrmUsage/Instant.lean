-- SUMMARY: Instants, the time between two of them, and clocks that are looked at again and again.

/-!
# Instants

Counters are compared over the time between two readings. An instant counts
nanoseconds from an arbitrary origin and has no upper limit; elapsed time is a
word of 64 bits, never negative and cut off at the largest word. A clock is what
it shows, look by look.
-/

namespace DrmUsage

/-- A point in time, in nanoseconds from the origin of its clock. -/
structure Instant where
  ns : Nat
deriving DecidableEq, Repr, Inhabited

/-- The nanoseconds from `earlier` to `now`: zero if the clock stood still or
went back, and at most the largest word. -/
def Instant.elapsedSince (now earlier : Instant) : UInt64 :=
  UInt64.ofNat (min (now.ns - earlier.ns) (UInt64.size - 1))

@[simp] theorem Instant.toNat_elapsedSince (now earlier : Instant) :
    (now.elapsedSince earlier).toNat = min (now.ns - earlier.ns) (UInt64.size - 1) := by
  rw [Instant.elapsedSince, UInt64.toNat_ofNat_of_lt']
  have : UInt64.size = 2 ^ 64 := rfl
  omega

/-- What is shown at each look, in order. Nothing is said of how long it is from one to the next. -/
structure Clock where
  look : Nat → Instant

namespace Clock

/-- What is shown at the next look. -/
def now (clock : Clock) : Instant := clock.look 0

/-- The clock after some looks. -/
def later (clock : Clock) (looks : Nat) : Clock := ⟨fun k => clock.look (looks + k)⟩

/-- The same instant at every look. -/
def still (instant : Instant) : Clock := ⟨fun _ => instant⟩

instance : Coe Instant Clock := ⟨still⟩

@[simp] theorem now_still (instant : Instant) : (still instant).now = instant := rfl

@[simp] theorem later_still (instant : Instant) (looks : Nat) :
    (still instant).later looks = still instant := rfl

end Clock

end DrmUsage

-- SUMMARY: How busy an engine was between two readings of its counter, in rounded percent.

/-!
# Busy percentages

An engine's counter grows by the nanoseconds in which it was busy. The share of
the elapsed time is given in percent, rounded to the nearest integer, a half
upwards. A counter that went back, or that grew by more than the elapsed time,
says nothing about the share. The products of two words of 64 bits need a word
of 128 bits.
-/

namespace DrmUsage

/-- `busy` as a share of `elapsed` in percent, rounded half up, in words of 128
bits. -/
def roundedPercent (busy elapsed : BitVec 128) : BitVec 128 :=
  (busy * 100 + elapsed / 2) / elapsed

/-- The percentage of `elapsed` nanoseconds in which a counter that went from
`previous` to `current` was busy. -/
def busyPercent (current previous elapsed : UInt64) : Option UInt32 :=
  if elapsed = 0 ∨ current < previous then none
  else if elapsed < current - previous then none
  else
    let percent := roundedPercent ((current - previous).toBitVec.setWidth 128)
      (elapsed.toBitVec.setWidth 128)
    some (UInt32.ofBitVec ((if 100 < percent then 100 else percent).setWidth 32))

end DrmUsage

-- SUMMARY: Which percentage is told of two readings of a counter, in plain numbers, and how far it is from the exact share.
import Mathlib.Algebra.Group.Nat.Defs
import Mathlib.Algebra.Order.Group.Abs
import Mathlib.Algebra.Order.Group.Int
import DrmUsage.Percentage

/-!
# The error of a percentage

The words of 128 bits in which a percentage is found never overflow, since a
hundred times a word of 64 bits leaves much room. So the percentage is the
rounded quotient of plain numbers (`busyPercent_eq_some_iff`), and rounding it
moves the busy time by at most half a percent of the elapsed time
(`abs_percent_sub_le`).
-/

namespace DrmUsage

/-- A word of 64 bits is the same number in 128 bits. -/
theorem toNat_setWidth_toBitVec (w : UInt64) : (w.toBitVec.setWidth 128).toNat = w.toNat := by
  rw [BitVec.toNat_setWidth, UInt64.toNat_toBitVec]
  exact Nat.mod_eq_of_lt (w.toNat_lt.trans (by decide))

/-- Of words of 64 bits, the rounded percentage is that of plain numbers. -/
theorem toNat_roundedPercent {busy elapsed : BitVec 128} (hb : busy.toNat < 2 ^ 64)
    (he : elapsed.toNat < 2 ^ 64) :
    (roundedPercent busy elapsed).toNat =
      (busy.toNat * 100 + elapsed.toNat / 2) / elapsed.toNat := by
  have hhundred : (100 : BitVec 128).toNat = 100 := rfl
  have htwo : (2 : BitVec 128).toNat = 2 := rfl
  have hmul : busy.toNat * 100 < 2 ^ 128 := by omega
  have hadd : busy.toNat * 100 + elapsed.toNat / 2 < 2 ^ 128 := by omega
  unfold roundedPercent
  rw [BitVec.toNat_udiv, BitVec.toNat_add, BitVec.toNat_mul, BitVec.toNat_udiv, hhundred, htwo,
    Nat.mod_eq_of_lt hmul, Nat.mod_eq_of_lt hadd]

/-- A counter that was busy for no more than the elapsed time was so for no more than a hundred
percent of it. -/
theorem percent_le_hundred {busy elapsed : Nat} (h : busy ≤ elapsed) (hpos : 0 < elapsed) :
    (busy * 100 + elapsed / 2) / elapsed ≤ 100 := by
  apply Nat.le_of_lt_succ
  rw [Nat.div_lt_iff_lt_mul hpos]
  omega

/-- A percentage is told exactly if time went on, the counter did not go back, and it did not grow
by more than the elapsed time. It is then the growth as a share of the elapsed time, in percent and
rounded half up. -/
theorem busyPercent_eq_some_iff {current previous elapsed : UInt64} {percent : UInt32} :
    busyPercent current previous elapsed = some percent ↔
      0 < elapsed.toNat ∧ previous.toNat ≤ current.toNat ∧
        current.toNat - previous.toNat ≤ elapsed.toNat ∧
        percent.toNat =
          ((current.toNat - previous.toNat) * 100 + elapsed.toNat / 2) / elapsed.toNat := by
  unfold busyPercent
  by_cases hnone : elapsed = 0 ∨ current < previous
  · rw [if_pos hnone]
    refine iff_of_false (Option.some_ne_none percent).symm ?_
    rintro ⟨hpos, hle, -⟩
    rcases hnone with rfl | hlt
    · exact Nat.lt_irrefl 0 hpos
    · exact absurd (UInt64.lt_iff_toNat_lt.mp hlt) (Nat.not_lt.mpr hle)
  · obtain ⟨hzero, hlt⟩ := not_or.mp hnone
    have hpos : 0 < elapsed.toNat := by
      rw [Nat.pos_iff_ne_zero]
      exact fun e => hzero (UInt64.toNat_inj.mp e)
    have hle : previous ≤ current := UInt64.not_lt.mp hlt
    have hle' : previous.toNat ≤ current.toNat := UInt64.le_iff_toNat_le.mp hle
    have hbusy : (current - previous).toNat = current.toNat - previous.toNat :=
      UInt64.toNat_sub_of_le _ _ hle
    rw [if_neg hnone]
    by_cases hlong : elapsed < current - previous
    · rw [if_pos hlong]
      refine iff_of_false (Option.some_ne_none percent).symm ?_
      rintro ⟨-, -, hshort, -⟩
      rw [UInt64.lt_iff_toNat_lt, hbusy] at hlong
      exact absurd hlong (Nat.not_lt.mpr hshort)
    · have hshort : current.toNat - previous.toNat ≤ elapsed.toNat := by
        rw [← hbusy]
        exact UInt64.le_iff_toNat_le.mp (UInt64.not_lt.mp hlong)
      have hround : (roundedPercent ((current - previous).toBitVec.setWidth 128)
          (elapsed.toBitVec.setWidth 128)).toNat =
          ((current.toNat - previous.toNat) * 100 + elapsed.toNat / 2) / elapsed.toNat := by
        rw [toNat_roundedPercent (by rw [toNat_setWidth_toBitVec]; exact UInt64.toNat_lt _)
          (by rw [toNat_setWidth_toBitVec]; exact UInt64.toNat_lt _), toNat_setWidth_toBitVec,
          toNat_setWidth_toBitVec, hbusy]
      -- The limit of a hundred is never reached.
      have hhundred := percent_le_hundred hshort hpos
      rw [if_neg hlong]
      simp only [Option.some.injEq, hpos, hle', hshort, true_and]
      rw [if_neg (by rw [BitVec.lt_def, hround]; exact Nat.not_lt.mpr hhundred), ← UInt32.toNat_inj,
        UInt32.toNat_ofBitVec, BitVec.toNat_setWidth, hround, Nat.mod_eq_of_lt (by omega), eq_comm]

/-- The part of the elapsed time that a percentage stands for is the busy time to within half a
percent of the elapsed time. -/
theorem abs_percent_sub_le {current previous elapsed : UInt64} {percent : UInt32}
    (h : busyPercent current previous elapsed = some percent) :
    |2 * ((percent.toNat : ℤ) * elapsed.toNat) - 200 * ((current.toNat : ℤ) - previous.toNat)| ≤
      elapsed.toNat := by
  obtain ⟨hpos, hle, -, hpercent⟩ := busyPercent_eq_some_iff.mp h
  obtain ⟨busy, hbusy⟩ := Nat.exists_eq_add_of_le hle
  rw [hbusy, Nat.add_sub_cancel_left] at hpercent
  -- The quotient times the divisor is the rounded sum less a remainder below the divisor.
  have hdiv := Nat.div_add_mod (busy * 100 + elapsed.toNat / 2) elapsed.toNat
  have hmod := Nat.mod_lt (busy * 100 + elapsed.toNat / 2) hpos
  rw [← hpercent, Nat.mul_comm] at hdiv
  rw [hbusy, ← Int.natCast_mul]
  generalize percent.toNat * elapsed.toNat = covered at hdiv ⊢
  rw [abs_le]
  omega

end DrmUsage

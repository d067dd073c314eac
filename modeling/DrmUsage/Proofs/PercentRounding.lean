-- SUMMARY: A percentage is the exact share rounded to the nearest integer, a half upwards, and no word on the way to it overflows.
import Mathlib.Algebra.Order.Round
import Mathlib.Data.Rat.Floor
import Mathlib.Tactic.Linarith
import DrmUsage.Proofs.PercentError

/-!
# The rounding of a percentage

The quotient is taken of integers, with half of the elapsed time added before, and this half is
itself rounded down where the elapsed time is odd. No tie is lost by that, since an odd elapsed
time has none. So the percentage is the exact share rounded to the nearest integer, a half upwards
(`round_share`), and the words in which it is found are wide enough for every step
(`StaysWithin`, `busyPercent_rounds`).
-/

namespace DrmUsage

/-! ## Rounded quotients -/

/-- A rounded quotient is no further from the exact one than a half, and less than a half above
it is left out. -/
theorem percent_mul_bounds (busy : ℕ) {elapsed : ℕ} (hpos : 0 < elapsed) :
    let percent : ℤ := ((busy * 100 + elapsed / 2) / elapsed : ℕ)
    (2 * percent - 1) * elapsed ≤ 200 * busy ∧ 200 * (busy : ℤ) < (2 * percent + 1) * elapsed := by
  intro percent
  -- The quotient times the divisor is the rounded sum less a remainder below the divisor.
  have hdiv := Nat.div_add_mod (busy * 100 + elapsed / 2) elapsed
  have hmod := Nat.mod_lt (busy * 100 + elapsed / 2) hpos
  have hcovered : percent * elapsed =
      (elapsed * ((busy * 100 + elapsed / 2) / elapsed) : ℕ) := by
    rw [Nat.mul_comm, Nat.cast_mul]
  have hlower : (2 * percent - 1) * elapsed = 2 * (percent * elapsed) - elapsed := by
    rw [sub_mul, one_mul, mul_assoc]
  have hupper : (2 * percent + 1) * elapsed = 2 * (percent * elapsed) + elapsed := by
    rw [add_mul, one_mul, mul_assoc]
  rw [hlower, hupper, hcovered]
  generalize elapsed * ((busy * 100 + elapsed / 2) / elapsed) = covered at hdiv ⊢
  omega

/-- An integer between these bounds is the exact share, in percent and rounded half up. -/
theorem round_share {busy elapsed percent : ℤ} (hpos : 0 < elapsed)
    (hlower : (2 * percent - 1) * elapsed ≤ 200 * busy)
    (hupper : 200 * busy < (2 * percent + 1) * elapsed) :
    round (100 * busy / elapsed : ℚ) = percent := by
  have hpos' : (0 : ℚ) < elapsed := by exact_mod_cast hpos
  have hlower' : (2 * percent - 1 : ℚ) * elapsed ≤ 200 * busy := by exact_mod_cast hlower
  have hupper' : (200 * busy : ℚ) < (2 * percent + 1) * elapsed := by exact_mod_cast hupper
  rw [round_eq_iff, Set.mem_Ico, le_div_iff₀ hpos', div_lt_iff₀ hpos']
  constructor <;> linarith

/-- Of two counters, the one that grew more was busy for no smaller percentage. -/
theorem percent_mono {busy busy' : ℕ} (h : busy ≤ busy') (elapsed : ℕ) :
    (busy * 100 + elapsed / 2) / elapsed ≤ (busy' * 100 + elapsed / 2) / elapsed :=
  Nat.div_le_div_right (Nat.add_le_add_right (Nat.mul_le_mul_right 100 h) _)

/-! ## Words -/

/-- No word on the way to a percentage overflows, and the percentage is not above a hundred. -/
structure StaysWithin (busy elapsed : BitVec 128) : Prop where
  product : busy.umulOverflow 100 = false
  sum : (busy * 100).uaddOverflow (elapsed / 2) = false
  quotient : ¬ 100 < roundedPercent busy elapsed

/-- A counter of 64 bits that was busy for no more than the elapsed time leaves room enough. -/
theorem staysWithin {busy elapsed : BitVec 128} (he : elapsed.toNat < 2 ^ 64)
    (hpos : 0 < elapsed.toNat) (h : busy.toNat ≤ elapsed.toNat) : StaysWithin busy elapsed := by
  have hhundred : (100 : BitVec 128).toNat = 100 := rfl
  have htwo : (2 : BitVec 128).toNat = 2 := rfl
  have hproduct : busy.toNat * 100 < 2 ^ 128 := by omega
  constructor
  · rw [BitVec.umulOverflow, hhundred]
    exact decide_eq_false (Nat.not_le.mpr hproduct)
  · rw [BitVec.uaddOverflow, BitVec.toNat_mul, BitVec.toNat_udiv, hhundred, htwo,
      Nat.mod_eq_of_lt hproduct]
    exact decide_eq_false (by omega)
  · rw [BitVec.lt_def, toNat_roundedPercent (by omega) he, hhundred]
    exact Nat.not_lt.mpr (percent_le_hundred h hpos)

/-- By how much a counter grew; it may have gone back. -/
def growth (current previous : UInt64) : ℤ := current.toNat - previous.toNat

/-- A percentage is told exactly if time went on, the counter did not go back, and it did not grow
by more than the elapsed time. It is then the growth as a share of the elapsed time, in percent and
rounded to the nearest integer, a half upwards. No word on the way to it overflows, the limit of a
hundred cuts nothing off, and the percentage is the whole quotient. In the same time a counter that
grew more has no smaller percentage. -/
theorem busyPercent_rounds (current previous elapsed : UInt64) :
    ((busyPercent current previous elapsed).isSome ↔
      0 < elapsed.toNat ∧ previous.toNat ≤ current.toNat ∧
        growth current previous ≤ elapsed.toNat) ∧
    ∀ percent, busyPercent current previous elapsed = some percent →
      -- the nearest integer
      round (100 * growth current previous / elapsed.toNat : ℚ) = percent.toNat ∧
      (2 * (percent.toNat : ℤ) - 1) * elapsed.toNat ≤ 200 * growth current previous ∧
      200 * growth current previous < (2 * (percent.toNat : ℤ) + 1) * elapsed.toNat ∧
      percent.toNat ≤ 100 ∧
      -- the words
      (let busy := (current - previous).toBitVec.setWidth 128
       (busy.toNat : ℤ) = growth current previous ∧
        StaysWithin busy (elapsed.toBitVec.setWidth 128) ∧
        percent.toNat = (roundedPercent busy (elapsed.toBitVec.setWidth 128)).toNat) ∧
      -- counters that grew more in the same time
      ∀ current' previous' percent', busyPercent current' previous' elapsed = some percent' →
        growth current previous ≤ growth current' previous' → percent ≤ percent' := by
  constructor
  · rw [Option.isSome_iff_exists]
    constructor
    · rintro ⟨percent, h⟩
      obtain ⟨hpos, hle, hshort, -⟩ := busyPercent_eq_some_iff.mp h
      exact ⟨hpos, hle, by unfold growth; omega⟩
    · rintro ⟨hpos, hle, hshort⟩
      have hshort' : current.toNat - previous.toNat ≤ elapsed.toNat := by
        unfold growth at hshort
        omega
      have hhundred := percent_le_hundred hshort' hpos
      refine ⟨UInt32.ofNat (((current.toNat - previous.toNat) * 100 + elapsed.toNat / 2) /
        elapsed.toNat), busyPercent_eq_some_iff.mpr ⟨hpos, hle, hshort', ?_⟩⟩
      exact UInt32.toNat_ofNat_of_lt' (hhundred.trans_lt (by decide))
  · intro percent h
    obtain ⟨hpos, hle, hshort, hpercent⟩ := busyPercent_eq_some_iff.mp h
    have hgrowth : growth current previous = ((current.toNat - previous.toNat : ℕ) : ℤ) :=
      (Nat.cast_sub hle).symm
    obtain ⟨hlower, hupper⟩ := percent_mul_bounds (current.toNat - previous.toNat) hpos
    rw [← hpercent, ← hgrowth] at hlower hupper
    have hbusy : ((current - previous).toBitVec.setWidth 128).toNat =
        current.toNat - previous.toNat := by
      rw [toNat_setWidth_toBitVec, UInt64.toNat_sub_of_le _ _ (UInt64.le_iff_toNat_le.mpr hle)]
    have hspan := toNat_setWidth_toBitVec elapsed
    have hspan' : (elapsed.toBitVec.setWidth 128).toNat < 2 ^ 64 := hspan ▸ elapsed.toNat_lt
    refine ⟨?_, hlower, hupper, ?_, ⟨?_, ?_, ?_⟩, ?_⟩
    · exact_mod_cast round_share (by exact_mod_cast hpos) hlower hupper
    · rw [hpercent]
      exact percent_le_hundred hshort hpos
    · rw [hbusy, hgrowth]
    · exact staysWithin hspan' (hspan ▸ hpos) (by rw [hbusy, hspan]; exact hshort)
    · rw [toNat_roundedPercent (by omega) hspan', hbusy, hspan, hpercent]
    · intro current' previous' percent' h' hmore
      obtain ⟨-, -, -, hpercent'⟩ := busyPercent_eq_some_iff.mp h'
      unfold growth at hmore
      rw [UInt32.le_iff_toNat_le, hpercent, hpercent']
      exact percent_mono (by omega) elapsed.toNat

/-- A half goes upwards, and less than a half downwards. -/
example : busyPercent 25 0 1000 = some 3 ∧ busyPercent 24 0 1000 = some 2 := by decide +kernel

end DrmUsage

-- SUMMARY: The load of a device is the exact sum of the shares of its clients, cut off once at a hundred.
import Mathlib.Algebra.GroupWithZero.Nat
import Mathlib.Data.List.Forall2
import DrmUsage.Usage

/-!
# Loads as sums

The shares of the clients are added in words of 32 bits, which stay at the
largest word once they reach it, and the sum is cut off at a hundred afterwards.
The largest word is far above a hundred, so the sum may as well be taken without
any bound and cut off at its end (`load_eq`). The order of the clients then makes
no difference, and the loads of two parts of the clients tell the load of all
(`load_of_total`).
-/

namespace DrmUsage

/-! ## The sum without a bound -/

/-- The rendering shares that are known. -/
def knownShares (usages : List Usage) : List UInt32 := usages.filterMap (·.renderShare)

/-- The sum of some shares, however large. -/
def shareTotal (shares : List UInt32) : Nat := (shares.map UInt32.toNat).sum

/-- The sum of some shares, at most a hundred; unknown if there are none. -/
def cappedTotal (shares : List UInt32) : Option UInt32 :=
  if shares = [] then none else some (UInt32.ofNat (min 100 (shareTotal shares)))

/-- The load with two parts of the clients together. -/
def combinedLoad : Option UInt32 → Option UInt32 → Option UInt32
  | some a, some b => some (UInt32.ofNat (min 100 (a.toNat + b.toNat)))
  | some a, none => some a
  | none, b => b

theorem shareTotal_append (xs ys : List UInt32) :
    shareTotal (xs ++ ys) = shareTotal xs + shareTotal ys := by
  unfold shareTotal
  rw [List.map_append, List.sum_append_nat]

/-! ## Adding in words -/

/-- A sum in words is the exact one or the largest word. -/
theorem toNat_foldl_saturatingAdd (sum : UInt32) (shares : List UInt32) :
    (shares.foldl saturatingAdd sum).toNat =
      min (sum.toNat + shareTotal shares) (UInt32.size - 1) := by
  induction shares generalizing sum with
  | nil =>
      have hword := sum.toNat_lt_size
      simp only [List.foldl_nil, shareTotal, List.map_nil, List.sum_nil]
      omega
  | cons share later ih =>
      rw [List.foldl_cons, ih, toNat_saturatingAdd]
      simp only [shareTotal, List.map_cons, List.sum_cons]
      omega

/-- Once a share is known, so is the sum. -/
theorem foldl_some_saturatingAdd (sum : UInt32) (shares : List UInt32) :
    shares.foldl (fun sum share => some (saturatingAdd (sum.getD 0) share)) (some sum) =
      some (shares.foldl saturatingAdd sum) := by
  induction shares generalizing sum with
  | nil => rfl
  | cons share later ih => exact ih _

theorem cap_eq (sum : UInt32) :
    (if 100 < sum then 100 else sum) = UInt32.ofNat (min 100 sum.toNat) := by
  have hword := sum.toNat_lt_size
  have hsize : UInt32.size = 2 ^ 32 := rfl
  apply UInt32.toNat_inj.mp
  rw [UInt32.toNat_ofNat_of_lt' (by omega)]
  split
  · rename_i h
    have h : 100 < sum.toNat := UInt32.lt_iff_toNat_lt.mp h
    exact (Nat.min_eq_left (Nat.le_of_lt h)).symm
  · rename_i h
    have h : sum.toNat ≤ 100 := Nat.le_of_not_lt fun hlt => h (UInt32.lt_iff_toNat_lt.mpr hlt)
    exact (Nat.min_eq_right h).symm

/-- Where the words stop growing, the sum is cut off anyway. -/
theorem load_eq (usages : List Usage) : load usages = cappedTotal (knownShares usages) := by
  unfold load
  change ((knownShares usages).foldl _ none).map _ = _
  cases knownShares usages with
  | nil => rfl
  | cons share later =>
      have hfirst : (saturatingAdd 0 share).toNat = share.toNat := by
        have hword := share.toNat_lt_size
        rw [toNat_saturatingAdd, UInt32.toNat_zero]
        omega
      have hsize : UInt32.size = 2 ^ 32 := rfl
      rw [List.foldl_cons, Option.getD_none, foldl_some_saturatingAdd, Option.map_some, cap_eq,
        toNat_foldl_saturatingAdd, hfirst, cappedTotal, if_neg (List.cons_ne_nil share later)]
      simp only [shareTotal, List.map_cons, List.sum_cons]
      congr 2
      omega

/-! ## Parts and changes -/

theorem cappedTotal_eq_none_iff {shares : List UInt32} :
    cappedTotal shares = none ↔ shares = [] := by
  unfold cappedTotal
  split <;> simp [*]

theorem toNat_capped (sum : Nat) : (UInt32.ofNat (min 100 sum)).toNat = min 100 sum := by
  have hsize : UInt32.size = 2 ^ 32 := rfl
  exact UInt32.toNat_ofNat_of_lt' (by omega)

theorem cappedTotal_eq_some_iff {shares : List UInt32} {percent : UInt32} :
    cappedTotal shares = some percent ↔
      shares ≠ [] ∧ percent.toNat = min 100 (shareTotal shares) := by
  unfold cappedTotal
  split
  · rename_i h
    exact iff_of_false (fun hnone => nomatch hnone) (fun hsome => hsome.1 h)
  · rename_i h
    rw [Option.some.injEq, ← UInt32.toNat_inj, toNat_capped, eq_comm]
    exact (and_iff_right h).symm

theorem cappedTotal_perm {xs ys : List UInt32} (h : xs.Perm ys) :
    cappedTotal xs = cappedTotal ys := by
  have hnil : xs = [] ↔ ys = [] := by
    rw [← List.length_eq_zero_iff, h.length_eq, List.length_eq_zero_iff]
  have htotal : shareTotal xs = shareTotal ys := (h.map _).sum_nat
  unfold cappedTotal
  simp only [hnil, htotal]

theorem cappedTotal_append (xs ys : List UInt32) :
    cappedTotal (xs ++ ys) = combinedLoad (cappedTotal xs) (cappedTotal ys) := by
  cases hxs : cappedTotal xs with
  | none =>
      rw [cappedTotal_eq_none_iff.mp hxs]
      rfl
  | some a =>
      obtain ⟨hne, ha⟩ := cappedTotal_eq_some_iff.mp hxs
      cases hys : cappedTotal ys with
      | none =>
          rw [cappedTotal_eq_none_iff.mp hys, List.append_nil, hxs]
          rfl
      | some b =>
          obtain ⟨-, hb⟩ := cappedTotal_eq_some_iff.mp hys
          apply cappedTotal_eq_some_iff.mpr
          refine ⟨List.append_ne_nil_of_left_ne_nil hne ys, ?_⟩
          rw [toNat_capped, ha, hb, shareTotal_append]
          omega

theorem knownShares_eq_nil_iff {usages : List Usage} :
    knownShares usages = [] ↔ ∀ usage ∈ usages, usage.renderShare = none :=
  List.filterMap_eq_nil_iff

/-- One client's share among those of others. -/
theorem knownShares_cons (usage : Usage) (later : List Usage) :
    knownShares (usage :: later) = usage.renderShare.toList ++ knownShares later := by
  unfold knownShares
  rw [List.filterMap_cons]
  cases usage.renderShare <;> rfl

/-- Larger shares have a larger sum, and where there was a sum there still is one. -/
theorem shareTotal_mono {usages usages' : List Usage}
    (h : List.Forall₂ (fun u v => u.renderShare ≤ v.renderShare) usages usages') :
    shareTotal (knownShares usages) ≤ shareTotal (knownShares usages') ∧
      (knownShares usages' = [] → knownShares usages = []) := by
  induction h with
  | nil => exact ⟨Nat.le_refl _, id⟩
  | @cons u v later later' hle _ ih =>
      have hshare : shareTotal u.renderShare.toList ≤ shareTotal v.renderShare.toList ∧
          (v.renderShare.toList = [] → u.renderShare.toList = []) := by
        match hu : u.renderShare, hv : v.renderShare with
        | none, _ => exact ⟨Nat.zero_le _, fun _ => rfl⟩
        | some a, none =>
            rw [hu, hv] at hle
            exact hle.elim
        | some a, some b =>
            rw [hu, hv] at hle
            exact ⟨Nat.add_le_add_right (UInt32.le_iff_toNat_le.mp hle) 0, fun hnil => nomatch hnil⟩
      rw [knownShares_cons, knownShares_cons, shareTotal_append, shareTotal_append]
      refine ⟨Nat.add_le_add hshare.1 ih.1, fun hnil => ?_⟩
      obtain ⟨hv, hlater⟩ := List.append_eq_nil_iff.mp hnil
      rw [hshare.2 hv, ih.2 hlater]
      rfl

theorem cappedTotal_le {xs ys : List UInt32} (hle : shareTotal xs ≤ shareTotal ys)
    (hnil : ys = [] → xs = []) : cappedTotal xs ≤ cappedTotal ys := by
  cases hxs : cappedTotal xs with
  | none => cases cappedTotal ys <;> trivial
  | some a =>
      obtain ⟨hne, ha⟩ := cappedTotal_eq_some_iff.mp hxs
      cases hys : cappedTotal ys with
      | none => exact absurd (hnil (cappedTotal_eq_none_iff.mp hys)) hne
      | some b =>
          obtain ⟨-, hb⟩ := cappedTotal_eq_some_iff.mp hys
          apply UInt32.le_iff_toNat_le.mpr
          omega

/-- A load is known if the share of some client is; it is then the sum of all known shares without
any bound, cut off at a hundred. So neither the order of the clients nor one without a share makes a
difference, a larger share never makes the load smaller, and the loads of two parts of the clients
together are that of all. -/
theorem load_of_total (usages : List Usage) :
    (load usages = none ↔ ∀ usage ∈ usages, usage.renderShare = none) ∧
    (∀ percent, load usages = some percent ↔
      (∃ usage ∈ usages, usage.renderShare ≠ none) ∧
        percent.toNat = min 100 (shareTotal (knownShares usages))) ∧
    (∀ usages', usages.Perm usages' → load usages' = load usages) ∧
    (∀ before usage after, usages = before ++ after → usage.renderShare = none →
      load (before ++ usage :: after) = load usages) ∧
    (∀ usages', List.Forall₂ (fun u v => u.renderShare ≤ v.renderShare) usages usages' →
      load usages ≤ load usages') ∧
    ∀ xs ys, usages = xs ++ ys → load usages = combinedLoad (load xs) (load ys) := by
  refine ⟨?_, ?_, ?_, ?_, ?_, ?_⟩
  · rw [load_eq, cappedTotal_eq_none_iff, knownShares_eq_nil_iff]
  · intro percent
    rw [load_eq, cappedTotal_eq_some_iff, Ne, knownShares_eq_nil_iff]
    push Not
    rfl
  · intro usages' hperm
    rw [load_eq, load_eq]
    exact cappedTotal_perm (hperm.symm.filterMap _)
  · rintro before usage after rfl hnone
    have hknown : knownShares (before ++ usage :: after) = knownShares (before ++ after) := by
      unfold knownShares
      rw [List.filterMap_append, List.filterMap_append, List.filterMap_cons_none hnone]
    rw [load_eq, load_eq, hknown]
  · intro usages' hle
    obtain ⟨htotal, hnil⟩ := shareTotal_mono hle
    rw [load_eq, load_eq]
    exact cappedTotal_le htotal hnil
  · rintro xs ys rfl
    have hknown : knownShares (xs ++ ys) = knownShares xs ++ knownShares ys :=
      List.filterMap_append
    rw [load_eq, load_eq, load_eq, hknown, cappedTotal_append]

example : load [{ pid := 1, renderShare := some 4294967295 },
    { pid := 2 }, { pid := 3, renderShare := some 1 }] = some 100 := by
  decide

end DrmUsage

import Mathlib

/-!
# Signed 64-bit arithmetic against the integers

A signed word has an exact integer value. Addition and subtraction of words agree
with the integers while the exact result fits, and are off by one multiple of the
modulus otherwise; a comparison after a wrap is then decided by the sign.
-/
namespace QwidNode.Lib.Word
variable {a b : Int64}

theorem toInt_range (a : Int64) : -2 ^ 63 ≤ a.toInt ∧ a.toInt < 2 ^ 63 :=
  ⟨a.le_toInt, a.toInt_lt⟩

theorem toInt_add_cases (a b : Int64) :
    (-2 ^ 63 ≤ a.toInt + b.toInt ∧ a.toInt + b.toInt < 2 ^ 63 ∧
        (a + b).toInt = a.toInt + b.toInt) ∨
      (2 ^ 63 ≤ a.toInt + b.toInt ∧ (a + b).toInt = a.toInt + b.toInt - 2 ^ 64) ∨
      (a.toInt + b.toInt < -2 ^ 63 ∧ (a + b).toInt = a.toInt + b.toInt + 2 ^ 64) := by
  have ha := toInt_range a
  have hb := toInt_range b
  rw [Int64.toInt_add, Int.bmod_def]
  split <;> omega

theorem toInt_sub_cases (a b : Int64) :
    (-2 ^ 63 ≤ a.toInt - b.toInt ∧ a.toInt - b.toInt < 2 ^ 63 ∧
        (a - b).toInt = a.toInt - b.toInt) ∨
      (2 ^ 63 ≤ a.toInt - b.toInt ∧ (a - b).toInt = a.toInt - b.toInt - 2 ^ 64) ∨
      (a.toInt - b.toInt < -2 ^ 63 ∧ (a - b).toInt = a.toInt - b.toInt + 2 ^ 64) := by
  have ha := toInt_range a
  have hb := toInt_range b
  rw [Int64.toInt_sub, Int.bmod_def]
  split <;> omega

theorem toInt_add_of_fits (lower : -2 ^ 63 ≤ a.toInt + b.toInt) (upper : a.toInt + b.toInt < 2 ^ 63) :
    (a + b).toInt = a.toInt + b.toInt := by
  rcases toInt_add_cases a b with h | h | h <;> omega

theorem toInt_sub_of_fits (lower : -2 ^ 63 ≤ a.toInt - b.toInt) (upper : a.toInt - b.toInt < 2 ^ 63) :
    (a - b).toInt = a.toInt - b.toInt := by
  rcases toInt_sub_cases a b with h | h | h <;> omega

theorem toInt_mul_of_fits (lower : -2 ^ 63 ≤ a.toInt * b.toInt) (upper : a.toInt * b.toInt < 2 ^ 63) :
    (a * b).toInt = a.toInt * b.toInt := by
  rw [Int64.toInt_mul]
  exact Int.bmod_eq_of_le (by omega) (by omega)

theorem toInt_neg_of_fits (above : -2 ^ 63 < a.toInt) : (-a).toInt = -a.toInt := by
  have range := toInt_range a
  rw [Int64.toInt_neg]
  exact Int.bmod_eq_of_le (by omega) (by omega)

theorem toInt_neg_min (least : a.toInt = -2 ^ 63) : (-a).toInt = -2 ^ 63 := by
  rw [Int64.toInt_neg, least]
  decide

theorem lt_iff : a < b ↔ a.toInt < b.toInt := Int64.lt_iff_toInt_lt

theorem le_iff : a ≤ b ↔ a.toInt ≤ b.toInt := Int64.le_iff_toInt_le

@[simp] theorem toInt_zero : (0 : Int64).toInt = 0 := rfl

theorem toInt_one : (1 : Int64).toInt = 1 := rfl

theorem toInt_succ (fits : a.toInt + 1 < 2 ^ 63) : (a + 1).toInt = a.toInt + 1 := by
  have range := toInt_range a
  rw [toInt_add_of_fits (by rw [toInt_one]; omega) (by rw [toInt_one]; omega), toInt_one]

theorem toInt_pred (fits : -2 ^ 63 < a.toInt) : (a - 1).toInt = a.toInt - 1 := by
  have range := toInt_range a
  rw [toInt_sub_of_fits (by rw [toInt_one]; omega) (by rw [toInt_one]; omega), toInt_one]

theorem le_bmod {x : Int} (upper : x < 2 ^ 63) : x ≤ x.bmod (2 ^ 64) := by
  rw [Int.bmod_def]
  split <;> omega

theorem tdiv_cases (a p : Int) : 0 ≤ a ∧ a.tdiv p = a / p ∨ a < 0 ∧ a.tdiv p = -(-a / p) := by
  rcases lt_or_ge a 0 with negative | positive
  · refine .inr ⟨negative, ?_⟩
    rw [← Int.tdiv_eq_ediv_of_nonneg (by omega), Int.neg_tdiv, Int.neg_neg]
  · exact .inl ⟨positive, Int.tdiv_eq_ediv_of_nonneg positive⟩

theorem mul_nonneg_of_div {p u : Int64} (hp : 0 ≤ p.toInt) (hu : 0 ≤ u.toInt)
    (tested : p ≠ 0 → p * u / p = u) : 0 ≤ (p * u).toInt := by
  by_cases zero : p = 0
  · rw [zero, Int64.zero_mul]
    exact Int.le_refl 0
  · by_contra negative
    have positive : 0 < p.toInt := by
      have different : p.toInt ≠ 0 := fun h => zero (Int64.toInt_inj.mp h)
      omega
    have flipped := tdiv_cases (p * u).toInt p.toInt
    have lower : 0 ≤ -(p * u).toInt / p.toInt := Int.ediv_nonneg (by omega) (by omega)
    have upper : -(p * u).toInt / p.toInt ≤ -(p * u).toInt := Int.ediv_le_self _ (by omega)
    have range := toInt_range (p * u)
    have quotient : u.toInt = (p * u).toInt.tdiv p.toInt := by
      have divided := Int64.toInt_div (p * u) p
      rw [tested zero] at divided
      rw [divided]
      exact Int.bmod_eq_of_le (by omega) (by omega)
    have none : u = 0 := Int64.toInt_inj.mp (by rw [toInt_zero]; omega)
    rw [none, Int64.mul_zero] at negative
    exact negative (Int.le_refl 0)

theorem mem_range_above {low top h : Int64} :
    h ∈ ((List.range (top.toInt - low.toInt).toNat).map fun i => low + 1 + Int64.ofNat i) ↔
      low < h ∧ h ≤ top := by
  have range := toInt_range h
  have least := toInt_range low
  have most := toInt_range top
  have value : ∀ i : Nat, low.toInt + 1 + i ≤ top.toInt →
      (low + 1 + Int64.ofNat i).toInt = low.toInt + 1 + i := by
    intro i small
    have size : (Int64.ofNat i).toInt = (i : Int).bmod (2 ^ 64) := Int64.toInt_ofNat'
    rw [Int64.toInt_add, Int64.toInt_add, toInt_one, size, Int.bmod_add_bmod, Int.add_bmod_bmod]
    exact Int.bmod_eq_of_le (by omega) (by omega)
  rw [List.mem_map, lt_iff, le_iff]
  constructor
  · rintro ⟨i, member, rfl⟩
    have small := List.mem_range.mp member
    rw [value i (by omega)]
    omega
  · rintro ⟨above, below⟩
    refine ⟨(h.toInt - low.toInt - 1).toNat, List.mem_range.mpr (by omega), ?_⟩
    rw [← Int64.toInt_inj, value _ (by omega)]
    omega

theorem toInt_middle (lo hi : Int64) (lower : 0 ≤ lo.toInt) (gap : lo.toInt < hi.toInt) :
    (lo + (hi - lo) / 2).toInt = lo.toInt + (hi.toInt - lo.toInt) / 2 := by
  have range := toInt_range hi
  have two : (2 : Int64).toInt = 2 := rfl
  have width : (hi - lo).toInt = hi.toInt - lo.toInt :=
    toInt_sub_of_fits (by omega) (by omega)
  have half : ((hi - lo) / 2).toInt = (hi.toInt - lo.toInt) / 2 := by
    rw [Int64.toInt_div, width, two, Int.tdiv_eq_ediv_of_nonneg (by omega)]
    exact Int.bmod_eq_of_le (by omega) (by omega)
  rw [← half]
  exact toInt_add_of_fits (by omega) (by omega)

end QwidNode.Lib.Word

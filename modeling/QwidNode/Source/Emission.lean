import QwidNode.Source.Staking
import QwidNode.Lib.Wide

/-!
# The emission schedule

Source: `account/reward.go`. The maximum supply and the reward ratio come from the genesis file, so
they are parameters here.
-/
namespace QwidNode.Source
open Lib Word

structure Emission where
  maxTotalSupply : Int64
  rewardRatioPerE10 : Int64

namespace Emission

def scale : UInt64 := 10000000000

def getRemainingSupply (e : Emission) (supply : Int64) : Int64 := e.maxTotalSupply - supply

def getReward (e : Emission) (supply : Int64) : Option Int64 :=
  let remaining := e.getRemainingSupply supply
  if remaining ≤ 0 ∨ e.rewardRatioPerE10 ≤ 0 then some 0
  else
    let product := Wide.mul64 remaining.toUInt64 e.rewardRatioPerE10.toUInt64
    let rounded := Wide.add64 product.2 (scale / 2) 0
    let hi := product.1 + rounded.2
    (Wide.div64 hi rounded.1 scale).map fun q => q.1.toInt64

/-- The supply of the block `n` blocks after one with the given supply. -/
def blockSupply (e : Emission) (start : Int64) : Nat → Option Int64
  | 0 => some start
  | n + 1 => do
    let lastSupply ← e.blockSupply start n
    let reward ← e.getReward lastSupply
    return lastSupply + reward

def builtin : Emission := ⟨Common.maxTotalSupply, Common.rewardRatioPerE10⟩

/-- A maximum that is a supply, and a ratio strictly between zero and one. -/
structure Valid (e : Emission) : Prop where
  cap : 0 ≤ e.maxTotalSupply.toInt
  positive : 0 < e.rewardRatioPerE10.toInt
  belowOne : e.rewardRatioPerE10.toInt < 10000000000

def rounded (remaining ratio : Nat) : Nat := (remaining * ratio + 5000000000) / 10000000000

theorem rounded_le (remaining : Nat) {ratio : Nat} (below : ratio < 10000000000) :
    rounded remaining ratio ≤ remaining := by
  have part : remaining * ratio ≤ remaining * 9999999999 :=
    Nat.mul_le_mul_left remaining (by omega)
  rw [rounded]
  omega

theorem toNat_toUInt64 {a : Int64} (nonneg : 0 ≤ a.toInt) : a.toUInt64.toNat = a.toInt.toNat := by
  have signed : a.toInt = (a.toUInt64.toNat : Int).bmod (2 ^ 64) :=
    a.toUInt64.toBitVec.toInt_eq_toNat_bmod
  have size := a.toUInt64.toNat_lt
  rw [Int.bmod_def] at signed
  split at signed <;> omega

section Reward
variable {e : Emission} {supply : Int64}

theorem getReward_of_remaining (valid : e.Valid)
    (remains : 0 < (e.getRemainingSupply supply).toInt) :
    e.getReward supply =
      some (.ofNat (rounded (e.getRemainingSupply supply).toInt.toNat
        e.rewardRatioPerE10.toInt.toNat)) := by
  have range := toInt_range (e.getRemainingSupply supply)
  have below := valid.belowOne
  have positive := valid.positive
  have unit : scale.toNat = 10000000000 := rfl
  have half : (scale / 2).toNat = 5000000000 := rfl
  have product := Wide.value_mul64 (e.getRemainingSupply supply).toUInt64
    e.rewardRatioPerE10.toUInt64
  rw [toNat_toUInt64 (by omega), toNat_toUInt64 (by omega)] at product
  have bound : (e.getRemainingSupply supply).toInt.toNat * e.rewardRatioPerE10.toInt.toNat ≤
      2 ^ 63 * 10000000000 := Nat.mul_le_mul (by omega) (by omega)
  have sum := Wide.value_add64 _ _ (scale / 2) (by rw [product, half]; omega)
  rw [product, half] at sum
  rw [getReward, if_neg (by rw [le_iff, le_iff, toInt_zero]; omega)]
  simp only
  rw [Wide.div64_of_lt (by rw [sum, unit]; omega), sum, unit, Option.map_some]
  congr 1

theorem getReward_of_none (done : (e.getRemainingSupply supply).toInt ≤ 0) :
    e.getReward supply = some 0 := by
  rw [getReward, if_pos (Or.inl (by rw [le_iff, toInt_zero]; exact done))]

theorem toInt_getRemainingSupply (valid : e.Valid) (nonneg : 0 ≤ supply.toInt) :
    (e.getRemainingSupply supply).toInt = e.maxTotalSupply.toInt - supply.toInt := by
  have cap := valid.cap
  have range := toInt_range e.maxTotalSupply
  have least := toInt_range supply
  exact toInt_sub_of_fits (by omega) (by omega)

theorem getReward_exact (valid : e.Valid) (nonneg : 0 ≤ supply.toInt) :
    ∃ reward, e.getReward supply = some reward ∧
      reward.toInt = rounded (e.maxTotalSupply.toInt - supply.toInt).toNat
        e.rewardRatioPerE10.toInt.toNat := by
  have exact := toInt_getRemainingSupply valid nonneg
  by_cases remains : 0 < (e.getRemainingSupply supply).toInt
  · refine ⟨_, getReward_of_remaining valid remains, ?_⟩
    have below := valid.belowOne
    have most : rounded (e.getRemainingSupply supply).toInt.toNat
        e.rewardRatioPerE10.toInt.toNat ≤ _ := rounded_le _ (by omega)
    have range := toInt_range (e.getRemainingSupply supply)
    rw [Int64.toInt_ofNat_of_lt (by omega), exact]
  · refine ⟨0, getReward_of_none (by omega), ?_⟩
    have none : (e.maxTotalSupply.toInt - supply.toInt).toNat = 0 := by omega
    rw [none, rounded, Nat.zero_mul]
    rfl

/-- With the values the node starts with, this is the reward the other modules use. -/
theorem getReward_builtin (supply : Int64) :
    builtin.getReward supply = some (Source.getReward supply) := by
  have valid : builtin.Valid := ⟨by decide, by decide, by decide⟩
  have ratio : ¬ Common.rewardRatioPerE10 ≤ 0 := by decide
  by_cases remains : 0 < (builtin.getRemainingSupply supply).toInt
  · rw [getReward_of_remaining valid remains, Source.getReward]
    rw [if_neg]
    · rfl
    · rw [not_or, le_iff, toInt_zero]
      exact ⟨Int.not_le.mpr remains, ratio⟩
  · rw [getReward_of_none (Int.not_lt.mp remains), Source.getReward]
    rw [if_pos (Or.inl (by rw [le_iff, toInt_zero]; exact Int.not_lt.mp remains))]

theorem blockSupply_step (valid : e.Valid) (nonneg : 0 ≤ supply.toInt) :
    ∃ reward, e.getReward supply = some reward ∧ supply.toInt ≤ (supply + reward).toInt ∧
      (supply + reward).toInt ≤ max supply.toInt e.maxTotalSupply.toInt := by
  obtain ⟨reward, given, exact⟩ := getReward_exact valid nonneg
  have below := valid.belowOne
  have most := rounded_le (e.maxTotalSupply.toInt - supply.toInt).toNat
    (show e.rewardRatioPerE10.toInt.toNat < 10000000000 by omega)
  have cap := toInt_range e.maxTotalSupply
  have range := toInt_range supply
  have sum : (supply + reward).toInt = supply.toInt + reward.toInt :=
    toInt_add_of_fits (by omega) (by omega)
  exact ⟨reward, given, by omega, by omega⟩

theorem blockSupply_run (valid : e.Valid) (start : Int64) (nonneg : 0 ≤ start.toInt) (n : Nat) :
    ∃ p, e.blockSupply start n = some p ∧ start.toInt ≤ p.toInt ∧
      p.toInt ≤ max start.toInt e.maxTotalSupply.toInt := by
  induction n with
  | zero => exact ⟨start, rfl, Int.le_refl _, by omega⟩
  | succ n ih =>
    obtain ⟨p, reached, least, most⟩ := ih
    obtain ⟨reward, given, grown, bounded⟩ := blockSupply_step valid (by omega : 0 ≤ p.toInt)
    refine ⟨p + reward, ?_, by omega, by omega⟩
    simp [blockSupply, reached, given]

end Reward
end Emission
end QwidNode.Source

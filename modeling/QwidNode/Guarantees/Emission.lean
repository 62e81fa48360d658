import QwidNode.Source.Emission

/-!
# The emission schedule is exact and capped

The reward of a block is the remaining supply times the configured ratio, rounded half up,
and its computation never panics. Supplies grow from block to block and stop at the
maximum; a chain that starts above the maximum emits nothing.
-/
namespace QwidNode.Guarantees
open Lib Source Emission

theorem rounded_eq_floor (remaining ratio : Nat) :
    (rounded remaining ratio : Int) =
      ⌊(remaining : ℚ) * ratio / 10 ^ 10 + 1 / 2⌋ := by
  have quotient : (remaining : ℚ) * ratio / 10 ^ 10 + 1 / 2 =
      ((remaining * ratio + 5000000000 : Nat) : ℚ) / (10000000000 : Nat) := by
    push_cast
    ring
  rw [quotient, Rat.floor_natCast_div_natCast, rounded]
  rfl

section Capped
variable (e : Emission) (valid : e.Valid) (start : Int64) (nonneg : 0 ≤ start.toInt)
include valid nonneg

/-- Every reward is exact, and the supplies of a chain never fall, never pass the maximum
unless the first one is above it, and stay where they are in that case. -/
theorem emission_exact_and_capped :
    (∃ reward, e.getReward start = some reward ∧
      reward.toInt = ⌊((max 0 (e.maxTotalSupply.toInt - start.toInt) : Int) : ℚ) *
        e.rewardRatioPerE10.toInt / 10 ^ 10 + 1 / 2⌋) ∧
    (∀ n, ∃ p q, e.blockSupply start n = some p ∧ e.blockSupply start (n + 1) = some q ∧
      p ≤ q) ∧
    (start ≤ e.maxTotalSupply →
      ∀ n p, e.blockSupply start n = some p → p ≤ e.maxTotalSupply) ∧
    (e.maxTotalSupply < start → ∀ n, e.blockSupply start n = some start) := by
  refine ⟨?_, ?_, ?_, ?_⟩
  · obtain ⟨reward, given, exact⟩ := getReward_exact valid nonneg
    refine ⟨reward, given, ?_⟩
    have ratio : ((e.rewardRatioPerE10.toInt.toNat : Int) : ℚ) = e.rewardRatioPerE10.toInt := by
      rw [Int.toNat_of_nonneg (Int.le_of_lt valid.positive)]
    have remaining : (((e.maxTotalSupply.toInt - start.toInt).toNat : Int) : ℚ) =
        ((max 0 (e.maxTotalSupply.toInt - start.toInt) : Int) : ℚ) := by
      rw [Int.toNat_eq_max, max_comm]
    rw [exact, rounded_eq_floor, ← remaining, ← ratio]
    simp only [Int.cast_natCast]
  · intro n
    obtain ⟨p, reached, least, most⟩ := blockSupply_run valid start nonneg n
    obtain ⟨reward, given, grown, bounded⟩ :=
      blockSupply_step valid (by omega : 0 ≤ p.toInt)
    refine ⟨p, p + reward, reached, ?_, Word.le_iff.mpr grown⟩
    simp [blockSupply, reached, given]
  · intro below n p reached
    obtain ⟨q, same, least, most⟩ := blockSupply_run valid start nonneg n
    rw [reached] at same
    cases same
    have below := Word.le_iff.mp below
    rw [Word.le_iff]
    omega
  · intro above n
    obtain ⟨q, reached, least, most⟩ := blockSupply_run valid start nonneg n
    have above := Word.lt_iff.mp above
    have same : q = start := Int64.toInt_inj.mp (by omega)
    rw [reached, same]

end Capped

/-- The supply the genesis file starts from, with the values built into the node. -/
theorem emission_from_genesis :
    (∃ reward, builtin.getReward 23000000000000000 = some reward ∧
      reward.toInt = ⌊((max 0 (builtin.maxTotalSupply.toInt -
        (23000000000000000 : Int64).toInt) : Int) : ℚ) *
          builtin.rewardRatioPerE10.toInt / 10 ^ 10 + 1 / 2⌋) ∧
      ∀ n p, builtin.blockSupply 23000000000000000 n = some p →
        p ≤ builtin.maxTotalSupply := by
  have whole := emission_exact_and_capped builtin ⟨by decide, by decide, by decide⟩
    23000000000000000 (by decide)
  exact ⟨whole.1, whole.2.2.1 (by decide)⟩

/-- A chain whose first supply is above the maximum stays above it. -/
theorem supply_starts_above_maximum :
    ¬ ∀ start : Int64, 0 ≤ start → ∀ n p, builtin.blockSupply start n = some p →
      p ≤ builtin.maxTotalSupply := by
  intro capped
  have first := capped 230000000000000001 (by decide) 0 230000000000000001 rfl
  exact absurd first (by decide)

end QwidNode.Guarantees

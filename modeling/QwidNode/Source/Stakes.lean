import QwidNode.Lib.Sums
import QwidNode.Source.EncryptionVote
import QwidNode.Source.Rewards

/-!
# Exact stakes

The stake of a delegated account is the sum of its entries. As long as the eligible stakes add up
to a word, the sums that the source adds up in 64 bits are exact: the stake of one eligible
delegated account, the eligible total, and the stake of any pairwise different eligible ones.
-/
namespace QwidNode.Source
open Lib
namespace Ledger
variable {l : Ledger}

def stakeIn (l : Ledger) (n : Nat) : Int :=
  classSum (fun e : Sigma fun _ : Nat × AddressBytes => StakingAccount => e.1.1)
    (fun e => e.2.stakedBalance.toInt) l.staking.entries n

def eligibleIds (l : Ledger) : List Nat := delegatedIds.filter fun id => (l.eligibleOperator id).2

theorem mem_delegatedIds {id : Nat} : id ∈ delegatedIds ↔ 0 < id ∧ id < 256 := by
  simp only [delegatedIds, List.mem_map, List.mem_range]
  constructor
  · rintro ⟨n, low, rfl⟩
    omega
  · intro bounds
    exact ⟨id - 1, by omega, by omega⟩

theorem nodup_delegatedIds : delegatedIds.Nodup :=
  List.nodup_range.map fun a b same => by omega

theorem nodup_eligibleIds (l : Ledger) : l.eligibleIds.Nodup := nodup_delegatedIds.filter _

theorem isEligibleDelegatedAccount_iff {id : Nat} :
    l.isEligibleDelegatedAccount id = true ↔ id ∈ l.eligibleIds := by
  unfold isEligibleDelegatedAccount eligibleIds
  rw [List.mem_filter, mem_delegatedIds]
  split
  · next outside => exact ⟨nofun, fun inside => by omega⟩
  · next inside => exact ⟨fun selected => ⟨by omega, selected⟩, fun both => both.2⟩

theorem isEligible_of_top128 {id : Nat} {a : AddressBytes}
    (top : l.isTop128StakingNode id a = true) : l.isEligibleDelegatedAccount id = true := by
  unfold isTop128StakingNode at top
  unfold isEligibleDelegatedAccount
  split at top
  · cases top
  · next inside =>
    rw [if_neg inside]
    exact (Bool.and_eq_true_iff.mp top).1

theorem NonNeg.entries (nonneg : l.NonNeg) :
    ∀ e ∈ l.staking.entries, 0 ≤ e.2.stakedBalance.toInt :=
  fun e member => nonneg.stake e.2 (List.mem_map.mpr ⟨e, member, rfl⟩)

theorem NonNeg.stakeIn (nonneg : l.NonNeg) (n : Nat) : 0 ≤ l.stakeIn n :=
  classSum_nonneg nonneg.entries n

theorem NonNeg.sum_stakeIn_le (nonneg : l.NonNeg) {ids : List Nat} (distinct : ids.Nodup) :
    (ids.map l.stakeIn).sum ≤ l.coins := by
  have sums := nonneg.sum_nonneg
  have all : (l.staking.entries.map fun e => e.2.stakedBalance.toInt).sum =
      FinMap.sumOf (·.stakedBalance.toInt) l.staking := by
    simp [FinMap.sumOf, FinMap.values, Function.comp_def]
  have part : (ids.map l.stakeIn).sum ≤
      (l.staking.entries.map fun e => e.2.stakedBalance.toInt).sum :=
    sum_classSum_le nonneg.entries distinct
  unfold coins
  omega

theorem stakeIn_eq (l : Ledger) (n : Nat) :
    l.stakeIn n = ((l.shard n).map (·.stakedBalance.toInt)).sum := by
  unfold stakeIn classSum shard
  rw [List.map_map]
  rfl

structure StakesFit (l : Ledger) : Prop where
  nonneg : ∀ e ∈ l.staking.entries, 0 ≤ e.2.stakedBalance.toInt
  total : (l.eligibleIds.map l.stakeIn).sum < 2 ^ 63

theorem StakesFit.stakeIn (fit : l.StakesFit) (n : Nat) : 0 ≤ l.stakeIn n :=
  classSum_nonneg fit.nonneg n

theorem NonNeg.stakesFit (nonneg : l.NonNeg) (bounded : l.coins < 2 ^ 63) : l.StakesFit :=
  ⟨nonneg.entries, (nonneg.sum_stakeIn_le l.nodup_eligibleIds).trans_lt bounded⟩

theorem stakeOfDelegated_exact (nonneg : ∀ e ∈ l.staking.entries, 0 ≤ e.2.stakedBalance.toInt)
    {n : Nat} (fits : l.stakeIn n < 2 ^ 63) : (l.stakeOfDelegated n).toInt = l.stakeIn n := by
  rw [stakeIn_eq] at fits ⊢
  have stakes : ∀ sa ∈ l.shard n, 0 ≤ sa.stakedBalance.toInt := by
    intro sa member
    obtain ⟨e, inside, rfl⟩ := List.mem_map.mp member
    exact nonneg e (List.mem_filter.mp inside).1
  have sum := toInt_foldl_add StakingAccount.stakedBalance (l.shard n) 0 stakes (Int.le_refl 0)
    (by rw [Word.toInt_zero]; omega)
  rwa [Word.toInt_zero, Int.zero_add] at sum

theorem delegatedTotal_eq (l : Ledger) (n : Nat) : l.delegatedTotal n = l.stakeOfDelegated n := by
  change (l.shardEntries n).foldl (fun sum e => sum + e.2.stakedBalance) 0 =
    (l.shard n).foldl (fun sum sa => sum + sa.stakedBalance) 0
  unfold shardEntries shard
  rw [List.foldl_map, List.foldl_map]

theorem sum_eligible_le (fit : l.StakesFit) {ids : List Nat} (distinct : ids.Nodup)
    (eligible : ∀ id ∈ ids, l.isEligibleDelegatedAccount id = true) :
    (ids.map l.stakeIn).sum ≤ (l.eligibleIds.map l.stakeIn).sum :=
  sum_le_of_subset distinct (fun id member => isEligibleDelegatedAccount_iff.mp (eligible id member))
    fun id _ => fit.stakeIn id

theorem StakesFit.stake_exact (fit : l.StakesFit) {id : Nat}
    (eligible : l.isEligibleDelegatedAccount id = true) :
    (l.stakeOfDelegated id).toInt = l.stakeIn id := by
  have one := sum_eligible_le fit (List.nodup_singleton id) (by simpa using eligible)
  rw [List.map_singleton, List.sum_singleton] at one
  exact stakeOfDelegated_exact fit.nonneg (one.trans_lt fit.total)

theorem sum_stakes_exact (fit : l.StakesFit) {ids : List Nat} (distinct : ids.Nodup)
    (eligible : ∀ id ∈ ids, l.isEligibleDelegatedAccount id = true) :
    (ids.foldl (fun sum id => sum + l.stakeOfDelegated id) 0).toInt = (ids.map l.stakeIn).sum := by
  have each : ids.map (fun id => (l.stakeOfDelegated id).toInt) = ids.map l.stakeIn :=
    List.map_congr_left fun id member => fit.stake_exact (eligible id member)
  have less := (sum_eligible_le fit distinct eligible).trans_lt fit.total
  have stakes : ∀ id ∈ ids, 0 ≤ (l.stakeOfDelegated id).toInt := fun id member => by
    rw [fit.stake_exact (eligible id member)]
    exact fit.stakeIn id
  have sum := toInt_foldl_add l.stakeOfDelegated ids 0 stakes (Int.le_refl 0)
    (by rw [each, Word.toInt_zero]; omega)
  rw [each, Word.toInt_zero, Int.zero_add] at sum
  exact sum

theorem eligibleTotal_exact (fit : l.StakesFit) :
    l.getStakedInEligibleDelegatedAccounts.toInt = (l.eligibleIds.map l.stakeIn).sum := by
  rw [← sum_stakes_exact fit l.nodup_eligibleIds fun id => isEligibleDelegatedAccount_iff.mpr]
  unfold getStakedInEligibleDelegatedAccounts eligibleIds
  rw [List.foldl_filter]
  simp only [delegatedTotal_eq]

end Ledger

end QwidNode.Source

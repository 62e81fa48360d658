import QwidNode.Lib.TopRanked
import QwidNode.Source.Ranking
import QwidNode.Source.Stakes

/-!
# Eligibility is a top-128 selection

`eligibleOperatorLocked` counts, for one delegated account, the delegated accounts that rank before
it. The ranking is a strict total order, so the count is a place in it: at most 128 are eligible,
and one that ranks before an eligible one and has an operator and the minimum stake is eligible too.
-/
namespace QwidNode.Guarantees
open Lib Source Ledger Word
variable {l : Ledger} {n id : Nat}

def changedAt (l : Ledger) (id : Nat) : Int64 := (l.stakeChangedAt.lookup id).getD 0

/-- The rank of `id` is strictly better than that of `n`: more stake, then the earlier change,
then the smaller number. -/
def Better (l : Ledger) (id n : Nat) : Prop :=
  l.delegatedTotal n < l.delegatedTotal id ∨ l.delegatedTotal id = l.delegatedTotal n ∧
    (changedAt l id < changedAt l n ∨ changedAt l id = changedAt l n ∧ id < n)

/-- An operational entry, whose stake is not negative, as in every entry the staking calls
write. -/
def HasOperator (l : Ledger) (id : Nat) : Prop :=
  ∃ e ∈ l.shardEntries id, e.2.operationalAccount = true ∧ 0 ≤ e.2.stakedBalance

def standing (l : Ledger) (id : Nat) : Lex (ℤᵒᵈ × Lex (ℤ × ℕ)) :=
  toLex (OrderDual.toDual (l.delegatedTotal id).toInt, toLex ((changedAt l id).toInt, id))

theorem standing_injective (l : Ledger) : Function.Injective (standing l) := by
  intro a b same
  exact congrArg (fun k => (ofLex (ofLex k).2).2) same

theorem better_iff : Better l id n ↔ standing l id < standing l n := by
  have stake : l.delegatedTotal id = l.delegatedTotal n ↔
      (l.delegatedTotal id).toInt = (l.delegatedTotal n).toInt := Int64.toInt_inj.symm
  have time : changedAt l id = changedAt l n ↔
      (changedAt l id).toInt = (changedAt l n).toInt := Int64.toInt_inj.symm
  simp [Better, standing, Prod.Lex.toLex_lt_toLex, lt_iff, stake, time]

theorem ranksBefore_iff : l.ranksBefore n id = true ↔ Better l id n := by
  unfold ranksBefore Better changedAt
  simp only [Bool.and_eq_true, bne_iff_ne, Bool.or_eq_true, decide_eq_true_eq, beq_iff_eq]
  constructor
  · exact fun both => both.2
  · intro better
    refine ⟨?_, better⟩
    -- an account does not rank before itself
    rintro rfl
    rcases better with more | ⟨-, earlier | ⟨-, smaller⟩⟩
    · exact Int64.lt_irrefl more
    · exact Int64.lt_irrefl earlier
    · exact Nat.lt_irrefl id smaller

theorem length_ranksBefore (l : Ledger) (n : Nat) :
    ((List.range 256).filter (l.ranksBefore n)).length =
      place (standing l) (Finset.range 256) n := by
  have members : ((List.range 256).filter (l.ranksBefore n)).toFinset =
      (Finset.range 256).filter fun id => standing l id < standing l n := by
    ext id
    rw [List.mem_toFinset, List.mem_filter, List.mem_range, Finset.mem_filter, Finset.mem_range,
      ranksBefore_iff, better_iff]
  rw [place, ← members, List.toFinset_card_of_nodup (List.nodup_range.filter _)]

theorem selected_nonneg_iff : ¬ (l.selectedOperator id).1 < 0 ↔ HasOperator l id := by
  obtain ⟨source, -, most⟩ := foldl_select_spec (l.candidates id) (-1, 0, 0)
  rw [← selectedOperator_candidates] at source most
  rw [lt_iff, toInt_zero, Int.not_lt]
  constructor
  · intro selected
    rcases source with start | ⟨c, member, flagged, chosen⟩
    · rw [start] at selected
      exact absurd selected (by decide)
    · obtain ⟨e, stored, rfl⟩ := List.mem_map.mp member
      rw [chosen] at selected
      exact ⟨e, stored, flagged, le_iff.mpr selected⟩
  · rintro ⟨e, stored, flagged, positive⟩
    have ranked := most _ (List.mem_map.mpr ⟨e, stored, rfl⟩) flagged
    exact Int.le_trans (le_iff.mp positive) (stake_le_of_rank_le ranked)

theorem eligible_iff : (l.eligibleOperator n).2 = true ↔
    Common.minStakingForNode ≤ l.delegatedTotal n ∧ HasOperator l n ∧
      place (standing l) (Finset.range 256) n < 128 := by
  unfold eligibleOperator
  by_cases poor : l.delegatedTotal n < Common.minStakingForNode
  · rw [if_pos poor]
    refine ⟨nofun, fun eligible => ?_⟩
    have enough := le_iff.mp eligible.1
    have less := lt_iff.mp poor
    omega
  · rw [if_neg poor]
    have enough : Common.minStakingForNode ≤ l.delegatedTotal n :=
      le_iff.mpr (Int.not_lt.mp fun less => poor (lt_iff.mpr less))
    simp only
    by_cases none : (l.selectedOperator n).1 < 0
    · rw [if_pos none]
      exact ⟨nofun, fun eligible => absurd none (selected_nonneg_iff.mpr eligible.2.1)⟩
    · rw [if_neg none, length_ranksBefore, decide_eq_true_eq]
      have found := selected_nonneg_iff.mp none
      unfold maxActiveStakingNodes
      exact ⟨fun ranked => ⟨enough, found, by omega⟩, fun eligible => by omega⟩

theorem exists_top128_iff : (∃ operator, l.isTop128StakingNode id operator = true) ↔
    id ∈ l.eligibleIds := by
  rw [← isEligibleDelegatedAccount_iff]
  constructor
  · rintro ⟨operator, accepted⟩
    exact isEligible_of_top128 accepted
  · intro eligible
    refine ⟨(l.eligibleOperator id).1, ?_⟩
    unfold isEligibleDelegatedAccount at eligible
    unfold isTop128StakingNode
    split at eligible
    · cases eligible
    · next inside =>
      rw [if_neg inside]
      simp [eligible]

/-- At most 128 delegated accounts are eligible; whoever has an operator, the minimum stake
and a better rank than an eligible one is eligible; and the stake that can vote is the sum
over the delegated accounts with an accepted operator, in words and, as long as the coins
fit, in the integers. -/
theorem eligibility_top128 (l : Ledger) :
    ((List.range 256).filter fun id => (l.eligibleOperator id).2).length ≤ 128 ∧
    (∀ n id, id < 256 → (l.eligibleOperator n).2 = true → HasOperator l id →
      Common.minStakingForNode ≤ l.delegatedTotal id → Better l id n →
      (l.eligibleOperator id).2 = true) ∧
    ∃ ids : List Nat, ids.Nodup ∧
      (∀ id, id ∈ ids ↔ ∃ operator, l.isTop128StakingNode id operator = true) ∧
      l.getStakedInEligibleDelegatedAccounts =
        ids.foldl (fun sum id => sum + l.delegatedTotal id) 0 ∧
      (l.NonNeg → l.coins < 2 ^ 63 →
        l.getStakedInEligibleDelegatedAccounts.toInt = (ids.map l.stakeIn).sum) := by
  refine ⟨?_, ?_, l.eligibleIds, l.nodup_eligibleIds, fun id => exists_top128_iff.symm, ?_,
    fun nonneg bounded => eligibleTotal_exact (nonneg.stakesFit bounded)⟩
  · have distinct : ((List.range 256).filter fun id => (l.eligibleOperator id).2).Nodup :=
      List.nodup_range.filter _
    rw [← List.toFinset_card_of_nodup distinct]
    refine (Finset.card_le_card ?_).trans
      (card_place_lt_le (standing_injective l).injOn 128 :
        ((Finset.range 256).filter fun a => place (standing l) (Finset.range 256) a < 128).card ≤ _)
    intro id member
    rw [List.mem_toFinset, List.mem_filter, List.mem_range] at member
    rw [Finset.mem_filter, Finset.mem_range]
    exact ⟨member.1, (eligible_iff.mp member.2).2.2⟩
  · intro n id inside eligible operator enough better
    have less := place_lt_place (Finset.mem_range.mpr inside) (better_iff.mp better)
    exact eligible_iff.mpr ⟨enough, operator, less.trans (eligible_iff.mp eligible).2.2⟩
  · unfold getStakedInEligibleDelegatedAccounts eligibleIds
    rw [List.foldl_filter]

/-- Of two staked delegated accounts, one has the minimum stake of a node. -/
example : Ledger.eligibleIds
    { staking := (Node.small [] []).ledger.staking.insert (2, 0xBB)
        { stakedBalance := 5, address := 0xBB, operationalAccount := true } } = [1] := by
  decide +kernel

end QwidNode.Guarantees

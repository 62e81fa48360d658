import QwidNode.Lib.Sums
import QwidNode.Source.Ranking
import QwidNode.Source.Rewards

/-!
# Who gets what of a block reward

The reward part of `ProcessBlockTransfers` (`blocks/processBlock.go:637-683`) as a list of
payments: the operator's part, one payment per staker, and the rest to the operator. When the
operator's part is not negative, no payment is and they add up to the reward; an entry ends
with the payments to its address, whatever the order of the stakers.
-/
namespace QwidNode.Source
open Lib Ledger Word List
variable {σ : Type} {env : Env σ} {block : Block} {n : Nat} {s : Node σ} {l l' l'' : Ledger}

namespace StakingAccount

def rewarded (height now : Int64) (e : StakingAccount) (amount : Int64) : StakingAccount :=
  { e with stakingRewards := e.stakingRewards + amount }.addDetail height ⟨0, amount, now⟩

def rewardedAll (height now : Int64) (e : StakingAccount) (amounts : List Int64) : StakingAccount :=
  amounts.foldl (rewarded height now) e

theorem rewarded_fields (height now : Int64) (e : StakingAccount) (amount : Int64) :
    (e.rewarded height now amount).address = e.address ∧
      (e.rewarded height now amount).stakedBalance = e.stakedBalance ∧
      (e.rewarded height now amount).stakingRewards = e.stakingRewards + amount := by
  obtain ⟨address, stake, reward, -⟩ :=
    StakingCall.rewardedEntry_fields e amount height ⟨0, amount, now⟩ rfl
  exact ⟨address, stake, reward⟩

theorem rewardedAll_fields (height now : Int64) (amounts : List Int64) (e : StakingAccount) :
    (e.rewardedAll height now amounts).address = e.address ∧
      (e.rewardedAll height now amounts).stakingRewards =
        e.stakingRewards + Int64.ofInt (amounts.map Int64.toInt).sum := by
  induction amounts generalizing e with
  | nil => exact ⟨rfl, (Int64.add_zero _).symm⟩
  | cons amount amounts ih =>
    obtain ⟨address, -, reward⟩ := rewarded_fields height now e amount
    obtain ⟨address', reward'⟩ := ih (e.rewarded height now amount)
    refine ⟨address'.trans address, reward'.trans ?_⟩
    rw [reward, List.map_cons, List.sum_cons, Int64.ofInt_add, Int64.ofInt_toInt, Int64.add_assoc]

end StakingAccount

structure Paid (height now : Int64) (n : Nat) (payments : List RewardPayment) (l l' : Ledger) : Prop where
  entry : ∀ a, l'.entryAt (n, a) = (l.entryAt (n, a)).rewardedAll height now
    ((payments.filter fun p => p.1 == a).map (·.2))
  elsewhere : ∀ key, key.1 ≠ n → l'.staking.lookup key = l.staking.lookup key
  stored : ∀ a, (l'.staking.lookup (n, a)).isSome = true ↔
    (l.staking.lookup (n, a)).isSome = true ∨ a ∈ payments.map (·.1)

section Paid
variable {height now : Int64} {payments payments' : List RewardPayment}

theorem Paid.refl : Paid height now n [] l l := ⟨fun _ => rfl, fun _ _ => rfl, fun _ => by simp⟩

theorem Paid.trans (first : Paid height now n payments l l')
    (second : Paid height now n payments' l' l'') :
    Paid height now n (payments ++ payments') l l'' where
  entry a := by
    rw [second.entry, first.entry, filter_append, map_append,
      StakingAccount.rewardedAll, StakingAccount.rewardedAll, ← foldl_append]
    rfl
  elsewhere key other := (second.elsewhere key other).trans (first.elsewhere key other)
  stored a := by
    rw [second.stored, first.stored, map_append, mem_append, or_assoc]

theorem Paid.address (paid : Paid height now n payments l l') (a : AddressBytes) :
    (l'.entryAt (n, a)).address = (l.entryAt (n, a)).address := by
  rw [paid.entry]
  exact (StakingAccount.rewardedAll_fields _ _ _ _).1

def gained (payments : List RewardPayment) (a : AddressBytes) : Int :=
  classSum (·.1) (·.2.toInt) payments a

theorem Paid.stakingRewards (paid : Paid height now n payments l l') (a : AddressBytes) :
    (l'.entryAt (n, a)).stakingRewards =
      (l.entryAt (n, a)).stakingRewards + Int64.ofInt (gained payments a) := by
  rw [paid.entry, (StakingAccount.rewardedAll_fields _ _ _ _).2, List.map_map]
  rfl

theorem sum_gained (stored : ∀ p ∈ payments, (l.staking.lookup (n, p.1)).isSome = true) :
    ((l.shardEntries n).map fun e => gained payments e.1).sum =
      (payments.map (·.2.toInt)).sum := by
  have listed : ∀ p ∈ payments, p.1 ∈ (l.shardEntries n).map Prod.fst := by
    intro p member
    obtain ⟨e, found⟩ := Option.isSome_iff_exists.mp (stored p member)
    exact List.mem_map.mpr ⟨(p.1, e), mem_shardEntries.mpr found, rfl⟩
  rw [← sum_classSum_eq (nodup_shardEntries l n) listed, List.map_map]
  rfl

theorem Paid.sameEntries {m m' : Ledger} (paid : Paid height now n payments l l')
    (paid' : Paid height now n payments' m m') (same : l.SameEntries m)
    (each : ∀ a, payments'.filter (fun p => p.1 == a) = payments.filter fun p => p.1 == a) :
    l'.SameEntries m' := by
  intro key
  by_cases here : key.1 = n
  · obtain ⟨k, a⟩ := key
    obtain rfl : k = n := here
    have listed : a ∈ payments'.map (·.1) ↔ a ∈ payments.map (·.1) := by
      have some' : ∀ ps : List RewardPayment,
          a ∈ ps.map (·.1) ↔ ps.filter (fun p => p.1 == a) ≠ [] := by
        intro ps
        simp [filter_eq_nil_iff]
      rw [some', some', each]
    have stored : (m'.staking.lookup (k, a)).isSome = true ↔
        (l'.staking.lookup (k, a)).isSome = true := by
      rw [paid'.stored, paid.stored, same, listed]
    have entry : m'.entryAt (k, a) = l'.entryAt (k, a) := by
      rw [paid'.entry, paid.entry, each, entryAt, same]
      rfl
    unfold entryAt at entry
    cases first : l'.staking.lookup (k, a) with
    | none =>
      rw [first, Option.isSome_none] at stored
      exact Option.not_isSome_iff_eq_none.mp (by simp [stored])
    | some e =>
      obtain ⟨e', second⟩ := Option.isSome_iff_exists.mp (stored.mpr (by rw [first]; rfl))
      rw [first, second] at entry
      rw [second]
      exact congrArg some entry
  · rw [paid'.elsewhere key here, paid.elsewhere key here, same]

end Paid

theorem giveReward_paid (low : n < 256) {a : AddressBytes} {amount : Int64}
    (own : (s.ledger.entryAt (n, a)).address = a) (nonneg : 0 ≤ amount.toInt) :
    ∃ l', giveReward env block n a amount s = .ok () { s with ledger := l' } ∧
      Paid block.height (env.clock block.height) n [(a, amount)] s.ledger l' := by
  have entry := stakingAccount_eq_entryAt s.ledger a low
  have run : s.ledger.reward a amount block.height (env.clock block.height) n =
      .ok (s.ledger.putStaking n
        ((s.ledger.entryAt (n, a)).rewarded block.height (env.clock block.height) amount)) := by
    have positive : ¬ amount < 0 := by
      rw [lt_iff, toInt_zero]
      omega
    rw [Ledger.reward, entry, if_neg (not_not.mpr own), if_neg positive]
    rfl
  obtain ⟨address, -, -⟩ := StakingAccount.rewarded_fields block.height (env.clock block.height)
    (s.ledger.entryAt (n, a)) amount
  have written : (s.ledger.putStaking n ((s.ledger.entryAt (n, a)).rewarded block.height
      (env.clock block.height) amount)).staking = s.ledger.staking.insert (n, a) _ :=
    congrArg staking (putStaking_eq (address.trans own) s.ledger.stakeChangedAt)
  refine ⟨_, liftLedger_eq_ok.mpr ⟨_, run, rfl⟩, fun b => ?_, fun key other => ?_, fun b => ?_⟩
  · rw [entryAt_insert written]
    by_cases here : b = a
    · subst here
      simp [StakingAccount.rewardedAll]
    · rw [if_neg (by simp [here]), List.filter_cons_of_neg (by simpa using Ne.symm here)]
      rfl
  · rw [written, AList.lookup_insert_ne fun same => other (by rw [same])]
  · rw [written]
    by_cases here : b = a
    · subst here
      simp [AList.lookup_insert]
    · rw [AList.lookup_insert_ne (by simp [here])]
      simp [here]

theorem payRewards_paid (low : n < 256) {payments : List RewardPayment}
    (each : ∀ p ∈ payments, 0 ≤ p.2.toInt)
    (own : ∀ p ∈ payments, (s.ledger.entryAt (n, p.1)).address = p.1) :
    ∃ l', payRewards env block n payments s = .ok () { s with ledger := l' } ∧
      Paid block.height (env.clock block.height) n payments s.ledger l' := by
  induction payments generalizing s with
  | nil => exact ⟨s.ledger, rfl, .refl⟩
  | cons p rest ih =>
    obtain ⟨l₁, given, paid⟩ : ∃ l₁, giveReward env block n p.1 p.2 s =
        .ok () { s with ledger := l₁ } ∧ Paid block.height (env.clock block.height) n
          [(p.1, p.2)] s.ledger l₁ :=
      giveReward_paid low (own p List.mem_cons_self) (each p List.mem_cons_self)
    obtain ⟨l', run, paid'⟩ := ih (s := { s with ledger := l₁ })
      (fun q member => each q (List.mem_cons_of_mem _ member))
      fun q member => (paid.address q.1).trans (own q (List.mem_cons_of_mem _ member))
    exact ⟨l', (bind_of_ok given).trans run, paid.trans paid'⟩

/-- The product of reward and percentage does not wrap to a number that is negative after the
division. -/
def ShareFits (reward : Int64) (percentage : Int16) : Prop :=
  -1000 < (reward.toInt * percentage.toInt).bmod (2 ^ 64)

instance (reward : Int64) (percentage : Int16) : Decidable (ShareFits reward percentage) :=
  inferInstanceAs (Decidable (_ < _))

section OperatorPart
variable {reward : Int64} {percentage : Int16}

theorem operatorReward_nonneg_iff :
    0 ≤ (reward * percentage.toInt64 / 1000).toInt ↔ ShareFits reward percentage := by
  rw [toInt_operatorReward, ShareFits]
  generalize (reward.toInt * percentage.toInt).bmod (2 ^ 64) = p
  have quotient := tdiv_cases p 1000
  omega

theorem operatorReward_le_exact (hr : 0 ≤ reward.toInt) (hp : 0 ≤ percentage.toInt) :
    (reward * percentage.toInt64 / 1000).toInt ≤ reward.toInt * percentage.toInt / 1000 := by
  have product : 0 ≤ reward.toInt * percentage.toInt := Int.mul_nonneg hr hp
  rw [toInt_operatorReward]
  have less : (reward.toInt * percentage.toInt).bmod (2 ^ 64) ≤ reward.toInt * percentage.toInt := by
    rw [Int.bmod_def]
    split <;> omega
  generalize (reward.toInt * percentage.toInt).bmod (2 ^ 64) = p at less ⊢
  have quotient := tdiv_cases p 1000
  omega

theorem exact_operatorReward_le (hr : 0 ≤ reward.toInt) (hp : percentage.toInt ≤ 500) :
    reward.toInt * percentage.toInt / 1000 ≤ reward.toInt := by
  have most : reward.toInt * percentage.toInt ≤ reward.toInt * 500 :=
    Int.mul_le_mul_of_nonneg_left hp hr
  omega

end OperatorPart

/-- A staking state from which a reward can be shared out: the entries are filed under their
addresses, the operator has one, no stake is negative and the stakes add up to a positive word. -/
structure Rewardable (block : Block) (n : Nat) (l : Ledger) : Prop where
  delegated : intDelegatedAccountFromAddress block.delegatedAccount = some n
  id : 1 ≤ n ∧ n ≤ 255
  filed : ∀ key e, l.staking.lookup key = some e → e.address = key.2
  operator : (l.entryAt (n, block.operatorAccount.byteValue)).address =
    block.operatorAccount.byteValue
  stakes : ∀ a, 0 ≤ (l.entryAt (n, a)).stakedBalance.toInt
  positive : 0 < ((l.shard n).map (·.stakedBalance.toInt)).sum
  fits : ((l.shard n).map (·.stakedBalance.toInt)).sum < 2 ^ 63

theorem Ledger.staked_candidates (filed : ∀ key e, l.staking.lookup key = some e → e.address = key.2)
    (n : Nat) : (l.getStakedInDelegatedAccount n).1 =
      (l.candidates n).map fun c => (c.1, c.2.1) := by
  unfold getStakedInDelegatedAccount candidates shard shardEntries
  simp only [List.map_map]
  refine map_congr_left fun e member => ?_
  have own := filed e.1 e.2 (AList.mem_lookup_iff.mpr (List.mem_filter.mp member).1)
  exact Prod.ext own rfl

theorem Ledger.sum_candidates (l : Ledger) (n : Nat) : (l.getStakedInDelegatedAccount n).2.1 =
    (l.candidates n).foldl (fun sum c => sum + c.2.1) 0 := by
  unfold getStakedInDelegatedAccount candidates shard shardEntries
  simp only [foldl_map]
  rfl

theorem Ledger.sum_staked (l : Ledger) (n : Nat) :
    ((l.getStakedInDelegatedAccount n).1.map (·.2.toInt)).sum =
      ((l.shard n).map (·.stakedBalance.toInt)).sum := by
  unfold getStakedInDelegatedAccount
  rw [List.map_map]
  rfl

theorem Rewardable.shard_nonneg (rewardable : Rewardable block n l) :
    ∀ e ∈ l.shard n, 0 ≤ e.stakedBalance.toInt := by
  intro e member
  obtain ⟨⟨⟨m, a⟩, entry⟩, inside, rfl⟩ := List.mem_map.mp member
  obtain ⟨stored, number⟩ := List.mem_filter.mp inside
  obtain rfl : m = n := beq_iff_eq.mp number
  have stake := rewardable.stakes a
  rw [entryAt, AList.mem_lookup_iff.mpr stored] at stake
  exact stake

theorem Rewardable.sum (rewardable : Rewardable block n l) :
    (l.getStakedInDelegatedAccount n).2.1.toInt =
      ((l.shard n).map (·.stakedBalance.toInt)).sum := by
  have sum := toInt_foldl_add (·.stakedBalance) (l.shard n) 0 rewardable.shard_nonneg (by simp)
    (by rw [toInt_zero, Int.zero_add]; exact rewardable.fits)
  rw [toInt_zero, Int.zero_add] at sum
  exact sum

theorem Rewardable.staked_nonneg (rewardable : Rewardable block n l) :
    ∀ e ∈ (l.getStakedInDelegatedAccount n).1, 0 ≤ e.2.toInt := by
  intro e member
  obtain ⟨entry, inside, rfl⟩ := List.mem_map.mp member
  exact rewardable.shard_nonneg entry inside

theorem Rewardable.addUp (rewardable : Rewardable block n l) :
    StakesAddUp (l.getStakedInDelegatedAccount n).2.1 (l.getStakedInDelegatedAccount n).1 where
  positive := rewardable.sum ▸ rewardable.positive
  stakes := rewardable.staked_nonneg
  whole := (l.sum_staked n).trans rewardable.sum.symm

theorem mem_rewardPayments {operator : AddressBytes} {reward sum : Int64} {percentage : Int16}
    {staked : List (AddressBytes × Int64)} {p : RewardPayment}
    (member : p ∈ rewardPayments operator reward percentage sum staked) :
    p.1 = operator ∨ ∃ e ∈ staked, p.1 = e.1 := by
  unfold rewardPayments at member
  dsimp only at member
  rcases List.mem_append.mp member with first | last
  · rcases List.mem_cons.mp first with rfl | user
    · exact .inl rfl
    · obtain ⟨e, inside, rfl⟩ := List.mem_map.mp user
      exact .inr ⟨e, List.mem_of_mem_filter inside, rfl⟩
  · split at last
    · rw [List.mem_singleton.mp last]
      exact .inl rfl
    · simp at last

section Distribution
variable (rewardable : Rewardable block n s.ledger) {reward : Int64} (hr : 0 ≤ reward.toInt)
include rewardable

theorem rewardBlock_eq (capped : block.rewardPercentage.toInt ≤ 500) (reward : Int64) :
    rewardBlock env block reward s = distributeReward env block n reward
      (s.ledger.getStakedInDelegatedAccount n).2.1 (s.ledger.getStakedInDelegatedAccount n).1 s := by
  have id := rewardable.id
  have positive := rewardable.positive
  rw [← rewardable.sum] at positive
  have percentage : ¬ (500 : Int16) < block.rewardPercentage := by
    rw [Int16.lt_iff_toInt_lt]
    exact Int.not_lt.mpr capped
  unfold rewardBlock
  simp only [rewardable.delegated]
  rw [failIf_bind, if_neg (by omega), get_bind_run, failIf_bind, if_neg, failIf_bind,
    if_neg percentage]
  rw [le_iff, toInt_zero]
  exact Int.not_le.mpr positive

theorem rewardBlock_refused (capped : block.rewardPercentage.toInt ≤ 500)
    (part : ¬ ShareFits reward block.rewardPercentage) :
    rewardBlock env block reward s = .error .rewardNegative s := by
  have negative := mt operatorReward_nonneg_iff.mp part
  have low : n < 256 := by have := rewardable.id; omega
  have own := rewardable.operator
  rw [← stakingAccount_eq_entryAt s.ledger _ low] at own
  have refused : giveReward env block n block.operatorAccount.byteValue
      (reward * block.rewardPercentage.toInt64 / 1000) s = .error .rewardNegative s := by
    have below : reward * block.rewardPercentage.toInt64 / 1000 < 0 := by
      rw [lt_iff, toInt_zero]
      omega
    have run : s.ledger.reward block.operatorAccount.byteValue
        (reward * block.rewardPercentage.toInt64 / 1000) block.height (env.clock block.height) n =
        .error .rewardNegative := by
      unfold Ledger.reward
      rw [if_neg (not_not.mpr own), if_pos below]
    unfold giveReward liftLedger
    rw [get_bind_run]
    simp only [run]
    rfl
  rw [rewardBlock_eq rewardable capped, distributeReward]
  exact bind_of_error refused

include hr

theorem rewardBlock_paid (capped : block.rewardPercentage.toInt ≤ 500)
    (least : 0 ≤ block.rewardPercentage.toInt) (part : ShareFits reward block.rewardPercentage) :
    ∃ payments l', payments = rewardPayments block.operatorAccount.byteValue reward
        block.rewardPercentage (s.ledger.getStakedInDelegatedAccount n).2.1
        (s.ledger.getStakedInDelegatedAccount n).1 ∧
      rewardBlock env block reward s = .ok () { s with ledger := l' } ∧
      Paid block.height (env.clock block.height) n payments s.ledger l' ∧
      (payments.map (·.2.toInt)).sum = reward.toInt ∧ ∀ p ∈ payments, 0 ≤ p.2.toInt := by
  have partLe := Int.le_trans (operatorReward_le_exact hr least) (exact_operatorReward_le hr capped)
  obtain ⟨each, total, -⟩ := rewardPayments_spec rewardable.addUp partLe
    block.operatorAccount.byteValue (operatorReward_nonneg_iff.mpr part)
  have own : ∀ p ∈ rewardPayments block.operatorAccount.byteValue reward block.rewardPercentage
      (s.ledger.getStakedInDelegatedAccount n).2.1 (s.ledger.getStakedInDelegatedAccount n).1,
      (s.ledger.entryAt (n, p.1)).address = p.1 := by
    intro p member
    rcases mem_rewardPayments member with operator | ⟨e, staker, same⟩
    · rw [operator]
      exact rewardable.operator
    · rw [staked_candidates rewardable.filed, candidates, List.map_map] at staker
      obtain ⟨⟨a, entry⟩, inside, rfl⟩ := List.mem_map.mp staker
      have found := mem_shardEntries.mp inside
      rw [same, entryAt]
      exact (congrArg (fun x => (x.getD {}).address) found).trans (rewardable.filed _ _ found)
  have low : n < 256 := by
    have := rewardable.id
    omega
  obtain ⟨l', run, paid⟩ : ∃ l', payRewards env block n _ s = .ok () { s with ledger := l' } ∧ _ :=
    payRewards_paid low each own
  refine ⟨_, l', rfl, ?_, paid, total, each⟩
  rw [rewardBlock_eq rewardable capped, distributeReward_eq rewardable.addUp partLe rfl]
  exact run

end Distribution

theorem Rewardable.same (rewardable : Rewardable block n l) (same : l.SameEntries l') :
    Rewardable block n l' := by
  have stakes : ((l'.shard n).map (·.stakedBalance.toInt)).Perm
      ((l.shard n).map (·.stakedBalance.toInt)) := by
    have perm : (l'.candidates n).Perm (l.candidates n) :=
      candidates_perm (fun k => by rw [same k]) n
    have reads : ∀ m : Ledger, (m.shard n).map (·.stakedBalance.toInt) =
        (m.candidates n).map (·.2.1.toInt) := by
      intro m
      unfold candidates shardEntries shard
      simp only [List.map_map]
      rfl
    rw [reads, reads]
    exact perm.map _
  have entries : ∀ key, l'.entryAt key = l.entryAt key := fun key => by
    rw [entryAt, same]
    rfl
  exact
    { delegated := rewardable.delegated
      id := rewardable.id
      filed := fun key e found => rewardable.filed key e (by rw [← same key]; exact found)
      operator := by rw [entries]; exact rewardable.operator
      stakes := fun a => by rw [entries]; exact rewardable.stakes a
      positive := by rw [stakes.sum_eq]; exact rewardable.positive
      fits := by rw [stakes.sum_eq]; exact rewardable.fits }

theorem rewardPayments_same (filed : ∀ key e, l.staking.lookup key = some e → e.address = key.2)
    (same : l.SameEntries l') (operator : AddressBytes) (reward : Int64) (percentage : Int16)
    (a : AddressBytes) :
    (rewardPayments operator reward percentage (l'.getStakedInDelegatedAccount n).2.1
        (l'.getStakedInDelegatedAccount n).1).filter (fun p => p.1 == a) =
      (rewardPayments operator reward percentage (l.getStakedInDelegatedAccount n).2.1
        (l.getStakedInDelegatedAccount n).1).filter fun p => p.1 == a := by
  have perm : (l'.candidates n).Perm (l.candidates n) :=
    candidates_perm (fun k => by rw [same k]) n
  have staked : (l'.getStakedInDelegatedAccount n).1.Perm (l.getStakedInDelegatedAccount n).1 := by
    rw [staked_candidates filed, staked_candidates fun key e found =>
      filed key e (by rw [← same key]; exact found)]
    exact perm.map _
  have sum : (l'.getStakedInDelegatedAccount n).2.1 = (l.getStakedInDelegatedAccount n).2.1 := by
    rw [sum_candidates, sum_candidates]
    refine perm.foldl_eq' (fun x _ y _ sum => ?_) 0
    rw [Int64.add_assoc, Int64.add_assoc, Int64.add_comm y.2.1]
  have users : ∀ r s, (userPayments r s (l'.getStakedInDelegatedAccount n).1).Perm
      (userPayments r s (l.getStakedInDelegatedAccount n).1) :=
    fun r s => (staked.filter _).map _
  have distinct : ∀ r s, ((userPayments r s (l.getStakedInDelegatedAccount n).1).map
      Prod.fst).Nodup := by
    intro r s
    have addresses : ((l.getStakedInDelegatedAccount n).1.map Prod.fst).Nodup := by
      rw [staked_candidates filed, candidates, List.map_map, List.map_map]
      exact nodup_shardEntries l n
    rw [userPayments, List.map_map]
    exact addresses.sublist (List.filter_sublist.map _)
  unfold rewardPayments
  dsimp only
  rw [sum, ((users _ _).map _).sum_eq, filter_append, filter_append, List.filter_cons,
    List.filter_cons, filter_key_of_perm (users _ _) (distinct _ _)]

end QwidNode.Source

import QwidNode.Source.Coins

/-!
# The block reward, the EVM pass and the supply the source adds up

`GetSupplyInAccounts` and its siblings add `int64` values without an overflow check. On a
non-negative ledger whose coins fit they give the exact sums.
-/
namespace QwidNode.Source
open Lib Ledger Word FinMap
variable {σ : Type} {env : Env σ} {s t u : Node σ} {l : Ledger}

theorem toInt_foldl_add {α : Type} (f : α → Int64) (items : List α) (start : Int64)
    (nonneg : ∀ a ∈ items, 0 ≤ (f a).toInt) (begin : 0 ≤ start.toInt)
    (fits : start.toInt + (items.map fun a => (f a).toInt).sum < 2 ^ 63) :
    (items.foldl (fun sum a => sum + f a) start).toInt =
      start.toInt + (items.map fun a => (f a).toInt).sum := by
  induction items generalizing start with
  | nil => simp
  | cons a rest ih =>
    have first := nonneg a List.mem_cons_self
    have others : ∀ b ∈ rest, 0 ≤ (f b).toInt := fun b member =>
      nonneg b (List.mem_cons_of_mem a member)
    have tail : 0 ≤ (rest.map fun a => (f a).toInt).sum := List.sum_nonneg (by simpa using others)
    rw [List.map_cons, List.sum_cons] at fits ⊢
    have next : (start + f a).toInt = start.toInt + (f a).toInt :=
      toInt_add_of_fits (by omega) (by omega)
    rw [List.foldl_cons, ih (start + f a) others (by omega) (by omega), next]
    omega

theorem toInt_calculatedSupply {reward fee : Int64} (nonneg : l.NonNeg) (hr : 0 ≤ reward.toInt)
    (hf : 0 ≤ fee.toInt) (fits : l.coins + reward.toInt + fee.toInt < 2 ^ 63) :
    (calculatedSupply l reward fee).toInt = l.coins + reward.toInt + fee.toInt := by
  have sums := nonneg.sum_nonneg
  simp only [coins, sumOf] at fits sums ⊢
  have accounts : l.getSupplyInAccounts.toInt =
      ((values l.accounts).map (·.balance.toInt)).sum := by
    have sum := toInt_foldl_add (·.balance) (values l.accounts) 0 nonneg.balance
      (by simp) (by simp only [toInt_zero]; omega)
    simpa [getSupplyInAccounts] using sum
  have stakes : l.getSupplyInStakedAccounts.1.toInt =
      ((values l.staking).map (·.stakedBalance.toInt)).sum := by
    have sum := toInt_foldl_add (·.stakedBalance) (values l.staking) 0 nonneg.stake
      (by simp) (by simp only [toInt_zero]; omega)
    simpa [getSupplyInStakedAccounts] using sum
  have rewards : l.getSupplyInStakedAccounts.2.toInt =
      ((values l.staking).map (·.stakingRewards.toInt)).sum := by
    have sum := toInt_foldl_add (·.stakingRewards) (values l.staking) 0 nonneg.reward
      (by simp) (by simp only [toInt_zero]; omega)
    simpa [getSupplyInStakedAccounts] using sum
  have two : (l.getSupplyInAccounts + l.getSupplyInStakedAccounts.1).toInt = _ :=
    toInt_add_of_fits (by omega) (by omega)
  have three : (l.getSupplyInAccounts + l.getSupplyInStakedAccounts.1 +
      l.getSupplyInStakedAccounts.2).toInt = _ := toInt_add_of_fits (by omega) (by omega)
  have four : (l.getSupplyInAccounts + l.getSupplyInStakedAccounts.1 +
      l.getSupplyInStakedAccounts.2 + reward).toInt = _ :=
    toInt_add_of_fits (by omega) (by omega)
  have five : (calculatedSupply l reward fee).toInt = _ :=
    toInt_add_of_fits (a := l.getSupplyInAccounts + l.getSupplyInStakedAccounts.1 +
      l.getSupplyInStakedAccounts.2 + reward) (b := fee) (by omega) (by omega)
  omega

theorem getReward_range (supply : Int64) :
    0 ≤ (getReward supply).toInt ∧ (getReward supply).toInt < 2 ^ 38 := by
  unfold getReward
  simp only
  split
  · exact ⟨by decide, by decide⟩
  · have ratio : Common.rewardRatioPerE10.toInt.toNat = 200 := by decide
    have bound := (toInt_range (Common.maxTotalSupply - supply)).2
    rw [ratio]
    have small : ((Common.maxTotalSupply - supply).toInt.toNat * 200 + 5000000000) / 10000000000 <
        2 ^ 38 := by omega
    rw [Int64.toInt_ofNat_of_lt (by omega)]
    omega

theorem getReward_of_max {supply : Int64} (reached : Common.maxTotalSupply.toInt ≤ supply.toInt) :
    getReward supply = 0 := by
  unfold getReward
  rw [if_pos]
  left
  have most : Common.maxTotalSupply.toInt = 230000000000000000 := by decide
  have range := toInt_range supply
  rw [le_iff, toInt_zero, toInt_sub_of_fits (by omega) (by omega)]
  omega

abbrev RewardPayment := AddressBytes × Int64

section Payments
variable {block : Block} {n : Nat}

def payRewards (env : Env σ) (block : Block) (n : Nat) (payments : List RewardPayment) : NodeM σ Unit :=
  payments.forM fun p => giveReward env block n p.1 p.2

theorem payRewards_append (payments later : List RewardPayment) :
    payRewards env block n (payments ++ later) =
      payRewards env block n payments >>= fun _ => payRewards env block n later := by
  induction payments with
  | nil => rfl
  | cons p rest ih =>
    change (giveReward env block n p.1 p.2 >>= fun _ => payRewards env block n (rest ++ later)) =
      (giveReward env block n p.1 p.2 >>= fun _ => payRewards env block n rest) >>= _
    rw [ih, bind_assoc]

theorem giveReward_gains {a : AddressBytes} {amount : Int64}
    (low : n < 256) (bounded : s.ledger.coins + amount.toInt < 2 ^ 63)
    (run : giveReward env block n a amount s = .ok () t) :
    Gains amount.toInt s t ∧ 0 ≤ amount.toInt := by
  obtain ⟨l, given, rfl⟩ := liftLedger_eq_ok.mp run
  have called : (StakingCall.reward a amount block.height (env.clock block.height) n).run
      s.ledger = .ok l := given
  obtain ⟨new, writes⟩ := StakingCall.writes_of_ok called
  refine ⟨((StakingCall.reward a amount block.height (env.clock block.height) n).earns_of_ok low
    called fun nonneg => ?_).1.of_eq (Int.zero_add _), writes.turns.checked⟩
  have known := (nonneg.entryAt (n, a)).2.2.2
  have sums := nonneg.sum_nonneg
  simp only [coins] at bounded
  refine ⟨fun none => (lt_irrefl 0 none).elim, fun _ => ?_⟩
  change (s.ledger.entryAt (n, a)).stakingRewards.toInt + amount.toInt < _
  omega

theorem giveReward_nonneg {a : AddressBytes} {amount : Int64}
    (run : giveReward env block n a amount s = .ok () t) : 0 ≤ amount.toInt := by
  obtain ⟨l, given, -⟩ := liftLedger_eq_ok.mp run
  obtain ⟨new, writes⟩ := StakingCall.writes_of_ok
    (show (StakingCall.reward a amount block.height (env.clock block.height) n).run s.ledger = _
      from given)
  exact writes.turns.checked

theorem payRewards_nonneg {payments : List RewardPayment} (run : payRewards env block n payments s =
    .ok () t) :
    ∀ p ∈ payments, 0 ≤ p.2.toInt := by
  induction payments generalizing s with
  | nil => simp
  | cons p rest ih =>
    obtain ⟨_, u, given, later⟩ := bind_eq_ok.mp run
    intro q member
    rcases List.mem_cons.mp member with rfl | inside
    · exact giveReward_nonneg given
    · exact ih later q inside

theorem payRewards_gains (low : n < 256) {payments : List RewardPayment} (nonneg : s.ledger.NonNeg)
    (bounded : s.ledger.coins + (payments.map (·.2.toInt)).sum < 2 ^ 63)
    (run : payRewards env block n payments s = .ok () t) :
    t.ledger.NonNeg ∧ t.ledger.coins = s.ledger.coins + (payments.map (·.2.toInt)).sum := by
  induction payments generalizing s with
  | nil =>
    cases run
    exact ⟨nonneg, by simp⟩
  | cons p rest ih =>
    have each := payRewards_nonneg run
    obtain ⟨_, u, given, later⟩ := bind_eq_ok.mp run
    have tail : 0 ≤ (rest.map (·.2.toInt)).sum := by
      refine List.sum_nonneg fun x member => ?_
      obtain ⟨q, inside, rfl⟩ := List.mem_map.mp member
      exact each q (List.mem_cons_of_mem _ inside)
    rw [List.map_cons, List.sum_cons] at bounded ⊢
    obtain ⟨gains, -⟩ := giveReward_gains low (by omega) given
    obtain ⟨nonneg', coins'⟩ := gains nonneg
    obtain ⟨nonnegT, coinsT⟩ := ih nonneg' (by omega) later
    exact ⟨nonnegT, by omega⟩

def userPayments (reward sum : Int64) (staked : List (AddressBytes × Int64)) : List RewardPayment :=
  (staked.filter fun e => decide (0 < e.2)).map fun e => (e.1, userReward reward sum e.2)

theorem toInt_userReward {reward sum balance : Int64} (hr : 0 ≤ reward.toInt)
    (hs : 0 < sum.toInt) (hb : 0 ≤ balance.toInt) (le : balance.toInt ≤ sum.toInt) :
    (userReward reward sum balance).toInt = reward.toInt * balance.toInt / sum.toInt := by
  have range := toInt_range reward
  have quotient : 0 ≤ reward.toInt * balance.toInt / sum.toInt :=
    Int.ediv_nonneg (Int.mul_nonneg hr hb) (by omega)
  have small : reward.toInt * balance.toInt / sum.toInt ≤ reward.toInt :=
    Int.ediv_le_of_le_mul hs (Int.mul_le_mul_of_nonneg_left le hr)
  unfold userReward
  rw [Int64.toInt_ofInt_of_le (by omega) (by omega)]

theorem stake_le_sum {staked : List (AddressBytes × Int64)} (stakes : ∀ e ∈ staked, 0 ≤ e.2.toInt)
    {e : AddressBytes × Int64} (member : e ∈ staked) :
    e.2.toInt ≤ (staked.map (·.2.toInt)).sum := by
  refine List.single_le_sum (fun x inside => ?_) _ (List.mem_map_of_mem member)
  obtain ⟨c, listed, rfl⟩ := List.mem_map.mp inside
  exact stakes c listed

theorem rewardUsers_eq (reward sum : Int64) (staked : List (AddressBytes × Int64)) (rest : Int64) :
    rewardUsers env block n reward sum staked rest = payRewards env block n
      (userPayments reward sum staked) >>= fun _ =>
        pure ((userPayments reward sum staked).foldl (fun left p => left - p.2) rest) := by
  induction staked generalizing rest with
  | nil => rfl
  | cons e staked ih =>
    obtain ⟨a, balance⟩ := e
    unfold rewardUsers userPayments
    split
    · next positive =>
      rw [List.filter_cons_of_pos (by simpa using positive), ih, ← bind_assoc]
      rfl
    · next zero =>
      rw [List.filter_cons_of_neg (by simpa using zero), ih]
      rfl

theorem userPayments_rest {reward sum : Int64} (hr : 0 ≤ reward.toInt) (hs : 0 < sum.toInt)
    (staked : List (AddressBytes × Int64)) (rest : Int64)
    (stakes : ∀ e ∈ staked, 0 ≤ e.2.toInt)
    (within : (staked.map (·.2.toInt)).sum ≤ sum.toInt)
    (covered : reward.toInt * (staked.map (·.2.toInt)).sum ≤ sum.toInt * rest.toInt) :
    (∀ p ∈ userPayments reward sum staked, 0 ≤ p.2.toInt) ∧
      0 ≤ ((userPayments reward sum staked).foldl (fun left p => left - p.2) rest).toInt ∧
      ((userPayments reward sum staked).foldl (fun left p => left - p.2) rest).toInt =
        rest.toInt - ((userPayments reward sum staked).map (·.2.toInt)).sum := by
  induction staked generalizing rest with
  | nil =>
    simp only [List.map_nil, List.sum_nil, Int.mul_zero] at covered
    exact ⟨by simp [userPayments], Int.nonneg_of_mul_nonneg_right covered hs,
      (Int.sub_zero _).symm⟩
  | cons e staked ih =>
    obtain ⟨a, balance⟩ := e
    have first : 0 ≤ balance.toInt := stakes _ List.mem_cons_self
    have others : ∀ e ∈ staked, 0 ≤ e.2.toInt := fun e member =>
      stakes e (List.mem_cons_of_mem _ member)
    have tail : 0 ≤ (staked.map (·.2.toInt)).sum := by
      refine List.sum_nonneg fun x member => ?_
      obtain ⟨e, inside, rfl⟩ := List.mem_map.mp member
      exact others e inside
    simp only [List.map_cons, List.sum_cons] at within covered
    unfold userPayments
    by_cases positive : 0 < balance
    · have value := toInt_userReward hr hs first (by omega)
      have product : 0 ≤ reward.toInt * balance.toInt := Int.mul_nonneg hr first
      have part : 0 ≤ (userReward reward sum balance).toInt :=
        value ▸ Int.ediv_nonneg product (by omega)
      have small : sum.toInt * (userReward reward sum balance).toInt ≤
          reward.toInt * balance.toInt := value ▸ Int.mul_ediv_self_le (by omega)
      rw [Int.mul_add] at covered
      have later : 0 ≤ reward.toInt * (staked.map (·.2.toInt)).sum := Int.mul_nonneg hr tail
      -- the part is covered by what is left
      have le : (userReward reward sum balance).toInt ≤ rest.toInt := by
        refine Int.le_of_mul_le_mul_left ?_ hs
        omega
      have range := toInt_range rest
      have left : (rest - userReward reward sum balance).toInt =
          rest.toInt - (userReward reward sum balance).toInt :=
        toInt_sub_of_fits (by omega) (by omega)
      obtain ⟨each, nonneg, total⟩ := ih (rest - userReward reward sum balance) others (by omega)
        (by rw [left, Int.mul_sub]; omega)
      rw [List.filter_cons_of_pos (by simpa using positive)]
      simp only [List.map_cons, List.foldl_cons, List.sum_cons, List.forall_mem_cons]
      unfold userPayments at each nonneg total
      exact ⟨⟨part, each⟩, nonneg, by omega⟩
    · rw [List.filter_cons_of_neg (by simpa using positive)]
      rw [lt_iff, toInt_zero] at positive
      have none : balance.toInt = 0 := by omega
      rw [none, Int.zero_add] at covered
      exact ih rest others (by omega) covered

def rewardPayments (operator : AddressBytes) (reward : Int64) (percentage : Int16) (sum : Int64)
    (staked : List (AddressBytes × Int64)) : List RewardPayment :=
  let rewardOper := reward * percentage.toInt64 / 1000
  let users := userPayments (reward - rewardOper) sum staked
  let rest := (reward - rewardOper).toInt - (users.map (·.2.toInt)).sum
  (operator, rewardOper) :: users ++ if 0 < rest then [(operator, Int64.ofInt rest)] else []

theorem toInt_operatorReward (reward : Int64) (percentage : Int16) :
    (reward * percentage.toInt64 / 1000).toInt =
      ((reward.toInt * percentage.toInt).bmod (2 ^ 64)).tdiv 1000 := by
  have product : (reward * percentage.toInt64).toInt =
      (reward.toInt * percentage.toInt).bmod (2 ^ 64) := by
    rw [Int64.toInt_mul, Int16.toInt_toInt64]
  have thousand : (1000 : Int64).toInt = 1000 := by decide
  have range := toInt_range (reward * percentage.toInt64)
  rw [Int64.toInt_div, product, thousand]
  rw [product] at range
  have quotient := tdiv_cases ((reward.toInt * percentage.toInt).bmod (2 ^ 64)) 1000
  exact Int.bmod_eq_of_le (by omega) (by omega)

/-- The staked amounts and the sum `GetStakedInDelegatedAccount` returns fit together. -/
structure StakesAddUp (sum : Int64) (staked : List (AddressBytes × Int64)) : Prop where
  positive : 0 < sum.toInt
  stakes : ∀ e ∈ staked, 0 ≤ e.2.toInt
  whole : (staked.map (·.2.toInt)).sum = sum.toInt

section Distribution
variable {reward sum : Int64} {staked : List (AddressBytes × Int64)} {percentage : Int16}
  (adds : StakesAddUp sum staked)
  (partLe : (reward * percentage.toInt64 / 1000).toInt ≤ reward.toInt)
include adds partLe

theorem rewardPayments_spec (operator : AddressBytes)
    (part : 0 ≤ (reward * percentage.toInt64 / 1000).toInt) :
    (∀ p ∈ rewardPayments operator reward percentage sum staked, 0 ≤ p.2.toInt) ∧
      ((rewardPayments operator reward percentage sum staked).map (·.2.toInt)).sum =
        reward.toInt ∧
      ∃ left, ¬ left < 0 ∧ left = (userPayments (reward - reward * percentage.toInt64 / 1000) sum
          staked).foldl (fun left p => left - p.2) (reward - reward * percentage.toInt64 / 1000) ∧
        rewardPayments operator reward percentage sum staked =
          (operator, reward * percentage.toInt64 / 1000) ::
            (userPayments (reward - reward * percentage.toInt64 / 1000) sum staked ++
              if 0 < left then [(operator, left)] else []) := by
  unfold rewardPayments
  generalize reward * percentage.toInt64 / 1000 = rewardOper at partLe part ⊢
  have users : (reward - rewardOper).toInt = reward.toInt - rewardOper.toInt := by
    have range := toInt_range reward
    exact toInt_sub_of_fits (by omega) (by omega)
  obtain ⟨each, nonneg, total⟩ := userPayments_rest
    (show 0 ≤ (reward - rewardOper).toInt by omega) adds.positive staked (reward - rewardOper)
      adds.stakes (le_of_eq adds.whole)
    (by rw [adds.whole, Int.mul_comm])
  dsimp only
  rw [← total]
  generalize (userPayments (reward - rewardOper) sum staked).foldl (fun left p => left - p.2)
    (reward - rewardOper) = left at nonneg total ⊢
  have positive : 0 < left.toInt ↔ 0 < left := by rw [lt_iff, toInt_zero]
  rw [Int64.ofInt_toInt, if_congr positive rfl rfl]
  refine ⟨?_, ?_, left, ?_, rfl, rfl⟩
  · rw [List.cons_append, List.forall_mem_cons, List.forall_mem_append]
    refine ⟨part, each, ?_⟩
    split
    · simpa using nonneg
    · simp
  · rw [List.cons_append, List.map_cons, List.sum_cons, List.map_append, List.sum_append]
    split
    · simp only [List.map_cons, List.map_nil, List.sum_cons, List.sum_nil]
      omega
    · next none =>
      rw [← positive] at none
      simp only [List.map_nil, List.sum_nil]
      omega
  · rw [lt_iff, toInt_zero]
    omega

theorem distributeReward_eq (rate : block.rewardPercentage = percentage) (s : Node σ) :
    distributeReward env block n reward sum staked s = payRewards env block n (rewardPayments
      block.operatorAccount.byteValue reward percentage sum staked) s := by
  unfold distributeReward
  rw [rate]
  cases given : giveReward env block n block.operatorAccount.byteValue
      (reward * percentage.toInt64 / 1000) s with
  | error e u =>
    -- a refused operator's part is the first payment too
    rw [bind_of_error given]
    exact (bind_of_error given).symm
  | ok _ u =>
    obtain ⟨-, -, left, covered, rest, payments⟩ :=
      rewardPayments_spec adds partLe block.operatorAccount.byteValue (giveReward_nonneg given)
    have first : ∀ later, payRewards env block n ((block.operatorAccount.byteValue,
        reward * percentage.toInt64 / 1000) :: later) s = payRewards env block n later u :=
      fun _ => bind_of_ok given
    rw [payments, first, bind_of_ok given, rewardUsers_eq, bind_assoc, ← rest, payRewards_append]
    refine congrArg (fun f => (payRewards env block n _ >>= f) u) (funext fun _ => ?_)
    rw [pure_bind]
    split
    · exact (bind_pure_unit (x := giveReward env block n _ left)).symm
    · rw [failIf, if_neg covered]
      rfl

end Distribution
end Payments

theorem getStakedInDelegatedAccount_exact (nonneg : l.NonNeg) (bounded : l.coins < 2 ^ 63)
    (n : Nat) :
    (∀ entry ∈ (l.getStakedInDelegatedAccount n).1, 0 ≤ entry.2.toInt) ∧
      (l.getStakedInDelegatedAccount n).2.1.toInt =
        ((l.getStakedInDelegatedAccount n).1.map (·.2.toInt)).sum := by
  have sub : (l.shard n).Sublist (values l.staking) := List.filter_sublist.map _
  have stakes : ∀ acc ∈ l.shard n, 0 ≤ acc.stakedBalance.toInt := fun acc member =>
    nonneg.stake acc (sub.subset member)
  have le : ((l.shard n).map (·.stakedBalance.toInt)).sum ≤
      sumOf (·.stakedBalance.toInt) l.staking := by
    refine (sub.map _).sum_le_sum fun x member => ?_
    obtain ⟨acc, inside, rfl⟩ := List.mem_map.mp member
    exact nonneg.stake acc inside
  have sums := nonneg.sum_nonneg
  constructor
  · intro entry member
    obtain ⟨acc, inside, rfl⟩ := List.mem_map.mp member
    exact stakes acc inside
  · have sum := toInt_foldl_add (·.stakedBalance) (l.shard n) 0 stakes (by simp) (by
      simp only [coins] at bounded
      simp only [toInt_zero]
      omega)
    simpa [getStakedInDelegatedAccount, Function.comp_def] using sum

theorem stakesAddUp_of_nonNeg (nonneg : l.NonNeg) (bounded : l.coins < 2 ^ 63) {n : Nat}
    (positive : 0 < (l.getStakedInDelegatedAccount n).2.1.toInt) :
    StakesAddUp (l.getStakedInDelegatedAccount n).2.1 (l.getStakedInDelegatedAccount n).1 :=
  have ⟨stakes, sum⟩ := getStakedInDelegatedAccount_exact nonneg bounded n
  ⟨positive, stakes, sum.symm⟩

theorem operatorReward_le {reward : Int64} {percentage : Int16} (hr : 0 ≤ reward.toInt)
    (small : reward.toInt < 2 ^ 38) (capped : ¬ 500 < percentage) :
    (reward * percentage.toInt64 / 1000).toInt ≤ reward.toInt := by
  have low : -2 ^ 15 ≤ percentage.toInt := percentage.le_toInt
  have high : percentage.toInt ≤ 500 := by
    rw [Int16.lt_iff_toInt_lt] at capped
    exact Int.not_lt.mp capped
  have upper : reward.toInt * percentage.toInt ≤ reward.toInt * 500 :=
    Int.mul_le_mul_of_nonneg_left high hr
  have lower : reward.toInt * -2 ^ 15 ≤ reward.toInt * percentage.toInt :=
    Int.mul_le_mul_of_nonneg_left low hr
  rw [toInt_operatorReward, Int.bmod_eq_of_le (by omega) (by omega)]
  have quotient := tdiv_cases (reward.toInt * percentage.toInt) 1000
  omega

theorem rewardBlock_gains {block : Block} {reward : Int64} (hr : 0 ≤ reward.toInt)
    (small : reward.toInt < 2 ^ 38) (bounded : s.ledger.coins + reward.toInt < 2 ^ 63)
    (run : rewardBlock env block reward s = .ok () t) : Gains reward.toInt s t := by
  intro nonneg
  unfold rewardBlock at run
  cases delegated : intDelegatedAccountFromAddress block.delegatedAccount with
  | none =>
    simp only [delegated] at run
    cases run
  | some n =>
    simp only [delegated, get_bind_run, failIf_bind_eq_ok] at run
    obtain ⟨range, positive, capped, run⟩ := run
    rw [le_iff, toInt_zero] at positive
    have adds := stakesAddUp_of_nonNeg nonneg (by omega) (Int.not_le.mp positive)
    have partLe := operatorReward_le hr small capped
    rw [distributeReward_eq adds partLe rfl] at run
    obtain ⟨-, total, -⟩ := rewardPayments_spec adds partLe block.operatorAccount.byteValue
      (payRewards_nonneg run _ List.mem_cons_self)
    have paid := payRewards_gains (by omega) nonneg (by rw [total]; exact bounded) run
    rwa [total] at paid

theorem gains_applyRandaoCommit (block : Block) :
    Respects (Gains 0) (applyRandaoCommit block : NodeM σ Unit) := by
  unfold applyRandaoCommit
  split
  · exact .pure _
  · split
    · exact .throw _
    · exact .bind (.failIf _ _) fun _ => gains_liftLedger fun _ _ => earns_setRandCommit

theorem earns_applyRecoveryMaintenance (block lastBlock : Block) (l : Ledger) :
    Earns 0 l (applyRecoveryMaintenance env block lastBlock l) := by
  unfold applyRecoveryMaintenance
  simp only
  split
  · have balance : ∀ acc : Account,
        (acc.voidPendingRecoveryCommit block.height).balance = acc.balance := by
      intro acc
      unfold Account.voidPendingRecoveryCommit Account.promoteMatured
      split
      · rfl
      · split <;> rfl
    intro nonneg
    refine ⟨⟨fun acc member => ?_, nonneg.stake, nonneg.reward⟩, ?_⟩
    · obtain ⟨e, inside, rfl⟩ := List.mem_map.mp member
      obtain ⟨old, stored, rfl⟩ := List.mem_map.mp inside
      simp only [balance]
      exact nonneg.balance old.2 (List.mem_map.mpr ⟨old, stored, rfl⟩)
    · have same := sumOf_mapValues (fun acc : Account => acc.balance.toInt)
        (·.voidPendingRecoveryCommit block.height) (fun acc => by rw [balance]) l.accounts
      simp only [coins, voidPendingRecoveryCommits, pruneRecoveryBinds, same]
      omega
  · exact earns_of_same rfl rfl

def Ledger.setBalances (l : Ledger) (balances : List (AddressBytes × Int64)) : Ledger :=
  balances.foldl (fun l b => l.setBalance b.1 b.2) l

def Ledger.Shrinks (l l' : Ledger) : Prop := l.NonNeg → l'.NonNeg ∧ l'.coins ≤ l.coins

structure Env.CreatesNoCoins (env : Env σ) : Prop where
  contract : ∀ evm l tx block, Ledger.Shrinks l
    (l.setBalances (env.evaluateSC evm l tx block).balances)
  dex : ∀ evm l tx q block, Ledger.Shrinks l
    (l.setBalances (env.evaluateSCDex evm l tx q block).balances)

def Shrinks (s t : Node σ) : Prop := Ledger.Shrinks s.ledger t.ledger

instance : IsPreorder (Node σ) Shrinks where
  refl _ nonneg := ⟨nonneg, Int.le_refl _⟩
  trans _ _ _ first second nonneg := by
    obtain ⟨nonneg', less⟩ := first nonneg
    obtain ⟨nonneg'', less'⟩ := second nonneg'
    exact ⟨nonneg'', by omega⟩

theorem Gains.shrinks (gains : Gains 0 s t) : Shrinks s t := by
  intro nonneg
  obtain ⟨nonneg', same⟩ := gains nonneg
  exact ⟨nonneg', by omega⟩

theorem returns_shrinks_of_gains {α : Type} {x : NodeM σ α} (gains : Respects (Gains 0) x) :
    Returns Shrinks x := fun _ _ _ run => (gains.of_ok run).shrinks

theorem returns_shrinks_modifyDb (f : Db σ → Db σ) : Returns Shrinks (modifyDb f : NodeM σ Unit) :=
  returns_shrinks_of_gains (.modify fun _ => .of_ledger rfl)

theorem returns_shrinks_record (e : Event) : Returns Shrinks (record e : NodeM σ Unit) :=
  returns_shrinks_of_gains (.modify fun _ => .of_ledger rfl)

theorem returns_shrinks_dropBad (hash : Hash) {α : Type} {e : Error} :
    Returns Shrinks (do
      modify (dropBadTransaction env hash)
      throw e : NodeM σ α) := by
  intro s a t run
  cases run

theorem returns_shrinks_settleDexOrder (block : Block) (tx : Transaction) (op : Nat)
    (q : DexQuote) : Returns Shrinks (settleDexOrder env block tx op q) := by
  intro s _ t run
  obtain ⟨_, u, first, paying⟩ := bind_eq_ok.mp run
  obtain ⟨_, v, second, finishing⟩ := bind_eq_ok.mp paying
  have twice : q.coinAmount = -(-q.coinAmount) := by rw [Int64.neg_neg]
  have credit := onError_eq_ok.mp first
  rw [twice] at credit
  have moved : Shrinks s v := (transfer_gains credit (onError_eq_ok.mp second)).shrinks
  rw [get_bind_run] at finishing
  split at finishing
  · cases finishing
    exact moved
  · cases finishing

theorem returns_shrinks_evaluateLoaded (safe : env.CreatesNoCoins) (block : Block) (p : TxPrefix)
    (tx : Transaction) : Returns Shrinks (evaluateLoaded env block p tx) := by
  have read : Returns Shrinks (get : NodeM σ (Node σ)) := Respects.returns .get
  refine .bind read fun s => ?_
  split
  · exact .pure _
  split
  · exact .pure _
  split
  · exact .pure _
  split
  · split
    · refine .bind (returns_shrinks_of_gains ?_) fun quote => ?_
      · refine .bind .get fun s => ?_
        simp only
        split
        · split
          · exact .pure _
          · refine .bind (gainsMoves.setAccountByAddressBytes _) fun _ => ?_
            split
            · exact .pure _
            · exact .pure _
        · exact .pure _
      · split
        · exact .pure _
        · next q =>
          intro s _ t run
          rw [get_bind_run] at run
          obtain ⟨_, u, applied, rest⟩ := bind_eq_ok.mp run
          have evm : Shrinks s u := by
            cases applied
            exact safe.dex s.evm s.ledger tx _ block
          refine trans_of Shrinks evm ?_
          cases outcome : (env.evaluateSCDex s.evm s.ledger tx q block).outcome with
          | executionError logs =>
            simp only [outcome] at rest
            cases rest
            exact refl_of Shrinks _
          | nodeError =>
            simp only [outcome] at rest
            exact returns_shrinks_dropBad tx.hash _ _ _ rest
          | success contract logs =>
            simp only [outcome] at rest
            exact Returns.bind (returns_shrinks_modifyDb _)
              (fun _ => returns_shrinks_settleDexOrder block tx _ _) _ _ _ rest
    · exact .pure _
  · split
    · exact .pure _
    · refine .bind (returns_shrinks_record _) fun _ => ?_
      intro s _ t run
      rw [get_bind_run] at run
      obtain ⟨_, u, applied, rest⟩ := bind_eq_ok.mp run
      have evm : Shrinks s u := by
        cases applied
        exact safe.contract s.evm s.ledger tx block
      refine trans_of Shrinks evm ?_
      cases outcome : (env.evaluateSC s.evm s.ledger tx block).outcome with
      | success contract logs =>
        simp only [outcome] at rest
        exact Returns.bind (returns_shrinks_record _) (fun _ => returns_shrinks_modifyDb _) _ _ _ rest
      | executionError logs =>
        simp only [outcome] at rest
        exact returns_shrinks_modifyDb _ _ _ _ rest
      | nodeError =>
        simp only [outcome] at rest
        exact returns_shrinks_dropBad tx.hash _ _ _ rest

theorem returns_shrinks_evaluateHash (safe : env.CreatesNoCoins) (block : Block) (hash : Hash) :
    Returns Shrinks (evaluateHash env block hash) := by
  have loads : ∀ p, Respects (Gains 0) (loadFromDBPoolTx env p hash) := fun p =>
    (loadFrame_loadFromDBPoolTx p hash).mono fun _ _ frame => .of_ledger frame.ledger
  refine .bind (returns_shrinks_of_gains (.attempt (loads _))) fun found => ?_
  split
  · exact returns_shrinks_evaluateLoaded safe block _ _
  · exact .bind (returns_shrinks_of_gains (loads _)) fun tx =>
      returns_shrinks_evaluateLoaded safe block _ _

end QwidNode.Source

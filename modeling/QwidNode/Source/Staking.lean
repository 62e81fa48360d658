import QwidNode.Source.Account

/-!
# Staking entries and block rewards

Source: `account/stakeAccount.go:42-347` and `:505-560`, `account/reward.go`,
`account/accountsStakingStates.go:165-176`. `Stake`, `Unstake`, `Reward` and
`WithdrawReward` check everything before they write, so a failed call leaves the
ledger unchanged and the model returns `Except`.
-/
namespace QwidNode.Source
open Lib

/-- One `StakingDetail` folded into the running aggregate of `pruneStakingDetails`. -/
def StakingDetail.fold (agg d : StakingDetail) : StakingDetail where
  amount := agg.amount + d.amount
  reward := agg.reward + d.reward
  lastUpdated := if agg.lastUpdated < d.lastUpdated then d.lastUpdated else agg.lastUpdated

namespace StakingAccount

/-- `pruneStakingDetails`: entries below the cutoff are folded into the entry at key 0. -/
def pruneStakingDetails (acc : StakingAccount) (height : Int64) : StakingAccount :=
  let cutoff := height - Common.stakingDetailsRetentionBlocks
  if cutoff ≤ 0 then acc
  else
    let base := ((acc.stakingDetails.lookup 0).getD []).foldl StakingDetail.fold ⟨0, 0, 0⟩
    let old := acc.stakingDetails.entries.filter fun e => e.1 != 0 && decide (e.1 < cutoff)
    if old.isEmpty then acc
    else
      let agg := old.foldl (fun agg e => e.2.foldl StakingDetail.fold agg) base
      { acc with
        stakingDetails :=
          (old.foldl (fun m e => m.erase e.1) acc.stakingDetails).insert 0 [agg] }

/-- The detail entry every staking operation appends under its height. -/
def addDetail (acc : StakingAccount) (height : Int64) (d : StakingDetail) : StakingAccount :=
  let acc := { acc with
    stakingDetails := acc.stakingDetails.insert height
      ((acc.stakingDetails.lookup height).getD [] ++ [d]) }
  acc.pruneStakingDetails height

def locks (acc : StakingAccount) : List (Int64 × Int64 × Int64) :=
  acc.lockedAmount.zip (acc.releasePerBlock.zip acc.lockedInitBlock)

def lockRemainder (height : Int64) (lock : Int64 × Int64 × Int64) : Int64 :=
  let left := lock.1 - (height - lock.2.2) * lock.2.1
  if left ≤ 0 then 0 else left

def lockedAt (acc : StakingAccount) (height : Int64) : Int64 :=
  (acc.locks.map (lockRemainder height)).foldl (· + ·) 0

def dropReleased (acc : StakingAccount) (height : Int64) : StakingAccount :=
  let kept := acc.locks.filter fun lock =>
    decide (0 < lock.1 - (height - lock.2.2) * lock.2.1)
  if kept.length = acc.locks.length then acc
  else
    { acc with
      lockedAmount := kept.map (·.1)
      releasePerBlock := kept.map (·.2.1)
      lockedInitBlock := kept.map (·.2.2) }

end StakingAccount

namespace Ledger

/-- `GetStakingAccountByAddressBytes`: the zero value when there is no entry or no such
shard. -/
def stakingAccount (l : Ledger) (a : AddressBytes) (delegatedAccount : Nat) : StakingAccount :=
  if 256 ≤ delegatedAccount then {} else (l.staking.lookup (delegatedAccount, a)).getD {}

def putStaking (l : Ledger) (delegatedAccount : Nat) (acc : StakingAccount) : Ledger :=
  { l with staking := l.staking.insert (delegatedAccount, acc.address) acc }

structure StakeCall where
  amount : Int64
  height : Int64
  stakingTime : Int64
  delegatedAccount : Nat
  operational : Bool
  lockedAmount : Int64
  releasePerBlock : Int64
  thirdParty : Bool

def stakedEntry (acc : StakingAccount) (a : AddressBytes) (c : StakeCall) : StakingAccount :=
  let becomesOperational := c.lockedAmount == 0 && !acc.operationalAccount
  let staked := { acc with
    operationalAccount := if becomesOperational then c.operational else acc.operationalAccount
    operationalSince :=
      if becomesOperational && c.operational then c.stakingTime else acc.operationalSince
    stakedBalance := acc.stakedBalance + c.amount
    lastStakeHeight := if c.thirdParty then acc.lastStakeHeight else c.height
    lockedInitBlock :=
      if 0 < c.lockedAmount then acc.lockedInitBlock ++ [c.height] else acc.lockedInitBlock
    lockedAmount :=
      if 0 < c.lockedAmount then acc.lockedAmount ++ [c.lockedAmount] else acc.lockedAmount
    releasePerBlock :=
      if 0 < c.lockedAmount then acc.releasePerBlock ++ [c.releasePerBlock]
      else acc.releasePerBlock }
  { staked.addDetail c.height ⟨c.amount, 0, c.stakingTime⟩ with
    delegatedAccount := (getDelegatedAccountAddress c.delegatedAccount).byteValue
    address := a }

def stake (l : Ledger) (a : AddressBytes) (c : StakeCall) : Except Error Ledger :=
  let acc := l.stakingAccount a c.delegatedAccount
  if c.amount < 0 then .error .stakedAmountNegative
  else if c.releasePerBlock < 0 then .error .releaseNegative
  else if c.lockedAmount < c.releasePerBlock then .error .releaseAboveLocked
  else if c.lockedAmount < 0 then .error .lockedNegative
  else if c.amount < c.lockedAmount then .error .lockedAboveAmount
  else if !c.thirdParty ∧
      c.height < acc.lastStakeHeight + Common.minNumberOfBlocksInStake then
    .error .stakingMustBeDelayed
  else .ok { l.putStaking c.delegatedAccount (stakedEntry acc a c) with
      stakeChangedAt := l.stakeChangedAt.insert c.delegatedAccount c.stakingTime }

def unstakedEntry (acc : StakingAccount) (amount height stakingTime : Int64) :
    StakingAccount :=
  let kept := acc.dropReleased height
  let staked := kept.stakedBalance + amount
  let left := { kept with
    stakedBalance := staked
    lastStakeHeight := height
    operationalAccount := if staked = 0 then false else kept.operationalAccount
    operationalSince := if staked = 0 then 0 else kept.operationalSince }
  left.addDetail height ⟨amount, 0, stakingTime⟩

def unstake (l : Ledger) (a : AddressBytes) (amount height stakingTime : Int64)
    (delegatedAccount : Nat) : Except Error Ledger :=
  let acc := l.stakingAccount a delegatedAccount
  if acc.address ≠ a then .error .noUnstakingAccount
  else if 0 ≤ amount then .error .unstakedAmountNotNegative
  else if height < acc.lastStakeHeight + Common.minNumberOfBlocksInStake then
    .error .stakingMustBeDelayed
  else if acc.stakedBalance + amount < 0 then .error .insufficientStakedBalance
  else if acc.stakedBalance - acc.lockedAt height + amount < 0 then
    .error .insufficientStakedBalanceAfterLocking
  else .ok { l.putStaking delegatedAccount (unstakedEntry acc amount height stakingTime) with
      stakeChangedAt := l.stakeChangedAt.insert delegatedAccount stakingTime }

/-- `Reward`; `now` is the node's clock, which only the informational details record. -/
def reward (l : Ledger) (a : AddressBytes) (amount height now : Int64)
    (delegatedAccount : Nat) : Except Error Ledger :=
  let acc := l.stakingAccount a delegatedAccount
  if acc.address ≠ a then .error .noRewardingAccount
  else if amount < 0 then .error .rewardNegative
  else .ok (l.putStaking delegatedAccount
    ({ acc with stakingRewards := acc.stakingRewards + amount }.addDetail height
      ⟨0, amount, now⟩))

def withdrawReward (l : Ledger) (a : AddressBytes) (amount height now : Int64)
    (delegatedAccount : Nat) : Except Error Ledger :=
  let acc := l.stakingAccount a delegatedAccount
  if acc.address ≠ a then .error .noWithdrawRewardingAccount
  else if 0 ≤ amount then .error .withdrawAmountNotNegative
  else if acc.stakingRewards + amount < 0 then .error .insufficientRewards
  else .ok (l.putStaking delegatedAccount
    ({ acc with stakingRewards := acc.stakingRewards + amount }.addDetail height
      ⟨0, amount, now⟩))

def setRandCommit (l : Ledger) (delegatedAccount : Nat) (a : AddressBytes) (commit : Hash)
    (height : Int64) : Except Error Ledger :=
  match l.staking.lookup (delegatedAccount, a) with
  | some acc => .ok { l with
      staking := l.staking.insert (delegatedAccount, a)
        { acc with randCommit := commit, randCommitHeight := height } }
  | none => .error .noStakingEntryForOperator

def shard (l : Ledger) (n : Nat) : List StakingAccount :=
  (l.staking.entries.filter fun e => e.1.1 == n).map (·.2)

/-- The operator `GetStakedInDelegatedAccount` has selected so far: stake, time of its
first signal, address. -/
abbrev OperatorChoice := Int64 × Int64 × AddressBytes

def displaces (best : OperatorChoice) (sa : StakingAccount) : Bool :=
  sa.operationalAccount && (best.1 < sa.stakedBalance || (best.1 == sa.stakedBalance &&
    (sa.operationalSince < best.2.1 ||
      (sa.operationalSince == best.2.1 && sa.address < best.2.2))))

/-- `GetStakedInDelegatedAccount`: (address, stake) pairs, their sum and the operator. -/
def getStakedInDelegatedAccount (l : Ledger) (n : Nat) :
    List (AddressBytes × Int64) × Int64 × AddressBytes :=
  let entries := l.shard n
  (entries.map fun sa => (sa.address, sa.stakedBalance),
    entries.foldl (fun sum sa => sum + sa.stakedBalance) 0,
    (entries.foldl (fun best sa =>
      if displaces best sa then (sa.stakedBalance, sa.operationalSince, sa.address) else best)
      ((0, 0, 0) : OperatorChoice)).2.2)

def getSupplyInAccounts (l : Ledger) : Int64 :=
  (FinMap.values l.accounts).foldl (fun sum acc => sum + acc.balance) 0

def getSupplyInStakedAccounts (l : Ledger) : Int64 × Int64 :=
  ((FinMap.values l.staking).foldl (fun sum acc => sum + acc.stakedBalance) 0,
    (FinMap.values l.staking).foldl (fun sum acc => sum + acc.stakingRewards) 0)

end Ledger

/-- `GetReward`: the remaining supply times the ratio, rounded half up. The source
computes the product in 128 bits, so it is a natural number here. -/
def getReward (supply : Int64) : Int64 :=
  let remaining := Common.maxTotalSupply - supply
  if remaining ≤ 0 ∨ Common.rewardRatioPerE10 ≤ 0 then 0
  else Int64.ofNat ((remaining.toInt.toNat * Common.rewardRatioPerE10.toInt.toNat
    + 5000000000) / 10000000000)

end QwidNode.Source

import QwidNode.Lib.FinMap
import QwidNode.Source.Transaction

/-!
# Accounts, recovery commitments and staking

Source: `account/baseAccount.go:13-130`, `account/accountsStates.go:28-77`, `account/recovery.go`,
`account/stakeAccount.go`, `account/reward.go` and `account/accountsStakingStates.go`. The global
maps of the source are the fields of `Ledger`.
-/
namespace QwidNode.Source
open Lib

/-- `account.Account`, without the two transport-only history slices. -/
structure Account where
  balance : Int64 := 0
  address : AddressBytes
  transactionDelay : Int64 := 0
  multiSignNumber : UInt8 := 0
  multiSignAddresses : List AddressBytes := []
  sentCount : Int64 := 0
  receivedCount : Int64 := 0
  recoveryCommit : AddressBytes := 0
  recoveryPendingCommit : AddressBytes := 0
  recoveryPendingHeight : Int64 := 0
  spareCommit : AddressBytes := 0
  sparePendingCommit : AddressBytes := 0
deriving DecidableEq, Repr

structure RecoveryBind where
  identity : AddressBytes
  payload : Hash
  height : Int64
deriving DecidableEq, Repr

structure StakingDetail where
  amount : Int64
  reward : Int64
  lastUpdated : Int64
deriving DecidableEq, Repr

structure StakingAccount where
  stakedBalance : Int64 := 0
  stakingRewards : Int64 := 0
  lockedAmount : List Int64 := []
  releasePerBlock : List Int64 := []
  lockedInitBlock : List Int64 := []
  delegatedAccount : AddressBytes := 0
  address : AddressBytes := 0
  operationalAccount : Bool := false
  operationalSince : Int64 := 0
  lastStakeHeight : Int64 := 0
  stakingDetails : FinMap Int64 (List StakingDetail) := ∅
  randCommit : Hash := 0
  randCommitHeight : Int64 := 0

/-- The account maps, the recovery binds and the 256 staking shards. A staking entry is
keyed by its shard and its address. -/
structure Ledger where
  accounts : FinMap AddressBytes Account := ∅
  recoveryBinds : FinMap Hash RecoveryBind := ∅
  staking : FinMap (Nat × AddressBytes) StakingAccount := ∅
  stakeChangedAt : FinMap Nat Int64 := ∅

namespace Account

/-- The account sends nothing at once: its transfers wait for a delay or for approvals. -/
def restricted (a : Account) : Prop := 0 < a.transactionDelay ∨ 0 < a.multiSignNumber

instance (a : Account) : Decidable a.restricted := by unfold restricted; infer_instance

def modifyAccountToEscrow (a : Account) (transactionDelay : Int64) : Except Error Account :=
  if 0 < a.transactionDelay then .error .alreadyEscrow
  else if 0 < a.multiSignNumber then .error .multisignCannotBecomeEscrow
  else if transactionDelay = 0 then .error .escrowDelayZero
  else if Common.maxTransactionDelay < transactionDelay then .error .escrowDelayTooLong
  else .ok { a with transactionDelay }

/-- `ModifyAccountToMultiSign`, without the final map write. The address list is stored
as it comes. -/
def modifyAccountToMultiSign (a : Account) (numApprovals : UInt8)
    (addresses : List AddressBytes) : Except Error Account :=
  if 0 < a.multiSignNumber then .error .alreadyMultisign
  else if 0 < a.transactionDelay then .error .escrowCannotBecomeMultisign
  else if numApprovals = 0 then .error .noApprovalAccount
  else if addresses.length < numApprovals.toNat then .error .tooFewApprovalAddresses
  else .ok { a with multiSignNumber := numApprovals, multiSignAddresses := addresses }

def matured (pendingHeight height : Int64) : Bool :=
  pendingHeight + Common.recoveryCommitMaturityBlocks ≤ height

def effectiveRecoveryCommit (a : Account) (height : Int64) : AddressBytes :=
  if a.recoveryPendingCommit ≠ 0 ∧ matured a.recoveryPendingHeight height
  then a.recoveryPendingCommit else a.recoveryCommit

def effectiveSpareCommit (a : Account) (height : Int64) : AddressBytes :=
  if a.sparePendingCommit ≠ 0 ∧ matured a.recoveryPendingHeight height
  then a.sparePendingCommit else a.spareCommit

def hasCommitments (a : Account) : Bool :=
  a.recoveryCommit != 0 || a.recoveryPendingCommit != 0 ||
    a.spareCommit != 0 || a.sparePendingCommit != 0

def promoteMatured (a : Account) (height : Int64) : Account :=
  if matured a.recoveryPendingHeight height then
    { a with
      recoveryCommit :=
        if a.recoveryPendingCommit ≠ 0 then a.recoveryPendingCommit else a.recoveryCommit
      spareCommit := if a.sparePendingCommit ≠ 0 then a.sparePendingCommit else a.spareCommit
      recoveryPendingCommit := 0
      sparePendingCommit := 0
      recoveryPendingHeight := 0 }
  else a

def setCommitments (a : Account) (spare c : AddressBytes) (height : Int64) : Account :=
  if a.hasCommitments then
    { a.promoteMatured height with
      sparePendingCommit := spare, recoveryPendingCommit := c, recoveryPendingHeight := height }
  else { a with spareCommit := spare, recoveryCommit := c }

def consumeRecoveryCommit (a : Account) (next : AddressBytes) : Account :=
  { a with
    recoveryCommit := next
    recoveryPendingCommit := 0
    recoveryPendingHeight :=
      if a.sparePendingCommit = 0 then 0 else a.recoveryPendingHeight }

def voidPendingRecoveryCommit (a : Account) (height : Int64) : Account :=
  if a.recoveryPendingCommit = 0 ∧ a.sparePendingCommit = 0 then a
  else
    { a.promoteMatured height with
      recoveryPendingCommit := 0, sparePendingCommit := 0, recoveryPendingHeight := 0 }

end Account

namespace Ledger

def account? (l : Ledger) (a : AddressBytes) : Option Account := l.accounts.lookup a

def putAccount (l : Ledger) (a : AddressBytes) (acc : Account) : Ledger :=
  { l with accounts := l.accounts.insert a acc }

/-- The entry of an address, or the zero-balance account the source creates for it. -/
def accountOrNew (l : Ledger) (a : AddressBytes) : Account :=
  (l.account? a).getD { address := a }

def canBeModifiedAccount (l : Ledger) (a : AddressBytes) : Bool :=
  match l.account? a with
  | some acc => acc.multiSignNumber == 0 && acc.transactionDelay == 0
  | none => false

def addTransactionsSender (l : Ledger) (a : AddressBytes) : Ledger :=
  let acc := l.accountOrNew a
  l.putAccount a { acc with sentCount := acc.sentCount + 1 }

def addTransactionsRecipient (l : Ledger) (a : AddressBytes) : Ledger :=
  let acc := l.accountOrNew a
  l.putAccount a { acc with receivedCount := acc.receivedCount + 1 }

/-- `SetBalance`: a missing account starts from the zero value of the struct. -/
def setBalance (l : Ledger) (a : AddressBytes) (balance : Int64) : Ledger :=
  let acc := (l.account? a).getD { address := 0 }
  l.putAccount a { acc with balance, address := a }

def setAccountCommitments (l : Ledger) (a spare c : AddressBytes) (height : Int64) :
    Except Error Ledger :=
  match l.account? a with
  | some acc => .ok (l.putAccount a (acc.setCommitments spare c height))
  | none => .error .noAccountToSetCommitments

def consumeAccountRecoveryCommit (l : Ledger) (a next : AddressBytes) : Except Error Ledger :=
  match l.account? a with
  | some acc => .ok (l.putAccount a (acc.consumeRecoveryCommit next))
  | none => .error .noAccountToConsumeCommitment

def addRecoveryBind (l : Ledger) (key : Hash) (b : RecoveryBind) : Ledger :=
  match l.recoveryBinds.lookup key with
  | some _ => l
  | none => { l with recoveryBinds := l.recoveryBinds.insert key b }

def deleteRecoveryBind (l : Ledger) (key : Hash) : Ledger :=
  { l with recoveryBinds := l.recoveryBinds.erase key }

def pruneRecoveryBinds (l : Ledger) (height : Int64) : Ledger :=
  { l with
    recoveryBinds := FinMap.filterValues
      (fun b => !decide (b.height + Common.recoveryBindExpiryBlocks < height)) l.recoveryBinds }

def voidPendingRecoveryCommits (l : Ledger) (height : Int64) : Ledger :=
  { l with accounts := FinMap.mapValues (·.voidPendingRecoveryCommit height) l.accounts }

end Ledger
end QwidNode.Source

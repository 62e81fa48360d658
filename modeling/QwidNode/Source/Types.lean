import Mathlib

/-!
# Addresses, hashes and protocol constants

Source: `common/types.go`, `common/helper.go`, `common/const.go`, `common/recovery.go` and
`account/helper.go`. An address is its twenty bytes together with the `Primary` flag; maps of the
source are keyed by the bytes alone.
-/
namespace QwidNode.Source

abbrev Bytes := List UInt8

abbrev AddressBytes := BitVec 160

abbrev Hash := BitVec 256

/-- `common.Address`: `==` on it compares the flag as well as the bytes. -/
structure Address where
  byteValue : AddressBytes
  primary : Bool
deriving DecidableEq, Repr

/-- `common.EmptyAddress`: twenty-one zero bytes decode to a primary address. -/
def emptyAddress : Address := ⟨0, true⟩

def zerosHash : Hash := 0

def bytesToNat (b : Bytes) : Nat := b.foldl (fun acc x => acc * 256 + x.toNat) 0

def addressOfBytes (b : Bytes) : AddressBytes := BitVec.ofNat 160 (bytesToNat b)

def hashOfBytes (b : Bytes) : Hash := BitVec.ofNat 256 (bytesToNat b)

/-- `common.GetInt64FromByte`: the first eight bytes, least significant first. -/
def getInt64FromByte (b : Bytes) : Int64 :=
  Int64.ofBitVec (BitVec.ofNat 64 (bytesToNat (b.take 8).reverse))

/-- `GetInt64FromByte` of a hash: the key under which the multi-signature pool groups
its entries. Only the first eight of the 32 bytes take part. -/
def hashInt64 (h : Hash) : Int64 :=
  let byte (i : Nat) : BitVec 8 := h.extractLsb' (248 - 8 * i) 8
  Int64.ofBitVec
    (byte 7 ++ byte 6 ++ byte 5 ++ byte 4 ++ byte 3 ++ byte 2 ++ byte 1 ++ byte 0)

def getDelegatedAccountAddress (id : Nat) : Address :=
  ⟨BitVec.ofNat 160 (id % 2 ^ 16 * 2 ^ 144), true⟩

/-- `account.IntDelegatedAccountFromAddress`: the id in the first two bytes when it is
positive and every other byte is zero; `none` is the source's `-1` with an error. -/
def intDelegatedAccountFromAddress (a : Address) : Option Nat :=
  let n := a.byteValue.toNat / 2 ^ 144
  if n < 1 then none
  else if a.byteValue.toNat % 2 ^ 144 ≠ 0 then none
  else some n

def dexAccountAddress : AddressBytes := 0x0123456789012345678901234567890123456789

def recoveryBindAddress : AddressBytes := 0xFFFFFFFFFFFFFFFFFFFFFFFFFFFFFFFFFFFF5242

/-- `common.RecoveryRevealAddress`: eighteen `0xFF` bytes, then `RR`. -/
def recoveryRevealAddress : AddressBytes := 0xFFFFFFFFFFFFFFFFFFFFFFFFFFFFFFFFFFFF5252

def isRecoveryAddress (a : Address) : Bool :=
  a.byteValue == recoveryBindAddress || a.byteValue == recoveryRevealAddress

namespace Common

def chainID : Int16 := 23
def addressLength : Nat := 20
def hashLength : Nat := 32
def maxTotalSupply : Int64 := 230000000000000000
def rewardRatioPerE10 : Int64 := 200
def minNumberOfBlocksInStake : Int64 := 36
def maxGasUsage : Int64 := 13700000
def maxGasPrice : Int64 := 100000
def maxTransactionsPerBlock : Nat := 5000
def maxGasUsagePerBlock : Int64 := 5000 * 30000
def maxTransactionInPool : Nat := 50000
def maxNumberOfTxBans : Nat := 50
def numberWhenWillBan : Nat := 100
def minStakingForNode : Int64 := 100000000000000
def minStakingUser : Int64 := 100000000000
def maxTransactionDelay : Int64 := 60480
def maxTransactionAgeBlocks : Int64 := 8640
def dexTokenCallGas : Int64 := 210000
def maxTransactionInMultiSigPool : Int64 := 60480
def maxStartupRewind : Int64 := 128
def stakingDetailsRetentionBlocks : Int64 := 8640
def recoveryCommitMaturityBlocks : Int64 := 60480
def recoveryBindDelayBlocks : Int64 := 360
def recoveryBindExpiryBlocks : Int64 := 120960
def randaoCommitExpiry : Int64 := 8640
def recoveryBindOptDataLength : Nat := 20 + 32 + 32
def recoveryRevealOptDataLength : Nat := 32 + 20

end Common

/-- `blocks.TransactionHeightInWindow`; the difference is taken in `int64`. -/
def transactionHeightInWindow (txHeight blockHeight : Int64) : Bool :=
  txHeight ≤ blockHeight && blockHeight - txHeight ≤ Common.maxTransactionAgeBlocks

/-- The errors of the modelled functions, one constructor per error text of the
source. Hashes and heights are kept where the text prints them. -/
inductive Error where
  -- account/stakeAccount.go
  | stakedAmountNegative | releaseNegative | releaseAboveLocked | lockedNegative
  | lockedAboveAmount | stakingMustBeDelayed | noUnstakingAccount | unstakedAmountNotNegative
  | insufficientStakedBalance | insufficientStakedBalanceAfterLocking
  | noRewardingAccount | rewardNegative | noWithdrawRewardingAccount
  | withdrawAmountNotNegative | insufficientRewards | noStakingEntryForOperator
  -- account/baseAccount.go, account/recovery.go
  | alreadyEscrow | multisignCannotBecomeEscrow | escrowDelayZero | escrowDelayTooLong
  | alreadyMultisign | escrowCannotBecomeMultisign | noApprovalAccount | tooFewApprovalAddresses
  | noAccountToSetCommitments | noAccountToConsumeCommitment
  -- blocks/blockAccountState.go, blocks/processTransaction.go, blocks/recovery.go
  | notEnoughFunds | invalidFee | notCancellation | cancellationShape | escrowNotPending
  | notEscrowOwner | cancellationSenderNotEscrow | escrowAlreadyMatured
  | deployFromRestrictedAccount | lockingAccountInvalid | wrongLockingAmount
  | wrongStakingAmount | noStakingAccountForRewards | wrongRewardingAmount | noAccountFound
  | bothPolicies | policyNotOnSender | recoveryDataMalformed | recoveryHashFailed
  | openedBeforeAddressReveal | recoveryCommitmentChanged | noAccountForCommitment
  | noMainTransaction (main : Hash) | mainTransactionExpired (main : Hash)
  | noAccountMultiSign | mainTransactionDelayed (main : Hash) | noAccountEscrow
  -- transactionsDefinition/transaction.go, transactionsPool/helper.go
  | keyNotFound (hash : Hash) | bodyDoesNotMatchHash (hash : Hash)
  | alreadyIncluded (height : Int64)
  -- blocks/processBlock.go
  | badTransactionFailedValidation (hash : Hash) | signatureFails (hash : Hash)
  | heightOutsideWindow (hash : Hash) | gasAboveMaximum (hash : Hash) | blockGasLimitExceeded
  | invalidEscrowCancellation (cause : Error) | stakingCheckFails | noAccountInCheck
  | malformedApproval | notEnoughFundsInCheck | blockSupplyFails
  | headerSignature | stateRoot | stakeDependent | wrongDelegatedAccount | notValidOperator
  | smartContractsFail | supplyMismatch | pubKeysFail | noStakedAmount | rewardTooLarge
  | restNegative | wrongDelegatedForRandao
  | supplyTooHigh | rewardPercentageOutside (percentage : Int16) | tooManyTransactions
  | duplicateTransactionHash | previousHashMismatch | baseBlockFails
  | missingTransactions | storeBlockFails
deriving DecidableEq, Repr

end QwidNode.Source

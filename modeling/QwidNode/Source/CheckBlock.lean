import QwidNode.Source.ProcessTransaction
import QwidNode.Source.Verify

/-!
# The check pass over a block

Source: `blocks/processTransaction.go:246-365` (`CheckStakingTransaction`) and
`blocks/processBlock.go:320-589` (`CheckBlockTransfers`). The pass verifies all transactions against
the parent, and then walks over them with running copies of balances and stakes.
-/
namespace QwidNode.Source
open Lib
variable {σ : Type}

def checkLock (tx : Transaction) : Bool :=
  !decide (tx.amount ≤ 0) && !decide (tx.amount < Common.minStakingUser) &&
    !decide (tx.amount < tx.txData.lockedAmount) && !decide (tx.txData.releasePerBlock < 0) &&
    !decide (tx.txData.lockedAmount < tx.txData.releasePerBlock)

def stakeAllowed (stake : Int64) : Bool :=
  !(decide (stake < Common.minStakingUser) && stake != 0)

def amountStakeable (amount : Int64) : Bool :=
  !(decide (amount < Common.minStakingUser) && decide (0 < amount))

/-- The stake part of `CheckStakingTransaction`, for the transaction alone and for the
running sum of its sender. -/
def checkStake (l : Ledger) (tx : Transaction) (n : Nat) (sumAmount : Int64) : Bool :=
  let accStaking := l.stakingAccount tx.sender n
  !(accStaking.delegatedAccount != tx.recipient && decide (tx.amount ≤ 0)) &&
    amountStakeable tx.amount && stakeAllowed (accStaking.stakedBalance + tx.amount) &&
    amountStakeable sumAmount && stakeAllowed (accStaking.stakedBalance + sumAmount)

/-- `CheckStakingTransaction`, given the fee and the delegated id `CheckBlockTransfers`
has computed from the same fields. -/
def checkStakingTransaction (env : Env σ) (l : Ledger) (tx : Transaction) (fee : Int64)
    (n : Nat) (sumAmount sumFee : Int64) (block : Block) : Bool :=
  match l.account? tx.sender with
  | none => false
  | some acc =>
    acc.address == tx.sender && !decide (acc.balance < fee) && !decide (acc.balance < sumFee) &&
      (if n < 256 then
        !(!tx.txData.optData.isEmpty && decide (0 < tx.amount) &&
            !env.hasOperatorKeysAsOf tx.sender (some (block.height - 1))) &&
          (if 0 < tx.txData.lockedAmount then checkLock tx else checkStake l tx n sumAmount)
      else if n < 512 then
        let accStaking := l.stakingAccount tx.sender (n % 256)
        accStaking.address == tx.sender && !decide (accStaking.stakingRewards + tx.amount < 0)
      else true)

def Node.findTxInMemoryPools (s : Node σ) (hash : Hash) : Option Transaction :=
  ((s.poolsTx.getTransactionByHash hash).or (s.poolTxEscrow.getTransactionByHash hash)).or
    (s.poolTxMultiSign.getTransactionByHash hash)

/-- The bad database, then the memory pools; when neither has the transaction, the error of
the bad database is the one returned. -/
def loadBadOrPooled (env : Env σ) (hash : Hash) : NodeM σ Transaction :=
  tryCatch (loadFromDBPoolTx env .bad hash) fun e => do
    match (← get).findTxInMemoryPools hash with
    | some t => pure t
    | none => throw e

/-- A transaction found only in the bad database or in a memory pool: verified against the
parent, then stored as confirmed. -/
def recoverTransaction (env : Env σ) (lastBlock : Block) (hash : Hash) :
    NodeM σ Transaction := do
  let poolTx ← loadBadOrPooled env hash
  let s ← get
  failIf (¬ Verified env s.ledger (parentContext lastBlock) poolTx)
    (.badTransactionFailedValidation hash)
  modifyDb fun db => db.storeTx .confirmed poolTx
  pure poolTx

def loadMissing (env : Env σ) (lastBlock : Block) (hash : Hash) : NodeM σ Transaction := do
  modifyDb fun db => db.removePoolTx hash
  let poolTx ← match ← attempt (loadFromDBPoolTx env .confirmed hash) with
    | some t => do
      checkTransactionInDBAndInMarkleTrie hash
      pure t
    | none => recoverTransaction env lastBlock hash
  modifyDb fun db => db.storeTx .pool poolTx
  pure poolTx

def loadForBlock (env : Env σ) (lastBlock : Block) (hash : Hash) : NodeM σ Transaction := do
  let poolTx ← match ← attempt (loadFromDBPoolTx env .pool hash) with
    | some t => pure t
    | none => loadMissing env lastBlock hash
  checkTransactionInDBAndInMarkleTrie hash
  pure poolTx

def loadAll (env : Env σ) (lastBlock : Block) : List Hash → NodeM σ (List Transaction)
  | [] => pure []
  | hash :: rest => do
    let tx ← loadForBlock env lastBlock hash
    let txs ← loadAll env lastBlock rest
    pure (tx :: txs)

/-- The running copies of `CheckBlockTransfers`. Balances and stakes are kept by sender:
the source has one staking copy for all delegated accounts of a sender, with the fees
in its rewards field. -/
structure CheckState where
  balances : FinMap AddressBytes Int64 := ∅
  stakes : FinMap AddressBytes (Int64 × Int64) := ∅
  totalFee : Int64 := 0
  totalGas : Int64 := 0
  badTxErr : Option Error := none

/-- A finding that removes the transaction and lets the walk continue. -/
def dropAndContinue (env : Env σ) (tx : Transaction) (c : CheckState) (e : Error) :
    NodeM σ CheckState := do
  modify fun s => s.removeBadTransactionByHash env tx.hash
  pure { c with badTxErr := c.badTxErr.or (some e) }

def approvalMalformed (tx : Transaction) : Prop :=
  tx.txParam.multiSignTx ≠ zerosHash ∧
    (0 < tx.amount ∨ tx.txData.optData ≠ [] ∨ 0 < tx.txData.lockedAmount ∨
      0 < tx.txData.multiSignNumber)

instance (tx : Transaction) : Decidable (approvalMalformed tx) := by
  unfold approvalMalformed; infer_instance

def checkFunds (env : Env σ) (tx : Transaction) (fee : Int64) (c : CheckState) :
    NodeM σ CheckState := do
  let s ← get
  match s.ledger.account? tx.sender with
  | none => dropAndContinue env tx c .noAccountInCheck
  | some acc =>
    if acc.address ≠ tx.sender then dropAndContinue env tx c .noAccountInCheck
    else if approvalMalformed tx then dropAndContinue env tx c .malformedApproval
    else
      let cur := (c.balances.lookup tx.sender).getD acc.balance
      let total := fee + tx.amount
      if cur - total < 0 then dropAndContinue env tx c .notEnoughFundsInCheck
      else pure { c with balances := c.balances.insert tx.sender (cur - total) }

def addStake (l : Ledger) (tx : Transaction) (fee : Int64) (n : Nat) (c : CheckState) :
    CheckState :=
  let acc := l.stakingAccount tx.sender (n % 256)
  let cur := (c.stakes.lookup tx.sender).getD (acc.stakedBalance, acc.stakingRewards)
  { c with stakes := c.stakes.insert tx.sender (cur.1 + tx.amount, cur.2 + fee) }

def checkRouted (env : Env σ) (block : Block) (tx : Transaction) (fee : Int64)
    (account : Option Nat) (c : CheckState) : NodeM σ CheckState := do
  let s ← get
  match account with
  | some n =>
    if n < 512 then
      let c := addStake s.ledger tx fee n c
      let sums := (c.stakes.lookup tx.sender).getD (0, 0)
      if checkStakingTransaction env s.ledger tx fee n sums.1 sums.2 block then
        checkFunds env tx fee c
      else dropAndContinue env tx c .stakingCheckFails
    else checkFunds env tx fee c
  | none => checkFunds env tx fee c

def cancellationError (s : Node σ) (tx : Transaction) (height : Int64) : Option Error :=
  if tx.cancellationTarget.isSome then
    match validateEscrowCancellation s tx height with
    | .error e => some e
    | .ok _ => none
  else none

/-- The part of the loop body that applies to a verified transaction within its window. -/
def checkVerified (env : Env σ) (block : Block) (tx : Transaction) (c : CheckState) :
    NodeM σ CheckState := do
  match tx.calcFee with
  | none => throw .invalidFee
  | some fee => do
    let totalGas := if 0 < tx.gasUsage then c.totalGas + tx.gasUsage else c.totalGas
    failIf (0 < tx.gasUsage ∧ Common.maxGasUsage < tx.gasUsage) (.gasAboveMaximum tx.hash)
    failIf (0 < tx.gasUsage ∧ Common.maxGasUsagePerBlock < totalGas) .blockGasLimitExceeded
    let s ← get
    match cancellationError s tx block.height with
    | some e => throw (.invalidEscrowCancellation e)
    | none => do
      failIf (deploysFromRestrictedAccount s.ledger tx) .deployFromRestrictedAccount
      match tx.routingAccount with
      | none => throw .lockingAccountInvalid
      | some account =>
        checkRouted env block tx fee account
          { c with totalFee := c.totalFee + fee, totalGas := totalGas }

def checkTransaction (env : Env σ) (block : Block) (verified : Bool) (tx : Transaction)
    (c : CheckState) : NodeM σ CheckState :=
  if verified = false then dropAndContinue env tx c (.signatureFails tx.hash)
  else if transactionHeightInWindow tx.height block.height = false then
    dropAndContinue env tx c (.heightOutsideWindow tx.hash)
  else checkVerified env block tx c

def checkAll (env : Env σ) (block : Block) :
    List (Transaction × Bool) → CheckState → NodeM σ CheckState
  | [], c => pure c
  | (tx, verified) :: rest, c => do
    let c ← checkTransaction env block verified tx c
    checkAll env block rest c

def checkBlockTransfers (env : Env σ) (block lastBlock : Block) : NodeM σ (Int64 × Int64) := do
  let loaded ← loadAll env lastBlock block.transactionsHashes
  let s ← get
  let verified := loaded.map fun tx =>
    (tx, decide (Verified env s.ledger (parentContext lastBlock) tx))
  let c ← checkAll env block verified {}
  match c.badTxErr with
  | some e => throw e
  | none => do
    let reward := getReward lastBlock.supply
    failIf (lastBlock.supply + reward ≠ block.supply) .blockSupplyFails
    pure (reward, c.totalFee)

end QwidNode.Source

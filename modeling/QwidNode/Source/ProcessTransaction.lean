import QwidNode.Source.PendingPools

/-!
# Applying one transaction

Source: `blocks/processTransaction.go`, `blocks/blockAccountState.go:9-33`,
`blocks/recovery.go:15-118` and `blocks/evaluate.go:47-69`. The branches of
`ProcessTransaction` stand in the order of the source, each a definition of its own.
-/
namespace QwidNode.Source
open Lib
variable {σ : Type}

/-- `AddBalance`: a missing account is created even when the check then fails. -/
def addBalance (route : Route) (hash : Hash) (height : Int64) (a : AddressBytes)
    (added : Int64) : NodeM σ Unit := fun s =>
  let acc := s.ledger.accountOrNew a
  if acc.balance + added < 0 then
    .error .notEnoughFunds { s with ledger := s.ledger.putAccount a acc }
  else
    .ok () { s with
      ledger := s.ledger.putAccount a { acc with balance := acc.balance + added }
      log := .moved ⟨route, hash, height, a, added⟩ :: s.log }

/-- `validateEscrowCancellation`: the pending transaction that is cancelled. -/
def validateEscrowCancellation (s : Node σ) (tx : Transaction) (height : Int64) :
    Except Error Transaction :=
  match tx.cancellationTarget with
  | none => .error .notCancellation
  | some targetHash =>
    if tx.amount ≠ 0 ∨ tx.recipient ≠ tx.sender ∨ tx.txData.lockedAmount ≠ 0 ∨
        tx.txData.multiSignNumber ≠ 0 ∨ tx.txParam.multiSignTx ≠ zerosHash then
      .error .cancellationShape
    else
      match s.poolTxEscrow.getTransactionByHash targetHash with
      | none => .error .escrowNotPending
      | some target =>
        if target.sender ≠ tx.sender then .error .notEscrowOwner
        else
          match s.ledger.account? tx.sender with
          | none => .error .cancellationSenderNotEscrow
          | some sender =>
            if sender.transactionDelay ≤ 0 then .error .cancellationSenderNotEscrow
            else if target.height + sender.transactionDelay ≤ height then
              .error .escrowAlreadyMatured
            else .ok target

def deploysFromRestrictedAccount (l : Ledger) (tx : Transaction) : Prop :=
  tx.isContractDeployment = true ∧ ∃ acc ∈ l.account? tx.sender, acc.restricted

instance (l : Ledger) (tx : Transaction) : Decidable (deploysFromRestrictedAccount l tx) := by
  unfold deploysFromRestrictedAccount; infer_instance

def isContractCallTx (tx : Transaction) (senderAcc : Account) : Bool :=
  tx.cancellationTarget.isNone && !tx.txData.optData.isEmpty &&
    !isRecoveryAddress tx.txData.recipient && !tx.isCommitmentRegistration &&
    (intDelegatedAccountFromAddress tx.txData.recipient).isNone &&
    !decide (0 < senderAcc.multiSignNumber) && !decide (0 < senderAcc.transactionDelay)

def setAccountByAddressBytes (a : AddressBytes) : NodeM σ Account := do
  let s ← get
  match s.ledger.account? a with
  | some acc => pure { acc with address := a }
  | none => do
    modifyLedger fun l => l.putAccount a { address := a }
    pure { address := a }

def processMultiSignAndEscrow (tx : Transaction) : NodeM σ Unit := do
  failIf (0 < tx.txData.escrowTransactionsDelay ∧ 0 < tx.txData.multiSignNumber) .bothPolicies
  failIf (tx.setsPolicy ∧ tx.recipient ≠ tx.sender) .policyNotOnSender
  let acc ← setAccountByAddressBytes tx.recipient
  if 0 < tx.txData.escrowTransactionsDelay then
    liftLedger fun l =>
      (acc.modifyAccountToEscrow tx.txData.escrowTransactionsDelay).map (l.putAccount acc.address)
  else if 0 < tx.txData.multiSignNumber then
    liftLedger fun l =>
      (acc.modifyAccountToMultiSign tx.txData.multiSignNumber tx.txData.multiSignAddresses).map
        (l.putAccount acc.address)
  else pure ()

def settleCommitment (tx : Transaction) (height : Int64) : NodeM σ Unit :=
  liftLedger fun l =>
    l.setAccountCommitments tx.sender tx.commitmentValues.1 tx.commitmentValues.2 height

/-- Adding a transaction to the escrow pool at inclusion: its height becomes the block's. -/
def holdInEscrow (tx : Transaction) (height : Int64) : NodeM σ Unit := fun s =>
  let r := s.addEscrowTransaction { tx with height }
  .ok () (if r.2 then { r.1 with log := .held .escrow tx height :: r.1.log } else r.1)

/-- Adding a main transaction to the multi-signature pool at inclusion. -/
def holdForApprovals (tx : Transaction) (height : Int64) : NodeM σ Unit := fun s =>
  let r := s.addMultiSignTransaction { tx with height }
  .ok () (if r.2 then { r.1 with log := .held .multiSign tx height :: r.1.log } else r.1)

def processRecoveryBind (env : Env σ) (tx : Transaction) (height fee : Int64) :
    NodeM σ Unit := do
  match parseRecoveryBind tx.txData.optData with
  | none => throw .recoveryDataMalformed
  | some (identity, tag, payload) => do
    modifyLedger fun l => (l.addTransactionsSender tx.sender).addRecoveryBind
      (env.recoveryBindKey identity tag) ⟨identity, payload, height⟩
    addBalance .fee tx.hash height tx.sender (-fee)

def processAddressReveal (env : Env σ) (tx : Transaction) (height fee : Int64) :
    NodeM σ Unit := do
  match parseAddressReveal tx.txData.optData with
  | none => throw .recoveryDataMalformed
  | some r => do
    let s ← get
    failIf (¬ ∃ acc ∈ s.ledger.account? tx.sender, acc.hasCommitments = false)
      .openedBeforeAddressReveal
    match env.recoveryTag r.oldPub with
    | none => throw .recoveryHashFailed
    | some tag => do
      modifyLedger fun l => l.addTransactionsSender tx.sender
      liftLedger fun l => l.setAccountCommitments tx.sender r.spare r.next height
      modifyLedger fun l => l.deleteRecoveryBind (env.recoveryBindKey tx.sender tag)
      addBalance .fee tx.hash height tx.sender (-fee)

def processRecoveryReveal (env : Env σ) (tx : Transaction) (height fee : Int64) :
    NodeM σ Unit := do
  match parseRecoveryReveal tx.txData.optData with
  | none => throw .recoveryDataMalformed
  | some (secret, next) => do
    let s ← get
    match env.recoveryCommitment secret with
    | none => throw .recoveryHashFailed
    | some c => do
      failIf (¬ ∃ acc ∈ s.ledger.account? tx.sender, c = acc.effectiveRecoveryCommit height)
        .recoveryCommitmentChanged
      match env.recoveryTag secret with
      | none => throw .recoveryHashFailed
      | some tag => do
        modifyLedger fun l => l.addTransactionsSender tx.sender
        liftLedger fun l => l.consumeAccountRecoveryCommit tx.sender next
        modifyLedger fun l => l.deleteRecoveryBind (env.recoveryBindKey tx.sender tag)
        addBalance .fee tx.hash height tx.sender (-fee)

def processCommitmentRegistration (tx : Transaction) (height fee : Int64) : NodeM σ Unit := do
  let s ← get
  match s.ledger.account? tx.sender with
  | none => throw .noAccountForCommitment
  | some acc => do
    modifyLedger fun l => l.addTransactionsSender tx.sender
    if 0 < acc.transactionDelay then holdInEscrow tx height
    else if 0 < acc.multiSignNumber then holdForApprovals tx height
    else do
      settleCommitment tx height
      record (.settled .standard tx height)
    addBalance .fee tx.hash height tx.sender (-fee)

/-- `processRecoveryTransaction`: is the transaction one of the recovery kinds? -/
def Transaction.isRecovery (tx : Transaction) : Bool :=
  tx.isRecoveryBind || tx.isRecoveryReveal || tx.isCommitmentRegistration

/-- `processRecoveryTransaction` on a transaction of one of the recovery kinds. -/
def processRecoveryTransaction (env : Env σ) (tx : Transaction) (height fee : Int64) :
    NodeM σ Unit :=
  if tx.isRecoveryBind then processRecoveryBind env tx height fee
  else if tx.isAddressReveal then processAddressReveal env tx height fee
  else if tx.isRecoveryReveal then processRecoveryReveal env tx height fee
  else processCommitmentRegistration tx height fee

def processCancellation (tx : Transaction) (target : Hash) (height fee : Int64) :
    NodeM σ Unit := do
  let s ← get
  match validateEscrowCancellation s tx height with
  | .error e => throw e
  | .ok _ => do
    addBalance .fee tx.hash height tx.sender (-fee)
    modify fun s => s.removeEscrowTransaction target
    modify fun s => { s with poolTxEscrow := s.poolTxEscrow.banTransactionByHash target }
    modify fun s => s.markVoided target height voidedCancelled
    record (.cancelled target tx.sender height)

/-- The `Stake` or `Unstake` call of the staking branch. A lock paid into someone else's
account is `StakeLockedFor`. -/
def stakeOrUnstake (tx : Transaction) (n : Nat) (height blockTime : Int64) : NodeM σ Unit :=
  let operational := !tx.txData.optData.isEmpty
  let own := tx.recipient == tx.sender
  if 0 < tx.txData.lockedAmount then
    if Common.minStakingUser ≤ tx.amount then
      liftLedger fun l => l.stake tx.recipient
        ⟨tx.amount, height, blockTime, n, own && operational, tx.txData.lockedAmount,
          tx.txData.releasePerBlock, !own⟩
    else throw .wrongLockingAmount
  else if Common.minStakingUser ≤ tx.amount then
    liftLedger fun l => l.stake tx.sender ⟨tx.amount, height, blockTime, n, operational, 0, 0, false⟩
  else if tx.amount < 0 then
    liftLedger fun l => l.unstake tx.sender tx.amount height blockTime n
  else throw .wrongStakingAmount

def processStaking (tx : Transaction) (n : Nat) (height blockTime fee : Int64) :
    NodeM σ Unit := do
  stakeOrUnstake tx n height blockTime
  addBalance .staking tx.hash height tx.sender (-fee - tx.amount)
  processMultiSignAndEscrow tx

/-- Delegated accounts `256..511`: rewards. A positive amount is "not implemented": it
moves nothing and charges nothing. -/
def processRewards (env : Env σ) (tx : Transaction) (n : Nat) (height fee : Int64) :
    NodeM σ Unit := do
  let s ← get
  failIf ((s.ledger.stakingAccount tx.sender (n % 256)).address ≠ tx.sender)
    .noStakingAccountForRewards
  if 0 < tx.amount then pure ()
  else if tx.amount < 0 then do
    liftLedger fun l => l.withdrawReward tx.sender tx.amount height (env.clock height) (n % 256)
    addBalance .staking tx.hash height tx.sender (-fee - tx.amount)
  else throw .wrongRewardingAmount

/-- The native transfer of an unheld transaction; the EVM has already moved the amount of
a contract call. -/
def moveAmount (tx : Transaction) (senderAcc : Account) (height : Int64) : NodeM σ Unit :=
  if isContractCallTx tx senderAcc then pure ()
  else do
    addBalance .inclusion tx.hash height tx.sender (-tx.amount)
    addBalance .inclusion tx.hash height tx.recipient tx.amount

def holdOrMove (tx : Transaction) (senderAcc : Account) (height : Int64) : NodeM σ Unit :=
  if 0 < senderAcc.transactionDelay ∧ tx.txParam.multiSignTx = zerosHash then
    holdInEscrow tx height
  else if 0 < senderAcc.multiSignNumber ∧ tx.txParam.multiSignTx = zerosHash then
    holdForApprovals tx height
  else do
    if tx.txParam.multiSignTx ≠ zerosHash then modify fun s => (s.addMultiSignTransaction tx).1
    moveAmount tx senderAcc height

def processStandard (tx : Transaction) (height fee : Int64) : NodeM σ Unit := do
  let s ← get
  match s.ledger.account? tx.sender with
  | none => throw .noAccountFound
  | some senderAcc => do
    holdOrMove tx senderAcc height
    addBalance .fee tx.hash height tx.sender (-fee)
    processMultiSignAndEscrow tx

def processDelegated (env : Env σ) (tx : Transaction) (n : Nat) (height blockTime fee : Int64) :
    NodeM σ Unit :=
  if n < 256 then processStaking tx n height blockTime fee
  else if n < 512 then processRewards env tx n height fee
  else addBalance .fee tx.hash height tx.sender (-fee)

def processTransaction (env : Env σ) (tx : Transaction) (height blockTime : Int64) :
    NodeM σ Unit :=
  match tx.calcFee with
  | none => throw .invalidFee
  | some fee =>
    if tx.isRecovery then processRecoveryTransaction env tx height fee
    else do
      modifyLedger fun l =>
        (l.addTransactionsSender tx.sender).addTransactionsRecipient tx.recipient
      match tx.cancellationTarget with
      | some target => processCancellation tx target height fee
      | none =>
        match tx.routingAccount with
        | none => throw .lockingAccountInvalid
        | some (some n) => processDelegated env tx n height blockTime fee
        | some none => processStandard tx height fee

/-- The loop of `CountMultiSignApprovals` over the signers not counted yet. -/
def countApprovals (mainTx : Transaction) : List AddressBytes → List Transaction → Nat
  | _, [] => 0
  | notApprovedYet, t :: rest =>
    if t.amount ≠ 0 ∨ t.recipient ≠ mainTx.recipient then
      countApprovals mainTx notApprovedYet rest
    else if t.sender ∈ notApprovedYet then
      countApprovals mainTx (notApprovedYet.erase t.sender) rest + 1
    else countApprovals mainTx notApprovedYet rest

def loadMultiSignMainTx (env : Env σ) (hash : Hash) : NodeM σ Transaction := do
  match ← attempt (loadFromDBPoolTx env .confirmed hash) with
  | some t => pure t
  | none => loadFromDBPoolTx env .pool hash

def multiSignGroup (s : Node σ) (main : Hash) : List Transaction :=
  s.poolTxMultiSign.peekTransactions Common.maxTransactionInPool (hashInt64 main)

/-- The main transaction of a group: the pooled one, or one recovered from the databases
and put into the pool. -/
def findMainTx (env : Env σ) (main : Hash) (txs : List Transaction) :
    NodeM σ (Option Transaction) := do
  match txs.find? (·.hash == main) with
  | some t => pure (some t)
  | none => do
    match ← attempt (loadMultiSignMainTx env main) with
    | some t => do
      modify fun s => (s.addMultiSignTransaction t).1
      pure (some t)
    | none => pure none

def executeMainTx (env : Env σ) (mainTx : Transaction) (height : Int64) : NodeM σ Unit := do
  record (.settled .multiSign mainTx height)
  modify fun s => s.removeMultiSignTransaction mainTx.hash
  if mainTx.isCommitmentRegistration then settleCommitment mainTx height
  else do
    onError (addBalance .multiSign mainTx.hash height mainTx.sender (-mainTx.amount))
      fun s => s.removeBadTransactionByHash env mainTx.hash
    addBalance .multiSign mainTx.hash height mainTx.recipient mainTx.amount

/-- The part of `ProcessTransactionsMultiSign` after the main transaction is known. -/
def settleMainTx (env : Env σ) (mainTx : Transaction) (txs : List Transaction)
    (height : Int64) : NodeM σ Unit := do
  if Common.maxTransactionInMultiSigPool < height - mainTx.height then do
    modify fun s => txs.foldl (fun s t =>
      (s.removeMultiSignTransaction t.hash).markVoided t.hash height voidedExpired) s
    throw (.mainTransactionExpired mainTx.hash)
  else do
    let s ← get
    match s.ledger.account? mainTx.sender with
    | none => throw .noAccountMultiSign
    | some acc =>
      if txs.length < acc.multiSignNumber.toNat then pure ()
      else if countApprovals mainTx acc.multiSignAddresses txs < acc.multiSignNumber.toNat then
        pure ()
      else
        match mainTx.routingAccount with
        | none => throw .lockingAccountInvalid
        | some (some _) => pure ()
        | some none =>
          if 0 < acc.transactionDelay ∧ height < mainTx.height + acc.transactionDelay then
            throw (.mainTransactionDelayed mainTx.hash)
          else executeMainTx env mainTx height

def processTransactionsMultiSign (env : Env σ) (tx : Transaction) (height : Int64) :
    NodeM σ Unit := do
  if tx.txParam.multiSignTx = zerosHash then pure ()
  else do
    let s ← get
    let txs := multiSignGroup s tx.txParam.multiSignTx
    match ← findMainTx env tx.txParam.multiSignTx txs with
    | none => do
      modify fun s => txs.foldl (fun s t => s.removeMultiSignTransaction t.hash) s
      throw (.noMainTransaction tx.txParam.multiSignTx)
    | some mainTx => settleMainTx env mainTx txs height

def payEscrow (env : Env σ) (tx : Transaction) (height : Int64) : NodeM σ Unit := do
  if tx.txParam.multiSignTx ≠ zerosHash then modify fun s => (s.addMultiSignTransaction tx).1
  onError (addBalance .escrow tx.hash height tx.sender (-tx.amount))
    fun s => s.removeBadTransactionByHash env tx.hash
  addBalance .escrow tx.hash height tx.recipient tx.amount
  modify fun s => s.removeEscrowTransaction tx.hash
  record (.settled .escrow tx height)

def settleEscrow (env : Env σ) (height : Int64) (tx : Transaction) : NodeM σ Unit := do
  match tx.routingAccount with
  | none => throw .lockingAccountInvalid
  | some (some _) => pure ()
  | some none => do
    let s ← get
    match s.ledger.account? tx.sender with
    | none => throw .noAccountEscrow
    | some senderAcc =>
      if 0 < senderAcc.transactionDelay ∧ height < tx.height + senderAcc.transactionDelay ∧
          tx.txParam.multiSignTx = zerosHash then pure ()
      else if 0 < senderAcc.multiSignNumber ∧ tx.txParam.multiSignTx = zerosHash then
        modify fun s =>
          let r := s.addMultiSignTransaction tx
          if r.2 then r.1.removeEscrowTransaction tx.hash else r.1
      else if tx.isCommitmentRegistration then do
        settleCommitment tx height
        modify fun s => s.removeEscrowTransaction tx.hash
        record (.settled .escrow tx height)
      else payEscrow env tx height

def processTransactionsEscrow (env : Env σ) (height : Int64) : NodeM σ Unit := do
  let s ← get
  (s.poolTxEscrow.peekTransactions Common.maxTransactionInPool height).forM
    (settleEscrow env height)

end QwidNode.Source

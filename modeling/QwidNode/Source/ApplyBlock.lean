import QwidNode.Source.CheckBlock
import QwidNode.Source.Evaluate

/-!
# Applying a block

Source: `blocks/processBlock.go:104-139` (`validateBlockTxHashes`, `CheckBaseBlock`),
`:591-707` (`ProcessBlockTransfers`), `:876-1062` (`CheckBlockAndTransferFunds`),
`blocks/randao.go:158-170` and `blocks/recovery.go:120-128`.
-/
namespace QwidNode.Source
open Lib
variable {σ : Type}

def processBlockTx (env : Env σ) (block : Block) (hash : Hash) : NodeM σ Unit := do
  checkTransactionInDBAndInMarkleTrie hash
  let poolTx ← loadFromDBPoolTx env .pool hash
  record (.included poolTx block.height)
  onError (processTransaction env poolTx block.height block.blockTimeStamp)
    fun s => s.removeBadTransactionByHash env poolTx.hash
  onError (processTransactionsMultiSign env poolTx block.height)
    fun s => s.removeBadTransactionByHash env poolTx.hash

def giveReward (env : Env σ) (block : Block) (n : Nat) (a : AddressBytes) (amount : Int64) :
    NodeM σ Unit :=
  liftLedger fun l => l.reward a amount block.height (env.clock block.height) n

/-- The part of the reward that goes to one staker, computed without overflow. -/
def userReward (reward sum balance : Int64) : Int64 :=
  Int64.ofInt (reward.toInt * balance.toInt / sum.toInt)

/-- The loop over the stakers; the result is what is left of the reward. -/
def rewardUsers (env : Env σ) (block : Block) (n : Nat) (reward sum : Int64) :
    List (AddressBytes × Int64) → Int64 → NodeM σ Int64
  | [], rest => pure rest
  | (a, balance) :: staked, rest =>
    if 0 < balance then do
      giveReward env block n a (userReward reward sum balance)
      rewardUsers env block n reward sum staked (rest - userReward reward sum balance)
    else rewardUsers env block n reward sum staked rest

/-- The operator's part, then the stakers' parts, then the rest to the operator. -/
def distributeReward (env : Env σ) (block : Block) (n : Nat) (reward sum : Int64)
    (staked : List (AddressBytes × Int64)) : NodeM σ Unit := do
  let operator := block.operatorAccount.byteValue
  let rewardOper := reward * block.rewardPercentage.toInt64 / 1000
  giveReward env block n operator rewardOper
  let rest ← rewardUsers env block n (reward - rewardOper) sum staked (reward - rewardOper)
  if 0 < rest then giveReward env block n operator rest
  else failIf (rest < 0) .restNegative

def rewardBlock (env : Env σ) (block : Block) (reward : Int64) : NodeM σ Unit := do
  match intDelegatedAccountFromAddress block.delegatedAccount with
  | none => throw .wrongDelegatedAccount
  | some n => do
    failIf (n < 1 ∨ 255 < n) .wrongDelegatedAccount
    let s ← get
    let (staked, sum, _) := s.ledger.getStakedInDelegatedAccount n
    failIf (sum ≤ 0) .noStakedAmount
    failIf (500 < block.rewardPercentage) .rewardTooLarge
    distributeReward env block n reward sum staked

def applyRandaoCommit (block : Block) : NodeM σ Unit :=
  if block.height = 0 then pure ()
  else
    match intDelegatedAccountFromAddress block.delegatedAccount with
    | none => throw .wrongDelegatedForRandao
    | some n => do
      failIf (n < 1 ∨ 255 < n) .wrongDelegatedForRandao
      liftLedger fun l =>
        l.setRandCommit n block.operatorAccount.byteValue block.randCommit block.height

/-- `ProcessBlockTransfers`: transactions, reward, commitment, and last the matured
escrows, whose error is only logged. -/
def processBlockTransfers (env : Env σ) (block : Block) (reward : Int64) : NodeM σ Unit := do
  modify fun s => s.beginPendingPoolJournal block.height
  withDefer
    (do
      block.transactionsHashes.forM (processBlockTx env block)
      rewardBlock env block reward
      applyRandaoCommit block
      logError (processTransactionsEscrow env block.height))
    Node.endPendingPoolJournal

def checkHeader (env : Env σ) (block lastBlock : Block) : NodeM σ Unit := do
  let s ← get
  failIf (env.headerSignatureValid block lastBlock = false) .headerSignature
  failIf (block.height ≠ 0 ∧ env.claimedStateRoot block ≠ env.stateRoot s.ledger s.dex s.evm)
    .stateRoot
  failIf (env.stakeDependentValid s.ledger block lastBlock = false) .stakeDependent
  match intDelegatedAccountFromAddress block.delegatedAccount with
  | none => throw .wrongDelegatedAccount
  | some n => do
    failIf (n < 1 ∨ 255 < n) .wrongDelegatedAccount
    let (_, sumStaked, operator) := s.ledger.getStakedInDelegatedAccount n
    failIf (sumStaked < Common.minStakingForNode ∨ operator ≠ block.operatorAccount.byteValue)
      .notValidOperator

/-- The supply of the ledger as the source adds it up, before the reward is distributed. -/
def calculatedSupply (l : Ledger) (reward lastBlockFee : Int64) : Int64 :=
  l.getSupplyInAccounts + l.getSupplyInStakedAccounts.1 + l.getSupplyInStakedAccounts.2 +
    reward + lastBlockFee

def applyRecoveryMaintenance (env : Env σ) (block lastBlock : Block) (l : Ledger) : Ledger :=
  let l := l.pruneRecoveryBinds block.height
  if env.schemeBroken block lastBlock then l.voidPendingRecoveryCommits block.height else l

/-- The batch writes for one transaction; one that is missing from the pool database is
skipped. -/
def Db.commitTx (db : Db σ) (height : Int64) (hash : Hash) : Db σ :=
  match db.poolTx.lookup hash with
  | none => db
  | some tx =>
    { db with
      confirmedTx := db.confirmedTx.insert hash tx
      includedTx := db.includedTx.insert hash height
      poolTx := db.poolTx.erase hash }

def Db.commitBatch (db : Db σ) (block : Block) : Db σ :=
  block.transactionsHashes.foldl (fun db hash => db.commitTx block.height hash) db

def Node.removeAllTransactionsRelatedToBlock (s : Node σ) (block : Block) : Node σ :=
  block.transactionsHashes.foldl (fun s hash =>
    { s with
      poolsTx := s.poolsTx.removeTransactionByHash hash
      db := s.db.removePoolTx hash }) s

/-- `CheckBlockAndTransferFunds`; the result is the block with its fee filled in. -/
def checkBlockAndTransferFunds (env : Env σ) (newBlock lastBlock : Block) : NodeM σ Block := do
  checkHeader env newBlock lastBlock
  let (reward, totalFee) ← checkBlockTransfers env newBlock lastBlock
  let block := { newBlock with blockFee := totalFee + lastBlock.blockFee }
  evaluateSmartContracts env block
  let s ← get
  failIf (calculatedSupply s.ledger reward lastBlock.blockFee ≠ block.supply) .supplyMismatch
  failIf (env.pubKeysStored block = false) .pubKeysFail
  processBlockTransfers env block reward
  modifyLedger (applyRecoveryMaintenance env block lastBlock)
  modifyDb fun db => db.commitBatch block
  modify fun s => s.removeAllTransactionsRelatedToBlock block
  pure block

/-- The last block of a node whose fees are all distributed, with the supply it must have. -/
def Node.parentBlock (s : Node Unit) (height : Int64) : Block :=
  .operated height (calculatedSupply s.ledger 0 0) []

/-- The next block of the operator of `Node.small`, with the supply it must have. -/
def Node.nextBlock (s : Node Unit) (height : Int64) (hashes : List Hash) : Block :=
  .operated height (calculatedSupply s.ledger (getReward (s.parentBlock height).supply) 0) hashes

def checkBaseBlock (env : Env σ) (block lastBlock : Block) : Except Error Unit :=
  if Common.maxTotalSupply < block.supply then .error .supplyTooHigh
  else if block.rewardPercentage < 0 ∨ 500 < block.rewardPercentage then
    .error (.rewardPercentageOutside block.rewardPercentage)
  else if Common.maxTransactionsPerBlock < block.transactionsHashes.length then
    .error .tooManyTransactions
  else if ¬ block.transactionsHashes.Nodup then .error .duplicateTransactionHash
  else if 0 < block.height ∧ lastBlock.blockHash ≠ block.previousHash then
    .error .previousHashMismatch
  else if env.baseBlockValid block lastBlock = false then .error .baseBlockFails
  else .ok ()

end QwidNode.Source

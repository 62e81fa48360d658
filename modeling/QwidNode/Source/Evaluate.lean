import QwidNode.Source.ProcessTransaction

/-!
# The EVM pass over a block

Source: `blocks/evaluate.go:280-460` (DEX order checks), `:464-707`
(`EvaluateSCForBlock`) and `blocks/processBlock.go:709-745`. The EVM and the
floating-point prices are functions of the environment; which transaction reaches
them, in which state, and what is done with their results is the code's.
-/
namespace QwidNode.Source
open Lib
variable {σ : Type}

def dropBadTransaction (env : Env σ) (hash : Hash) (s : Node σ) : Node σ :=
  s.removeBlockBreakingTransactionByHash env hash

/-- The state after an EVM execution: its own, and the native balances it set. -/
def Node.applyRun (s : Node σ) (run : EvmRun σ) : Node σ :=
  { s with
    evm := run.state
    ledger := run.balances.foldl (fun l b => l.setBalance b.1 b.2) s.ledger }

def dexOrderAffordable (env : Env σ) (s : Node σ) (t : Transaction) (op : Nat) (q : DexQuote)
    (accDex : DexAccount) (dexAccount senderAccount : Account) : Bool :=
  let token := t.contractAddress.byteValue
  let provided := (accDex.balances.lookup senderAccount.address).getD {}
  match env.tokenBalance s.evm token t.sender, env.tokenBalance s.evm token dexAccountAddress with
  | some balanceToken, some balanceDexToken =>
    !decide (dexAccount.balance - q.coinAmount < 0) &&
      !decide (balanceDexToken - q.tokenAmount < 0) &&
      !decide (senderAccount.balance + q.coinAmount < 0) &&
      !decide (balanceToken + q.tokenAmount < 0) &&
      !decide (accDex.coinPool < q.coinAmount) && !decide (accDex.tokenPool < q.tokenAmount) &&
      !((op == 5 || op == 6) && decide (provided.coinBalance - q.coinAmount < 0)) &&
      !((op == 5 || op == 6) && decide (provided.tokenBalance - q.tokenAmount < 0))
  | _, _ => false

/-- `GenerateOptDataDEX`: the order's amounts, or nothing when it cannot execute. -/
def generateOptDataDEX (env : Env σ) (t : Transaction) (op : Nat) :
    NodeM σ (Option DexQuote) := do
  let s ← get
  let accDex := (s.dex.lookup t.contractAddress.byteValue).getD {}
  match env.dexQuote s.evm accDex t op, s.ledger.account? t.sender with
  | some q, some senderAccount =>
    if senderAccount.address ≠ t.sender then pure none
    else do
      let dexAccount ← setAccountByAddressBytes dexAccountAddress
      if dexOrderAffordable env s t op q accDex dexAccount senderAccount then pure (some q)
      else pure none
  | _, _ => pure none

def tradedDexAccount (env : Env σ) (s : Node σ) (t : Transaction) (op : Nat) (q : DexQuote) :
    DexAccount :=
  let accDex := (s.dex.lookup t.contractAddress.byteValue).getD {}
  let own := (accDex.balances.lookup t.sender).getD {}
  { balances :=
      if op = 2 ∨ 4 < op then
        accDex.balances.insert t.sender
          ⟨own.coinBalance - q.coinAmount, own.tokenBalance - q.tokenAmount⟩
      else FinMap.mapValues (env.liquidityShare s.evm accDex t q) accDex.balances
    coinPool := accDex.coinPool + -q.coinAmount
    tokenPool := accDex.tokenPool + -q.tokenAmount
    tokenPrice := q.tokenPrice }

/-- The coins of a DEX order and its pool, once the tokens have moved. -/
def settleDexOrder (env : Env σ) (bl : Block) (t : Transaction) (op : Nat) (q : DexQuote) :
    NodeM σ Unit := do
  onError (addBalance .dex t.hash bl.height t.sender q.coinAmount)
    (dropBadTransaction env t.hash)
  onError (addBalance .dex t.hash bl.height dexAccountAddress (-q.coinAmount))
    (dropBadTransaction env t.hash)
  let s ← get
  if env.tokenKnown s.evm t.contractAddress.byteValue then
    modify fun s => { s with
      dex := s.dex.insert t.contractAddress.byteValue (tradedDexAccount env s t op q) }
  else do
    modify (dropBadTransaction env t.hash)
    throw .smartContractsFail

def evaluateDexOrder (env : Env σ) (bl : Block) (p : TxPrefix) (t : Transaction) (op : Nat) :
    NodeM σ Unit := do
  match ← generateOptDataDEX env t op with
  | none => pure ()
  | some q => do
    let s ← get
    let run := env.evaluateSCDex s.evm s.ledger t q bl
    modify fun s => s.applyRun run
    match run.outcome with
    | .executionError _ => pure ()
    | .nodeError => do
      modify (dropBadTransaction env t.hash)
      throw .smartContractsFail
    | .success _ logs => do
      modifyDb fun db => db.storeTx p { t with outputLogs := logs }
      settleDexOrder env bl t op q

/-- The contract branch of `EvaluateSCForBlock`: `EvaluateSC` and what follows. -/
def evaluateContract (env : Env σ) (bl : Block) (p : TxPrefix) (t : Transaction) :
    NodeM σ Unit := do
  record (.evaluated t bl.height)
  let s ← get
  let run := env.evaluateSC s.evm s.ledger t bl
  modify fun s => s.applyRun run
  match run.outcome with
  | .success contract logs => do
    record (.entryValue t bl.height)
    modifyDb fun db => db.storeTx p { t with outputLogs := logs, contractAddress := contract }
  | .executionError logs => modifyDb fun db => db.storeTx p { t with outputLogs := logs }
  | .nodeError => do
    modify (dropBadTransaction env t.hash)
    throw .smartContractsFail

/-- Does `EvaluateSCForBlock` hand the transaction to `EvaluateSC`, given its sender's
account? -/
def reachesEvm (t : Transaction) (senderAcc : Account) : Bool :=
  !decide senderAcc.restricted && !isRecoveryAddress t.txData.recipient &&
    !t.isCommitmentRegistration && (intDelegatedAccountFromAddress t.txData.recipient).isNone &&
    !t.txData.optData.isEmpty && t.cancellationTarget.isNone

/-- The loop body of `EvaluateSCForBlock` after the transaction is loaded. -/
def evaluateLoaded (env : Env σ) (bl : Block) (p : TxPrefix) (t : Transaction) :
    NodeM σ Unit := do
  let s ← get
  match s.ledger.account? t.sender with
  | none => pure ()
  | some senderAcc =>
    if senderAcc.restricted then pure ()
    else if isRecoveryAddress t.txData.recipient ∨ t.isCommitmentRegistration then pure ()
    else
      match intDelegatedAccountFromAddress t.txData.recipient with
      | some n => if 512 < n then evaluateDexOrder env bl p t (n - 512) else pure ()
      | none =>
        if t.txData.optData.isEmpty ∨ t.cancellationTarget.isSome then pure ()
        else evaluateContract env bl p t

/-- The loop body of `EvaluateSCForBlock`: pool database first, then the confirmed one. -/
def evaluateHash (env : Env σ) (bl : Block) (hash : Hash) : NodeM σ Unit := do
  match ← attempt (loadFromDBPoolTx env .pool hash) with
  | some t => evaluateLoaded env bl .pool t
  | none => do
    let t ← loadFromDBPoolTx env .confirmed hash
    evaluateLoaded env bl .confirmed t

/-- `EvaluateSmartContracts`: any error fails the block with one text. -/
def evaluateSmartContracts (env : Env σ) (bl : Block) : NodeM σ Unit := fun s =>
  match bl.transactionsHashes.forM (evaluateHash env bl) s with
  | .ok _ t => .ok () t
  | .error _ t => .error .smartContractsFail t

end QwidNode.Source

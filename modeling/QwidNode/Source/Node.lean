import QwidNode.Lib.Exec
import QwidNode.Source.Pool
import QwidNode.Source.Staking

/-!
# The node: its state, its database and what surrounds it

The globals of the node (accounts, staking, DEX, EVM state, the three pools, the height) and the
database prefixes of block application are the fields of `Node` and `Db`. Database operations
succeed; a stored transaction is its own encoding, and a stored snapshot is what its decoder
makes of it (`Stored`). Hashes, signatures and the key registry, the EVM, the floating-point DEX
prices and header checks are functions of the record `Env`, about which nothing is assumed unless
a theorem says so.

`Node.log` is not in the source: it records what the modelled functions did to coins, for
statements about whole runs. No function reads it.
-/
namespace QwidNode.Source
open Lib

structure Block where
  height : Int64
  previousHash : Hash
  delegatedAccount : Address
  operatorAccount : Address
  encryption1 : Bytes
  encryption2 : Bytes
  blockTimeStamp : Int64
  rewardPercentage : Int16
  supply : Int64
  randCommit : Hash
  transactionsHashes : List Hash
  blockHash : Hash
  blockFee : Int64
  randReveal : Bytes := []
  randMix : Hash := 0
  randOracle : Int64 := 0
  randOracleData : Bytes := []
  /-- The signed oracle submissions, which also carry the scheme votes. -/
  oracleProofs : List Bytes := []
deriving DecidableEq, Repr

structure CoinTokenDetails where
  coinBalance : Int64 := 0
  tokenBalance : Int64 := 0
deriving DecidableEq, Repr

structure DexAccount where
  balances : FinMap AddressBytes CoinTokenDetails := ∅
  coinPool : Int64 := 0
  tokenPool : Int64 := 0
  tokenPrice : Int64 := 0

/-- One entry of the pending-pool journal: which pool, added or removed, and what. -/
structure JournalEntry where
  pool : PoolType
  added : Bool
  transaction : Transaction
deriving DecidableEq, Repr

/-- Why coins move. Each constructor is one place of the source that calls `AddBalance`. -/
inductive Route where
  | fee
  | inclusion
  | staking
  | multiSign
  | escrow
  | dex
deriving DecidableEq, Repr

/-- One successful `AddBalance`, with the transaction it is done for. -/
structure Move where
  route : Route
  hash : Hash
  height : Int64
  address : AddressBytes
  added : Int64
deriving DecidableEq, Repr

/-- What a run did. A commitment registration that takes effect at inclusion is `settled` in the
standard pool. `evaluated` is a transaction handed to `EvaluateSC`, `entryValue` one
whose execution succeeded and so moved its `Amount` as message value. -/
inductive Event where
  | included (tx : Transaction) (height : Int64)
  | moved (m : Move)
  | held (pool : PoolType) (tx : Transaction) (height : Int64)
  | settled (pool : PoolType) (tx : Transaction) (height : Int64)
  | cancelled (target : Hash) (sender : AddressBytes) (height : Int64)
  | evaluated (tx : Transaction) (height : Int64)
  | entryValue (tx : Transaction) (height : Int64)
deriving DecidableEq, Repr

/-- A snapshot in the database, as `Unmarshal` finds it: it decodes, or `Unmarshal` gives
up with an error after it has written to the live value, which it decodes into in place. -/
inductive Stored (α : Type) where
  | whole (value : α)
  | broken (write : α → α)

/-- `Unmarshal` over a live value: what it leaves there, and whether it succeeds. -/
def Stored.load {α : Type} (stored : Stored α) (live : α) : α × Bool :=
  match stored with
  | .whole value => (value, true)
  | .broken write => (write live, false)

/-- The database prefixes used by block application, rewinds and startup. -/
structure Db (σ : Type) where
  /-- `TransactionPoolHashesDBPrefix` -/
  poolTx : FinMap Hash Transaction := ∅
  /-- `TransactionDBPrefix` -/
  confirmedTx : FinMap Hash Transaction := ∅
  /-- `BadTransactionDBPrefix` -/
  badTx : FinMap Hash Transaction := ∅
  /-- `IncludedTxDBPrefix` -/
  includedTx : FinMap Hash Int64 := ∅
  /-- `VoidedTxDBPrefix`: height and reason -/
  voidedTx : FinMap Hash (Int64 × UInt8) := ∅
  /-- `EscrowPoolDBPrefix` -/
  escrowPool : FinMap Hash Transaction := ∅
  /-- `MultiSignPoolDBPrefix` -/
  multiSignPool : FinMap Hash Transaction := ∅
  /-- `PendingPoolJournalDBPrefix`: height and sequence -/
  pendingJournal : FinMap (Int64 × Nat) JournalEntry := ∅
  /-- `BlocksDBPrefix` -/
  blocks : FinMap Hash Block := ∅
  /-- `BlockByHeightDBPrefix` -/
  blockByHeight : FinMap Int64 Hash := ∅
  /-- Account snapshots, with the recovery binds. -/
  accountsAt : FinMap Int64
    (Stored (FinMap AddressBytes Account × FinMap Hash RecoveryBind)) := ∅
  /-- Staking snapshots whose completeness manifest is written; `none` when one of the 256
  shards is missing or does not decode. -/
  stakingAt : FinMap Int64
    (Option (FinMap (Nat × AddressBytes) StakingAccount × FinMap Nat Int64)) := ∅
  dexAt : FinMap Int64 (Stored (FinMap AddressBytes DexAccount)) := ∅
  evmAt : FinMap Int64 (Stored σ) := ∅
  /-- `StateCommitDBPrefix` -/
  stateCommitAt : FinMap Int64 Hash := ∅
  /-- The recorded last snapshot heights; `none` in a database older than the record. -/
  accountsLast : Option Int64 := none
  stakingLast : Option Int64 := none
  dexLast : Option Int64 := none

structure Node (σ : Type) where
  ledger : Ledger := {}
  dex : FinMap AddressBytes DexAccount := ∅
  evm : σ
  poolsTx : TransactionPool .standard := .empty _
  poolTxEscrow : TransactionPool .escrow := .empty _
  poolTxMultiSign : TransactionPool .multiSign := .empty _
  db : Db σ := {}
  height : Int64 := 0
  journalHeight : Int64 := 0
  journalSeq : Nat := 0
  journalPaused : Bool := false
  log : List Event := []

inductive EvmOutcome where
  | success (contract : Address) (logs : Bytes)
  /-- `isEVMExecutionError`: the transaction failed, the block goes on. -/
  | executionError (logs : Bytes)
  /-- Any other error: the block fails. -/
  | nodeError
deriving DecidableEq, Repr

/-- An EVM execution: the new EVM state, the native balances it set, how it ended. -/
structure EvmRun (σ : Type) where
  state : σ
  balances : List (AddressBytes × Int64)
  outcome : EvmOutcome

/-- The priced DEX order: coins and tokens the sender receives, and the scaled price. -/
structure DexQuote where
  coinAmount : Int64
  tokenAmount : Int64
  tokenPrice : Int64
deriving DecidableEq, Repr

/-- Against what a transaction is verified: the block whose scheme configuration applies,
the height up to which key registrations count (`none` is `NoHeightLimit`), and the
height a recovery transaction is judged at. -/
structure VerifyContext where
  config : Block
  asOf : Option Int64
  height : Int64
deriving DecidableEq, Repr

structure Env (σ : Type) where
  /-- `common.CalcHashFromBytes` of the transaction hash preimage. -/
  calcHash : HashPreimage → Hash
  /-- `pubkeys.HasOperatorKeysAsOf`. -/
  hasOperatorKeysAsOf : AddressBytes → Option Int64 → Bool
  /-- The part of `verify` after the hash check: key lookup and signature. -/
  signatureValid : Ledger → Transaction → VerifyContext → Bool
  /-- The key checks of `verifyRecoveryReveal`: the address of the revealed key. -/
  revealedKey : Transaction → VerifyContext → Option AddressBytes
  /-- The signature check of `verifyRecoveryReveal`. -/
  revealSignatureValid : Transaction → VerifyContext → Bool
  /-- `verifyAddressOpening` without its look at the account. -/
  addressOpeningValid : Transaction → AddressBytes → AddressReveal → VerifyContext → Bool
  recoveryCommitment : Bytes → Option AddressBytes
  recoveryTag : Bytes → Option Hash
  recoveryBindKey : AddressBytes → Hash → Hash
  recoveryPayload : AddressBytes → AddressBytes → AddressBytes → Bytes → Option Hash
  addressOpenPayload : AddressBytes → AddressBytes → AddressReveal → Option Hash
  /-- `EvaluateSC`, with the token registration that follows a deployment. -/
  evaluateSC : σ → Ledger → Transaction → Block → EvmRun σ
  /-- `EvaluateSCDex`: the token transfer of a DEX order. -/
  evaluateSCDex : σ → Ledger → Transaction → DexQuote → Block → EvmRun σ
  /-- `GenerateOptDataDEX` up to its balance checks: shape, prices and limits. -/
  dexQuote : σ → DexAccount → Transaction → Nat → Option DexQuote
  /-- `GetBalance` of a token for a holder. -/
  tokenBalance : σ → AddressBytes → AddressBytes → Option Int64
  /-- Is the address in `State.Tokens`? -/
  tokenKnown : σ → AddressBytes → Bool
  /-- The share of a trade that `EvaluateSCForBlock` adds to one liquidity provider. -/
  liquidityShare : σ → DexAccount → Transaction → DexQuote → CoinTokenDetails → CoinTokenDetails
  /-- `verifyBlockHeaderSignature`. -/
  headerSignatureValid : Block → Block → Bool
  /-- `ComputeStateRoot`. -/
  stateRoot : Ledger → FinMap AddressBytes DexAccount → σ → Hash
  /-- The state root a block header names. -/
  claimedStateRoot : Block → Hash
  /-- `VerifyStakeDependent`. -/
  stakeDependentValid : Ledger → Block → Block → Bool
  /-- The checks of `CheckBaseBlock` other than supply, reward percentage and hashes. -/
  baseBlockValid : Block → Block → Bool
  /-- `ProcessBlockPubKey` succeeds. -/
  pubKeysStored : Block → Bool
  /-- `schemeBroken`. -/
  schemeBroken : Block → Block → Bool
  /-- `Block.CalcBlockHash`. -/
  calcBlockHash : Block → Hash
  /-- `RevertToSnapshot` and `CleanupContractsAfterHeight`: the undo of balance changes
  writes native accounts. -/
  evmReverted : Int64 → σ → Ledger → σ × Ledger
  /-- A decoded snapshot over the EVM state in memory, whose other fields stay. -/
  evmLoaded : σ → σ → σ
  /-- `MarkChanged`. -/
  evmMarked : σ → σ
  /-- `ChangedSinceStore`. -/
  evmChanged : σ → Bool
  /-- The EVM state once it is stored: no longer changed. -/
  evmStored : σ → σ
  /-- `time.Now().Unix()` when the block at a height is applied. -/
  clock : Int64 → Int64

/-- The message value of a call, as `evmCanTransfer` and `evmTransfer` move it. -/
def Ledger.callValue (l : Ledger) (t : Transaction) : EvmRun Unit :=
  let held := (l.accountOrNew t.sender).balance
  let received := (l.accountOrNew t.recipient).balance
  let amount := t.txData.amount
  if amount < 0 ∨ held < amount ∨ received + amount < 0 then ⟨(), [], .executionError []⟩
  else if t.sender = t.recipient then ⟨(), [], .success emptyAddress []⟩
  else ⟨(), [(t.sender, held - amount), (t.recipient, received + amount)], .success emptyAddress []⟩

/-- An environment in which every external check succeeds, contracts have no code (a call only
moves its value), orders do nothing and a hash is read off gas price and usage. It makes the
model executable on small inputs; hashes differ when gas prices do. -/
def Env.permissive : Env Unit where
  calcHash p := BitVec.ofInt 256 (p.gasPrice.toInt * 2 ^ 192 + p.gasUsage.toInt)
  hasOperatorKeysAsOf _ _ := true
  signatureValid _ _ _ := true
  revealedKey _ _ := none
  revealSignatureValid _ _ := true
  addressOpeningValid _ _ _ _ := true
  recoveryCommitment _ := none
  recoveryTag _ := none
  recoveryBindKey _ tag := tag
  recoveryPayload _ _ _ _ := none
  addressOpenPayload _ _ _ := none
  evaluateSC _ ledger t _ := ledger.callValue t
  evaluateSCDex _ _ _ _ _ := ⟨(), [], .executionError []⟩
  dexQuote _ _ _ _ := none
  tokenBalance _ _ _ := none
  tokenKnown _ _ := false
  liquidityShare _ _ _ _ d := d
  headerSignatureValid _ _ := true
  stateRoot _ _ _ := 0
  claimedStateRoot _ := 0
  stakeDependentValid _ _ _ := true
  baseBlockValid _ _ := true
  pubKeysStored _ := true
  schemeBroken _ _ := false
  calcBlockHash b := b.blockHash
  evmReverted _ _ l := ((), l)
  evmLoaded _ _ := ()
  evmMarked _ := ()
  evmChanged _ := false
  evmStored _ := ()
  clock h := h

/-- A transfer without data, lock or policy, hashed as `Env.permissive` does. -/
def Transaction.plain (sender recipient : AddressBytes) (amount gasPrice height : Int64) :
    Transaction where
  txData := ⟨⟨recipient, true⟩, amount, [], ⟨[], emptyAddress, emptyAddress, true⟩, 0, 0,
    emptyAddress, 0, 0, []⟩
  txParam := ⟨Common.chainID, ⟨sender, true⟩, 0, 0, zerosHash⟩
  hash := BitVec.ofInt 256 (gasPrice.toInt * 2 ^ 192 + 30000)
  signature := []
  height := height
  gasPrice := gasPrice
  gasUsage := 30000
  outputLogs := []
  contractAddress := emptyAddress

def Block.plain (height supply : Int64) (transactionsHashes : List Hash) : Block where
  height := height
  previousHash := 0
  delegatedAccount := emptyAddress
  operatorAccount := emptyAddress
  encryption1 := []
  encryption2 := []
  blockTimeStamp := 0
  rewardPercentage := 0
  supply := supply
  randCommit := 0
  transactionsHashes := transactionsHashes
  blockHash := 0
  blockFee := 0

def Transaction.hashed (tx : Transaction) : Transaction :=
  { tx with hash := Env.permissive.calcHash tx.hashPreimage }

def Block.operated (height supply : Int64) (transactionsHashes : List Hash) : Block :=
  { Block.plain height supply transactionsHashes with
    delegatedAccount := getDelegatedAccountAddress 1
    operatorAccount := ⟨0xAA, true⟩ }

/-- A node with given accounts, given pooled transactions and one operator, whose stake is
the least that may produce blocks. -/
def Node.small (accounts : List Account) (txs : List Transaction) : Node Unit where
  evm := ()
  ledger :=
    { accounts := accounts.foldl (fun m acc => m.insert acc.address acc) ∅
      staking := (∅ : FinMap (Nat × AddressBytes) StakingAccount).insert (1, 0xAA)
        { stakedBalance := Common.minStakingForNode
          address := 0xAA
          delegatedAccount := (getDelegatedAccountAddress 1).byteValue
          operationalAccount := true
          operationalSince := 1 } }
  db := { poolTx := txs.foldl (fun m tx => m.insert tx.hash tx) ∅ }

abbrev NodeM (σ : Type) := EStateM Error (Node σ)

variable {σ : Type}

def modifyLedger (f : Ledger → Ledger) : NodeM σ Unit :=
  modify fun s => { s with ledger := f s.ledger }

def modifyDb (f : Db σ → Db σ) : NodeM σ Unit := modify fun s => { s with db := f s.db }

def record (e : Event) : NodeM σ Unit := modify fun s => { s with log := e :: s.log }

def liftLedger (f : Ledger → Except Error Ledger) : NodeM σ Unit := do
  match f (← get).ledger with
  | .ok l => modifyLedger fun _ => l
  | .error e => throw e

end QwidNode.Source

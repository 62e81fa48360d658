import QwidNode.Source.Node

/-!
# Pending pools, their journal and the transaction stores

Source: `transactionsPool/escrowPersistence.go:34-58`, `multisigPersistence.go:21-58`,
`pendingJournal.go`, `helper.go` and `transactionsDefinition/transaction.go:298-361`.
The pool operations cannot fail; loading a stored transaction can, and on a mismatching
pool entry deletes it before failing.
-/
namespace QwidNode.Source
open Lib
variable {σ : Type}

inductive TxPrefix where
  | pool
  | confirmed
  | bad
deriving DecidableEq, Repr

def Db.txs (db : Db σ) : TxPrefix → FinMap Hash Transaction
  | .pool => db.poolTx
  | .confirmed => db.confirmedTx
  | .bad => db.badTx

def Db.storeTx (db : Db σ) (p : TxPrefix) (tx : Transaction) : Db σ :=
  match p with
  | .pool => { db with poolTx := db.poolTx.insert tx.hash tx }
  | .confirmed => { db with confirmedTx := db.confirmedTx.insert tx.hash tx }
  | .bad => { db with badTx := db.badTx.insert tx.hash tx }

def Db.removePoolTx (db : Db σ) (hash : Hash) : Db σ :=
  { db with poolTx := db.poolTx.erase hash }

def bodyMatches (env : Env σ) (hash : Hash) (tx : Transaction) : Bool :=
  tx.hash == hash && env.calcHash tx.hashPreimage == tx.hash

def Db.loadTx? (env : Env σ) (db : Db σ) (p : TxPrefix) (hash : Hash) : Option Transaction :=
  ((db.txs p).lookup hash).filter (bodyMatches env hash)

def loadFromDBPoolTx (env : Env σ) (p : TxPrefix) (hash : Hash) : NodeM σ Transaction := do
  match ((← get).db.txs p).lookup hash with
  | none => throw (.keyNotFound hash)
  | some tx =>
    if bodyMatches env hash tx then pure tx
    else do
      if p = .pool then modifyDb fun db => db.removePoolTx hash
      throw (.bodyDoesNotMatchHash hash)

def Node.journalPendingChange (s : Node σ) (pool : PoolType) (added : Bool)
    (tx : Transaction) : Node σ :=
  if s.journalHeight ≤ 0 ∨ s.journalPaused then s
  else
    { s with
      journalSeq := s.journalSeq + 1
      db := { s.db with
        pendingJournal :=
          s.db.pendingJournal.insert (s.journalHeight, s.journalSeq) ⟨pool, added, tx⟩ } }

def Node.addEscrowTransaction (s : Node σ) (tx : Transaction) : Node σ × Bool :=
  let r := s.poolTxEscrow.addTransaction tx tx.hash
  let s := { s with poolTxEscrow := r.1 }
  if r.2 then
    let s := s.journalPendingChange .escrow true tx
    ({ s with db := { s.db with escrowPool := s.db.escrowPool.insert tx.hash tx } }, true)
  else (s, false)

def Node.removeEscrowTransaction (s : Node σ) (hash : Hash) : Node σ :=
  let s := match s.poolTxEscrow.getTransactionByHash hash with
    | some tx => s.journalPendingChange .escrow false tx
    | none => s
  { s with
    poolTxEscrow := s.poolTxEscrow.removeTransactionByHash hash
    db := { s.db with escrowPool := s.db.escrowPool.erase hash } }

def multiSignPoolKeyFor (tx : Transaction) : Hash :=
  if tx.txParam.multiSignTx = zerosHash then tx.hash else tx.txParam.multiSignTx

def Node.addMultiSignTransaction (s : Node σ) (tx : Transaction) : Node σ × Bool :=
  let r := s.poolTxMultiSign.addTransaction tx (multiSignPoolKeyFor tx)
  let s := { s with poolTxMultiSign := r.1 }
  if r.2 then
    let s := s.journalPendingChange .multiSign true tx
    ({ s with db := { s.db with multiSignPool := s.db.multiSignPool.insert tx.hash tx } }, true)
  else (s, false)

def Node.removeMultiSignTransaction (s : Node σ) (hash : Hash) : Node σ :=
  let s := match s.poolTxMultiSign.getTransactionByHash hash with
    | some tx => s.journalPendingChange .multiSign false tx
    | none => s
  { s with
    poolTxMultiSign := s.poolTxMultiSign.removeTransactionByHash hash
    db := { s.db with multiSignPool := s.db.multiSignPool.erase hash } }

def Node.undoPendingChange (s : Node σ) (e : JournalEntry) : Node σ :=
  match e.pool, e.added with
  | .escrow, true => s.removeEscrowTransaction e.transaction.hash
  | .escrow, false => (s.addEscrowTransaction e.transaction).1
  | .multiSign, true => s.removeMultiSignTransaction e.transaction.hash
  | .multiSign, false => (s.addMultiSignTransaction e.transaction).1
  | .standard, _ => s

/-- Journal keys are big-endian bytes, so a height compares as an unsigned number. -/
def journalAfter (a b : Int64 × Nat) : Prop :=
  b.1.toUInt64 < a.1.toUInt64 ∨ (a.1 = b.1 ∧ b.2 ≤ a.2)

instance : DecidableRel journalAfter := fun a b => by unfold journalAfter; infer_instance

def Node.undoKey (s : Node σ) (k : Int64 × Nat) : Node σ :=
  let s := match s.db.pendingJournal.lookup k with
    | some e => s.undoPendingChange e
    | none => s
  { s with db := { s.db with pendingJournal := s.db.pendingJournal.erase k } }

def Node.selectedKeys (s : Node σ) (undo : Int64 → Bool) : List (Int64 × Nat) :=
  (s.db.pendingJournal.keys.filter fun k => undo k.1).insertionSort journalAfter

def Node.undoJournalKeys (s : Node σ) (undo : Int64 → Bool) : Node σ :=
  if (s.selectedKeys undo).isEmpty then s
  else { (s.selectedKeys undo).foldl Node.undoKey { s with journalPaused := true } with
    journalPaused := false }

def Node.undoPendingPoolsAbove (s : Node σ) (target : Int64) : Node σ :=
  s.undoJournalKeys fun h => decide (target < h)

def Node.beginPendingPoolJournal (s : Node σ) (height : Int64) : Node σ :=
  { s.undoJournalKeys (· == height) with journalHeight := height, journalSeq := 0 }

def Node.endPendingPoolJournal (s : Node σ) : Node σ := { s with journalHeight := 0 }

def Node.banEverywhere (s : Node σ) (hash : Hash) : Node σ :=
  { s with
    poolsTx := s.poolsTx.banTransactionByHash hash
    poolTxEscrow := s.poolTxEscrow.banTransactionByHash hash
    poolTxMultiSign := s.poolTxMultiSign.banTransactionByHash hash }

/-- The three pool removals. The multi-signature one skips the journal and the mirror. -/
def Node.removeFromPools (s : Node σ) (hash : Hash) : Node σ :=
  let s := { s with poolsTx := s.poolsTx.removeTransactionByHash hash }
  let s := s.removeEscrowTransaction hash
  { s with poolTxMultiSign := s.poolTxMultiSign.removeTransactionByHash hash }

def Node.removeDuplicateTransactionByHash (s : Node σ) (hash : Hash) : Node σ :=
  let s := s.removeFromPools hash
  { s with db := s.db.removePoolTx hash }.banEverywhere hash

/-- The body `RemoveBadTransactionByHash` keeps: under the pool or the confirmed prefix. -/
def Db.badBody (env : Env σ) (db : Db σ) (hash : Hash) : Option Transaction :=
  (db.loadTx? env .pool hash).or (db.loadTx? env .confirmed hash)

def Db.keepBad (env : Env σ) (db : Db σ) (hash : Hash) : Db σ :=
  match db.badBody env hash with
  | some tx => db.storeTx .bad tx
  | none => db

def Node.dropIncluded (s : Node σ) (hash : Hash) : Node σ :=
  match s.db.includedTx.lookup hash with
  | some _ => s.removeDuplicateTransactionByHash hash
  | none => s

/-- A transaction that is already included counts as a duplicate too, and is banned twice. -/
def Node.removeBadTransactionByHash (env : Env σ) (s : Node σ) (hash : Hash) : Node σ :=
  let s := s.removeFromPools hash
  let s := { s with db := (s.db.keepBad env hash).removePoolTx hash }
  (s.dropIncluded hash).banEverywhere hash

def Node.removeBlockBreakingTransactionByHash (env : Env σ) (s : Node σ) (hash : Hash) :
    Node σ :=
  let s := s.removeBadTransactionByHash env hash
  { s with
    poolsTx := s.poolsTx.blockTransactionByHash hash
    poolTxEscrow := s.poolTxEscrow.blockTransactionByHash hash
    poolTxMultiSign := s.poolTxMultiSign.blockTransactionByHash hash }

def checkTransactionInDBAndInMarkleTrie (hash : Hash) : NodeM σ Unit := do
  match (← get).db.includedTx.lookup hash with
  | some h => do
    modify (·.removeDuplicateTransactionByHash hash)
    throw (.alreadyIncluded h)
  | none => pure ()

def Node.markVoided (s : Node σ) (hash : Hash) (height : Int64) (reason : UInt8) : Node σ :=
  { s with db := { s.db with voidedTx := s.db.voidedTx.insert hash (height, reason) } }

def voidedCancelled : UInt8 := 0

def voidedExpired : UInt8 := 1

end QwidNode.Source

import QwidNode.Source.ApplyFrame
import QwidNode.Source.CheckFacts

/-!
# The check pass and the EVM pass, for any relation they keep

Before a block is applied, bodies are loaded and stored, transactions are removed, and the EVM pass
writes accounts, DEX and EVM state and the record of events. A preorder on nodes that contains these
changes contains every run of the two passes, whether it returns or fails.
-/
namespace QwidNode.Source
open Lib
variable {σ : Type} {env : Env σ} {block lastBlock : Block} {tx : Transaction} {c : CheckState}
  {p : TxPrefix} {R : Node σ → Node σ → Prop}

structure CheckMoves (env : Env σ) (R : Node σ → Node σ → Prop) : Prop where
  load : ∀ {s t : Node σ}, LoadFrame s t → R s t
  duplicate : ∀ (s : Node σ) hash, R s (s.removeDuplicateTransactionByHash hash)
  bad : ∀ (s : Node σ) hash, R s (s.removeBadTransactionByHash env hash)

/-- The balances and counters of an account, and nothing else of the ledger. -/
def LedgerOp.IsEntry : LedgerOp → Prop
  | .entry _ => True
  | _ => False

structure EvmMoves (env : Env σ) (R : Node σ → Node σ → Prop) : Prop extends
    CheckMoves env R, LedgerMoves LedgerOp.IsEntry (fun _ => True) R where
  drop : ∀ (s : Node σ) hash, R s (dropBadTransaction env hash s)
  store : ∀ (s : Node σ) p tx, R s { s with db := s.db.storeTx p tx }
  state : ∀ (s : Node σ) evm dex, R s { s with evm, dex }

namespace CheckMoves
variable (moves : CheckMoves env R)
include moves

theorem loadFromDBPoolTx (p : TxPrefix) (hash : Hash) : Respects R (loadFromDBPoolTx env p hash) :=
  (loadFrame_loadFromDBPoolTx p hash).mono fun _ _ frame => moves.load frame

variable [IsPreorder (Node σ) R]

theorem checkTransactionInDB (hash : Hash) :
    Respects R (checkTransactionInDBAndInMarkleTrie hash : NodeM σ Unit) := by
  refine .bind .get fun s => ?_
  split
  · exact .bind (.modify fun u => moves.duplicate u hash) fun _ => .throw _
  · exact .pure _

theorem recoverTransaction (hash : Hash) : Respects R (recoverTransaction env lastBlock hash) := by
  refine .bind ?_ fun tx => .bind .get fun s => .bind (.failIf _ _) fun _ =>
    .bind (.modify fun u => moves.load (loadFrame_storeConfirmed u tx)) fun _ => .pure _
  refine .tryCatch (moves.loadFromDBPoolTx _ hash) fun e => .bind .get fun s => ?_
  split
  · exact .pure _
  · exact .throw _

theorem loadForBlock (hash : Hash) : Respects R (loadForBlock env lastBlock hash) := by
  have stored : ∀ tx : Transaction, Respects R (do
      modifyDb fun db => db.storeTx .pool tx
      pure tx : NodeM σ Transaction) := fun tx =>
    .bind (.modify fun u => moves.load (loadFrame_storePool u tx)) fun _ => .pure _
  refine .bind (.attempt (moves.loadFromDBPoolTx _ hash)) fun found => ?_
  cases found with
  | some tx =>
    exact .bind (.pure _) fun _ => .bind (moves.checkTransactionInDB hash) fun _ => .pure _
  | none =>
    refine .bind ?_ fun _ => .bind (moves.checkTransactionInDB hash) fun _ => .pure _
    refine .bind (.modify fun u => moves.load (loadFrame_removePoolTx u hash)) fun _ =>
      .bind (.attempt (moves.loadFromDBPoolTx _ hash)) fun confirmed => ?_
    cases confirmed with
    | some tx =>
      exact .bind (moves.checkTransactionInDB hash) fun _ => .bind (.pure _) fun tx => stored tx
    | none => exact .bind (moves.recoverTransaction hash) fun tx => stored tx

theorem loadAll (hashes : List Hash) : Respects R (loadAll env lastBlock hashes) := by
  induction hashes with
  | nil => exact .pure _
  | cons hash rest ih =>
    exact .bind (moves.loadForBlock hash) fun _ => .bind ih fun _ => .pure _

end CheckMoves

section Walk
variable [IsPreorder (Node σ) R]

section One
variable (bad : ∀ s : Node σ, R s (s.removeBadTransactionByHash env tx.hash))
include bad

theorem respects_dropAndContinue (e : Error) : Respects R (dropAndContinue env tx c e) :=
  .bind (.modify bad) fun _ => .pure _

theorem respects_checkFunds (fee : Int64) : Respects R (checkFunds env tx fee c) := by
  refine .bind .get fun s => ?_
  split
  · exact respects_dropAndContinue bad _
  · split
    · exact respects_dropAndContinue bad _
    · split
      · exact respects_dropAndContinue bad _
      · dsimp only
        split
        · exact respects_dropAndContinue bad _
        · exact .pure _

theorem respects_checkRouted (fee : Int64) (account : Option Nat) :
    Respects R (checkRouted env block tx fee account c) := by
  refine .bind .get fun s => ?_
  split
  · split
    · dsimp only
      split
      · exact respects_checkFunds bad fee
      · exact respects_dropAndContinue bad _
    · exact respects_checkFunds bad fee
  · exact respects_checkFunds bad fee

theorem respects_checkTransaction (verified : Bool) :
    Respects R (checkTransaction env block verified tx c) := by
  unfold checkTransaction
  split
  · exact respects_dropAndContinue bad _
  · split
    · exact respects_dropAndContinue bad _
    · unfold checkVerified
      split
      · exact .throw _
      · refine .bind (.failIf _ _) fun _ => .bind (.failIf _ _) fun _ => .bind .get fun s => ?_
        split
        · exact .throw _
        · refine .bind (.failIf _ _) fun _ => ?_
          split
          · exact .throw _
          · exact respects_checkRouted bad _ _

end One

theorem respects_checkAll (items : List (Transaction × Bool)) (bad : ∀ item ∈ items,
    ∀ s : Node σ, R s (s.removeBadTransactionByHash env item.1.hash)) :
    Respects R (checkAll env block items c) := by
  induction items generalizing c with
  | nil => exact .pure _
  | cons item rest ih =>
    exact .bind (respects_checkTransaction (bad item List.mem_cons_self) item.2) fun _ =>
      ih fun other member => bad other (List.mem_cons_of_mem item member)

theorem CheckMoves.checkBlockTransfers (moves : CheckMoves env R) :
    Respects R (checkBlockTransfers env block lastBlock) := by
  refine .bind (moves.loadAll _) fun txs => .bind .get fun s =>
    .bind (respects_checkAll _ fun item _ s => moves.bad s item.1.hash) fun c => ?_
  split
  · exact .throw _
  · exact .bind (.failIf _ _) fun _ => .pure _

end Walk

namespace EvmMoves
variable (moves : EvmMoves env R)
include moves
variable [IsPreorder (Node σ) R]

theorem throwAfterDrop (hash : Hash) : Respects R (do
    modify (dropBadTransaction env hash)
    throw .smartContractsFail : NodeM σ Unit) :=
  .bind (.modify fun s => moves.drop s hash) fun _ => .throw _

theorem applyRun (s : Node σ) (run : EvmRun σ) : R s (s.applyRun run) := by
  have balances : ∀ (items : List (AddressBytes × Int64)) (u : Node σ),
      R u { u with ledger := items.foldl (fun l b => l.setBalance b.1 b.2) u.ledger } := by
    intro items
    induction items with
    | nil => exact fun u => refl_of R u
    | cons b rest ih =>
      intro u
      have allowed : LedgerOp.IsEntry (.entry b.1) := trivial
      exact trans_of R (moves.write allowed (u.ledger.setBalance_writes b.1 b.2))
        (ih { u with ledger := u.ledger.setBalance b.1 b.2 })
  exact trans_of R (balances run.balances s) (moves.state _ run.state s.dex)

theorem addBalance (route : Route) (hash : Hash) (height : Int64) (a : AddressBytes) (added : Int64) :
    Respects R (addBalance route hash height a added : NodeM σ Unit) :=
  moves.toLedgerMoves.addBalance (fun _ => trivial) route hash height a added trivial

theorem onErrorDrop {α : Type} {x : NodeM σ α} (hash : Hash) (steps : Respects R x) :
    Respects R (onError x (dropBadTransaction env hash)) :=
  .onError steps fun _ t before => trans_of R before (moves.drop t hash)

theorem settleDexOrder (op : Nat) (q : DexQuote) :
    Respects R (settleDexOrder env block tx op q) := by
  refine .bind (moves.onErrorDrop _ (moves.addBalance _ _ _ _ _)) fun _ =>
    .bind (moves.onErrorDrop _ (moves.addBalance _ _ _ _ _)) fun _ => .bind .get fun s => ?_
  split
  · exact .modify fun u => moves.state u u.evm _
  · exact moves.throwAfterDrop _

theorem evaluateDexOrder (op : Nat) : Respects R (evaluateDexOrder env block p tx op) := by
  have quoted : Respects R (generateOptDataDEX env tx op) := by
    refine .bind .get fun s => ?_
    dsimp only
    split
    · split
      · exact .pure _
      · refine .bind (moves.toLedgerMoves.setAccountByAddressBytes (fun _ => trivial) _) fun acc => ?_
        split
        · exact .pure _
        · exact .pure _
    · exact .pure _
  refine .bind quoted fun quote => ?_
  split
  · exact .pure _
  · refine .bind .get fun s => .bind (.modify fun u => moves.applyRun u _) fun _ => ?_
    split
    · exact .pure _
    · exact moves.throwAfterDrop _
    · exact .bind (.modify fun u => moves.store u _ _) fun _ => moves.settleDexOrder _ _

theorem evaluateContract : Respects R (evaluateContract env block p tx) := by
  refine .bind (.modify fun u => moves.record u trivial) fun _ => .bind .get fun s =>
    .bind (.modify fun u => moves.applyRun u _) fun _ => ?_
  split
  · exact .bind (.modify fun u => moves.record u trivial) fun _ => .modify fun u => moves.store u _ _
  · exact .modify fun u => moves.store u _ _
  · exact moves.throwAfterDrop _

theorem evaluateLoaded : Respects R (evaluateLoaded env block p tx) := by
  refine .bind .get fun s => ?_
  split
  · exact .pure _
  · split
    · exact .pure _
    · split
      · exact .pure _
      · split
        · split
          · exact moves.evaluateDexOrder _
          · exact .pure _
        · split
          · exact .pure _
          · exact moves.evaluateContract

theorem evaluateHashes (hashes : List Hash) :
    Respects R (hashes.forM (evaluateHash env block)) := by
  refine .forM _ fun hash _ =>
    .bind (.attempt (moves.toCheckMoves.loadFromDBPoolTx _ hash)) fun found => ?_
  split
  · exact moves.evaluateLoaded
  · exact .bind (moves.toCheckMoves.loadFromDBPoolTx _ hash) fun _ => moves.evaluateLoaded

theorem evaluateSmartContracts : Respects R (evaluateSmartContracts env block) := by
  have loop : Respects R (block.transactionsHashes.forM (evaluateHash env block)) :=
    moves.evaluateHashes block.transactionsHashes
  intro s
  unfold Source.evaluateSmartContracts
  cases run : block.transactionsHashes.forM (evaluateHash env block) s with
  | ok a t => exact loop.of_ok run
  | error e t => exact loop.of_error run

end EvmMoves

structure BlockMoves (env : Env σ) (R : Node σ → Node σ → Prop) : Prop extends
    EvmMoves env R where
  ledger : ∀ (s : Node σ) l, R s { s with ledger := l }
  commit : ∀ (s : Node σ) height hash, R s { s with db := s.db.commitTx height hash }
  forget : ∀ (s : Node σ) hash, R s { s with
    poolsTx := s.poolsTx.removeTransactionByHash hash, db := s.db.removePoolTx hash }

theorem BlockMoves.checkBlockAndTransferFunds [IsPreorder (Node σ) R] (moves : BlockMoves env R)
    (applies : ∀ block reward, Respects R (processBlockTransfers env block reward)) :
    Respects R (checkBlockAndTransferFunds env block lastBlock) := by
  have header : Respects R (checkHeader env block lastBlock) := by
    refine .bind .get fun s => .bind (.failIf _ _) fun _ => .bind (.failIf _ _) fun _ =>
      .bind (.failIf _ _) fun _ => ?_
    split
    · exact .throw _
    · exact .bind (.failIf _ _) fun _ => .failIf _ _
  have commits : ∀ height (hashes : List Hash) (s : Node σ), R s { s with
      db := hashes.foldl (fun db hash => db.commitTx height hash) s.db } := by
    intro height hashes
    induction hashes with
    | nil => exact refl_of R
    | cons hash rest ih =>
      exact fun s => trans_of R (moves.commit s height hash)
        (ih { s with db := s.db.commitTx height hash })
  have forgets : ∀ (hashes : List Hash) (s : Node σ), R s (hashes.foldl (fun s hash => { s with
      poolsTx := s.poolsTx.removeTransactionByHash hash, db := s.db.removePoolTx hash }) s) := by
    intro hashes
    induction hashes with
    | nil => exact refl_of R
    | cons hash rest ih => exact fun s => trans_of R (moves.forget s hash) (ih _)
  exact .bind header fun _ => .bind moves.toCheckMoves.checkBlockTransfers fun _ =>
    .bind moves.toEvmMoves.evaluateSmartContracts fun _ => .bind .get fun _ =>
    .bind (.failIf _ _) fun _ => .bind (.failIf _ _) fun _ => .bind (applies _ _) fun _ =>
    .bind (.modify fun s => moves.ledger s _) fun _ =>
    .bind (.modify fun s => commits _ _ s) fun _ => .bind (.modify fun s => forgets _ s) fun _ =>
    .pure _

theorem storageKept_moves (env : Env σ) : BlockMoves env (StorageKept (σ := σ)) where
  load frame := by
    obtain ⟨_, _, rfl⟩ := frame
    exact ⟨rfl, rfl⟩
  duplicate s hash := (s.poolFrame_removeDuplicateTransactionByHash hash).toStorage
  bad s hash := (s.poolFrame_removeBadTransactionByHash hash).toStorage
  drop s hash :=
    have bad : StorageKept s (s.removeBadTransactionByHash env hash) :=
      (s.poolFrame_removeBadTransactionByHash hash).toStorage
    ⟨bad.stored, bad.height⟩
  store s p tx := by
    cases p with
    | _ => exact ⟨rfl, rfl⟩
  write _ _ := ⟨rfl, rfl⟩
  record _ _ _ := ⟨rfl, rfl⟩
  state _ _ _ := ⟨rfl, rfl⟩
  ledger _ _ := ⟨rfl, rfl⟩
  commit s height hash := by
    unfold Db.commitTx
    split <;> exact ⟨rfl, rfl⟩
  forget _ _ := ⟨rfl, rfl⟩

theorem storageKept_checkBlockAndTransferFunds (env : Env σ) (newBlock lastBlock : Block) :
    Respects StorageKept (checkBlockAndTransferFunds env newBlock lastBlock) :=
  (storageKept_moves env).checkBlockAndTransferFunds storageKept_processBlockTransfers

end QwidNode.Source

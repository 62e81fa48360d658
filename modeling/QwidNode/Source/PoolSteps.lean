import QwidNode.Source.CheckTraversal
import QwidNode.Source.Pending

/-!
# Block application as a sequence of pool steps

Whatever happens to the pending pools, their mirrors and their journal while a block is checked and
applied, or fails at any point, is a sequence of the steps below. Each constructor is one place of
the source that changes a pending pool; `elsewhere` is everything else.
-/
namespace QwidNode.Source
open Lib Relation
variable {σ : Type} {env : Env σ} {s t u : Node σ}

/-- The pending pools' entries and capacities, their mirrors and the journal. -/
@[ext]
structure PendingPart where
  escrow : FinMap Hash Transaction
  multiSign : FinMap Hash Transaction
  escrowMax : Nat
  multiSignMax : Nat
  escrowDb : FinMap Hash Transaction
  multiSignDb : FinMap Hash Transaction
  journal : FinMap (Int64 × Nat) JournalEntry
  journalHeight : Int64
  journalSeq : Nat
  journalPaused : Bool

theorem PendingPart.ext_entries {a b : PendingPart}
    (pools : a.escrow.entries = b.escrow.entries ∧ a.multiSign.entries = b.multiSign.entries)
    (mirrors : a.escrowDb.entries = b.escrowDb.entries ∧
      a.multiSignDb.entries = b.multiSignDb.entries)
    (journal : a.journal.entries = b.journal.entries)
    (rest : (a.escrowMax, a.multiSignMax, a.journalHeight, a.journalSeq, a.journalPaused) =
      (b.escrowMax, b.multiSignMax, b.journalHeight, b.journalSeq, b.journalPaused)) : a = b := by
  simp only [Prod.mk.injEq] at rest
  obtain ⟨escrowMax, multiSignMax, height, seq, paused⟩ := rest
  exact PendingPart.ext (AList.ext pools.1) (AList.ext pools.2) escrowMax multiSignMax
    (AList.ext mirrors.1) (AList.ext mirrors.2) (AList.ext journal) height seq paused

def Node.pendingPart (s : Node σ) : PendingPart where
  escrow := s.poolTxEscrow.transactions
  multiSign := s.poolTxMultiSign.transactions
  escrowMax := s.poolTxEscrow.maxTransactions
  multiSignMax := s.poolTxMultiSign.maxTransactions
  escrowDb := s.db.escrowPool
  multiSignDb := s.db.multiSignPool
  journal := s.db.pendingJournal
  journalHeight := s.journalHeight
  journalSeq := s.journalSeq
  journalPaused := s.journalPaused

/-- The step is not about pending transactions. Bans may change; the record of events and
the index of voided transactions keep what they have. -/
structure Elsewhere (s t : Node σ) : Prop where
  part : t.pendingPart = s.pendingPart
  log : s.log <:+ t.log
  voided : ∀ hash, (s.db.voidedTx.lookup hash).isSome → (t.db.voidedTx.lookup hash).isSome

instance : IsPreorder (Node σ) Elsewhere where
  refl _ := ⟨rfl, List.suffix_refl _, fun _ found => found⟩
  trans _ _ _ first second :=
    ⟨second.part.trans first.part, first.log.trans second.log,
      fun hash found => second.voided hash (first.voided hash found)⟩

theorem Elsewhere.of_eq (part : t.pendingPart = s.pendingPart) (log : t.log = s.log)
    (voided : t.db.voidedTx = s.db.voidedTx) : Elsewhere s t :=
  ⟨part, log ▸ List.suffix_refl _, fun hash found => by rw [voided]; exact found⟩

theorem Elsewhere.pooled (other : Elsewhere s t) : t.pooled = s.pooled := by
  funext pool key
  cases pool with
  | standard => rfl
  | escrow => exact congrArg (fun part => part.escrow.lookup key) other.part
  | multiSign => exact congrArg (fun part => part.multiSign.lookup key) other.part

inductive PoolEvent where
  /-- Nothing about pending transactions. -/
  | elsewhere
  /-- A transfer of an escrow account is held at inclusion. -/
  | hold (tx : Transaction)
  /-- A main transaction is held, an approval is pooled or a main transaction is recovered. -/
  | share (tx : Transaction)
  /-- A matured escrow of an account with co-signers moves to the other pool. -/
  | move (tx : Transaction)
  | settleEscrow (tx : Transaction) (height : Int64)
  | settleMultiSign (tx : Transaction) (height : Int64)
  | cancel (hash : Hash) (height : Int64)
  | expire (hash : Hash) (height : Int64)
  /-- An entry of a group whose main transaction nobody knows. -/
  | orphan (hash : Hash)
  /-- `RemoveBadTransactionByHash` or `RemoveDuplicateTransactionByHash`. -/
  | discard (hash : Hash)
  | begin (height : Int64)
  | finish

inductive PoolStep : PoolEvent → Node σ → Node σ → Prop where
  | elsewhere {s t : Node σ} (other : Elsewhere s t) : PoolStep .elsewhere s t
  | hold (s : Node σ) (tx : Transaction) : PoolStep (.hold tx) s (s.addEscrowTransaction tx).1
  | share (s : Node σ) (tx : Transaction) :
      PoolStep (.share tx) s (s.addMultiSignTransaction tx).1
  | move (s : Node σ) (tx : Transaction) (taken : (s.addMultiSignTransaction tx).2 = true) :
      PoolStep (.move tx) s ((s.addMultiSignTransaction tx).1.removeEscrowTransaction tx.hash)
  | settleEscrow (s : Node σ) (tx : Transaction) (height : Int64) :
      PoolStep (.settleEscrow tx height) s { s.removeEscrowTransaction tx.hash with
        log := .settled .escrow tx height :: (s.removeEscrowTransaction tx.hash).log }
  | settleMultiSign (s : Node σ) (tx : Transaction) (height : Int64) :
      PoolStep (.settleMultiSign tx height) s (Node.removeMultiSignTransaction
        { s with log := .settled .multiSign tx height :: s.log } tx.hash)
  | cancel (s : Node σ) (hash : Hash) (height : Int64) : PoolStep (.cancel hash height) s
      ((s.removeEscrowTransaction hash).markVoided hash height voidedCancelled)
  | expire (s : Node σ) (hash : Hash) (height : Int64) : PoolStep (.expire hash height) s
      ((s.removeMultiSignTransaction hash).markVoided hash height voidedExpired)
  | orphan (s : Node σ) (hash : Hash) :
      PoolStep (.orphan hash) s (s.removeMultiSignTransaction hash)
  | discard (s : Node σ) (hash : Hash) : PoolStep (.discard hash) s (s.removeFromPools hash)
  | begin (s : Node σ) (height : Int64) :
      PoolStep (.begin height) s (s.beginPendingPoolJournal height)
  | finish (s : Node σ) : PoolStep .finish s s.endPendingPoolJournal

/-- A run of steps whose events are allowed in the states they happen in. -/
abbrev StepsWith (allowed : PoolEvent → Node σ → Prop) (s t : Node σ) : Prop :=
  ReflTransGen (fun u v => ∃ e, PoolStep e u v ∧ allowed e u) s t

def AnyStep (s t : Node σ) : Prop := ∃ e, PoolStep e s t

abbrev PoolSteps (s t : Node σ) : Prop := ReflTransGen AnyStep s t

instance : IsPreorder (Node σ) PoolSteps where
  refl _ := .refl
  trans _ _ _ first second := ReflTransGen.trans first second

theorem elsewhere_liftLedger (f : Ledger → Except Error Ledger) :
    Respects Elsewhere (liftLedger f : NodeM σ Unit) := by
  intro s
  unfold liftLedger
  rw [get_bind_run]
  cases f s.ledger with
  | ok l => exact .of_eq rfl rfl rfl
  | error e => exact refl_of Elsewhere s

theorem elsewhere_record (e : Event) : Respects Elsewhere (record e : NodeM σ Unit) :=
  Respects.modify fun s => ⟨rfl, List.suffix_cons e s.log, fun _ found => found⟩

theorem elsewhere_ledgerMoves (may : LedgerOp → Prop) :
    LedgerMoves may (fun _ => True) (Elsewhere (σ := σ)) where
  write _ _ := .of_eq rfl rfl rfl
  record s {e} _ := ⟨rfl, List.suffix_cons e s.log, fun _ found => found⟩

theorem elsewhere_addBalance (route : Route) (hash : Hash) (height : Int64) (a : AddressBytes)
    (added : Int64) : Respects Elsewhere (addBalance route hash height a added : NodeM σ Unit) :=
  (elsewhere_ledgerMoves fun _ => True).addBalance (fun _ => trivial) route hash height a added
    trivial

theorem elsewhere_processMultiSignAndEscrow (tx : Transaction) :
    Respects Elsewhere (processMultiSignAndEscrow tx : NodeM σ Unit) :=
  (elsewhere_ledgerMoves fun _ => True).processMultiSignAndEscrow (fun _ => trivial)
    fun _ => trivial

theorem elsewhere_loadFrame (frame : LoadFrame s t) : Elsewhere s t := by
  obtain ⟨_, _, rfl⟩ := frame
  exact .of_eq rfl rfl rfl

theorem elsewhere_banEverywhere (s : Node σ) (hash : Hash) : Elsewhere s (s.banEverywhere hash) :=
  .of_eq rfl rfl rfl

theorem steps_removeDuplicateTransactionByHash (s : Node σ) (hash : Hash) :
    PoolSteps s (s.removeDuplicateTransactionByHash hash) := by
  apply ReflTransGen.head ⟨_, .discard s hash⟩
  exact .single ⟨_, .elsewhere (.of_eq rfl rfl rfl)⟩

theorem steps_removeBadTransactionByHash (env : Env σ) (s : Node σ) (hash : Hash) :
    PoolSteps s (s.removeBadTransactionByHash env hash) := by
  have counted : ∀ w : Node σ, PoolSteps w ((w.dropIncluded hash).banEverywhere hash) := by
    intro w
    unfold Node.dropIncluded
    have banned : ∀ v : Node σ, AnyStep v (v.banEverywhere hash) :=
      fun v => ⟨_, .elsewhere (elsewhere_banEverywhere v hash)⟩
    split
    · exact (steps_removeDuplicateTransactionByHash w hash).tail (banned _)
    · exact .single (banned w)
  apply ReflTransGen.head ⟨_, .discard s hash⟩
  have cleaned : Elsewhere (s.removeFromPools hash) { s.removeFromPools hash with
      db := ((s.removeFromPools hash).db.keepBad env hash).removePoolTx hash } := by
    unfold Db.keepBad
    split
    · exact .of_eq rfl rfl rfl
    · exact .of_eq rfl rfl rfl
  unfold Node.removeBadTransactionByHash
  exact ReflTransGen.head ⟨_, .elsewhere cleaned⟩ (counted _)

theorem steps_dropBadTransaction (env : Env σ) (s : Node σ) (hash : Hash) :
    PoolSteps s (dropBadTransaction env hash s) :=
  (steps_removeBadTransactionByHash env s hash).tail ⟨_, .elsewhere (.of_eq rfl rfl rfl)⟩

theorem poolSteps_ledgerMoves (may : LedgerOp → Prop) :
    LedgerMoves may (fun _ => True) (PoolSteps (σ := σ)) where
  write allowed writes := .single ⟨_, .elsewhere ((elsewhere_ledgerMoves may).write allowed writes)⟩
  record s _ said := .single ⟨_, .elsewhere ((elsewhere_ledgerMoves may).record s said)⟩

theorem poolSteps_moves (env : Env σ) : BlockMoves env (PoolSteps (σ := σ)) where
  toLedgerMoves := poolSteps_ledgerMoves _
  load frame := .single ⟨_, .elsewhere (elsewhere_loadFrame frame)⟩
  duplicate := steps_removeDuplicateTransactionByHash
  bad := steps_removeBadTransactionByHash env
  drop := steps_dropBadTransaction env
  store s p tx := by
    refine .single ⟨_, .elsewhere ?_⟩
    cases p with
    | _ => exact .of_eq rfl rfl rfl
  state s evm dex := .single ⟨_, .elsewhere (.of_eq rfl rfl rfl)⟩
  ledger s l := .single ⟨_, .elsewhere (.of_eq rfl rfl rfl)⟩
  commit s height hash := by
    refine .single ⟨_, .elsewhere ?_⟩
    unfold Db.commitTx
    split
    · exact refl_of Elsewhere s
    · exact .of_eq rfl rfl rfl
  forget s hash := .single ⟨_, .elsewhere (.of_eq rfl rfl rfl)⟩

theorem poolSteps_applyMoves (env : Env σ) :
    ApplyMoves env (fun _ => True) (fun _ => True) (PoolSteps (σ := σ)) where
  toLedgerMoves := poolSteps_ledgerMoves _
  mismatch s hash := .single ⟨_, .elsewhere (.of_eq rfl rfl rfl)⟩
  duplicate := steps_removeDuplicateTransactionByHash
  bad := steps_removeBadTransactionByHash env
  hold s tx := .single ⟨_, .hold s tx⟩
  share s tx := .single ⟨_, .share s tx⟩
  move s tx taken := .single ⟨_, .move s tx taken⟩
  escrowSettled s tx height _ := .single ⟨_, .settleEscrow s tx height⟩
  mainSettled s tx height _ := .single ⟨_, .settleMultiSign s tx height⟩
  cancel s hash height := by
    -- the ban does not touch what the step is about
    apply ReflTransGen.head ⟨_, .cancel s hash height⟩
    exact .single ⟨_, .elsewhere (.of_eq rfl rfl rfl)⟩
  expire s hash height := .single ⟨_, .expire s hash height⟩
  orphan s hash := .single ⟨_, .orphan s hash⟩

theorem steps_processBlockTransfers (block : Block) (reward : Int64) :
    Respects PoolSteps (processBlockTransfers env block reward) :=
  (poolSteps_applyMoves env).processBlockTransfers (fun _ _ _ => trivial) (fun _ _ _ => trivial)
    (fun _ => trivial) (fun _ _ _ => trivial) (fun s height => .single ⟨_, .begin s height⟩)
    fun s => .single ⟨_, .finish s⟩

/-- Checking and applying a block, with whatever outcome, is a sequence of pool steps. -/
theorem steps_checkBlockAndTransferFunds (env : Env σ) (newBlock lastBlock : Block) :
    Respects PoolSteps (checkBlockAndTransferFunds env newBlock lastBlock) :=
  (poolSteps_moves env).checkBlockAndTransferFunds steps_processBlockTransfers

/-- Blocks one after the other, each accepted or failed. Every pool step of a block is allowed
where it happens, and between the blocks nothing happens to the pending pools. -/
inductive BlockRun (env : Env σ) (allowed : PoolEvent → Node σ → Prop) (s : Node σ) :
    Node σ → Prop where
  | start : BlockRun env allowed s s
  | block {t : Node σ} (before : BlockRun env allowed s t) (newBlock lastBlock : Block)
      (steps : StepsWith allowed t
        (finalState (checkBlockAndTransferFunds env newBlock lastBlock t))) :
      BlockRun env allowed s (finalState (checkBlockAndTransferFunds env newBlock lastBlock t))
  | between {t u : Node σ} (before : BlockRun env allowed s t) (other : Elsewhere t u) :
      BlockRun env allowed s u

section Keeps
variable {allowed : PoolEvent → Node σ → Prop} {P : Node σ → Prop}

theorem StepsWith.keeps (step : ∀ {e u v}, PoolStep e u v → allowed e u → P u → P v)
    (steps : StepsWith allowed s t) (holds : P s) : P t := by
  induction steps with
  | refl => exact holds
  | tail _ last ih =>
    obtain ⟨e, happened, fine⟩ := last
    exact step happened fine ih

theorem BlockRun.keeps (step : ∀ {e u v}, PoolStep e u v → allowed e u → P u → P v)
    (idle : ∀ {u v}, Elsewhere u v → P u → P v) (run : BlockRun env allowed s t) (holds : P s) :
    P t := by
  induction run with
  | start => exact holds
  | block _ _ _ steps ih => exact StepsWith.keeps step steps ih
  | between _ other ih => exact idle other ih

end Keeps

end QwidNode.Source

import QwidNode.Source.Accepted
import QwidNode.Source.PoolFacts

/-!
# What one transaction does to the pending pools and to the record

The inversions of `ProcessTransaction`, `ProcessTransactionsMultiSign` and of the loop body
of `ProcessTransactionsEscrow`, as far as the two pending pools and the record are
concerned.
-/
namespace QwidNode.Source
open Lib Ledger TransactionPool Transaction
variable {σ : Type} {env : Env σ} {s t u : Node σ}

namespace Node

abbrev escrowed (s : Node σ) : Multiset Transaction := s.poolTxEscrow.held

abbrev approving (s : Node σ) : Multiset Transaction := s.poolTxMultiSign.held

theorem addEscrowTransaction_pools (s : Node σ) (tx : Transaction) :
    (s.addEscrowTransaction tx).1.poolTxEscrow = (s.poolTxEscrow.addTransaction tx tx.hash).1 ∧
      (s.addEscrowTransaction tx).1.poolTxMultiSign = s.poolTxMultiSign ∧
      (s.addEscrowTransaction tx).2 = (s.poolTxEscrow.addTransaction tx tx.hash).2 :=
  ⟨s.addTo_pool tx .escrow, s.addTo_pool_ne tx (show PoolType.multiSign ≠ .escrow by decide),
    s.addTo_taken tx .escrow⟩

theorem addMultiSignTransaction_pools (s : Node σ) (tx : Transaction) :
    (s.addMultiSignTransaction tx).1.poolTxMultiSign =
        (s.poolTxMultiSign.addTransaction tx (multiSignPoolKeyFor tx)).1 ∧
      (s.addMultiSignTransaction tx).1.poolTxEscrow = s.poolTxEscrow ∧
      (s.addMultiSignTransaction tx).2 =
        (s.poolTxMultiSign.addTransaction tx (multiSignPoolKeyFor tx)).2 :=
  ⟨s.addTo_pool tx .multiSign, s.addTo_pool_ne tx (show PoolType.escrow ≠ .multiSign by decide),
    s.addTo_taken tx .multiSign⟩

theorem removeEscrowTransaction_escrow (s : Node σ) (hash : Hash) :
    (s.removeEscrowTransaction hash).poolTxEscrow =
      s.poolTxEscrow.removeTransactionByHash hash := s.removeFrom_pool hash .escrow

theorem removeEscrowTransaction_multiSign (s : Node σ) (hash : Hash) :
    (s.removeEscrowTransaction hash).poolTxMultiSign = s.poolTxMultiSign :=
  s.removeFrom_pool_ne hash (show PoolType.multiSign ≠ .escrow by decide)

theorem removeMultiSignTransaction_multiSign (s : Node σ) (hash : Hash) :
    (s.removeMultiSignTransaction hash).poolTxMultiSign =
      s.poolTxMultiSign.removeTransactionByHash hash := s.removeFrom_pool hash .multiSign

theorem removeMultiSignTransaction_escrow (s : Node σ) (hash : Hash) :
    (s.removeMultiSignTransaction hash).poolTxEscrow = s.poolTxEscrow :=
  s.removeFrom_pool_ne hash (show PoolType.escrow ≠ .multiSign by decide)

theorem journalPendingChange_poolTx (s : Node σ) (kind : PoolType) (added : Bool)
    (tx : Transaction) : (s.journalPendingChange kind added tx).db.poolTx = s.db.poolTx := by
  unfold journalPendingChange
  split <;> rfl

theorem addTo_poolTx (s : Node σ) (kind : PoolType) (tx : Transaction) :
    (s.addTo kind tx).1.db.poolTx = s.db.poolTx := by
  unfold addTo
  dsimp only
  split
  · cases kind <;> exact journalPendingChange_poolTx _ _ _ _
  · cases kind <;> rfl

theorem removeFrom_poolTx (s : Node σ) (kind : PoolType) (hash : Hash) :
    (s.removeFrom kind hash).db.poolTx = s.db.poolTx := by
  unfold removeFrom
  dsimp only
  split
  · cases kind <;> exact journalPendingChange_poolTx _ _ _ _
  · cases kind <;> rfl

end Node

def SameBodies (s t : Node σ) : Prop := t.db.poolTx = s.db.poolTx

instance : IsPreorder (Node σ) SameBodies where
  refl _ := rfl
  trans _ _ _ first second := Eq.trans second first

theorem sameBodies_holdMoves (may : LedgerOp → Prop) :
    HoldMoves may (fun _ => True) (SameBodies (σ := σ)) where
  write _ _ := rfl
  record _ _ _ := rfl
  hold s tx := s.addTo_poolTx .escrow tx
  share s tx := s.addTo_poolTx .multiSign tx
  cancel s hash _ := s.removeFrom_poolTx .escrow hash

structure PoolsSame (s t : Node σ) : Prop where
  escrow : t.escrowed = s.escrowed
  multiSign : t.approving = s.approving

instance : IsPreorder (Node σ) PoolsSame where
  refl _ := ⟨rfl, rfl⟩
  trans _ _ _ first second :=
    ⟨second.escrow.trans first.escrow, second.multiSign.trans first.multiSign⟩

theorem PoolsSame.refl (s : Node σ) : PoolsSame s s := ⟨rfl, rfl⟩

theorem PoolsSame.trans (first : PoolsSame s t) (second : PoolsSame t u) : PoolsSame s u :=
  trans_of PoolsSame first second

section Inclusion
variable {tx : Transaction} {height blockTime fee : Int64}

def feeMove (tx : Transaction) (height fee : Int64) : Event :=
  .moved ⟨.fee, tx.hash, height, tx.sender, -fee⟩

/-- An approval may have joined the multi-signature pool; nothing else has. -/
def Approves (tx : Transaction) (s t : Node σ) : Prop :=
  t.approving = s.approving ∨
    (tx.txParam.multiSignTx ≠ zerosHash ∧ t.approving = tx ::ₘ s.approving)

/-- The pool holds the transaction now, or held one with its hash before. -/
def Pools (tx : Transaction) {kind : PoolType} (before after : TransactionPool kind) : Prop :=
  after.held = tx ::ₘ before.held ∨
    (after.held = before.held ∧ (before.transactions.lookup tx.hash).isSome)

abbrev Transaction.senderIn (tx : Transaction) (s : Node σ) : Account :=
  s.ledger.accountOrNew tx.sender

/-- What including a transaction does: the eight ways `ProcessTransaction` can return. -/
inductive Inclusion (tx : Transaction) (height fee : Int64) (s t : Node σ) : Prop where
  | deposited (n : Nat) (routed : tx.routingAccount = some (some n)) (range : 256 ≤ n ∧ n < 512)
      (positive : 0 < tx.amount) (pools : PoolsSame s t) (log : t.log = s.log)
  | charged (escrow : t.escrowed = s.escrowed) (approval : Approves tx s t)
      (log : t.log = feeMove tx height fee :: s.log)
  | registered (registers : tx.isCommitmentRegistration = true)
      (unrestricted : ¬ (tx.senderIn s).restricted) (pools : PoolsSame s t)
      (log : t.log = feeMove tx height fee :: .settled .standard tx height :: s.log)
  | staked (n : Nat) (routed : tx.routingAccount = some (some n)) (low : n < 512)
      (pools : PoolsSame s t)
      (log : t.log =
        .moved ⟨.staking, tx.hash, height, tx.sender, -fee - tx.amount⟩ :: s.log)
  | cancelled (target : Hash) (e : Transaction) (names : tx.cancellationTarget = some target)
      (pending : s.poolTxEscrow.transactions.lookup target = some e)
      (owner : e.sender = tx.sender)
      (early : ¬ e.height + (tx.senderIn s).transactionDelay ≤ height)
      (escrow : s.escrowed = e ::ₘ t.escrowed) (multiSign : t.approving = s.approving)
      (log : t.log = .cancelled target tx.sender height :: feeMove tx height fee :: s.log)
  | heldInEscrow (delayed : 0 < (tx.senderIn s).transactionDelay)
      (direct : tx.txParam.multiSignTx = zerosHash)
      (routed : tx.routingAccount = some none ∨ tx.amount = 0)
      (pools : Pools { tx with height } s.poolTxEscrow t.poolTxEscrow)
      (multiSign : t.approving = s.approving)
      (log : t.log = feeMove tx height fee :: .held .escrow tx height :: s.log)
  | heldForApprovals (undelayed : ¬ 0 < (tx.senderIn s).transactionDelay)
      (shared : 0 < (tx.senderIn s).multiSignNumber)
      (direct : tx.txParam.multiSignTx = zerosHash)
      (routed : tx.routingAccount = some none ∨ tx.amount = 0)
      (pools : Pools { tx with height } s.poolTxMultiSign t.poolTxMultiSign)
      (escrow : t.escrowed = s.escrowed)
      (log : t.log = feeMove tx height fee :: .held .multiSign tx height :: s.log)
  | transferred (routed : tx.routingAccount = some none)
      (unheld : tx.txParam.multiSignTx = zerosHash → ¬ (tx.senderIn s).restricted)
      (native : isContractCallTx tx (tx.senderIn s) = false)
      (escrow : t.escrowed = s.escrowed) (approval : Approves tx s t)
      (log : t.log = feeMove tx height fee ::
        .moved ⟨.inclusion, tx.hash, height, tx.recipient, tx.amount⟩ ::
        .moved ⟨.inclusion, tx.hash, height, tx.sender, -tx.amount⟩ :: s.log)

theorem addTo_held {kind : PoolType} (pending : kind ≠ .standard) (s : Node σ) (tx : Transaction) :
    ((s.addTo kind tx).2 = true ∧ Pools tx (s.pool kind) ((s.addTo kind tx).1.pool kind)) ∨
      ((s.addTo kind tx).2 = false ∧
        ((s.addTo kind tx).1.pool kind).held = (s.pool kind).held) := by
  rw [Node.addTo_pool, Node.addTo_taken]
  cases taken : ((s.pool kind).addTransaction tx (Node.fileKey kind tx)).2 with
  | true =>
    refine .inl ⟨rfl, ?_⟩
    rcases held_addTransaction pending (s.pool kind) tx (Node.fileKey kind tx) with
      ⟨same, pooled⟩ | ⟨grown, -, -⟩
    · exact .inr ⟨same, pooled taken⟩
    · exact .inl grown
  | false =>
    refine .inr ⟨rfl, ?_⟩
    rcases held_addTransaction pending (s.pool kind) tx (Node.fileKey kind tx) with
      ⟨same, -⟩ | ⟨-, added, -⟩
    · exact same
    · exact absurd (added.symm.trans taken) (by decide)

theorem approving_addMultiSignTransaction (s : Node σ) (tx : Transaction) :
    (s.addMultiSignTransaction tx).1.approving = s.approving ∨
      (s.addMultiSignTransaction tx).1.approving = tx ::ₘ s.approving := by
  rcases addTo_held (show PoolType.multiSign ≠ .standard by decide) s tx with
    ⟨-, grown | ⟨same, -⟩⟩ | ⟨-, same⟩
  · exact .inr grown
  · exact .inl same
  · exact .inl same

theorem holdInEscrow_ok (run : holdInEscrow tx height s = .ok () t) :
    t.ledger = s.ledger ∧ t.approving = s.approving ∧
      (((s.addEscrowTransaction { tx with height }).2 = true ∧
          Pools { tx with height } s.poolTxEscrow t.poolTxEscrow ∧
          t.log = .held .escrow tx height :: s.log) ∨
        ((s.addEscrowTransaction { tx with height }).2 = false ∧ t.escrowed = s.escrowed ∧
          t.log = s.log)) := by
  unfold holdInEscrow at run
  have frame := s.poolFrame_addEscrowTransaction { tx with height }
  have kept : (s.addEscrowTransaction { tx with height }).1.approving = s.approving :=
    congrArg TransactionPool.held (s.addEscrowTransaction_pools _).2.1
  rcases addTo_held (show PoolType.escrow ≠ .standard by decide) s { tx with height } with
    ⟨taken, pools⟩ | ⟨refused, same⟩
  · simp only [Node.addEscrowTransaction_eq, taken, if_true] at run
    cases run
    exact ⟨frame.ledger, kept, .inl ⟨taken, pools, congrArg _ frame.log⟩⟩
  · simp only [Node.addEscrowTransaction_eq, refused] at run
    cases run
    exact ⟨frame.ledger, kept, .inr ⟨refused, same, frame.log⟩⟩

theorem holdForApprovals_ok (run : holdForApprovals tx height s = .ok () t) :
    t.ledger = s.ledger ∧ t.escrowed = s.escrowed ∧
      (((s.addMultiSignTransaction { tx with height }).2 = true ∧
          Pools { tx with height } s.poolTxMultiSign t.poolTxMultiSign ∧
          t.log = .held .multiSign tx height :: s.log) ∨
        ((s.addMultiSignTransaction { tx with height }).2 = false ∧ t.approving = s.approving ∧
          t.log = s.log)) := by
  unfold holdForApprovals at run
  have frame := s.poolFrame_addMultiSignTransaction { tx with height }
  have kept : (s.addMultiSignTransaction { tx with height }).1.escrowed = s.escrowed :=
    congrArg TransactionPool.held (s.addMultiSignTransaction_pools _).2.1
  rcases addTo_held (show PoolType.multiSign ≠ .standard by decide) s { tx with height } with
    ⟨taken, pools⟩ | ⟨refused, same⟩
  · simp only [Node.addMultiSignTransaction_eq, taken, if_true] at run
    cases run
    exact ⟨frame.ledger, kept, .inl ⟨taken, pools, congrArg _ frame.log⟩⟩
  · simp only [Node.addMultiSignTransaction_eq, refused] at run
    cases run
    exact ⟨frame.ledger, kept, .inr ⟨refused, same, frame.log⟩⟩

structure Quiet (s t : Node σ) : Prop where
  pools : PoolsSame s t
  log : t.log = s.log

instance : IsPreorder (Node σ) Quiet where
  refl s := ⟨.refl s, rfl⟩
  trans _ _ _ first second := ⟨first.pools.trans second.pools, second.log.trans first.log⟩

theorem quiet_liftLedger (f : Ledger → Except Error Ledger) :
    Respects Quiet (liftLedger f : NodeM σ Unit) := by
  intro s
  unfold liftLedger
  rw [get_bind_run]
  cases f s.ledger with
  | ok l => exact ⟨⟨rfl, rfl⟩, rfl⟩
  | error e => exact ⟨⟨rfl, rfl⟩, rfl⟩

theorem quiet_ledgerMoves : LedgerMoves (fun _ => True) (fun _ => False) (Quiet (σ := σ)) where
  write _ _ := ⟨⟨rfl, rfl⟩, rfl⟩
  record _ _ impossible := impossible.elim

theorem quiet_processMultiSignAndEscrow (tx : Transaction) :
    Respects Quiet (processMultiSignAndEscrow tx : NodeM σ Unit) :=
  quiet_ledgerMoves.processMultiSignAndEscrow (fun _ => trivial) fun _ => trivial

theorem quiet_stakeOrUnstake (tx : Transaction) {n : Nat} (low : n < 256) (height blockTime : Int64) :
    Respects Quiet (stakeOrUnstake tx n height blockTime : NodeM σ Unit) :=
  quiet_ledgerMoves.stakeOrUnstake low fun _ => trivial

structure Charged (tx : Transaction) (height fee : Int64) (s t : Node σ) : Prop where
  pools : PoolsSame s t
  log : t.log = feeMove tx height fee :: s.log

theorem Charged.inclusion (charged : Charged tx height fee s t) : Inclusion tx height fee s t :=
  .charged charged.pools.escrow (.inl charged.pools.multiSign) charged.log

theorem returns_charged {x : NodeM σ Unit} (ends : EndsWithFee Quiet tx height fee x) :
    Returns (Charged tx height fee) x := by
  intro s _ t run
  obtain ⟨u, quiet, paid⟩ := ends.of_ok run
  obtain ⟨-, rfl⟩ := addBalance_eq_ok.mp paid
  exact ⟨⟨quiet.pools.escrow, quiet.pools.multiSign⟩, congrArg _ quiet.log⟩

theorem Transaction.plain_of_registration (registers : tx.isCommitmentRegistration = true) :
    tx.amount = 0 ∧ tx.txParam.multiSignTx = zerosHash := by
  simp only [isCommitmentRegistration, noPolicyFields,
    Bool.and_eq_true, beq_iff_eq] at registers
  tauto

theorem processCommitmentRegistration_ok (registers : tx.isCommitmentRegistration = true)
    (run : processCommitmentRegistration tx height fee s = .ok () t) :
    Inclusion tx height fee s t := by
  obtain ⟨empty, direct⟩ := plain_of_registration registers
  unfold processCommitmentRegistration at run
  rw [get_bind_run] at run
  cases found : s.ledger.account? tx.sender with
  | none =>
    simp only [found] at run
    cases run
  | some acc =>
    have sender : tx.senderIn s = acc := accountOrNew_of_some found
    simp only [found] at run
    obtain ⟨_, u, counted, rest⟩ := bind_eq_ok.mp run
    cases counted
    by_cases delayed : 0 < acc.transactionDelay
    · rw [if_pos delayed] at rest
      obtain ⟨_, v, hold, paying⟩ := bind_eq_ok.mp rest
      obtain ⟨-, rfl⟩ := addBalance_eq_ok.mp paying
      obtain ⟨-, multiSign, ⟨-, pools, log⟩ | ⟨-, escrow, log⟩⟩ := holdInEscrow_ok hold
      · exact .heldInEscrow (sender ▸ delayed) direct (.inr empty) pools multiSign
          (congrArg _ log)
      · exact .charged escrow (.inl multiSign) (congrArg _ log)
    · rw [if_neg delayed] at rest
      by_cases shared : 0 < acc.multiSignNumber
      · rw [if_pos shared] at rest
        obtain ⟨_, v, hold, paying⟩ := bind_eq_ok.mp rest
        obtain ⟨-, rfl⟩ := addBalance_eq_ok.mp paying
        obtain ⟨-, escrow, ⟨-, pools, log⟩ | ⟨-, multiSign, log⟩⟩ := holdForApprovals_ok hold
        · exact .heldForApprovals (sender ▸ delayed) (sender ▸ shared) direct (.inr empty) pools
            escrow (congrArg _ log)
        · exact .charged escrow (.inl multiSign) (congrArg _ log)
      · rw [if_neg shared] at rest
        obtain ⟨_, w, settled, rest'⟩ := bind_eq_ok.mp rest
        obtain ⟨_, v, recorded, paying⟩ := bind_eq_ok.mp rest'
        have quiet : Quiet _ w := (quiet_liftLedger _).of_ok settled
        cases recorded
        obtain ⟨-, rfl⟩ := addBalance_eq_ok.mp paying
        refine .registered registers (fun restricted => ?_) ⟨quiet.pools.escrow,
          quiet.pools.multiSign⟩ (by rw [← quiet.log]; rfl)
        rw [sender] at restricted
        exact restricted.elim delayed shared

theorem processRecoveryTransaction_ok (recovers : tx.isRecovery = true)
    (run : processRecoveryTransaction env tx height fee s = .ok () t) :
    Inclusion tx height fee s t := by
  have counts : ∀ s : Node σ, Quiet s { s with ledger := s.ledger.addTransactionsSender tx.sender } :=
    fun _ => ⟨⟨rfl, rfl⟩, rfl⟩
  unfold processRecoveryTransaction at run
  split at run
  · next shape =>
    exact (returns_charged (quiet_ledgerMoves.processRecoveryBind counts (fun _ _ _ => trivial)
      shape) _ _ _ run).inclusion
  · next notBind =>
    split at run
    · next shape =>
      exact (returns_charged (quiet_ledgerMoves.processAddressReveal counts (fun _ _ _ => trivial)
        shape) _ _ _ run).inclusion
    · split at run
      · next shape =>
        exact (returns_charged (quiet_ledgerMoves.processRecoveryReveal counts
          (fun _ _ _ => trivial) shape) _ _ _ run).inclusion
      · next notReveal =>
        refine processCommitmentRegistration_ok ?_ run
        simpa [isRecovery, notBind, notReveal] using recovers

theorem account?_counted (l : Ledger) (a b : AddressBytes) :
    ∃ acc, ((l.addTransactionsSender a).addTransactionsRecipient b).account? a = some acc ∧
      acc.policy = (l.accountOrNew a).policy := by
  have sent : (l.addTransactionsSender a).account? a =
      some { l.accountOrNew a with sentCount := (l.accountOrNew a).sentCount + 1 } := by
    rw [addTransactionsSender, account?_putAccount, if_pos rfl]
  have kept : PoliciesKept (fun _ => False) (l.addTransactionsSender a)
      ((l.addTransactionsSender a).addTransactionsRecipient b) :=
    policiesKept_addTransactionsRecipient _ b
  obtain ⟨acc, found, same | ⟨impossible, -⟩⟩ := kept a _ sent
  · exact ⟨acc, found, same⟩
  · exact impossible.elim

theorem isContractCallTx_congr {acc acc' : Account} (same : acc'.policy = acc.policy) :
    isContractCallTx tx acc' = isContractCallTx tx acc := by
  simp only [Account.policy, Prod.mk.injEq] at same
  simp only [isContractCallTx, same.1, same.2.1]

theorem validateEscrowCancellation_ok {e : Transaction}
    (run : validateEscrowCancellation s tx height = .ok e) :
    ∃ target acc, tx.cancellationTarget = some target ∧
      s.poolTxEscrow.transactions.lookup target = some e ∧ e.sender = tx.sender ∧
      s.ledger.account? tx.sender = some acc ∧ ¬ e.height + acc.transactionDelay ≤ height := by
  unfold validateEscrowCancellation at run
  cases names : tx.cancellationTarget with
  | none =>
    simp only [names] at run
    cases run
  | some target =>
    simp only [names, ite_error_eq_ok] at run
    obtain ⟨-, run⟩ := run
    cases pending : s.poolTxEscrow.getTransactionByHash target with
    | none =>
      simp only [pending] at run
      cases run
    | some e' =>
      simp only [pending, ite_error_eq_ok, not_not] at run
      obtain ⟨owner, run⟩ := run
      cases found : s.ledger.account? tx.sender with
      | none =>
        simp only [found] at run
        cases run
      | some acc =>
        simp only [found, ite_error_eq_ok] at run
        obtain ⟨-, early, run⟩ := run
        cases run
        exact ⟨target, acc, rfl, pending, owner, rfl, early⟩

theorem processCancellation_ok {acc : Account} {target : Hash}
    (names : tx.cancellationTarget = some target)
    (found : s.ledger.account? tx.sender = some acc)
    (run : processCancellation tx target height fee s = .ok () t) :
    ∃ e, s.poolTxEscrow.transactions.lookup target = some e ∧ e.sender = tx.sender ∧
      ¬ e.height + acc.transactionDelay ≤ height ∧ s.escrowed = e ::ₘ t.escrowed ∧
      t.approving = s.approving ∧
      t.log = .cancelled target tx.sender height :: feeMove tx height fee :: s.log := by
  unfold processCancellation at run
  rw [get_bind_run] at run
  cases valid : validateEscrowCancellation s tx height with
  | error e =>
    simp only [valid] at run
    cases run
  | ok e =>
    simp only [valid] at run
    obtain ⟨target', acc', names', pending, owner, found', early⟩ :=
      validateEscrowCancellation_ok valid
    rw [names] at names'
    cases names'
    rw [found] at found'
    cases found'
    obtain ⟨_, u, paid, rest⟩ := bind_eq_ok.mp run
    obtain ⟨-, charged⟩ := addBalance_eq_ok.mp paid
    cases rest
    have pool : ((u.removeEscrowTransaction target).poolTxEscrow.banTransactionByHash target).held =
        (s.poolTxEscrow.removeTransactionByHash target).held := by
      rw [held_banTransactionByHash, Node.removeEscrowTransaction_escrow, charged]
    have others : (u.removeEscrowTransaction target).approving = s.approving := by
      rw [Node.approving, Node.removeEscrowTransaction_multiSign, charged]
    have log : (u.removeEscrowTransaction target).log = feeMove tx height fee :: s.log := by
      rw [(u.poolFrame_removeEscrowTransaction target).log, charged]
      rfl
    exact ⟨e, pending, owner, early,
      (held_removeTransactionByHash pending).trans (congrArg (e ::ₘ ·) pool.symm),
      others, congrArg _ log⟩

theorem moveAmount_ok {acc : Account} (run : moveAmount tx acc height s = .ok () t) :
    PoolsSame s t ∧ ((isContractCallTx tx acc = true ∧ t.log = s.log) ∨
      (isContractCallTx tx acc = false ∧ t.log =
        .moved ⟨.inclusion, tx.hash, height, tx.recipient, tx.amount⟩ ::
        .moved ⟨.inclusion, tx.hash, height, tx.sender, -tx.amount⟩ :: s.log)) := by
  unfold moveAmount at run
  cases call : isContractCallTx tx acc with
  | true =>
    simp only [call, if_true] at run
    cases run
    exact ⟨.refl _, .inl ⟨rfl, rfl⟩⟩
  | false =>
    simp only [call, Bool.false_eq_true, if_false] at run
    obtain ⟨_, u, debit, credit⟩ := bind_eq_ok.mp run
    obtain ⟨-, rfl⟩ := addBalance_eq_ok.mp debit
    obtain ⟨-, rfl⟩ := addBalance_eq_ok.mp credit
    exact ⟨⟨rfl, rfl⟩, .inr ⟨rfl, rfl⟩⟩

theorem processStandard_steps (run : processStandard tx height fee s = .ok () t) :
    ∃ acc u v, s.ledger.account? tx.sender = some acc ∧ holdOrMove tx acc height s = .ok () u ∧
      addBalance .fee tx.hash height tx.sender (-fee) u = .ok () v ∧
      processMultiSignAndEscrow tx v = .ok () t := by
  unfold processStandard at run
  rw [get_bind_run] at run
  cases found : s.ledger.account? tx.sender with
  | none =>
    simp only [found] at run
    cases run
  | some acc =>
    simp only [found] at run
    obtain ⟨_, u, held, paying⟩ := bind_eq_ok.mp run
    obtain ⟨_, v, paid, finishing⟩ := bind_eq_ok.mp paying
    exact ⟨acc, u, v, rfl, held, paid, finishing⟩

theorem processStandard_ok (routed : tx.routingAccount = some none)
    (run : processStandard tx height fee s = .ok () t) : Inclusion tx height fee s t := by
  obtain ⟨acc, v, w, found, held, paid, finishing⟩ := processStandard_steps run
  have sender : tx.senderIn s = acc := accountOrNew_of_some found
  obtain ⟨-, rfl⟩ := addBalance_eq_ok.mp paid
  obtain ⟨pools, log⟩ := (quiet_processMultiSignAndEscrow _).of_ok finishing
  unfold holdOrMove at held
  by_cases delayed : 0 < acc.transactionDelay ∧ tx.txParam.multiSignTx = zerosHash
  · rw [if_pos delayed] at held
    obtain ⟨-, multiSign, ⟨-, pooled, heldLog⟩ | ⟨-, escrow, heldLog⟩⟩ := holdInEscrow_ok held
    · refine .heldInEscrow (sender ▸ delayed.1) delayed.2 (.inl routed) ?_
        (pools.multiSign.trans multiSign) (log.trans (congrArg _ heldLog))
      unfold Pools at pooled ⊢
      rwa [show t.poolTxEscrow.held = v.poolTxEscrow.held from pools.escrow]
    · exact .charged (pools.escrow.trans escrow) (.inl (pools.multiSign.trans multiSign))
        (log.trans (congrArg _ heldLog))
  rw [if_neg delayed] at held
  by_cases shared : 0 < acc.multiSignNumber ∧ tx.txParam.multiSignTx = zerosHash
  · rw [if_pos shared] at held
    obtain ⟨-, escrow, ⟨-, pooled, heldLog⟩ | ⟨-, multiSign, heldLog⟩⟩ := holdForApprovals_ok held
    · refine .heldForApprovals (sender ▸ fun delay => delayed ⟨delay, shared.2⟩)
        (sender ▸ shared.1) shared.2 (.inl routed) ?_ (pools.escrow.trans escrow)
        (log.trans (congrArg _ heldLog))
      unfold Pools at pooled ⊢
      rwa [show t.poolTxMultiSign.held = v.poolTxMultiSign.held from pools.multiSign]
    · exact .charged (pools.escrow.trans escrow) (.inl (pools.multiSign.trans multiSign))
        (log.trans (congrArg _ heldLog))
  rw [if_neg shared] at held
  -- an approval is pooled before the amount moves
  obtain ⟨x, same, approval, moving⟩ : ∃ x : Node σ, x.escrowed = s.escrowed ∧
      (x.log = s.log ∧ Approves tx s x) ∧ moveAmount tx acc height x = .ok () v := by
    by_cases direct : tx.txParam.multiSignTx = zerosHash
    · simp only [direct, ne_eq, not_true_eq_false, if_false] at held
      exact ⟨s, rfl, ⟨rfl, .inl rfl⟩, held⟩
    · simp only [direct, ne_eq, not_false_eq_true, if_true] at held
      rw [modify_bind_run] at held
      refine ⟨_, congrArg TransactionPool.held (s.addMultiSignTransaction_pools tx).2.1,
        ⟨(s.poolFrame_addMultiSignTransaction tx).log, ?_⟩, held⟩
      exact (approving_addMultiSignTransaction s tx).imp_right fun grown => ⟨direct, grown⟩
  obtain ⟨movedPools, moved⟩ := moveAmount_ok moving
  have escrow : t.escrowed = s.escrowed :=
    pools.escrow.trans (movedPools.escrow.trans same)
  have approves : Approves tx s t := by
    unfold Approves
    rw [show t.approving = x.approving from pools.multiSign.trans movedPools.multiSign]
    exact approval.2
  rcases moved with ⟨_, movedLog⟩ | ⟨native, movedLog⟩
  · exact .charged escrow approves
      (log.trans (congrArg _ (movedLog.trans approval.1)))
  · refine .transferred routed (fun direct => ?_) (sender ▸ native) escrow approves ?_
    · rw [sender]
      exact not_restricted (fun delay => delayed ⟨delay, direct⟩)
        fun number => shared ⟨number, direct⟩
    · rw [log]
      exact congrArg _ (movedLog.trans (by rw [approval.1]))

theorem processDelegated_ok {n : Nat} (routed : tx.routingAccount = some (some n))
    (run : processDelegated env tx n height blockTime fee s = .ok () t) :
    Inclusion tx height fee s t := by
  unfold processDelegated at run
  by_cases low : n < 256
  · rw [if_pos low] at run
    obtain ⟨_, v, staked, paying⟩ := bind_eq_ok.mp run
    obtain ⟨_, w, paid, finishing⟩ := bind_eq_ok.mp paying
    have quiet := (quiet_stakeOrUnstake _ low _ _).of_ok staked
    have quiet' := (quiet_processMultiSignAndEscrow _).of_ok finishing
    obtain ⟨-, rfl⟩ := addBalance_eq_ok.mp paid
    refine .staked n routed (by omega) ?_ ?_
    · exact quiet.pools.trans ⟨quiet'.pools.escrow, quiet'.pools.multiSign⟩
    · exact quiet'.log.trans (congrArg _ quiet.log)
  rw [if_neg low] at run
  by_cases middle : n < 512
  · rw [if_pos middle] at run
    unfold processRewards at run
    simp only [get_bind_run, failIf_bind_eq_ok] at run
    obtain ⟨-, run⟩ := run
    by_cases positive : 0 < tx.amount
    · rw [if_pos positive] at run
      cases run
      exact .deposited n routed ⟨by omega, middle⟩ positive (.refl _) rfl
    · rw [if_neg positive] at run
      by_cases negative : tx.amount < 0
      · rw [if_pos negative] at run
        obtain ⟨_, v, withdrawn, paid⟩ := bind_eq_ok.mp run
        have quiet := (quiet_liftLedger _).of_ok withdrawn
        obtain ⟨-, rfl⟩ := addBalance_eq_ok.mp paid
        exact .staked n routed middle ⟨quiet.pools.escrow, quiet.pools.multiSign⟩
          (congrArg _ quiet.log)
      · rw [if_neg negative] at run
        cases run
  · rw [if_neg middle] at run
    exact (returns_charged .here _ _ _ run).inclusion

theorem Inclusion.of_counted {l : Ledger}
    (same : (l.accountOrNew tx.sender).policy = (tx.senderIn s).policy)
    (included : Inclusion tx height fee { s with ledger := l } t) :
    Inclusion tx height fee s t := by
  have delay : (l.accountOrNew tx.sender).transactionDelay = (tx.senderIn s).transactionDelay :=
    congrArg Prod.fst same
  have number : (l.accountOrNew tx.sender).multiSignNumber = (tx.senderIn s).multiSignNumber :=
    congrArg (fun p => p.2.1) same
  cases included with
  | deposited n routed range positive pools log =>
    exact .deposited n routed range positive ⟨pools.escrow, pools.multiSign⟩ log
  | charged escrow approval log => exact .charged escrow approval log
  | registered registers unrestricted pools log =>
    exact .registered registers
      (fun restricted => unrestricted ((Account.restricted_congr same).mpr restricted))
      ⟨pools.escrow, pools.multiSign⟩ log
  | staked n routed low pools log => exact .staked n routed low ⟨pools.escrow, pools.multiSign⟩ log
  | cancelled target e names pending owner early escrow multiSign log =>
    exact .cancelled target e names pending owner (delay ▸ early) escrow multiSign log
  | heldInEscrow delayed direct routed pools multiSign log =>
    exact .heldInEscrow (delay ▸ delayed) direct routed pools multiSign log
  | heldForApprovals undelayed shared direct routed pools escrow log =>
    exact .heldForApprovals (delay ▸ undelayed) (number ▸ shared) direct routed pools escrow log
  | transferred routed unheld native escrow approval log =>
    exact .transferred routed
      (fun direct restricted => unheld direct ((Account.restricted_congr same).mpr restricted))
      ((isContractCallTx_congr same).symm.trans native) escrow approval log

theorem processTransaction_ok (run : processTransaction env tx height blockTime s = .ok () t) :
    ∃ fee, tx.calcFee = some fee ∧ Inclusion tx height fee s t := by
  obtain ⟨fee, charged, course⟩ := processTransaction_course run
  refine ⟨fee, charged, ?_⟩
  obtain ⟨acc, found, policy⟩ := account?_counted s.ledger tx.sender tx.recipient
  have counted : Inclusion tx height fee (s.counted tx) t → Inclusion tx height fee s t :=
    .of_counted (by rw [accountOrNew_of_some found]; exact policy)
  cases course with
  | recovery recovers run => exact processRecoveryTransaction_ok recovers run
  | cancellation target _ names run =>
    obtain ⟨e, pending, owner, early, escrow, multiSign, log⟩ :=
      processCancellation_ok names found run
    refine counted (.cancelled target e names pending owner ?_ escrow multiSign log)
    simpa only [senderIn, Node.counted, accountOrNew_of_some found] using early
  | delegated n _ _ routed run => exact counted (processDelegated_ok routed run)
  | standard _ _ routed run => exact counted (processStandard_ok routed run)

end Inclusion

section Approval
variable {tx main : Transaction} {txs : List Transaction} {hash : Hash} {height : Int64}

/-- The body `loadMultiSignMainTx` finds: a confirmed one, or else one of the pool. -/
def Db.mainTx? (env : Env σ) (db : Db σ) (hash : Hash) : Option Transaction :=
  (db.loadTx? env .confirmed hash).or (db.loadTx? env .pool hash)

theorem loadMultiSignMainTx_ok {found : Transaction}
    (run : loadMultiSignMainTx env hash s = .ok found t) :
    t = s ∧ s.db.mainTx? env hash = some found ∧ found.hash = hash := by
  obtain ⟨result, u, loaded, rest⟩ := bind_eq_ok.mp run
  obtain ⟨equal, unchanged, -, -⟩ := attempt_load_cases loaded
  obtain rfl := unchanged (.inr (by decide))
  rw [Db.mainTx?, ← equal]
  cases result with
  | some body =>
    cases rest
    exact ⟨rfl, rfl, (bodyMatches_iff.mp (loadTx?_matches equal.symm)).1⟩
  | none =>
    obtain ⟨rfl, stored⟩ := loadFromDBPoolTx_eq_ok.mp rest
    exact ⟨rfl, stored, (bodyMatches_iff.mp (loadTx?_matches stored)).1⟩

/-- The main transaction was not pooled: it was loaded from a database and pooled. -/
structure Recovered (env : Env σ) (main : Transaction) (s t : Node σ) : Prop where
  stored : s.db.mainTx? env main.hash = some main
  ledger : t.ledger = s.ledger
  log : t.log = s.log
  escrow : t.escrowed = s.escrowed
  multiSign : t.approving = s.approving ∨ t.approving = main ::ₘ s.approving
  bodies : SameBodies s t

theorem recovered_of_stored (stored : s.db.mainTx? env main.hash = some main) :
    Recovered env main s (s.addMultiSignTransaction main).1 :=
  { stored := stored
    ledger := (Node.poolFrame_addMultiSignTransaction _ main).ledger
    log := (Node.poolFrame_addMultiSignTransaction _ main).log
    escrow := congrArg TransactionPool.held (Node.addMultiSignTransaction_pools _ main).2.1
    multiSign := approving_addMultiSignTransaction _ main
    bodies := s.addTo_poolTx .multiSign main }

theorem findMainTx_ok (run : findMainTx env hash txs s = .ok (some main) t) :
    main.hash = hash ∧ ((txs.find? (·.hash == hash) = some main ∧ t = s) ∨
      ((∀ t ∈ txs, t.hash ≠ hash) ∧ Recovered env main s t)) := by
  unfold findMainTx at run
  cases pooled : txs.find? (·.hash == hash) with
  | some body =>
    simp only [pooled] at run
    cases run
    exact ⟨by simpa using List.find?_some pooled, .inl ⟨rfl, rfl⟩⟩
  | none =>
    simp only [pooled] at run
    have absent : ∀ t ∈ txs, t.hash ≠ hash := by simpa using pooled
    obtain ⟨found, u, attempted, rest⟩ := bind_eq_ok.mp run
    cases found with
    | none => cases rest
    | some body =>
      simp only [modify_bind_run] at rest
      cases rest
      obtain ⟨rfl, stored, named⟩ := loadMultiSignMainTx_ok (attempt_eq_ok_some.mp attempted)
      exact ⟨named, .inr ⟨absent, recovered_of_stored (named ▸ stored)⟩⟩

def executionLog (main : Transaction) (height : Int64) : List Event :=
  if main.isCommitmentRegistration then [.settled .multiSign main height]
  else [.moved ⟨.multiSign, main.hash, height, main.recipient, main.amount⟩,
    .moved ⟨.multiSign, main.hash, height, main.sender, -main.amount⟩,
    .settled .multiSign main height]

structure Executed (main : Transaction) (height : Int64) (s t : Node σ) : Prop where
  escrow : t.escrowed = s.escrowed
  multiSign : t.approving = (s.poolTxMultiSign.removeTransactionByHash main.hash).held
  log : t.log = executionLog main height ++ s.log
  bodies : SameBodies s t

theorem executeMainTx_ok (run : executeMainTx env main height s = .ok () t) :
    Executed main height s t := by
  unfold executeMainTx at run
  obtain ⟨_, u, recorded, rest⟩ := bind_eq_ok.mp run
  obtain ⟨_, v, removed, rest'⟩ := bind_eq_ok.mp rest
  cases recorded
  cases removed
  have log := (Node.poolFrame_removeMultiSignTransaction
    { s with log := .settled .multiSign main height :: s.log } main.hash).log
  have escrow : (Node.removeMultiSignTransaction
      { s with log := .settled .multiSign main height :: s.log } main.hash).escrowed =
      s.escrowed := by
    rw [Node.escrowed, Node.removeMultiSignTransaction_escrow]
  have multiSign : (Node.removeMultiSignTransaction
      { s with log := .settled .multiSign main height :: s.log } main.hash).approving =
      (s.poolTxMultiSign.removeTransactionByHash main.hash).held := by
    rw [Node.approving, Node.removeMultiSignTransaction_multiSign]
  cases registers : main.isCommitmentRegistration with
  | true =>
    simp only [registers, if_true] at rest'
    have quiet := (quiet_liftLedger _).of_ok rest'
    obtain ⟨l, -, rfl⟩ := liftLedger_eq_ok.mp rest'
    exact ⟨quiet.pools.escrow.trans escrow, quiet.pools.multiSign.trans multiSign,
      by rw [quiet.log, executionLog, if_pos registers]; exact log,
      Node.removeFrom_poolTx _ .multiSign main.hash⟩
  | false =>
    simp only [registers, Bool.false_eq_true, if_false] at rest'
    obtain ⟨_, w, debit, credit⟩ := bind_eq_ok.mp rest'
    obtain ⟨-, rfl⟩ := addBalance_eq_ok.mp (onError_eq_ok.mp debit)
    obtain ⟨-, rfl⟩ := addBalance_eq_ok.mp credit
    refine ⟨escrow, multiSign, ?_, Node.removeFrom_poolTx _ .multiSign main.hash⟩
    rw [executionLog, if_neg (by simp [registers])]
    exact congrArg (fun log => _ :: _ :: log) log

theorem settleMainTx_ok (run : settleMainTx env main txs height s = .ok () t) :
    t = s ∨ ∃ acc, s.ledger.account? main.sender = some acc ∧
      acc.multiSignNumber.toNat ≤ countApprovals main acc.multiSignAddresses txs ∧
      main.routingAccount = some none ∧
      ¬ (0 < acc.transactionDelay ∧ height < main.height + acc.transactionDelay) ∧
      Executed main height s t := by
  unfold settleMainTx at run
  split at run
  · cases run
  rw [get_bind_run] at run
  cases found : s.ledger.account? main.sender with
  | none =>
    simp only [found] at run
    cases run
  | some acc =>
    simp only [found] at run
    split at run
    · cases run
      exact .inl rfl
    split at run
    · cases run
      exact .inl rfl
    · next enough =>
      cases routed : main.routingAccount with
      | none =>
        simp only [routed] at run
        cases run
      | some account =>
        cases account with
        | some n =>
          simp only [routed] at run
          cases run
          exact .inl rfl
        | none =>
          simp only [routed] at run
          split at run
          · cases run
          · next mature =>
            exact .inr ⟨acc, rfl, by omega, rfl, mature, executeMainTx_ok run⟩

theorem processTransactionsMultiSign_ok
    (run : processTransactionsMultiSign env tx height s = .ok () t) :
    (tx.txParam.multiSignTx = zerosHash ∧ t = s) ∨
      ∃ main u, main.hash = tx.txParam.multiSignTx ∧
        ((main ∈ multiSignGroup s main.hash ∧ u = s) ∨
          ((∀ entry ∈ multiSignGroup s main.hash, entry.hash ≠ main.hash) ∧
            Recovered env main s u)) ∧
        (t = u ∨ ∃ acc, s.ledger.account? main.sender = some acc ∧ acc.multiSignNumber.toNat ≤
            countApprovals main acc.multiSignAddresses (multiSignGroup s main.hash) ∧
          main.routingAccount = some none ∧
          ¬ (0 < acc.transactionDelay ∧ height < main.height + acc.transactionDelay) ∧
          Executed main height u t) := by
  unfold processTransactionsMultiSign at run
  split at run
  · next direct =>
    cases run
    exact .inl ⟨direct, rfl⟩
  rw [get_bind_run] at run
  obtain ⟨found, u, search, rest⟩ := bind_eq_ok.mp run
  cases found with
  | none => cases rest
  | some main =>
    obtain ⟨named, source⟩ := findMainTx_ok search
    refine .inr ⟨main, u, named, ?_⟩
    rw [named]
    have ledger : u.ledger = s.ledger := by
      rcases source with ⟨-, same⟩ | ⟨-, recovered⟩
      · rw [same]
      · exact recovered.ledger
    constructor
    · exact source.imp (fun pooled => ⟨List.mem_of_find?_eq_some pooled.1, pooled.2⟩) id
    · exact (settleMainTx_ok rest).imp_right fun ⟨acc, found, enough, routed, mature, executed⟩ =>
        ⟨acc, ledger ▸ found, enough, routed, mature, executed⟩

end Approval

section Settlement
variable {e : Transaction} {height : Int64}

namespace Node

theorem removeFromPools_held_le (s : Node σ) (hash : Hash) :
    (s.removeFromPools hash).escrowed ≤ s.escrowed ∧
      (s.removeFromPools hash).approving ≤ s.approving := by
  constructor
  · simp only [removeFromPools, escrowed, removeEscrowTransaction_escrow]
    exact held_removeTransactionByHash_le _ _
  · simp only [removeFromPools, approving, removeEscrowTransaction_multiSign]
    exact held_removeTransactionByHash_le _ _

theorem removeBadTransactionByHash_held_le (env : Env σ) (s : Node σ) (hash : Hash) :
    (s.removeBadTransactionByHash env hash).escrowed ≤ s.escrowed ∧
      (s.removeBadTransactionByHash env hash).approving ≤ s.approving := by
  have copied : ∀ db : Db σ, ({ s.removeFromPools hash with db } : Node σ).escrowed ≤ s.escrowed ∧
      ({ s.removeFromPools hash with db } : Node σ).approving ≤ s.approving :=
    fun _ => s.removeFromPools_held_le hash
  have dropped : ∀ u : Node σ, (u.dropIncluded hash).escrowed ≤ u.escrowed ∧
      (u.dropIncluded hash).approving ≤ u.approving := by
    intro u
    unfold dropIncluded
    split
    · exact u.removeFromPools_held_le hash
    · exact ⟨le_refl _, le_refl _⟩
  exact ⟨(dropped _).1.trans (copied _).1, (dropped _).2.trans (copied _).2⟩

theorem removeFromPools_escrow (s : Node σ) (hash : Hash) :
    (s.removeFromPools hash).poolTxEscrow = s.poolTxEscrow.removeTransactionByHash hash := by
  simp only [removeFromPools, removeEscrowTransaction_escrow]

theorem removeBadTransactionByHash_escrow (env : Env σ) (s : Node σ) (hash : Hash) :
    (s.removeBadTransactionByHash env hash).escrowed =
      (s.poolTxEscrow.removeTransactionByHash hash).held := by
  have again : ((s.poolTxEscrow.removeTransactionByHash hash).removeTransactionByHash hash).held =
      (s.poolTxEscrow.removeTransactionByHash hash).held :=
    held_removeTransactionByHash_of_none
      (by rw [lookup_removeTransactionByHash, if_pos rfl])
  have finished : ∀ u : Node σ, u.poolTxEscrow = s.poolTxEscrow.removeTransactionByHash hash →
      ((u.dropIncluded hash).banEverywhere hash).escrowed =
      (s.poolTxEscrow.removeTransactionByHash hash).held := by
    intro u removed
    unfold dropIncluded
    split
    · change (((u.removeFromPools hash).poolTxEscrow.banTransactionByHash
        hash).banTransactionByHash hash).held = _
      rw [removeFromPools_escrow, removed]
      exact again
    · change (u.poolTxEscrow.banTransactionByHash hash).held = _
      rw [removed]
      rfl
  exact finished _ (s.removeFromPools_escrow hash)

theorem removeFromPools_poolTx (s : Node σ) (hash : Hash) :
    (s.removeFromPools hash).db.poolTx = s.db.poolTx :=
  Node.removeFrom_poolTx _ .escrow hash

theorem removeBadTransactionByHash_poolTx (env : Env σ) (s : Node σ) {hash other : Hash}
    (different : other ≠ hash) : (s.removeBadTransactionByHash env hash).db.poolTx.lookup other =
      s.db.poolTx.lookup other := by
  have dropped : ∀ u : Node σ, (u.dropIncluded hash).db.poolTx.lookup other =
      u.db.poolTx.lookup other := by
    intro u
    unfold dropIncluded
    split
    · change ((u.removeFromPools hash).db.poolTx.erase hash).lookup other = _
      rw [AList.lookup_erase_ne different, removeFromPools_poolTx]
    · rfl
  have cleaned : ∀ db : Db σ, ((db.keepBad env hash).removePoolTx hash).poolTx.lookup other =
      db.poolTx.lookup other := by
    intro db
    unfold Db.keepBad
    split
    · exact AList.lookup_erase_ne different
    · exact AList.lookup_erase_ne different
  exact (dropped _).trans ((cleaned _).trans (by rw [removeFromPools_poolTx]))

end Node

/-- What the settlement of one due escrow entry leaves behind, whether it returned or
failed. Only in the last case has it failed half-way, between the debit and the credit. -/
inductive EscrowStep (env : Env σ) (height : Int64) (e : Transaction) (s t : Node σ) : Prop where
  | idle (quiet : Quiet s t) (bodies : SameBodies s t)
  | passedOn (escrow : t.escrowed = (s.poolTxEscrow.removeTransactionByHash e.hash).held)
      (shared : 0 < (e.senderIn s).multiSignNumber)
      (multiSign : Pools e s.poolTxMultiSign t.poolTxMultiSign) (log : t.log = s.log)
      (bodies : SameBodies s t)
  | registered (registers : e.isCommitmentRegistration = true)
      (mature : ¬ (0 < (e.senderIn s).transactionDelay ∧
        height < e.height + (e.senderIn s).transactionDelay))
      (unshared : ¬ 0 < (e.senderIn s).multiSignNumber)
      (escrow : t.escrowed = (s.poolTxEscrow.removeTransactionByHash e.hash).held)
      (multiSign : t.approving = s.approving) (log : t.log = .settled .escrow e height :: s.log)
      (bodies : SameBodies s t)
  | paid (other : e.isCommitmentRegistration = false)
      (mature : ¬ (0 < (e.senderIn s).transactionDelay ∧
        height < e.height + (e.senderIn s).transactionDelay ∧
        e.txParam.multiSignTx = zerosHash))
      (routed : e.routingAccount = some none)
      (escrow : t.escrowed = (s.poolTxEscrow.removeTransactionByHash e.hash).held)
      (approval : Approves e s t)
      (log : t.log = .settled .escrow e height ::
        .moved ⟨.escrow, e.hash, height, e.recipient, e.amount⟩ ::
        .moved ⟨.escrow, e.hash, height, e.sender, -e.amount⟩ :: s.log)
      (bodies : SameBodies s t)
  | unpaid (escrow : t.escrowed = (s.poolTxEscrow.removeTransactionByHash e.hash).held)
      (approval : ∃ u : Node σ, Approves e s u ∧ t.approving ≤ u.approving)
      (log : t.log = s.log)
      (bodies : ∀ hash ≠ e.hash, t.db.poolTx.lookup hash = s.db.poolTx.lookup hash)
      (failed : ∃ error, settleEscrow env height e s = .error error t)
  | debited (mature : ¬ (0 < (e.senderIn s).transactionDelay ∧
        height < e.height + (e.senderIn s).transactionDelay ∧
        e.txParam.multiSignTx = zerosHash))
      (routed : e.routingAccount = some none)
      (failed : ∃ error, settleEscrow env height e s = .error error t)
      (escrow : t.escrowed = s.escrowed) (approval : Approves e s t)
      (log : t.log = .moved ⟨.escrow, e.hash, height, e.sender, -e.amount⟩ :: s.log)
      (bodies : SameBodies s t)

theorem addBalance_error {route : Route} {hash : Hash} {a : AddressBytes} {added : Int64}
    (short : (s.ledger.accountOrNew a).balance + added < 0) :
    addBalance route hash height a added s = .error .notEnoughFunds
      { s with ledger := s.ledger.putAccount a (s.ledger.accountOrNew a) } := by
  simp [addBalance, short]

def escrowPayment (env : Env σ) (e : Transaction) (height : Int64) : NodeM σ Unit := do
  onError (addBalance .escrow e.hash height e.sender (-e.amount))
    fun s => s.removeBadTransactionByHash env e.hash
  addBalance .escrow e.hash height e.recipient e.amount
  modify fun s => s.removeEscrowTransaction e.hash
  record (.settled .escrow e height)

theorem escrowPayment_short (env : Env σ) (e : Transaction) (height : Int64)
    (short : (s.ledger.accountOrNew e.sender).balance + -e.amount < 0) :
    escrowPayment env e height s = .error .notEnoughFunds (Node.removeBadTransactionByHash env
      { s with ledger := s.ledger.putAccount e.sender (s.ledger.accountOrNew e.sender) } e.hash) := by
  refine bind_of_error ?_
  rw [onError, addBalance_error short]

theorem escrowPayment_of_debit (env : Env σ) {e : Transaction} {height : Int64}
    (debit : addBalance .escrow e.hash height e.sender (-e.amount) s = .ok () t) :
    escrowPayment env e height s = (do
      addBalance .escrow e.hash height e.recipient e.amount
      modify fun s => s.removeEscrowTransaction e.hash
      record (.settled .escrow e height) : NodeM σ Unit) t :=
  bind_of_ok (onError_eq_ok.mpr debit)

theorem payEscrow_start (env : Env σ) (height : Int64) (e : Transaction) (s : Node σ) : ∃ u : Node σ,
    u.ledger = s.ledger ∧ u.log = s.log ∧ u.poolTxEscrow = s.poolTxEscrow ∧ SameBodies s u ∧
      Approves e s u ∧ payEscrow env e height s = escrowPayment env e height u := by
  by_cases direct : e.txParam.multiSignTx = zerosHash
  · refine ⟨s, rfl, rfl, rfl, rfl, .inl rfl, ?_⟩
    unfold payEscrow
    rw [if_neg (not_not_intro direct)]
    rfl
  · have frame := s.poolFrame_addMultiSignTransaction e
    refine ⟨(s.addMultiSignTransaction e).1, frame.ledger, frame.log,
      (s.addMultiSignTransaction_pools e).2.1, s.addTo_poolTx .multiSign e, ?_, ?_⟩
    · exact (approving_addMultiSignTransaction s e).imp_right fun grown => ⟨direct, grown⟩
    · unfold payEscrow
      rw [if_pos direct, modify_bind_run]
      rfl

theorem escrowStep_payEscrow (other : e.isCommitmentRegistration = false)
    (mature : ¬ (0 < (e.senderIn s).transactionDelay ∧
      height < e.height + (e.senderIn s).transactionDelay ∧ e.txParam.multiSignTx = zerosHash))
    (routed : e.routingAccount = some none)
    (pays : settleEscrow env height e s = payEscrow env e height s) :
    EscrowStep env height e s (finalState (payEscrow env e height s)) := by
  obtain ⟨u, ledger, log, pool, bodies, approval, equal⟩ := payEscrow_start env height e s
  by_cases short : (u.ledger.accountOrNew e.sender).balance + -e.amount < 0
  · -- the sender cannot pay: the entry is thrown out
    have whole := equal.trans (escrowPayment_short env e height short)
    rw [whole, finalState_error]
    have removed := Node.removeBadTransactionByHash_held_le env { u with
      ledger := u.ledger.putAccount e.sender (u.ledger.accountOrNew e.sender) } e.hash
    refine .unpaid ?_ ⟨u, approval, removed.2⟩ ?_ (fun hash different => ?_)
      ⟨_, pays.trans whole⟩
    · rw [Node.removeBadTransactionByHash_escrow, ← pool]
    · exact (Node.poolFrame_removeBadTransactionByHash _ e.hash).log.trans log
    · rw [Node.removeBadTransactionByHash_poolTx env _ different]
      exact congrArg (fun stored => stored.lookup hash) bodies
  · obtain ⟨v, debit, -⟩ := addBalance_runs .escrow e.hash height e.sender (-e.amount) short
    obtain ⟨-, paidState⟩ := addBalance_eq_ok.mp debit
    have vLog : v.log = .moved ⟨.escrow, e.hash, height, e.sender, -e.amount⟩ :: s.log := by
      rw [paidState, ← log]
    have vEscrow : v.poolTxEscrow = s.poolTxEscrow := by rw [paidState, ← pool]
    have vMulti : v.approving = u.approving := by rw [paidState]
    have vBodies : SameBodies s v := by rw [paidState]; exact bodies
    have vApproval : Approves e s v := by
      unfold Approves at approval ⊢
      rwa [vMulti]
    by_cases negative : (v.ledger.accountOrNew e.recipient).balance + e.amount < 0
    · -- the recipient cannot be credited: the sender stays debited
      have whole : payEscrow env e height s = .error .notEnoughFunds { v with
          ledger := v.ledger.putAccount e.recipient (v.ledger.accountOrNew e.recipient) } := by
        rw [equal, escrowPayment_of_debit env debit, bind_of_error (addBalance_error negative)]
      rw [whole]
      refine .debited mature routed ⟨_, pays.trans whole⟩ ?_ ?_ vLog vBodies
      · exact congrArg TransactionPool.held vEscrow
      · exact vApproval
    · obtain ⟨w, credit, -⟩ := addBalance_runs .escrow e.hash height e.recipient e.amount negative
      obtain ⟨-, creditState⟩ := addBalance_eq_ok.mp credit
      rw [equal, escrowPayment_of_debit env debit, bind_of_ok credit, modify_bind_run]
      have wLog := (w.poolFrame_removeEscrowTransaction e.hash).log
      refine .paid other mature routed ?_ ?_ ?_ ?_
      · change (w.removeEscrowTransaction e.hash).escrowed = _
        rw [Node.escrowed, Node.removeEscrowTransaction_escrow, creditState, ← vEscrow]
      · change Approves e s (w.removeEscrowTransaction e.hash)
        unfold Approves at vApproval ⊢
        rw [Node.approving, Node.removeEscrowTransaction_multiSign, creditState]
        exact vApproval
      · change .settled .escrow e height :: (w.removeEscrowTransaction e.hash).log = _
        rw [wLog, creditState, vLog]
      · change (w.removeEscrowTransaction e.hash).db.poolTx = _
        rw [Node.removeEscrowTransaction_eq, Node.removeFrom_poolTx, creditState]
        exact vBodies

theorem settleEscrow_step (env : Env σ) (height : Int64) (e : Transaction) (s : Node σ) :
    EscrowStep env height e s (finalState (settleEscrow env height e s)) := by
  have idle : ∀ {r : EStateM.Result Error (Node σ) Unit},
      settleEscrow env height e s = r → finalState r = s →
      EscrowStep env height e s (finalState (settleEscrow env height e s)) := by
    intro r equal same
    rw [equal, same]
    exact .idle (refl_of Quiet s) rfl
  cases routed : e.routingAccount with
  | none =>
    exact idle (r := .error .lockingAccountInvalid s) (by simp only [settleEscrow, routed]; rfl) rfl
  | some account =>
    cases account with
    | some n => exact idle (r := .ok () s) (by simp only [settleEscrow, routed]; rfl) rfl
    | none =>
      cases found : s.ledger.account? e.sender with
      | none =>
        exact idle (r := .error .noAccountEscrow s)
          (by simp only [settleEscrow, routed, get_bind_run, found]; rfl) rfl
      | some acc =>
        have sender : e.senderIn s = acc := accountOrNew_of_some found
        by_cases early : 0 < acc.transactionDelay ∧
            height < e.height + acc.transactionDelay ∧ e.txParam.multiSignTx = zerosHash
        · refine idle (r := .ok () s) ?_ rfl
          simp only [settleEscrow, routed, get_bind_run, found]
          rw [if_pos early]
          rfl
        have mature := early
        rw [← sender] at mature
        by_cases shared : 0 < acc.multiSignNumber ∧ e.txParam.multiSignTx = zerosHash
        · have equal : settleEscrow env height e s = .ok () (
              let r := s.addMultiSignTransaction e
              if r.2 then r.1.removeEscrowTransaction e.hash else r.1) := by
            simp only [settleEscrow, routed, get_bind_run, found]
            rw [if_neg early, if_pos shared]
            rfl
          rw [equal, finalState_ok]
          have escrow := (s.addMultiSignTransaction_pools e).2.1
          have log := (s.poolFrame_addMultiSignTransaction e).log
          have bodies := s.addTo_poolTx .multiSign e
          rcases addTo_held (show PoolType.multiSign ≠ .standard by decide) s e with
            ⟨taken, pooled⟩ | ⟨refused, same⟩
          · simp only [Node.addMultiSignTransaction_eq, taken, if_true]
            have log' := Node.poolFrame_removeEscrowTransaction (s.addMultiSignTransaction e).1 e.hash
            refine .passedOn ?_ (sender ▸ shared.1) ?_ (log'.log.trans log)
              ((Node.removeFrom_poolTx _ .escrow _).trans bodies)
            · exact congrArg TransactionPool.held ((Node.removeEscrowTransaction_escrow _ _).trans
                (by rw [← Node.addMultiSignTransaction_eq, escrow]))
            · unfold Pools at pooled ⊢
              rwa [Node.removeEscrowTransaction_multiSign]
          · simp only [Node.addMultiSignTransaction_eq, refused, Bool.false_eq_true, if_false]
            exact .idle ⟨⟨congrArg TransactionPool.held escrow, same⟩, log⟩ bodies
        by_cases registers : e.isCommitmentRegistration = true
        · have equal : settleEscrow env height e s = (do
              settleCommitment e height
              modify fun s => s.removeEscrowTransaction e.hash
              record (.settled .escrow e height) : NodeM σ Unit) s := by
            simp only [settleEscrow, routed, get_bind_run, found]
            rw [if_neg early, if_neg shared, if_pos registers]
          rw [equal]
          cases settles : settleCommitment e height s with
          | error error t =>
            have quiet := (quiet_liftLedger _).of_error settles
            rw [bind_of_error settles]
            refine .idle quiet ?_
            exact ((sameBodies_holdMoves fun _ => True).settleCommitment trivial).of_error settles
          | ok _ t =>
            have quiet := (quiet_liftLedger _).of_ok settles
            rw [bind_of_ok settles, modify_bind_run]
            have same : t.poolTxEscrow = s.poolTxEscrow ∧ SameBodies s t := by
              obtain ⟨l, -, rfl⟩ := liftLedger_eq_ok.mp settles
              exact ⟨rfl, rfl⟩
            have direct := (plain_of_registration registers).2
            refine .registered registers (fun both => mature ⟨both.1, both.2, direct⟩)
              (fun number => shared ⟨sender ▸ number, direct⟩) ?_ ?_ ?_ ?_
            · change (t.removeEscrowTransaction e.hash).escrowed = _
              rw [Node.escrowed, Node.removeEscrowTransaction_escrow, same.1]
            · change (t.removeEscrowTransaction e.hash).approving = _
              rw [Node.approving, Node.removeEscrowTransaction_multiSign]
              exact quiet.pools.multiSign
            · change .settled .escrow e height :: (t.removeEscrowTransaction e.hash).log = _
              rw [(t.poolFrame_removeEscrowTransaction e.hash).log, quiet.log]
            · exact (t.removeFrom_poolTx .escrow e.hash).trans same.2
        · have equal : settleEscrow env height e s = payEscrow env e height s := by
            simp only [settleEscrow, routed, get_bind_run, found]
            rw [if_neg early, if_neg shared, if_neg registers]
          rw [equal]
          exact escrowStep_payEscrow (by simpa using registers) mature routed equal

end Settlement

section Journal
variable {height : Int64}

namespace Node

theorem journalPendingChange_paused (paused : s.journalPaused = true) (pool : PoolType)
    (added : Bool) (tx : Transaction) : s.journalPendingChange pool added tx = s := by
  rw [journalPendingChange, if_pos (.inr paused)]

theorem addTo_paused (paused : s.journalPaused = true) (kind : PoolType) (tx : Transaction) :
    (s.addTo kind tx).1.journalPaused = true ∧
      (s.addTo kind tx).1.db.pendingJournal = s.db.pendingJournal := by
  have written : ∀ tp m, (s.setPool kind tp m).journalPaused = true := by
    cases kind <;> exact fun _ _ => paused
  unfold addTo
  simp only [journalPendingChange_paused (written _ _)]
  split <;> cases kind <;> exact ⟨paused, rfl⟩

theorem removeFrom_paused (paused : s.journalPaused = true) (kind : PoolType) (hash : Hash) :
    (s.removeFrom kind hash).journalPaused = true ∧
      (s.removeFrom kind hash).db.pendingJournal = s.db.pendingJournal := by
  unfold removeFrom
  simp only [journalPendingChange_paused paused]
  split <;> cases kind <;> exact ⟨paused, rfl⟩

theorem undoPendingChange_paused (paused : s.journalPaused = true) (e : JournalEntry) :
    (s.undoPendingChange e).journalPaused = true ∧
      (s.undoPendingChange e).db.pendingJournal = s.db.pendingJournal := by
  unfold undoPendingChange
  split
  · exact removeFrom_paused paused .escrow _
  · exact addTo_paused paused .escrow _
  · exact removeFrom_paused paused .multiSign _
  · exact addTo_paused paused .multiSign _
  · exact ⟨paused, rfl⟩

theorem undoPendingChange_escrowed (s : Node σ) (e : JournalEntry) :
    ∀ x ∈ (s.undoPendingChange e).escrowed,
      x ∈ s.escrowed ∨ (e.pool = .escrow ∧ x = e.transaction) := by
  intro x member
  unfold undoPendingChange at member
  split at member
  · rw [escrowed, removeEscrowTransaction_escrow] at member
    exact .inl (Multiset.mem_of_le (held_removeTransactionByHash_le _ _) member)
  · next pool _ =>
    rw [escrowed, (s.addEscrowTransaction_pools e.transaction).1] at member
    rcases held_addTransaction (by decide) s.poolTxEscrow e.transaction
      e.transaction.hash with ⟨same, -⟩ | ⟨grown, -, -⟩
    · rw [same] at member
      exact .inl member
    · rw [grown] at member
      exact (Multiset.mem_cons.mp member).symm.imp_right fun equal => ⟨pool, equal⟩
  · rw [escrowed, removeMultiSignTransaction_escrow] at member
    exact .inl member
  · rw [escrowed, (s.addMultiSignTransaction_pools e.transaction).2.1] at member
    exact .inl member
  · exact .inl member

theorem forall_escrowed_begin {P : Transaction → Prop} (pooled : ∀ e ∈ s.escrowed, P e)
    (journaled : ∀ key e, s.db.pendingJournal.lookup key = some e → key.1 = height →
      e.pool = .escrow → P e.transaction) :
    ∀ e ∈ (s.beginPendingPoolJournal height).escrowed, P e := by
  -- along the undone keys the journal only shrinks, because it is paused
  have undone : ∀ (keys : List (Int64 × Nat)) (u : Node σ), (∀ key ∈ keys, key.1 = height) →
      u.journalPaused = true → (∀ e ∈ u.escrowed, P e) →
      (∀ key e, u.db.pendingJournal.lookup key = some e → key.1 = height →
        e.pool = .escrow → P e.transaction) →
      ∀ e ∈ (keys.foldl undoKey u).escrowed, P e := by
    intro keys
    induction keys with
    | nil => exact fun u _ _ pooled _ => pooled
    | cons key rest ih =>
      intro u heights paused pooled journaled
      have erased : ∀ (v : Node σ), v.db.pendingJournal = u.db.pendingJournal →
          ∀ key' e, (v.db.pendingJournal.erase key).lookup key' = some e → key'.1 = height →
            e.pool = .escrow → P e.transaction := by
        intro v same key' e found
        rw [same] at found
        by_cases equal : key' = key
        · rw [equal, AList.lookup_erase] at found
          cases found
        · rw [AList.lookup_erase_ne equal] at found
          exact journaled key' e found
      rw [List.foldl_cons, undoKey]
      cases entry : u.db.pendingJournal.lookup key with
      | none => exact ih _ (fun k inside => heights k (by simp [inside])) paused pooled (erased u rfl)
      | some e =>
        obtain ⟨stillPaused, sameJournal⟩ := undoPendingChange_paused paused e
        refine ih _ (fun k inside => heights k (by simp [inside])) stillPaused ?_
          (erased _ sameJournal)
        intro x member
        rcases u.undoPendingChange_escrowed e x member with old | ⟨pool, rfl⟩
        · exact pooled x old
        · exact journaled key e entry (heights key List.mem_cons_self) pool
  intro e member
  unfold beginPendingPoolJournal at member
  unfold undoJournalKeys at member
  split at member
  · exact pooled e member
  · refine undone _ { s with journalPaused := true } ?_ rfl pooled journaled e member
    intro key inside
    have filtered := (List.mem_insertionSort _).mp inside
    exact of_decide_eq_true (by simpa using (List.mem_filter.mp filtered).2)

theorem beginPendingPoolJournal_fresh
    (fresh : ∀ key e, s.db.pendingJournal.lookup key = some e → key.1 ≠ height) :
    s.beginPendingPoolJournal height = { s with journalHeight := height, journalSeq := 0 } := by
  have none : (s.db.pendingJournal.keys.filter fun k => k.1 == height) = [] := by
    rw [List.filter_eq_nil_iff]
    intro key member equal
    obtain ⟨e, found⟩ := Option.isSome_iff_exists.mp (AList.lookup_isSome.mpr member)
    exact fresh key e found (by simpa using equal)
  simp [beginPendingPoolJournal, undoJournalKeys, selectedKeys, none]

end Node
end Journal
end QwidNode.Source

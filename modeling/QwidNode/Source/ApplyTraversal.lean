import QwidNode.Source.LedgerOps

/-!
# The apply pass, for any relation that contains its steps

The apply pass changes a node in few ways: an operation on the ledger, an event on the record, a
change of a pending pool, and the removal of a transaction. A preorder on nodes that contains these
contains every run of the pass, whether it returns or fails.
-/
namespace QwidNode.Source
open Lib Ledger Node Transaction Account
variable {σ : Type} {env : Env σ} {may : LedgerOp → Prop} {notes : Event → Prop}
  {R : Node σ → Node σ → Prop} {tx held : Transaction} {block : Block} {height blockTime fee reward : Int64}

/-- The policy a transaction carries reaches `ProcessMultiSignAndEscrow`: the transaction is
no recovery and no cancellation, and it is a transfer or a staking transaction. -/
def Transaction.appliesPolicy (tx : Transaction) : Bool :=
  tx.setsPolicy && !tx.isRecovery && tx.cancellationTarget.isNone &&
    match tx.routingAccount with
    | some (some n) => decide (n < 256)
    | some none => true
    | none => false

def Node.counted (s : Node σ) (tx : Transaction) : Node σ :=
  { s with ledger := (s.ledger.addTransactionsSender tx.sender).addTransactionsRecipient tx.recipient }

inductive Course (env : Env σ) (tx : Transaction) (height blockTime fee : Int64) (s t : Node σ) :
    Prop where
  | recovery (recovers : tx.isRecovery = true)
      (run : processRecoveryTransaction env tx height fee s = .ok () t)
  | cancellation (target : Hash) (ordinary : tx.isRecovery = false)
      (names : tx.cancellationTarget = some target)
      (run : processCancellation tx target height fee (s.counted tx) = .ok () t)
  | delegated (n : Nat) (ordinary : tx.isRecovery = false) (noTarget : tx.cancellationTarget = none)
      (routed : tx.routingAccount = some (some n))
      (run : processDelegated env tx n height blockTime fee (s.counted tx) = .ok () t)
  | standard (ordinary : tx.isRecovery = false) (noTarget : tx.cancellationTarget = none)
      (routed : tx.routingAccount = some none)
      (run : processStandard tx height fee (s.counted tx) = .ok () t)

theorem processTransaction_course {s t : Node σ}
    (run : processTransaction env tx height blockTime s = .ok () t) :
    ∃ fee, tx.calcFee = some fee ∧ Course env tx height blockTime fee s t := by
  unfold processTransaction at run
  cases charged : tx.calcFee with
  | none =>
    simp only [charged] at run
    cases run
  | some fee =>
    refine ⟨fee, rfl, ?_⟩
    simp only [charged] at run
    by_cases recovers : tx.isRecovery = true
    · rw [if_pos recovers] at run
      exact .recovery recovers run
    rw [if_neg recovers] at run
    rw [Bool.not_eq_true] at recovers
    obtain ⟨_, u, counted, rest⟩ := bind_eq_ok.mp run
    cases counted
    cases names : tx.cancellationTarget with
    | some target =>
      simp only [names] at rest
      exact .cancellation target recovers names rest
    | none =>
      simp only [names] at rest
      cases routed : tx.routingAccount with
      | none =>
        simp only [routed] at rest
        cases rest
      | some account =>
        cases account with
        | some n =>
          simp only [routed] at rest
          exact .delegated n recovers names routed rest
        | none =>
          simp only [routed] at rest
          exact .standard recovers names routed rest

/-- The ledger operations that applying a transaction at a height can lead to. -/
inductive LedgerOp.Of (env : Env σ) (tx : Transaction) (height : Int64) : LedgerOp → Prop where
  | entry (a : AddressBytes) : Of env tx height (.entry a)
  | policy (applies : tx.appliesPolicy = true) : Of env tx height (.policy tx.recipient)
  | register (shape : tx.isCommitmentRegistration = true) : Of env tx height
      (.commit tx.sender tx.commitmentValues.1 tx.commitmentValues.2 height)
  | openAddress {r : AddressReveal} (shape : tx.isAddressReveal = true)
      (parsed : parseAddressReveal tx.txData.optData = some r) :
      Of env tx height (.commit tx.sender r.spare r.next height)
  | consume {secret : Bytes} {next : AddressBytes} (shape : tx.isRecoveryReveal = true)
      (parsed : parseRecoveryReveal tx.txData.optData = some (secret, next)) :
      Of env tx height (.consume tx.sender next)
  | bind {identity : AddressBytes} {tag payload : Hash} (shape : tx.isRecoveryBind = true)
      (parsed : parseRecoveryBind tx.txData.optData = some (identity, tag, payload)) :
      Of env tx height (.bind (env.recoveryBindKey identity tag) ⟨identity, payload, height⟩)
  | unbind (tag : Hash) (shape : tx.isRecoveryReveal = true) :
      Of env tx height (.unbind (env.recoveryBindKey tx.sender tag))
  | staking {n : Nat} (a : AddressBytes) (low : n < 256) : Of env tx height (.staking n a)

/-- The operation is on accounts and binds, not on the staking state. -/
def LedgerOp.OnAccounts : LedgerOp → Prop
  | .staking _ _ => False
  | .randCommit _ _ _ _ => False
  | _ => True

def LedgerOp.OnRecovery : LedgerOp → Prop
  | .commit _ _ _ _ | .consume _ _ | .bind _ _ | .unbind _ => True
  | _ => False

/-- The ledger operations that settling a held transaction at a height can lead to. -/
inductive LedgerOp.Settles (held : Transaction) (height : Int64) : LedgerOp → Prop where
  | entry (a : AddressBytes) : Settles held height (.entry a)
  | register (shape : held.isCommitmentRegistration = true) : Settles held height
      (.commit held.sender held.commitmentValues.1 held.commitmentValues.2 height)

/-- What `ProcessTransaction` may record for a transaction at a height. -/
def InclusionOf (tx : Transaction) (height : Int64) : Event → Prop
  | .moved m => m.hash = tx.hash ∧ m.height = height ∧
      (m.route = .fee ∨ m.route = .inclusion ∨ m.route = .staking)
  | .held _ tx' h => tx' = tx ∧ h = height
  | .settled pool tx' h => pool = .standard ∧ tx' = tx ∧ h = height
  | .cancelled target sender h =>
      tx.cancellationTarget = some target ∧ sender = tx.sender ∧ h = height
  | _ => False

def SettlementAt (pool : PoolType) (route : Route) (height : Int64) : Event → Prop
  | .moved m => m.route = route ∧ m.height = height
  | .settled pool' _ h => pool' = pool ∧ h = height
  | _ => False

/-- The allowed ledger operations and events are steps of the relation. -/
structure LedgerMoves (may : LedgerOp → Prop) (notes : Event → Prop) (R : Node σ → Node σ → Prop) :
    Prop where
  write : ∀ {s : Node σ} {op : LedgerOp} {l : Ledger}, may op → op.Writes s.ledger l →
    R s { s with ledger := l }
  record : ∀ (s : Node σ) {e}, notes e → R s { s with log := e :: s.log }

/-- So are the changes that including a transaction makes to the pending pools. -/
structure HoldMoves (may : LedgerOp → Prop) (notes : Event → Prop) (R : Node σ → Node σ → Prop) :
    Prop extends LedgerMoves may notes R where
  hold : ∀ (s : Node σ) tx, R s (s.addEscrowTransaction tx).1
  share : ∀ (s : Node σ) tx, R s (s.addMultiSignTransaction tx).1
  cancel : ∀ (s : Node σ) hash height, R s (markVoided
    { s.removeEscrowTransaction hash with
      poolTxEscrow := (s.removeEscrowTransaction hash).poolTxEscrow.banTransactionByHash hash }
    hash height voidedCancelled)

structure ApplyMoves (env : Env σ) (may : LedgerOp → Prop) (notes : Event → Prop)
    (R : Node σ → Node σ → Prop) : Prop extends HoldMoves may notes R where
  /-- A pool body that does not match its hash is dropped. -/
  mismatch : ∀ (s : Node σ) hash, R s { s with db := s.db.removePoolTx hash }
  duplicate : ∀ (s : Node σ) hash, R s (s.removeDuplicateTransactionByHash hash)
  bad : ∀ (s : Node σ) hash, R s (s.removeBadTransactionByHash env hash)
  /-- A matured escrow of an account with co-signers moves to the other pool. -/
  move : ∀ (s : Node σ) tx, (s.addMultiSignTransaction tx).2 = true →
    R s ((s.addMultiSignTransaction tx).1.removeEscrowTransaction tx.hash)
  escrowSettled : ∀ (s : Node σ) tx height, notes (.settled .escrow tx height) →
    R s { s.removeEscrowTransaction tx.hash with
      log := .settled .escrow tx height :: (s.removeEscrowTransaction tx.hash).log }
  mainSettled : ∀ (s : Node σ) tx height, notes (.settled .multiSign tx height) →
    R s (removeMultiSignTransaction
      { s with log := .settled .multiSign tx height :: s.log } tx.hash)
  expire : ∀ (s : Node σ) hash height,
    R s ((s.removeMultiSignTransaction hash).markVoided hash height voidedExpired)
  orphan : ∀ (s : Node σ) hash, R s (s.removeMultiSignTransaction hash)

theorem HoldMoves.of_poolFrame (framed : ∀ {s t : Node σ}, PoolFrame s t → R s t)
    (ledger : LedgerMoves may notes R) : HoldMoves may notes R where
  toLedgerMoves := ledger
  hold s tx := framed (s.poolFrame_addEscrowTransaction tx)
  share s tx := framed (s.poolFrame_addMultiSignTransaction tx)
  cancel s hash _ := framed ((s.poolFrame_removeEscrowTransaction hash).trans
    ((poolFrame_pools _ _ _ _ _ _).trans (poolFrame_markVoided _ _ _ _)))

theorem ApplyMoves.of_poolFrame [IsPreorder (Node σ) R]
    (framed : ∀ {s t : Node σ}, PoolFrame s t → R s t) (ledger : LedgerMoves may notes R) :
    ApplyMoves env may notes R where
  toHoldMoves := .of_poolFrame framed ledger
  mismatch s hash := framed (s.poolFrame_removePoolTx hash)
  duplicate s hash := framed (s.poolFrame_removeDuplicateTransactionByHash hash)
  bad s hash := framed (s.poolFrame_removeBadTransactionByHash hash)
  move s tx _ := framed ((s.poolFrame_addMultiSignTransaction tx).trans
    (poolFrame_removeEscrowTransaction _ _))
  escrowSettled s tx _ said := trans_of R
    (framed (s.poolFrame_removeEscrowTransaction tx.hash)) (ledger.record _ said)
  mainSettled s tx _ said := trans_of R (ledger.record s said)
    (framed (poolFrame_removeMultiSignTransaction _ tx.hash))
  expire s hash _ := framed ((s.poolFrame_removeMultiSignTransaction hash).trans
    (poolFrame_markVoided _ _ _ _))
  orphan s hash := framed (s.poolFrame_removeMultiSignTransaction hash)

theorem setAccountByAddressBytes_ok {a : AddressBytes} {s u : Node σ} {acc : Account}
    (run : setAccountByAddressBytes a s = .ok acc u) :
    acc.address = a ∧ ∃ stored, u.ledger.account? a = some stored ∧
      stored.policy = acc.policy ∧ stored.commitments = acc.commitments ∧
      stored.balance = acc.balance := by
  unfold setAccountByAddressBytes at run
  rw [get_bind_run] at run
  cases found : s.ledger.account? a with
  | some stored =>
    simp only [found] at run
    cases run
    exact ⟨rfl, stored, found, rfl, rfl, rfl⟩
  | none =>
    simp only [found] at run
    cases run
    refine ⟨rfl, { address := a }, ?_, rfl, rfl, rfl⟩
    exact (s.ledger.account?_putAccount a a _).trans (if_pos rfl)

theorem not_restricted {acc : Account} (delay : ¬ 0 < acc.transactionDelay)
    (number : ¬ 0 < acc.multiSignNumber) : ¬ acc.restricted :=
  fun restricted => restricted.elim delay number

theorem modifyAccountToEscrow_ok {acc new : Account} {delay : Int64}
    (run : acc.modifyAccountToEscrow delay = .ok new) :
    ¬ acc.restricted ∧ new.commitments = acc.commitments ∧ new.balance = acc.balance ∧
      new.transactionDelay = delay := by
  simp only [modifyAccountToEscrow, ite_error_eq_ok] at run
  obtain ⟨delayed, signed, -, -, run⟩ := run
  cases run
  exact ⟨not_restricted delayed signed, rfl, rfl, rfl⟩

theorem modifyAccountToMultiSign_ok {acc new : Account} {number : UInt8}
    {addresses : List AddressBytes}
    (run : acc.modifyAccountToMultiSign number addresses = .ok new) :
    ¬ acc.restricted ∧ new.commitments = acc.commitments ∧ new.balance = acc.balance ∧
      new.multiSignNumber = number := by
  simp only [modifyAccountToMultiSign, ite_error_eq_ok] at run
  obtain ⟨signed, delayed, -, -, run⟩ := run
  cases run
  exact ⟨not_restricted delayed signed, rfl, rfl, rfl⟩

theorem respects_rewardUsers [IsPreorder (Node σ) R] {n : Nat}
    (give : ∀ a amount, Respects R (giveReward env block n a amount)) (sum : Int64)
    (staked : List (AddressBytes × Int64)) (rest : Int64) :
    Respects R (rewardUsers env block n reward sum staked rest) := by
  induction staked generalizing rest with
  | nil => exact .pure _
  | cons entry staked ih =>
    unfold rewardUsers
    split
    · exact .bind (give _ _) fun _ => ih _
    · exact ih _

theorem respects_rewardBlock [IsPreorder (Node σ) R]
    (give : ∀ n < 256, ∀ a amount, Respects R (giveReward env block n a amount)) :
    Respects R (rewardBlock env block reward) := by
  unfold rewardBlock
  split
  · exact .throw _
  · next n _ =>
    unfold failIf
    split
    · exact .throw _
    · next inRange =>
      have low : n < 256 := by omega
      refine .bind (.pure _) fun _ => .bind .get fun s => .bind (.failIf _ _) fun _ =>
        .bind (.failIf _ _) fun _ => .bind (give n low _ _) fun _ =>
        .bind (respects_rewardUsers (give n low) _ _ _) fun rest => ?_
      split
      · exact give n low _ _
      · exact .failIf _ _

/-- The computation fails along `R`, or moves along `R` and then charges the fee. -/
abbrev EndsWithFee (R : Node σ → Node σ → Prop) (tx : Transaction) (height fee : Int64) :
    NodeM σ Unit → Prop :=
  EndsWith R (addBalance .fee tx.hash height tx.sender (-fee))

namespace LedgerMoves
variable (moves : LedgerMoves may notes R)
include moves

theorem modifyLedger {f : Ledger → Ledger} {op : LedgerOp} (allowed : may op)
    (does : ∀ l, op.Writes l (f l)) : Respects R (modifyLedger f : NodeM σ Unit) :=
  Respects.modify fun s => moves.write allowed (does s.ledger)

variable [IsPreorder (Node σ) R]

theorem liftLedger {f : Ledger → Except Error Ledger} {op : LedgerOp} (allowed : may op)
    (does : ∀ l l', f l = .ok l' → op.Writes l l') : Respects R (liftLedger f : NodeM σ Unit) := by
  intro s
  unfold Source.liftLedger
  rw [get_bind_run]
  cases run : f s.ledger with
  | ok l => exact moves.write allowed (does s.ledger l run)
  | error e => exact refl_of R s

theorem addBalance (entry : ∀ a, may (.entry a)) (route : Route) (hash : Hash) (h : Int64)
    (a : AddressBytes) (added : Int64) (said : notes (.moved ⟨route, hash, h, a, added⟩)) :
    Respects R (addBalance route hash h a added : NodeM σ Unit) := by
  intro s
  unfold Source.addBalance
  dsimp only
  split
  · exact moves.write (entry a) (s.ledger.entry_writes a (f := fun acc => acc)
      (fun _ => rfl) fun _ => rfl)
  · exact trans_of R (moves.write (entry a) (s.ledger.entry_writes a
      (f := fun acc => { acc with balance := acc.balance + added }) (fun _ => rfl) fun _ => rfl))
      (moves.record _ said)

theorem countTransaction (entry : ∀ a, may (.entry a)) (sender recipient : AddressBytes) :
    Respects R (Source.modifyLedger fun l =>
      (l.addTransactionsSender sender).addTransactionsRecipient recipient : NodeM σ Unit) :=
  Respects.modify fun s => trans_of R
    (moves.write (entry sender) (s.ledger.addTransactionsSender_writes sender))
    (moves.write (s := { s with ledger := s.ledger.addTransactionsSender sender })
      (entry recipient) (addTransactionsRecipient_writes _ recipient))

theorem setAccountByAddressBytes (entry : ∀ a, may (.entry a)) (a : AddressBytes) :
    Respects R (setAccountByAddressBytes a : NodeM σ Account) := by
  intro s
  unfold Source.setAccountByAddressBytes
  rw [get_bind_run]
  cases found : s.ledger.account? a with
  | some acc => exact refl_of R s
  | none => exact moves.write (entry a) (create_writes found)

theorem setPolicy {u : Node σ} {a : AddressBytes} {acc stored : Account}
    {modified : Except Error Account} (address : acc.address = a)
    (found : u.ledger.account? a = some stored) (policy : stored.policy = acc.policy)
    (commitments : stored.commitments = acc.commitments) (allowed : may (.policy a))
    (fresh : ∀ new, modified = .ok new → ¬ acc.restricted ∧ new.commitments = acc.commitments) :
    R u (finalState
      ((Source.liftLedger fun l => modified.map (l.putAccount acc.address) : NodeM σ Unit) u)) := by
  unfold Source.liftLedger
  rw [get_bind_run]
  cases modified with
  | error e => exact refl_of R u
  | ok new =>
    obtain ⟨free, same⟩ := fresh new rfl
    rw [address]
    refine moves.write allowed ⟨new, ?_, ?_, rfl⟩
    · rwa [accountOrNew_of_some found, restricted_congr policy]
    · rwa [accountOrNew_of_some found, commitments]

theorem processMultiSignAndEscrow (entry : ∀ a, may (.entry a))
    (allowed : tx.setsPolicy = true → may (.policy tx.recipient)) :
    Respects R (processMultiSignAndEscrow tx : NodeM σ Unit) := by
  refine .bind (.failIf _ _) fun _ => .bind (.failIf _ _) fun _ =>
    .bind_ok (moves.setAccountByAddressBytes entry _) fun s acc u run => ?_
  obtain ⟨address, stored, found, policy, commitments, -⟩ := setAccountByAddressBytes_ok run
  split
  · next escrow =>
    refine moves.setPolicy address found policy commitments
      (allowed (by simp [setsPolicy, escrow])) fun new modified => ?_
    obtain ⟨free, same, -⟩ := modifyAccountToEscrow_ok modified
    exact ⟨free, same⟩
  · split
    · next multiSign =>
      refine moves.setPolicy address found policy commitments
        (allowed (by simp [setsPolicy, multiSign])) fun new modified => ?_
      obtain ⟨free, same, -⟩ := modifyAccountToMultiSign_ok modified
      exact ⟨free, same⟩
    · exact refl_of R u

theorem settleCommitment
    (allowed : may (.commit tx.sender tx.commitmentValues.1 tx.commitmentValues.2 height)) :
    Respects R (settleCommitment tx height : NodeM σ Unit) :=
  moves.liftLedger allowed fun _ _ run => run

theorem stakeOrUnstake {n : Nat} (low : n < 256) (allowed : ∀ a, may (.staking n a)) :
    Respects R (stakeOrUnstake tx n height blockTime : NodeM σ Unit) := by
  unfold Source.stakeOrUnstake
  dsimp only
  split
  · split
    · exact moves.liftLedger (allowed tx.recipient) fun _ _ => stake_writes low
    · exact .throw _
  · split
    · exact moves.liftLedger (allowed tx.sender) fun _ _ => stake_writes low
    · split
      · exact moves.liftLedger (allowed tx.sender) fun _ _ => unstake_writes low
      · exact .throw _

theorem moveOf (entry : ∀ a, may (.entry a)) (said : ∀ e, InclusionOf tx height e → notes e)
    {route : Route} (known : route = .fee ∨ route = .inclusion ∨ route = .staking)
    (a : AddressBytes) (added : Int64) :
    Respects R (Source.addBalance route tx.hash height a added : NodeM σ Unit) :=
  moves.addBalance entry route tx.hash height a added (said _ ⟨rfl, rfl, known⟩)

theorem chargeFee (entry : ∀ a, may (.entry a)) (said : ∀ e, InclusionOf tx height e → notes e)
    (a : AddressBytes) (added : Int64) :
    Respects R (Source.addBalance .fee tx.hash height a added : NodeM σ Unit) :=
  moves.moveOf entry said (.inl rfl) a added

theorem processRewards (entry : ∀ a, may (.entry a)) (said : ∀ e, InclusionOf tx height e → notes e)
    {n : Nat} (allowed : may (.staking (n % 256) tx.sender)) :
    Respects R (processRewards env tx n height fee) := by
  refine .bind .get fun s => .bind (.failIf _ _) fun _ => ?_
  split
  · exact .pure _
  · split
    · exact .bind (moves.liftLedger allowed fun _ _ =>
        withdrawReward_writes (Nat.mod_lt n (by decide))) fun _ =>
        moves.moveOf entry said (.inr (.inr rfl)) _ _
    · exact .throw _

theorem rewardBlock (allowed : ∀ n a, n < 256 → may (.staking n a)) :
    Respects R (rewardBlock env block reward) :=
  respects_rewardBlock fun n low a _ =>
    moves.liftLedger (allowed n a low) fun _ _ => reward_writes low

theorem applyRandaoCommit
    (allowed : ∀ n, intDelegatedAccountFromAddress block.delegatedAccount = some n →
      block.height ≠ 0 → may (.randCommit n block.operatorAccount.byteValue block.randCommit
      block.height)) :
    Respects R (applyRandaoCommit block : NodeM σ Unit) := by
  unfold Source.applyRandaoCommit
  split
  · exact .pure _
  · next positive =>
    split
    · exact .throw _
    · next n named =>
      exact .bind (.failIf _ _) fun _ => moves.liftLedger (allowed n named positive)
        fun _ _ run => run

section Recovery
variable (counts : ∀ s : Node σ, R s { s with ledger := s.ledger.addTransactionsSender tx.sender })
  (allowed : ∀ op, LedgerOp.Of env tx height op → op.OnRecovery → may op)
include counts allowed

theorem processRecoveryBind (shape : tx.isRecoveryBind = true) :
    EndsWithFee R tx height fee (processRecoveryBind env tx height fee) := by
  unfold Source.processRecoveryBind
  split
  · exact .throw _
  · next identity tag payload parsed =>
    exact .bind (.modify fun s => trans_of R (counts s)
      (moves.write (s := { s with ledger := s.ledger.addTransactionsSender tx.sender })
        (allowed _ (.bind shape parsed) trivial) rfl)) fun _ => .here

theorem processAddressReveal (shape : tx.isAddressReveal = true) :
    EndsWithFee R tx height fee (processAddressReveal env tx height fee) := by
  have reveal : tx.isRecoveryReveal = true := (Bool.and_eq_true _ _ ▸ shape).1
  unfold Source.processAddressReveal
  split
  · exact .throw _
  · next r parsed =>
    refine .bind .get fun s => .bind (.failIf _ _) fun _ => ?_
    split
    · exact .throw _
    · exact .bind (.modify counts) fun _ =>
        .bind (moves.liftLedger (allowed _ (.openAddress shape parsed) trivial) fun _ _ run => run) fun _ =>
        .bind (moves.modifyLedger (allowed _ (.unbind _ reveal) trivial) fun _ => rfl) fun _ => .here

theorem processRecoveryReveal (shape : tx.isRecoveryReveal = true) :
    EndsWithFee R tx height fee (processRecoveryReveal env tx height fee) := by
  unfold Source.processRecoveryReveal
  split
  · exact .throw _
  · next secret next parsed =>
    refine .bind .get fun s => ?_
    split
    · exact .throw _
    · refine .bind (.failIf _ _) fun _ => ?_
      split
      · exact .throw _
      · exact .bind (.modify counts) fun _ =>
          .bind (moves.liftLedger (allowed _ (.consume shape parsed) trivial) fun _ _ run => run) fun _ =>
          .bind (moves.modifyLedger (allowed _ (.unbind _ shape) trivial) fun _ => rfl) fun _ => .here

end Recovery

end LedgerMoves

namespace HoldMoves
variable (moves : HoldMoves may notes R)
include moves

variable [IsPreorder (Node σ) R]

theorem holdInEscrow (said : ∀ e, InclusionOf tx height e → notes e) :
    Respects R (holdInEscrow tx height : NodeM σ Unit) := by
  intro s
  have added := moves.hold s { tx with height }
  unfold Source.holdInEscrow
  simp only [finalState_ok]
  split
  · exact trans_of R added (moves.record _ (said (.held .escrow tx height) ⟨rfl, rfl⟩))
  · exact added

theorem holdForApprovals (said : ∀ e, InclusionOf tx height e → notes e) :
    Respects R (holdForApprovals tx height : NodeM σ Unit) := by
  intro s
  have added := moves.share s { tx with height }
  unfold Source.holdForApprovals
  simp only [finalState_ok]
  split
  · exact trans_of R added (moves.record _ (said (.held .multiSign tx height) ⟨rfl, rfl⟩))
  · exact added

section Recovery
variable (counts : ∀ s : Node σ, R s { s with ledger := s.ledger.addTransactionsSender tx.sender })
  (allowed : ∀ op, LedgerOp.Of env tx height op → op.OnRecovery → may op)
  (said : ∀ e, InclusionOf tx height e → notes e)
include counts allowed said

theorem processCommitmentRegistration (shape : tx.isCommitmentRegistration = true) :
    EndsWithFee R tx height fee (processCommitmentRegistration tx height fee) := by
  refine .bind .get fun s => ?_
  split
  · exact .throw _
  · refine .bind (.modify counts) fun _ => ?_
    split
    · exact .bind (moves.holdInEscrow said) fun _ => .here
    · split
      · exact .bind (moves.holdForApprovals said) fun _ => .here
      · exact .bind (moves.settleCommitment (allowed _ (.register shape) trivial)) fun _ =>
          .bind (.modify fun s => moves.record s (said _ ⟨rfl, rfl, rfl⟩)) fun _ => .here

theorem processRecoveryTransaction (kind : tx.isRecovery = true) :
    EndsWithFee R tx height fee (processRecoveryTransaction env tx height fee) := by
  unfold Source.processRecoveryTransaction
  split
  · next shape => exact moves.processRecoveryBind counts allowed shape
  · next notBind =>
    split
    · next shape => exact moves.processAddressReveal counts allowed shape
    · split
      · next shape => exact moves.processRecoveryReveal counts allowed shape
      · next notReveal =>
        refine moves.processCommitmentRegistration counts allowed said ?_
        simpa [isRecovery, notBind, notReveal] using kind

end Recovery

theorem processCancellation (entry : ∀ a, may (.entry a))
    (said : ∀ e, InclusionOf tx height e → notes e) {target : Hash}
    (cancels : tx.cancellationTarget = some target) :
    Respects R (processCancellation tx target height fee : NodeM σ Unit) := by
  refine .bind .get fun s => ?_
  split
  · exact .throw _
  · refine .bind (moves.chargeFee entry said _ _) fun _ u => ?_
    -- removal, ban and mark are one step
    exact trans_of R (moves.cancel u target height)
      (moves.record _ (said (.cancelled target tx.sender height) ⟨cancels, rfl, rfl⟩))

theorem holdOrMove (entry : ∀ a, may (.entry a)) (said : ∀ e, InclusionOf tx height e → notes e)
    (senderAcc : Account) : Respects R (holdOrMove tx senderAcc height : NodeM σ Unit) := by
  have moved : Respects R (moveAmount tx senderAcc height : NodeM σ Unit) := by
    unfold moveAmount
    split
    · exact .pure _
    · exact .bind (moves.moveOf entry said (.inr (.inl rfl)) _ _) fun _ =>
        moves.moveOf entry said (.inr (.inl rfl)) _ _
  unfold Source.holdOrMove
  split
  · exact moves.holdInEscrow said
  · split
    · exact moves.holdForApprovals said
    · split
      · exact .bind (.modify fun u => moves.share u tx) fun _ => moved
      · exact moved

theorem processStandard (entry : ∀ a, may (.entry a))
    (said : ∀ e, InclusionOf tx height e → notes e)
    (allowed : tx.setsPolicy = true → may (.policy tx.recipient)) :
    Respects R (processStandard tx height fee : NodeM σ Unit) := by
  refine .bind .get fun s => ?_
  split
  · exact .throw _
  · exact .bind (moves.holdOrMove entry said _) fun _ => .bind (moves.chargeFee entry said _ _) fun _ =>
      moves.processMultiSignAndEscrow entry allowed

theorem processTransaction_of
    (allowed : ∀ op, LedgerOp.Of env tx height op → op.OnAccounts → may op)
    (said : ∀ e, InclusionOf tx height e → notes e)
    (stakes : ∀ n < 256, Respects R (stakeOrUnstake tx n height blockTime : NodeM σ Unit))
    (rewards : ∀ n fee, Respects R (processRewards env tx n height fee)) :
    Respects R (processTransaction env tx height blockTime) := by
  have entry : ∀ a, may (.entry a) := fun a => allowed _ (.entry a) trivial
  unfold Source.processTransaction
  split
  · exact .throw _
  · split
    · next kind =>
      refine (moves.processRecoveryTransaction
        (fun s => moves.write (entry _) (s.ledger.addTransactionsSender_writes tx.sender))
        (fun op does recovers => allowed op does ?_) said kind).respects (moves.chargeFee entry said _ _)
      cases op <;> first | exact trivial | exact recovers
    · next ordinary =>
      refine .bind (moves.countTransaction entry _ _) fun _ => ?_
      split
      · next cancels => exact moves.processCancellation entry said cancels
      · next noTarget =>
        split
        · exact .throw _
        · next n routed =>
          unfold processDelegated
          split
          · next low =>
            refine .bind (stakes n low) fun _ => .bind (moves.moveOf entry said (.inr (.inr rfl)) _
              _) fun _ =>
              moves.processMultiSignAndEscrow entry fun carried => allowed _ (.policy ?_) trivial
            simp [appliesPolicy, carried, ordinary, noTarget, routed, low]
          · split
            · exact rewards n _
            · exact moves.chargeFee entry said _ _
        · next routed =>
          refine moves.processStandard entry said fun carried => allowed _ (.policy ?_) trivial
          simp [appliesPolicy, carried, ordinary, noTarget, routed]

theorem processTransaction (allowed : ∀ op, LedgerOp.Of env tx height op → may op)
    (said : ∀ e, InclusionOf tx height e → notes e) :
    Respects R (processTransaction env tx height blockTime) :=
  moves.processTransaction_of (fun op does _ => allowed op does) said
    (fun _ low => moves.stakeOrUnstake low fun a => allowed _ (.staking a low))
    fun n _ => moves.processRewards (fun a => allowed _ (.entry a)) said
      (allowed _ (.staking _ (Nat.mod_lt n (by decide))))

end HoldMoves

namespace ApplyMoves
variable (moves : ApplyMoves env may notes R)
include moves

variable [IsPreorder (Node σ) R]

theorem loadFromDBPoolTx (p : TxPrefix) (hash : Hash) :
    Respects R (loadFromDBPoolTx env p hash) := by
  refine .bind .get fun s => ?_
  split
  · exact .throw _
  · split
    · exact .pure _
    · split
      · exact .bind (.modify fun u => moves.mismatch u hash) fun _ => .throw _
      · exact .bind (.pure _) fun _ => .throw _

theorem checkTransactionInDB (hash : Hash) :
    Respects R (checkTransactionInDBAndInMarkleTrie hash : NodeM σ Unit) := by
  refine .bind .get fun s => ?_
  split
  · exact .bind (.modify fun u => moves.duplicate u hash) fun _ => .throw _
  · exact .pure _

theorem onErrorBad {α : Type} {x : NodeM σ α} (hash : Hash) (steps : Respects R x) :
    Respects R (onError x fun s => s.removeBadTransactionByHash env hash) :=
  .onError steps fun _ t before => trans_of R before (moves.bad t hash)

theorem findMainTx (main : Hash) (txs : List Transaction) :
    Respects R (findMainTx env main txs) := by
  unfold Source.findMainTx
  split
  · exact .pure _
  · refine .bind (.attempt (.bind (.attempt (moves.loadFromDBPoolTx _ main)) fun found => ?_))
      fun found => ?_
    · split
      · exact .pure _
      · exact moves.loadFromDBPoolTx _ main
    · split
      · exact .bind (.modify fun u => moves.share u _) fun _ => .pure _
      · exact .pure _

theorem executeMainTx (allowed : ∀ op, LedgerOp.Settles held height op → may op)
    (said : ∀ e, SettlementAt .multiSign .multiSign height e → notes e) :
    Respects R (executeMainTx env held height) := by
  have balance : ∀ a added, Respects R
      (Source.addBalance .multiSign held.hash height a added : NodeM σ Unit) :=
    fun _ _ => moves.addBalance (fun a => allowed _ (.entry a)) _ _ _ _ _ (said _ ⟨rfl, rfl⟩)
  intro s
  unfold Source.executeMainTx Source.record
  simp only [modify_bind_run]
  refine trans_of R (moves.mainSettled s held height (said _ ⟨rfl, rfl⟩)) ?_
  split
  · next shape => exact moves.settleCommitment (allowed _ (.register shape)) _
  · exact Respects.bind (moves.onErrorBad _ (balance _ _)) (fun _ => balance _ _) _

theorem settleMainTx (allowed : ∀ op, LedgerOp.Settles held height op → may op)
    (said : ∀ e, SettlementAt .multiSign .multiSign height e → notes e) (txs : List Transaction) :
    Respects R (settleMainTx env held txs height) := by
  unfold Source.settleMainTx
  split
  · exact .bind (.modify fun u => foldl_frame (fun v (t : Transaction) =>
      moves.expire v t.hash height) txs u) fun _ => .throw _
  · refine .bind .get fun s => ?_
    split
    · exact .throw _
    · split
      · exact .pure _
      · split
        · exact .pure _
        · split
          · exact .throw _
          · exact .pure _
          · split
            · exact .throw _
            · exact moves.executeMainTx allowed said

theorem processTransactionsMultiSign (allowed : ∀ held op, LedgerOp.Settles held height op → may op)
    (said : ∀ e, SettlementAt .multiSign .multiSign height e → notes e) :
    Respects R (processTransactionsMultiSign env tx height) := by
  unfold Source.processTransactionsMultiSign
  split
  · exact .pure _
  · refine .bind .get fun s => .bind (moves.findMainTx _ _) fun found => ?_
    split
    · exact .bind (.modify fun u => foldl_frame (fun v (t : Transaction) =>
        moves.orphan v t.hash) _ u) fun _ => .throw _
    · exact moves.settleMainTx (allowed _) said _

theorem settleEscrow (allowed : ∀ op, LedgerOp.Settles held height op → may op)
    (said : ∀ e, SettlementAt .escrow .escrow height e → notes e) :
    Respects R (Source.settleEscrow env height held) := by
  have settled : Respects R (do
      modify fun s => s.removeEscrowTransaction held.hash
      Source.record (.settled .escrow held height) : NodeM σ Unit) :=
    fun u => moves.escrowSettled u held height (said _ ⟨rfl, rfl⟩)
  have balance : ∀ a added, Respects R
      (Source.addBalance .escrow held.hash height a added : NodeM σ Unit) :=
    fun _ _ => moves.addBalance (fun a => allowed _ (.entry a)) _ _ _ _ _ (said _ ⟨rfl, rfl⟩)
  have pays : Respects R (do
      onError (Source.addBalance .escrow held.hash height held.sender (-held.amount))
        fun s => s.removeBadTransactionByHash env held.hash
      Source.addBalance .escrow held.hash height held.recipient held.amount
      modify fun s => s.removeEscrowTransaction held.hash
      Source.record (.settled .escrow held height) : NodeM σ Unit) :=
    .bind (moves.onErrorBad _ (balance _ _)) fun _ => .bind (balance _ _) fun _ => settled
  unfold Source.settleEscrow
  split
  · exact .throw _
  · exact .pure _
  · refine .bind .get fun s => ?_
    split
    · exact .throw _
    · split
      · exact .pure _
      · split
        · refine .modify fun u => ?_
          dsimp only
          split
          · next taken => exact moves.move u held taken
          · exact moves.share u held
        · split
          · next shape =>
            exact .bind (moves.settleCommitment (allowed _ (.register shape))) fun _ => settled
          · unfold payEscrow
            split
            · exact .bind (.modify fun u => moves.share u held) fun _ => pays
            · exact pays

theorem processTransactionsEscrow (allowed : ∀ held op, LedgerOp.Settles held height op → may op)
    (said : ∀ e, SettlementAt .escrow .escrow height e → notes e) :
    Respects R (processTransactionsEscrow env height) :=
  .bind .get fun _ => .forM _ fun _ _ => moves.settleEscrow (allowed _) said

theorem processBlockTx_of
    (allowed : ∀ tx op, LedgerOp.Of env tx block.height op → op.OnAccounts → may op)
    (settles : ∀ held op, LedgerOp.Settles held block.height op → may op) (said : ∀ e, notes e)
    (stakes : ∀ tx, ∀ n < 256, Respects R (stakeOrUnstake tx n block.height block.blockTimeStamp :
      NodeM σ Unit))
    (rewards : ∀ tx n fee, Respects R (processRewards env tx n block.height fee)) (hash : Hash) :
    Respects R (processBlockTx env block hash) :=
  .bind (moves.checkTransactionInDB hash) fun _ => .bind (moves.loadFromDBPoolTx _ hash) fun _ =>
    .bind (.modify fun s => moves.record s (said _)) fun _ =>
    .bind (moves.onErrorBad _ (moves.processTransaction_of (allowed _) (fun e _ => said e)
      (stakes _) (rewards _)))
      fun _ => moves.onErrorBad _ (moves.processTransactionsMultiSign settles fun e _ => said e)

theorem processBlockTx (allowed : ∀ tx op, LedgerOp.Of env tx block.height op → may op)
    (settles : ∀ held op, LedgerOp.Settles held block.height op → may op) (said : ∀ e, notes e)
    (hash : Hash) : Respects R (processBlockTx env block hash) :=
  moves.processBlockTx_of (fun tx op does _ => allowed tx op does) settles said
    (fun tx _ low => moves.stakeOrUnstake low fun a => allowed tx _ (.staking a low))
    (fun tx n _ => moves.processRewards (fun a => allowed tx _ (.entry a))
        (fun e _ => said e)
      (allowed tx _ (.staking _ (Nat.mod_lt n (by decide))))) hash

/-- The places where applying a block calls into the staking package. -/
structure StakingCallsIn (env : Env σ) (block : Block) (reward : Int64)
    (R : Node σ → Node σ → Prop) : Prop where
  stakes : ∀ tx, ∀ n < 256,
    Respects R (stakeOrUnstake tx n block.height block.blockTimeStamp : NodeM σ Unit)
  rewards : ∀ tx n fee, Respects R (processRewards env tx n block.height fee)
  reward : Respects R (rewardBlock env block reward)
  commit : Respects R (applyRandaoCommit block : NodeM σ Unit)

theorem processBlockTransfers_of
    (allowed : ∀ tx op, LedgerOp.Of env tx block.height op → op.OnAccounts → may op)
    (settles : ∀ held op, LedgerOp.Settles held block.height op → may op) (said : ∀ e, notes e)
    (calls : StakingCallsIn env block reward R)
    (begun : ∀ (s : Node σ) h, R s (s.beginPendingPoolJournal h))
    (ended : ∀ s : Node σ, R s s.endPendingPoolJournal) :
    Respects R (processBlockTransfers env block reward) := by
  refine .bind (.modify fun u => begun u block.height) fun _ => ?_
  refine Respects.withDefer ?_ fun _ t before => trans_of R before (ended t)
  exact .bind (.forM _ fun hash _ => moves.processBlockTx_of allowed settles said calls.stakes
    calls.rewards hash) fun _ => .bind calls.reward fun _ => .bind calls.commit fun _ =>
    .logError (moves.processTransactionsEscrow settles fun e _ => said e)

theorem processBlockTransfers (allowed : ∀ tx op, LedgerOp.Of env tx block.height op → may op)
    (settles : ∀ held op, LedgerOp.Settles held block.height op → may op) (said : ∀ e, notes e)
    (commits : ∀ n, intDelegatedAccountFromAddress block.delegatedAccount = some n →
      block.height ≠ 0 → may (.randCommit n block.operatorAccount.byteValue block.randCommit
      block.height))
    (begun : ∀ (s : Node σ) h, R s (s.beginPendingPoolJournal h))
    (ended : ∀ s : Node σ, R s s.endPendingPoolJournal) :
    Respects R (processBlockTransfers env block reward) := by
  have stakes : ∀ n a, n < 256 → may (.staking n a) := by
    intro n a low
    exact allowed (plain 0 0 0 0 0) _ (.staking a low)
  refine moves.processBlockTransfers_of (fun tx op does _ => allowed tx op does) settles said
    { stakes := fun _ n low => moves.stakeOrUnstake low fun a => stakes n a low
      rewards := fun tx n _ => moves.processRewards (fun a => allowed tx _ (.entry a))
        (fun e _ => said e)
        (stakes _ _ (Nat.mod_lt n (by decide)))
      reward := moves.rewardBlock stakes
      commit := moves.applyRandaoCommit commits } begun ended

end ApplyMoves
end QwidNode.Source

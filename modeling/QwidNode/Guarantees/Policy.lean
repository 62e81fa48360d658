import QwidNode.Source.Holdings

/-!
# Restricted accounts pay nobody at once

An account with a delay or with co-signers is restricted: its transfers wait in a pool. The hold
stands in one branch of `ProcessTransaction` only.
-/
namespace QwidNode.Guarantees
open Lib Source Word
variable {σ : Type} {env : Env σ} {s t u : Node σ} {tx : Transaction}
  {height blockTime fee : Int64} {a : AddressBytes}

/-- The address owns more than before: its balance, or a stake or reward in some shard. -/
def Raised (l l' : Ledger) (a : AddressBytes) : Prop :=
  (l.holdings a).1 < (l'.holdings a).1 ∨ ∃ n,
    ((l.holdings a).2 n).1 < ((l'.holdings a).2 n).1 ∨
      ((l.holdings a).2 n).2 < ((l'.holdings a).2 n).2

def PaysNobodyElse (a : AddressBytes) (s t : Node σ) : Prop :=
  ∀ b, b ≠ a → ¬ Raised s.ledger t.ledger b

/-- A lock paid into somebody else's stake, where the sum fits a word. -/
def LocksForAnother (l : Ledger) (tx : Transaction) : Prop :=
  tx.isRecovery = false ∧ 0 < tx.txData.lockedAmount ∧ tx.recipient ≠ tx.sender ∧
    ∃ n ∈ intDelegatedAccountFromAddress tx.txData.delegatedAccountForLocking,
      (l.stakingAccount tx.recipient n).stakedBalance.toInt + tx.amount.toInt < 2 ^ 63

theorem not_raised_of_eq {l l' : Ledger} (same : l'.holdings a = l.holdings a) :
    ¬ Raised l l' a := by
  unfold Raised
  rw [same]
  rintro (balance | ⟨n, stake | reward⟩)
  · exact Int64.lt_irrefl balance
  · exact Int64.lt_irrefl stake
  · exact Int64.lt_irrefl reward

theorem paysNobodyElse_of_spares (spares : Spares a s t) : PaysNobodyElse a s t :=
  fun b other => not_raised_of_eq (spares b other)

theorem amount_eq_zero (valid : tx.amountValid) (approval : ¬ approvalMalformed tx)
    (routed : tx.routingAccount = some none) (approves : tx.txParam.multiSignTx ≠ zerosHash) :
    tx.amount = 0 := by
  have notPositive : ¬ 0 < tx.amount := fun positive => approval ⟨approves, .inl positive⟩
  have unlocked : ¬ 0 < tx.txData.lockedAmount :=
    fun locked => approval ⟨approves, .inr (.inr (.inl locked))⟩
  rw [Transaction.routingAccount, if_neg unlocked, Option.some.injEq] at routed
  have notNegative : ¬ tx.amount < 0 := fun negative => valid ⟨negative, routed⟩
  rw [lt_iff, toInt_zero] at notPositive notNegative
  exact Int64.toInt_inj.mp (by rw [toInt_zero]; omega)

theorem spares_processTransaction (restricted : (tx.senderIn s).restricted)
    (valid : tx.amountValid) (approval : ¬ approvalMalformed tx)
    (own : tx.isRecovery = false → 0 < tx.txData.lockedAmount → tx.recipient = tx.sender)
    (run : processTransaction env tx height blockTime s = .ok () t) : Spares tx.sender s t := by
  obtain ⟨fee, -, course⟩ := processTransaction_course run
  cases course with
  | recovery recovers run => exact (spares_processRecoveryTransaction recovers).of_ok run
  | cancellation target _ _ run =>
    exact trans_of (Spares tx.sender) ((sparesMoves _).counted s tx)
      ((spares_processCancellation target).of_ok run)
  | delegated n ordinary _ _ run =>
    exact trans_of (Spares tx.sender) ((sparesMoves _).counted s tx)
      ((spares_processDelegated (own ordinary)).of_ok run)
  | standard _ _ routed run =>
    obtain ⟨acc, found, policy⟩ := account?_counted s.ledger tx.sender tx.recipient
    have held : acc.restricted := (Account.restricted_congr policy).mpr restricted
    unfold processStandard at run
    simp only [Node.counted, get_bind_run, found] at run
    exact trans_of (Spares tx.sender) ((sparesMoves _).counted s tx)
      ((Respects.bind (spares_holdOrMove held (amount_eq_zero valid approval routed)) fun _ =>
        .bind (spares_addBalance _ _ _ _ _) fun _ => (sparesMoves _).processMultiSignAndEscrow tx).of_ok run)

/-- The lock of somebody else's transaction: the recipient's stake grows by the amount, as
words grow, and nothing else changes outside the sender's entries. -/
structure LockedFor (tx : Transaction) (n : Nat) (l l' : Ledger) : Prop where
  balance : (l'.holdings tx.recipient).1 = (l.holdings tx.recipient).1
  stake : ∀ m, (l'.holdings tx.recipient).2 m =
    if m = n then (((l.holdings tx.recipient).2 n).1 + tx.amount, ((l.holdings tx.recipient).2 n).2)
    else (l.holdings tx.recipient).2 m
  others : ∀ b, b ≠ tx.sender → b ≠ tx.recipient → l'.holdings b = l.holdings b

theorem lockedFor_stake {l l' : Ledger} {c : Ledger.StakeCall} (amount : c.amount = tx.amount)
    (low : c.delegatedAccount < 256) (run : l.stake tx.recipient c = .ok l') :
    LockedFor tx c.delegatedAccount l l' := by
  have called : (StakingCall.stake tx.recipient c).run l = .ok l' := run
  have others := Ledger.spares_of_call _ called
  obtain ⟨new, writes⟩ := StakingCall.writes_of_ok called
  have accounts := StakingCall.accounts_of_ok called
  refine ⟨?_, fun m => ?_, fun b _ other => others b other⟩
  · unfold Ledger.holdings Ledger.accountOrNew Ledger.account?
    rw [accounts]
  · unfold Ledger.holdings
    dsimp only
    rw [Ledger.stakingAccount_insert writes.staking]
    by_cases same : m = c.delegatedAccount
    · subst same
      have rewards := writes.turns.reward.trans (Int64.add_zero _)
      rw [if_pos ⟨low, rfl⟩, if_pos rfl, writes.turns.stake, rewards, ← amount]
      rfl
    · rw [if_neg fun both => same (congrArg Prod.fst both.2), if_neg same]

theorem LockedFor.between {n : Nat} {l l₁ l₂ l' : Ledger} (locked : LockedFor tx n l₁ l₂)
    (foreign : tx.recipient ≠ tx.sender) (before : Ledger.Spares tx.sender l l₁)
    (after : Ledger.Spares tx.sender l₂ l') : LockedFor tx n l l' := by
  have start := before tx.recipient foreign
  have final := after tx.recipient foreign
  refine ⟨?_, ?_, fun b own other =>
    (after b own).trans ((locked.others b own other).trans (before b own))⟩
  · rw [final, locked.balance, start]
  · rw [final, ← start]
    exact locked.stake

theorem lockedFor_processTransaction (recovers : tx.isRecovery = false)
    (locks : 0 < tx.txData.lockedAmount) (foreign : tx.recipient ≠ tx.sender)
    (run : processTransaction env tx height blockTime s = .ok () t) :
    ∃ n, intDelegatedAccountFromAddress tx.txData.delegatedAccountForLocking = some n ∧
      0 < tx.amount.toInt ∧ LockedFor tx n s.ledger t.ledger := by
  obtain ⟨fee, -, course⟩ := processTransaction_course run
  have routing : ∀ account, tx.routingAccount = some account → ∃ n,
      intDelegatedAccountFromAddress tx.txData.delegatedAccountForLocking = some n ∧ n < 256 ∧
        account = some n := by
    intro account routed
    rw [Transaction.routingAccount, if_pos locks] at routed
    split at routed
    · next n named =>
      split at routed
      · cases routed
      · next inside => exact ⟨n, named, by omega, (Option.some.inj routed).symm⟩
    · cases routed
  cases course with
  | recovery recovers' => exact absurd recovers' (by simp [recovers])
  | cancellation target _ _ cancels =>
    -- a cancellation has the shape of a transfer to oneself
    unfold processCancellation at cancels
    rw [get_bind_run] at cancels
    cases valid : validateEscrowCancellation (s.counted tx) tx height with
    | error e =>
      simp only [valid] at cancels
      cases cancels
    | ok e =>
      unfold validateEscrowCancellation at valid
      split at valid
      · cases valid
      · rw [if_pos (.inr (.inl foreign))] at valid
        cases valid
  | delegated n _ _ routed delegated =>
    obtain ⟨n', named, low, same⟩ := routing _ routed
    cases same
    refine ⟨n, named, ?_⟩
    rw [processDelegated, if_pos low] at delegated
    obtain ⟨_, v, staked, rest⟩ := bind_eq_ok.mp delegated
    unfold stakeOrUnstake at staked
    simp only [if_pos locks] at staked
    split at staked
    · next large =>
      obtain ⟨l, stakes, rfl⟩ := liftLedger_eq_ok.mp staked
      refine ⟨?_, ?_⟩
      · rw [le_iff] at large
        exact Int.lt_of_lt_of_le (by decide) large
      · have locked : LockedFor tx n (s.counted tx).ledger l := lockedFor_stake rfl low stakes
        exact locked.between foreign ((sparesMoves _).counted s tx) (spares_afterStake.of_ok rest)
    · cases staked
  | standard _ _ routed =>
    obtain ⟨n, -, -, same⟩ := routing _ routed
    cases same

theorem LockedFor.raised_iff {n : Nat} {l l' : Ledger} (locked : LockedFor tx n l l')
    (positive : 0 < tx.amount.toInt) : Raised l l' tx.recipient ↔
      (l.stakingAccount tx.recipient n).stakedBalance.toInt + tx.amount.toInt < 2 ^ 63 := by
  have range := toInt_range (l.stakingAccount tx.recipient n).stakedBalance
  have amount := toInt_range tx.amount
  change _ ↔ ((l.holdings tx.recipient).2 n).1.toInt + tx.amount.toInt < 2 ^ 63
  change _ ≤ ((l.holdings tx.recipient).2 n).1.toInt ∧ _ at range
  unfold Raised
  rw [locked.balance]
  constructor
  · rintro (balance | ⟨m, grown⟩)
    · exact absurd balance Int64.lt_irrefl
    · rw [locked.stake] at grown
      by_cases same : m = n
      · subst same
        rw [if_pos rfl] at grown
        rcases grown with stake | reward
        · by_contra wraps
          simp only [lt_iff] at stake
          have sum := toInt_add_cases ((l.holdings tx.recipient).2 m).1 tx.amount
          rcases sum with h | h | h <;> omega
        · exact absurd reward Int64.lt_irrefl
      · rw [if_neg same] at grown
        rcases grown with stake | reward
        · exact absurd stake Int64.lt_irrefl
        · exact absurd reward Int64.lt_irrefl
  · intro fits
    refine .inr ⟨n, .inl ?_⟩
    rw [locked.stake, if_pos rfl, lt_iff, toInt_add_of_fits (by omega) fits]
    omega

/-- A transaction of a restricted account that passed the checks. The EVM pass leaves it
alone. Applying it raises nothing of any other address, exactly when it does not lock coins
for somebody else. -/
theorem restricted_pays_nobody_iff (env : Env σ) (block : Block) (p : TxPrefix)
    (tx : Transaction) (height blockTime : Int64) (s t : Node σ) (l : Ledger)
    (ctx : VerifyContext) (verified : Verified env l ctx tx) (approval : ¬ approvalMalformed tx)
    (restricted : (tx.senderIn s).restricted)
    (run : processTransaction env tx height blockTime s = .ok () t) :
    evaluateLoaded env block p tx s = .ok () s ∧
      (PaysNobodyElse tx.sender s t ↔ ¬ LocksForAnother s.ledger tx) := by
  constructor
  · unfold evaluateLoaded
    rw [get_bind_run]
    cases found : s.ledger.account? tx.sender with
    | none => rfl
    | some acc =>
      have held : acc.restricted := Ledger.accountOrNew_of_some found ▸ restricted
      simp [if_pos held]
  · by_cases third : tx.isRecovery = false ∧ 0 < tx.txData.lockedAmount ∧ tx.recipient ≠ tx.sender
    · obtain ⟨recovers, locks, foreign⟩ := third
      obtain ⟨n, named, positive, locked⟩ := lockedFor_processTransaction recovers locks foreign run
      have raised := locked.raised_iff positive
      constructor
      · rintro pays ⟨-, -, -, n', named', fits⟩
        cases named.symm.trans named'
        exact pays tx.recipient foreign (raised.mpr fits)
      · intro fits b own
        by_cases same : b = tx.recipient
        · rw [same]
          exact fun grown => fits ⟨recovers, locks, foreign, n, named, raised.mp grown⟩
        · exact not_raised_of_eq (locked.others b own same)
    · have spares : Spares tx.sender s t :=
        spares_processTransaction restricted verified.amount approval
          (fun recovers locks => by_contra fun foreign => third ⟨recovers, locks, foreign⟩) run
      exact ⟨fun _ bad => third ⟨bad.1, bad.2.1, bad.2.2.1⟩,
        fun _ => paysNobodyElse_of_spares spares⟩

def foreignLock : Transaction :=
  let tx := Transaction.plain 0x55 0x77 Common.minStakingUser 1 5
  Transaction.hashed
    { tx with
      txData := { tx.txData with
        lockedAmount := 1000
        releasePerBlock := 1
        delegatedAccountForLocking := getDelegatedAccountAddress 1 } }

def heldTransfer : Transaction := .plain 0x55 0x77 Common.minStakingUser 1 5

def escrowNode (txs : List Transaction) : Node Unit :=
  .small [{ address := 0x55, balance := 200000000000, transactionDelay := 100 }] txs

/-- The block with the lock is accepted, and `0x77` owns the stake in it at once. -/
theorem foreign_lock_drains :
    (foreignLock.senderIn (escrowNode [foreignLock])).restricted ∧
      Verified Env.permissive (escrowNode [foreignLock]).ledger
        (parentContext ((escrowNode [foreignLock]).parentBlock 5)) foreignLock ∧
      ¬ approvalMalformed foreignLock ∧
      (∃ block t, checkBlockAndTransferFunds Env.permissive
          ((escrowNode [foreignLock]).nextBlock 6 [foreignLock.hash])
          ((escrowNode [foreignLock]).parentBlock 5) (escrowNode [foreignLock]) = .ok block t ∧
        .included foreignLock 6 ∈ t.log ∧
        (t.ledger.stakingAccount 0x77 1).stakedBalance = Common.minStakingUser) ∧
      ∃ t, processTransaction Env.permissive foreignLock 6 0 (escrowNode [foreignLock]) =
          .ok () t ∧ ¬ PaysNobodyElse foreignLock.sender (escrowNode [foreignLock]) t := by
  obtain ⟨_, u, applied, grown⟩ : ∃ r t, processTransaction Env.permissive foreignLock 6 0
      (escrowNode [foreignLock]) = .ok r t ∧
        ((escrowNode [foreignLock]).ledger.stakingAccount 0x77 1).stakedBalance <
          (t.ledger.stakingAccount 0x77 1).stakedBalance := by decide +kernel
  refine ⟨by decide +kernel, by decide +kernel, by decide, by decide +kernel, u, applied,
    fun pays => ?_⟩
  exact pays 0x77 (by decide) (.inr ⟨1, .inl grown⟩)

/-- The same amount as a transfer is held. -/
theorem held_transfer_pays_nobody :
    ∃ t, processTransaction Env.permissive heldTransfer 6 0 (escrowNode [heldTransfer]) =
        .ok () t ∧ PaysNobodyElse heldTransfer.sender (escrowNode [heldTransfer]) t := by
  obtain ⟨_, t, run⟩ := succeeds_iff.mp (show succeeds (processTransaction Env.permissive
    heldTransfer 6 0 (escrowNode [heldTransfer])) = true by decide +kernel)
  have decided := restricted_pays_nobody_iff Env.permissive
    ((escrowNode [heldTransfer]).parentBlock 5) .pool heldTransfer 6 0 (escrowNode [heldTransfer]) t
    (escrowNode [heldTransfer]).ledger (parentContext ((escrowNode [heldTransfer]).parentBlock 5))
    (by decide +kernel) (by decide) (by decide +kernel) run
  exact ⟨t, run, decided.2.mpr fun locks => absurd locks.2.1 (by decide)⟩

end QwidNode.Guarantees

import QwidNode.Source.Turns

/-!
# Coins

The coins of a ledger are all balances, stakes and unclaimed rewards, added up in the integers.
`Earns δ` says that a change of the ledger keeps every entry non-negative and changes the coins by
exactly `δ`.
-/
namespace QwidNode.Source
open Lib Word FinMap Transaction Account
variable {σ : Type} {env : Env σ} {s t u : Node σ} {l l' l'' : Ledger}
variable {a : AddressBytes} {acc : Account} {n : Nat} {hash : Hash}

namespace Ledger

def coins (l : Ledger) : Int :=
  sumOf (·.balance.toInt) l.accounts + sumOf (·.stakedBalance.toInt) l.staking +
    sumOf (·.stakingRewards.toInt) l.staking

structure NonNeg (l : Ledger) : Prop where
  balance : ∀ acc ∈ values l.accounts, 0 ≤ acc.balance.toInt
  stake : ∀ acc ∈ values l.staking, 0 ≤ acc.stakedBalance.toInt
  reward : ∀ acc ∈ values l.staking, 0 ≤ acc.stakingRewards.toInt

def Earns (δ : Int) (l l' : Ledger) : Prop := l.NonNeg → l'.NonNeg ∧ l'.coins = l.coins + δ

theorem Earns.refl (l : Ledger) : Earns 0 l l := fun nonneg => ⟨nonneg, by omega⟩

theorem Earns.trans {a b : Int} (first : Earns a l l') (second : Earns b l' l'') :
    Earns (a + b) l l'' := by
  intro nonneg
  obtain ⟨nonneg', total⟩ := first nonneg
  obtain ⟨nonneg'', total'⟩ := second nonneg'
  exact ⟨nonneg'', by omega⟩

theorem Earns.of_eq {a b : Int} (same : a = b) (earns : Earns a l l') : Earns b l l' := same ▸ earns

theorem NonNeg.accountOrNew (nonneg : l.NonNeg) (a : AddressBytes) :
    0 ≤ (l.accountOrNew a).balance.toInt := by
  unfold Ledger.accountOrNew
  cases found : l.account? a with
  | none => exact Int.le_refl 0
  | some acc => exact nonneg.balance acc (mem_values_of_lookup found)

theorem NonNeg.sum_nonneg (nonneg : l.NonNeg) :
    0 ≤ sumOf (·.balance.toInt) l.accounts ∧
      0 ≤ sumOf (·.stakedBalance.toInt) l.staking ∧
      0 ≤ sumOf (·.stakingRewards.toInt) l.staking := by
  refine ⟨List.sum_nonneg ?_, List.sum_nonneg ?_, List.sum_nonneg ?_⟩
  · simpa using nonneg.balance
  · simpa using nonneg.stake
  · simpa using nonneg.reward

theorem NonNeg.balance_le (nonneg : l.NonNeg) (a : AddressBytes) :
    (l.accountOrNew a).balance.toInt ≤ sumOf (·.balance.toInt) l.accounts := by
  unfold Ledger.accountOrNew
  cases found : l.account? a with
  | none => exact nonneg.sum_nonneg.1
  | some acc => exact le_sumOf nonneg.balance found

theorem coins_putAccount (l : Ledger) (a : AddressBytes) (acc : Account) :
    (l.putAccount a acc).coins =
      l.coins - (l.accountOrNew a).balance.toInt + acc.balance.toInt := by
  have old : valueAt (·.balance.toInt) l.accounts a = (l.accountOrNew a).balance.toInt := by
    unfold Ledger.accountOrNew
    cases found : l.account? a with
    | none => exact valueAt_of_none found
    | some acc => exact valueAt_of_lookup found
  have written := sumOf_insert (·.balance.toInt) l.accounts a acc
  rw [old] at written
  simp only [coins, putAccount, written]
  omega

theorem NonNeg.putAccount (nonneg : l.NonNeg) (a : AddressBytes) (balance : 0 ≤ acc.balance.toInt) :
    (l.putAccount a acc).NonNeg :=
  ⟨forall_values_insert nonneg.balance balance, nonneg.stake, nonneg.reward⟩

theorem earns_putAccount (same : acc.balance = (l.accountOrNew a).balance) :
    Earns 0 l (l.putAccount a acc) := by
  intro nonneg
  have known := nonneg.accountOrNew a
  rw [← same] at known
  exact ⟨nonneg.putAccount a known, by rw [coins_putAccount, same]; omega⟩

theorem earns_of_same (accounts : l'.accounts = l.accounts) (staking : l'.staking = l.staking) :
    Earns 0 l l' := by
  intro nonneg
  refine ⟨⟨?_, ?_, ?_⟩, ?_⟩
  · rw [accounts]
    exact nonneg.balance
  · rw [staking]
    exact nonneg.stake
  · rw [staking]
    exact nonneg.reward
  · rw [coins, coins, accounts, staking]
    omega

theorem earns_credit {added : Int64} (enough : ¬ (l.accountOrNew a).balance + added < 0) :
    Earns added.toInt l (l.putAccount a { l.accountOrNew a with
      balance := (l.accountOrNew a).balance + added }) := by
  intro nonneg
  have known := nonneg.accountOrNew a
  have bound := (toInt_range (l.accountOrNew a).balance).2
  have range := toInt_range added
  have after : 0 ≤ ((l.accountOrNew a).balance + added).toInt := by
    rw [lt_iff, toInt_zero] at enough
    omega
  have exact' : ((l.accountOrNew a).balance + added).toInt =
      (l.accountOrNew a).balance.toInt + added.toInt := by
    rcases toInt_add_cases (l.accountOrNew a).balance added with h | h | h <;> omega
  refine ⟨nonneg.putAccount a after, ?_⟩
  rw [coins_putAccount]
  simp only
  omega

theorem balance_setCommitments (acc : Account) (spare c : AddressBytes) (height : Int64) :
    (acc.setCommitments spare c height).balance = acc.balance := by
  unfold setCommitments promoteMatured
  split
  · split <;> rfl
  · rfl

theorem NonNeg.entryAt (nonneg : l.NonNeg) (key : Nat × AddressBytes) :
    0 ≤ (l.entryAt key).stakedBalance.toInt ∧ 0 ≤ (l.entryAt key).stakingRewards.toInt ∧
      (l.entryAt key).stakedBalance.toInt ≤ sumOf (·.stakedBalance.toInt) l.staking ∧
      (l.entryAt key).stakingRewards.toInt ≤ sumOf (·.stakingRewards.toInt) l.staking := by
  have sums := nonneg.sum_nonneg
  unfold Ledger.entryAt
  cases found : l.staking.lookup key with
  | none => exact ⟨Int.le_refl 0, Int.le_refl 0, sums.2.1, sums.2.2⟩
  | some acc =>
    have member := mem_values_of_lookup found
    exact ⟨nonneg.stake acc member, nonneg.reward acc member,
      le_sumOf nonneg.stake found, le_sumOf nonneg.reward found⟩

theorem earns_insertStaking {key : Nat × AddressBytes} {new : StakingAccount}
    (accounts : l'.accounts = l.accounts) (written : l'.staking = l.staking.insert key new)
    {δ : Int} (change : l.NonNeg → 0 ≤ new.stakedBalance.toInt ∧ 0 ≤ new.stakingRewards.toInt ∧
      new.stakedBalance.toInt + new.stakingRewards.toInt =
        (l.entryAt key).stakedBalance.toInt + (l.entryAt key).stakingRewards.toInt + δ) :
    Earns δ l l' := by
  intro nonneg
  obtain ⟨stake, reward, sums⟩ := change nonneg
  have old : valueAt (·.stakedBalance.toInt) l.staking key =
      (l.entryAt key).stakedBalance.toInt ∧
      valueAt (·.stakingRewards.toInt) l.staking key =
      (l.entryAt key).stakingRewards.toInt := by
    unfold entryAt
    cases found : l.staking.lookup key with
    | none => exact ⟨valueAt_of_none found, valueAt_of_none found⟩
    | some acc => exact ⟨valueAt_of_lookup found, valueAt_of_lookup found⟩
  have stakes := sumOf_insert (·.stakedBalance.toInt) l.staking key new
  have rewards := sumOf_insert (·.stakingRewards.toInt) l.staking key new
  rw [old.1] at stakes
  rw [old.2] at rewards
  constructor
  · refine ⟨accounts ▸ nonneg.balance, ?_, ?_⟩
    · rw [written]
      exact forall_values_insert nonneg.stake stake
    · rw [written]
      exact forall_values_insert nonneg.reward reward
  · simp only [coins, accounts, written, stakes, rewards]
    omega

theorem earns_setRandCommit {commit : Hash} {height : Int64}
    (run : l.setRandCommit n a commit height = .ok l') : Earns 0 l l' := by
  unfold setRandCommit at run
  cases found : l.staking.lookup (n, a) with
  | none =>
    simp only [found] at run
    cases run
  | some acc =>
    simp only [found] at run
    cases run
    intro nonneg
    have member := mem_values_of_lookup found
    refine ⟨⟨nonneg.balance, forall_values_insert nonneg.stake (nonneg.stake acc member),
      forall_values_insert nonneg.reward (nonneg.reward acc member)⟩, ?_⟩
    simp only [coins, sumOf_insert, valueAt_of_lookup found]
    omega

end Ledger

namespace StakingCall
variable {call : StakingCall}

def Fits (call : StakingCall) (old : StakingAccount) : Prop :=
  (0 < call.staked.toInt → old.stakedBalance.toInt + call.staked.toInt < 2 ^ 63) ∧
    (0 < call.rewarded.toInt → old.stakingRewards.toInt + call.rewarded.toInt < 2 ^ 63)

theorem Turns.toInt {old new : StakingAccount} (turns : call.Turns old new)
    (stake : 0 ≤ old.stakedBalance.toInt) (reward : 0 ≤ old.stakingRewards.toInt)
    (fits : call.Fits old) :
    (0 ≤ new.stakedBalance.toInt ∧ 0 ≤ new.stakingRewards.toInt) ∧
      new.stakedBalance.toInt = old.stakedBalance.toInt + call.staked.toInt ∧
      new.stakingRewards.toInt = old.stakingRewards.toInt + call.rewarded.toInt := by
  have ranges := And.intro (toInt_range call.staked) (toInt_range call.rewarded)
  have olds := And.intro (toInt_range old.stakedBalance) (toInt_range old.stakingRewards)
  obtain ⟨stakeFits, rewardFits⟩ := fits
  have stakes : new.stakedBalance.toInt = _ :=
    turns.stake ▸ toInt_add_of_fits (by omega) (by omega)
  have rewards : new.stakingRewards.toInt = _ :=
    turns.reward ▸ toInt_add_of_fits (by omega) (by omega)
  refine ⟨?_, stakes, rewards⟩
  have zero : (0 : Int64).toInt = 0 := toInt_zero
  have checked := turns.checked
  have sums := And.intro turns.stake turns.reward
  cases call with
  | stake a c =>
    simp only [Checked, staked, rewarded] at checked stakes rewards
    omega
  | unstake a amount height time n =>
    simp only [Checked, staked, rewarded] at checked stakes rewards sums
    rw [← sums.1] at checked
    omega
  | reward a amount height now n =>
    simp only [Checked, staked, rewarded] at checked stakes rewards
    omega
  | withdrawReward a amount height now n =>
    simp only [Checked, staked, rewarded] at checked stakes rewards sums
    rw [← sums.2] at checked
    omega
  | setRandCommit n a commit height =>
    simp only [staked, rewarded] at stakes rewards
    omega

theorem accounts_of_ok (run : call.run l = .ok l') : l'.accounts = l.accounts := by
  obtain ⟨new, writes⟩ := writes_of_ok run
  obtain ⟨changed, rfl⟩ := writes.written
  rfl

theorem earns_of_ok (call : StakingCall) (low : call.key.1 < 256) (run : call.run l = .ok l')
    (fits : l.NonNeg → call.Fits (l.entryAt call.key)) :
    Ledger.Earns (call.staked.toInt + call.rewarded.toInt) l l' ∧
      (l.NonNeg → -2 ^ 63 < call.staked.toInt ∧ -2 ^ 63 < call.rewarded.toInt) := by
  obtain ⟨new, writes⟩ := writes_of_ok run
  have turns := entry_eq l low ▸ writes.turns
  have moved := fun nonneg : l.NonNeg =>
    turns.toInt (nonneg.entryAt call.key).1 (nonneg.entryAt call.key).2.1 (fits nonneg)
  constructor
  · refine Ledger.earns_insertStaking (accounts_of_ok run) writes.staking fun nonneg => ?_
    obtain ⟨least, stakes, rewards⟩ := moved nonneg
    exact ⟨least.1, least.2, by omega⟩
  · intro nonneg
    have olds := And.intro (toInt_range (l.entryAt call.key).stakedBalance)
      (toInt_range (l.entryAt call.key).stakingRewards)
    have now := moved nonneg
    omega

end StakingCall

def Gains (δ : Int) (s t : Node σ) : Prop := Ledger.Earns δ s.ledger t.ledger

instance : IsPreorder (Node σ) (Gains 0) where
  refl s := .refl s.ledger
  trans _ _ _ first second := (first.trans second).of_eq (Int.add_zero 0)

theorem Gains.of_ledger (same : t.ledger = s.ledger) : Gains 0 s t := by
  rw [Gains, same]
  exact .refl _

theorem returns_gains_bind {α β : Type} {a b : Int} {x : NodeM σ α} {f : α → NodeM σ β}
    (first : Returns (Gains a) x) (second : ∀ r, Returns (Gains b) (f r)) :
    Returns (Gains (a + b)) (x >>= f) := by
  intro s r t run
  obtain ⟨_, u, before, after⟩ := bind_eq_ok.mp run
  exact (first _ _ _ before).trans (second _ _ _ _ after)

theorem returns_gains_after {α β : Type} {δ : Int} {x : NodeM σ α} {f : α → NodeM σ β}
    (quiet : Respects (Gains 0) x) (rest : ∀ r, Returns (Gains δ) (f r)) :
    Returns (Gains δ) (x >>= f) := by
  intro s r t run
  exact (returns_gains_bind quiet.returns rest s r t run).of_eq (Int.zero_add δ)

theorem gains_liftLedger {f : Ledger → Except Error Ledger}
    (kept : ∀ l l', f l = .ok l' → Ledger.Earns 0 l l') :
    Respects (Gains 0) (liftLedger f : NodeM σ Unit) := by
  intro s
  unfold liftLedger
  rw [get_bind_run]
  cases run : f s.ledger with
  | ok l => exact kept s.ledger l run
  | error e => exact refl_of (Gains 0) s

theorem addBalance_gains {route : Route} {height : Int64} {added : Int64}
    (run : addBalance route hash height a added s = .ok () t) : Gains added.toInt s t := by
  obtain ⟨enough, rfl⟩ := addBalance_eq_ok.mp run
  exact Ledger.earns_credit enough

theorem transfer_gains {route : Route} {height : Int64} {a b : AddressBytes} {amount : Int64}
    (debit : addBalance route hash height a (-amount) s = .ok () u)
    (credit : addBalance route hash height b amount u = .ok () t) : Gains 0 s t := by
  intro nonneg
  have whole := ((addBalance_gains debit).trans (addBalance_gains credit)) nonneg
  obtain ⟨enough, -⟩ := addBalance_eq_ok.mp debit
  have known := nonneg.accountOrNew a
  have bound := toInt_range (s.ledger.accountOrNew a).balance
  -- the least amount is its own negation, and no balance covers it
  have above : -2 ^ 63 < amount.toInt := by
    have range := toInt_range amount
    by_contra least
    have negated : (-amount).toInt = -2 ^ 63 := toInt_neg_min (by omega)
    rw [lt_iff, toInt_zero] at enough
    rcases toInt_add_cases (s.ledger.accountOrNew a).balance (-amount) with h | h | h <;> omega
  rw [toInt_neg_of_fits above] at whole
  exact ⟨whole.1, by omega⟩

/-- The relation contains every write that leaves balances and staking entries as they are. -/
structure BalanceMoves (R : Node σ → Node σ → Prop) : Prop where
  put : ∀ (s : Node σ) b acc, acc.balance = (s.ledger.accountOrNew b).balance →
    R s { s with ledger := s.ledger.putAccount b acc }
  same : ∀ {s t : Node σ}, t.ledger.accounts = s.ledger.accounts →
    t.ledger.staking = s.ledger.staking → R s t

namespace BalanceMoves
variable {R : Node σ → Node σ → Prop} (moves : BalanceMoves R)
include moves

theorem of_ledger (same : t.ledger = s.ledger) : R s t :=
  moves.same (congrArg _ same) (congrArg _ same)

theorem frame {f : Node σ → Node σ} (framed : ∀ u, PoolFrame u (f u)) :
    Respects R (modify f : NodeM σ PUnit) :=
  Respects.modify fun u => moves.of_ledger (framed u).ledger

theorem write {op : LedgerOp} {l : Ledger} (recovers : op.OnRecovery)
    (writes : op.Writes s.ledger l) : R s { s with ledger := l } := by
  cases op with
  | commit a spare c height =>
    simp only [LedgerOp.Writes, Ledger.setAccountCommitments] at writes
    cases found : s.ledger.account? a with
    | none =>
      simp only [found] at writes
      cases writes
    | some acc =>
      simp only [found] at writes
      cases writes
      exact moves.put s a _ (by rw [Ledger.accountOrNew_of_some found, Ledger.balance_setCommitments])
  | consume a next =>
    simp only [LedgerOp.Writes, Ledger.consumeAccountRecoveryCommit] at writes
    cases found : s.ledger.account? a with
    | none =>
      simp only [found] at writes
      cases writes
    | some acc =>
      simp only [found] at writes
      cases writes
      exact moves.put s a _ (by rw [Ledger.accountOrNew_of_some found]; rfl)
  | bind key b =>
    cases writes
    unfold Ledger.addRecoveryBind
    split
    · exact moves.of_ledger rfl
    · exact moves.same rfl rfl
  | unbind key =>
    cases writes
    exact moves.same rfl rfl
  | entry a | policy a | staking n a | randCommit n a value height => exact recovers.elim

theorem ledgerMoves : LedgerMoves LedgerOp.OnRecovery (fun _ => True) R :=
  ⟨moves.write, fun _ _ _ => moves.of_ledger rfl⟩

theorem holdMoves : HoldMoves LedgerOp.OnRecovery (fun _ => True) R :=
  .of_poolFrame (fun frame => moves.of_ledger frame.ledger) moves.ledgerMoves

variable [IsPreorder (Node σ) R]

theorem applyMoves : ApplyMoves env LedgerOp.OnRecovery (fun _ => True) R :=
  .of_poolFrame (fun frame => moves.of_ledger frame.ledger) moves.ledgerMoves

theorem counted (s : Node σ) (tx : Transaction) : R s (s.counted tx) := by
  have sent : R s { s with ledger := s.ledger.addTransactionsSender tx.sender } :=
    moves.put s _ _ rfl
  refine trans_of R sent ?_
  exact moves.put _ tx.recipient _ rfl

theorem processRecoveryTransaction {tx : Transaction} {height fee : Int64}
    (recovers : tx.isRecovery = true) :
    EndsWithFee R tx height fee (processRecoveryTransaction env tx height fee) :=
  moves.holdMoves.processRecoveryTransaction (fun s => moves.put s _ _ rfl)
    (fun _ _ allowed => allowed) (fun _ _ => trivial) recovers

theorem setAccountByAddressBytes (a : AddressBytes) :
    Respects R (setAccountByAddressBytes a : NodeM σ Account) := by
  intro s
  unfold Source.setAccountByAddressBytes
  rw [get_bind_run]
  cases found : s.ledger.account? a with
  | some acc => exact refl_of R s
  | none =>
    refine moves.put s _ _ ?_
    rw [Ledger.accountOrNew, found]
    rfl

theorem processMultiSignAndEscrow (tx : Transaction) :
    Respects R (processMultiSignAndEscrow tx : NodeM σ Unit) := by
  refine .bind (.failIf _ _) fun _ => .bind (.failIf _ _) fun _ =>
    .bind_ok (moves.setAccountByAddressBytes _) fun s acc u run => ?_
  obtain ⟨address, stored, found, -, -, balance⟩ := setAccountByAddressBytes_ok run
  have written : ∀ modified : Except Error Account,
      (∀ new, modified = .ok new → new.balance = acc.balance) → R u (finalState
        ((liftLedger fun l => modified.map (l.putAccount acc.address) : NodeM σ Unit) u)) := by
    intro modified same
    unfold liftLedger
    rw [get_bind_run]
    cases modified with
    | error e => exact refl_of R u
    | ok new =>
      refine moves.put u _ _ ?_
      rw [same new rfl, address, Ledger.accountOrNew_of_some found, balance]
  split
  · refine written _ fun new modified => ?_
    exact (modifyAccountToEscrow_ok modified).2.2.1
  · split
    · refine written _ fun new modified => ?_
      exact (modifyAccountToMultiSign_ok modified).2.2.1
    · exact refl_of R u

end BalanceMoves

theorem gainsMoves : BalanceMoves (Gains (σ := σ) 0) :=
  ⟨fun _ _ _ same => Ledger.earns_putAccount same, Ledger.earns_of_same⟩

theorem gains_settleCommitment (tx : Transaction) (height : Int64) :
    Respects (Gains 0) (settleCommitment tx height : NodeM σ Unit) :=
  gainsMoves.ledgerMoves.settleCommitment trivial

def Transaction.isStaking (tx : Transaction) : Bool :=
  match tx.routingAccount with
  | some (some n) => decide (n < 256)
  | _ => false

/-- A deposit to a reward address: the branch of `ProcessTransaction` that does nothing. -/
def Transaction.depositsReward (tx : Transaction) : Bool :=
  !tx.isRecovery && tx.cancellationTarget.isNone && decide (0 < tx.amount) &&
    match tx.routingAccount with
    | some (some n) => decide (256 ≤ n ∧ n < 512)
    | _ => false

section Transaction
variable {tx : Transaction} {height blockTime fee : Int64}

theorem returns_gains_fee (charge : 0 ≤ fee.toInt) :
    Returns (Gains (-fee.toInt)) (addBalance .fee hash height a (-fee) : NodeM σ Unit) := by
  intro s _ t run
  have range := toInt_range fee
  exact (addBalance_gains run).of_eq (toInt_neg_of_fits (by omega))

theorem returns_gains_processRecoveryTransaction (charge : 0 ≤ fee.toInt)
    (recovers : tx.isRecovery = true) :
    Returns (Gains (-fee.toInt)) (processRecoveryTransaction env tx height fee) := by
  intro s _ t run
  obtain ⟨u, same, paid⟩ := (gainsMoves.processRecoveryTransaction recovers).of_ok run
  exact (same.trans (returns_gains_fee charge _ _ _ paid)).of_eq (Int.zero_add _)

theorem returns_gains_processCancellation (charge : 0 ≤ fee.toInt) (target : Hash) :
    Returns (Gains (-fee.toInt)) (processCancellation tx target height fee : NodeM σ Unit) := by
  refine returns_gains_after .get fun s => ?_
  split
  · exact .throw _
  · have cleaned : Returns (Gains 0) (do
        modify fun s => s.removeEscrowTransaction target
        modify fun s => { s with poolTxEscrow := s.poolTxEscrow.banTransactionByHash target }
        modify fun s => s.markVoided target height voidedCancelled
        record (.cancelled target tx.sender height) : NodeM σ Unit) :=
      Respects.returns (.bind (gainsMoves.frame fun u => u.poolFrame_removeEscrowTransaction target)
        fun _ => .bind (.modify fun _ => .of_ledger rfl) fun _ =>
        .bind (gainsMoves.frame fun u => u.poolFrame_markVoided _ _ _) fun _ =>
        .modify fun _ => .of_ledger rfl)
    intro s _ t run
    exact (returns_gains_bind (returns_gains_fee charge) (fun _ => cleaned) s _ t run).of_eq
      (Int.add_zero _)

theorem returns_gains_moveAmount (acc : Account) :
    Returns (Gains 0) (moveAmount tx acc height : NodeM σ Unit) := by
  unfold moveAmount
  split
  · exact .pure _
  · intro s _ t run
    obtain ⟨_, u, debit, credit⟩ := bind_eq_ok.mp run
    exact transfer_gains debit credit

theorem returns_gains_processStandard (charge : 0 ≤ fee.toInt) :
    Returns (Gains (-fee.toInt)) (processStandard tx height fee : NodeM σ Unit) := by
  refine returns_gains_after .get fun s => ?_
  split
  · exact .throw _
  · next acc _ =>
    have held : Returns (Gains 0) (holdOrMove tx acc height : NodeM σ Unit) := by
      unfold holdOrMove
      split
      · exact (gainsMoves.holdMoves.holdInEscrow fun _ _ => trivial).returns
      · split
        · exact (gainsMoves.holdMoves.holdForApprovals fun _ _ => trivial).returns
        · split
          · exact returns_gains_after (gainsMoves.frame fun u => u.poolFrame_addMultiSignTransaction _)
              fun _ => returns_gains_moveAmount acc
          · exact returns_gains_moveAmount acc
    have finish : Returns (Gains (-fee.toInt)) (do
        addBalance .fee tx.hash height tx.sender (-fee)
        processMultiSignAndEscrow tx : NodeM σ Unit) := by
      intro s _ t run
      exact (returns_gains_bind (returns_gains_fee charge)
        (fun _ => (gainsMoves.processMultiSignAndEscrow tx).returns) s _ t run).of_eq (Int.add_zero _)
    intro s _ t run
    exact (returns_gains_bind held (fun _ => finish) s _ t run).of_eq (Int.zero_add _)

theorem toInt_charge (charge : 0 ≤ fee.toInt) (inRange : fee.toInt + tx.amount.toInt < 2 ^ 63)
    (above : -2 ^ 63 < tx.amount.toInt) :
    (-fee - tx.amount).toInt = -fee.toInt - tx.amount.toInt := by
  have range := toInt_range fee
  have negated : (-fee).toInt = -fee.toInt := toInt_neg_of_fits (by omega)
  rw [toInt_sub_of_fits] <;> omega

theorem stakeOrUnstake_ok (run : stakeOrUnstake tx n height blockTime s = .ok () t) :
    ∃ l, ∃ call : StakingCall, t = { s with ledger := l } ∧ call.run s.ledger = .ok l ∧
      call.key.1 = n ∧ call.staked = tx.amount ∧ call.rewarded = 0 := by
  unfold stakeOrUnstake at run
  split at run
  · split at run
    · obtain ⟨l, staked, rfl⟩ := liftLedger_eq_ok.mp run
      exact ⟨l, .stake _ _, rfl, staked, rfl, rfl, rfl⟩
    · cases run
  · split at run
    · obtain ⟨l, staked, rfl⟩ := liftLedger_eq_ok.mp run
      exact ⟨l, .stake _ _, rfl, staked, rfl, rfl, rfl⟩
    · split at run
      · obtain ⟨l, unstaked, rfl⟩ := liftLedger_eq_ok.mp run
        exact ⟨l, .unstake _ _ _ _ _, rfl, unstaked, rfl, rfl, rfl⟩
      · cases run

theorem stakeOrUnstake_gains (low : n < 256) (bounded : s.ledger.coins < 2 ^ 63)
    (affordable : 0 ≤ tx.amount.toInt → s.ledger.NonNeg →
      tx.amount.toInt ≤ (s.ledger.accountOrNew tx.sender).balance.toInt)
    (run : stakeOrUnstake tx n height blockTime s = .ok () t) :
    Gains tx.amount.toInt s t ∧ (s.ledger.NonNeg → -2 ^ 63 < tx.amount.toInt) := by
  obtain ⟨l, call, rfl, called, rfl, staked, rewarded⟩ := stakeOrUnstake_ok run
  have zero : (0 : Int64).toInt = 0 := toInt_zero
  have fits : s.ledger.NonNeg → call.Fits (s.ledger.entryAt call.key) := by
    intro nonneg
    have balance := nonneg.balance_le tx.sender
    have stake := (nonneg.entryAt call.key).2.2.1
    have sums := nonneg.sum_nonneg
    simp only [Ledger.coins] at bounded
    unfold StakingCall.Fits
    rw [staked, rewarded]
    refine ⟨fun positive => ?_, fun positive => by omega⟩
    have paid := affordable (by omega) nonneg
    omega
  obtain ⟨earns, least⟩ := call.earns_of_ok low called fits
  rw [staked, rewarded] at earns least
  exact ⟨earns.of_eq (Int.add_zero _), fun nonneg => (least nonneg).1⟩

theorem processStaking_gains (low : n < 256) (charge : 0 ≤ fee.toInt)
    (inRange : fee.toInt + tx.amount.toInt < 2 ^ 63) (bounded : s.ledger.coins < 2 ^ 63)
    (run : processStaking tx n height blockTime fee s = .ok () t) : Gains (-fee.toInt) s t := by
  obtain ⟨_, u, staked, paying⟩ := bind_eq_ok.mp run
  obtain ⟨_, v, paid, finishing⟩ := bind_eq_ok.mp paying
  -- the stake leaves the accounts alone, so the debit that follows tests the same balance
  have accounts : u.ledger.accounts = s.ledger.accounts := by
    obtain ⟨l, call, rfl, called, -⟩ := stakeOrUnstake_ok staked
    exact StakingCall.accounts_of_ok called
  have balance : u.ledger.accountOrNew tx.sender = s.ledger.accountOrNew tx.sender := by
    rw [Ledger.accountOrNew, Ledger.accountOrNew, Ledger.account?, accounts]
    rfl
  obtain ⟨enough, -⟩ := addBalance_eq_ok.mp paid
  rw [balance, lt_iff, toInt_zero] at enough
  have affordable : 0 ≤ tx.amount.toInt → s.ledger.NonNeg →
      tx.amount.toInt ≤ (s.ledger.accountOrNew tx.sender).balance.toInt := by
    intro positive nonneg
    have known := nonneg.accountOrNew tx.sender
    have bound := toInt_range (s.ledger.accountOrNew tx.sender).balance
    have total := toInt_charge charge inRange (by omega)
    rcases toInt_add_cases (s.ledger.accountOrNew tx.sender).balance (-fee - tx.amount) with
      h | h | h <;> omega
  obtain ⟨stakes, above⟩ := stakeOrUnstake_gains low bounded affordable staked
  intro nonneg
  have whole := ((stakes.trans (addBalance_gains paid)).trans
    ((gainsMoves.processMultiSignAndEscrow tx).of_ok finishing)) nonneg
  rw [toInt_charge charge inRange (above nonneg)] at whole
  exact ⟨whole.1, by omega⟩

theorem processDelegated_gains (charge : 0 ≤ fee.toInt)
    (inRange : n < 256 → fee.toInt + tx.amount.toInt < 2 ^ 63) (bounded : s.ledger.coins < 2 ^ 63)
    (run : processDelegated env tx n height blockTime fee s = .ok () t) :
    Gains (if 0 < tx.amount ∧ 256 ≤ n ∧ n < 512 then 0 else -fee.toInt) s t := by
  unfold processDelegated at run
  by_cases low : n < 256
  · rw [if_pos low] at run
    rw [if_neg (by omega)]
    exact processStaking_gains low charge (inRange low) bounded run
  rw [if_neg low] at run
  by_cases middle : n < 512
  · rw [if_pos middle] at run
    unfold processRewards at run
    simp only [get_bind_run, failIf_bind_eq_ok] at run
    obtain ⟨-, run⟩ := run
    by_cases positive : 0 < tx.amount
    · rw [if_pos positive] at run
      rw [if_pos ⟨positive, by omega, middle⟩]
      cases run
      exact .refl _
    · rw [if_neg positive] at run
      rw [if_neg fun both => positive both.1]
      split at run
      · next negative =>
        obtain ⟨_, u, withdrawn, paid⟩ := bind_eq_ok.mp run
        obtain ⟨l, taken, rfl⟩ := liftLedger_eq_ok.mp withdrawn
        rw [lt_iff, toInt_zero] at negative
        have called : (StakingCall.withdrawReward tx.sender tx.amount height (env.clock height)
          (n % 256)).run s.ledger = .ok l := taken
        obtain ⟨earns, above⟩ := StakingCall.earns_of_ok _ (Nat.mod_lt n (by decide)) called
          fun _ => ⟨fun none => (lt_irrefl 0 none).elim, fun some => (lt_asymm some negative).elim⟩
        simp only [StakingCall.staked, StakingCall.rewarded, toInt_zero, zero_add] at earns above
        intro nonneg
        have whole := (Ledger.Earns.trans earns (addBalance_gains paid)) nonneg
        have feeRange := toInt_range fee
        rw [toInt_charge charge (by omega) (above nonneg).2] at whole
        exact ⟨whole.1, by omega⟩
      · cases run
  · rw [if_neg middle] at run
    rw [if_neg (by omega)]
    exact returns_gains_fee charge _ _ _ run

theorem processTransaction_gains (charged : tx.calcFee = some fee) (charge : 0 ≤ fee.toInt)
    (inRange : tx.isStaking → fee.toInt + tx.amount.toInt < 2 ^ 63) (bounded : s.ledger.coins < 2 ^ 63)
    (run : processTransaction env tx height blockTime s = .ok () t) :
    Gains (if tx.depositsReward then 0 else -fee.toInt) s t := by
  obtain ⟨_, charged', course⟩ := processTransaction_course run
  obtain rfl := Option.some.inj (charged.symm.trans charged')
  have counted := gainsMoves.counted s tx
  have after (step : (s.counted tx).ledger.coins < 2 ^ 63 →
      Gains (if tx.depositsReward then 0 else -fee.toInt) (s.counted tx) t) :
      Gains (if tx.depositsReward then 0 else -fee.toInt) s t := by
    intro nonneg
    obtain ⟨nonneg', same⟩ := counted nonneg
    obtain ⟨left, gained⟩ := step (by omega) nonneg'
    exact ⟨left, by rw [gained, same, Int.add_zero]⟩
  cases course with
  | recovery recovers run =>
    rw [if_neg (by simp [depositsReward, recovers])]
    exact returns_gains_processRecoveryTransaction charge recovers _ _ _ run
  | cancellation target _ names run =>
    refine after fun _ => ?_
    rw [if_neg (by simp [depositsReward, names])]
    exact returns_gains_processCancellation charge target _ _ _ run
  | standard _ _ routed run =>
    refine after fun _ => ?_
    rw [if_neg (by simp [depositsReward, routed])]
    exact returns_gains_processStandard charge _ _ _ run
  | delegated n ordinary names routed run =>
    refine after fun bounded' => ?_
    have deposits : tx.depositsReward = true ↔ 0 < tx.amount ∧ 256 ≤ n ∧ n < 512 := by
      simp [depositsReward, ordinary, names, routed]
    simpa only [deposits] using processDelegated_gains charge
      (fun low => inRange (by simp [isStaking, routed, low])) bounded' run

end Transaction

section Settlement
variable {tx main e : Transaction} {height : Int64}

theorem returns_gains_executeMainTx : Returns (Gains 0) (executeMainTx env main height) := by
  refine returns_gains_after (.modify fun _ => .of_ledger rfl) fun _ =>
    returns_gains_after (gainsMoves.frame fun u => u.poolFrame_removeMultiSignTransaction _)
      fun _ => ?_
  split
  · exact (gains_settleCommitment _ _).returns
  · intro s _ t run
    obtain ⟨_, u, debit, credit⟩ := bind_eq_ok.mp run
    exact transfer_gains (onError_eq_ok.mp debit) credit

theorem returns_gains_processTransactionsMultiSign :
    Returns (Gains 0) (processTransactionsMultiSign env tx height) := by
  unfold processTransactionsMultiSign
  split
  · exact .pure _
  · refine returns_gains_after .get fun s => returns_gains_after (gainsMoves.applyMoves.findMainTx _ _)
      fun found => ?_
    split
    · exact returns_gains_after (gainsMoves.frame fun u => foldl_frame (fun v (t : Transaction) =>
        v.poolFrame_removeMultiSignTransaction t.hash) _ u) fun _ => .throw _
    · unfold settleMainTx
      split
      · exact returns_gains_after (gainsMoves.frame fun u => foldl_frame
          (fun v (t : Transaction) => (v.poolFrame_removeMultiSignTransaction t.hash).trans
            (Node.poolFrame_markVoided _ _ _ _)) _ u) fun _ => .throw _
      · refine returns_gains_after .get fun s => ?_
        split
        · exact .throw _
        · split
          · exact .pure _
          · split
            · exact .pure _
            · split
              · exact .throw _
              · exact .pure _
              · split
                · exact .throw _
                · exact returns_gains_executeMainTx

/-- From a ledger that is non-negative and adds up to less than `2 ^ 63` the coins stay. -/
def Conserves (s t : Node σ) : Prop :=
  s.ledger.NonNeg → s.ledger.coins < 2 ^ 63 → t.ledger.NonNeg ∧ t.ledger.coins = s.ledger.coins

instance : IsPreorder (Node σ) Conserves where
  refl _ nonneg _ := ⟨nonneg, rfl⟩
  trans _ _ _ first second nonneg bounded := by
    obtain ⟨nonneg', same⟩ := first nonneg bounded
    obtain ⟨nonneg'', same'⟩ := second nonneg' (by omega)
    exact ⟨nonneg'', by omega⟩

theorem Gains.conserves (gains : Gains 0 s t) : Conserves s t := by
  intro nonneg _
  obtain ⟨nonneg', same⟩ := gains nonneg
  exact ⟨nonneg', by omega⟩

theorem Ledger.NonNeg.credit_fits {l : Ledger} (nonneg : l.NonNeg) (a : AddressBytes) {added : Int64}
    (lower : 0 ≤ added.toInt) (upper : l.coins + added.toInt < 2 ^ 63) :
    ((l.accountOrNew a).balance + added).toInt = (l.accountOrNew a).balance.toInt + added.toInt ∧
      ¬ (l.accountOrNew a).balance + added < 0 := by
  have known := nonneg.accountOrNew a
  have held := nonneg.balance_le a
  have sums := nonneg.sum_nonneg
  have whole : (l.accountOrNew a).balance.toInt ≤ l.coins := by
    simp only [Ledger.coins]
    omega
  have sum := toInt_add_of_fits (a := (l.accountOrNew a).balance) (b := added) (by omega) (by omega)
  exact ⟨sum, by rw [lt_iff, sum, toInt_zero]; omega⟩

theorem conserves_payEscrow (amount : 0 ≤ e.amount.toInt) :
    Respects Conserves (payEscrow env e height) := by
  intro s nonneg bounded
  obtain ⟨u, ledger, -, -, -, -, equal⟩ := payEscrow_start env height e s
  rw [equal]
  have nonneg' : u.ledger.NonNeg := ledger ▸ nonneg
  have bounded' : u.ledger.coins < 2 ^ 63 := ledger ▸ bounded
  rw [← ledger]
  have range := toInt_range e.amount
  by_cases short : (u.ledger.accountOrNew e.sender).balance + -e.amount < 0
  · rw [escrowPayment_short env e height short, finalState_error,
      (Node.poolFrame_removeBadTransactionByHash _ e.hash).ledger]
    have kept : Ledger.Earns 0 u.ledger
        (u.ledger.putAccount e.sender (u.ledger.accountOrNew e.sender)) :=
      Ledger.earns_putAccount rfl
    exact ⟨(kept nonneg').1, by rw [(kept nonneg').2, Int.add_zero]⟩
  · obtain ⟨v, debit, -⟩ := addBalance_runs .escrow e.hash height e.sender (-e.amount) short
    obtain ⟨nonnegV, coinsV⟩ := addBalance_gains debit nonneg'
    rw [toInt_neg_of_fits (by omega)] at coinsV
    have fits := (nonnegV.credit_fits e.recipient amount (by omega)).2
    obtain ⟨w, credit, -⟩ := addBalance_runs .escrow e.hash height e.recipient e.amount fits
    obtain ⟨nonnegW, coinsW⟩ := transfer_gains debit credit nonneg'
    rw [escrowPayment_of_debit env debit, bind_of_ok credit, modify_bind_run]
    change (w.removeEscrowTransaction e.hash).ledger.NonNeg ∧
      (w.removeEscrowTransaction e.hash).ledger.coins = u.ledger.coins
    rw [(w.poolFrame_removeEscrowTransaction e.hash).ledger]
    exact ⟨nonnegW, by omega⟩

theorem conserves_settleEscrow (amount : 0 ≤ e.amount.toInt) :
    Respects Conserves (settleEscrow env height e) := by
  unfold settleEscrow
  split
  · exact .throw _
  · exact .pure _
  · refine .bind .get fun s => ?_
    split
    · exact .throw _
    · split
      · exact .pure _
      · split
        · exact .modify fun u => (gainsMoves.of_ledger (u.poolFrame_moveToMultiSign e).ledger).conserves
        · split
          · refine Respects.mono (fun _ _ => Gains.conserves) (.bind (gains_settleCommitment e height)
              fun _ => .bind (gainsMoves.frame fun u => u.poolFrame_removeEscrowTransaction _)
              fun _ => .modify fun _ => .of_ledger rfl)
          · exact conserves_payEscrow amount

theorem conserves_processTransactionsEscrow (amounts : ∀ e ∈ s.escrowed, 0 ≤ e.amount.toInt) :
    Conserves s (finalState (processTransactionsEscrow env height s)) := by
  unfold processTransactionsEscrow
  rw [get_bind_run]
  obtain ⟨due, sub, -, equal⟩ := s.poolTxEscrow.peekTransactions_escrow
    Common.maxTransactionInPool height
  rw [equal]
  refine Respects.forM _ (fun e member => conserves_settleEscrow ?_) s
  obtain ⟨item, inside, rfl⟩ := List.mem_map.mp member
  exact amounts _ (Multiset.mem_coe.mpr (List.mem_map.mpr ⟨item, sub.subset inside, rfl⟩))

end Settlement
end QwidNode.Source

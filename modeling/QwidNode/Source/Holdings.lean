import QwidNode.Source.Coins

/-!
# Whose coins a computation touches

What an address owns is its balance and, in every shard, its stake and unclaimed reward. `Spares a`
says that a computation leaves what every address other than `a` owns as it was.
-/
namespace QwidNode.Source
open Lib
variable {σ : Type} {env : Env σ} {s t u : Node σ} {l l' l'' : Ledger} {a b : AddressBytes}

namespace Ledger

def holdings (l : Ledger) (a : AddressBytes) : Int64 × (Nat → Int64 × Int64) :=
  ((l.accountOrNew a).balance, fun n =>
    ((l.stakingAccount a n).stakedBalance, (l.stakingAccount a n).stakingRewards))

def Spares (a : AddressBytes) (l l' : Ledger) : Prop :=
  ∀ b, b ≠ a → l'.holdings b = l.holdings b

theorem Spares.refl (a : AddressBytes) (l : Ledger) : Spares a l l := fun _ _ => rfl

theorem Spares.trans (first : Spares a l l') (second : Spares a l' l'') : Spares a l l'' :=
  fun b other => (second b other).trans (first b other)

theorem accountOrNew_putAccount (l : Ledger) (a b : AddressBytes) (acc : Account) :
    (l.putAccount a acc).accountOrNew b = if b = a then acc else l.accountOrNew b := by
  rw [accountOrNew, account?_putAccount]
  split
  · rfl
  · rfl

theorem holdings_putAccount_ne (other : b ≠ a) (acc : Account) :
    (l.putAccount a acc).holdings b = l.holdings b := by
  unfold holdings
  rw [accountOrNew_putAccount, if_neg other]
  rfl

theorem holdings_putAccount_same {acc : Account} (same : acc.balance = (l.accountOrNew a).balance) :
    (l.putAccount a acc).holdings b = l.holdings b := by
  by_cases equal : b = a
  · subst equal
    unfold holdings
    rw [accountOrNew_putAccount, if_pos rfl, same]
    rfl
  · exact holdings_putAccount_ne equal acc

theorem spares_putAccount (l : Ledger) (a : AddressBytes) (acc : Account) :
    Spares a l (l.putAccount a acc) := fun _ other => holdings_putAccount_ne other acc

theorem spares_of_same {acc : Account} (same : acc.balance = (l.accountOrNew b).balance) :
    Spares a l (l.putAccount b acc) := fun _ _ => holdings_putAccount_same same

theorem spares_of_eq (accounts : l'.accounts = l.accounts) (staking : l'.staking = l.staking) :
    Spares a l l' := by
  intro b _
  unfold holdings accountOrNew account? stakingAccount
  rw [accounts, staking]

theorem stakingAccount_insert {key : Nat × AddressBytes} {new : StakingAccount}
    (written : l'.staking = l.staking.insert key new) (b : AddressBytes) (m : Nat) :
    l'.stakingAccount b m =
      if m < 256 ∧ (m, b) = key then new else l.stakingAccount b m := by
  by_cases low : m < 256
  · rw [stakingAccount_eq_entryAt _ _ low, stakingAccount_eq_entryAt _ _ low,
      entryAt_insert written]
    simp [low]
  · rw [stakingAccount, if_pos (Nat.not_lt.mp low), if_neg fun both => low both.1, stakingAccount,
      if_pos (Nat.not_lt.mp low)]

theorem spares_of_call (call : StakingCall) (run : call.run l = .ok l') :
    Spares call.key.2 l l' := by
  obtain ⟨new, writes⟩ := StakingCall.writes_of_ok run
  have accounts := StakingCall.accounts_of_ok run
  intro b other
  have entries : ∀ m, l'.stakingAccount b m = l.stakingAccount b m := by
    intro m
    rw [stakingAccount_insert writes.staking, if_neg]
    exact fun same => other (congrArg Prod.snd same.2)
  unfold holdings accountOrNew account?
  simp only [entries, accounts]

end Ledger

def Spares (a : AddressBytes) (s t : Node σ) : Prop := Ledger.Spares a s.ledger t.ledger

instance (a : AddressBytes) : IsPreorder (Node σ) (Spares a) where
  refl s := .refl a s.ledger
  trans _ _ _ first second := Ledger.Spares.trans first second

theorem sparesMoves (a : AddressBytes) : BalanceMoves (Spares (σ := σ) a) :=
  ⟨fun _ _ _ same => Ledger.spares_of_same same, Ledger.spares_of_eq⟩

theorem spares_liftLedger {f : Ledger → Except Error Ledger}
    (kept : ∀ l l', f l = .ok l' → Ledger.Spares a l l') :
    Respects (Spares a) (liftLedger f : NodeM σ Unit) := by
  intro s
  unfold liftLedger
  rw [get_bind_run]
  cases run : f s.ledger with
  | ok l => exact kept s.ledger l run
  | error e => exact refl_of (Spares a) s

theorem spares_addBalance (route : Route) (hash : Hash) (height : Int64) (a : AddressBytes)
    (added : Int64) :
    Respects (Spares a) (addBalance route hash height a added : NodeM σ Unit) := by
  intro s
  unfold addBalance
  simp only
  split
  · exact Ledger.spares_putAccount _ a _
  · exact Ledger.spares_putAccount _ a _

theorem spares_addBalance_zero (route : Route) (hash : Hash) (height : Int64)
    (b : AddressBytes) :
    Respects (Spares a) (addBalance route hash height b 0 : NodeM σ Unit) := by
  intro s
  unfold addBalance
  simp only
  split
  · exact Ledger.spares_of_same rfl
  · exact Ledger.spares_of_same (by simp)

section Transaction
variable {tx : Transaction} {height blockTime fee : Int64}

theorem spares_processRecoveryTransaction (recovers : tx.isRecovery = true) :
    Respects (Spares tx.sender) (processRecoveryTransaction env tx height fee) :=
  ((sparesMoves tx.sender).processRecoveryTransaction recovers).respects
    (spares_addBalance _ _ _ _ _)

theorem spares_processCancellation (target : Hash) :
    Respects (Spares tx.sender) (processCancellation tx target height fee : NodeM σ Unit) := by
  have moves := sparesMoves (σ := σ) tx.sender
  refine .bind .get fun s => ?_
  split
  · exact .throw _
  · exact .bind (spares_addBalance _ _ _ _ _) fun _ =>
      .bind (moves.frame fun u => u.poolFrame_removeEscrowTransaction target) fun _ =>
      .bind (.modify fun _ => moves.of_ledger rfl) fun _ =>
      .bind (moves.frame fun u => u.poolFrame_markVoided _ _ _) fun _ =>
      .modify fun _ => moves.of_ledger rfl

theorem spares_stakeOrUnstake {n : Nat}
    (own : 0 < tx.txData.lockedAmount → tx.recipient = tx.sender) :
    Respects (Spares tx.sender) (stakeOrUnstake tx n height blockTime : NodeM σ Unit) := by
  unfold stakeOrUnstake
  simp only
  split
  · next locks =>
    rw [own locks]
    split
    · exact spares_liftLedger fun _ _ => Ledger.spares_of_call (.stake _ _)
    · exact .throw _
  · split
    · exact spares_liftLedger fun _ _ => Ledger.spares_of_call (.stake _ _)
    · split
      · exact spares_liftLedger fun _ _ => Ledger.spares_of_call (.unstake _ _ _ _ _)
      · exact .throw _

theorem spares_afterStake :
    Respects (Spares tx.sender) (do
      addBalance .staking tx.hash height tx.sender (-fee - tx.amount)
      processMultiSignAndEscrow tx : NodeM σ Unit) :=
  .bind (spares_addBalance _ _ _ _ _) fun _ => (sparesMoves _).processMultiSignAndEscrow tx

theorem spares_processRewards {n : Nat} :
    Respects (Spares tx.sender) (processRewards env tx n height fee) := by
  unfold processRewards
  refine .bind .get fun s => .bind (.failIf _ _) fun _ => ?_
  split
  · exact .pure _
  · split
    · exact .bind (spares_liftLedger fun _ _ =>
        Ledger.spares_of_call (.withdrawReward _ _ _ _ _)) fun _ =>
        spares_addBalance _ _ _ _ _
    · exact .throw _

theorem spares_processDelegated {n : Nat}
    (own : 0 < tx.txData.lockedAmount → tx.recipient = tx.sender) :
    Respects (Spares tx.sender) (processDelegated env tx n height blockTime fee) := by
  unfold processDelegated
  split
  · exact .bind (spares_stakeOrUnstake own) fun _ => spares_afterStake
  · split
    · exact spares_processRewards
    · exact spares_addBalance _ _ _ _ _

theorem spares_moveAmount (empty : tx.amount = 0) (acc : Account) :
    Respects (Spares tx.sender) (moveAmount tx acc height : NodeM σ Unit) := by
  unfold moveAmount
  split
  · exact .pure _
  · rw [empty]
    exact .bind (spares_addBalance _ _ _ _ _) fun _ => spares_addBalance_zero _ _ _ _

theorem spares_holdOrMove {acc : Account} (restricted : acc.restricted)
    (approval : tx.txParam.multiSignTx ≠ zerosHash → tx.amount = 0) :
    Respects (Spares tx.sender) (holdOrMove tx acc height : NodeM σ Unit) := by
  unfold holdOrMove
  split
  · exact (sparesMoves _).holdMoves.holdInEscrow fun _ _ => trivial
  · next undelayed =>
    split
    · exact (sparesMoves _).holdMoves.holdForApprovals fun _ _ => trivial
    · next unshared =>
      have approves : tx.txParam.multiSignTx ≠ zerosHash := by
        intro direct
        rcases restricted with delayed | shared
        · exact undelayed ⟨delayed, direct⟩
        · exact unshared ⟨shared, direct⟩
      rw [if_pos approves]
      exact .bind ((sparesMoves _).frame fun u => u.poolFrame_addMultiSignTransaction _)
        fun _ => spares_moveAmount (approval approves) acc

end Transaction
end QwidNode.Source
